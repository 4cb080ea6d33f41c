import RfxVoiced.Mumble.Varint

/-!
# Voice packets

A voice packet that a Mumble server passes on starts with a byte of codec and target. The session
of the speaker and a sequence number follow, and for an Opus packet the length of its payload, in
which one bit marks the end of a transmission. Parsing says where the payload is.

## Main definitions

* `parseVoice` — the fields of a packet, and where its payload is
* `voicePacket` — an Opus packet as it is written

## Main results

* `parseVoice_round_trip` — a written packet is parsed back, and no payload reaches past its packet
-/

namespace RfxVoiced.Mumble

open Varint

/-- The header of a voice packet, and where its payload lies. -/
structure VoicePacket where
  codec : UInt8
  target : UInt8
  session : UInt32
  payloadStart : ℕ
  payloadLen : ℕ
  deriving DecidableEq, Repr

/-- The codec of Opus packets. -/
def opusCodec : UInt8 := 4

def parseVoice (data : List UInt8) : Option VoicePacket :=
  match data with
  | [] => none
  | header :: rest =>
    (Reader.new rest).varint.bind fun session =>
      session.2.varint.bind fun sequence =>
        let codec := header >>> 5
        let length :=
          if codec = opusCodec then
            sequence.2.varint.map fun x => ((x.1.toUInt64 &&& 0x1fff).toNat, x.2)
          -- Packets of other codecs are payload to their end.
          else some (sequence.2.remaining, sequence.2)
        length.bind fun payload =>
          let start := 1 + payload.2.pos
          if start + payload.1 > data.length then none
          else
            some
              { codec := codec
                target := header &&& 0x1f
                session := session.1.toUInt64.toUInt32
                payloadStart := start
                payloadLen := payload.1 }

/-- The length field of a payload, with the bit that ends a transmission set or clear. -/
def lengthField (length : ℕ) (terminator : Bool) : UInt64 :=
  UInt64.ofNat length ||| (if terminator then 0x2000 else 0)

/-- An Opus packet as it is written, up to its payload. -/
def voiceHeader (target : UInt8) (session : UInt32) (sequence : UInt64) (length : ℕ)
    (terminator : Bool) : List UInt8 :=
  writeVarint (writeVarint (writeVarint [opusCodec <<< 5 ||| target] session.toUInt64) sequence)
    (lengthField length terminator)

/-- The bit that ends a transmission is not part of the length. -/
theorem lengthField_and {length : ℕ} (h : length < 0x2000) (terminator : Bool) :
    (lengthField length terminator &&& 0x1fff).toNat = length := by
  have hlt : length < 2 ^ 64 := lt_trans h (by decide)
  have hlength : (UInt64.ofNat length).toNat = length := UInt64.toNat_ofNat_of_lt' hlt
  have hmask : (0x1fff : UInt64).toNat = 2 ^ 13 - 1 := rfl
  rw [lengthField, UInt64.toNat_and, UInt64.toNat_or, hlength, hmask,
    Nat.and_two_pow_sub_one_eq_mod]
  cases terminator with
  | false =>
    change (length ||| 0) % 2 ^ 13 = length
    rw [Nat.or_zero, Nat.mod_eq_of_lt h]
  | true =>
    change (length ||| 2 ^ 13) % 2 ^ 13 = length
    have hset := Nat.two_pow_add_eq_or_of_lt (i := 13) h 1
    rw [mul_one] at hset
    rw [Nat.or_comm, ← hset, Nat.add_mod_left, Nat.mod_eq_of_lt h]

/-- The leading byte of an Opus packet says its codec and its target. -/
theorem header_bits {target : UInt8} (h : target < 32) :
    (opusCodec <<< 5 ||| target) >>> 5 = opusCodec ∧
      (opusCodec <<< 5 ||| target) &&& 0x1f = target := by
  have hall : ∀ i : Fin 32, (opusCodec <<< 5 ||| UInt8.ofNat i) >>> 5 = opusCodec ∧
      (opusCodec <<< 5 ||| UInt8.ofNat i) &&& 0x1f = UInt8.ofNat i := by decide
  have htarget := hall ⟨target.toNat, UInt8.lt_iff_toNat_lt.mp h⟩
  rwa [UInt8.ofNat_toNat] at htarget

theorem voiceHeader_eq (target : UInt8) (session : UInt32) (sequence : UInt64) (length : ℕ)
    (terminator : Bool) :
    voiceHeader target session sequence length terminator =
      (opusCodec <<< 5 ||| target) :: (writeVarint [] session.toUInt64 ++
        (writeVarint [] sequence ++ writeVarint [] (lengthField length terminator))) := by
  rw [voiceHeader, writeVarint_append, writeVarint_append (writeVarint _ _),
    writeVarint_append [_], List.append_assoc, List.append_assoc, List.singleton_append]

/-- After the leading byte, an Opus packet is read field by field. -/
theorem parseVoice_voiceHeader {target : UInt8} (htarget : target < 32) (session : UInt32)
    (sequence : UInt64) {length : ℕ} (hlength : length < 0x2000) (terminator : Bool)
    {rest : List UInt8} (hfits : length ≤ rest.length) :
    parseVoice (voiceHeader target session sequence length terminator ++ rest) =
      some
        { codec := opusCodec
          target := target
          session := session
          payloadStart := (voiceHeader target session sequence length terminator).length
          payloadLen := length } := by
  obtain ⟨hcodec, htgt⟩ := header_bits htarget
  have hsession : session.toUInt64.toInt64.toUInt64.toUInt32 = session := by
    rw [UInt64.toUInt64_toInt64]
    exact UInt32.toUInt32_toUInt64 session
  rw [voiceHeader_eq, List.cons_append, List.append_assoc, List.append_assoc]
  generalize hs : writeVarint [] session.toUInt64 = s
  generalize hq : writeVarint [] sequence = q
  generalize hl : writeVarint [] (lengthField length terminator) = l
  -- Each field is read where the one before it ended.
  let r₁ : Reader := Reader.new (s ++ (q ++ (l ++ rest)))
  let r₂ : Reader := ⟨s ++ (q ++ (l ++ rest)), 0 + s.length⟩
  let r₃ : Reader := ⟨s ++ (q ++ (l ++ rest)), 0 + s.length + q.length⟩
  have hdrop₁ : r₁.buf.drop r₁.pos = writeVarint [] session.toUInt64 ++ (q ++ (l ++ rest)) := by
    rw [hs]
    rfl
  have hdrop₂ : r₂.buf.drop r₂.pos = writeVarint [] sequence ++ (l ++ rest) := by
    rw [hq]
    simp only [r₂, Nat.zero_add, List.drop_left]
  have hdrop₃ : r₃.buf.drop r₃.pos =
      writeVarint [] (lengthField length terminator) ++ rest := by
    rw [hl]
    simp only [r₃, Nat.zero_add, ← List.drop_drop, List.drop_left]
  have h1 : (Reader.new (s ++ (q ++ (l ++ rest)))).varint =
      some (session.toUInt64.toInt64, ⟨s ++ (q ++ (l ++ rest)), 0 + s.length⟩) := by
    have hread := Reader.varint_of_drop hdrop₁
    rw [hs] at hread
    exact hread
  have h2 : (⟨s ++ (q ++ (l ++ rest)), 0 + s.length⟩ : Reader).varint =
      some (sequence.toInt64, ⟨s ++ (q ++ (l ++ rest)), 0 + s.length + q.length⟩) := by
    have hread := Reader.varint_of_drop hdrop₂
    rw [hq] at hread
    exact hread
  have h3 : (⟨s ++ (q ++ (l ++ rest)), 0 + s.length + q.length⟩ : Reader).varint =
      some ((lengthField length terminator).toInt64,
        ⟨s ++ (q ++ (l ++ rest)), 0 + s.length + q.length + l.length⟩) := by
    have hread := Reader.varint_of_drop hdrop₃
    rw [hl] at hread
    exact hread
  have hstart : ¬ 1 + (0 + s.length + q.length + l.length) + length >
      ((opusCodec <<< 5 ||| target) :: (s ++ (q ++ (l ++ rest)))).length := by
    simp only [List.length_cons, List.length_append]
    omega
  simp only [parseVoice, h1, h2, h3, Option.bind_some, hcodec, htgt, if_true, Option.map_some,
    UInt64.toUInt64_toInt64, lengthField_and hlength]
  rw [if_neg hstart]
  have hlen : 1 + (0 + s.length + q.length + l.length) =
      ((opusCodec <<< 5 ||| target) :: (s ++ (q ++ l))).length := by
    simp only [List.length_cons, List.length_append]
    omega
  rw [UInt64.toUInt64_toInt64] at hsession
  rw [hsession, hlen]

/-- **Voice packets parse back to what was encoded.** Whatever follows an Opus packet, its target
and its session come back, and the payload is delimited exactly, with and without the bit that ends
a transmission. And whatever is parsed, no payload reaches past its packet. -/
theorem parseVoice_round_trip :
    (∀ (target : UInt8) (session : UInt32) (sequence : UInt64) (payload trailing : List UInt8)
        (terminator : Bool), target < 32 → payload.length < 0x2000 →
      ∃ v, parseVoice (voiceHeader target session sequence payload.length terminator ++
          (payload ++ trailing)) = some v ∧
        v.codec = opusCodec ∧ v.target = target ∧ v.session = session ∧
        v.payloadLen = payload.length ∧
        ((voiceHeader target session sequence payload.length terminator ++
          (payload ++ trailing)).drop v.payloadStart).take v.payloadLen = payload) ∧
    ∀ data v, parseVoice data = some v → v.payloadStart + v.payloadLen ≤ data.length := by
  constructor
  · intro target session sequence payload trailing terminator htarget hpayload
    refine ⟨_, parseVoice_voiceHeader htarget session sequence hpayload terminator (by simp), rfl,
      rfl, rfl, rfl, ?_⟩
    rw [List.drop_left, List.take_left]
  · intro data v h
    cases data with
    | nil => exact absurd h (by simp [parseVoice])
    | cons header rest =>
      simp only [parseVoice, Option.bind_eq_some_iff] at h
      obtain ⟨session, -, sequence, -, payload, -, h⟩ := h
      split_ifs at h with hpast
      rw [← Option.some.inj h]
      exact Nat.le_of_not_lt hpast

end RfxVoiced.Mumble
