import RfxVoiced.Mumble.Varint

/-!
# Decoding numbers with every step checked

A build with overflow checks stops at a step whose result does not fit its type, where a release
build goes on with what is left of it. This file decodes once more, with every step checked. The
cursor stays within its packet, and shifts and casts drop bits without being checked; what is left
is the negation of a number, and there is one number that has no negative.

## Main definitions

* `Reader.varintChecked` — the decoder with every step checked
* `NegatesMin` — the packets with the one number that cannot be negated behind a negative prefix

## Main results

* `Reader.varint_eq_min_iff` — what is read as that number
* `Reader.varintChecked_eq_ok_iff` — which packets are decoded without an overflow
-/

namespace RfxVoiced.Varint

/-- The step that did not fit. -/
inductive Overflow where
  | position
  | negation
  deriving DecidableEq, Repr

/-- The negative of a number, where it has one. -/
def negChecked (x : Int64) : Except Overflow Int64 :=
  if x = Int64.minValue then .error .negation else .ok (-x)

namespace Reader

/-- The next byte. The position is a 64-bit number. -/
def byteChecked (r : Reader) : Except Overflow (Option (UInt8 × Reader)) :=
  match r.buf[r.pos]? with
  | none => .ok none
  | some b =>
    if r.pos + 1 < 2 ^ 64 then .ok (some (b, { r with pos := r.pos + 1 })) else .error .position

/-- The loop of `takeChecked`, with the number read so far. -/
def takeLoopChecked (v : UInt64) : ℕ → Reader → Except Overflow (Option (UInt64 × Reader))
  | 0, r => .ok (some (v, r))
  | n + 1, r =>
    match r.byteChecked with
    | .error o => .error o
    | .ok none => .ok none
    | .ok (some x) => takeLoopChecked (shiftIn v x.1) n x.2

def takeChecked (r : Reader) (n : ℕ) : Except Overflow (Option (UInt64 × Reader)) :=
  takeLoopChecked 0 n r

/-- The negative of the number that was read, if one was. -/
def negate : Option (Int64 × Reader) → Except Overflow (Option (Int64 × Reader))
  | none => .ok none
  | some x => (negChecked x.1).map fun y => some (y, x.2)

theorem remaining_byteChecked {r r' : Reader} {b : UInt8}
    (h : r.byteChecked = .ok (some (b, r'))) : r'.remaining < r.remaining := by
  unfold byteChecked at h
  split at h
  · exact absurd (Except.ok.inj h) (by simp)
  · next b' hb =>
    split at h
    · have hlt := (List.getElem?_eq_some_iff.mp hb).1
      obtain ⟨-, rfl⟩ := Prod.mk.inj (Option.some.inj (Except.ok.inj h))
      simp only [remaining]
      omega
    · contradiction

/-- Read a number, as `varint` does, with every step checked. -/
def varintChecked (r : Reader) : Except Overflow (Option (Int64 × Reader)) :=
  match _h : r.byteChecked with
  | .error o => .error o
  | .ok none => .ok none
  | .ok (some (v, r')) =>
    if v &&& 0x80 = 0x00 then .ok (some ((v &&& 0x7f).toUInt64.toInt64, r'))
    else if v &&& 0xc0 = 0x80 then
      (r'.takeChecked 1).map fun y =>
        y.map fun x => (((v &&& 0x3f).toUInt64 <<< 8 ||| x.1).toInt64, x.2)
    else if v &&& 0xe0 = 0xc0 then
      (r'.takeChecked 2).map fun y =>
        y.map fun x => (((v &&& 0x1f).toUInt64 <<< 16 ||| x.1).toInt64, x.2)
    else if v &&& 0xf0 = 0xe0 then
      (r'.takeChecked 3).map fun y =>
        y.map fun x => (((v &&& 0x0f).toUInt64 <<< 24 ||| x.1).toInt64, x.2)
    else if v &&& 0xfc = 0xf0 then
      (r'.takeChecked 4).map fun y => y.map fun x => (x.1.toInt64, x.2)
    else if v &&& 0xfc = 0xf4 then
      (r'.takeChecked 8).map fun y => y.map fun x => (x.1.toInt64, x.2)
    else if v &&& 0xfc = 0xf8 then r'.varintChecked.bind negate
    else if v &&& 0xfc = 0xfc then negate (some ((v &&& 0x03).toUInt64.toInt64, r'))
    else .ok none
termination_by r.remaining
decreasing_by exact remaining_byteChecked _h

end Reader

/-- The bytes of the number that has no negative, in the encoding of 64 bits. -/
def StandsForMin : List UInt8 → Prop
  | [] => False
  | lead :: rest => lead &&& 0xfc = 0xf4 ∧ rest.take 8 = [0x80, 0, 0, 0, 0, 0, 0, 0]

/-- A negative prefix, and behind it either those bytes or such a prefix again. -/
def NegatesMin : List UInt8 → Prop
  | [] => False
  | lead :: rest => lead &&& 0xfc = 0xf8 ∧ (StandsForMin rest ∨ NegatesMin rest)

instance : DecidablePred StandsForMin := fun bytes =>
  match bytes with
  | [] => inferInstanceAs (Decidable False)
  | lead :: rest =>
    inferInstanceAs (Decidable (lead &&& 0xfc = 0xf4 ∧ rest.take 8 = [0x80, 0, 0, 0, 0, 0, 0, 0]))

instance decidableNegatesMin : DecidablePred NegatesMin := fun bytes =>
  match bytes with
  | [] => inferInstanceAs (Decidable False)
  | lead :: rest =>
    have := decidableNegatesMin rest
    inferInstanceAs (Decidable (lead &&& 0xfc = 0xf8 ∧ (StandsForMin rest ∨ NegatesMin rest)))

/-- Which bytes are negative prefixes is a matter of their size, as with the others. -/
theorem negative_iff (b : UInt8) : b &&& 0xfc = 0xf8 ↔ 0xf8 ≤ b.toNat ∧ b.toNat < 0xfc := by
  have hall : ∀ i : Fin 256, (i.val &&& 0xfc = 0xf8 ↔ 0xf8 ≤ i.val ∧ i.val < 0xfc) := by
    decide +kernel
  rw [and_eq_iff]
  exact hall ⟨b.toNat, b.toNat_lt⟩

/-! ### Steps that fit -/

namespace Reader

variable {r r' : Reader} {b : UInt8} {n : ℕ}

/-- In a packet whose size is a 64-bit number, the position does not overflow. -/
theorem byteChecked_eq (hsize : r.buf.length < 2 ^ 64) : r.byteChecked = .ok r.byte := by
  unfold byteChecked byte
  split
  · next h => rw [h]; rfl
  · next b h =>
    have hlt := (List.getElem?_eq_some_iff.mp h).1
    rw [if_pos (by omega), h]
    rfl

theorem buf_byte (h : r.byte = some (b, r')) : r'.buf = r.buf := by
  rw [(byte_eq_some h).2]

theorem takeLoopChecked_eq (hsize : r.buf.length < 2 ^ 64) (v : UInt64) (n : ℕ) :
    takeLoopChecked v n r = .ok (takeLoop v n r) := by
  induction n generalizing v r with
  | zero => rfl
  | succ n ih =>
    rw [takeLoopChecked, takeLoop, byteChecked_eq hsize]
    cases hbyte : r.byte with
    | none => rfl
    | some x => exact ih (by rwa [buf_byte hbyte]) (shiftIn v x.1)

theorem takeChecked_eq (hsize : r.buf.length < 2 ^ 64) (n : ℕ) :
    r.takeChecked n = .ok (r.take n) := takeLoopChecked_eq hsize 0 n

theorem varint_of_end (hbyte : r.byte = none) : r.varint = none := by
  rw [varint]
  split
  · rfl
  · next hsome => exact absurd (hbyte.symm.trans hsome) (by simp)

/-- The two smallest bits are not the number that cannot be negated. -/
theorem negChecked_small (b : UInt8) :
    negChecked (b &&& 0x03).toUInt64.toInt64 = .ok (-(b &&& 0x03).toUInt64.toInt64) := by
  have hsmall : (b &&& 0x03).toNat < 4 := by
    rw [UInt8.toNat_and]
    exact Nat.lt_of_le_of_lt Nat.and_le_right (by decide)
  unfold negChecked
  rw [if_neg]
  intro hmin
  have hnat : (b &&& 0x03).toUInt64 = Int64.minValue.toUInt64 := by
    rw [← hmin]
    exact (UInt64.toUInt64_toInt64 _).symm
  have htoNat := congrArg UInt64.toNat hnat
  rw [UInt8.toNat_toUInt64] at htoNat
  have hvalue : Int64.minValue.toUInt64.toNat = 2 ^ 63 := rfl
  omega

/-- A number is decoded with every step checked as it is without, except that the negation behind a
negative prefix may not fit. -/
theorem varintChecked_of_byte (hsize : r.buf.length < 2 ^ 64) (hbyte : r.byte = some (b, r')) :
    r.varintChecked = if b &&& 0xfc = 0xf8 then r'.varintChecked.bind negate else .ok r.varint := by
  have hchecked : r.byteChecked = .ok (some (b, r')) := by rw [byteChecked_eq hsize, hbyte]
  have hsize' : r'.buf.length < 2 ^ 64 := by rwa [buf_byte hbyte]
  rw [varint_of_byte hbyte, varintChecked]
  split
  · next o ho => exact absurd (hchecked.symm.trans ho) (by simp)
  · next ho => exact absurd (hchecked.symm.trans ho) (by simp)
  · next c s ho =>
    obtain ⟨rfl, rfl⟩ := Prod.mk.inj (Option.some.inj (Except.ok.inj (hchecked.symm.trans ho)))
    simp only [takeChecked_eq hsize']
    obtain ⟨p1, p2, p3, p4, p5, p6⟩ := prefix_iff b
    by_cases hneg : b &&& 0xfc = 0xf8
    · have hrange := (negative_iff b).mp hneg
      rw [if_neg (by rw [p1]; omega), if_neg (by rw [p2]; omega), if_neg (by rw [p3]; omega),
        if_neg (by rw [p4]; omega), if_neg (by rw [p5]; omega), if_neg (by rw [p6]; omega),
        if_pos hneg, if_pos hneg]
    · rw [if_neg hneg, if_neg hneg, if_neg hneg]
      -- The remaining branches are those of the decoder, each checked.
      split_ifs <;> first | rfl | simp only [negate, negChecked_small]; rfl

/-- A negative prefix negates what is behind it. -/
theorem varint_of_negative (hbyte : r.byte = some (b, r')) (h : b &&& 0xfc = 0xf8) :
    r.varint = r'.varint.map fun x => (-x.1, x.2) := by
  obtain ⟨p1, p2, p3, p4, p5, p6⟩ := prefix_iff b
  have hrange := (negative_iff b).mp h
  rw [varint_of_byte hbyte, if_neg (by rw [p1]; omega), if_neg (by rw [p2]; omega),
    if_neg (by rw [p3]; omega), if_neg (by rw [p4]; omega), if_neg (by rw [p5]; omega),
    if_neg (by rw [p6]; omega), if_pos h]

/-! ### The number that has no negative -/

theorem toInt64_eq_min_iff (x : UInt64) : x.toInt64 = Int64.minValue ↔ x.toNat = 2 ^ 63 := by
  constructor
  · intro h
    rw [← UInt64.toUInt64_toInt64 x, h]
    rfl
  · intro h
    have hx : x = UInt64.ofNat (2 ^ 63) := by rw [← h, UInt64.ofNat_toNat]
    rw [hx]
    rfl

theorem toInt64_ne_min {x : UInt64} (h : x.toNat < 2 ^ 63) : x.toInt64 ≠ Int64.minValue := by
  intro hmin
  have hx := (toInt64_eq_min_iff x).mp hmin
  omega

theorem neg_eq_min_iff (x : Int64) : -x = Int64.minValue ↔ x = Int64.minValue := by
  constructor
  · intro h
    rw [← Int64.neg_neg (a := x), h]
    rfl
  · intro h
    rw [h]
    rfl

/-- Bytes that are taken were there, and the number taken is theirs. -/
theorem take_eq_some {v : UInt64} (hn : n ≤ 8) (h : r.take n = some (v, r')) :
    ∃ bytes rest, r.buf.drop r.pos = bytes ++ rest ∧ bytes.length = n ∧
      v = UInt64.ofNat (BigEndian.value bytes) := by
  by_cases hshort : (r.buf.drop r.pos).length < n
  · rw [take, takeLoop_of_short 0 hshort] at h
    contradiction
  · have hsplit : r.buf.drop r.pos = (r.buf.drop r.pos).take n ++ (r.buf.drop r.pos).drop n :=
      (List.take_append_drop n _).symm
    have hlen : ((r.buf.drop r.pos).take n).length = n := by
      rw [List.length_take]
      omega
    have htake := take_of_drop hsplit (hlen.le.trans hn)
    rw [hlen, h] at htake
    exact ⟨_, _, hsplit, hlen, (Prod.mk.inj (Option.some.inj htake)).1⟩

theorem take_lt {v : UInt64} (hn : n ≤ 8) (h : r.take n = some (v, r')) : v.toNat < 256 ^ n := by
  obtain ⟨bytes, rest, -, hlen, rfl⟩ := take_eq_some hn h
  have hlt := BigEndian.value_lt bytes
  rw [hlen] at hlt
  rw [UInt64.toNat_ofNat_of_lt' (lt_of_lt_of_le hlt (Nat.pow_le_pow_right (by decide) hn))]
  exact hlt

/-- The bits that a prefix leaves are far from the topmost one, and so are the bytes behind it. -/
theorem payload_ne_min (p : UInt8) {shift x : UInt64} (hshift : shift.toNat ≤ 24)
    (hx : x.toNat < 2 ^ 63) : (p.toUInt64 <<< shift ||| x).toInt64 ≠ Int64.minValue := by
  apply toInt64_ne_min
  rw [UInt64.toNat_or]
  apply Nat.or_lt_two_pow _ hx
  have hp : p.toNat < 256 := p.toNat_lt
  have hpow : 2 ^ shift.toNat ≤ 2 ^ 24 := Nat.pow_le_pow_right (by decide) hshift
  rw [UInt64.toNat_shiftLeft, UInt8.toNat_toUInt64,
    Nat.mod_eq_of_lt (show shift.toNat < 64 by omega), Nat.shiftLeft_eq]
  calc p.toNat * 2 ^ shift.toNat % 2 ^ 64
      ≤ p.toNat * 2 ^ shift.toNat := Nat.mod_le _ _
    _ ≤ 255 * 2 ^ 24 := Nat.mul_le_mul (by omega) hpow
    _ < 2 ^ 63 := by decide

/-- No number but one of 64 bits is the one that cannot be negated. -/
theorem varint_ne_min (hbyte : r.byte = some (b, r')) (hneg : ¬ b &&& 0xfc = 0xf8)
    (hlong : ¬ b &&& 0xfc = 0xf4) (s : Reader) : r.varint ≠ some (Int64.minValue, s) := by
  have hsmall : ∀ m : UInt8, (b &&& m).toUInt64.toNat < 2 ^ 63 := by
    intro m
    have hlt : (b &&& m).toNat < 256 := (b &&& m).toNat_lt
    rw [UInt8.toNat_toUInt64]
    omega
  rw [varint_of_byte hbyte, if_neg hlong, if_neg hneg]
  intro h
  split_ifs at h with h1 h2 h3 h4 h5 h6
  · exact toInt64_ne_min (hsmall _) (Prod.mk.inj (Option.some.inj h)).1
  · obtain ⟨x, hx, heq⟩ := Option.map_eq_some_iff.mp h
    have hlt := take_lt (by decide) hx
    exact payload_ne_min _ (by decide) (by omega) (Prod.mk.inj heq).1
  · obtain ⟨x, hx, heq⟩ := Option.map_eq_some_iff.mp h
    have hlt := take_lt (by decide) hx
    exact payload_ne_min _ (by decide) (by omega) (Prod.mk.inj heq).1
  · obtain ⟨x, hx, heq⟩ := Option.map_eq_some_iff.mp h
    have hlt := take_lt (by decide) hx
    exact payload_ne_min _ (by decide) (by omega) (Prod.mk.inj heq).1
  · obtain ⟨x, hx, heq⟩ := Option.map_eq_some_iff.mp h
    have hlt := take_lt (by decide) hx
    exact toInt64_ne_min (by omega) (Prod.mk.inj heq).1
  · exact toInt64_ne_min (hsmall _) ((neg_eq_min_iff _).mp (Prod.mk.inj (Option.some.inj h)).1)

/-- The number of 64 bits that cannot be negated is written in one way. -/
theorem varint_eq_min_of_long {rest : List UInt8} (hdrop : r.buf.drop r.pos = b :: rest)
    (hlong : b &&& 0xfc = 0xf4) :
    (∃ s, r.varint = some (Int64.minValue, s)) ↔ rest.take 8 = [0x80, 0, 0, 0, 0, 0, 0, 0] := by
  obtain ⟨hbyte, hrest⟩ := byte_of_drop hdrop
  obtain ⟨p1, p2, p3, p4, p5, p6⟩ := prefix_iff b
  have hrange := p6.mp hlong
  rw [varint_of_byte hbyte, if_neg (by rw [p1]; omega), if_neg (by rw [p2]; omega),
    if_neg (by rw [p3]; omega), if_neg (by rw [p4]; omega), if_neg (by rw [p5]; omega),
    if_pos hlong]
  constructor
  · intro h
    obtain ⟨s, hs⟩ := h
    obtain ⟨x, hx, heq⟩ := Option.map_eq_some_iff.mp hs
    obtain ⟨bytes, more, hsplit, hlen, hvalue⟩ := take_eq_some (by decide) hx
    have hnat := (toInt64_eq_min_iff x.1).mp (Prod.mk.inj heq).1
    have hlt := BigEndian.value_lt bytes
    rw [hvalue, UInt64.toNat_ofNat_of_lt' (by rw [hlen] at hlt; exact hlt)] at hnat
    have hfirst : rest.take 8 = bytes := by
      rw [← hrest, hsplit, List.take_left' hlen]
    rw [hfirst, ← BigEndian.digits_value bytes, hnat, hlen]
    decide
  · intro h
    have hsplit : rest = [0x80, 0, 0, 0, 0, 0, 0, 0] ++ rest.drop 8 := by
      conv_lhs => rw [← List.take_append_drop 8 rest, h]
    have htake := take_of_drop (r := { r with pos := r.pos + 1 }) (hrest.trans hsplit) (by decide)
    exact ⟨_, congrArg (Option.map fun x => (x.1.toInt64, x.2)) htake⟩

/-- What is read as the number that cannot be negated, as long as no negation overflows. -/
theorem varint_eq_min_iff {bytes : List UInt8} (hdrop : r.buf.drop r.pos = bytes)
    (hfits : ¬ NegatesMin bytes) :
    (∃ s, r.varint = some (Int64.minValue, s)) ↔ StandsForMin bytes := by
  induction bytes generalizing r with
  | nil =>
    have hend : r.byte = none := by
      rw [byte, List.getElem?_eq_none (List.drop_eq_nil_iff.mp hdrop)]
      rfl
    rw [varint_of_end hend]
    simp [StandsForMin]
  | cons b rest ih =>
    obtain ⟨hbyte, hrest⟩ := byte_of_drop hdrop
    by_cases hneg : b &&& 0xfc = 0xf8
    · -- Behind a negative prefix there is no such number, so that the negative is none either.
      have hbehind : ¬ StandsForMin rest ∧ ¬ NegatesMin rest := by
        constructor
        · intro h
          exact hfits ⟨hneg, Or.inl h⟩
        · intro h
          exact hfits ⟨hneg, Or.inr h⟩
      have hno := (ih (r := { r with pos := r.pos + 1 }) hrest hbehind.2).not.mpr hbehind.1
      constructor
      · intro h
        obtain ⟨s, hs⟩ := h
        rw [varint_of_negative hbyte hneg] at hs
        obtain ⟨x, hx, heq⟩ := Option.map_eq_some_iff.mp hs
        have hmin := (neg_eq_min_iff x.1).mp (Prod.mk.inj heq).1
        exact absurd ⟨x.2, by rw [hx, ← hmin]⟩ hno
      · intro h
        have hboth := hneg.symm.trans h.1
        contradiction
    · by_cases hlong : b &&& 0xfc = 0xf4
      · rw [varint_eq_min_of_long hdrop hlong]
        exact (and_iff_right hlong).symm
      · constructor
        · intro h
          obtain ⟨s, hs⟩ := h
          exact absurd hs (varint_ne_min hbyte hneg hlong s)
        · intro h
          exact absurd h.1 hlong

/-- **What a checked build makes of a packet.** It stops at a negation where the number that has no
negative stands behind a negative prefix, and it decodes like any other build where none does. -/
theorem varintChecked_eq {bytes : List UInt8} (hsize : r.buf.length < 2 ^ 64)
    (hdrop : r.buf.drop r.pos = bytes) :
    r.varintChecked = if NegatesMin bytes then .error .negation else .ok r.varint := by
  induction bytes generalizing r with
  | nil =>
    have hend : r.byte = none := by
      rw [byte, List.getElem?_eq_none (List.drop_eq_nil_iff.mp hdrop)]
      rfl
    rw [varint_of_end hend, if_neg (show ¬ NegatesMin [] from fun h => h), varintChecked]
    split
    · next o ho => exact absurd ((byteChecked_eq hsize).symm.trans ho) (by simp [hend])
    · rfl
    · next ho => exact absurd ((byteChecked_eq hsize).symm.trans ho) (by simp [hend])
  | cons b rest ih =>
    obtain ⟨hbyte, hrest⟩ := byte_of_drop hdrop
    rw [varintChecked_of_byte hsize hbyte]
    by_cases hneg : b &&& 0xfc = 0xf8
    · -- The bytes behind the prefix are read first, and then what they stand for is negated.
      rw [if_pos hneg, ih (r := { r with pos := r.pos + 1 }) hsize hrest]
      by_cases hdeep : NegatesMin rest
      · rw [if_pos hdeep, if_pos ⟨hneg, Or.inr hdeep⟩]
        rfl
      · rw [if_neg hdeep, varint_of_negative hbyte hneg]
        have hmin := varint_eq_min_iff (r := { r with pos := r.pos + 1 }) hrest hdeep
        by_cases hstands : StandsForMin rest
        · obtain ⟨s, hs⟩ := hmin.mpr hstands
          rw [if_pos ⟨hneg, Or.inl hstands⟩, hs]
          rfl
        · rw [if_neg (fun h => h.2.elim hstands hdeep)]
          cases hbehind : Reader.varint { r with pos := r.pos + 1 } with
          | none => rfl
          | some x =>
            have hne : x.1 ≠ Int64.minValue := by
              intro heq
              exact hstands (hmin.mp ⟨x.2, by rw [hbehind, ← heq]⟩)
            change (negChecked x.1).map _ = _
            rw [negChecked, if_neg hne]
            rfl
    · rw [if_neg hneg, if_neg (fun h => hneg h.1)]

/-- **Which packets are decoded without an overflow.** In a packet of any length that a buffer can
have, and from any position in it, a number is decoded without an overflow exactly when the bytes
ahead are not the number that has no negative behind a negative prefix; then a checked build decodes
as any other does. The step that overflows otherwise is the negation. -/
theorem varintChecked_eq_ok_iff (r : Reader) (hsize : r.buf.length < 2 ^ 64) :
    (r.varintChecked = .ok r.varint ↔ ¬ NegatesMin (r.buf.drop r.pos)) ∧
      ∀ o, r.varintChecked = .error o ↔ o = .negation ∧ NegatesMin (r.buf.drop r.pos) := by
  rw [varintChecked_eq hsize rfl]
  by_cases h : NegatesMin (r.buf.drop r.pos)
  · simp [h, eq_comm]
  · simp [h]

/-- A sequence number of zero, and one that is negative. -/
theorem varintChecked_eq_ok_iff_short :
    ([0x00, 0xf8, 0x05] : List UInt8).length < 2 ^ 64 ∧
      Reader.varintChecked ⟨[0x00, 0xf8, 0x05], 1⟩ = .ok (Reader.varint ⟨[0x00, 0xf8, 0x05], 1⟩) :=
  ⟨by decide, (varintChecked_eq_ok_iff ⟨[0x00, 0xf8, 0x05], 1⟩ (by decide)).1.mpr (by decide)⟩

/-- A negative prefix before the smallest number of 64 bits: a checked build stops there, and any
other reads the same number that it was to negate. -/
theorem varintChecked_overflow :
    Reader.varintChecked (.new [0xf8, 0xf4, 0x80, 0, 0, 0, 0, 0, 0, 0]) = .error .negation ∧
      (Reader.varint (.new [0xf8, 0xf4, 0x80, 0, 0, 0, 0, 0, 0, 0])).map Prod.fst =
        some Int64.minValue := by
  constructor
  · rw [varintChecked_eq (by decide) rfl, if_pos (by decide)]
  · have hbyte : Reader.byte (.new [0xf8, 0xf4, 0x80, 0, 0, 0, 0, 0, 0, 0]) =
        some (0xf8, ⟨[0xf8, 0xf4, 0x80, 0, 0, 0, 0, 0, 0, 0], 1⟩) := rfl
    have hdrop : ([0xf8, 0xf4, 0x80, 0, 0, 0, 0, 0, 0, 0] : List UInt8).drop 1 =
        0xf4 :: [0x80, 0, 0, 0, 0, 0, 0, 0] := rfl
    have hlong : ∃ s, Reader.varint ⟨[0xf8, 0xf4, 0x80, 0, 0, 0, 0, 0, 0, 0], 1⟩ =
        some (Int64.minValue, s) := (varint_eq_min_of_long hdrop (by decide)).mpr rfl
    obtain ⟨s, hs⟩ := hlong
    rw [varint_of_negative hbyte (by decide), hs]
    rfl

end Reader

end RfxVoiced.Varint
