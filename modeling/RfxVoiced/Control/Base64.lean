import RfxVoiced.Lib.Base64

/-!
# Recordings as text

The audio of a recording goes out inside a JSON answer, as base64. It is written three bytes at a
time, each group as one number of 24 bits.

## Main definitions

* `b64` — the text of some bytes
* `group` — the four symbols of one chunk

## Main results

* `toNat_packed` — the number of a chunk is that of its bytes
* `b64_rfc4648` — the text is base64, and a strict reader gets the bytes back
-/

namespace RfxVoiced.Control

/-- The table of symbols. -/
def A : List Char := "ABCDEFGHIJKLMNOPQRSTUVWXYZabcdefghijklmnopqrstuvwxyz0123456789+/".toList

/-- The lowest six bits of a number are a place in the table. -/
theorem and_63_lt (n : UInt32) : (n &&& 63).toNat < A.length := by
  rw [UInt32.toNat_and]
  exact Nat.lt_of_le_of_lt Nat.and_le_right (by decide)

/-- The symbol for the lowest six bits of a number. -/
def symbol (n : UInt32) : Char := A.get ⟨(n &&& 63).toNat, and_63_lt n⟩

/-- The data three bytes at a time. The last chunk may be shorter, and none is empty. -/
def chunks : List UInt8 → List (List UInt8)
  | [] => []
  | [b0] => [[b0]]
  | [b0, b1] => [[b0, b1]]
  | b0 :: b1 :: b2 :: rest => [b0, b1, b2] :: chunks rest

/-- A chunk as a number of 24 bits. What a short chunk lacks is zero. -/
def packed (chunk : List UInt8) : UInt32 :=
  (chunk.getD 0 0).toUInt32 <<< 16 ||| (chunk.getD 1 0).toUInt32 <<< 8 |||
    (chunk.getD 2 0).toUInt32

/-- The four symbols of a chunk. -/
def group (chunk : List UInt8) : List Char :=
  let n := packed chunk
  [symbol (n >>> 18), symbol (n >>> 12),
    if chunk.length > 1 then symbol (n >>> 6) else '=',
    if chunk.length > 2 then symbol n else '=']

def b64 (data : List UInt8) : List Char := (chunks data).flatMap group

/-! ### Symbols -/

theorem symbol_mem (n : UInt32) : symbol n ∈ Base64.alphabet := List.get_mem A _

theorem toNat_and_63 (n : UInt32) : (n &&& 63).toNat = n.toNat % 64 :=
  (UInt32.toNat_and n 63).trans (Nat.and_two_pow_sub_one_eq_mod n.toNat 6)

/-- A symbol stands for the six bits it was picked by. -/
theorem value_symbol (n : UInt32) : Base64.value (symbol n) = some (n.toNat % 64) := by
  rw [← toNat_and_63]
  exact Base64.value_alphabet ⟨(n &&& 63).toNat, and_63_lt n⟩

theorem symbol_ne_pad (n : UInt32) : symbol n ≠ '=' := Base64.ne_pad_of_mem (symbol_mem n)

/-- Setting bytes beside each other is adding their values up. -/
theorem toNat_pack (b0 b1 b2 : UInt8) :
    (b0.toUInt32 <<< 16 ||| b1.toUInt32 <<< 8 ||| b2.toUInt32).toNat =
      BigEndian.value [b0, b1, b2] := by
  have h0 : b0.toNat < 256 := b0.toNat_lt
  have h1 : b1.toNat < 256 := b1.toNat_lt
  have h2 : b2.toNat < 2 ^ 8 := b2.toNat_lt
  have hhigh : (b0.toUInt32 <<< 16).toNat = b0.toNat <<< 16 := by
    rw [UInt32.toNat_shiftLeft]
    exact Nat.mod_eq_of_lt (by change b0.toNat <<< 16 < _; rw [Nat.shiftLeft_eq]; omega)
  have hmid : (b1.toUInt32 <<< 8).toNat = b1.toNat <<< 8 := by
    rw [UInt32.toNat_shiftLeft]
    exact Nat.mod_eq_of_lt (by change b1.toNat <<< 8 < _; rw [Nat.shiftLeft_eq]; omega)
  have hlow : b1.toNat <<< 8 < 2 ^ 16 := by
    rw [Nat.shiftLeft_eq]
    omega
  have htop : b0.toNat <<< 16 + b1.toNat <<< 8 = (b0.toNat <<< 8 + b1.toNat) <<< 8 := by
    simp only [Nat.shiftLeft_eq]
    omega
  rw [UInt32.toNat_or, UInt32.toNat_or, hhigh, hmid, UInt8.toNat_toUInt32,
    ← Nat.shiftLeft_add_eq_or_of_lt hlow, htop, ← Nat.shiftLeft_add_eq_or_of_lt h2]
  simp only [Nat.shiftLeft_eq, BigEndian.value_cons, BigEndian.value_nil, List.length_cons,
    List.length_nil]
  omega

/-- The number of a chunk is that of its bytes, with zeros for those that it lacks. -/
theorem toNat_packed (chunk : List UInt8) (hpos : 0 < chunk.length) (hlen : chunk.length ≤ 3) :
    (packed chunk).toNat = BigEndian.value chunk * 2 ^ (24 - 8 * chunk.length) := by
  match chunk, hpos, hlen with
  | [b0], _, _ => exact (toNat_pack b0 0 0).trans (by simp)
  | [b0, b1], _, _ => exact (toNat_pack b0 b1 0).trans (by simp [Nat.add_mul, Nat.mul_assoc])
  | [b0, b1, b2], _, _ => exact (toNat_pack b0 b1 b2).trans (Nat.mul_one _).symm

theorem packed_lt (chunk : List UInt8) (hpos : 0 < chunk.length) (hlen : chunk.length ≤ 3) :
    (packed chunk).toNat < 2 ^ 24 := by
  have hvalue : BigEndian.value chunk < 2 ^ (8 * chunk.length) := by
    rw [pow_mul]
    exact BigEndian.value_lt chunk
  have hpow : 2 ^ (8 * chunk.length) * 2 ^ (24 - 8 * chunk.length) = 2 ^ 24 := by
    rw [← pow_add]
    congr 1
    omega
  rw [toNat_packed chunk hpos hlen, ← hpow]
  exact Nat.mul_lt_mul_of_pos_right hvalue (Nat.two_pow_pos _)

/-- What the symbols of a number are, read as a number: so many of its bits from the top. -/
theorem number_symbols {n : UInt32} (h : n.toNat < 2 ^ 24) :
    Base64.number [symbol (n >>> 18), symbol (n >>> 12)] = some (n.toNat / 2 ^ 12) ∧
      Base64.number [symbol (n >>> 18), symbol (n >>> 12), symbol (n >>> 6)] =
        some (n.toNat / 2 ^ 6) ∧
      Base64.number [symbol (n >>> 18), symbol (n >>> 12), symbol (n >>> 6), symbol n] =
        some n.toNat := by
  have hshift (k : UInt32) (hk : k.toNat < 32) : (n >>> k).toNat = n.toNat / 2 ^ k.toNat := by
    rw [UInt32.toNat_shiftRight, Nat.mod_eq_of_lt hk, Nat.shiftRight_eq_div_pow]
  have h18 := hshift 18 (by decide)
  have h12 := hshift 12 (by decide)
  have h6 := hshift 6 (by decide)
  simp only [Base64.number, List.foldlM_cons, List.foldlM_nil, value_symbol, h18, h12, h6,
    Option.map_some, Option.bind_eq_bind, Option.bind_some, Option.pure_def, Option.some_inj,
    UInt32.reduceToNat]
  omega

/-! ### The whole text -/

theorem chunks_induction {P : List UInt8 → Prop} (hnil : P []) (hone : ∀ b0, P [b0])
    (htwo : ∀ b0 b1, P [b0, b1]) (hmore : ∀ b0 b1 b2 rest, P rest → P (b0 :: b1 :: b2 :: rest))
    (data : List UInt8) : P data := by
  induction data using chunks.induct with
  | case1 => exact hnil
  | case2 b0 => exact hone b0
  | case3 b0 b1 => exact htwo b0 b1
  | case4 b0 b1 b2 rest ih => exact hmore b0 b1 b2 rest ih

theorem b64_more (b0 b1 b2 : UInt8) (rest : List UInt8) :
    b64 (b0 :: b1 :: b2 :: rest) = group [b0, b1, b2] ++ b64 rest := rfl

theorem length_b64 (data : List UInt8) : (b64 data).length = 4 * ((data.length + 2) / 3) := by
  induction data using chunks_induction with
  | hnil => rfl
  | hone b0 => simp [b64, chunks, group]
  | htwo b0 b1 => simp [b64, chunks, group]
  | hmore b0 b1 b2 rest ih =>
    rw [b64_more, List.length_append, ih]
    simp only [group, List.length_cons, List.length_nil]
    omega

/-- The text is symbols of the alphabet, and behind them as much padding as the last group lacks. -/
theorem b64_eq_symbols_append (data : List UInt8) :
    ∃ symbols, b64 data = symbols ++ List.replicate ((3 - data.length % 3) % 3) '=' ∧
      ∀ c ∈ symbols, c ∈ Base64.alphabet := by
  induction data using chunks_induction with
  | hnil => exact ⟨[], rfl, by simp⟩
  | hone b0 => exact ⟨[_, _], rfl, by simp [symbol_mem]⟩
  | htwo b0 b1 => exact ⟨[_, _, _], rfl, by simp [symbol_mem]⟩
  | hmore b0 b1 b2 rest ih =>
    obtain ⟨symbols, heq, hmem⟩ := ih
    refine ⟨group [b0, b1, b2] ++ symbols, ?_, ?_⟩
    · rw [b64_more, heq, List.append_assoc]
      simp only [List.length_cons]
      congr 4
      omega
    · intro c hc
      rcases List.mem_append.mp hc with hgroup | hrest
      · have hthree : group [b0, b1, b2] =
            [symbol (packed [b0, b1, b2] >>> 18), symbol (packed [b0, b1, b2] >>> 12),
              symbol (packed [b0, b1, b2] >>> 6), symbol (packed [b0, b1, b2])] := rfl
        rw [hthree] at hgroup
        simp only [List.mem_cons, List.not_mem_nil, or_false] at hgroup
        rcases hgroup with rfl | rfl | rfl | rfl <;> exact symbol_mem _
      · exact hmem c hrest

/-- A strict reader gets the bytes back. -/
theorem decode_b64 (data : List UInt8) : Base64.decode (b64 data) = some data := by
  induction data using chunks_induction with
  | hnil => rfl
  | hone b0 =>
    have hn := toNat_packed [b0] (by simp) (by simp)
    have hnumber := (number_symbols (packed_lt [b0] (by simp) (by simp))).1
    refine Base64.decode_one rfl (hnumber.trans (congrArg some ?_))
    simp only [List.length_cons, List.length_nil] at hn
    omega
  | htwo b0 b1 =>
    have hn := toNat_packed [b0, b1] (by simp) (by simp)
    have hnumber := (number_symbols (packed_lt [b0, b1] (by simp) (by simp))).2.1
    refine Base64.decode_two (symbol_ne_pad _) rfl (hnumber.trans (congrArg some ?_))
    simp only [List.length_cons, List.length_nil] at hn
    omega
  | hmore b0 b1 b2 rest ih =>
    have hn := toNat_packed [b0, b1, b2] (by simp) (by simp)
    have hnumber := (number_symbols (packed_lt [b0, b1, b2] (by simp) (by simp))).2.2
    have hgroup : Base64.decode (group [b0, b1, b2] ++ b64 rest) =
        (Base64.decode (b64 rest)).map fun more => [b0, b1, b2] ++ more :=
      Base64.decode_whole (symbol_ne_pad _) (symbol_ne_pad _) rfl
        (hnumber.trans (congrArg some (hn.trans (Nat.mul_one _))))
    rw [b64_more, hgroup, ih]
    rfl

/-- **The text is the base64 of RFC 4648.** It has four symbols for every three bytes begun. They
are of the alphabet, which the padding is not, and padding stands at the end only, as much of it as
the last group lacks bytes. A strict reader gets the bytes back. -/
theorem b64_rfc4648 (data : List UInt8) :
    (b64 data).length = 4 * ((data.length + 2) / 3) ∧
      (∃ symbols, b64 data = symbols ++ List.replicate ((3 - data.length % 3) % 3) '=' ∧
        (∀ c ∈ symbols, c ∈ Base64.alphabet) ∧ '=' ∉ symbols) ∧
      Base64.decode (b64 data) = some data := by
  obtain ⟨symbols, heq, hmem⟩ := b64_eq_symbols_append data
  refine ⟨length_b64 data, ⟨symbols, heq, hmem, fun hpad => ?_⟩, decode_b64 data⟩
  exact Base64.ne_pad_of_mem (hmem '=' hpad) rfl

end RfxVoiced.Control
