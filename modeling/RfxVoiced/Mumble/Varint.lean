import RfxVoiced.Lib.BigEndian
import Mathlib.Tactic.Common

/-!
# Variable-length integers

Voice packets carry numbers in an encoding of Mumble's own: big-endian, with a prefix that says how
many bytes follow. It is read with a cursor over the packet, and written by appending. The cursor
reads negative numbers too, which are never written.

## Main definitions

* `Reader`, `Reader.varint` — the cursor, and how it reads a number
* `writeVarint` — how a number that is not negative is written

## Main results

* `writeVarint_eq` — a number is written as its leading byte and the bytes that follow it
* `Reader.varint_of_drop`, `Reader.varint_of_short` — what was written is read back, wherever it
  stands, and what is cut short is not read
* `varint_undoes_writeVarint` — decoding undoes encoding
-/

namespace RfxVoiced.Varint

/-! ### The cursor -/

/-- A cursor over a packet. -/
structure Reader where
  buf : List UInt8
  pos : ℕ
  deriving DecidableEq, Repr

namespace Reader

def new (buf : List UInt8) : Reader := ⟨buf, 0⟩

def remaining (r : Reader) : ℕ := r.buf.length - r.pos

def byte (r : Reader) : Option (UInt8 × Reader) :=
  (r.buf[r.pos]?).map fun b => (b, { r with pos := r.pos + 1 })

/-- One more byte of a number. -/
def shiftIn (v : UInt64) (b : UInt8) : UInt64 := v <<< 8 ||| b.toUInt64

/-- The loop of `take`, with the number read so far. -/
def takeLoop (v : UInt64) : ℕ → Reader → Option (UInt64 × Reader)
  | 0, r => some (v, r)
  | n + 1, r => r.byte.bind fun x => takeLoop (shiftIn v x.1) n x.2

/-- The number that the next `n` bytes are. -/
def take (r : Reader) (n : ℕ) : Option (UInt64 × Reader) := takeLoop 0 n r

theorem byte_eq_some {r r' : Reader} {b : UInt8} (h : r.byte = some (b, r')) :
    r.pos < r.buf.length ∧ r' = { r with pos := r.pos + 1 } := by
  obtain ⟨b', hb, heq⟩ := Option.map_eq_some_iff.mp h
  exact ⟨(List.getElem?_eq_some_iff.mp hb).1, (congrArg Prod.snd heq).symm⟩

theorem remaining_byte {r r' : Reader} {b : UInt8} (h : r.byte = some (b, r')) :
    r'.remaining < r.remaining := by
  obtain ⟨hlt, rfl⟩ := byte_eq_some h
  simp only [remaining]
  omega

/-- Read a number. The masks are those of the source: each tells one prefix apart. -/
def varint (r : Reader) : Option (Int64 × Reader) :=
  match _h : r.byte with
  | none => none
  | some (v, r') =>
    if v &&& 0x80 = 0x00 then some ((v &&& 0x7f).toUInt64.toInt64, r')
    else if v &&& 0xc0 = 0x80 then
      (r'.take 1).map fun x => (((v &&& 0x3f).toUInt64 <<< 8 ||| x.1).toInt64, x.2)
    else if v &&& 0xe0 = 0xc0 then
      (r'.take 2).map fun x => (((v &&& 0x1f).toUInt64 <<< 16 ||| x.1).toInt64, x.2)
    else if v &&& 0xf0 = 0xe0 then
      (r'.take 3).map fun x => (((v &&& 0x0f).toUInt64 <<< 24 ||| x.1).toInt64, x.2)
    else if v &&& 0xfc = 0xf0 then (r'.take 4).map fun x => (x.1.toInt64, x.2)
    else if v &&& 0xfc = 0xf4 then (r'.take 8).map fun x => (x.1.toInt64, x.2)
    -- The negative of the number that follows.
    else if v &&& 0xfc = 0xf8 then r'.varint.map fun x => (-x.1, x.2)
    else if v &&& 0xfc = 0xfc then some (-(v &&& 0x03).toUInt64.toInt64, r')
    else none
termination_by r.remaining
decreasing_by exact remaining_byte _h

end Reader

/-- Write a number that is not negative. -/
def writeVarint (out : List UInt8) (value : UInt64) : List UInt8 :=
  if value < 0x80 then out ++ [value.toUInt8]
  else if value < 0x4000 then out ++ [(0x80 : UInt8) ||| (value >>> 8).toUInt8, value.toUInt8]
  else if value < 0x200000 then
    out ++ [(0xc0 : UInt8) ||| (value >>> 16).toUInt8, (value >>> 8).toUInt8, value.toUInt8]
  else if value < 0x10000000 then
    out ++ [(0xe0 : UInt8) ||| (value >>> 24).toUInt8, (value >>> 16).toUInt8,
      (value >>> 8).toUInt8, value.toUInt8]
  else if value < 0x100000000 then out ++ 0xf0 :: BigEndian.digits 4 value.toUInt32.toNat
  else out ++ 0xf4 :: BigEndian.digits 8 value.toNat

/-! ### What is written -/

/-- How many bytes follow the leading byte of a number. -/
def width (v : ℕ) : ℕ :=
  if v < 0x80 then 0 else if v < 0x4000 then 1 else if v < 0x200000 then 2
  else if v < 0x10000000 then 3 else if v < 0x100000000 then 4 else 8

/-- The leading byte of a number: a prefix, and the bits of the number that it has room for. -/
def lead (v : ℕ) : ℕ :=
  if v < 0x80 then v else if v < 0x4000 then 0x80 + v / 2 ^ 8
  else if v < 0x200000 then 0xc0 + v / 2 ^ 16 else if v < 0x10000000 then 0xe0 + v / 2 ^ 24
  else if v < 0x100000000 then 0xf0 else 0xf4

theorem toUInt8_shiftRight (value : UInt64) {k : UInt64} (hk : k.toNat < 64) :
    (value >>> k).toUInt8 = UInt8.ofNat (value.toNat / 2 ^ k.toNat) := by
  apply UInt8.toNat_inj.mp
  rw [UInt64.toNat_toUInt8, UInt64.toNat_shiftRight, Nat.mod_eq_of_lt hk,
    Nat.shiftRight_eq_div_pow, UInt8.toNat_ofNat']

/-- Setting a prefix over free bits is adding it. -/
theorem or_ofNat {p : UInt8} {m a hi : ℕ} (hp : p.toNat = 2 ^ m * a) (hhi : hi < 2 ^ m)
    (hfits : p.toNat + hi < 256) : p ||| UInt8.ofNat hi = UInt8.ofNat (p.toNat + hi) := by
  apply UInt8.toNat_inj.mp
  have hlt : hi < 256 := lt_of_le_of_lt (Nat.le_add_left hi p.toNat) hfits
  rw [UInt8.toNat_or, UInt8.toNat_ofNat_of_lt' hlt, UInt8.toNat_ofNat_of_lt' hfits, hp]
  exact (Nat.two_pow_add_eq_or_of_lt hhi a).symm

/-- A number is written as its leading byte, and as many bytes as follow it. -/
theorem writeVarint_eq (out : List UInt8) (value : UInt64) :
    writeVarint out value =
      out ++ UInt8.ofNat (lead value.toNat) ::
        BigEndian.digits (width value.toNat) value.toNat := by
  have hbytes : value.toUInt8 = UInt8.ofNat value.toNat ∧
      (value >>> 8).toUInt8 = UInt8.ofNat (value.toNat / 2 ^ 8) ∧
      (value >>> 16).toUInt8 = UInt8.ofNat (value.toNat / 2 ^ 16) ∧
      (value >>> 24).toUInt8 = UInt8.ofNat (value.toNat / 2 ^ 24) :=
    ⟨UInt8.toNat_inj.mp (by rw [UInt64.toNat_toUInt8, UInt8.toNat_ofNat']),
      toUInt8_shiftRight value (by decide), toUInt8_shiftRight value (by decide),
      toUInt8_shiftRight value (by decide)⟩
  obtain ⟨h0, h8, h16, h24⟩ := hbytes
  unfold writeVarint width lead
  simp only [UInt64.lt_iff_toNat_lt, h0, h8, h16, h24]
  have hc : (0x80 : UInt64).toNat = 0x80 ∧ (0x4000 : UInt64).toNat = 0x4000 ∧
      (0x200000 : UInt64).toNat = 0x200000 ∧ (0x10000000 : UInt64).toNat = 0x10000000 ∧
      (0x100000000 : UInt64).toNat = 0x100000000 := by decide
  obtain ⟨c1, c2, c3, c4, c5⟩ := hc
  rw [c1, c2, c3, c4, c5]
  -- Below 32 bits the leading byte carries the top of the number beside its prefix.
  split_ifs with h1 h2 h3 h4 h5
  · rfl
  · rw [or_ofNat (m := 7) (a := 1) rfl (by omega) (by change 128 + _ < 256; omega)]
    simp [BigEndian.digits]
  · rw [or_ofNat (m := 6) (a := 3) rfl (by omega) (by change 192 + _ < 256; omega)]
    simp [BigEndian.digits]
  · rw [or_ofNat (m := 5) (a := 7) rfl (by omega) (by change 224 + _ < 256; omega)]
    simp [BigEndian.digits]
  · have hfits : value.toUInt32.toNat = value.toNat := by
      rw [UInt64.toNat_toUInt32]
      exact Nat.mod_eq_of_lt h5
    rw [hfits]
    rfl
  · rfl

/-! ### What is read -/

namespace Reader

variable {r : Reader} {b : UInt8} {bytes rest : List UInt8}

theorem byte_of_drop (h : r.buf.drop r.pos = b :: rest) :
    r.byte = some (b, { r with pos := r.pos + 1 }) ∧ r.buf.drop (r.pos + 1) = rest := by
  have hget : r.buf[r.pos]? = some b := by
    rw [← Nat.add_zero r.pos, ← List.getElem?_drop, h]
    rfl
  refine ⟨?_, ?_⟩
  · rw [byte, hget]
    rfl
  · rw [← List.drop_drop, h]
    rfl

theorem takeLoop_of_drop (v : UInt64) (h : r.buf.drop r.pos = bytes ++ rest) :
    takeLoop v bytes.length r =
      some (bytes.foldl shiftIn v, { r with pos := r.pos + bytes.length }) := by
  induction bytes generalizing r v with
  | nil => rfl
  | cons b bytes ih =>
    obtain ⟨hbyte, hdrop⟩ := byte_of_drop h
    have hrest := ih (r := { r with pos := r.pos + 1 }) (shiftIn v b) hdrop
    rw [List.length_cons, takeLoop, hbyte, Option.bind_some, hrest, List.foldl_cons,
      Nat.add_assoc, Nat.add_comm 1]

theorem toNat_shiftIn {v : UInt64} (h : v.toNat < 256 ^ 7) :
    (shiftIn v b).toNat = v.toNat * 256 + b.toNat := by
  have hb : b.toNat < 2 ^ 8 := b.toNat_lt
  have hshift : (v <<< 8).toNat = v.toNat <<< 8 := by
    rw [UInt64.toNat_shiftLeft]
    exact Nat.mod_eq_of_lt (by change v.toNat <<< 8 < _; rw [Nat.shiftLeft_eq]; omega)
  rw [shiftIn, UInt64.toNat_or, hshift, UInt8.toNat_toUInt64, ← Nat.shiftLeft_add_eq_or_of_lt hb,
    Nat.shiftLeft_eq]

theorem toNat_foldl_shiftIn {v : UInt64} {k : ℕ} (hv : v.toNat < 256 ^ k)
    (hfits : k + bytes.length ≤ 8) :
    (bytes.foldl shiftIn v).toNat =
      v.toNat * 256 ^ bytes.length + BigEndian.value bytes := by
  induction bytes generalizing v k with
  | nil => simp
  | cons b bytes ih =>
    rw [List.length_cons] at hfits
    have hlt : v.toNat < 256 ^ 7 :=
      lt_of_lt_of_le hv (Nat.pow_le_pow_right (by decide) (by omega))
    have hb : b.toNat < 256 := b.toNat_lt
    have hnext : (shiftIn v b).toNat < 256 ^ (k + 1) := by
      rw [toNat_shiftIn hlt, pow_succ 256 k]
      omega
    rw [List.foldl_cons, ih hnext (by omega), toNat_shiftIn hlt, BigEndian.value_cons,
      List.length_cons]
    ring

/-- The bytes ahead of the cursor are taken as the number they are. -/
theorem take_of_drop (h : r.buf.drop r.pos = bytes ++ rest) (hlen : bytes.length ≤ 8) :
    r.take bytes.length =
      some (UInt64.ofNat (BigEndian.value bytes), { r with pos := r.pos + bytes.length }) := by
  have hvalue : (bytes.foldl shiftIn 0).toNat =
      (0 : UInt64).toNat * 256 ^ bytes.length + BigEndian.value bytes :=
    toNat_foldl_shiftIn (k := 0) (by decide) (by omega)
  rw [take, takeLoop_of_drop 0 h]
  congr 2
  apply UInt64.toNat_inj.mp
  have hlt : BigEndian.value bytes < 2 ^ 64 :=
    lt_of_lt_of_le (BigEndian.value_lt bytes)
      (Nat.pow_le_pow_right (n := 256) (by decide) hlen)
  rw [hvalue, UInt64.toNat_ofNat_of_lt' hlt]
  simp

end Reader

/-! ### Masks -/

theorem and_eq_iff {b m p : UInt8} : b &&& m = p ↔ b.toNat &&& m.toNat = p.toNat := by
  rw [← UInt8.toNat_and, UInt8.toNat_inj]

/-- The masks tell the prefixes apart: which of them a byte has is a matter of its size. -/
theorem prefix_iff (b : UInt8) :
    (b &&& 0x80 = 0x00 ↔ b.toNat < 0x80) ∧
    (b &&& 0xc0 = 0x80 ↔ 0x80 ≤ b.toNat ∧ b.toNat < 0xc0) ∧
    (b &&& 0xe0 = 0xc0 ↔ 0xc0 ≤ b.toNat ∧ b.toNat < 0xe0) ∧
    (b &&& 0xf0 = 0xe0 ↔ 0xe0 ≤ b.toNat ∧ b.toNat < 0xf0) ∧
    (b &&& 0xfc = 0xf0 ↔ 0xf0 ≤ b.toNat ∧ b.toNat < 0xf4) ∧
    (b &&& 0xfc = 0xf4 ↔ 0xf4 ≤ b.toNat ∧ b.toNat < 0xf8) := by
  have hall : ∀ i : Fin 256, (i.val &&& 0x80 = 0x00 ↔ i.val < 0x80) ∧
      (i.val &&& 0xc0 = 0x80 ↔ 0x80 ≤ i.val ∧ i.val < 0xc0) ∧
      (i.val &&& 0xe0 = 0xc0 ↔ 0xc0 ≤ i.val ∧ i.val < 0xe0) ∧
      (i.val &&& 0xf0 = 0xe0 ↔ 0xe0 ≤ i.val ∧ i.val < 0xf0) ∧
      (i.val &&& 0xfc = 0xf0 ↔ 0xf0 ≤ i.val ∧ i.val < 0xf4) ∧
      (i.val &&& 0xfc = 0xf4 ↔ 0xf4 ≤ i.val ∧ i.val < 0xf8) := by decide +kernel
  simp only [and_eq_iff]
  exact hall ⟨b.toNat, b.toNat_lt⟩

/-- The bits that a prefix leaves, ahead of the number that the following bytes are. -/
theorem payload_or {b m : UInt8} {n k t : ℕ} {shift : UInt64} (hm : m.toNat = 2 ^ n - 1)
    (hshift : shift.toNat = 8 * k) (hk : k ≤ 3) (ht : t < 256 ^ k) :
    (b &&& m).toUInt64 <<< shift ||| UInt64.ofNat t =
      UInt64.ofNat (b.toNat % 2 ^ n * 256 ^ k + t) := by
  have hb : b.toNat % 2 ^ n < 256 := lt_of_le_of_lt (Nat.mod_le _ _) b.toNat_lt
  have hpow : 256 ^ k = 2 ^ (8 * k) := by
    rw [pow_mul]
    rfl
  -- Neither the shift nor the sum wraps.
  have hsum : b.toNat % 2 ^ n * 256 ^ k + t < 2 ^ 64 := by
    have hk3 : 256 ^ k ≤ 256 ^ 3 := Nat.pow_le_pow_right (by decide) hk
    have hprod : b.toNat % 2 ^ n * 256 ^ k ≤ 255 * 256 ^ 3 := Nat.mul_le_mul (by omega) hk3
    omega
  have hhigh : ((b &&& m).toUInt64 <<< shift).toNat = b.toNat % 2 ^ n * 256 ^ k := by
    rw [UInt64.toNat_shiftLeft, hshift, UInt8.toNat_toUInt64, UInt8.toNat_and, hm,
      Nat.and_two_pow_sub_one_eq_mod, Nat.mod_eq_of_lt (show 8 * k < 64 by omega),
      Nat.shiftLeft_eq, ← hpow]
    exact Nat.mod_eq_of_lt (by omega)
  apply UInt64.toNat_inj.mp
  rw [UInt64.toNat_or, hhigh, UInt64.toNat_ofNat_of_lt' (show t < 2 ^ 64 by omega),
    UInt64.toNat_ofNat_of_lt' hsum, hpow, ← Nat.shiftLeft_eq,
    Nat.shiftLeft_add_eq_or_of_lt (hpow ▸ ht)]

/-! ### Reading what was written -/

/-- The six ranges of the encoding. -/
theorem range_cases (v : ℕ) :
    (v < 0x80 ∧ width v = 0 ∧ lead v = v) ∨
    (0x80 ≤ v ∧ v < 0x4000 ∧ width v = 1 ∧ lead v = 0x80 + v / 2 ^ 8) ∨
    (0x4000 ≤ v ∧ v < 0x200000 ∧ width v = 2 ∧ lead v = 0xc0 + v / 2 ^ 16) ∨
    (0x200000 ≤ v ∧ v < 0x10000000 ∧ width v = 3 ∧ lead v = 0xe0 + v / 2 ^ 24) ∨
    (0x10000000 ≤ v ∧ v < 0x100000000 ∧ width v = 4 ∧ lead v = 0xf0) ∨
    (0x100000000 ≤ v ∧ width v = 8 ∧ lead v = 0xf4) := by
  unfold width lead
  split_ifs <;> omega

theorem writeVarint_append (out : List UInt8) (value : UInt64) :
    writeVarint out value = out ++ writeVarint [] value := by
  rw [writeVarint_eq, writeVarint_eq, List.nil_append]

theorem length_writeVarint (out : List UInt8) (value : UInt64) :
    (writeVarint out value).length = out.length + 1 + width value.toNat := by
  rw [writeVarint_eq, List.length_append, List.length_cons, BigEndian.length_digits]
  omega

/-- What the reader makes of a number, by its leading byte. -/
theorem Reader.varint_of_byte {r r' : Reader} {b : UInt8} (hbyte : r.byte = some (b, r')) :
    r.varint =
      if b &&& 0x80 = 0x00 then some ((b &&& 0x7f).toUInt64.toInt64, r')
      else if b &&& 0xc0 = 0x80 then
        (r'.take 1).map fun x => (((b &&& 0x3f).toUInt64 <<< 8 ||| x.1).toInt64, x.2)
      else if b &&& 0xe0 = 0xc0 then
        (r'.take 2).map fun x => (((b &&& 0x1f).toUInt64 <<< 16 ||| x.1).toInt64, x.2)
      else if b &&& 0xf0 = 0xe0 then
        (r'.take 3).map fun x => (((b &&& 0x0f).toUInt64 <<< 24 ||| x.1).toInt64, x.2)
      else if b &&& 0xfc = 0xf0 then (r'.take 4).map fun x => (x.1.toInt64, x.2)
      else if b &&& 0xfc = 0xf4 then (r'.take 8).map fun x => (x.1.toInt64, x.2)
      else if b &&& 0xfc = 0xf8 then r'.varint.map fun x => (-x.1, x.2)
      else if b &&& 0xfc = 0xfc then some (-(b &&& 0x03).toUInt64.toInt64, r')
      else none := by
  rw [varint]
  split
  · next hnone => exact absurd (hbyte.symm.trans hnone) (by simp)
  · next hsome =>
    obtain ⟨rfl, rfl⟩ := Prod.mk.inj (Option.some.inj (hbyte.symm.trans hsome))
    rfl

/-- The leading byte selects the branch of the reader that takes as many bytes as follow it; and
what that branch makes of the right bytes is the number. -/
theorem Reader.varint_of_lead {r r' : Reader} {value : UInt64}
    (hbyte : r.byte = some (UInt8.ofNat (lead value.toNat), r')) :
    ∃ f : UInt64 → Int64,
      r.varint = (r'.take (width value.toNat)).map (fun x => (f x.1, x.2)) ∧
        f (UInt64.ofNat (value.toNat % 256 ^ width value.toNat)) = value.toInt64 := by
  have hlead : lead value.toNat < 256 := by
    rcases range_cases value.toNat with h | h | h | h | h | h <;> omega
  have hb : (UInt8.ofNat (lead value.toNat)).toNat = lead value.toNat :=
    UInt8.toNat_ofNat_of_lt' hlead
  have hvalue : ∀ {n}, n = value.toNat → UInt64.ofNat n = value := by
    rintro n rfl
    exact UInt64.ofNat_toNat
  rw [Reader.varint_of_byte hbyte]
  obtain ⟨p1, p2, p3, p4, p5, p6⟩ := prefix_iff (UInt8.ofNat (lead value.toNat))
  simp only [p1, p2, p3, p4, p5, p6, hb]
  -- The ranges of the writer, each in the branch of the reader that its leading byte selects.
  rcases range_cases value.toNat with ⟨hv, hw, hl⟩ | ⟨hlo, hv, hw, hl⟩ | ⟨hlo, hv, hw, hl⟩ |
    ⟨hlo, hv, hw, hl⟩ | ⟨hlo, hv, hw, hl⟩ | ⟨hlo, hw, hl⟩
  · rw [if_pos (by omega), hw]
    refine ⟨fun _ => _, rfl, congrArg UInt64.toInt64 (UInt64.toNat_inj.mp ?_)⟩
    rw [UInt8.toNat_toUInt64, UInt8.toNat_and, hb, hl]
    exact (Nat.and_two_pow_sub_one_eq_mod value.toNat 7).trans (Nat.mod_eq_of_lt hv)
  · rw [if_neg (by omega), if_pos (by omega), hw]
    refine ⟨fun x => ((UInt8.ofNat (lead value.toNat) &&& 0x3f).toUInt64 <<< 8 ||| x).toInt64,
      rfl, congrArg UInt64.toInt64 ?_⟩
    rw [payload_or (n := 6) (k := 1) rfl rfl (by decide) (Nat.mod_lt _ (by decide)), hb, hl,
      hvalue (by omega)]
  · rw [if_neg (by omega), if_neg (by omega), if_pos (by omega), hw]
    refine ⟨fun x => ((UInt8.ofNat (lead value.toNat) &&& 0x1f).toUInt64 <<< 16 ||| x).toInt64,
      rfl, congrArg UInt64.toInt64 ?_⟩
    rw [payload_or (n := 5) (k := 2) rfl rfl (by decide) (Nat.mod_lt _ (by decide)), hb, hl,
      hvalue (by omega)]
  · rw [if_neg (by omega), if_neg (by omega), if_neg (by omega), if_pos (by omega), hw]
    refine ⟨fun x => ((UInt8.ofNat (lead value.toNat) &&& 0x0f).toUInt64 <<< 24 ||| x).toInt64,
      rfl, congrArg UInt64.toInt64 ?_⟩
    rw [payload_or (n := 4) (k := 3) rfl rfl (by decide) (Nat.mod_lt _ (by decide)), hb, hl,
      hvalue (by omega)]
  · rw [if_neg (by omega), if_neg (by omega), if_neg (by omega), if_neg (by omega),
      if_pos (by omega), hw]
    exact ⟨fun x => x.toInt64, rfl, congrArg UInt64.toInt64 (hvalue (by omega))⟩
  · have hmax : value.toNat < 2 ^ 64 := value.toNat_lt
    rw [if_neg (by omega), if_neg (by omega), if_neg (by omega), if_neg (by omega),
      if_neg (by omega), if_pos (by omega), hw]
    exact ⟨fun x => x.toInt64, rfl, congrArg UInt64.toInt64 (hvalue (by omega))⟩

theorem width_le (v : ℕ) : width v ≤ 8 := by
  unfold width
  split_ifs <;> omega

/-- What was written is read back, and the cursor is left behind it. -/
theorem Reader.varint_of_drop {r : Reader} {value : UInt64} {rest : List UInt8}
    (h : r.buf.drop r.pos = writeVarint [] value ++ rest) :
    r.varint =
      some (value.toInt64, { r with pos := r.pos + (writeVarint [] value).length }) := by
  rw [writeVarint_eq, List.nil_append, List.cons_append] at h
  obtain ⟨hbyte, hdrop⟩ := byte_of_drop h
  have htake := take_of_drop (r := { r with pos := r.pos + 1 }) hdrop
    (by rw [BigEndian.length_digits]; exact width_le _)
  rw [BigEndian.length_digits, BigEndian.value_digits] at htake
  have hpos : r.pos + (writeVarint [] value).length = r.pos + 1 + width value.toNat := by
    rw [length_writeVarint, List.length_nil]
    omega
  obtain ⟨f, hbranch, hf⟩ := varint_of_lead hbyte
  rw [hbranch, htake, Option.map_some, hf, hpos]

/-- Bytes that run out are no number. -/
theorem Reader.takeLoop_of_short {r : Reader} (v : UInt64) {n : ℕ}
    (h : (r.buf.drop r.pos).length < n) : takeLoop v n r = none := by
  induction n generalizing r v with
  | zero => exact absurd h (Nat.not_lt_zero _)
  | succ n ih =>
    rw [takeLoop]
    cases hdrop : r.buf.drop r.pos with
    | nil =>
      have hend : r.buf[r.pos]? = none :=
        List.getElem?_eq_none (List.drop_eq_nil_iff.mp hdrop)
      rw [byte, hend]
      rfl
    | cons b rest =>
      obtain ⟨hbyte, hrest⟩ := byte_of_drop hdrop
      rw [hdrop, List.length_cons] at h
      rw [hbyte, Option.bind_some]
      exact ih (r := { r with pos := r.pos + 1 }) _ (by rw [hrest]; omega)

/-- A number that is cut short is not read. -/
theorem Reader.varint_of_short {r : Reader} {value : UInt64} {short : List UInt8}
    (h : r.buf.drop r.pos = short) (hpre : short <+: writeVarint [] value)
    (hcut : short ≠ writeVarint [] value) : r.varint = none := by
  cases short with
  | nil =>
    have hend : r.byte = none := by
      rw [byte, List.getElem?_eq_none (List.drop_eq_nil_iff.mp h)]
      rfl
    rw [Reader.varint]
    split
    next => rfl
    next hsome => exact absurd (hend.symm.trans hsome) (by simp)
  | cons b rest =>
    rw [writeVarint_eq, List.nil_append] at hpre hcut
    obtain ⟨rfl, hrest⟩ := List.cons_prefix_cons.mp hpre
    obtain ⟨hbyte, hdrop⟩ := byte_of_drop h
    obtain ⟨f, hbranch, -⟩ := varint_of_lead hbyte
    -- The leading byte is there, but not all of those that it announces.
    have hlen : rest.length < width value.toNat := by
      have hle := hrest.length_le
      rw [BigEndian.length_digits] at hle
      refine lt_of_le_of_ne hle fun hfull => hcut ?_
      rw [hrest.eq_of_length (hfull.trans (BigEndian.length_digits _ _).symm)]
    have hnone : Reader.take { r with pos := r.pos + 1 } (width value.toNat) = none :=
      takeLoop_of_short (r := { r with pos := r.pos + 1 }) 0 (by rw [hdrop]; exact hlen)
    rw [hbranch, hnone, Option.map_none]

/-- **Decoding undoes encoding.** A number that was written is read back from where it was appended,
whatever stands before it and behind it: the cursor moves on by the bytes that were written, and
what is behind them is left unread. A number that is cut short is not read at all. -/
theorem varint_undoes_writeVarint (consumed suffix : List UInt8) (value : UInt64) :
    Reader.varint ⟨writeVarint consumed value ++ suffix, consumed.length⟩ =
        some (value.toInt64,
          ⟨writeVarint consumed value ++ suffix, (writeVarint consumed value).length⟩) ∧
      (writeVarint consumed value ++ suffix).drop (writeVarint consumed value).length = suffix ∧
      ∀ short, short <+: writeVarint [] value → short ≠ writeVarint [] value →
        Reader.varint ⟨consumed ++ short, consumed.length⟩ = none := by
  refine ⟨?_, List.drop_left, fun short hpre hcut => ?_⟩
  · have hdrop : (writeVarint consumed value ++ suffix).drop consumed.length =
        writeVarint [] value ++ suffix := by
      rw [writeVarint_append, List.append_assoc, List.drop_left]
    have hlength : (writeVarint consumed value).length =
        consumed.length + (writeVarint [] value).length := by
      rw [writeVarint_append, List.length_append]
    rw [hlength]
    exact Reader.varint_of_drop hdrop
  · exact Reader.varint_of_short List.drop_left hpre hcut

end RfxVoiced.Varint
