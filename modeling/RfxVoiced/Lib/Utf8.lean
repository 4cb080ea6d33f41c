import Mathlib.Tactic.Common

/-!
# Text in bytes that need not be text

UTF-8 is read in such a way that anything can be read. Where the bytes stop being the encoding of a
character, what there was of it becomes one replacement character, and reading goes on with the byte
that did not fit.

## Main definitions

* `Partial` — what has been read of a character
* `lossy` — the characters that bytes stand for

## Main results

* `lossy_encode` — what was encoded properly is read as it was
-/

namespace RfxVoiced.Utf8

/-- What stands for bytes that are no text. -/
def replacement : Char := Char.ofNat 0xFFFD

/-- A character of which the first bytes have been read. -/
structure Partial where
  /-- The bits that have been read. -/
  code : ℕ
  /-- How many bytes are expected behind the next. -/
  more : ℕ
  low : ℕ
  /-- The next byte lies between `low` and this. -/
  high : ℕ

/-- A byte where a character begins. The narrower ranges leave out encodings that are longer than
they need to be, surrogates, and what lies beyond the last character. -/
def start (b : UInt8) : List Char × Option Partial :=
  let n := b.toNat
  if n < 0x80 then ([Char.ofNat n], none)
  else if 0xC2 ≤ n ∧ n < 0xE0 then ([], some ⟨n - 0xC0, 0, 0x80, 0xBF⟩)
  else if 0xE0 ≤ n ∧ n < 0xF0 then
    ([], some ⟨n - 0xE0, 1, if n = 0xE0 then 0xA0 else 0x80, if n = 0xED then 0x9F else 0xBF⟩)
  else if 0xF0 ≤ n ∧ n < 0xF5 then
    ([], some ⟨n - 0xF0, 2, if n = 0xF0 then 0x90 else 0x80, if n = 0xF4 then 0x8F else 0xBF⟩)
  else ([replacement], none)

/-- Read on, within a character or between two. -/
def decode : Option Partial → List UInt8 → List Char
  | none, [] => []
  | some _, [] => [replacement]
  | none, b :: rest => (start b).1 ++ decode (start b).2 rest
  | some p, b :: rest =>
    if p.low ≤ b.toNat ∧ b.toNat ≤ p.high then
      match p.more with
      | 0 => Char.ofNat (p.code * 64 + (b.toNat - 0x80)) :: decode none rest
      | more + 1 => decode (some ⟨p.code * 64 + (b.toNat - 0x80), more, 0x80, 0xBF⟩) rest
    -- The byte that does not fit is read once more, as the first of a character.
    else replacement :: ((start b).1 ++ decode (start b).2 rest)

/-- The characters that bytes stand for. -/
def lossy (bytes : List UInt8) : List Char := decode none bytes

variable {p : Partial} {n : ℕ} {rest : List UInt8}

theorem toNat_ofNat (h : n < 256) : (UInt8.ofNat n).toNat = n := by
  rw [UInt8.toNat_ofNat']
  omega

/-- The last byte of a character. -/
theorem decode_last (hp : p.more = 0) (hn : n < 256) (hlow : p.low ≤ n) (hhigh : n ≤ p.high) :
    decode (some p) (UInt8.ofNat n :: rest) =
      Char.ofNat (p.code * 64 + (n - 0x80)) :: decode none rest := by
  rw [decode, toNat_ofNat hn, if_pos ⟨hlow, hhigh⟩, hp]

/-- A byte of a character that is not the last. -/
theorem decode_more {more : ℕ} (hp : p.more = more + 1) (hn : n < 256) (hlow : p.low ≤ n)
    (hhigh : n ≤ p.high) :
    decode (some p) (UInt8.ofNat n :: rest) =
      decode (some ⟨p.code * 64 + (n - 0x80), more, 0x80, 0xBF⟩) rest := by
  rw [decode, toNat_ofNat hn, if_pos ⟨hlow, hhigh⟩, hp]

/-! ### The first byte of a character -/

theorem start_one {k : ℕ} (hk : k < 0x80) : start (UInt8.ofNat k) = ([Char.ofNat k], none) := by
  simp only [start, toNat_ofNat (show k < 256 by omega), if_pos hk]

theorem start_two {k : ℕ} (hlow : 2 ≤ k) (hk : k < 0x20) :
    start (UInt8.ofNat (k + 0xC0)) = ([], some ⟨k, 0, 0x80, 0xBF⟩) := by
  simp only [start, toNat_ofNat (show k + 0xC0 < 256 by omega)]
  rw [if_neg (by omega), if_pos (by omega), Nat.add_sub_cancel]

theorem start_three {k : ℕ} (hk : k < 0x10) :
    start (UInt8.ofNat (k + 0xE0)) =
      ([], some ⟨k, 1, if k = 0 then 0xA0 else 0x80, if k = 0xD then 0x9F else 0xBF⟩) := by
  simp only [start, toNat_ofNat (show k + 0xE0 < 256 by omega)]
  rw [if_neg (by omega), if_neg (by omega), if_pos (by omega), Nat.add_sub_cancel]
  simp

theorem start_four {k : ℕ} (hk : k < 5) :
    start (UInt8.ofNat (k + 0xF0)) =
      ([], some ⟨k, 2, if k = 0 then 0x90 else 0x80, if k = 4 then 0x8F else 0xBF⟩) := by
  simp only [start, toNat_ofNat (show k + 0xF0 < 256 by omega)]
  rw [if_neg (by omega), if_neg (by omega), if_neg (by omega), if_pos (by omega),
    Nat.add_sub_cancel]
  simp

/-! ### Encoded text -/

/-- A character that was encoded properly is read as it was, whatever comes behind. -/
theorem decode_encodeChar (c : Char) (rest : List UInt8) :
    decode none (String.utf8EncodeChar c ++ rest) = c :: decode none rest := by
  have hvalid : c.val.toNat < 0xD800 ∨ 0xDFFF < c.val.toNat ∧ c.val.toNat < 0x110000 := c.valid
  have hchar {n : ℕ} (h : n = c.val.toNat) : Char.ofNat n = c := by
    rw [h]
    exact Char.ofNat_toNat c
  -- One byte to four, by the size of the code point.
  unfold String.utf8EncodeChar
  generalize c.val.toNat = v at hvalid hchar ⊢
  dsimp only
  split
  · next hone =>
    change decode none (UInt8.ofNat v :: rest) = _
    rw [decode, start_one (by omega), hchar rfl]
    rfl
  · split
    · next htwo =>
      change decode none
        (UInt8.ofNat (v / 64 % 0x20 + 0xC0) :: UInt8.ofNat (v % 0x40 + 0x80) :: rest) = _
      rw [decode, start_two (by omega) (by omega), List.nil_append,
        decode_last rfl (by omega) (by simp) (by simp; omega), hchar (by simp; omega)]
    · split
      · next hthree =>
        change decode none (UInt8.ofNat (v / 4096 % 0x10 + 0xE0) ::
          UInt8.ofNat (v / 64 % 0x40 + 0x80) :: UInt8.ofNat (v % 0x40 + 0x80) :: rest) = _
        rw [decode, start_three (by omega), List.nil_append,
          decode_more rfl (by omega) (by simp; split <;> omega) (by simp; split <;> omega),
          decode_last rfl (by omega) (by simp) (by simp; omega), hchar (by simp; omega)]
      · next hfour =>
        change decode none (UInt8.ofNat (v / 262144 % 0x08 + 0xF0) ::
          UInt8.ofNat (v / 4096 % 0x40 + 0x80) :: UInt8.ofNat (v / 64 % 0x40 + 0x80) ::
          UInt8.ofNat (v % 0x40 + 0x80) :: rest) = _
        rw [decode, start_four (by omega), List.nil_append,
          decode_more rfl (by omega) (by simp; split <;> omega) (by simp; split <;> omega),
          decode_more rfl (by omega) (by simp) (by simp; omega),
          decode_last rfl (by omega) (by simp) (by simp; omega), hchar (by simp; omega)]

/-- **What was encoded properly is read as it was.** -/
theorem lossy_encode (text : List Char) : lossy (text.flatMap String.utf8EncodeChar) = text := by
  unfold lossy
  induction text with
  | nil => rfl
  | cons c text ih => rw [List.flatMap_cons, decode_encodeChar, ih]

end RfxVoiced.Utf8
