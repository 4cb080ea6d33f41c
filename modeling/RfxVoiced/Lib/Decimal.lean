import Mathlib.Data.Char
import Mathlib.Data.List.Lex
import Mathlib.Tactic.Common

/-!
# Decimal numbers in text

The digits that a number is printed with are `Nat.toDigits 10`, and the number that digits are is
`Nat.ofDigitChars 10`. A reader accepts digits, with an optional plus in front, as long as the
number stays below a bound.

## Main definitions

* `unsigned` — the text without its plus
* `parse` — the number that a text stands for, below a bound
* `IsNumeral` — the texts that are decimal numbers, and which

## Main results

* `parse_eq_some_iff` — the reader accepts exactly the numerals below the bound
* `parse_toDigits` — reading undoes printing
* `isDigit_of_mem_toDigits` — a number is printed with digits only
* `lt_of_toDigits_lt` — numbers with equally many digits are ordered as their digits are, as text
-/

namespace RfxVoiced.Decimal

/-- A text without its leading plus. -/
def unsigned : List Char → List Char
  | '+' :: rest => rest
  | text => text

/-- One more digit of a number that is to stay below the bound. -/
def step (bound n : ℕ) (c : Char) : Option ℕ :=
  if c.isDigit ∧ n * 10 + (c.toNat - '0'.toNat) < bound then
    some (n * 10 + (c.toNat - '0'.toNat))
  else none

/-- The number below `bound` that a text stands for. -/
def parse (bound : ℕ) (text : List Char) : Option ℕ :=
  if unsigned text = [] then none else (unsigned text).foldlM (step bound) 0

/-- A text is the number `n`: digits, with an optional plus in front. -/
def IsNumeral (text : List Char) (n : ℕ) : Prop :=
  unsigned text ≠ [] ∧ (∀ c ∈ unsigned text, c.isDigit) ∧ Nat.ofDigitChars 10 (unsigned text) 0 = n

variable {bound n m : ℕ} {c : Char} {digits text : List Char}

theorem unsigned_of_head_ne (h : c ≠ '+') : unsigned (c :: text) = c :: text := by
  unfold unsigned
  split
  · next heq => exact absurd (List.cons.inj heq).1 h
  · rfl

theorem step_eq_some_iff :
    step bound n c = some m ↔
      c.isDigit ∧ n * 10 + (c.toNat - '0'.toNat) = m ∧ m < bound := by
  unfold step
  split
  · next h =>
    rw [Option.some_inj]
    constructor
    · intro heq
      exact ⟨h.1, heq, heq ▸ h.2⟩
    · intro hm
      exact hm.2.1
  · next h =>
    constructor
    · intro hnone
      contradiction
    · intro hm
      exact absurd ⟨hm.1, hm.2.1.symm ▸ hm.2.2⟩ h

/-- A number does not get smaller by further digits. -/
theorem le_ofDigitChars (digits : List Char) (n : ℕ) : n ≤ Nat.ofDigitChars 10 digits n := by
  induction digits generalizing n with
  | nil => simp
  | cons c digits ih =>
    rw [Nat.ofDigitChars_cons]
    have hrest := ih (10 * n + (c.toNat - '0'.toNat))
    omega

/-- Digits are read to the end when each is one and their number is below the bound. -/
theorem foldlM_step_eq_some_iff (hn : n < bound) :
    digits.foldlM (step bound) n = some m ↔
      (∀ c ∈ digits, c.isDigit) ∧ Nat.ofDigitChars 10 digits n = m ∧ m < bound := by
  induction digits generalizing n with
  | nil =>
    rw [List.foldlM_nil, Nat.ofDigitChars_nil]
    constructor
    · intro h
      obtain rfl := Option.some.inj h
      exact ⟨by simp, rfl, hn⟩
    · intro h
      rw [h.2.1]
      rfl
  | cons c digits ih =>
    rw [List.foldlM_cons, Option.bind_eq_bind, Option.bind_eq_some_iff, Nat.ofDigitChars_cons,
      List.forall_mem_cons]
    have hcomm : 10 * n + (c.toNat - '0'.toNat) = n * 10 + (c.toNat - '0'.toNat) := by omega
    rw [hcomm]
    constructor
    · intro h
      obtain ⟨k, hk, hrest⟩ := h
      obtain ⟨hc, rfl, hlt⟩ := step_eq_some_iff.mp hk
      obtain ⟨hall, hvalue, hm⟩ := (ih hlt).mp hrest
      exact ⟨⟨hc, hall⟩, hvalue, hm⟩
    · intro h
      obtain ⟨⟨hc, hall⟩, hvalue, hm⟩ := h
      have hlt : n * 10 + (c.toNat - '0'.toNat) < bound :=
        Nat.lt_of_le_of_lt (hvalue ▸ le_ofDigitChars digits _) hm
      exact ⟨_, step_eq_some_iff.mpr ⟨hc, rfl, hlt⟩, (ih hlt).mpr ⟨hall, hvalue, hm⟩⟩

/-- **What the reader accepts.** A text is read as `n` when it is the number `n` and `n` is below
the bound. -/
theorem parse_eq_some_iff : parse bound text = some n ↔ IsNumeral text n ∧ n < bound := by
  unfold parse IsNumeral
  by_cases hempty : unsigned text = []
  · simp [hempty]
  · rw [if_neg hempty]
    cases bound with
    | zero =>
      -- Below zero there is no number, and the first digit is refused.
      obtain ⟨c, rest, hcons⟩ := List.exists_cons_of_ne_nil hempty
      simp [hcons, step]
    | succ bound =>
      rw [foldlM_step_eq_some_iff (Nat.succ_pos bound)]
      tauto

/-- A number is printed with digits only. -/
theorem isDigit_of_mem_toDigits (h : c ∈ Nat.toDigits 10 n) : c.isDigit :=
  Nat.isDigit_of_mem_toDigits (by decide) (by decide) h

/-- What is no digit is not in a printed number. -/
theorem not_mem_toDigits (h : c.isDigit = false) : c ∉ Nat.toDigits 10 n := by
  intro hmem
  rw [isDigit_of_mem_toDigits hmem] at h
  contradiction

theorem unsigned_toDigits (n : ℕ) : unsigned (Nat.toDigits 10 n) = Nat.toDigits 10 n := by
  cases hdigits : Nat.toDigits 10 n with
  | nil => rfl
  | cons c rest =>
    apply unsigned_of_head_ne
    rintro rfl
    exact not_mem_toDigits (n := n) (c := '+') rfl (hdigits ▸ List.mem_cons_self)

theorem isNumeral_toDigits (n : ℕ) : IsNumeral (Nat.toDigits 10 n) n := by
  unfold IsNumeral
  rw [unsigned_toDigits]
  exact ⟨Nat.toDigits_ne_nil, fun _ => isDigit_of_mem_toDigits, Nat.ofDigitChars_ten_toDigits⟩

/-- **Reading undoes printing**, below the bound. -/
theorem parse_toDigits (h : n < bound) : parse bound (Nat.toDigits 10 n) = some n :=
  parse_eq_some_iff.mpr ⟨isNumeral_toDigits n, h⟩

/-! ### The order of texts -/

theorem digit_le (h : c.isDigit) : c.toNat - '0'.toNat ≤ 9 := by
  have hle : c.toNat ≤ '9'.toNat := (Char.isDigit_iff_toNat.mp h).2
  change c.toNat ≤ 57 at hle
  change c.toNat - 48 ≤ 9
  omega

/-- A smaller number stays smaller by as many further digits. -/
theorem ofDigitChars_lt_of_lt {digits' : List Char} (hlen : digits.length = digits'.length)
    (hdigits : ∀ c ∈ digits, c.isDigit) (hlt : n < m) :
    Nat.ofDigitChars 10 digits n < Nat.ofDigitChars 10 digits' m := by
  induction digits generalizing digits' n m with
  | nil =>
    obtain rfl : digits' = [] := List.length_eq_zero_iff.mp hlen.symm
    exact hlt
  | cons c digits ih =>
    obtain ⟨c', rest, rfl⟩ := List.exists_cons_of_length_eq_add_one hlen.symm
    rw [Nat.ofDigitChars_cons, Nat.ofDigitChars_cons]
    apply ih (Nat.succ.inj hlen) fun d hd => hdigits d (List.mem_cons_of_mem c hd)
    have hc := digit_le (hdigits c List.mem_cons_self)
    omega

theorem ofDigitChars_lt_of_text_lt {digits' : List Char} (hlen : digits.length = digits'.length)
    (hdigits : ∀ c ∈ digits, c.isDigit) (hdigits' : ∀ c ∈ digits', c.isDigit)
    (hlt : digits < digits') : Nat.ofDigitChars 10 digits n < Nat.ofDigitChars 10 digits' n := by
  induction digits generalizing digits' n with
  | nil =>
    obtain rfl : digits' = [] := List.length_eq_zero_iff.mp hlen.symm
    exact absurd hlt (lt_irrefl _)
  | cons c digits ih =>
    obtain ⟨c', rest, rfl⟩ := List.exists_cons_of_length_eq_add_one hlen.symm
    obtain ⟨hc, hmore⟩ := List.forall_mem_cons.mp hdigits
    have hmore' := (List.forall_mem_cons.mp hdigits').2
    rw [Nat.ofDigitChars_cons, Nat.ofDigitChars_cons]
    rcases List.cons_lt_cons_iff.mp hlt with hfirst | ⟨rfl, hrest⟩
    · -- The first digit decides, whatever comes behind it.
      apply ofDigitChars_lt_of_lt (Nat.succ.inj hlen) hmore
      have hge : '0'.toNat ≤ c.toNat := (Char.isDigit_iff_toNat.mp hc).1
      have hval : c.toNat < c'.toNat := hfirst
      omega
    · exact ih (Nat.succ.inj hlen) hmore hmore' hrest

/-- **Numbers with equally many digits are ordered as their digits are**, as text. -/
theorem lt_of_toDigits_lt (hlen : (Nat.toDigits 10 n).length = (Nat.toDigits 10 m).length)
    (hlt : Nat.toDigits 10 n < Nat.toDigits 10 m) : n < m := by
  have hvalue := ofDigitChars_lt_of_text_lt (n := 0) hlen (fun _ => isDigit_of_mem_toDigits)
    (fun _ => isDigit_of_mem_toDigits) hlt
  rwa [Nat.ofDigitChars_ten_toDigits, Nat.ofDigitChars_ten_toDigits] at hvalue

end RfxVoiced.Decimal
