import Mathlib.Logic.Function.Basic
import Mathlib.Tactic.Common

/-!
# Maps of words that respect exclusive or

A word is a vector over the field of two elements, with exclusive or as its sum, and the shifts are
linear maps of it. Such a map is known by what it does to the single bits, and it is injective as
soon as nothing but zero is mapped to zero.

## Main definitions

* `XorLinear` — a map that respects exclusive or
* `ofTable` — the map with a given table of values at the single bits

## Main results

* `XorLinear.eq_of_bits` — two such maps that agree on the single bits are equal
* `xorShiftRight_injective`, `xorShiftLeft_injective` — adding to a word its own shift loses nothing
* `XorLinear.eq_zero_of_table` — a table that undoes a map shows that only zero goes to zero
-/

namespace RfxVoiced

variable {w : ℕ}

/-- A map of words that respects exclusive or. -/
def XorLinear (f : BitVec w → BitVec w) : Prop := ∀ x y, f (x ^^^ y) = f x ^^^ f y

/-- The map with the values of a table at the single bits, from bit `i` on. -/
def ofTable : List (BitVec w) → ℕ → BitVec w → BitVec w
  | [], _, _ => 0
  | value :: table, i, x => (if x.getLsbD i then value else 0) ^^^ ofTable table (i + 1) x

namespace XorLinear

variable {f g : BitVec w → BitVec w} {x y : BitVec w} {k : ℕ}

theorem id : XorLinear (fun x : BitVec w => x) := fun _ _ => rfl

theorem comp (hf : XorLinear f) (hg : XorLinear g) : XorLinear fun x => f (g x) := by
  intro x y
  change f (g (x ^^^ y)) = f (g x) ^^^ f (g y)
  rw [hg, hf]

theorem xor (hf : XorLinear f) (hg : XorLinear g) : XorLinear fun x => f x ^^^ g x := by
  intro x y
  change f (x ^^^ y) ^^^ g (x ^^^ y) = f x ^^^ g x ^^^ (f y ^^^ g y)
  rw [hf, hg]
  ac_rfl

theorem shiftRight (k : ℕ) : XorLinear fun x : BitVec w => x >>> k := by
  intro x y
  exact BitVec.ushiftRight_xor_distrib x y k

theorem shiftLeft (k : ℕ) : XorLinear fun x : BitVec w => x <<< k := by
  intro x y
  exact BitVec.shiftLeft_xor_distrib x y k

theorem map_zero (hf : XorLinear f) : f 0 = 0 := by
  have h := hf 0 0
  rwa [BitVec.xor_self, BitVec.xor_self] at h

/-- A map that sends nothing but zero to zero is injective. -/
theorem injective (hf : XorLinear f) (h : ∀ x, f x = 0 → x = 0) : Function.Injective f := by
  intro x y hxy
  apply BitVec.xor_eq_zero_iff.mp
  apply h
  rw [hf, hxy, BitVec.xor_self]
  rfl

/-- Maps that agree on the single bits agree on words that have no bits from `n` on. -/
theorem eq_of_bits_below (hf : XorLinear f) (hg : XorLinear g)
    (h : ∀ i < w, f (BitVec.twoPow w i) = g (BitVec.twoPow w i)) (n : ℕ) (x : BitVec w)
    (hx : ∀ i, n ≤ i → x.getLsbD i = false) : f x = g x := by
  induction n generalizing x with
  | zero =>
    have hzero : x = 0 := by
      apply BitVec.eq_of_getLsbD_eq
      intro i hi
      rw [hx i (Nat.zero_le i)]
      simp
    rw [hzero, hf.map_zero, hg.map_zero]
  | succ n ih =>
    cases hbit : x.getLsbD n with
    | false =>
      apply ih
      intro i hi
      rcases Nat.eq_or_lt_of_le hi with rfl | hlt
      · exact hbit
      · exact hx i hlt
    | true =>
      -- The topmost bit is taken off, and what is left has one bit less.
      have hn : n < w := BitVec.lt_of_getLsbD hbit
      have hrest : f (x ^^^ BitVec.twoPow w n) = g (x ^^^ BitVec.twoPow w n) := by
        apply ih
        intro i hi
        rw [BitVec.getLsbD_xor, BitVec.getLsbD_twoPow]
        rcases Nat.eq_or_lt_of_le hi with rfl | hlt
        · simp [hbit, hn]
        · simp [hx i hlt, Nat.ne_of_lt hlt]
      have hsplit : x = (x ^^^ BitVec.twoPow w n) ^^^ BitVec.twoPow w n := by
        rw [BitVec.xor_assoc, BitVec.xor_self, BitVec.xor_zero]
      rw [hsplit, hf, hg, hrest, h n hn]

/-- **A map is known by what it does to the single bits.** -/
theorem eq_of_bits (hf : XorLinear f) (hg : XorLinear g)
    (h : ∀ i < w, f (BitVec.twoPow w i) = g (BitVec.twoPow w i)) : f = g := by
  funext x
  exact eq_of_bits_below hf hg h w x fun i hi => BitVec.getLsbD_of_ge x i hi

theorem of_table (table : List (BitVec w)) (i : ℕ) : XorLinear (ofTable table i) := by
  induction table generalizing i with
  | nil =>
    intro x y
    simp [ofTable]
  | cons value table ih =>
    intro x y
    have hvalue : ∀ p q : Bool, (if (p ^^ q) then value else 0) =
        (if p then value else 0) ^^^ (if q then value else 0) := by
      intro p q
      cases p <;> cases q <;> simp
    simp only [ofTable, BitVec.getLsbD_xor, ih (i + 1) x y, hvalue]
    ac_rfl

/-- A table that undoes a map on the single bits undoes it everywhere, so that nothing but zero is
mapped to zero. -/
theorem eq_zero_of_table (hf : XorLinear f) (table : List (BitVec w))
    (h : ∀ i < w, ofTable table 0 (f (BitVec.twoPow w i)) = BitVec.twoPow w i)
    (hx : f x = 0) : x = 0 := by
  have hundo := eq_of_bits ((of_table table 0).comp hf) id h
  have hat := congrFun hundo x
  simp only [hx, (of_table table 0).map_zero] at hat
  exact hat.symm

end XorLinear

/-- A word that is its own shift to the right is zero. -/
theorem eq_zero_of_shiftRight_eq {x : BitVec w} {k : ℕ} (hk : 0 < k) (h : x ^^^ x >>> k = 0) :
    x = 0 := by
  have heq : x.toNat = x.toNat / 2 ^ k := by
    have hnat := congrArg BitVec.toNat (BitVec.xor_eq_zero_iff.mp h)
    rwa [BitVec.toNat_ushiftRight, Nat.shiftRight_eq_div_pow] at hnat
  apply BitVec.eq_of_toNat_eq
  by_contra hne
  exact absurd heq (Nat.ne_of_gt (Nat.div_lt_self (Nat.pos_of_ne_zero hne)
    (Nat.one_lt_two_pow (Nat.ne_of_gt hk))))

/-- A word that is its own shift to the left is zero: each bit is the one `k` places below it. -/
theorem eq_zero_of_shiftLeft_eq {x : BitVec w} {k : ℕ} (hk : 0 < k) (h : x ^^^ x <<< k = 0) :
    x = 0 := by
  have heq := BitVec.xor_eq_zero_iff.mp h
  have hbit : ∀ i, x.getLsbD i = false := by
    intro i
    induction i using Nat.strongRecOn with
    | ind i ih =>
      rw [heq, BitVec.getLsbD_shiftLeft]
      by_cases hi : i < k
      · simp [hi]
      · rw [ih (i - k) (by omega), Bool.and_false]
  apply BitVec.eq_of_getLsbD_eq
  intro i _
  rw [hbit i]
  simp

/-- Adding to a word its own shift to the right loses nothing. -/
theorem xorShiftRight_injective {k : ℕ} (hk : 0 < k) :
    Function.Injective fun x : BitVec w => x ^^^ x >>> k :=
  (XorLinear.id.xor (XorLinear.shiftRight k)).injective fun _ => eq_zero_of_shiftRight_eq hk

/-- Adding to a word its own shift to the left loses nothing. -/
theorem xorShiftLeft_injective {k : ℕ} (hk : 0 < k) :
    Function.Injective fun x : BitVec w => x ^^^ x <<< k :=
  (XorLinear.id.xor (XorLinear.shiftLeft k)).injective fun _ => eq_zero_of_shiftLeft_eq hk

end RfxVoiced
