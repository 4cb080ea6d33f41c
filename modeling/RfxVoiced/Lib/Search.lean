import Mathlib.Data.List.Infix
import Mathlib.Tactic.Common

/-!
# The first occurrence of a list in another

A list is looked for among the windows of another, from the front. This file says what is found, and
what is found in a list of which more and more is known.

## Main definitions

* `windows` — the parts of so many elements in a row, from the front
* `find` — where the first occurrence begins
* `EndsFirst` — a list that ends where something first occurs in it

## Main results

* `find_eq_some_iff`, `find_eq_none_iff` — what is found
* `EndsFirst.find_append`, `EndsFirst.find_eq_none` — at the end of a list that ends where the
  needle first occurs, it is found whatever comes behind, and not before all of the list is there
* `endsFirst_of_find` — how to see that a list is one
-/

namespace RfxVoiced.Search

variable {α : Type*}

/-- The parts of `n` elements in a row, from the front. -/
def windows (n : ℕ) : List α → List (List α)
  | [] => []
  | a :: l => if n ≤ (a :: l).length then (a :: l).take n :: windows n l else []

variable [DecidableEq α]

/-- Where the first occurrence of the needle begins. -/
def find (haystack needle : List α) : Option ℕ :=
  (windows needle.length haystack).findIdx? fun w => w == needle

variable {haystack needle l : List α} {a : α} {i : ℕ}

theorem find_nil : find ([] : List α) needle = none := rfl

/-- An occurrence is at the front, or it is found further behind. -/
theorem find_cons :
    find (a :: l) needle = if needle <+: a :: l then some 0 else (find l needle).map (· + 1) := by
  unfold find
  rw [windows]
  split
  · rw [List.findIdx?_cons]
    by_cases hpre : needle <+: a :: l
    · rw [if_pos hpre, if_pos (beq_iff_eq.mpr (List.prefix_iff_eq_take.mp hpre).symm)]
    · have hfront : ((a :: l).take needle.length == needle) = false := by
        rw [beq_eq_false_iff_ne]
        intro heq
        exact hpre (List.prefix_iff_eq_take.mpr heq.symm)
      rw [if_neg hpre, hfront]
      rfl
  · next hlong =>
    -- Where the first window is too short for the needle, there is none further behind.
    have hnone : windows needle.length l = [] := by
      cases l with
      | nil => rfl
      | cons b l => rw [windows, if_neg fun h => hlong (h.trans (Nat.le_succ _))]
    rw [hnone, if_neg fun h => hlong h.length_le]
    rfl

/-- **What is found.** The needle is there, and nowhere before. -/
theorem find_eq_some_iff (hne : needle ≠ []) :
    find haystack needle = some i ↔
      needle <+: haystack.drop i ∧ ∀ j < i, ¬ needle <+: haystack.drop j := by
  induction haystack generalizing i with
  | nil =>
    rw [find_nil, List.drop_nil, List.prefix_nil]
    exact ⟨fun h => absurd h (by simp), fun h => absurd h.1 hne⟩
  | cons a l ih =>
    rw [find_cons]
    split
    · next hpre =>
      rw [Option.some_inj]
      constructor
      · rintro rfl
        exact ⟨hpre, by simp⟩
      · intro h
        by_contra hpos
        exact h.2 0 (by omega) hpre
    · next hpre =>
      cases i with
      | zero =>
        refine ⟨fun h => absurd h (by simp), fun h => absurd h.1 hpre⟩
      | succ i =>
        have hmap : (find l needle).map (· + 1) = some (i + 1) ↔ find l needle = some i := by simp
        rw [hmap, ih, List.drop_succ_cons]
        refine and_congr_right fun _ => ⟨fun h j hj => ?_, fun h j hj => h (j + 1) (by omega)⟩
        cases j with
        | zero => exact hpre
        | succ j => exact h j (by omega)

/-- Nothing is found exactly where the needle does not occur. -/
theorem find_eq_none_iff (hne : needle ≠ []) :
    find haystack needle = none ↔ ¬ needle <:+: haystack := by
  induction haystack with
  | nil => simp [find_nil, hne]
  | cons a l ih =>
    rw [find_cons, List.infix_cons_iff, not_or, ← ih]
    split
    · next hpre => simp [hpre]
    · next hpre => simp [hpre]

/-! ### Lists that end with the needle -/

/-- A list that ends where the needle first occurs in it. -/
def EndsFirst (needle l : List α) : Prop :=
  needle <:+ l ∧ ∀ front, front <+: l → needle <:+: front → front = l

namespace EndsFirst

/-- The needle is found at the end of the list, whatever comes behind. -/
theorem find_append (h : EndsFirst needle l) (hne : needle ≠ []) (rest : List α) :
    find (l ++ rest) needle = some (l.length - needle.length) := by
  obtain ⟨⟨front, rfl⟩, hfirst⟩ := h
  have hdrop : (front ++ needle ++ rest).drop front.length = needle ++ rest := by simp
  rw [find_eq_some_iff hne, List.length_append, Nat.add_sub_cancel, hdrop]
  refine ⟨List.prefix_append needle rest, fun j hj hpre => ?_⟩
  -- An earlier occurrence would end before the list does.
  have hpos := List.length_pos_iff.mpr hne
  have hpart := List.take_prefix (j + needle.length) (front ++ needle)
  have hshort : (front ++ needle).take (j + needle.length) = front ++ needle := by
    apply hfirst _ hpart
    have hle : j + needle.length ≤ (front ++ needle).length := by
      rw [List.length_append]
      omega
    have htake : (front ++ needle ++ rest).take (j + needle.length) =
        (front ++ needle).take (j + needle.length) := List.take_append_of_le_length hle
    rw [← htake]
    refine ⟨(front ++ needle ++ rest).take j, [], ?_⟩
    rw [List.append_nil, List.take_add, ← List.prefix_iff_eq_take.mp hpre]
  have hlength := congrArg List.length hshort
  rw [List.length_take, List.length_append] at hlength
  omega

/-- The needle is not found before all of the list is there. -/
theorem find_eq_none (h : EndsFirst needle l) (hne : needle ≠ []) (hpre : haystack <+: l)
    (hproper : haystack ≠ l) : find haystack needle = none :=
  (find_eq_none_iff hne).mpr fun hinfix => hproper (h.2 haystack hpre hinfix)

end EndsFirst

/-- A list ends where the needle first occurs in it when the needle is found there. -/
theorem endsFirst_of_find (hne : needle ≠ []) (hlen : needle.length ≤ l.length)
    (hfind : find l needle = some (l.length - needle.length)) : EndsFirst needle l := by
  obtain ⟨hthere, hfirst⟩ := (find_eq_some_iff hne).mp hfind
  have hend : needle = l.drop (l.length - needle.length) := by
    apply hthere.eq_of_length
    rw [List.length_drop]
    omega
  refine ⟨hend ▸ List.drop_suffix _ l, fun front hpre hinfix => ?_⟩
  obtain ⟨before, behind, rfl⟩ := hinfix
  obtain ⟨rest, rfl⟩ := hpre
  -- What is not yet the whole list would have the needle too early.
  by_contra hpart
  have hrest : 0 < rest.length := by
    apply List.length_pos_iff.mpr
    rintro rfl
    exact hpart (List.append_nil _).symm
  apply hfirst before.length
  · simp only [List.length_append]
    omega
  · simp [List.append_assoc]

end RfxVoiced.Search
