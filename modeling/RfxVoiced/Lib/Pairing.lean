import Mathlib.Tactic.Common
import RfxVoiced.Lib.Table

/-!
# Tables that are inverse to each other

A pairing of keys with values is often kept as two tables, so that it can be looked up from either
side. The two are inverse when they list the same pairs. Each update has to be made on both sides;
this file says when that keeps them inverse.

## Main definitions

* `Table.Inverse` — the two tables list the same pairs

## Main results

* `inverse_insert_iff` — entering a pair does so exactly when neither side is paired elsewhere
* `Inverse.erase`, `Inverse.retain` — taking pairs out keeps the tables inverse
-/

namespace RfxVoiced.Table

variable {K L : Type*} [DecidableEq K] [DecidableEq L]

/-- The two tables list the same pairs. -/
def Inverse (t : Table K L) (u : Table L K) : Prop :=
  ∀ k l, t.lookup k = some l ↔ u.lookup l = some k

theorem inverse_empty : Inverse (∅ : Table K L) (∅ : Table L K) := by
  intro k l
  simp

variable {t : Table K L} {u : Table L K}

/-- Entering a pair on both sides keeps the tables inverse exactly when neither side was paired with
anything else. -/
theorem inverse_insert_iff (h : Inverse t u) (k : K) (l : L) :
    Inverse (t.insert k l) (u.insert l k) ↔
      (t.lookup k = none ∨ t.lookup k = some l) ∧ (u.lookup l = none ∨ u.lookup l = some k) := by
  constructor
  · intro hafter
    constructor
    · -- Another partner of the key would still be paired with it from the other side.
      by_contra hbound
      rw [not_or] at hbound
      obtain ⟨l', hl'⟩ := Option.ne_none_iff_exists'.mp hbound.1
      have hne : l' ≠ l := by
        rintro rfl
        exact hbound.2 hl'
      have hback := (hafter k l').mpr
      rw [lookup_insert, lookup_insert, if_neg hne, if_pos rfl] at hback
      exact hne (Option.some.inj (hback ((h k l').mp hl'))).symm
    · -- And another partner of the value, from this side.
      by_contra hbound
      rw [not_or] at hbound
      obtain ⟨k', hk'⟩ := Option.ne_none_iff_exists'.mp hbound.1
      have hne : k' ≠ k := by
        rintro rfl
        exact hbound.2 hk'
      have hforth := (hafter k' l).mp
      rw [lookup_insert, lookup_insert, if_neg hne, if_pos rfl] at hforth
      exact hne (Option.some.inj (hforth ((h k' l).mpr hk'))).symm
  · rintro ⟨hk, hl⟩ k' l'
    rw [lookup_insert, lookup_insert]
    by_cases hkk : k' = k
    · subst hkk
      rw [if_pos rfl]
      by_cases hll : l' = l
      · simp [hll]
      · -- The key has no partner but the new one.
        rw [if_neg hll, ← h]
        rcases hk with hnone | hsame
        · simp [hnone, Ne.symm hll]
        · rw [hsame]
    · rw [if_neg hkk]
      by_cases hll : l' = l
      · -- Nor has the value.
        subst hll
        rw [if_pos rfl, h]
        rcases hl with hnone | hsame
        · simp [hnone, Ne.symm hkk]
        · rw [hsame]
      · rw [if_neg hll, h]

/-- Taking one pair out of both sides. -/
theorem Inverse.erase (h : Inverse t u) {k : K} {l : L} (hpair : t.lookup k = some l) :
    Inverse (t.erase k) (u.erase l) := by
  intro k' l'
  rw [lookup_erase, lookup_erase]
  by_cases hkk : k' = k
  · subst hkk
    rw [if_pos rfl]
    by_cases hll : l' = l
    · simp [hll]
    · rw [if_neg hll, ← h, hpair]
      simp [Ne.symm hll]
  · rw [if_neg hkk]
    by_cases hll : l' = l
    · subst hll
      rw [if_pos rfl, h, (h k l').mp hpair]
      simp [Ne.symm hkk]
    · rw [if_neg hll, h]

/-- Keeping the pairs that pass a test, which both sides of a pair answer alike. -/
theorem Inverse.retain (h : Inverse t u) {p : K → Bool} {q : L → Bool}
    (halike : ∀ k l, t.lookup k = some l → p k = q l) :
    Inverse (t.retain fun k _ => p k) (u.retain fun l _ => q l) := by
  intro k l
  rw [lookup_retain, lookup_retain, Option.filter_eq_some_iff, Option.filter_eq_some_iff, ← h]
  exact and_congr_right fun hpair => by rw [halike k l hpair]

end RfxVoiced.Table
