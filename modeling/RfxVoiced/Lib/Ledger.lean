import Mathlib.Data.Set.Basic

/-!
# Ledgers of receipts

Parties hold resources. A request that obtains resources leaves a receipt, filed under the party
and the button that made the request, and releasing the button gives back what its receipt lists.
Nothing is ever stranded as long as every resource that a party holds is listed on some receipt of
that party. This file says which moves keep that so.

## Main definitions

* `Ledger` — who holds what, and the receipts on file
* `Ledger.Covered` — every resource held is listed on a receipt of its holder
* `Ledger.Yields` — nobody gains, and a resource still held keeps its receipts
* `Ledger.Takes` — one party gains resources from one list, and files that list

## Main results

* `Covered.of_yields` — yielding keeps the ledger covered
* `Takes.covered_iff` — taking keeps it covered exactly when the receipt that is filed does not
  replace the only account of something the party still holds
* `Covered.holds_nothing` — a party without receipts holds nothing
-/

namespace RfxVoiced

/-- Who holds which resource, and the receipts on file: per party and button, a set of resources. -/
structure Ledger (κ π ρ : Type*) where
  holds : κ → ρ → Prop
  receipt : κ → π → Option (Set ρ)

namespace Ledger

variable {κ π ρ : Type*} {L L' : Ledger κ π ρ}

/-- Every resource that a party holds is listed on one of that party's receipts. -/
def Covered (L : Ledger κ π ρ) : Prop :=
  ∀ c x, L.holds c x → ∃ p S, L.receipt c p = some S ∧ x ∈ S

/-- Nobody gains a resource, and every receipt that lists a resource still held stays on file. -/
def Yields (L L' : Ledger κ π ρ) : Prop :=
  ∀ c x, L'.holds c x →
    L.holds c x ∧ ∀ p S, L.receipt c p = some S → x ∈ S → L'.receipt c p = some S

theorem Covered.of_yields (h : L.Covered) (hmove : L.Yields L') : L'.Covered := by
  intro c x hx
  obtain ⟨hheld, hkept⟩ := hmove c x hx
  obtain ⟨p, S, hS, hmem⟩ := h c x hheld
  exact ⟨p, S, hkept p S hS hmem, hmem⟩

/-- Losing resources, with every receipt left on file. -/
theorem Yields.lose (hholds : ∀ c x, L'.holds c x → L.holds c x)
    (hreceipt : L'.receipt = L.receipt) : L.Yields L' := by
  intro c x hx
  refine ⟨hholds c x hx, fun p S hS _ => ?_⟩
  rw [hreceipt]
  exact hS

/-- Parties departing, with everything they hold and every receipt of theirs. -/
theorem Yields.depart (gone : κ → Prop) (hholds : ∀ c x, L'.holds c x → L.holds c x ∧ ¬ gone c)
    (hreceipt : ∀ c p, ¬ gone c → L'.receipt c p = L.receipt c p) : L.Yields L' := by
  intro c x hx
  obtain ⟨hheld, hstays⟩ := hholds c x hx
  refine ⟨hheld, fun p S hS _ => ?_⟩
  rw [hreceipt c p hstays]
  exact hS

/-- Releasing one button: its receipt leaves the file, and so does all that it lists. -/
theorem Yields.giveBack {c : κ} {p : π}
    (hholds : ∀ d x, L'.holds d x → L.holds d x)
    (hback : ∀ x S, L.receipt c p = some S → x ∈ S → ¬ L'.holds c x)
    (hreceipt : ∀ d q, (d, q) ≠ (c, p) → L'.receipt d q = L.receipt d q) : L.Yields L' := by
  intro d x hx
  refine ⟨hholds d x hx, fun q S hS hmem => ?_⟩
  by_cases hbutton : (d, q) = (c, p)
  · obtain ⟨rfl, rfl⟩ := Prod.mk.inj hbutton
    exact absurd hx (hback x S hS hmem)
  · rw [hreceipt d q hbutton]
    exact hS

/-- One party gains resources out of `S` and files `S` under the button it pressed. Outside `S` it
holds what it held. -/
structure Takes (L L' : Ledger κ π ρ) (c : κ) (p : π) (S : Set ρ) : Prop where
  others : ∀ d x, d ≠ c → L'.holds d x → L.holds d x
  outside : ∀ x, x ∉ S → (L'.holds c x ↔ L.holds c x)
  filed : L'.receipt c p = some S
  kept : ∀ d q, (d, q) ≠ (c, p) → L'.receipt d q = L.receipt d q

/-- Filing a receipt replaces the one that was there. The ledger stays covered exactly when
everything the party keeps outside the new receipt is listed under another button. -/
theorem Takes.covered_iff {c : κ} {p : π} {S : Set ρ} (hmove : L.Takes L' c p S)
    (h : L.Covered) :
    L'.Covered ↔
      ∀ x, L.holds c x → x ∉ S → ∃ q, q ≠ p ∧ ∃ T, L.receipt c q = some T ∧ x ∈ T := by
  have hother : ∀ q, q ≠ p → L'.receipt c q = L.receipt c q := fun q hq =>
    hmove.kept c q fun heq => hq (Prod.mk.inj heq).2
  constructor
  · intro h' x hx hout
    obtain ⟨q, T, hT, hmem⟩ := h' c x ((hmove.outside x hout).mpr hx)
    -- The receipt that lists `x` is not the one just filed, so it was there before.
    have hq : q ≠ p := by
      rintro rfl
      rw [hmove.filed] at hT
      obtain rfl := Option.some.inj hT
      exact hout hmem
    exact ⟨q, hq, T, (hother q hq).symm.trans hT, hmem⟩
  · intro hkeeps d x hx
    by_cases hd : d = c
    · subst hd
      by_cases hin : x ∈ S
      · exact ⟨p, S, hmove.filed, hin⟩
      · obtain ⟨q, hq, T, hT, hmem⟩ := hkeeps x ((hmove.outside x hin).mp hx) hin
        exact ⟨q, T, (hother q hq).trans hT, hmem⟩
    · obtain ⟨q, T, hT, hmem⟩ := h d x (hmove.others d x hd hx)
      refine ⟨q, T, ?_, hmem⟩
      rw [hmove.kept d q fun heq => hd (Prod.mk.inj heq).1]
      exact hT

/-- A party without receipts holds nothing. -/
theorem Covered.holds_nothing {c : κ} (h : L.Covered) (hnone : ∀ p, L.receipt c p = none) (x : ρ) :
    ¬ L.holds c x := by
  intro hx
  obtain ⟨p, S, hS, -⟩ := h c x hx
  rw [hnone p] at hS
  exact absurd hS (by simp)

end Ledger

end RfxVoiced
