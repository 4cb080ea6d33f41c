import Mathlib.Data.List.Find
import RfxVoiced.Lib.Table

/-!
# Registries of live handles

An owner may have several handles open at once. A registry lists the live ones, the latest first,
beside a table with one entry per owner, which is meant to name the latest live handle. Opening a
handle replaces the entry of its owner. Closing one erases the entry of its owner, whichever handle
it named; so the table stays right exactly as long as a handle is closed only when it is the last
one of its owner.

## Main definitions

* `Registry`, `Registry.enter`, `Registry.leave`
* `Registry.Serves` — every owner with a live handle is entered under the latest one

## Main results

* `serves_enter` — opening a handle keeps the table right
* `serves_leave_iff` — closing one does exactly when it is its owner's last
-/

namespace RfxVoiced

/-- Live handles with their owners, the latest first, and a table with one entry per owner. -/
structure Registry (κ ν : Type*) where
  live : List (ν × κ)
  table : Table κ ν

namespace Registry

variable {κ ν : Type*} [DecidableEq κ] [DecidableEq ν] (R : Registry κ ν)

/-- A handle opens, and replaces the entry of its owner. -/
def enter (v : ν) (c : κ) : Registry κ ν where
  live := (v, c) :: R.live
  table := R.table.insert c v

/-- The owner of a live handle. -/
def owner (v : ν) : Option κ := (R.live.find? fun e => e.1 = v).map Prod.snd

/-- A handle closes, and the entry of its owner is erased with it. -/
def leave (v : ν) : Registry κ ν :=
  match R.owner v with
  | none => R
  | some c => ⟨R.live.filter fun e => e.1 ≠ v, R.table.erase c⟩

/-- The latest live handle of an owner. -/
def latest (c : κ) : Option ν := (R.live.find? fun e => e.2 = c).map Prod.fst

/-- Every owner with a live handle is entered under the latest one. -/
def Serves : Prop := ∀ c v, R.latest c = some v → R.table.lookup c = some v

/-- No two live handles are the same. -/
def Distinct : Prop := (R.live.map Prod.fst).Nodup

variable {R}

omit [DecidableEq κ] in
theorem owner_eq_some_iff (h : R.Distinct) {v : ν} {c : κ} :
    R.owner v = some c ↔ (v, c) ∈ R.live := by
  constructor
  · intro howner
    obtain ⟨⟨w, d⟩, hfind, rfl⟩ := Option.map_eq_some_iff.mp howner
    have hw : w = v := by simpa using List.find?_some hfind
    exact hw ▸ List.mem_of_find?_eq_some hfind
  · intro hmem
    have hsome : (R.live.find? fun e => e.1 = v).isSome = true :=
      List.find?_isSome.mpr ⟨(v, c), hmem, by simp⟩
    obtain ⟨⟨w, d⟩, hfind⟩ := Option.isSome_iff_exists.mp hsome
    have hw : w = v := by simpa using List.find?_some hfind
    subst hw
    -- Both entries are live, and handles are distinct.
    have heq : ((w, d) : ν × κ) = (w, c) :=
      List.inj_on_of_nodup_map h (List.mem_of_find?_eq_some hfind) hmem rfl
    rw [owner, hfind, Option.map_some, (Prod.mk.inj heq).2]

omit [DecidableEq ν] in
theorem latest_isSome_iff {c : κ} : (R.latest c).isSome = true ↔ ∃ v, (v, c) ∈ R.live := by
  rw [latest, Option.isSome_map, List.find?_isSome]
  constructor
  · rintro ⟨⟨v, d⟩, hmem, hd⟩
    obtain rfl : d = c := by simpa using hd
    exact ⟨v, hmem⟩
  · rintro ⟨v, hmem⟩
    exact ⟨(v, c), hmem, by simp⟩

omit [DecidableEq ν] in
/-- Opening a handle keeps the table right. -/
theorem serves_enter (h : R.Serves) (v : ν) (c : κ) : (R.enter v c).Serves := by
  intro d w hlatest
  by_cases hd : d = c
  · subst hd
    have hw : v = w := by simpa [latest, enter] using hlatest
    rw [enter, Table.lookup_insert, if_pos rfl, hw]
  · have hold : R.latest d = some w := by simpa [latest, enter, Ne.symm hd] using hlatest
    rw [enter, Table.lookup_insert, if_neg hd]
    exact h d w hold

omit [DecidableEq ν] in
theorem distinct_enter (h : R.Distinct) {v : ν} (hfresh : v ∉ R.live.map Prod.fst) (c : κ) :
    (R.enter v c).Distinct :=
  List.nodup_cons.mpr ⟨hfresh, h⟩

theorem leave_of_owner {v : ν} {c : κ} (h : R.owner v = some c) :
    R.leave v = ⟨R.live.filter fun e => e.1 ≠ v, R.table.erase c⟩ := by
  simp only [leave, h]

theorem leave_of_no_owner {v : ν} (h : R.owner v = none) : R.leave v = R := by
  simp only [leave, h]

theorem distinct_leave (h : R.Distinct) (v : ν) : (R.leave v).Distinct := by
  cases howner : R.owner v with
  | none => rwa [leave_of_no_owner howner]
  | some c =>
    rw [leave_of_owner howner]
    exact (List.filter_sublist.map Prod.fst).nodup h

/-- Closing a handle leaves the latest handle of every other owner what it was. -/
theorem latest_leave_of_ne (h : R.Distinct) {v : ν} {c d : κ} (howner : R.owner v = some c)
    (hd : d ≠ c) : (R.leave v).latest d = R.latest d := by
  rw [leave_of_owner howner, latest, latest, List.find?_filter]
  refine congrArg (Option.map Prod.fst) (List.find?_congr fun e he => ?_)
  obtain ⟨w, b⟩ := e
  by_cases hb : b = d
  · -- The closed handle is another owner's.
    have hw : w ≠ v := by
      rintro rfl
      have hother := (owner_eq_some_iff h).mpr he
      exact hd (hb.symm.trans (Option.some.inj (hother.symm.trans howner)))
    simp [hb, hw]
  · simp [hb]

/-- Closing a handle keeps the table right exactly when it is the last one of its owner. -/
theorem serves_leave_iff (hdistinct : R.Distinct) (h : R.Serves) (v : ν) :
    (R.leave v).Serves ↔ ∀ c, R.owner v = some c → ∀ w, (w, c) ∈ R.live → w = v := by
  constructor
  · intro hserves c howner w hmem
    by_contra hne
    have hlive : (w, c) ∈ (R.leave v).live := by
      rw [leave_of_owner howner]
      exact List.mem_filter.mpr ⟨hmem, by simpa using hne⟩
    obtain ⟨u, hu⟩ := Option.isSome_iff_exists.mp (latest_isSome_iff.mpr ⟨w, hlive⟩)
    -- The owner has a handle left, and its entry is gone.
    have hentry := hserves c u hu
    rw [leave_of_owner howner, Table.lookup_erase, if_pos rfl] at hentry
    exact absurd hentry (by simp)
  · intro hlast d w hlatest
    cases howner : R.owner v with
    | none =>
      rw [leave_of_no_owner howner] at hlatest ⊢
      exact h d w hlatest
    | some c =>
      by_cases hd : d = c
      · -- The owner has no other handle, so none of its handles is left.
        subst hd
        obtain ⟨u, hu⟩ := latest_isSome_iff.mp (Option.isSome_iff_exists.mpr ⟨w, hlatest⟩)
        rw [leave_of_owner howner] at hu
        obtain ⟨hmem, hne⟩ := List.mem_filter.mp hu
        exact absurd (hlast d howner u hmem) (by simpa using hne)
      · rw [latest_leave_of_ne hdistinct howner hd] at hlatest
        rw [leave_of_owner howner, Table.lookup_erase, if_neg hd]
        exact h d w hlatest

end Registry

end RfxVoiced
