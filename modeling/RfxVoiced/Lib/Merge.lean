import Mathlib.Data.List.MinMax
import Mathlib.Data.List.Nodup

/-!
# Merging by key

Items are offered one after the other to a list that keeps one item for each key: the first to be
offered, until one of a greater rank is. What is left in the end is, for each key, the first of the
greatest items offered under it, in the sense of `List.argmax`. So the outcome for a key is decided
by the items of that key alone, in their order.

## Main definitions

* `offer` — offer one item
* `collate` — offer every item of a list

## Main results

* `find?_collate` — the item kept for a key is the first greatest one offered under it
* `nodup_collate` — one item is kept for each key
* `mem_collate_congr` — the outcome depends on the items of each key only
-/

namespace RfxVoiced.Merge

variable {α κ β : Type*} [DecidableEq κ] [LinearOrder β] (key : α → κ) (rank : α → β)

/-- Offer an item: it displaces the item kept for its key if it is greater. -/
def offer : List α → α → List α
  | [], a => [a]
  | x :: kept, a =>
    if key x = key a then (if rank x < rank a then a else x) :: kept else x :: offer kept a

/-- Offer the items of a list, one after the other. -/
def collate (items : List α) : List α := items.foldl (offer key rank) []

variable {key rank}

/-! ### One offer -/

theorem find?_offer (k : κ) (kept : List α) (a : α) :
    (offer key rank kept a).find? (fun x => key x = k) =
      if key a = k then
        List.argAux (fun b c => rank c < rank b) (kept.find? fun x => key x = k) a
      else kept.find? fun x => key x = k := by
  induction kept with
  | nil =>
    split_ifs with h
    · simp [offer, List.argAux, h]
    · simp [offer, h]
  | cons x kept ih =>
    rw [offer]
    by_cases hx : key x = key a
    · rw [if_pos hx]
      by_cases hk : key a = k
      · -- Both items are under the key asked for, and the new one is kept if it is greater.
        have hkeep : key (if rank x < rank a then a else x) = k := by
          split_ifs
          · exact hk
          · exact hx.trans hk
        rw [if_pos hk, List.find?_cons_of_pos (by simpa using hkeep),
          List.find?_cons_of_pos (by simpa using hx.trans hk)]
        exact apply_ite some _ _ _
      · have hkeep : key (if rank x < rank a then a else x) ≠ k := by
          split_ifs
          · exact hk
          · rwa [hx]
        rw [if_neg hk, List.find?_cons_of_neg (by simpa using hkeep),
          List.find?_cons_of_neg (by simpa [hx] using hk)]
    · rw [if_neg hx]
      by_cases hxk : key x = k
      · have hak : key a ≠ k := fun hak => hx (hxk.trans hak.symm)
        simp [hxk, hak]
      · rw [List.find?_cons_of_neg (by simpa using hxk), ih,
          List.find?_cons_of_neg (by simpa using hxk)]

theorem keys_offer (kept : List α) (a : α) :
    (offer key rank kept a).map key =
      if key a ∈ kept.map key then kept.map key else kept.map key ++ [key a] := by
  induction kept with
  | nil => simp [offer]
  | cons x kept ih =>
    rw [offer]
    by_cases hx : key x = key a
    · have hkey : key (if rank x < rank a then a else x) = key x := by
        split_ifs
        · exact hx.symm
        · rfl
      rw [if_pos hx, List.map_cons, hkey, List.map_cons, hx, if_pos List.mem_cons_self]
    · have hmem : key a ∈ key x :: kept.map key ↔ key a ∈ kept.map key := by
        rw [List.mem_cons, or_iff_right (Ne.symm hx)]
      rw [if_neg hx, List.map_cons, ih, List.map_cons]
      simp only [hmem]
      split_ifs <;> rfl

theorem nodup_offer {kept : List α} (h : (kept.map key).Nodup) (a : α) :
    ((offer key rank kept a).map key).Nodup := by
  rw [keys_offer]
  split_ifs with hmem
  · exact h
  · exact List.nodup_append_comm.mp (List.nodup_cons.mpr ⟨hmem, h⟩)

/-! ### All of them -/

/-- The item kept for a key is the first of the greatest items offered under it. -/
theorem find?_collate (items : List α) (k : κ) :
    (collate key rank items).find? (fun x => key x = k) =
      (items.filter fun x => key x = k).argmax rank := by
  induction items using List.reverseRecOn with
  | nil => rfl
  | append_singleton items a ih =>
    rw [collate, List.foldl_concat, find?_offer, ← collate, ih, List.filter_append]
    split_ifs with hk
    · rw [List.filter_cons_of_pos (by simpa using hk), List.filter_nil, List.argmax_concat]
      rfl
    · rw [List.filter_cons_of_neg (by simpa using hk), List.filter_nil, List.append_nil]

theorem nodup_collate (items : List α) : ((collate key rank items).map key).Nodup := by
  induction items using List.reverseRecOn with
  | nil => exact List.nodup_nil
  | append_singleton items a ih =>
    rw [collate, List.foldl_concat]
    exact nodup_offer ih a

/-- Where keys do not repeat, an item is listed exactly when it is the one found under its key. -/
theorem mem_iff_find? {l : List α} (h : (l.map key).Nodup) {x : α} :
    x ∈ l ↔ l.find? (fun y => key y = key x) = some x := by
  induction l with
  | nil => simp
  | cons y l ih =>
    obtain ⟨hfresh, hrest⟩ := List.nodup_cons.mp h
    by_cases hy : key y = key x
    · rw [List.find?_cons_of_pos (by simpa using hy), List.mem_cons, Option.some.injEq]
      constructor
      · rintro (rfl | hmem)
        · rfl
        · rw [hy] at hfresh
          exact absurd (List.mem_map_of_mem hmem) hfresh
      · rintro rfl
        exact Or.inl rfl
    · rw [List.find?_cons_of_neg (by simpa using hy), ← ih hrest, List.mem_cons,
        or_iff_right fun heq => hy (congrArg key heq.symm)]

theorem mem_collate {items : List α} {x : α} :
    x ∈ collate key rank items ↔
      (items.filter fun y => key y = key x).argmax rank = some x := by
  rw [mem_iff_find? (nodup_collate items), find?_collate]

/-- What is kept in the end was offered. -/
theorem mem_of_mem_collate {items : List α} {x : α} (h : x ∈ collate key rank items) :
    x ∈ items :=
  List.mem_of_mem_filter (List.argmax_mem (mem_collate.mp h))

/-- What is kept for a key is no less than anything offered under it. -/
theorem rank_le_of_mem_collate {items : List α} {x y : α} (h : x ∈ collate key rank items)
    (hy : y ∈ items) (hkey : key y = key x) : rank y ≤ rank x :=
  List.le_of_mem_argmax (List.mem_filter.mpr ⟨hy, by simpa using hkey⟩) (mem_collate.mp h)

/-- A key is kept exactly when something is offered under it. -/
theorem exists_mem_collate {items : List α} {k : κ} :
    (∃ x ∈ collate key rank items, key x = k) ↔ ∃ x ∈ items, key x = k := by
  constructor
  · rintro ⟨x, hx, hk⟩
    exact ⟨x, mem_of_mem_collate hx, hk⟩
  · rintro ⟨x, hx, hk⟩
    have hsome : (items.filter fun y => key y = k).argmax rank ≠ none := by
      rw [Ne, List.argmax_eq_none]
      exact List.ne_nil_of_mem (List.mem_filter.mpr ⟨hx, by simpa using hk⟩)
    obtain ⟨y, hy⟩ := Option.ne_none_iff_exists'.mp hsome
    have hyk : key y = k := by simpa using (List.mem_filter.mp (List.argmax_mem hy)).2
    refine ⟨y, mem_collate.mpr ?_, hyk⟩
    rw [hyk]
    exact hy

/-- Of two equally great items the one offered first is kept: an item that comes before all others
of its key is displaced by a greater one only. -/
theorem eq_head_of_mem_collate {items : List α} {x a : α} {rest : List α}
    (h : x ∈ collate key rank items)
    (hfirst : (items.filter fun y => key y = key x) = a :: rest) (hle : rank x ≤ rank a) :
    x = a := by
  have hx := mem_collate.mp h
  rw [hfirst, List.argmax_cons] at hx
  cases hrest : rest.argmax rank with
  | none =>
    rw [hrest] at hx
    exact (Option.some.inj hx).symm
  | some c =>
    rw [hrest] at hx
    by_cases hlt : rank a < rank c
    · simp only [hlt, if_true] at hx
      obtain rfl := Option.some.inj hx
      exact absurd hlt (not_lt_of_ge hle)
    · simp only [hlt, if_false] at hx
      exact (Option.some.inj hx).symm

/-- The outcome depends on the items of each key only: the order between different keys does not
matter. -/
theorem mem_collate_congr {items items' : List α}
    (h : ∀ k, (items'.filter fun y => key y = k) = items.filter fun y => key y = k) (x : α) :
    x ∈ collate key rank items' ↔ x ∈ collate key rank items := by
  rw [mem_collate, mem_collate, h]

end RfxVoiced.Merge
