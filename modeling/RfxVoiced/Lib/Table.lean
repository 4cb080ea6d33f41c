import Mathlib.Data.List.AList
import Mathlib.Data.List.Induction

/-!
# Finite tables

A table is a finite partial map with decidable keys. It is the association list of Mathlib, whose
entries carry the proof that no key is listed twice, at a value type that does not depend on the
key. Iterating over a table visits its entries in list order; a result that must not depend on that
order is stated through `AList.lookup`.

Mathlib has insertion and erasure. This file adds the updates that act on every entry at once, and
the lookup rule of each:

* `Table.mapVal` rewrites every value in place;
* `Table.modify` rewrites the value of one key, when it is present;
* `Table.retain` keeps the entries that pass a test;
* `Table.overlay` rewrites a table at each key of a table of updates;
* `Table.collect` builds a table from a list of entries, a later entry over an earlier one.
-/

namespace RfxVoiced

/-- A finite table from keys in `K` to values in `V`. -/
abbrev Table (K : Type*) (V : Type*) := AList fun _ : K => V

namespace Table

variable {K V W : Type*}

/-- Rewrite every value, keeping the keys and their order. -/
def mapVal (t : Table K V) (f : K → V → W) : Table K W where
  entries := t.entries.map (Sigma.map id f)
  nodupKeys := t.nodupKeys.map₂ f _

/-- Keep the entries that pass the test. -/
def retain (t : Table K V) (p : K → V → Bool) : Table K V where
  entries := t.entries.filter fun e => p e.1 e.2
  nodupKeys := t.nodupKeys.sublist List.filter_sublist

variable [DecidableEq K]

/-- Rewrite the value of one key, when it is present. -/
def modify (t : Table K V) (k : K) (f : V → V) : Table K V :=
  t.mapVal fun k' v => if k' = k then f v else v

/-- Apply `f w` to the value of `k`, for each entry `(k, w)` of the updates. -/
def overlay (t : Table K V) (f : W → V → V) (updates : Table K W) : Table K V :=
  updates.entries.foldl (fun t e => t.modify e.1 (f e.2)) t

/-- Insert the entries of a list, one after the other. -/
def collect (l : List (K × V)) : Table K V := l.foldl (fun t e => t.insert e.1 e.2) ∅

/-- Erasing a key is dropping its entry: no key is listed twice. -/
theorem entries_erase (t : Table K V) (k : K) :
    (t.erase k).entries = t.entries.filter fun e => e.1 ≠ k := by
  have hkerase : ∀ l : List (Sigma fun _ : K => V), l.NodupKeys →
      l.kerase k = l.filter fun e => e.1 ≠ k := by
    intro l hl
    induction l with
    | nil => rfl
    | cons e l ih =>
      obtain ⟨hfresh, hrest⟩ := List.nodupKeys_cons.mp hl
      by_cases h : k = e.1
      · -- The rest does not list the key again, so all of it passes the test.
        have hall : ∀ e' ∈ l, decide (e'.1 ≠ k) = true := by
          intro e' he'
          rw [decide_eq_true_eq]
          rintro rfl
          exact hfresh (h ▸ List.mem_map_of_mem he')
        rw [List.kerase_cons_eq h, List.filter_cons_of_neg (by simp [h]),
          List.filter_eq_self.mpr hall]
      · rw [List.kerase_cons_ne h, ih hrest, List.filter_cons_of_pos (by simp [Ne.symm h])]
  exact hkerase t.entries t.nodupKeys

omit [DecidableEq K] in
@[simp] theorem keys_mapVal (t : Table K V) (f : K → V → W) : (t.mapVal f).keys = t.keys := by
  simp [AList.keys, List.keys, mapVal, Function.comp_def, Sigma.map]

/-! ### Lookup rules -/

theorem lookup_insert (t : Table K V) (k k' : K) (v : V) :
    (t.insert k v).lookup k' = if k' = k then some v else t.lookup k' := by
  split_ifs with h
  · subst h
    exact AList.lookup_insert t
  · exact AList.lookup_insert_ne h

theorem lookup_erase (t : Table K V) (k k' : K) :
    (t.erase k).lookup k' = if k' = k then none else t.lookup k' := by
  split_ifs with h
  · subst h
    exact AList.lookup_erase k' t
  · exact AList.lookup_erase_ne h

@[simp] theorem lookup_mapVal (t : Table K V) (f : K → V → W) (k : K) :
    (t.mapVal f).lookup k = (t.lookup k).map (f k) :=
  List.dlookup_map₂ k

theorem mapVal_erase (t : Table K V) (k : K) (f : K → V → W) :
    mapVal (t.erase k) f = (t.mapVal f).erase k := by
  apply AList.ext
  rw [entries_erase]
  change (t.erase k).entries.map _ = (t.entries.map _).filter _
  rw [entries_erase, List.filter_map]
  rfl

theorem mapVal_insert (t : Table K V) (k : K) (v : V) (f : K → V → W) :
    mapVal (t.insert k v) f = (t.mapVal f).insert k (f k v) := by
  apply AList.ext
  exact congrArg (List.cons ⟨k, f k v⟩) (congrArg AList.entries (mapVal_erase t k f))

theorem lookup_modify (t : Table K V) (k k' : K) (f : V → V) :
    (t.modify k f).lookup k' = if k' = k then (t.lookup k').map f else t.lookup k' := by
  rw [modify, lookup_mapVal]
  split_ifs with h
  · rfl
  · exact Option.map_id'

@[simp] theorem lookup_modify_self (t : Table K V) (k : K) (f : V → V) :
    (t.modify k f).lookup k = (t.lookup k).map f := by
  rw [lookup_modify, if_pos rfl]

theorem lookup_modify_ne (t : Table K V) {k k' : K} (h : k' ≠ k) (f : V → V) :
    (t.modify k f).lookup k' = t.lookup k' := by
  rw [lookup_modify, if_neg h]

/-- What an update leaves alone of every value is what it was. -/
theorem map_lookup_modify {β : Type*} (t : Table K V) (k k' : K) {f : V → V} {g : V → β}
    (h : ∀ v, g (f v) = g v) : ((t.modify k f).lookup k').map g = (t.lookup k').map g := by
  rw [lookup_modify]
  split_ifs
  · rw [Option.map_map]
    exact congrArg (fun g' => (t.lookup k').map g') (funext h)
  · rfl

theorem lookup_eq_some_iff {t : Table K V} {k : K} {v : V} :
    t.lookup k = some v ↔ (⟨k, v⟩ : Sigma fun _ : K => V) ∈ t.entries :=
  AList.mem_lookup_iff

omit [DecidableEq K] in
theorem mem_retain_entries {t : Table K V} {p : K → V → Bool} {k : K} {v : V} :
    (⟨k, v⟩ : Sigma fun _ : K => V) ∈ (t.retain p).entries ↔
      (⟨k, v⟩ : Sigma fun _ : K => V) ∈ t.entries ∧ p k v = true :=
  List.mem_filter

/-- No key is listed twice. -/
theorem filter_entries (t : Table K V) (k : K) :
    (t.entries.filter fun e => e.1 = k) =
      (t.lookup k).toList.map fun v => (⟨k, v⟩ : Sigma fun _ : K => V) := by
  have hlist : ∀ l : List (Sigma fun _ : K => V), l.NodupKeys →
      (l.filter fun e => e.1 = k) = (l.dlookup k).toList.map fun v => ⟨k, v⟩ := by
    intro l hl
    induction l with
    | nil => rfl
    | cons e l ih =>
      obtain ⟨k', v⟩ := e
      obtain ⟨hfresh, hrest⟩ := List.nodupKeys_cons.mp hl
      by_cases hk : k' = k
      · subst hk
        rw [List.filter_cons_of_pos (by simp), ih hrest, List.dlookup_eq_none.mpr hfresh,
          List.dlookup_cons_eq]
        rfl
      · rw [List.filter_cons_of_neg (by simpa using hk), ih hrest,
          List.dlookup_cons_ne l ⟨k', v⟩ (Ne.symm hk)]
  exact hlist t.entries t.nodupKeys

@[simp] theorem lookup_retain (t : Table K V) (p : K → V → Bool) (k : K) :
    (t.retain p).lookup k = (t.lookup k).filter (p k) := by
  ext v
  rw [Option.filter_eq_some_iff]
  rw [lookup_eq_some_iff, mem_retain_entries, lookup_eq_some_iff]

/-- One pass over the updates reaches each key at most once, since no key is listed twice. -/
theorem lookup_overlay_foldl (f : W → V → V) (l : List (Sigma fun _ : K => W))
    (hl : l.NodupKeys) (t : Table K V) (k : K) :
    (l.foldl (fun t e => t.modify e.1 (f e.2)) t).lookup k =
      (t.lookup k).map ((l.dlookup k).elim id f) := by
  induction l generalizing t with
  | nil => simp
  | cons e l ih =>
    obtain ⟨k', w⟩ := e
    obtain ⟨hfresh, hrest⟩ := List.nodupKeys_cons.mp hl
    rw [List.foldl_cons, ih hrest]
    by_cases h : k = k'
    · -- The key is updated now, and not again.
      subst h
      have habsent : l.dlookup k = none := List.dlookup_eq_none.mpr hfresh
      rw [lookup_modify_self, habsent, List.dlookup_cons_eq]
      simp
    · rw [lookup_modify_ne t h, List.dlookup_cons_ne l ⟨k', w⟩ h]

theorem lookup_overlay (t : Table K V) (f : W → V → V) (updates : Table K W) (k : K) :
    (t.overlay f updates).lookup k = (t.lookup k).map ((updates.lookup k).elim id f) :=
  lookup_overlay_foldl f updates.entries updates.nodupKeys t k

/-! ### Updates of some keys only -/

/-- The update leaves the entries of all other keys alone, and treats each entry by itself. -/
structure ChangesOnly (p : K → Prop) (f : Table K V → Table K V) : Prop where
  frame : ∀ t k, ¬ p k → (f t).lookup k = t.lookup k
  effect : ∀ t t' k, t.lookup k = t'.lookup k → (f t).lookup k = (f t').lookup k

theorem changesOnly_id (p : K → Prop) : ChangesOnly p fun t : Table K V => t :=
  ⟨fun _ _ _ => rfl, fun _ _ _ h => h⟩

theorem changesOnly_erase {p : K → Prop} {k : K} (hk : p k) :
    ChangesOnly p fun t : Table K V => t.erase k where
  frame t k' hk' := by
    rw [lookup_erase, if_neg]
    rintro rfl
    exact hk' hk
  effect t t' k' h := by rw [lookup_erase, lookup_erase, h]

theorem changesOnly_insert (p : K → Prop) {k : K} (hk : p k) (v : V) :
    ChangesOnly p fun t : Table K V => t.insert k v where
  frame t k' hk' := by
    rw [lookup_insert, if_neg]
    rintro rfl
    exact hk' hk
  effect t t' k' h := by rw [lookup_insert, lookup_insert, h]

/-! ### Tables from lists -/

/-- The last entry of a key is the one that is kept. -/
theorem lookup_collect (l : List (K × V)) (k : K) :
    (collect l).lookup k = l.reverse.lookup k := by
  induction l using List.reverseRecOn with
  | nil => rfl
  | append_singleton l e ih =>
    have hlast : collect (l ++ [e]) = (collect l).insert e.1 e.2 := by
      rw [collect, List.foldl_append]
      rfl
    rw [hlast, lookup_insert, ih, List.reverse_concat, List.lookup_cons]
    by_cases h : k = e.1
    · rw [if_pos h, beq_iff_eq.mpr h]
    · rw [if_neg h, beq_false_of_ne h]

theorem mem_collect {l : List (K × V)} {k : K} : k ∈ collect l ↔ ∃ v, (k, v) ∈ l := by
  rw [← AList.lookup_isSome, lookup_collect, List.lookup_isSome_iff]
  simp

end Table

end RfxVoiced
