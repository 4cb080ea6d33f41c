import Mathlib.Data.List.Nodup
import Mathlib.Data.List.Chain
import Mathlib.Data.List.Perm.Subperm
import Mathlib.Logic.Function.Iterate
import Mathlib.Logic.Relation

/-!
# Connected components of a family of groups

A family of groups joins its members transitively: two ids belong together when a chain of groups
leads from one to the other, consecutive groups sharing an id. The component of an id is computed
by growing a list from that id. One sweep visits the groups in order and absorbs each group that
the list has already reached; sweeps repeat until one of them adds nothing.

The number of sweeps is bounded by the number of ids listed in the groups, so the growth is written
with that bound as its fuel, and `component_eq_iterate` shows that the bound is never the reason it
stops.

## Main results

* `component_eq_iterate` — the growth ends, with the first sweep that adds nothing
* `mem_component` — the grown list holds exactly the ids linked to its seed
* `mem_component_iff_chained` — these are the ids that a chain of groups leads to
* `nodup_component` — it lists each of them once
* `mem_component_comm`, `mem_component_congr` — components partition the ids
-/

namespace RfxVoiced.Groups

variable {α : Type*}

/-- Two ids are linked when some group lists both. -/
def Linked (groups : List (List α)) (a b : α) : Prop := ∃ g ∈ groups, a ∈ g ∧ b ∈ g

/-- A chain of groups leads from one id to another: the first group lists the one, the last lists
the other, and consecutive groups share an id. -/
def Chained (groups : List (List α)) (a b : α) : Prop :=
  ∃ g chain, (∀ h ∈ g :: chain, h ∈ groups) ∧
    (g :: chain).IsChain (fun h h' => ∃ x ∈ h, x ∈ h') ∧
    a ∈ g ∧ b ∈ (g :: chain).getLast (List.cons_ne_nil g chain)

theorem Linked.symm {groups : List (List α)} {a b : α} (h : Linked groups a b) :
    Linked groups b a := by
  obtain ⟨g, hg, ha, hb⟩ := h
  exact ⟨g, hg, hb, ha⟩

variable [DecidableEq α]

/-- Append an id, unless it is listed already. -/
def push (out : List α) (a : α) : List α := if a ∈ out then out else out ++ [a]

/-- Append the ids of a group that the list has reached. -/
def absorb (out g : List α) : List α := if g.any (· ∈ out) then g.foldl push out else out

/-- Visit every group once, in order. -/
def sweep (groups : List (List α)) (out : List α) : List α := groups.foldl absorb out

/-- Sweep until a sweep adds nothing, or the fuel runs out. -/
def grow (groups : List (List α)) : ℕ → List α → List α
  | 0, out => out
  | n + 1, out =>
    let next := sweep groups out
    if next.length = out.length then out else grow groups n next

/-- The component of an id, listed from that id. -/
def component (groups : List (List α)) (a : α) : List α :=
  grow groups (groups.flatten.length + 1) [a]

/-! ### One sweep -/

theorem mem_push {out : List α} {a x : α} : x ∈ push out a ↔ x ∈ out ∨ x = a := by
  unfold push
  split_ifs with h
  · constructor
    · exact Or.inl
    · rintro (hx | rfl)
      · exact hx
      · exact h
  · simp

theorem prefix_push (out : List α) (a : α) : out <+: push out a := by
  unfold push
  split_ifs
  · exact List.prefix_rfl
  · exact List.prefix_append out [a]

theorem nodup_push {out : List α} (h : out.Nodup) (a : α) : (push out a).Nodup := by
  unfold push
  split_ifs with ha
  · exact h
  · exact List.nodup_append_comm.mp (List.nodup_cons.mpr ⟨ha, h⟩)

theorem mem_foldl_push {g out : List α} {x : α} :
    x ∈ g.foldl push out ↔ x ∈ out ∨ x ∈ g := by
  induction g generalizing out with
  | nil => simp
  | cons a g ih => rw [List.foldl_cons, ih, mem_push, List.mem_cons, or_assoc]

theorem prefix_foldl_push (g out : List α) : out <+: g.foldl push out := by
  induction g generalizing out with
  | nil => exact List.prefix_rfl
  | cons a g ih => exact (prefix_push out a).trans (ih (push out a))

theorem nodup_foldl_push {out : List α} (h : out.Nodup) (g : List α) :
    (g.foldl push out).Nodup := by
  induction g generalizing out with
  | nil => exact h
  | cons a g ih => exact ih (nodup_push h a)

theorem mem_absorb {out g : List α} {x : α} :
    x ∈ absorb out g ↔ x ∈ out ∨ x ∈ g ∧ ∃ y ∈ g, y ∈ out := by
  unfold absorb
  split_ifs with h
  · rw [List.any_eq_true] at h
    simp only [decide_eq_true_eq] at h
    rw [mem_foldl_push, and_iff_left h]
  · rw [List.any_eq_true] at h
    simp only [decide_eq_true_eq] at h
    simp only [h, and_false, or_false]

theorem prefix_absorb (out g : List α) : out <+: absorb out g := by
  unfold absorb
  split_ifs
  · exact prefix_foldl_push g out
  · exact List.prefix_rfl

theorem nodup_absorb {out : List α} (h : out.Nodup) (g : List α) : (absorb out g).Nodup := by
  unfold absorb
  split_ifs
  · exact nodup_foldl_push h g
  · exact h

theorem prefix_sweep (groups : List (List α)) (out : List α) : out <+: sweep groups out := by
  induction groups generalizing out with
  | nil => exact List.prefix_rfl
  | cons g groups ih => exact (prefix_absorb out g).trans (ih (absorb out g))

theorem nodup_sweep {out : List α} (h : out.Nodup) (groups : List (List α)) :
    (sweep groups out).Nodup := by
  induction groups generalizing out with
  | nil => exact h
  | cons g groups ih => exact ih (nodup_absorb h g)

/-- A sweep takes in every group that the list had reached before it. -/
theorem subset_sweep {groups : List (List α)} {out g : List α} (hg : g ∈ groups)
    (hreach : ∃ y ∈ g, y ∈ out) : g ⊆ sweep groups out := by
  induction groups generalizing out with
  | nil => exact absurd hg List.not_mem_nil
  | cons g' groups ih =>
    rcases List.mem_cons.mp hg with rfl | hrest
    · intro x hx
      exact (prefix_sweep groups (absorb out g)).subset (mem_absorb.mpr (Or.inr ⟨hx, hreach⟩))
    · obtain ⟨y, hyg, hyout⟩ := hreach
      exact ih hrest ⟨y, hyg, (prefix_absorb out g').subset hyout⟩

/-- A sweep adds only ids linked to ids already listed. -/
theorem mem_sweep_of_closed {groups visited : List (List α)} {out : List α} {P : α → Prop}
    (hvisited : visited ⊆ groups) (hclosed : ∀ x y, Linked groups x y → P x → P y)
    (hout : ∀ x ∈ out, P x) : ∀ x ∈ sweep visited out, P x := by
  induction visited generalizing out with
  | nil => exact hout
  | cons g visited ih =>
    obtain ⟨hg, hrest⟩ := List.cons_subset.mp hvisited
    apply ih hrest
    intro x hx
    rcases mem_absorb.mp hx with hold | ⟨hxg, y, hyg, hyout⟩
    · exact hout x hold
    · exact hclosed y x ⟨g, hg, hyg, hxg⟩ (hout y hyout)

/-! ### Growth to a fixed list -/

theorem prefix_grow (groups : List (List α)) (n : ℕ) (out : List α) :
    out <+: grow groups n out := by
  induction n generalizing out with
  | zero => exact List.prefix_rfl
  | succ n ih =>
    rw [grow]
    split_ifs
    · exact List.prefix_rfl
    · exact (prefix_sweep groups out).trans (ih _)

theorem nodup_grow (groups : List (List α)) (n : ℕ) {out : List α} (h : out.Nodup) :
    (grow groups n out).Nodup := by
  induction n generalizing out with
  | zero => exact h
  | succ n ih =>
    rw [grow]
    split_ifs
    · exact h
    · exact ih (nodup_sweep h groups)

theorem mem_grow_of_closed {groups : List (List α)} {P : α → Prop}
    (hclosed : ∀ x y, Linked groups x y → P x → P y) (n : ℕ) {out : List α}
    (hout : ∀ x ∈ out, P x) : ∀ x ∈ grow groups n out, P x := by
  induction n generalizing out with
  | zero => exact hout
  | succ n ih =>
    rw [grow]
    split_ifs
    · exact hout
    · exact ih (mem_sweep_of_closed (List.Subset.refl groups) hclosed hout)

/-- With enough fuel the growth ends with the first sweep that adds nothing. Each sweep before it
adds an id, and only ids of `bound` can be added. -/
theorem grow_eq_iterate {groups : List (List α)} {bound : List α} (n : ℕ) {out : List α}
    (hnodup : out.Nodup) (hout : out ⊆ bound) (hgroups : groups.flatten ⊆ bound)
    (hfuel : bound.length < out.length + n) :
    ∃ m, out.length + m ≤ bound.length ∧
      (∀ k < m, ((sweep groups)^[k] out).length < ((sweep groups)^[k + 1] out).length) ∧
      sweep groups ((sweep groups)^[m] out) = (sweep groups)^[m] out ∧
      grow groups n out = (sweep groups)^[m] out := by
  induction n generalizing out with
  | zero =>
    -- A list without repetitions is no longer than the bound it lies in.
    have hle := (hnodup.subperm hout).length_le
    omega
  | succ n ih =>
    have hpre := prefix_sweep groups out
    rw [grow]
    split_ifs with hsame
    · have hle := (hnodup.subperm hout).length_le
      exact ⟨0, hle, fun k hk => absurd hk k.not_lt_zero, (hpre.eq_of_length hsame.symm).symm, rfl⟩
    · -- The sweep added an id, which makes up for the fuel it took.
      have hlt : out.length < (sweep groups out).length :=
        lt_of_le_of_ne hpre.length_le fun heq => hsame heq.symm
      have hlinked : ∀ x y, Linked groups x y → x ∈ bound → y ∈ bound := by
        rintro x y ⟨g, hg, -, hy⟩ -
        exact hgroups (List.mem_flatten.mpr ⟨g, hg, hy⟩)
      have hnext : sweep groups out ⊆ bound :=
        mem_sweep_of_closed (List.Subset.refl groups) hlinked fun x hx => hout hx
      obtain ⟨m, hm, hgrows, hfix, heq⟩ := ih (nodup_sweep hnodup groups) hnext (by omega)
      refine ⟨m + 1, by omega, fun k hk => ?_, hfix, heq⟩
      cases k with
      | zero => exact hlt
      | succ k => exact hgrows k (by omega)

/-! ### Components -/

variable (groups : List (List α))

/-- The growth of a component ends, after as many sweeps as there are ids to add at most: each sweep
adds an id, until the first that adds nothing. -/
theorem component_eq_iterate (a : α) :
    ∃ m ≤ groups.flatten.length,
      (∀ k < m, ((sweep groups)^[k] [a]).length < ((sweep groups)^[k + 1] [a]).length) ∧
      sweep groups ((sweep groups)^[m] [a]) = (sweep groups)^[m] [a] ∧
      component groups a = (sweep groups)^[m] [a] := by
  have hseed : [a] ⊆ a :: groups.flatten :=
    List.cons_subset.mpr ⟨List.mem_cons_self, List.nil_subset _⟩
  obtain ⟨m, hm, hgrows, hfix, heq⟩ :=
    grow_eq_iterate (groups.flatten.length + 1) (List.nodup_singleton a) hseed
      (List.subset_cons_self a _) (by simp only [List.length_cons, List.length_nil]; omega)
  simp only [List.length_cons, List.length_nil] at hm
  exact ⟨m, by omega, hgrows, hfix, heq⟩

/-- The growth of a component stops because a sweep added nothing, never for want of fuel. -/
theorem sweep_component (a : α) : sweep groups (component groups a) = component groups a := by
  obtain ⟨m, -, -, hfix, heq⟩ := component_eq_iterate groups a
  rw [heq, hfix]

theorem nodup_component (a : α) : (component groups a).Nodup :=
  nodup_grow groups _ (List.nodup_singleton a)

/-- The component of an id is listed from that id. -/
theorem component_eq_cons (a : α) : ∃ rest, component groups a = a :: rest := by
  obtain ⟨rest, hrest⟩ := prefix_grow groups (groups.flatten.length + 1) [a]
  exact ⟨rest, hrest.symm⟩

@[simp] theorem mem_component_self (a : α) : a ∈ component groups a := by
  obtain ⟨rest, hrest⟩ := component_eq_cons groups a
  rw [hrest]
  exact List.mem_cons_self

variable {groups}

/-- The component of an id holds exactly the ids that a chain of groups links to it. -/
theorem mem_component {a x : α} :
    x ∈ component groups a ↔ Relation.ReflTransGen (Linked groups) a x := by
  constructor
  · -- Only linked ids are ever added.
    refine mem_grow_of_closed (fun y z hyz hy => hy.tail hyz) _ ?_ x
    rintro y hy
    rw [List.mem_singleton.mp hy]
  · intro h
    induction h with
    | refl => exact mem_component_self groups a
    | tail _ hlink ih =>
      -- One more sweep would take in the next link of the chain, and adds nothing.
      obtain ⟨g, hg, hy, hz⟩ := hlink
      rw [← sweep_component]
      exact subset_sweep hg ⟨_, hy, ih⟩ hz

omit [DecidableEq α] in
/-- Ids that one link after the other joins are joined by the chain of the groups that link them. -/
theorem reflTransGen_linked_iff {a b : α} :
    Relation.ReflTransGen (Linked groups) a b ↔ b = a ∨ Chained groups a b := by
  constructor
  · intro h
    induction h using Relation.ReflTransGen.head_induction_on with
    | refl => exact Or.inl rfl
    | head hlink _ ih =>
      obtain ⟨g, hg, ha, hc⟩ := hlink
      right
      rcases ih with rfl | ⟨g', chain, hmem, hchain, hc', hlast⟩
      · exact ⟨g, [], by simpa using hg, List.isChain_singleton g, ha, hc⟩
      · refine ⟨g, g' :: chain, ?_, List.isChain_cons_cons.mpr ⟨⟨_, hc, hc'⟩, hchain⟩, ha, ?_⟩
        · exact List.forall_mem_cons.mpr ⟨hg, hmem⟩
        · rwa [List.getLast_cons (List.cons_ne_nil g' chain)]
  · rintro (rfl | ⟨g, chain, hmem, hchain, ha, hlast⟩)
    · exact Relation.ReflTransGen.refl
    · -- Along the chain, each group is entered by the id that it shares with the one before.
      induction chain generalizing g a with
      | nil => exact Relation.ReflTransGen.single ⟨g, hmem g List.mem_cons_self, ha, hlast⟩
      | cons g' chain ih =>
        obtain ⟨⟨c, hc, hc'⟩, hrest⟩ := List.isChain_cons_cons.mp hchain
        rw [List.getLast_cons (List.cons_ne_nil g' chain)] at hlast
        have htail := ih g' (fun h hh => hmem h (List.mem_cons_of_mem g hh)) hrest hc' hlast
        exact htail.head ⟨g, hmem g List.mem_cons_self, ha, hc⟩

/-- The component of an id holds that id, and those that a chain of groups leads to from it. -/
theorem mem_component_iff_chained {a x : α} :
    x ∈ component groups a ↔ x = a ∨ Chained groups a x := by
  rw [mem_component, reflTransGen_linked_iff]

theorem mem_component_comm {a b : α} : b ∈ component groups a ↔ a ∈ component groups b := by
  have hsymm : Std.Symm (Linked groups) := ⟨fun _ _ h => h.symm⟩
  rw [mem_component, mem_component]
  exact ⟨Relation.ReflTransGen.stdSymm.symm a b, Relation.ReflTransGen.stdSymm.symm b a⟩

/-- Two ids of one component have the same component. -/
theorem mem_component_congr {a b : α} (h : b ∈ component groups a) (x : α) :
    x ∈ component groups b ↔ x ∈ component groups a := by
  have hback := mem_component_comm.mp h
  rw [mem_component] at h hback
  rw [mem_component, mem_component]
  exact ⟨h.trans, hback.trans⟩

end RfxVoiced.Groups
