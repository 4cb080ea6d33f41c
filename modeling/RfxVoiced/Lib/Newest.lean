import Mathlib.Data.List.Induction
import Mathlib.Data.List.Sort
import Mathlib.Tactic.Common

/-!
# The newest elements, from groups visited one after another

Elements come in groups, and so many of the newest are wanted. A reader that visits the groups in
some order, and stops at the first group with which it has enough, returns the newest of what it has
read. This file says when these are the newest of all.

## Main definitions

* `newest` — so many elements of a list, the newest first
* `gather` — what is read before there is enough
* `IsNewest` — a list of the newest elements of another
* `EarlierNoOlder`, `LaterNoOlder` — the condition under which the early stop is right, by the order
  of the groups and by labels that are in that order

## Main results

* `isNewest_newest` — `newest` does what it says
* `gather_spec` — the groups that are visited, and why the next is not
* `earlierNoOlder_map_iff` — the condition, for groups in the order of their labels
* `isNewest_gather_iff` — the early stop is right exactly when, for any element of a group behind
  enough others, enough of these others are no older
-/

namespace RfxVoiced

variable {α β : Type*} [LinearOrder β] (key : α → β)

/-- At most `limit` elements of a list, those with the greatest keys, in descending order. -/
def newest (limit : ℕ) (l : List α) : List α :=
  (l.insertionSort fun a b => key b ≤ key a).take limit

/-- Append groups, one after the other, until there are enough elements. -/
def gather (limit : ℕ) : List α → List (List α) → List α
  | out, [] => out
  | out, group :: rest =>
    if limit ≤ (out ++ group).length then out ++ group else gather limit (out ++ group) rest

/-- A list of as many of the newest elements as are wanted, if there are as many. -/
structure IsNewest (limit : ℕ) (all result : List α) : Prop where
  sorted : result.Pairwise fun a b => key b ≤ key a
  length : result.length = min limit all.length
  rest : ∃ rest, all.Perm (result ++ rest) ∧ ∀ c ∈ rest, ∀ r ∈ result, key c ≤ key r

/-! ### The newest of a list -/

theorem pairwise_sorted (l : List α) :
    (l.insertionSort fun a b => key b ≤ key a).Pairwise fun a b => key b ≤ key a := by
  have htrans : IsTrans α fun a b => key b ≤ key a := ⟨fun _ _ _ hab hbc => hbc.trans hab⟩
  have htotal : Std.Total fun a b => key b ≤ key a := ⟨fun a b => le_total (key b) (key a)⟩
  exact List.pairwise_insertionSort _ l

/-- What is taken and what is left. -/
theorem perm_newest_append (limit : ℕ) (l : List α) :
    ∃ rest, l.Perm (newest key limit l ++ rest) ∧
      ∀ c ∈ rest, ∀ r ∈ newest key limit l, key c ≤ key r := by
  have hsorted := pairwise_sorted key l
  have hsplit := List.take_append_drop limit (l.insertionSort fun a b => key b ≤ key a)
  refine ⟨(l.insertionSort fun a b => key b ≤ key a).drop limit, ?_, ?_⟩
  · rw [newest, hsplit]
    exact (List.perm_insertionSort _ l).symm
  · intro c hc r hr
    rw [← hsplit] at hsorted
    exact (List.pairwise_append.mp hsorted).2.2 r hr c hc

theorem length_newest (limit : ℕ) (l : List α) :
    (newest key limit l).length = min limit l.length := by
  rw [newest, List.length_take, List.length_insertionSort]

theorem isNewest_newest (limit : ℕ) (l : List α) : IsNewest key limit l (newest key limit l) where
  sorted := (pairwise_sorted key l).sublist (List.take_sublist limit _)
  length := length_newest key limit l
  rest := perm_newest_append key limit l

variable {key} {limit : ℕ}

/-- Fewer than `limit` elements are newer than one that is taken. -/
theorem countP_lt_of_mem_newest {l : List α} {r : α} (h : r ∈ newest key limit l) :
    l.countP (fun c => key r < key c) < limit := by
  obtain ⟨rest, hperm, hrest⟩ := perm_newest_append key limit l
  have hnone : rest.countP (fun c => key r < key c) = 0 := by
    rw [List.countP_eq_zero]
    intro c hc
    simpa using hrest c hc r h
  have hself : (newest key limit l).countP (fun c => key r < key c) <
      (newest key limit l).length := by
    refine lt_of_le_of_ne List.countP_le_length fun heq => ?_
    simpa using List.countP_eq_length.mp heq r h
  have hlength := length_newest key limit l
  rw [hperm.countP_eq, List.countP_append, hnone]
  omega

/-! ### Stopping early -/

/-- **The groups that are visited.** They are the first ones. Behind them there are none, or there
is enough; and there was not enough before the last of them. -/
theorem gather_spec (limit : ℕ) (out : List α) (groups : List (List α)) :
    ∃ seen left, groups = seen ++ left ∧ gather limit out groups = out ++ seen.flatten ∧
      (left ≠ [] → limit ≤ (out ++ seen.flatten).length) ∧
      ∀ pre group post, seen = pre ++ group :: post → pre ≠ [] →
        (out ++ pre.flatten).length < limit := by
  induction groups generalizing out with
  | nil => exact ⟨[], [], rfl, (List.append_nil out).symm, fun h => absurd rfl h, by simp⟩
  | cons group rest ih =>
    by_cases henough : limit ≤ (out ++ group).length
    · refine ⟨[group], rest, rfl, ?_, fun _ => by simpa using henough, ?_⟩
      · rw [gather, if_pos henough]
        simp
      · intro pre g post heq hpre
        cases pre with
        | nil => exact absurd rfl hpre
        | cons p pre => simp at heq
    · obtain ⟨seen, left, hgroups, hgather, hleft, hbefore⟩ := ih (out ++ group)
      rw [List.append_assoc] at hgather hleft
      refine ⟨group :: seen, left, congrArg (List.cons group) hgroups, ?_, hleft, ?_⟩
      · rw [gather, if_neg henough]
        exact hgather
      · intro pre g post heq hpre
        cases pre with
        | nil => exact absurd rfl hpre
        | cons p pre =>
          obtain ⟨rfl, hseen⟩ := List.cons.inj heq
          cases hcases : pre with
          | nil => simpa using henough
          | cons q more =>
            have hlt := hbefore pre g post hseen (by simp [hcases])
            rw [List.append_assoc] at hlt
            rw [← hcases]
            exact hlt

/-- Enough of the elements before a group are no older than any of the group, whenever there are
enough elements before it. -/
def EarlierNoOlder (key : α → β) (limit : ℕ) (groups : List (List α)) : Prop :=
  ∀ pre group post, groups = pre ++ group :: post → limit ≤ pre.flatten.length →
    ∀ c ∈ group, limit ≤ pre.flatten.countP fun x => key c ≤ key x

/-- Under the condition, nothing in the groups that are not visited is newer than what is taken. -/
theorem le_of_mem_left {seen left : List (List α)} (hcond : EarlierNoOlder key limit (seen ++ left))
    (henough : limit ≤ seen.flatten.length) {r : α} (hr : r ∈ newest key limit seen.flatten) :
    ∀ c ∈ left.flatten, key c ≤ key r := by
  induction left using List.reverseRecOn with
  | nil => simp
  | append_singleton left group ih =>
    have hleft : ∀ c ∈ left.flatten, key c ≤ key r := by
      apply ih
      intro pre g post heq
      exact hcond pre g (post ++ [group]) (by rw [← List.append_assoc, heq]; simp)
    intro c hc
    rw [List.flatten_append, List.mem_append] at hc
    rcases hc with hc | hc
    · exact hleft c hc
    · rw [List.flatten_cons, List.flatten_nil, List.append_nil] at hc
      by_contra hnewer
      -- All that is no older than `c` is newer than `r`, and of that there is not enough.
      have hcount := hcond (seen ++ left) group [] (List.append_assoc _ _ _).symm
        (by rw [List.flatten_append, List.length_append]; omega) c hc
      have hnone : left.flatten.countP (fun x => key c ≤ key x) = 0 := by
        rw [List.countP_eq_zero]
        intro x hx
        have hle := hleft x hx
        have hlt := lt_of_le_of_lt hle (not_le.mp hnewer)
        simpa using hlt
      have hmono : seen.flatten.countP (fun x => key c ≤ key x) ≤
          seen.flatten.countP (fun x => key r < key x) := by
        apply List.countP_mono_left
        intro x _ hx
        exact decide_eq_true (lt_of_lt_of_le (not_le.mp hnewer) (of_decide_eq_true hx))
      have hfew := countP_lt_of_mem_newest hr
      rw [List.flatten_append, List.countP_append, hnone] at hcount
      omega

/-- Where the newest of all are among the groups that are visited, enough elements of these groups
are no older than any of the others. -/
theorem le_countP_of_isNewest {seen left : List (List α)}
    (h : IsNewest key limit (seen ++ left).flatten (newest key limit seen.flatten))
    (henough : limit ≤ seen.flatten.length) {c : α} (hc : c ∈ left.flatten) :
    limit ≤ seen.flatten.countP fun x => key c ≤ key x := by
  obtain ⟨rest, hperm, hrest⟩ := h.rest
  obtain ⟨dropped, hseen, -⟩ := perm_newest_append key limit seen.flatten
  have hleft : rest.Perm (dropped ++ left.flatten) := by
    apply (List.perm_append_left_iff (newest key limit seen.flatten)).mp
    refine hperm.symm.trans ?_
    rw [List.flatten_append, ← List.append_assoc]
    exact hseen.append_right _
  have hle := hrest c (hleft.mem_iff.mpr (List.mem_append_right _ hc))
  have hall : (newest key limit seen.flatten).countP (fun x => key c ≤ key x) =
      (newest key limit seen.flatten).length :=
    List.countP_eq_length.mpr fun r hr => decide_eq_true (hle r hr)
  rw [hseen.countP_eq, List.countP_append, hall, length_newest]
  omega

/-- **When the early stop is right.** What is taken of the groups that are visited is the newest of
all exactly when, for any element of a group before which there are enough others, enough of these
others are no older. -/
theorem isNewest_gather_iff (groups : List (List α)) :
    IsNewest key limit groups.flatten (newest key limit (gather limit [] groups)) ↔
      EarlierNoOlder key limit groups := by
  obtain ⟨seen, left, rfl, hgather, hleft, hbefore⟩ := gather_spec limit [] groups
  rw [List.nil_append] at hgather hleft
  rw [hgather]
  constructor
  · intro h pre group post hsplit henough c hc
    -- A group before which there is enough is not visited, unless nothing is wanted.
    have hpre : limit = 0 ∨ ∃ more, pre = seen ++ more ∧ left = more ++ group :: post := by
      rcases List.append_eq_append_iff.mp hsplit with ⟨more, hpre, hmore⟩ | ⟨tail, htail, hgroup⟩
      · exact Or.inr ⟨more, hpre, hmore⟩
      · cases tail with
        | nil =>
          rw [List.append_nil] at htail
          exact Or.inr ⟨[], by rw [htail, List.append_nil], hgroup.symm⟩
        | cons g tail =>
          obtain ⟨rfl, -⟩ := List.cons.inj hgroup
          left
          by_contra hzero
          have hne : pre ≠ [] := by
            rintro rfl
            simp at henough
            exact hzero henough
          have hlt := hbefore pre group tail htail hne
          rw [List.nil_append] at hlt
          omega
    rcases hpre with hzero | ⟨more, rfl, rfl⟩
    · rw [hzero]
      exact Nat.zero_le _
    · have hcount := le_countP_of_isNewest h (hleft (by simp)) (c := c) (by simp [hc])
      rw [List.flatten_append, List.countP_append]
      omega
  · intro hcond
    by_cases hnil : left = []
    · rw [hnil, List.append_nil]
      exact isNewest_newest key limit seen.flatten
    · have henough := hleft hnil
      obtain ⟨rest, hperm, hrest⟩ := perm_newest_append key limit seen.flatten
      refine ⟨(isNewest_newest key limit _).sorted, ?_, rest ++ left.flatten, ?_, ?_⟩
      · rw [length_newest, List.flatten_append, List.length_append]
        omega
      · rw [List.flatten_append, ← List.append_assoc]
        exact hperm.append_right _
      · intro c hc r hr
        rcases List.mem_append.mp hc with hc | hc
        · exact hrest c hc r hr
        · exact le_of_mem_left hcond henough hr c hc

theorem IsNewest.perm {all all' result : List α} (h : IsNewest key limit all result)
    (hperm : all.Perm all') : IsNewest key limit all' result where
  sorted := h.sorted
  length := hperm.length_eq ▸ h.length
  rest := by
    obtain ⟨rest, hrest, hle⟩ := h.rest
    exact ⟨rest, hperm.symm.trans hrest, hle⟩

/-! ### Groups with labels -/

section Labels

variable {ν : Type*} [LinearOrder ν] {label : α → ν} {labels pre post : List ν} {group : ν → List α}
variable {n : ν}

/-- Where the labels descend, what has a greater label than a group is what stands before it. -/
theorem countP_before (hdesc : (pre ++ n :: post).Pairwise (· > ·))
    (hlabel : ∀ m ∈ pre ++ n :: post, ∀ x ∈ group m, label x = m) (q : α → Bool) :
    ((pre ++ n :: post).map group).flatten.countP (fun x => decide (n < label x) && q x) =
      (pre.map group).flatten.countP q := by
  obtain ⟨-, hrest, hbefore⟩ := List.pairwise_append.mp hdesc
  have hpre : (pre.map group).flatten.countP (fun x => decide (n < label x) && q x) =
      (pre.map group).flatten.countP q := by
    apply List.countP_congr
    intro x hx
    obtain ⟨m, hm, hxm⟩ : ∃ m ∈ pre, x ∈ group m := by simpa using hx
    have hlt : n < label x := by
      rw [hlabel m (List.mem_append_left _ hm) x hxm]
      exact hbefore m hm n List.mem_cons_self
    simp [hlt]
  have hpost : ((n :: post).map group).flatten.countP
      (fun x => decide (n < label x) && q x) = 0 := by
    rw [List.countP_eq_zero]
    intro x hx
    obtain ⟨m, hm, hxm⟩ : ∃ m ∈ n :: post, x ∈ group m := by simpa using hx
    have hle : m ≤ n := by
      rcases List.mem_cons.mp hm with rfl | hlater
      · exact le_refl _
      · exact le_of_lt ((List.pairwise_cons.mp hrest).1 m hlater)
    rw [hlabel m (List.mem_append_right _ hm) x hxm]
    simp [not_lt.mpr hle]
  rw [List.map_append, List.flatten_append, List.countP_append, hpre, hpost, Nat.add_zero]

/-- Enough of the elements with greater labels than an element are no older than it, whenever there
are enough elements with greater labels. -/
def LaterNoOlder (key : α → β) (label : α → ν) (limit : ℕ) (all : List α) : Prop :=
  ∀ c ∈ all, limit ≤ all.countP (fun x => decide (label c < label x)) →
    limit ≤ all.countP fun x => decide (label c < label x) && decide (key c ≤ key x)

theorem LaterNoOlder.perm {all all' : List α} (h : LaterNoOlder key label limit all)
    (hperm : all.Perm all') : LaterNoOlder key label limit all' := by
  intro c hc henough
  rw [← hperm.countP_eq] at henough ⊢
  exact h c (hperm.mem_iff.mpr hc) henough

/-- **The condition, for groups in the order of their labels.** The groups before that of an element
are those with greater labels. -/
theorem earlierNoOlder_map_iff (hdesc : labels.Pairwise (· > ·))
    (hlabel : ∀ m ∈ labels, ∀ x ∈ group m, label x = m) :
    EarlierNoOlder key limit (labels.map group) ↔
      LaterNoOlder key label limit (labels.map group).flatten := by
  have htrue (n : ν) : (fun x : α => decide (n < label x)) =
      fun x => decide (n < label x) && (fun _ => true) x := by
    funext x
    rw [Bool.and_true]
  constructor
  · intro h c hc henough
    obtain ⟨n, hn, hcn⟩ : ∃ n ∈ labels, c ∈ group n := by simpa using hc
    obtain ⟨pre, post, rfl⟩ := List.append_of_mem hn
    rw [hlabel n hn c hcn] at henough ⊢
    rw [htrue, countP_before hdesc hlabel, List.countP_true] at henough
    rw [countP_before hdesc hlabel]
    exact h (pre.map group) (group n) (post.map group) List.map_append henough c hcn
  · intro h pre g post hsplit henough c hc
    obtain ⟨before, behind, rfl, rfl, hbehind⟩ := List.map_eq_append_iff.mp hsplit
    obtain ⟨n, after, rfl, rfl, rfl⟩ := List.map_eq_cons_iff.mp hbehind
    have hn : n ∈ before ++ n :: after := by simp
    have hcond := h c (by simp [hc])
    rw [hlabel n hn c hc] at hcond
    rw [htrue, countP_before hdesc hlabel, List.countP_true, countP_before hdesc hlabel] at hcond
    exact hcond henough

end Labels

end RfxVoiced
