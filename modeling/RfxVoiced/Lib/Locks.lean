import Mathlib.Algebra.BigOperators.Group.Finset.Basic
import Mathlib.Algebra.Order.BigOperators.Group.Finset
import Mathlib.Data.List.Nodup
import Mathlib.Logic.Relation
import Mathlib.Order.WellFounded

/-!
# Locks that are taken in order

Threads share locks. Each runs a program that takes locks and gives them back, and may begin another
one when it is done. The locks are ordered, and a program is in order when it takes no lock below
one that it holds, and gives back whatever it takes.

## Main definitions

* `Op`, `Ordered` — programs, and those that are in order
* `holding`, `Inside` — programs that are built from sections
* `Script`, `Covered`, `Sound` — programs that also change what the locks guard
* `Threads`, `Works`, `Step` — threads that run such programs, in any interleaving
* `WaitsFor` — one thread wants a lock that another holds

## Main results

* `disciplined_of_reach` — no lock is ever held twice
* `exists_works` — whomever a thread waits for, at the end of the chain there is one that can go on
* `exists_idle` — so that all threads can finish what they are doing
* `Covered.same_exec` — what a script never locks it leaves as it was
-/

namespace RfxVoiced.Locks

/-- What a program does to the locks. -/
inductive Op (L : Type*) where
  | take (l : L)
  | give (l : L)
  deriving DecidableEq

/-- What is left to do. -/
abbrev Program (L : Type*) := List (Op L)

section Ordered

variable {L : Type*} [LinearOrder L]

/-- From the locks held, a program that takes none below them, gives back only what it holds, and
ends up holding nothing. -/
def Ordered : List L → Program L → Prop
  | held, [] => held = []
  | held, .take l :: rest => (∀ h ∈ held, h < l) ∧ Ordered (l :: held) rest
  | held, .give l :: rest => l ∈ held ∧ Ordered (held.erase l) rest

/-- Hold a lock while something is done. -/
def holding (l : L) (inner : Program L) : Program L := .take l :: (inner ++ [.give l])

/-- A section of a program, which may stand wherever these locks are held. -/
def Inside (held : List L) (section' : Program L) : Prop :=
  ∀ rest, Ordered held rest → Ordered held (section' ++ rest)

variable {held : List L} {l : L} {p q : Program L}

theorem inside_nil : Inside held [] := fun _ h => h

theorem Inside.append (hp : Inside held p) (hq : Inside held q) : Inside held (p ++ q) := by
  intro rest h
  rw [List.append_assoc]
  exact hp _ (hq _ h)

theorem inside_holding (hl : ∀ h ∈ held, h < l) (hp : Inside (l :: held) p) :
    Inside held (holding l p) := by
  intro rest h
  refine ⟨hl, ?_⟩
  change Ordered (l :: held) ((p ++ [.give l]) ++ rest)
  rw [List.append_assoc]
  apply hp
  refine ⟨List.mem_cons_self, ?_⟩
  rwa [List.erase_cons_head]

omit [LinearOrder L] in
@[simp] theorem take_mem_holding {l' : L} :
    Op.take l' ∈ holding l p ↔ l' = l ∨ Op.take l' ∈ p := by
  simp [holding]

theorem Inside.ordered (h : Inside ([] : List L) p) : Ordered [] p := by
  have hp := h [] rfl
  rwa [List.append_nil] at hp

end Ordered

/-! ### Scripts -/

section Scripts

variable {L σ : Type*}

/-- What a handler does: it takes locks and gives them back, and changes what they guard. -/
inductive Act (L σ : Type*) where
  | lock (op : Op L)
  | change (f : σ → σ)

/-- What a handler does, one thing after the other. -/
abbrev Script (L σ : Type*) := List (Act L σ)

namespace Script

/-- What is left of a script when only the locks are looked at. -/
def locks (script : Script L σ) : Program L :=
  script.filterMap fun
    | .lock op => some op
    | .change _ => none

/-- What a script makes of a state when nobody else changes it. -/
def exec (script : Script L σ) (s : σ) : σ :=
  script.foldl (fun s act => match act with
    | .lock _ => s
    | .change f => f s) s

/-- Hold a lock while something is done. -/
def under (l : L) (inner : Script L σ) : Script L σ :=
  .lock (.take l) :: (inner ++ [.lock (.give l)])

variable (l : L) (f : σ → σ) (p q : Script L σ) (s : σ)

@[simp] theorem locks_append : locks (p ++ q) = locks p ++ locks q := by
  simp [locks]

@[simp] theorem locks_under : locks (under l p) = holding l (locks p) := by
  simp [locks, under, holding]

@[simp] theorem exec_nil : exec ([] : Script L σ) s = s := rfl

@[simp] theorem exec_change : exec (.change f :: p) s = exec p (f s) := rfl

@[simp] theorem exec_append : exec (p ++ q) s = exec q (exec p s) := by
  simp [exec]

@[simp] theorem exec_under : exec (under l p) s = exec p s := by
  simp [exec, under]

end Script

variable [LinearOrder L]

/-- With these locks held, a script changes nothing but what is locked. `same l` says of two states
that what `l` guards is the same in both. -/
def Covered (same : L → σ → σ → Prop) : List L → Script L σ → Prop
  | _, [] => True
  | held, .lock (.take l) :: rest => Covered same (l :: held) rest
  | held, .lock (.give l) :: rest => Covered same (held.erase l) rest
  | held, .change f :: rest => (∀ l, l ∉ held → ∀ s, same l s (f s)) ∧ Covered same held rest

/-- A part of a script, which may stand wherever these locks are held. -/
structure Sound (same : L → σ → σ → Prop) (held : List L) (part : Script L σ) : Prop where
  inside : Inside held part.locks
  covered : ∀ rest, Covered same held rest → Covered same held (part ++ rest)

namespace Sound

variable {same : L → σ → σ → Prop} {held : List L} {l : L} {p q : Script L σ}

theorem nil : Sound same held [] := ⟨inside_nil, fun _ h => h⟩

theorem append (hp : Sound same held p) (hq : Sound same held q) : Sound same held (p ++ q) where
  inside := by
    rw [Script.locks_append]
    exact hp.inside.append hq.inside
  covered rest h := by
    rw [List.append_assoc]
    exact hp.covered _ (hq.covered _ h)

theorem under (hl : ∀ h ∈ held, h < l) (hp : Sound same (l :: held) p) :
    Sound same held (Script.under l p) where
  inside := by
    rw [Script.locks_under]
    exact inside_holding hl hp.inside
  covered rest h := by
    change Covered same (l :: held) ((p ++ [.lock (.give l)]) ++ rest)
    rw [List.append_assoc]
    apply hp.covered
    change Covered same ((l :: held).erase l) rest
    rwa [List.erase_cons_head]

theorem change {f : σ → σ} (hf : ∀ l, l ∉ held → ∀ s, same l s (f s)) (hp : Sound same held p) :
    Sound same held (.change f :: p) :=
  ⟨hp.inside, fun rest h => ⟨hf, hp.covered rest h⟩⟩

/-- A change to what one lock guards, which is held. -/
theorem change_of_mem {f : σ → σ} (hl : l ∈ held) (hf : ∀ l', l' ≠ l → ∀ s, same l' s (f s))
    (hp : Sound same held p) : Sound same held (.change f :: p) := by
  apply hp.change
  intro l' hl'
  apply hf
  rintro rfl
  exact hl' hl

theorem ite {c : Prop} [Decidable c] (hp : Sound same held p) (hq : Sound same held q) :
    Sound same held (if c then p else q) := by
  split
  · exact hp
  · exact hq

theorem ordered (h : Sound same [] p) : Ordered [] p.locks := h.inside.ordered

theorem coveredAlone (h : Sound same [] p) : Covered same [] p := by
  have hp := h.covered [] trivial
  rwa [List.append_nil] at hp

end Sound

/-- What a script never locks it leaves as it was. -/
theorem Covered.same_exec {same : L → σ → σ → Prop} (hrefl : ∀ l s, same l s s)
    (htrans : ∀ l s t u, same l s t → same l t u → same l s u) {held : List L}
    {script : Script L σ} (h : Covered same held script) {l : L} (hheld : l ∉ held)
    (hnever : Op.take l ∉ script.locks) (s : σ) : same l s (script.exec s) := by
  -- Throughout, `l` is not among the locks held, as nothing takes it.
  induction script generalizing held s with
  | nil => exact hrefl l s
  | cons act rest ih =>
    match act, h with
    | .change f, h => exact htrans l s (f s) _ (h.1 l hheld s) (ih h.2 hheld hnever (f s))
    | .lock (.give l'), h =>
      have hrest : l ∉ held.erase l' := fun hmem => hheld (List.mem_of_mem_erase hmem)
      exact ih h hrest (fun hmem => hnever (List.mem_cons_of_mem _ hmem)) s
    | .lock (.take l'), h =>
      have hne : l ≠ l' := by
        intro heq
        exact hnever (heq ▸ List.mem_cons_self)
      have hrest : l ∉ l' :: held := by
        simp [hne, hheld]
      exact ih h hrest (fun hmem => hnever (List.mem_cons_of_mem _ hmem)) s

end Scripts

/-! ### Threads -/

/-- A thread: what it holds, and what it has still to do. -/
structure Thread (L : Type*) where
  held : List L
  rest : Program L

/-- Threads that share the locks. -/
abbrev Threads (ι L : Type*) := ι → Thread L

variable {ι L : Type*} [DecidableEq ι] [LinearOrder L]

/-- A thread goes on with its program. A lock is taken when nobody holds it. -/
inductive Works (i : ι) (s : Threads ι L) : Threads ι L → Prop where
  | take {l : L} {rest : Program L} (next : (s i).rest = .take l :: rest)
    (free : ∀ j, l ∉ (s j).held) : Works i s (Function.update s i ⟨l :: (s i).held, rest⟩)
  | give {l : L} {rest : Program L} (next : (s i).rest = .give l :: rest) :
    Works i s (Function.update s i ⟨(s i).held.erase l, rest⟩)

/-- Some thread goes on, or one that is done begins another of the programs. -/
inductive Step (programs : Set (Program L)) (s : Threads ι L) : Threads ι L → Prop where
  | works {s' : Threads ι L} (i : ι) (h : Works i s s') : Step programs s s'
  | begins (i : ι) (idle : (s i).rest = []) {p : Program L} (hp : p ∈ programs) :
    Step programs s (Function.update s i ⟨(s i).held, p⟩)

/-- One thread wants a lock that another holds. -/
def WaitsFor (s : Threads ι L) (i j : ι) : Prop :=
  ∃ l rest, (s i).rest = .take l :: rest ∧ l ∈ (s j).held

/-- Nobody at work, and nothing held. -/
def idle : Threads ι L := fun _ => ⟨[], []⟩

/-- What is left of every program is in order, and no lock is held twice. -/
structure Disciplined (s : Threads ι L) : Prop where
  ordered : ∀ i, Ordered (s i).held (s i).rest
  nodup : ∀ i, (s i).held.Nodup
  exclusive : ∀ i j l, l ∈ (s i).held → l ∈ (s j).held → i = j

variable {programs : Set (Program L)} {s s' : Threads ι L} {i : ι}

omit [DecidableEq ι] in
theorem disciplined_idle : Disciplined (idle : Threads ι L) where
  ordered _ := rfl
  nodup _ := List.nodup_nil
  exclusive _ _ _ h := absurd h List.not_mem_nil

/-- One thread that changes, and holds nothing new but what was free. -/
theorem Disciplined.update (h : Disciplined s) {t : Thread L} (hordered : Ordered t.held t.rest)
    (hnodup : t.held.Nodup)
    (hheld : ∀ l ∈ t.held, l ∈ (s i).held ∨ ∀ j, l ∉ (s j).held) :
    Disciplined (Function.update s i t) := by
  have hother : ∀ j, j ≠ i → ∀ l ∈ t.held, l ∉ (s j).held := by
    intro j hj l hl hl'
    rcases hheld l hl with hmine | hfree
    · exact hj (h.exclusive j i l hl' hmine)
    · exact hfree j hl'
  refine ⟨fun j => ?_, fun j => ?_, fun j k l hj hk => ?_⟩
  · by_cases hji : j = i
    · subst hji
      rwa [Function.update_self]
    · rw [Function.update_of_ne hji]
      exact h.ordered j
  · by_cases hji : j = i
    · subst hji
      rwa [Function.update_self]
    · rw [Function.update_of_ne hji]
      exact h.nodup j
  · by_cases hji : j = i <;> by_cases hki : k = i
    · rw [hji, hki]
    · rw [hji, Function.update_self] at hj
      rw [Function.update_of_ne hki] at hk
      exact absurd hk (hother k hki l hj)
    · rw [hki, Function.update_self] at hk
      rw [Function.update_of_ne hji] at hj
      exact absurd hj (hother j hji l hk)
    · rw [Function.update_of_ne hji] at hj
      rw [Function.update_of_ne hki] at hk
      exact h.exclusive j k l hj hk

theorem Disciplined.works (h : Disciplined s) (hstep : Works i s s') : Disciplined s' := by
  have hordered := h.ordered i
  cases hstep with
  | take next free =>
    rw [next] at hordered
    apply h.update hordered.2
    · exact List.nodup_cons.mpr ⟨free i, h.nodup i⟩
    · intro l hl
      rcases List.mem_cons.mp hl with rfl | hl
      · exact Or.inr free
      · exact Or.inl hl
  | give next =>
    rw [next] at hordered
    apply h.update hordered.2
    · exact (h.nodup i).erase _
    · intro l hl
      exact Or.inl (List.mem_of_mem_erase hl)

theorem Disciplined.step (hprograms : ∀ p ∈ programs, Ordered [] p) (h : Disciplined s)
    (hstep : Step programs s s') : Disciplined s' := by
  cases hstep with
  | works i h' => exact h.works h'
  | begins i hidle hp =>
    have hordered := h.ordered i
    -- A thread that is done has given everything back.
    rw [hidle] at hordered
    have hnone : (s i).held = [] := hordered
    apply h.update
    · rw [hnone]
      exact hprograms _ hp
    · exact h.nodup i
    · intro l hl
      exact Or.inl hl

/-- **No lock is ever held twice**, whatever the threads do. -/
theorem disciplined_of_reach (hprograms : ∀ p ∈ programs, Ordered [] p)
    (h : Relation.ReflTransGen (Step programs) idle s) : Disciplined s := by
  induction h with
  | refl => exact disciplined_idle
  | tail _ hstep ih => exact ih.step hprograms hstep

/-! ### Progress -/

/-- How much all threads have still to do. -/
def workLeft [Fintype ι] (s : Threads ι L) : ℕ := ∑ i, (s i).rest.length

theorem workLeft_works [Fintype ι] (h : Works i s s') : workLeft s' < workLeft s := by
  have hless : ∀ t : Thread L, t.rest.length < (s i).rest.length →
      workLeft (Function.update s i t) < workLeft s := by
    intro t ht
    apply Finset.sum_lt_sum
    · intro j _
      by_cases hji : j = i
      · subst hji
        rw [Function.update_self]
        exact ht.le
      · rw [Function.update_of_ne hji]
    · exact ⟨i, Finset.mem_univ i, by rwa [Function.update_self]⟩
  cases h with
  | take next free =>
    apply hless
    rw [next]
    exact Nat.lt_succ_self _
  | give next =>
    apply hless
    rw [next]
    exact Nat.lt_succ_self _

section Progress

variable [WellFoundedGT L]

/-- A thread that wants a lock can go on, or one that it waits for can. Whoever holds the lock may
want another one, which is above it. -/
theorem exists_works_of_take (h : Disciplined s) (l : L) {rest : Program L}
    (hnext : (s i).rest = .take l :: rest) :
    ∃ j, Relation.ReflTransGen (WaitsFor s) i j ∧ ∃ s', Works j s s' := by
  induction l using WellFoundedGT.induction generalizing i rest with
  | ind l ih =>
    by_cases hfree : ∀ j, l ∉ (s j).held
    · exact ⟨i, .refl, _, .take hnext hfree⟩
    · obtain ⟨j, hj⟩ := not_forall_not.mp hfree
      have hwaits : WaitsFor s i j := ⟨l, rest, hnext, hj⟩
      have hordered := h.ordered j
      cases hrest : (s j).rest with
      | nil =>
        rw [hrest] at hordered
        have hnone : (s j).held = [] := hordered
        rw [hnone] at hj
        exact absurd hj List.not_mem_nil
      | cons op rest' =>
        cases op with
        | give l' => exact ⟨j, .single hwaits, _, .give hrest⟩
        | take l' =>
          rw [hrest] at hordered
          obtain ⟨k, hchain, hworks⟩ := ih l' (hordered.1 l hj) hrest
          exact ⟨k, hchain.head hwaits, hworks⟩

/-- **Nobody waits forever for one who waits.** Whomever a thread that is at work waits for, and
whomever these wait for, there is one among them that can go on. -/
theorem exists_works (h : Disciplined s) (hbusy : (s i).rest ≠ []) :
    ∃ j, Relation.ReflTransGen (WaitsFor s) i j ∧ ∃ s', Works j s s' := by
  obtain ⟨op, rest, hrest⟩ := List.exists_cons_of_ne_nil hbusy
  cases op with
  | take l => exact exists_works_of_take h l hrest
  | give l => exact ⟨i, .refl, _, .give hrest⟩

/-- **All threads can finish what they are doing.** -/
theorem exists_idle [Finite ι] (h : Disciplined s) :
    ∃ s', Relation.ReflTransGen (fun a b => ∃ i, Works i a b) s s' ∧ ∀ i, (s' i).rest = [] := by
  cases nonempty_fintype ι
  induction hn : workLeft s using Nat.strong_induction_on generalizing s with
  | _ n ih =>
    by_cases hidle : ∀ i, (s i).rest = []
    · exact ⟨s, .refl, hidle⟩
    · obtain ⟨i, hi⟩ := not_forall.mp hidle
      obtain ⟨j, -, s', hworks⟩ := exists_works h hi
      obtain ⟨s'', hruns, hdone⟩ := ih _ (hn ▸ workLeft_works hworks) (h.works hworks) rfl
      exact ⟨s'', hruns.head ⟨j, hworks⟩, hdone⟩

end Progress

end RfxVoiced.Locks
