import Mathlib.Data.Set.Lattice
import Mathlib.Order.CompletePartialOrder
import RfxVoiced.Lib.Run

/-!
# Footprints

A state is read place by place. An update is confined to a set of places when it changes no place
outside the set, and what it puts there depends on nothing outside. Updates that are confined to
disjoint sets commute, and neither changes what a question about the other's places is answered.

Both notions are relative to a background invariant, which every update keeps.

## Main definitions

* `AgreeOn` — two states look the same at every place of a set
* `LooksAt` — the answer to a question depends on a set of places only
* `Confined` — an update reads and writes a set of places only

## Main results

* `Confined.comp`, `Confined.choose`, `Confined.run` — confined updates compose
* `Confined.comm` — updates with disjoint footprints commute
* `LooksAt.of_elsewhere` — an update elsewhere does not change the answer
-/

namespace RfxVoiced

variable {σ ι α β γ κ : Type*} {V : ι → Type*} (read : (i : ι) → σ → V i)

/-- The two states look the same at every place of the set. -/
def AgreeOn (S : Set ι) (s s' : σ) : Prop := ∀ i ∈ S, read i s = read i s'

/-- The answer depends on the places of the set only. -/
def LooksAt (B : σ → Prop) (S : Set ι) (q : σ → α) : Prop :=
  ∀ s s', B s → B s' → AgreeOn read S s s' → q s = q s'

/-- The update changes the places of the set only, and by nothing but what it reads there. -/
structure Confined (B : σ → Prop) (S : Set ι) (f : σ → σ) : Prop where
  keeps : ∀ s, B s → B (f s)
  frame : ∀ s, B s → ∀ i, i ∉ S → read i (f s) = read i s
  effect : ∀ s s', B s → B s' → AgreeOn read S s s' → AgreeOn read S (f s) (f s')

variable {read} {B : σ → Prop} {S T : Set ι} {f g : σ → σ}

/-! ### Composition -/

theorem LooksAt.const (a : α) : LooksAt read B S fun _ => a := fun _ _ _ _ _ => rfl

theorem LooksAt.map {q : σ → α} (hq : LooksAt read B S q) (h : α → β) :
    LooksAt read B S fun s => h (q s) :=
  fun s s' hs hs' hagree => congrArg h (hq s s' hs hs' hagree)

theorem LooksAt.congr {q q' : σ → α} (h : ∀ s, B s → q' s = q s) (hq : LooksAt read B S q) :
    LooksAt read B S q' := by
  intro s s' hs hs' hagree
  rw [h s hs, h s' hs', hq s s' hs hs' hagree]

theorem LooksAt.after {q : σ → α} (hq : LooksAt read B S q) (hf : Confined read B S f) :
    LooksAt read B S fun s => q (f s) :=
  fun s s' hs hs' hagree =>
    hq (f s) (f s') (hf.keeps s hs) (hf.keeps s' hs') (hf.effect s s' hs hs' hagree)

theorem Confined.id : Confined read B S fun s => s where
  keeps _ hs := hs
  frame _ _ _ _ := rfl
  effect _ _ _ _ hagree := hagree

theorem Confined.congr (h : ∀ s, B s → g s = f s) (hf : Confined read B S f) :
    Confined read B S g where
  keeps s hs := by
    rw [h s hs]
    exact hf.keeps s hs
  frame s hs := by
    rw [h s hs]
    exact hf.frame s hs
  effect s s' hs hs' := by
    rw [h s hs, h s' hs']
    exact hf.effect s s' hs hs'

theorem Confined.comp (hg : Confined read B S g) (hf : Confined read B S f) :
    Confined read B S fun s => g (f s) where
  keeps s hs := hg.keeps (f s) (hf.keeps s hs)
  frame s hs i hi := (hg.frame (f s) (hf.keeps s hs) i hi).trans (hf.frame s hs i hi)
  effect s s' hs hs' hagree :=
    hg.effect (f s) (f s') (hf.keeps s hs) (hf.keeps s' hs') (hf.effect s s' hs hs' hagree)

/-- What to do next may depend on an answer, as long as the answer depends on the same places. -/
theorem Confined.choose {q : σ → α} {k : α → σ → σ} (hq : LooksAt read B S q)
    (hk : ∀ s, B s → Confined read B S (k (q s))) : Confined read B S fun s => k (q s) s where
  keeps s hs := (hk s hs).keeps s hs
  frame s hs := (hk s hs).frame s hs
  effect s s' hs hs' hagree := by
    rw [← hq s s' hs hs' hagree]
    exact (hk s hs).effect s s' hs hs' hagree

theorem Confined.run {step : σ → κ → σ} {ks : List κ}
    (h : ∀ k ∈ ks, Confined read B S fun s => step s k) :
    Confined read B S fun s => run step s ks := by
  induction ks with
  | nil => exact Confined.id
  | cons k ks ih =>
    exact (ih fun k' hk' => h k' (List.mem_cons_of_mem k hk')).comp (h k List.mem_cons_self)

/-! ### Runs that collect answers -/

/-- Beside the answers it collects, such a run is the run of its updates. -/
theorem run_snd (step : σ → κ → σ) (q : σ → κ → α) (collect : β → α → β) (ks : List κ) (b : β)
    (s : σ) :
    (run (fun acc k => (collect acc.1 (q acc.2 k), step acc.2 k)) (b, s) ks).2 =
      run step s ks := by
  induction ks generalizing b s with
  | nil => rfl
  | cons k ks ih => exact ih (collect b (q s k)) (step s k)

/-- What it collects depends on the same places. -/
theorem LooksAt.run_fst {step : σ → κ → σ} {q : σ → κ → α} (collect : β → α → β) {ks : List κ}
    (hq : ∀ k ∈ ks, LooksAt read B S fun s => q s k)
    (hstep : ∀ k ∈ ks, Confined read B S fun s => step s k) (b : β) :
    LooksAt read B S fun s =>
      (RfxVoiced.run (fun acc k => (collect acc.1 (q acc.2 k), step acc.2 k)) (b, s) ks).1 := by
  induction ks generalizing b with
  | nil => exact LooksAt.const b
  | cons k ks ih =>
    intro s s' hs hs' hagree
    have hk := hstep k List.mem_cons_self
    -- The first answer is the same, and the states that follow agree.
    simp only [run_cons, hq k List.mem_cons_self s s' hs hs' hagree]
    exact ih (fun k' hk' => hq k' (List.mem_cons_of_mem k hk'))
      (fun k' hk' => hstep k' (List.mem_cons_of_mem k hk')) _ _ _ (hk.keeps s hs)
      (hk.keeps s' hs') (hk.effect s s' hs hs' hagree)

/-! ### Disjoint footprints -/

theorem Confined.agreeOn (hf : Confined read B S f) (hdisjoint : Disjoint S T) {s : σ}
    (hs : B s) : AgreeOn read T (f s) s :=
  fun i hi => hf.frame s hs i (Set.disjoint_right.mp hdisjoint hi)

/-- An update elsewhere does not change the answer. -/
theorem LooksAt.of_elsewhere {q : σ → α} (hq : LooksAt read B T q) (hf : Confined read B S f)
    (hdisjoint : Disjoint S T) {s : σ} (hs : B s) : q (f s) = q s :=
  hq (f s) s (hf.keeps s hs) hs (hf.agreeOn hdisjoint hs)

/-- Updates with disjoint footprints commute. -/
theorem Confined.comm (hf : Confined read B S f) (hg : Confined read B T g)
    (hdisjoint : Disjoint S T) {s : σ} (hs : B s) (i : ι) :
    read i (g (f s)) = read i (f (g s)) := by
  by_cases hi : i ∈ S
  · -- A place of `f`: the other update leaves it, before and after.
    have hi' : i ∉ T := Set.disjoint_left.mp hdisjoint hi
    rw [hg.frame (f s) (hf.keeps s hs) i hi']
    exact (hf.effect (g s) s (hg.keeps s hs) hs (hg.agreeOn hdisjoint.symm hs) i hi).symm
  · -- A place that `f` leaves alone: what `g` does there, it does whether or not `f` came first.
    rw [hf.frame (g s) (hg.keeps s hs) i hi]
    by_cases hi' : i ∈ T
    · exact hg.effect (f s) s (hf.keeps s hs) hs (hf.agreeOn hdisjoint hs) i hi'
    · rw [hg.frame (f s) (hf.keeps s hs) i hi', hg.frame s hs i hi', hf.frame s hs i hi]

end RfxVoiced
