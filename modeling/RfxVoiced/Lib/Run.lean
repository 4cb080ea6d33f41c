import Mathlib.Data.List.Induction
import Mathlib.Data.List.Nodup
import Mathlib.Order.Basic

/-!
# Runs of a deterministic machine

A machine is a function that takes a state and an event to the next state. This file collects the
rules by which a property of single steps becomes a property of runs.

## Main definitions

* `run` — the state a list of events leads to
* `Along` — a condition on a state and the event handled there, at every step of a run
* `lastSeen` — the most recent observation made during a run
* `callsAlong` — what a run of one machine is to another

## Main results

* `run_induction` — an invariant kept by every step that meets a condition
* `forall_prefix_iff_along` — when a step keeps the invariant exactly under the condition, a run
  keeps it throughout exactly when every step meets the condition
* `forall_prefix_iff_along_history` — the same for a property of the events so far
* `run_of_view` — a machine whose steps are runs of another, seen through a view
* `read_run_iff` — a register reads what was written last and not cleared since
* `view_run`, `view_run_of_idempotent` — a run of events that act on separate parts of the state
  acts on each part once
-/

namespace RfxVoiced

variable {σ ε β : Type*} (step : σ → ε → σ)

/-- The state that a list of events leads to. -/
def run (s : σ) (es : List ε) : σ := es.foldl step s

/-- Every step of the run meets the condition, in the state where its event is handled. -/
def Along (ok : σ → ε → Prop) : σ → List ε → Prop
  | _, [] => True
  | s, e :: es => ok s e ∧ Along ok (step s e) es

/-- The most recent observation made during the run. -/
def lastSeen (observe : σ → ε → Option β) : σ → List ε → Option β
  | _, [] => none
  | s, e :: es => (lastSeen observe (step s e) es).or (observe s e)

/-! ### Runs, one event at a time -/

@[simp] theorem run_nil (s : σ) : run step s [] = s := rfl

@[simp] theorem run_cons (s : σ) (e : ε) (es : List ε) :
    run step s (e :: es) = run step (step s e) es := rfl

theorem run_append (s : σ) (es fs : List ε) :
    run step s (es ++ fs) = run step (run step s es) fs := List.foldl_append

@[simp] theorem run_concat (s : σ) (es : List ε) (e : ε) :
    run step s (es ++ [e]) = step (run step s es) e := run_append step s es [e]

section Along

variable {step} {ok : σ → ε → Prop}

theorem along_append {s : σ} {es fs : List ε} :
    Along step ok s (es ++ fs) ↔ Along step ok s es ∧ Along step ok (run step s es) fs := by
  induction es generalizing s with
  | nil => simp [Along]
  | cons e es ih => simp only [List.cons_append, Along, ih, run_cons, and_assoc]

@[simp] theorem along_concat {s : σ} {es : List ε} {e : ε} :
    Along step ok s (es ++ [e]) ↔ Along step ok s es ∧ ok (run step s es) e := by
  rw [along_append]
  simp [Along]

/-- What every step meets is met along any run. -/
theorem along_of_forall (h : ∀ s e, ok s e) (s : σ) (es : List ε) : Along step ok s es := by
  induction es generalizing s with
  | nil => trivial
  | cons e es ih => exact ⟨h s e, ih (step s e)⟩

instance decidableAlong [∀ s e, Decidable (ok s e)] (s : σ) (es : List ε) :
    Decidable (Along step ok s es) :=
  match es with
  | [] => inferInstanceAs (Decidable True)
  | e :: es =>
    have := decidableAlong (step s e) es
    inferInstanceAs (Decidable (ok s e ∧ Along step ok (step s e) es))

end Along

section Invariants

variable {step} {ok : σ → ε → Prop} {P : σ → Prop}

/-- An invariant kept by every step that meets a condition holds wherever a run leads whose steps
all meet it. -/
theorem run_induction (hstep : ∀ s e, ok s e → P s → P (step s e)) {s : σ} (hs : P s)
    {es : List ε} (hes : Along step ok s es) : P (run step s es) := by
  induction es generalizing s with
  | nil => exact hs
  | cons e es ih => exact ih (hstep s e hes.1 hs) hes.2

/-- An invariant kept by every step holds wherever a run leads. -/
theorem run_invariant (hstep : ∀ s e, P s → P (step s e)) {s : σ} (hs : P s)
    (es : List ε) : P (run step s es) := by
  induction es generalizing s with
  | nil => exact hs
  | cons e es ih => exact ih (hstep s e hs)

/-- An invariant kept by every event of a run holds where the run leads. -/
theorem run_invariant_mem {es : List ε} (hstep : ∀ s, ∀ e ∈ es, P s → P (step s e)) {s : σ}
    (hs : P s) : P (run step s es) := by
  induction es generalizing s with
  | nil => exact hs
  | cons e es ih =>
    exact ih (fun s' e' he' => hstep s' e' (List.mem_cons_of_mem e he'))
      (hstep s e List.mem_cons_self hs)

/-- Two conditions that agree wherever an invariant holds are met along the same runs. -/
theorem along_congr {ok' : σ → ε → Prop} (hstep : ∀ s e, P s → P (step s e))
    (hok : ∀ s e, P s → (ok s e ↔ ok' s e)) {s : σ} (hs : P s) (es : List ε) :
    Along step ok s es ↔ Along step ok' s es := by
  induction es generalizing s with
  | nil => exact Iff.rfl
  | cons e es ih => exact and_congr (hok s e hs) (ih (hstep s e hs))

/-- When a step keeps the invariant exactly under the condition, a run keeps it throughout exactly
when every step of it meets the condition. The background invariant holds unconditionally. -/
theorem forall_prefix_iff_along {B : σ → Prop}
    (hbackground : ∀ s e, B s → B (step s e))
    (hstep : ∀ s e, B s → P s → (P (step s e) ↔ ok s e))
    {s : σ} (hb : B s) (hs : P s) (es : List ε) :
    (∀ pre, pre <+: es → P (run step s pre)) ↔ Along step ok s es := by
  induction es using List.reverseRecOn with
  | nil =>
    refine ⟨fun _ => trivial, fun _ pre hpre => ?_⟩
    rw [List.prefix_nil.mp hpre]
    exact hs
  | append_singleton es e ih =>
    -- The prefixes of the longer run are those of the shorter one, and the longer run itself.
    have hbes := run_invariant hbackground hb es
    constructor
    · intro h
      have hes : P (run step s es) := h es (List.prefix_append es [e])
      have hlast := h (es ++ [e]) List.prefix_rfl
      rw [run_concat, hstep _ _ hbes hes] at hlast
      exact along_concat.mpr
        ⟨ih.mp fun pre hpre => h pre (hpre.trans (List.prefix_append es [e])), hlast⟩
    · intro h pre hpre
      obtain ⟨hinit, hlast⟩ := along_concat.mp h
      have hes := ih.mpr hinit
      rcases List.prefix_concat_iff.mp hpre with rfl | hpre
      · rw [run_concat, hstep _ _ hbes (hes es List.prefix_rfl)]
        exact hlast
      · exact hes pre hpre

end Invariants

section History

/-- The machine that only remembers what has happened to it. -/
def remember (h : List ε) (e : ε) : List ε := h ++ [e]

theorem run_remember (h es : List ε) : run remember h es = h ++ es := by
  induction es generalizing h with
  | nil => simp
  | cons e es ih => rw [run_cons, ih, remember, List.append_assoc, List.singleton_append]

theorem along_remember {ok : σ → ε → Prop} {s : σ} (h es : List ε) :
    Along remember (fun h e => ok (run step s h) e) h es ↔ Along step ok (run step s h) es := by
  induction es generalizing h with
  | nil => exact Iff.rfl
  | cons e es ih => simp only [Along, ih, remember, run_concat]

/-- The same for a property of what has happened: when one more event keeps it exactly under a
condition on the state, it holds throughout a run exactly when every step meets the condition. -/
theorem forall_prefix_iff_along_history {ok : σ → ε → Prop} {P B : List ε → Prop} {s : σ}
    (hbackground : ∀ h e, B h → B (h ++ [e]))
    (hstep : ∀ h e, B h → P h → (P (h ++ [e]) ↔ ok (run step s h) e))
    (hb : B []) (hp : P []) (es : List ε) :
    (∀ pre, pre <+: es → P pre) ↔ Along step ok s es := by
  have hiff : (∀ pre, pre <+: es → P (run remember [] pre)) ↔
      Along remember (fun h e => ok (run step s h) e) [] es :=
    forall_prefix_iff_along hbackground hstep hb hp es
  rw [along_remember, run_nil] at hiff
  simpa only [run_remember, List.nil_append] using hiff

end History

section Refinement

variable {step} {τ κ : Type*} {step' : τ → κ → τ} {v : σ → τ} {calls : σ → ε → List κ}

/-- What the events of a run are to another machine, each in the state where it is handled, one
after the other. -/
def callsAlong (step : σ → ε → σ) (calls : σ → ε → List κ) : σ → List ε → List κ
  | _, [] => []
  | s, e :: es => calls s e ++ callsAlong step calls (step s e) es

/-- When each step of a machine is, seen through a view, a list of steps of another, a whole run is
all of these, one after the other. -/
theorem run_of_view (h : ∀ s e, v (step s e) = run step' (v s) (calls s e)) (s : σ)
    (es : List ε) : v (run step s es) = run step' (v s) (callsAlong step calls s es) := by
  induction es generalizing s with
  | nil => rfl
  | cons e es ih => rw [run_cons, ih, h, callsAlong, run_append]

/-- The same where each event is at most one step of the other machine, whatever the state. -/
theorem run_filterMap_of_view {call : ε → Option κ}
    (h : ∀ s e, v (step s e) = run step' (v s) (call e).toList) (s : σ) (es : List ε) :
    v (run step s es) = run step' (v s) (es.filterMap call) := by
  induction es generalizing s with
  | nil => rfl
  | cons e es ih =>
    rw [run_cons, ih, h, List.filterMap_cons]
    cases call e <;> rfl

end Refinement

section LastSeen

variable (observe : σ → ε → Option β)

/-- The last step of a run is the first place to look. -/
@[simp] theorem lastSeen_concat (s : σ) (es : List ε) (e : ε) :
    lastSeen step observe s (es ++ [e]) =
      (observe (run step s es) e).or (lastSeen step observe s es) := by
  induction es generalizing s with
  | nil => simp [lastSeen]
  | cons e' es ih => simp only [List.cons_append, lastSeen, run_cons, ih, Option.or_assoc]

end LastSeen

section Register

variable {step} {v : σ → Option β} {written : σ → ε → Option β} {cleared : ε → β → Prop}

/-- A register of the state reads what was written last, unless that was cleared since: where it was
empty at first, it reads a value exactly when some step wrote the value, and from then on nothing
else was written and the value was not cleared. -/
theorem read_run_iff
    (hstep : ∀ s e x, v (step s e) = some x ↔
      written s e = some x ∨ (written s e = none ∧ v s = some x ∧ ¬ cleared e x))
    {s : σ} (hs : v s = none) (es : List ε) (x : β) :
    v (run step s es) = some x ↔
      ∃ before e later, es = before ++ e :: later ∧ written (run step s before) e = some x ∧
        Along step (fun s' e' => written s' e' = none ∧ ¬ cleared e' x)
          (step (run step s before) e) later := by
  induction es using List.reverseRecOn with
  | nil =>
    rw [run_nil, hs]
    simp
  | append_singleton es last ih =>
    rw [run_concat, hstep, ih]
    constructor
    · rintro (hlast | ⟨hnone, ⟨before, e, later, rfl, hwritten, hlater⟩, hkept⟩)
      · exact ⟨es, last, [], rfl, hlast, trivial⟩
      · refine ⟨before, e, later ++ [last], by simp, hwritten, along_concat.mpr ⟨hlater, ?_⟩⟩
        rw [run_append, run_cons] at hnone
        exact ⟨hnone, hkept⟩
    · rintro ⟨before, e, later, heq, hwritten, hlater⟩
      -- Either the last step wrote the value, or it was there before and stayed.
      rcases List.eq_nil_or_concat later with rfl | ⟨later, last', rfl⟩
      · obtain ⟨rfl, hsame⟩ := List.append_inj' heq rfl
        obtain rfl := List.singleton_inj.mp hsame
        exact Or.inl hwritten
      · rw [List.concat_eq_append, ← List.cons_append, ← List.append_assoc] at heq
        obtain ⟨rfl, hsame⟩ := List.append_inj' heq rfl
        obtain rfl := List.singleton_inj.mp hsame
        rw [List.concat_eq_append] at hlater
        obtain ⟨hinit, hnone, hkept⟩ := along_concat.mp hlater
        refine Or.inr ⟨?_, ⟨before, e, later, rfl, hwritten, hinit⟩, hkept⟩
        rw [run_append, run_cons]
        exact hnone

end Register

section Separate

variable {κ : Type*} [DecidableEq κ] {step : σ → κ → σ} {v : κ → σ → β} {f : κ → β → β}

/-- When each event acts on its own part of the state and leaves the other parts alone, a run
without repeated events acts once on each part that it names. -/
theorem view_run (hself : ∀ s k, v k (step s k) = f k (v k s))
    (hother : ∀ s k k', k' ≠ k → v k' (step s k) = v k' s)
    {ks : List κ} (hks : ks.Nodup) (s : σ) (k : κ) :
    v k (run step s ks) = if k ∈ ks then f k (v k s) else v k s := by
  induction ks generalizing s with
  | nil => simp
  | cons k' ks ih =>
    obtain ⟨hfresh, hrest⟩ := List.nodup_cons.mp hks
    rw [run_cons, ih hrest]
    by_cases hk : k = k'
    · -- The first event is the only one that names this part.
      subst hk
      rw [if_neg hfresh, if_pos List.mem_cons_self, hself]
    · simp only [List.mem_cons, hk, false_or, hother s k' k hk]

/-- When acting twice on one part is acting once, a run may also repeat its events. -/
theorem view_run_of_idempotent (hself : ∀ s k, v k (step s k) = f k (v k s))
    (hother : ∀ s k k', k' ≠ k → v k' (step s k) = v k' s)
    (hidem : ∀ k x, f k (f k x) = f k x) (ks : List κ) (s : σ) (k : κ) :
    v k (run step s ks) = if k ∈ ks then f k (v k s) else v k s := by
  induction ks generalizing s with
  | nil => simp
  | cons k' ks ih =>
    rw [run_cons, ih]
    by_cases hk : k = k'
    · subst hk
      rw [hself, hidem, ite_self, if_pos List.mem_cons_self]
    · simp only [List.mem_cons, hk, false_or, hother s k' k hk]

end Separate

end RfxVoiced
