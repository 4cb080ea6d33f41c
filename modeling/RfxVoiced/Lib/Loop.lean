import RfxVoiced.Lib.Run

/-!
# Loops

A loop goes round until it finds that it is done, and nothing bounds beforehand how often that is.
Here it is given fuel, which runs out in the end; what it computes is what it gives with enough
fuel. It also counts how often it went round.

## Main definitions

* `loop` — going round until done, with a count
* `Yields` — what a computation gives with enough fuel

## Main results

* `yields_loop` — a loop whose course is known ends where the course does
* `Yields.map`, `Yields.foldlM` — and so does what is made of such computations
-/

namespace RfxVoiced

variable {σ τ ε : Type*}

/-- Go round until a pass is done, and say how often that was. Nothing is given when the fuel runs
out before. -/
def loop (pass : σ → Option σ) : ℕ → σ → Option (ℕ × σ)
  | 0, _ => none
  | fuel + 1, s =>
    match pass s with
    | none => some (0, s)
    | some s' => (loop pass fuel s').map fun x => (x.1 + 1, x.2)

/-- With enough fuel the computation gives this. -/
def Yields (f : ℕ → Option σ) (x : σ) : Prop := ∃ enough, ∀ fuel, enough ≤ fuel → f fuel = some x

section Loop

variable {pass : σ → Option σ} {s s' : σ} {fuel : ℕ}

theorem loop_of_done (h : pass s = none) : loop pass (fuel + 1) s = some (0, s) := by
  simp only [loop, h]

theorem loop_of_go (h : pass s = some s') :
    loop pass (fuel + 1) s = (loop pass fuel s').map fun x => (x.1 + 1, x.2) := by
  simp only [loop, h]

/-- A loop whose course is known ends where the course does, after as many rounds. -/
theorem yields_loop (course : ℕ → σ) {n : ℕ}
    (hgo : ∀ i, i < n → pass (course i) = some (course (i + 1))) (hdone : pass (course n) = none) :
    Yields (fun fuel => loop pass fuel (course 0)) (n, course n) := by
  refine ⟨n + 1, fun fuel hfuel => ?_⟩
  obtain ⟨fuel, rfl⟩ := Nat.exists_eq_add_of_le' hfuel
  induction n generalizing course with
  | zero => exact loop_of_done hdone
  | succ n ih =>
    have hrest : loop pass (fuel + (n + 1)) (course 1) = some (n, course (n + 1)) :=
      ih (fun i => course (i + 1)) (fun i hi => hgo (i + 1) (by omega)) hdone (by omega)
    have hfirst : loop pass (fuel + (n + 1) + 1) (course 0) = some (n + 1, course (n + 1)) := by
      rw [loop_of_go (hgo 0 (by omega)), hrest, Option.map_some]
    exact hfirst

end Loop

theorem Yields.map {f : ℕ → Option σ} {x : σ} (h : Yields f x) (g : σ → τ) :
    Yields (fun fuel => (f fuel).map g) (g x) := by
  obtain ⟨enough, hf⟩ := h
  refine ⟨enough, fun fuel hfuel => ?_⟩
  change (f fuel).map g = some (g x)
  rw [hf fuel hfuel, Option.map_some]

/-- A run over a list, each step of which ends. -/
theorem Yields.foldlM {f : ℕ → σ → ε → Option σ} {step : σ → ε → σ} {ok : σ → ε → Prop}
    (h : ∀ s e, ok s e → Yields (fun fuel => f fuel s e) (step s e)) {s : σ} {es : List ε}
    (hok : Along step ok s es) : Yields (fun fuel => es.foldlM (f fuel) s) (run step s es) := by
  induction es generalizing s with
  | nil => exact ⟨0, fun _ _ => rfl⟩
  | cons e es ih =>
    obtain ⟨m, hm⟩ := h s e hok.1
    obtain ⟨n, hn⟩ := ih hok.2
    -- Enough for the first step and for the others.
    refine ⟨max m n, fun fuel hfuel => ?_⟩
    have hfirst : f fuel s e = some (step s e) := hm fuel (Nat.le_trans (Nat.le_max_left m n) hfuel)
    have hrest : es.foldlM (f fuel) (step s e) = some (run step (step s e) es) :=
      hn fuel (Nat.le_trans (Nat.le_max_right m n) hfuel)
    change (e :: es).foldlM (f fuel) s = some (run step (step s e) es)
    rw [List.foldlM_cons, hfirst]
    exact hrest

end RfxVoiced
