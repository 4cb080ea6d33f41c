import Mathlib.Data.List.Basic
import RfxVoiced.Lib.Run

/-!
# Runs of a machine with outputs

A machine takes a state and an input to an output and the next state. This file relates the outputs
of a run to those of a smaller machine that sees a part of the state only, and to the state that the
run ends in.

## Main definitions

* `outputs` — what a run returns, call by call

## Main results

* `outputs_of_view` — what a part of the outputs shows is what a machine on a part of the state
  returns
* `run_of_mem_outputs` — what an output tells of the state, and is not taken back, holds in the end
-/

namespace RfxVoiced

variable {σ τ ι κ ω υ χ : Type*} {step : σ → ι → ω × σ} {step' : τ → κ → υ × τ}

/-- What a run returns, call by call. -/
def outputs (step : σ → ι → ω × σ) : σ → List ι → List ω
  | _, [] => []
  | s, i :: is => (step s i).1 :: outputs step (step s i).2 is

/-- Where each call shows what the smaller machine returns, and moves the part of the state that the
smaller machine sees as it does, so does a run. -/
theorem outputs_of_view {ok : ι → Prop} {calls : ι → κ} {v : σ → τ} {see : ω → χ} {emit : υ → χ}
    (hout : ∀ s i, ok i → see (step s i).1 = emit (step' (v s) (calls i)).1)
    (hstate : ∀ s i, ok i → v (step s i).2 = (step' (v s) (calls i)).2) (s : σ) {is : List ι}
    (his : ∀ i ∈ is, ok i) :
    (outputs step s is).map see = (outputs step' (v s) (is.map calls)).map emit := by
  induction is generalizing s with
  | nil => rfl
  | cons i is ih =>
    have hi := his i List.mem_cons_self
    rw [outputs, List.map_cons, hout s i hi, ih _ fun j hj => his j (List.mem_cons_of_mem _ hj),
      hstate s i hi]
    rfl

/-- Each output is that of some call. -/
theorem exists_of_mem_outputs {s : σ} {is : List ι} {o : ω} (ho : o ∈ outputs step s is) :
    ∃ s', ∃ i ∈ is, (step s' i).1 = o := by
  induction is generalizing s with
  | nil => exact absurd ho List.not_mem_nil
  | cons i is ih =>
    rcases List.mem_cons.mp ho with rfl | ho
    · exact ⟨s, i, List.mem_cons_self, rfl⟩
    · obtain ⟨s', j, hj, hout⟩ := ih ho
      exact ⟨s', j, List.mem_cons_of_mem i hj, hout⟩

/-- What an output tells of the state that its call left, and no later call takes back, holds in the
end. -/
theorem run_of_mem_outputs {Q : σ → Prop} {o : ω}
    (hout : ∀ s i, (step s i).1 = o → Q (step s i).2) (hkeep : ∀ s i, Q s → Q (step s i).2)
    {s : σ} {is : List ι} (ho : o ∈ outputs step s is) :
    Q (run (fun s i => (step s i).2) s is) := by
  induction is generalizing s with
  | nil => exact absurd ho List.not_mem_nil
  | cons i is ih =>
    rcases List.mem_cons.mp ho with rfl | ho
    · exact run_invariant hkeep (hout s i rfl) is
    · exact ih ho

end RfxVoiced
