import RfxVoiced.Dsp.Solo
import RfxVoiced.Lib.Loop

/-!
# Where the samples go

Samples come in at 48 kHz, in runs of any length. One in six is kept, and the kept ones are used up
in whole frames: by a loop that renders them, or by one that drops them while there is nobody to
serve. What is left over, of six and of a frame, waits for the next call. Here `push_wide` is
written with its two loops as they stand, and all that comes in is accounted for.

## Main definitions

* `Talker.pushWideWithin` — `push_wide` with its loops, given fuel, and how many frames it uses up
* `Talker.Accounted` — what is waiting, after so many samples in and so many frames used up

## Main results

* `yields_pushWide` — the loops end
* `Accounted.pushWide` — what a call makes of what was waiting
* `samples_accounted` — no sample is lost or used twice, however the input is split
-/

namespace RfxVoiced.Dsp

variable {S : Signal}

/-! ### Decimation -/

namespace Decimator

/-- One sample goes out for every six that have come in, and the rest are remembered. -/
theorem feed_spec (input : List Int16) {d : Decimator S} (h : d.phase < 6) :
    (d.feed input).1.length = (d.phase + input.length) / 6 ∧
      (d.feed input).2.phase = (d.phase + input.length) % 6 := by
  induction input generalizing d with
  | nil =>
    simp only [feed, List.length_nil]
    omega
  | cons s input ih =>
    rw [feed, List.length_append, List.length_cons]
    by_cases hsixth : d.phase + 1 = 6
    · have hsample : d.sample s = ([S.fir (S.shift d.history s)], ⟨S.shift d.history s, 0⟩) :=
        if_pos hsixth
      have hrest := ih (d := ⟨S.shift d.history s, 0⟩) (Nat.zero_lt_succ 5)
      rw [hsample, hrest.1, hrest.2, List.length_singleton]
      dsimp only
      omega
    · have hsample : d.sample s = ([], ⟨S.shift d.history s, d.phase + 1⟩) := if_neg hsixth
      have hrest := ih (d := ⟨S.shift d.history s, d.phase + 1⟩) (by dsimp only; omega)
      rw [hsample, hrest.1, hrest.2, List.length_nil]
      dsimp only
      omega

end Decimator

/-! ### Frames -/

theorem takeFrames_snd (spf n : ℕ) (pending : List Int16) :
    (takeFrames spf n pending).2 = pending.drop (n * spf) := by
  induction n generalizing pending with
  | zero => rw [takeFrames, Nat.zero_mul, List.drop_zero]
  | succ n ih => rw [takeFrames, ih, List.drop_drop, Nat.succ_mul, Nat.add_comm]

/-- One frame more is the next one behind those that were taken. -/
theorem takeFrames_concat (spf n : ℕ) (pending : List Int16) :
    (takeFrames spf (n + 1) pending).1 =
      (takeFrames spf n pending).1 ++ [(pending.drop (n * spf)).take spf] := by
  induction n generalizing pending with
  | zero => rw [takeFrames, takeFrames, takeFrames, Nat.zero_mul, List.drop_zero, List.nil_append]
  | succ n ih =>
    rw [takeFrames, ih, takeFrames, List.drop_drop, Nat.succ_mul, Nat.add_comm spf]
    rfl

theorem length_fst_takeFrames (spf n : ℕ) (pending : List Int16) :
    (takeFrames spf n pending).1.length = n := by
  induction n generalizing pending with
  | zero => rfl
  | succ n ih => rw [takeFrames, List.length_cons, ih]

namespace Talker

variable {t : Talker S} {wide : List Int16} {sinks : List Sink}

/-! ### The loops -/

/-- One round with nobody to serve: a frame is dropped, while there is one. -/
def discardRound (t : Talker S) : Option (Talker S) :=
  if S.samplesPerFrame ≤ t.pending.length then
    some { t with pending := t.pending.drop S.samplesPerFrame }
  else none

/-- One round for those who are served: a frame is taken off and rendered, while there is one. -/
def serveRound (needBridge : Bool) (x : List (LegKey × List Int16) × Talker S) :
    Option (List (LegKey × List Int16) × Talker S) :=
  if S.samplesPerFrame ≤ x.2.pending.length then
    let raw := x.2.pending.take S.samplesPerFrame
    some (frame needBridge (x.1, { x.2 with pending := x.2.pending.drop S.samplesPerFrame }) raw)
  else none

/-- `Talker::push_wide` as it is written, and how many frames its loops take off. -/
def pushWideWithin (fuel : ℕ) (t : Talker S) (wide : List Int16) (src : Sink)
    (sinks : List Sink) : Option (ℕ × List (LegKey × List Int16) × Talker S) :=
  let (pending, decimator) := t.decimator.push wide t.pending
  let t := { t with decimator := decimator, pending := pending }
  let out := blank sinks
  if out.isEmpty then (loop discardRound fuel t).map fun x => (x.1, out, x.2)
  else
    let needBridge := out.any fun x => x.1.2.2
    let t := if needBridge then { t with bridge := refresh src t.bridge } else t
    loop (serveRound needBridge) fuel (out, t)

/-- After so many frames there is another exactly while fewer have been taken than are there. -/
theorem frame_left_iff (pending : List Int16) (i : ℕ) :
    S.samplesPerFrame ≤ (pending.drop (i * S.samplesPerFrame)).length ↔
      i < pending.length / S.samplesPerFrame := by
  rw [List.length_drop, ← Nat.succ_le_iff, Nat.le_div_iff_mul_le S.samplesPerFrame_pos,
    Nat.succ_mul]
  have hpos := S.samplesPerFrame_pos
  omega

/-- The chain with other samples waiting. -/
def withPending (t : Talker S) (pending : List Int16) : Talker S := { t with pending := pending }

/-- What is rendered of frames that are taken off does not depend on what is waiting. -/
theorem frames_withPending (needBridge : Bool) (frames : List (List Int16))
    (out : List (LegKey × List Int16)) (t : Talker S) (pending : List Int16) :
    frames.foldl (frame needBridge) (out, t.withPending pending) =
      ((frames.foldl (frame needBridge) (out, t)).1,
        (frames.foldl (frame needBridge) (out, t)).2.withPending pending) := by
  induction frames generalizing out t with
  | nil => rfl
  | cons raw frames ih =>
    exact ih (frame needBridge (out, t) raw).1 (frame needBridge (out, t) raw).2

/-- Nor do frames move the filter in front, or what is waiting. -/
theorem frames_keep (needBridge : Bool) (frames : List (List Int16))
    (acc : List (LegKey × List Int16) × Talker S) :
    (frames.foldl (frame needBridge) acc).2.decimator = acc.2.decimator ∧
      (frames.foldl (frame needBridge) acc).2.pending = acc.2.pending := by
  induction frames generalizing acc with
  | nil => exact ⟨rfl, rfl⟩
  | cons raw frames ih => exact ih (frame needBridge acc raw)

/-- With nobody to serve, the loop ends when there is no whole frame left. -/
theorem yields_discard (t : Talker S) :
    Yields (fun fuel => loop discardRound fuel t) (t.pending.length / S.samplesPerFrame,
      t.withPending (takeFrames S.samplesPerFrame
        (t.pending.length / S.samplesPerFrame) t.pending).2) := by
  have hstart : t = t.withPending (t.pending.drop (0 * S.samplesPerFrame)) := by
    rw [Nat.zero_mul, List.drop_zero]
    rfl
  rw [takeFrames_snd]
  nth_rewrite 1 [hstart]
  apply yields_loop fun i => t.withPending (t.pending.drop (i * S.samplesPerFrame))
  · intro i hi
    have hready : S.samplesPerFrame ≤
        (t.withPending (t.pending.drop (i * S.samplesPerFrame))).pending.length :=
      (frame_left_iff t.pending i).mpr hi
    rw [discardRound, if_pos hready, Nat.succ_mul, ← List.drop_drop]
    rfl
  · rw [discardRound, if_neg]
    exact (frame_left_iff t.pending _).not.mpr (lt_irrefl _)

/-- With somebody to serve, it has then rendered the frames, one after the other. -/
theorem yields_serve (needBridge : Bool) (out : List (LegKey × List Int16)) (t : Talker S) :
    Yields (fun fuel => loop (serveRound needBridge) fuel (out, t))
      (t.pending.length / S.samplesPerFrame,
        (takeFrames S.samplesPerFrame (t.pending.length / S.samplesPerFrame) t.pending).1.foldl
          (frame needBridge) (out, t.withPending (takeFrames S.samplesPerFrame
            (t.pending.length / S.samplesPerFrame) t.pending).2)) := by
  let course (i : ℕ) : List (LegKey × List Int16) × Talker S :=
    (takeFrames S.samplesPerFrame i t.pending).1.foldl (frame needBridge)
      (out, t.withPending (t.pending.drop (i * S.samplesPerFrame)))
  have hpending : ∀ i, (course i).2.pending = t.pending.drop (i * S.samplesPerFrame) :=
    fun i => (frames_keep needBridge _ _).2
  have hstart : (out, t) = course 0 := by
    dsimp only [course]
    rw [Nat.zero_mul, List.drop_zero]
    rfl
  rw [takeFrames_snd, hstart]
  apply yields_loop course
  · -- The next frame is taken off, and rendered behind the others.
    intro i hi
    have hready := (frame_left_iff t.pending i).mpr hi
    rw [← hpending i] at hready
    rw [serveRound, if_pos hready, hpending]
    dsimp only [course]
    rw [takeFrames_concat, List.foldl_concat, frames_withPending, frames_withPending,
      Nat.succ_mul, ← List.drop_drop]
    rfl
  · rw [serveRound, if_neg]
    rw [hpending]
    exact (frame_left_iff t.pending _).not.mpr (lt_irrefl _)

/-- A call ends, and has then used up all the frames there were. -/
theorem yields_pushWide (t : Talker S) (wide : List Int16) (src : Sink) (sinks : List Sink) :
    Yields (fun fuel => t.pushWideWithin fuel wide src sinks)
      (t.due wide, t.pushWide wide src sinks) := by
  let fed : Talker S := { t with
    decimator := (t.decimator.push wide t.pending).2
    pending := (t.decimator.push wide t.pending).1 }
  by_cases hempty : (blank sinks).isEmpty = true
  · have hloop : (fun fuel => t.pushWideWithin fuel wide src sinks) = fun fuel =>
        (loop discardRound fuel fed).map fun x => (x.1, blank sinks, x.2) := by
      funext fuel
      simp only [pushWideWithin, hempty, if_true]
      rfl
    have hcall : t.pushWide wide src sinks = (blank sinks, fed.withPending
        (takeFrames S.samplesPerFrame (t.due wide) fed.pending).2) := if_pos hempty
    rw [hloop, hcall]
    exact (yields_discard fed).map fun x => (x.1, blank sinks, x.2)
  · let bridging : Bool := (blank sinks).any fun x => x.1.2.2
    let asked : Talker S := if bridging then { fed with bridge := refresh src fed.bridge } else fed
    have hloop : (fun fuel => t.pushWideWithin fuel wide src sinks) = fun fuel =>
        loop (serveRound bridging) fuel (blank sinks, asked) := by
      funext fuel
      exact if_neg hempty
    have hpending : asked.pending = fed.pending := by
      dsimp only [asked]
      split_ifs <;> rfl
    have hcall : t.pushWide wide src sinks =
        (takeFrames S.samplesPerFrame (t.due wide) fed.pending).1.foldl (frame bridging)
          (blank sinks, asked.withPending
            (takeFrames S.samplesPerFrame (t.due wide) fed.pending).2) := by
      -- The speaker's own hop is refreshed before the frames are taken off, or after: no matter.
      have hasked : asked.withPending (takeFrames S.samplesPerFrame (t.due wide) fed.pending).2 =
          if bridging then
            { fed.withPending (takeFrames S.samplesPerFrame (t.due wide) fed.pending).2 with
              bridge := refresh src fed.bridge }
          else fed.withPending (takeFrames S.samplesPerFrame (t.due wide) fed.pending).2 := by
        dsimp only [asked]
        split_ifs <;> rfl
      rw [hasked]
      exact if_neg hempty
    have hserve := yields_serve bridging (blank sinks) asked
    rw [hpending] at hserve
    rw [hloop, hcall]
    exact hserve

/-! ### The account -/

/-- What is waiting once so many samples have come in and so many frames have been used up. -/
structure Accounted (fed consumed : ℕ) (t : Talker S) : Prop where
  phase : t.decimator.phase = fed % 6
  pending : consumed * S.samplesPerFrame + t.pending.length = fed / 6
  short : t.pending.length < S.samplesPerFrame

/-- Whatever is there in whole frames has been used up. -/
theorem Accounted.consumed {fed consumed : ℕ} (h : Accounted fed consumed t) :
    consumed = fed / 6 / S.samplesPerFrame := by
  refine (Nat.div_eq_of_lt_le ?_ ?_).symm
  · rw [← h.pending]
    exact Nat.le_add_right _ _
  · rw [← h.pending, Nat.succ_mul]
    exact Nat.add_lt_add_left h.short _

/-- What a call leaves in the filter in front, and waiting. -/
theorem pushWide_snd_spec (t : Talker S) (wide : List Int16) (src : Sink) (sinks : List Sink) :
    (t.pushWide wide src sinks).2.decimator = (t.decimator.push wide t.pending).2 ∧
      (t.pushWide wide src sinks).2.pending =
        (t.decimator.push wide t.pending).1.drop (t.due wide * S.samplesPerFrame) := by
  rw [← takeFrames_snd]
  by_cases h : renderings sinks = []
  · have hempty : (blank sinks).isEmpty = true := by
      rw [blank, h]
      rfl
    have hcall : t.pushWide wide src sinks =
        (blank sinks, { t with
          decimator := (t.decimator.push wide t.pending).2
          pending := (takeFrames S.samplesPerFrame (t.due wide)
            (t.decimator.push wide t.pending).1).2 }) := if_pos hempty
    rw [hcall]
    exact ⟨rfl, rfl⟩
  · rw [t.pushWide_of_ne_nil wide src h]
    exact frames_keep _ _ _

theorem accounted_new (h : Talker.new S = .ok t) : Accounted 0 0 t := by
  rw [Talker.new] at h
  cases hopus : S.newOpus with
  | error e =>
    rw [hopus] at h
    cases h
  | ok opus =>
    rw [hopus] at h
    cases h
    exact ⟨rfl, Nat.zero_mul _, S.samplesPerFrame_pos⟩

/-- A call takes from what was waiting, and from what it brings, all the frames there are. -/
theorem Accounted.pushWide {fed consumed : ℕ} (h : Accounted fed consumed t) (wide : List Int16)
    (src : Sink) (sinks : List Sink) :
    Accounted (fed + wide.length) (consumed + t.due wide) (t.pushWide wide src sinks).2 := by
  have hphase : t.decimator.phase < 6 := by
    rw [h.phase]
    exact Nat.mod_lt _ (by decide)
  obtain ⟨hmade, hrest⟩ := Decimator.feed_spec wide hphase
  obtain ⟨hdecimator, hpending⟩ := t.pushWide_snd_spec wide src sinks
  rw [h.phase] at hmade hrest
  -- What is there before the loops is what was waiting, and what the call brings.
  have hthere : (t.decimator.push wide t.pending).1.length =
      t.pending.length + (fed % 6 + wide.length) / 6 := by
    rw [← hmade]
    exact List.length_append
  have hsplit : t.due wide * S.samplesPerFrame + (t.pushWide wide src sinks).2.pending.length =
      (t.decimator.push wide t.pending).1.length := by
    rw [hpending, List.length_drop]
    exact Nat.add_sub_of_le (Nat.div_mul_le_self _ _)
  have hwaiting := h.pending
  refine ⟨?_, ?_, ?_⟩
  · rw [hdecimator]
    exact hrest.trans (Nat.mod_add_mod fed 6 wide.length)
  · rw [Nat.add_mul]
    omega
  · rw [hpending, List.length_drop, due, ← Nat.mod_eq_sub_div_mul]
    exact Nat.mod_lt _ S.samplesPerFrame_pos

/-! ### A run of calls -/

/-- A call, and how many frames have been used up with it. -/
def callWithin (fuel : ℕ) (acc : ℕ × Talker S) (call : Call) : Option (ℕ × Talker S) :=
  (acc.2.pushWideWithin fuel call.wide call.src call.sinks).map fun x => (acc.1 + x.1, x.2.2)

/-- The calls of a chain, as they are written, and how many frames they use up together. -/
def callsWithin (fuel : ℕ) (t : Talker S) (calls : List Call) : Option (ℕ × Talker S) :=
  calls.foldlM (callWithin fuel) (0, t)

/-- The chain after a call, and how many frames have been used up with it. -/
def tally (acc : ℕ × Talker S) (call : Call) : ℕ × Talker S :=
  (acc.1 + acc.2.due call.wide, (acc.2.pushWide call.wide call.src call.sinks).2)

/-- How many samples the calls bring. -/
def samplesIn (calls : List Call) : ℕ := (calls.flatMap Call.wide).length

theorem yields_calls (t : Talker S) (calls : List Call) :
    Yields (fun fuel => callsWithin fuel t calls) (run tally (0, t) calls) := by
  have hcall : ∀ (acc : ℕ × Talker S) (call : Call), True →
      Yields (fun fuel => callWithin fuel acc call) (tally acc call) := fun acc call _ =>
    (yields_pushWide acc.2 call.wide call.src call.sinks).map fun x => (acc.1 + x.1, x.2.2)
  exact Yields.foldlM hcall (along_of_forall (fun _ _ => trivial) _ _)

/-- The account holds after any calls. -/
theorem accounted_run (h : Talker.new S = .ok t) (calls : List Call) :
    Accounted (samplesIn calls) (run tally (0, t) calls).1 (run tally (0, t) calls).2 := by
  induction calls using List.reverseRecOn with
  | nil => exact accounted_new h
  | append_singleton calls call ih =>
    rw [run_concat, samplesIn, List.flatMap_append, List.length_append, List.flatMap_singleton]
    exact ih.pushWide call.wide call.src call.sinks

/-- **No sample is lost or used twice.** Whatever the calls on a new chain were, they end, and so
does the next one. It returns each rendering that is asked for, and can be heard, once; all of them
equally long, as many frames as it used up; and less than a frame is left waiting. How many frames
have been used up so far, served or not, is decided by how many samples have come in, and not by how
they were split into calls. -/
theorem samples_accounted (h : Talker.new S = .ok t) (calls : List Call) (call : Call) :
    ∃ (before now : ℕ) (t' : Talker S),
      Yields (fun fuel => callsWithin fuel t calls) (before, t') ∧
      Yields (fun fuel => t'.pushWideWithin fuel call.wide call.src call.sinks)
        (now, t'.pushWide call.wide call.src call.sinks) ∧
      ((t'.pushWide call.wide call.src call.sinks).1.map Prod.fst).Nodup ∧
      (∀ k, k ∈ (t'.pushWide call.wide call.src call.sinks).1.map Prod.fst ↔ call.Serves k) ∧
      (∀ x ∈ (t'.pushWide call.wide call.src call.sinks).1,
        x.2.length = now * S.samplesPerFrame) ∧
      (t'.pushWide call.wide call.src call.sinks).2.pending.length < S.samplesPerFrame ∧
      before + now = samplesIn (calls ++ [call]) / 6 / S.samplesPerFrame := by
  have haccount := accounted_run h (calls ++ [call])
  rw [run_concat] at haccount
  refine ⟨(run tally (0, t) calls).1, (run tally (0, t) calls).2.due call.wide,
    (run tally (0, t) calls).2, yields_calls t calls, yields_pushWide _ _ _ _, ?_, fun k => ?_,
    fun x hx => ?_, haccount.short, haccount.consumed⟩
  · rw [keys_pushWide]
    exact nodup_renderings call.sinks
  · rw [keys_pushWide]
    exact mem_renderings
  · rw [length_pushWide _ _ _ _ x hx, framesOf, length_fst_takeFrames]

/-- A thousand samples with nobody to serve, and a thousand more with somebody: two frames. -/
theorem accounted_of_two_calls :
    let speaker : Sink := ⟨.fm, 80, false⟩
    let said (sinks : List Sink) : Call := ⟨List.replicate 1000 7, speaker, sinks⟩
    let chain : Talker Signal.passing := ⟨(), Decimator.new, (), (), [], none, ∅⟩
    ∃ (before now : ℕ) (t' : Talker Signal.passing),
      Yields (fun fuel => callsWithin fuel chain [said []]) (before, t') ∧
      Yields (fun fuel => t'.pushWideWithin fuel (said [speaker]).wide speaker [speaker])
        (now, t'.pushWide (said [speaker]).wide speaker [speaker]) ∧ before + now = 2 := by
  intro speaker said chain
  obtain ⟨before, now, t', hbefore, hnow, -, -, -, -, htotal⟩ :=
    samples_accounted (t := chain) rfl [said []] (said [speaker])
  have hsaid : ∀ sinks, (said sinks).wide.length = 1000 := fun _ => List.length_replicate
  have hin : samplesIn ([said []] ++ [said [speaker]]) = 2000 := by
    rw [samplesIn, List.flatMap_append, List.length_append, List.flatMap_singleton,
      List.flatMap_singleton, hsaid]
  rw [hin] at htotal
  exact ⟨before, now, t', hbefore, hnow, htotal⟩

end Talker

end RfxVoiced.Dsp
