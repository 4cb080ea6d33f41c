import RfxVoiced.Dsp.Talker
import RfxVoiced.Lib.Outputs

/-!
# One rendering by itself

All renderings of a speaker share the front end and the speaker's own hop, and the hops are made
when they are first used. So it is not plain that what a listener is sent does not depend on who
else is listening. It does not: a chain that serves one rendering only, which knows of no other,
returns the same for it, call by call.

## Main definitions

* `Solo`, `Solo.push` — the chain of a single rendering
* `Talker.only` — what a speaker's chain holds of one rendering

## Main results

* `pushWide_only` — the chain, seen from one rendering, is the chain of that rendering
* `heard_regardless_of_others` — what is returned for a rendering is the same whoever else listens
-/

namespace RfxVoiced.Dsp

/-- The chain of a single rendering. -/
structure Solo (S : Signal) where
  decimator : Decimator S
  highpass : S.Biquad
  agc : S.Agc
  pending : List Int16
  /-- The speaker's own hop, where the rendering is across a patch. -/
  bridge : Option (Sink × S.Leg)
  leg : Option S.Leg

/-- What a speaker's chain holds of one rendering. -/
def Talker.only {S : Signal} (k : LegKey) (t : Talker S) : Solo S where
  decimator := t.decimator
  highpass := t.highpass
  agc := t.agc
  pending := t.pending
  bridge := if k.2.2 then t.bridge else none
  leg := t.legs.lookup k

namespace Solo

variable {S : Signal}

/-- One frame, over the hops of the rendering. -/
def frame (k : LegKey) (acc : List Int16 × Solo S) (raw : List Int16) : List Int16 × Solo S :=
  let (pcm, s) := acc
  let (clean, highpass, agc) := Talker.condition s.highpass s.agc raw
  let (bridged, bridge) := if k.2.2 then Talker.cross s.bridge clean else ([], none)
  let fresh := S.newLeg { mode := k.1, quality := k.2.1, bridged := k.2.2 } true
    (Talker.frameBytes S) (seedOf { mode := k.1, quality := k.2.1, bridged := k.2.2 } 2)
  let (made, leg) := S.runLeg (s.leg.getD fresh) (if k.2.2 then bridged else clean)
  (pcm ++ made, { s with highpass := highpass, agc := agc, bridge := bridge, leg := some leg })

/-- A run of samples. -/
def push (k : LegKey) (s : Solo S) (call : List Int16 × Sink) : List Int16 × Solo S :=
  let (pending, decimator) := s.decimator.push call.1 s.pending
  let (frames, left) :=
    takeFrames S.samplesPerFrame (pending.length / S.samplesPerFrame) pending
  frames.foldl (frame k) ([],
    { s with
      decimator := decimator
      pending := left
      bridge := if k.2.2 then Talker.refresh call.2 s.bridge else none })

end Solo

/-! ### The chain, seen from one rendering -/

namespace Talker

variable {S : Signal}

theorem lookup_map_lanes (g : LegKey → List Int16 → List Int16) (k : LegKey)
    (out : List (LegKey × List Int16)) :
    (out.map fun x => (x.1, g x.1 x.2)).lookup k = (out.lookup k).map (g k) := by
  induction out with
  | nil => rfl
  | cons x out ih =>
    rw [List.map_cons, List.lookup_cons, List.lookup_cons, ih]
    by_cases h : k = x.1
    · subst h
      simp
    · rw [beq_false_of_ne h]

/-- A lane is continued by its own hop, from its own side of the patch. -/
theorem lookup_renderAll (clean bridged : List Int16) (legs : Table LegKey S.Leg) {k : LegKey}
    {out : List (LegKey × List Int16)} {pcm : List Int16} (hout : (out.map Prod.fst).Nodup)
    (hk : out.lookup k = some pcm) :
    let made := S.runLeg (legFor legs k) (if k.2.2 then bridged else clean)
    (renderAll clean bridged legs out).1.lookup k = some (pcm ++ made.1) ∧
      (renderAll clean bridged legs out).2.lookup k = some made.2 := by
  intro made
  obtain ⟨hlanes, hlegs⟩ := renderAll_spec clean bridged legs hout
  have hmem : k ∈ out.map Prod.fst := by
    obtain ⟨l₁, l₂, rfl, -⟩ := List.lookup_eq_some_iff.mp hk
    simp
  constructor
  · rw [hlanes, lookup_map_lanes (fun key pcm => pcm ++
      (S.runLeg (legFor legs key) (if key.2.2 then bridged else clean)).1), hk]
    rfl
  · rw [hlegs, if_pos hmem]

/-- The other lanes and hops of a frame leave this one alone. -/
theorem frame_only {k : LegKey} {needBridge : Bool} {out : List (LegKey × List Int16)}
    {pcm : List Int16} (t : Talker S) (raw : List Int16) (hout : (out.map Prod.fst).Nodup)
    (hneed : k.2.2 = true → needBridge = true) (hk : out.lookup k = some pcm) :
    (frame needBridge (out, t) raw).1.lookup k = some (Solo.frame k (pcm, t.only k) raw).1 ∧
      (frame needBridge (out, t) raw).2.only k = (Solo.frame k (pcm, t.only k) raw).2 := by
  obtain ⟨hlane, hleg⟩ := lookup_renderAll (condition t.highpass t.agc raw).1
    (if needBridge then cross t.bridge (condition t.highpass t.agc raw).1 else ([], t.bridge)).1
    t.legs hout hk
  obtain ⟨mode, lane, bridged⟩ := k
  cases bridged with
  | true =>
    -- Across a patch, the speaker's own hop is run for this rendering too.
    obtain rfl := hneed rfl
    exact ⟨hlane, congrArg (Solo.mk t.decimator _ _ t.pending _) hleg⟩
  | false =>
    exact ⟨hlane, congrArg (Solo.mk t.decimator _ _ t.pending _) hleg⟩

/-- The frames of a call, one after the other. -/
theorem frames_only {k : LegKey} {needBridge : Bool} (hneed : k.2.2 = true → needBridge = true)
    (frames : List (List Int16)) {out : List (LegKey × List Int16)} {pcm : List Int16}
    (t : Talker S) (hout : (out.map Prod.fst).Nodup) (hk : out.lookup k = some pcm) :
    (frames.foldl (frame needBridge) (out, t)).1.lookup k =
        some (frames.foldl (Solo.frame k) (pcm, t.only k)).1 ∧
      (frames.foldl (frame needBridge) (out, t)).2.only k =
        (frames.foldl (Solo.frame k) (pcm, t.only k)).2 := by
  induction frames generalizing out pcm t with
  | nil => exact ⟨hk, rfl⟩
  | cons raw frames ih =>
    obtain ⟨hlane, hchain⟩ := frame_only t raw hout hneed hk
    have hkeys := keys_frame needBridge t raw hout
    rw [List.foldl_cons, List.foldl_cons]
    obtain ⟨hlanes, hchains⟩ := ih (frame needBridge (out, t) raw).2 (by rwa [hkeys]) hlane
    rw [hchain] at hlanes hchains
    exact ⟨hlanes, hchains⟩

/-- A call that a rendering is asked for in is, seen from that rendering, a call of its own
chain. -/
theorem pushWide_only {k : LegKey} {sinks : List Sink} (t : Talker S) (wide : List Int16)
    (src : Sink) (hk : k ∈ renderings sinks) :
    (t.pushWide wide src sinks).1.lookup k = some (Solo.push k (t.only k) (wide, src)).1 ∧
      (t.pushWide wide src sinks).2.only k = (Solo.push k (t.only k) (wide, src)).2 := by
  have hblank : (blank sinks).lookup k = some [] := by
    rw [blank]
    exact List.lookup_graph (fun _ => []) hk
  -- The first hop runs whenever this rendering needs it, whoever else needs it.
  have hneed : k.2.2 = true → ((renderings sinks).any fun k => k.2.2) = true := fun h =>
    List.any_eq_true.mpr ⟨k, hk, h⟩
  rw [t.pushWide_of_ne_nil wide src (List.ne_nil_of_mem hk)]
  -- The front end and the pending samples are moved by the samples alone.
  have hready : (t.ready wide src ((renderings sinks).any fun k => k.2.2)).only k =
      { t.only k with
        decimator := (t.decimator.push wide t.pending).2
        pending := (takeFrames S.samplesPerFrame (t.due wide)
          (t.decimator.push wide t.pending).1).2
        bridge := if k.2.2 then refresh src (t.only k).bridge else none } := by
    by_cases hb : k.2.2 = true
    · simp [only, ready, hb, hneed hb]
    · simp [only, ready, hb]
  obtain ⟨hlanes, hchain⟩ := frames_only hneed (t.framesOf wide)
    (t.ready wide src ((renderings sinks).any fun k => k.2.2)) (nodup_blank sinks) hblank
  rw [hready] at hlanes hchain
  exact ⟨hlanes, hchain⟩

/-! ### Two audiences -/

/-- A call of the chain: the samples that come in, the speaker's own link, and who is listening. -/
structure Call where
  wide : List Int16
  src : Sink
  sinks : List Sink

/-- Somebody who is listening, and not below the threshold, is served the rendering. -/
def Call.Serves (call : Call) (k : LegKey) : Prop :=
  ∃ s ∈ call.sinks, s.audible = true ∧ keyOf s = k

instance (call : Call) (k : LegKey) : Decidable (call.Serves k) :=
  inferInstanceAs (Decidable (∃ s ∈ call.sinks, _))

/-- What a speaker's chain returns, call by call. -/
def heard (t : Talker S) (calls : List Call) : List (List (LegKey × List Int16)) :=
  outputs (fun t (call : Call) => t.pushWide call.wide call.src call.sinks) t calls

/-- What is returned for a rendering is decided by what its own chain makes of the samples and of
the speaker's links. -/
theorem heard_only (t : Talker S) (k : LegKey) {calls : List Call}
    (hserves : ∀ call ∈ calls, call.Serves k) :
    (heard t calls).map (List.lookup k) =
      (outputs (Solo.push k) (t.only k) (calls.map fun call => (call.wide, call.src))).map some :=
  outputs_of_view (v := Talker.only k)
    (fun t (call : Call) (hcall : call.Serves k) =>
      (t.pushWide_only call.wide call.src (mem_renderings.mpr hcall)).1)
    (fun t call hcall => (t.pushWide_only call.wide call.src (mem_renderings.mpr hcall)).2) t
    hserves

/-- Two runs of a chain from one state, such as a new chain is in, that are fed the same samples of
the same speaker and both serve a rendering throughout, return the same for it at every call:
nothing that is shared is moved by anybody else who listens. -/
theorem heard_regardless_of_others (t : Talker S) (k : LegKey)
    (calls calls' : List Call)
    (hsame : (calls.map fun call => (call.wide, call.src)) =
      calls'.map fun call => (call.wide, call.src))
    (hserves : ∀ call ∈ calls, call.Serves k) (hserves' : ∀ call ∈ calls', call.Serves k) :
    ∃ pcms : List (List Int16), (heard t calls).map (List.lookup k) = pcms.map some ∧
      (heard t calls').map (List.lookup k) = pcms.map some := by
  refine ⟨_, heard_only t k hserves, ?_⟩
  rw [heard_only t k hserves', hsame]

/-- A listener across a patch comes in after the first call, and leaves before the last. -/
theorem heard_as_one_comes_and_goes :
    let speaker : Sink := ⟨.fm, 80, false⟩
    let near : Sink := ⟨.fm, 100, false⟩
    let across : Sink := ⟨.p25, 60, true⟩
    let said (sinks : List Sink) : Call := ⟨List.replicate 500 7, speaker, sinks⟩
    let chain : Talker Signal.passing := ⟨(), Decimator.new, (), (), [], none, ∅⟩
    ∃ pcms : List (List Int16),
      (heard chain [said [near], said [near], said [near]]).map (List.lookup (.fm, 100, false)) =
        pcms.map some ∧
      (heard chain [said [near], said [across, near], said [near]]).map
        (List.lookup (.fm, 100, false)) = pcms.map some := by
  intro speaker near across said chain
  have hnear : ∀ sinks, near ∈ sinks → (said sinks).Serves (.fm, 100, false) :=
    fun sinks hmem => ⟨near, hmem, by decide, by decide⟩
  refine heard_regardless_of_others chain _ _ _ rfl ?_ ?_
  · simp [hnear]
  · simp [hnear]

end Talker

end RfxVoiced.Dsp
