import RfxVoiced.Dsp
import RfxVoiced.Lib.Groups
import RfxVoiced.Lib.Table

/-!
# One talker's chain

What a speaker says is brought down to 8 kHz, cut into frames, conditioned once, and then taken over
one hop for each rendering in use. Listeners on the near side are rendered from the conditioned
frame. Those across a patch are rendered from what the speaker's own hop makes of it, which is
shared.

The filters, the level control, the vocoder and the noise of a hop are machines that are not
described further; they are collected in `Signal`, with what is known of the lengths of their
output. How the chain is put together from them is described in full.

## Main definitions

* `Signal` — the machines that a chain is made of
* `Talker`, `Talker.pushWide` — the chain, and what a run of samples does to it
* `renderings` — the renderings that a list of sinks asks for
* `Signal.vocoder` — the chain, as routing sees it

## Main results

* `mem_renderings`, `nodup_renderings` — every audible sink is served, each rendering once
* `keys_pushWide`, `length_pushWide` — what comes out, rendering by rendering
-/

namespace RfxVoiced.Dsp

/-- The machines that a chain is made of. -/
structure Signal where
  /-- The Opus decoder, which may fail to start or refuse a packet. -/
  Opus : Type
  newOpus : Except String Opus
  decode : Opus → List UInt8 → Except String (List Int16) × Opus
  /-- The delay line of the low-pass that decimates, and its output. -/
  History : Type
  newHistory : History
  shift : History → Int16 → History
  fir : History → Int16
  /-- 32-bit floating-point samples. -/
  Level : Type
  ofInt16 : Int16 → Level
  toInt16 : Level → Int16
  /-- The filter that takes rumble out, sample by sample. -/
  Biquad : Type
  newHighpass : Biquad
  runBiquad : Biquad → Level → Level × Biquad
  /-- The level control, on a frame in place. -/
  Agc : Type
  newAgc : Agc
  runAgc : Agc → List Level → List Level × Agc
  length_runAgc : ∀ agc frame, (runAgc agc frame).1.length = frame.length
  /-- One hop, digital or analogue: made for a sink, with or without a loudspeaker, for a size of
  vocoder frame, from a seed. The same number of samples comes out as goes in. -/
  Leg : Type
  newLeg : Sink → Bool → ℕ → UInt64 → Leg
  runLeg : Leg → List Int16 → List Int16 × Leg
  length_runLeg : ∀ leg frame, (runLeg leg frame).1.length = frame.length
  /-- The frame of the vocoder. -/
  samplesPerFrame : ℕ
  samplesPerFrame_pos : 0 < samplesPerFrame
  bitsPerFrame : ℕ
  /-- The oscillator of the beat between two carriers, and the note it adds to a sample. -/
  Phase : Type
  newPhase : Phase
  beat : Phase → Int32 × Phase

/-! ### Decimation -/

/-- The low-pass, and how many samples have come in since one went out. -/
structure Decimator (S : Signal) where
  history : S.History
  phase : ℕ

namespace Decimator

variable {S : Signal}

def new : Decimator S := ⟨S.newHistory, 0⟩

/-- One sample in, and every sixth time one out. -/
def sample (d : Decimator S) (s : Int16) : List Int16 × Decimator S :=
  let history := S.shift d.history s
  if d.phase + 1 = 6 then ([S.fir history], ⟨history, 0⟩) else ([], ⟨history, d.phase + 1⟩)

/-- What comes out of wide samples. -/
def feed : Decimator S → List Int16 → List Int16 × Decimator S
  | d, [] => ([], d)
  | d, s :: input =>
    let (first, d) := d.sample s
    let (rest, d) := feed d input
    (first ++ rest, d)

/-- Feed wide samples, and append what comes out. -/
def push (d : Decimator S) (input : List Int16) (out : List Int16) :
    List Int16 × Decimator S :=
  let (made, d) := d.feed input
  (out ++ made, d)

end Decimator

/-! ### The chain -/

/-- The discriminant of a mode. -/
def Mode.toNat : Mode → ℕ
  | .p25 => 0
  | .fm => 1
  | .am => 2

/-- The seed of the noise and of the errors of one rendering. -/
def seedOf (sink : Sink) (salt : UInt64) : UInt64 :=
  (sink.quality.toUInt64 * (0x12345678 : UInt64)) ^^^
    (UInt64.ofNat sink.mode.toNat <<< (40 : UInt64)) ^^^
    (sink.bridged.toUInt64 <<< (48 : UInt64)) ^^^ (salt * (0x9E3779B9 : UInt64))

/-- Only a digital listener can be below a threshold, under which nothing arrives. -/
def Sink.audible (sink : Sink) : Bool :=
  !(decide (sink.mode = .p25) && profileMuted (laneOf sink.quality))

/-- The renderings that the sinks ask for, each once. -/
def renderings (sinks : List Sink) : List LegKey :=
  sinks.foldl (fun out s =>
    if !s.audible then out else if keyOf s ∈ out then out else out ++ [keyOf s]) []

theorem renderings_concat (sinks : List Sink) (s : Sink) :
    renderings (sinks ++ [s]) =
      if s.audible then
        if keyOf s ∈ renderings sinks then renderings sinks else renderings sinks ++ [keyOf s]
      else renderings sinks := by
  rw [renderings, List.foldl_concat, ← renderings]
  cases s.audible <;> rfl

/-- A rendering is made exactly when an audible sink asks for it. -/
theorem mem_renderings {sinks : List Sink} {k : LegKey} :
    k ∈ renderings sinks ↔ ∃ s ∈ sinks, s.audible = true ∧ keyOf s = k := by
  induction sinks using List.reverseRecOn with
  | nil => simp [renderings]
  | append_singleton sinks s ih =>
    have hsplit : (∃ s' ∈ sinks ++ [s], s'.audible = true ∧ keyOf s' = k) ↔
        (∃ s' ∈ sinks, s'.audible = true ∧ keyOf s' = k) ∨ s.audible = true ∧ keyOf s = k := by
      simp only [List.mem_append, List.mem_singleton, or_and_right, exists_or, exists_eq_left]
    rw [renderings_concat, hsplit, ← ih]
    split_ifs with hs hmem
    · -- The rendering is there already.
      rw [iff_self_or]
      rintro ⟨-, rfl⟩
      exact hmem
    · rw [List.mem_append, List.mem_singleton, and_iff_right hs, eq_comm (a := keyOf s)]
    · simp [hs]

theorem nodup_renderings (sinks : List Sink) : (renderings sinks).Nodup := by
  induction sinks using List.reverseRecOn with
  | nil => exact List.nodup_nil
  | append_singleton sinks s ih =>
    rw [renderings_concat]
    split_ifs with hs hmem
    · exact ih
    · rw [← List.concat_eq_append]
      exact List.Nodup.concat hmem ih
    · exact ih

/-- The signal chain of one speaker, up to a hop for every rendering that is wanted. -/
structure Talker (S : Signal) where
  opusIn : S.Opus
  decimator : Decimator S
  highpass : S.Biquad
  agc : S.Agc
  /-- Samples that do not make a whole frame yet. -/
  pending : List Int16
  /-- The speaker's own hop, and the link that it was made for. -/
  bridge : Option (Sink × S.Leg)
  /-- The hops of the renderings in use. -/
  legs : Table LegKey S.Leg

/-- Take `n` frames off the front. -/
def takeFrames (spf : ℕ) : ℕ → List Int16 → List (List Int16) × List Int16
  | 0, pending => ([], pending)
  | n + 1, pending =>
    (pending.take spf :: (takeFrames spf n (pending.drop spf)).1,
      (takeFrames spf n (pending.drop spf)).2)

namespace Talker

variable {S : Signal}

def new (S : Signal) : Except String (Talker S) :=
  S.newOpus.map fun opus =>
    { opusIn := opus
      decimator := Decimator.new
      highpass := S.newHighpass
      agc := S.newAgc
      pending := []
      bridge := none
      legs := ∅ }

def frameBytes (S : Signal) : ℕ := (S.bitsPerFrame + 7) / 8

/-- Condition one frame. -/
def condition (highpass : S.Biquad) (agc : S.Agc) (raw : List Int16) :
    List Int16 × S.Biquad × S.Agc :=
  let filtered := raw.foldl (fun (acc : List S.Level × S.Biquad) r =>
    let (w, highpass) := S.runBiquad acc.2 (S.ofInt16 r)
    (acc.1 ++ [w], highpass)) ([], highpass)
  let (levelled, agc) := S.runAgc agc filtered.1
  (levelled.map S.toInt16, filtered.2, agc)

/-- The hop of a rendering, made when the rendering is first used. -/
def legFor (legs : Table LegKey S.Leg) (key : LegKey) : S.Leg :=
  let sink : Sink := { mode := key.1, quality := key.2.1, bridged := key.2.2 }
  (legs.lookup key).getD (S.newLeg sink true (frameBytes S) (seedOf sink 2))

/-- Render one frame for each of the renderings in use. -/
def renderAll (clean bridged : List Int16) (legs : Table LegKey S.Leg)
    (out : List (LegKey × List Int16)) :
    List (LegKey × List Int16) × Table LegKey S.Leg :=
  out.foldl (fun acc x =>
    let (pcm, leg) := S.runLeg (legFor acc.2 x.1) (if x.1.2.2 then bridged else clean)
    (acc.1 ++ [(x.1, x.2 ++ pcm)], acc.2.insert x.1 leg)) ([], legs)

/-- The speaker's own hop as it has to be: rebuilt when the speaker's link has changed its lane. -/
def refresh (src : Sink) (bridge : Option (Sink × S.Leg)) : Option (Sink × S.Leg) :=
  let fresh := some (src, S.newLeg src false (frameBytes S) (seedOf src 1))
  match bridge with
  | some (was, leg) => if keyOf was ≠ keyOf src then fresh else some (was, leg)
  | none => fresh

/-- Take one frame over the speaker's own hop. -/
def cross (bridge : Option (Sink × S.Leg)) (clean : List Int16) :
    List Int16 × Option (Sink × S.Leg) :=
  match bridge with
  | some (was, leg) => ((S.runLeg leg clean).1, some (was, (S.runLeg leg clean).2))
  | none => ([], none)

/-- One frame, through the front end and over every hop in use. -/
def frame (needBridge : Bool) (acc : List (LegKey × List Int16) × Talker S) (raw : List Int16) :
    List (LegKey × List Int16) × Talker S :=
  let (out, t) := acc
  let (clean, highpass, agc) := condition t.highpass t.agc raw
  let (bridged, bridge) := if needBridge then cross t.bridge clean else ([], t.bridge)
  let (out, legs) := renderAll clean bridged t.legs out
  (out, { t with highpass := highpass, agc := agc, bridge := bridge, legs := legs })

/-- Whole frames are taken off while there is one. -/
def pushWide (t : Talker S) (wide : List Int16) (src : Sink) (sinks : List Sink) :
    List (LegKey × List Int16) × Talker S :=
  let (pending, decimator) := t.decimator.push wide t.pending
  let out := (renderings sinks).map fun key => (key, [])
  let (frames, left) :=
    takeFrames S.samplesPerFrame (pending.length / S.samplesPerFrame) pending
  let t := { t with decimator := decimator, pending := left }
  -- With nobody to serve, the frames are dropped before they reach the filters.
  if out.isEmpty then (out, t)
  else
    let needBridge := out.any fun x => x.1.2.2
    let t := if needBridge then { t with bridge := refresh src t.bridge } else t
    frames.foldl (frame needBridge) (out, t)

/-- Samples as they are, from a console. -/
def pushPcm (t : Talker S) (wide : List Int16) (src : Sink) (sinks : List Sink) :
    Except String (List (LegKey × List Int16)) × Talker S :=
  let (out, t) := t.pushWide wide src sinks
  (.ok out, t)

/-- An Opus packet, from the tap. -/
def push (t : Talker S) (packet : List UInt8) (src : Sink) (sinks : List Sink) :
    Except String (List (LegKey × List Int16)) × Talker S :=
  match S.decode t.opusIn packet with
  | (.error e, opus) => (.error e, { t with opusIn := opus })
  | (.ok wide, opus) => { t with opusIn := opus }.pushPcm wide src sinks

/-! ### The frames -/

theorem length_takeFrames {spf n : ℕ} {pending : List Int16} (h : n * spf ≤ pending.length) :
    ∀ raw ∈ (takeFrames spf n pending).1, raw.length = spf := by
  induction n generalizing pending with
  | zero => simp [takeFrames]
  | succ n ih =>
    have hfirst : spf ≤ pending.length := by
      rw [Nat.succ_mul] at h
      omega
    have hrest : n * spf ≤ (pending.drop spf).length := by
      rw [Nat.succ_mul] at h
      rw [List.length_drop]
      omega
    intro raw hraw
    rw [takeFrames, List.mem_cons] at hraw
    rcases hraw with rfl | hraw
    · rw [List.length_take, min_eq_left hfirst]
    · exact ih hrest raw hraw

theorem length_condition (highpass : S.Biquad) (agc : S.Agc) (raw : List Int16) :
    (condition highpass agc raw).1.length = raw.length := by
  have hfilter : ∀ (l : List Int16) (acc : List S.Level × S.Biquad),
      (l.foldl (fun (acc : List S.Level × S.Biquad) r =>
        let (w, highpass) := S.runBiquad acc.2 (S.ofInt16 r)
        (acc.1 ++ [w], highpass)) acc).1.length = acc.1.length + l.length := by
    intro l
    induction l with
    | nil => simp
    | cons r l ih =>
      intro acc
      rw [List.foldl_cons, ih]
      simp only [List.length_append, List.length_cons, List.length_nil]
      omega
  simp [condition, S.length_runAgc, hfilter]

/-! ### The hops -/

/-- Each lane is continued with what its own hop makes of the frame, and each hop in use moves on by
one frame: no key is listed twice, so no hop is used twice. -/
theorem renderAll_spec (clean bridged : List Int16) (legs : Table LegKey S.Leg)
    {out : List (LegKey × List Int16)} (hout : (out.map Prod.fst).Nodup) :
    (renderAll clean bridged legs out).1 = out.map (fun x =>
        (x.1, x.2 ++ (S.runLeg (legFor legs x.1) (if x.1.2.2 then bridged else clean)).1)) ∧
      ∀ k, (renderAll clean bridged legs out).2.lookup k =
        if k ∈ out.map Prod.fst then
          some (S.runLeg (legFor legs k) (if k.2.2 then bridged else clean)).2
        else legs.lookup k := by
  induction out using List.reverseRecOn with
  | nil => simp [renderAll]
  | append_singleton out x ih =>
    rw [List.map_append, List.map_singleton, ← List.concat_eq_append,
      List.nodup_concat] at hout
    obtain ⟨hlanes, hlegs⟩ := ih hout.2
    -- The hop of the last key is as it was before this frame.
    have hleg : legFor (renderAll clean bridged legs out).2 x.1 = legFor legs x.1 := by
      rw [legFor, hlegs, if_neg hout.1, legFor]
    have hlast : renderAll clean bridged legs (out ++ [x]) =
        ((renderAll clean bridged legs out).1 ++
          [(x.1, x.2 ++ (S.runLeg (legFor legs x.1) (if x.1.2.2 then bridged else clean)).1)],
        (renderAll clean bridged legs out).2.insert x.1
          (S.runLeg (legFor legs x.1) (if x.1.2.2 then bridged else clean)).2) := by
      rw [← hleg, renderAll, List.foldl_concat]
      rfl
    refine ⟨by rw [hlast, hlanes, List.map_append, List.map_singleton], fun k => ?_⟩
    have hmem : k ∈ (out ++ [x]).map Prod.fst ↔ k ∈ out.map Prod.fst ∨ k = x.1 := by
      rw [List.map_append, List.mem_append, List.map_singleton, List.mem_singleton]
    rw [hlast, Table.lookup_insert, hlegs]
    by_cases hk : k = x.1
    · simp [hk]
    · simp only [hmem, hk, or_false, if_false]

theorem keys_renderAll (clean bridged : List Int16) (legs : Table LegKey S.Leg)
    {out : List (LegKey × List Int16)} (hout : (out.map Prod.fst).Nodup) :
    (renderAll clean bridged legs out).1.map Prod.fst = out.map Prod.fst := by
  rw [(renderAll_spec clean bridged legs hout).1, List.map_map]
  rfl

theorem isSome_refresh (src : Sink) (bridge : Option (Sink × S.Leg)) :
    (refresh src bridge).isSome = true := by
  cases bridge with
  | none => rfl
  | some held =>
    rw [refresh]
    split_ifs <;> rfl

/-- How many whole frames there are once the samples have come in. -/
def due (t : Talker S) (wide : List Int16) : ℕ :=
  (t.decimator.push wide t.pending).1.length / S.samplesPerFrame

/-- Whatever is asked for across a patch has the speaker's own hop to come from. -/
def Bridged (needBridge : Bool) (out : List (LegKey × List Int16)) (t : Talker S) : Prop :=
  (needBridge = true → t.bridge.isSome = true) ∧
    ∀ x ∈ out, x.1.2.2 = true → needBridge = true

theorem keys_frame (needBridge : Bool) {out : List (LegKey × List Int16)} (t : Talker S)
    (raw : List Int16) (hout : (out.map Prod.fst).Nodup) :
    (frame needBridge (out, t) raw).1.map Prod.fst = out.map Prod.fst :=
  keys_renderAll _ _ _ hout

theorem bridged_frame {needBridge : Bool} {out : List (LegKey × List Int16)} {t : Talker S}
    (raw : List Int16) (hout : (out.map Prod.fst).Nodup) (h : Bridged needBridge out t) :
    Bridged needBridge (frame needBridge (out, t) raw).1 (frame needBridge (out, t) raw).2 := by
  obtain ⟨hsome, hneed⟩ := h
  constructor
  · rintro rfl
    obtain ⟨held, hheld⟩ := Option.isSome_iff_exists.mp (hsome rfl)
    simp [frame, hheld, cross]
  · intro x hx hbridged
    have hkey := List.mem_map_of_mem (f := Prod.fst) hx
    rw [keys_frame needBridge t raw hout] at hkey
    obtain ⟨y, hy, hyx⟩ := List.mem_map.mp hkey
    exact hneed y hy (by rw [hyx, hbridged])

/-- A frame makes every lane longer by as many samples as it has. -/
theorem length_frame {needBridge : Bool} {out : List (LegKey × List Int16)} {t : Talker S}
    {raw : List Int16} (hout : (out.map Prod.fst).Nodup) (h : Bridged needBridge out t)
    {n : ℕ} (hn : ∀ x ∈ out, x.2.length = n) :
    ∀ x ∈ (frame needBridge (out, t) raw).1, x.2.length = n + raw.length := by
  obtain ⟨hsome, hneed⟩ := h
  intro x hx
  have hx : x ∈ (renderAll (condition t.highpass t.agc raw).1
      (if needBridge then cross t.bridge (condition t.highpass t.agc raw).1
        else ([], t.bridge)).1 t.legs out).1 := hx
  rw [(renderAll_spec _ _ t.legs hout).1] at hx
  obtain ⟨y, hy, rfl⟩ := List.mem_map.mp hx
  rw [List.length_append, hn y hy, S.length_runLeg]
  by_cases hbridged : y.1.2.2 = true
  · have hneeded := hneed y hy hbridged
    obtain ⟨held, hheld⟩ := Option.isSome_iff_exists.mp (hsome hneeded)
    simp only [hbridged, hneeded, hheld, if_true, cross, S.length_runLeg, length_condition]
  · simp only [hbridged, if_false, Bool.false_eq_true, length_condition]

theorem frames_spec {needBridge : Bool} (frames : List (List Int16))
    (hframes : ∀ raw ∈ frames, raw.length = S.samplesPerFrame)
    {out : List (LegKey × List Int16)} {t : Talker S} (hout : (out.map Prod.fst).Nodup)
    (h : Bridged needBridge out t) {n : ℕ} (hn : ∀ x ∈ out, x.2.length = n) :
    (frames.foldl (frame needBridge) (out, t)).1.map Prod.fst = out.map Prod.fst ∧
      ∀ x ∈ (frames.foldl (frame needBridge) (out, t)).1,
        x.2.length = n + frames.length * S.samplesPerFrame := by
  induction frames generalizing out t n with
  | nil => simpa using hn
  | cons raw frames ih =>
    have hkeys := keys_frame needBridge t raw hout
    obtain ⟨hmap, hlen⟩ := ih (fun raw' hraw' => hframes raw' (List.mem_cons_of_mem _ hraw'))
      (by rwa [hkeys]) (bridged_frame raw hout h) (length_frame hout h hn)
    rw [List.foldl_cons]
    refine ⟨hmap.trans hkeys, fun x hx => ?_⟩
    rw [hlen x hx, hframes raw List.mem_cons_self, List.length_cons, Nat.succ_mul]
    omega

/-- The lanes as a run of samples starts them: one for each rendering, and nothing in them. -/
def blank (sinks : List Sink) : List (LegKey × List Int16) :=
  (renderings sinks).map fun key => (key, [])

theorem keys_blank (sinks : List Sink) : (blank sinks).map Prod.fst = renderings sinks := by
  rw [blank, List.map_map]
  exact List.map_id _

theorem nodup_blank (sinks : List Sink) : ((blank sinks).map Prod.fst).Nodup := by
  rw [keys_blank]
  exact nodup_renderings sinks

/-- The chain as a run of samples finds it, once the samples have come in and the speaker's own hop
is as it has to be. -/
def ready (t : Talker S) (wide : List Int16) (src : Sink) (needBridge : Bool) : Talker S :=
  { t with
    decimator := (t.decimator.push wide t.pending).2
    pending := (takeFrames S.samplesPerFrame (t.due wide) (t.decimator.push wide t.pending).1).2
    bridge := if needBridge then refresh src t.bridge else t.bridge }

/-- The whole frames of a run of samples. -/
def framesOf (t : Talker S) (wide : List Int16) : List (List Int16) :=
  (takeFrames S.samplesPerFrame (t.due wide) (t.decimator.push wide t.pending).1).1

theorem length_framesOf (t : Talker S) (wide : List Int16) :
    ∀ raw ∈ t.framesOf wide, raw.length = S.samplesPerFrame :=
  length_takeFrames (Nat.div_mul_le_self _ _)

/-- With anybody to serve, a run of samples is its frames, one after the other. -/
theorem pushWide_of_ne_nil (t : Talker S) (wide : List Int16) (src : Sink) {sinks : List Sink}
    (h : renderings sinks ≠ []) :
    t.pushWide wide src sinks =
      (t.framesOf wide).foldl (frame ((renderings sinks).any fun k => k.2.2))
        (blank sinks, t.ready wide src ((renderings sinks).any fun k => k.2.2)) := by
  have hempty : (blank sinks).isEmpty = false := by
    rw [List.isEmpty_eq_false_iff, blank, Ne, List.map_eq_nil_iff]
    exact h
  have hany : ((blank sinks).any fun x => x.1.2.2) = (renderings sinks).any fun k => k.2.2 := by
    rw [blank, List.any_map]
    rfl
  have hpush : t.pushWide wide src sinks =
      if (blank sinks).isEmpty then
        (blank sinks, { t with
          decimator := (t.decimator.push wide t.pending).2
          pending :=
            (takeFrames S.samplesPerFrame (t.due wide) (t.decimator.push wide t.pending).1).2 })
      else
        (t.framesOf wide).foldl (frame ((blank sinks).any fun x => x.1.2.2))
          (blank sinks, if ((blank sinks).any fun x => x.1.2.2) then t.ready wide src true
            else t.ready wide src false) := rfl
  rw [hpush, hempty, hany]
  cases (renderings sinks).any fun k => k.2.2 <;> rfl

theorem pushWide_of_nil (t : Talker S) (wide : List Int16) (src : Sink) {sinks : List Sink}
    (h : renderings sinks = []) : (t.pushWide wide src sinks).1 = [] := by
  rw [pushWide, h]
  rfl

theorem bridged_ready (t : Talker S) (wide : List Int16) (src : Sink) (sinks : List Sink) :
    Bridged ((renderings sinks).any fun k => k.2.2) (blank sinks)
      (t.ready wide src ((renderings sinks).any fun k => k.2.2)) := by
  constructor
  · intro hneed
    rw [ready, hneed]
    exact isSome_refresh src t.bridge
  · intro x hx hbridged
    have hkey := List.mem_map_of_mem (f := Prod.fst) hx
    rw [keys_blank] at hkey
    exact List.any_eq_true.mpr ⟨x.1, hkey, hbridged⟩

/-- The lanes that come out are the renderings that the sinks ask for. -/
theorem keys_pushWide (t : Talker S) (wide : List Int16) (src : Sink) (sinks : List Sink) :
    (t.pushWide wide src sinks).1.map Prod.fst = renderings sinks := by
  by_cases h : renderings sinks = []
  · rw [t.pushWide_of_nil wide src h, h]
    rfl
  · rw [t.pushWide_of_ne_nil wide src h]
    have hspec := frames_spec (t.framesOf wide) (t.length_framesOf wide) (nodup_blank sinks)
      (t.bridged_ready wide src sinks) (n := 0) (by simp [blank])
    exact hspec.1.trans (keys_blank sinks)

/-- All lanes are equally long: as many frames as there are. -/
theorem length_pushWide (t : Talker S) (wide : List Int16) (src : Sink) (sinks : List Sink) :
    ∀ x ∈ (t.pushWide wide src sinks).1,
      x.2.length = (t.framesOf wide).length * S.samplesPerFrame := by
  by_cases h : renderings sinks = []
  · rw [t.pushWide_of_nil wide src h]
    simp
  · rw [t.pushWide_of_ne_nil wide src h]
    have hspec := frames_spec (t.framesOf wide) (t.length_framesOf wide) (nodup_blank sinks)
      (t.bridged_ready wide src sinks) (n := 0) (by simp [blank])
    simpa using hspec.2

/-- So where one lane has anything in it, all of them have. -/
theorem pushWide_nonempty (t : Talker S) (wide : List Int16) (src : Sink) (sinks : List Sink)
    {x y : LegKey × List Int16} (hx : x ∈ (t.pushWide wide src sinks).1)
    (hy : y ∈ (t.pushWide wide src sinks).1) (h : x.2 ≠ []) : y.2 ≠ [] := by
  rw [← List.length_pos_iff] at h ⊢
  rw [t.length_pushWide wide src sinks y hy, ← t.length_pushWide wide src sinks x hx]
  exact h

end Talker

/-- Machines that let everything through as it is: every byte of a packet is 20 ms of one value. -/
def Signal.passing : Signal where
  Opus := Unit
  newOpus := .ok ()
  decode _ packet := (.ok (packet.flatMap fun b => List.replicate 960 (Int16.ofNat b.toNat)), ())
  History := Int16
  newHistory := 0
  shift _ s := s
  fir s := s
  Level := Int16
  ofInt16 s := s
  toInt16 s := s
  Biquad := Unit
  newHighpass := ()
  runBiquad _ s := (s, ())
  Agc := Unit
  newAgc := ()
  runAgc _ frame := (frame, ())
  length_runAgc _ _ := rfl
  Leg := Unit
  newLeg _ _ _ _ := ()
  runLeg _ frame := (frame, ())
  length_runLeg _ _ := rfl
  samplesPerFrame := 160
  samplesPerFrame_pos := by decide
  bitsPerFrame := 64
  Phase := Unit
  newPhase := ()
  beat _ := (0, ())

/-- The chain, as routing sees it. -/
def Signal.vocoder (S : Signal) : Vocoder where
  Talker := Talker S
  new := Talker.new S
  pushPcm := Talker.pushPcm

end RfxVoiced.Dsp
