import RfxVoiced.Dsp.Talker
import RfxVoiced.Router.Patches
import RfxVoiced.Streams.Serve

/-!
# One packet on its way out

A packet of a speaker who is keyed becomes one lane for each rendering its listeners ask for. The
cleanest lane on the speaker's own side is recorded, and every listener is sent the lane that it is
served from. This is so whether the packet came through a Mumble tap or over a console's socket.

## Main definitions

* `Delivery` — one packet: where it came from, whom it is for, and its lanes
* `Delivery.calls`, `Delivery.recorded` — what is sent, and what is recorded
* `Delivery.Routed` — the packet is on the route its speaker is heard on, in the renderings that its
  listeners ask for
* `consoleDelivery` — the packet that the samples of a console become

## Main results

* `txAudio_eq_deliver` — handling a console's samples is delivering that packet
* `calls_of_listener` — a listed client is sent its own rendering once, or nothing
-/

namespace RfxVoiced

open Dsp (LegKey keyOf Signal)

/-- Where a packet came from: a session heard by a server's tap, or a console's socket. -/
inductive Origin
  | tap (session : SessionId)
  | socket (client : ClientId)
  deriving DecidableEq, Repr

/-- Who is speaking. -/
def Origin.speaker (r : Router) : Origin → Option ClientId
  | .tap session => r.clientOf session
  | .socket client => some client

/-- The server whose tap heard the packet, if a tap did. -/
def Origin.tapped : Origin → Option UInt32
  | .tap session => some session.server
  | .socket _ => none

/-- What a mixer had to do with a packet. Mixers are told apart by a number. -/
inductive Mixing
  /-- Nothing: no collision, and no mixer left over from one. -/
  | none
  /-- A collision is over, and what its mixer still held goes out first. -/
  | flushed (mixer : ℕ) (held : List (LegKey × List Int16))
  /-- A collision is on, and these lanes were added to its mixer. -/
  | added (mixer : ℕ) (lanes : List (LegKey × List Int16))
  deriving DecidableEq, Repr

/-- What goes out ahead of a packet. -/
def Mixing.held : Mixing → List (LegKey × List Int16)
  | .flushed _ held => held
  | _ => []

/-- One packet on its way out. -/
structure Delivery where
  origin : Origin
  tg : RouteId
  src : Dsp.Sink
  listeners : List Listener
  /-- What the speaker's chain made of it. -/
  lanes : List (LegKey × List Int16)
  mixing : Mixing
  /-- What goes out. -/
  out : List (LegKey × List Int16)
  deriving DecidableEq, Repr

namespace Delivery

/-- What is sent, and to whom, in this order. -/
def calls (d : Delivery) : List (ClientId × List Int16) :=
  d.out.flatMap fun lane =>
    if lane.2.isEmpty then []
    else (d.listeners.filter fun l => keyOf l.sink = lane.1).map fun l => (l.client, lane.2)

/-- What is pushed to the recording: the cleanest lane on the speaker's own side. A console does not
push an empty one. -/
def recorded (d : Delivery) : Option (List Int16) :=
  let best := (Streams.recordedLane d.src d.out).map Prod.snd
  match d.origin with
  | .tap _ => best
  | .socket _ => best.filter fun pcm => !pcm.isEmpty

/-- Record the packet, and send it. -/
def deliver (d : Delivery) (core : Core) : Core :=
  { core with
    recorder := d.recorded.elim core.recorder (core.recorder.push d.tg)
    streams := Streams.sendLanes core.streams d.tg d.listeners d.out }

/-- The packet is on the route that its speaker is heard on, for those who listen there, and its
lanes are what a chain makes of some samples. -/
structure Routed (S : Signal) (r : Router) (d : Delivery) (speaker : ClientId) : Prop where
  speaking : d.origin.speaker r = some speaker
  destination : r.destinationOf speaker = some (d.tg, d.listeners)
  source : d.src = r.sourceSink d.tg speaker
  rendered : ∃ (t : Dsp.Talker S) (wide : List Int16),
    d.lanes = (t.pushWide wide d.src (d.listeners.map Listener.sink)).1

end Delivery

/-! ### Consoles -/

/-- The packet that the samples of a console become, if they become one, and the chain after it. -/
def consoleDelivery {S : Signal} (r : Router) (talker : Option (Dsp.Talker S)) (client : ClientId)
    (samples : List UInt8) : Option Delivery × Option (Dsp.Talker S) :=
  match r.destinationOf client with
  | none => (none, talker)
  | some (live, listeners) =>
    if listeners.isEmpty then (none, talker)
    else
      match talker.elim (Dsp.Talker.new S) .ok with
      | .error _ => (none, talker)
      | .ok t =>
        let src := r.sourceSink live client
        match t.pushPcm (leSamples samples) src (listeners.map Listener.sink) with
        | (.error _, t) => (none, some t)
        | (.ok lanes, t) =>
          (some
            { origin := .socket client
              tg := live
              src := src
              listeners := listeners
              lanes := lanes
              mixing := .none
              out := lanes }, some t)

/-- A chain that has started takes the samples of a console as they are. -/
theorem txAudio_of_started {S : Signal} {core : Core} (t : Dsp.Talker S) {client : ClientId}
    {live : RouteId} {l : Listener} {ls : List Listener}
    (hdest : core.router.destinationOf client = some (live, l :: ls)) (samples : List UInt8) :
    Streams.txAudio S.vocoder core (some t) client samples =
      ((consoleDelivery core.router (some t) client samples).1.elim core (·.deliver core),
        (consoleDelivery core.router (some t) client samples).2) := by
  simp only [Streams.txAudio, consoleDelivery, hdest]
  refine congrArg (fun recorder => (({ core with
    recorder := recorder
    streams := _ } : Core), _)) ?_
  simp only [Delivery.recorded]
  cases Streams.recordedLane (core.router.sourceSink live client) _ with
  | none => rfl
  | some lane =>
    obtain ⟨key, pcm⟩ := lane
    cases pcm <;> rfl

/-- Handling the samples of a console is delivering the packet that they become. -/
theorem txAudio_eq_deliver {S : Signal} (core : Core) (talker : Option (Dsp.Talker S))
    (client : ClientId) (samples : List UInt8) :
    Streams.txAudio S.vocoder core talker client samples =
      ((consoleDelivery core.router talker client samples).1.elim core (·.deliver core),
        (consoleDelivery core.router talker client samples).2) := by
  rcases hdest : core.router.destinationOf client with _ | ⟨live, _ | ⟨l, ls⟩⟩
  · simp only [Streams.txAudio, consoleDelivery, hdest, Option.elim_none]
    rfl
  · simp only [Streams.txAudio, consoleDelivery, hdest, List.isEmpty_nil, if_true, Option.elim_none]
    rfl
  · cases talker with
    | some t => exact txAudio_of_started t hdest samples
    -- A chain that is started for this frame goes on as one that was there.
    | none =>
      have hnew : S.vocoder.new = Dsp.Talker.new S := rfl
      cases hstart : Dsp.Talker.new S with
      | error e =>
        simp only [Streams.txAudio, consoleDelivery, hdest, hnew, hstart, Option.elim_none]
        rfl
      | ok t =>
        have hsame := txAudio_of_started t hdest samples
        simp only [Streams.txAudio, consoleDelivery, hdest, hnew, hstart, Option.elim_none]
          at hsame ⊢
        exact hsame

theorem routed_of_consoleDelivery {S : Signal} {r : Router} {talker : Option (Dsp.Talker S)}
    {client : ClientId} {samples : List UInt8} {d : Delivery}
    (h : (consoleDelivery r talker client samples).1 = some d) :
    d.Routed S r client ∧ d.origin = .socket client ∧ d.mixing = .none ∧ d.out = d.lanes := by
  rw [consoleDelivery] at h
  split at h
  · cases h
  next live listeners hdest =>
    split_ifs at h
    split at h
    · cases h
    next t hstart =>
      obtain rfl := Option.some.inj h
      exact ⟨⟨rfl, hdest, rfl, t, leSamples samples, rfl⟩, rfl, rfl, rfl⟩

/-! ### What is sent -/

theorem sendLanes_eq_calls (d : Delivery) (s : Streams) :
    Streams.sendLanes s d.tg d.listeners d.out =
      d.calls.foldl (fun s call => s.sendPcm call.1 d.tg call.2) s := by
  rw [Streams.sendLanes, Delivery.calls, List.foldl_flatMap]
  refine congrArg (fun f => List.foldl f s d.out) (funext₂ fun s lane => ?_)
  split_ifs with hempty
  · rfl
  · rw [List.foldl_map, List.foldl_filter]
    exact congrArg (fun f => List.foldl f s d.listeners) (funext₂ fun s l => by
      by_cases hkey : keyOf l.sink = lane.1
      · simp [hkey]
      · simp [hkey])

/-- No client is listed twice, so no client is sent a lane twice. -/
theorem filter_listeners {listeners : List Listener} (p : Listener → Bool) {l : Listener}
    (hnodup : (listeners.map Listener.client).Nodup) (hl : l ∈ listeners) (pcm : List Int16) :
    ((listeners.filter p).map fun l => (l.client, pcm)).filter (fun call => call.1 = l.client) =
      if p l then [(l.client, pcm)] else [] := by
  induction listeners with
  | nil => exact absurd hl List.not_mem_nil
  | cons x listeners ih =>
    obtain ⟨hfresh, hrest⟩ := List.nodup_cons.mp hnodup
    rcases List.mem_cons.mp hl with rfl | hl
    · -- The others are other clients.
      have hothers : ((listeners.filter p).map fun x => (x.client, pcm)).filter
          (fun call => call.1 = l.client) = [] := by
        rw [List.filter_eq_nil_iff]
        intro call hcall
        obtain ⟨x, hx, rfl⟩ := List.mem_map.mp hcall
        have hx := List.mem_map_of_mem (f := Listener.client) (List.mem_of_mem_filter hx)
        simp only [decide_eq_true_eq]
        rintro heq
        exact hfresh (heq ▸ hx)
      by_cases hp : p l = true
      · rw [List.filter_cons_of_pos hp, List.map_cons, List.filter_cons_of_pos (by simp), hothers,
          if_pos hp]
      · rw [List.filter_cons_of_neg hp, hothers, if_neg hp]
    · have hne : x.client ≠ l.client := by
        intro heq
        exact hfresh (heq ▸ List.mem_map_of_mem hl)
      by_cases hp : p x = true
      · rw [List.filter_cons_of_pos hp, List.map_cons, List.filter_cons_of_neg (by simpa using hne),
          ih hrest hl]
      · rw [List.filter_cons_of_neg hp, ih hrest hl]

/-- A listed client is sent its own rendering, once, when there is anything in it. -/
theorem calls_of_listener {d : Delivery} (hkeys : (d.out.map Prod.fst).Nodup)
    (hnodup : (d.listeners.map Listener.client).Nodup) {l : Listener} (hl : l ∈ d.listeners) :
    d.calls.filter (fun call => call.1 = l.client) =
      (((d.out.lookup (keyOf l.sink)).filter (· ≠ [])).map fun pcm => (l.client, pcm)).toList := by
  rw [Delivery.calls, List.filter_flatMap]
  have hlane : ∀ lane : LegKey × List Int16,
      (if lane.2.isEmpty then []
        else (d.listeners.filter fun l => keyOf l.sink = lane.1).map fun l =>
          (l.client, lane.2)).filter (fun call => call.1 = l.client) =
        if lane.2 ≠ [] ∧ keyOf l.sink = lane.1 then [(l.client, lane.2)] else [] := by
    rintro ⟨key, pcm⟩
    cases pcm with
    | nil => rfl
    | cons s pcm =>
      have hfilter := filter_listeners (fun l => keyOf l.sink = key) hnodup hl (s :: pcm)
      simpa using hfilter
  simp only [hlane]
  -- Lane by lane: the one under the listener's key is found once.
  generalize d.out = out at hkeys
  induction out with
  | nil => rfl
  | cons lane out ih =>
    obtain ⟨hfresh, hrest⟩ := List.nodup_cons.mp hkeys
    rw [List.flatMap_cons, ih hrest, List.lookup_cons]
    by_cases hkey : keyOf l.sink = lane.1
    · -- The rendering is not listed again.
      have habsent : out.lookup (keyOf l.sink) = none := by
        rw [List.lookup_eq_none_iff]
        intro x hx
        rw [bne_iff_ne, hkey]
        rintro heq
        exact hfresh (heq ▸ List.mem_map_of_mem hx)
      rw [habsent, beq_iff_eq.mpr hkey]
      by_cases hne : lane.2 = []
      · simp [hne]
      · simp [hne, hkey, Option.filter]
    · rw [beq_false_of_ne hkey, if_neg fun h => hkey h.2]
      rfl

/-- Whoever is sent anything is listed. -/
theorem mem_listeners_of_calls {d : Delivery} {call : ClientId × List Int16} (h : call ∈ d.calls) :
    ∃ l ∈ d.listeners, l.client = call.1 := by
  obtain ⟨lane, -, hcall⟩ := List.mem_flatMap.mp h
  split_ifs at hcall
  · exact absurd hcall List.not_mem_nil
  · obtain ⟨l, hl, rfl⟩ := List.mem_map.mp hcall
    exact ⟨l, List.mem_of_mem_filter hl, rfl⟩

end RfxVoiced
