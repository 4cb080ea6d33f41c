import RfxVoiced.Control.Dispatch
import RfxVoiced.Streams.Release

/-!
# Serving an audio socket

A socket is opened with a token, which is looked up once and names the client that every later frame
acts for. A console transmits over its socket: it keys, it lets go, and it sends samples. A socket
that goes away releases what its client was being heard through, and takes the client's sink with
it.

## Main definitions

* `Streams.txKey`, `Streams.txUnkey`, `Streams.txAudio` — the three frames that are acted on
* `Streams.dropSocket` — the end of a socket
-/

namespace RfxVoiced

namespace Streams

/-- The kinds of frame that a console sends. -/
def txKeyKind : UInt8 := 16
def txUnkeyKind : UInt8 := 17
def txAudioKind : UInt8 := 18

/-- Tell several consoles of a call on one route. -/
def sendCalls (s : Streams) (consoles : List ClientId) (tg : RouteId) (keyed : Bool)
    (talker : String) : Streams :=
  consoles.foldl (fun s c => s.sendCall c tg keyed talker) s

/-- `TX_KEY`. The router decides, exactly as it does for a radio. -/
def txKey (core : Core) (tg : RouteId) (client : ClientId) (now : Instant) : Core :=
  let (outcome, r) := core.router.keyAt tg client now
  let watching := consolesOn r tg
  match outcome with
  | .ok keyed =>
    let s := match keyed with
      -- The unit that was cut off is told so, and that its own call is over.
      | .preempted was =>
        (core.streams.sendDeny was tg "preempted by dispatch").sendCall was tg false ""
      | _ => core.streams
    { core with
      router := r
      recorder := core.recorder.begin tg client.server 0 "DISPATCH" Dsp.rate
      streams := (s.sendCalls watching tg true "DISPATCH").sendCall client tg true "DISPATCH" }
  | .error e => { core with router := r, streams := core.streams.sendDeny client tg e.text }

/-- `TX_UNKEY` -/
def txUnkey (core : Core) (tg : RouteId) (client : ClientId) : Core :=
  let (done, r) := releaseKey core.router tg client
  { core with
    router := r
    streams :=
      if done.callOver then
        (core.streams.sendCalls done.watching tg false "").sendCall client tg false ""
      else core.streams
    recorder := if done.recordingOver then core.recorder.finish tg else core.recorder }

/-- The cleanest lane that has not crossed a bridge, in the speaker's own mode: of two that are
equally clean, the later. -/
def recordedLane (src : Dsp.Sink) (lanes : List (Dsp.LegKey × List Int16)) :
    Option (Dsp.LegKey × List Int16) :=
  (lanes.filter fun x => !x.1.2.2 && x.1.1 = src.mode).foldl
    (fun best x =>
      match best with
      | none => some x
      | some b => if b.1.2.1 ≤ x.1.2.1 then some x else some b) none

/-- Each listener is sent the lane that it is served from, unless the lane is silent. -/
def sendLanes (s : Streams) (tg : RouteId) (listeners : List Listener)
    (lanes : List (Dsp.LegKey × List Int16)) : Streams :=
  lanes.foldl (fun s lane =>
    if lane.2.isEmpty then s
    else
      listeners.foldl (fun s l =>
        if Dsp.keyOf l.sink = lane.1 then s.sendPcm l.client tg lane.2 else s) s) s

/-- `TX_AUDIO`. The talkgroup comes from the router, not from the frame. -/
def txAudio (vocoder : Dsp.Vocoder) (core : Core) (talker : Option vocoder.Talker)
    (client : ClientId) (samples : List UInt8) : Core × Option vocoder.Talker :=
  match core.router.destinationOf client with
  -- Samples of a client that holds nothing go nowhere.
  | none => (core, talker)
  | some (live, listeners) =>
    if listeners.isEmpty then (core, talker)
    else
      let started : Except String vocoder.Talker := match talker with
        | some t => .ok t
        | none => vocoder.new
      match started with
      | .error _ => (core, talker)
      | .ok t =>
        let src := core.router.sourceSink live client
        match vocoder.pushPcm t (leSamples samples) src (listeners.map Listener.sink) with
        | (.error _, t) => (core, some t)
        | (.ok lanes, t) =>
          let recorder := match recordedLane src lanes with
            | some (_, pcm) => if pcm.isEmpty then core.recorder else core.recorder.push live pcm
            | none => core.recorder
          ({ core with
              recorder := recorder
              streams := sendLanes core.streams live listeners lanes }, some t)

/-- The end of a socket: what its client was heard through is released, and the client's sink is
taken away. No call event is sent. -/
def dropSocket (core : Core) (client : ClientId) : Core :=
  let (released, r) := releaseOnDrop core.router client
  { core with
    router := r
    recorder := match released with
      | some (tg, true) => core.recorder.finish tg
      | _ => core.recorder
    -- The entry is that of the client, whichever of its sockets it was made for.
    streams := { core.streams with sinks := core.streams.sinks.erase client } }

end Streams

end RfxVoiced
