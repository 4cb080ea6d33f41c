import RfxVoiced.Lib.Locks
import RfxVoiced.Node.Acts
import Mathlib.Data.Fintype.Order

/-!
# The locks of the node

Each table of the node has a lock. Requests, sockets, taps and the supervisor run side by side, and
take the locks that they need. Everything takes the routing table before the streams, and the
streams before the recorder, and nothing takes a lock that it already holds.

## Main definitions

* `Lock` — the locks, in the order in which they are taken
* `Node.script` — what each event of the node does to them, and to the tables, in the order of the
  source
* `Node.program` — what it does to the locks alone
* `Node.background` — and what the other tasks do

## Main results

* `guarded_step` — a script does what its event does, and changes no table whose lock it does not
  hold
* `no_deadlock` — however the handlers interleave, no lock is held twice, and there is always one
  among those at work that can go on
-/

namespace RfxVoiced

open Locks (Op Program holding Script Covered Sound Threads Step WaitsFor Works)
open Locks.Script (under)

/-- The locks of the node, from the one that is taken first. -/
inductive Lock
  /-- The key index. -/
  | keys
  /-- The servers that the heartbeat reports. -/
  | attached
  | router
  | streams
  | recorder
  deriving DecidableEq, Repr

namespace Lock

def rank : Lock → Fin 5
  | keys => 0
  | attached => 1
  | router => 2
  | streams => 3
  | recorder => 4

theorem rank_injective : Function.Injective rank := by
  intro l l' h
  cases l <;> cases l' <;> first | rfl | cases h

instance : LinearOrder Lock := LinearOrder.lift' rank rank_injective

instance : Finite Lock := Finite.of_injective rank rank_injective

/-- What a lock guards is the same in both. The key index and the list of the heartbeat are no part
of these tables. -/
def Same : Lock → Core → Core → Prop
  | keys, _, _ => True
  | attached, _, _ => True
  | router, core, core' => core'.router = core.router
  | streams, core, core' => core'.streams = core.streams
  | recorder, core, core' => core'.recorder = core.recorder

theorem Same.refl (l : Lock) (core : Core) : Same l core core := by
  cases l <;> trivial

theorem Same.trans {l : Lock} {core core' core'' : Core} (h : Same l core core')
    (h' : Same l core' core'') : Same l core core'' := by
  cases l with
  | keys => trivial
  | attached => trivial
  | router => exact Eq.trans h' h
  | streams => exact Eq.trans h' h
  | recorder => exact Eq.trans h' h

end Lock

/-! ### What a handler does, and under which locks -/

/-- A change to the routing table. -/
def onRouter (f : Router → Router) : Locks.Act Lock Core :=
  .change fun core => { core with router := f core.router }

/-- A change to the streams. -/
def onStreams (f : Streams → Streams) : Locks.Act Lock Core :=
  .change fun core => { core with streams := f core.streams }

/-- A change to the recorder. -/
def onRecorder (f : Active → Active) : Locks.Act Lock Core :=
  .change fun core => { core with recorder := f core.recorder }

namespace Control

/-- `announce_call` takes the streams for itself. -/
def announceScript (r : Router) (tg : RouteId) (keyed : Bool) (talker : String) :
    Script Lock Core :=
  under .streams [onStreams fun s => announceCall r s tg keyed talker]

/-- `key`, with the routing table locked. -/
def keyScript (core : Core) (server : UInt32) (body : Value) (now : Instant) : Script Lock Core :=
  match body.u32Of "tg", clientOf server body with
  | some tg, some client =>
    let (answer, r) := core.router.keyAt tg client now
    onRouter (fun r => (r.keyAt tg client now).2) ::
      match answer with
      -- The call that is open there is somebody else's.
      | .ok .mixed => []
      | .ok .doubled => []
      | .ok _ =>
        announceScript r tg true (unitOf body) ++
          under .recorder
            [onRecorder fun rec => rec.begin tg server client.player (unitOf body) Dsp.rate]
      | .error _ => []
  | _, _ => []

/-- What `unkey` makes of the routing table. -/
def unkeyed (r : Router) (tg : RouteId) (client : Option ClientId) : Router :=
  match client with
  | some client => (r.unkeyAs tg client).2
  | none => r.unkey tg

/-- `unkey`, with the routing table locked. The recorder is given back before the streams are
taken. -/
def unkeyScript (core : Core) (server : UInt32) (body : Value) : Script Lock Core :=
  match body.u32Of "tg" with
  | some tg =>
    let r := unkeyed core.router tg (clientOf server body)
    onRouter (fun r => unkeyed r tg (clientOf server body)) ::
      ((if (r.talkersOn tg).isEmpty then under .recorder [onRecorder fun rec => rec.finish tg]
        else []) ++
        if r.isClear tg then announceScript r tg false "" else [])
  | none => []

/-- `session.token`, with the routing table locked. -/
def sessionTokenScript (server : UInt32) (body : Value) : Script Lock Core :=
  match clientOf server body, (body.get "token").bind Value.asStr with
  | some client, some token =>
    if token = "" then [] else under .streams [onStreams fun s => s.authorize token client]
  | _, _ => []

/-- `session.drop`, with the routing table locked. -/
def sessionDropScript (server : UInt32) (body : Value) : Script Lock Core :=
  match clientOf server body with
  | some client => under .streams [onStreams fun s => s.revokePlayer client]
  | none => []

/-- `dispatch` holds the routing table from its first line to its last. -/
def dispatchScript (core : Core) (path : String) (body : Value) (server : UInt32) (now : Instant) :
    Script Lock Core :=
  under .router <|
    match path with
    | "key" => keyScript core server body now
    | "unkey" => unkeyScript core server body
    | "session.token" => sessionTokenScript server body
    | "session.drop" => sessionDropScript server body
    | "stats" => under .streams []
    -- The others work on the routing table alone.
    | _ => [onRouter fun _ => (dispatch core path body server now).2.router]

/-- `dispatch_console` answers from the recordings before it takes the other two locks. -/
def dispatchConsoleScript (answerRecall : String → Value → Reply) (core : Core) (path : String)
    (body : Value) (minted : Option String) : Script Lock Core :=
  match path with
  | "rec.index" => under .recorder []
  | "rec.audio" => under .recorder []
  | _ =>
    -- The number of the next console is counted without a lock.
    let core' := (dispatchConsole answerRecall core path body minted).2
    under .router (under .streams
      [onRouter fun _ => core'.router, onStreams fun _ => core'.streams,
        .change fun core => { core with nextConsole := core'.nextConsole }])

end Control

namespace Streams

/-- `TX_KEY`: the router decides, and gives its lock back before the streams are taken. The
recording begins while they are held. -/
def txKeyScript (core : Core) (tg : RouteId) (client : ClientId) (now : Instant) :
    Script Lock Core :=
  let (outcome, r) := core.router.keyAt tg client now
  let watching := consolesOn r tg
  under .router [onRouter fun r => (r.keyAt tg client now).2] ++
    under .streams
      (match outcome with
        | .ok keyed =>
          (match keyed with
            -- The unit that was cut off is told so before anything is recorded.
            | .preempted was =>
              [onStreams fun s =>
                (s.sendDeny was tg "preempted by dispatch").sendCall was tg false ""]
            | _ => []) ++
            (under .recorder
              [onRecorder fun rec => rec.begin tg client.server 0 "DISPATCH" Dsp.rate] ++
              [onStreams fun s =>
                (s.sendCalls watching tg true "DISPATCH").sendCall client tg true "DISPATCH"])
        | .error e => [onStreams fun s => s.sendDeny client tg e.text])

/-- `TX_UNKEY` -/
def txUnkeyScript (core : Core) (tg : RouteId) (client : ClientId) : Script Lock Core :=
  let done := (releaseKey core.router tg client).1
  under .router [onRouter fun r => (releaseKey r tg client).2] ++
    ((if done.callOver then
        under .streams
          [onStreams fun s => (s.sendCalls done.watching tg false "").sendCall client tg false ""]
      else []) ++
      if done.recordingOver then under .recorder [onRecorder fun rec => rec.finish tg] else [])

/-- Vocoded samples are recorded and sent while the streams are held. -/
def lanesScript (live : RouteId) (listeners : List Listener) (src : Dsp.Sink)
    (lanes : List (Dsp.LegKey × List Int16)) : Script Lock Core :=
  under .streams
    ((match recordedLane src lanes with
      | some (_, pcm) =>
        if pcm.isEmpty then [] else under .recorder [onRecorder fun rec => rec.push live pcm]
      | none => []) ++
      [onStreams fun s => sendLanes s live listeners lanes])

/-- `TX_AUDIO`. Samples are vocoded while nothing is locked. -/
def txAudioScript (vocoder : Dsp.Vocoder) (core : Core) (talker : Option vocoder.Talker)
    (client : ClientId) (samples : List UInt8) : Script Lock Core :=
  under .router [] ++
    match core.router.destinationOf client with
    -- Who holds nothing, or is heard by nobody, needs no other lock.
    | none => []
    | some (live, listeners) =>
      if listeners.isEmpty then []
      else
        let started : Except String vocoder.Talker := match talker with
          | some t => .ok t
          | none => vocoder.new
        match started with
        | .error _ => []
        | .ok t =>
          let src := core.router.sourceSink live client
          match (vocoder.pushPcm t (leSamples samples) src (listeners.map Listener.sink)).1 with
          | .error _ => []
          | .ok lanes => lanesScript live listeners src lanes

/-- The end of a socket. -/
def dropSocketScript (core : Core) (client : ClientId) : Script Lock Core :=
  under .router [onRouter fun r => (releaseOnDrop r client).2] ++
    ((match (releaseOnDrop core.router client).1 with
      | some (tg, true) => under .recorder [onRecorder fun rec => rec.finish tg]
      | _ => []) ++
      under .streams [onStreams fun s => { s with sinks := s.sinks.erase client }])

end Streams

namespace Node

variable {host : Host}

/-- A frame on an open socket. -/
def frameScript (n : Node host) (s : Socket host) (buf : List UInt8) (now : Instant) :
    Script Lock Core :=
  match headerOf buf with
  | none => []
  | some (kind, tg) =>
    if kind = Streams.txKeyKind then Streams.txKeyScript n.toCore tg s.client now
    else if kind = Streams.txUnkeyKind then Streams.txUnkeyScript n.toCore tg s.client
    else if kind = Streams.txAudioKind then
      Streams.txAudioScript host.vocoder n.toCore s.talker s.client (buf.drop audioHeader)
    else []

/-- What an event does to the locks and to the tables. -/
def script (n : Node host) : Event → Script Lock Core
  -- The key is looked up, and its lock given back, before the message is handled.
  | .fleet server path body now =>
    under .keys [] ++ Control.dispatchScript n.toCore path body server now
  | .console path body minted =>
    Control.dispatchConsoleScript host.answerRecall n.toCore path body minted
  | .bind session username => under .router [onRouter fun r => (r.bind session username).2]
  | .unbind session => under .router [onRouter fun r => r.unbind session]
  | .detach server =>
    under .router [onRouter fun r => r.dropServer server] ++
      under .streams [onStreams fun s => s.dropServer server]
  | .patches groups => under .router [onRouter fun r => r.setPatches groups]
  -- The token is looked up, and the sink put in place once the socket is there.
  | .connect token =>
    match token with
    | none => []
    | some token =>
      under .streams [] ++
        match n.streams.clientFor token with
        | none => []
        | some client =>
          under .streams
            [onStreams fun s =>
              { s with
                sinks := s.sinks.insert client n.nextSender
                handed := (client, n.nextSender, .hello Dsp.rate) :: s.handed }]
  | .frame sender buf now =>
    match n.socket sender with
    | none => []
    | some s => n.frameScript s buf now
  | .close sender =>
    match n.socket sender with
    | none => []
    | some s => Streams.dropSocketScript n.toCore s.client

/-- What an event does to the locks. -/
def program (n : Node host) (e : Event) : Program Lock := (n.script e).locks

/-- What else is done to the locks: a request under a key that nobody has, a voice packet that goes
nowhere, one that is sent, one that is recorded and sent, the synchronisation of a tap, the
heartbeat, the pruning of old recordings, and the supervisor's new key index, its detaching of a
server and its attaching of one. -/
def background : List (Program Lock) :=
  [holding .keys [],
    holding .router [],
    holding .router [] ++ holding .router [] ++ holding .streams [],
    holding .router [] ++ holding .router [] ++ holding .recorder [] ++ holding .streams [],
    holding .router [],
    holding .router [] ++ holding .attached [],
    holding .recorder [],
    holding .keys [],
    holding .router [] ++ holding .streams [] ++ holding .attached [],
    holding .attached []]

/-- Everything that is ever done to the locks, in whatever state the tables are. -/
def programs (host : Host) : Set (Program Lock) :=
  {p | (∃ (n : Node host) (e : Event), n.program e = p) ∨ p ∈ background}

end Node

/-! ### In order, and with every change locked -/

section Sound

variable {held : List Lock} {p : Script Lock Core}

theorem sound_under {l : Lock} (h : Sound Lock.Same [l] p) : Sound Lock.Same [] (under l p) :=
  .under (fun _ h => absurd h List.not_mem_nil) h

theorem sound_onRouter {f : Router → Router} (hlocked : Lock.router ∈ held)
    (h : Sound Lock.Same held p) : Sound Lock.Same held (onRouter f :: p) := by
  apply h.change_of_mem hlocked
  intro l hl core
  cases l <;> first | exact absurd rfl hl | trivial

theorem sound_onStreams {f : Streams → Streams} (hlocked : Lock.streams ∈ held)
    (h : Sound Lock.Same held p) : Sound Lock.Same held (onStreams f :: p) := by
  apply h.change_of_mem hlocked
  intro l hl core
  cases l <;> first | exact absurd rfl hl | trivial

theorem sound_onRecorder {f : Active → Active} (hlocked : Lock.recorder ∈ held)
    (h : Sound Lock.Same held p) : Sound Lock.Same held (onRecorder f :: p) := by
  apply h.change_of_mem hlocked
  intro l hl core
  cases l <;> first | exact absurd rfl hl | trivial

/-- The streams are taken by one who holds no more than the routing table. -/
theorem sound_streams (hheld : ∀ l ∈ held, l = .router) (f : Streams → Streams) :
    Sound Lock.Same held (under .streams [onStreams f]) := by
  apply Sound.under
  · intro l hl
    rw [hheld l hl]
    decide
  · exact sound_onStreams List.mem_cons_self .nil

/-- The recorder is taken by one who holds any of the tables before it. -/
theorem sound_recorder (hheld : Lock.recorder ∉ held) (f : Active → Active) :
    Sound Lock.Same held (under .recorder [onRecorder f]) := by
  apply Sound.under
  · intro l hl
    cases l with
    | recorder => exact absurd hl hheld
    | keys => decide
    | attached => decide
    | router => decide
    | streams => decide
  · exact sound_onRecorder List.mem_cons_self .nil

end Sound

section Dispatch

variable (core : Core) (body : Value) (server : UInt32) (now : Instant)

theorem sound_announceScript {held : List Lock} (hheld : ∀ l ∈ held, l = .router) (r : Router)
    (tg : RouteId) (keyed : Bool) (talker : String) :
    Sound Lock.Same held (Control.announceScript r tg keyed talker) :=
  sound_streams hheld _

theorem only_router : ∀ l ∈ [Lock.router], l = .router := fun _ h => List.mem_singleton.mp h

theorem sound_keyScript : Sound Lock.Same [.router] (Control.keyScript core server body now) := by
  unfold Control.keyScript
  split
  · apply sound_onRouter List.mem_cons_self
    split
    · exact .nil
    · exact .nil
    · exact (sound_announceScript only_router _ _ _ _).append (sound_recorder (by decide) _)
    · exact .nil
  · exact .nil

theorem sound_unkeyScript : Sound Lock.Same [.router] (Control.unkeyScript core server body) := by
  unfold Control.unkeyScript
  split
  · apply sound_onRouter List.mem_cons_self
    apply Sound.append
    · exact .ite (sound_recorder (by decide) _) .nil
    · exact .ite (sound_announceScript only_router _ _ _ _) .nil
  · exact .nil

theorem sound_dispatchScript (path : String) :
    Sound Lock.Same [] (Control.dispatchScript core path body server now) := by
  apply sound_under
  split
  · exact sound_keyScript core body server now
  · exact sound_unkeyScript core body server
  · unfold Control.sessionTokenScript
    split
    · exact .ite .nil (sound_streams only_router _)
    · exact .nil
  · unfold Control.sessionDropScript
    split
    · exact sound_streams only_router _
    · exact .nil
  · exact .under (by decide) .nil
  · exact sound_onRouter List.mem_cons_self .nil

theorem sound_dispatchConsoleScript (answerRecall : String → Value → Reply) (path : String)
    (minted : Option String) :
    Sound Lock.Same [] (Control.dispatchConsoleScript answerRecall core path body minted) := by
  unfold Control.dispatchConsoleScript
  split
  · exact sound_under .nil
  · exact sound_under .nil
  · apply sound_under
    apply Sound.under (by decide)
    apply sound_onRouter (by decide)
    apply sound_onStreams (by decide)
    -- No lock guards the counter.
    apply Sound.nil.change
    intro l _ core
    cases l <;> trivial

end Dispatch

section Frames

variable (core : Core) (tg : RouteId) (client : ClientId)

theorem sound_txKeyScript (now : Instant) :
    Sound Lock.Same [] (Streams.txKeyScript core tg client now) := by
  unfold Streams.txKeyScript
  apply (sound_under (sound_onRouter List.mem_cons_self .nil)).append
  apply sound_under
  split
  · apply Sound.append
    · split
      · exact sound_onStreams List.mem_cons_self .nil
      · exact .nil
    · exact (sound_recorder (by decide) _).append (sound_onStreams List.mem_cons_self .nil)
  · exact sound_onStreams List.mem_cons_self .nil

theorem sound_txUnkeyScript : Sound Lock.Same [] (Streams.txUnkeyScript core tg client) := by
  apply (sound_under (sound_onRouter List.mem_cons_self .nil)).append
  apply Sound.append
  · exact .ite (sound_streams (fun _ h => absurd h List.not_mem_nil) _) .nil
  · exact .ite (sound_recorder (by decide) _) .nil

theorem sound_lanesScript (live : RouteId) (listeners : List Listener) (src : Dsp.Sink)
    (lanes : List (Dsp.LegKey × List Int16)) :
    Sound Lock.Same [] (Streams.lanesScript live listeners src lanes) := by
  apply sound_under
  apply Sound.append
  · split
    · exact .ite .nil (sound_recorder (by decide) _)
    · exact .nil
  · exact sound_onStreams List.mem_cons_self .nil

theorem sound_txAudioScript (vocoder : Dsp.Vocoder) (talker : Option vocoder.Talker)
    (samples : List UInt8) :
    Sound Lock.Same [] (Streams.txAudioScript vocoder core talker client samples) := by
  apply (sound_under .nil).append
  split
  · exact .nil
  · apply Sound.ite .nil
    dsimp only
    split
    · exact .nil
    · split
      · exact .nil
      · exact sound_lanesScript _ _ _ _

theorem sound_dropSocketScript : Sound Lock.Same [] (Streams.dropSocketScript core client) := by
  apply (sound_under (sound_onRouter List.mem_cons_self .nil)).append
  apply Sound.append
  · split
    · exact sound_recorder (by decide) _
    · exact .nil
  · exact sound_streams (fun _ h => absurd h List.not_mem_nil) _

end Frames

namespace Node

variable {host : Host}

theorem sound_frameScript (n : Node host) (s : Socket host) (buf : List UInt8) (now : Instant) :
    Sound Lock.Same [] (n.frameScript s buf now) := by
  unfold frameScript
  split
  · exact .nil
  · apply Sound.ite (sound_txKeyScript _ _ _ _)
    apply Sound.ite (sound_txUnkeyScript _ _ _)
    exact .ite (sound_txAudioScript _ _ _ _ _) .nil

/-- Every handler takes its locks in order, and changes nothing that it has not locked. -/
theorem sound_script (n : Node host) (e : Event) : Sound Lock.Same [] (n.script e) := by
  have hrouter : ∀ f, Sound Lock.Same [] (under .router [onRouter f]) :=
    fun f => sound_under (sound_onRouter List.mem_cons_self .nil)
  have hstreams : ∀ f, Sound Lock.Same [] (under .streams [onStreams f]) :=
    fun f => sound_streams (fun _ h => absurd h List.not_mem_nil) f
  cases e with
  | fleet server path body now =>
    exact (sound_under .nil).append (sound_dispatchScript _ _ _ _ _)
  | console path body minted => exact sound_dispatchConsoleScript _ _ _ _ _
  | bind session username => exact hrouter _
  | unbind session => exact hrouter _
  | detach server => exact (hrouter _).append (hstreams _)
  | patches groups => exact hrouter _
  | connect token =>
    cases token with
    | none => exact .nil
    | some token =>
      apply (sound_under .nil).append
      split
      · exact .nil
      · exact hstreams _
  | frame sender buf now =>
    simp only [script]
    split
    · exact .nil
    · exact sound_frameScript n _ buf now
  | close sender =>
    simp only [script]
    split
    · exact .nil
    · exact sound_dropSocketScript _ _

theorem ordered_programs {p : Program Lock} (h : p ∈ programs host) : Locks.Ordered [] p := by
  rcases h with ⟨n, e, rfl⟩ | h
  · exact (sound_script n e).ordered
  · simp only [background, List.mem_cons, List.not_mem_nil, or_false] at h
    rcases h with rfl | rfl | rfl | rfl | rfl | rfl | rfl | rfl | rfl | rfl <;>
      simp [holding, Locks.Ordered]

end Node

/-! ### What a script does is what its event does -/

section Exec

variable (core : Core) (body : Value) (server : UInt32) (now : Instant)

@[simp] theorem exec_onRouter (f : Router → Router) (p : Script Lock Core) :
    Script.exec (onRouter f :: p) core = p.exec { core with router := f core.router } := rfl

@[simp] theorem exec_onStreams (f : Streams → Streams) (p : Script Lock Core) :
    Script.exec (onStreams f :: p) core = p.exec { core with streams := f core.streams } := rfl

@[simp] theorem exec_onRecorder (f : Active → Active) (p : Script Lock Core) :
    Script.exec (onRecorder f :: p) core = p.exec { core with recorder := f core.recorder } := rfl

theorem exec_keyScript :
    (Control.keyScript core server body now).exec core = (Control.key core server body now).2 := by
  unfold Control.keyScript Control.key
  cases body.u32Of "tg" with
  | none => rfl
  | some tg =>
    cases Control.clientOf server body with
    | none => rfl
    | some client =>
      dsimp only
      cases hkey : core.router.keyAt tg client now with
      | mk answer r =>
        -- Under the same lock the same question gets the same answer.
        rw [exec_onRouter, hkey]
        cases answer with
        | error e => rfl
        | ok keyed => cases keyed <;> rfl

theorem exec_unkeyScript :
    (Control.unkeyScript core server body).exec core = (Control.unkey core server body).2 := by
  unfold Control.unkeyScript Control.unkey
  cases body.u32Of "tg" with
  | none => rfl
  | some tg =>
    -- A release does the same to the recorder and the streams whoever it is for.
    have hrest : ∀ r : Router,
        Script.exec
            ((if (r.talkersOn tg).isEmpty then under .recorder [onRecorder fun rec => rec.finish tg]
              else []) ++ if r.isClear tg then Control.announceScript r tg false "" else [])
            { core with router := r } =
          { core with
            router := r
            recorder := if (r.talkersOn tg).isEmpty then core.recorder.finish tg else core.recorder
            streams := if r.isClear tg then Control.announceCall r core.streams tg false ""
              else core.streams } := by
      intro r
      by_cases hquiet : (r.talkersOn tg).isEmpty <;> by_cases hclear : r.isClear tg <;>
        simp [Control.announceScript, hquiet, hclear]
    cases Control.clientOf server body with
    | none => exact hrest _
    | some client => exact hrest _

theorem exec_sessionTokenScript :
    (Control.sessionTokenScript server body).exec core =
      (Control.sessionToken core server body).2 := by
  unfold Control.sessionTokenScript Control.sessionToken
  cases Control.clientOf server body with
  | none => rfl
  | some client =>
    cases (body.get "token").bind Value.asStr with
    | none => rfl
    | some token =>
      by_cases hempty : token = "" <;> simp [hempty]

theorem exec_sessionDropScript :
    (Control.sessionDropScript server body).exec core =
      (Control.sessionDrop core server body).2 := by
  unfold Control.sessionDropScript Control.sessionDrop
  cases Control.clientOf server body with
  | none => rfl
  | some client => rfl

/-- What the other messages leave alone. -/
theorem dispatch_others {path : String} (hkey : path ≠ "key") (hunkey : path ≠ "unkey")
    (htoken : path ≠ "session.token") (hdrop : path ≠ "session.drop") :
    (Control.dispatch core path body server now).2 =
      { core with router := (Control.dispatch core path body server now).2.router } := by
  unfold Control.dispatch
  split
  · unfold Control.convOpen
    split <;> rfl
  · unfold Control.tgOpen
    split <;> rfl
  · unfold Control.tgClose
    split <;> rfl
  · unfold Control.tgMembers
    split <;> rfl
  · unfold Control.tgMember
    split <;> rfl
  · exact absurd rfl hkey
  · exact absurd rfl hunkey
  · exact absurd rfl htoken
  · exact absurd rfl hdrop
  · rfl
  · rfl

theorem exec_dispatchScript (path : String) :
    (Control.dispatchScript core path body server now).exec core =
      (Control.dispatch core path body server now).2 := by
  unfold Control.dispatchScript
  rw [Script.exec_under]
  generalize hd : Control.dispatch core path body server now = d
  split
  · rw [← hd]
    exact exec_keyScript core body server now
  · rw [← hd]
    exact exec_unkeyScript core body server
  · rw [← hd]
    exact exec_sessionTokenScript core body server
  · rw [← hd]
    exact exec_sessionDropScript core body server
  · rw [← hd]
    rfl
  · next hkey hunkey htoken hdrop hstats =>
    rw [← hd]
    exact (dispatch_others core body server now hkey hunkey htoken hdrop).symm

theorem exec_dispatchConsoleScript (answerRecall : String → Value → Reply) (path : String)
    (minted : Option String) :
    (Control.dispatchConsoleScript answerRecall core path body minted).exec core =
      (Control.dispatchConsole answerRecall core path body minted).2 := by
  have hrecorder := Node.dispatchConsole_recorder answerRecall core path body minted
  unfold Control.dispatchConsoleScript
  split
  · rfl
  · rfl
  · -- The script leaves the recorder alone, and so does every message but the two above.
    simp only [Script.exec_under, exec_onRouter, exec_onStreams, Script.exec_change,
      Script.exec_nil, ← hrecorder]

end Exec

section ExecFrames

variable (core : Core) (tg : RouteId) (client : ClientId)

theorem exec_txKeyScript (now : Instant) :
    (Streams.txKeyScript core tg client now).exec core = Streams.txKey core tg client now := by
  unfold Streams.txKeyScript Streams.txKey
  cases hkey : core.router.keyAt tg client now with
  | mk answer r =>
    simp only [Script.exec_append, Script.exec_under, exec_onRouter, Script.exec_nil, hkey]
    -- What the router answers decides the rest.
    cases answer with
    | error e => rfl
    | ok keyed => cases keyed <;> rfl

theorem exec_txUnkeyScript :
    (Streams.txUnkeyScript core tg client).exec core = Streams.txUnkey core tg client := by
  unfold Streams.txUnkeyScript Streams.txUnkey
  rcases hdone : Streams.releaseKey core.router tg client with ⟨⟨_ | _, _ | _, watching⟩, r⟩ <;>
    simp [hdone]

theorem exec_lanesScript (live : RouteId) (listeners : List Listener) (src : Dsp.Sink)
    (lanes : List (Dsp.LegKey × List Int16)) :
    (Streams.lanesScript live listeners src lanes).exec core =
      { core with
        recorder := match Streams.recordedLane src lanes with
          | some (_, pcm) => if pcm.isEmpty then core.recorder else core.recorder.push live pcm
          | none => core.recorder
        streams := Streams.sendLanes core.streams live listeners lanes } := by
  rw [Streams.lanesScript, Script.exec_under]
  rcases Streams.recordedLane src lanes with _ | ⟨key, pcm⟩
  · rfl
  · by_cases hsilent : pcm.isEmpty <;> simp [hsilent]

theorem exec_txAudioScript (vocoder : Dsp.Vocoder) (talker : Option vocoder.Talker)
    (samples : List UInt8) :
    (Streams.txAudioScript vocoder core talker client samples).exec core =
      (Streams.txAudio vocoder core talker client samples).1 := by
  unfold Streams.txAudioScript Streams.txAudio
  rw [Script.exec_append, Script.exec_under, Script.exec_nil]
  rcases core.router.destinationOf client with _ | ⟨live, listeners⟩
  · rfl
  · dsimp only
    by_cases hnobody : listeners.isEmpty
    · rw [if_pos hnobody, if_pos hnobody]
      rfl
    · rw [if_neg hnobody, if_neg hnobody]
      cases talker with
      | some t =>
        dsimp only
        rcases vocoder.pushPcm t _ _ _ with ⟨e | lanes, t'⟩
        · rfl
        · exact exec_lanesScript core live listeners _ lanes
      | none =>
        dsimp only
        cases vocoder.new with
        | error e => rfl
        | ok t =>
          dsimp only
          rcases vocoder.pushPcm t _ _ _ with ⟨e | lanes, t'⟩
          · rfl
          · exact exec_lanesScript core live listeners _ lanes

theorem exec_dropSocketScript :
    (Streams.dropSocketScript core client).exec core = Streams.dropSocket core client := by
  unfold Streams.dropSocketScript Streams.dropSocket
  rcases hdone : Streams.releaseOnDrop core.router client with ⟨_ | ⟨tg, _ | _⟩, r⟩ <;>
    simp [hdone]

end ExecFrames

namespace Node

variable {host : Host}

theorem exec_frameScript (n : Node host) (s : Socket host) (buf : List UInt8) (now : Instant) :
    (n.frameScript s buf now).exec n.toCore = (n.frame s buf now).toCore := by
  unfold frameScript frame
  rcases headerOf buf with _ | ⟨kind, tg⟩
  · rfl
  · dsimp only
    by_cases hkey : kind = Streams.txKeyKind
    · rw [if_pos hkey, if_pos hkey]
      exact exec_txKeyScript n.toCore tg s.client now
    · rw [if_neg hkey, if_neg hkey]
      by_cases hunkey : kind = Streams.txUnkeyKind
      · rw [if_pos hunkey, if_pos hunkey]
        exact exec_txUnkeyScript n.toCore tg s.client
      · rw [if_neg hunkey, if_neg hunkey]
        by_cases haudio : kind = Streams.txAudioKind
        · rw [if_pos haudio, if_pos haudio]
          exact exec_txAudioScript n.toCore s.client host.vocoder s.talker _
        · rw [if_neg haudio, if_neg haudio]
          rfl

theorem exec_script (n : Node host) (e : Event) :
    (n.script e).exec n.toCore = (n.step e).toCore := by
  cases e with
  | fleet server path body now => exact exec_dispatchScript n.toCore body server now path
  | console path body minted => exact exec_dispatchConsoleScript n.toCore body _ path minted
  | bind session username => rfl
  | unbind session => rfl
  | detach server => rfl
  | patches groups => rfl
  | connect token =>
    cases token with
    | none => rfl
    | some token =>
      simp only [script, step, connect, Option.bind_some]
      cases n.streams.clientFor token with
      | none => rfl
      | some client => rfl
  | frame sender buf now =>
    simp only [step, script]
    cases n.socket sender with
    | none => rfl
    | some s => exact exec_frameScript n s buf now
  | close sender =>
    simp only [step, script]
    cases n.socket sender with
    | none => rfl
    | some s => exact exec_dropSocketScript n.toCore s.client

/-- **No event changes a table without its lock.** The script of an event, when nothing comes in
between, does what the event does. Each of its changes is made under the locks of all the tables
that it changes, and a table that it never locks is left as it was. -/
theorem guarded_step (n : Node host) (e : Event) :
    (n.script e).exec n.toCore = (n.step e).toCore ∧
      Covered Lock.Same [] (n.script e) ∧
      ∀ l, Op.take l ∈ n.program e ∨ Lock.Same l n.toCore (n.step e).toCore := by
  have hcovered := (sound_script n e).coveredAlone
  refine ⟨exec_script n e, hcovered, fun l => ?_⟩
  by_cases htaken : Op.take l ∈ n.program e
  · exact Or.inl htaken
  · right
    rw [← exec_script n e]
    apply hcovered.same_exec Lock.Same.refl (fun _ _ _ _ h h' => h.trans h')
    · exact List.not_mem_nil
    · exact htaken

/-! ### Any interleaving -/

/-- **No deadlock.** Let any number of threads run the handlers of the node, one after the other
and in any interleaving. No lock is ever held by two of them. Of those that a thread at work waits
for, and those that these wait for, there is always one that can go on; and if there are finitely
many, all of them can finish what they are doing. -/
theorem no_deadlock (host : Host) {ι : Type*} [DecidableEq ι] {s : Threads ι Lock}
    (h : Relation.ReflTransGen (Step (programs host)) Locks.idle s) :
    (∀ i j l, l ∈ (s i).held → l ∈ (s j).held → i = j) ∧
      (∀ i, (s i).rest ≠ [] →
        ∃ j, Relation.ReflTransGen (WaitsFor s) i j ∧ ∃ s', Works j s s') ∧
      (Finite ι → ∃ s', Relation.ReflTransGen (fun a b => ∃ i, Works i a b) s s' ∧
        ∀ i, (s' i).rest = []) := by
  have hdisciplined : Locks.Disciplined s :=
    Locks.disciplined_of_reach (fun p hp => ordered_programs hp) h
  refine ⟨hdisciplined.exclusive, fun i hi => Locks.exists_works hdisciplined hi, fun hfinite => ?_⟩
  exact Locks.exists_idle hdisciplined

/-- The first of two threads begins to set the patch table. -/
def oneBegins : Threads (Fin 2) Lock :=
  Function.update Locks.idle 0 ⟨[], holding .router []⟩

/-- It has taken the routing table. -/
def oneHolds : Threads (Fin 2) Lock :=
  Function.update oneBegins 0 ⟨[.router], [.give .router]⟩

/-- The second one wants it too. -/
def contended : Threads (Fin 2) Lock :=
  Function.update oneHolds 1 ⟨[], holding .router []⟩

theorem reach_contended :
    Relation.ReflTransGen (Step (programs quietHost)) Locks.idle contended := by
  have hprogram : holding .router [] ∈ programs quietHost :=
    Or.inl ⟨initial quietHost true, .patches [], rfl⟩
  have hbegins : Step (programs quietHost) Locks.idle oneBegins := .begins 0 rfl hprogram
  have htakes : Works 0 oneBegins oneHolds := .take rfl (by decide)
  have hwants : Step (programs quietHost) oneHolds contended := .begins 1 rfl hprogram
  exact ((Relation.ReflTransGen.single hbegins).tail (.works 0 htakes)).tail hwants

/-- The second thread waits for the first one, which can go on. -/
theorem no_deadlock_contended :
    WaitsFor contended 1 0 ∧
      ∃ j, Relation.ReflTransGen (WaitsFor contended) 1 j ∧ ∃ s', Works j contended s' :=
  ⟨⟨.router, _, rfl, by decide⟩,
    (no_deadlock quietHost reach_contended).2.1 1 (by decide)⟩

end Node

end RfxVoiced
