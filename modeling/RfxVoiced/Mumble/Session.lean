import RfxVoiced.Lib.Run
import RfxVoiced.Mumble.Framing
import RfxVoiced.Mumble.Tap
import Mathlib.Data.Finset.Basic
import Mathlib.Data.Finset.Dedup

/-!
# A connection of a tap

Besides voice, a Mumble server tells a tap which session is its own, who comes and goes, and which
channels there are. The tap binds sessions to players, listens to every channel, and reports who is
transmitting: a gap in the packets of a session is the end of its transmission, because nothing
else marks it.

The messages are protocol buffers. The codec is generated from the definition of the protocol, and
is a parameter here.

## Main definitions

* `Proto`, `Proto.read` — the generated codec, and what a message says
* `Session`, `Session.take` — the tables of a connection, and what it does with a message
* `Session.sweep` — the gap detector
* `Session.step` — a connection as a machine

## Main results

* `took_of_take`, `turn_cases` — a turn that the connection survives
* `connection_induction` — what holds of every connection that has not ended
-/

namespace RfxVoiced.Mumble

open Dsp (Signal)

/-! ### What messages say -/

namespace Msg

def version : UInt16 := 0
def udpTunnel : UInt16 := 1
def authenticate : UInt16 := 2
def ping : UInt16 := 3
def reject : UInt16 := 4
def serverSync : UInt16 := 5
def channelState : UInt16 := 7
def userRemove : UInt16 := 8
def userState : UInt16 := 9
def permissionDenied : UInt16 := 12

end Msg

/-- What the generated codec reads of the messages that a tap decodes, or why it cannot. -/
structure Proto where
  /-- The session that is the tap's own. -/
  serverSync : List UInt8 → Except String (Option UInt32)
  /-- A session, and its username. -/
  userState : List UInt8 → Except String (Option UInt32 × Option (List Char))
  /-- The session that is gone. -/
  userRemove : List UInt8 → Except String UInt32
  /-- A channel, and its name. -/
  channelState : List UInt8 → Except String (Option UInt32 × Option (List Char))
  /-- The kind of refusal, and the reason. -/
  reject : List UInt8 → Except String (String × Option String)
  permissionDenied : List UInt8 → Except String (String × Option String)

/-- What a message says. -/
inductive Said
  | voice (body : List UInt8)
  | sync (session : Option UInt32)
  | user (session : Option UInt32) (name : Option (List Char))
  | remove (session : UInt32)
  | channel (id : Option UInt32) (name : Option (List Char))
  /-- Messages that are passed over, or only printed. -/
  | other
  deriving DecidableEq, Repr

/-- A message that says too little to act on, or nothing that matters. -/
def Said.idle : Said → Bool
  | .user session name => !(session.isSome && name.isSome)
  | .channel id name => !(id.isSome && name.isSome)
  | .other => true
  | _ => false

/-- What a message says, or why the connection ends with it. -/
def Proto.read (p : Proto) (m : Message) : Except String Said :=
  let (kind, body) := m
  if kind = Msg.udpTunnel then .ok (.voice body)
  else if kind = Msg.serverSync then (p.serverSync body).map .sync
  else if kind = Msg.userState then (p.userState body).map fun x => .user x.1 x.2
  else if kind = Msg.userRemove then (p.userRemove body).map .remove
  else if kind = Msg.channelState then (p.channelState body).map fun x => .channel x.1 x.2
  else if kind = Msg.reject then
    (p.reject body).bind fun x => .error ("rejected: " ++ x.1 ++ " - " ++ x.2.getD "")
  else if kind = Msg.permissionDenied then (p.permissionDenied body).map fun _ => .other
  else .ok .other

/-- What the loop of a connection waits for. -/
inductive Turn
  | sweep
  | message (m : Message)
  deriving DecidableEq, Repr

/-- What a turn says, if it is a message that can be read. -/
def Turn.said (p : Proto) : Turn → Option Said
  | .sweep => none
  | .message m => (p.read m).toOption

/-! ### Talkspurts -/

/-- Nothing has been heard for longer than this when a transmission is over. Frames come every 40 ms
or so, and the clients do not mark the last one. -/
def silenceMs : ℕ := 150

/-- The packets of a session, in its latest transmission. -/
structure Talk where
  packets : ℕ
  bytes : ℕ
  active : Bool
  started : Instant
  last : Instant
  /-- The route that it was heard on when it began, if it was heard on one. -/
  routedTo : Option RouteId
  deriving DecidableEq, Repr

/-- A duration, as it is compared and printed. -/
def asMillis (duration : ℕ) : ℕ := duration / 1000000

namespace Talk

/-- A session that is heard for the first time. -/
def first (now : Instant) : Talk where
  packets := 0
  bytes := 0
  active := false
  started := now
  last := now
  routedTo := none

/-- A transmission begins. -/
def begun (t : Talk) (now : Instant) (routedTo : Option RouteId) : Talk :=
  { t with
    active := true
    started := now
    packets := 0
    bytes := 0
    routedTo := routedTo }

def packet (t : Talk) (payloadLen : ℕ) (now : Instant) : Talk :=
  { t with
    packets := t.packets + 1
    bytes := t.bytes + payloadLen
    last := now }

/-- The transmission is over, and has not been taken for over yet. -/
def lapsed (t : Talk) (now : Instant) : Bool :=
  t.active && decide (silenceMs < asMillis (now - t.last))

end Talk

/-- What is printed of transmissions. -/
inductive Line
  | txStart (session : UInt32) (who : List Char) (routed : Option (RouteId × ℕ))
      (codec target : UInt8)
  | txEnd (session : UInt32) (who : List Char) (packets ms : ℕ)
      (routed : Option RouteId)
  deriving DecidableEq, Repr

/-! ### The tables of a connection -/

/-- A connection of a tap, as far as its loop keeps account of it. -/
structure Session (S : Signal) extends Tap S where
  /-- The usernames of the sessions. -/
  users : Table UInt32 (List Char)
  heard : Table UInt32 Talk
  knownChannels : List UInt32
  listening : Finset UInt32
  /-- What the tap has asked the server for, the oldest first: that a session, which is its own,
  listen to some channels. -/
  asks : List (UInt32 × List UInt32)
  /-- What has been printed of transmissions, the oldest first. -/
  lines : List Line

namespace Session

variable {S : Signal}

/-- A connection that has just been made. -/
def new (S : Signal) : Session S where
  toTap := Tap.new S
  users := ∅
  heard := ∅
  knownChannels := []
  listening := ∅
  asks := []
  lines := []

/-- The username of a session, as it is printed. -/
def who (s : Session S) (session : UInt32) : List Char := (s.users.lookup session).getD ['?']

/-- Count a voice packet. The first one of a transmission says where it is heard. -/
def count (s : Session S) (v : VoicePacket)
    (dest : Option (RouteId × Dsp.Sink × List Listener)) (now : Instant) : Session S :=
  let t := (s.heard.lookup v.session).getD (Talk.first now)
  let begun := if t.active then t else t.begun now (dest.map fun d => d.1)
  { s with
    heard := s.heard.insert v.session (begun.packet v.payloadLen now)
    lines := s.lines ++
      if t.active then []
      else
        [.txStart v.session (s.who v.session) (dest.map fun d => (d.1, d.2.2.length))
          v.codec v.target] }

/-- The tables once a voice packet has been counted. The tap does not hear itself. -/
def counted (s : Session S) (server : UInt32) (r : Router) (body : List UInt8) (now : Instant) :
    Session S :=
  match parseVoice body with
  | none => s
  | some v =>
    if some v.session = s.me then s else s.count v (r.destination ⟨server, v.session⟩) now

/-- A voice packet is counted, and goes out if somebody is to hear it. -/
def hear (s : Session S) (server : UInt32) (r : Router) (body : List UInt8) (now : Instant)
    (fresh : ℕ) : Option Delivery × Session S :=
  let (d, tap) := s.toTap.voice server r body now fresh
  (d, { s.counted server r body now with toTap := tap })

/-- Every 50 ms: which transmissions are over. -/
def sweep (s : Session S) (now : Instant) : Session S :=
  { s with
    heard := s.heard.mapVal fun _ t => if t.lapsed now then { t with active := false } else t
    lines := s.lines ++ s.heard.entries.filterMap fun e =>
      if e.2.lapsed now then
        some (.txEnd e.1 (s.who e.1) e.2.packets (asMillis (now - e.2.started)) e.2.routedTo)
      else none }

/-- Ask for channels to be listened to, unless the writer is gone. -/
def ask (s : Session S) (writing : Bool) (session : UInt32) (channels : List UInt32) :
    Except String (Session S) :=
  if writing then
    .ok
      { s with
        listening := s.listening ∪ channels.toFinset
        asks := s.asks ++ [(session, channels)] }
  else .error "channel closed"

/-- The channels that are known and that the tap does not listen to. -/
def pending (s : Session S) : List UInt32 := s.knownChannels.filter fun c => c ∉ s.listening

/-- The channels are announced before the tap is told its own session, as a rule. -/
def sync (s : Session S) (writing : Bool) (me : Option UInt32) : Except String (Session S) :=
  let s := { s with me := me }
  match me with
  | none => .ok s
  | some session => if s.pending = [] then .ok s else s.ask writing session s.pending

/-- A channel is listened to, not joined: a client is in one channel, and may listen to many. -/
def channel (s : Session S) (writing : Bool) (id : UInt32) : Except String (Session S) :=
  let s :=
    if id ∈ s.knownChannels then s else { s with knownChannels := s.knownChannels ++ [id] }
  match s.me with
  | none => .ok s
  | some session => if id ∈ s.listening then .ok s else s.ask writing session [id]

/-- What is left of the tables when a session has gone. -/
def remove (s : Session S) (session : UInt32) : Session S :=
  { s with
    users := s.users.erase session
    heard := s.heard.erase session
    talkers := s.talkers.erase session }

/-! ### Messages -/

/-- What a message finds: the routing table, the time, the number that a new mixer would be given,
and whether the writer still takes messages. -/
structure Moment where
  router : Router
  now : Instant
  fresh : ℕ
  writing : Bool

/-- What a turn leaves: the tables, the routing table, the number that the next mixer would be
given, and the packet that went out. -/
structure Left (S : Signal) where
  session : Session S
  router : Router
  fresh : ℕ
  delivery : Option Delivery

/-- The tables, and nothing else that has changed. -/
def Moment.leaves (found : Moment) (s : Session S) : Left S := ⟨s, found.router, found.fresh, none⟩

/-- What becomes of a message. -/
def take (s : Session S) (server : UInt32) (found : Moment) : Said → Except String (Left S)
  | .voice body =>
    let (d, s) := s.hear server found.router body found.now found.fresh
    .ok ⟨s, found.router, found.fresh + 1, d⟩
  | .sync session => (s.sync found.writing session).map found.leaves
  | .user (some session) (some name) =>
    .ok
      { found.leaves { s with users := s.users.insert session name } with
        router := (found.router.bind ⟨server, session⟩ name).2 }
  | .user _ _ => .ok (found.leaves s)
  | .remove session =>
    .ok
      { found.leaves (s.remove session) with
        router := found.router.unbind ⟨server, session⟩ }
  | .channel (some id) (some _) => (s.channel found.writing id).map found.leaves
  | .channel _ _ => .ok (found.leaves s)
  | .other => .ok (found.leaves s)

/-! ### The loop -/

/-- One turn of the loop, or why the connection ends with it. -/
def turn (p : Proto) (server : UInt32) (s : Session S) (found : Moment) :
    Turn → Except String (Left S)
  | .sweep => .ok (found.leaves (s.sweep found.now))
  | .message m => (p.read m).bind (s.take server found)

/-- One turn, with whatever it finds. A connection that has ended stays as it is. -/
def step (p : Proto) (server : UInt32) (c : Except String (Session S)) (e : Moment × Turn) :
    Except String (Session S) :=
  c.bind fun s => (s.turn p server e.1 e.2).map Left.session

/-! ### What a turn did -/

theorem bind_eq_ok_iff {ε α β : Type*} {x : Except ε α} {f : α → Except ε β} {b : β} :
    x.bind f = .ok b ↔ ∃ a, x = .ok a ∧ f a = .ok b := by
  cases x with
  | error e => simp [Except.bind]
  | ok a => simp [Except.bind]

theorem map_eq_ok_iff {ε α β : Type*} {x : Except ε α} {f : α → β} {b : β} :
    x.map f = .ok b ↔ ∃ a, x = .ok a ∧ f a = b := by
  cases x with
  | error e => simp [Except.map]
  | ok a => simp [Except.map]

variable {p : Proto} {server : UInt32} {s s' : Session S} {found : Moment} {left : Left S}

/-- What is made and kept for the sake of audio does not change who the tap is. -/
theorem me_voice (tap : Tap S) (server : UInt32) (r : Router) (body : List UInt8) (now : Instant)
    (fresh : ℕ) :
    (tap.voice server r body now fresh).2.me = tap.me := by
  unfold Tap.voice
  repeat' split
  all_goals rfl

theorem ask_frame {session : UInt32} {channels : List UInt32} {writing : Bool}
    (h : s.ask writing session channels = .ok s') :
    ∃ listening asks, s' = { s with listening := listening, asks := asks } := by
  unfold ask at h
  split_ifs at h
  exact ⟨_, _, (Except.ok.inj h).symm⟩

theorem sync_frame {me : Option UInt32} {writing : Bool} (h : s.sync writing me = .ok s') :
    ∃ listening asks, s' = { s with me := me, listening := listening, asks := asks } := by
  cases me with
  | none => exact ⟨_, _, (Except.ok.inj h).symm⟩
  | some session =>
    simp only [sync] at h
    split_ifs at h
    · exact ⟨_, _, (Except.ok.inj h).symm⟩
    · exact ask_frame h

theorem channel_frame {id : UInt32} {writing : Bool} (h : s.channel writing id = .ok s') :
    ∃ known listening asks,
      s' = { s with knownChannels := known, listening := listening, asks := asks } := by
  unfold channel at h
  generalize hk : (if id ∈ s.knownChannels then s
    else { s with knownChannels := s.knownChannels ++ [id] }) = k at h
  have hknown : ∃ known, k = { s with knownChannels := known } := by
    rw [← hk]
    split_ifs
    · exact ⟨_, rfl⟩
    · exact ⟨_, rfl⟩
  obtain ⟨known, rfl⟩ := hknown
  cases hme : s.me with
  | none =>
    simp only [hme] at h
    exact ⟨_, _, _, (Except.ok.inj h).symm⟩
  | some session =>
    simp only [hme] at h
    split_ifs at h
    · exact ⟨_, _, _, (Except.ok.inj h).symm⟩
    · obtain ⟨listening, asks, rfl⟩ := ask_frame h
      exact ⟨_, _, _, rfl⟩

theorem counted_frame (s : Session S) (server : UInt32) (r : Router) (body : List UInt8)
    (now : Instant) :
    ∃ heard lines, s.counted server r body now = { s with heard := heard, lines := lines } := by
  unfold counted
  split
  · exact ⟨_, _, rfl⟩
  · split_ifs
    · exact ⟨_, _, rfl⟩
    · exact ⟨_, _, rfl⟩

/-- A voice packet leaves everything alone that does not have to do with voice. -/
theorem hear_frame (s : Session S) (server : UInt32) (r : Router) (body : List UInt8)
    (now : Instant) (fresh : ℕ) :
    ∃ tap heard lines, tap.me = s.me ∧ (s.hear server r body now fresh).2 =
      { s with toTap := tap, heard := heard, lines := lines } := by
  obtain ⟨heard, lines, heq⟩ := s.counted_frame server r body now
  refine ⟨_, heard, lines, me_voice s.toTap server r body now fresh, ?_⟩
  have hhear : (s.hear server r body now fresh).2 =
      { s.counted server r body now with toTap := (s.toTap.voice server r body now fresh).2 } := rfl
  rw [hhear, heq]

/-- What a message that can be read leaves. -/
inductive Took (s : Session S) (server : UInt32) (found : Moment) : Said → Left S → Prop
  | voice (body : List UInt8) :
    Took s server found (.voice body)
      ⟨(s.hear server found.router body found.now found.fresh).2, found.router, found.fresh + 1,
        (s.hear server found.router body found.now found.fresh).1⟩
  | sync {me : Option UInt32} {s' : Session S} (h : s.sync found.writing me = .ok s') :
    Took s server found (.sync me) (found.leaves s')
  | user (session : UInt32) (name : List Char) :
    Took s server found (.user (some session) (some name))
      { found.leaves { s with users := s.users.insert session name } with
        router := (found.router.bind ⟨server, session⟩ name).2 }
  | remove (session : UInt32) :
    Took s server found (.remove session)
      { found.leaves (s.remove session) with
        router := found.router.unbind ⟨server, session⟩ }
  | channel (id : UInt32) (name : List Char) {s' : Session S}
      (h : s.channel found.writing id = .ok s') :
    Took s server found (.channel (some id) (some name)) (found.leaves s')
  /-- It says too little, or nothing that matters. -/
  | passed {said : Said} (h : said.idle = true) : Took s server found said (found.leaves s)

theorem took_of_take {said : Said} (h : s.take server found said = .ok left) :
    Took s server found said left := by
  cases said with
  | voice body => exact Except.ok.inj h ▸ .voice body
  | sync me =>
    obtain ⟨s', hs', rfl⟩ := map_eq_ok_iff.mp h
    exact .sync hs'
  | user session name =>
    cases session with
    | none => exact Except.ok.inj h ▸ .passed rfl
    | some session =>
      cases name with
      | none => exact Except.ok.inj h ▸ .passed rfl
      | some name => exact Except.ok.inj h ▸ .user session name
  | remove session => exact Except.ok.inj h ▸ .remove session
  | channel id name =>
    cases id with
    | none => exact Except.ok.inj h ▸ .passed rfl
    | some id =>
      cases name with
      | none => exact Except.ok.inj h ▸ .passed rfl
      | some name =>
        obtain ⟨s', hs', rfl⟩ := map_eq_ok_iff.mp h
        exact .channel id name hs'
  | other => exact Except.ok.inj h ▸ .passed rfl

/-- A turn that the connection survives is a sweep, or a message that can be read. -/
theorem turn_cases {t : Turn} (h : s.turn p server found t = .ok left) :
    (t.said p = none ∧ left = found.leaves (s.sweep found.now)) ∨
      ∃ said, t.said p = some said ∧ Took s server found said left := by
  cases t with
  | sweep => exact Or.inl ⟨rfl, (Except.ok.inj h).symm⟩
  | message m =>
    obtain ⟨said, hread, htake⟩ := bind_eq_ok_iff.mp h
    refine Or.inr ⟨said, ?_, took_of_take htake⟩
    rw [Turn.said, hread]
    rfl

/-- What holds of a connection that has just been made, and is kept by every turn that the
connection survives, holds of every connection that has not ended. -/
theorem connection_induction {P : List (Moment × Turn) → Session S → Prop} (hnew : P [] (new S))
    (hturn : ∀ es s found t left, run (step p server) (.ok (new S)) es = .ok s → P es s →
      s.turn p server found t = .ok left → P (es ++ [(found, t)]) left.session)
    {es : List (Moment × Turn)} (h : run (step p server) (.ok (new S)) es = .ok s) : P es s := by
  induction es using List.reverseRecOn generalizing s with
  | nil => exact Except.ok.inj h ▸ hnew
  | append_singleton es e ih =>
    rw [run_concat] at h
    obtain ⟨before, hbefore, h⟩ := bind_eq_ok_iff.mp h
    obtain ⟨left, hleft, rfl⟩ := map_eq_ok_iff.mp h
    exact hturn es before e.1 e.2 left hbefore (ih hbefore) hleft

end Session

/-! ### Short messages -/

/-- What the codec reads of messages with a number below 128, and a short name of plain letters. -/
def shortProto : Proto where
  serverSync
    | [0x08, session] => .ok (some session.toUInt32)
    | _ => .error "failed to decode"
  userState
    | 0x08 :: session :: 0x1a :: _ :: name =>
      .ok (some session.toUInt32, some (name.map fun b => Char.ofNat b.toNat))
    | _ => .error "failed to decode"
  userRemove
    | [0x08, session] => .ok session.toUInt32
    | _ => .error "failed to decode"
  channelState
    | 0x08 :: id :: 0x1a :: _ :: name =>
      .ok (some id.toUInt32, some (name.map fun b => Char.ofNat b.toNat))
    | _ => .error "failed to decode"
  reject _ := .error "failed to decode"
  permissionDenied _ := .error "failed to decode"

end RfxVoiced.Mumble
