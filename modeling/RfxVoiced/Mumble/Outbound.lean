import RfxVoiced.Lib.Channel
import RfxVoiced.Mumble.Channels
import RfxVoiced.Mumble.Voice

/-!
# What a tap sends

A tap introduces itself, and asks its server for channels as they become known. Beside that it sends
an empty transmission every two seconds, because the server takes a client that never transmits for
gone, and a ping every five. All this goes through one queue, from which a writer takes it; whoever
finds the queue full waits, and the loop that reads the connection waits too.

The tasks that send keepalives and pings know nothing of the loop. They go on when the connection
has been given up, for as long as the writer can write.

## Main definitions

* `Encoder` — the generated codec, as far as a tap writes with it
* `keepaliveFrame` — an empty transmission
* `Online`, `Online.step` — a connection with its writer and its other tasks
* `Online.OnTheWire` — what the server reads

## Main results

* `keepalive_silent` — nobody hears anything of a keepalive
* `on_the_wire` — the server reads the introduction first, then the channels that it has announced,
  each once and in order, and keepalives that are counted
-/

namespace RfxVoiced.Mumble

open Dsp (Signal)
open Varint

/-! ### Keepalives -/

/-- An empty Opus payload with the bit that ends a transmission. -/
def keepaliveFrame (seq : UInt64) : List UInt8 :=
  writeVarint (writeVarint [(4 : UInt8) <<< 5] seq) 0x2000

/-- A voice packet as the server passes it on: the session of who sent it stands behind the leading
byte. -/
def relayed (session : UInt32) : List UInt8 → List UInt8
  | [] => []
  | header :: rest => header :: (writeVarint [] session.toUInt64 ++ rest)

theorem relayed_keepaliveFrame (session : UInt32) (seq : UInt64) :
    relayed session (keepaliveFrame seq) = voiceHeader 0 session seq 0 true := by
  have hframe : keepaliveFrame seq =
      ((4 : UInt8) <<< 5) :: (writeVarint [] seq ++ writeVarint [] 0x2000) := by
    rw [keepaliveFrame, writeVarint_append, writeVarint_append [_], List.append_assoc,
      List.singleton_append]
  rw [hframe, voiceHeader_eq]
  rfl

/-- **Nobody hears anything of a keepalive.** However the server passes it on, it is a packet of
whoever sent it with nothing in it, and no tap lets anything out of it. -/
theorem keepalive_silent {S : Signal} (tap : Tap S) (server : UInt32) (r : Router)
    (session : UInt32) (seq : UInt64) (now : Instant) (fresh : ℕ) :
    (∃ v, parseVoice (relayed session (keepaliveFrame seq)) = some v ∧ v.session = session ∧
      v.payloadLen = 0) ∧
    tap.voice server r (relayed session (keepaliveFrame seq)) now fresh = (none, tap) := by
  have hparse : parseVoice (voiceHeader 0 session seq 0 true ++ []) = _ :=
    parseVoice_voiceHeader (by decide) session seq (by decide) true (Nat.zero_le _)
  rw [List.append_nil, ← relayed_keepaliveFrame] at hparse
  refine ⟨⟨_, hparse, rfl, rfl⟩, ?_⟩
  rw [Tap.voice, hparse]
  simp only
  split_ifs
  · rfl
  · split
    · rfl
    · rw [if_pos (by simp)]

/-! ### A connection with its writer -/

/-- What the generated codec writes of the messages that a tap sends. -/
structure Encoder where
  version (version : UInt32) (release os osVersion : String) : List UInt8
  authenticate (username password : String) (opus : Bool) : List UInt8
  ping (timestamp : UInt64) : List UInt8
  /-- That a session listen to some more channels. -/
  listen (session : UInt32) (channels : List UInt32) : List UInt8

/-- What a tap says of itself. -/
structure Account where
  username : String
  password : String
  os : String

/-- Who sends on a connection. -/
inductive Producer
  | loop
  | keepalive
  | ping
  deriving DecidableEq, Repr

/-- How many messages the queue of a connection holds. -/
def outboundLength : ℕ := 64

namespace Encoder

variable (enc : Encoder)

/-- The first two messages of a connection. -/
def introduction (account : Account) : List Message :=
  [(Msg.version,
      enc.version ((1 : UInt32) <<< 16 ||| (4 : UInt32) <<< 8) "rfx-voiced" account.os "0.1"),
    (Msg.authenticate, enc.authenticate account.username account.password true)]

def asking (ask : UInt32 × List UInt32) : Message := (Msg.userState, enc.listen ask.1 ask.2)

def pinging : Message := (Msg.ping, enc.ping 0)

end Encoder

/-- The `n`-th keepalive, from 0 on. The numbers wrap. -/
def keepalive (n : ℕ) : Message := (Msg.udpTunnel, keepaliveFrame (UInt64.ofNat (n + 1)))

/-- A connection with its loop, its two tasks and the one queue that they share. -/
structure Online (S : Signal) where
  session : Session S
  /-- Why the loop has ended, once it has. -/
  ended : Option String
  out : Channel Producer Message outboundLength
  /-- The number of the latest keepalive. -/
  seq : UInt64

/-- What happens on a connection. -/
inductive OnlineEvent
  /-- A turn of the loop, and what it finds. -/
  | turn (router : Router) (now : Instant) (fresh : ℕ) (t : Turn)
  /-- Two seconds are over. -/
  | keepalive
  /-- Five seconds are over. -/
  | ping
  /-- What somebody waits with is queued. -/
  | enqueue (i : Producer)
  /-- The writer writes a message. -/
  | write
  /-- The writer cannot write any more. -/
  | broken

namespace Online

variable {S : Signal}

/-- A connection whose tap has introduced itself. There is room for both messages. -/
def initial (enc : Encoder) (account : Account) (S : Signal) : Online S where
  session := Session.new S
  ended := none
  out := (enc.introduction account).foldl (fun c m => (c.send .loop m).enqueue .loop)
    (Channel.new Producer Message outboundLength)
  seq := 0

def step (p : Proto) (enc : Encoder) (server : UInt32) (o : Online S) : OnlineEvent → Online S
  | .turn router now fresh t =>
    -- The loop has ended, or it waits for room in the queue.
    if o.ended.isSome || (o.out.waiting .loop).isSome then o
    else
      match o.session.turn p server ⟨router, now, fresh, o.out.isOpen⟩ t with
      | .error e => { o with ended := some e }
      | .ok left =>
        { o with
          session := left.session
          out := (left.session.asks.drop o.session.asks.length).foldl
            (fun c ask => c.send .loop (enc.asking ask)) o.out }
  | .keepalive =>
    if (o.out.waiting .keepalive).isSome then o
    else
      { o with
        seq := o.seq + 1
        out := o.out.send .keepalive (Msg.udpTunnel, keepaliveFrame (o.seq + 1)) }
  | .ping => { o with out := o.out.send .ping enc.pinging }
  | .enqueue i => { o with out := o.out.enqueue i }
  | .write => { o with out := o.out.take }
  | .broken => { o with out := o.out.close }

def after (p : Proto) (enc : Encoder) (server : UInt32) (account : Account) (S : Signal)
    (es : List OnlineEvent) : Online S :=
  run (step p enc server) (initial enc account S) es

/-- What the writer has written. -/
def written (o : Online S) : List Message := o.out.taken.map Prod.snd

end Online

namespace Session

variable {S : Signal} {p : Proto} {server : UInt32} {s s' : Session S} {found : Moment}
  {left : Left S} {writing : Bool}

/-- A turn asks for channels once at most. -/
def AsksOnce (s s' : Session S) : Prop := ∃ ask : Option (UInt32 × List UInt32),
  s'.asks = s.asks ++ ask.toList

theorem asksOnce_of_eq (h : s'.asks = s.asks) : AsksOnce s s' := ⟨none, by simp [h]⟩

theorem asksOnce_ask {session : UInt32} {channels : List UInt32}
    (h : s.ask writing session channels = .ok s') : AsksOnce s s' := by
  unfold ask at h
  split_ifs at h
  exact ⟨some (session, channels), Except.ok.inj h ▸ rfl⟩

theorem asksOnce_sync {me : Option UInt32} (h : s.sync writing me = .ok s') : AsksOnce s s' := by
  cases me with
  | none => exact asksOnce_of_eq (Except.ok.inj h ▸ rfl)
  | some session =>
    simp only [sync] at h
    split_ifs at h
    · exact asksOnce_of_eq (Except.ok.inj h ▸ rfl)
    · exact asksOnce_ask (s := { s with me := some session }) h

theorem asksOnce_channel {id : UInt32} (h : s.channel writing id = .ok s') : AsksOnce s s' := by
  unfold channel at h
  generalize hknown : (if id ∈ s.knownChannels then s
    else { s with knownChannels := s.knownChannels ++ [id] }) = known at h
  have hsame : known.asks = s.asks := by
    rw [← hknown]
    split_ifs <;> rfl
  cases hme : known.me with
  | none =>
    simp only [hme] at h
    exact asksOnce_of_eq (Except.ok.inj h ▸ hsame)
  | some session =>
    simp only [hme] at h
    split_ifs at h
    · exact asksOnce_of_eq (Except.ok.inj h ▸ hsame)
    · obtain ⟨ask, hask⟩ := asksOnce_ask h
      exact ⟨ask, hsame ▸ hask⟩

theorem asksOnce_turn {t : Turn} (h : s.turn p server found t = .ok left) :
    AsksOnce s left.session := by
  rcases turn_cases h with ⟨-, rfl⟩ | ⟨said, -, htook⟩
  · exact asksOnce_of_eq rfl
  · cases htook with
    | voice body =>
      obtain ⟨tap, heard, lines, -, heq⟩ :=
        s.hear_frame server found.router body found.now found.fresh
      rw [heq]
      exact asksOnce_of_eq rfl
    | sync hsync => exact asksOnce_sync hsync
    | channel id name hchannel => exact asksOnce_channel hchannel
    | _ => exact asksOnce_of_eq rfl

end Session

namespace Online

variable {S : Signal} {p : Proto} {enc : Encoder} {server : UInt32} {account : Account}
  {o : Online S}

/-- The turn that an event brings. -/
def turnOf : OnlineEvent → Option Turn
  | .turn _ _ _ t => some t
  | _ => none

/-- What each of them has sent so far, after these turns of the loop. -/
structure Sent (p : Proto) (enc : Encoder) (server : UInt32) (account : Account) (o : Online S)
    (turns : List (Session.Moment × Turn)) : Prop where
  session : run (Session.step p server) (.ok (Session.new S)) turns = .ok o.session
  loop : o.out.sent .loop = enc.introduction account ++ o.session.asks.map enc.asking
  keepalives : ∃ n, o.seq = UInt64.ofNat n ∧
    o.out.sent .keepalive = (List.range n).map keepalive
  pings : ∀ m ∈ o.out.sent .ping, m = enc.pinging
  first : (enc.introduction account).map (Prod.mk .loop) <+: o.out.taken ++ o.out.pending

theorem sent_initial (p : Proto) (enc : Encoder) (server : UInt32) (account : Account)
    (S : Signal) : (initial enc account S).Sent p enc server account [] where
  session := rfl
  loop := rfl
  keepalives := ⟨0, rfl, rfl⟩
  pings _ h := absurd h List.not_mem_nil
  first := List.prefix_rfl

namespace Sent

variable {turns : List (Session.Moment × Turn)}

/-- What only the queue and the writer do changes nothing of what has been sent. -/
theorem of_op (h : o.Sent p enc server account turns) (op : Channel.Op Producer Message)
    (hop : ∀ i a, op ≠ .send i a) :
    ({ o with out := o.out.step op } : Online S).Sent p enc server account turns := by
  have hsent : (o.out.step op).sent = o.out.sent := o.out.sent_step hop
  exact ⟨h.session, hsent ▸ h.loop, hsent ▸ h.keepalives, hsent ▸ h.pings,
    h.first.trans (o.out.queued_step op)⟩

/-- The loop has gone on, and has sent what it asks for. -/
theorem turn (h : o.Sent p enc server account turns) {router : Router} {now : Instant}
    {fresh : ℕ} {t : Turn} (hidle : o.out.waiting .loop = none) {left : Session.Left S}
    (hturn : o.session.turn p server ⟨router, now, fresh, o.out.isOpen⟩ t = .ok left) :
    ({ o with
      session := left.session
      out := (left.session.asks.drop o.session.asks.length).foldl
        (fun c ask => c.send .loop (enc.asking ask)) o.out } : Online S).Sent p enc server account
      (turns ++ [(⟨router, now, fresh, o.out.isOpen⟩, t)]) := by
  have hsession : run (Session.step p server) (.ok (Session.new S))
      (turns ++ [(⟨router, now, fresh, o.out.isOpen⟩, t)]) = .ok left.session := by
    rw [run_concat, h.session]
    change (o.session.turn p server ⟨router, now, fresh, o.out.isOpen⟩ t).map Session.Left.session =
      _
    rw [hturn]
    rfl
  -- In one turn the loop asks at most once.
  obtain ⟨ask, hasks⟩ := Session.asksOnce_turn hturn
  have hnew : left.session.asks.drop o.session.asks.length = ask.toList := by
    rw [hasks, List.drop_left]
  rw [hnew]
  cases ask with
  | none =>
    rw [Option.toList_none, List.append_nil] at hasks
    exact ⟨hsession, hasks ▸ h.loop, h.keepalives, h.pings, h.first⟩
  | some ask =>
    have hothers : ∀ i, i ≠ Producer.loop → (o.out.send .loop (enc.asking ask)).sent i =
        o.out.sent i := fun i hi => o.out.sent_send_of_ne hi _
    refine ⟨hsession, ?_, ?_, ?_, h.first.trans (o.out.queued_step (.send .loop _))⟩
    · change (o.out.send .loop (enc.asking ask)).sent .loop = _
      rw [o.out.sent_send_of_idle hidle, Function.update_self, h.loop, hasks, List.map_append,
        List.append_assoc]
      rfl
    · obtain ⟨n, hseq, hkeepalives⟩ := h.keepalives
      exact ⟨n, hseq, (hothers .keepalive (by decide)).trans hkeepalives⟩
    · intro m hm
      exact h.pings m ((hothers .ping (by decide)) ▸ hm)

/-- The next keepalive has the next number. -/
theorem keepalive (h : o.Sent p enc server account turns)
    (hidle : o.out.waiting .keepalive = none) :
    ({ o with
      seq := o.seq + 1
      out := o.out.send .keepalive (Msg.udpTunnel, keepaliveFrame (o.seq + 1)) } :
        Online S).Sent p enc server account turns := by
  have hothers : ∀ i, i ≠ Producer.keepalive →
      (o.out.send .keepalive (Msg.udpTunnel, keepaliveFrame (o.seq + 1))).sent i = o.out.sent i :=
    fun i hi => o.out.sent_send_of_ne hi _
  refine ⟨h.session, (hothers .loop (by decide)).trans h.loop, ?_, fun m hm => ?_,
    h.first.trans (o.out.queued_step (.send .keepalive _))⟩
  · obtain ⟨n, hseq, hkeepalives⟩ := h.keepalives
    have hnext : o.seq + 1 = UInt64.ofNat (n + 1) := by
      rw [hseq, UInt64.ofNat_add]
      rfl
    refine ⟨n + 1, hnext, ?_⟩
    change (o.out.send .keepalive (Msg.udpTunnel, keepaliveFrame (o.seq + 1))).sent .keepalive = _
    rw [o.out.sent_send_of_idle hidle, Function.update_self, hkeepalives, List.range_succ,
      List.map_append, hnext]
    rfl
  · exact h.pings m ((hothers .ping (by decide)) ▸ hm)

theorem ping (h : o.Sent p enc server account turns) :
    ({ o with out := o.out.send .ping enc.pinging } : Online S).Sent p enc server account
      turns := by
  have hothers : ∀ i, i ≠ Producer.ping → (o.out.send .ping enc.pinging).sent i = o.out.sent i :=
    fun i hi => o.out.sent_send_of_ne hi _
  refine ⟨h.session, (hothers .loop (by decide)).trans h.loop, ?_, fun m hm => ?_,
    h.first.trans (o.out.queued_step (.send .ping _))⟩
  · obtain ⟨n, hseq, hkeepalives⟩ := h.keepalives
    exact ⟨n, hseq, (hothers .keepalive (by decide)).trans hkeepalives⟩
  · change m ∈ (o.out.send .ping enc.pinging).sent .ping at hm
    cases hidle : o.out.waiting .ping with
    | none =>
      rw [o.out.sent_send_of_idle hidle, Function.update_self] at hm
      rcases List.mem_append.mp hm with hm | hm
      · exact h.pings m hm
      · exact List.mem_singleton.mp hm
    | some a =>
      have hsame : o.out.send .ping enc.pinging = o.out := by
        rw [Channel.send, dif_neg (by simp [hidle])]
      exact h.pings m (hsame ▸ hm)

theorem step (h : o.Sent p enc server account turns) (e : OnlineEvent) :
    ∃ turns', (o.step p enc server e).Sent p enc server account (turns ++ turns') ∧
      List.Sublist (turns'.map Prod.snd) (turnOf e).toList := by
  have hquiet : ∀ o' : Online S, o'.Sent p enc server account turns →
      ∃ turns', o'.Sent p enc server account (turns ++ turns') ∧
        List.Sublist (turns'.map Prod.snd) (turnOf e).toList :=
    fun o' h' => ⟨[], (List.append_nil turns).symm ▸ h', List.nil_sublist _⟩
  cases e with
  | turn router now fresh t =>
    simp only [Online.step]
    split_ifs with hbusy
    · exact hquiet _ h
    · have hidle : o.out.waiting .loop = none := by simp_all
      cases hturn : o.session.turn p server ⟨router, now, fresh, o.out.isOpen⟩ t with
      | error e => exact hquiet _ ⟨h.session, h.loop, h.keepalives, h.pings, h.first⟩
      | ok left => exact ⟨[_], h.turn hidle hturn, List.Sublist.refl _⟩
  | keepalive =>
    simp only [Online.step]
    split_ifs with hbusy
    · exact hquiet _ h
    · exact hquiet _ (h.keepalive (Option.not_isSome_iff_eq_none.mp hbusy))
  | ping => exact hquiet _ h.ping
  | enqueue i => exact hquiet _ (h.of_op (.enqueue i) fun _ _ => nofun)
  | write => exact hquiet _ (h.of_op .take fun _ _ => nofun)
  | broken => exact hquiet _ (h.of_op .close fun _ _ => nofun)

end Sent

theorem exists_sent_after (p : Proto) (enc : Encoder) (server : UInt32) (account : Account)
    (S : Signal) (es : List OnlineEvent) :
    ∃ turns, (after p enc server account S es).Sent p enc server account turns ∧
      List.Sublist (turns.map Prod.snd) (es.filterMap turnOf) := by
  induction es using List.reverseRecOn with
  | nil => exact ⟨[], sent_initial p enc server account S, List.nil_sublist _⟩
  | append_singleton es e ih =>
    obtain ⟨turns, hsent, hturns⟩ := ih
    obtain ⟨turns', hsent', hturns'⟩ := hsent.step e
    refine ⟨turns ++ turns', ?_, ?_⟩
    · rw [after, run_concat]
      exact hsent'
    · rw [List.map_append, List.filterMap_append]
      refine hturns.append (hturns'.trans ?_)
      cases h : turnOf e <;> simp [h]

/-! ### What the server reads -/

/-- The messages of a kind. -/
def ofKind (kind : UInt16) (ms : List Message) : List Message := ms.filter fun m => m.1 = kind

/-- What the server reads on a connection, where the tap has asked it for these channels. -/
structure OnTheWire (p : Proto) (enc : Encoder) (account : Account) (es : List OnlineEvent)
    (o : Online S) (read : List Message) (asks : List (UInt32 × List UInt32)) : Prop where
  /-- The introduction comes first. -/
  introduced : enc.introduction account <+: read ∨ read <+: enc.introduction account
  asked : ofKind Msg.userState read = asks.map enc.asking
  /-- The channels are those that it has announced, each once, in the order in which it did. -/
  announced : ∃ turns, List.Sublist turns (es.filterMap turnOf) ∧
    asks.flatMap (fun ask => ask.2) <+:
      (turns.filterMap fun t => (t.said p).bind Session.Said.announces).eraseDups
  /-- They are all that the tap knows, when nothing is left to be written and it knows its own
  session. -/
  complete : o.out.pending = [] → o.out.waiting .loop = none → o.session.me.isSome = true →
    asks.flatMap (fun ask => ask.2) = o.session.knownChannels
  /-- Keepalives are counted from 1 on. -/
  keepalives : ∃ n, ofKind Msg.udpTunnel read = (List.range n).map keepalive
  /-- No tap to which the server passes one on lets anything out of it. -/
  silent : ∀ m ∈ ofKind Msg.udpTunnel read, ∀ (tap : Tap S) (server : UInt32) (r : Router)
    (session : UInt32) (now : Instant) (fresh : ℕ),
    tap.voice server r (relayed session m.2) now fresh = (none, tap)

/-- Each kind of message is sent by one of them only. -/
theorem Sent.producer {turns : List (Session.Moment × Turn)}
    (h : o.Sent p enc server account turns) {x : Producer × Message} (hx : x ∈ o.out.taken) :
    (x.2.1 = Msg.userState → x.1 = .loop) ∧ (x.2.1 = Msg.udpTunnel → x.1 = .keepalive) := by
  have hsent : x.2 ∈ o.out.sent x.1 := (o.out.only_taken x.1).subset (Channel.mem_only hx)
  obtain ⟨i, m⟩ := x
  cases i with
  | loop =>
    refine ⟨fun _ => rfl, fun hkind => ?_⟩
    rw [h.loop] at hsent
    rcases List.mem_append.mp hsent with hm | hm
    · simp only [Encoder.introduction, List.mem_cons, List.not_mem_nil, or_false] at hm
      rcases hm with rfl | rfl <;> cases hkind
    · obtain ⟨ask, -, rfl⟩ := List.mem_map.mp hm
      cases hkind
  | keepalive =>
    refine ⟨fun hkind => ?_, fun _ => rfl⟩
    obtain ⟨n, -, hkeepalives⟩ := h.keepalives
    rw [hkeepalives] at hsent
    obtain ⟨k, -, rfl⟩ := List.mem_map.mp hsent
    cases hkind
  | ping =>
    obtain rfl := h.pings m hsent
    exact ⟨nofun, nofun⟩

theorem ofKind_keepalives (n : ℕ) :
    ofKind Msg.udpTunnel ((List.range n).map keepalive) = (List.range n).map keepalive := by
  refine List.filter_eq_self.mpr fun m hm => ?_
  obtain ⟨k, -, rfl⟩ := List.mem_map.mp hm
  rfl

theorem ofKind_asks (asks : List (UInt32 × List UInt32)) :
    ofKind Msg.userState (enc.introduction account ++ asks.map enc.asking) =
      asks.map enc.asking := by
  rw [ofKind, List.filter_append]
  have hnone : (enc.introduction account).filter (fun m => m.1 = Msg.userState) = [] := rfl
  rw [hnone, List.nil_append]
  refine List.filter_eq_self.mpr fun m hm => ?_
  obtain ⟨ask, -, rfl⟩ := List.mem_map.mp hm
  rfl

/-- What begins a list that was made by mapping was made by mapping what begins that list. -/
theorem exists_of_prefix_map {α β : Type*} {f : α → β} {l : List α} {l' : List β}
    (h : l' <+: l.map f) : ∃ begun, begun <+: l ∧ l' = begun.map f :=
  ⟨l.take l'.length, List.take_prefix _ _, by rw [List.map_take, ← List.prefix_iff_eq_take.mp h]⟩

section Written

variable {turns : List (Session.Moment × Turn)} (h : o.Sent p enc server account turns)

include h

theorem asked_written :
    ofKind Msg.userState o.written = ofKind Msg.userState (Channel.only .loop o.out.taken) :=
  Channel.filter_map_snd _ fun x hx hkind => (h.producer hx).1 (by simpa using hkind)

/-- Of what the loop has asked for, a beginning has been written. -/
theorem exists_asks_written :
    ∃ asks, asks <+: o.session.asks ∧ ofKind Msg.userState o.written = asks.map enc.asking := by
  have hprefix := (o.out.only_taken .loop).filter fun m => m.1 = Msg.userState
  rw [h.loop] at hprefix
  have hkind : ofKind Msg.userState (enc.introduction account ++
      o.session.asks.map enc.asking) = o.session.asks.map enc.asking := ofKind_asks _
  rw [asked_written h]
  exact exists_of_prefix_map (hkind ▸ hprefix)

/-- Keepalives are written in the order in which they are numbered. -/
theorem keepalives_written :
    ∃ n, ofKind Msg.udpTunnel o.written = (List.range n).map keepalive := by
  have hcounted : ofKind Msg.udpTunnel o.written =
      ofKind Msg.udpTunnel (Channel.only .keepalive o.out.taken) :=
    Channel.filter_map_snd _ fun x hx hkind => (h.producer hx).2 (by simpa using hkind)
  obtain ⟨n, -, hkeepalives⟩ := h.keepalives
  have hprefix := o.out.only_taken .keepalive
  rw [hkeepalives] at hprefix
  obtain ⟨begun, hbegun, htaken⟩ := exists_of_prefix_map hprefix
  have hrange : begun = List.range begun.length := by
    conv_lhs => rw [List.prefix_iff_eq_take.mp hbegun, List.take_range]
    rw [Nat.min_eq_left (by simpa using hbegun.length_le)]
  refine ⟨begun.length, ?_⟩
  rw [hcounted, htaken, hrange, ofKind_keepalives, List.length_range]

/-- When nothing is left to be written, all that the loop has asked for has been. -/
theorem asks_eq_of_idle {asks : List (UInt32 × List UInt32)} (hasks : asks <+: o.session.asks)
    (hwritten : ofKind Msg.userState o.written = asks.map enc.asking)
    (hpending : o.out.pending = []) (hwaiting : o.out.waiting .loop = none) :
    asks = o.session.asks := by
  apply hasks.eq_of_length
  rw [asked_written h, o.out.only_taken_of_idle hpending hwaiting, h.loop, ofKind_asks] at hwritten
  simpa using (congrArg List.length hwritten).symm

end Written

/-- **What the server reads.** However the loop, the two tasks and the writer take turns, and
whatever the loop finds: the server reads what was written, message by message. The introduction
comes first; the channels that the tap asks it for are those that it has announced, each once and in
order, and all that are known once nothing is left to be written and the tap knows its own session;
and keepalives are counted. -/
theorem on_the_wire (p : Proto) (enc : Encoder) (server : UInt32) (account : Account) (S : Signal)
    (es : List OnlineEvent)
    (hsize : ∀ m ∈ (after p enc server account S es).written, m.2.length ≤ maxFrame) :
    ∃ asks, OnTheWire p enc account es (after p enc server account S es)
      (parse (framed (after p enc server account S es).written)).1 asks := by
  obtain ⟨turns, hsent, hturns⟩ := exists_sent_after p enc server account S es
  generalize after p enc server account S es = o at hsize hsent ⊢
  have hread : (parse (framed o.written)).1 = o.written := by
    have hparse := parse_frames hsize []
    rw [List.append_nil] at hparse
    rw [hparse, parse_of_length_lt (by decide), List.append_nil]
  obtain ⟨asks, hasks, hwritten⟩ := exists_asks_written hsent
  -- What the tap knows and has asked for is that of a subscriber.
  have hsub := Session.subscribes_run hsent.session
  have hknown := hsub.known
  rw [Subscriber.known_run, Session.announcements_flatMap] at hknown
  rw [hread]
  refine ⟨asks, ?_, hwritten, ⟨turns.map Prod.snd, hturns, ?_⟩,
    fun hpending hwaiting hme => ?_, keepalives_written hsent,
    fun m hm tap server r session now fresh => ?_⟩
  · have hsnd : ((enc.introduction account).map (Prod.mk Producer.loop)).map Prod.snd =
        enc.introduction account := by
      rw [List.map_map]
      exact List.map_id _
    rw [← hsnd]
    exact (o.out.taken_starts hsent.first).imp (·.map Prod.snd) (·.map Prod.snd)
  · have hchannels : asks.flatMap (fun ask => ask.2) <+: o.session.asked := by
      obtain ⟨later, hlater⟩ := hasks
      rw [Session.asked, ← hlater, List.flatMap_append]
      exact List.prefix_append _ _
    have hbegun : o.session.asked <+: o.session.knownChannels := by
      rw [hsub.asked, hsub.known]
      exact Subscriber.starts _
    rw [List.filterMap_map]
    exact hchannels.trans (hknown ▸ hbegun)
  · rw [asks_eq_of_idle hsent hasks hwritten hpending hwaiting, hsub.known]
    exact hsub.asked.trans (Subscriber.caughtUp _ (hsub.admitted ▸ hme))
  · obtain ⟨n, hn⟩ := keepalives_written hsent
    rw [hn] at hm
    obtain ⟨k, -, rfl⟩ := List.mem_map.mp hm
    exact (keepalive_silent tap server r session _ now fresh).2

/-- What the codec writes of short texts in plain letters, of a version, and of numbers below
128. -/
def shortEncoder : Encoder where
  version version release os osVersion :=
    [0x08, (version &&& 0x7f ||| 0x80).toUInt8, (version >>> 7 &&& 0x7f ||| 0x80).toUInt8,
        (version >>> 14).toUInt8] ++ text 2 release ++ text 3 os ++ text 4 osVersion
  authenticate username password opus :=
    text 1 username ++ text 2 password ++ [0x28, if opus then 1 else 0]
  ping timestamp := [0x08, timestamp.toUInt8]
  listen session channels :=
    [0x08, session.toUInt8] ++ channels.flatMap fun c => [0xa8, 0x01, c.toUInt8]
where
  text (field : UInt8) (s : String) : List UInt8 :=
    (field <<< 3 ||| 2) :: UInt8.ofNat s.length :: s.toList.map Char.toUInt8

/-- The tap is told its session and a channel, and a keepalive is queued before the channel is asked
for. -/
def oneChannel : List OnlineEvent :=
  [.turn Router.empty 0 0 (.message (5, [0x08, 9])),
    .turn Router.empty 0 0 (.message (7, [0x08, 1, 0x1a, 1, 0x41])),
    .keepalive, .enqueue .keepalive, .enqueue .loop, .write, .write, .write, .write]

def radiotap : Account := ⟨"[999] radiotap", "", "linux"⟩

theorem on_the_wire_oneChannel :
    let o := after shortProto shortEncoder 1 radiotap Signal.passing oneChannel
    o.written.map Prod.fst = [0, 2, 1, 9] ∧
      ∃ asks, OnTheWire shortProto shortEncoder radiotap oneChannel o
        (parse (framed o.written)).1 asks :=
  ⟨by decide +kernel,
    on_the_wire shortProto shortEncoder 1 radiotap Signal.passing oneChannel (by decide +kernel)⟩

end Online

end RfxVoiced.Mumble
