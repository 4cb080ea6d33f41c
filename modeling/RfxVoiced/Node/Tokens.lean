import RfxVoiced.Control.Isolation
import RfxVoiced.Node.Audible

/-!
# Who may open a socket

A socket opens for whom its token names. The servers give tokens to their own players, over the
control plane, and the platform is given one for every console that it attaches; dropping a session,
detaching a console and losing a server take tokens back. All of this happens on planes of its own,
while sockets open and close.

## Main definitions

* `Node.grants`, `Node.grantedTo` — the token that an event gives out, and to whom
* `Node.Tracks` — what becomes of the tokens in an event is told by these, and by whom it sends away
* `Event.speaksFor` — an event that may give a client a token

## Main results

* `tracks` — what an event does to a token
* `clientFor_after` — a token names whom it was given to last, unless it was taken back since
* `socket_vouched` — every socket that is open was opened with a token that had been given to its
  client, by the client's own server or for a console, and that was still good
-/

namespace RfxVoiced

/-! ### Where tokens stay -/

namespace Streams

theorem hand_tokens (s : Streams) (client : ClientId) (frame : Frame) :
    (s.hand client frame).tokens = s.tokens := by
  unfold hand
  split <;> rfl

theorem sendCalls_tokens (s : Streams) (consoles : List ClientId) (tg : RouteId) (keyed : Bool)
    (talker : String) : (s.sendCalls consoles tg keyed talker).tokens = s.tokens :=
  run_invariant (P := fun s' : Streams => s'.tokens = s.tokens)
    (fun s' c h => (hand_tokens s' c _).trans h) rfl consoles

theorem sendLanes_tokens (s : Streams) (tg : RouteId) (listeners : List Listener)
    (lanes : List (Dsp.LegKey × List Int16)) :
    (s.sendLanes tg listeners lanes).tokens = s.tokens := by
  apply run_invariant (P := fun s' : Streams => s'.tokens = s.tokens) _ rfl lanes
  intro s' lane h
  split
  · exact h
  · apply run_invariant (P := fun s' : Streams => s'.tokens = s.tokens) _ h listeners
    intro s' l h
    split
    · exact (hand_tokens s' l.client _).trans h
    · exact h

theorem announceCall_tokens (r : Router) (s : Streams) (tg : RouteId) (keyed : Bool)
    (talker : String) : (Control.announceCall r s tg keyed talker).tokens = s.tokens :=
  announceCall_induction s tg keyed talker (P := fun s' => s'.tokens = s.tokens) r
    (fun s' c _ h => (hand_tokens s' c _).trans h) rfl

theorem txKey_tokens (core : Core) (tg : RouteId) (client : ClientId) (now : Instant) :
    (txKey core tg client now).streams.tokens = core.streams.tokens := by
  unfold txKey
  rcases core.router.keyAt tg client now with ⟨outcome, r⟩
  cases outcome with
  | error e => exact hand_tokens core.streams client _
  | ok keyed =>
    refine (hand_tokens _ client _).trans ((sendCalls_tokens _ _ tg true "DISPATCH").trans ?_)
    cases keyed with
    | preempted was => exact (hand_tokens _ was _).trans (hand_tokens _ was _)
    | _ => rfl

theorem txUnkey_tokens (core : Core) (tg : RouteId) (client : ClientId) :
    (txUnkey core tg client).streams.tokens = core.streams.tokens := by
  simp only [txUnkey]
  split
  · exact (hand_tokens _ client _).trans (sendCalls_tokens _ _ tg false "")
  · rfl

theorem txAudio_tokens (vocoder : Dsp.Vocoder) (core : Core) (talker : Option vocoder.Talker)
    (client : ClientId) (samples : List UInt8) :
    (txAudio vocoder core talker client samples).1.streams.tokens = core.streams.tokens := by
  unfold txAudio
  split
  · rfl
  · dsimp only
    split
    · rfl
    · split
      · rfl
      · split
        · rfl
        · exact sendLanes_tokens _ _ _ _

end Streams

/-- An event speaks for a client: it is a message of the client's own server, or one of the console
plane about a console. -/
def Event.speaksFor : Event → ClientId → Prop
  | .fleet server _ _ _, client => client.server = server
  | .console _ _ _, client => client.server = consoleServer
  | _, _ => False

namespace Node

variable {host : Host}

/-- The token that an event gives out, and to whom. -/
def grants (n : Node host) : Event → Option (String × ClientId)
  | .fleet server path body _ =>
    if path = "session.token" then
      match Control.clientOf server body, (body.get "token").bind Value.asStr with
      | some client, some token => if token = "" then none else some (token, client)
      | _, _ => none
    else none
  | .console path _ minted =>
    if path = "console.attach" then
      minted.map fun token => (token, ⟨consoleServer, n.nextConsole⟩)
    else none
  | _ => none

/-- The client that an event gives a token to, if it gives it out. -/
def grantedTo (n : Node host) (token : String) (e : Event) : Option ClientId :=
  (n.grants e).bind fun x => if x.1 = token then some x.2 else none

variable {n : Node host} {e : Event} {token : String} {c : ClientId}

/-- The messages of a server that have nothing to do with tokens. -/
theorem dispatch_tokens (core : Core) {path : String} (body : Value) (server : UInt32)
    (now : Instant) (hgives : path ≠ "session.token") (htakes : path ≠ "session.drop") :
    (Control.dispatch core path body server now).2.streams.tokens = core.streams.tokens := by
  unfold Control.dispatch
  split
  · unfold Control.convOpen
    split <;> rfl
  · unfold Control.tgOpen
    split <;> rfl
  · unfold Control.tgClose
    split <;> rfl
  · unfold Control.tgMembers
    split <;> rfl
  · unfold Control.tgMember
    split <;> rfl
  · unfold Control.key
    split
    · split
      · rfl
      · rfl
      · exact Streams.announceCall_tokens _ core.streams _ true _
      · rfl
    · rfl
  · unfold Control.unkey
    split
    · simp only [apply_ite Streams.tokens, Streams.announceCall_tokens, ite_self]
    · rfl
  · exact absurd rfl hgives
  · exact absurd rfl htakes
  · rfl
  · rfl

/-- The messages of the console plane that have nothing to do with tokens. -/
theorem dispatchConsole_tokens (answerRecall : String → Value → Reply) (core : Core)
    {path : String} (body : Value) (minted : Option String) (hgives : path ≠ "console.attach")
    (htakes : path ≠ "console.detach") :
    (Control.dispatchConsole answerRecall core path body minted).2.streams.tokens =
      core.streams.tokens := by
  unfold Control.dispatchConsole
  split
  · rfl
  · rfl
  · unfold Control.patchesSet
    split <;> rfl
  · exact absurd rfl hgives
  · unfold Control.consoleUpdate
    split <;> rfl
  · exact absurd rfl htakes
  · rfl

/-- What becomes of the tokens in an event is told by what it gives out and whom it sends away. -/
def Tracks (n : Node host) (e : Event) : Prop :=
  ∀ token c, (n.step e).streams.clientFor token = some c ↔
    n.grantedTo token e = some c ∨
      (n.grantedTo token e = none ∧ n.streams.clientFor token = some c ∧ ¬ e.revokes c)

/-- An event that gives out no token and takes none back leaves them all. -/
theorem tracks_of_quiet (hgrants : n.grants e = none) (hrevokes : ∀ c, ¬ e.revokes c)
    (htokens : (n.step e).streams.tokens = n.streams.tokens) : n.Tracks e := by
  intro token c
  rw [Streams.clientFor, htokens, ← Streams.clientFor, grantedTo, hgrants]
  simp [hrevokes]

/-- An event that gives out a token takes none back. -/
theorem tracks_of_authorize {client : ClientId} (hgrants : n.grants e = some (token, client))
    (hrevokes : ∀ c, ¬ e.revokes c)
    (hstreams : (n.step e).streams = n.streams.authorize token client) : n.Tracks e := by
  intro token' c
  rw [hstreams, Streams.clientFor, Streams.authorize, Table.lookup_insert, grantedTo, hgrants,
    Option.bind_some]
  by_cases htoken : token' = token
  · simp [htoken]
  · simp [htoken, Ne.symm htoken, hrevokes, Streams.clientFor]

/-- An event that takes back the tokens of a client gives none out. -/
theorem tracks_of_revoke {client : ClientId} (hgrants : n.grants e = none)
    (hrevokes : ∀ c, e.revokes c ↔ client = c)
    (hstreams : (n.step e).streams = n.streams.revokePlayer client) : n.Tracks e := by
  intro token c
  rw [hstreams, grantedTo, hgrants, hrevokes, Streams.clientFor, Streams.revokePlayer,
    Table.lookup_retain, Option.filter_eq_some_iff]
  simp [Streams.clientFor, ne_comm]

theorem tracks_sessionToken (n : Node host) (server : UInt32) (body : Value) (now : Instant) :
    n.Tracks (.fleet server "session.token" body now) := by
  have hrevokes : ∀ c, ¬ Event.revokes (.fleet server "session.token" body now) c :=
    fun c h => absurd h.1 (by decide)
  cases hclient : Control.clientOf server body with
  | none =>
    apply tracks_of_quiet _ hrevokes
    · simp only [step, Control.dispatch, Control.sessionToken, hclient]
    · simp [grants, hclient]
  | some client =>
    cases htoken : (body.get "token").bind Value.asStr with
    | none =>
      apply tracks_of_quiet _ hrevokes
      · simp only [step, Control.dispatch, Control.sessionToken, hclient, htoken]
      · simp [grants, hclient, htoken]
    | some token =>
      by_cases hempty : token = ""
      · apply tracks_of_quiet _ hrevokes
        · simp only [step, Control.dispatch, Control.sessionToken, hclient, htoken, if_pos hempty]
        · simp [grants, hclient, htoken, hempty]
      · have hgrants : n.grants (.fleet server "session.token" body now) =
            some (token, client) := by
          simp [grants, hclient, htoken, hempty]
        apply tracks_of_authorize hgrants hrevokes
        simp only [step, Control.dispatch, Control.sessionToken, hclient, htoken, if_neg hempty]

theorem tracks_fleet (n : Node host) (server : UInt32) (path : String) (body : Value)
    (now : Instant) : n.Tracks (.fleet server path body now) := by
  by_cases hgives : path = "session.token"
  · subst hgives
    exact tracks_sessionToken n server body now
  have hgrants : n.grants (.fleet server path body now) = none := if_neg hgives
  by_cases htakes : path = "session.drop"
  · subst htakes
    cases hclient : Control.clientOf server body with
    | none =>
      apply tracks_of_quiet hgrants
      · simp [Event.revokes, hclient]
      · simp only [step, Control.dispatch, Control.sessionDrop, hclient]
    | some client =>
      have hrevokes : ∀ c, Event.revokes (.fleet server "session.drop" body now) c ↔
          client = c := by
        simp [Event.revokes, hclient]
      apply tracks_of_revoke hgrants hrevokes
      simp only [step, Control.dispatch, Control.sessionDrop, hclient]
  · exact tracks_of_quiet hgrants (fun c h => htakes h.1)
      (dispatch_tokens n.toCore body server now hgives htakes)

theorem tracks_console (n : Node host) (path : String) (body : Value) (minted : Option String) :
    n.Tracks (.console path body minted) := by
  by_cases hgives : path = "console.attach"
  · subst hgives
    have hrevokes : ∀ c, ¬ Event.revokes (.console "console.attach" body minted) c :=
      fun c h => absurd h.1 (by decide)
    cases minted with
    | none => exact tracks_of_quiet rfl hrevokes rfl
    | some token => exact tracks_of_authorize rfl hrevokes rfl
  have hgrants : n.grants (.console path body minted) = none := if_neg hgives
  by_cases htakes : path = "console.detach"
  · subst htakes
    cases hid : body.u32Of "client" with
    | none =>
      apply tracks_of_quiet hgrants
      · simp [Event.revokes, hid]
      · simp only [step, Control.dispatchConsole, Control.consoleDetach, hid]
    | some id =>
      have hrevokes : ∀ c, Event.revokes (.console "console.detach" body minted) c ↔
          ⟨consoleServer, id⟩ = c := by
        simp [Event.revokes, hid]
      apply tracks_of_revoke hgrants hrevokes
      simp only [step, Control.dispatchConsole, Control.consoleDetach, hid]
  · exact tracks_of_quiet hgrants (fun c h => htakes h.1)
      (dispatchConsole_tokens host.answerRecall n.toCore body minted hgives htakes)

/-- **What an event does to a token.** It names whom the event gives it to; or whom it named before,
unless the event sends the client away. -/
theorem tracks (n : Node host) (e : Event) : n.Tracks e := by
  cases e with
  | fleet server path body now => exact tracks_fleet n server path body now
  | console path body minted => exact tracks_console n path body minted
  | detach server =>
    intro token c
    change ((n.streams.dropServer server).tokens.lookup token = some c) ↔ _
    rw [Streams.dropServer, Table.lookup_retain, Option.filter_eq_some_iff]
    simp [Streams.clientFor, Event.revokes, grantedTo, grants]
  | frame sender buf now =>
    -- No frame gives out a token or takes one back.
    refine tracks_of_quiet rfl (fun _ h => h) ?_
    simp only [step]
    split
    · rfl
    next s hsocket =>
      unfold frame
      split
      · rfl
      next kind tg hheader =>
        split_ifs
        · exact Streams.txKey_tokens n.toCore tg s.client now
        · exact Streams.txUnkey_tokens n.toCore tg s.client
        · exact Streams.txAudio_tokens host.vocoder n.toCore s.talker s.client _
        · rfl
  | close sender =>
    refine tracks_of_quiet rfl (fun _ h => h) ?_
    simp only [step]
    split <;> rfl
  | connect token =>
    refine tracks_of_quiet rfl (fun _ h => h) ?_
    simp only [step, connect]
    split <;> rfl
  | _ => exact tracks_of_quiet rfl (fun _ h => h) rfl

/-! ### Over a run -/

/-- Whoever gives out a token speaks for the one it is given to. -/
theorem speaksFor_of_grantedTo (h : n.grantedTo token e = some c) : e.speaksFor c := by
  obtain ⟨⟨token', client⟩, hgrants, hc⟩ := Option.bind_eq_some_iff.mp h
  obtain ⟨-, hclient⟩ := Option.ite_none_right_eq_some.mp hc
  obtain rfl := Option.some.inj hclient
  cases e with
  | fleet server path body now =>
    obtain ⟨-, hgiven⟩ := Option.ite_none_right_eq_some.mp hgrants
    split at hgiven
    next client' token'' hnamed htoken =>
      obtain ⟨-, heq⟩ := Option.ite_none_left_eq_some.mp hgiven
      obtain ⟨-, rfl⟩ := Prod.mk.inj (Option.some.inj heq)
      exact Control.clientOf_server body hnamed
    · cases hgiven
  | console path body minted =>
    obtain ⟨-, hgiven⟩ := Option.ite_none_right_eq_some.mp hgrants
    obtain ⟨token'', -, heq⟩ := Option.map_eq_some_iff.mp hgiven
    obtain ⟨-, rfl⟩ := Prod.mk.inj heq
    rfl
  | _ => cases hgrants

/-- A token names whom it was given to last, unless it was taken back since. -/
theorem clientFor_after (host : Host) (recording : Bool) (es : List Event) (token : String)
    (c : ClientId) :
    (after host recording es).streams.clientFor token = some c ↔
      ∃ before e later, es = before ++ e :: later ∧
        (after host recording before).grantedTo token e = some c ∧
        Along step (fun n e => n.grantedTo token e = none ∧ ¬ e.revokes c)
          ((after host recording before).step e) later :=
  read_run_iff (v := fun n : Node host => n.streams.clientFor token)
    (fun n e c => tracks n e token c) rfl es c

/-- **Every open socket was vouched for.** In every state of the node that can be reached, each open
socket was opened with a token that had been given to its client before, by a message of the
client's own server, or of the console plane where the client is a console; and from then until the
socket opened, the token was given to nobody else and the client was not sent away. -/
theorem socket_vouched (host : Host) (recording : Bool) (es : List Event) (s : Socket host)
    (hs : s ∈ (after host recording es).sockets) :
    ∃ before grant between token later,
      es = before ++ grant :: (between ++ .connect (some token) :: later) ∧
      grant.speaksFor s.client ∧
      (after host recording before).grantedTo token grant = some s.client ∧
      Along step (fun n e => n.grantedTo token e = none ∧ ¬ e.revokes s.client)
        ((after host recording before).step grant) between ∧
      (after host recording (before ++ grant :: between)).nextSender = s.sender := by
  obtain ⟨opened, token, later, rfl, htoken, hsender⟩ := sockets_after recording hs
  obtain ⟨before, grant, between, rfl, hgranted, hbetween⟩ :=
    (clientFor_after host recording opened token s.client).mp htoken
  exact ⟨before, grant, between, token, later, by simp, speaksFor_of_grantedTo hgranted, hgranted,
    hbetween, hsender⟩

/-- The player's socket, opened with the token that its server gave it. -/
theorem socket_vouched_playerOnline :
    ∃ before grant between token later,
      playerOnline = before ++ grant :: (between ++ .connect (some token) :: later) ∧
      grant.speaksFor ⟨1, 7⟩ ∧
      (after quietHost false before).grantedTo token grant = some ⟨1, 7⟩ := by
  obtain ⟨before, grant, between, token, later, hes, hspeaks, hgranted, -⟩ :=
    socket_vouched quietHost false playerOnline ⟨0, ⟨1, 7⟩, none⟩ (List.mem_singleton_self _)
  exact ⟨before, grant, between, token, later, hes, hspeaks, hgranted⟩

end Node

end RfxVoiced
