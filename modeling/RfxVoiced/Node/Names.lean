import RfxVoiced.Node.Taps
import RfxVoiced.Router.Identity

/-!
# Who is who

The node knows a session as the player that its username names. Sessions are announced and removed
by their server, on the connection of its tap, and may change their names; a connection may end at
any time, and the other planes go on meanwhile. Whatever the order, nobody is known but through a
connection that is up, and whoever has a name there that names a player is known as that player.

## Main definitions

* `Tapped.Named` — the identities of the router, and the usernames of the connections

## Main results

* `identities_plane` — the other planes do not touch identities
* `named_step`, `named_after` — the identities are those of the connections
-/

namespace RfxVoiced

open Dsp (Signal)
open Mumble (Proto Said Session Turn)

namespace Router

/-- The call has to do with identities. -/
def Op.identifies : Op → Bool
  | .bind _ _ => true
  | .unbind _ => true
  | .dropServer _ => true
  | _ => false

theorem identities_of_other {op : Op} (h : op.identifies = false) (r : Router) :
    (step r op).identities = r.identities := by
  rcases identities_step r op with ⟨session, username, client, rfl, -⟩ |
    ⟨session, client, -, rfl, -⟩ | ⟨server, rfl, -⟩ | ⟨heq, -⟩
  · cases h
  · cases h
  · cases h
  · exact heq

theorem identities_run {ops : List Op} (h : ∀ op ∈ ops, op.identifies = false) (r : Router) :
    (run step r ops).identities = r.identities :=
  run_invariant_mem (P := fun r' : Router => r'.identities = r.identities)
    (fun r' op hop hr' => (identities_of_other (h op hop) r').trans hr') rfl

variable (r : Router) {session session' : SessionId}

theorem clientOf_bind (username : List Char) :
    (r.bind session username).2.clientOf session' =
      if session' = session then (named session username).or (r.clientOf session)
      else r.clientOf session' := by
  cases hnamed : named session username with
  | none =>
    rw [bind_of_nameless hnamed, Option.none_or]
    split_ifs with h
    · rw [h]
    · rfl
  | some client =>
    have heq : (r.bind session username).2.sessionToClient =
        r.sessionToClient.insert session client := congrArg Prod.fst (bind_of_named hnamed)
    rw [clientOf, heq, Table.lookup_insert]
    rfl

theorem clientOf_unbind :
    (r.unbind session).clientOf session' =
      if session' = session then none else r.clientOf session' := by
  cases hbound : r.sessionToClient.lookup session with
  | none =>
    rw [unbind_of_unbound hbound]
    split_ifs with h
    · rw [h]
      exact hbound
    · rfl
  | some client =>
    have heq : (r.unbind session).sessionToClient = r.sessionToClient.erase session :=
      congrArg Prod.fst (identities_unbind hbound)
    rw [clientOf, heq, Table.lookup_erase]
    rfl

theorem clientOf_dropServer (server : UInt32) :
    (r.dropServer server).clientOf session =
      if session.server = server then none else r.clientOf session := by
  change (r.sessionToClient.retain fun s _ => s.server ≠ server).lookup session = _
  rw [Table.lookup_retain]
  split_ifs with h
  · cases r.sessionToClient.lookup session <;> simp [h]
  · change _ = r.sessionToClient.lookup session
    cases r.sessionToClient.lookup session <;> simp [h]

end Router

namespace Node

variable {host : Host}

theorem identifies_of_mem_fleetCalls {path : String} {body : Value} {server : UInt32}
    {now : Instant} {op : Router.Op} (hop : op ∈ Control.fleetCalls path body server now) :
    op.identifies = false := by
  have hmember : ∀ m, op ∈ Control.memberCall server m → op.identifies = false := by
    intro m hm
    obtain ⟨tg, -, hm⟩ := Option.bind_eq_some_iff.mp hm
    obtain ⟨client, -, rfl⟩ := Option.map_eq_some_iff.mp hm
    rfl
  unfold Control.fleetCalls at hop
  split at hop
  · obtain ⟨id, -, rfl⟩ := Option.map_eq_some_iff.mp (Option.mem_toList.mp hop)
    rfl
  · obtain ⟨tg, -, rfl⟩ := Option.map_eq_some_iff.mp (Option.mem_toList.mp hop)
    rfl
  · obtain ⟨tg, -, rfl⟩ := Option.map_eq_some_iff.mp (Option.mem_toList.mp hop)
    rfl
  · obtain ⟨m, -, hm⟩ := List.mem_filterMap.mp hop
    exact hmember m hm
  · exact hmember body (Option.mem_toList.mp hop)
  · obtain ⟨tg, -, hkey⟩ := Option.bind_eq_some_iff.mp (Option.mem_toList.mp hop)
    obtain ⟨client, -, rfl⟩ := Option.map_eq_some_iff.mp hkey
    rfl
  · obtain ⟨tg, -, rfl⟩ := Option.map_eq_some_iff.mp (Option.mem_toList.mp hop)
    split <;> rfl
  · cases hop

theorem identifies_of_mem_consoleCalls {core : Core} {path : String} {body : Value}
    {minted : Option String} {op : Router.Op}
    (hop : op ∈ Control.consoleCalls core path body minted) : op.identifies = false := by
  have hsubscribe : ∀ client tgs, op ∈ Control.subscribeCalls client tgs →
      op.identifies = false := by
    intro client tgs hmem
    obtain ⟨tg, -, rfl⟩ := List.mem_map.mp hmem
    rfl
  unfold Control.consoleCalls at hop
  split at hop
  · obtain ⟨list, -, rfl⟩ := Option.map_eq_some_iff.mp (Option.mem_toList.mp hop)
    rfl
  · split_ifs at hop
    · exact hsubscribe _ _ hop
    · cases hop
  · cases hid : body.u32Of "client" with
    | none =>
      rw [hid] at hop
      cases hop
    | some id =>
      rw [hid, Option.map_some, Option.getD_some] at hop
      rcases List.mem_cons.mp hop with rfl | hop
      · rfl
      · exact hsubscribe _ _ hop
  · obtain ⟨id, -, rfl⟩ := Option.map_eq_some_iff.mp (Option.mem_toList.mp hop)
    rfl
  · cases hop

theorem identifies_of_mem_calls {n : Node host} {e : Event} (he : e.ofTap = false)
    {op : Router.Op} (hop : op ∈ n.calls e) : op.identifies = false := by
  cases e with
  | fleet server path body now => exact identifies_of_mem_fleetCalls hop
  | console path body minted => exact identifies_of_mem_consoleCalls hop
  | patches groups =>
    rw [List.mem_singleton.mp hop]
    rfl
  | connect token => cases hop
  | frame sender buf now =>
    rw [calls] at hop
    cases hsocket : n.socket sender with
    | none =>
      rw [hsocket] at hop
      cases hop
    | some s =>
      rw [hsocket, Option.map_some, Option.getD_some, frameCalls] at hop
      split at hop
      · cases hop
      · split_ifs at hop
        · rw [List.mem_singleton.mp hop]
          rfl
        · rw [List.mem_singleton.mp hop]
          rfl
        · cases hop
  | close sender =>
    obtain ⟨s, -, hclose⟩ := Option.bind_eq_some_iff.mp (Option.mem_toList.mp hop)
    obtain ⟨tg, -, rfl⟩ := Option.map_eq_some_iff.mp hclose
    rfl
  | _ => cases he

/-- The other planes do not touch identities. -/
theorem identities_plane (n : Node host) {e : Event} (he : e.ofTap = false) :
    (n.step e).router.identities = n.router.identities := by
  rw [router_step]
  exact Router.identities_run (fun op hop => identifies_of_mem_calls he hop) n.router

end Node

namespace Tapped

variable {host : Host} {S : Signal}

/-- The identities are those of the connections that are up: whoever is known has been announced on
one, and whoever has a name there that names a player is known as that player. -/
structure Named (t : Tapped host S) : Prop where
  announced : ∀ server session client, t.node.router.clientOf ⟨server, session⟩ = some client →
    ∃ s, t.sessions.lookup server = some s ∧ (s.users.lookup session).isSome = true
  known : ∀ server s session name client, t.sessions.lookup server = some s →
    s.users.lookup session = some name → Router.named ⟨server, session⟩ name = some client →
    t.node.router.clientOf ⟨server, session⟩ = some client

theorem named_initial (recording : Bool) : (initial host S recording).Named where
  announced server session client h := by
    simp [initial, Node.initial, Router.clientOf, Router.empty] at h
  known server s session name client h := by simp [initial] at h

variable {p : Proto} {t : Tapped host S} {server : UInt32}

/-- A connection is over: its sessions are forgotten, and no other. -/
theorem Named.lose (h : t.Named) (server : UInt32) : (t.lose server).Named := by
  have hclient : ∀ session, (t.lose server).node.router.clientOf session =
      if session.server = server then none else t.node.router.clientOf session :=
    fun session => Router.clientOf_dropServer _ server
  constructor
  · intro server' session client hknown
    rw [hclient] at hknown
    split_ifs at hknown with hserver
    obtain ⟨s, hs, huser⟩ := h.announced server' session client hknown
    refine ⟨s, ?_, huser⟩
    rw [← hs]
    exact (Table.lookup_erase _ _ _).trans (if_neg hserver)
  · intro server' s session name client hs huser hnamed
    change (t.sessions.erase server).lookup server' = some s at hs
    rw [Table.lookup_erase] at hs
    split_ifs at hs with hserver
    rw [hclient, if_neg hserver]
    exact h.known server' s session name client hs huser hnamed

/-- What a turn leaves, when what it did to the identities it did to the usernames. -/
theorem Named.put (h : t.Named) {s : Session S} (hs : t.sessions.lookup server = some s)
    {left : Session.Left S}
    (hothers : ∀ session : SessionId, session.server ≠ server →
      left.router.clientOf session = t.node.router.clientOf session)
    (hannounced : ∀ session client, left.router.clientOf ⟨server, session⟩ = some client →
      (left.session.users.lookup session).isSome = true)
    (hknown : ∀ session name client, left.session.users.lookup session = some name →
      Router.named ⟨server, session⟩ name = some client →
      left.router.clientOf ⟨server, session⟩ = some client) :
    (⟨{ t.node with router := left.router }, t.sessions.insert server left.session,
      left.fresh⟩ : Tapped host S).Named := by
  constructor
  · intro server' session client hclient
    change ∃ s, (t.sessions.insert server left.session).lookup server' = some s ∧ _
    rw [Table.lookup_insert]
    split_ifs with hserver
    · subst hserver
      exact ⟨_, rfl, hannounced session client hclient⟩
    · exact h.announced server' session client
        ((hothers ⟨server', session⟩ hserver).symm.trans hclient)
  · intro server' s' session name client hs' huser hnamed
    change (t.sessions.insert server left.session).lookup server' = some s' at hs'
    rw [Table.lookup_insert] at hs'
    split_ifs at hs' with hserver
    · subst hserver
      obtain rfl := Option.some.inj hs'
      exact hknown session name client huser hnamed
    · exact (hothers ⟨server', session⟩ hserver).trans
        (h.known server' s' session name client hs' huser hnamed)

/-- Whoever is known has been announced on the connection in question. -/
theorem Named.announced_here (h : t.Named) {s : Session S} (hs : t.sessions.lookup server = some s)
    {session : UInt32} {client : ClientId}
    (hclient : t.node.router.clientOf ⟨server, session⟩ = some client) :
    (s.users.lookup session).isSome = true := by
  obtain ⟨s', hs', huser⟩ := h.announced server session client hclient
  obtain rfl := Option.some.inj (hs.symm.trans hs')
  exact huser

section Turn

variable {s : Session S} {left : Session.Left S} {session : UInt32} {name : List Char}

/-- Most messages leave both the identities and the usernames alone. -/
theorem Named.quiet (h : t.Named) (hs : t.sessions.lookup server = some s)
    (hrouter : left.router = t.node.router) (husers : left.session.users = s.users) :
    (⟨{ t.node with router := left.router }, t.sessions.insert server left.session,
      left.fresh⟩ : Tapped host S).Named := by
  apply h.put hs
  · intro session _
    rw [hrouter]
  · intro session client hclient
    rw [hrouter] at hclient
    rw [husers]
    exact h.announced_here hs hclient
  · intro session name client huser hnamed
    rw [husers] at huser
    rw [hrouter]
    exact h.known server s session name client hs huser hnamed

/-- A user is announced. -/
theorem Named.user (h : t.Named) (hs : t.sessions.lookup server = some s)
    (hrouter : left.router = (t.node.router.bind ⟨server, session⟩ name).2)
    (husers : left.session.users = s.users.insert session name) :
    (⟨{ t.node with router := left.router }, t.sessions.insert server left.session,
      left.fresh⟩ : Tapped host S).Named := by
  have hclient : ∀ session' : SessionId, left.router.clientOf session' =
      if session' = ⟨server, session⟩ then
        (Router.named ⟨server, session⟩ name).or (t.node.router.clientOf ⟨server, session⟩)
      else t.node.router.clientOf session' := by
    rw [hrouter]
    exact fun session' => Router.clientOf_bind t.node.router name
  have huser : ∀ session', left.session.users.lookup session' =
      if session' = session then some name else s.users.lookup session' := by
    rw [husers]
    exact fun session' => Table.lookup_insert _ _ _ _
  apply h.put hs
  · intro other hother
    rw [hclient, if_neg]
    exact fun heq => hother (congrArg SessionId.server heq)
  · intro session' client hbound
    rw [huser]
    split_ifs with hsession
    · rfl
    · rw [hclient, if_neg fun heq => hsession (congrArg SessionId.session heq)] at hbound
      exact h.announced_here hs hbound
  · intro session' name' client hcarried hnamed
    rw [huser] at hcarried
    rw [hclient]
    split_ifs at hcarried with hsession
    · -- A name that names a player is who the session is from now on.
      obtain rfl := Option.some.inj hcarried
      rw [hsession] at hnamed ⊢
      rw [if_pos rfl, hnamed, Option.some_or]
    · rw [if_neg fun heq => hsession (congrArg SessionId.session heq)]
      exact h.known server s session' name' client hs hcarried hnamed

/-- A user goes. -/
theorem Named.remove (h : t.Named) (hs : t.sessions.lookup server = some s)
    (hrouter : left.router = t.node.router.unbind ⟨server, session⟩)
    (husers : left.session.users = s.users.erase session) :
    (⟨{ t.node with router := left.router }, t.sessions.insert server left.session,
      left.fresh⟩ : Tapped host S).Named := by
  have hclient : ∀ session' : SessionId, left.router.clientOf session' =
      if session' = ⟨server, session⟩ then none else t.node.router.clientOf session' := by
    rw [hrouter]
    exact fun session' => Router.clientOf_unbind t.node.router
  have huser : ∀ session', left.session.users.lookup session' =
      if session' = session then none else s.users.lookup session' := by
    rw [husers]
    exact fun session' => Table.lookup_erase _ _ _
  apply h.put hs
  · intro other hother
    rw [hclient, if_neg]
    exact fun heq => hother (congrArg SessionId.server heq)
  · intro session' client hbound
    -- Whoever is still known is somebody else.
    rw [hclient] at hbound
    split_ifs at hbound with hsession
    rw [huser, if_neg fun heq => hsession (congrArg (SessionId.mk server) heq)]
    exact h.announced_here hs hbound
  · intro session' name' client hcarried hnamed
    rw [huser] at hcarried
    split_ifs at hcarried with hsession
    rw [hclient, if_neg fun heq => hsession (congrArg SessionId.session heq)]
    exact h.known server s session' name' client hs hcarried hnamed

end Turn

/-- **A turn does to the identities what it does to the usernames.** -/
theorem Named.turn (h : t.Named) {s : Session S} (hs : t.sessions.lookup server = some s)
    {turn : Turn} {now : Instant} {writing : Bool} {left : Session.Left S}
    (hturn : s.turn p server (t.moment now writing) turn = .ok left) :
    (⟨{ t.node with router := left.router }, t.sessions.insert server left.session,
      left.fresh⟩ : Tapped host S).Named := by
  rcases Session.turn_cases hturn with ⟨-, rfl⟩ | ⟨said, -, htook⟩
  · exact h.quiet hs rfl rfl
  · cases htook with
    | voice body =>
      -- Voice changes what has been heard, and nothing of who is there.
      obtain ⟨tap, heard, lines, -, heq⟩ :=
        s.hear_frame server t.node.router body now t.nextMix
      apply h.quiet hs rfl
      change (s.hear server t.node.router body now t.nextMix).2.users = s.users
      rw [heq]
    | sync hsync =>
      obtain ⟨listening, asks, rfl⟩ := Session.sync_frame hsync
      exact h.quiet hs rfl rfl
    | user session name => exact h.user hs rfl rfl
    | remove session => exact h.remove hs rfl rfl
    | channel id name hchannel =>
      obtain ⟨known, listening, asks, rfl⟩ := Session.channel_frame hchannel
      exact h.quiet hs rfl rfl
    | passed => exact h.quiet hs rfl rfl

/-- A connection that has just been made has announced nobody, and nobody was known through it. -/
theorem Named.dial (h : t.Named) (hdown : t.sessions.lookup server = none) :
    ({ t with sessions := t.sessions.insert server (Session.new S) } : Tapped host S).Named := by
  have hlookup : ∀ server', (t.sessions.insert server (Session.new S)).lookup server' =
      if server' = server then some (Session.new S) else t.sessions.lookup server' :=
    fun server' => Table.lookup_insert _ _ _ _
  constructor
  · intro server' session client hclient
    obtain ⟨s, hs, huser⟩ := h.announced server' session client hclient
    refine ⟨s, (hlookup server').trans ?_, huser⟩
    rw [if_neg, hs]
    rintro rfl
    rw [hdown] at hs
    cases hs
  · intro server' s session name client hs huser hnamed
    have hs' := (hlookup server').symm.trans hs
    split_ifs at hs'
    · rw [← Option.some.inj hs'] at huser
      simp [Session.new] at huser
    · exact h.known server' s session name client hs' huser hnamed

theorem named_step (h : t.Named) (e : TapEvent) : (t.step p e).2.Named := by
  cases e with
  | plane e hplane =>
    have hsame : ∀ session, (t.node.step e).router.clientOf session =
        t.node.router.clientOf session := by
      intro session
      have heq := congrArg Prod.fst (Node.identities_plane t.node hplane)
      exact congrArg (AList.lookup session) heq
    exact ⟨fun server session client hclient =>
        h.announced server session client ((hsame _).symm.trans hclient),
      fun server s session name client hs huser hnamed =>
        (hsame _).trans (h.known server s session name client hs huser hnamed)⟩
  | dial server =>
    rw [step]
    split_ifs with hup
    · exact h
    · exact h.dial (Option.not_isSome_iff_eq_none.mp hup)
  | turn server turn now writing =>
    rw [step]
    cases hs : t.sessions.lookup server with
    | none => exact h
    | some s =>
      simp only
      cases hturn : s.turn p server (t.moment now writing) turn with
      | error e => exact h.lose server
      | ok left => exact h.turn hs hturn
  | lost server => exact h.lose server

theorem named_run (h : t.Named) (es : List TapEvent) :
    (run (fun t e => (step p t e).2) t es).Named :=
  run_invariant (P := fun t : Tapped host S => t.Named) (fun _ e h => named_step h e) h es

/-- **The identities are those of the connections.** Whatever the taps read, whenever their
connections are made and lost, and whatever the other planes do in between: whoever the node knows
has been announced, and not removed since, on a connection that is up; and whoever has a name there
that names a player is known as that player. -/
theorem named_after (p : Proto) (host : Host) (S : Signal) (recording : Bool)
    (es : List TapEvent) : (after p host S recording es).Named :=
  named_run (named_initial recording) es

end Tapped

end RfxVoiced
