import RfxVoiced.Lib.Pairing
import RfxVoiced.Router.Departure

/-!
# Sessions and clients

FXServer speaks of players, a tap of Mumble sessions, and the username of a session says which
player it is. The router keeps the pairing as two tables, one for each direction. They are inverse
as long as no session is renamed while it is bound, and no player comes back under a new session
before the old one is gone; and then the end of a session concerns nobody who is on another one.

## Main definitions

* `Router.Identified` — the tables are inverse, and a stale session takes nobody off the air
* `Router.bindsAfresh` — the call binds a session and a client that are not bound elsewhere

## Main results

* `identified_iff` — the second half follows from the first
* `identified_iff_along` — exactly which runs keep the two tables inverse
-/

namespace RfxVoiced

namespace Router

variable {r : Router}

/-- The two tables are inverse; and the end of a session takes no client off a route, as a member or
as a transmitter, whose own session is another one. -/
structure Identified (r : Router) : Prop where
  inverse : ∀ session client, r.clientOf session = some client ↔ r.sessionOf client = some session
  spares : ∀ session client current, r.sessionOf client = some current → current ≠ session →
    ∀ t, (r.unbind session).holds t client = r.holds t client ∧
      (r.unbind session).listensOn t client = r.listensOn t client

theorem identified_iff :
    r.Identified ↔ Table.Inverse r.sessionToClient r.clientToSession := by
  constructor
  · exact fun h => h.inverse
  · intro h
    refine ⟨h, fun session client current hcurrent hother t => ?_⟩
    cases hbound : r.sessionToClient.lookup session with
    | none =>
      rw [unbind_of_unbound hbound]
      exact ⟨rfl, rfl⟩
    | some departed =>
      -- Whoever the session belongs to, it is not this client.
      have hne : client ≠ departed := by
        rintro rfl
        have hback : r.clientToSession.lookup client = some session := (h session client).mp hbound
        exact hother (Option.some.inj (hcurrent.symm.trans hback))
      have hstays : decide (client = departed) = false := decide_eq_false hne
      have hdeparted := departed_unbind (r := r) hbound
      exact ⟨hdeparted.stays client hstays t, hdeparted.listens client hstays t⟩

/-! ### Calls -/

/-- The two tables of identities. -/
def identities (r : Router) : Table SessionId ClientId × Table ClientId SessionId :=
  (r.sessionToClient, r.clientToSession)

theorem identities_keyAt (r : Router) (tg : RouteId) (client : ClientId) (now : Instant) :
    (r.keyAt tg client now).2.identities = r.identities := by
  have hone : ∀ (s : Router) t, (s.keyOne t client now).2.identities = s.identities := by
    intro s t
    unfold keyOne
    repeat' split
    all_goals rfl
  cases hans : (r.keyAt tg client now).1 with
  | error e => rw [keyAt_of_error hans, hone]
  | ok k =>
    rw [keyAt_of_ok hans]
    exact takeSiblings_induction (P := fun s => s.identities = r.identities)
      (fun _ _ _ hs => hs) (fun s t hs => (hone s t).trans hs) (hone r tg)

theorem identities_unkeyAs (r : Router) (tg : RouteId) (client : ClientId) :
    (r.unkeyAs tg client).2.identities = r.identities := by
  obtain ⟨routes, h⟩ := unkeyAs_frame r tg client
  rw [h]
  rfl

theorem identities_unkey (r : Router) (tg : RouteId) :
    (r.unkey tg).identities = r.identities := by
  obtain ⟨routes, h⟩ := sameButRoutes_unkey r tg
  rw [h]
  rfl

/-- A session and its client belong to one server. -/
def SameServer (r : Router) : Prop :=
  ∀ session client, r.sessionToClient.lookup session = some client → client.server = session.server

/-- The player that a username names, on the server of the session. -/
def named (session : SessionId) (username : List Char) : Option ClientId :=
  (playerIdFromUsername username).map fun player => ⟨session.server, player⟩

/-- The call binds no session that is bound to another client, and no client that is bound to
another session. -/
def bindsAfresh (r : Router) : Op → Prop
  | .bind session username => ∀ client, named session username = some client →
      (r.clientOf session = none ∨ r.clientOf session = some client) ∧
        (r.sessionOf client = none ∨ r.sessionOf client = some session)
  | _ => True

theorem bind_of_named {session : SessionId} {username : List Char} {client : ClientId}
    (h : named session username = some client) :
    (r.bind session username).2.identities =
      (r.sessionToClient.insert session client, r.clientToSession.insert client session) := by
  obtain ⟨player, hplayer, rfl⟩ := Option.map_eq_some_iff.mp h
  simp only [bind, hplayer, identities]

theorem bind_of_nameless {session : SessionId} {username : List Char}
    (h : named session username = none) : (r.bind session username).2 = r := by
  have hplayer : playerIdFromUsername username = none := Option.map_eq_none_iff.mp h
  simp only [bind, hplayer]

theorem identities_unbind {session : SessionId} {client : ClientId}
    (h : r.sessionToClient.lookup session = some client) :
    (r.unbind session).identities =
      (r.sessionToClient.erase session, r.clientToSession.erase client) := by
  simp only [unbind, h, identities]

/-- What a call can do to the identities: bind a pair, end a session, drop a server, or nothing. -/
theorem identities_step (r : Router) (op : Op) :
    (∃ session username client, op = .bind session username ∧
      named session username = some client ∧ (step r op).identities =
        (r.sessionToClient.insert session client, r.clientToSession.insert client session)) ∨
    (∃ session client, r.sessionToClient.lookup session = some client ∧ op = .unbind session ∧
      (step r op).identities =
        (r.sessionToClient.erase session, r.clientToSession.erase client)) ∨
    (∃ server, op = .dropServer server ∧ (step r op).identities =
      (r.sessionToClient.retain fun s _ => s.server ≠ server,
        r.clientToSession.retain fun c _ => c.server ≠ server)) ∨
    (step r op).identities = r.identities ∧ bindsAfresh r op := by
  cases op with
  | bind session username =>
    cases hnamed : named session username with
    | none =>
      refine Or.inr (Or.inr (Or.inr ⟨?_, fun client h => ?_⟩))
      · rw [step, bind_of_nameless hnamed]
      · exact absurd (hnamed.symm.trans h) (by simp)
    | some client => exact Or.inl ⟨session, username, client, rfl, hnamed, bind_of_named hnamed⟩
  | unbind session =>
    cases hbound : r.sessionToClient.lookup session with
    | none =>
      refine Or.inr (Or.inr (Or.inr ⟨?_, trivial⟩))
      rw [step, unbind_of_unbound hbound]
    | some client =>
      exact Or.inr (Or.inl ⟨session, client, hbound, rfl, identities_unbind hbound⟩)
  | dropServer server => exact Or.inr (Or.inr (Or.inl ⟨server, rfl, rfl⟩))
  | keyAt tg client now =>
    exact Or.inr (Or.inr (Or.inr ⟨identities_keyAt r tg client now, trivial⟩))
  | unkeyAs tg client => exact Or.inr (Or.inr (Or.inr ⟨identities_unkeyAs r tg client, trivial⟩))
  | unkey tg => exact Or.inr (Or.inr (Or.inr ⟨identities_unkey r tg, trivial⟩))
  | _ => exact Or.inr (Or.inr (Or.inr ⟨rfl, trivial⟩))

theorem sameServer_step (h : r.SameServer) (op : Op) : (step r op).SameServer := by
  intro session client hbound
  have hfst : ∀ {t u}, (step r op).identities = (t, u) → t.lookup session = some client := by
    intro t u heq
    have hsame : (step r op).sessionToClient = t := congrArg Prod.fst heq
    rwa [hsame] at hbound
  rcases identities_step r op with ⟨session', username, client', -, hnamed, heq⟩ |
    ⟨session', client', -, -, heq⟩ | ⟨server, -, heq⟩ | ⟨heq, -⟩
  · have hlookup := hfst heq
    rw [Table.lookup_insert] at hlookup
    split_ifs at hlookup with hs
    · -- The new pair: the client is named on the server of the session.
      subst hs
      obtain rfl := Option.some.inj hlookup
      obtain ⟨player, -, rfl⟩ := Option.map_eq_some_iff.mp hnamed
      rfl
    · exact h session client hlookup
  -- The other calls only take pairs away.
  · have hlookup := hfst heq
    rw [Table.lookup_erase] at hlookup
    split_ifs at hlookup
    exact h session client hlookup
  · have hlookup := hfst heq
    rw [Table.lookup_retain] at hlookup
    exact h session client (Option.filter_eq_some_iff.mp hlookup).1
  · exact h session client (hfst heq)

/-- A call keeps the tables inverse exactly when it binds nobody who is bound elsewhere. -/
theorem identified_step_iff (hhome : r.SameServer) (h : r.Identified) (op : Op) :
    (step r op).Identified ↔ bindsAfresh r op := by
  have hinv := identified_iff.mp h
  have hview : ∀ {t u}, (step r op).identities = (t, u) →
      ((step r op).Identified ↔ Table.Inverse t u) := by
    rintro t u heq
    obtain ⟨rfl, rfl⟩ := Prod.mk.inj heq
    exact identified_iff
  rcases identities_step r op with ⟨session, username, client, rfl, hnamed, heq⟩ |
    ⟨session, client, hbound, rfl, heq⟩ | ⟨server, rfl, heq⟩ | ⟨heq, hafresh⟩
  · rw [hview heq, Table.inverse_insert_iff hinv]
    constructor
    · intro hfresh client' hclient'
      obtain rfl := Option.some.inj (hnamed.symm.trans hclient')
      exact hfresh
    · exact fun hfresh => hfresh client hnamed
  · rw [hview heq]
    exact iff_of_true (hinv.erase hbound) trivial
  · rw [hview heq]
    -- A client is of the server of its session, so each pair goes on both sides or on neither.
    refine iff_of_true (hinv.retain fun session client hbound => ?_) trivial
    rw [hhome session client hbound]
  · rw [hview heq]
    exact iff_of_true hinv hafresh

/-- **Sessions and clients are mutually inverse**, and no stale session takes a client off the air,
throughout a run exactly when each of its calls binds only what is not bound elsewhere. -/
theorem identified_iff_along (ops : List Op) :
    (∀ pre, pre <+: ops → (after pre).Identified) ↔ Along step bindsAfresh Router.empty ops := by
  refine forall_prefix_iff_along (P := Identified) (B := SameServer)
    (fun _ op h => sameServer_step h op) (fun _ op hhome h => identified_step_iff hhome h op)
    ?_ ?_ ops
  · intro session client hbound
    simp [Router.empty] at hbound
  · exact identified_iff.mpr Table.inverse_empty

/-- A player comes back under a new session while the old one is still there. -/
def reappeared : List Op := [.bind ⟨1, 10⟩ "[7] A".toList, .bind ⟨1, 11⟩ "[7] A".toList]

/-- The player keys up. -/
def reappearedTalking : Router :=
  after (reappeared ++ [.openRoute 1 false, .setMember 1 ⟨1, 7⟩ true 100, .keyAt 1 ⟨1, 7⟩ 0])

/-- Both sessions name the player, who is on the second; and the end of the first takes the player
off the air and out of the talkgroup. -/
theorem reappeared_goes_off_air :
    ¬ (after reappeared).Identified ∧ reappearedTalking.sessionOf ⟨1, 7⟩ = some ⟨1, 11⟩ ∧
      reappearedTalking.holds 1 ⟨1, 7⟩ = true ∧
      (reappearedTalking.unbind ⟨1, 10⟩).holds 1 ⟨1, 7⟩ = false ∧
      (reappearedTalking.unbind ⟨1, 10⟩).listensOn 1 ⟨1, 7⟩ = none := by
  refine ⟨fun h => ?_, by decide, by decide, by decide, by decide⟩
  have hstale : (after reappeared).clientOf ⟨1, 10⟩ = some ⟨1, 7⟩ := by decide
  have hcurrent : (after reappeared).sessionOf ⟨1, 7⟩ = some ⟨1, 11⟩ := by decide
  have hback := (h.inverse ⟨1, 10⟩ ⟨1, 7⟩).mp hstale
  exact absurd (hcurrent.symm.trans hback) (by decide)

end Router

end RfxVoiced
