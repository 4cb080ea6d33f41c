import RfxVoiced.Node
import RfxVoiced.Router.Preemption

/-!
# On whose authority a frame acts

A socket's token is looked up once, when it is opened. From then on its frames act for the client
of that token, whether it is a console or a player, and whether or not the token is still on file:
revoking a client withdraws its token and its sink, not its open sockets. What a frame can do is
bounded all the same, since the router lets a client act in its own name only.

## Main definitions

* `Router.Spares` — what acting in one client's name leaves to another
* `Node.ActsInOwnName` — what a frame on a socket may do, and on whose authority
* `Node.ConsolesOnly` — the stricter rule, that only a console whose token is on file may do it

## Main results

* `sockets_after` — every open socket was opened with a token of its client
* `spares_keyAt`, `spares_unkeyAs` — a key request and a release act in their client's name
* `frame_acts_in_own_name` — and so does every frame
-/

namespace RfxVoiced

namespace Router

/-- Beside what another client holds, pressed and took, the change leaves only what a console may
take from a field unit. -/
structure Spares (r r' : Router) (client d : ClientId) (mayTake : Prop) : Prop where
  gains : ∀ t, r'.holds t d = true → r.holds t d = true
  pressed : r'.keyedBy.lookup d = r.keyedBy.lookup d
  taken : ∀ p, r'.took.lookup (d, p) = r.took.lookup (d, p)
  loses : ∀ t, r.holds t d = true → ¬ r'.holds t d = true →
    mayTake ∧ client.isConsole = true ∧ d.isConsole = false

variable {client d : ClientId} {mayTake : Prop}

theorem Spares.refl (r : Router) : r.Spares r client d mayTake where
  gains _ h := h
  pressed := rfl
  taken _ := rfl
  loses _ h hlost := absurd h hlost

theorem spares_keyAt (r : Router) (tg : RouteId) (now : Instant) (hd : d ≠ client)
    (hmay : mayTake) : r.Spares (r.keyAt tg client now).2 client d mayTake where
  gains _ h := holds_of_holds_keyAt hd h
  pressed := by
    cases hans : (r.keyAt tg client now).1 with
    | error e => rw [keyAt_keyedBy_of_error hans]
    | ok k => rw [keyAt_keyedBy_of_ok hans, Table.lookup_insert, if_neg hd]
  taken p := by
    cases hans : (r.keyAt tg client now).1 with
    | error e => rw [keyAt_took_of_error hans]
    | ok k =>
      rw [keyAt_took_of_ok hans, Table.lookup_insert, if_neg]
      exact fun heq => hd (Prod.mk.inj heq).1
  loses _ hheld hlost := ⟨hmay, isConsole_of_lost hheld hlost⟩

theorem spares_unkeyAs (r : Router) (tg : RouteId) (hd : d ≠ client) :
    r.Spares (r.unkeyAs tg client).2 client d mayTake where
  gains t h := ((holds_unkeyAs r tg client t d).mp h).1
  pressed := by rw [unkeyAs_keyedBy, Table.lookup_erase, if_neg hd]
  taken p := by
    rw [unkeyAs_took, Table.lookup_erase, if_neg]
    exact fun heq => hd (Prod.mk.inj heq).1
  loses t hheld hlost := by
    refine absurd ((holds_unkeyAs r tg client t d).mpr ⟨hheld, fun heq => ?_⟩) hlost
    exact absurd heq hd

end Router

namespace Streams

variable (core : Core) (tg : RouteId) (client : ClientId)

theorem txKey_router (now : Instant) :
    (txKey core tg client now).router = (core.router.keyAt tg client now).2 := by
  unfold txKey
  rcases core.router.keyAt tg client now with ⟨outcome, r⟩
  cases outcome <;> rfl

theorem txUnkey_router :
    (txUnkey core tg client).router = (core.router.unkeyAs tg client).2 := rfl

/-- Samples go through, and change nothing of the router. -/
theorem txAudio_router (vocoder : Dsp.Vocoder) (talker : Option vocoder.Talker)
    (samples : List UInt8) :
    (txAudio vocoder core talker client samples).1.router = core.router := by
  unfold txAudio
  split
  · rfl
  · dsimp only
    split
    · rfl
    · split
      · rfl
      · split <;> rfl

end Streams

namespace Node

variable {host : Host}

/-- What an event does to the open sockets: it opens one, with a token of its client, and otherwise
keeps some of them. -/
theorem mem_sockets_step {n : Node host} {e : Event} {s : Socket host}
    (hs : s ∈ (n.step e).sockets) :
    (∃ s₀ ∈ n.sockets, s₀.sender = s.sender ∧ s₀.client = s.client) ∨
      ∃ token, e = .connect (some token) ∧ n.streams.clientFor token = some s.client ∧
        n.nextSender = s.sender := by
  have hkept : s ∈ n.sockets → ∃ s₀ ∈ n.sockets, s₀.sender = s.sender ∧ s₀.client = s.client :=
    fun h => ⟨s, h, rfl, rfl⟩
  cases e with
  | connect token =>
    simp only [step, connect] at hs
    cases hclient : token.bind n.streams.clientFor with
    | none =>
      rw [hclient] at hs
      exact Or.inl (hkept hs)
    | some client =>
      rw [hclient] at hs
      rcases List.mem_cons.mp hs with rfl | hs
      · -- The socket that is opened, with a token of its client.
        obtain ⟨t, rfl, ht⟩ := Option.bind_eq_some_iff.mp hclient
        exact Or.inr ⟨t, rfl, ht, rfl⟩
      · exact Or.inl (hkept hs)
  | frame sender buf now =>
    refine Or.inl ?_
    simp only [step] at hs
    split at hs
    · exact hkept hs
    · unfold frame at hs
      split at hs
      · exact hkept hs
      · split_ifs at hs
        · exact hkept hs
        · exact hkept hs
        · -- Samples replace the signal chain of their own socket.
          obtain ⟨s₀, hs₀, rfl⟩ := List.mem_map.mp hs
          refine ⟨s₀, hs₀, ?_⟩
          split_ifs <;> exact ⟨rfl, rfl⟩
        · exact hkept hs
  | close sender =>
    refine Or.inl ?_
    simp only [step] at hs
    split at hs
    · exact hkept hs
    · exact hkept (List.mem_of_mem_filter hs)
  | _ => exact Or.inl (hkept hs)

/-- Every open socket was opened with a token that named its client at the time. -/
theorem sockets_after (recording : Bool) {es : List Event} {s : Socket host}
    (hs : s ∈ (after host recording es).sockets) :
    ∃ pre token post, es = pre ++ .connect (some token) :: post ∧
      (after host recording pre).streams.clientFor token = some s.client ∧
      (after host recording pre).nextSender = s.sender := by
  induction es using List.reverseRecOn generalizing s with
  | nil => exact absurd hs List.not_mem_nil
  | append_singleton es e ih =>
    rw [after, run_concat] at hs
    rcases mem_sockets_step hs with ⟨s₀, hs₀, hsender, hclient⟩ | ⟨token, rfl, htoken, hsender⟩
    · -- Opened earlier: the same opening, with one more event after it.
      obtain ⟨pre, token, post, rfl, htoken, hnext⟩ := ih hs₀
      refine ⟨pre, token, post ++ [e], by simp, ?_, ?_⟩
      · rw [htoken, hclient]
      · rw [hnext, hsender]
    · exact ⟨es, token, [], rfl, htoken, hsender⟩

/-- A frame other than a key request or a release changes nothing of the router. -/
theorem frame_router_of_ne {n : Node host} (s : Socket host) (buf : List UInt8) (now : Instant)
    (h : ∀ kind tg, headerOf buf = some (kind, tg) →
      kind ≠ Streams.txKeyKind ∧ kind ≠ Streams.txUnkeyKind) :
    (n.frame s buf now).router = n.router := by
  unfold frame
  split
  · rfl
  next kind tg hheader =>
    obtain ⟨hkey, hunkey⟩ := h kind tg hheader
    rw [if_neg hkey, if_neg hunkey]
    split_ifs
    · exact Streams.txAudio_router n.toCore s.client host.vocoder s.talker _
    · rfl

/-- A frame acts in the name of its socket's client. -/
theorem spares_frame (n : Node host) (s : Socket host) (buf : List UInt8) (now : Instant)
    {d : ClientId} (hd : d ≠ s.client) :
    n.router.Spares (n.frame s buf now).router s.client d
      (∃ tg, headerOf buf = some (Streams.txKeyKind, tg)) := by
  unfold frame
  split
  · exact Router.Spares.refl n.router
  next kind tg hheader =>
    split_ifs with hkey
    · rw [Streams.txKey_router]
      exact Router.spares_keyAt n.router tg now hd ⟨tg, by rw [hheader, hkey]⟩
    · exact Router.spares_unkeyAs n.router tg hd
    · have hsame := Streams.txAudio_router n.toCore s.client host.vocoder s.talker
        (buf.drop audioHeader)
      have hrefl : n.router.Spares (Streams.txAudio host.vocoder n.toCore s.talker s.client
          (buf.drop audioHeader)).1.router s.client d
          (∃ tg, headerOf buf = some (Streams.txKeyKind, tg)) := by
        rw [hsame]
        exact Router.Spares.refl n.router
      exact hrefl
    · exact Router.Spares.refl n.router

/-- What a frame on a socket may do, and on whose authority. -/
structure ActsInOwnName (host : Host) (recording : Bool) (es : List Event) (s : Socket host)
    (buf : List UInt8) (now : Instant) : Prop where
  /-- The socket was opened with a token that named its client at the time. -/
  opened : ∃ pre token post, es = pre ++ .connect (some token) :: post ∧
    (after host recording pre).streams.clientFor token = some s.client ∧
    (after host recording pre).nextSender = s.sender
  /-- Only a key request or a release changes the router. -/
  request : ((after host recording es).step (.frame s.sender buf now)).router ≠
      (after host recording es).router →
    ∃ kind tg, headerOf buf = some (kind, tg) ∧
      (kind = Streams.txKeyKind ∨ kind = Streams.txUnkeyKind)
  /-- No other client gains a route, or loses the record of what it pressed and took; and none loses
  a route, except a field unit to a console's key request. -/
  spares : ∀ d, d ≠ s.client →
    (after host recording es).router.Spares
      ((after host recording es).step (.frame s.sender buf now)).router s.client d
      (∃ tg, headerOf buf = some (Streams.txKeyKind, tg))

/-- **A frame acts on the authority of the token its socket was opened with, and in the name of that
token's client.** -/
theorem frame_acts_in_own_name (host : Host) (recording : Bool) (es : List Event)
    (s : Socket host) (buf : List UInt8) (now : Instant)
    (hs : (after host recording es).socket s.sender = some s) :
    ActsInOwnName host recording es s buf now := by
  have hstep : (after host recording es).step (.frame s.sender buf now) =
      (after host recording es).frame s buf now := by
    simp only [step, hs]
  refine ⟨sockets_after recording (List.mem_of_find?_eq_some hs), ?_, ?_⟩
  · intro hchanged
    -- Otherwise the frame would have changed nothing.
    by_contra hnone
    apply hchanged
    rw [hstep]
    apply frame_router_of_ne s buf now
    intro kind tg hheader
    refine ⟨fun hkey => hnone ⟨kind, tg, hheader, Or.inl hkey⟩, fun hunkey => ?_⟩
    exact hnone ⟨kind, tg, hheader, Or.inr hunkey⟩
  · intro d hd
    rw [hstep]
    exact spares_frame _ s buf now hd

/-! ### Players, and consoles that were dropped -/

/-- A talkgroup, and a player with an open socket. -/
def playerOnline : List Event :=
  [.fleet 1 "tg.open" (.object [("tg", .int 1)]) 0,
    .fleet 1 "session.token" (.object [("client", .int 7), ("token", .string "secret")]) 0,
    .connect (some "secret")]

/-- A talkgroup, and a console that was detached while its socket was open. -/
def consoleDropped : List Event :=
  [.fleet 1 "tg.open" (.object [("tg", .int 1)]) 0,
    .console "console.attach" (.object []) (some "secret"), .connect (some "secret"),
    .console "console.detach" (.object [("client", .int 1)]) none]

/-- The player keys the talkgroup, in its own name. -/
theorem playerOnline_acts_in_own_name :
    ActsInOwnName quietHost false playerOnline ⟨0, ⟨1, 7⟩, none⟩ [16, 0, 0, 0, 0, 1] 1 :=
  frame_acts_in_own_name quietHost false playerOnline ⟨0, ⟨1, 7⟩, none⟩ _ 1 rfl

/-- By a frame on this socket, only a console for which some token is on file changes who holds a
route, where a client pressed, or what it took. -/
def ConsolesOnly (n : Node host) (sender : Sender) (buf : List UInt8) (now : Instant) : Prop :=
  ∀ s, n.socket sender = some s →
    ((∃ t d, (n.step (.frame sender buf now)).router.holds t d ≠ n.router.holds t d) ∨
      (n.step (.frame sender buf now)).router.keyedBy ≠ n.router.keyedBy ∨
      (n.step (.frame sender buf now)).router.took ≠ n.router.took) →
    s.client.isConsole = true ∧ ∃ token, n.streams.clientFor token = some s.client

/-- The player takes the talkgroup, and so does the console that was dropped. -/
theorem not_consolesOnly :
    ¬ ConsolesOnly (after quietHost false playerOnline) 0 [16, 0, 0, 0, 0, 1] 1 ∧
      ¬ ConsolesOnly (after quietHost false consoleDropped) 0 [16, 0, 0, 0, 0, 1] 1 := by
  constructor
  · intro h
    have hplayer := h ⟨0, ⟨1, 7⟩, none⟩ rfl (Or.inl ⟨1, ⟨1, 7⟩, by decide⟩)
    exact absurd hplayer.1 (by decide)
  · intro h
    obtain ⟨-, token, htoken⟩ := h ⟨0, ⟨0, 1⟩, none⟩ rfl (Or.inl ⟨1, ⟨0, 1⟩, by decide⟩)
    have hnone : (after quietHost false consoleDropped).streams.tokens.entries = [] := rfl
    have hmem := Table.lookup_eq_some_iff.mp htoken
    rw [hnone] at hmem
    exact absurd hmem List.not_mem_nil

end Node

end RfxVoiced
