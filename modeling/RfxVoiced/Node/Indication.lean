import RfxVoiced.Node.Authority
import RfxVoiced.Streams.Announce

/-!
# No console stays lit on a clear channel

A console shows a channel as busy from the moment it is told that a call started until it is told
that the call ended. Starts and ends are announced by different paths: a server's key and unkey
across the patch, a console's own key and release on the pressed route only, and the end of a socket
not at all. So a release can leave a channel clear on a route whose watchers are not told. This file
says, for each release, whom it must tell, and that nothing else goes wrong.

## Main definitions

* `Router.releasedBy`, `Router.dropped` — those whom a release, or the end of a socket, takes off
  the air
* `CallEvent` — the events that start and end calls
* `Node.Lit`, `Node.NoneLit` — a console shows a channel as busy; none does that is clear
* `Node.tellsLit` — a release tells every lit console whose channel it leaves clear

## Main results

* `noneLit_step_iff` — an event keeps clear channels dark exactly when it tells whom it must
* `noneLit_iff_along` — and a run does, when each of its events does
-/

namespace RfxVoiced

/-! ### Which channels a release leaves clear -/

namespace Router

variable {r r' : Router} {tg t : RouteId} {client d : ClientId} {now : Instant}

/-- Those whom a release in one client's name takes off the air. -/
def releasedAs (r : Router) (tg : RouteId) (client : ClientId) : RouteId → ClientId → Bool :=
  fun u d => d = client && u ∈ r.mine tg client

/-- Those whom `unkey` takes off the air: the client's own holds when a client is named, and
otherwise everybody on the route. -/
def releasedBy (r : Router) (tg : RouteId) : Option ClientId → RouteId → ClientId → Bool
  | some client => r.releasedAs tg client
  | none => fun u _ => u = tg

/-- The router that a server's release leaves behind. -/
def unkeyFor (r : Router) (tg : RouteId) : Option ClientId → Router
  | some client => (r.unkeyAs tg client).2
  | none => r.unkey tg

/-- Those whom the end of a client's socket takes off the air. -/
def dropped (r : Router) (client : ClientId) : RouteId → ClientId → Bool :=
  fun u d => d = client && (r.destinationRoute client).any fun tg => u ∈ r.mine tg client

theorem isClear_unkeyAs (r : Router) (tg : RouteId) (client : ClientId) (t : RouteId) :
    (r.unkeyAs tg client).2.isClear t = r.leavesClear (r.releasedAs tg client) t := by
  apply isClear_eq_leavesClear (by rw [joined, unkeyAs_patches, joined])
  intro u d
  rw [holds_unkeyAs]
  by_cases hd : d = client <;> simp [releasedAs, hd]

theorem isClear_unkey (r : Router) (tg t : RouteId) :
    (r.unkey tg).isClear t = r.leavesClear (r.releasedBy tg none) t := by
  apply isClear_eq_leavesClear (by rw [joined, unkey_patches, joined])
  intro u d
  rw [holds_unkey, releasedBy, decide_eq_false_iff_not, and_comm]

theorem isClear_unkeyFor (r : Router) (tg : RouteId) (who : Option ClientId) (t : RouteId) :
    (r.unkeyFor tg who).isClear t = r.leavesClear (r.releasedBy tg who) t := by
  cases who with
  | some client => exact isClear_unkeyAs r tg client t
  | none => exact isClear_unkey r tg t

/-- A release changes neither who watches a route nor what it is patched to. -/
theorem unkeyFor_frame (r : Router) (tg : RouteId) (who : Option ClientId) :
    (∀ t c, (r.unkeyFor tg who).listensOn t c = r.listensOn t c) ∧
      ∀ t, (r.unkeyFor tg who).joined t = r.joined t := by
  cases who with
  | some client =>
    refine ⟨listensOn_unkeyAs r tg client, fun t => ?_⟩
    rw [unkeyFor, joined, unkeyAs_patches, joined]
  | none =>
    refine ⟨listensOn_unkey r tg, fun t => ?_⟩
    rw [unkeyFor, joined, unkey_patches, joined]

/-- Neither does the end of a socket. -/
theorem releaseOnDrop_frame (r : Router) (client : ClientId) :
    (∀ t c, (Streams.releaseOnDrop r client).2.listensOn t c = r.listensOn t c) ∧
      ∀ t, (Streams.releaseOnDrop r client).2.joined t = r.joined t := by
  cases hdest : r.destinationRoute client with
  | none =>
    rw [Streams.releaseOnDrop_of_silent r client hdest]
    exact ⟨fun _ _ => rfl, fun _ => rfl⟩
  | some tg =>
    rw [Streams.releaseOnDrop_of_heard r client hdest]
    exact unkeyFor_frame r tg (some client)

theorem isClear_releaseOnDrop (r : Router) (client : ClientId) (t : RouteId) :
    (Streams.releaseOnDrop r client).2.isClear t = r.leavesClear (r.dropped client) t := by
  apply isClear_eq_leavesClear ((r.releaseOnDrop_frame client).2 t)
  intro u d
  rw [Streams.holds_releaseOnDrop]
  cases hdest : r.destinationRoute client with
  | none => simp [dropped, hdest]
  | some tg => by_cases hd : d = client <;> simp [dropped, hdest, hd]

end Router

/-! ### Call events -/

/-- The events that start and end calls: a server's requests, a console's frames, and the end of a
socket. -/
inductive CallEvent
  | key (server : UInt32) (body : Value) (now : Instant)
  | unkey (server : UInt32) (body : Value)
  | txKey (sender : Sender) (reserved : UInt8) (tg : RouteId) (rest : List UInt8) (now : Instant)
  | txUnkey (sender : Sender) (reserved : UInt8) (tg : RouteId) (rest : List UInt8)
  | close (sender : Sender)

def CallEvent.event : CallEvent → Event
  | .key server body now => .fleet server "key" body now
  | .unkey server body => .fleet server "unkey" body 0
  | .txKey sender reserved tg rest now =>
    .frame sender (Streams.txKeyKind :: reserved :: beBytes tg ++ rest) now
  | .txUnkey sender reserved tg rest =>
    .frame sender (Streams.txUnkeyKind :: reserved :: beBytes tg ++ rest) 0
  | .close sender => .close sender

theorem headerOf_frame (kind reserved : UInt8) (tg : RouteId) (rest : List UInt8) :
    headerOf (kind :: reserved :: beBytes tg ++ rest) = some (kind, tg) :=
  congrArg (fun route => some (kind, route)) (ofBeBytes_beBytes tg)

/-- What a key request of a server does: nothing, when its body is short of a field; and otherwise
the router's request, with an announcement when the call is new. -/
theorem Control.key_cases (core : Core) (server : UInt32) (body : Value) (now : Instant) :
    (Control.key core server body now).2 = core ∨
      ∃ tg client, (Control.key core server body now).2.router =
          (core.router.keyAt tg client now).2 ∧
        ((Control.key core server body now).2.streams = core.streams ∨
          ∃ k unit, (core.router.keyAt tg client now).1 = .ok k ∧
            (Control.key core server body now).2.streams =
              Control.announceCall (core.router.keyAt tg client now).2 core.streams tg true
                unit) := by
  unfold Control.key
  cases body.u32Of "tg" with
  | none => exact Or.inl rfl
  | some tg =>
    cases Control.clientOf server body with
    | none => exact Or.inl rfl
    | some client =>
      refine Or.inr ⟨tg, client, ?_⟩
      dsimp only
      rcases core.router.keyAt tg client now with ⟨answer, r⟩
      cases answer with
      | error e => exact ⟨rfl, Or.inl rfl⟩
      | ok k =>
        cases k with
        | mixed => exact ⟨rfl, Or.inl rfl⟩
        | doubled => exact ⟨rfl, Or.inl rfl⟩
        | granted => exact ⟨rfl, Or.inr ⟨.granted, Control.unitOf body, rfl, rfl⟩⟩
        | preempted holder => exact ⟨rfl, Or.inr ⟨.preempted holder, Control.unitOf body, rfl, rfl⟩⟩

/-- A console's accepted key request tells nobody anything of another route; a refused one tells
nobody of any. -/
theorem Streams.lastCall_txKey_of_ne (core : Core) (tg : RouteId) (client : ClientId)
    (now : Instant) (c : ClientId) {t : RouteId}
    (ht : ∀ k, (core.router.keyAt tg client now).1 = .ok k → t ≠ tg) :
    (Streams.txKey core tg client now).streams.lastCall c t = core.streams.lastCall c t := by
  unfold Streams.txKey
  rcases hreq : core.router.keyAt tg client now with ⟨answer, r⟩
  rw [hreq] at ht
  cases answer with
  | error e => exact Streams.lastCall_sendDeny _ _ _ _ _ _
  | ok k =>
    have hne : t ≠ tg := ht k rfl
    have hcalls : ∀ s : Streams,
        ((s.sendCalls (Streams.consolesOn r tg) tg true "DISPATCH").sendCall client tg true
          "DISPATCH").lastCall c t = s.lastCall c t := by
      intro s
      rw [Streams.lastCall_sendCall, if_neg fun h => hne h.2.2, Streams.lastCall_sendCalls,
        if_neg fun h => hne h.2.1]
    cases k with
    | preempted was =>
      refine (hcalls _).trans ?_
      rw [Streams.lastCall_sendCall, if_neg fun h => hne h.2.2, Streams.lastCall_sendDeny]
    | _ => exact hcalls _

/-- After a console's own release, those who have a sink and are watching the route, and the console
itself, were last told that the call is over, if it is. -/
theorem Streams.lastCall_txUnkey (core : Core) (tg : RouteId) (client : ClientId) {c : ClientId}
    (t : RouteId) (hc : c.isConsole = true) :
    (Streams.txUnkey core tg client).streams.lastCall c t =
      if (core.router.unkeyAs tg client).2.isClear tg = true ∧ t = tg ∧
        (core.router.listensOn tg c = some true ∨ c = client) ∧
          (core.streams.sinks.lookup c).isSome = true
      then some false else core.streams.lastCall c t := by
  have hwatching : c ∈ Streams.consolesOn (core.router.unkeyAs tg client).2 tg ↔
      core.router.listensOn tg c = some true := by
    rw [Streams.mem_consolesOn, Router.listensOn_unkeyAs]
    simp only [hc, and_true]
  unfold Streams.txUnkey Streams.releaseKey
  dsimp only
  by_cases hover : (core.router.unkeyAs tg client).2.isClear tg = true
  · rw [if_pos hover, Streams.lastCall_sendCall, Streams.sendCalls_sinks,
      Streams.lastCall_sendCalls]
    simp only [hwatching, hover, true_and]
    by_cases hself : c = client
    · subst hself
      grind
    · grind
  · rw [if_neg hover, if_neg fun reached => hover reached.1]

namespace Node

variable {host : Host} {n n' : Node host}

def callStep (n : Node host) (e : CallEvent) : Node host := n.step e.event

/-- The client has a socket open. -/
def Connected (n : Node host) (c : ClientId) : Prop := ∃ s ∈ n.sockets, s.client = c

/-- A connected console, listening on a route, was last told that a call is up on it. -/
structure Lit (n : Node host) (c : ClientId) (t : RouteId) : Prop where
  console : c.isConsole = true
  connected : n.Connected c
  listens : c ∈ n.router.listenersOf t
  told : n.streams.lastCall c t = some true

/-- No connected console shows a channel as busy that is clear. -/
def NoneLit (n : Node host) : Prop := ∀ t c, n.router.isClear t = true → ¬ n.Lit c t

/-- The event tells every lit console whose channel it leaves clear.

A server's release tells a console that has a sink, if it leaves the released route's own channel
clear, on the first route of that patch that the console watches. A console's release tells those
with a sink that watch the released route, of that route. The end of a socket tells nobody, so those
it leaves lit must have no other socket open. -/
def tellsLit (n : Node host) : CallEvent → Prop
  | .key .. => True
  | .txKey .. => True
  | .unkey server body =>
    ∀ tg, body.u32Of "tg" = some tg → ∀ t c,
      n.router.leavesClear (n.router.releasedBy tg (Control.clientOf server body)) t = true →
        n.Lit c t →
          n.router.leavesClear (n.router.releasedBy tg (Control.clientOf server body)) tg = true ∧
            n.router.watchedFirst tg c = some t ∧ (n.streams.sinks.lookup c).isSome = true
  | .txUnkey sender _ tg _ =>
    ∀ s, n.socket sender = some s → ∀ t c,
      n.router.leavesClear (n.router.releasedAs tg s.client) t = true → n.Lit c t →
        t = tg ∧ (n.streams.sinks.lookup c).isSome = true
  | .close sender =>
    ∀ s, n.socket sender = some s → ∀ t c,
      n.router.leavesClear (n.router.dropped s.client) t = true → n.Lit c t →
        ∀ s' ∈ n.sockets, s'.client = c → s'.sender = sender

/-! ### Starts -/

/-- A step that clears no channel, and tells nobody of a channel that is clear, keeps clear channels
dark. -/
theorem NoneLit.of_start (h : n.NoneLit)
    (hclear : ∀ t, n'.router.isClear t = true → n.router.isClear t = true)
    (hsockets : n'.sockets = n.sockets)
    (hlistens : ∀ t c, n'.router.listensOn t c = n.router.listensOn t c)
    (hlast : ∀ t c, c.isConsole = true → n'.router.isClear t = true →
      n'.streams.lastCall c t = n.streams.lastCall c t) : n'.NoneLit := by
  rintro t c hclear' ⟨hconsole, hconnected, hlisten, htold⟩
  refine h t c (hclear t hclear') ⟨hconsole, ?_, ?_, ?_⟩
  · obtain ⟨s, hs, hclient⟩ := hconnected
    exact ⟨s, hsockets ▸ hs, hclient⟩
  · rwa [Router.mem_listenersOf, ← hlistens, ← Router.mem_listenersOf]
  · rwa [← hlast t c hconsole hclear']

theorem noneLit_key (h : n.NoneLit) (server : UInt32) (body : Value) (now : Instant) :
    (n.callStep (.key server body now)).NoneLit := by
  have hcore : (n.callStep (.key server body now)).toCore =
      (Control.key n.toCore server body now).2 := rfl
  have hrouter : (n.callStep (.key server body now)).router =
      (Control.key n.toCore server body now).2.router := rfl
  have hstreams : (n.callStep (.key server body now)).streams =
      (Control.key n.toCore server body now).2.streams := rfl
  rcases Control.key_cases n.toCore server body now with hsame | ⟨tg, client, hkey, hsent⟩
  · refine h.of_start (fun t ht => ?_) rfl (fun t c => ?_) fun t c _ _ => ?_
    · rwa [hrouter, hsame] at ht
    · rw [hrouter, hsame]
    · rw [hstreams, hsame]
  · refine h.of_start (fun t ht => ?_) rfl (fun t c => ?_) fun t c hconsole ht => ?_
    · rw [hrouter, hkey] at ht
      exact Router.isClear_of_isClear_keyAt ht
    · rw [hrouter, hkey, Router.listensOn_keyAt]
    · rw [hstreams]
      rcases hsent with hquiet | ⟨k, unit, hans, hannounced⟩
      · rw [hquiet]
      · rw [hannounced, Streams.lastCall_announceCall _ _ _ _ _ _ _ hconsole, if_neg]
        -- An announced route is joined to the pressed one, whose channel is busy.
        rintro ⟨hwatched, -⟩
        have hjoined := List.mem_of_find?_eq_some hwatched
        rw [Router.keyAt_joined] at hjoined
        rw [hrouter, hkey] at ht
        exact Router.not_joined_of_isClear_keyAt hans ht hjoined

theorem callStep_txKey {sender : Sender} {s : Socket host} (hs : n.socket sender = some s)
    (reserved : UInt8) (tg : RouteId) (rest : List UInt8) (now : Instant) :
    n.callStep (.txKey sender reserved tg rest now) =
      { n with toCore := Streams.txKey n.toCore tg s.client now } := by
  simp only [callStep, CallEvent.event, step, hs, frame, headerOf_frame, if_true]

theorem noneLit_txKey (h : n.NoneLit) (sender : Sender) (reserved : UInt8) (tg : RouteId)
    (rest : List UInt8) (now : Instant) :
    (n.callStep (.txKey sender reserved tg rest now)).NoneLit := by
  cases hs : n.socket sender with
  | none =>
    have hsame : n.callStep (.txKey sender reserved tg rest now) = n := by
      simp only [callStep, CallEvent.event, step, hs]
    rwa [hsame]
  | some s =>
    rw [callStep_txKey hs]
    have hrouter := Streams.txKey_router n.toCore tg s.client now
    refine h.of_start (fun t ht => ?_) rfl (fun t c => ?_) fun t c _ ht => ?_
    · dsimp only at ht
      rw [hrouter] at ht
      exact Router.isClear_of_isClear_keyAt ht
    · dsimp only
      rw [hrouter, Router.listensOn_keyAt]
    · dsimp only at ht ⊢
      rw [hrouter] at ht
      apply Streams.lastCall_txKey_of_ne n.toCore tg s.client now c
      intro k hans
      rintro rfl
      exact Router.not_joined_of_isClear_keyAt hans ht (Router.mem_joined_self _ t)

/-! ### Ends -/

/-- A release that tells some consoles that a call is over, and tells nobody anything else, keeps
clear channels dark exactly when it tells every lit console whose channel it leaves clear. -/
theorem noneLit_release_iff {gone : RouteId → ClientId → Bool} {told : ClientId → RouteId → Prop}
    [∀ c t, Decidable (told c t)]
    (hclear : ∀ t, n'.router.isClear t = n.router.leavesClear gone t)
    (hlistens : ∀ t c, n'.router.listensOn t c = n.router.listensOn t c)
    (hconnected : ∀ c, n'.Connected c → n.Connected c)
    (hlast : ∀ t c, c.isConsole = true → n'.streams.lastCall c t =
      if told c t then some false else n.streams.lastCall c t) :
    n'.NoneLit ↔ ∀ t c, n.router.leavesClear gone t = true → n.Lit c t → n'.Connected c →
      told c t := by
  have hsame : ∀ t c, c ∈ n'.router.listenersOf t ↔ c ∈ n.router.listenersOf t := fun t c => by
    rw [Router.mem_listenersOf, Router.mem_listenersOf, hlistens]
  constructor
  · intro h t c hleaves hlit hconn
    -- A console that is not told stays lit, on a channel that is clear now.
    by_contra hnot
    refine h t c ((hclear t).trans hleaves) ⟨hlit.console, hconn, ?_, ?_⟩
    · exact (hsame t c).mpr hlit.listens
    · rw [hlast t c hlit.console, if_neg hnot]
      exact hlit.told
  · rintro htells t c hclear' ⟨hconsole, hconn, hlisten, htold⟩
    rw [hlast t c hconsole] at htold
    -- A console that is lit afterwards was not told, so it was lit before, and had to be told.
    by_cases hnow : told c t
    · rw [if_pos hnow] at htold
      exact absurd htold (by simp)
    · rw [if_neg hnow] at htold
      refine hnow (htells t c ((hclear t).symm.trans hclear') ?_ hconn)
      exact ⟨hconsole, hconnected c hconn, (hsame t c).mp hlisten, htold⟩

/-- What a server's release does to the router, and whom it tells. -/
theorem callStep_unkey (server : UInt32) {body : Value} {tg : RouteId}
    (htg : body.u32Of "tg" = some tg) :
    (n.callStep (.unkey server body)).router =
        n.router.unkeyFor tg (Control.clientOf server body) ∧
      (n.callStep (.unkey server body)).streams =
        if (n.router.unkeyFor tg (Control.clientOf server body)).isClear tg then
          Control.announceCall (n.router.unkeyFor tg (Control.clientOf server body)) n.streams tg
            false ""
        else n.streams := by
  have hcore : (n.callStep (.unkey server body)).toCore =
      (Control.unkey n.toCore server body).2 := rfl
  rw [hcore]
  simp only [Control.unkey, htg]
  cases Control.clientOf server body with
  | some client => exact ⟨rfl, rfl⟩
  | none => exact ⟨rfl, rfl⟩

theorem noneLit_unkey_iff (h : n.NoneLit) (server : UInt32) (body : Value) :
    (n.callStep (.unkey server body)).NoneLit ↔ n.tellsLit (.unkey server body) := by
  cases htg : body.u32Of "tg" with
  | none =>
    have hsame : n.callStep (.unkey server body) = n := by
      have hcore : (Control.unkey n.toCore server body).2 = n.toCore := by
        simp only [Control.unkey, htg]
      exact congrArg (fun core : Core => ({ n with toCore := core } : Node host)) hcore
    rw [hsame]
    exact iff_of_true h fun tg heq => absurd (htg.symm.trans heq) (by simp)
  | some tg =>
    obtain ⟨hrouter, hstreams⟩ := n.callStep_unkey server htg
    generalize hwho : Control.clientOf server body = who at hrouter hstreams
    obtain ⟨hlistens, hjoined⟩ := n.router.unkeyFor_frame tg who
    have hclear := n.router.isClear_unkeyFor tg who
    have hwatched : ∀ c, (n.router.unkeyFor tg who).watchedFirst tg c =
        n.router.watchedFirst tg c := fun c =>
      Router.watchedFirst_congr (hjoined tg) fun t => hlistens t c
    -- The end of the call goes across the patch, once it has gone clear.
    have hlast : ∀ t c, c.isConsole = true →
        (n.callStep (.unkey server body)).streams.lastCall c t =
          if n.router.leavesClear (n.router.releasedBy tg who) tg = true ∧
            n.router.watchedFirst tg c = some t ∧ (n.streams.sinks.lookup c).isSome = true
          then some false else n.streams.lastCall c t := by
      intro t c hconsole
      rw [hstreams, hclear]
      by_cases hover : n.router.leavesClear (n.router.releasedBy tg who) tg = true
      · rw [if_pos hover, Streams.lastCall_announceCall _ _ _ _ _ _ _ hconsole, hwatched]
        simp only [hover, true_and]
      · rw [if_neg hover, if_neg fun reached => hover reached.1]
    have hsockets : ∀ c, (n.callStep (.unkey server body)).Connected c → n.Connected c :=
      fun _ hconn => hconn
    rw [noneLit_release_iff (fun t => by rw [hrouter, hclear])
      (fun t c => by rw [hrouter, hlistens]) hsockets hlast]
    constructor
    · intro htells tg' heq t c
      obtain rfl := Option.some.inj (htg.symm.trans heq)
      rw [hwho]
      exact fun hleaves hlit => htells t c hleaves hlit hlit.connected
    · intro htells t c hleaves hlit _
      have htold := htells tg htg t c
      rw [hwho] at htold
      exact htold hleaves hlit

/-- A console's own release, on an open socket. -/
theorem callStep_txUnkey {sender : Sender} {s : Socket host} (hs : n.socket sender = some s)
    (reserved : UInt8) (tg : RouteId) (rest : List UInt8) :
    n.callStep (.txUnkey sender reserved tg rest) =
      { n with toCore := Streams.txUnkey n.toCore tg s.client } := by
  simp only [callStep, CallEvent.event, step, hs, frame, headerOf_frame,
    show Streams.txUnkeyKind ≠ Streams.txKeyKind by decide, if_false, if_true]

theorem noneLit_txUnkey_iff (h : n.NoneLit) (sender : Sender) (reserved : UInt8) (tg : RouteId)
    (rest : List UInt8) :
    (n.callStep (.txUnkey sender reserved tg rest)).NoneLit ↔
      n.tellsLit (.txUnkey sender reserved tg rest) := by
  cases hs : n.socket sender with
  | none =>
    have hsame : n.callStep (.txUnkey sender reserved tg rest) = n := by
      simp only [callStep, CallEvent.event, step, hs]
    rw [hsame]
    exact iff_of_true h fun s heq => absurd (hs.symm.trans heq) (by simp)
  | some s =>
    have hrouter : (n.callStep (.txUnkey sender reserved tg rest)).router =
        (n.router.unkeyAs tg s.client).2 := by
      rw [callStep_txUnkey hs]
      exact Streams.txUnkey_router n.toCore tg s.client
    have hclear := fun t => Router.isClear_unkeyAs n.router tg s.client t
    -- The end of the call goes to the released route only.
    have hlast : ∀ t c, c.isConsole = true →
        (n.callStep (.txUnkey sender reserved tg rest)).streams.lastCall c t =
          if n.router.leavesClear (n.router.releasedAs tg s.client) tg = true ∧ t = tg ∧
            (n.router.listensOn tg c = some true ∨ c = s.client) ∧
              (n.streams.sinks.lookup c).isSome = true
          then some false else n.streams.lastCall c t := by
      intro t c hconsole
      rw [callStep_txUnkey hs]
      refine (Streams.lastCall_txUnkey n.toCore tg s.client t hconsole).trans ?_
      rw [hclear]
    have hsockets : ∀ c, (n.callStep (.txUnkey sender reserved tg rest)).Connected c →
        n.Connected c := by
      intro c hconn
      rwa [callStep_txUnkey hs] at hconn
    rw [noneLit_release_iff (fun t => by rw [hrouter, hclear])
      (fun t c => by rw [hrouter, Router.listensOn_unkeyAs]) hsockets hlast]
    constructor
    · intro htells s' heq t c hleaves hlit
      obtain rfl := Option.some.inj (hs.symm.trans heq)
      obtain ⟨-, ht, -, hsink⟩ := htells t c hleaves hlit <| by
        rw [callStep_txUnkey hs]
        exact hlit.connected
      exact ⟨ht, hsink⟩
    · intro htells t c hleaves hlit _
      obtain ⟨rfl, hsink⟩ := htells s hs t c hleaves hlit
      exact ⟨hleaves, rfl, Or.inl (Router.mem_listenersOf.mp hlit.listens), hsink⟩

/-- The end of an open socket. -/
theorem callStep_close {sender : Sender} {s : Socket host} (hs : n.socket sender = some s) :
    n.callStep (.close sender) =
      { n with
        toCore := Streams.dropSocket n.toCore s.client
        sockets := n.sockets.filter fun s => s.sender ≠ sender } := by
  simp only [callStep, CallEvent.event, step, hs]

theorem noneLit_close_iff (h : n.NoneLit) (sender : Sender) :
    (n.callStep (.close sender)).NoneLit ↔ n.tellsLit (.close sender) := by
  cases hs : n.socket sender with
  | none =>
    have hsame : n.callStep (.close sender) = n := by
      simp only [callStep, CallEvent.event, step, hs]
    rw [hsame]
    exact iff_of_true h fun s heq => absurd (hs.symm.trans heq) (by simp)
  | some s =>
    have hrouter : (n.callStep (.close sender)).router =
        (Streams.releaseOnDrop n.router s.client).2 := by
      rw [callStep_close hs]
      rfl
    -- Frames that were handed over stay handed over: only the sink is taken away.
    have hlast : ∀ t c, (n.callStep (.close sender)).streams.lastCall c t =
        n.streams.lastCall c t := by
      intro t c
      rw [callStep_close hs]
      rfl
    have hconnected : ∀ c, (n.callStep (.close sender)).Connected c ↔
        ∃ s' ∈ n.sockets, s'.client = c ∧ s'.sender ≠ sender := by
      intro c
      rw [callStep_close hs]
      simp only [Connected, List.mem_filter, decide_eq_true_eq, and_assoc]
      exact exists_congr fun s' => and_congr_right fun _ => and_comm
    have hbefore : ∀ c, (n.callStep (.close sender)).Connected c → n.Connected c := by
      intro c hconn
      obtain ⟨s', hs', hclient, -⟩ := (hconnected c).mp hconn
      exact ⟨s', hs', hclient⟩
    rw [noneLit_release_iff (fun t => by rw [hrouter, Router.isClear_releaseOnDrop])
      (fun t c => by rw [hrouter, (n.router.releaseOnDrop_frame s.client).1]) hbefore
      fun t c _ => (hlast t c).trans (if_neg not_false).symm]
    constructor
    · intro hdark s' heq t c hleaves hlit s'' hs'' hclient
      obtain rfl := Option.some.inj (hs.symm.trans heq)
      by_contra hother
      exact hdark t c hleaves hlit ((hconnected c).mpr ⟨s'', hs'', hclient, hother⟩)
    · intro htells t c hleaves hlit hconn
      obtain ⟨s', hs', hclient, hother⟩ := (hconnected c).mp hconn
      exact hother (htells s hs t c hleaves hlit s' hs' hclient)

/-! ### Whole runs -/

/-- An event keeps clear channels dark exactly when it tells whom it must. -/
theorem noneLit_step_iff (h : n.NoneLit) (e : CallEvent) :
    (n.callStep e).NoneLit ↔ n.tellsLit e := by
  cases e with
  | key server body now => exact iff_of_true (noneLit_key h server body now) trivial
  | unkey server body => exact noneLit_unkey_iff h server body
  | txKey sender reserved tg rest now =>
    exact iff_of_true (noneLit_txKey h sender reserved tg rest now) trivial
  | txUnkey sender reserved tg rest => exact noneLit_txUnkey_iff h sender reserved tg rest
  | close sender => exact noneLit_close_iff h sender

/-- From a node where clear channels are dark, they stay so throughout a run exactly when each of
its releases tells every lit console whose channel it leaves clear. -/
theorem noneLit_iff_along (n : Node host) (h : n.NoneLit) (es : List CallEvent) :
    (∀ pre, pre <+: es → (run callStep n pre).NoneLit) ↔ Along callStep tellsLit n es :=
  forall_prefix_iff_along (P := NoneLit) (B := fun _ => True) (fun _ _ _ => trivial)
    (fun _ e _ hs => noneLit_step_iff hs e) trivial h es

/-- Two consoles, each with an open socket, both watching the one route there is. -/
def consolesWatching : Node quietHost :=
  after quietHost false
    [.fleet 1 "tg.open" (.object [("tg", .int 1)]) 0,
      .console "console.attach" (.object [("talkgroups", .array [.int 1])]) (some "first"),
      .console "console.attach" (.object [("talkgroups", .array [.int 1])]) (some "second"),
      .connect (some "first"), .connect (some "second")]

theorem noneLit_consolesWatching : consolesWatching.NoneLit := by
  intro t c _ hlit
  have hnever : consolesWatching.streams.lastCall c t = none := rfl
  exact absurd (hnever.symm.trans hlit.told) (by simp)

/-- The first console calls and lets go: both were told, and both are told again. -/
theorem consolesWatching_go_dark :
    consolesWatching.NoneLit ∧
      ∀ pre, pre <+: [.txKey 0 0 1 [] 0, .txUnkey 0 0 1 []] →
        (run callStep consolesWatching pre).NoneLit := by
  refine ⟨noneLit_consolesWatching,
    (noneLit_iff_along consolesWatching noneLit_consolesWatching _).mpr
      ⟨trivial, fun s hs t c _ hlit => ?_, trivial⟩⟩
  obtain ⟨sender, talker, hentry⟩ := Streams.exists_of_lastCall hlit.told
  have hall : ∀ entry ∈ (consolesWatching.callStep (.txKey 0 0 1 [] 0)).streams.handed,
      entry.2.2.route = some 1 ∨ entry.2.2.route = none := by decide
  have hsinks : ∀ entry ∈ (consolesWatching.callStep (.txKey 0 0 1 [] 0)).streams.handed,
      ((consolesWatching.callStep (.txKey 0 0 1 [] 0)).streams.sinks.lookup
        entry.1).isSome = true := by decide
  refine ⟨?_, hsinks _ hentry⟩
  simpa [Frame.route] using hall _ hentry

/-- The first console calls and its socket goes away: nobody is transmitting any more, and the
second console still shows the call. -/
theorem consolesWatching_left_lit :
    consolesWatching.NoneLit ∧
      ¬ (run callStep consolesWatching [.txKey 0 0 1 [] 0, .close 0]).NoneLit := by
  refine ⟨noneLit_consolesWatching, fun hdark => ?_⟩
  exact hdark 1 ⟨consoleServer, 2⟩ (by decide)
    ⟨by decide, ⟨⟨1, ⟨consoleServer, 2⟩, none⟩, List.mem_singleton.mpr rfl, rfl⟩, by decide,
      by decide⟩

end Node

end RfxVoiced
