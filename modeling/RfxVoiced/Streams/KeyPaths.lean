import RfxVoiced.Streams.Announce

/-!
# The two key paths

A radio keys through its server, which posts to the control plane; a console keys over its own
socket. Both ask the router, and announce and record a call that the router grants. They were
written apart. The posted request is announced across the patch, to each console on a route that it
watches; and a request that joins a call which is open already is neither announced nor recorded.
The sent request is announced on the pressed route only, and whatever the router granted.

## Main definitions

* `Streams.handedSince` — the frames that an update hands out
* `KeyRequest` — a key request, on either path
* `KeyRequest.Announced` — it is announced, and offered to the recorder, as its answer asks
* `KeyRequest.reachesAlike` — on a socket: nobody watches the patch but from the pressed route, or
  there is nobody to tell and nothing to record

## Main results

* `Uniform.foldl`, `uniform_announceCall` — what is handed out does not depend on what was before
* `keyAt_of_joins`, `keyAt_of_not_joins` — which requests join a call that is open
* `announced_iff` — exactly when a request is announced as it should be
-/

namespace RfxVoiced

namespace Streams

/-! ### What an update hands out -/

/-- The frames that are handed out between the one state and the other. -/
def handedSince (s s' : Streams) : List (ClientId × Sender × Frame) :=
  s'.handed.take (s'.handed.length - s.handed.length)

/-- The same tables, behind what was handed out earlier. -/
def behind (s : Streams) (old : List (ClientId × Sender × Frame)) : Streams :=
  { s with handed := s.handed ++ old }

/-- The same tables, before anything was handed out. -/
def fresh (s : Streams) : Streams := { s with handed := [] }

/-- What the update hands out does not depend on what was handed out before. -/
def Uniform (f : Streams → Streams) : Prop := ∀ s old, f (s.behind old) = (f s).behind old

theorem Uniform.comp {f g : Streams → Streams} (hg : Uniform g) (hf : Uniform f) :
    Uniform fun s => g (f s) :=
  fun s old => (congrArg g (hf s old)).trans (hg (f s) old)

theorem Uniform.foldl {α : Type*} {f : Streams → α → Streams}
    (hf : ∀ a, Uniform fun s => f s a) (as : List α) : Uniform fun s => as.foldl f s :=
  fun _ old => List.foldl_hom (fun s : Streams => s.behind old) (fun s a => hf a s old)

theorem uniform_hand (client : ClientId) (frame : Frame) :
    Uniform fun s => s.hand client frame := by
  intro s old
  simp only [hand, behind]
  split <;> rfl

theorem handedSince_of_uniform {f : Streams → Streams} (hf : Uniform f) (s : Streams) :
    s.handedSince (f s) = (f s.fresh).handed := by
  have hsplit : f s = (f s.fresh).behind s.handed := hf s.fresh s.handed
  rw [handedSince, hsplit, behind, List.length_append, Nat.add_sub_cancel, List.take_left']
  rfl

theorem handedSince_self (s : Streams) : s.handedSince s = [] := by
  rw [handedSince, Nat.sub_self, List.take_zero]

variable (tg : RouteId) (keyed : Bool) (talker : String)

theorem uniform_announceCall (r : Router) :
    Uniform fun s => Control.announceCall r s tg keyed talker := by
  intro s old
  simp only [announceCall_eq]
  -- Both loops look at who was told already and at the sinks, and never at what was handed out.
  have htell : ∀ member (acc : List ClientId × Streams) (c : ClientId),
      tellOne member keyed talker (acc.1, acc.2.behind old) c =
        ((tellOne member keyed talker acc c).1,
          (tellOne member keyed talker acc c).2.behind old) := by
    intro member acc c
    unfold tellOne
    split_ifs
    · rfl
    · exact congrArg (Prod.mk _) (uniform_hand c _ acc.2 old)
  have hmember : ∀ member (acc : List ClientId × Streams),
      (r.listenersOf member).foldl (tellOne member keyed talker) (acc.1, acc.2.behind old) =
        (((r.listenersOf member).foldl (tellOne member keyed talker) acc).1,
          ((r.listenersOf member).foldl (tellOne member keyed talker) acc).2.behind old) :=
    fun member acc => List.foldl_hom
      (fun acc : List ClientId × Streams => (acc.1, acc.2.behind old)) (htell member)
  have hall : ∀ (members : List RouteId) (acc : List ClientId × Streams),
      members.foldl (fun acc member => (r.listenersOf member).foldl (tellOne member keyed talker)
        acc) (acc.1, acc.2.behind old) =
      ((members.foldl (fun acc member => (r.listenersOf member).foldl
        (tellOne member keyed talker) acc) acc).1,
      (members.foldl (fun acc member => (r.listenersOf member).foldl
        (tellOne member keyed talker) acc) acc).2.behind old) :=
    fun members acc => List.foldl_hom
      (fun acc : List ClientId × Streams => (acc.1, acc.2.behind old))
      fun acc member => hmember member acc
  exact congrArg Prod.snd (hall (r.joined tg) ([], s))

theorem mem_handed_sendCall {s : Streams} {client : ClientId} {x : ClientId × Sender × Frame} :
    x ∈ (s.sendCall client tg keyed talker).handed ↔
      x ∈ s.handed ∨ ∃ sender, s.sinks.lookup client = some sender ∧
        x = (client, sender, .call tg keyed talker) := by
  unfold sendCall hand
  cases s.sinks.lookup client <;> simp [or_comm]

/-- Telling several consoles hands each of them that has a sink the one frame. -/
theorem mem_handed_sendCalls {s : Streams} {consoles : List ClientId}
    {x : ClientId × Sender × Frame} :
    x ∈ (s.sendCalls consoles tg keyed talker).handed ↔
      x ∈ s.handed ∨ ∃ c ∈ consoles, ∃ sender, s.sinks.lookup c = some sender ∧
        x = (c, sender, .call tg keyed talker) := by
  induction consoles generalizing s with
  | nil => simp [sendCalls]
  | cons c consoles ih =>
    have hstep : s.sendCalls (c :: consoles) tg keyed talker =
        (s.sendCall c tg keyed talker).sendCalls consoles tg keyed talker := rfl
    rw [hstep, ih, mem_handed_sendCall, sendCall_sinks]
    simp [or_assoc]

end Streams

namespace Router

variable {r : Router} {tg : RouteId} {client : ClientId} {now : Instant}

/-- The route is a frequency that somebody else holds: a press there joins the open call. -/
def joinsCall (r : Router) (tg : RouteId) (client : ClientId) : Bool :=
  (r.routes.lookup tg).any fun route => route.conventional && route.keyed.any (· ≠ client)

/-- What a request that is accepted is answered: it joins a call that is open there, or it is
granted a call of its own. -/
theorem keyAt_of_joins (now : Instant) (h : r.joinsCall tg client = true) :
    (r.keyAt tg client now).1 = .ok .mixed ∨ (r.keyAt tg client now).1 = .ok .doubled := by
  rw [keyAt_fst, keyOne_fst]
  unfold joinsCall at h
  cases hroute : r.routes.lookup tg with
  | none => simp [hroute] at h
  | some route =>
    rw [hroute] at h
    cases hkeyed : route.keyed with
    | none => simp [hkeyed] at h
    | some holder =>
      simp [hkeyed] at h
      cases route.am <;> simp [Route.answer, hkeyed, h.1, h.2]

theorem keyAt_of_not_joins (h : r.joinsCall tg client = false) {k : Keyed}
    (hans : (r.keyAt tg client now).1 = .ok k) : k ≠ .mixed ∧ k ≠ .doubled := by
  rw [keyAt_fst, keyOne_fst] at hans
  unfold joinsCall at h
  cases hroute : r.routes.lookup tg with
  | none => simp [hroute] at hans
  | some route =>
    rw [hroute] at h hans
    cases hkeyed : route.keyed with
    | none =>
      simp [Route.answer, hkeyed] at hans
      simp [← hans]
    | some holder =>
      simp only [hkeyed, Option.any_some] at h
      simp only [Route.answer, hkeyed] at hans
      split_ifs at hans with hown ham hconv hpre hinsists
      · simp [← Except.ok.inj hans]
      · simp_all
      · simp_all
      · simp [← Except.ok.inj hans]

end Router

/-! ### What each path does -/

namespace Control

variable {core : Core} {server : UInt32} {body : Value} {now : Instant} {tg : RouteId}
  {client : ClientId}

/-- A posted request that is refused, or joins an open call, changes the router only. -/
theorem key_of_joins (htg : body.u32Of "tg" = some tg)
    (hclient : clientOf server body = some client)
    (hjoins : ∀ k, (core.router.keyAt tg client now).1 = .ok k → k = .mixed ∨ k = .doubled) :
    (key core server body now).2 =
      { core with router := (core.router.keyAt tg client now).2 } := by
  simp only [key, htg, hclient]
  rcases hkey : core.router.keyAt tg client now with ⟨answer, r⟩
  rw [hkey] at hjoins
  cases answer with
  | error e => rfl
  | ok k =>
    cases k with
    | mixed => rfl
    | doubled => rfl
    | granted => simpa using hjoins .granted rfl
    | preempted holder => simpa using hjoins (.preempted holder) rfl

/-- One that gets a call of its own is announced across the patch, and offered to the recorder. -/
theorem key_of_call (htg : body.u32Of "tg" = some tg) (hclient : clientOf server body = some client)
    {k : Keyed} (hans : (core.router.keyAt tg client now).1 = .ok k)
    (hnew : k ≠ .mixed ∧ k ≠ .doubled) :
    (key core server body now).2 =
      { core with
        router := (core.router.keyAt tg client now).2
        streams := announceCall (core.router.keyAt tg client now).2 core.streams tg true
          (unitOf body)
        recorder := core.recorder.begin tg server client.player (unitOf body) Dsp.rate } := by
  simp only [key, htg, hclient]
  rcases hkey : core.router.keyAt tg client now with ⟨answer, r⟩
  rw [hkey] at hans
  obtain rfl : answer = .ok k := hans
  cases k with
  | mixed => exact absurd rfl hnew.1
  | doubled => exact absurd rfl hnew.2
  | granted => rfl
  | preempted holder => rfl

end Control

namespace Streams

variable {core : Core} {tg : RouteId} {client : ClientId} {now : Instant}

/-- A sent request that is accepted is offered to the recorder, whatever the router granted. -/
theorem txKey_recorder_of_ok {k : Keyed} (hans : (core.router.keyAt tg client now).1 = .ok k) :
    (txKey core tg client now).recorder =
      core.recorder.begin tg client.server 0 "DISPATCH" Dsp.rate := by
  unfold txKey
  rcases hkey : core.router.keyAt tg client now with ⟨answer, r⟩
  rw [hkey] at hans
  obtain rfl : answer = .ok k := hans
  rfl

/-- The unit that a request cut off is told so. -/
def tellCutOff (s : Streams) (tg : RouteId) : Keyed → Streams
  | .preempted was => (s.sendDeny was tg "preempted by dispatch").sendCall was tg false ""
  | _ => s

theorem txKey_streams_of_ok {k : Keyed} (hans : (core.router.keyAt tg client now).1 = .ok k) :
    (txKey core tg client now).streams =
      ((core.streams.tellCutOff tg k).sendCalls
        (consolesOn (core.router.keyAt tg client now).2 tg) tg true "DISPATCH").sendCall client tg
          true "DISPATCH" := by
  unfold txKey
  rcases hkey : core.router.keyAt tg client now with ⟨answer, r⟩
  rw [hkey] at hans
  obtain rfl : answer = .ok k := hans
  cases k <;> rfl

end Streams

/-! ### Key requests -/

/-- A key request: posted by a server for a client of its own, or sent over a console's socket. -/
inductive KeyRequest
  | posted (server : UInt32) (body : Value)
  | sent (client : ClientId) (tg : RouteId)

namespace KeyRequest

/-- The route and the client that a request names. -/
def names : KeyRequest → Option (RouteId × ClientId)
  | posted server body =>
    (body.u32Of "tg").bind fun tg => (Control.clientOf server body).map fun client => (tg, client)
  | sent client tg => some (tg, client)

/-- The tables that a request leaves. -/
def handle (core : Core) (now : Instant) : KeyRequest → Core
  | posted server body => (Control.key core server body now).2
  | sent client tg => Streams.txKey core tg client now

/-- Every connected console that listens anywhere on the patch is handed a frame that says that a
call has started on a route it listens on; and the call is offered to the recorder. -/
def Announces (core core' : Core) (tg : RouteId) (client : ClientId) : Prop :=
  (∀ d, d.isConsole = true → (core.streams.sinks.lookup d).isSome = true →
    (∃ t ∈ core.router.joined tg, core.router.listensOn t d = some true) →
      ∃ t sender talker, core.router.listensOn t d = some true ∧
        (d, sender, Frame.call t true talker) ∈ core.streams.handedSince core'.streams) ∧
    ∃ player unit, core'.recorder = core.recorder.begin tg client.server player unit Dsp.rate

/-- No call is announced, and no recording begins. -/
def Joins (core core' : Core) : Prop :=
  (∀ d sender t talker,
    (d, sender, Frame.call t true talker) ∉ core.streams.handedSince core'.streams) ∧
    core'.recorder = core.recorder

/-- A request that is granted, or preempts, is announced across the patch and offered to the
recorder; one that doubles or mixes is neither. -/
def Announced (core : Core) (now : Instant) (q : KeyRequest) : Prop :=
  ∀ tg client, q.names = some (tg, client) →
    ∀ k, (core.router.keyAt tg client now).1 = .ok k →
      if k = .doubled ∨ k = .mixed then Joins core (q.handle core now)
      else Announces core (q.handle core now) tg client

/-- A request over a socket that joins an open call finds nobody to tell and nothing to record; one
that gets a call of its own finds nobody who listens on the patch but not on the pressed route. -/
def reachesAlike (core : Core) (now : Instant) : KeyRequest → Prop
  | posted _ _ => True
  | sent client tg =>
    if core.router.joinsCall tg client = true then
      (∀ d, d = client ∨ d.isConsole = true ∧ core.router.listensOn tg d = some true →
        core.streams.sinks.lookup d = none) ∧
        (core.recorder.recording = false ∨ (core.recorder.calls.lookup tg).isSome = true)
    else core.router.accepts tg client now = true →
      ∀ d, d.isConsole = true → (core.streams.sinks.lookup d).isSome = true →
        (∃ t ∈ core.router.joined tg, core.router.listensOn t d = some true) →
          core.router.listensOn tg d = some true

variable (core : Core) (now : Instant)

theorem begin_eq_self_iff (a : Active) (tg : RouteId) (server player : UInt32) (unit : String)
    (rate : UInt32) :
    a.begin tg server player unit rate = a ↔
      a.recording = false ∨ (a.calls.lookup tg).isSome = true := by
  unfold Active.begin
  by_cases h : (!a.recording || (a.calls.lookup tg).isSome) = true
  · rw [if_pos h]
    simpa using h
  · rw [if_neg h]
    simp only [Bool.or_eq_true, Bool.not_eq_true', not_or] at h
    refine iff_of_false (fun heq => ?_) (not_or.mpr h)
    have hopen : (a.calls.insert tg ⟨tg, server, player, unit, 0, rate⟩).lookup tg =
        a.calls.lookup tg := congrArg (fun a : Active => a.calls.lookup tg) heq
    rw [AList.lookup_insert] at hopen
    exact h.2 (by rw [← hopen, Option.isSome_some])

/-- A console that listens on the patch is handed the announcement, on a route that it watches. -/
theorem mem_handed_announceCall {r : Router} {s : Streams} (tg : RouteId) (talker : String)
    {d : ClientId} (hd : d.isConsole = true) (hsink : (s.sinks.lookup d).isSome = true)
    (hlistens : ∃ t ∈ r.joined tg, r.listensOn t d = some true) :
    ∃ t sender talker', r.listensOn t d = some true ∧
      (d, sender, Frame.call t true talker') ∈
        s.handedSince (Control.announceCall r s tg true talker) := by
  obtain ⟨t, hfirst⟩ : ∃ t, r.watchedFirst tg d = some t := by
    obtain ⟨t, ht, hlisten⟩ := hlistens
    refine Option.isSome_iff_exists.mp (List.find?_isSome.mpr ⟨t, ht, ?_⟩)
    simpa [Router.mem_listenersOf] using hlisten
  have hwatches : r.listensOn t d = some true := by
    have h := List.find?_some hfirst
    simpa [Router.mem_listenersOf] using h
  have hlast : (Control.announceCall r s.fresh tg true talker).lastCall d t = some true := by
    rw [Streams.lastCall_announceCall s.fresh d tg t true talker r hd, if_pos ⟨hfirst, hsink⟩]
  obtain ⟨sender, talker', hmem⟩ := Streams.exists_of_lastCall hlast
  refine ⟨t, sender, talker', hwatches, ?_⟩
  rw [Streams.handedSince_of_uniform (Streams.uniform_announceCall tg true talker r)]
  exact hmem

/-- A posted request is announced as it should be. -/
theorem announced_posted (server : UInt32) (body : Value) :
    (posted server body).Announced core now := by
  intro tg client hnames k hans
  obtain ⟨tg', htg, hmap⟩ := Option.bind_eq_some_iff.mp hnames
  obtain ⟨client', hclient, heq⟩ := Option.map_eq_some_iff.mp hmap
  obtain ⟨rfl, rfl⟩ := Prod.mk.inj heq
  split_ifs with hjoins
  · have hsame : ∀ k', (core.router.keyAt tg' client' now).1 = .ok k' →
        k' = .mixed ∨ k' = .doubled := by
      intro k' hk'
      obtain rfl := Except.ok.inj (hans.symm.trans hk')
      exact hjoins.symm
    rw [handle, Control.key_of_joins htg hclient hsame, Joins, Streams.handedSince_self]
    exact ⟨fun _ _ _ _ => List.not_mem_nil, rfl⟩
  · have hnew : k ≠ .mixed ∧ k ≠ .doubled := (not_or.mp hjoins).symm
    have hserver : client'.server = server := by
      obtain ⟨player, -, hplayer⟩ := Option.map_eq_some_iff.mp hclient
      rw [← hplayer]
    rw [handle, Control.key_of_call htg hclient hans hnew, Announces, hserver]
    refine ⟨fun d hd hsink hlistens => ?_, client'.player, Control.unitOf body, rfl⟩
    have hheard := mem_handed_announceCall (r := (core.router.keyAt tg' client' now).2) tg'
      (Control.unitOf body) hd hsink
    simp only [Router.keyAt_joined, Router.listensOn_keyAt] at hheard
    exact hheard hlistens

theorem mem_handed_tellCutOff {s : Streams} (hs : s.handed = []) (tg : RouteId) (k : Keyed)
    (d : ClientId) (sender : Sender) (t : RouteId) (talker : String) :
    (d, sender, Frame.call t true talker) ∉ (s.tellCutOff tg k).handed := by
  cases k with
  | preempted was =>
    simp only [Streams.tellCutOff, Streams.mem_handed_sendCall, Streams.sendDeny, Streams.hand]
    cases s.sinks.lookup was <;> simp [hs]
  | _ => simp [Streams.tellCutOff, hs]

@[simp] theorem tellCutOff_sinks (s : Streams) (tg : RouteId) (k : Keyed) :
    (s.tellCutOff tg k).sinks = s.sinks := by
  cases k <;> simp [Streams.tellCutOff, Streams.sendDeny]

/-- A sent request hands out call frames on the pressed route only: to the consoles that listen to
it, and to the sender. -/
theorem mem_handed_txKey {client : ClientId} {tg : RouteId} {k : Keyed}
    (hans : (core.router.keyAt tg client now).1 = .ok k) (d : ClientId) (sender : Sender)
    (t : RouteId) (talker : String) :
    (d, sender, Frame.call t true talker) ∈
        core.streams.handedSince (Streams.txKey core tg client now).streams ↔
      t = tg ∧ talker = "DISPATCH" ∧ core.streams.sinks.lookup d = some sender ∧
        (d = client ∨ d.isConsole = true ∧ core.router.listensOn tg d = some true) := by
  have huniform : Streams.Uniform fun s => ((s.tellCutOff tg k).sendCalls
      (Streams.consolesOn (core.router.keyAt tg client now).2 tg) tg true "DISPATCH").sendCall
        client tg true "DISPATCH" := by
    refine (Streams.uniform_hand client _).comp
      (((Streams.Uniform.foldl fun c => Streams.uniform_hand c _) _).comp ?_)
    cases k with
    | preempted was => exact (Streams.uniform_hand was _).comp (Streams.uniform_hand was _)
    | _ => exact fun _ _ => rfl
  have hsilent := mem_handed_tellCutOff (s := core.streams.fresh) rfl tg k d sender t talker
  rw [Streams.txKey_streams_of_ok hans, Streams.handedSince_of_uniform huniform,
    Streams.mem_handed_sendCall, Streams.mem_handed_sendCalls, Streams.sendCalls_sinks,
    tellCutOff_sinks]
  have hsinks : core.streams.fresh.sinks = core.streams.sinks := rfl
  simp only [hsilent, false_or, Streams.mem_consolesOn, Router.listensOn_keyAt, hsinks,
    Prod.mk.injEq, Frame.call.injEq, true_and]
  constructor
  · rintro (⟨c, ⟨hlistens, hc⟩, s, hsink, rfl, rfl, rfl, rfl⟩ | ⟨s, hsink, rfl, rfl, rfl, rfl⟩)
    · exact ⟨rfl, rfl, hsink, Or.inr ⟨hc, hlistens⟩⟩
    · exact ⟨rfl, rfl, hsink, Or.inl rfl⟩
  · rintro ⟨rfl, rfl, hsink, rfl | ⟨hd, hlistens⟩⟩
    · exact Or.inr ⟨sender, hsink, rfl, rfl, rfl, rfl⟩
    · exact Or.inl ⟨d, ⟨hlistens, hd⟩, sender, hsink, rfl, rfl, rfl, rfl⟩

/-- On a socket, a request that joins an open call goes unannounced exactly when there is nobody to
tell, and unrecorded when there is nothing to record. -/
theorem joins_txKey_iff {client : ClientId} {tg : RouteId} {k : Keyed}
    (hans : (core.router.keyAt tg client now).1 = .ok k) :
    Joins core (Streams.txKey core tg client now) ↔
      (∀ d, d = client ∨ d.isConsole = true ∧ core.router.listensOn tg d = some true →
        core.streams.sinks.lookup d = none) ∧
        (core.recorder.recording = false ∨ (core.recorder.calls.lookup tg).isSome = true) := by
  rw [Joins, Streams.txKey_recorder_of_ok hans, begin_eq_self_iff]
  refine and_congr_left fun _ => ?_
  simp only [mem_handed_txKey core now hans]
  constructor
  · intro h d hd
    rw [Option.eq_none_iff_forall_ne_some]
    exact fun sender hsink => h d sender tg "DISPATCH" ⟨rfl, rfl, hsink, hd⟩
  · rintro h d sender t talker ⟨-, -, hsink, hd⟩
    exact absurd ((h d hd).symm.trans hsink) (by simp)

/-- One that gets a call of its own is announced to everybody on the patch exactly when everybody
there listens to the pressed route. -/
theorem announces_txKey_iff {client : ClientId} {tg : RouteId} {k : Keyed}
    (hans : (core.router.keyAt tg client now).1 = .ok k) :
    Announces core (Streams.txKey core tg client now) tg client ↔
      ∀ d, d.isConsole = true → (core.streams.sinks.lookup d).isSome = true →
        (∃ t ∈ core.router.joined tg, core.router.listensOn t d = some true) →
          core.router.listensOn tg d = some true := by
  rw [Announces, Streams.txKey_recorder_of_ok hans,
    and_iff_left ⟨0, "DISPATCH", rfl⟩]
  simp only [mem_handed_txKey core now hans]
  refine forall₄_congr fun d hd hsink _ => ?_
  constructor
  · rintro ⟨t, sender, talker, hlistens, rfl, -⟩
    exact hlistens
  · intro hlistens
    obtain ⟨sender, hsender⟩ := Option.isSome_iff_exists.mp hsink
    exact ⟨tg, sender, "DISPATCH", hlistens, rfl, rfl, hsender, Or.inr ⟨hd, hlistens⟩⟩

/-- A request is announced, and offered to the recorder, as its answer asks: on the posted path
always, and on the sent path exactly when nobody is left out who watches the patch from another
route, and, where it joins an open call, there is nobody to tell and nothing to record. -/
theorem announced_iff (q : KeyRequest) : q.Announced core now ↔ q.reachesAlike core now := by
  cases q with
  | posted server body => exact iff_of_true (announced_posted core now server body) trivial
  | sent client tg =>
    simp only [Announced, reachesAlike, names, handle]
    by_cases hjoins : core.router.joinsCall tg client = true
    · rw [if_pos hjoins]
      have hanswer := Router.keyAt_of_joins now hjoins
      obtain ⟨k, hans, hk⟩ : ∃ k, (core.router.keyAt tg client now).1 = .ok k ∧
          (k = .doubled ∨ k = .mixed) :=
        hanswer.elim (fun h => ⟨_, h, Or.inr rfl⟩) fun h => ⟨_, h, Or.inl rfl⟩
      rw [← joins_txKey_iff core now hans]
      constructor
      · intro h
        simpa only [if_pos hk] using h tg client rfl k hans
      · rintro h tg' client' heq k' hans'
        obtain ⟨rfl, rfl⟩ := Prod.mk.inj (Option.some.inj heq)
        obtain rfl := Except.ok.inj (hans.symm.trans hans')
        rwa [if_pos hk]
    · rw [if_neg hjoins, Router.accepts_iff]
      rw [Bool.not_eq_true] at hjoins
      constructor
      · rintro h ⟨k, hans⟩
        have hnew := Router.keyAt_of_not_joins hjoins hans
        have hannounces := h tg client rfl k hans
        rw [if_neg (not_or.mpr hnew.symm)] at hannounces
        exact (announces_txKey_iff core now hans).mp hannounces
      · rintro h tg' client' heq k hans
        obtain ⟨rfl, rfl⟩ := Prod.mk.inj (Option.some.inj heq)
        have hnew := Router.keyAt_of_not_joins hjoins hans
        rw [if_neg (not_or.mpr hnew.symm)]
        exact (announces_txKey_iff core now hans).mpr (h ⟨k, hans⟩)

/-- Two patched talkgroups, a console that watches the second, and another that watches neither. -/
def watchedAcross : Core where
  router := Router.after [.openRoute 1 false, .openRoute 2 false, .setPatches [[1, 2]],
    .setMember 2 ⟨0, 8⟩ true 100]
  streams :=
    { Streams.empty with
      sinks := ((∅ : Table ClientId Sender).insert ⟨0, 8⟩ 3).insert ⟨0, 9⟩ 4 }
  recorder := ⟨true, ∅⟩
  nextConsole := 10

/-- The other console keys the first talkgroup, and is the only one to be told. -/
theorem watchedAcross_untold : ¬ (sent ⟨0, 9⟩ 1).Announced watchedAcross 0 := by
  intro h
  have hannounces := h 1 ⟨0, 9⟩ rfl .granted (by decide)
  rw [if_neg (by decide)] at hannounces
  obtain ⟨t, sender, talker, -, hmem⟩ :=
    hannounces.1 ⟨0, 8⟩ (by decide) (by decide) ⟨2, by decide, by decide⟩
  have honly : watchedAcross.streams.handedSince (Streams.txKey watchedAcross 1 ⟨0, 9⟩ 0).streams =
      [(⟨0, 9⟩, 4, .call 1 true "DISPATCH")] := by decide
  simp [handle, honly] at hmem

end KeyRequest

end RfxVoiced
