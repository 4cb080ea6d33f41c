import RfxVoiced.Node.Calls
import RfxVoiced.Node.Labels
import RfxVoiced.Streams.KeyPaths

/-!
# What an event does to the holders

To the holders of the routes, and to the recordings of their calls, an event of the node is one of
few things: a key request, a release, the teardown of a route, a departure, or nothing.

## Main definitions

* `Act`, `Node.act` — what an event is
* `Node.Does` — what an act does to the router, and to the labels of what is being recorded

## Main results

* `does_step` — every event but the closing of a route does what its act says
-/

namespace RfxVoiced

namespace Node

variable {host : Host} {n : Node host}

/-- What an event is to the holders of the routes: a key request, with the label of the recording it
would open; a release; the teardown of a route; a departure; or nothing. -/
inductive Act
  | key (tg : RouteId) (client : ClientId) (now : Instant) (mark : UInt32 × UInt32)
  | release (tg : RouteId) (client : ClientId)
  | clear (tg : RouteId)
  | depart (gone : ClientId → Bool)
  | quiet

def act (n : Node host) : Event → Act
  | .fleet server path body now =>
    match body.u32Of "tg", Control.clientOf server body with
    | some tg, some client =>
      if path = "key" then .key tg client now (server, client.player)
      else if path = "unkey" then .release tg client
      else .quiet
    | some tg, none => if path = "unkey" then .clear tg else .quiet
    | none, _ => .quiet
  | .console path body _ =>
    match body.u32Of "client" with
    | some id => if path = "console.detach" then .depart (· = ⟨consoleServer, id⟩) else .quiet
    | none => .quiet
  | .unbind session =>
    match n.router.clientOf session with
    | some client => .depart (· = client)
    | none => .quiet
  | .detach server => .depart (·.server = server)
  | .frame sender buf now =>
    match n.socket sender, headerOf buf with
    | some s, some (kind, tg) =>
      if kind = Streams.txKeyKind then .key tg s.client now (s.client.server, 0)
      else if kind = Streams.txUnkeyKind then .release tg s.client
      else .quiet
    | _, _ => .quiet
  | .close sender =>
    match (n.socket sender).map Socket.client with
    | some client =>
      match n.router.destinationRoute client with
      | some tg => .release tg client
      | none => .quiet
    | none => .quiet
  | _ => .quiet

/-! ### What is told to the recorder -/

theorem dispatch_recorder (core : Core) {path : String} (body : Value) (server : UInt32)
    (now : Instant) (hkey : path ≠ "key") (hunkey : path ≠ "unkey") :
    (Control.dispatch core path body server now).2.recorder = core.recorder := by
  unfold Control.dispatch
  split
  · unfold Control.convOpen
    split <;> rfl
  · unfold Control.tgOpen
    split <;> rfl
  · unfold Control.tgClose
    split <;> rfl
  · unfold Control.tgMembers
    split <;> rfl
  · unfold Control.tgMember
    split <;> rfl
  · exact absurd rfl hkey
  · exact absurd rfl hunkey
  · unfold Control.sessionToken
    split
    · split_ifs <;> rfl
    · rfl
  · unfold Control.sessionDrop
    split <;> rfl
  · rfl
  · rfl

theorem dispatchConsole_recorder (answerRecall : String → Value → Reply) (core : Core)
    (path : String) (body : Value) (minted : Option String) :
    (Control.dispatchConsole answerRecall core path body minted).2.recorder = core.recorder := by
  unfold Control.dispatchConsole
  split
  · rfl
  · rfl
  · unfold Control.patchesSet
    split <;> rfl
  · unfold Control.consoleAttach
    cases minted <;> rfl
  · unfold Control.consoleUpdate
    split <;> rfl
  · unfold Control.consoleDetach
    split <;> rfl
  · rfl

/-- Samples are added to a recording, and change nothing else of it. -/
theorem label_txAudio (vocoder : Dsp.Vocoder) (core : Core) (talker : Option vocoder.Talker)
    (client : ClientId) (samples : List UInt8) (t : RouteId) :
    (Streams.txAudio vocoder core talker client samples).1.recorder.label t =
      core.recorder.label t := by
  unfold Streams.txAudio
  split
  · rfl
  · dsimp only
    split_ifs
    · rfl
    · split
      · rfl
      · split
        · rfl
        · dsimp only
          split
          · split_ifs
            · rfl
            · exact Active.label_push core.recorder _ t _
          · rfl

/-- What an act does to the router, and to the labels of what is being recorded. -/
def Does (n n' : Node host) : Act → Prop
  | .key tg client now mark =>
    n'.router = (n.router.keyAt tg client now).2 ∧
      (∀ e, (n.router.keyAt tg client now).1 = .error e → n'.recorder = n.recorder) ∧
      ∀ k, (n.router.keyAt tg client now).1 = .ok k →
        ∃ opened, (n.router.isTalkgroup tg = true → opened = n.recorder.recording) ∧
          ∀ t, n'.recorder.label t =
            if t = tg ∧ opened = true ∧ n.recorder.label tg = none then some mark
            else n.recorder.label t
  | .release tg client =>
    n'.router = (n.router.unkeyAs tg client).2 ∧
      ∀ t, n'.recorder.label t =
        if t = tg ∧ ((n.router.unkeyAs tg client).2.talkersOn tg).isEmpty = true then none
        else n.recorder.label t
  | .clear tg =>
    n'.router = n.router.unkey tg ∧
      ∀ t, n'.recorder.label t = if t = tg then none else n.recorder.label t
  | .depart gone =>
    (∀ t c, n'.router.holds t c = true ↔ n.router.holds t c = true ∧ gone c = false) ∧
      (∀ t, n'.router.isTalkgroup t = n.router.isTalkgroup t) ∧
      n'.recorder.label = n.recorder.label
  | .quiet =>
    (∃ ops, n'.router = run Router.step n.router ops ∧ ∀ op ∈ ops, op.quiet = true) ∧
      n'.recorder.label = n.recorder.label

/-- Only on a frequency does a request join a call that is open. -/
theorem not_isTalkgroup_of_joins {r : Router} {tg : RouteId} {client : ClientId} {now : Instant}
    {k : Keyed} (hans : (r.keyAt tg client now).1 = .ok k) (hk : k = .mixed ∨ k = .doubled) :
    r.isTalkgroup tg = false := by
  have hjoins : r.joinsCall tg client = true := by
    by_contra hno
    rw [Bool.not_eq_true] at hno
    obtain ⟨hmixed, hdoubled⟩ := Router.keyAt_of_not_joins hno hans
    exact hk.elim hmixed hdoubled
  unfold Router.joinsCall at hjoins
  unfold Router.isTalkgroup
  cases hroute : r.routes.lookup tg with
  | none => rfl
  | some route =>
    rw [hroute, Option.any_some, Bool.and_eq_true] at hjoins
    simp [hjoins.1]

theorem does_key (server : UInt32) (body : Value) (now : Instant) {tg : RouteId}
    {client : ClientId} (htg : body.u32Of "tg" = some tg)
    (hclient : Control.clientOf server body = some client) :
    n.Does { n with toCore := (Control.key n.toCore server body now).2 }
      (.key tg client now (server, client.player)) := by
  by_cases hcall : ∃ k, (n.router.keyAt tg client now).1 = .ok k ∧ k ≠ .mixed ∧ k ≠ .doubled
  · obtain ⟨k, hans, hnew⟩ := hcall
    rw [Control.key_of_call htg hclient hans hnew]
    refine ⟨rfl, fun e he => absurd (he.symm.trans hans) (by simp), fun _ _ => ?_⟩
    exact ⟨n.recorder.recording, fun _ => rfl, fun t => Active.label_begin n.recorder tg t _ _ _ _⟩
  · have hjoins : ∀ k, (n.router.keyAt tg client now).1 = .ok k → k = .mixed ∨ k = .doubled := by
      intro k hk
      by_contra hnew
      exact hcall ⟨k, hk, not_or.mp hnew⟩
    rw [Control.key_of_joins htg hclient hjoins]
    refine ⟨rfl, fun _ _ => rfl, fun k hk => ⟨false, fun ht => ?_, fun t => by simp⟩⟩
    -- No talkgroup is joined.
    exact absurd (ht.symm.trans (not_isTalkgroup_of_joins hk (hjoins k hk))) (by simp)

/-- A release ends the recording of the route it names, once that route is quiet. -/
theorem does_release {n' : Node host} {tg : RouteId} {client : ClientId}
    (hrouter : n'.router = (n.router.unkeyAs tg client).2)
    (hrecorder : n'.recorder =
      if ((n.router.unkeyAs tg client).2.talkersOn tg).isEmpty = true then n.recorder.finish tg
      else n.recorder) : n.Does n' (.release tg client) := by
  refine ⟨hrouter, fun t => ?_⟩
  rw [hrecorder]
  by_cases hquiet : ((n.router.unkeyAs tg client).2.talkersOn tg).isEmpty = true
  · simp only [hquiet, if_true, Active.label_finish, and_true]
  · rw [if_neg hquiet, if_neg fun h => hquiet h.2]

theorem does_unkey_of_client {server : UInt32} {body : Value} {tg : RouteId} {client : ClientId}
    (htg : body.u32Of "tg" = some tg) (hclient : Control.clientOf server body = some client) :
    n.Does { n with toCore := (Control.unkey n.toCore server body).2 } (.release tg client) := by
  simp only [Control.unkey, htg, hclient]
  exact does_release rfl rfl

theorem does_unkey_of_none {server : UInt32} {body : Value} {tg : RouteId}
    (htg : body.u32Of "tg" = some tg) (hclient : Control.clientOf server body = none) :
    n.Does { n with toCore := (Control.unkey n.toCore server body).2 } (.clear tg) := by
  simp only [Control.unkey, htg, hclient]
  refine ⟨rfl, fun t => ?_⟩
  -- Nobody is on the route any more, so the recording is over.
  have hover : ((n.router.unkey tg).talkersOn tg).isEmpty = true :=
    Router.talkersOn_isEmpty.mpr fun c hc => ((Router.holds_unkey n.router tg tg c).mp hc).1 rfl
  simp only [hover, if_true, Active.label_finish]

theorem does_txKey (tg : RouteId) (client : ClientId) (now : Instant) :
    n.Does { n with toCore := Streams.txKey n.toCore tg client now }
      (.key tg client now (client.server, 0)) := by
  refine ⟨Streams.txKey_router n.toCore tg client now, fun e he => ?_, fun k hk => ?_⟩
  · unfold Streams.txKey
    rcases hkey : n.router.keyAt tg client now with ⟨answer, r⟩
    rw [hkey] at he
    obtain rfl : answer = .error e := he
    rfl
  · refine ⟨n.recorder.recording, fun _ => rfl, fun t => ?_⟩
    rw [Streams.txKey_recorder_of_ok hk]
    exact Active.label_begin n.recorder tg t _ _ _ _

theorem does_txUnkey (tg : RouteId) (client : ClientId) :
    n.Does { n with toCore := Streams.txUnkey n.toCore tg client } (.release tg client) := by
  exact does_release rfl rfl

theorem does_dropSocket (client : ClientId) (sockets : List (Socket host)) :
    n.Does { n with toCore := Streams.dropSocket n.toCore client, sockets := sockets }
      (((n.router.destinationRoute client).map fun tg => Act.release tg client).getD .quiet) := by
  cases hdest : n.router.destinationRoute client with
  | none =>
    have hsilent := Streams.releaseOnDrop_of_silent n.router client hdest
    refine ⟨⟨[], ?_, by simp⟩, ?_⟩
    · simp only [Streams.dropSocket, hsilent, run_nil]
    · simp only [Streams.dropSocket, hsilent]
  | some tg =>
    have hheard : Streams.releaseOnDrop n.router client =
        (some (tg, ((n.router.unkeyAs tg client).2.talkersOn tg).isEmpty),
          (n.router.unkeyAs tg client).2) := by
      simp [Streams.releaseOnDrop, Router.destinationOf, hdest]
    refine does_release ?_ ?_
    · simp only [Streams.dropSocket, hheard]
    · simp only [Streams.dropSocket, hheard]
      cases ((n.router.unkeyAs tg client).2.talkersOn tg).isEmpty <;> rfl

/-- A departure takes its clients off the air, and is not told to the recorder. -/
theorem does_depart {n' : Node host} {gone : ClientId → Bool}
    (hrouter : ∀ t, n'.router.onAir t = (n.router.onAir t).map (·.silence gone))
    (hrecorder : n'.recorder = n.recorder) : n.Does n' (.depart gone) := by
  refine ⟨fun t c => Router.holds_of_silence (hrouter t) c, fun t => ?_, by rw [hrecorder]⟩
  exact Router.isTalkgroup_of_onAir (f := fun a => a.silence gone) (fun _ => rfl) (hrouter t)

/-- A message that is none of the others is quiet. -/
theorem does_quiet {n' : Node host} (e : Event)
    (hrouter : n'.router = run Router.step n.router (n.calls e))
    (hrecorder : n'.recorder.label = n.recorder.label)
    (hquiet : ∀ op ∈ n.calls e, op.quiet = true) : n.Does n' .quiet :=
  ⟨⟨n.calls e, hrouter, hquiet⟩, hrecorder⟩

theorem quiet_fleetCalls {path : String} {body : Value} {server : UInt32} {now : Instant}
    (hkey : path ≠ "key") (hunkey : path ≠ "unkey") (hclose : path ≠ "tg.close")
    {op : Router.Op} (hop : op ∈ Control.fleetCalls path body server now) : op.quiet = true := by
  have hmember : ∀ m, op ∈ Control.memberCall server m → op.quiet = true := by
    intro m hm
    unfold Control.memberCall at hm
    cases htg : m.u32Of "tg" with
    | none => simp [htg] at hm
    | some tg =>
      cases hclient : Control.clientOf server m with
      | none => simp [htg, hclient] at hm
      | some client =>
        simp only [htg, hclient, Option.bind_some, Option.map_some, Option.mem_def,
          Option.some.injEq] at hm
        rw [← hm]
        rfl
  unfold Control.fleetCalls at hop
  split at hop
  · obtain ⟨id, -, rfl⟩ := Option.map_eq_some_iff.mp (Option.mem_toList.mp hop)
    rfl
  · obtain ⟨tg, -, rfl⟩ := Option.map_eq_some_iff.mp (Option.mem_toList.mp hop)
    rfl
  · exact absurd rfl hclose
  · obtain ⟨m, -, hm⟩ := List.mem_filterMap.mp hop
    exact hmember m hm
  · exact hmember body (Option.mem_toList.mp hop)
  · exact absurd rfl hkey
  · exact absurd rfl hunkey
  · cases hop

theorem quiet_consoleCalls {core : Core} {path : String} {body : Value} {minted : Option String}
    (hdetach : path ≠ "console.detach") {op : Router.Op}
    (hop : op ∈ Control.consoleCalls core path body minted) : op.quiet = true := by
  have hsubscribe : ∀ client tgs, op ∈ Control.subscribeCalls client tgs → op.quiet = true := by
    intro client tgs hmem
    obtain ⟨tg, -, rfl⟩ := List.mem_map.mp hmem
    rfl
  unfold Control.consoleCalls at hop
  split at hop
  · obtain ⟨list, -, rfl⟩ := Option.map_eq_some_iff.mp (Option.mem_toList.mp hop)
    rfl
  · split_ifs at hop
    · exact hsubscribe _ _ hop
    · cases hop
  · cases hid : body.u32Of "client" with
    | none => simp [hid] at hop
    | some id =>
      rw [hid, Option.map_some, Option.getD_some] at hop
      rcases List.mem_cons.mp hop with rfl | hop
      · rfl
      · exact hsubscribe _ _ hop
  · exact absurd rfl hdetach
  · cases hop

/-- The event closes a route. -/
def closes : Event → Bool
  | .fleet _ path _ _ => path = "tg.close"
  | _ => false

theorem does_fleet_key (server : UInt32) (body : Value) (now : Instant) :
    n.Does (n.step (.fleet server "key" body now)) (n.act (.fleet server "key" body now)) := by
  have hstep : n.step (.fleet server "key" body now) =
      { n with toCore := (Control.key n.toCore server body now).2 } := rfl
  cases htg : body.u32Of "tg" with
  -- A message that names no talkgroup, or no client, is refused.
  | none =>
    have hact : n.act (.fleet server "key" body now) = .quiet := by simp [act, htg]
    rw [hact]
    refine does_quiet (.fleet server "key" body now) (router_step n _) ?_ ?_
    · simp [hstep, Control.key, htg]
    · simp [calls, Control.fleetCalls, htg]
  | some tg =>
    cases hclient : Control.clientOf server body with
    | none =>
      have hact : n.act (.fleet server "key" body now) = .quiet := by simp [act, htg, hclient]
      rw [hact]
      refine does_quiet (.fleet server "key" body now) (router_step n _) ?_ ?_
      · simp [hstep, Control.key, htg, hclient]
      · simp [calls, Control.fleetCalls, htg, hclient]
    | some client =>
      have hact : n.act (.fleet server "key" body now) =
          .key tg client now (server, client.player) := by simp [act, htg, hclient]
      rw [hact, hstep]
      exact does_key server body now htg hclient

theorem does_fleet_unkey (server : UInt32) (body : Value) (now : Instant) :
    n.Does (n.step (.fleet server "unkey" body now))
      (n.act (.fleet server "unkey" body now)) := by
  have hstep : n.step (.fleet server "unkey" body now) =
      { n with toCore := (Control.unkey n.toCore server body).2 } := rfl
  cases htg : body.u32Of "tg" with
  | none =>
    have hact : n.act (.fleet server "unkey" body now) = .quiet := by simp [act, htg]
    rw [hact]
    refine does_quiet (.fleet server "unkey" body now) (router_step n _) ?_ ?_
    · simp [hstep, Control.unkey, htg]
    · simp [calls, Control.fleetCalls, htg]
  | some tg =>
    cases hclient : Control.clientOf server body with
    | none =>
      -- Unscoped: whoever holds the route is let go of.
      have hact : n.act (.fleet server "unkey" body now) = .clear tg := by
        simp [act, htg, hclient]
      rw [hact, hstep]
      exact does_unkey_of_none htg hclient
    | some client =>
      have hact : n.act (.fleet server "unkey" body now) = .release tg client := by
        simp [act, htg, hclient]
      rw [hact, hstep]
      exact does_unkey_of_client htg hclient

theorem does_fleet_other {server : UInt32} {path : String} {body : Value} {now : Instant}
    (hkey : path ≠ "key") (hunkey : path ≠ "unkey") (hclose : path ≠ "tg.close") :
    n.Does (n.step (.fleet server path body now)) (n.act (.fleet server path body now)) := by
  have hact : n.act (.fleet server path body now) = .quiet := by
    cases htg : body.u32Of "tg" with
    | none => simp [act, htg]
    | some tg =>
      cases hclient : Control.clientOf server body <;> simp [act, htg, hclient, hkey, hunkey]
  rw [hact]
  refine does_quiet (.fleet server path body now) (router_step n _) ?_
    fun op hop => quiet_fleetCalls hkey hunkey hclose hop
  exact congrArg Active.label (dispatch_recorder n.toCore body server now hkey hunkey)

theorem does_console (path : String) (body : Value) (minted : Option String) :
    n.Does (n.step (.console path body minted)) (n.act (.console path body minted)) := by
  have hrecorder := dispatchConsole_recorder host.answerRecall n.toCore path body minted
  by_cases hdetach : path = "console.detach"
  · subst hdetach
    cases hid : body.u32Of "client" with
    | none =>
      have hact : n.act (.console "console.detach" body minted) = .quiet := by simp [act, hid]
      rw [hact]
      exact does_quiet (.console "console.detach" body minted) (router_step n _)
        (congrArg Active.label hrecorder) (by simp [calls, Control.consoleCalls, hid])
    | some id =>
      have hact : n.act (.console "console.detach" body minted) =
          .depart (· = ⟨consoleServer, id⟩) := by simp [act, hid]
      rw [hact]
      refine does_depart (fun t => ?_) hrecorder
      rw [router_step]
      simp only [calls, Control.consoleCalls, hid]
      exact Router.onAir_forgetClient n.router ⟨consoleServer, id⟩ t
  · have hact : n.act (.console path body minted) = .quiet := by
      cases hid : body.u32Of "client" <;> simp [act, hid, hdetach]
    rw [hact]
    exact does_quiet (.console path body minted) (router_step n _)
      (congrArg Active.label hrecorder) fun op hop => quiet_consoleCalls hdetach hop

theorem does_frame (sender : Sender) (buf : List UInt8) (now : Instant) :
    n.Does (n.step (.frame sender buf now)) (n.act (.frame sender buf now)) := by
  have hquiet : ∀ {n' : Node host}, n'.router = n.router →
      n'.recorder.label = n.recorder.label → n.Does n' .quiet :=
    fun hrouter hrecorder => ⟨⟨[], hrouter, by simp⟩, hrecorder⟩
  cases hsocket : n.socket sender with
  | none =>
    have hact : n.act (.frame sender buf now) = .quiet := by simp [act, hsocket]
    rw [hact]
    simp only [step, hsocket]
    exact hquiet rfl rfl
  | some s =>
    simp only [step, hsocket]
    unfold frame
    rcases hheader : headerOf buf with _ | ⟨kind, tg⟩
    · have hact : n.act (.frame sender buf now) = .quiet := by simp [act, hsocket, hheader]
      rw [hact]
      exact hquiet rfl rfl
    · simp only [act, hsocket, hheader]
      split_ifs
      · exact does_txKey tg s.client now
      · exact does_txUnkey tg s.client
      · refine hquiet ?_ (funext fun t => ?_)
        · exact Streams.txAudio_router n.toCore s.client host.vocoder s.talker _
        · exact label_txAudio host.vocoder n.toCore s.talker s.client _ t
      · exact hquiet rfl rfl

/-- Every event but the closing of a route does what its act says. -/
theorem does_step (n : Node host) {e : Event} (he : closes e = false) :
    n.Does (n.step e) (n.act e) := by
  cases e with
  | fleet server path body now =>
    have hclose : path ≠ "tg.close" := by simpa [closes] using he
    by_cases hkey : path = "key"
    · subst hkey
      exact does_fleet_key server body now
    · by_cases hunkey : path = "unkey"
      · subst hunkey
        exact does_fleet_unkey server body now
      · exact does_fleet_other hkey hunkey hclose
  | console path body minted => exact does_console path body minted
  | unbind session =>
    cases hbound : n.router.clientOf session with
    | none =>
      -- A session that was never bound holds nothing.
      have hact : n.act (.unbind session) = .quiet := by simp [act, hbound]
      rw [hact]
      exact ⟨⟨[], Router.unbind_of_unbound hbound, by simp⟩, rfl⟩
    | some client =>
      have hact : n.act (.unbind session) = .depart (· = client) := by simp [act, hbound]
      rw [hact]
      exact does_depart (fun t => Router.onAir_unbind hbound t) rfl
  | detach server =>
    exact does_depart (fun t => Router.onAir_dropServer n.router server t) rfl
  | frame sender buf now => exact does_frame sender buf now
  | close sender =>
    cases hsocket : n.socket sender with
    | none =>
      -- The socket had been closed before.
      have hact : n.act (.close sender) = .quiet := by simp [act, hsocket]
      rw [hact]
      simp only [step, hsocket]
      exact ⟨⟨[], rfl, by simp⟩, rfl⟩
    | some s =>
      have hact : n.act (.close sender) =
          ((n.router.destinationRoute s.client).map fun tg => Act.release tg s.client).getD
            .quiet := by
        cases hdest : n.router.destinationRoute s.client <;> simp [act, hsocket, hdest]
      rw [hact]
      simp only [step, hsocket]
      exact does_dropSocket s.client _
  | connect token =>
    -- A socket is opened or refused, and nothing is asked of the router.
    have hsame : (n.step (.connect token)).recorder = n.recorder := by
      simp only [step, connect]
      split <;> rfl
    exact does_quiet (.connect token) (router_step n _) (congrArg Active.label hsame)
      (by simp [calls])
  | bind session username =>
    exact does_quiet (.bind session username) (router_step n _) rfl
      (by simp [calls, Router.Op.quiet])
  | patches groups =>
    exact does_quiet (.patches groups) (router_step n _) rfl (by simp [calls, Router.Op.quiet])

/-- A request that the router accepts finds its route listed. -/
theorem isSome_onAir_of_accepted {r : Router} {tg : RouteId} {client : ClientId} {now : Instant}
    {k : Keyed} (hans : (r.keyAt tg client now).1 = .ok k) : (r.onAir tg).isSome = true := by
  rw [Router.onAir, Option.isSome_map]
  cases hroute : r.routes.lookup tg with
  | none =>
    rw [Router.keyAt_fst, Router.keyOne_fst, hroute] at hans
    exact absurd hans (by simp)
  | some route => rfl

/-- A recording is opened on a listed route only. -/
theorem Does.listed {n' : Node host} {a : Act} (h : n.Does n' a) {t : RouteId}
    (ht : (n'.recorder.label t).isSome = true) :
    (n.recorder.label t).isSome = true ∨ (n.router.onAir t).isSome = true := by
  cases a with
  -- Only a key request opens a recording, and then its route is listed.
  | key tg client now mark =>
    obtain ⟨-, hrefused, haccepted⟩ := h
    cases hans : (n.router.keyAt tg client now).1 with
    | error e =>
      rw [hrefused e hans] at ht
      exact Or.inl ht
    | ok k =>
      obtain ⟨opened, -, hlabel⟩ := haccepted k hans
      rw [hlabel] at ht
      split_ifs at ht with hnew
      · rw [hnew.1]
        exact Or.inr (isSome_onAir_of_accepted hans)
      · exact Or.inl ht
  | release tg client =>
    rw [h.2] at ht
    split_ifs at ht
    · cases ht
    · exact Or.inl ht
  | clear tg =>
    rw [h.2] at ht
    split_ifs at ht
    · cases ht
    · exact Or.inl ht
  | depart gone =>
    rw [h.2.2] at ht
    exact Or.inl ht
  | quiet =>
    rw [h.2] at ht
    exact Or.inl ht

theorem ne_close_of_mem_calls {e : Event} (he : closes e = false) {op : Router.Op}
    (hop : op ∈ n.calls e) (tg : RouteId) : op ≠ .close tg := by
  cases e with
  | fleet server path body now =>
    have hclose : path ≠ "tg.close" := by simpa [closes] using he
    by_cases hkey : path = "key"
    · subst hkey
      rintro rfl
      simp [calls, Control.fleetCalls, Option.bind_eq_some_iff] at hop
    · by_cases hunkey : path = "unkey"
      · subst hunkey
        rintro rfl
        obtain ⟨tg', -, heq⟩ := Option.map_eq_some_iff.mp (Option.mem_toList.mp hop)
        split at heq <;> cases heq
      · exact Router.ne_close_of_quiet (quiet_fleetCalls hkey hunkey hclose hop) tg
  | console path body minted =>
    by_cases hdetach : path = "console.detach"
    · subst hdetach
      obtain ⟨id, -, rfl⟩ := Option.map_eq_some_iff.mp (Option.mem_toList.mp hop)
      simp
    · exact Router.ne_close_of_quiet (quiet_consoleCalls hdetach hop) tg
  | frame sender buf now =>
    rintro rfl
    simp only [calls] at hop
    cases hsocket : n.socket sender with
    | none => simp [hsocket] at hop
    | some s =>
      simp only [hsocket, Option.map_some, Option.getD_some, frameCalls] at hop
      rcases hheader : headerOf buf with _ | ⟨kind, tg'⟩
      · simp [hheader] at hop
      · simp only [hheader] at hop
        split_ifs at hop <;> simp at hop
  | close sender =>
    rintro rfl
    simp [calls, Option.bind_eq_some_iff] at hop
  | _ =>
    rintro rfl
    simp [calls] at hop

end Node

end RfxVoiced
