import RfxVoiced.Node.Authority

/-!
# The calls behind an event

Every plane reaches the router through the same few calls. This file lists, event by event, the
calls that an event makes, and shows that the router goes through them and through nothing else. So
the routers of a node are routers that a run of calls has led to, and what holds of these holds of
any interleaving of the planes.

## Main definitions

* `Control.fleetCalls`, `Control.consoleCalls` — the calls of a message
* `Node.calls` — the calls of an event

## Main results

* `router_step` — the router after an event is the router after its calls
* `exists_after_eq` — the router of every node reached is one that a list of calls leads to
-/

namespace RfxVoiced

namespace Control

/-- The call of one entry of `tg.members`. -/
def memberCall (server : UInt32) (m : Value) : Option Router.Op :=
  (m.u32Of "tg").bind fun tg => (clientOf server m).map fun client =>
    .setMember tg client (m.flag "listen") (qualityOf m)

/-- The calls of a message of an authenticated server. -/
def fleetCalls (path : String) (body : Value) (server : UInt32) (now : Instant) :
    List Router.Op :=
  match path with
  | "conv.open" =>
    ((body.u32Of "tg").map fun id => Router.Op.openConventional id (body.flag "am")).toList
  | "tg.open" =>
    ((body.u32Of "tg").map fun tg => Router.Op.openRoute tg (body.flag "encrypted")).toList
  | "tg.close" => ((body.u32Of "tg").map Router.Op.close).toList
  | "tg.members" =>
    (((body.get "members").bind Value.asArray).getD []).filterMap (memberCall server)
  | "tg.member" => (memberCall server body).toList
  | "key" =>
    ((body.u32Of "tg").bind fun tg => (clientOf server body).map fun client =>
      Router.Op.keyAt tg client now).toList
  | "unkey" =>
    ((body.u32Of "tg").map fun tg => match clientOf server body with
      | some client => Router.Op.unkeyAs tg client
      | none => Router.Op.unkey tg).toList
  | _ => []

/-- The calls by which a console subscribes. -/
def subscribeCalls (client : ClientId) (tgs : List RouteId) : List Router.Op :=
  tgs.map fun tg => .setMember tg client true 100

/-- The groups of a patch list. -/
def groupsOf (list : List Value) : List (List RouteId) :=
  ((list.filterMap Value.asArray).map routesOf).filter fun g => 1 < g.length

/-- The calls of a message of the console plane. -/
def consoleCalls (core : Core) (path : String) (body : Value) (minted : Option String) :
    List Router.Op :=
  match path with
  | "patches.set" =>
    (((body.get "groups").bind Value.asArray).map fun list =>
      Router.Op.setPatches (groupsOf list)).toList
  | "console.attach" =>
    if minted.isSome then
      subscribeCalls ⟨consoleServer, core.nextConsole⟩ (talkgroupsOf body)
    else []
  | "console.update" =>
    ((body.u32Of "client").map fun id =>
      Router.Op.forgetMembership ⟨consoleServer, id⟩ ::
        subscribeCalls ⟨consoleServer, id⟩ (talkgroupsOf body)).getD []
  | "console.detach" =>
    ((body.u32Of "client").map fun id => Router.Op.forgetClient ⟨consoleServer, id⟩).toList
  | _ => []

variable (core : Core) (path : String) (body : Value)

/-- Entries that name no talkgroup, or no client, call nothing. -/
theorem tgMembers_router (server : UInt32) :
    (tgMembers core server body).2.router =
      run Router.step core.router
        ((((body.get "members").bind Value.asArray).getD []).filterMap (memberCall server)) := by
  unfold tgMembers
  cases (body.get "members").bind Value.asArray with
  | none => rfl
  | some list =>
    refine run_filterMap_of_view (v := fun acc : ℕ × Router => acc.2) (fun acc m => ?_)
      (0, core.router) list
    unfold memberCall
    cases m.u32Of "tg" with
    | none => rfl
    | some tg => cases clientOf server m <;> rfl

theorem key_router (server : UInt32) (now : Instant) :
    (key core server body now).2.router =
      run Router.step core.router
        ((body.u32Of "tg").bind fun tg => (clientOf server body).map fun client =>
          Router.Op.keyAt tg client now).toList := by
  unfold key
  cases body.u32Of "tg" with
  | none => rfl
  | some tg =>
    cases clientOf server body with
    | none => rfl
    | some client =>
      simp only [Option.bind_some, Option.map_some, Option.toList_some, run_cons, run_nil,
        Router.step]
      rcases core.router.keyAt tg client now with ⟨answer, r⟩
      cases answer with
      | error e => rfl
      | ok k => cases k <;> rfl

theorem dispatch_router (server : UInt32) (now : Instant) :
    (dispatch core path body server now).2.router =
      run Router.step core.router (fleetCalls path body server now) := by
  unfold dispatch fleetCalls
  split
  · unfold convOpen
    cases body.u32Of "tg" <;> rfl
  · unfold tgOpen
    cases body.u32Of "tg" <;> rfl
  · unfold tgClose
    cases body.u32Of "tg" <;> rfl
  · exact tgMembers_router core body server
  · unfold tgMember memberCall
    cases body.u32Of "tg" with
    | none => rfl
    | some tg => cases clientOf server body <;> rfl
  · exact key_router core body server now
  · unfold unkey
    cases body.u32Of "tg" with
    | none => rfl
    | some tg => cases clientOf server body <;> rfl
  -- The rest never reaches the router.
  · unfold sessionToken
    split
    · split_ifs <;> rfl
    · rfl
  · unfold sessionDrop
    split <;> rfl
  · rfl
  · simp

theorem subscribe_eq (r : Router) (client : ClientId) (tgs : List RouteId) :
    subscribe r client tgs = run Router.step r (subscribeCalls client tgs) := by
  rw [subscribeCalls, run, List.foldl_map]
  rfl

theorem dispatchConsole_router (answerRecall : String → Value → Reply)
    (minted : Option String) :
    (dispatchConsole answerRecall core path body minted).2.router =
      run Router.step core.router (consoleCalls core path body minted) := by
  unfold dispatchConsole consoleCalls
  split
  · rfl
  · rfl
  · unfold patchesSet
    cases (body.get "groups").bind Value.asArray <;> rfl
  · unfold consoleAttach
    cases minted with
    | none => rfl
    | some token => exact subscribe_eq core.router _ _
  · unfold consoleUpdate
    cases body.u32Of "client" with
    | none => rfl
    | some id => exact subscribe_eq (core.router.forgetMembership ⟨consoleServer, id⟩) _ _
  · unfold consoleDetach
    cases body.u32Of "client" <;> rfl
  · simp

end Control

namespace Node

variable {host : Host}

/-- The calls of a frame: a key request, a release, or none. -/
def frameCalls (client : ClientId) (buf : List UInt8) (now : Instant) : List Router.Op :=
  match headerOf buf with
  | none => []
  | some (kind, tg) =>
    if kind = Streams.txKeyKind then [.keyAt tg client now]
    else if kind = Streams.txUnkeyKind then [.unkeyAs tg client]
    else []

/-- The calls of an event. -/
def calls (n : Node host) : Event → List Router.Op
  | .fleet server path body now => Control.fleetCalls path body server now
  | .console path body minted => Control.consoleCalls n.toCore path body minted
  | .bind session username => [.bind session username]
  | .unbind session => [.unbind session]
  | .detach server => [.dropServer server]
  | .patches groups => [.setPatches groups]
  | .connect _ => []
  | .frame sender buf now =>
    ((n.socket sender).map fun s => frameCalls s.client buf now).getD []
  | .close sender =>
    ((n.socket sender).bind fun s => (n.router.destinationRoute s.client).map fun tg =>
      Router.Op.unkeyAs tg s.client).toList

theorem frame_router (n : Node host) (s : Socket host) (buf : List UInt8) (now : Instant) :
    (n.frame s buf now).router = run Router.step n.router (frameCalls s.client buf now) := by
  unfold frame frameCalls
  rcases headerOf buf with _ | ⟨kind, tg⟩
  · rfl
  · dsimp only
    split_ifs
    · exact Streams.txKey_router n.toCore tg s.client now
    · rfl
    · exact Streams.txAudio_router n.toCore s.client host.vocoder s.talker _
    · rfl

theorem dropSocket_router (core : Core) (client : ClientId) :
    (Streams.dropSocket core client).router =
      run Router.step core.router ((core.router.destinationRoute client).map fun tg =>
        Router.Op.unkeyAs tg client).toList := by
  have hrouter : (Streams.dropSocket core client).router =
      (Streams.releaseOnDrop core.router client).2 := by
    unfold Streams.dropSocket
    rcases Streams.releaseOnDrop core.router client with ⟨released, r⟩
    rfl
  rw [hrouter]
  cases hdest : core.router.destinationRoute client with
  | none => rw [Streams.releaseOnDrop_of_silent core.router client hdest]; rfl
  | some tg => rw [Streams.releaseOnDrop_of_heard core.router client hdest]; rfl

/-- The router goes through the calls of an event, and through nothing else. -/
theorem router_step (n : Node host) (e : Event) :
    (n.step e).router = run Router.step n.router (n.calls e) := by
  cases e with
  | fleet server path body now => exact Control.dispatch_router n.toCore path body server now
  | console path body minted =>
    exact Control.dispatchConsole_router n.toCore path body host.answerRecall minted
  | connect token =>
    simp only [step, connect, calls]
    split <;> rfl
  | frame sender buf now =>
    simp only [step, calls]
    cases n.socket sender with
    | none => rfl
    | some s => exact n.frame_router s buf now
  | close sender =>
    simp only [step, calls]
    cases n.socket sender with
    | none => rfl
    | some s => exact dropSocket_router n.toCore s.client
  | _ => rfl

/-- The router of every node reached is one that a list of calls leads to. -/
theorem exists_after_eq (host : Host) (recording : Bool) (es : List Event) :
    ∃ ops, (after host recording es).router = Router.after ops :=
  ⟨_, run_of_view (v := fun n : Node host => n.router) router_step (initial host recording) es⟩

end Node

end RfxVoiced
