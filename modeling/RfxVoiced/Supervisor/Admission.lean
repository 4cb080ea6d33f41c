import RfxVoiced.Control.Handle
import RfxVoiced.Supervisor

/-!
# Who is let in

The control plane takes connections from anybody. What becomes of a request depends on the keys that
it presents, and on the servers that are listed when it comes: the supervisor builds the key index
anew on every poll, so that a server that is listed is let in from then on, and a key that was
revoked is of no use any more.

The node under its supervisor, with connections as they come from outside, is a machine over the one
that is handed messages. Its runs are runs of that machine, in which every message was authorised
when it came.

## Main definitions

* `Authority` — what entitles a request to be handled as a message
* `ServiceEvent`, `Supervisor.serve` — the node with connections from outside
* `Supervisor.steps`, `Supervisor.Authorised` — what each of them is handled as, and on whose
  authority

## Main results

* `messages_authorised` — every run is one of the node, whose messages were all authorised
* `handled_as_entitled` — where no two servers share a key, a request is handled as the message that
  it is entitled to, and else it is refused and changes nothing
-/

namespace RfxVoiced

open Control (Gate Reads receive answer handle presentedKey presentedNodeKey)

/-- What entitles a request to be handled as a message, when these servers are listed: for a message
of the console plane the node key, and for a message of a server the key of that server. -/
inductive Authority (gate : Gate) (list : List Server) (request : Control.Request) (now : Instant)
    (minted : Option String) : Event → Prop
  | console {key : String} (known : gate.nodeKey = some key) (ne : key ≠ "")
    (presented : presentedNodeKey request.headers = key) :
    Authority gate list request now minted
      (.console (String.ofList request.path) (gate.payload request) minted)
  | server {s : Server} (listed : s ∈ list) (fleet : presentedNodeKey request.headers = "")
    (presented : s.hash gate.digests =
      some (gate.digests.sha256Hex (presentedKey request.headers (gate.payload request)))) :
    Authority gate list request now minted
      (.fleet s.id (String.ofList request.path) (gate.payload request) now)

/-- A message of one of the two planes. -/
def Event.isMessage : Event → Bool
  | .fleet _ _ _ _ => true
  | .console _ _ _ => true
  | _ => false

/-- What reaches a node from outside. Messages come as bytes, over connections. -/
inductive ServiceEvent
  /-- A connection, with what its reads deliver, and the token that would be minted for it. -/
  | connection (rd : Reads) (now : Instant) (minted : Option String)
  /-- A poll: the answer of the platform and the fate of its caching, or no answer. -/
  | poll (fetched : Option (ServerList × CacheWrite))
  /-- A tap, a socket, or the end of a tap. -/
  | plane (e : { e : Event // e.isMessage = false })

namespace Supervisor

variable {host : Host} (gate : Gate)

/-- One event, handled whole. -/
def serve (s : Supervisor host) : ServiceEvent → Supervisor host
  | .connection rd now minted =>
    let core := (handle gate host.answerRecall s.keys s.node.toCore rd now minted).2
    { s with node := { s.node with toCore := core } }
  | .poll fetched => s.step gate.digests (.poll fetched)
  | .plane e => s.step gate.digests (.plane e.1)

/-- The message that a request is handled as, if it is let in. -/
def message (keys : KeyIndex) (request : Control.Request) (now : Instant) (minted : Option String) :
    Option Event :=
  if presentedNodeKey request.headers ≠ "" then
    if gate.nodeKey = some (presentedNodeKey request.headers) then
      some (.console (String.ofList request.path) (gate.payload request) minted)
    else none
  else
    (keys.resolve gate.digests (presentedKey request.headers (gate.payload request))).map
      fun server => .fleet server (String.ofList request.path) (gate.payload request) now

variable {gate} {keys : KeyIndex} {request : Control.Request} {now : Instant}
  {minted : Option String}

theorem any_constantTimeEq_iff (nodeKey : Option String) (presented : String) :
    (nodeKey.any fun k => constantTimeEq (asBytes k) (asBytes presented)) = true ↔
      nodeKey = some presented := by
  cases nodeKey with
  | none => simp
  | some k => simp [constantTimeEq_iff, asBytes_injective.eq_iff]

/-- A request that is let in is handled as a message, and any other is refused. -/
theorem answer_eq (gate : Gate) (keys : KeyIndex) (request : Control.Request) (now : Instant)
    (minted : Option String) (n : Node host) :
    (∃ e, message gate keys request now minted = some e ∧
      { n with toCore := (answer gate host.answerRecall keys n.toCore request now minted).2 } =
        n.step e) ∨
    (message gate keys request now minted = none ∧
      (answer gate host.answerRecall keys n.toCore request now minted).2 = n.toCore ∧
      (answer gate host.answerRecall keys n.toCore request now minted).1.1 = 401) := by
  unfold message answer
  by_cases hnode : presentedNodeKey request.headers ≠ ""
  · simp only [if_pos hnode]
    by_cases hkey : gate.nodeKey = some (presentedNodeKey request.headers)
    · rw [if_pos hkey, (any_constantTimeEq_iff _ _).mpr hkey]
      exact Or.inl ⟨_, rfl, rfl⟩
    · have hany := Bool.eq_false_iff.mpr (mt (any_constantTimeEq_iff _ _).mp hkey)
      rw [if_neg hkey, hany]
      exact Or.inr ⟨rfl, rfl, rfl⟩
  · simp only [if_neg hnode]
    cases keys.resolve gate.digests (presentedKey request.headers (gate.payload request)) with
    | none => exact Or.inr ⟨rfl, rfl, rfl⟩
    | some server => exact Or.inl ⟨_, rfl, rfl⟩

/-- A hash that the key index of a list identifies is that of a server of the list. -/
theorem exists_of_lookup_build {digests : Digests} {list : List Server} {hash : String}
    {id : UInt32} (h : (KeyIndex.build digests list).lookup hash = some id) :
    ∃ x ∈ list, x.id = id ∧ x.hash digests = some hash := by
  rw [KeyIndex.lookup_build, List.lookup_eq_some_iff] at h
  obtain ⟨front, back, hrows, -⟩ := h
  apply Server.mem_rows.mp
  rw [← List.mem_reverse, hrows]
  exact List.mem_append_right front List.mem_cons_self

/-- A request is handled as a message that it is entitled to. -/
theorem authority_of_message {list : List Server} {e : Event}
    (h : message gate (KeyIndex.build gate.digests list) request now minted = some e) :
    Authority gate list request now minted e := by
  unfold message at h
  split at h
  · next hnode =>
    obtain ⟨hkey, heq⟩ := Option.ite_none_right_eq_some.mp h
    obtain rfl := Option.some.inj heq
    exact .console hkey hnode rfl
  · next hnode =>
    obtain ⟨id, hresolve, rfl⟩ := Option.map_eq_some_iff.mp h
    rw [KeyIndex.resolve_eq_lookup] at hresolve
    obtain ⟨x, hx, rfl, hhash⟩ := exists_of_lookup_build hresolve
    exact .server hx (not_not.mp hnode) hhash

/-- What a request is entitled to, it is handled as. -/
theorem message_of_authority {list : List Server} {e : Event}
    (hdistinct : (list.filterMap fun x => x.hash gate.digests).Nodup)
    (h : Authority gate list request now minted e) :
    message gate (KeyIndex.build gate.digests list) request now minted = some e := by
  unfold message
  cases h with
  | console known ne presented =>
    subst presented
    rw [if_pos ne, if_pos known]
  | server listed fleet presented =>
    rw [if_neg (not_not.mpr fleet), KeyIndex.resolve_eq_lookup,
      (KeyIndex.lookup_build_iff hdistinct _).mpr ⟨_, listed, rfl, presented⟩]
    rfl

/-! ### One event -/

/-- The steps of the node under its supervisor that an event from outside is. -/
def steps (gate : Gate) (s : Supervisor host) : ServiceEvent → List SupervisorEvent
  | .connection rd now minted =>
    match receive rd with
    | .ok request => ((message gate s.keys request now minted).map .plane).toList
    | .error _ => []
  | .poll fetched => [.poll fetched]
  | .plane e => [.plane e.1]

/-- What comes from outside is, to the node, the messages that are let in. -/
theorem serve_eq_run (s : Supervisor host) (e : ServiceEvent) :
    s.serve gate e = run (step gate.digests) s (steps gate s e) := by
  cases e with
  | poll fetched => rfl
  | plane e => rfl
  | connection rd now minted =>
    simp only [serve, steps, handle]
    cases receive rd with
    | error stop => cases stop <;> rfl
    | ok request =>
      rcases answer_eq gate s.keys request now minted s.node with
        ⟨e, hmessage, hnode⟩ | ⟨hmessage, hcore, -⟩
      · simp only [hmessage, hnode]
        rfl
      · simp only [hmessage, hcore]
        rfl

theorem serves_serve {s : Supervisor host} (h : Serves gate.digests s) (e : ServiceEvent) :
    Serves gate.digests (s.serve gate e) := by
  rw [serve_eq_run]
  exact run_invariant (fun s e (h : Serves gate.digests s) => serves_step h e) h _

/-! ### Runs -/

/-- What an event from outside is handled as: a message only if the event is a connection that
carries a request which is authorised when it comes. -/
def Authorised (gate : Gate) (s : Supervisor host) (first : ServiceEvent) : Prop :=
  ∀ e, SupervisorEvent.plane e ∈ steps gate s first → e.isMessage = true →
    ∃ rd now minted request, first = .connection rd now minted ∧ receive rd = .ok request ∧
      Authority gate s.list request now minted e

theorem authorised_of_serves {s : Supervisor host} (h : Serves gate.digests s)
    (first : ServiceEvent) : Authorised gate s first := by
  intro e hmem he
  cases first with
  | poll fetched => simp [steps] at hmem
  | plane e' =>
    obtain rfl : e = e'.1 := by simpa [steps] using hmem
    exact absurd e'.2 (by simp [he])
  | connection rd now minted =>
    simp only [steps] at hmem
    cases hread : receive rd with
    | error stop => simp [hread] at hmem
    | ok request =>
      rw [hread, Option.mem_toList, Option.map_eq_some_iff] at hmem
      obtain ⟨e', hmessage, heq⟩ := hmem
      obtain rfl := SupervisorEvent.plane.inj heq
      rw [h.keys] at hmessage
      exact ⟨rd, now, minted, request, rfl, hread, authority_of_message hmessage⟩

theorem along_authorised {s : Supervisor host} (h : Serves gate.digests s)
    (es : List ServiceEvent) : Along (serve gate) (Authorised gate) s es := by
  induction es generalizing s with
  | nil => trivial
  | cons first es ih => exact ⟨authorised_of_serves h first, ih (serves_serve h first)⟩

/-- **Nobody is let in without a key.** However connections, polls, sockets and taps come, whatever
bytes the connections carry and however these are cut, the node under its supervisor goes through
what each of them is handled as, one after the other; and a message of a server or of the console
plane is what a connection is handled as, at the moment when it comes, only if it is authorised
then: by the node key, or by the key of a server that is listed then. -/
theorem messages_authorised (gate : Gate) (host : Host) (recording : Bool)
    (cache : Option ServerList) (fetched : Option (ServerList × CacheWrite))
    (es : List ServiceEvent) :
    run (serve gate) (boot host gate.digests recording cache fetched) es =
        run (step gate.digests) (boot host gate.digests recording cache fetched)
          (callsAlong (serve gate) (steps gate)
            (boot host gate.digests recording cache fetched) es) ∧
      Along (serve gate) (Authorised gate) (boot host gate.digests recording cache fetched) es :=
  ⟨run_of_view (v := fun s => s) serve_eq_run _ es,
    along_authorised (serves_boot gate.digests recording cache fetched) es⟩

/-- **A key is as good as the list.** In every state that the service gets to, as long as no two
listed servers go under one hash, a request is handled as the message that it is entitled to, and a
request that is entitled to none is answered with 401 and changes nothing. -/
theorem handled_as_entitled (gate : Gate) (host : Host) (recording : Bool)
    (cache : Option ServerList) (fetched : Option (ServerList × CacheWrite))
    (es : List ServiceEvent) (s : Supervisor host)
    (hs : s = run (serve gate) (boot host gate.digests recording cache fetched) es)
    (hdistinct : (s.list.filterMap fun x => x.hash gate.digests).Nodup) (request : Control.Request)
    (now : Instant) (minted : Option String) :
    (∀ e, Authority gate s.list request now minted e →
      { s.node with
        toCore := (answer gate host.answerRecall s.keys s.node.toCore request now minted).2 } =
        s.node.step e) ∧
    ((∀ e, ¬ Authority gate s.list request now minted e) →
      (answer gate host.answerRecall s.keys s.node.toCore request now minted).1.1 = 401 ∧
      (answer gate host.answerRecall s.keys s.node.toCore request now minted).2 =
        s.node.toCore) := by
  have hserves : Serves gate.digests s := by
    rw [hs]
    exact run_invariant (fun s e (h : Serves gate.digests s) => serves_serve h e)
      (serves_boot gate.digests recording cache fetched) es
  rcases answer_eq gate s.keys request now minted s.node with
    ⟨e, hmessage, hnode⟩ | ⟨hmessage, hcore, hreply⟩
  · rw [hserves.keys] at hmessage
    refine ⟨fun e' he' => ?_, fun hnone => absurd (authority_of_message hmessage) (hnone e)⟩
    have hsame := (message_of_authority hdistinct he').symm.trans hmessage
    rw [hnode, Option.some.inj hsame]
  · refine ⟨fun e' he' => ?_, fun _ => ⟨hreply, hcore⟩⟩
    rw [hserves.keys, message_of_authority hdistinct he'] at hmessage
    contradiction

/-- A node that has nothing but its cache: one server, which goes under the hash of "bravo". -/
def cachedService : Supervisor quietHost :=
  boot quietHost KeyIndex.exampleDigests false
    (some ⟨[⟨2, "B", "127.0.0.1", 30121,
      "F144A6907DC4284D1F9FE6A7D9B9FF53C02C1D07BA68F24D413D7FF7F757A782"⟩], []⟩) none

def exampleGate : Gate := ⟨fun _ => none, KeyIndex.exampleDigests, some "node"⟩

/-- It asks for the figures, and presents "bravo". -/
def exampleRequest : Control.Request :=
  ⟨"stats".toList, Table.collect [("x-rfx-key".toList, "bravo".toList)], []⟩

theorem handled_as_entitled_bravo :
    { cachedService.node with
      toCore := (answer exampleGate quietHost.answerRecall cachedService.keys
        cachedService.node.toCore exampleRequest 0 none).2 } =
      cachedService.node.step (.fleet 2 "stats" (.object []) 0) :=
  (handled_as_entitled exampleGate quietHost false _ none [] cachedService rfl (by decide)
    exampleRequest 0 none).1 _ (.server (List.mem_singleton_self _) (by decide) (by decide))

end Supervisor

end RfxVoiced
