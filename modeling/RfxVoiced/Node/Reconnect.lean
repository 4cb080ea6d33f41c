import RfxVoiced.Lib.Registry
import RfxVoiced.Node

/-!
# Reconnecting

A client is served over one sink, however many sockets it has open: opening a socket makes it the
client's sink, and the end of any socket takes the client's sink away. The sockets and the sinks are
therefore a registry, and a client that reconnects before its old socket has ended goes deaf when it
does.

## Main definitions

* `Node.registry` — the open sockets and the sinks, as a registry
* `Node.Served` — every client with an open socket is served over its latest one
* `Link` — sockets being opened and going away, in any order

## Main results

* `registry_connect`, `registry_close` — the node's steps are those of the registry
* `served_iff_along` — exactly which runs keep every client served
-/

namespace RfxVoiced

namespace Node

variable {host : Host}

/-- The open sockets and the sinks. -/
def registry (n : Node host) : Registry ClientId Sender where
  live := n.sockets.map fun s => (s.sender, s.client)
  table := n.streams.sinks

/-- Every client with an open socket has a sink, and it is the sender of the latest of them. -/
def Served (n : Node host) : Prop :=
  ∀ client s, n.sockets.find? (fun s => s.client = client) = some s →
    n.streams.sinks.lookup client = some s.sender

/-- No two open sockets have the same sender, and the next one will have a new one. -/
def WellNumbered (n : Node host) : Prop :=
  n.registry.Distinct ∧ ∀ s ∈ n.sockets, s.sender < n.nextSender

theorem served_iff_serves {n : Node host} : n.Served ↔ n.registry.Serves := by
  have hlatest : ∀ client, n.registry.latest client =
      (n.sockets.find? fun s => s.client = client).map Socket.sender := by
    intro client
    rw [Registry.latest, registry, List.find?_map, Option.map_map]
    rfl
  constructor
  · intro h client v hv
    rw [hlatest] at hv
    obtain ⟨s, hs, rfl⟩ := Option.map_eq_some_iff.mp hv
    exact h client s hs
  · intro h client s hs
    apply h client s.sender
    rw [hlatest, hs, Option.map_some]

theorem owner_eq (n : Node host) (sender : Sender) :
    n.registry.owner sender = (n.socket sender).map Socket.client := by
  rw [Registry.owner, registry, List.find?_map, Option.map_map]
  rfl

/-- Opening a socket enters it, when its token names a client. -/
theorem registry_connect (n : Node host) (token : Option String) :
    (n.connect token).registry =
      match token.bind n.streams.clientFor with
      | none => n.registry
      | some client => n.registry.enter n.nextSender client := by
  unfold connect
  cases token.bind n.streams.clientFor <;> rfl

/-- The end of a socket makes its client leave. -/
theorem registry_close (n : Node host) (sender : Sender) :
    (n.step (.close sender)).registry = n.registry.leave sender := by
  cases hsocket : n.socket sender with
  | none =>
    have howner : n.registry.owner sender = none := by rw [owner_eq, hsocket, Option.map_none]
    rw [Registry.leave_of_no_owner howner]
    simp only [step, hsocket]
  | some s =>
    have howner : n.registry.owner sender = some s.client := by
      rw [owner_eq, hsocket, Option.map_some]
    rw [Registry.leave_of_owner howner]
    simp only [step, hsocket, registry, Streams.dropSocket, List.filter_map]
    rfl

theorem wellNumbered_connect {n : Node host} (h : n.WellNumbered) (token : Option String) :
    (n.connect token).WellNumbered := by
  have hregistry := registry_connect n token
  cases hclient : token.bind n.streams.clientFor with
  | none =>
    have hsame : n.connect token = n := by simp only [connect, hclient]
    rwa [hsame]
  | some client =>
    rw [hclient] at hregistry
    constructor
    · rw [hregistry]
      refine Registry.distinct_enter h.1 (fun hmem => ?_) client
      -- Every open socket was numbered before the next one.
      rw [registry, List.map_map] at hmem
      obtain ⟨s, hs, heq⟩ := List.mem_map.mp hmem
      exact absurd (h.2 s hs) (by simp [← heq])
    · intro s hs
      simp only [connect, hclient] at hs ⊢
      rcases List.mem_cons.mp hs with rfl | hs
      · exact Nat.lt_succ_self _
      · exact Nat.lt_succ_of_lt (h.2 s hs)

theorem wellNumbered_close {n : Node host} (h : n.WellNumbered) (sender : Sender) :
    (n.step (.close sender)).WellNumbered := by
  constructor
  · rw [registry_close]
    exact Registry.distinct_leave h.1 sender
  · intro s hs
    cases hsocket : n.socket sender with
    | none =>
      simp only [step, hsocket] at hs ⊢
      exact h.2 s hs
    | some _ =>
      simp only [step, hsocket] at hs ⊢
      exact h.2 s (List.mem_of_mem_filter hs)

/-! ### Sockets coming and going -/

end Node

/-- A socket being opened, or going away. -/
inductive Link
  | connect (token : Option String)
  | disconnect (sender : Sender)

def Link.event : Link → Event
  | .connect token => .connect token
  | .disconnect sender => .close sender

namespace Node

variable {host : Host}

def linkStep (n : Node host) (link : Link) : Node host := n.step link.event

/-- A socket goes away only when it is the last one its client has open. -/
def closesLast (n : Node host) : Link → Prop
  | .connect _ => True
  | .disconnect sender =>
    ∀ s ∈ n.sockets, s.sender = sender → ∀ s' ∈ n.sockets, s'.client = s.client →
      s'.sender = sender

instance (n : Node host) (link : Link) : Decidable (n.closesLast link) :=
  match link with
  | .connect _ => inferInstanceAs (Decidable True)
  | .disconnect sender =>
    inferInstanceAs (Decidable (∀ s ∈ n.sockets, s.sender = sender →
      ∀ s' ∈ n.sockets, s'.client = s.client → s'.sender = sender))

theorem wellNumbered_linkStep {n : Node host} (h : n.WellNumbered) (link : Link) :
    (n.linkStep link).WellNumbered := by
  cases link with
  | connect token => exact wellNumbered_connect h token
  | disconnect sender => exact wellNumbered_close h sender

/-- A step keeps every client served exactly when it closes no socket but its client's last. -/
theorem served_linkStep_iff {n : Node host} (hn : n.WellNumbered) (h : n.Served) (link : Link) :
    (n.linkStep link).Served ↔ n.closesLast link := by
  rw [served_iff_serves] at h ⊢
  cases link with
  | connect token =>
    refine iff_of_true ?_ trivial
    have hregistry := registry_connect n token
    rw [linkStep, Link.event, step, hregistry]
    cases token.bind n.streams.clientFor with
    | none => exact h
    | some client => exact Registry.serves_enter h n.nextSender client
  | disconnect sender =>
    rw [linkStep, Link.event, registry_close, Registry.serves_leave_iff hn.1 h]
    have hlive : ∀ w c, (w, c) ∈ n.registry.live ↔
        ∃ s ∈ n.sockets, s.sender = w ∧ s.client = c := by
      intro w c
      simp [registry]
    simp only [Registry.owner_eq_some_iff hn.1, hlive]
    constructor
    · intro hlast s hs hsender s' hs' hclient
      exact hlast s.client ⟨s, hs, hsender, rfl⟩ s'.sender ⟨s', hs', rfl, hclient⟩
    · rintro hlast c ⟨s, hs, hsender, rfl⟩ w ⟨s', hs', rfl, hclient⟩
      exact hlast s hs hsender s' hs' hclient

/-- **Reconnecting does not deafen a client** exactly in the runs where a socket goes away only as
the last one of its client. -/
theorem served_iff_along (n : Node host) (hn : n.sockets = []) (links : List Link) :
    (∀ pre, pre <+: links → (run linkStep n pre).Served) ↔ Along linkStep closesLast n links := by
  have hnumbered : n.WellNumbered := by
    constructor
    · simp [Registry.Distinct, registry, hn]
    · simp [hn]
  have hserved : n.Served := by
    intro client s hs
    simp [hn] at hs
  exact forall_prefix_iff_along (B := WellNumbered) (P := Served)
    (fun _ link h => wellNumbered_linkStep h link)
    (fun _ link hb h => served_linkStep_iff hb h link) hnumbered hserved links

/-! ### A half-open socket -/

/-- A node that has minted a token for one player. -/
def onePlayer : Node quietHost :=
  (initial quietHost false).step
    (.fleet 1 "session.token" (.object [("client", .int 7), ("token", .string "secret")]) 0)

/-- Opened, gone away, and opened again. -/
theorem onePlayer_returns :
    onePlayer.sockets = [] ∧
      ∀ pre, pre <+: [Link.connect (some "secret"), .disconnect 0, .connect (some "secret")] →
        (run linkStep onePlayer pre).Served :=
  ⟨rfl, (served_iff_along onePlayer rfl _).mpr (by decide)⟩

/-- Opened twice, and then the first of the two ends: the player still has a socket open, and no
sink. -/
theorem onePlayer_deafened :
    ¬ (run linkStep onePlayer
      [.connect (some "secret"), .connect (some "secret"), .disconnect 0]).Served := by
  intro h
  have hsink := h ⟨1, 7⟩ ⟨1, ⟨1, 7⟩, none⟩ (by rfl)
  exact absurd hsink (by decide)

end Node

end RfxVoiced
