import RfxVoiced.Servers.Desk
import RfxVoiced.Supervisor.Admission

/-!
# A node without a platform

A node that has no platform takes its servers from the file in which an operator keeps them. It
reads the file when it starts, and again on every poll; an operator enrolls servers, rotates keys
and revokes servers while it runs, in runs of the program of their own. A poll that cannot read the
file goes on with no servers at all.

## Main definitions

* `Supervisor.bootLocal`, `Supervisor.pollLocal` — a start and a poll of such a node
* `Standalone`, `Standalone.step` — the node, the file and the book of the operator, as one machine
* `StandaloneEvent.reads` — the events in which the node reads the file

## Main results

* `desk_after` — what stands in file and book is told by the runs of the operator alone
* `serving_after` — a node serves the list that it read last
* `follows_book` — which is that of the book as it was when the file was read
-/

namespace RfxVoiced

variable {host : Host}

namespace Supervisor

/-- The servers of the file that are switched on. -/
def localServers (codec : Codec) (path : String) (file : Option String) (readable : Bool) :
    Except String (List Server) :=
  (Store.load codec path file readable).map Store.enabled

/-- Run with the servers of the file; there are no patches. -/
def adoptLocal (s : Supervisor host) (servers : List Server) : Supervisor host :=
  s.adopt (⟨servers, [], "servers.json"⟩, s.cache)

/-- A node that has just started. It does not start where the file cannot be read. -/
def bootLocal (host : Host) (digests : Digests) (recording : Bool)
    (servers : Except String (List Server)) : Option (Supervisor host) :=
  servers.toOption.map fun servers =>
    ((idle host recording none).adoptLocal servers).reconcile digests

/-- A poll. Where the file cannot be read, there are no servers. -/
def pollLocal (digests : Digests) (s : Supervisor host) (servers : Except String (List Server)) :
    Supervisor host :=
  (s.adoptLocal (servers.toOption.getD [])).reconcile digests

/-- After a pass over the servers of a file the node serves these. -/
theorem serves_adoptLocal {s : Supervisor host} (h : Linked s) (digests : Digests)
    (servers : List Server) :
    Serves digests ((s.adoptLocal servers).reconcile digests) ∧
      ((s.adoptLocal servers).reconcile digests).list = servers :=
  ⟨serves_reconcile (h.adopt _) digests,
    congrArg Prod.fst (kept_reconcile digests (s.adoptLocal servers))⟩

end Supervisor

/-- A node without a platform, if it is running, beside its file and the book of its operator. -/
structure Standalone (host : Host) where
  desk : Desk
  node : Option (Supervisor host)

/-- What happens to a node without a platform, and to its file. -/
inductive StandaloneEvent
  /-- The program is run with a command. -/
  | operator (inv : Invocation)
  /-- The node is started, or started anew. -/
  | start (recording readable : Bool)
  | stop
  | poll (readable : Bool)
  | connection (rd : Control.Reads) (now : Instant) (minted : Option String)
  /-- A tap, a socket, or the end of a tap. -/
  | plane (e : { e : Event // e.isMessage = false })

namespace StandaloneEvent

/-- The node reads the file in an event, and whether it can. -/
def reads : StandaloneEvent → Option Bool
  | start _ readable | poll readable => some readable
  | operator _ | stop | connection _ _ _ | plane _ => none

def invocation : StandaloneEvent → Option Invocation
  | operator inv => some inv
  | start _ _ | poll _ | stop | connection _ _ _ | plane _ => none

end StandaloneEvent

namespace Standalone

/-- There is no file yet, and no node is running. -/
def new : Standalone host := ⟨Desk.new, none⟩

/-- One event, handled whole. -/
def step (codec : Codec) (path version : String) (gate : Control.Gate) (s : Standalone host) :
    StandaloneEvent → Standalone host
  | .operator inv => { s with desk := s.desk.step codec path version inv }
  | .start recording readable =>
    { s with
      node := Supervisor.bootLocal host gate.digests recording
        (Supervisor.localServers codec path s.desk.file readable) }
  | .stop => { s with node := none }
  | .poll readable =>
    { s with
      node := s.node.map fun n =>
        n.pollLocal gate.digests (Supervisor.localServers codec path s.desk.file readable) }
  | .connection rd now minted =>
    { s with node := s.node.map fun n => n.serve gate (.connection rd now minted) }
  | .plane e => { s with node := s.node.map fun n => n.serve gate (.plane e) }

/-- Where events lead, from a node that does not run and a file that is not there. -/
def after (host : Host) (codec : Codec) (path version : String) (gate : Control.Gate)
    (es : List StandaloneEvent) : Standalone host :=
  run (step codec path version gate) new es

/-! ### File and book -/

section Run

variable {codec : Codec} {path version : String} {gate : Control.Gate}

/-- What stands in file and book is told by the runs of the operator alone. -/
theorem desk_after (host : Host) (codec : Codec) (path version : String) (gate : Control.Gate)
    (es : List StandaloneEvent) :
    (after host codec path version gate es).desk =
      run (Desk.step codec path version) Desk.new (es.filterMap StandaloneEvent.invocation) := by
  have hrun (s : Standalone host) : (run (step codec path version gate) s es).desk =
      run (Desk.step codec path version) s.desk (es.filterMap StandaloneEvent.invocation) := by
    induction es generalizing s with
    | nil => rfl
    | cons e es ih =>
      rw [run_cons, ih]
      cases e <;> rfl
  exact hrun new

/-! ### The node -/

/-- A running node serves the servers of a list. -/
def Serving (gate : Control.Gate) (list : List Server) (s : Standalone host) : Prop :=
  ∀ n ∈ s.node, n.Serves gate.digests ∧ n.list = list

/-- A node serves the list that it reads. -/
theorem serving_reads {s : Standalone host} {list : List Server} (h : Serving gate list s)
    {e : StandaloneEvent} {readable : Bool} (hreads : e.reads = some readable) :
    Serving gate
      ((Supervisor.localServers codec path s.desk.file readable).toOption.getD [])
      (s.step codec path version gate e) := by
  cases e with
  | start recording readable' =>
    obtain rfl := Option.some.inj hreads
    intro n hn
    simp only [Standalone.step, Supervisor.bootLocal, Option.mem_def, Option.map_eq_some_iff] at hn
    obtain ⟨servers, hservers, rfl⟩ := hn
    rw [hservers]
    exact Supervisor.serves_adoptLocal (Supervisor.linked_idle host recording none) _ servers
  | poll readable' =>
    obtain rfl := Option.some.inj hreads
    intro n hn
    obtain ⟨n, hmem, rfl⟩ := Option.map_eq_some_iff.mp hn
    exact Supervisor.serves_adoptLocal (h n hmem).1.linked _ _
  | operator inv => cases hreads
  | stop => cases hreads
  | connection rd now minted => cases hreads
  | plane e => cases hreads

/-- In every other event it goes on with the list that it has, if it goes on. -/
theorem Serving.step {list : List Server} {s : Standalone host} (h : Serving gate list s)
    {e : StandaloneEvent} (hreads : e.reads = none) :
    Serving gate list (s.step codec path version gate e) := by
  cases e with
  | operator inv => exact h
  | start recording readable => cases hreads
  | stop => exact fun n hn => nomatch hn
  | poll readable => cases hreads
  | connection rd now minted =>
    intro n hn
    obtain ⟨n, hmem, rfl⟩ := Option.map_eq_some_iff.mp hn
    exact ⟨Supervisor.serves_serve (h n hmem).1 _, (h n hmem).2⟩
  | plane e =>
    intro n hn
    obtain ⟨n, hmem, rfl⟩ := Option.map_eq_some_iff.mp hn
    exact ⟨Supervisor.serves_serve (h n hmem).1 _, (h n hmem).2⟩

theorem exists_serving (host : Host) (codec : Codec) (path version : String)
    (gate : Control.Gate) (es : List StandaloneEvent) :
    ∃ list, Serving gate list (after host codec path version gate es) := by
  apply run_invariant (P := fun s : Standalone host => ∃ list, Serving gate list s)
  · intro s e h
    obtain ⟨list, h⟩ := h
    cases hreads : e.reads with
    | none => exact ⟨list, h.step hreads⟩
    | some readable => exact ⟨_, serving_reads h hreads⟩
  · exact ⟨[], fun n hn => nomatch hn⟩

/-- **A node serves the list that it read last**, whatever happens in between. -/
theorem serving_after {before later : List StandaloneEvent} {e : StandaloneEvent} {readable : Bool}
    (hreads : e.reads = some readable) (hlater : ∀ e' ∈ later, e'.reads = none) :
    Serving gate
      ((Supervisor.localServers codec path
        (after host codec path version gate before).desk.file
          readable).toOption.getD [])
      (after host codec path version gate (before ++ e :: later)) := by
  obtain ⟨list, hbefore⟩ := exists_serving host codec path version gate before
  have hrun : after host codec path version gate (before ++ e :: later) =
      run (step codec path version gate)
        ((after host codec path version gate before).step codec path version gate e) later :=
    run_append _ _ _ _
  rw [hrun]
  exact run_invariant_mem (P := Serving gate _)
    (fun s e' he' h => Serving.step h (hlater e' he')) (serving_reads hbefore hreads)

/-! ### The operator and the node -/

/-- What a node reads of a file that agrees with the book. -/
theorem localServers_of_kept {invs : List Invocation} {as : List Admin} {desk : Desk}
    (h : Desk.Kept codec path invs as desk) (readable : Bool) :
    (Supervisor.localServers codec path desk.file readable).toOption.getD [] =
      if readable then (run Store.step ⟨[]⟩ as).enabled else [] := by
  cases readable with
  | true =>
    rw [Supervisor.localServers, h.load]
    rfl
  | false =>
    cases hfile : desk.file with
    | none => rfl
    | some text => rfl

/-- What a node lets in and is attached to, when it serves what it has read of such a file. -/
theorem follows_of_kept {invs : List Invocation} {as : List Admin} {desk : Desk}
    {strings : Set String} {readable : Bool} {n : Supervisor host}
    (h : Desk.Kept codec path invs as desk) (hlen : as.length < 2 ^ 32)
    (hnew : (Store.mintedKeys as).Nodup) (hstrings : ∀ key ∈ Store.mintedKeys as, key ∈ strings)
    (hinj : Set.InjOn gate.digests.sha256Hex strings) (hserves : n.Serves gate.digests)
    (hlist : n.list = if readable then (run Store.step ⟨[]⟩ as).enabled else []) :
    (∀ p ∈ strings, ∀ id, n.keys.resolve gate.digests p = some id ↔
      readable = true ∧ desk.book id = some p) ∧
    ∀ id, id ∈ n.attached ↔ readable = true ∧ (desk.book id).isSome = true := by
  obtain ⟨-, hlocal⟩ := Store.local_run h.hasCommand hlen
  cases readable with
  | true =>
    rw [if_pos rfl] at hlist
    refine ⟨fun p hp id => ?_, fun id => ?_⟩
    · rw [hserves.keys, hlist, h.book, and_iff_right rfl]
      exact Desk.resolve_iff_keyOf h.hasCommand hlen hnew hstrings hinj hp
    · rw [hserves.attached_iff, hlist, h.book, and_iff_right rfl, Option.isSome_iff_exists]
      constructor
      · rintro ⟨s, hs, hid⟩
        exact ⟨s.key, (Store.keyOf_eq_some_iff hlocal.ids).mpr
          ⟨s, List.mem_of_mem_filter hs, hid, rfl⟩⟩
      · rintro ⟨key, hkey⟩
        obtain ⟨s, hs, hid, -⟩ := (Store.keyOf_eq_some_iff hlocal.ids).mp hkey
        exact ⟨s, List.mem_filter.mpr ⟨hs, hlocal.enabled s hs⟩, hid⟩
  | false =>
    rw [if_neg Bool.false_ne_true] at hlist
    refine ⟨fun p hp id => ?_, fun id => ?_⟩
    · rw [hserves.keys, hlist, KeyIndex.resolve_eq_lookup, KeyIndex.lookup_build]
      simp [Server.rows]
    · rw [hserves.attached_iff, hlist]
      simp

/-- **The node follows the book.** Take any interleaving of an operator's runs of the program with
what happens to a node: it is started, polls, is stopped, and serves connections, taps and sockets.
Whenever the node is running, it knows a presented key as that of a server exactly when the book had
that key for that server at the moment at which the node read the file last, and it is attached to
exactly the servers that stood in the book then; or to none, if it could not read the file. -/
theorem follows_book (host : Host) (codec : Codec) (path version : String) (gate : Control.Gate)
    (strings : Set String) (before later : List StandaloneEvent) (e : StandaloneEvent)
    (readable : Bool) (hreads : e.reads = some readable)
    (hlater : ∀ e' ∈ later, e'.reads = none)
    (hcodec : ∀ store, codec.read (codec.write store) = .ok store)
    (hwhole : Along (Desk.step codec path version) Desk.Whole Desk.new
      (before.filterMap StandaloneEvent.invocation))
    (hlen : before.length < 2 ^ 32)
    (hnew : (Store.mintedKeys ((before.filterMap StandaloneEvent.invocation).filterMap
      Cli.operation)).Nodup)
    (hstrings : ∀ key ∈ Store.mintedKeys ((before.filterMap StandaloneEvent.invocation).filterMap
      Cli.operation), key ∈ strings)
    (hinj : Set.InjOn gate.digests.sha256Hex strings) :
    ∀ n ∈ (after host codec path version gate (before ++ e :: later)).node,
      (∀ p ∈ strings, ∀ id, n.keys.resolve gate.digests p = some id ↔
        readable = true ∧ (after host codec path version gate before).desk.book id = some p) ∧
      ∀ id, id ∈ n.attached ↔
        readable = true ∧ ((after host codec path version gate before).desk.book id).isSome =
          true := by
  have hcount : (before.filterMap StandaloneEvent.invocation).length ≤ before.length :=
    List.length_filterMap_le _ _
  obtain ⟨as, hkept⟩ := Desk.exists_kept version hcodec hwhole (by omega)
  have hlow := hkept.length_le
  have hsub : (Store.mintedKeys as).Sublist (Store.mintedKeys _) := hkept.sublist.filterMap _
  rw [← desk_after host codec path version gate] at hkept
  intro n hn
  obtain ⟨hserves, hlist⟩ := serving_after hreads hlater n hn
  rw [localServers_of_kept hkept] at hlist
  exact follows_of_kept hkept (by omega) (hnew.sublist hsub)
    (fun key hkey => hstrings key (hsub.mem hkey)) hinj hserves hlist

/-- A server is enrolled and its key is rotated, the node starts, and the server is revoked. -/
def enrolledThenRevoked : List StandaloneEvent :=
  [.operator ⟨["enroll", "alpha", "10.0.0.7:30120"], some Store.zeros, true, .done⟩,
    .operator ⟨["rotate", "1"], some Desk.ones, true, .done⟩] ++
    .start false true :: [.operator ⟨["revoke", "1"], none, true, .done⟩]

/-- The gate of a node without a platform. -/
def exampleGate : Control.Gate := ⟨fun _ => none, Desk.exampleDigests, none⟩

/-- Until the next poll, the node goes by the last key of the server that was revoked. -/
theorem follows_book_enrolledThenRevoked :
    ∃ n ∈ (after quietHost Desk.exampleCodec "servers.json" "0.1.0" exampleGate
        enrolledThenRevoked).node,
      n.keys.resolve Desk.exampleDigests Desk.oneKey = some 1 ∧ 1 ∈ n.attached := by
  have hrunning : (after quietHost Desk.exampleCodec "servers.json" "0.1.0" exampleGate
      enrolledThenRevoked).node.isSome = true := by
    decide +kernel
  have hkeys : ∀ key ∈ Store.mintedKeys (([StandaloneEvent.operator
      ⟨["enroll", "alpha", "10.0.0.7:30120"], some Store.zeros, true, .done⟩,
      .operator ⟨["rotate", "1"], some Desk.ones, true, .done⟩].filterMap
        StandaloneEvent.invocation).filterMap Cli.operation),
      key ∈ [Store.zeroKey, Desk.oneKey, Desk.twoKey] := by decide +kernel
  obtain ⟨n, hn⟩ := Option.isSome_iff_exists.mp hrunning
  obtain ⟨hknown, hattached⟩ := follows_book quietHost Desk.exampleCodec "servers.json" "0.1.0"
    exampleGate Desk.exampleKeys
    [.operator ⟨["enroll", "alpha", "10.0.0.7:30120"], some Store.zeros, true, .done⟩,
      .operator ⟨["rotate", "1"], some Desk.ones, true, .done⟩]
    [.operator ⟨["revoke", "1"], none, true, .done⟩] (.start false true) true rfl
    (by simp [StandaloneEvent.reads]) Desk.exampleCodec_read_write
    ⟨Or.inl rfl, Or.inl rfl, trivial⟩ (by decide) (by decide +kernel)
    (fun key hkey => Desk.mem_exampleKeys (hkeys key hkey)) Desk.injOn_exampleDigests n hn
  exact ⟨n, hn,
    (hknown Desk.oneKey (Desk.mem_exampleKeys (by decide)) 1).mpr ⟨rfl, by decide +kernel⟩,
    (hattached 1).mpr ⟨rfl, by decide +kernel⟩⟩

end Run

end Standalone

end RfxVoiced
