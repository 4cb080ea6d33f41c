import RfxVoiced.Node
import RfxVoiced.Platform
import Mathlib.Data.Finset.Erase
import Mathlib.Data.Finset.Insert

/-!
# The supervisor

The server list is read again on every poll, and the node is reconciled with it: the key index is
rebuilt, the taps of servers that went away or moved are taken down, and those of servers that
appeared are put up. A server whose address changed has gone and is then new.

A poll replaces the patch table, and then makes one pass over the taps. It is one event of the
machine below; whatever else happens to the node between two polls is an event of its own.

## Main definitions

* `Supervisor`, `Supervisor.reconcile` — the pass over the taps
* `Supervisor.boot`, `Supervisor.step` — the node under its supervisor, as a machine
* `Supervisor.Linked` — taps, addresses and the attached set speak of the same servers
* `Supervisor.Serves` — they are the servers of the current list

## Main results

* `known_reconcile` — after a pass the taps stand at the addresses of the list
* `serves_boot`, `serves_step` — the key index, the taps and the attached set are always those of
  the current list
-/

namespace RfxVoiced

/-- Where a server's tap connects. -/
abbrev Address := String × UInt16

/-- The handle of a running tap. -/
abbrev Handle := ℕ

/-- A node and its supervisor. -/
structure Supervisor (host : Host) where
  node : Node host
  /-- What the cache file reads back as. -/
  cache : Option ServerList
  /-- The list that the node runs with. -/
  list : List Server
  keys : KeyIndex
  taps : Table UInt32 Handle
  /-- The address that each tap was put up for. -/
  known : Table UInt32 Address
  /-- The servers that the heartbeat reports. -/
  attached : Finset UInt32
  /-- The handles that were aborted, the latest first. -/
  aborted : List Handle
  /-- The handle that the next tap will be given. -/
  nextHandle : Handle

/-- What happens to a node under its supervisor. -/
inductive SupervisorEvent
  /-- A poll: the answer of the platform and the fate of its caching, or no answer. -/
  | poll (fetched : Option (ServerList × CacheWrite))
  /-- Anything else that happens to the node. -/
  | plane (e : Event)

namespace Supervisor

variable {host : Host}

/-- The address of each server of a list. -/
def want (list : List Server) : Table UInt32 Address :=
  Table.collect (list.map fun s => (s.id, s.host, s.port))

/-- Take a server's tap down, and drop its identities and routes. -/
def detach (s : Supervisor host) (id : UInt32) : Supervisor host :=
  { s with
    aborted := (s.taps.lookup id).toList ++ s.aborted
    taps := s.taps.erase id
    known := s.known.erase id
    node := s.node.step (.detach id)
    attached := s.attached.erase id }

/-- Put a server's tap up, unless there is one. -/
def attach (s : Supervisor host) (id : UInt32) (address : Address) : Supervisor host :=
  if id ∈ s.taps then s
  else
    { s with
      taps := s.taps.insert id s.nextHandle
      nextHandle := s.nextHandle + 1
      known := s.known.insert id address
      attached := insert id s.attached }

def detachAll (s : Supervisor host) (ids : List UInt32) : Supervisor host := ids.foldl detach s

def attachAll (s : Supervisor host) (want : Table UInt32 Address) : Supervisor host :=
  want.entries.foldl (fun s e => s.attach e.1 e.2) s

/-- The taps whose server went away or moved. -/
def stale (s : Supervisor host) (want : Table UInt32 Address) : List UInt32 :=
  s.taps.keys.filter fun id => want.lookup id ≠ s.known.lookup id

/-- Rebuild the key index, so that a server added a minute ago can authenticate. -/
def reindex (digests : Digests) (s : Supervisor host) : Supervisor host :=
  { s with keys := KeyIndex.build digests s.list }

/-- One pass: the key index is rebuilt, stale taps are taken down, missing ones are put up. -/
def reconcile (digests : Digests) (s : Supervisor host) : Supervisor host :=
  let want := want s.list
  let s := s.reindex digests
  let s := s.detachAll (s.stale want)
  s.attachAll want

/-- Run with what was resolved: the list is kept for the next pass, and the patch table is
replaced whole. -/
def adopt (s : Supervisor host) (found : Platform.Resolved × Option ServerList) :
    Supervisor host :=
  { s with
    cache := found.2
    list := found.1.servers
    node := s.node.step (.patches found.1.patches) }

/-- The supervisor before its first pass. -/
def idle (host : Host) (recording : Bool) (cache : Option ServerList) : Supervisor host where
  node := Node.initial host recording
  cache := cache
  list := []
  keys := ⟨∅⟩
  taps := ∅
  known := ∅
  attached := ∅
  aborted := []
  nextHandle := 0

/-- A node that has just started, after its first pass. -/
def boot (host : Host) (digests : Digests) (recording : Bool) (cache : Option ServerList)
    (fetched : Option (ServerList × CacheWrite)) : Supervisor host :=
  ((idle host recording cache).adopt (Platform.resolve cache fetched)).reconcile digests

/-- One event, handled whole. -/
def step (digests : Digests) (s : Supervisor host) : SupervisorEvent → Supervisor host
  | .poll fetched => (s.adopt (Platform.resolve s.cache fetched)).reconcile digests
  | .plane e => { s with node := s.node.step e }

/-! ### The pass -/

/-- The taps, the addresses they were put up for and the attached set speak of the same servers. -/
structure Linked (s : Supervisor host) : Prop where
  known_iff : ∀ id, id ∈ s.known ↔ id ∈ s.taps
  attached_iff : ∀ id, id ∈ s.attached ↔ id ∈ s.taps

theorem linked_idle (host : Host) (recording : Bool) (cache : Option ServerList) :
    Linked (idle host recording cache) where
  known_iff _ := Iff.rfl
  attached_iff id := by simp [idle]

/-- What is resolved has no part in the links. -/
theorem Linked.adopt {s : Supervisor host} (h : Linked s)
    (found : Platform.Resolved × Option ServerList) : Linked (s.adopt found) :=
  ⟨h.known_iff, h.attached_iff⟩

theorem Linked.detach {s : Supervisor host} (h : Linked s) (id : UInt32) :
    Linked (s.detach id) where
  known_iff id' := by simp [Supervisor.detach, AList.mem_erase, h.known_iff]
  attached_iff id' := by simp [Supervisor.detach, AList.mem_erase, h.attached_iff]

theorem Linked.attach {s : Supervisor host} (h : Linked s) (id : UInt32) (address : Address) :
    Linked (s.attach id address) := by
  unfold Supervisor.attach
  split_ifs
  · exact h
  · exact ⟨fun id' => by simp [h.known_iff], fun id' => by simp [h.attached_iff]⟩

theorem Linked.detachAll {s : Supervisor host} (h : Linked s) (ids : List UInt32) :
    Linked (s.detachAll ids) := by
  have hstep : ∀ (s : Supervisor host) (id : UInt32), Linked s → Linked (s.detach id) :=
    fun _ id h => h.detach id
  exact run_invariant hstep h ids

theorem Linked.attachAll {s : Supervisor host} (h : Linked s) (want : Table UInt32 Address) :
    Linked (s.attachAll want) := by
  have hstep : ∀ (s : Supervisor host) (e : Sigma fun _ : UInt32 => Address), Linked s →
      Linked (s.attach e.1 e.2) := fun _ e h => h.attach e.1 e.2
  exact run_invariant hstep h want.entries

theorem Linked.reindex {s : Supervisor host} (h : Linked s) (digests : Digests) :
    Linked (s.reindex digests) := ⟨h.known_iff, h.attached_iff⟩

theorem Linked.reconcile {s : Supervisor host} (h : Linked s) (digests : Digests) :
    Linked (s.reconcile digests) :=
  ((h.reindex digests).detachAll _).attachAll _

/-- The parts of the state that a tap going down or up leaves alone. -/
def kept (s : Supervisor host) : List Server × Option ServerList × KeyIndex × List (List RouteId) :=
  (s.list, s.cache, s.keys, s.node.router.patches)

theorem kept_attach (s : Supervisor host) (id : UInt32) (address : Address) :
    (s.attach id address).kept = s.kept := by
  unfold attach
  split_ifs <;> rfl

theorem kept_detachAll (s : Supervisor host) (ids : List UInt32) :
    (s.detachAll ids).kept = s.kept := by
  have hstep : ∀ (s' : Supervisor host) (id : UInt32), s'.kept = s.kept →
      (s'.detach id).kept = s.kept := fun _ _ h => h
  exact run_invariant hstep rfl ids

theorem kept_attachAll (s : Supervisor host) (want : Table UInt32 Address) :
    (s.attachAll want).kept = s.kept := by
  have hstep : ∀ (s' : Supervisor host) (e : Sigma fun _ : UInt32 => Address),
      s'.kept = s.kept → (s'.attach e.1 e.2).kept = s.kept :=
    fun s' e h => (kept_attach s' e.1 e.2).trans h
  exact run_invariant hstep rfl want.entries

/-- A pass rebuilds the key index and touches the taps; the rest it leaves alone. -/
theorem kept_reconcile (digests : Digests) (s : Supervisor host) :
    (s.reconcile digests).kept =
      (s.list, s.cache, KeyIndex.build digests s.list, s.node.router.patches) := by
  rw [reconcile, kept_attachAll, kept_detachAll]
  rfl

/-- A tap that is taken down is taken down for good in this pass. -/
theorem known_detachAll (s : Supervisor host) (ids : List UInt32) (id : UInt32) :
    (s.detachAll ids).known.lookup id = if id ∈ ids then none else s.known.lookup id :=
  view_run_of_idempotent (v := fun id (s : Supervisor host) => s.known.lookup id)
    (f := fun _ _ => none) (fun s k => AList.lookup_erase k s.known)
    (fun _ _ _ hne => AList.lookup_erase_ne hne) (fun _ _ => rfl) ids s id

/-- A server that has a tap keeps the address it has; one that has none gets the one given. -/
theorem known_attach {s : Supervisor host} (h : Linked s) (id id' : UInt32) (address : Address) :
    (s.attach id address).known.lookup id' =
      (s.known.lookup id').or (if id' = id then some address else none) := by
  unfold Supervisor.attach
  split_ifs with htap hid hid
  · subst hid
    obtain ⟨a, ha⟩ := Option.isSome_iff_exists.mp
      (AList.lookup_isSome.mpr ((h.known_iff id').mpr htap))
    rw [ha, Option.some_or]
  · rw [Option.or_none]
  · subst hid
    have hnone : s.known.lookup id' = none :=
      AList.lookup_eq_none.mpr fun hmem => htap ((h.known_iff id').mp hmem)
    rw [hnone, Option.none_or]
    exact AList.lookup_insert s.known
  · rw [Option.or_none]
    exact AList.lookup_insert_ne hid

theorem known_attachAll {s : Supervisor host} (h : Linked s) (want : Table UInt32 Address)
    (id : UInt32) :
    (s.attachAll want).known.lookup id = (s.known.lookup id).or (want.lookup id) := by
  have hentries : ∀ l : List (Sigma fun _ : UInt32 => Address),
      (l.foldl (fun s e => s.attach e.1 e.2) s).known.lookup id =
        (s.known.lookup id).or (l.dlookup id) := by
    intro l
    induction l generalizing s with
    | nil => simp
    | cons e l ih =>
      obtain ⟨id', address⟩ := e
      rw [List.foldl_cons, ih (h.attach id' address), known_attach h, Option.or_assoc]
      by_cases hid : id = id'
      · subst hid
        rw [if_pos rfl, Option.some_or, List.dlookup_cons_eq]
      · rw [if_neg hid, Option.none_or, List.dlookup_cons_ne l ⟨id', address⟩ hid]
  exact hentries want.entries

/-- After a pass the taps stand at the addresses of the list. -/
theorem known_reconcile {s : Supervisor host} (h : Linked s) (digests : Digests) (id : UInt32) :
    (s.reconcile digests).known.lookup id = (want s.list).lookup id := by
  have hpass : (s.reconcile digests).known.lookup id =
      (if id ∈ s.stale (want s.list) then none else s.known.lookup id).or
        ((want s.list).lookup id) := by
    rw [reconcile, known_attachAll ((h.reindex digests).detachAll _), known_detachAll]
    rfl
  rw [hpass]
  have hstale : id ∈ s.stale (want s.list) ↔
      id ∈ s.taps ∧ (want s.list).lookup id ≠ s.known.lookup id := by
    simp [stale, AList.mem_keys]
  -- A tap that stands elsewhere than wanted goes down first, so that it can be put up again.
  by_cases htap : id ∈ s.taps
  · by_cases hsame : (want s.list).lookup id = s.known.lookup id
    · -- The tap stands where it should.
      rw [if_neg fun hmem => (hstale.mp hmem).2 hsame, hsame, Option.or_self]
    · rw [if_pos (hstale.mpr ⟨htap, hsame⟩), Option.none_or]
  · have hnone : s.known.lookup id = none :=
      AList.lookup_eq_none.mpr fun hmem => htap ((h.known_iff id).mp hmem)
    rw [hnone, ite_self, Option.none_or]

/-! ### The list that is served -/

/-- The key index, the taps and the attached set are those of the current list. -/
structure Serves (digests : Digests) (s : Supervisor host) : Prop where
  linked : Linked s
  known : ∀ id, s.known.lookup id = (want s.list).lookup id
  keys : s.keys = KeyIndex.build digests s.list

theorem serves_reconcile {s : Supervisor host} (h : Linked s) (digests : Digests) :
    Serves digests (s.reconcile digests) := by
  have hkept := kept_reconcile digests s
  have hlist : (s.reconcile digests).list = s.list := congrArg Prod.fst hkept
  have hkeys : (s.reconcile digests).keys = KeyIndex.build digests s.list :=
    congrArg (fun x => x.2.2.1) hkept
  refine ⟨h.reconcile digests, fun id => ?_, ?_⟩
  · rw [known_reconcile h, hlist]
  · rw [hkeys, hlist]

theorem mem_want {list : List Server} {id : UInt32} :
    id ∈ want list ↔ ∃ x ∈ list, x.id = id := by
  simp [want, Table.mem_collect]

/-- The servers attached are those of the list. -/
theorem Serves.attached_iff {digests : Digests} {s : Supervisor host} (h : Serves digests s)
    (id : UInt32) : id ∈ s.attached ↔ ∃ x ∈ s.list, x.id = id := by
  rw [h.linked.attached_iff, ← h.linked.known_iff, ← AList.lookup_isSome, h.known,
    AList.lookup_isSome, mem_want]

theorem serves_boot (digests : Digests) (recording : Bool) (cache : Option ServerList)
    (fetched : Option (ServerList × CacheWrite)) :
    Serves digests (boot host digests recording cache fetched) :=
  serves_reconcile ((linked_idle host recording cache).adopt _) digests

theorem serves_step {digests : Digests} {s : Supervisor host} (h : Serves digests s)
    (e : SupervisorEvent) : Serves digests (s.step digests e) := by
  cases e with
  | poll fetched => exact serves_reconcile (h.linked.adopt _) digests
  | plane e => exact ⟨⟨h.linked.known_iff, h.linked.attached_iff⟩, h.known, h.keys⟩

end Supervisor

end RfxVoiced
