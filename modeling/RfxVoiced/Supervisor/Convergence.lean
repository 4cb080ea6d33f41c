import RfxVoiced.Supervisor

/-!
# Passes over any lists

Wherever its lists come from, the supervisor brings the taps in line with each of them in one pass.
A tap that stands at the address of the new list is not touched. One that does not goes down once:
its handle is aborted, its server is dropped from the router and from the audio streams, and if the
list still names the server a new tap is put up.

## Main definitions

* `Supervisor.Turn`, `Supervisor.turn` — a pass over some list, or anything else that happens
* `Supervisor.address` — where a list says a server is
* `Supervisor.Handles` — no handle is used twice, and none is aborted twice

## Main results

* `run_turn_induction` — what holds before the first pass and is kept by each turn always holds
* `supervisor_converges` — what one pass does, after any history
-/

namespace RfxVoiced

namespace Supervisor

variable {host : Host} {digests : Digests}

/-- What a supervisor goes through, wherever its lists come from. -/
inductive Turn
  /-- A pass over a list that was found, with the cache that finding it left. -/
  | pass (found : Platform.Resolved × Option ServerList)
  /-- Anything else that happens to the node. -/
  | plane (e : Event)

def turn (digests : Digests) (s : Supervisor host) : Turn → Supervisor host
  | .pass found => (s.adopt found).reconcile digests
  | .plane e => { s with node := s.node.step e }

/-- A node that has just started has made its first pass. -/
theorem boot_eq_turn (digests : Digests) (recording : Bool) (cache : Option ServerList)
    (fetched : Option (ServerList × CacheWrite)) :
    boot host digests recording cache fetched =
      (idle host recording cache).turn digests (.pass (Platform.resolve cache fetched)) := rfl

/-- A poll is a pass over the list that it resolves to. -/
theorem step_poll_eq_turn (s : Supervisor host) (fetched : Option (ServerList × CacheWrite)) :
    s.step digests (.poll fetched) =
      s.turn digests (.pass (Platform.resolve s.cache fetched)) := rfl

/-- Where a list says a server is: its last entry decides. -/
def address (list : List Server) (id : UInt32) : Option Address :=
  (list.reverse.find? fun x => x.id = id).map fun x => (x.host, x.port)

theorem lookup_want (list : List Server) (id : UInt32) :
    (want list).lookup id = address list id := by
  rw [want, Table.lookup_collect, ← List.map_reverse, address]
  generalize list.reverse = l
  induction l with
  | nil => rfl
  | cons x l ih =>
    rw [List.map_cons, List.lookup_cons]
    by_cases hid : id = x.id
    · rw [beq_iff_eq.mpr hid, List.find?_cons_of_pos (by simpa using hid.symm)]
      rfl
    · rw [beq_false_of_ne hid, List.find?_cons_of_neg (by simpa using Ne.symm hid)]
      exact ih

/-- The servers that a pass over this list takes down. -/
def dropped (s : Supervisor host) (list : List Server) : List UInt32 := s.stale (want list)

/-! ### Handles -/

/-- Every handle was given to one tap, and is aborted once at most, when that tap goes down. -/
structure Handles (s : Supervisor host) : Prop where
  given : ∀ id h, s.taps.lookup id = some h → h < s.nextHandle
  apart : ∀ id id' h, s.taps.lookup id = some h → s.taps.lookup id' = some h → id = id'
  gone : ∀ h ∈ s.aborted, h < s.nextHandle ∧ ∀ id, s.taps.lookup id ≠ some h
  once : s.aborted.Nodup

theorem Handles.detach {s : Supervisor host} (hs : Handles s) (id : UInt32) :
    Handles (s.detach id) := by
  -- The taps that are left were there before, under the ids of other servers.
  have hback : ∀ id' h, (s.taps.erase id).lookup id' = some h →
      id' ≠ id ∧ s.taps.lookup id' = some h := by
    intro id' h hh
    rw [Table.lookup_erase] at hh
    split_ifs at hh with heq
    exact ⟨heq, hh⟩
  refine ⟨fun id' h hh => hs.given id' h (hback id' h hh).2,
    fun id' id'' h hh hh' => hs.apart id' id'' h (hback id' h hh).2 (hback id'' h hh').2,
    fun h hmem => ?_, ?_⟩
  · rcases List.mem_append.mp hmem with htap | hold
    · rw [Option.mem_toList] at htap
      refine ⟨hs.given id h htap, fun id' hh => ?_⟩
      obtain ⟨hne, hh⟩ := hback id' h hh
      exact hne (hs.apart id' id h hh htap)
    · obtain ⟨hlt, hnone⟩ := hs.gone h hold
      exact ⟨hlt, fun id' hh => hnone id' (hback id' h hh).2⟩
  · simp only [Supervisor.detach]
    cases htap : s.taps.lookup id with
    | none => exact hs.once
    | some h =>
      refine List.nodup_cons.mpr ⟨fun hold => ?_, hs.once⟩
      exact (hs.gone h hold).2 id htap

theorem Handles.attach {s : Supervisor host} (hs : Handles s) (id : UInt32) (address : Address) :
    Handles (s.attach id address) := by
  unfold Supervisor.attach
  split_ifs
  · exact hs
  -- The new handle is above every one that was given before, aborted or not.
  · have hlookup : ∀ id' h, (s.taps.insert id s.nextHandle).lookup id' = some h →
        (id' = id ∧ h = s.nextHandle) ∨ s.taps.lookup id' = some h := by
      intro id' h hh
      rw [Table.lookup_insert] at hh
      split_ifs at hh with heq
      · exact Or.inl ⟨heq, (Option.some.inj hh).symm⟩
      · exact Or.inr hh
    refine ⟨fun id' h hh => ?_, fun id' id'' h hh hh' => ?_, fun h hold => ?_, hs.once⟩
    · rcases hlookup id' h hh with ⟨-, rfl⟩ | hold
      · exact Nat.lt_succ_self s.nextHandle
      · exact Nat.lt_succ_of_lt (hs.given id' h hold)
    · rcases hlookup id' h hh with ⟨rfl, rfl⟩ | hold <;> rcases hlookup id'' _ hh' with
        ⟨rfl, hnew⟩ | hold'
      · rfl
      · exact absurd (hs.given id'' _ hold') (lt_irrefl s.nextHandle)
      · rw [hnew] at hold
        exact absurd (hs.given id' _ hold) (lt_irrefl s.nextHandle)
      · exact hs.apart id' id'' h hold hold'
    · obtain ⟨hlt, hnone⟩ := hs.gone h hold
      refine ⟨Nat.lt_succ_of_lt hlt, fun id' hh => ?_⟩
      rcases hlookup id' h hh with ⟨-, rfl⟩ | htap
      · exact absurd hlt (lt_irrefl s.nextHandle)
      · exact hnone id' htap

theorem Handles.detachAll {s : Supervisor host} (hs : Handles s) (ids : List UInt32) :
    Handles (s.detachAll ids) := by
  have hstep : ∀ (s : Supervisor host) (id : UInt32), Handles s → Handles (s.detach id) :=
    fun _ id hs => hs.detach id
  exact run_invariant hstep hs ids

theorem Handles.attachAll {s : Supervisor host} (hs : Handles s) (want : Table UInt32 Address) :
    Handles (s.attachAll want) := by
  have hstep : ∀ (s : Supervisor host) (e : Sigma fun _ : UInt32 => Address), Handles s →
      Handles (s.attach e.1 e.2) := fun _ e hs => hs.attach e.1 e.2
  exact run_invariant hstep hs want.entries

theorem Handles.reconcile {s : Supervisor host} (hs : Handles s) (digests : Digests) :
    Handles (s.reconcile digests) :=
  Handles.attachAll (Handles.detachAll (s := s.reindex digests) ⟨hs.given, hs.apart, hs.gone,
    hs.once⟩ _) _

/-! ### What a pass does to the taps -/

theorem taps_detachAll (s : Supervisor host) (ids : List UInt32) (id : UInt32) :
    (s.detachAll ids).taps.lookup id = if id ∈ ids then none else s.taps.lookup id :=
  view_run_of_idempotent (v := fun id (s : Supervisor host) => s.taps.lookup id)
    (f := fun _ _ => none) (fun s k => AList.lookup_erase k s.taps)
    (fun _ _ _ hne => AList.lookup_erase_ne hne) (fun _ _ => rfl) ids s id

/-- Putting taps up leaves the taps alone that there are. -/
theorem taps_attachAll {s : Supervisor host} {id : UInt32} {h : Handle}
    (htap : s.taps.lookup id = some h) (want : Table UInt32 Address) :
    (s.attachAll want).taps.lookup id = some h := by
  have hstep : ∀ (s : Supervisor host) (e : Sigma fun _ : UInt32 => Address),
      s.taps.lookup id = some h → (s.attach e.1 e.2).taps.lookup id = some h := by
    intro s e htap
    unfold attach
    split_ifs with hmem
    · exact htap
    · have hne : id ≠ e.1 := by
        rintro rfl
        exact hmem (AList.lookup_isSome.mp (by simp [htap]))
      exact (AList.lookup_insert_ne hne).trans htap
  exact run_invariant hstep htap want.entries

/-- Handles are aborted for the taps that go down, and for no others. -/
theorem mem_aborted_detachAll {s : Supervisor host} {ids : List UInt32} (hids : ids.Nodup)
    {h : Handle} : h ∈ (s.detachAll ids).aborted ↔
      h ∈ s.aborted ∨ ∃ id ∈ ids, s.taps.lookup id = some h := by
  induction ids generalizing s with
  | nil => simp [Supervisor.detachAll]
  | cons id ids ih =>
    obtain ⟨hfresh, hrest⟩ := List.nodup_cons.mp hids
    have hlater : ∀ id' ∈ ids, (s.detach id).taps.lookup id' = s.taps.lookup id' := by
      intro id' hid'
      exact AList.lookup_erase_ne fun heq => hfresh (heq ▸ hid')
    have hfirst : h ∈ (s.detach id).aborted ↔ h ∈ s.aborted ∨ s.taps.lookup id = some h := by
      rw [Supervisor.detach, List.mem_append, Option.mem_toList, or_comm]
    have hcons : s.detachAll (id :: ids) = (s.detach id).detachAll ids := rfl
    rw [hcons, ih hrest, hfirst, or_assoc, List.exists_mem_cons_iff]
    refine or_congr_right (or_congr_right (exists_congr fun id' => and_congr_right fun hid' => ?_))
    rw [hlater id' hid']

/-- Putting taps up happens to the taps only. -/
theorem attachAll_frame (s : Supervisor host) (want : Table UInt32 Address) :
    (s.attachAll want).aborted = s.aborted ∧ (s.attachAll want).node = s.node := by
  have hstep : ∀ (s' : Supervisor host) (e : Sigma fun _ : UInt32 => Address),
      (s'.aborted = s.aborted ∧ s'.node = s.node) →
        (s'.attach e.1 e.2).aborted = s.aborted ∧ (s'.attach e.1 e.2).node = s.node := by
    intro s' e hs'
    unfold attach
    split_ifs <;> exact hs'
  exact run_invariant hstep ⟨rfl, rfl⟩ want.entries

theorem node_detachAll (s : Supervisor host) (ids : List UInt32) :
    (s.detachAll ids).node = run Node.step s.node (ids.map Event.detach) := by
  induction ids generalizing s with
  | nil => rfl
  | cons id ids ih => exact ih (s.detach id)

theorem mem_aborted_reconcile {s : Supervisor host} {h : Handle} :
    h ∈ (s.reconcile digests).aborted ↔
      h ∈ s.aborted ∨ ∃ id ∈ s.dropped s.list, s.taps.lookup id = some h := by
  rw [reconcile, (attachAll_frame _ _).1, mem_aborted_detachAll]
  · rfl
  · exact s.taps.keys_nodup.filter _

theorem node_reconcile (s : Supervisor host) :
    (s.reconcile digests).node = run Node.step s.node ((s.dropped s.list).map Event.detach) := by
  rw [reconcile, (attachAll_frame _ _).2, node_detachAll]
  rfl

/-! ### Any history -/

/-- The taps are those of the current list, and their handles are in order. -/
structure Settled (s : Supervisor host) : Prop where
  linked : Linked s
  known : ∀ id, s.known.lookup id = address s.list id
  handles : Handles s

/-- What holds before the first pass, and is kept by passes and by what happens between them, always
holds. -/
theorem run_turn_induction {P : Supervisor host → Prop} {recording : Bool}
    {cache : Option ServerList} (hidle : P (idle host recording cache))
    (hpass : ∀ s found, P s → P ((s.adopt found).reconcile digests))
    (hplane : ∀ s e, P s → P { s with node := s.node.step e }) (turns : List Turn) :
    P (run (turn digests) (idle host recording cache) turns) := by
  have hstep : ∀ (s : Supervisor host) (t : Turn), P s → P (s.turn digests t) := by
    intro s t hs
    cases t with
    | pass found => exact hpass s found hs
    | plane e => exact hplane s e hs
  exact run_invariant hstep hidle turns

theorem Settled.pass {s : Supervisor host} (hs : Settled s)
    (found : Platform.Resolved × Option ServerList) :
    Settled ((s.adopt found).reconcile digests) := by
  have hlinked : Linked (s.adopt found) := ⟨hs.linked.known_iff, hs.linked.attached_iff⟩
  have hserves := serves_reconcile hlinked digests
  have hhandles : Handles (s.adopt found) :=
    ⟨hs.handles.given, hs.handles.apart, hs.handles.gone, hs.handles.once⟩
  refine ⟨hserves.linked, fun id => ?_, hhandles.reconcile digests⟩
  rw [hserves.known, lookup_want]

theorem settled_run (digests : Digests) (recording : Bool) (cache : Option ServerList)
    (turns : List Turn) : Settled (run (turn digests) (idle host recording cache) turns) := by
  refine run_turn_induction ?_ (fun s found hs => hs.pass found) (fun s e hs => ?_) turns
  · refine ⟨linked_idle host recording cache, fun id => rfl, ?_⟩
    exact ⟨fun id h hh => absurd hh (by simp [idle]), fun id id' h hh => absurd hh (by simp [idle]),
      fun h hh => absurd hh List.not_mem_nil, List.nodup_nil⟩
  · exact ⟨⟨hs.linked.known_iff, hs.linked.attached_iff⟩, hs.known,
      ⟨hs.handles.given, hs.handles.apart, hs.handles.gone, hs.handles.once⟩⟩

theorem mem_known_iff {s : Supervisor host} (hs : Settled s) (id : UInt32) :
    id ∈ s.known ↔ ∃ x ∈ s.list, x.id = id := by
  rw [← AList.lookup_isSome, hs.known, ← lookup_want, AList.lookup_isSome, mem_want]

/-- Every server of the current list has a tap. -/
theorem exists_tap {s : Supervisor host} (hs : Settled s) {id : UInt32} {a : Address}
    (h : address s.list id = some a) : ∃ tap, s.taps.lookup id = some tap := by
  have hmem : id ∈ s.taps := by
    rw [← hs.linked.known_iff, ← AList.lookup_isSome, hs.known, h]
    rfl
  exact Option.isSome_iff_exists.mp (AList.lookup_isSome.mpr hmem)

/-- A pass takes down the taps of the servers that the new list does not have where they were. -/
theorem mem_dropped_iff {s : Supervisor host} (hs : Settled s) {list : List Server} {id : UInt32} :
    id ∈ s.dropped list ↔ ∃ a, address s.list id = some a ∧ address list id ≠ some a := by
  simp only [dropped, stale, List.mem_filter, lookup_want, decide_eq_true_eq]
  constructor
  · rintro ⟨htap, hmoved⟩
    obtain ⟨a, ha⟩ := Option.isSome_iff_exists.mp
      (AList.lookup_isSome.mpr ((hs.linked.known_iff id).mpr htap))
    rw [ha] at hmoved
    exact ⟨a, (hs.known id).symm.trans ha, hmoved⟩
  · rintro ⟨a, ha, hmoved⟩
    obtain ⟨tap, htap⟩ := exists_tap hs ha
    rw [hs.known, ha]
    exact ⟨AList.lookup_isSome.mp (by simp [htap]), hmoved⟩

/-- **The supervisor converges and disturbs nobody needlessly.** After any history, a pass over any
list leaves taps, addresses and the attached set at exactly the servers of the list, each at the
address of its last entry. A server at the address it had before keeps its tap, and is not dropped.
One that has vanished or moved is dropped once, and its tap, which had not been aborted before, is
aborted once. No other server is dropped and no other tap is aborted, and the pass does nothing to
the router and the streams but to set the patch table and drop those servers. -/
theorem supervisor_converges (digests : Digests) (recording : Bool) (cache : Option ServerList)
    (turns : List Turn) (found : Platform.Resolved × Option ServerList) :
    let s := run (turn digests) (idle host recording cache) turns
    let s' := s.turn digests (.pass found)
    let gone := s.dropped found.1.servers
    (∀ id, (id ∈ s'.taps ↔ ∃ x ∈ found.1.servers, x.id = id) ∧
      (id ∈ s'.known ↔ ∃ x ∈ found.1.servers, x.id = id) ∧
      (id ∈ s'.attached ↔ ∃ x ∈ found.1.servers, x.id = id)) ∧
    (∀ id, s'.known.lookup id = address found.1.servers id) ∧
    (∀ id a, address s.list id = some a → address found.1.servers id = some a →
      id ∉ gone ∧ ∃ tap, s.taps.lookup id = some tap ∧ s'.taps.lookup id = some tap) ∧
    (∀ id a, address s.list id = some a → address found.1.servers id ≠ some a →
      gone.count id = 1 ∧
        ∃ tap, s.taps.lookup id = some tap ∧ tap ∉ s.aborted ∧ s'.aborted.count tap = 1) ∧
    (∀ id ∈ gone, ∃ a, address s.list id = some a ∧ address found.1.servers id ≠ some a) ∧
    (∀ tap ∈ s'.aborted, tap ∈ s.aborted ∨ ∃ id ∈ gone, s.taps.lookup id = some tap) ∧
    s'.node = run Node.step (s.node.step (.patches found.1.patches)) (gone.map Event.detach) := by
  intro s s' gone
  have hs : Settled s := settled_run digests recording cache turns
  have hs' : Settled s' := hs.pass found
  have hlist : s'.list = found.1.servers :=
    congrArg Prod.fst (kept_reconcile digests (s.adopt found))
  have hnodup : gone.Nodup := s.taps.keys_nodup.filter _
  have haborted : ∀ tap, tap ∈ s'.aborted ↔
      tap ∈ s.aborted ∨ ∃ id ∈ gone, s.taps.lookup id = some tap :=
    fun _ => mem_aborted_reconcile (s := s.adopt found)
  have hknown : ∀ id, id ∈ s'.known ↔ ∃ x ∈ found.1.servers, x.id = id := by
    intro id
    rw [mem_known_iff hs', hlist]
  have hstays : ∀ id a, address s.list id = some a → address found.1.servers id = some a →
      id ∉ gone := by
    intro id a ha hsame hmem
    obtain ⟨a', ha', hmoved⟩ := (mem_dropped_iff hs).mp hmem
    rw [hsame] at hmoved
    exact hmoved (ha.symm.trans ha')
  refine ⟨fun id => ⟨?_, hknown id, ?_⟩, fun id => ?_, fun id a ha hsame => ?_,
    fun id a ha hmoved => ?_, fun id => (mem_dropped_iff hs).mp, fun tap => (haborted tap).mp,
    node_reconcile (s.adopt found)⟩
  · rw [← hs'.linked.known_iff, hknown]
  · rw [hs'.linked.attached_iff, ← hs'.linked.known_iff, hknown]
  · rw [hs'.known, hlist]
  · obtain ⟨tap, htap⟩ := exists_tap hs ha
    -- The tap is not taken down, and so it is not put up again.
    refine ⟨hstays id a ha hsame, tap, htap, taps_attachAll ?_ _⟩
    rw [taps_detachAll]
    exact (if_neg (hstays id a ha hsame)).trans htap
  · obtain ⟨tap, htap⟩ := exists_tap hs ha
    have hmem : id ∈ gone := (mem_dropped_iff hs).mpr ⟨a, ha, hmoved⟩
    have hnow := (haborted tap).mpr (Or.inr ⟨id, hmem, htap⟩)
    exact ⟨List.count_eq_one_of_mem hnodup hmem, tap, htap,
      fun hold => (hs.handles.gone tap hold).2 id htap,
      List.count_eq_one_of_mem hs'.handles.once hnow⟩

end Supervisor

end RfxVoiced
