import Mathlib.Data.Finset.Basic
import Mathlib.Data.Finset.Card
import Mathlib.Data.Finset.Dedup
import RfxVoiced.Lib.Tally
import RfxVoiced.Router.Operations

/-!
# The figures of a server

The node reports, for each server, how many of its sessions are identified, how many of its clients
are affiliated with some route, and how many routes its clients are keying. The router makes these
figures in one pass over its tables, for all servers at once.

## Main definitions

* `Figures`, `Router.stats` — the figures, and how they are made

## Main results

* `stats_spec` — what they count
-/

namespace RfxVoiced

/-- What is reported of a server, in the width in which it is reported. -/
@[ext]
structure Figures where
  players : UInt32 := 0
  radios : UInt32 := 0
  talkers : UInt32 := 0
  deriving DecidableEq, Repr

namespace Router

/-- The clients of each server that are affiliated, and the figures so far, with one more route. -/
def statsRoute (acc : Table UInt32 (Finset ClientId) × Table UInt32 Figures) (route : Route) :
    Table UInt32 (Finset ClientId) × Table UInt32 Figures :=
  (acc.1.tally ∅ ClientId.server (fun client set => insert client set) route.members.keys,
    match route.keyed with
    | none => acc.2
    | some k => acc.2.upsert k.server {} fun row => { row with talkers := row.talkers + 1 })

def stats (r : Router) : Table UInt32 Figures :=
  let out := (∅ : Table UInt32 Figures).tally {} (fun e => e.2.server)
    (fun _ row => { row with players := row.players + 1 }) r.sessionToClient.entries
  let (affiliated, out) := r.routes.entries.foldl (fun acc e => statsRoute acc e.2) (∅, out)
  out.tally {} (fun e => e.1) (fun e row => { row with radios := UInt32.ofNat e.2.card })
    affiliated.entries

/-- The clients that are affiliated with some route. -/
def affiliated (r : Router) : Finset ClientId :=
  (r.routes.entries.flatMap fun e => e.2.members.keys).toFinset

/-- What the figures of a server count. -/
def figures (r : Router) (server : UInt32) : Figures where
  players := UInt32.ofNat (r.sessionToClient.entries.countP fun e => e.2.server = server)
  radios := UInt32.ofNat (r.affiliated.filter fun c => c.server = server).card
  talkers := UInt32.ofNat
    (r.routes.entries.countP fun e => e.2.keyed.map ClientId.server = some server)

/-! ### One pass -/

theorem add_one_add_ofNat (a : UInt32) (n : ℕ) :
    a + 1 + UInt32.ofNat n = a + UInt32.ofNat (n + 1) := by
  rw [Nat.add_comm n 1, UInt32.ofNat_add, UInt32.add_assoc]
  rfl

theorem foldl_players {α : Type*} (l : List α) (row : Figures) :
    l.foldl (fun row _ => { row with players := row.players + 1 }) row =
      { row with players := row.players + UInt32.ofNat l.length } := by
  induction l generalizing row with
  | nil => simp
  | cons a l ih =>
    rw [List.foldl_cons, ih, List.length_cons, ← add_one_add_ofNat]

/-- A client is affiliated with its own server, once, however many routes list it. -/
theorem foldl_insert (clients : List ClientId) (set : Finset ClientId) :
    clients.foldl (fun set client => insert client set) set = set ∪ clients.toFinset := by
  induction clients generalizing set with
  | nil => simp
  | cons c clients ih =>
    rw [List.foldl_cons, ih, List.toFinset_cons, Finset.insert_union, Finset.union_insert]

variable (server : UInt32)

theorem statsRoute_affiliated (acc : Table UInt32 (Finset ClientId) × Table UInt32 Figures)
    (l : List (Sigma fun _ : RouteId => Route)) :
    (((l.foldl (fun acc e => statsRoute acc e.2) acc).1).lookup server).getD ∅ =
      (acc.1.lookup server).getD ∅ ∪
        ((l.flatMap fun e => e.2.members.keys).toFinset.filter fun c => c.server = server) := by
  induction l generalizing acc with
  | nil => simp
  | cons e l ih =>
    rw [List.foldl_cons, ih, statsRoute, Table.lookup_tally, foldl_insert, List.flatMap_cons,
      List.toFinset_append, Finset.filter_union, Finset.union_assoc, List.toFinset_filter]
    simp only [decide_eq_true_eq]

theorem statsRoute_figures (acc : Table UInt32 (Finset ClientId) × Table UInt32 Figures)
    (l : List (Sigma fun _ : RouteId => Route)) :
    (((l.foldl (fun acc e => statsRoute acc e.2) acc).2).lookup server).getD {} =
      { (acc.2.lookup server).getD {} with
        talkers := ((acc.2.lookup server).getD {}).talkers + UInt32.ofNat
          (l.countP fun e => e.2.keyed.map ClientId.server = some server) } := by
  induction l generalizing acc with
  | nil => simp
  | cons e l ih =>
    rw [List.foldl_cons, ih, statsRoute, List.countP_cons]
    cases hkeyed : e.2.keyed with
    | none => simp
    | some k =>
      simp only [Table.lookup_upsert, Option.map_some, Option.some.injEq]
      by_cases hserver : k.server = server
      · subst hserver
        rw [if_pos rfl, Option.getD_some, add_one_add_ofNat]
        simp
      · rw [if_neg (Ne.symm hserver)]
        simp [hserver]

/-- **The figures count** the identified sessions of a server, the clients of it that are
affiliated, and the routes that its clients are keying. A server that is not listed has none. -/
theorem stats_spec (r : Router) (server : UInt32) :
    (r.stats.lookup server).getD {} = r.figures server := by
  let out := (∅ : Table UInt32 Figures).tally {} (fun e => e.2.server)
    (fun _ row => { row with players := row.players + 1 }) r.sessionToClient.entries
  let acc := r.routes.entries.foldl (fun acc e => statsRoute acc e.2) (∅, out)
  have hplayers : (out.lookup server).getD {} =
      { players := UInt32.ofNat
          (r.sessionToClient.entries.countP fun e => e.2.server = server) } := by
    rw [Table.lookup_tally, foldl_players, List.countP_eq_length_filter]
    simp
  have haffiliated : (acc.1.lookup server).getD ∅ =
      r.affiliated.filter fun c => c.server = server := by
    rw [statsRoute_affiliated]
    simp [affiliated]
  have hfigures := statsRoute_figures server (∅, out) r.routes.entries
  rw [hplayers] at hfigures
  have hstats : r.stats = acc.2.tally {} (fun e => e.1)
      (fun e row => { row with radios := UInt32.ofNat e.2.card }) acc.1.entries := rfl
  rw [hstats, Table.lookup_tally, Table.filter_entries, hfigures, figures, ← haffiliated]
  -- Each server has one set of clients, if it has any.
  cases acc.1.lookup server with
  | none => simp
  | some set => simp

end Router

end RfxVoiced
