import RfxVoiced.Node.Names
import RfxVoiced.Router.Stats
import RfxVoiced.Supervisor

/-!
# The heartbeat

Every half minute the node reports the servers that it is attached to, each with its figures; a
server where nothing goes on is reported too, because the report is also a sign of life. The players
of a server are counted in the table of identities, which the taps keep; so the number is that of
the users on the connection of the server's tap who have a name that names a player, or had one.

## Main definitions

* `Supervisor.heartbeat` — the rows of a report
* `Tapped.identified` — the users of a connection whom the node knows

## Main results

* `mem_heartbeat` — each attached server has one row, with its figures
* `countP_identified` — the identities of a server are the identified users of its connection
* `heartbeat_players` — what is reported of a node with its taps
-/

namespace RfxVoiced

open Dsp (Signal)
open Mumble (Proto Session)

namespace Supervisor

variable {host : Host}

/-- The rows of a report, one for each server that the node is attached to. The source reads the
figures and then the attached servers; here both are read at one moment. -/
def heartbeat (s : Supervisor host) : Finset (UInt32 × Figures) :=
  s.attached.image fun id => (id, (s.node.router.stats.lookup id).getD {})

/-- **Each attached server has one row, with its figures**, whether anything goes on there or
not. -/
theorem mem_heartbeat (s : Supervisor host) (id : UInt32) (figures : Figures) :
    (id, figures) ∈ s.heartbeat ↔ id ∈ s.attached ∧ figures = s.node.router.figures id := by
  rw [heartbeat, Finset.mem_image]
  constructor
  · rintro ⟨id', hid', heq⟩
    obtain ⟨rfl, rfl⟩ := Prod.mk.inj heq
    exact ⟨hid', Router.stats_spec _ _⟩
  · rintro ⟨hid, rfl⟩
    exact ⟨id, hid, Prod.ext rfl (Router.stats_spec _ _)⟩

end Supervisor

namespace Tapped

variable {host : Host} {S : Signal} {t : Tapped host S}

/-- The users on the connection of a server's tap whom the node knows as players. -/
def identified (t : Tapped host S) (server : UInt32) : List UInt32 :=
  ((t.sessions.lookup server).map fun s =>
    s.users.keys.filter fun session => (t.node.router.clientOf ⟨server, session⟩).isSome).getD []

/-- The sessions of a server that the node knows. -/
def bound (r : Router) (server : UInt32) : List UInt32 :=
  (r.sessionToClient.entries.filter fun e => e.2.server = server).map fun e => e.1.session

theorem mem_bound {r : Router} (hhome : r.SameServer) {server session : UInt32} :
    session ∈ bound r server ↔ (r.clientOf ⟨server, session⟩).isSome = true := by
  rw [bound, List.mem_map, Option.isSome_iff_exists]
  constructor
  · rintro ⟨⟨⟨server', session'⟩, client⟩, he, rfl⟩
    obtain ⟨hmem, hserver⟩ := List.mem_filter.mp he
    have hlookup : r.clientOf ⟨server', session'⟩ = some client :=
      Table.lookup_eq_some_iff.mpr hmem
    have hsame : client.server = server' := hhome _ _ hlookup
    obtain rfl : server' = server := hsame.symm.trans (of_decide_eq_true hserver)
    exact ⟨client, hlookup⟩
  · rintro ⟨client, hclient⟩
    refine ⟨⟨⟨server, session⟩, client⟩, List.mem_filter.mpr ⟨?_, ?_⟩, rfl⟩
    · exact Table.lookup_eq_some_iff.mp hclient
    · exact decide_eq_true (hhome _ _ hclient)

/-- A session is bound once. -/
theorem nodup_bound {r : Router} (hhome : r.SameServer) (server : UInt32) :
    (bound r server).Nodup := by
  have hkeys : (r.sessionToClient.entries.map Sigma.fst).Nodup := r.sessionToClient.nodupKeys
  have hsub : ((r.sessionToClient.entries.filter fun e => e.2.server = server).map
      Sigma.fst).Nodup := (List.filter_sublist.map Sigma.fst).nodup hkeys
  have hmap : bound r server =
      ((r.sessionToClient.entries.filter fun e => e.2.server = server).map Sigma.fst).map
        SessionId.session := by
    rw [List.map_map]
    rfl
  rw [hmap]
  refine hsub.map_on fun x hx y hy heq => ?_
  have hserver : ∀ z ∈ (r.sessionToClient.entries.filter fun e => e.2.server = server).map
      Sigma.fst, z.server = server := by
    rintro z hz
    obtain ⟨⟨z, client⟩, he, rfl⟩ := List.mem_map.mp hz
    obtain ⟨hmem, hclient⟩ := List.mem_filter.mp he
    exact (hhome z client (Table.lookup_eq_some_iff.mpr hmem)).symm.trans
      (of_decide_eq_true hclient)
  obtain ⟨xserver, xsession⟩ := x
  obtain ⟨yserver, ysession⟩ := y
  obtain rfl : xserver = server := hserver _ hx
  obtain rfl : yserver = xserver := hserver _ hy
  exact congrArg (SessionId.mk yserver) heq

/-- **The identities of a server are the identified users of its connection.** -/
theorem countP_identified (h : t.Named) (hhome : t.node.router.SameServer) (server : UInt32) :
    t.node.router.sessionToClient.entries.countP (fun e => e.2.server = server) =
      (t.identified server).length := by
  have hlength : t.node.router.sessionToClient.entries.countP (fun e => e.2.server = server) =
      (bound t.node.router server).length := by
    rw [bound, List.length_map, List.countP_eq_length_filter]
  rw [hlength]
  have hnodup : (t.identified server).Nodup := by
    rw [identified]
    cases t.sessions.lookup server with
    | none => exact List.nodup_nil
    | some s => exact s.users.keys_nodup.filter _
  refine ((List.perm_ext_iff_of_nodup (nodup_bound hhome server) hnodup).mpr
    fun session => ?_).length_eq
  rw [mem_bound hhome]
  constructor
  · intro hknown
    obtain ⟨client, hclient⟩ := Option.isSome_iff_exists.mp hknown
    obtain ⟨s, hs, huser⟩ := h.announced server session client hclient
    rw [identified, hs, Option.map_some, Option.getD_some, List.mem_filter]
    exact ⟨AList.lookup_isSome.mp huser, hknown⟩
  · intro hmem
    rw [identified] at hmem
    cases hs : t.sessions.lookup server with
    | none =>
      rw [hs] at hmem
      cases hmem
    | some s =>
      rw [hs, Option.map_some, Option.getD_some] at hmem
      exact (List.mem_filter.mp hmem).2

/-- What the node counts of a server, whatever has happened until then. -/
theorem figures_after (p : Proto) (host : Host) (S : Signal) (recording : Bool)
    (es : List TapEvent) (server : UInt32) :
    let t := after p host S recording es
    t.node.router.figures server =
      { players := UInt32.ofNat (t.identified server).length
        radios := UInt32.ofNat
          (t.node.router.affiliated.filter fun c => c.server = server).card
        talkers := UInt32.ofNat
          (t.node.router.routes.entries.countP fun e =>
            e.2.keyed.map ClientId.server = some server) } := by
  intro t
  have hhome : t.node.router.SameServer := by
    obtain ⟨ops, hops⟩ := Node.exists_after_eq host recording
      (nodeHistory p (initial host S recording) es)
    have hrouter : t.node.router = Router.after ops :=
      (congrArg (·.router) (node_run (initial host S recording) es)).trans hops
    rw [hrouter]
    refine run_invariant (P := Router.SameServer) (fun r op h => Router.sameServer_step h op) ?_ ops
    intro session client hbound
    simp [Router.empty] at hbound
  have hnamed : t.Named := named_run (named_initial recording) es
  rw [Router.figures, countP_identified hnamed hhome]

/-- **What is reported.** Whatever has happened to a node and its taps until then, the report of its
supervisor has a row for each server that it is attached to, and no other. As players it counts the
users on the connection of the server's tap whom the node knows, as radios the clients of the server
that are affiliated with a route, and as talkers the routes that its clients are keying. -/
theorem heartbeat_players (p : Proto) (host : Host) (S : Signal) (recording : Bool)
    (es : List TapEvent) (s : Supervisor host) (hs : s.node = (after p host S recording es).node)
    (server : UInt32) (figures : Figures) :
    (server, figures) ∈ s.heartbeat ↔ server ∈ s.attached ∧ figures =
      { players := UInt32.ofNat ((after p host S recording es).identified server).length
        radios := UInt32.ofNat
          (s.node.router.affiliated.filter fun c => c.server = server).card
        talkers := UInt32.ofNat
          (s.node.router.routes.entries.countP fun e =>
            e.2.keyed.map ClientId.server = some server) } := by
  rw [s.mem_heartbeat, hs, figures_after]

/-- A tap connects, two users are announced to it, and one of them is a player. -/
def twoUsers : List TapEvent :=
  [.dial 2, .turn 2 (.message (9, [0x08, 5, 0x1a, 4, 0x5b, 0x31, 0x30, 0x5d])) 0 true,
    .turn 2 (.message (9, [0x08, 6, 0x1a, 1, 0x5b])) 0 true]

/-- One player is reported of the server, where the node is attached to it. -/
theorem heartbeat_players_twoUsers :
    (2, ⟨1, 0, 0⟩) ∈ ({ Supervisor.idle quietHost false none with
      node := (after Mumble.shortProto quietHost Signal.passing false twoUsers).node
      attached := {2, 3} } : Supervisor quietHost).heartbeat := by
  refine (heartbeat_players Mumble.shortProto quietHost Signal.passing false twoUsers _ rfl 2
    ⟨1, 0, 0⟩).mpr ⟨by decide, ?_⟩
  decide +kernel

end Tapped

end RfxVoiced
