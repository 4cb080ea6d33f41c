import RfxVoiced.Router.Listening

/-!
# Departures

A client goes in three ways: its session ends, it is forgotten, or its whole server is dropped. Each
takes the departed off every route, as transmitters and as members, and drops what is recorded about
them. Whoever stays is heard on the same route as before, by the same listeners less the departed.

## Main definitions

* `Router.Departed` — every trace of the departed is gone, and nothing else has changed

## Main results

* `listenersAcross_of_removes` — removing members and merging their links into a list commute
* `departure_complete_and_scoped` — the three departures are complete and scoped
-/

namespace RfxVoiced

/-! ### Filtering a merged list -/

/-- A pass over a list, filtered, is the pass over the items that matter, from a filtered start. -/
theorem filter_foldl {α β : Type*} {f : List α → β → List α} (f' : List α → β → List α)
    {keep : α → Bool} (matters : β → Bool)
    (hf : ∀ out b, (f out b).filter keep =
      if matters b then f' (out.filter keep) b else out.filter keep) (bs : List β) (out : List α) :
    (bs.foldl f out).filter keep = (bs.filter matters).foldl f' (out.filter keep) := by
  induction bs generalizing out with
  | nil => rfl
  | cons b bs ih =>
    rw [List.foldl_cons, ih, hf]
    cases hb : matters b with
    | true => rw [List.filter_cons_of_pos hb, List.foldl_cons, if_pos rfl]
    | false =>
      rw [List.filter_cons_of_neg (by simp [hb])]
      rfl

namespace Router

/-- Merging looks at one client only, so it commutes with leaving clients out. -/
theorem filter_mergeListener (gone : ClientId → Bool) (out : List Listener) (l : Listener) :
    (mergeListener out l).filter (fun x => !gone x.client) =
      if gone l.client then out.filter fun x => !gone x.client
      else mergeListener (out.filter fun x => !gone x.client) l := by
  induction out with
  | nil => cases h : gone l.client <;> simp [mergeListener, h]
  | cons x out ih =>
    by_cases hclient : x.client = l.client
    · -- The entry of this client stays or goes with the client.
      cases h : gone l.client with
      | true =>
        rw [mergeListener, if_pos hclient]
        split_ifs <;> simp_all
      | false =>
        rw [List.filter_cons_of_pos (by simp [h, hclient])]
        simp only [mergeListener, if_pos hclient]
        split_ifs <;> simp_all
    · -- The entry of another client is passed over, and stays or goes by itself.
      rw [mergeListener, if_neg hclient]
      cases hx : gone x.client with
      | true => simp only [List.filter_cons, hx, ih, Bool.not_true, Bool.false_eq_true, if_false]
      | false =>
        simp only [List.filter_cons, hx, ih, Bool.not_false, if_true]
        split_ifs
        · rfl
        · rw [mergeListener, if_neg hclient]

/-- What one membership adds to a listener list. -/
def serve (tg member : RouteId) (mode : Dsp.Mode) (except : Option ClientId)
    (out : List Listener) (e : Sigma fun _ : ClientId => Member) : List Listener :=
  if !e.2.listen || some e.1 = except then out
  else
    mergeListener out
      { client := e.1
        quality := e.2.quality
        mode := mode
        bridged := member ≠ tg }

/-- What one route adds to a listener list. -/
def serveRoute (r : Router) (tg : RouteId) (except : Option ClientId) (out : List Listener)
    (member : RouteId) : List Listener :=
  match r.routes.lookup member with
  | none => out
  | some route => route.members.entries.foldl (serve tg member route.mode except) out

theorem listenersAcross_eq (r : Router) (tg : RouteId) (except : Option ClientId) :
    r.listenersAcross tg except = (r.joined tg).foldl (serveRoute r tg except) [] := rfl

theorem filter_serve (tg member : RouteId) (mode : Dsp.Mode) (except : Option ClientId)
    (gone : ClientId → Bool) (out : List Listener) (e : Sigma fun _ : ClientId => Member) :
    (serve tg member mode except out e).filter (fun l => !gone l.client) =
      if !gone e.1 then serve tg member mode except (out.filter fun l => !gone l.client) e
      else out.filter fun l => !gone l.client := by
  unfold serve
  cases hgone : gone e.1 with
  | true =>
    simp only [Bool.not_true, Bool.false_eq_true, if_false]
    split_ifs
    · rfl
    · rw [filter_mergeListener, if_pos hgone]
  | false =>
    simp only [Bool.not_false, if_true]
    split_ifs
    · rfl
    · rw [filter_mergeListener, if_neg (by simp [hgone])]

/-! ### Taking clients off a router -/

/-- Take clients off one route: as transmitters, and as members. -/
structure Removes (gone : ClientId → Bool) (route route' : Route) : Prop where
  onAir : route'.onAir = route.onAir.silence gone
  members : route'.members.entries = route.members.entries.filter fun e => !gone e.1

theorem Removes.lookup {gone : ClientId → Bool} {route route' : Route}
    (h : Removes gone route route') (d : ClientId) :
    route'.members.lookup d = if gone d then none else route.members.lookup d := by
  have hlookup : route'.members.lookup d = (route.members.retain fun c _ => !gone c).lookup d :=
    congrArg (List.dlookup d) h.members
  rw [hlookup, Table.lookup_retain]
  cases route.members.lookup d <;> cases gone d <;> rfl

theorem Removes.mode {gone : ClientId → Bool} {route route' : Route}
    (h : Removes gone route route') : route'.mode = route.mode := by
  have hconv : route'.conventional = route.conventional := congrArg OnAir.conventional h.onAir
  have ham : route'.am = route.am := congrArg OnAir.am h.onAir
  rw [Route.mode, hconv, ham, Route.mode]

section Removal

variable {r r' : Router} {gone : ClientId → Bool} {f : RouteId → Route → Route}
  (hroutes : r'.routes = r.routes.mapVal f) (hf : ∀ t route, Removes gone route (f t route))

include hroutes hf

theorem holds_of_removes (t : RouteId) (d : ClientId) :
    r'.holds t d = true ↔ r.holds t d = true ∧ gone d = false := by
  apply holds_of_silence
  rw [onAir, hroutes, Table.lookup_mapVal, Option.map_map, onAir, Option.map_map]
  congr 1
  funext route
  exact (hf t route).onAir

theorem listensOn_of_removes (t : RouteId) (d : ClientId) :
    r'.listensOn t d = if gone d then none else r.listensOn t d :=
  listensOn_of_mapVal gone f hroutes fun t route => (hf t route).lookup d

/-- The links of the departed are left out of every listener list, and no other entry changes. -/
theorem listenersAcross_of_removes (hpatches : r'.patches = r.patches) (tg : RouteId)
    (except : Option ClientId) :
    r'.listenersAcross tg except =
      (r.listenersAcross tg except).filter fun l => !gone l.client := by
  have hjoined : r'.joined tg = r.joined tg := by rw [joined, hpatches, joined]
  rw [listenersAcross_eq, listenersAcross_eq, hjoined,
    filter_foldl (serveRoute r' tg except) (fun _ => true) ?_ (r.joined tg), List.filter_true]
  · rfl
  · intro out member
    simp only [serveRoute, hroutes, Table.lookup_mapVal, if_true]
    cases r.routes.lookup member with
    | none => rfl
    | some route =>
      have hmode : (f member route).mode = route.mode := (hf member route).mode
      rw [Option.map_some]
      dsimp only
      rw [(hf member route).members, hmode]
      exact filter_foldl _ _ (filter_serve tg member route.mode except gone) _ _

theorem destinationRoute_of_removes {c : ClientId} (hstays : gone c = false)
    (hkeyed : r'.keyedBy.lookup c = r.keyedBy.lookup c) :
    r'.destinationRoute c = r.destinationRoute c := by
  have hholds : ∀ t, r'.holds t c = r.holds t c := by
    intro t
    rw [Bool.eq_iff_iff, holds_of_removes hroutes hf, and_iff_left hstays]
  simp only [destinationRoute, hkeyed, hholds, hroutes, Table.keys_mapVal]

end Removal

/-! ### The three departures -/

/-- Every trace of the departed is gone. Those who stay are on the same routes, as transmitters and
as members, and are heard on the same route, by the same listeners less the departed. -/
structure Departed (r r' : Router) (gone : ClientId → Bool) : Prop where
  offAir : ∀ c, gone c = true → ∀ t, r'.holds t c = false
  noMember : ∀ c, gone c = true → ∀ t, r'.listensOn t c = none
  noRecord : ∀ c, gone c = true → r'.keyedBy.lookup c = none ∧ ∀ p, r'.took.lookup (c, p) = none
  silent : ∀ c, gone c = true → r'.destinationOf c = none
  stays : ∀ c, gone c = false → ∀ t, r'.holds t c = r.holds t c
  listens : ∀ c, gone c = false → ∀ t, r'.listensOn t c = r.listensOn t c
  heard : ∀ c, gone c = false → r'.destinationOf c =
    (r.destinationOf c).map fun d => (d.1, d.2.filter fun l => !gone l.client)

/-- Taking the departed off every route, and dropping their records, is a departure. -/
theorem departed_of_removes {r r' : Router} {gone : ClientId → Bool} {f : RouteId → Route → Route}
    (hroutes : r'.routes = r.routes.mapVal f) (hf : ∀ t route, Removes gone route (f t route))
    (hpatches : r'.patches = r.patches)
    (hkeyed : ∀ c, r'.keyedBy.lookup c = if gone c then none else r.keyedBy.lookup c)
    (htook : ∀ c p, gone c = true → r'.took.lookup (c, p) = none) : Departed r r' gone := by
  have hoff : ∀ c, gone c = true → ∀ t, r'.holds t c = false := by
    intro c hc t
    rw [← Bool.not_eq_true, holds_of_removes hroutes hf]
    simp [hc]
  refine ⟨hoff, fun c hc t => ?_, fun c hc => ⟨?_, fun p => htook c p hc⟩, fun c hc => ?_,
    fun c hc t => ?_, fun c hc t => ?_, fun c hc => ?_⟩
  · rw [listensOn_of_removes hroutes hf, if_pos hc]
  · rw [hkeyed, if_pos hc]
  · exact destinationOf_eq_none.mpr fun t ht => absurd (ht.symm.trans (hoff c hc t)) (by decide)
  · rw [Bool.eq_iff_iff, holds_of_removes hroutes hf, and_iff_left hc]
  · rw [listensOn_of_removes hroutes hf, if_neg (by simp [hc])]
  · -- Whoever stays is heard on the same route; only the listeners can be fewer.
    have hsame : r'.keyedBy.lookup c = r.keyedBy.lookup c := by
      rw [hkeyed, if_neg (by simp [hc])]
    rw [destinationOf, destinationRoute_of_removes hroutes hf hc hsame, destinationOf,
      Option.map_map]
    congr 1
    funext tg
    rw [listenersAcross_of_removes hroutes hf hpatches]
    rfl

theorem removes_client (route : Route) (client : ClientId) (deferred : Table ClientId UInt8) :
    Removes (fun c => c = client) route
      (silence { route with members := route.members.erase client, deferred := deferred }
        (· = client)) where
  onAir := rfl
  members := by simpa [silence] using Table.entries_erase route.members client

theorem removes_server (route : Route) (server : UInt32) :
    Removes (fun c => c.server = server) route
      (silence { route with members := route.members.retain fun c _ => c.server ≠ server }
        (·.server = server)) where
  onAir := rfl
  members := by simp [silence, Table.retain]

theorem departed_unbind {r : Router} {session : SessionId} {client : ClientId}
    (h : r.clientOf session = some client) :
    Departed r (r.unbind session) (fun c => c = client) := by
  have hunbind : r.unbind session =
      { r with
        sessionToClient := r.sessionToClient.erase session
        clientToSession := r.clientToSession.erase client
        routes := r.routes.mapVal fun _ route =>
          silence { route with members := route.members.erase client } (· = client)
        keyedBy := r.keyedBy.erase client
        took := r.took.retain fun k _ => k.1 ≠ client } := by
    rw [clientOf] at h
    simp only [unbind, h]
  rw [hunbind]
  refine departed_of_removes rfl (fun _ route => removes_client route client route.deferred) rfl
    (fun c => ?_) (fun c p hc => ?_)
  · simp [Table.lookup_erase]
  · simp only [decide_eq_true_eq] at hc
    cases hp : r.took.lookup (c, p) <;> simp [hp, hc]

theorem departed_forgetClient (r : Router) (client : ClientId) :
    Departed r (r.forgetClient client) (fun c => c = client) := by
  refine departed_of_removes rfl (fun _ route => removes_client route client _) rfl
    (fun c => ?_) (fun c p hc => ?_)
  · simp [forgetClient, Table.lookup_erase]
  · simp only [decide_eq_true_eq] at hc
    cases hp : r.took.lookup (c, p) <;> simp [forgetClient, hp, hc]

theorem departed_dropServer (r : Router) (server : UInt32) :
    Departed r (r.dropServer server) (fun c => c.server = server) := by
  refine departed_of_removes rfl (fun _ route => removes_server route server) rfl
    (fun c => ?_) (fun c p hc => ?_)
  · by_cases hc : c.server = server <;>
      cases hk : r.keyedBy.lookup c <;> simp [dropServer, hk, hc]
  · simp only [decide_eq_true_eq] at hc
    cases hp : r.took.lookup (c, p) <;> simp [dropServer, hp, hc]

/-- **Departure is complete and scoped.** The end of a bound session, the forgetting of a client and
the dropping of a server each leave no trace of the departed, and nobody else is affected. -/
theorem departure_complete_and_scoped (r : Router) :
    (∀ session client, r.clientOf session = some client →
      Departed r (r.unbind session) (fun c => c = client)) ∧
    (∀ client, Departed r (r.forgetClient client) (fun c => c = client)) ∧
    ∀ server, Departed r (r.dropServer server) (fun c => c.server = server) :=
  ⟨fun _ _ h => departed_unbind h, departed_forgetClient r, departed_dropServer r⟩

end Router

end RfxVoiced
