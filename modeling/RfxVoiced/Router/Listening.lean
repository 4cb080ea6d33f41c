import RfxVoiced.Router.Step

/-!
# Who listens

Membership is what FXServer last said it is. Its link quality may be parked while a channel is busy,
but the right to listen is not: it takes effect at once and stays until the next word on it. What a
speaker is delivered to is computed from the memberships alone.

## Main definitions

* `Router.listensOn` — the stored right of a client to listen on a route, if it is a member
* `Router.lastListen` — the right that was last set, along a run

## Main results

* `mem_listenersAcross` — every listener served is a listening member of a joined route
* `listensOn_step` — what one call can do to a stored right
* `listen_is_last_set` — stored rights are the last ones set, and a revoked one is not served
-/

namespace RfxVoiced

namespace Router

/-! ### Listener lists -/

/-- Merging a membership in adds its own entry, or leaves the list as it was. -/
theorem mem_mergeListener {out : List Listener} {l x : Listener} (h : x ∈ mergeListener out l) :
    x ∈ out ∨ x = l := by
  induction out with
  | nil => exact Or.inr (List.mem_singleton.mp h)
  | cons y out ih =>
    simp only [mergeListener] at h
    split_ifs at h with hclient hbetter
    · rcases List.mem_cons.mp h with rfl | hmem
      · -- The entry is taken over whole: its client, and the three other fields.
        refine Or.inr ?_
        cases l
        simp_all
      · exact Or.inl (List.mem_cons_of_mem y hmem)
    · exact Or.inl h
    · rcases List.mem_cons.mp h with rfl | hmem
      · exact Or.inl List.mem_cons_self
      · rcases ih hmem with hout | hnew
        · exact Or.inl (List.mem_cons_of_mem y hout)
        · exact Or.inr hnew

/-- A list built by merging has only entries that were there, or that some item contributed. -/
theorem mem_foldl_of_step {α β : Type*} {f : List α → β → List α} {g : β → α → Prop} {x : α}
    (hf : ∀ out b, x ∈ f out b → x ∈ out ∨ g b x) {bs : List β} {out : List α}
    (h : x ∈ bs.foldl f out) : x ∈ out ∨ ∃ b ∈ bs, g b x := by
  induction bs generalizing out with
  | nil => exact Or.inl h
  | cons b bs ih =>
    rcases ih h with hmid | ⟨b', hb', hg⟩
    · rcases hf out b hmid with hout | hg
      · exact Or.inl hout
      · exact Or.inr ⟨b, List.mem_cons_self, hg⟩
    · exact Or.inr ⟨b', List.mem_cons_of_mem b hb', hg⟩

/-- The membership that an entry of a listener list comes from. -/
def Serves (r : Router) (tg : RouteId) (except : Option ClientId) (l : Listener) (t : RouteId) :
    Prop :=
  ∃ route m, r.routes.lookup t = some route ∧ route.members.lookup l.client = some m ∧
    m.listen = true ∧ some l.client ≠ except ∧ l.quality = m.quality ∧ l.mode = route.mode ∧
    l.bridged = decide (t ≠ tg)

/-- What the listening members of one route add to a listener list. -/
theorem mem_foldl_members {r : Router} {tg t : RouteId} {except : Option ClientId} {l : Listener}
    {route : Route} (hroute : r.routes.lookup t = some route) {out : List Listener}
    (h : l ∈ route.members.entries.foldl (fun out e =>
      if !e.2.listen || some e.1 = except then out
      else
        mergeListener out
          { client := e.1
            quality := e.2.quality
            mode := route.mode
            bridged := t ≠ tg }) out) : l ∈ out ∨ r.Serves tg except l t := by
  have hentry := mem_foldl_of_step (x := l) (g := fun e l => e ∈ route.members.entries →
    r.Serves tg except l t) ?_ h
  · rcases hentry with hout | ⟨e, he, hserves⟩
    · exact Or.inl hout
    · exact Or.inr (hserves he)
  · rintro out ⟨c, m⟩ hmerge
    split_ifs at hmerge with hskip
    · exact Or.inl hmerge
    · rcases mem_mergeListener hmerge with hout | rfl
      · exact Or.inl hout
      · simp only [Bool.or_eq_true, Bool.not_eq_true', decide_eq_true_eq, not_or,
          Bool.not_eq_false] at hskip
        exact Or.inr fun he => ⟨route, m, hroute, Table.lookup_eq_some_iff.mpr he, hskip.1,
          hskip.2, rfl, rfl, rfl⟩

/-- Every listener served is a listening member of a joined route, and is served as that membership
says. -/
theorem mem_listenersAcross {r : Router} {tg : RouteId} {except : Option ClientId} {l : Listener}
    (h : l ∈ r.listenersAcross tg except) : ∃ t ∈ r.joined tg, r.Serves tg except l t := by
  have hserved := mem_foldl_of_step (x := l) (g := fun t l => r.Serves tg except l t) ?_ h
  · rcases hserved with hnil | hserves
    · exact absurd hnil List.not_mem_nil
    · exact hserves
  · intro out t hl
    cases hroute : r.routes.lookup t with
    | none =>
      rw [hroute] at hl
      exact Or.inl hl
    | some route =>
      rw [hroute] at hl
      exact mem_foldl_members hroute hl

/-! ### The stored right to listen -/

/-- The stored right of a client to listen on a route, if it is a member there. -/
def listensOn (r : Router) (t : RouteId) (client : ClientId) : Option Bool :=
  (r.routes.lookup t).bind fun route => (route.members.lookup client).map Member.listen

variable {r : Router} {t tg : RouteId} {client d : ClientId}

theorem listensOn_congr {r' : Router}
    (h : (r'.routes.lookup t).map Route.members = (r.routes.lookup t).map Route.members) :
    r'.listensOn t d = r.listensOn t d := by
  have hview : ∀ s : Router, s.listensOn t d =
      ((s.routes.lookup t).map Route.members).bind fun members =>
        (members.lookup d).map Member.listen := by
    intro s
    rw [listensOn, Option.bind_map]
    rfl
  rw [hview r', hview r, h]

/-- Dropping members from every route takes their rights away and leaves the others'. -/
theorem listensOn_of_mapVal {r' : Router} (gone : ClientId → Bool) (f : RouteId → Route → Route)
    (hroutes : r'.routes = r.routes.mapVal f)
    (hf : ∀ t route, (f t route).members.lookup d =
      if gone d then none else route.members.lookup d) :
    r'.listensOn t d = if gone d then none else r.listensOn t d := by
  rw [listensOn, hroutes, Table.lookup_mapVal, listensOn]
  cases r.routes.lookup t with
  | none => simp
  | some route =>
    simp only [Option.map_some, Option.bind_some, hf]
    split_ifs <;> rfl

theorem listensOn_keyAt (r : Router) (tg : RouteId) (client : ClientId) (now : Instant)
    (t : RouteId) (d : ClientId) : (r.keyAt tg client now).2.listensOn t d = r.listensOn t d := by
  apply listensOn_congr
  cases hans : (r.keyAt tg client now).1 with
  | error e => rw [lookup_keyAt_of_error hans]
  | ok k =>
    have hjoin : ∀ route : Route,
        (route.join k client (r.insisting t client now)).members = route.members := by
      intro route
      cases k <;> simp [Route.join, Route.cede]
    rw [lookup_keyAt_of_ok hans]
    split_ifs
    · simp only [Option.map_map, Function.comp_def, Route.press_members]
    · simp only [Option.map_map, Function.comp_def, hjoin]
    · rfl

/-- Applying parked qualities changes nobody's right to listen. -/
theorem listensOn_applyDeferred (r : Router) (u : RouteId) :
    Router.listensOn { r with routes := r.routes.modify u applyDeferred } t d =
      r.listensOn t d := by
  rw [listensOn, listensOn, Table.lookup_modify]
  split_ifs
  · cases r.routes.lookup t with
    | none => rfl
    | some route =>
      simp only [Option.map_some, Option.bind_some, applyDeferred, Table.lookup_overlay]
      cases route.members.lookup d with
      | none => rfl
      | some m =>
        cases route.deferred.lookup d <;> rfl
  · rfl

theorem listensOn_drainDeferred (r : Router) (tg t : RouteId) (d : ClientId) :
    (r.drainDeferred tg).listensOn t d = r.listensOn t d :=
  drainDeferred_induction (P := fun s => s.listensOn t d = r.listensOn t d) tg
    (fun s u hs => (listensOn_applyDeferred s u).trans hs) rfl

theorem listensOn_letGo (r : Router) (client : ClientId) (other t : RouteId) (d : ClientId) :
    (r.letGo client other).2.listensOn t d = r.listensOn t d := by
  unfold letGo
  split
  · rfl
  · apply listensOn_congr
    exact Table.map_lookup_modify _ _ _ fun _ => rfl

theorem listensOn_unkeyAs (r : Router) (tg : RouteId) (client : ClientId) (t : RouteId)
    (d : ClientId) : (r.unkeyAs tg client).2.listensOn t d = r.listensOn t d := by
  rw [unkeyAs_snd]
  have hlet : (letGoAll client (false, { r with took := r.took.erase (client, tg) })
      (r.mine tg client)).2.listensOn t d = r.listensOn t d :=
    letGoAll_induction (P := fun s => s.listensOn t d = r.listensOn t d)
      (fun s other hs => (listensOn_letGo s client other t d).trans hs) rfl
  refine run_invariant (P := fun s : Router => s.listensOn t d = r.listensOn t d) ?_ ?_ _
  · exact fun s u hs => (listensOn_drainDeferred s u t d).trans hs
  · exact hlet

theorem listensOn_unkey (r : Router) (tg t : RouteId) (d : ClientId) :
    (r.unkey tg).listensOn t d = r.listensOn t d := by
  rw [unkey, listensOn_drainDeferred]
  apply listensOn_congr
  exact Table.map_lookup_modify _ _ _ fun _ => rfl

/-- Setting a member sets the right of that member on that route, whatever becomes of its quality,
and no other right. -/
theorem listensOn_setMember (r : Router) (tg : RouteId) (client : ClientId) (listen : Bool)
    (quality : UInt8) (t : RouteId) (d : ClientId) :
    (r.setMember tg client listen quality).listensOn t d =
      if t = tg ∧ d = client then some listen else r.listensOn t d := by
  rw [listensOn, setMember, Table.lookup_insert]
  by_cases ht : t = tg
  · subst ht
    -- Parked or applied, the quality does not decide whether the member listens.
    rw [if_pos rfl, Option.bind_some]
    -- A route that is only now created has no members yet.
    have hfresh : (((r.routes.lookup t).getD
        { conventional := (classify t).1, am := (classify t).2 }).members.lookup d).map
          Member.listen = r.listensOn t d := by
      rw [listensOn]
      cases r.routes.lookup t with
      | none => rfl
      | some route => rfl
    by_cases hd : d = client
    · subst hd
      rw [if_pos ⟨rfl, rfl⟩]
      split <;> simp
    · rw [if_neg fun h => hd h.2]
      split <;> simpa [hd] using hfresh
  · rw [if_neg ht, if_neg fun h => ht h.1]
    rfl

theorem listensOn_openRoute (r : Router) (tg : RouteId) (encrypted : Bool) (t : RouteId)
    (d : ClientId) : (r.openRoute tg encrypted).2.listensOn t d = r.listensOn t d := by
  rw [listensOn, openRoute, Table.lookup_insert]
  split_ifs with h
  · subst h
    rw [listensOn]
    cases r.routes.lookup t <;> simp
  · rfl

theorem listensOn_openConventional (r : Router) (id : RouteId) (am : Bool) (t : RouteId)
    (d : ClientId) : (r.openConventional id am).2.listensOn t d = r.listensOn t d := by
  rw [listensOn, openConventional, Table.lookup_insert]
  split_ifs with h
  · subst h
    rw [listensOn]
    cases r.routes.lookup t <;> simp
  · rfl

theorem listensOn_close (r : Router) (tg t : RouteId) (d : ClientId) :
    (r.close tg).2.listensOn t d = if t = tg then none else r.listensOn t d := by
  rw [listensOn, close, Table.lookup_erase]
  split_ifs <;> rfl

theorem listensOn_unbind {session : SessionId} (h : r.sessionToClient.lookup session = some client)
    (t : RouteId) (d : ClientId) :
    (r.unbind session).listensOn t d = if d = client then none else r.listensOn t d := by
  have hroutes : (r.unbind session).routes = r.routes.mapVal fun _ route =>
      silence { route with members := route.members.erase client } (· = client) := by
    simp only [unbind, h]
  simpa using listensOn_of_mapVal (d := d) (t := t) (fun c => c = client) _ hroutes
    fun _ route => by simp [silence, Table.lookup_erase]

theorem listensOn_dropServer (r : Router) (server : UInt32) (t : RouteId) (d : ClientId) :
    (r.dropServer server).listensOn t d =
      if d.server = server then none else r.listensOn t d := by
  have hroutes : (r.dropServer server).routes = r.routes.mapVal fun _ route =>
      silence { route with members := route.members.retain fun c _ => c.server ≠ server }
        (·.server = server) := rfl
  simpa using listensOn_of_mapVal (d := d) (t := t) (fun c => c.server = server) _ hroutes
    fun _ route => by cases hm : route.members.lookup d <;> simp [silence, hm, Option.filter]

theorem listensOn_forgetMembership (r : Router) (client : ClientId) (t : RouteId) (d : ClientId) :
    (r.forgetMembership client).listensOn t d =
      if d = client then none else r.listensOn t d := by
  have hroutes : (r.forgetMembership client).routes = r.routes.mapVal fun _ route =>
      { route with
        members := route.members.erase client
        deferred := route.deferred.erase client } := rfl
  simpa using listensOn_of_mapVal (d := d) (t := t) (fun c => c = client) _ hroutes
    fun _ route => by simp [Table.lookup_erase]

theorem listensOn_forgetClient (r : Router) (client : ClientId) (t : RouteId) (d : ClientId) :
    (r.forgetClient client).listensOn t d = if d = client then none else r.listensOn t d := by
  have hroutes : (r.forgetClient client).routes = r.routes.mapVal fun _ route =>
      silence
        { route with
          members := route.members.erase client
          deferred := route.deferred.erase client } (· = client) := rfl
  simpa using listensOn_of_mapVal (d := d) (t := t) (fun c => c = client) _ hroutes
    fun _ route => by simp [silence, Table.lookup_erase]

/-! ### Runs -/

/-- The right to listen that a call sets for this client on this route. -/
def listenSet (t : RouteId) (client : ClientId) (_ : Router) : Op → Option Bool
  | .setMember tg client' listen _ => if t = tg ∧ client = client' then some listen else none
  | _ => none

/-- The right to listen that was last set for this client on this route. -/
def lastListen (t : RouteId) (client : ClientId) (ops : List Op) : Option Bool :=
  lastSeen step (listenSet t client) Router.empty ops

/-- A right that is stored after a call was set by it, or was stored before. -/
theorem listensOn_step {op : Op} {b : Bool} (h : (step r op).listensOn t d = some b) :
    ((listenSet t d r op).or (r.listensOn t d)) = some b := by
  -- A departure drops memberships, and leaves the others as they were.
  have hdrop : ∀ {p : Prop} [Decidable p], (if p then none else r.listensOn t d) = some b →
      r.listensOn t d = some b := by
    intro p _ hp
    split_ifs at hp
    exact hp
  cases op with
  | setMember tg client listen quality =>
    rw [step, listensOn_setMember] at h
    rw [listenSet]
    split_ifs at h ⊢
    · exact h
    · exact h
  | openRoute tg encrypted => rwa [step, listensOn_openRoute] at h
  | openConventional id am => rwa [step, listensOn_openConventional] at h
  | close tg =>
    rw [step, listensOn_close] at h
    exact hdrop h
  | bind session username =>
    simp only [step, bind] at h
    split at h <;> exact h
  | unbind session =>
    cases hbound : r.sessionToClient.lookup session with
    | none => rwa [step, unbind_of_unbound hbound] at h
    | some client =>
      rw [step, listensOn_unbind hbound] at h
      exact hdrop h
  | dropServer server =>
    rw [step, listensOn_dropServer] at h
    exact hdrop h
  | keyAt tg client now => rwa [step, listensOn_keyAt] at h
  | unkeyAs tg client => rwa [step, listensOn_unkeyAs] at h
  | unkey tg => rwa [step, listensOn_unkey] at h
  | setPatches groups => exact h
  | forgetMembership client =>
    rw [step, listensOn_forgetMembership] at h
    exact hdrop h
  | forgetClient client =>
    rw [step, listensOn_forgetClient] at h
    exact hdrop h

/-- Every stored right is the last one set. -/
theorem lastListen_of_listensOn {ops : List Op} {b : Bool}
    (h : (after ops).listensOn t d = some b) : lastListen t d ops = some b := by
  induction ops using List.reverseRecOn generalizing b with
  | nil => simp [listensOn, Router.empty] at h
  | append_singleton ops op ih =>
    rw [after_concat] at h
    have hstep := listensOn_step h
    have hlast : lastListen t d (ops ++ [op]) =
        (listenSet t d (after ops) op).or (lastListen t d ops) :=
      lastSeen_concat step (listenSet t d) Router.empty ops op
    rw [hlast]
    cases hset : listenSet t d (after ops) op with
    | some b' =>
      rw [hset] at hstep
      simpa using hstep
    | none =>
      rw [hset, Option.none_or] at hstep
      rw [Option.none_or]
      exact ih hstep

/-- **A revoked right to listen takes effect at once.** Every member's stored right is the one last
set for it, and a client whose last right is revoked, or who is no member, on every route joined to
a speaker's destination is not among those the speaker is delivered to. -/
theorem listen_is_last_set (ops : List Op) :
    (∀ t client route m, (after ops).routes.lookup t = some route →
      route.members.lookup client = some m → lastListen t client ops = some m.listen) ∧
    (∀ p client, (∀ t ∈ (after ops).joined p, lastListen t client ops = some false ∨
        (after ops).listensOn t client = none) →
      ∀ speaker listeners, (after ops).destinationOf speaker = some (p, listeners) →
        ∀ l ∈ listeners, l.client ≠ client) := by
  have hstored : ∀ t client route m, (after ops).routes.lookup t = some route →
      route.members.lookup client = some m → lastListen t client ops = some m.listen := by
    intro t client route m hroute hm
    apply lastListen_of_listensOn
    rw [listensOn, hroute, Option.bind_some, hm, Option.map_some]
  refine ⟨hstored, ?_⟩
  rintro p client hrevoked speaker listeners hdest l hl rfl
  obtain ⟨tg, -, heq⟩ := Option.map_eq_some_iff.mp hdest
  obtain ⟨rfl, rfl⟩ := Prod.mk.inj heq
  obtain ⟨t, ht, route, m, hroute, hm, hlisten, -⟩ := mem_listenersAcross hl
  rcases hrevoked t ht with hlast | hnone
  · have hsame := (hstored t l.client route m hroute hm).symm.trans hlast
    exact absurd (hlisten.symm.trans (Option.some.inj hsame)) (by decide)
  · rw [listensOn, hroute, Option.bind_some, hm] at hnone
    exact absurd hnone (by simp)

end Router

end RfxVoiced
