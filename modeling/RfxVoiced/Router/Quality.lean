import RfxVoiced.Lib.Deadband
import RfxVoiced.Router.Departure

/-!
# Link quality

A listener's link quality chooses the lane that the listener is served from, so a link that jitters
over the edge of a lane is steadied while the channel is busy. Each membership is a deadband: the
stored quality is the one held, an update to a neighbouring lane is parked, and the parked one is
taken up when a release leaves the channel clear.

## Main definitions

* `Router.linkOn` — the link of a member: its stored quality, and the one parked behind it
* `Router.lastTold` — the quality that was last told, along a run

## Main results

* `linkOn_setMember`, `linkOn_drainDeferred`, `linkOn_unkeyAs`, `linkOn_unkey` — what becomes of a
  link
* `link_after` — every link knows the last quality told, and lags behind it by one lane at most
-/

namespace RfxVoiced

namespace Router

/-- The link of a member of a route. -/
def linkOn (r : Router) (t : RouteId) (client : ClientId) : Option (Deadband UInt8) :=
  (r.routes.lookup t).bind fun route =>
    (route.members.lookup client).map fun m => ⟨m.quality, route.deferred.lookup client⟩

variable {r r' : Router} {t tg : RouteId} {client d : ClientId}

/-- What a link depends on. -/
def links (route : Route) : Table ClientId Member × Table ClientId UInt8 :=
  (route.members, route.deferred)

theorem linkOn_congr (h : (r'.routes.lookup t).map links = (r.routes.lookup t).map links) :
    r'.linkOn t d = r.linkOn t d := by
  have hview : ∀ s : Router, s.linkOn t d = ((s.routes.lookup t).map links).bind fun l =>
      (l.1.lookup d).map fun m => (⟨m.quality, l.2.lookup d⟩ : Deadband UInt8) := by
    intro s
    rw [linkOn, Option.bind_map]
    rfl
  rw [hview r', hview r, h]

theorem links_press (route : Route) (client : ClientId) (insists : Bool) :
    links (route.press client insists) = links route := by
  rcases Route.press_cases route client insists with ⟨heq, -⟩ | ⟨heq, -⟩ | ⟨heq, -⟩
  all_goals exact (congrArg links heq).trans rfl

theorem linkOn_keyAt (r : Router) (tg : RouteId) (client : ClientId) (now : Instant)
    (t : RouteId) (d : ClientId) : (r.keyAt tg client now).2.linkOn t d = r.linkOn t d := by
  -- A press changes who is on a route, and neither its members nor what is parked for them.
  apply linkOn_congr
  cases hans : (r.keyAt tg client now).1 with
  | error e => rw [lookup_keyAt_of_error hans]
  | ok k =>
    have hjoin : ∀ route : Route,
        links (route.join k client (r.insisting t client now)) = links route := by
      intro route
      cases k with
      | preempted holder => exact links_press (route.cede holder client) client false
      | _ => exact links_press route client _
    rw [lookup_keyAt_of_ok hans]
    split_ifs
    · simp only [Option.map_map, Function.comp_def, links_press]
    · simp only [Option.map_map, Function.comp_def, hjoin]
    · rfl

/-! ### Settling -/

/-- Applying the parked qualities of a route settles the links there, and no others. -/
theorem linkOn_applyDeferred (r : Router) (u t : RouteId) (d : ClientId) :
    Router.linkOn { r with routes := r.routes.modify u applyDeferred } t d =
      if t = u then (r.linkOn t d).map Deadband.settle else r.linkOn t d := by
  rw [linkOn, linkOn, Table.lookup_modify]
  split_ifs
  · cases r.routes.lookup t with
    | none => rfl
    | some route =>
      simp only [Option.map_some, Option.bind_some, applyDeferred, Table.lookup_overlay]
      cases route.members.lookup d with
      | none => rfl
      | some m => cases hp : route.deferred.lookup d <;> simp [Deadband.settle]
  · rfl

/-- A channel is clear or busy as a whole. -/
theorem isClear_congr (h : t ∈ r.joined tg) : r.isClear t = r.isClear tg := by
  rw [Bool.eq_iff_iff, isClear_iff, isClear_iff]
  exact forall_congr' fun u => by rw [mem_joined_congr h u]

theorem linkOn_drainDeferred (r : Router) (tg t : RouteId) (d : ClientId) :
    (r.drainDeferred tg).linkOn t d =
      if r.isClear t = true ∧ t ∈ r.joined tg then (r.linkOn t d).map Deadband.settle
      else r.linkOn t d := by
  have hrun : ∀ us : List RouteId, us.Nodup →
      (us.foldl (fun (r : Router) t => { r with routes := r.routes.modify t applyDeferred })
        r).linkOn t d = if t ∈ us then (r.linkOn t d).map Deadband.settle else r.linkOn t d := by
    intro us hus
    refine view_run (v := fun t (r : Router) => r.linkOn t d)
      (f := fun _ => Option.map Deadband.settle) (fun s u => ?_) (fun s u t' hne => ?_) hus r t
    · exact (linkOn_applyDeferred s u u d).trans (if_pos rfl)
    · exact (linkOn_applyDeferred s u t' d).trans (if_neg hne)
  unfold drainDeferred
  cases hclear : r.isClear tg with
  | false =>
    -- The channel is busy as a whole, so none of its routes is settled.
    have hnot : ¬ (r.isClear t = true ∧ t ∈ r.joined tg) := by
      rintro ⟨ht, hmem⟩
      exact absurd ((isClear_congr hmem).symm.trans ht) (by simp [hclear])
    rw [if_neg hnot]
    rfl
  | true =>
    rw [if_neg (by simp), hrun _ (nodup_joined r tg)]
    refine if_congr ⟨fun hmem => ⟨?_, hmem⟩, And.right⟩ rfl rfl
    rw [isClear_congr hmem, hclear]

/-- Draining changes neither who is on the air nor what is patched, so not what is clear. -/
theorem drainDeferred_frame (r : Router) (tg : RouteId) :
    (∀ t, (r.drainDeferred tg).isClear t = r.isClear t) ∧
      ∀ t, (r.drainDeferred tg).joined t = r.joined t := by
  obtain ⟨routes, h⟩ := sameButRoutes_drainDeferred r tg
  have hjoined : ∀ t, (r.drainDeferred tg).joined t = r.joined t := by
    intro t
    rw [h]
    rfl
  refine ⟨fun t => ?_, hjoined⟩
  rw [Bool.eq_iff_iff, isClear_iff, isClear_iff, hjoined]
  exact forall₂_congr fun u _ => forall_congr' fun c => by
    rw [holds_congr (onAir_drainDeferred r tg u) c]

theorem linkOn_run_drainDeferred (us : List RouteId) (r : Router) (t : RouteId) (d : ClientId) :
    (run drainDeferred r us).linkOn t d =
      if r.isClear t = true ∧ ∃ u ∈ us, t ∈ r.joined u then
        (r.linkOn t d).map Deadband.settle
      else r.linkOn t d := by
  induction us generalizing r with
  | nil => simp
  | cons u us ih =>
    obtain ⟨hclear, hjoined⟩ := drainDeferred_frame r u
    rw [run_cons, ih, hclear, linkOn_drainDeferred]
    simp only [hjoined, List.exists_mem_cons_iff]
    by_cases ht : r.isClear t = true
    · by_cases hu : t ∈ r.joined u
      · -- Settled now, and settling again changes nothing.
        simp only [ht, hu, true_and, true_or, if_true, Option.map_map, Function.comp_def,
          Deadband.settle_settle, ite_self]
      · simp only [ht, hu, true_and, false_or, if_false]
    · simp only [ht, Bool.false_eq_true, false_and, if_false]

theorem linkOn_letGo (r : Router) (client : ClientId) (other t : RouteId) (d : ClientId) :
    (r.letGo client other).2.linkOn t d = r.linkOn t d := by
  unfold letGo
  split
  · rfl
  · apply linkOn_congr
    exact Table.map_lookup_modify _ _ _ fun _ => rfl

/-- A release settles the links of every route joined to one that it gives back, if that leaves the
channel clear. -/
theorem linkOn_unkeyAs (r : Router) (tg : RouteId) (client : ClientId) (t : RouteId)
    (d : ClientId) :
    (r.unkeyAs tg client).2.linkOn t d =
      if (r.unkeyAs tg client).2.isClear t = true ∧ ∃ u ∈ r.mine tg client, t ∈ r.joined u then
        (r.linkOn t d).map Deadband.settle
      else r.linkOn t d := by
  -- Letting go of the routes changes no link and no patch; the drains that follow do the rest.
  rw [unkeyAs_snd]
  generalize hlet : (letGoAll client (false, { r with took := r.took.erase (client, tg) })
    (r.mine tg client)).2 = s
  have hlinks : s.linkOn t d = r.linkOn t d := by
    rw [← hlet]
    exact letGoAll_induction (P := fun s => s.linkOn t d = r.linkOn t d)
      (fun s other hs => (linkOn_letGo s client other t d).trans hs) rfl
  have hpatches : s.patches = r.patches := by
    rw [← hlet]
    refine letGoAll_induction (P := fun s => s.patches = r.patches) (fun s other hs => ?_) rfl
    obtain ⟨routes, h⟩ := sameButRoutes_letGo s client other
    rw [h]
    exact hs
  have hclear : ∀ (us : List RouteId) (s : Router),
      (run drainDeferred s us).isClear t = s.isClear t := by
    intro us s
    exact run_invariant (P := fun s' : Router => s'.isClear t = s.isClear t)
      (fun s' u hs => ((drainDeferred_frame s' u).1 t).trans hs) rfl us
  have hjoined : ∀ u, Router.joined { s with keyedBy := s.keyedBy.erase client } u =
      r.joined u := by
    intro u
    rw [joined, joined, hpatches]
  have hsame : Router.linkOn { s with keyedBy := s.keyedBy.erase client } t d = r.linkOn t d :=
    hlinks
  rw [linkOn_run_drainDeferred, hclear, hsame]
  simp only [hjoined]

theorem linkOn_unkey (r : Router) (tg t : RouteId) (d : ClientId) :
    (r.unkey tg).linkOn t d =
      if (r.unkey tg).isClear t = true ∧ t ∈ r.joined tg then
        (r.linkOn t d).map Deadband.settle
      else r.linkOn t d := by
  have hlinks : Router.linkOn
      { r with routes := r.routes.modify tg fun x => { x with keyed := none, also := [] } } t d =
        r.linkOn t d := by
    apply linkOn_congr
    exact Table.map_lookup_modify _ _ _ fun _ => rfl
  rw [unkey, linkOn_drainDeferred, (drainDeferred_frame _ tg).1, hlinks]
  rfl

/-! ### Membership -/

/-- Telling a link of a quality: a member's link is steadied while the channel is busy, and a new
member starts at the quality told. -/
def tellLink (link : Option (Deadband UInt8)) (busy : Bool) (quality : UInt8) : Deadband UInt8 :=
  match link with
  | none => ⟨quality, none⟩
  | some l => l.tell jittersOneLane busy quality

theorem linkOn_setMember (r : Router) (tg : RouteId) (client : ClientId) (listen : Bool)
    (quality : UInt8) (t : RouteId) (d : ClientId) :
    (r.setMember tg client listen quality).linkOn t d =
      if t = tg ∧ d = client then some (tellLink (r.linkOn tg client) (!r.isClear tg) quality)
      else r.linkOn t d := by
  -- A route that is only now created has no links yet.
  have hfresh : ∀ c, (((r.routes.lookup tg).getD
      { conventional := (classify tg).1, am := (classify tg).2 }).members.lookup c).map
        (fun m => (⟨m.quality, ((r.routes.lookup tg).getD
          { conventional := (classify tg).1, am := (classify tg).2 }).deferred.lookup c⟩ :
            Deadband UInt8)) = r.linkOn tg c := by
    intro c
    rw [linkOn]
    cases r.routes.lookup tg with
    | none => rfl
    | some route => rfl
  rw [linkOn, setMember, Table.lookup_insert]
  by_cases ht : t = tg
  · subst ht
    rw [if_pos rfl, Option.bind_some]
    generalize (r.routes.lookup t).getD
      { conventional := (classify t).1, am := (classify t).2 } = route at hfresh ⊢
    by_cases hd : d = client
    · subst hd
      rw [if_pos ⟨rfl, rfl⟩, ← hfresh d]
      cases hm : route.members.lookup d with
      | none => simp [heldQuality, hm, tellLink]
      | some m =>
        -- A member: the quality is parked when the channel is busy and it is one lane away.
        cases hheld : !r.isClear t && jittersOneLane m.quality quality <;>
          simp [heldQuality, hm, tellLink, Deadband.tell, hheld, Option.filter]
    · rw [if_neg fun h => hd h.2, ← hfresh d]
      split <;> simp [hd]
  · rw [if_neg ht, if_neg fun h => ht h.1]
    rfl

/-- Removing members takes their links away, and leaves the others as they are. -/
theorem linkOn_of_removes {gone : ClientId → Bool} {f : RouteId → Route → Route}
    (hroutes : r'.routes = r.routes.mapVal f) (hf : ∀ t route, Removes gone route (f t route))
    (hdeferred : ∀ t route, gone d = false →
      (f t route).deferred.lookup d = route.deferred.lookup d) :
    r'.linkOn t d = if gone d then none else r.linkOn t d := by
  rw [linkOn, linkOn, hroutes, Table.lookup_mapVal]
  cases r.routes.lookup t with
  | none => simp
  | some route =>
    have hmembers : (f t route).members.lookup d =
        if gone d then none else route.members.lookup d := (hf t route).lookup d
    rw [Option.map_some, Option.bind_some, Option.bind_some, hmembers]
    cases hd : gone d with
    | true => rfl
    | false => rw [hdeferred t route hd, if_neg (by simp), if_neg (by simp)]

theorem linkOn_unbind {session : SessionId} (h : r.sessionToClient.lookup session = some client)
    (t : RouteId) (d : ClientId) :
    (r.unbind session).linkOn t d = if d = client then none else r.linkOn t d := by
  have hroutes : (r.unbind session).routes = r.routes.mapVal fun _ route =>
      silence { route with members := route.members.erase client } (· = client) := by
    simp only [unbind, h]
  simpa using linkOn_of_removes (t := t) (d := d) hroutes
    (fun _ route => removes_client route client route.deferred) fun _ _ _ => rfl

theorem linkOn_dropServer (r : Router) (server : UInt32) (t : RouteId) (d : ClientId) :
    (r.dropServer server).linkOn t d = if d.server = server then none else r.linkOn t d := by
  have hroutes : (r.dropServer server).routes = r.routes.mapVal fun _ route =>
      silence { route with members := route.members.retain fun c _ => c.server ≠ server }
        (·.server = server) := rfl
  simpa using linkOn_of_removes (t := t) (d := d) hroutes
    (fun _ route => removes_server route server) fun _ _ _ => rfl

theorem linkOn_forgetClient (r : Router) (client : ClientId) (t : RouteId) (d : ClientId) :
    (r.forgetClient client).linkOn t d = if d = client then none else r.linkOn t d := by
  have hroutes : (r.forgetClient client).routes = r.routes.mapVal fun _ route =>
      silence
        { route with
          members := route.members.erase client
          deferred := route.deferred.erase client } (· = client) := rfl
  have hdeferred : ∀ route : Route, decide (d = client) = false →
      (route.deferred.erase client).lookup d = route.deferred.lookup d := by
    intro route hd
    rw [Table.lookup_erase, if_neg (by simpa using hd)]
  simpa using linkOn_of_removes (t := t) (d := d) hroutes
    (fun _ route => removes_client route client _) fun _ route hd => hdeferred route hd

theorem linkOn_forgetMembership (r : Router) (client : ClientId) (t : RouteId) (d : ClientId) :
    (r.forgetMembership client).linkOn t d = if d = client then none else r.linkOn t d := by
  rw [linkOn, linkOn, forgetMembership, Table.lookup_mapVal]
  cases r.routes.lookup t with
  | none => simp
  | some route =>
    rw [Option.map_some, Option.bind_some, Option.bind_some, Table.lookup_erase,
      Table.lookup_erase]
    split_ifs <;> rfl

theorem linkOn_openRoute (r : Router) (tg : RouteId) (encrypted : Bool) (t : RouteId)
    (d : ClientId) : (r.openRoute tg encrypted).2.linkOn t d = r.linkOn t d := by
  rw [linkOn, openRoute, Table.lookup_insert]
  split_ifs with h
  · subst h
    rw [linkOn]
    cases r.routes.lookup t <;> simp
  · rfl

theorem linkOn_openConventional (r : Router) (id : RouteId) (am : Bool) (t : RouteId)
    (d : ClientId) : (r.openConventional id am).2.linkOn t d = r.linkOn t d := by
  rw [linkOn, openConventional, Table.lookup_insert]
  split_ifs with h
  · subst h
    rw [linkOn]
    cases r.routes.lookup t <;> simp
  · rfl

theorem linkOn_close (r : Router) (tg t : RouteId) (d : ClientId) :
    (r.close tg).2.linkOn t d = if t = tg then none else r.linkOn t d := by
  rw [linkOn, close, Table.lookup_erase]
  split_ifs <;> rfl

/-! ### Runs -/

/-- The quality that a call tells for this client on this route. -/
def qualityTold (t : RouteId) (client : ClientId) (_ : Router) : Op → Option UInt8
  | .setMember tg client' _ quality => if t = tg ∧ client = client' then some quality else none
  | _ => none

/-- The quality that was last told for this client on this route. -/
def lastTold (t : RouteId) (client : ClientId) (ops : List Op) : Option UInt8 :=
  lastSeen step (qualityTold t client) Router.empty ops

/-- A link was there before, and has at most been settled, on a channel that is clear by then. -/
def KeepsLink (r r' : Router) (t : RouteId) (d : ClientId) (l : Deadband UInt8) : Prop :=
  ∃ l₀, r.linkOn t d = some l₀ ∧ (l = l₀ ∨ l = l₀.settle ∧ r'.isClear t = true)

section KeepsLink

variable {r' : Router} {l : Deadband UInt8} {p : Prop} [Decidable p]

theorem keepsLink_of_same (h : r.linkOn t d = some l) : r.KeepsLink r' t d l :=
  ⟨l, h, Or.inl rfl⟩

theorem keepsLink_of_settled
    (h : (if r'.isClear t = true ∧ p then (r.linkOn t d).map Deadband.settle
      else r.linkOn t d) = some l) : r.KeepsLink r' t d l := by
  split_ifs at h with hp
  · obtain ⟨l₀, hl₀, rfl⟩ := Option.map_eq_some_iff.mp h
    exact ⟨l₀, hl₀, Or.inr ⟨rfl, hp.1⟩⟩
  · exact keepsLink_of_same h

theorem keepsLink_of_dropped (h : (if p then none else r.linkOn t d) = some l) :
    r.KeepsLink r' t d l := by
  split_ifs at h
  exact keepsLink_of_same h

theorem keepsLink_bind {session : SessionId} {username : List Char}
    (h : (r.bind session username).2.linkOn t d = some l) : r.KeepsLink r' t d l := by
  apply keepsLink_of_same
  simp only [bind] at h
  split at h <;> exact h

theorem keepsLink_unbind {session : SessionId} (h : (r.unbind session).linkOn t d = some l) :
    r.KeepsLink r' t d l := by
  cases hbound : r.sessionToClient.lookup session with
  | none =>
    rw [unbind_of_unbound hbound] at h
    exact keepsLink_of_same h
  | some client =>
    rw [linkOn_unbind hbound] at h
    exact keepsLink_of_dropped h

end KeepsLink

/-- A link after a call was told by it, or was there before. -/
theorem linkOn_step {op : Op} {l : Deadband UInt8} (h : (step r op).linkOn t d = some l) :
    (∃ quality, qualityTold t d r op = some quality ∧
      l = tellLink (r.linkOn t d) (!r.isClear t) quality) ∨
    qualityTold t d r op = none ∧ r.KeepsLink (step r op) t d l := by
  cases op with
  | setMember tg client listen quality =>
    rw [step, linkOn_setMember] at h
    -- The one call that tells a quality, and it tells it of one client on one route.
    by_cases hwho : t = tg ∧ d = client
    · obtain ⟨rfl, rfl⟩ := hwho
      rw [if_pos ⟨rfl, rfl⟩] at h
      exact Or.inl ⟨quality, if_pos ⟨rfl, rfl⟩, (Option.some.inj h).symm⟩
    · rw [if_neg hwho] at h
      exact Or.inr ⟨if_neg hwho, keepsLink_of_same h⟩
  | openRoute tg encrypted =>
    rw [step, linkOn_openRoute] at h
    exact Or.inr ⟨rfl, keepsLink_of_same h⟩
  | openConventional id am =>
    rw [step, linkOn_openConventional] at h
    exact Or.inr ⟨rfl, keepsLink_of_same h⟩
  | close tg =>
    rw [step, linkOn_close] at h
    exact Or.inr ⟨rfl, keepsLink_of_dropped h⟩
  | bind session username => exact Or.inr ⟨rfl, keepsLink_bind h⟩
  | unbind session => exact Or.inr ⟨rfl, keepsLink_unbind h⟩
  | dropServer server =>
    rw [step, linkOn_dropServer] at h
    exact Or.inr ⟨rfl, keepsLink_of_dropped h⟩
  | keyAt tg client now =>
    rw [step, linkOn_keyAt] at h
    exact Or.inr ⟨rfl, keepsLink_of_same h⟩
  | unkeyAs tg client =>
    rw [step, linkOn_unkeyAs] at h
    exact Or.inr ⟨rfl, keepsLink_of_settled h⟩
  | unkey tg =>
    rw [step, linkOn_unkey] at h
    exact Or.inr ⟨rfl, keepsLink_of_settled h⟩
  | setPatches groups => exact Or.inr ⟨rfl, keepsLink_of_same h⟩
  | forgetMembership client =>
    rw [step, linkOn_forgetMembership] at h
    exact Or.inr ⟨rfl, keepsLink_of_dropped h⟩
  | forgetClient client =>
    rw [step, linkOn_forgetClient] at h
    exact Or.inr ⟨rfl, keepsLink_of_dropped h⟩

/-- Every link knows the quality that was last told, and lags behind it by one lane at most. -/
theorem link_after {ops : List Op} {l : Deadband UInt8} (h : (after ops).linkOn t d = some l) :
    lastTold t d ops = some l.latest ∧ l.Steady jittersOneLane := by
  induction ops using List.reverseRecOn generalizing l with
  | nil => simp [linkOn, Router.empty] at h
  | append_singleton ops op ih =>
    have hlast : lastTold t d (ops ++ [op]) =
        (qualityTold t d (after ops) op).or (lastTold t d ops) :=
      lastSeen_concat step (qualityTold t d) Router.empty ops op
    rw [after_concat] at h
    rcases linkOn_step h with ⟨quality, htold, rfl⟩ | ⟨hquiet, l₀, hl₀, hl⟩
    · rw [hlast, htold, Option.some_or]
      cases (after ops).linkOn t d with
      | none =>
        refine ⟨rfl, fun p hp => ?_⟩
        cases hp
      | some l₀ =>
        exact ⟨congrArg some (Deadband.latest_tell ..).symm, Deadband.steady_tell _ _⟩
    · obtain ⟨hlatest, hsteady⟩ := ih hl₀
      rw [hlast, hquiet, Option.none_or]
      rcases hl with rfl | ⟨rfl, -⟩
      · exact ⟨hlatest, hsteady⟩
      · refine ⟨?_, Deadband.steady_settle⟩
        rw [Deadband.latest_settle]
        exact hlatest

/-- Two qualities render exactly one lane apart, and are both silent or both audible. -/
def OneLaneApart (was now : UInt8) : Prop :=
  ((Dsp.laneOf was).toNat + Dsp.laneStep.toNat = (Dsp.laneOf now).toNat ∨
    (Dsp.laneOf now).toNat + Dsp.laneStep.toNat = (Dsp.laneOf was).toNat) ∧
  Dsp.profileMuted (Dsp.laneOf was) = Dsp.profileMuted (Dsp.laneOf now)

theorem oneLaneApart_of_jitters {was now : UInt8} (h : jittersOneLane was now = true) :
    OneLaneApart was now := by
  simp only [jittersOneLane] at h
  split_ifs at h with hmuted hle
  · refine ⟨Or.inl ?_, not_not.mp hmuted⟩
    have hsub := congrArg UInt8.toNat (of_decide_eq_true h)
    rw [UInt8.toNat_sub_of_le _ _ hle] at hsub
    have hle' := UInt8.le_iff_toNat_le.mp hle
    omega
  · refine ⟨Or.inr ?_, not_not.mp hmuted⟩
    have hge : Dsp.laneOf now ≤ Dsp.laneOf was := by
      rw [UInt8.le_iff_toNat_le] at hle ⊢
      omega
    have hsub := congrArg UInt8.toNat (of_decide_eq_true h)
    rw [UInt8.toNat_sub_of_le _ _ hge] at hsub
    have hge' := UInt8.le_iff_toNat_le.mp hge
    omega

/-- **Bounded lag during a call.** The stored quality of a member is the one last told, or the one
last told is parked and renders one lane away from it. -/
theorem lag_is_bounded (ops : List Op) (t : RouteId) (client : ClientId) (route : Route)
    (m : Member) (hroute : (after ops).routes.lookup t = some route)
    (hm : route.members.lookup client = some m) :
    lastTold t client ops = some m.quality ∨
      ∃ told, lastTold t client ops = some told ∧ route.deferred.lookup client = some told ∧
        OneLaneApart m.quality told := by
  have hlink : (after ops).linkOn t client =
      some ⟨m.quality, route.deferred.lookup client⟩ := by
    rw [linkOn, hroute, Option.bind_some, hm, Option.map_some]
  obtain ⟨hlatest, hsteady⟩ := link_after hlink
  rcases hsteady.lag with hheld | ⟨hparked, hnear⟩
  · exact Or.inl (hlatest.trans (congrArg some hheld.symm))
  · exact Or.inr ⟨_, hlatest, hparked, oneLaneApart_of_jitters hnear⟩

/-- A listener whose link wavers over the edge of a lane while somebody talks. -/
def wavering : List Op :=
  [.openRoute 1 false, .setMember 1 ⟨1, 8⟩ true 93, .keyAt 1 ⟨1, 7⟩ 0, .setMember 1 ⟨1, 8⟩ true 92]

/-- It is still served at 93, with 92 parked. -/
theorem wavering_lags :
    ∃ route m, (after wavering).routes.lookup 1 = some route ∧
      route.members.lookup ⟨1, 8⟩ = some m ∧ m.quality = 93 ∧
      (lastTold 1 ⟨1, 8⟩ wavering = some m.quality ∨
        ∃ told, lastTold 1 ⟨1, 8⟩ wavering = some told ∧
          route.deferred.lookup ⟨1, 8⟩ = some told ∧ OneLaneApart m.quality told) :=
  ⟨_, _, rfl, rfl, rfl, lag_is_bounded wavering 1 ⟨1, 8⟩ _ _ rfl rfl⟩

end Router

end RfxVoiced
