import RfxVoiced.Router.Keying

/-!
# Who is on the air

What the holds of a route depend on is small: its holder, the others mixed in, and whether it is an
AM frequency. This file reads that part off a router (`Router.onAir`) and states, operation by
operation, what becomes of it. Membership and link quality have their own file.
-/

namespace RfxVoiced

/-- The part of a route that says who is transmitting on it. -/
structure OnAir where
  keyed : Option ClientId
  also : List ClientId
  conventional : Bool
  am : Bool
  deriving DecidableEq

def Route.onAir (route : Route) : OnAir :=
  ⟨route.keyed, route.also, route.conventional, route.am⟩

/-- The client is transmitting: as the holder, or mixed in. -/
def OnAir.Holds (a : OnAir) (client : ClientId) : Prop :=
  a.keyed = some client ∨ client ∈ a.also

/-- The departed are off the air. -/
def OnAir.silence (a : OnAir) (gone : ClientId → Bool) : OnAir :=
  { a with also := a.also.filter fun c => !gone c, keyed := a.keyed.filter fun c => !gone c }

@[simp] theorem Route.holds_onAir (route : Route) (client : ClientId) :
    route.onAir.Holds client ↔ route.Holds client := Iff.rfl

theorem OnAir.holds_silence {a : OnAir} {gone : ClientId → Bool} {client : ClientId} :
    (a.silence gone).Holds client ↔ a.Holds client ∧ gone client = false := by
  simp only [OnAir.Holds, OnAir.silence, Option.filter_eq_some_iff, List.mem_filter,
    Bool.not_eq_true', or_and_right]

/-- Nobody is on the air here who is not on the air there, and a talkgroup here is one there. -/
structure OnAir.Within (a' a : OnAir) : Prop where
  keyed : ∀ c, a'.keyed = some c → a.keyed = some c
  also : a'.also ⊆ a.also
  digital : a'.conventional = false → a.conventional = false

theorem OnAir.Within.refl (a : OnAir) : a.Within a :=
  ⟨fun _ hc => hc, List.Subset.refl a.also, fun hconv => hconv⟩

/-- The same kind of route, and nobody is on the air here who is not on the air there. -/
structure OnAir.Thins (a' a : OnAir) : Prop where
  keyed : ∀ c, a'.keyed = some c → a.keyed = some c
  also : a'.also.Sublist a.also
  conventional : a'.conventional = a.conventional
  am : a'.am = a.am

theorem OnAir.Thins.refl (a : OnAir) : a.Thins a :=
  ⟨fun _ hc => hc, List.Sublist.refl a.also, rfl, rfl⟩

theorem OnAir.thins_silence (a : OnAir) (gone : ClientId → Bool) : (a.silence gone).Thins a :=
  ⟨fun _ hc => (Option.filter_eq_some_iff.mp hc).1, List.filter_sublist, rfl, rfl⟩

theorem OnAir.Thins.within {a' a : OnAir} (h : a'.Thins a) : a'.Within a :=
  ⟨h.keyed, h.also.subset, fun hconv => h.conventional.symm.trans hconv⟩

theorem OnAir.Within.holds {a' a : OnAir} (h : a'.Within a) {c : ClientId} (hc : a'.Holds c) :
    a.Holds c :=
  hc.imp (h.keyed c) fun hmem => h.also hmem

namespace Router

variable {r : Router} {tg t : RouteId} {client d : ClientId}

/-- Who is transmitting on a route, and on what kind of route. -/
def onAir (r : Router) (t : RouteId) : Option OnAir := (r.routes.lookup t).map Route.onAir

theorem holds_iff_onAir :
    r.holds t client = true ↔ ∃ a, r.onAir t = some a ∧ a.Holds client := by
  unfold holds onAir
  cases r.routes.lookup t with
  | none => simp
  | some route => simp [Route.onAir, OnAir.Holds]

theorem holds_iff :
    r.holds t client = true ↔ ∃ route, r.routes.lookup t = some route ∧ route.Holds client := by
  rw [holds_iff_onAir]
  simp [onAir, Option.map_eq_some_iff]

theorem mem_keys_of_holds (h : r.holds t client = true) : t ∈ r.routes.keys := by
  obtain ⟨route, hroute, -⟩ := holds_iff.mp h
  exact AList.mem_keys.mp (AList.lookup_isSome.mp (by simp [hroute]))

/-- Routes on which the same parties are on the air are held by the same clients. -/
theorem holds_congr {r' : Router} (h : r'.onAir t = r.onAir t) (client : ClientId) :
    r'.holds t client = r.holds t client := by
  rw [Bool.eq_iff_iff, holds_iff_onAir, holds_iff_onAir, h]

theorem mem_talkersOn : client ∈ r.talkersOn t ↔ r.holds t client = true := by
  rw [holds_iff]
  unfold talkersOn
  cases r.routes.lookup t with
  | none => simp
  | some route => simp [Route.Holds]

theorem talkersOn_isEmpty : (r.talkersOn t).isEmpty = true ↔ ∀ c, ¬ r.holds t c = true := by
  rw [List.isEmpty_iff, List.eq_nil_iff_forall_not_mem]
  exact forall_congr' fun c => not_congr mem_talkersOn

/-- A channel is clear when nobody holds any route of it. -/
theorem isClear_iff : r.isClear tg = true ↔ ∀ t ∈ r.joined tg, ∀ c, ¬ r.holds t c = true := by
  unfold isClear
  rw [List.all_eq_true]
  exact forall₂_congr fun t _ => talkersOn_isEmpty

/-- Everybody transmitting on the channel of this route is departing. -/
def leavesClear (r : Router) (gone : RouteId → ClientId → Bool) (t : RouteId) : Bool :=
  (r.joined t).all fun u => (r.talkersOn u).all fun d => gone u d

/-- Once the departing are off the air, the channels that are clear are those they leave clear. -/
theorem isClear_eq_leavesClear {r' : Router} {gone : RouteId → ClientId → Bool}
    (hjoined : r'.joined t = r.joined t)
    (hholds : ∀ u d, r'.holds u d = true ↔ r.holds u d = true ∧ gone u d = false) :
    r'.isClear t = r.leavesClear gone t := by
  rw [Bool.eq_iff_iff, isClear_iff, leavesClear, List.all_eq_true, hjoined]
  apply forall₂_congr
  intro u _
  rw [List.all_eq_true]
  apply forall_congr'
  intro d
  rw [mem_talkersOn, hholds]
  cases gone u d <;> simp

theorem destinationRoute_holds (h : r.destinationRoute client = some t) :
    r.holds t client = true := by
  unfold destinationRoute at h
  have hlowest : (r.routes.keys.filter fun tg => r.holds tg client).min? = some t →
      r.holds t client = true := fun hmin => (List.mem_filter.mp (List.min?_mem hmin)).2
  split at h
  next tg _ =>
    split_ifs at h with hown
    · obtain rfl : tg = t := Option.some.inj h
      exact hown
    · exact hlowest h
  next => exact hlowest h

/-- A speaker has no destination exactly when they hold no route. -/
theorem destinationRoute_eq_none :
    r.destinationRoute client = none ↔ ∀ t, ¬ r.holds t client = true := by
  constructor
  · intro h t ht
    have hmem : t ∈ r.routes.keys.filter fun tg => r.holds tg client :=
      List.mem_filter.mpr ⟨mem_keys_of_holds ht, ht⟩
    have hnone : (r.routes.keys.filter fun tg => r.holds tg client).min? = none := by
      unfold destinationRoute at h
      split at h
      · split_ifs at h
        exact h
      · exact h
    rw [List.min?_eq_none_iff.mp hnone] at hmem
    exact absurd hmem List.not_mem_nil
  · intro h
    by_contra hne
    obtain ⟨t, ht⟩ := Option.ne_none_iff_exists'.mp hne
    exact h t (destinationRoute_holds ht)

theorem destinationOf_eq_none :
    r.destinationOf client = none ↔ ∀ t, ¬ r.holds t client = true := by
  rw [destinationOf, Option.map_eq_none_iff, destinationRoute_eq_none]

theorem destination_eq_some_iff {session : SessionId} {tg : RouteId} {src : Dsp.Sink}
    {listeners : List Listener} : r.destination session = some (tg, src, listeners) ↔
      ∃ speaker, r.clientOf session = some speaker ∧
        r.destinationOf speaker = some (tg, listeners) ∧ src = r.sourceSink tg speaker := by
  simp only [destination, Option.bind_eq_some_iff, Option.map_eq_some_iff]
  constructor
  · rintro ⟨speaker, hspeaker, ⟨tg', listeners'⟩, hto, heq⟩
    simp only [Prod.mk.injEq] at heq
    obtain ⟨rfl, rfl, rfl⟩ := heq
    exact ⟨speaker, hspeaker, hto, rfl⟩
  · rintro ⟨speaker, hspeaker, hto, rfl⟩
    exact ⟨speaker, hspeaker, (tg, listeners), hto, rfl⟩

/-! ### Operation by operation -/

theorem onAir_openRoute (r : Router) (tg : RouteId) (encrypted : Bool) (t : RouteId) :
    (r.openRoute tg encrypted).2.onAir t =
      if t = tg then some ((r.onAir t).getD ⟨none, [], false, false⟩) else r.onAir t := by
  simp only [onAir, openRoute, Table.lookup_insert]
  split_ifs with h
  · subst h
    cases r.routes.lookup t <;> rfl
  · rfl

theorem onAir_openConventional (r : Router) (id : RouteId) (am : Bool) (t : RouteId) :
    (r.openConventional id am).2.onAir t =
      if t = id then
        some { (r.onAir t).getD ⟨none, [], false, false⟩ with conventional := true, am := am }
      else r.onAir t := by
  simp only [onAir, openConventional, Table.lookup_insert]
  split_ifs with h
  · subst h
    cases r.routes.lookup t <;> rfl
  · rfl

theorem onAir_close (r : Router) (tg t : RouteId) :
    (r.close tg).2.onAir t = if t = tg then none else r.onAir t := by
  simp only [onAir, close, Table.lookup_erase]
  split_ifs <;> rfl

theorem onAir_bind (r : Router) (session : SessionId) (username : List Char) (t : RouteId) :
    (r.bind session username).2.onAir t = r.onAir t := by
  unfold bind
  split <;> rfl

theorem onAir_unbind {session : SessionId} (h : r.sessionToClient.lookup session = some client)
    (t : RouteId) : (r.unbind session).onAir t = (r.onAir t).map (·.silence (· = client)) := by
  simp only [unbind, h, onAir, Table.lookup_mapVal, Option.map_map]
  rfl

theorem unbind_of_unbound {session : SessionId} (h : r.sessionToClient.lookup session = none) :
    r.unbind session = r := by
  simp only [unbind, h]

theorem onAir_dropServer (r : Router) (server : UInt32) (t : RouteId) :
    (r.dropServer server).onAir t = (r.onAir t).map (·.silence (·.server = server)) := by
  simp only [dropServer, onAir, Table.lookup_mapVal, Option.map_map]
  rfl

theorem onAir_setMember (r : Router) (tg : RouteId) (client : ClientId) (listen : Bool)
    (quality : UInt8) (t : RouteId) :
    (r.setMember tg client listen quality).onAir t =
      if t = tg then some ((r.onAir t).getD ⟨none, [], (classify tg).1, (classify tg).2⟩)
      else r.onAir t := by
  simp only [onAir, setMember, Table.lookup_insert]
  split_ifs with h
  · subst h
    cases r.routes.lookup t <;> split <;> rfl
  · rfl

theorem onAir_forgetMembership (r : Router) (client : ClientId) (t : RouteId) :
    (r.forgetMembership client).onAir t = r.onAir t := by
  simp only [onAir, forgetMembership, Table.lookup_mapVal, Option.map_map]
  rfl

theorem onAir_forgetClient (r : Router) (client : ClientId) (t : RouteId) :
    (r.forgetClient client).onAir t = (r.onAir t).map (·.silence (· = client)) := by
  simp only [forgetClient, onAir, Table.lookup_mapVal, Option.map_map]
  rfl

theorem drainDeferred_induction {P : Router → Prop} (tg : RouteId)
    (hstep : ∀ s t, P s → P { s with routes := s.routes.modify t applyDeferred }) (hr : P r) :
    P (r.drainDeferred tg) := by
  unfold drainDeferred
  split_ifs
  · exact hr
  · exact run_invariant hstep hr _

/-- Draining parked qualities is not heard on the air. -/
theorem onAir_drainDeferred (r : Router) (tg t : RouteId) :
    (r.drainDeferred tg).onAir t = r.onAir t := by
  refine drainDeferred_induction (P := fun s => s.onAir t = r.onAir t) tg (fun s u hs => ?_) rfl
  refine Eq.trans ?_ hs
  exact Table.map_lookup_modify _ _ _ fun _ => rfl

theorem onAir_unkey (r : Router) (tg t : RouteId) :
    (r.unkey tg).onAir t =
      if t = tg then (r.onAir t).map fun a => { a with keyed := none, also := [] }
      else r.onAir t := by
  rw [unkey, onAir_drainDeferred]
  simp only [onAir, Table.lookup_modify]
  split_ifs
  · rw [Option.map_map, Option.map_map]
    rfl
  · rfl

/-- The routes that a release gives back: what the key took, or the current group. -/
def mine (r : Router) (tg : RouteId) (client : ClientId) : List RouteId :=
  (r.took.lookup (client, tg)).getD (r.joined tg)

theorem onAir_letGo (r : Router) (client : ClientId) (other t : RouteId) :
    (r.letGo client other).2.onAir t =
      if t = other then (r.onAir t).map (·.silence (· = client)) else r.onAir t := by
  unfold letGo
  split
  next hnone =>
    split_ifs with h
    · subst h
      simp [onAir, hnone]
    · rfl
  next route hroute =>
    simp only [onAir, Table.lookup_modify]
    split_ifs
    · rw [Option.map_map, Option.map_map]
      rfl
    · rfl

/-- Letting go of several routes, one after the other. -/
def letGoAll (client : ClientId) (acc : Bool × Router) (others : List RouteId) : Bool × Router :=
  run (fun (acc : Bool × Router) other =>
    (acc.1 || (letGo acc.2 client other).1, (letGo acc.2 client other).2)) acc others

theorem unkeyAs_snd (r : Router) (tg : RouteId) (client : ClientId) :
    (r.unkeyAs tg client).2 =
      run drainDeferred
        { (letGoAll client (false, { r with took := r.took.erase (client, tg) })
            (r.mine tg client)).2 with
          keyedBy := (letGoAll client (false, { r with took := r.took.erase (client, tg) })
            (r.mine tg client)).2.keyedBy.erase client }
        (r.mine tg client) := rfl

theorem letGoAll_induction {P : Router → Prop} {client : ClientId} {others : List RouteId}
    (hstep : ∀ s other, P s → P (letGo s client other).2) {acc : Bool × Router} (h : P acc.2) :
    P (letGoAll client acc others).2 := by
  unfold letGoAll
  refine run_invariant (P := fun acc : Bool × Router => P acc.2) ?_ h others
  exact fun acc other hacc => hstep acc.2 other hacc

theorem onAir_unkeyAs (r : Router) (tg : RouteId) (client : ClientId) (t : RouteId) :
    (r.unkeyAs tg client).2.onAir t =
      if t ∈ r.mine tg client then (r.onAir t).map (·.silence (· = client)) else r.onAir t := by
  have hdrain : ∀ s : Router, (run drainDeferred s (r.mine tg client)).onAir t = s.onAir t :=
    fun s => run_invariant (P := fun s' => s'.onAir t = s.onAir t)
      (fun s' u hs => (onAir_drainDeferred s' u t).trans hs) rfl _
  have hidem : ∀ a : OnAir, (a.silence (· = client)).silence (· = client) =
      a.silence (· = client) := by
    intro a
    simp [OnAir.silence, List.filter_filter, Option.filter_filter]
  -- A record may list a route twice; letting go of it twice is letting go of it once.
  rw [unkeyAs_snd, hdrain]
  refine (view_run_of_idempotent (v := fun t (acc : Bool × Router) => acc.2.onAir t)
    (f := fun _ => Option.map (·.silence (· = client))) ?_ ?_ ?_ _ _ t)
  · intro acc other
    simp only [onAir_letGo, if_pos]
  · intro acc other u hne
    simp only [onAir_letGo, if_neg hne]
  · intro _ x
    rw [Option.map_map]
    exact congrArg (fun f => Option.map f x) (funext hidem)

/-! ### Who holds a route, operation by operation -/

/-- Listing a route, or listing a member of it, takes nobody off the air. -/
theorem holds_of_listed {r' : Router} {a : OnAir} {f : OnAir → OnAir}
    (hf : ∀ a c, a.Holds c → (f a).Holds c)
    (honair : ∀ t, r'.onAir t = if t = tg then some (f ((r.onAir t).getD a)) else r.onAir t)
    (t : RouteId) (c : ClientId) (h : r.holds t c = true) : r'.holds t c = true := by
  obtain ⟨a', ha', hholds⟩ := holds_iff_onAir.mp h
  refine holds_iff_onAir.mpr ?_
  rw [honair]
  split_ifs
  · rw [ha', Option.getD_some]
    exact ⟨f a', rfl, hf a' c hholds⟩
  · exact ⟨a', ha', hholds⟩

theorem holds_close (r : Router) (tg t : RouteId) (c : ClientId) :
    (r.close tg).2.holds t c = true ↔ r.holds t c = true ∧ decide (t = tg) = false := by
  rw [holds_iff_onAir, holds_iff_onAir, onAir_close]
  split_ifs with h <;> simp [h]

/-- Taking the departed off a route leaves the others on it. -/
theorem holds_of_silence {r' : Router} {gone : ClientId → Bool}
    (h : r'.onAir t = (r.onAir t).map (·.silence gone)) (d : ClientId) :
    r'.holds t d = true ↔ r.holds t d = true ∧ gone d = false := by
  rw [holds_iff_onAir, holds_iff_onAir, h]
  cases r.onAir t with
  | none => simp
  | some a => simp [OnAir.holds_silence]

theorem holds_unbind {session : SessionId} (h : r.sessionToClient.lookup session = some client)
    (t : RouteId) (d : ClientId) :
    (r.unbind session).holds t d = true ↔ r.holds t d = true ∧ d ≠ client := by
  rw [holds_of_silence (onAir_unbind h t) d, decide_eq_false_iff_not]

theorem holds_dropServer (r : Router) (server : UInt32) (t : RouteId) (d : ClientId) :
    (r.dropServer server).holds t d = true ↔ r.holds t d = true ∧ d.server ≠ server := by
  rw [holds_of_silence (onAir_dropServer r server t) d, decide_eq_false_iff_not]

theorem holds_forgetClient (r : Router) (client : ClientId) (t : RouteId) (d : ClientId) :
    (r.forgetClient client).holds t d = true ↔ r.holds t d = true ∧ d ≠ client := by
  rw [holds_of_silence (onAir_forgetClient r client t) d, decide_eq_false_iff_not]

theorem holds_unkey (r : Router) (tg t : RouteId) (d : ClientId) :
    (r.unkey tg).holds t d = true ↔ t ≠ tg ∧ r.holds t d = true := by
  rw [holds_iff_onAir, holds_iff_onAir, onAir_unkey]
  split_ifs with h
  · cases r.onAir t <;> simp [OnAir.Holds, h]
  · simp [h]

/-- A release takes its client off the routes it gives back, and does nothing else. -/
theorem holds_unkeyAs (r : Router) (tg : RouteId) (client : ClientId) (t : RouteId)
    (d : ClientId) :
    (r.unkeyAs tg client).2.holds t d = true ↔
      r.holds t d = true ∧ (d = client → t ∉ r.mine tg client) := by
  by_cases h : t ∈ r.mine tg client
  · have honair := onAir_unkeyAs r tg client t
    rw [if_pos h] at honair
    rw [holds_of_silence honair d, decide_eq_false_iff_not]
    simp [h]
  · have honair := onAir_unkeyAs r tg client t
    rw [if_neg h] at honair
    rw [holds_congr honair d]
    simp [h]

/-! ### Who holds a route after a key request -/

section KeyAt

variable {now : Instant} {outcome : Keyed} {e : Refusal}

theorem holds_keyAt_of_error (h : (r.keyAt tg client now).1 = .error e) (t : RouteId)
    (d : ClientId) : (r.keyAt tg client now).2.holds t d = r.holds t d := by
  refine holds_congr ?_ d
  rw [onAir, onAir, lookup_keyAt_of_error h]

/-- A key request puts nobody on a route but the client. -/
theorem holds_of_holds_keyAt (hd : d ≠ client)
    (h : (r.keyAt tg client now).2.holds t d = true) : r.holds t d = true := by
  cases hans : (r.keyAt tg client now).1 with
  | error e => rwa [holds_keyAt_of_error hans] at h
  | ok outcome =>
    rw [holds_iff, lookup_keyAt_of_ok hans] at h
    rw [holds_iff]
    obtain ⟨route', hroute', hholds⟩ := h
    split_ifs at hroute' with htg hjoined
    -- The pressed route, another member of its patch, and a route elsewhere.
    · obtain ⟨route, hroute, rfl⟩ := Option.map_eq_some_iff.mp hroute'
      exact ⟨route, hroute, Route.holds_of_holds_press hd hholds⟩
    · obtain ⟨route, hroute, rfl⟩ := Option.map_eq_some_iff.mp hroute'
      exact ⟨route, hroute, Route.holds_of_holds_join hd hholds⟩
    · exact ⟨route', hroute', hholds⟩

/-- A key request reaches no route outside the patch of the pressed one. -/
theorem lookup_keyAt_of_not_joined (h : t ∉ r.joined tg) :
    (r.keyAt tg client now).2.routes.lookup t = r.routes.lookup t := by
  cases hans : (r.keyAt tg client now).1 with
  | error e => exact lookup_keyAt_of_error hans t
  | ok outcome =>
    have htg : t ≠ tg := by
      rintro rfl
      exact h (mem_joined_self r t)
    rw [lookup_keyAt_of_ok hans, if_neg htg, if_neg h]

theorem holds_keyAt_of_not_joined (h : t ∉ r.joined tg) (d : ClientId) :
    (r.keyAt tg client now).2.holds t d = r.holds t d := by
  refine holds_congr ?_ d
  rw [onAir, onAir, lookup_keyAt_of_not_joined h]

/-- After an accepted request somebody holds the pressed route. -/
theorem exists_holds_keyAt {k : Keyed} (hans : (r.keyAt tg client now).1 = .ok k) :
    ∃ d, (r.keyAt tg client now).2.holds tg d = true := by
  obtain ⟨route, hroute⟩ : ∃ route, r.routes.lookup tg = some route := by
    rw [keyAt_fst, keyOne_fst] at hans
    cases hroute : r.routes.lookup tg with
    | none =>
      rw [hroute] at hans
      exact absurd hans (by simp)
    | some route => exact ⟨route, rfl⟩
  have hafter : (r.keyAt tg client now).2.routes.lookup tg =
      some (route.press client (r.insisting tg client now)) := by
    rw [lookup_keyAt_of_ok hans, if_pos rfl, hroute, Option.map_some]
  rcases Route.press_cases route client (r.insisting tg client now) with ⟨heq, -⟩ | ⟨heq, -⟩ |
    ⟨heq, hsome, -⟩
  · exact ⟨client, holds_iff.mpr ⟨_, hafter, Or.inl (by rw [heq])⟩⟩
  · exact ⟨client, holds_iff.mpr ⟨_, hafter, Or.inr (by rw [heq]; simp)⟩⟩
  · obtain ⟨d, hd⟩ := Option.ne_none_iff_exists'.mp hsome
    exact ⟨d, holds_iff.mpr ⟨_, hafter, Or.inl (by rw [heq, hd])⟩⟩

/-- The channel of an accepted request is busy afterwards. -/
theorem not_joined_of_isClear_keyAt {k : Keyed} (hans : (r.keyAt tg client now).1 = .ok k)
    (hclear : (r.keyAt tg client now).2.isClear t = true) : t ∉ r.joined tg := by
  intro ht
  obtain ⟨d, hd⟩ := exists_holds_keyAt hans
  have hback : tg ∈ (r.keyAt tg client now).2.joined t := by
    rw [keyAt_joined]
    exact mem_joined_comm.mp ht
  exact isClear_iff.mp hclear tg hback d hd

/-- A key request leaves no channel clear that was not. -/
theorem isClear_of_isClear_keyAt (hclear : (r.keyAt tg client now).2.isClear t = true) :
    r.isClear t = true := by
  rw [isClear_iff] at hclear ⊢
  intro u hu d hd
  rw [keyAt_joined] at hclear
  cases hans : (r.keyAt tg client now).1 with
  | error e =>
    apply hclear u hu d
    rwa [holds_keyAt_of_error hans]
  | ok k =>
    by_cases hjoined : u ∈ r.joined tg
    · -- The request has put somebody on the pressed route, which is on the same patch.
      have hback : tg ∈ r.joined t :=
        (mem_joined_congr hu tg).mp (mem_joined_comm.mp hjoined)
      obtain ⟨e, he⟩ := exists_holds_keyAt hans
      exact hclear tg hback e he
    · apply hclear u hu d
      rwa [holds_keyAt_of_not_joined hjoined]

end KeyAt

/-! ### What a release leaves alone -/

/-- The two routers differ in their routes only. -/
def SameButRoutes (r r' : Router) : Prop := ∃ routes, r' = { r with routes := routes }

theorem SameButRoutes.trans {r r' r'' : Router} (h : r.SameButRoutes r')
    (h' : r'.SameButRoutes r'') : r.SameButRoutes r'' := by
  obtain ⟨routes, rfl⟩ := h
  obtain ⟨routes', rfl⟩ := h'
  exact ⟨routes', rfl⟩

theorem sameButRoutes_drainDeferred (r : Router) (tg : RouteId) :
    r.SameButRoutes (r.drainDeferred tg) :=
  drainDeferred_induction (P := r.SameButRoutes) tg (fun _ _ h => h.trans ⟨_, rfl⟩)
    ⟨r.routes, rfl⟩

theorem sameButRoutes_letGo (r : Router) (client : ClientId) (other : RouteId) :
    r.SameButRoutes (r.letGo client other).2 := by
  unfold letGo
  split
  · exact ⟨r.routes, rfl⟩
  · exact ⟨_, rfl⟩

/-- Beside the routes, a release only drops the record of what its key took, and of where the
client pressed. -/
theorem unkeyAs_frame (r : Router) (tg : RouteId) (client : ClientId) :
    ∃ routes, (r.unkeyAs tg client).2 =
      { r with
        routes := routes
        took := r.took.erase (client, tg)
        keyedBy := r.keyedBy.erase client } := by
  rw [unkeyAs_snd]
  obtain ⟨routes, hlet⟩ : SameButRoutes { r with took := r.took.erase (client, tg) }
      (letGoAll client (false, { r with took := r.took.erase (client, tg) })
        (r.mine tg client)).2 :=
    letGoAll_induction (P := SameButRoutes { r with took := r.took.erase (client, tg) })
      (fun s other hs => hs.trans (sameButRoutes_letGo s client other)) ⟨r.routes, rfl⟩
  rw [hlet]
  obtain ⟨routes', hdrain⟩ : SameButRoutes
      { r with
        routes := routes
        took := r.took.erase (client, tg)
        keyedBy := r.keyedBy.erase client } (run drainDeferred _ (r.mine tg client)) :=
    run_invariant (P := SameButRoutes _)
      (fun s t hs => hs.trans (sameButRoutes_drainDeferred s t)) ⟨routes, rfl⟩ _
  exact ⟨routes', hdrain⟩

@[simp] theorem unkeyAs_took (r : Router) (tg : RouteId) (client : ClientId) :
    (r.unkeyAs tg client).2.took = r.took.erase (client, tg) := by
  obtain ⟨routes, h⟩ := unkeyAs_frame r tg client
  rw [h]

@[simp] theorem unkeyAs_keyedBy (r : Router) (tg : RouteId) (client : ClientId) :
    (r.unkeyAs tg client).2.keyedBy = r.keyedBy.erase client := by
  obtain ⟨routes, h⟩ := unkeyAs_frame r tg client
  rw [h]

@[simp] theorem unkeyAs_patches (r : Router) (tg : RouteId) (client : ClientId) :
    (r.unkeyAs tg client).2.patches = r.patches := by
  obtain ⟨routes, h⟩ := unkeyAs_frame r tg client
  rw [h]

@[simp] theorem unkeyAs_pending (r : Router) (tg : RouteId) (client : ClientId) :
    (r.unkeyAs tg client).2.pending = r.pending := by
  obtain ⟨routes, h⟩ := unkeyAs_frame r tg client
  rw [h]

theorem sameButRoutes_unkey (r : Router) (tg : RouteId) : r.SameButRoutes (r.unkey tg) :=
  SameButRoutes.trans ⟨_, rfl⟩ (sameButRoutes_drainDeferred _ tg)

@[simp] theorem unkey_took (r : Router) (tg : RouteId) : (r.unkey tg).took = r.took := by
  obtain ⟨routes, h⟩ := sameButRoutes_unkey r tg
  rw [h]

@[simp] theorem unkey_patches (r : Router) (tg : RouteId) : (r.unkey tg).patches = r.patches := by
  obtain ⟨routes, h⟩ := sameButRoutes_unkey r tg
  rw [h]

@[simp] theorem unkey_pending (r : Router) (tg : RouteId) : (r.unkey tg).pending = r.pending := by
  obtain ⟨routes, h⟩ := sameButRoutes_unkey r tg
  rw [h]

end Router

end RfxVoiced
