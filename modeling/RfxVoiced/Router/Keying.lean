import RfxVoiced.Lib.Run
import RfxVoiced.Router.Operations

/-!
# What a key request does

A key request is answered by the route that was pressed, and carried out on every route patched to
it. This file says once, for one route, what a press can do to it, and then what a whole request
does to every route and to the armed presses. Later files cite these equations and do not unfold
`keyOne` or `keyAt`.

## Main definitions

* `Route.press`, `Route.answer` — the effect and the answer of a press on one route
* `Route.join` — its effect on another member of the pressed patch
* `Router.opens` — the route is free, the client's own, or a frequency: no arbitration
* `Router.contested` — the field unit that a console pressing a talkgroup would preempt
* `Router.accepts` — the request will be accepted

## Main results

* `keyAt_fst` — the answer of a request is that of the pressed route
* `keyAt_cases` — the four ways in which a request is answered
* `lookup_keyAt_of_ok`, `lookup_keyAt_of_error` — the request's effect on each route
* `seen_keyAt_of_ok` — the same, together with its effect on the armed presses
-/

namespace RfxVoiced

/-! ### One route -/

/-- The client is transmitting on the route: as the holder, or mixed in. -/
def Route.Holds (route : Route) (client : ClientId) : Prop :=
  route.keyed = some client ∨ client ∈ route.also

/-- The field unit that a console would have to preempt. -/
def Route.contested (route : Route) (client : ClientId) : Option ClientId :=
  route.keyed.filter fun holder => !route.conventional && client.isConsole && !holder.isConsole

/-- What a press does to one route. -/
def Route.press (route : Route) (client : ClientId) (insists : Bool) : Route :=
  match route.keyed with
  | none => { route with keyed := some client }
  | some holder =>
    if holder = client then route
    else if route.conventional && route.am then
      if client ∈ route.also then route else { route with also := route.also ++ [client] }
    else if route.conventional then route
    else if client.isConsole && !holder.isConsole && insists then
      { route with keyed := some client }
    else route

/-- How one route answers a press. -/
def Route.answer (route : Route) (client : ClientId) (insists : Bool) : Except Refusal Keyed :=
  match route.keyed with
  | none => .ok .granted
  | some holder =>
    if holder = client then .ok .granted
    else if route.conventional && route.am then .ok .mixed
    else if route.conventional then .ok .doubled
    else if client.isConsole && !holder.isConsole then
      if insists then .ok (.preempted holder) else .error .busy
    else if !client.isConsole && holder.isConsole then .error .dispatchTransmitting
    else .error .alreadyKeyed

/-- What preempting a patch does to another member of it, before that member is pressed. -/
def Route.cede (route : Route) (holder client : ClientId) : Route :=
  { route with
    keyed := if route.keyed = some holder then some client else route.keyed
    also := route.also.filter (· ≠ holder) }

/-- What an accepted press does to another member of the pressed patch. -/
def Route.join (route : Route) (outcome : Keyed) (client : ClientId) (insists : Bool) : Route :=
  match outcome with
  | .preempted holder => (route.cede holder client).press client false
  | _ => route.press client insists

section Press

variable {route : Route} {client d : ClientId} {insists : Bool}

theorem Route.contested_eq_some_iff {holder : ClientId} :
    route.contested client = some holder ↔
      route.keyed = some holder ∧ route.conventional = false ∧ client.isConsole = true ∧
        holder.isConsole = false := by
  simp [Route.contested, Option.filter_eq_some_iff, and_assoc]

theorem ClientId.ne_of_isConsole {c h : ClientId} (hc : c.isConsole = true)
    (hh : h.isConsole = false) : h ≠ c := by
  rintro rfl
  exact absurd (hc.symm.trans hh) (by decide)

@[simp] theorem Route.press_conventional :
    (route.press client insists).conventional = route.conventional := by
  unfold Route.press
  repeat' split
  all_goals rfl

@[simp] theorem Route.press_members :
    (route.press client insists).members = route.members := by
  unfold Route.press
  repeat' split
  all_goals rfl

/-- A press can end in three ways: the client takes the route, is mixed in on it, or the route is
left as it was. -/
theorem Route.press_cases (route : Route) (client : ClientId) (insists : Bool) :
    (route.press client insists = { route with keyed := some client } ∧
      (route.keyed = none ∨ (route.contested client).isSome ∧ insists = true)) ∨
    (route.press client insists = { route with also := route.also ++ [client] } ∧
      client ∉ route.also ∧ route.conventional = true ∧ route.am = true ∧
      route.keyed ≠ none ∧ route.keyed ≠ some client) ∨
    (route.press client insists = route ∧ route.keyed ≠ none ∧
      ((route.contested client).isSome → insists = false)) := by
  unfold Route.press
  split
  next hkeyed => exact Or.inl ⟨rfl, Or.inl hkeyed⟩
  next holder hkeyed =>
    have hsome : route.keyed ≠ none := by simp [hkeyed]
    split_ifs with hown ham hin hconv hpre
    · refine Or.inr (Or.inr ⟨rfl, hsome, fun hc => ?_⟩)
      -- The client's own route is never contested by that client.
      obtain ⟨h, hh⟩ := Option.isSome_iff_exists.mp hc
      obtain ⟨hk, -, hcl, hho⟩ := Route.contested_eq_some_iff.mp hh
      obtain rfl : holder = h := Option.some.inj (hkeyed.symm.trans hk)
      exact absurd hown (ClientId.ne_of_isConsole hcl hho)
    · simp only [Bool.and_eq_true] at ham
      refine Or.inr (Or.inr ⟨rfl, hsome, fun hc => ?_⟩)
      simp [Route.contested, hkeyed, ham.1] at hc
    · simp only [Bool.and_eq_true] at ham
      exact Or.inr (Or.inl ⟨rfl, hin, ham.1, ham.2, hsome, by simpa [hkeyed] using hown⟩)
    · refine Or.inr (Or.inr ⟨rfl, hsome, fun hc => ?_⟩)
      simp [Route.contested, hkeyed, hconv] at hc
    · simp only [Bool.and_eq_true] at hpre
      refine Or.inl ⟨rfl, Or.inr ⟨?_, hpre.2⟩⟩
      simp only [Bool.not_eq_true] at hconv
      simp [Route.contested, hkeyed, hconv, hpre.1.1, hpre.1.2]
    · refine Or.inr (Or.inr ⟨rfl, hsome, fun hc => ?_⟩)
      obtain ⟨h, hh⟩ := Option.isSome_iff_exists.mp hc
      obtain ⟨hk, -, hcl, hho⟩ := Route.contested_eq_some_iff.mp hh
      obtain rfl : holder = h := Option.some.inj (hkeyed.symm.trans hk)
      simpa [hcl, hho] using hpre

/-- A press puts nobody on a route but the client. -/
theorem Route.holds_of_holds_press (hd : d ≠ client) (h : (route.press client insists).Holds d) :
    route.Holds d := by
  rcases Route.press_cases route client insists with
    ⟨heq, -⟩ | ⟨heq, -⟩ | ⟨heq, -⟩
  · rw [heq] at h
    rcases h with hk | ha
    · exact absurd (Option.some.inj hk).symm hd
    · exact Or.inr ha
  · rw [heq] at h
    rcases h with hk | ha
    · exact Or.inl hk
    · rcases List.mem_append.mp ha with ha | ha
      · exact Or.inr ha
      · exact absurd (List.mem_singleton.mp ha) hd
  · rwa [heq] at h

/-- A press takes a route away from nobody but the unit it preempts. -/
theorem Route.contested_of_lost (h : route.Holds d)
    (hlost : ¬ (route.press client insists).Holds d) :
    route.contested client = some d ∧ insists = true := by
  rcases Route.press_cases route client insists with
    ⟨heq, hwhy⟩ | ⟨heq, -⟩ | ⟨heq, -⟩
  · rw [heq] at hlost
    rcases h with hk | ha
    · rcases hwhy with hnone | ⟨hc, hins⟩
      · exact absurd (hnone.symm.trans hk) (by simp)
      · obtain ⟨h', hh'⟩ := Option.isSome_iff_exists.mp hc
        obtain ⟨hk', -, -, -⟩ := Route.contested_eq_some_iff.mp hh'
        obtain rfl : h' = d := Option.some.inj (hk'.symm.trans hk)
        exact ⟨hh', hins⟩
    · exact absurd (Or.inr ha) hlost
  · rw [heq] at hlost
    refine absurd ?_ hlost
    rcases h with hk | ha
    · exact Or.inl hk
    · exact Or.inr (List.mem_append_left _ ha)
  · rw [heq] at hlost
    exact absurd h hlost

/-- An insisting console leaves the preempted unit nothing but a place among the mixed. -/
theorem Route.keyed_press_of_contested (h : route.contested client = some d) :
    (route.press client true).keyed = some client ∧
      (route.press client true).also = route.also := by
  obtain ⟨hk, hconv, hcl, hho⟩ := Route.contested_eq_some_iff.mp h
  have hne := ClientId.ne_of_isConsole hcl hho
  simp [Route.press, hk, hne, hconv, hcl, hho]

/-- The route answers a press without arbitration: it is free, the client's own, or a frequency. -/
def Route.opens (route : Route) (client : ClientId) : Bool :=
  route.keyed = none || route.keyed = some client || route.conventional

theorem Route.contested_eq_none_of_opens (h : route.opens client = true) :
    route.contested client = none := by
  by_contra hne
  obtain ⟨holder, hh⟩ := Option.ne_none_iff_exists'.mp hne
  obtain ⟨hk, hconv, hcl, hho⟩ := Route.contested_eq_some_iff.mp hh
  have hown : holder ≠ client := ClientId.ne_of_isConsole hcl hho
  simp [Route.opens, hk, hconv, hown] at h

/-- A route answers in four ways: it opens, it is preempted, it refuses and arms a second press, or
it refuses outright. -/
theorem Route.answer_cases (route : Route) (client : ClientId) (insists : Bool) :
    (route.opens client = true ∧
      ∃ k, (∀ h, k ≠ .preempted h) ∧ route.answer client insists = .ok k) ∨
    (∃ h, route.contested client = some h ∧ insists = true ∧
      route.answer client insists = .ok (.preempted h)) ∨
    (∃ h, route.contested client = some h ∧ insists = false ∧
      route.answer client insists = .error .busy) ∨
    (route.opens client = false ∧ route.contested client = none ∧
      ∃ e, e ≠ .busy ∧ route.answer client insists = .error e) := by
  unfold Route.answer
  split
  next hkeyed =>
    exact Or.inl ⟨by simp [Route.opens, hkeyed], .granted, by simp, rfl⟩
  next holder hkeyed =>
    split_ifs with hown ham hconv hpre hins hdis
    · exact Or.inl ⟨by simp [Route.opens, hkeyed, hown], .granted, by simp, rfl⟩
    · simp only [Bool.and_eq_true] at ham
      exact Or.inl ⟨by simp [Route.opens, ham.1], .mixed, by simp, rfl⟩
    · exact Or.inl ⟨by simp [Route.opens, hconv], .doubled, by simp, rfl⟩
    · have hc : route.contested client = some holder := by
        simp only [Bool.and_eq_true, Bool.not_eq_true'] at hpre
        simp only [Bool.not_eq_true] at hconv
        exact Route.contested_eq_some_iff.mpr ⟨hkeyed, hconv, hpre.1, hpre.2⟩
      exact Or.inr (Or.inl ⟨holder, hc, hins, rfl⟩)
    · have hc : route.contested client = some holder := by
        simp only [Bool.and_eq_true, Bool.not_eq_true'] at hpre
        simp only [Bool.not_eq_true] at hconv
        exact Route.contested_eq_some_iff.mpr ⟨hkeyed, hconv, hpre.1, hpre.2⟩
      exact Or.inr (Or.inr (Or.inl ⟨holder, hc, by simpa using hins, rfl⟩))
    -- The two outright refusals: neither party is a console facing a field unit.
    all_goals
      have hclosed : route.opens client = false := by simp [Route.opens, hkeyed, hown, hconv]
      have hnone : route.contested client = none := by
        simp only [Bool.and_eq_true, Bool.not_eq_true', not_and, Bool.not_eq_false] at hpre
        by_contra hne
        obtain ⟨h', hh'⟩ := Option.ne_none_iff_exists'.mp hne
        obtain ⟨hk, -, hcl, hho⟩ := Route.contested_eq_some_iff.mp hh'
        obtain rfl : holder = h' := Option.some.inj (hkeyed.symm.trans hk)
        exact absurd (hpre hcl) (by simp [hho])
      exact Or.inr (Or.inr (Or.inr ⟨hclosed, hnone, _, by simp, rfl⟩))

/-- A press mixes nobody in on a talkgroup. -/
theorem Route.also_press (h : route.conventional = false) :
    (route.press client insists).also = route.also := by
  rcases Route.press_cases route client insists with ⟨heq, -⟩ | ⟨-, -, hconv, -⟩ | ⟨heq, -⟩
  · rw [heq]
  · exact absurd (h.symm.trans hconv) (by decide)
  · rw [heq]

/-! ### The other members of a pressed patch -/

variable {outcome : Keyed}

@[simp] theorem Route.join_conventional :
    (route.join outcome client insists).conventional = route.conventional := by
  cases outcome <;> simp [Route.join, Route.cede]

theorem Route.also_join (h : route.conventional = false) (halone : route.also = []) :
    (route.join outcome client insists).also = [] := by
  cases outcome with
  | preempted holder =>
    -- Ceding only removes, and on a talkgroup a press adds nobody.
    have hcede : (route.cede holder client).also = [] := by simp [Route.cede, halone]
    have hpress : ((route.cede holder client).press client false).also =
        (route.cede holder client).also := Route.also_press h
    exact hpress.trans hcede
  | _ => exact (Route.also_press h).trans halone

theorem Route.holds_of_holds_cede {holder : ClientId} (hd : d ≠ client)
    (h : (route.cede holder client).Holds d) : route.Holds d := by
  rcases h with hk | ha
  · simp only [Route.cede] at hk
    split_ifs at hk with hholder
    · exact absurd (Option.some.inj hk).symm hd
    · exact Or.inl hk
  · exact Or.inr (List.mem_of_mem_filter ha)

/-- Being joined to a pressed patch puts nobody on a route but the client. -/
theorem Route.holds_of_holds_join (hd : d ≠ client)
    (h : (route.join outcome client insists).Holds d) : route.Holds d := by
  cases outcome with
  | preempted holder =>
    exact Route.holds_of_holds_cede hd (Route.holds_of_holds_press hd h)
  | _ => exact Route.holds_of_holds_press hd h

end Press

namespace Router

variable {r : Router} {tg t : RouteId} {client : ClientId} {now : Instant}

/-- The pressed route exists and answers without arbitration. -/
def opens (r : Router) (tg : RouteId) (client : ClientId) : Bool :=
  (r.routes.lookup tg).any fun route => route.opens client

/-- The field unit that a console pressing this talkgroup would have to preempt. -/
def contested (r : Router) (tg : RouteId) (client : ClientId) : Option ClientId :=
  (r.routes.lookup tg).bind fun route => route.contested client

theorem opens_iff :
    r.opens tg client = true ↔
      ∃ route, r.routes.lookup tg = some route ∧ route.opens client = true := by
  cases h : r.routes.lookup tg <;> simp [opens, h]

theorem contested_eq_some_iff {holder : ClientId} :
    r.contested tg client = some holder ↔
      ∃ route, r.routes.lookup tg = some route ∧ route.contested client = some holder := by
  simp [contested, Option.bind_eq_some_iff]

theorem contested_eq_none_of_opens (h : r.opens tg client = true) :
    r.contested tg client = none := by
  obtain ⟨route, hroute, ho⟩ := opens_iff.mp h
  simp [contested, hroute, Route.contested_eq_none_of_opens ho]

theorem insisting_iff :
    r.insisting tg client now = true ↔
      ∃ asked, r.pending.lookup (tg, client) = some asked ∧ now - asked ≤ preemptWindow := by
  unfold insisting
  cases r.pending.lookup (tg, client) <;> simp

/-! ### One press -/

theorem keyOne_fst (r : Router) (tg : RouteId) (client : ClientId) (now : Instant) :
    (r.keyOne tg client now).1 =
      match r.routes.lookup tg with
      | none => .error .noSuchRoute
      | some route => route.answer client (r.insisting tg client now) := by
  unfold keyOne
  cases hroute : r.routes.lookup tg with
  | none => rfl
  | some route =>
    -- `keyOne` and `Route.answer` branch alike; only the routers they leave differ.
    dsimp only [Route.answer]
    cases route.keyed with
    | none => rfl
    | some holder =>
      dsimp only
      split_ifs <;> rfl

/-- A press acts on the route it names and on no other. -/
theorem lookup_keyOne (r : Router) (tg : RouteId) (client : ClientId) (now : Instant)
    (t : RouteId) :
    (r.keyOne tg client now).2.routes.lookup t =
      if t = tg then (r.routes.lookup t).map (·.press client (r.insisting tg client now))
      else r.routes.lookup t := by
  cases hroute : r.routes.lookup tg with
  | none =>
    simp only [keyOne, hroute]
    split_ifs with h
    · rw [h, hroute, Option.map_none]
    · rfl
  | some route =>
    by_cases h : t = tg
    · subst h
      rw [if_pos rfl, hroute]
      simp only [keyOne, hroute, Option.map_some, Route.press]
      repeat' split
      all_goals simp_all
    · rw [if_neg h]
      simp only [keyOne, hroute]
      repeat' split
      all_goals simp [Table.lookup_modify_ne _ h]

/-- A press that would preempt spends the armed press, or arms one; no other press does. -/
theorem pending_keyOne (r : Router) (tg : RouteId) (client : ClientId) (now : Instant)
    (k : RouteId × ClientId) :
    (r.keyOne tg client now).2.pending.lookup k =
      if k = (tg, client) ∧ (r.contested tg client).isSome then
        if r.insisting tg client now then none else some now
      else r.pending.lookup k := by
  cases hroute : r.routes.lookup tg with
  | none => simp [keyOne, contested, hroute]
  | some route =>
    have hcontested : r.contested tg client = route.contested client := by
      simp [contested, hroute]
    rw [hcontested]
    simp only [keyOne, hroute, Route.contested]
    repeat' split
    all_goals simp_all [Table.lookup_insert, Table.lookup_erase]

/-- A press changes the route and the armed presses, and neither the records nor the patches. -/
theorem keyOne_frame (r : Router) (tg : RouteId) (client : ClientId) (now : Instant) :
    (r.keyOne tg client now).2.took = r.took ∧ (r.keyOne tg client now).2.keyedBy = r.keyedBy ∧
      (r.keyOne tg client now).2.patches = r.patches := by
  unfold keyOne
  repeat' split
  all_goals exact ⟨rfl, rfl, rfl⟩

/-! ### The other members of a patch -/

/-- The other members of the pressed patch. -/
def siblings (r : Router) (tg : RouteId) : List RouteId := (r.joined tg).filter (· ≠ tg)

/-- Carry an accepted press out on the other members of the patch. -/
def takeSiblings (r : Router) (others : List RouteId) (client : ClientId) (now : Instant)
    (outcome : Keyed) : Router :=
  let r := match outcome with
    | .preempted holder => others.foldl (fun r other => handOver r holder client other) r
    | _ => r
  others.foldl (fun r other => (keyOne r other client now).2) r

theorem nodup_joined (r : Router) (tg : RouteId) : (r.joined tg).Nodup :=
  Groups.nodup_component r.patches tg

@[simp] theorem mem_joined_self (r : Router) (tg : RouteId) : tg ∈ r.joined tg :=
  Groups.mem_component_self r.patches tg

theorem mem_joined_comm {r : Router} {t u : RouteId} : u ∈ r.joined t ↔ t ∈ r.joined u :=
  Groups.mem_component_comm

theorem mem_joined_congr {r : Router} {t u : RouteId} (h : u ∈ r.joined t) (x : RouteId) :
    x ∈ r.joined u ↔ x ∈ r.joined t :=
  Groups.mem_component_congr h x

theorem nodup_siblings (r : Router) (tg : RouteId) : (r.siblings tg).Nodup :=
  (nodup_joined r tg).filter _

@[simp] theorem mem_siblings {r : Router} {tg t : RouteId} :
    t ∈ r.siblings tg ↔ t ∈ r.joined tg ∧ t ≠ tg := by
  simp [siblings]

/-- Alone or patched, a request is the pressed route's answer followed by the rest of the patch. -/
theorem keyAt_eq (r : Router) (tg : RouteId) (client : ClientId) (now : Instant) :
    r.keyAt tg client now =
      match r.keyOne tg client now with
      | (.error e, r') => (.error e, r')
      | (.ok outcome, r') =>
        (.ok outcome,
          (takeSiblings r' (r.siblings tg) client now outcome).recordTook client tg
            (r.joined tg)) := by
  by_cases hlen : 1 < (r.joined tg).length
  · simp only [keyAt, if_pos hlen]
    rfl
  · -- A patch of one: the group is the pressed route alone.
    obtain ⟨rest, hrest⟩ := Groups.component_eq_cons r.patches tg
    have hjoined : r.joined tg = [tg] := by
      rw [joined, hrest] at hlen ⊢
      cases rest with
      | nil => rfl
      | cons t rest => simp at hlen
    have hsiblings : r.siblings tg = [] := by simp [siblings, hjoined]
    simp only [keyAt, if_neg hlen]
    rw [hsiblings, hjoined]
    rcases r.keyOne tg client now with ⟨answer, r'⟩
    rcases answer with e | outcome
    · rfl
    · cases outcome <;> rfl

/-- The answer of a request is that of the pressed route. -/
theorem keyAt_fst (r : Router) (tg : RouteId) (client : ClientId) (now : Instant) :
    (r.keyAt tg client now).1 = (r.keyOne tg client now).1 := by
  rw [keyAt_eq]
  rcases r.keyOne tg client now with ⟨answer, r'⟩
  cases answer <;> rfl

/-- What another member of the patch sees: its route, and the console's armed press there. -/
def seen (client : ClientId) (t : RouteId) (r : Router) : Option Route × Option Instant :=
  (r.routes.lookup t, r.pending.lookup (t, client))

/-- A press, as the pressed route sees it. -/
def pressSeen (client : ClientId) (now : Instant) (x : Option Route × Option Instant) :
    Option Route × Option Instant :=
  let insists := x.2.any fun asked => decide (now - asked ≤ preemptWindow)
  (x.1.map (·.press client insists),
    if (x.1.bind (·.contested client)).isSome then if insists then none else some now else x.2)

/-- A hand-over, as the other member sees it. -/
def cedeSeen (holder client : ClientId) (x : Option Route × Option Instant) :
    Option Route × Option Instant :=
  (x.1.map (·.cede holder client), none)

theorem seen_handOver_self (r : Router) (holder client : ClientId) (t : RouteId) :
    seen client t (handOver r holder client t) = cedeSeen holder client (seen client t r) := by
  simp [seen, cedeSeen, handOver, Route.cede]

theorem seen_handOver_of_ne (r : Router) (holder client : ClientId) {k t : RouteId} (h : t ≠ k) :
    seen client t (handOver r holder client k) = seen client t r := by
  simp [seen, handOver, Table.lookup_modify_ne _ h, h]

theorem seen_keyOne_self (r : Router) (client : ClientId) (now : Instant) (t : RouteId) :
    seen client t (r.keyOne t client now).2 = pressSeen client now (seen client t r) := by
  simp [seen, pressSeen, lookup_keyOne, pending_keyOne, insisting, contested]

theorem seen_keyOne_of_ne (r : Router) (client : ClientId) (now : Instant) {k t : RouteId}
    (h : t ≠ k) : seen client t (r.keyOne k client now).2 = seen client t r := by
  simp [seen, lookup_keyOne, pending_keyOne, h]

/-- What carrying an accepted press out does to one other member. -/
def joinSeen (outcome : Keyed) (client : ClientId) (now : Instant)
    (x : Option Route × Option Instant) : Option Route × Option Instant :=
  pressSeen client now
    (match outcome with
      | .preempted holder => cedeSeen holder client x
      | _ => x)

/-- The members of a patch are taken independently of each other. -/
theorem seen_takeSiblings (r : Router) {others : List RouteId} (h : others.Nodup)
    (client : ClientId) (now : Instant) (outcome : Keyed) (t : RouteId) :
    seen client t (takeSiblings r others client now outcome) =
      if t ∈ others then joinSeen outcome client now (seen client t r) else seen client t r := by
  have hpress : ∀ s : Router,
      seen client t (others.foldl (fun r other => (keyOne r other client now).2) s) =
        if t ∈ others then pressSeen client now (seen client t s) else seen client t s :=
    fun s => view_run (fun s k => seen_keyOne_self s client now k)
      (fun s _ _ hne => seen_keyOne_of_ne s client now hne) h s t
  have hcede : ∀ holder,
      seen client t (others.foldl (fun r other => handOver r holder client other) r) =
        if t ∈ others then cedeSeen holder client (seen client t r) else seen client t r :=
    fun holder => view_run (fun s k => seen_handOver_self s holder client k)
      (fun s _ _ hne => seen_handOver_of_ne s holder client hne) h r t
  cases outcome with
  | preempted holder =>
    simp only [takeSiblings, joinSeen, hpress, hcede]
    split_ifs <;> rfl
  | _ => simp only [takeSiblings, joinSeen, hpress]

theorem takeSiblings_induction {P : Router → Prop} {others : List RouteId} {client : ClientId}
    {now : Instant} {outcome : Keyed} {r : Router}
    (hcede : ∀ s holder t, P s → P (handOver s holder client t))
    (hpress : ∀ s t, P s → P (s.keyOne t client now).2) (hr : P r) :
    P (takeSiblings r others client now outcome) := by
  have hrun : ∀ s, P s → P (others.foldl (fun r other => (keyOne r other client now).2) s) :=
    fun s hs => run_invariant hpress hs others
  cases outcome with
  | preempted holder =>
    exact hrun _ (run_invariant (fun s t hs => hcede s holder t hs) hr others)
  | _ => exact hrun _ hr

/-- Nor does carrying a press out change the records or the patches. -/
theorem takeSiblings_frame (r : Router) (others : List RouteId) (client : ClientId) (now : Instant)
    (outcome : Keyed) :
    (takeSiblings r others client now outcome).took = r.took ∧
      (takeSiblings r others client now outcome).keyedBy = r.keyedBy ∧
      (takeSiblings r others client now outcome).patches = r.patches := by
  refine takeSiblings_induction
    (P := fun s => s.took = r.took ∧ s.keyedBy = r.keyedBy ∧ s.patches = r.patches)
    (fun s holder t hs => hs) (fun s t hs => ?_) ⟨rfl, rfl, rfl⟩
  obtain ⟨htook, hkeyed, hpatches⟩ := keyOne_frame s t client now
  exact ⟨htook.trans hs.1, hkeyed.trans hs.2.1, hpatches.trans hs.2.2⟩

/-! ### A whole request -/

section KeyAt

variable {outcome : Keyed} {e : Refusal}

theorem keyAt_of_ok (h : (r.keyAt tg client now).1 = .ok outcome) :
    (r.keyAt tg client now).2 =
      (takeSiblings (r.keyOne tg client now).2 (r.siblings tg) client now outcome).recordTook
        client tg (r.joined tg) := by
  rw [keyAt_fst] at h
  rw [keyAt_eq]
  rcases hone : r.keyOne tg client now with ⟨answer, r'⟩
  rw [hone] at h
  obtain rfl : answer = .ok outcome := h
  rfl

theorem keyAt_of_error (h : (r.keyAt tg client now).1 = .error e) :
    (r.keyAt tg client now).2 = (r.keyOne tg client now).2 := by
  rw [keyAt_fst] at h
  rw [keyAt_eq]
  rcases hone : r.keyOne tg client now with ⟨answer, r'⟩
  rw [hone] at h
  obtain rfl : answer = .error e := h
  rfl

@[simp] theorem keyAt_patches (r : Router) (tg : RouteId) (client : ClientId) (now : Instant) :
    (r.keyAt tg client now).2.patches = r.patches := by
  obtain ⟨-, -, hone⟩ := keyOne_frame r tg client now
  cases h : (r.keyAt tg client now).1 with
  | error e => rw [keyAt_of_error h, hone]
  | ok outcome =>
    rw [keyAt_of_ok h]
    exact (takeSiblings_frame _ _ client now outcome).2.2.trans hone

@[simp] theorem keyAt_joined (r : Router) (tg : RouteId) (client : ClientId) (now : Instant)
    (t : RouteId) : (r.keyAt tg client now).2.joined t = r.joined t := by
  rw [joined, joined, keyAt_patches]

/-- An accepted request records what is joined now, under the pressed route. -/
theorem keyAt_took_of_ok (h : (r.keyAt tg client now).1 = .ok outcome) :
    (r.keyAt tg client now).2.took = r.took.insert (client, tg) (r.joined tg) := by
  rw [keyAt_of_ok h, recordTook, (takeSiblings_frame _ _ client now outcome).1,
    (keyOne_frame r tg client now).1]

theorem keyAt_keyedBy_of_ok (h : (r.keyAt tg client now).1 = .ok outcome) :
    (r.keyAt tg client now).2.keyedBy = r.keyedBy.insert client tg := by
  rw [keyAt_of_ok h, recordTook, (takeSiblings_frame _ _ client now outcome).2.1,
    (keyOne_frame r tg client now).2.1]

theorem keyAt_took_of_error (h : (r.keyAt tg client now).1 = .error e) :
    (r.keyAt tg client now).2.took = r.took := by
  rw [keyAt_of_error h, (keyOne_frame r tg client now).1]

theorem keyAt_keyedBy_of_error (h : (r.keyAt tg client now).1 = .error e) :
    (r.keyAt tg client now).2.keyedBy = r.keyedBy := by
  rw [keyAt_of_error h, (keyOne_frame r tg client now).2.1]

/-- A request seen from any route: the pressed route is pressed, and the others of its patch are
joined to it. -/
theorem seen_keyAt_of_ok (h : (r.keyAt tg client now).1 = .ok outcome) (t : RouteId) :
    seen client t (r.keyAt tg client now).2 =
      if t = tg then pressSeen client now (seen client t r)
      else if t ∈ r.joined tg then joinSeen outcome client now (seen client t r)
      else seen client t r := by
  have hrecord : ∀ s : Router, seen client t (s.recordTook client tg (r.joined tg)) =
      seen client t s := fun _ => rfl
  rw [keyAt_of_ok h, hrecord, seen_takeSiblings _ (nodup_siblings r tg)]
  by_cases ht : t = tg
  · subst ht
    rw [if_neg (by simp), if_pos rfl, seen_keyOne_self]
  · simp only [seen_keyOne_of_ne r client now ht, mem_siblings, ht, ne_eq, not_false_eq_true,
      and_true, if_false]

theorem joinSeen_fst (outcome : Keyed) (client : ClientId) (now : Instant) (r : Router)
    (t : RouteId) :
    (joinSeen outcome client now (seen client t r)).1 =
      (r.routes.lookup t).map (·.join outcome client (r.insisting t client now)) := by
  cases outcome with
  | preempted holder =>
    simp only [joinSeen, pressSeen, cedeSeen, seen, Option.map_map, Option.any_none]
    rfl
  | _ => rfl

/-- What an accepted request does to each route. -/
theorem lookup_keyAt_of_ok (h : (r.keyAt tg client now).1 = .ok outcome) (t : RouteId) :
    (r.keyAt tg client now).2.routes.lookup t =
      if t = tg then (r.routes.lookup t).map (·.press client (r.insisting t client now))
      else if t ∈ r.joined tg then
        (r.routes.lookup t).map (·.join outcome client (r.insisting t client now))
      else r.routes.lookup t := by
  have hseen := congrArg Prod.fst (seen_keyAt_of_ok h t)
  rw [apply_ite Prod.fst, apply_ite Prod.fst, joinSeen_fst] at hseen
  exact hseen

/-- The four ways in which a request is answered. -/
theorem keyAt_cases (r : Router) (tg : RouteId) (client : ClientId) (now : Instant) :
    (r.opens tg client = true ∧ r.contested tg client = none ∧
      ∃ k, (∀ h, k ≠ .preempted h) ∧ (r.keyAt tg client now).1 = .ok k) ∨
    (∃ h, r.contested tg client = some h ∧ r.insisting tg client now = true ∧
      (r.keyAt tg client now).1 = .ok (.preempted h)) ∨
    (∃ h, r.contested tg client = some h ∧ r.insisting tg client now = false ∧
      (r.keyAt tg client now).1 = .error .busy) ∨
    (r.opens tg client = false ∧ r.contested tg client = none ∧
      ∃ e, e ≠ .busy ∧ (r.keyAt tg client now).1 = .error e) := by
  rw [keyAt_fst, keyOne_fst]
  cases hroute : r.routes.lookup tg with
  | none =>
    refine Or.inr (Or.inr (Or.inr ⟨?_, ?_, .noSuchRoute, by simp, rfl⟩))
    · simp [opens, hroute]
    · simp [contested, hroute]
  | some route =>
    have hopens : r.opens tg client = route.opens client := by simp [opens, hroute]
    have hcontested : r.contested tg client = route.contested client := by
      simp [contested, hroute]
    rw [hopens, hcontested]
    rcases Route.answer_cases route client (r.insisting tg client now) with
      hopen | hpre | hbusy | hrefused
    · exact Or.inl ⟨hopen.1, Route.contested_eq_none_of_opens hopen.1, hopen.2⟩
    · exact Or.inr (Or.inl hpre)
    · exact Or.inr (Or.inr (Or.inl hbusy))
    · exact Or.inr (Or.inr (Or.inr hrefused))

/-- A route that opens is granted, and nobody is preempted on it. -/
theorem keyAt_fst_of_opens (ho : r.opens tg client = true) :
    ∃ k, (∀ h, k ≠ .preempted h) ∧ (r.keyAt tg client now).1 = .ok k := by
  have hnone := contested_eq_none_of_opens ho
  rcases keyAt_cases r tg client now with ⟨-, -, k, hk, hans⟩ | ⟨h, hc, -, -⟩ | ⟨h, hc, -, -⟩ |
    ⟨hno, -⟩
  · exact ⟨k, hk, hans⟩
  · exact absurd (hnone.symm.trans hc) (by simp)
  · exact absurd (hnone.symm.trans hc) (by simp)
  · exact absurd (hno.symm.trans ho) (by decide)

/-- A contested route that is granted was preempted, by a console that insisted. -/
theorem preempted_of_contested {holder : ClientId} (hc : r.contested tg client = some holder)
    (hans : (r.keyAt tg client now).1 = .ok outcome) :
    outcome = .preempted holder ∧ r.insisting tg client now = true := by
  rcases keyAt_cases r tg client now with ⟨-, hnone, -⟩ | ⟨h, hc', hi, hpre⟩ | ⟨_, -, -, hbusy⟩ |
    ⟨-, hnone, -⟩
  · exact absurd (hnone.symm.trans hc) (by simp)
  · obtain rfl := Option.some.inj (hc'.symm.trans hc)
    exact ⟨Except.ok.inj (hans.symm.trans hpre), hi⟩
  · exact absurd (hbusy.symm.trans hans) (by simp)
  · exact absurd (hnone.symm.trans hc) (by simp)

/-- The request will be accepted: the pressed route opens, or a console insists on it. -/
def accepts (r : Router) (tg : RouteId) (client : ClientId) (now : Instant) : Bool :=
  r.opens tg client || (r.contested tg client).isSome && r.insisting tg client now

theorem accepts_iff : r.accepts tg client now = true ↔ ∃ k, (r.keyAt tg client now).1 = .ok k := by
  rcases keyAt_cases r tg client now with ⟨ho, -, k, -, hk⟩ | ⟨h, hc, hi, hk⟩ | ⟨h, hc, hi, hk⟩ |
    ⟨ho, hc, e, -, hk⟩
  · simp [accepts, ho, hk]
  · simp [accepts, hc, hi, hk]
  · have ho : r.opens tg client = false := by
      by_contra hne
      rw [Bool.not_eq_false] at hne
      exact absurd (contested_eq_none_of_opens hne) (by simp [hc])
    simp [accepts, ho, hi, hk]
  · simp [accepts, ho, hc, hk]

/-- A refused request leaves every route as it was. -/
theorem lookup_keyAt_of_error (h : (r.keyAt tg client now).1 = .error e) (t : RouteId) :
    (r.keyAt tg client now).2.routes.lookup t = r.routes.lookup t := by
  rw [keyAt_of_error h, lookup_keyOne]
  split_ifs with ht
  · subst ht
    rw [keyAt_fst, keyOne_fst] at h
    cases hroute : r.routes.lookup t with
    | none => rfl
    | some route =>
      rw [hroute] at h
      -- Refused, so the press neither opened the route nor preempted on it.
      rcases Route.answer_cases route client (r.insisting t client now) with
        ⟨-, k, -, hans⟩ | ⟨d, -, -, hans⟩ | ⟨d, hc, hi, -⟩ | ⟨ho, hc, -, -, -⟩
      · exact absurd (hans.symm.trans h) (by simp)
      · exact absurd (hans.symm.trans h) (by simp)
      all_goals
        rcases Route.press_cases route client (r.insisting t client now) with
          ⟨-, hwhy⟩ | ⟨-, -, hconv, -, -, -⟩ | ⟨heq, -⟩
      · obtain ⟨hk, -⟩ := Route.contested_eq_some_iff.mp hc
        rcases hwhy with hnone | ⟨-, hins⟩
        · exact absurd (hnone.symm.trans hk) (by simp)
        · exact absurd (hi.symm.trans hins) (by simp)
      · obtain ⟨-, hfm, -⟩ := Route.contested_eq_some_iff.mp hc
        exact absurd (hfm.symm.trans hconv) (by simp)
      · rw [Option.map_some, heq]
      · rcases hwhy with hnone | ⟨hsome, -⟩
        · simp [Route.opens, hnone] at ho
        · simp [hc] at hsome
      · simp [Route.opens, hconv] at ho
      · rw [Option.map_some, heq]
  · rfl

end KeyAt

end Router

end RfxVoiced
