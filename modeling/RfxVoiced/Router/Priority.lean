import RfxVoiced.Router.Holds

/-!
# Priority

A key request can displace somebody only downwards: a console takes a talkgroup from a field unit.
Whoever else is on the air keeps its part, as the holder of a route or as somebody mixed in on it,
on every route of the patch and whatever the other members of the patch answer. A refused request
moves nobody.

## Main definitions

* `Route.part`, `Router.part` — a client's part in what is on the air on a route

## Main results

* `part_keyAt` — a request that does not displace downwards leaves every other client's part alone
* `priority_never_inverted` — the same for every call, with what a refused one leaves
-/

namespace RfxVoiced

/-- A client's part on a route: whether it is the holder, and whether it is mixed in. -/
def Route.part (route : Route) (h : ClientId) : Bool × Bool :=
  (decide (route.keyed = some h), decide (h ∈ route.also))

section Route

variable {route : Route} {client h holder : ClientId} {insists : Bool} {outcome : Keyed}

/-- A press leaves the part of everybody else alone, unless a console presses and the other is a
field unit. -/
theorem Route.part_press (hne : h ≠ client)
    (hrank : client.isConsole = true → h.isConsole = true) :
    (route.press client insists).part h = route.part h := by
  have hother : some client ≠ some h := fun heq => hne (Option.some.inj heq).symm
  rcases Route.press_cases route client insists with ⟨heq, hwhy⟩ | ⟨heq, -⟩ | ⟨heq, -⟩
  · have hkeyed : route.keyed ≠ some h := by
      rintro hk
      rcases hwhy with hnone | ⟨hc, -⟩
      · rw [hk] at hnone
        exact absurd hnone (by simp)
      · -- The unit that is preempted ranks below the console, so it is somebody else.
        obtain ⟨h', hh'⟩ := Option.isSome_iff_exists.mp hc
        obtain ⟨hk', -, hconsole, hfield⟩ := Route.contested_eq_some_iff.mp hh'
        obtain rfl : h = h' := Option.some.inj (hk.symm.trans hk')
        rw [hrank hconsole] at hfield
        exact absurd hfield (by decide)
    rw [heq]
    simp [Route.part, hkeyed, hother]
  · rw [heq]
    simp [Route.part, hne]
  · rw [heq]

/-- A hand-over moves the preempted unit and the console, and nobody else. -/
theorem Route.part_cede (hne : h ≠ client) (hholder : h ≠ holder) :
    (route.cede holder client).part h = route.part h := by
  have hkeyed : (route.cede holder client).keyed = some h ↔ route.keyed = some h := by
    simp only [Route.cede]
    split_ifs with hk
    · rw [hk]
      simp [hne.symm, hholder.symm]
    · rfl
  have halso : h ∈ (route.cede holder client).also ↔ h ∈ route.also := by
    simp [Route.cede, hholder]
  simp [Route.part, hkeyed, halso]

theorem Route.part_join (hne : h ≠ client)
    (hrank : client.isConsole = true → h.isConsole = true)
    (hholder : ∀ holder, outcome = .preempted holder → h ≠ holder) :
    (route.join outcome client insists).part h = route.part h := by
  cases outcome with
  | preempted holder =>
    exact (Route.part_press hne hrank).trans (Route.part_cede hne (hholder holder rfl))
  | _ => exact Route.part_press hne hrank

end Route

namespace Router

variable {r : Router} {tg t : RouteId} {client h : ClientId} {now : Instant}

/-- A client's part on a route, where there is such a route. -/
def part (r : Router) (t : RouteId) (h : ClientId) : Option (Bool × Bool) :=
  (r.routes.lookup t).map fun route => route.part h

/-- Only a field unit is preempted, and only by a console. -/
theorem ranks_of_preempted {holder : ClientId}
    (hans : (r.keyAt tg client now).1 = .ok (.preempted holder)) :
    client.isConsole = true ∧ holder.isConsole = false := by
  rcases keyAt_cases r tg client now with ⟨-, -, k, hk, hok⟩ | ⟨h, hc, -, hok⟩ | ⟨h, -, -, herr⟩ |
    ⟨-, -, e, -, herr⟩
  · rw [hok] at hans
    exact absurd (Except.ok.inj hans) (hk holder)
  · rw [hok] at hans
    obtain rfl := Keyed.preempted.inj (Except.ok.inj hans)
    obtain ⟨route, -, hcr⟩ := contested_eq_some_iff.mp hc
    obtain ⟨-, -, hconsole, hfield⟩ := Route.contested_eq_some_iff.mp hcr
    exact ⟨hconsole, hfield⟩
  · exact absurd (herr.symm.trans hans) (by simp)
  · exact absurd (herr.symm.trans hans) (by simp)

/-- A client that the caller does not outrank keeps its part on every route. -/
theorem part_keyAt (hne : h ≠ client)
    (hrank : client.isConsole = true → h.isConsole = true) (t : RouteId) :
    (r.keyAt tg client now).2.part t h = r.part t h := by
  cases hans : (r.keyAt tg client now).1 with
  | error e => rw [part, lookup_keyAt_of_error hans, part]
  | ok outcome =>
    have hholder : ∀ holder, outcome = .preempted holder → h ≠ holder := by
      rintro holder rfl rfl
      obtain ⟨hconsole, hfield⟩ := ranks_of_preempted hans
      rw [hrank hconsole] at hfield
      exact absurd hfield (by decide)
    rw [part, lookup_keyAt_of_ok hans, part]
    split_ifs
    · rw [Option.map_map]
      exact congrArg (fun f => Option.map f _) (funext fun _ => Route.part_press hne hrank)
    · rw [Option.map_map]
      exact congrArg (fun f => Option.map f _) (funext fun _ => Route.part_join hne hrank hholder)
    · rfl

/-- **Priority is never inverted.** A key request leaves the part of every other client on every
route alone, unless it was accepted, the caller is a console and the other is a field unit. Nobody
but the caller gains a hold. A refused request leaves everybody on every route where they were, and
every record of what a key took. -/
theorem priority_never_inverted (r : Router) (tg : RouteId) (client : ClientId) (now : Instant) :
    (∀ h t, h ≠ client →
      ¬ (client.isConsole = true ∧ h.isConsole = false ∧ ∃ k, (r.keyAt tg client now).1 = .ok k) →
      (r.keyAt tg client now).2.part t h = r.part t h) ∧
    (∀ h t, h ≠ client → (r.keyAt tg client now).2.holds t h = true → r.holds t h = true) ∧
    (∀ e, (r.keyAt tg client now).1 = .error e →
      (∀ t, (r.keyAt tg client now).2.onAir t = r.onAir t) ∧
      (r.keyAt tg client now).2.took = r.took ∧
      (r.keyAt tg client now).2.keyedBy = r.keyedBy) := by
  refine ⟨fun h t hne hkept => ?_, fun h t hne => holds_of_holds_keyAt hne, fun e hans => ?_⟩
  · by_cases hrank : client.isConsole = true → h.isConsole = true
    · exact part_keyAt hne hrank t
    · obtain ⟨hconsole, hfield⟩ := Classical.not_imp.mp hrank
      rw [Bool.not_eq_true] at hfield
      cases hans : (r.keyAt tg client now).1 with
      | error e => rw [part, lookup_keyAt_of_error hans, part]
      | ok k => exact absurd ⟨hconsole, hfield, k, hans⟩ hkept
  · refine ⟨fun t => ?_, keyAt_took_of_error hans, keyAt_keyedBy_of_error hans⟩
    rw [onAir, lookup_keyAt_of_error hans, onAir]

end Router

end RfxVoiced
