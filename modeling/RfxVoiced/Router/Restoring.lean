import RfxVoiced.Router.Locality
import RfxVoiced.Router.Priority
import RfxVoiced.Router.Quality

/-!
# What a release gives back

A release is the inverse of the press it ends, and it is scoped to its caller. It takes the caller
off the routes that the press took, and moves nobody else; and beside that it takes up the link
qualities that were parked on the channels it leaves clear.

## Main results

* `release_undoes_press` — a press that is released at once leaves every holder where it was
* `release_is_scoped` — what a release does, and what it leaves alone
-/

namespace RfxVoiced

/-- Taking a client that was not on a route off again, after it pressed the route as a field unit,
leaves the route on the air as it was. -/
theorem Route.silence_press {route : Route} {client : ClientId} {insists : Bool}
    (hfield : client.isConsole = false) (hoff : ¬ route.Holds client) :
    (route.press client insists).onAir.silence (· = client) = route.onAir := by
  obtain ⟨hkeyed, halso⟩ := not_or.mp hoff
  have hothers : (route.also.filter fun c => !decide (c = client)) = route.also := by
    rw [List.filter_eq_self]
    intro c hc
    rw [Bool.not_eq_true', decide_eq_false_iff_not]
    rintro rfl
    exact halso hc
  have hholder : (route.keyed.filter fun c => !decide (c = client)) = route.keyed := by
    cases hk : route.keyed with
    | none => rfl
    | some holder =>
      refine Option.filter_eq_some_iff.mpr ⟨rfl, ?_⟩
      rw [Bool.not_eq_true', decide_eq_false_iff_not]
      rintro rfl
      exact hkeyed hk
  rcases Route.press_cases route client insists with ⟨heq, hwhy⟩ | ⟨heq, -⟩ | ⟨heq, -⟩
  · -- A field unit preempts nobody, so it took a free route.
    have hfree : route.keyed = none := by
      rcases hwhy with hfree | ⟨hc, -⟩
      · exact hfree
      · obtain ⟨holder, hh⟩ := Option.isSome_iff_exists.mp hc
        obtain ⟨-, -, hconsole, -⟩ := Route.contested_eq_some_iff.mp hh
        exact absurd (hfield.symm.trans hconsole) (by decide)
    simp [heq, Route.onAir, OnAir.silence, hothers, hfree, Option.filter]
  · simp [heq, Route.onAir, OnAir.silence, hothers, hholder, List.filter_append]
  · simp [heq, Route.onAir, OnAir.silence, hothers, hholder]

namespace Router

variable {r : Router} {tg t : RouteId} {client : ClientId} {now : Instant} {k : Keyed}

/-- A press of a field unit that was nowhere on the patch, seen from any of its routes once the unit
is taken off. -/
theorem onAir_keyAt_silence (hfield : client.isConsole = false)
    (hoff : ∀ t ∈ r.joined tg, ¬ r.holds t client = true)
    (hans : (r.keyAt tg client now).1 = .ok k) (ht : t ∈ r.joined tg) :
    ((r.keyAt tg client now).2.onAir t).map (·.silence (· = client)) = r.onAir t := by
  have hjoin : ∀ route : Route, route.join k client (r.insisting t client now) =
      route.press client (r.insisting t client now) := by
    intro route
    cases k with
    | preempted holder => exact absurd (hfield.symm.trans (ranks_of_preempted hans).1) (by decide)
    | _ => rfl
  rw [onAir, onAir, lookup_keyAt_of_ok hans]
  simp only [ht, if_true, hjoin, ite_self]
  cases hroute : r.routes.lookup t with
  | none => rfl
  | some route =>
    have hnot : ¬ route.Holds client := fun h => hoff t ht (holds_iff.mpr ⟨route, hroute, h⟩)
    exact congrArg some (Route.silence_press hfield hnot)

/-- **Key then release is the identity on holders.** When a field unit that holds no route of a
patch is granted a key there and releases it at once, every route is on the air as before, the order
of those mixed in included, and no record of the key is left. -/
theorem release_undoes_press (hfield : client.isConsole = false)
    (hoff : ∀ t ∈ r.joined tg, ¬ r.holds t client = true)
    (hans : (r.keyAt tg client now).1 = .ok k) :
    (∀ t, ((r.keyAt tg client now).2.unkeyAs tg client).2.onAir t = r.onAir t) ∧
      ((r.keyAt tg client now).2.unkeyAs tg client).2.took.lookup (client, tg) = none := by
  have hmine : (r.keyAt tg client now).2.mine tg client = r.joined tg := by
    rw [mine, keyAt_took_of_ok hans, Table.lookup_insert, if_pos rfl, Option.getD_some]
  constructor
  · intro t
    rw [onAir_unkeyAs, hmine]
    split_ifs with ht
    · exact onAir_keyAt_silence hfield hoff hans ht
    · rw [onAir, onAir, lookup_keyAt_of_not_joined ht]
  · rw [unkeyAs_took, Table.lookup_erase, if_pos rfl]

/-- A patch of a talkgroup that is free, an AM frequency on which two are up already, and one in FM
that is held. -/
def mixedPatch : Router :=
  after [.openRoute 1 false, .openConventional 0x80000002 true, .openConventional 0x80000003 false,
    .keyAt 0x80000002 ⟨1, 5⟩ 0, .keyAt 0x80000002 ⟨1, 6⟩ 0, .keyAt 0x80000003 ⟨2, 7⟩ 0,
    .setPatches [[1, 0x80000002], [0x80000002, 0x80000003]]]

/-- A unit keys the talkgroup, is mixed in on the one frequency and captured on the other. -/
theorem mixedPatch_restored :
    (mixedPatch.keyAt 1 ⟨1, 8⟩ 0).2.onAir 0x80000002 ≠ mixedPatch.onAir 0x80000002 ∧
      ∀ t, ((mixedPatch.keyAt 1 ⟨1, 8⟩ 0).2.unkeyAs 1 ⟨1, 8⟩).2.onAir t = mixedPatch.onAir t :=
  ⟨by decide, (release_undoes_press (by decide) (by decide)
    (show (mixedPatch.keyAt 1 ⟨1, 8⟩ 0).1 = .ok .granted by decide)).1⟩

/-! ### Scope -/

/-- A release was of something exactly when its caller was on a route that it gives back. -/
theorem letGoAll_fst_iff (client : ClientId) (acc : Bool × Router) (others : List RouteId) :
    (letGoAll client acc others).1 = true ↔
      acc.1 = true ∨ ∃ t ∈ others, acc.2.holds t client = true := by
  induction others generalizing acc with
  | nil => simp [letGoAll]
  | cons other others ih =>
    have hhere : (acc.2.letGo client other).1 = acc.2.holds other client := by
      unfold letGo holds
      cases acc.2.routes.lookup other with
      | none => rfl
      | some route => exact Bool.or_comm _ _
    -- Letting go of one route takes the client off that one and no other.
    have hothers : ∀ t, (acc.2.letGo client other).2.holds t client = true ↔
        acc.2.holds t client = true ∧ t ≠ other := by
      intro t
      have honair := onAir_letGo acc.2 client other t
      split_ifs at honair with ht
      · rw [holds_of_silence honair]
        simp [ht]
      · rw [holds_congr honair]
        simp [ht]
    have hrun : letGoAll client acc (other :: others) =
        letGoAll client (acc.1 || (acc.2.letGo client other).1, (acc.2.letGo client other).2)
          others := rfl
    rw [hrun, ih, Bool.or_eq_true, hhere, List.exists_mem_cons_iff, or_assoc]
    refine or_congr_right ⟨?_, ?_⟩
    · rintro (hheld | ⟨t, ht, hheld⟩)
      · exact Or.inl hheld
      · exact Or.inr ⟨t, ht, ((hothers t).mp hheld).1⟩
    · rintro (hheld | ⟨t, ht, hheld⟩)
      · exact Or.inl hheld
      · by_cases heq : t = other
        · exact Or.inl (heq ▸ hheld)
        · exact Or.inr ⟨t, ht, (hothers t).mpr ⟨hheld, heq⟩⟩

theorem unkeyAs_fst_iff (r : Router) (tg : RouteId) (client : ClientId) :
    (r.unkeyAs tg client).1 = true ↔ ∃ t ∈ r.mine tg client, r.holds t client = true := by
  rw [unkeyAs_fst, letGoAll_fst_iff]
  exact or_iff_right (by simp)

/-- Nobody's part on a route changes but the caller's, on a route that is given back. -/
theorem part_unkeyAs {d : ClientId} (h : d ≠ client ∨ t ∉ r.mine tg client) :
    (r.unkeyAs tg client).2.part t d = r.part t d := by
  have hview : ∀ s : Router, s.part t d = (s.onAir t).map fun a =>
      (decide (a.keyed = some d), decide (d ∈ a.also)) := by
    intro s
    rw [part, onAir, Option.map_map]
    rfl
  rw [hview, hview, onAir_unkeyAs]
  split_ifs with ht
  · have hd : d ≠ client := h.resolve_right (not_not.mpr ht)
    rw [Option.map_map]
    refine congrArg (fun f => Option.map f _) (funext fun a => ?_)
    simp [OnAir.silence, Option.filter_eq_some_iff, hd]
  · rfl

/-- **A release is scoped to its caller.** Afterwards the caller is on none of the routes that its
key took, or of the present patch where there is no record. Nobody else's part on any route has
changed, nor the caller's elsewhere. The release says whether the caller was on one of those routes.
No right to listen has changed, and the stored quality of a member only on a channel that is clear
by then, to the value that was parked for it. -/
theorem release_is_scoped (r : Router) (tg : RouteId) (client : ClientId) :
    (∀ t ∈ r.mine tg client, ¬ (r.unkeyAs tg client).2.holds t client = true) ∧
    (∀ t d, d ≠ client ∨ t ∉ r.mine tg client →
      (r.unkeyAs tg client).2.part t d = r.part t d) ∧
    ((r.unkeyAs tg client).1 = true ↔ ∃ t ∈ r.mine tg client, r.holds t client = true) ∧
    (∀ t d, (r.unkeyAs tg client).2.listensOn t d = r.listensOn t d) ∧
    ∀ t d route m route' m', r.routes.lookup t = some route → route.members.lookup d = some m →
      (r.unkeyAs tg client).2.routes.lookup t = some route' →
      route'.members.lookup d = some m' → m'.quality ≠ m.quality →
        (r.unkeyAs tg client).2.isClear t = true ∧
          route.deferred.lookup d = some m'.quality := by
  refine ⟨fun t ht hheld => ?_, fun t d h => part_unkeyAs h, unkeyAs_fst_iff r tg client,
    fun t d => listensOn_unkeyAs r tg client t d, ?_⟩
  · exact ((holds_unkeyAs r tg client t client).mp hheld).2 rfl ht
  · intro t d route m route' m' hroute hm hroute' hm' hchanged
    have hbefore : r.linkOn t d = some ⟨m.quality, route.deferred.lookup d⟩ := by
      rw [linkOn, hroute, Option.bind_some, hm, Option.map_some]
    have hafter : (r.unkeyAs tg client).2.linkOn t d =
        some ⟨m'.quality, route'.deferred.lookup d⟩ := by
      rw [linkOn, hroute', Option.bind_some, hm', Option.map_some]
    rw [linkOn_unkeyAs, hbefore] at hafter
    split_ifs at hafter with hclear
    · -- The link was settled: it moved, so something was parked behind it.
      have hheld : (route.deferred.lookup d).getD m.quality = m'.quality :=
        congrArg Deadband.held (Option.some.inj hafter)
      refine ⟨hclear.1, ?_⟩
      cases hparked : route.deferred.lookup d with
      | none =>
        rw [hparked, Option.getD_none] at hheld
        exact absurd hheld.symm hchanged
      | some q =>
        rw [hparked, Option.getD_some] at hheld
        rw [hheld]
    · exact absurd (congrArg Deadband.held (Option.some.inj hafter)).symm hchanged

end Router

end RfxVoiced
