import RfxVoiced.Router.Preemption

/-!
# A patch keeps one digital holder

A patch makes several routes into one channel, so its talkgroups should be keyed by one and the
same client, or by nobody. A key request preserves this whenever the pressed route is a talkgroup,
since then the answer of that route is the answer of them all. A pressed frequency answers for
itself only; the talkgroups of its patch are then pressed one by one, and a console takes those on
which it happens to have armed a second press.

## Main definitions

* `Router.DigitalUniform` — the talkgroups of each patch have one holder
* `Router.splitsPatch` — a console presses a frequency, armed on some but not all of the talkgroups

## Main results

* `keyed_keyAt_of_opens`, `keyed_keyAt_of_preempted` — the holder of a talkgroup after a request
* `digitalUniform_keyAt_iff` — exactly when a request keeps the patches uniform
-/

namespace RfxVoiced

namespace Router

/-- All existing talkgroups of each patch have the same holder. -/
def DigitalUniform (r : Router) : Prop :=
  ∀ t u x y, u ∈ r.joined t → r.routes.lookup t = some x → r.routes.lookup u = some y →
    x.conventional = false → y.conventional = false → x.keyed = y.keyed

theorem digitalUniform_iff_entries {r : Router} :
    r.DigitalUniform ↔
      ∀ e ∈ r.routes.entries, ∀ e' ∈ r.routes.entries, e'.1 ∈ r.joined e.1 →
        e.2.conventional = false → e'.2.conventional = false → e.2.keyed = e'.2.keyed := by
  constructor
  · rintro h ⟨t, x⟩ hx ⟨u, y⟩ hy hjoined
    exact h t u x y hjoined (Table.lookup_eq_some_iff.mpr hx) (Table.lookup_eq_some_iff.mpr hy)
  · intro h t u x y hjoined hx hy
    exact h ⟨t, x⟩ (Table.lookup_eq_some_iff.mp hx) ⟨u, y⟩ (Table.lookup_eq_some_iff.mp hy) hjoined

instance (r : Router) : Decidable r.DigitalUniform :=
  decidable_of_iff _ digitalUniform_iff_entries.symm

/-- A console presses a frequency of a patch whose talkgroups a field unit holds, and it has armed a
second press on one of them but not on another. -/
def splitsPatch (r : Router) (tg : RouteId) (client : ClientId) (now : Instant) : Prop :=
  (r.routes.lookup tg).any Route.conventional = true ∧
    ∃ t ∈ r.joined tg, ∃ u ∈ r.joined tg,
      ((r.contested t client).isSome = true ∧ r.insisting t client now = true) ∧
        (r.contested u client).isSome = true ∧ r.insisting u client now = false

instance (r : Router) (tg : RouteId) (client : ClientId) (now : Instant) :
    Decidable (r.splitsPatch tg client now) :=
  inferInstanceAs (Decidable (_ ∧ ∃ t ∈ r.joined tg, ∃ u ∈ r.joined tg, _))

variable {r : Router} {tg t u : RouteId} {client : ClientId} {now : Instant} {x y : Route}

/-- The holder of a talkgroup after one press. -/
theorem keyed_press_of_digital {insists : Bool} (hdigital : x.conventional = false) :
    (x.press client insists).keyed =
      if x.keyed = none ∨ (x.contested client).isSome = true ∧ insists = true then some client
      else x.keyed := by
  rcases Route.press_cases x client insists with ⟨heq, hwhy⟩ | ⟨-, -, hconv, -⟩ |
    ⟨heq, hsome, hkeeps⟩
  · rw [heq, if_pos hwhy]
  · exact absurd (hdigital.symm.trans hconv) (by decide)
  · rw [heq, if_neg]
    rintro (hnone | ⟨hc, hi⟩)
    · exact hsome hnone
    · exact absurd ((hkeeps hc).symm.trans hi) (by decide)

/-- The holder of a talkgroup of the patch, after a request that the pressed route answers without
arbitration. -/
theorem keyed_keyAt_of_opens (ho : r.opens tg client = true) (ht : t ∈ r.joined tg)
    (hx : r.routes.lookup t = some x) (hdigital : x.conventional = false) {x' : Route}
    (hx' : (r.keyAt tg client now).2.routes.lookup t = some x') :
    x'.keyed =
      if x.keyed = none ∨ (x.contested client).isSome = true ∧ r.insisting t client now = true
      then some client else x.keyed := by
  rw [lookup_keyAt_of_opens ho ht, hx, Option.map_some] at hx'
  obtain rfl := Option.some.inj hx'
  exact keyed_press_of_digital hdigital

/-- The console's own routes are none that it contests. -/
theorem keyed_press_own {insists : Bool} (hown : x.keyed = some client) :
    (x.press client insists).keyed = some client := by
  simp [Route.press, hown]

/-- After a preemption, every talkgroup that the preempted unit held is the console's. -/
theorem keyed_keyAt_of_preempted {holder : ClientId}
    (hans : (r.keyAt tg client now).1 = .ok (.preempted holder))
    (hpre : r.contested tg client = some holder) (ht : t ∈ r.joined tg)
    (hx : r.routes.lookup t = some x) (hheld : x.keyed = some holder) {x' : Route}
    (hx' : (r.keyAt tg client now).2.routes.lookup t = some x') : x'.keyed = some client := by
  rw [lookup_keyAt_of_ok hans] at hx'
  by_cases htg : t = tg
  · subst htg
    rw [if_pos rfl, hx, Option.map_some] at hx'
    obtain rfl := Option.some.inj hx'
    obtain ⟨route, hroute, hc⟩ := contested_eq_some_iff.mp hpre
    obtain rfl : x = route := Option.some.inj (hx.symm.trans hroute)
    rw [(preempted_of_contested hpre hans).2]
    exact (Route.keyed_press_of_contested hc).1
  · rw [if_neg htg, if_pos ht, hx, Option.map_some] at hx'
    obtain rfl := Option.some.inj hx'
    have hceded : (x.cede holder client).keyed = some client := if_pos hheld
    exact keyed_press_own hceded

theorem lookup_of_lookup_keyAt {x' : Route}
    (hx' : (r.keyAt tg client now).2.routes.lookup t = some x') :
    ∃ x, r.routes.lookup t = some x ∧ x.conventional = x'.conventional := by
  cases hans : (r.keyAt tg client now).1 with
  | error e =>
    rw [lookup_keyAt_of_error hans] at hx'
    exact ⟨x', hx', rfl⟩
  | ok k =>
    rw [lookup_keyAt_of_ok hans] at hx'
    split_ifs at hx' with htg hjoined
    · obtain ⟨x, hx, rfl⟩ := Option.map_eq_some_iff.mp hx'
      exact ⟨x, hx, by simp⟩
    · obtain ⟨x, hx, rfl⟩ := Option.map_eq_some_iff.mp hx'
      exact ⟨x, hx, by simp⟩
    · exact ⟨x', hx', rfl⟩

theorem contested_eq_of_lookup (hx : r.routes.lookup t = some x) :
    r.contested t client = x.contested client := by
  simp [contested, hx]

/-- On talkgroups with one holder, a client contests both or neither. -/
theorem contested_congr (client : ClientId) (hx : x.conventional = false)
    (hy : y.conventional = false) (h : x.keyed = y.keyed) :
    x.contested client = y.contested client := by
  simp [Route.contested, h, hx, hy]

/-- Outside the pressed patch a request changes no talkgroup, and a patch lies inside or outside. -/
theorem digitalUniform_of_joined (h : r.DigitalUniform)
    (hpatch : ∀ t u x y x' y', t ∈ r.joined tg → u ∈ r.joined tg →
      r.routes.lookup t = some x → r.routes.lookup u = some y →
      x.conventional = false → y.conventional = false → x.keyed = y.keyed →
      (r.keyAt tg client now).2.routes.lookup t = some x' →
      (r.keyAt tg client now).2.routes.lookup u = some y' → x'.keyed = y'.keyed) :
    (r.keyAt tg client now).2.DigitalUniform := by
  intro t u x' y' hjoined hx' hy' hdx hdy
  rw [keyAt_joined] at hjoined
  obtain ⟨x, hx, hcx⟩ := lookup_of_lookup_keyAt hx'
  obtain ⟨y, hy, hcy⟩ := lookup_of_lookup_keyAt hy'
  have hsame := h t u x y hjoined hx hy (hcx.trans hdx) (hcy.trans hdy)
  by_cases ht : t ∈ r.joined tg
  · have hu : u ∈ r.joined tg := (mem_joined_congr ht u).mp hjoined
    exact hpatch t u x y x' y' ht hu hx hy (hcx.trans hdx) (hcy.trans hdy) hsame hx' hy'
  · -- The whole patch of `t` lies outside.
    have hu : u ∉ r.joined tg := fun hu =>
      ht ((mem_joined_congr hu t).mp (mem_joined_comm.mp hjoined))
    rw [lookup_keyAt_of_not_joined ht] at hx'
    rw [lookup_keyAt_of_not_joined hu] at hy'
    obtain rfl := Option.some.inj (hx.symm.trans hx')
    obtain rfl := Option.some.inj (hy.symm.trans hy')
    exact hsame

theorem digitalUniform_keyAt_of_opens (h : r.DigitalUniform) (ho : r.opens tg client = true)
    (hsplit : ¬ r.splitsPatch tg client now) : (r.keyAt tg client now).2.DigitalUniform := by
  apply digitalUniform_of_joined h
  intro t u x y x' y' ht hu hx hy hdx hdy hsame hx' hy'
  -- Every talkgroup of the patch is pressed, and what becomes of it depends on whether it is
  -- contested and on whether its preemption is pending.
  rw [keyed_keyAt_of_opens ho ht hx hdx hx', keyed_keyAt_of_opens ho hu hy hdy hy', hsame,
    contested_congr client hdx hdy hsame]
  by_cases hc : (y.contested client).isSome = true
  · -- The pressed route opens although a talkgroup of its patch is contested: it is a frequency.
    obtain ⟨holder, hholder⟩ := Option.isSome_iff_exists.mp hc
    obtain ⟨hkeyed, -, hconsole, hfield⟩ := Route.contested_eq_some_iff.mp hholder
    obtain ⟨z, hz, hopens⟩ := opens_iff.mp ho
    have hfrequency : (r.routes.lookup tg).any Route.conventional = true := by
      rw [hz, Option.any_some]
      by_contra hdigital
      rw [Bool.not_eq_true] at hdigital
      have hzy := h tg u z y hu hz hy hdigital hdy
      have hcz := contested_congr client hdigital hdy hzy
      rw [Route.contested_eq_none_of_opens hopens, hholder] at hcz
      exact absurd hcz (by simp)
    have hcx : (r.contested t client).isSome = true := by
      rw [contested_eq_of_lookup hx, contested_congr client hdx hdy hsame]
      exact hc
    have hcy : (r.contested u client).isSome = true := by
      rw [contested_eq_of_lookup hy]
      exact hc
    have hboth : r.insisting t client now = r.insisting u client now := by
      by_contra hne
      cases hit : r.insisting t client now with
      | true =>
        cases hiu : r.insisting u client now with
        | true => exact hne (hit.trans hiu.symm)
        | false => exact hsplit ⟨hfrequency, t, ht, u, hu, ⟨hcx, hit⟩, hcy, hiu⟩
      | false =>
        cases hiu : r.insisting u client now with
        | true => exact hsplit ⟨hfrequency, u, hu, t, ht, ⟨hcy, hiu⟩, hcx, hit⟩
        | false => exact hne (hit.trans hiu.symm)
    rw [hboth]
  · simp [hc]

theorem digitalUniform_keyAt_of_preempted (h : r.DigitalUniform) {holder : ClientId}
    (hans : (r.keyAt tg client now).1 = .ok (.preempted holder))
    (hpre : r.contested tg client = some holder) : (r.keyAt tg client now).2.DigitalUniform := by
  obtain ⟨z, hz, hc⟩ := contested_eq_some_iff.mp hpre
  obtain ⟨hkeyed, hdz, -, -⟩ := Route.contested_eq_some_iff.mp hc
  apply digitalUniform_of_joined h
  intro t u x y x' y' ht hu hx hy hdx hdy hsame hx' hy'
  have hxz : x.keyed = some holder := (h tg t z x ht hz hx hdz hdx).symm.trans hkeyed
  have hyz : y.keyed = some holder := (h tg u z y hu hz hy hdz hdy).symm.trans hkeyed
  rw [keyed_keyAt_of_preempted hans hpre ht hx hxz hx',
    keyed_keyAt_of_preempted hans hpre hu hy hyz hy']

theorem digitalUniform_keyAt_of_error (h : r.DigitalUniform) {e : Refusal}
    (hans : (r.keyAt tg client now).1 = .error e) : (r.keyAt tg client now).2.DigitalUniform := by
  intro t u x y hjoined hx hy hdx hdy
  rw [keyAt_joined] at hjoined
  rw [lookup_keyAt_of_error hans] at hx hy
  exact h t u x y hjoined hx hy hdx hdy

/-- The talkgroup that the console had armed is taken, the other one keeps its holder. -/
theorem not_digitalUniform_keyAt_of_splits (hsplit : r.splitsPatch tg client now) :
    ¬ (r.keyAt tg client now).2.DigitalUniform := by
  obtain ⟨hfrequency, t, ht, u, hu, ⟨hct, hit⟩, hcu, hiu⟩ := hsplit
  have ho : r.opens tg client = true := by
    cases hz : r.routes.lookup tg with
    | none => simp [hz] at hfrequency
    | some z =>
      rw [hz, Option.any_some] at hfrequency
      exact opens_iff.mpr ⟨z, hz, by simp [Route.opens, hfrequency]⟩
  obtain ⟨d, hd⟩ := Option.isSome_iff_exists.mp hct
  obtain ⟨x, hx, hcx⟩ := contested_eq_some_iff.mp hd
  obtain ⟨e, he⟩ := Option.isSome_iff_exists.mp hcu
  obtain ⟨y, hy, hcy⟩ := contested_eq_some_iff.mp he
  obtain ⟨hkx, hdx, -, -⟩ := Route.contested_eq_some_iff.mp hcx
  obtain ⟨hky, hdy, hconsole, hfield⟩ := Route.contested_eq_some_iff.mp hcy
  have hx' : (r.keyAt tg client now).2.routes.lookup t =
      some (x.press client (r.insisting t client now)) := by
    rw [lookup_keyAt_of_opens ho ht, hx, Option.map_some]
  have hy' : (r.keyAt tg client now).2.routes.lookup u =
      some (y.press client (r.insisting u client now)) := by
    rw [lookup_keyAt_of_opens ho hu, hy, Option.map_some]
  intro huniform
  have hjoined : u ∈ (r.keyAt tg client now).2.joined t := by
    rw [keyAt_joined]
    exact (mem_joined_congr ht u).mpr hu
  have hsame := huniform t u _ _ hjoined hx' hy' (by simp [hdx]) (by simp [hdy])
  -- Taken on the one, where the console was armed; kept on the other, where it was not.
  have htaken : (x.press client (r.insisting t client now)).keyed = some client := by
    rw [hit]
    exact (Route.keyed_press_of_contested hcx).1
  have hkept : (y.press client (r.insisting u client now)).keyed = some e := by
    rw [keyed_press_of_digital hdy, hky, hiu]
    simp
  rw [htaken, hkept] at hsame
  exact ClientId.ne_of_isConsole hconsole hfield (Option.some.inj hsame).symm

/-- **A patch keeps one digital holder**: a key request on a router whose talkgroups agree leaves
them in agreement, unless a console presses a frequency of their patch, armed on some of the
talkgroups and not on others. -/
theorem digitalUniform_keyAt_iff (r : Router) (h : r.DigitalUniform) (tg : RouteId)
    (client : ClientId) (now : Instant) :
    (r.keyAt tg client now).2.DigitalUniform ↔ ¬ r.splitsPatch tg client now := by
  refine ⟨fun huniform hsplit => not_digitalUniform_keyAt_of_splits hsplit huniform, ?_⟩
  intro hsplit
  rcases keyAt_cases r tg client now with ⟨ho, -⟩ | ⟨holder, hpre, -, hans⟩ |
    ⟨_, -, -, hans⟩ | ⟨-, -, e, -, hans⟩
  · exact digitalUniform_keyAt_of_opens h ho hsplit
  · exact digitalUniform_keyAt_of_preempted h hans hpre
  · exact digitalUniform_keyAt_of_error h hans
  · exact digitalUniform_keyAt_of_error h hans

/-- A field unit holds two talkgroups patched to a frequency, and a console is refused on the first
talkgroup: it is armed there only. -/
def armedOnOne : Router :=
  after [.openRoute 1 false, .openRoute 2 false, .openConventional 3 false,
    .setPatches [[1, 2, 3]], .keyAt 1 ⟨1, 7⟩ 0, .keyAt 1 ⟨0, 9⟩ 1]

/-- The console insists on the talkgroup it was refused, and both change hands. -/
theorem armedOnOne_pressed_again :
    armedOnOne.DigitalUniform ∧
      ((armedOnOne.keyAt 1 ⟨0, 9⟩ 2).2.DigitalUniform ↔ ¬ armedOnOne.splitsPatch 1 ⟨0, 9⟩ 2) :=
  ⟨by decide, digitalUniform_keyAt_iff armedOnOne (by decide) 1 ⟨0, 9⟩ 2⟩

/-- The console presses the frequency instead, and the two talkgroups come apart. -/
theorem armedOnOne_split :
    ¬ (armedOnOne.DigitalUniform → (armedOnOne.keyAt 3 ⟨0, 9⟩ 2).2.DigitalUniform) := by
  decide

end Router

end RfxVoiced
