import RfxVoiced.Router.Step

/-!
# Whom a key request cuts off

A console may take a talkgroup from a field unit, and the answer it gets names the unit, so that
somebody can tell it. But only the pressed route is answered for. A press on a patch presses every
other member too, and there the same preemption can happen without an answer. This file says whom
a request cuts off, and when each of them is named.

## Main definitions

* `Router.TellsVictims` — whoever a key request cuts off is named in its answer
* `Router.takesSilently` — the pressed route opens, and another member is preempted

## Main results

* `lost_cases`, `lost_keyAt_iff_of_opens` — whom a key request cuts off
* `tellsVictims_iff` — when every victim is named
-/

namespace RfxVoiced

namespace Router

section Lost

variable {r : Router} {tg t : RouteId} {client h : ClientId} {now : Instant}

/-- A key request cuts a client off a route that the request reaches, or not at all. -/
theorem lookup_of_lost (hheld : r.holds t h = true)
    (hlost : ¬ (r.keyAt tg client now).2.holds t h = true) :
    ∃ k, (r.keyAt tg client now).1 = .ok k ∧ t ∈ r.joined tg := by
  by_cases ht : t ∈ r.joined tg
  · cases hans : (r.keyAt tg client now).1 with
    | ok k => exact ⟨k, rfl, ht⟩
    | error e =>
      rw [holds_keyAt_of_error hans] at hlost
      exact absurd hheld hlost
  · rw [holds_keyAt_of_not_joined ht] at hlost
    exact absurd hheld hlost

/-- When the pressed route opens, every route of the patch is merely pressed. -/
theorem lookup_keyAt_of_opens (ho : r.opens tg client = true) (ht : t ∈ r.joined tg) :
    (r.keyAt tg client now).2.routes.lookup t =
      (r.routes.lookup t).map (·.press client (r.insisting t client now)) := by
  obtain ⟨k, hk, hans⟩ := keyAt_fst_of_opens ho
  have hjoin : ∀ route : Route, route.join k client (r.insisting t client now) =
      route.press client (r.insisting t client now) := by
    intro route
    cases k with
    | preempted holder => exact absurd rfl (hk holder)
    | _ => rfl
  rw [lookup_keyAt_of_ok hans, if_pos ht]
  simp only [hjoin, ite_self]

/-- When the pressed route opens, only a console that is armed against a client cuts it off. -/
theorem contested_of_lost_of_opens (ho : r.opens tg client = true) (hheld : r.holds t h = true)
    (hlost : ¬ (r.keyAt tg client now).2.holds t h = true) :
    t ∈ r.joined tg ∧ r.contested t client = some h ∧ r.insisting t client now = true := by
  obtain ⟨-, -, ht⟩ := lookup_of_lost hheld hlost
  obtain ⟨route, hroute, hholds⟩ := holds_iff.mp hheld
  have hpressed : ¬ (route.press client (r.insisting t client now)).Holds h := by
    intro hstill
    refine hlost (holds_iff.mpr ⟨_, ?_, hstill⟩)
    rw [lookup_keyAt_of_opens ho ht, hroute, Option.map_some]
  obtain ⟨hc, hi⟩ := Route.contested_of_lost hholds hpressed
  exact ⟨ht, contested_eq_some_iff.mpr ⟨route, hroute, hc⟩, hi⟩

/-- When the pressed route opens, a request takes from a client exactly the talkgroups on which a
console has armed a second press against them. -/
theorem lost_keyAt_iff_of_opens (hr : r.DigitalAlone) (ho : r.opens tg client = true)
    (hne : h ≠ client) :
    (r.holds t h = true ∧ ¬ (r.keyAt tg client now).2.holds t h = true) ↔
      t ∈ r.joined tg ∧ r.contested t client = some h ∧ r.insisting t client now = true := by
  constructor
  · rintro ⟨hheld, hlost⟩
    exact contested_of_lost_of_opens ho hheld hlost
  · rintro ⟨ht, hc, hi⟩
    obtain ⟨route, hroute, hcr⟩ := contested_eq_some_iff.mp hc
    obtain ⟨hkeyed, hdigital, -, -⟩ := Route.contested_eq_some_iff.mp hcr
    refine ⟨holds_iff.mpr ⟨route, hroute, Or.inl hkeyed⟩, fun hstill => ?_⟩
    obtain ⟨route', hroute', hholds⟩ := holds_iff.mp hstill
    rw [lookup_keyAt_of_opens ho ht, hroute, hi, Option.map_some] at hroute'
    obtain rfl := Option.some.inj hroute'
    obtain ⟨hpressed, halso⟩ := Route.keyed_press_of_contested hcr
    rcases hholds with hk | hmem
    · rw [hpressed] at hk
      exact hne (Option.some.inj hk).symm
    · -- Nobody is mixed in on a talkgroup, so the preempted unit is gone from it.
      have hnil : route.also = [] := hr t route.onAir (by simp [onAir, hroute]) hdigital
      rw [halso, hnil] at hmem
      exact absurd hmem List.not_mem_nil

/-- After a preemption the rest of the patch is only pressed by a client with no armed press, so
nobody but the preempted unit is cut off. -/
theorem eq_of_lost_of_preempted {holder : ClientId}
    (hans : (r.keyAt tg client now).1 = .ok (.preempted holder))
    (hpre : r.contested tg client = some holder) (hheld : r.holds t h = true)
    (hlost : ¬ (r.keyAt tg client now).2.holds t h = true) : h = holder := by
  obtain ⟨-, -, ht⟩ := lookup_of_lost hheld hlost
  obtain ⟨route, hroute, hholds⟩ := holds_iff.mp hheld
  have hlookup := lookup_keyAt_of_ok hans t
  by_cases htg : t = tg
  · subst htg
    have hpressed : ¬ (route.press client (r.insisting t client now)).Holds h := by
      intro hstill
      refine hlost (holds_iff.mpr ⟨_, ?_, hstill⟩)
      rw [hlookup, if_pos rfl, hroute, Option.map_some]
    have hc := (Route.contested_of_lost hholds hpressed).1
    have hc' : r.contested t client = some h := contested_eq_some_iff.mpr ⟨route, hroute, hc⟩
    exact Option.some.inj (hc'.symm.trans hpre)
  · have hjoined : ¬ ((route.cede holder client).press client false).Holds h := by
      intro hstill
      refine hlost (holds_iff.mpr ⟨_, ?_, hstill⟩)
      rw [hlookup, if_neg htg, if_pos ht, hroute, Option.map_some]
      rfl
    by_contra hne
    -- The hand-over leaves everybody but the preempted unit where they were.
    have hceded : (route.cede holder client).Holds h := by
      rcases hholds with hk | hmem
      · refine Or.inl ?_
        have hother : route.keyed ≠ some holder := fun heq =>
          hne (Option.some.inj (hk.symm.trans heq))
        exact (if_neg hother).trans hk
      · exact Or.inr (List.mem_filter.mpr ⟨hmem, by simpa using hne⟩)
    exact absurd (Route.contested_of_lost hceded hjoined).2 (by decide)

/-- The two ways to be cut off: by a console armed on a route of a patch that opens, or as the unit
from which the pressed route is taken. -/
theorem lost_cases (hheld : r.holds t h = true)
    (hlost : ¬ (r.keyAt tg client now).2.holds t h = true) :
    (r.opens tg client = true ∧ t ∈ r.joined tg ∧ r.contested t client = some h ∧
      r.insisting t client now = true) ∨
    (r.contested tg client = some h ∧ r.insisting tg client now = true ∧
      (r.keyAt tg client now).1 = .ok (.preempted h)) := by
  obtain ⟨k, hk, -⟩ := lookup_of_lost hheld hlost
  rcases keyAt_cases r tg client now with ⟨ho, -⟩ | ⟨holder, hc, hi, hans⟩ | ⟨_, -, -, hans⟩ |
    ⟨-, -, e, -, hans⟩
  · exact Or.inl ⟨ho, contested_of_lost_of_opens ho hheld hlost⟩
  · obtain rfl := eq_of_lost_of_preempted hans hc hheld hlost
    exact Or.inr ⟨hc, hi, hans⟩
  · exact absurd (hk.symm.trans hans) (by simp)
  · exact absurd (hk.symm.trans hans) (by simp)

/-- Only a console cuts anybody off, and only a field unit is cut off. -/
theorem isConsole_of_lost (hheld : r.holds t h = true)
    (hlost : ¬ (r.keyAt tg client now).2.holds t h = true) :
    client.isConsole = true ∧ h.isConsole = false := by
  have hcontested : ∃ u, r.contested u client = some h := by
    rcases lost_cases hheld hlost with ⟨-, -, hc, -⟩ | ⟨hc, -⟩
    · exact ⟨t, hc⟩
    · exact ⟨tg, hc⟩
  obtain ⟨u, hc⟩ := hcontested
  obtain ⟨route, -, hcr⟩ := contested_eq_some_iff.mp hc
  exact (Route.contested_eq_some_iff.mp hcr).2.2

end Lost

/-! ### Nobody is cut off silently -/

/-- Whoever a key request cuts off is named in its answer. -/
def TellsVictims (r : Router) (tg : RouteId) (client : ClientId) (now : Instant) : Prop :=
  ∀ h, h ≠ client → ∀ t, r.holds t h = true → ¬ (r.keyAt tg client now).2.holds t h = true →
    (r.keyAt tg client now).1 = .ok (.preempted h)

/-- The pressed route opens, and on another member of its patch the client has armed a second press
against a field unit. -/
def takesSilently (r : Router) (tg : RouteId) (client : ClientId) (now : Instant) : Prop :=
  r.opens tg client = true ∧
    ∃ t ∈ r.joined tg, (r.contested t client).isSome = true ∧ r.insisting t client now = true

instance (r : Router) (tg : RouteId) (client : ClientId) (now : Instant) :
    Decidable (r.takesSilently tg client now) :=
  inferInstanceAs (Decidable (_ ∧ ∃ t ∈ r.joined tg, _))

theorem tellsVictims_iff_of_digitalAlone {r : Router} (hr : r.DigitalAlone) (tg : RouteId)
    (client : ClientId) (now : Instant) :
    r.TellsVictims tg client now ↔ ¬ r.takesSilently tg client now := by
  constructor
  · rintro htells ⟨ho, t, ht, hc, hi⟩
    obtain ⟨h, hh⟩ := Option.isSome_iff_exists.mp hc
    have hne : h ≠ client := by
      obtain ⟨route, -, hcr⟩ := contested_eq_some_iff.mp hh
      obtain ⟨-, -, hconsole, hfield⟩ := Route.contested_eq_some_iff.mp hcr
      exact ClientId.ne_of_isConsole hconsole hfield
    obtain ⟨hheld, hlost⟩ := (lost_keyAt_iff_of_opens hr ho hne).mpr ⟨ht, hh, hi⟩
    have hans := htells h hne t hheld hlost
    obtain ⟨k, hk, hok⟩ : ∃ k, (∀ h, k ≠ .preempted h) ∧ (r.keyAt tg client now).1 = .ok k :=
      keyAt_fst_of_opens ho
    exact hk h (Except.ok.inj (hok.symm.trans hans))
  · intro hsilent h _ t hheld hlost
    rcases lost_cases hheld hlost with ⟨ho, ht, hc, hi⟩ | ⟨-, -, hans⟩
    · exact absurd ⟨ho, t, ht, by rw [hc]; rfl, hi⟩ hsilent
    · exact hans

/-- In every state reached, a key request names whomever it cuts off, unless the pressed route opens
while the client has armed a second press on another member of its patch. -/
theorem tellsVictims_iff (ops : List Op) (tg : RouteId) (client : ClientId) (now : Instant) :
    (after ops).TellsVictims tg client now ↔ ¬ (after ops).takesSilently tg client now :=
  tellsVictims_iff_of_digitalAlone (digitalAlone_after ops) tg client now

/-- A field unit talks on talkgroup 1, which is patched to frequency 2 after a console has been
refused there. -/
def armedAcrossPatch : List Op :=
  [.openRoute 1 false, .openConventional 2 false, .keyAt 1 ⟨1, 7⟩ 0, .keyAt 1 ⟨0, 9⟩ 1,
    .setPatches [[1, 2]]]

/-- The console presses the free frequency, is granted it, and takes the talkgroup as well. -/
theorem armedAcrossPatch_silent : ¬ (after armedAcrossPatch).TellsVictims 2 ⟨0, 9⟩ 2 := by
  intro h
  have hans := h ⟨1, 7⟩ (by decide) 1 (by decide) (by decide)
  exact absurd hans (by decide)

end Router

end RfxVoiced
