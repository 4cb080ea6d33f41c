import RfxVoiced.Router.Delivery

/-!
# FM captures

On an FM frequency that somebody holds, a second radio is accepted and not heard: the press takes
nothing on the pressed route. The other members of a patch are pressed as well, though, and where
one of them lets the client on, the captured radio is heard from there. So whether a doubled radio
stays unheard depends on those members.

## Main results

* `holds_keyAt_self_iff` — where the client of an accepted request is on the air afterwards
* `captured_unheard_iff` — a doubled radio is unheard exactly when no other member lets it on
-/

namespace RfxVoiced

/-- After a press the client is on a route where it was before, and where it could enter. -/
theorem Route.holds_press_self_iff {route : Route} {client : ClientId} {insists : Bool} :
    (route.press client insists).Holds client ↔
      route.Holds client ∨ route.keyed = none ∨ (route.conventional = true ∧ route.am = true) ∨
        (route.contested client).isSome = true ∧ insists = true := by
  unfold Route.press
  split
  next hfree => simp [Route.Holds, hfree]
  next holder hkeyed =>
    split_ifs with hown ham hin hconv hpre
    · simp [Route.Holds, hkeyed, hown]
    · simp [Route.Holds, hin]
    · rw [Bool.and_eq_true] at ham
      simp [Route.Holds, ham]
    · -- FM: the client stays off the air, unless it was mixed in before.
      have hfm : route.am = false := by simpa [hconv] using ham
      simp [hkeyed, hfm, Route.contested, hconv]
    · simp only [Bool.and_eq_true, Bool.not_eq_true'] at hpre
      simp only [Bool.not_eq_true] at hconv
      simp [Route.Holds, Route.contested, hkeyed, hconv, hpre]
    · have hfm : ¬ (route.conventional = true ∧ route.am = true) := by simpa using ham
      have hkept : ¬ ((route.contested client).isSome = true ∧ insists = true) := by
        rintro ⟨hc, hinsists⟩
        obtain ⟨h, hh⟩ := Option.isSome_iff_exists.mp hc
        obtain ⟨hk, -, hconsole, hfield⟩ := Route.contested_eq_some_iff.mp hh
        obtain rfl : holder = h := Option.some.inj (hkeyed.symm.trans hk)
        exact hpre (by simp [hconsole, hfield, hinsists])
      simp [hkeyed, hfm, hkept]

namespace Router

variable {r : Router} {tg t : RouteId} {client : ClientId} {now : Instant}

theorem enters_iff {route : Route} (h : r.routes.lookup t = some route) :
    r.enters t client now = true ↔
      route.keyed = none ∨ (route.conventional = true ∧ route.am = true) ∨
        (route.contested client).isSome = true ∧ r.insisting t client now = true := by
  simp [enters, h, or_assoc]

/-- After an accepted request that preempted nobody, the client is on the air where it was before,
and wherever on the patch it could enter. -/
theorem holds_keyAt_self_iff {k : Keyed} (hans : (r.keyAt tg client now).1 = .ok k)
    (hk : ∀ h, k ≠ .preempted h) (t : RouteId) :
    (r.keyAt tg client now).2.holds t client = true ↔
      r.holds t client = true ∨ t ∈ r.joined tg ∧ r.enters t client now = true := by
  have hjoin : ∀ route : Route, route.join k client (r.insisting t client now) =
      route.press client (r.insisting t client now) := by
    intro route
    cases k with
    | preempted h => exact absurd rfl (hk h)
    | _ => rfl
  by_cases ht : t ∈ r.joined tg
  · -- Every member of the patch is pressed, the pressed route among them.
    have hlookup : (r.keyAt tg client now).2.routes.lookup t =
        (r.routes.lookup t).map (·.press client (r.insisting t client now)) := by
      rw [lookup_keyAt_of_ok hans]
      simp only [ht, if_true, hjoin, ite_self]
    rw [and_iff_right ht, holds_iff, holds_iff, hlookup]
    cases hroute : r.routes.lookup t with
    | none => simp [enters, hroute]
    | some route => simp [Route.holds_press_self_iff, enters_iff hroute]
  · rw [holds_keyAt_of_not_joined ht]
    simp [ht]

/-- **FM captures the second radio.** A client that was nowhere on the air, and doubles onto a
frequency, is heard nowhere exactly when no other member of the patch lets it on: none is free, none
is an AM frequency, and none is a talkgroup of a field unit on which the client, a console, has
armed a second press. -/
theorem captured_unheard_iff (hquiet : ∀ t, ¬ r.holds t client = true)
    (hans : (r.keyAt tg client now).1 = .ok .doubled) :
    (r.keyAt tg client now).2.destinationOf client = none ↔
      ∀ t ∈ r.joined tg, t ≠ tg → r.enters t client now = false := by
  -- The pressed route is held by somebody else, and is neither AM nor a talkgroup.
  have hpressed : r.enters tg client now = false := by
    rw [keyAt_fst, keyOne_fst] at hans
    cases hroute : r.routes.lookup tg with
    | none => simp [enters, hroute]
    | some route =>
      rw [hroute] at hans
      simp only [Route.answer] at hans
      split at hans
      · exact absurd (Except.ok.inj hans) (by simp)
      next holder hkeyed =>
        split_ifs at hans with hown ham hconv
        · exact absurd (Except.ok.inj hans) (by simp)
        · exact absurd (Except.ok.inj hans) (by simp)
        · rw [← Bool.not_eq_true, enters_iff hroute]
          simp_all [Route.contested]
        · exact absurd (Except.ok.inj hans) (by simp)
  rw [destinationOf_eq_none]
  refine forall_congr' fun t => ?_
  rw [holds_keyAt_self_iff hans (by simp), or_iff_right (hquiet t), not_and, Bool.not_eq_true]
  refine imp_congr_right fun _ => ⟨fun h _ => h, fun h => ?_⟩
  by_cases ht : t = tg
  · rw [ht, hpressed]
  · exact h ht

/-- A frequency in FM on which a player talks, patched to a talkgroup that is idle, with somebody
listening on the frequency. -/
def capturing : List Op :=
  [.openConventional 0x80001234 false, .openRoute 1 false, .setMember 0x80001234 ⟨1, 9⟩ true 100,
    .keyAt 0x80001234 ⟨1, 1⟩ 0, .setPatches [[0x80001234, 1]]]

/-- The second radio doubles, and is heard across the patch by whoever listens on the frequency. -/
theorem captured_is_heard :
    (∀ t, ¬ (after capturing).holds t ⟨1, 2⟩ = true) ∧
      ((after capturing).keyAt 0x80001234 ⟨1, 2⟩ 0).1 = .ok .doubled ∧
      ((after capturing).keyAt 0x80001234 ⟨1, 2⟩ 0).2.destinationOf ⟨1, 2⟩ =
        some (1, [⟨⟨1, 9⟩, 100, .fm, true⟩]) := by
  refine ⟨?_, by decide, by decide⟩
  rw [← destinationOf_eq_none]
  decide

/-- Without the patch it is not heard. -/
theorem captured_alone_unheard :
    let r := after (capturing.dropLast)
    (r.keyAt 0x80001234 ⟨1, 2⟩ 0).2.destinationOf ⟨1, 2⟩ = none := by
  intro r
  have hquiet : ∀ t, ¬ r.holds t ⟨1, 2⟩ = true := by
    rw [← destinationOf_eq_none]
    decide
  exact (captured_unheard_iff hquiet (by decide)).mpr (by decide)

end Router

end RfxVoiced
