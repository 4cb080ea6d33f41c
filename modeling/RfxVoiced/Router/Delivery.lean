import RfxVoiced.Router.Channel
import RfxVoiced.Router.Listening

/-!
# Digital does not double at the ear

A speaker is delivered to every listening member of the patch they are heard on, so two speakers of
one patch reach the same ears. On digital that must not happen. What prevents it is that a patch
with a talkgroup in it has one speaker at a time. A key request keeps it so, except where the
channel was entered sideways: through a route of the patch that is free, mixes, or can be
preempted, while somebody is already talking on another one. That state of affairs, and the patch
edit that leads to it, are accepted behaviour of the router; the invariant is about runs without
them.

## Main definitions

* `Router.speakers` — everybody transmitting on a patch
* `Router.OneSpeaker` — a patch with a talkgroup in it has at most one speaker
* `Router.keepsOneSpeaker` — the call brings no second speaker into such a patch
* `Router.DoublesOnDigital` — two speakers of one patch reach the same listener digitally

## Main results

* `oneSpeaker_step` — what one call preserves
* `digital_does_not_double` — along such runs nobody hears two speakers of one patch digitally
-/

namespace RfxVoiced

namespace Router

/-- Everybody transmitting on a patch. -/
def speakers (r : Router) (tg : RouteId) : List ClientId := (r.joined tg).flatMap r.talkersOn

/-- The route exists, and is not a frequency. -/
def isTalkgroup (r : Router) (t : RouteId) : Bool :=
  (r.routes.lookup t).any fun route => !route.conventional

/-- The patch has a talkgroup in it. -/
def hasDigital (r : Router) (tg : RouteId) : Bool := (r.joined tg).any r.isTalkgroup

/-- A patch with a talkgroup in it has at most one speaker. -/
def OneSpeaker (r : Router) : Prop :=
  ∀ tg, r.hasDigital tg = true → ∀ a ∈ r.speakers tg, ∀ b ∈ r.speakers tg, a = b

/-- A press would put the client on this route, unless it is there already. -/
def enters (r : Router) (t : RouteId) (client : ClientId) (now : Instant) : Bool :=
  (r.routes.lookup t).any fun route =>
    route.keyed.isNone || route.conventional && route.am ||
      (route.contested client).isSome && r.insisting t client now

/-- The call brings no second speaker into a patch with a talkgroup in it.

An accepted key request there finds nobody transmitting but the client, and the unit it preempts on
the pressed route; or else it finds no route of the patch to enter. A new patch table joins no two
speakers in such a patch, and neither does the arrival of a new talkgroup. -/
def keepsOneSpeaker (r : Router) : Op → Prop
  | .keyAt tg client now =>
    r.accepts tg client now = true → r.hasDigital tg = true →
      (∀ a ∈ r.speakers tg, a = client ∨ r.contested tg client = some a) ∨
        ∀ t ∈ r.joined tg, r.enters t client now = false
  | .setPatches groups =>
    ∀ t ∈ r.routes.keys, ∀ u ∈ r.routes.keys, u ∈ Groups.component groups t →
      (Groups.component groups t).any r.isTalkgroup = true →
        ∀ a ∈ r.talkersOn t, ∀ b ∈ r.talkersOn u, a = b
  | .openRoute tg _ =>
    r.routes.lookup tg = none → ∀ a ∈ r.speakers tg, ∀ b ∈ r.speakers tg, a = b
  | .setMember tg _ _ _ =>
    r.routes.lookup tg = none → (classify tg).1 = false →
      ∀ a ∈ r.speakers tg, ∀ b ∈ r.speakers tg, a = b
  | _ => True

instance (r : Router) (op : Op) : Decidable (keepsOneSpeaker r op) :=
  match op with
  | .keyAt tg client now =>
    inferInstanceAs (Decidable (_ → _ →
      (∀ a ∈ r.speakers tg, a = client ∨ r.contested tg client = some a) ∨
        ∀ t ∈ r.joined tg, r.enters t client now = false))
  | .setPatches groups =>
    inferInstanceAs (Decidable (∀ t ∈ r.routes.keys, ∀ u ∈ r.routes.keys,
      u ∈ Groups.component groups t → _ → ∀ a ∈ r.talkersOn t, ∀ b ∈ r.talkersOn u, a = b))
  | .openRoute tg _ =>
    inferInstanceAs (Decidable (_ → ∀ a ∈ r.speakers tg, ∀ b ∈ r.speakers tg, a = b))
  | .setMember tg _ _ _ =>
    inferInstanceAs (Decidable (_ → _ → ∀ a ∈ r.speakers tg, ∀ b ∈ r.speakers tg, a = b))
  | .openConventional .. | .close .. | .bind .. | .unbind .. | .dropServer .. | .unkeyAs ..
  | .unkey .. | .forgetMembership .. | .forgetClient .. => inferInstanceAs (Decidable True)

/-- Two different speakers, heard on one patch, reach the same listener digitally. -/
def DoublesOnDigital (r : Router) : Prop :=
  ∃ a b ta tb la lb, a ≠ b ∧ r.destinationOf a = some (ta, la) ∧
    r.destinationOf b = some (tb, lb) ∧ tb ∈ r.joined ta ∧ ta ∈ r.joined tb ∧
    ∃ x ∈ la, ∃ y ∈ lb, x.client = y.client ∧ x.mode = .p25 ∧ y.mode = .p25

section Speakers

variable {r : Router} {tg t u : RouteId} {a b client : ClientId} {now : Instant}

theorem mem_speakers : a ∈ r.speakers tg ↔ ∃ t ∈ r.joined tg, r.holds t a = true := by
  simp only [speakers, List.mem_flatMap, mem_talkersOn]

theorem isTalkgroup_iff_onAir :
    r.isTalkgroup t = true ↔ ∃ a, r.onAir t = some a ∧ a.conventional = false := by
  unfold isTalkgroup onAir
  cases r.routes.lookup t <;> simp [Route.onAir]

theorem isTalkgroup_of_lookup {route : Route} (h : r.routes.lookup t = some route) :
    r.isTalkgroup t = !route.conventional := by
  simp [isTalkgroup, h]

theorem hasDigital_iff :
    r.hasDigital tg = true ↔ ∃ t ∈ r.joined tg, r.isTalkgroup t = true := List.any_eq_true

theorem speakers_congr (h : u ∈ r.joined tg) : a ∈ r.speakers u ↔ a ∈ r.speakers tg := by
  simp only [mem_speakers, mem_joined_congr h]

theorem hasDigital_congr (h : u ∈ r.joined tg) :
    r.hasDigital u = true ↔ r.hasDigital tg = true := by
  simp only [hasDigital_iff, mem_joined_congr h]

theorem mode_eq_p25_iff {route : Route} : route.mode = .p25 ↔ route.conventional = false := by
  unfold Route.mode
  cases route.conventional <;> cases route.am <;> simp

/-- While every digital patch has one speaker, nobody hears two of them digitally. -/
theorem not_doublesOnDigital_of_oneSpeaker (h : r.OneSpeaker) : ¬ r.DoublesOnDigital := by
  rintro ⟨a, b, ta, tb, la, lb, hne, ha, hb, htb, -, x, hx, y, -, -, hmode, -⟩
  obtain ⟨ta', hta, heq⟩ := Option.map_eq_some_iff.mp ha
  obtain ⟨rfl, rfl⟩ := Prod.mk.inj heq
  obtain ⟨tb', hdest, heq'⟩ := Option.map_eq_some_iff.mp hb
  obtain ⟨rfl, rfl⟩ := Prod.mk.inj heq'
  obtain ⟨t, ht, route, m, hroute, -, -, -, -, hmode', -⟩ := mem_listenersAcross hx
  have hdigital : r.hasDigital ta' = true :=
    hasDigital_iff.mpr ⟨t, ht, by
      rw [isTalkgroup_of_lookup hroute, mode_eq_p25_iff.mp (hmode'.symm.trans hmode)]
      rfl⟩
  refine hne (h ta' hdigital a ?_ b ?_)
  · exact mem_speakers.mpr ⟨ta', mem_joined_self r ta', destinationRoute_holds hta⟩
  · exact mem_speakers.mpr ⟨tb', htb, destinationRoute_holds hdest⟩

end Speakers

/-! ### What one call can bring in -/

section Steps

variable {r r' : Router} {t tg : RouteId}

/-- A call that joins nothing and puts nobody on the air keeps one speaker, if every talkgroup that
arrives in a patch finds at most one speaker there. -/
theorem OneSpeaker.of_arrivals (h : r.OneSpeaker) (hpatches : r'.patches = r.patches)
    (hholds : ∀ t d, r'.holds t d = true → r.holds t d = true)
    (hdigital : ∀ t, r'.isTalkgroup t = true → r.isTalkgroup t = true ∨
      ∀ a ∈ r.speakers t, ∀ b ∈ r.speakers t, a = b) : r'.OneSpeaker := by
  have hsame : ∀ u, r'.joined u = r.joined u := fun u => by rw [joined, hpatches, joined]
  have hspeakers : ∀ u a, a ∈ r'.speakers u → a ∈ r.speakers u := by
    intro u a ha
    obtain ⟨t, ht, hheld⟩ := mem_speakers.mp ha
    exact mem_speakers.mpr ⟨t, hsame u ▸ ht, hholds t a hheld⟩
  intro u hdig a ha b hb
  obtain ⟨t, ht, htalk⟩ := hasDigital_iff.mp hdig
  rw [hsame] at ht
  rcases hdigital t htalk with hwas | hfew
  · exact h u (hasDigital_iff.mpr ⟨t, ht, hwas⟩) a (hspeakers u a ha) b (hspeakers u b hb)
  · refine hfew a ?_ b ?_
    · exact (speakers_congr ht).mpr (hspeakers u a ha)
    · exact (speakers_congr ht).mpr (hspeakers u b hb)

/-- A call other than a key request makes no talkgroup, unless it lists a new one. -/
theorem isTalkgroup_step {op : Op} (hop : ∀ tg client now, op ≠ .keyAt tg client now)
    (h : (step r op).isTalkgroup t = true) :
    r.isTalkgroup t = true ∨ r.routes.lookup t = none ∧ op.lists t false := by
  obtain ⟨a', ha', hconv⟩ := isTalkgroup_iff_onAir.mp h
  rcases onAir_step hop ha' with ⟨a, ha, hwithin⟩ | ⟨hnone, -, -, hlists⟩
  · exact Or.inl (isTalkgroup_iff_onAir.mpr ⟨a, ha, hwithin.digital hconv⟩)
  · exact Or.inr ⟨Option.map_eq_none_iff.mp hnone, hconv ▸ hlists⟩

theorem isTalkgroup_keyAt {client : ClientId} {now : Instant} :
    (r.keyAt tg client now).2.isTalkgroup t = r.isTalkgroup t := by
  cases hans : (r.keyAt tg client now).1 with
  | error e => rw [isTalkgroup, lookup_keyAt_of_error hans, isTalkgroup]
  | ok k =>
    rw [isTalkgroup, lookup_keyAt_of_ok hans, isTalkgroup]
    cases r.routes.lookup t with
    | none => simp
    | some route => split_ifs <;> simp

end Steps

/-! ### Key requests -/

section KeyAt

variable {r : Router} {tg t : RouteId} {client a : ClientId} {now : Instant}

/-- A preempted unit is off every route of the patch. -/
theorem not_holds_preempted (hr : r.DigitalAlone) {holder : ClientId}
    (hpre : r.contested tg client = some holder)
    (hans : (r.keyAt tg client now).1 = .ok (.preempted holder)) (ht : t ∈ r.joined tg) :
    ¬ (r.keyAt tg client now).2.holds t holder = true := by
  obtain ⟨x, hx, hc⟩ := contested_eq_some_iff.mp hpre
  obtain ⟨-, hdigital, hconsole, hfield⟩ := Route.contested_eq_some_iff.mp hc
  have hne : holder ≠ client := ClientId.ne_of_isConsole hconsole hfield
  intro hheld
  obtain ⟨route', hroute', hholds⟩ := holds_iff.mp hheld
  by_cases htg : t = tg
  · -- The pressed route is the console's now, and nobody is mixed in on a talkgroup.
    subst htg
    have hkeyed := keyed_keyAt_of_preempted hans hpre ht hx
      (Route.contested_eq_some_iff.mp hc).1 hroute'
    have hconv : route'.conventional = false := by
      obtain ⟨y, hy, hcy⟩ := lookup_of_lookup_keyAt hroute'
      obtain rfl := Option.some.inj (hx.symm.trans hy)
      exact hcy.symm.trans hdigital
    have halone : route'.also = [] :=
      digitalAlone_keyAt hr t client now t route'.onAir (by simp [onAir, hroute']) hconv
    rcases hholds with hk | hmem
    · exact hne (Option.some.inj (hk.symm.trans hkeyed))
    · rw [halone] at hmem
      exact absurd hmem List.not_mem_nil
  · -- The hand-over takes the unit off before the member is pressed, by another client.
    rw [lookup_keyAt_of_ok hans, if_neg htg, if_pos ht] at hroute'
    obtain ⟨route, -, rfl⟩ := Option.map_eq_some_iff.mp hroute'
    rcases Route.holds_of_holds_press hne hholds with hk | hmem
    · simp only [Route.cede] at hk
      split_ifs at hk with hheld'
      · exact hne (Option.some.inj hk).symm
      · exact hheld' hk
    · simp [Route.cede] at hmem

/-- Where there is nothing to enter, an accepted request leaves everybody where they were. -/
theorem holds_keyAt_of_nothing_to_enter (hno : ∀ t ∈ r.joined tg, r.enters t client now = false)
    (t : RouteId) : (r.keyAt tg client now).2.holds t a = r.holds t a := by
  by_cases ht : t ∈ r.joined tg
  · rcases keyAt_cases r tg client now with ⟨ho, -⟩ | ⟨holder, hc, hi, -⟩ | ⟨_, -, -, hans⟩ |
      ⟨-, -, e, -, hans⟩
    · refine holds_congr ?_ a
      rw [onAir, onAir, lookup_keyAt_of_opens ho ht]
      cases hroute : r.routes.lookup t with
      | none => rfl
      | some route =>
        -- The route is neither free nor a frequency in AM, and nobody is preempted on it.
        have hshut : route.keyed ≠ none ∧ ¬ (route.conventional = true ∧ route.am = true) ∧
            ¬ ((route.contested client).isSome = true ∧ r.insisting t client now = true) := by
          simpa [enters, hroute, not_or, and_assoc, Option.isSome_iff_ne_none] using hno t ht
        rcases Route.press_cases route client (r.insisting t client now) with
          ⟨-, hfree | hpre⟩ | ⟨-, -, hconv, ham, -⟩ | ⟨heq, -⟩
        · exact absurd hfree hshut.1
        · exact absurd hpre hshut.2.2
        · exact absurd ⟨hconv, ham⟩ hshut.2.1
        · rw [Option.map_some, heq]
    · have hin := hno tg (mem_joined_self r tg)
      obtain ⟨route, hroute, hcr⟩ := contested_eq_some_iff.mp hc
      simp [enters, hroute, hcr, hi] at hin
    · exact holds_keyAt_of_error hans t a
    · exact holds_keyAt_of_error hans t a
  · exact holds_keyAt_of_not_joined ht a

/-- After an accepted request, whoever is still on the patch is the client, if nobody else was on it
but the unit preempted on the pressed route. -/
theorem eq_of_mem_speakers_keyAt (hr : r.DigitalAlone) {k : Keyed}
    (hans : (r.keyAt tg client now).1 = .ok k)
    (hfew : ∀ a ∈ r.speakers tg, a = client ∨ r.contested tg client = some a)
    (ha : a ∈ (r.keyAt tg client now).2.speakers tg) : a = client := by
  obtain ⟨t, ht, hheld⟩ := mem_speakers.mp ha
  rw [keyAt_joined] at ht
  by_contra hne
  rcases hfew a (mem_speakers.mpr ⟨t, ht, holds_of_holds_keyAt hne hheld⟩) with heq | hc
  · exact hne heq
  · obtain ⟨rfl, -⟩ := preempted_of_contested hc hans
    exact not_holds_preempted hr hc hans ht hheld

theorem oneSpeaker_keyAt (hr : r.DigitalAlone) (h : r.OneSpeaker)
    (hop : keepsOneSpeaker r (.keyAt tg client now)) :
    (r.keyAt tg client now).2.OneSpeaker := by
  cases hans : (r.keyAt tg client now).1 with
  | error e =>
    refine h.of_arrivals (keyAt_patches r tg client now) (fun t d ht => ?_) fun t ht => ?_
    · rwa [holds_keyAt_of_error hans] at ht
    · rw [isTalkgroup_keyAt] at ht
      exact Or.inl ht
  | ok k =>
    intro u hdig a ha b hb
    have hdig' : r.hasDigital u = true := by
      obtain ⟨t, ht, htalk⟩ := hasDigital_iff.mp hdig
      rw [keyAt_joined] at ht
      rw [isTalkgroup_keyAt] at htalk
      exact hasDigital_iff.mpr ⟨t, ht, htalk⟩
    by_cases hu : u ∈ r.joined tg
    -- On the patch that is pressed, either nobody else was speaking, or nobody comes in.
    · have hu' : u ∈ (r.keyAt tg client now).2.joined tg := by rwa [keyAt_joined]
      rw [speakers_congr hu'] at ha hb
      rcases hop (accepts_iff.mpr ⟨k, hans⟩) ((hasDigital_congr hu).mp hdig') with hfew | hno
      · rw [eq_of_mem_speakers_keyAt hr hans hfew ha, eq_of_mem_speakers_keyAt hr hans hfew hb]
      · have hback : ∀ d, d ∈ (r.keyAt tg client now).2.speakers tg → d ∈ r.speakers tg := by
          intro d hd
          obtain ⟨t, ht, hheld⟩ := mem_speakers.mp hd
          rw [keyAt_joined] at ht
          rw [holds_keyAt_of_nothing_to_enter hno] at hheld
          exact mem_speakers.mpr ⟨t, ht, hheld⟩
        exact h tg ((hasDigital_congr hu).mp hdig') a (hback a ha) b (hback b hb)
    · -- Another patch, which the request does not reach.
      have hback : ∀ d, d ∈ (r.keyAt tg client now).2.speakers u → d ∈ r.speakers u := by
        intro d hd
        obtain ⟨t, ht, hheld⟩ := mem_speakers.mp hd
        rw [keyAt_joined] at ht
        have hout : t ∉ r.joined tg := fun hin =>
          hu ((mem_joined_congr hin u).mp (mem_joined_comm.mp ht))
        rw [holds_keyAt_of_not_joined hout] at hheld
        exact mem_speakers.mpr ⟨t, ht, hheld⟩
      exact h u hdig' a (hback a ha) b (hback b hb)

end KeyAt

/-! ### Runs -/

theorem oneSpeaker_empty : Router.empty.OneSpeaker := by
  intro tg _ a ha
  obtain ⟨t, -, hheld⟩ := mem_speakers.mp ha
  exact absurd hheld (by simp)

/-- A new patch table that joins no two speakers in a digital patch keeps one speaker there. -/
theorem oneSpeaker_setPatches {r : Router} {groups : List (List RouteId)}
    (hop : keepsOneSpeaker r (.setPatches groups)) : (r.setPatches groups).OneSpeaker := by
  intro tg hdig a ha b hb
  obtain ⟨t, ht, hat⟩ := mem_speakers.mp ha
  obtain ⟨u, hu, hbu⟩ := mem_speakers.mp hb
  have hut : u ∈ Groups.component groups t := (Groups.mem_component_congr ht u).mpr hu
  have hdigital : (Groups.component groups t).any r.isTalkgroup = true :=
    (hasDigital_congr (r := r.setPatches groups) ht).mpr hdig
  exact hop t (mem_keys_of_holds hat) u (mem_keys_of_holds hbu) hut hdigital a
    (mem_talkersOn.mpr hat) b (mem_talkersOn.mpr hbu)

/-- A call that brings no second speaker into a digital patch keeps one speaker there. -/
theorem oneSpeaker_step {r : Router} (hr : r.DigitalAlone) (h : r.OneSpeaker) {op : Op}
    (hop : keepsOneSpeaker r op) : (step r op).OneSpeaker := by
  by_cases hkey : ∃ tg client now, op = .keyAt tg client now
  · obtain ⟨tg, client, now, rfl⟩ := hkey
    exact oneSpeaker_keyAt hr h hop
  by_cases hpatch : ∃ groups, op = .setPatches groups
  · obtain ⟨groups, rfl⟩ := hpatch
    exact oneSpeaker_setPatches hop
  have hne : ∀ tg client now, op ≠ .keyAt tg client now := fun tg client now heq =>
    hkey ⟨tg, client, now, heq⟩
  refine h.of_arrivals (patches_step fun groups heq => hpatch ⟨groups, heq⟩)
    (fun t d ht => holds_step hne ht) fun t ht => ?_
  rcases isTalkgroup_step hne ht with hwas | ⟨hnone, hlists⟩
  · exact Or.inl hwas
  · -- Two calls list a talkgroup; a frequency is listed as one.
    cases op with
    | openRoute tg encrypted =>
      obtain ⟨rfl, -⟩ := hlists
      exact Or.inr (hop hnone)
    | setMember tg client listen quality =>
      obtain ⟨rfl, hclass⟩ := hlists
      exact Or.inr (hop hnone hclass.symm)
    | openConventional id am => exact absurd hlists.2 (by decide)
    | _ => exact hlists.elim

/-- **Digital does not double at the ear**, in any state reached by calls that bring no second
speaker into a patch with a talkgroup in it. -/
theorem digital_does_not_double (ops : List Op)
    (h : Along step keepsOneSpeaker Router.empty ops) : ¬ (after ops).DoublesOnDigital := by
  have hboth : (after ops).DigitalAlone ∧ (after ops).OneSpeaker :=
    run_induction (P := fun r => r.DigitalAlone ∧ r.OneSpeaker)
      (fun r op hop hr => ⟨digitalAlone_step hr.1 op, oneSpeaker_step hr.1 hr.2 hop⟩)
      ⟨digitalAlone_empty, oneSpeaker_empty⟩ h
  exact not_doublesOnDigital_of_oneSpeaker hboth.2

/-- A field unit talks on a patch of two talkgroups, and a console takes the patch from it. -/
def oneSpeakerRun : List Op :=
  [.openRoute 1001 false, .openRoute 4001 false, .setMember 1001 ⟨1, 5⟩ true 100,
    .setMember 4001 ⟨1, 6⟩ true 100, .setPatches [[1001, 4001]], .keyAt 4001 ⟨1, 7⟩ 0,
    .keyAt 1001 ⟨0, 9⟩ 1, .keyAt 1001 ⟨0, 9⟩ 2]

theorem oneSpeakerRun_does_not_double :
    Along step keepsOneSpeaker Router.empty oneSpeakerRun ∧
      ¬ (after oneSpeakerRun).DoublesOnDigital :=
  ⟨by decide, digital_does_not_double oneSpeakerRun (by decide)⟩

/-- Two talkgroups are patched together while a unit is talking on the first, and another unit keys
the second. -/
def lateKeyRun : List Op :=
  [.openRoute 1001 false, .openRoute 4001 false, .setMember 1001 ⟨1, 5⟩ true 100,
    .keyAt 1001 ⟨1, 7⟩ 0, .setPatches [[1001, 4001]], .keyAt 4001 ⟨1, 8⟩ 1]

/-- A listener on the first talkgroup now hears both of them. -/
theorem lateKeyRun_doubles : (after lateKeyRun).DoublesOnDigital :=
  ⟨⟨1, 7⟩, ⟨1, 8⟩, 1001, 4001, [⟨⟨1, 5⟩, 100, .p25, false⟩], [⟨⟨1, 5⟩, 100, .p25, true⟩],
    by decide⟩

end Router

end RfxVoiced
