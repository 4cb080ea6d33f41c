import RfxVoiced.Router.Step

/-!
# The talkers of a route

Several can be up at once on an AM frequency only, and each of them should be listed once: the
holder, and beside them whoever is mixed in. Two steps can break this. Opening a frequency again in
FM keeps those who were mixed in while it was AM. And a client that is mixed in can come to be the
holder as well, once the holder has let go or has been preempted on another member of the patch:
what lets a client on does not ask whether it is on already.

## Main definitions

* `OnAir.WellFormed`, `Router.TalkersWellFormed` — each talker of a route is listed once, and
  several only in AM
* `Router.keepsTalkers` — the step is neither of the two

## Main results

* `Route.wellFormed_press_iff`, `Route.wellFormed_cede_press_iff` — a press, and a press after a
  hand-over
* `talkersWellFormed_step_iff` — exactly when a step keeps the talkers well formed
* `talkers_wellFormed_iff` — the same for runs, with what `talkersOn` lists
-/

namespace RfxVoiced

/-- Others are mixed in on an AM frequency only; none of them is listed twice, and none is the
holder. -/
structure OnAir.WellFormed (a : OnAir) : Prop where
  mixed : a.also ≠ [] → a.conventional = true ∧ a.am = true
  nodup : a.also.Nodup
  apart : ∀ h, a.keyed = some h → h ∉ a.also

namespace OnAir

variable {a : OnAir}

theorem wellFormed_of_alone (h : a.also = []) : a.WellFormed where
  mixed hne := absurd h hne
  nodup := h ▸ List.nodup_nil
  apart _ _ hmem := List.not_mem_nil (h ▸ hmem)

/-- Talkers who leave do not spoil the list of the others. -/
theorem WellFormed.thin {a' : OnAir} (ha : a.WellFormed) (h : a'.Thins a) : a'.WellFormed where
  mixed hne := by
    rw [h.conventional, h.am]
    exact ha.mixed fun halone => hne (List.sublist_nil.mp (halone ▸ h.also))
  nodup := ha.nodup.sublist h.also
  apart c hc hmem := ha.apart c (h.keyed c hc) (h.also.subset hmem)

/-- Whoever becomes the holder must not be mixed in. -/
theorem wellFormed_holder_iff (ha : a.WellFormed) (client : ClientId) :
    OnAir.WellFormed { a with keyed := some client } ↔ client ∉ a.also := by
  refine ⟨fun h => h.apart client rfl, fun hout => ⟨ha.mixed, ha.nodup, ?_⟩⟩
  rintro h hh
  obtain rfl : client = h := Option.some.inj hh
  exact hout

end OnAir

namespace Route

variable {route : Route} {client holder : ClientId} {insists : Bool}

/-- A press keeps the talkers well formed, unless the route is free and the client mixed in. -/
theorem wellFormed_press_iff (hroute : route.onAir.WellFormed) :
    (route.press client insists).onAir.WellFormed ↔
      (client ∈ route.also → route.keyed ≠ none) := by
  rcases Route.press_cases route client insists with ⟨heq, hwhy⟩ | ⟨heq, hout, hconv, ham, -, hne⟩ |
    ⟨heq, hheld, -⟩
  · have htaken : (route.press client insists).onAir.WellFormed ↔ client ∉ route.also := by
      rw [heq]
      exact OnAir.wellFormed_holder_iff hroute client
    rw [htaken]
    rcases hwhy with hfree | ⟨hc, -⟩
    · exact ⟨fun hout hmem => absurd hmem hout, fun h hmem => h hmem hfree⟩
    · -- A talkgroup: nobody is mixed in.
      obtain ⟨d, hd⟩ := Option.isSome_iff_exists.mp hc
      obtain ⟨hkeyed, hdigital, -⟩ := Route.contested_eq_some_iff.mp hd
      refine ⟨fun _ _ => by simp [hkeyed], fun _ hmem => ?_⟩
      obtain ⟨hconv, -⟩ := hroute.mixed (List.ne_nil_of_mem hmem)
      exact absurd (hdigital.symm.trans hconv) (by decide)
  · refine iff_of_true ?_ fun hmem => absurd hmem hout
    rw [heq]
    refine ⟨fun _ => ⟨hconv, ham⟩, ?_, fun h hh hmem => ?_⟩
    · exact List.nodup_append.mpr ⟨hroute.nodup, List.nodup_singleton client, by
        rintro c hc d hd rfl
        exact hout (List.mem_singleton.mp hd ▸ hc)⟩
    · rcases List.mem_append.mp hmem with hmem | hmem
      · exact hroute.apart h hh hmem
      · obtain rfl := List.mem_singleton.mp hmem
        exact hne hh
  · rw [heq]
    exact iff_of_true hroute fun _ => hheld

/-- On another member of a preempted patch, the unit that is preempted must not hold the route
either where the console is mixed in. -/
theorem wellFormed_cede_press_iff (hroute : route.onAir.WellFormed) (hne : holder ≠ client) :
    ((route.cede holder client).press client false).onAir.WellFormed ↔
      (client ∈ route.also → route.keyed ≠ none ∧ route.keyed ≠ some holder) := by
  have hmem : client ∈ (route.cede holder client).also ↔ client ∈ route.also := by
    simp [Route.cede, hne.symm]
  have hsub : ∀ c, c ∈ (route.cede holder client).also → c ∈ route.also := fun c hc =>
    List.mem_of_mem_filter hc
  have hmixed : (route.cede holder client).also ≠ [] →
      route.conventional = true ∧ route.am = true := fun halso =>
    hroute.mixed fun halone => halso (by
      have hnil : route.also = [] := halone
      simp [Route.cede, hnil])
  by_cases hheld : route.keyed = some holder
  · -- The console is the holder before it presses, and its own press does nothing.
    have hceded : (route.cede holder client).keyed = some client := if_pos hheld
    have hpress : (route.cede holder client).press client false = route.cede holder client := by
      simp [Route.press, hceded]
    rw [hpress]
    constructor
    · exact fun h hin => absurd (hmem.mpr hin) (h.apart client hceded)
    · intro h
      refine ⟨hmixed, hroute.nodup.filter _, fun d hd hin => ?_⟩
      obtain rfl : client = d := Option.some.inj (hceded.symm.trans hd)
      exact (h (hsub _ hin)).2 hheld
  · have hkept : (route.cede holder client).keyed = route.keyed := if_neg hheld
    have hcede : (route.cede holder client).onAir.WellFormed :=
      ⟨hmixed, hroute.nodup.filter _, fun d hd hin =>
        hroute.apart d (hkept.symm.trans hd) (hsub d hin)⟩
    rw [wellFormed_press_iff hcede, hmem, hkept]
    exact forall_congr' fun _ => (and_iff_left hheld).symm

end Route

namespace Router

/-- The talkers of every route are well formed. -/
def TalkersWellFormed (r : Router) : Prop := ∀ t a, r.onAir t = some a → a.WellFormed

/-- A frequency is opened again in FM only while nobody is mixed in on it. A client that is mixed in
on a route of the patch it keys finds there a holder, other than the unit it preempts. -/
def keepsTalkers (r : Router) : Op → Prop
  | .openConventional id am => am = false → ∀ a, r.onAir id = some a → a.also = []
  | .keyAt tg client now => r.accepts tg client now = true →
      ∀ t ∈ r.joined tg, ∀ a, r.onAir t = some a → client ∈ a.also →
        a.keyed ≠ none ∧ a.keyed ≠ r.contested tg client
  | _ => True

variable {r r' : Router} {t tg : RouteId} {client : ClientId} {now : Instant} {k : Keyed}

theorem talkersWellFormed_empty : Router.empty.TalkersWellFormed := by
  intro t a h
  simp [onAir, Router.empty] at h

/-- Opening a frequency again keeps the talkers well formed, unless it turns to FM under those who
are mixed in. -/
theorem talkersWellFormed_openConventional_iff (hr : r.TalkersWellFormed) (id : RouteId)
    (am : Bool) :
    (r.openConventional id am).2.TalkersWellFormed ↔
      r.keepsTalkers (.openConventional id am) := by
  constructor
  · rintro h rfl a ha
    have hopened : (r.openConventional id false).2.onAir id =
        some { a with conventional := true, am := false } := by
      rw [onAir_openConventional, if_pos rfl, ha, Option.getD_some]
    by_contra halso
    exact absurd ((h id _ hopened).mixed halso).2 (by simp)
  · intro h t a' ha'
    rw [onAir_openConventional] at ha'
    split_ifs at ha' with ht
    · subst ht
      obtain rfl := Option.some.inj ha'
      cases ha : r.onAir t with
      | none => exact OnAir.wellFormed_of_alone rfl
      | some a =>
        rw [Option.getD_some]
        cases am with
        | false => exact OnAir.wellFormed_of_alone (h rfl a ha)
        | true => exact ⟨fun _ => ⟨rfl, rfl⟩, (hr t a ha).nodup, (hr t a ha).apart⟩
    · exact hr t a' ha'

/-- What the request does to one route of the patch keeps its talkers well formed, unless the client
is mixed in there and finds the route free, or held by the unit that it preempts. -/
theorem wellFormed_keyAt_iff {route route' : Route} (hr : r.TalkersWellFormed)
    (hans : (r.keyAt tg client now).1 = .ok k) (ht : t ∈ r.joined tg)
    (hroute : r.routes.lookup t = some route)
    (hroute' : (r.keyAt tg client now).2.routes.lookup t = some route') :
    route'.onAir.WellFormed ↔
      (client ∈ route.also → route.keyed ≠ none ∧ route.keyed ≠ r.contested tg client) := by
  have hwf : route.onAir.WellFormed := hr t route.onAir (by rw [onAir, hroute, Option.map_some])
  rw [lookup_keyAt_of_ok hans, hroute] at hroute'
  simp only [ht, if_true, Option.map_some] at hroute'
  rcases keyAt_cases r tg client now with ⟨-, hnone, k', hk', hok⟩ | ⟨holder, hc, -, hpre⟩ |
    ⟨_, -, -, herr⟩ | ⟨-, -, e, -, herr⟩
  · -- Nobody is preempted: every member of the patch is pressed.
    obtain rfl : k = k' := Except.ok.inj (hans.symm.trans hok)
    have hjoin : route.join k client (r.insisting t client now) =
        route.press client (r.insisting t client now) := by
      cases k with
      | preempted h => exact absurd rfl (hk' h)
      | _ => rfl
    rw [hjoin, ite_self] at hroute'
    obtain rfl := Option.some.inj hroute'
    rw [Route.wellFormed_press_iff hwf, hnone]
    exact forall_congr' fun _ => (and_self_iff).symm
  · obtain rfl : k = .preempted holder := Except.ok.inj (hans.symm.trans hpre)
    obtain ⟨pressed, hpressed, hcr⟩ := contested_eq_some_iff.mp hc
    obtain ⟨-, hdigital, hconsole, hfield⟩ := Route.contested_eq_some_iff.mp hcr
    rw [hc]
    by_cases htg : t = tg
    · -- The pressed route is a talkgroup, where nobody is mixed in.
      subst htg
      obtain rfl : route = pressed := Option.some.inj (hroute.symm.trans hpressed)
      rw [if_pos rfl] at hroute'
      obtain rfl := Option.some.inj hroute'
      have halone : client ∉ route.also := fun hmem => by
        obtain ⟨hconv, -⟩ := hwf.mixed (List.ne_nil_of_mem hmem)
        exact absurd (hdigital.symm.trans hconv) (by decide)
      rw [Route.wellFormed_press_iff hwf]
      exact iff_of_true (fun hmem => absurd hmem halone) fun hmem => absurd hmem halone
    · rw [if_neg htg] at hroute'
      obtain rfl := Option.some.inj hroute'
      exact Route.wellFormed_cede_press_iff hwf (ClientId.ne_of_isConsole hconsole hfield)
  · -- A refusal grants nothing.
    exact absurd (hans.symm.trans herr) (by simp)
  · exact absurd (hans.symm.trans herr) (by simp)

theorem talkersWellFormed_keyAt_iff (hr : r.TalkersWellFormed) (tg : RouteId) (client : ClientId)
    (now : Instant) :
    (r.keyAt tg client now).2.TalkersWellFormed ↔ r.keepsTalkers (.keyAt tg client now) := by
  cases hans : (r.keyAt tg client now).1 with
  | error e =>
    refine iff_of_true (fun t a ha => ?_) fun haccepts => ?_
    · rw [onAir, lookup_keyAt_of_error hans] at ha
      exact hr t a ha
    · obtain ⟨k, hk⟩ := accepts_iff.mp haccepts
      exact absurd (hans.symm.trans hk) (by simp)
  | ok k =>
    constructor
    · rintro h - t ht a ha
      obtain ⟨route, hroute, rfl⟩ := Option.map_eq_some_iff.mp ha
      obtain ⟨route', hroute'⟩ : ∃ route',
          (r.keyAt tg client now).2.routes.lookup t = some route' := by
        rw [lookup_keyAt_of_ok hans, hroute]
        split_ifs <;> exact ⟨_, rfl⟩
      exact (wellFormed_keyAt_iff hr hans ht hroute hroute').mp
        (h t route'.onAir (by rw [onAir, hroute', Option.map_some]))
    · -- On the patch each route answers for itself, and off it nothing has changed.
      intro h t a' ha'
      by_cases ht : t ∈ r.joined tg
      · obtain ⟨route', hroute', rfl⟩ := Option.map_eq_some_iff.mp ha'
        obtain ⟨route, hroute⟩ : ∃ route, r.routes.lookup t = some route := by
          have hlisted := hroute'
          rw [lookup_keyAt_of_ok hans] at hlisted
          simp only [ht, if_true] at hlisted
          cases hroute : r.routes.lookup t with
          | none => rw [hroute] at hlisted; split_ifs at hlisted <;> simp at hlisted
          | some route => exact ⟨route, rfl⟩
        exact (wellFormed_keyAt_iff hr hans ht hroute hroute').mpr
          (h (accepts_iff.mpr ⟨k, hans⟩) t ht route.onAir (by rw [onAir, hroute, Option.map_some]))
      · rw [onAir, lookup_keyAt_of_not_joined ht] at ha'
        exact hr t a' ha'

/-- One step keeps the talkers well formed exactly under the condition. -/
theorem talkersWellFormed_step_iff (hr : r.TalkersWellFormed) (op : Op) :
    (step r op).TalkersWellFormed ↔ r.keepsTalkers op := by
  by_cases hopen : ∃ id am, op = .openConventional id am
  · obtain ⟨id, am, rfl⟩ := hopen
    exact talkersWellFormed_openConventional_iff hr id am
  by_cases hkey : ∃ tg client now, op = .keyAt tg client now
  · obtain ⟨tg, client, now, rfl⟩ := hkey
    exact talkersWellFormed_keyAt_iff hr tg client now
  have hopen : ∀ id am, op ≠ .openConventional id am := fun id am heq => hopen ⟨id, am, heq⟩
  have hkey : ∀ tg client now, op ≠ .keyAt tg client now := fun tg client now heq =>
    hkey ⟨tg, client, now, heq⟩
  have hkeeps : r.keepsTalkers op := by
    cases op with
    | openConventional id am => exact absurd rfl (hopen id am)
    | keyAt tg client now => exact absurd rfl (hkey tg client now)
    | _ => trivial
  -- Every other call leaves a route as it was, takes talkers off it, or lists it anew.
  refine iff_of_true (fun t a' ha' => ?_) hkeeps
  rcases onAir_step_of_thins hkey hopen ha' with ⟨a, ha, hthins⟩ | ⟨-, -, halone, -⟩
  · exact (hr t a ha).thin hthins
  · exact OnAir.wellFormed_of_alone halone

/-- Where the talkers are well formed, each of them is listed exactly once. -/
theorem TalkersWellFormed.count_talkersOn (hr : r.TalkersWellFormed)
    (h : r.holds t client = true) : (r.talkersOn t).count client = 1 := by
  refine List.count_eq_one_of_mem ?_ (mem_talkersOn.mpr h)
  obtain ⟨route, hroute, -⟩ := holds_iff.mp h
  have hwf : route.onAir.WellFormed := hr t route.onAir (by rw [onAir, hroute, Option.map_some])
  simp only [talkersOn, hroute]
  cases hkeyed : route.keyed with
  | none => exact hwf.nodup
  | some holder =>
    rw [Option.toList_some, List.singleton_append, List.nodup_cons]
    exact ⟨hwf.apart holder hkeyed, hwf.nodup⟩

/-- **The talkers of a route.** Throughout a run they are well formed on every route, and
`talkersOn` lists each of them exactly once, exactly when no step of the run opens a frequency in FM
under those mixed in on it, or lets on as the holder a client that is mixed in. -/
theorem talkers_wellFormed_iff (ops : List Op) :
    (∀ pre, pre <+: ops → (after pre).TalkersWellFormed ∧
      ∀ t c, (after pre).holds t c = true → ((after pre).talkersOn t).count c = 1) ↔
    Along step keepsTalkers Router.empty ops := by
  have hrun : (∀ pre, pre <+: ops → (run step Router.empty pre).TalkersWellFormed) ↔
      Along step keepsTalkers Router.empty ops :=
    forall_prefix_iff_along (P := TalkersWellFormed) (B := fun _ => True) (fun _ _ _ => trivial)
      (fun _ op _ hs => talkersWellFormed_step_iff hs op) trivial talkersWellFormed_empty ops
  rw [← hrun]
  refine forall₂_congr fun pre _ => ?_
  exact and_iff_left_of_imp fun h t c hheld => h.count_talkersOn hheld

/-- On an AM frequency one player keys, a second is mixed in, and the first lets go; then the second
keys again. -/
def mixedRekeys : List Op :=
  [.openConventional 0x80107ac0 true, .keyAt 0x80107ac0 ⟨1, 1⟩ 0, .keyAt 0x80107ac0 ⟨1, 2⟩ 0,
    .unkeyAs 0x80107ac0 ⟨1, 1⟩, .keyAt 0x80107ac0 ⟨1, 2⟩ 0]

/-- The second player is now the holder and mixed in as well, and is listed twice. -/
theorem mixed_is_listed_twice :
    (after mixedRekeys).onAir 0x80107ac0 = some ⟨some ⟨1, 2⟩, [⟨1, 2⟩], true, true⟩ ∧
      (after mixedRekeys).talkersOn 0x80107ac0 = [⟨1, 2⟩, ⟨1, 2⟩] := by decide

/-- The other way: a frequency that is opened again in FM keeps whom it mixed in. -/
example :
    (after [.openConventional 0x80107ac0 true, .keyAt 0x80107ac0 ⟨1, 1⟩ 0,
      .keyAt 0x80107ac0 ⟨1, 2⟩ 0, .openConventional 0x80107ac0 false]).onAir 0x80107ac0 =
        some ⟨some ⟨1, 1⟩, [⟨1, 2⟩], true, false⟩ := by
  decide

end Router

end RfxVoiced
