import RfxVoiced.Router.Preemption

/-!
# Preemption takes two presses

The first press of a console on a busy talkgroup is refused and arms a second one; the second press
takes the talkgroup, while the first is recent enough. An armed press should therefore be the trace
of a refusal, and of the last thing that happened to its button. It is, along runs in which a
request arms no route but the one it presses, and leaves no armed press behind on that one.

## Main definitions

* `Router.lastPress` — the last request of a client for a route, and its answer
* `Router.TwoPresses` — a console that takes a route from a field unit was refused it just before
* `Router.pressesTwice` — the request arms the pressed route only, and leaves no armed press behind

## Main results

* `pending_keyAt_self`, `pending_keyAt_of_opens`, `pending_keyAt_of_preempted` — what a request does
  to the armed presses
* `armed_after` — an armed press is the trace of the last press, or is too old to count
* `preemption_takes_two_presses` — along such runs, preemption takes two presses
-/

namespace RfxVoiced

namespace Router

/-! ### The armed presses, request by request -/

section Pending

variable {r : Router} {tg t : RouteId} {client d : ClientId} {now : Instant}

theorem pending_handOver_of_ne (r : Router) (holder : ClientId) (other : RouteId)
    (hd : d ≠ client) : (handOver r holder client other).pending.lookup (t, d) =
      r.pending.lookup (t, d) := by
  rw [handOver, Table.lookup_erase, if_neg]
  simp [hd]

theorem pending_keyOne_of_ne (r : Router) (tg : RouteId) (now : Instant) (hd : d ≠ client) :
    (r.keyOne tg client now).2.pending.lookup (t, d) = r.pending.lookup (t, d) := by
  rw [pending_keyOne, if_neg]
  simp [hd]

/-- A key request arms nobody but its own client. -/
theorem pending_keyAt_of_ne (hd : d ≠ client) :
    (r.keyAt tg client now).2.pending.lookup (t, d) = r.pending.lookup (t, d) := by
  cases hans : (r.keyAt tg client now).1 with
  | error e => rw [keyAt_of_error hans, pending_keyOne_of_ne r tg now hd]
  | ok k =>
    rw [keyAt_of_ok hans]
    refine takeSiblings_induction
      (P := fun s => s.pending.lookup (t, d) = r.pending.lookup (t, d)) ?_ ?_ ?_
    · exact fun s holder u hs => (pending_handOver_of_ne s holder u hd).trans hs
    · exact fun s u hs => (pending_keyOne_of_ne s u now hd).trans hs
    · exact pending_keyOne_of_ne r tg now hd

/-- On the pressed route, a request that contests it spends the armed press, or arms one. -/
theorem pending_keyAt_self :
    (r.keyAt tg client now).2.pending.lookup (tg, client) =
      if (r.contested tg client).isSome then
        if r.insisting tg client now then none else some now
      else r.pending.lookup (tg, client) := by
  cases hans : (r.keyAt tg client now).1 with
  | error e => simp [keyAt_of_error hans, pending_keyOne]
  | ok k =>
    have hseen := congrArg Prod.snd (seen_keyAt_of_ok hans tg)
    rw [if_pos rfl] at hseen
    exact hseen

/-- Off the pressed route, a refused request arms nothing. -/
theorem pending_keyAt_of_error {e : Refusal} (hans : (r.keyAt tg client now).1 = .error e)
    (ht : t ≠ tg) : (r.keyAt tg client now).2.pending.lookup (t, client) =
      r.pending.lookup (t, client) := by
  rw [keyAt_of_error hans, pending_keyOne, if_neg]
  simp [ht]

/-- When the pressed route opens, another route is armed or spent only if it is itself contested. -/
theorem pending_keyAt_of_opens (ho : r.opens tg client = true) (ht : t ≠ tg)
    (hc : t ∈ r.joined tg → r.contested t client = none) :
    (r.keyAt tg client now).2.pending.lookup (t, client) = r.pending.lookup (t, client) := by
  obtain ⟨k, hk, hans⟩ : ∃ k, (∀ h, k ≠ .preempted h) ∧ (r.keyAt tg client now).1 = .ok k :=
    keyAt_fst_of_opens ho
  have hseen := congrArg Prod.snd (seen_keyAt_of_ok hans t)
  rw [if_neg ht] at hseen
  by_cases hjoined : t ∈ r.joined tg
  · -- The member is pressed in its turn, and an uncontested press arms nothing.
    have hnone : ((r.routes.lookup t).bind (·.contested client)) = none := hc hjoined
    have hjoin : joinSeen k client now (seen client t r) =
        pressSeen client now (seen client t r) := by
      cases k with
      | preempted holder => exact absurd rfl (hk holder)
      | _ => rfl
    rw [if_pos hjoined, hjoin] at hseen
    simpa [pressSeen, seen, hnone] using hseen
  · rw [if_neg hjoined] at hseen
    exact hseen

/-- A preemption forgets what the client has armed on the rest of the patch, and arms nothing there
while no member is held by another field unit than the one preempted. -/
theorem pending_keyAt_of_preempted {holder : ClientId}
    (hans : (r.keyAt tg client now).1 = .ok (.preempted holder)) (ht : t ≠ tg)
    (hjoined : t ∈ r.joined tg) (hc : ∀ h, r.contested t client = some h → h = holder) :
    (r.keyAt tg client now).2.pending.lookup (t, client) = none := by
  have hseen := congrArg Prod.snd (seen_keyAt_of_ok hans t)
  rw [if_neg ht, if_pos hjoined] at hseen
  refine hseen.trans ?_
  -- Whoever would be contested after the hand-over was contested before it, so was preempted.
  have hnone : ((r.routes.lookup t).map (·.cede holder client)).bind (·.contested client) =
      none := by
    by_contra hsome
    obtain ⟨h, hh⟩ := Option.ne_none_iff_exists'.mp hsome
    rw [Option.bind_map] at hh
    obtain ⟨route, hroute, hcontested⟩ := Option.bind_eq_some_iff.mp hh
    obtain ⟨hkeyed, hdigital, hconsole, hfield⟩ := Route.contested_eq_some_iff.mp hcontested
    simp only [Route.cede] at hkeyed
    split_ifs at hkeyed with hheld
    · exact ClientId.ne_of_isConsole hconsole hfield (Option.some.inj hkeyed).symm
    · have hwas : route.contested client = some h :=
        Route.contested_eq_some_iff.mpr ⟨hkeyed, hdigital, hconsole, hfield⟩
      have heq := hc h (contested_eq_some_iff.mpr ⟨route, hroute, hwas⟩)
      exact hheld (heq ▸ hkeyed)
  simp [joinSeen, pressSeen, cedeSeen, seen, hnone]

end Pending

/-! ### Runs of requests -/

/-- A request of this client for this route, and how it was answered. -/
def pressed (tg : RouteId) (client : ClientId) (r : Router) :
    Op → Option (Instant × Except Refusal Keyed)
  | .keyAt tg' client' now =>
    if tg' = tg ∧ client' = client then some (now, (r.keyAt tg client now).1) else none
  | _ => none

/-- The most recent request of this client for this route, when it was, and its answer. -/
def lastPress (tg : RouteId) (client : ClientId) (ops : List Op) :
    Option (Instant × Except Refusal Keyed) :=
  lastSeen step (pressed tg client) Router.empty ops

/-- The moment of a key request. -/
def Op.time : Op → Option Instant
  | .keyAt _ _ now => some now
  | _ => none

/-- The key requests of the run come at non-decreasing times. -/
def Timed (ops : List Op) : Prop := (ops.filterMap Op.time).Pairwise (· ≤ ·)

instance (ops : List Op) : Decidable (Timed ops) :=
  inferInstanceAs (Decidable (List.Pairwise _ _))

/-- A console that takes a route away from a field unit was refused the route it pressed, by its
last request for it, no longer ago than the window. -/
def TwoPresses (ops : List Op) : Prop :=
  ∀ pre post tg client now, ops = pre ++ .keyAt tg client now :: post → client.isConsole = true →
    (∃ h t, h.isConsole = false ∧ (after pre).holds t h = true ∧
      ¬ ((after pre).keyAt tg client now).2.holds t h = true) →
    ∃ asked, lastPress tg client pre = some (asked, .error .busy) ∧ now - asked ≤ preemptWindow

/-- A console's request arms the pressed route only: if it is accepted, no other member of the patch
is held by a field unit, except by the one that is preempted on the pressed route. And it leaves no
armed press behind: if no field unit holds the pressed route, the console has armed nothing there
inside the window. -/
def pressesTwice (r : Router) : Op → Prop
  | .keyAt tg client now =>
    client.isConsole = true →
      (r.accepts tg client now = true → ∀ t ∈ r.joined tg, t ≠ tg →
        (r.contested t client).isSome = true → r.contested t client = r.contested tg client) ∧
      (r.contested tg client = none → r.insisting tg client now = false)
  | _ => True

instance (r : Router) (op : Op) : Decidable (pressesTwice r op) :=
  match op with
  | .keyAt tg client now =>
    inferInstanceAs (Decidable (_ → (_ → ∀ t ∈ r.joined tg, _) ∧
      (r.contested tg client = none → r.insisting tg client now = false)))
  | .openRoute .. | .openConventional .. | .close .. | .bind .. | .unbind .. | .dropServer ..
  | .setMember .. | .unkeyAs .. | .unkey .. | .setPatches .. | .forgetMembership ..
  | .forgetClient .. => inferInstanceAs (Decidable True)

theorem pressed_of_ne {op : Op} (h : ∀ tg client now, op ≠ .keyAt tg client now) (tg : RouteId)
    (client : ClientId) (r : Router) : pressed tg client r op = none := by
  cases op with
  | keyAt tg' client' now => exact absurd rfl (h tg' client' now)
  | _ => rfl

theorem lastPress_concat (tg : RouteId) (client : ClientId) (ops : List Op) (op : Op) :
    lastPress tg client (ops ++ [op]) =
      (pressed tg client (after ops) op).or (lastPress tg client ops) :=
  lastSeen_concat step (pressed tg client) Router.empty ops op

/-- Every press that a console has armed is the trace of its last request for that route, which was
refused; or it is too old to count at some moment the run has reached. -/
def Armed (ops : List Op) : Prop :=
  ∀ tg client asked, client.isConsole = true →
    (after ops).pending.lookup (tg, client) = some asked →
    lastPress tg client ops = some (asked, .error .busy) ∨
      ∃ now ∈ ops.filterMap Op.time, asked + preemptWindow < now

/-- A step that changes neither the armed press of a button nor its last request keeps what is known
about it. -/
theorem armed_of_unchanged {ops : List Op} {op : Op} (h : Armed ops) {tg : RouteId}
    {client : ClientId} {asked : Instant} (hconsole : client.isConsole = true)
    (hpending : (step (after ops) op).pending.lookup (tg, client) =
      (after ops).pending.lookup (tg, client))
    (hpressed : pressed tg client (after ops) op = none)
    (hasked : (after (ops ++ [op])).pending.lookup (tg, client) = some asked) :
    lastPress tg client (ops ++ [op]) = some (asked, .error .busy) ∨
      ∃ now ∈ (ops ++ [op]).filterMap Op.time, asked + preemptWindow < now := by
  rw [after_concat, hpending] at hasked
  rw [lastPress_concat, hpressed, Option.none_or]
  rcases h tg client asked hconsole hasked with hlast | ⟨now, hnow, hold⟩
  · exact Or.inl hlast
  · refine Or.inr ⟨now, ?_, hold⟩
    rw [List.filterMap_append]
    exact List.mem_append_left _ hnow

/-- The pressed button itself: a request that contests its route is refused and arms it, or is
granted and spends it; any other finds no armed press that still counts. -/
theorem armed_pressed {ops : List Op} {tg : RouteId} {client : ClientId} {now asked : Instant}
    (hstale : (after ops).contested tg client = none →
      (after ops).insisting tg client now = false)
    (hasked : ((after ops).keyAt tg client now).2.pending.lookup (tg, client) = some asked) :
    ((after ops).keyAt tg client now).1 = .error .busy ∧ asked = now ∨
      asked + preemptWindow < now := by
  rw [pending_keyAt_self] at hasked
  rcases keyAt_cases (after ops) tg client now with ⟨-, hc, -⟩ | ⟨h, hc, hi, -⟩ |
    ⟨h, hc, hi, hans⟩ | ⟨-, hc, -⟩
  · rw [hc] at hasked
    have hi := hstale hc
    simp only [Option.isSome_none, Bool.false_eq_true, if_false] at hasked
    simp only [insisting, hasked, Option.any_some, decide_eq_false_iff_not] at hi
    exact Or.inr (Nat.lt_sub_iff_add_lt'.mp (Nat.not_le.mp hi))
  · simp [hc, hi] at hasked
  · simp only [hc, hi, Option.isSome_some, if_true, Bool.false_eq_true, if_false,
      Option.some.injEq] at hasked
    exact Or.inl ⟨hans, hasked.symm⟩
  · rw [hc] at hasked
    have hi := hstale hc
    simp only [Option.isSome_none, Bool.false_eq_true, if_false] at hasked
    simp only [insisting, hasked, Option.any_some, decide_eq_false_iff_not] at hi
    exact Or.inr (Nat.lt_sub_iff_add_lt'.mp (Nat.not_le.mp hi))

/-- The other buttons of the same console: an accepted request forgets them or leaves them alone,
and a refused one leaves them alone. -/
theorem pending_other {r : Router} {tg t : RouteId} {client : ClientId} {now : Instant}
    (hgroup : r.accepts tg client now = true → ∀ t ∈ r.joined tg, t ≠ tg →
      (r.contested t client).isSome = true → r.contested t client = r.contested tg client)
    (ht : t ≠ tg) :
    (r.keyAt tg client now).2.pending.lookup (t, client) = none ∨
      (r.keyAt tg client now).2.pending.lookup (t, client) = r.pending.lookup (t, client) := by
  rcases keyAt_cases r tg client now with ⟨ho, hc, k, -, hans⟩ | ⟨holder, hc, -, hans⟩ |
    ⟨_, -, -, hans⟩ | ⟨-, -, e, -, hans⟩
  · have hquiet : t ∈ r.joined tg → r.contested t client = none := by
      intro hjoined
      by_contra hsome
      have heq := hgroup (accepts_iff.mpr ⟨k, hans⟩) t hjoined ht
        (Option.isSome_iff_ne_none.mpr hsome)
      exact hsome (heq.trans hc)
    exact Or.inr (pending_keyAt_of_opens ho ht hquiet)
  · by_cases hjoined : t ∈ r.joined tg
    · refine Or.inl (pending_keyAt_of_preempted hans ht hjoined fun h hh => ?_)
      have heq := hgroup (accepts_iff.mpr ⟨_, hans⟩) t hjoined ht (by rw [hh]; rfl)
      exact Option.some.inj (hh.symm.trans (heq.trans hc))
    · refine Or.inr ?_
      have hseen := congrArg Prod.snd (seen_keyAt_of_ok hans t)
      rw [if_neg ht, if_neg hjoined] at hseen
      exact hseen
  · exact Or.inr (pending_keyAt_of_error hans ht)
  · exact Or.inr (pending_keyAt_of_error hans ht)

theorem armed_concat {ops : List Op} {op : Op} (h : Armed ops)
    (hop : pressesTwice (after ops) op) : Armed (ops ++ [op]) := by
  intro t d asked hd hasked
  -- Whose request it is, if it is one, and for which route.
  by_cases hkey : ∃ tg client now, op = .keyAt tg client now
  · obtain ⟨tg, client, now, rfl⟩ := hkey
    by_cases hclient : d = client
    · subst hclient
      obtain ⟨hgroup, hstale⟩ := hop hd
      by_cases ht : t = tg
      · subst ht
        rw [after_concat] at hasked
        rcases armed_pressed hstale hasked with ⟨hbusy, rfl⟩ | hold
        · refine Or.inl ?_
          rw [lastPress_concat]
          simp [pressed, hbusy]
        · refine Or.inr ⟨now, ?_, hold⟩
          simp [Op.time]
      · rcases pending_other hgroup ht with hnone | hsame
        · rw [after_concat] at hasked
          exact absurd (hnone.symm.trans hasked) (by simp)
        · refine armed_of_unchanged h hd hsame ?_ hasked
          simp [pressed, Ne.symm ht]
    · refine armed_of_unchanged h hd (pending_keyAt_of_ne hclient) ?_ hasked
      simp [pressed, Ne.symm hclient]
  · have hne : ∀ tg client now, op ≠ .keyAt tg client now := fun tg client now heq =>
      hkey ⟨tg, client, now, heq⟩
    refine armed_of_unchanged h hd ?_ (pressed_of_ne hne t d _) hasked
    rw [pending_step hne]

/-- Along a run of requests that press twice, an armed press is the trace of the last one. -/
theorem armed_after {ops : List Op} (h : Along step pressesTwice Router.empty ops) : Armed ops := by
  induction ops using List.reverseRecOn with
  | nil =>
    intro tg client asked _ hasked
    simp [Router.empty] at hasked
  | append_singleton ops op ih =>
    obtain ⟨hops, hop⟩ := along_concat.mp h
    exact armed_concat (ih hops) hop

/-- A request that presses twice takes a route from a field unit only where the console was
insisting on the pressed route. -/
theorem insisting_of_takes {r : Router} {tg t : RouteId} {client h : ClientId} {now : Instant}
    (hconsole : client.isConsole = true) (hop : pressesTwice r (.keyAt tg client now))
    (hheld : r.holds t h = true) (hlost : ¬ (r.keyAt tg client now).2.holds t h = true) :
    r.insisting tg client now = true := by
  rcases lost_cases hheld hlost with ⟨ho, hjoined, hct, -⟩ | ⟨-, hi, -⟩
  · -- Another member would have to be contested, and then the pressed route as well.
    have hnone := contested_eq_none_of_opens ho
    obtain ⟨k, -, hans⟩ : ∃ k, (∀ h, k ≠ .preempted h) ∧ (r.keyAt tg client now).1 = .ok k :=
      keyAt_fst_of_opens ho
    have ht : t ≠ tg := by
      rintro rfl
      exact absurd (hnone.symm.trans hct) (by simp)
    have heq := (hop hconsole).1 (accepts_iff.mpr ⟨k, hans⟩) t hjoined ht (by rw [hct]; rfl)
    exact absurd (hnone.symm.trans (heq.symm.trans hct)) (by simp)
  · exact hi

/-- **Preemption takes two presses**, in every timed run whose requests press twice. -/
theorem preemption_takes_two_presses (ops : List Op) (htimed : Timed ops)
    (h : Along step pressesTwice Router.empty ops) : TwoPresses ops := by
  rintro pre post tg client now rfl hconsole ⟨d, t, -, hheld, hlost⟩
  obtain ⟨hpre, hop, -⟩ := along_append.mp h
  have hi := insisting_of_takes hconsole hop hheld hlost
  obtain ⟨asked, hasked, hrecent⟩ := insisting_iff.mp hi
  refine ⟨asked, ?_, hrecent⟩
  rcases armed_after hpre tg client asked hconsole hasked with hlast | ⟨later, hlater, hold⟩
  · exact hlast
  · -- Too old for a moment already reached, hence too old now.
    have hle : later ≤ now := by
      rw [Timed, List.filterMap_append] at htimed
      apply (List.pairwise_append.mp htimed).2.2 later hlater now
      simp [Op.time]
    have hstill : now ≤ asked + preemptWindow := Nat.sub_le_iff_le_add'.mp hrecent
    exact absurd (hold.trans_le (hle.trans hstill)) (lt_irrefl _)

/-- Refused, and pressed again one second later. -/
def insistingRun : List Op :=
  [.openRoute 1 false, .keyAt 1 ⟨1, 7⟩ 0, .keyAt 1 ⟨0, 9⟩ 1000000000, .keyAt 1 ⟨0, 9⟩ 2000000000]

theorem insistingRun_two_presses :
    Timed insistingRun ∧ Along step pressesTwice Router.empty insistingRun ∧
      TwoPresses insistingRun :=
  ⟨by decide, by decide, preemption_takes_two_presses insistingRun (by decide) (by decide)⟩

/-- A console is refused, is granted the talkgroup once it is free, and lets it go; a field unit
keys it next. -/
def staleRun : List Op :=
  [.openRoute 1 false, .keyAt 1 ⟨1, 7⟩ 0, .keyAt 1 ⟨0, 9⟩ 1, .unkeyAs 1 ⟨1, 7⟩, .keyAt 1 ⟨0, 9⟩ 2,
    .unkeyAs 1 ⟨0, 9⟩, .keyAt 1 ⟨1, 8⟩ 3, .keyAt 1 ⟨0, 9⟩ 4]

/-- The press armed by the first refusal has survived the grant, and cuts the next unit off at
once. -/
theorem staleRun_takes_one_press : ¬ (Timed staleRun → TwoPresses staleRun) := by
  intro h
  have hlost : ∃ h t, h.isConsole = false ∧ (after (staleRun.take 7)).holds t h = true ∧
      ¬ ((after (staleRun.take 7)).keyAt 1 ⟨0, 9⟩ 4).2.holds t h = true :=
    ⟨⟨1, 8⟩, 1, by decide⟩
  obtain ⟨asked, hlast, -⟩ := h (by decide) (staleRun.take 7) [] 1 ⟨0, 9⟩ 4 rfl rfl hlost
  have hgranted : lastPress 1 ⟨0, 9⟩ (staleRun.take 7) = some (2, .ok .granted) := by decide
  rw [hgranted] at hlast
  simp at hlast

end Router

end RfxVoiced
