import RfxVoiced.Router.Step

/-!
# The route a client pressed

A client is announced, and recorded, on the route that it pressed. The router remembers one pressed
route for each client, and otherwise takes the lowest that the client holds. A release forgets the
pressed route whichever button it is for; so a client that lets go of another button, held or
refused, may from then on be heard on a lower route than the one it pressed.

## Main definitions

* `Router.pressing` — what a call says about whether a button is the one last pressed
* `Router.Reported` — whoever holds the route they last pressed is heard on it
* `Router.keepsPressed` — the release is not for another button, or makes no difference

## Main results

* `destinationRoute_of_unkeyed` — where no route is remembered, the lowest one held is reported
* `keyedBy_step` — what a call does to the route that is remembered
* `reported_iff_along` — exactly which runs report the pressed routes
-/

namespace RfxVoiced

namespace Router

variable {r : Router} {p t : RouteId} {client : ClientId} {op : Op}

/-! ### Where a client is heard -/

theorem destinationRoute_of_keyed (hkeyed : r.keyedBy.lookup client = some p)
    (hp : r.holds p client = true) : r.destinationRoute client = some p := by
  simp only [destinationRoute, hkeyed, hp, if_true]

/-- Where no route is remembered, the lowest one held is reported. -/
theorem destinationRoute_of_unkeyed (hkeyed : r.keyedBy.lookup client = none) :
    r.destinationRoute client = some p ↔
      r.holds p client = true ∧ ∀ t, r.holds t client = true → p ≤ t := by
  have hmem : ∀ t, t ∈ (r.routes.keys.filter fun tg => r.holds tg client) ↔
      r.holds t client = true := by
    intro t
    rw [List.mem_filter, and_iff_right_iff_imp]
    exact mem_keys_of_holds
  simp only [destinationRoute, hkeyed, List.min?_eq_some_iff, hmem]

/-! ### The route remembered -/

/-- What a call says about whether this button is the one its client last pressed: an accepted press
of any button of the client says so, or not; its release, and the departure of the client, say that
it is not. -/
def pressing (p : RouteId) (client : ClientId) (r : Router) : Op → Option Bool
  | .keyAt tg client' now =>
    if client' = client ∧ (r.keyAt tg client' now).1.isOk then some (tg = p) else none
  | .unkeyAs tg client' => if client' = client ∧ tg = p then some false else none
  | .unbind session => if r.clientOf session = some client then some false else none
  | .forgetClient client' => if client' = client then some false else none
  | .dropServer server => if client.server = server then some false else none
  | _ => none

/-- The client's last accepted press was of this button; and it has not let go of the button since,
nor departed. -/
def LastPressed (p : RouteId) (client : ClientId) (ops : List Op) : Prop :=
  lastSeen step (pressing p client) Router.empty ops = some true

instance (p : RouteId) (client : ClientId) (ops : List Op) :
    Decidable (LastPressed p client ops) :=
  inferInstanceAs (Decidable (_ = _))

/-- Whoever holds the route that they last pressed is heard on it. -/
def Reported (ops : List Op) : Prop :=
  ∀ client p, LastPressed p client ops → (after ops).holds p client = true →
    ∃ listeners, (after ops).destinationOf client = some (p, listeners)

/-- A release is for the button that was last pressed; or takes the client off the route pressed; or
that route is the lowest that the client keeps. -/
def keepsPressed (r : Router) : Op → Prop
  | .unkeyAs q client => ∀ p, r.keyedBy.lookup client = some p → p ≠ q →
      r.holds p client = true → p ∉ r.mine q client →
        ∀ t, r.holds t client = true → t ∉ r.mine q client → p ≤ t
  | _ => True

/-- The route remembered for a client after a call. -/
def remembered (r : Router) (client : ClientId) : Op → Option RouteId
  | .keyAt tg client' now =>
    if client' = client ∧ (r.keyAt tg client' now).1.isOk then some tg else r.keyedBy.lookup client
  -- Whichever button it is for.
  | .unkeyAs _ client' => if client' = client then none else r.keyedBy.lookup client
  | .unbind session =>
    if r.clientOf session = some client then none else r.keyedBy.lookup client
  | .forgetClient client' => if client' = client then none else r.keyedBy.lookup client
  | .dropServer server => if client.server = server then none else r.keyedBy.lookup client
  | _ => r.keyedBy.lookup client

theorem keyedBy_step (r : Router) (client : ClientId) (op : Op) :
    (step r op).keyedBy.lookup client = r.remembered client op := by
  cases op with
  | keyAt tg client' now =>
    cases hans : (r.keyAt tg client' now).1 with
    | error e =>
      simp [step, remembered, keyAt_keyedBy_of_error hans, hans, Except.isOk, Except.toBool]
    | ok k =>
      simp only [step, remembered, keyAt_keyedBy_of_ok hans, Table.lookup_insert, hans,
        Except.isOk, Except.toBool, and_true, eq_comm]
  | unkeyAs tg client' =>
    simp only [step, remembered, unkeyAs_keyedBy, Table.lookup_erase, eq_comm]
  | unbind session =>
    cases h : r.sessionToClient.lookup session with
    | none => simp [step, remembered, unbind, clientOf, h]
    | some client' => simp [step, remembered, unbind, clientOf, h, Table.lookup_erase, eq_comm]
  | forgetClient client' => simp [step, remembered, forgetClient, Table.lookup_erase, eq_comm]
  | dropServer server =>
    simp only [step, remembered, dropServer, Table.lookup_retain]
    cases r.keyedBy.lookup client <;> simp [Option.filter]
  | bind session username =>
    simp only [step, remembered, bind]
    split <;> rfl
  | unkey tg =>
    obtain ⟨routes, h⟩ := sameButRoutes_unkey r tg
    simp only [step, remembered, h]
  | _ => rfl

/-- What a call makes of the route remembered, and of the button last pressed. -/
theorem remembered_cases (r : Router) (client : ClientId) (op : Op) :
    (r.remembered client op = r.keyedBy.lookup client ∧ ∀ p, pressing p client r op = none) ∨
    (∃ tg, r.remembered client op = some tg ∧
      ∀ p, pressing p client r op = some (decide (tg = p))) ∨
    (r.remembered client op = none ∧ ∀ p, pressing p client r op = some false) ∨
    (∃ q, op = .unkeyAs q client ∧ r.remembered client op = none) := by
  cases op with
  | keyAt tg client' now =>
    by_cases h : client' = client ∧ (r.keyAt tg client' now).1.isOk
    · exact Or.inr (Or.inl ⟨tg, by simp only [remembered, if_pos h],
        fun p => by simp only [pressing, if_pos h]⟩)
    · exact Or.inl ⟨by simp only [remembered, if_neg h], fun p => by simp only [pressing, if_neg h]⟩
  | unkeyAs tg client' =>
    by_cases h : client' = client
    · subst h
      exact Or.inr (Or.inr (Or.inr ⟨tg, rfl, by simp [remembered]⟩))
    · exact Or.inl ⟨by simp [remembered, h], fun p => by simp [pressing, h]⟩
  | unbind session =>
    by_cases h : r.clientOf session = some client
    · exact Or.inr (Or.inr (Or.inl ⟨by simp [remembered, h], fun p => by simp [pressing, h]⟩))
    · exact Or.inl ⟨by simp [remembered, h], fun p => by simp [pressing, h]⟩
  | forgetClient client' =>
    by_cases h : client' = client
    · exact Or.inr (Or.inr (Or.inl ⟨by simp [remembered, h], fun p => by simp [pressing, h]⟩))
    · exact Or.inl ⟨by simp [remembered, h], fun p => by simp [pressing, h]⟩
  | dropServer server =>
    by_cases h : client.server = server
    · exact Or.inr (Or.inr (Or.inl ⟨by simp [remembered, h], fun p => by simp [pressing, h]⟩))
    · exact Or.inl ⟨by simp [remembered, h], fun p => by simp [pressing, h]⟩
  | _ => exact Or.inl ⟨rfl, fun _ => rfl⟩

/-! ### The record and the history -/

theorem lastPressed_concat {ops : List Op} :
    LastPressed p client (ops ++ [op]) ↔
      pressing p client (after ops) op = some true ∨
        pressing p client (after ops) op = none ∧ LastPressed p client ops := by
  rw [LastPressed, lastSeen_concat, Option.or_eq_some_iff]
  rfl

/-- The route remembered is the one last pressed, unless a release has made the router forget it. -/
def Remembers (ops : List Op) : Prop :=
  ∀ client p, (after ops).keyedBy.lookup client = some p →
    LastPressed p client ops ∧ ∀ q, LastPressed q client ops → q = p

theorem remembers_nil : Remembers [] := by
  intro client p h
  exact absurd h (by simp [Router.empty])

theorem remembers_concat {ops : List Op} (h : Remembers ops) (op : Op) :
    Remembers (ops ++ [op]) := by
  intro client p hkeyed
  rw [after_concat, keyedBy_step] at hkeyed
  simp only [lastPressed_concat]
  rcases remembered_cases (after ops) client op with ⟨heq, hnone⟩ | ⟨tg, heq, hpress⟩ |
    ⟨heq, -⟩ | ⟨q, -, heq⟩
  · -- The call is not about this client.
    obtain ⟨hlast, huniq⟩ := h client p (heq.symm.trans hkeyed)
    exact ⟨Or.inr ⟨hnone p, hlast⟩, fun q hq => huniq q (by simpa [hnone q] using hq)⟩
  · obtain rfl := Option.some.inj (heq.symm.trans hkeyed)
    exact ⟨Or.inl (by simp [hpress]), fun q hq => by simpa [hpress, eq_comm] using hq⟩
  · exact absurd (heq.symm.trans hkeyed) (by simp)
  · exact absurd (heq.symm.trans hkeyed) (by simp)

/-! ### One call -/

theorem reported_iff {ops : List Op} :
    Reported ops ↔ ∀ client p, LastPressed p client ops → (after ops).holds p client = true →
      (after ops).destinationRoute client = some p := by
  simp [Reported, destinationOf]

/-- Once the router has forgotten which button was pressed, that button is reported as the lowest of
those held. -/
theorem lowest_of_reported {ops : List Op} (hrem : Remembers ops) (h : Reported ops)
    (hlast : LastPressed p client ops) (hp : (after ops).holds p client = true)
    (hforgot : (after ops).keyedBy.lookup client ≠ some p)
    (ht : (after ops).holds t client = true) : p ≤ t := by
  have hnone : (after ops).keyedBy.lookup client = none := by
    cases hkeyed : (after ops).keyedBy.lookup client with
    | none => rfl
    | some q => exact absurd ((hrem client q hkeyed).2 p hlast ▸ hkeyed) hforgot
  exact ((destinationRoute_of_unkeyed hnone).mp (reported_iff.mp h client p hlast hp)).2 t ht

/-- A client comes to hold nothing by a call that says nothing about its presses. -/
theorem holds_of_holds_step_of_pressing (hnone : pressing p client r op = none)
    (ht : (step r op).holds t client = true) : r.holds t client = true := by
  rcases holds_of_holds_step ht with h | ⟨tg, now, k, rfl, hans, -⟩
  · exact h
  · simp [pressing, hans, Except.isOk, Except.toBool] at hnone

theorem destinationRoute_step {ops : List Op} (hrem : Remembers ops) (h : Reported ops)
    (hkeeps : keepsPressed (after ops) op) (hlast : LastPressed p client (ops ++ [op]))
    (hp : (step (after ops) op).holds p client = true) :
    (step (after ops) op).destinationRoute client = some p := by
  have hkeyed := keyedBy_step (after ops) client op
  rw [lastPressed_concat] at hlast
  -- A call that is no press of this client leaves it holding nothing new.
  have hold : pressing p client (after ops) op = none →
      ∀ t, (step (after ops) op).holds t client = true → (after ops).holds t client = true :=
    fun hnone t => holds_of_holds_step_of_pressing hnone
  rcases remembered_cases (after ops) client op with ⟨heq, hnone⟩ | ⟨tg, heq, hpress⟩ |
    ⟨-, hgone⟩ | ⟨q, rfl, heq⟩
  · -- The call is not about this client: what is remembered stays, and so does the last press.
    rw [heq] at hkeyed
    obtain hlast : LastPressed p client ops := by simpa [hnone p] using hlast
    cases hp' : (after ops).keyedBy.lookup client with
    | none =>
      rw [hp'] at hkeyed
      refine (destinationRoute_of_unkeyed hkeyed).mpr ⟨hp, fun t ht => ?_⟩
      exact lowest_of_reported hrem h hlast (hold (hnone p) p hp) (by simp [hp'])
        (hold (hnone p) t ht)
    | some q =>
      obtain rfl := (hrem client q hp').2 p hlast
      exact destinationRoute_of_keyed (hkeyed.trans hp') hp
  · -- An accepted press: its button is the one remembered.
    have htg : tg = p := by simpa [hpress] using hlast
    subst htg
    exact destinationRoute_of_keyed (hkeyed.trans heq) hp
  · exact absurd hlast (by simp [hgone])
  · -- A release of another button: the router forgets, and falls back to the lowest route.
    have hpq : p ≠ q := by
      rintro rfl
      exact absurd hlast (by simp [pressing])
    have hnone : pressing p client (after ops) (.unkeyAs q client) = none := by
      simp [pressing, hpq.symm]
    obtain hlast : LastPressed p client ops := by simpa [hnone] using hlast
    refine (destinationRoute_of_unkeyed (hkeyed.trans heq)).mpr ⟨hp, fun t ht => ?_⟩
    by_cases hp' : (after ops).keyedBy.lookup client = some p
    · obtain ⟨hpheld, hpkept⟩ := (holds_unkeyAs _ q client p client).mp hp
      obtain ⟨htheld, htkept⟩ := (holds_unkeyAs _ q client t client).mp ht
      exact hkeeps p hp' hpq hpheld (hpkept rfl) t htheld (htkept rfl)
    · exact lowest_of_reported hrem h hlast (hold hnone p hp) hp' (hold hnone t ht)

/-- One call keeps the pressed routes reported exactly when it is no release for another button, or
one that makes no difference. -/
theorem reported_concat_iff {ops : List Op} (hrem : Remembers ops) (h : Reported ops) :
    Reported (ops ++ [op]) ↔ keepsPressed (after ops) op := by
  constructor
  · intro hafter
    cases op with
    | unkeyAs q client =>
      -- Both routes are kept by a release that makes the router forget the button.
      intro p hkeyed hpq hp hpkept t ht htkept
      have hlast : LastPressed p client (ops ++ [.unkeyAs q client]) := by
        rw [lastPressed_concat]
        exact Or.inr ⟨by simp [pressing, hpq.symm], (hrem client p hkeyed).1⟩
      have hreported := reported_iff.mp hafter client p hlast
      rw [after_concat] at hreported
      have hp' := (holds_unkeyAs (after ops) q client p client).mpr ⟨hp, fun _ => hpkept⟩
      have ht' := (holds_unkeyAs (after ops) q client t client).mpr ⟨ht, fun _ => htkept⟩
      have hforgot : (step (after ops) (.unkeyAs q client)).keyedBy.lookup client = none := by
        rw [keyedBy_step, remembered, if_pos rfl]
      exact ((destinationRoute_of_unkeyed hforgot).mp (hreported hp')).2 t ht'
    | _ => trivial
  · intro hkeeps
    rw [reported_iff]
    intro client p hlast hp
    rw [after_concat] at hp ⊢
    exact destinationRoute_step hrem h hkeeps hlast hp

/-- Whoever holds the route that they last pressed is heard on it throughout a run, exactly when
each release of the run is for the route last pressed, takes its client off that route as well, or
leaves it the lowest that the client holds. -/
theorem reported_iff_along (ops : List Op) :
    (∀ pre, pre <+: ops → Reported pre) ↔ Along step keepsPressed Router.empty ops :=
  forall_prefix_iff_along_history step (fun _ op hrem => remembers_concat hrem op)
    (fun _ _ hrem h => reported_concat_iff hrem h) remembers_nil
    (fun _ _ _ hp => absurd hp (by simp)) ops

/-- A console holds 1 and then 2, and lets go of 3, which it was never granted: from then on it is
heard on 1, though it last pressed 2. -/
theorem strayRelease_reroutes :
    ¬ Reported [.openRoute 1 false, .openRoute 2 false, .keyAt 1 ⟨0, 9⟩ 0, .keyAt 2 ⟨0, 9⟩ 1,
      .unkeyAs 3 ⟨0, 9⟩] := by
  intro h
  obtain ⟨listeners, hheard⟩ := h ⟨0, 9⟩ 2 (by decide) (by decide)
  rw [destinationOf, Option.map_eq_some_iff] at hheard
  obtain ⟨tg, hroute, heq⟩ := hheard
  obtain rfl : tg = 2 := congrArg Prod.fst heq
  exact absurd hroute (by decide)

end Router

end RfxVoiced
