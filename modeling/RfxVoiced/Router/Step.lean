import RfxVoiced.Router.Holds

/-!
# The routing table as a machine

A router is driven by calls, in any order and on behalf of any client. `Op` lists the calls that
change it, `step` carries one out, and `after` is the router that a list of calls leads to from the
empty one.

## Main results

* `onAir_step_of_thins`, `onAir_step` — what a call other than a key request can do on the air
* `holds_of_holds_step` — nobody comes to hold a route except by a key request of their own
* `holds_step_of_quiet`, `listed_step` — calls that leave the holds alone, or the list of routes
* `digitalAlone_after` — in every state reached, nobody is mixed in on a talkgroup
* `pending_step` — only a key request arms a console, or spends what it has armed
-/

namespace RfxVoiced

namespace Router

/-- A call that changes the router. -/
inductive Op
  | openRoute (tg : RouteId) (encrypted : Bool)
  | openConventional (id : RouteId) (am : Bool)
  | close (tg : RouteId)
  | bind (session : SessionId) (username : List Char)
  | unbind (session : SessionId)
  | dropServer (server : UInt32)
  | setMember (tg : RouteId) (client : ClientId) (listen : Bool) (quality : UInt8)
  | keyAt (tg : RouteId) (client : ClientId) (now : Instant)
  | unkeyAs (tg : RouteId) (client : ClientId)
  | unkey (tg : RouteId)
  | setPatches (groups : List (List RouteId))
  | forgetMembership (client : ClientId)
  | forgetClient (client : ClientId)
  deriving DecidableEq

def step (r : Router) : Op → Router
  | .openRoute tg encrypted => (r.openRoute tg encrypted).2
  | .openConventional id am => (r.openConventional id am).2
  | .close tg => (r.close tg).2
  | .bind session username => (r.bind session username).2
  | .unbind session => r.unbind session
  | .dropServer server => r.dropServer server
  | .setMember tg client listen quality => r.setMember tg client listen quality
  | .keyAt tg client now => (r.keyAt tg client now).2
  | .unkeyAs tg client => (r.unkeyAs tg client).2
  | .unkey tg => r.unkey tg
  | .setPatches groups => r.setPatches groups
  | .forgetMembership client => r.forgetMembership client
  | .forgetClient client => r.forgetClient client

/-- The router that a list of calls leads to. -/
def after (ops : List Op) : Router := run step Router.empty ops

@[simp] theorem after_nil : after [] = Router.empty := rfl

@[simp] theorem after_concat (ops : List Op) (op : Op) :
    after (ops ++ [op]) = step (after ops) op := run_concat step _ ops op

@[simp] theorem empty_holds (t : RouteId) (d : ClientId) : Router.empty.holds t d = false := rfl

variable {r : Router} {t : RouteId} {d : ClientId} {op : Op}

/-! ### What a call can do on the air -/

/-- The call lists this route, as one of this kind, if it is not listed yet. -/
def Op.lists (op : Op) (t : RouteId) (conventional : Bool) : Prop :=
  match op with
  | .openRoute tg _ => t = tg ∧ conventional = false
  | .openConventional id _ => t = id ∧ conventional = true
  | .setMember tg _ _ _ => t = tg ∧ conventional = (classify tg).1
  | _ => False

/-- A call that neither keys nor opens a frequency leaves every route its kind, and puts nobody on
the air; a route that it lists anew is silent. -/
theorem onAir_step_of_thins (hkey : ∀ tg client now, op ≠ .keyAt tg client now)
    (hopen : ∀ id am, op ≠ .openConventional id am) {a' : OnAir}
    (h : (step r op).onAir t = some a') :
    (∃ a, r.onAir t = some a ∧ a'.Thins a) ∨
      r.onAir t = none ∧ a'.keyed = none ∧ a'.also = [] ∧ op.lists t a'.conventional := by
  -- Most calls leave the route as it was, and departures silence somebody on it.
  have hsame : r.onAir t = some a' → ∃ a, r.onAir t = some a ∧ a'.Thins a := fun ha =>
    ⟨a', ha, OnAir.Thins.refl a'⟩
  have hsilent : ∀ gone, (r.onAir t).map (·.silence gone) = some a' →
      ∃ a, r.onAir t = some a ∧ a'.Thins a := by
    intro gone hmap
    obtain ⟨a, ha, rfl⟩ := Option.map_eq_some_iff.mp hmap
    exact ⟨a, ha, a.thins_silence gone⟩
  cases op with
  | keyAt tg client now => exact absurd rfl (hkey tg client now)
  | openConventional id am => exact absurd rfl (hopen id am)
  | openRoute tg encrypted =>
    rw [step, onAir_openRoute] at h
    split_ifs at h with ht
    · obtain rfl := Option.some.inj h
      cases ha : r.onAir t with
      | none => exact Or.inr ⟨rfl, rfl, rfl, ht, rfl⟩
      | some a => exact Or.inl ⟨a, rfl, OnAir.Thins.refl a⟩
    · exact Or.inl (hsame h)
  | setMember tg client listen quality =>
    rw [step, onAir_setMember] at h
    split_ifs at h with ht
    · obtain rfl := Option.some.inj h
      cases ha : r.onAir t with
      | none => exact Or.inr ⟨rfl, rfl, rfl, ht, rfl⟩
      | some a => exact Or.inl ⟨a, rfl, OnAir.Thins.refl a⟩
    · exact Or.inl (hsame h)
  | close tg =>
    rw [step, onAir_close] at h
    split_ifs at h
    exact Or.inl (hsame h)
  | bind session username =>
    rw [step, onAir_bind] at h
    exact Or.inl (hsame h)
  | unbind session =>
    cases hbound : r.sessionToClient.lookup session with
    | none =>
      rw [step, unbind_of_unbound hbound] at h
      exact Or.inl (hsame h)
    | some client =>
      rw [step, onAir_unbind hbound] at h
      exact Or.inl (hsilent _ h)
  | dropServer server =>
    rw [step, onAir_dropServer] at h
    exact Or.inl (hsilent _ h)
  | unkeyAs tg client =>
    rw [step, onAir_unkeyAs] at h
    split_ifs at h
    · exact Or.inl (hsilent _ h)
    · exact Or.inl (hsame h)
  | unkey tg =>
    rw [step, onAir_unkey] at h
    split_ifs at h
    · obtain ⟨a, ha, rfl⟩ := Option.map_eq_some_iff.mp h
      refine Or.inl ⟨a, ha, ⟨fun _ hc => ?_, List.nil_sublist _, rfl, rfl⟩⟩
      cases hc
    · exact Or.inl (hsame h)
  | setPatches groups => exact Or.inl (hsame h)
  | forgetMembership client =>
    rw [step, onAir_forgetMembership] at h
    exact Or.inl (hsame h)
  | forgetClient client =>
    rw [step, onAir_forgetClient] at h
    exact Or.inl (hsilent _ h)

/-- A call other than a key request puts nobody on the air, and turns no frequency into a talkgroup;
a route that it lists anew is silent. -/
theorem onAir_step (hop : ∀ tg client now, op ≠ .keyAt tg client now) {a' : OnAir}
    (h : (step r op).onAir t = some a') :
    (∃ a, r.onAir t = some a ∧ a'.Within a) ∨
      r.onAir t = none ∧ a'.keyed = none ∧ a'.also = [] ∧ op.lists t a'.conventional := by
  by_cases hopen : ∃ id am, op = .openConventional id am
  · obtain ⟨id, am, rfl⟩ := hopen
    rw [step, onAir_openConventional] at h
    split_ifs at h with ht
    · obtain rfl := Option.some.inj h
      cases ha : r.onAir t with
      | none => exact Or.inr ⟨rfl, rfl, rfl, ht, rfl⟩
      | some a =>
        -- What was a talkgroup becomes a frequency, never the other way round.
        refine Or.inl ⟨a, rfl, ⟨fun _ hc => hc, List.Subset.refl a.also, fun hconv => ?_⟩⟩
        cases hconv
    · exact Or.inl ⟨a', h, OnAir.Within.refl a'⟩
  · have hopen : ∀ id am, op ≠ .openConventional id am := fun id am heq => hopen ⟨id, am, heq⟩
    exact (onAir_step_of_thins hop hopen h).imp_left fun ⟨a, ha, hthins⟩ => ⟨a, ha, hthins.within⟩

/-- A call other than a key request puts nobody on a route. -/
theorem holds_step (hop : ∀ tg client now, op ≠ .keyAt tg client now)
    (h : (step r op).holds t d = true) : r.holds t d = true := by
  obtain ⟨a', ha', hholds⟩ := holds_iff_onAir.mp h
  rcases onAir_step hop ha' with ⟨a, ha, hwithin⟩ | ⟨-, hkeyed, halso, -⟩
  · exact holds_iff_onAir.mpr ⟨a, ha, hwithin.holds hholds⟩
  · rcases hholds with hc | hmem
    · exact absurd (hkeyed.symm.trans hc) (by simp)
    · rw [halso] at hmem
      exact absurd hmem List.not_mem_nil

/-- Nobody comes to hold a route except by a key request of their own that is accepted, on a route
joined to it. -/
theorem holds_of_holds_step (h : (step r op).holds t d = true) :
    r.holds t d = true ∨ ∃ tg now k, op = .keyAt tg d now ∧ (r.keyAt tg d now).1 = .ok k ∧
      t ∈ r.joined tg := by
  cases op with
  | keyAt tg client now =>
    by_cases hd : d = client
    · subst hd
      by_cases ht : t ∈ r.joined tg
      · cases hans : (r.keyAt tg d now).1 with
        | error e =>
          rw [step, holds_keyAt_of_error hans] at h
          exact Or.inl h
        | ok k => exact Or.inr ⟨tg, now, k, rfl, hans, ht⟩
      · rw [step, holds_keyAt_of_not_joined ht] at h
        exact Or.inl h
    · exact Or.inl (holds_of_holds_keyAt hd h)
  | _ => exact Or.inl (holds_step (by simp) h)

section Quiet

variable (r : Router) (t tg : RouteId) (c : ClientId)

/-- A call other than a key request that takes nobody off a route changes nobody's holds there. -/
theorem holds_step_eq {op : Op} (hop : ∀ tg client now, op ≠ .keyAt tg client now)
    (hstays : r.holds t c = true → (step r op).holds t c = true) :
    (step r op).holds t c = r.holds t c := by
  rw [Bool.eq_iff_iff]
  exact ⟨holds_step hop, hstays⟩

theorem holds_setMember (client : ClientId) (listen : Bool) (quality : UInt8) :
    (r.setMember tg client listen quality).holds t c = r.holds t c := by
  have hsame : (step r (.setMember tg client listen quality)).holds t c = r.holds t c :=
    holds_step_eq r t c (by simp) (holds_of_listed (f := id) (fun _ _ ha => ha)
      (fun u => onAir_setMember r tg client listen quality u) t c)
  exact hsame

theorem holds_openRoute (encrypted : Bool) :
    (r.openRoute tg encrypted).2.holds t c = r.holds t c := by
  have hsame : (step r (.openRoute tg encrypted)).holds t c = r.holds t c :=
    holds_step_eq r t c (by simp) (holds_of_listed (f := id) (fun _ _ ha => ha)
      (fun u => onAir_openRoute r tg encrypted u) t c)
  exact hsame

theorem holds_openConventional (am : Bool) :
    (r.openConventional tg am).2.holds t c = r.holds t c := by
  have hsame : (step r (.openConventional tg am)).holds t c = r.holds t c :=
    holds_step_eq r t c (by simp) (holds_of_listed
      (f := fun a => { a with conventional := true, am := am }) (fun _ _ ha => ha)
      (fun u => onAir_openConventional r tg am u) t c)
  exact hsame

/-- Calls that start nothing, end nothing and close nothing. -/
def Op.quiet : Op → Bool
  | .openRoute .. | .openConventional .. | .bind .. | .setMember .. | .setPatches ..
  | .forgetMembership .. => true
  | _ => false

/-- A quiet call changes nobody's holds. -/
theorem holds_step_of_quiet {op : Op} (hop : op.quiet = true) :
    (step r op).holds t c = r.holds t c := by
  cases op with
  | openRoute tg encrypted => exact holds_openRoute r t tg c encrypted
  | openConventional id am => exact holds_openConventional r t id c am
  | bind session username => exact holds_congr (onAir_bind r session username t) c
  | setMember tg client listen quality => exact holds_setMember r t tg c client listen quality
  | setPatches groups => rfl
  | forgetMembership client => exact holds_congr (onAir_forgetMembership r client t) c
  | _ => exact absurd hop (by simp [Op.quiet])

end Quiet

/-- Only closing a route takes it off the list. -/
theorem listed_step (hop : ∀ tg, op ≠ .close tg) (h : (r.onAir t).isSome = true) :
    ((step r op).onAir t).isSome = true := by
  cases op with
  | close tg => exact absurd rfl (hop tg)
  | openRoute tg encrypted =>
    rw [step, onAir_openRoute]
    split_ifs
    · rfl
    · exact h
  | openConventional id am =>
    rw [step, onAir_openConventional]
    split_ifs
    · rfl
    · exact h
  | setMember tg client listen quality =>
    rw [step, onAir_setMember]
    split_ifs
    · rfl
    · exact h
  | bind session username => rwa [step, onAir_bind]
  | unbind session =>
    cases hbound : r.sessionToClient.lookup session with
    | none => rwa [step, unbind_of_unbound hbound]
    | some client => rwa [step, onAir_unbind hbound, Option.isSome_map]
  | dropServer server => rwa [step, onAir_dropServer, Option.isSome_map]
  | keyAt tg client now =>
    -- A request presses routes that are there, and makes none.
    rw [step, onAir, Option.isSome_map]
    rw [onAir, Option.isSome_map] at h
    cases hans : (r.keyAt tg client now).1 with
    | error e => rwa [lookup_keyAt_of_error hans]
    | ok k =>
      rw [lookup_keyAt_of_ok hans]
      split_ifs <;> simpa using h
  | unkeyAs tg client =>
    rw [step, onAir_unkeyAs]
    split_ifs
    · rwa [Option.isSome_map]
    · exact h
  | unkey tg =>
    rw [step, onAir_unkey]
    split_ifs
    · rwa [Option.isSome_map]
    · exact h
  | setPatches groups => exact h
  | forgetMembership client => rwa [step, onAir_forgetMembership]
  | forgetClient client => rwa [step, onAir_forgetClient, Option.isSome_map]

/-! ### Talkgroups are not mixed -/

/-- Nobody is mixed in on a route that is not a frequency. -/
def DigitalAlone (r : Router) : Prop :=
  ∀ t a, r.onAir t = some a → a.conventional = false → a.also = []

theorem digitalAlone_empty : Router.empty.DigitalAlone := by
  intro t a h
  simp [onAir, Router.empty] at h

theorem digitalAlone_keyAt (hr : r.DigitalAlone) (tg : RouteId) (client : ClientId)
    (now : Instant) : (r.keyAt tg client now).2.DigitalAlone := by
  intro t a ha hconv
  cases hans : (r.keyAt tg client now).1 with
  | error e =>
    rw [onAir, lookup_keyAt_of_error hans] at ha
    exact hr t a ha hconv
  | ok outcome =>
    rw [onAir, lookup_keyAt_of_ok hans] at ha
    obtain ⟨route', hroute', rfl⟩ := Option.map_eq_some_iff.mp ha
    split_ifs at hroute' with htg hjoined
    · obtain ⟨route, hroute, rfl⟩ := Option.map_eq_some_iff.mp hroute'
      have hdigital : route.conventional = false := by
        rwa [Route.onAir, Route.press_conventional] at hconv
      have halone : route.also = [] := hr t route.onAir (by simp [onAir, hroute]) hdigital
      exact (Route.also_press hdigital).trans halone
    · obtain ⟨route, hroute, rfl⟩ := Option.map_eq_some_iff.mp hroute'
      have hdigital : route.conventional = false := by
        rwa [Route.onAir, Route.join_conventional] at hconv
      have halone : route.also = [] := hr t route.onAir (by simp [onAir, hroute]) hdigital
      exact Route.also_join hdigital halone
    · exact hr t route'.onAir (by simp [onAir, hroute']) hconv

theorem digitalAlone_step (hr : r.DigitalAlone) (op : Op) : (step r op).DigitalAlone := by
  by_cases hkey : ∃ tg client now, op = .keyAt tg client now
  · obtain ⟨tg, client, now, rfl⟩ := hkey
    exact digitalAlone_keyAt hr tg client now
  · intro t a' ha' hconv
    rcases onAir_step (fun tg client now heq => hkey ⟨tg, client, now, heq⟩) ha' with
      ⟨a, ha, hwithin⟩ | ⟨-, -, halso, -⟩
    · have hnil : a.also = [] := hr t a ha (hwithin.digital hconv)
      exact List.subset_nil.mp (hnil ▸ hwithin.also)
    · exact halso

/-- In every state reached, nobody is mixed in on a talkgroup. -/
theorem digitalAlone_after (ops : List Op) : (after ops).DigitalAlone :=
  run_invariant (P := DigitalAlone) (fun _ op hr => digitalAlone_step hr op) digitalAlone_empty ops

/-! ### Patches and armed presses -/

/-- Only a new patch table changes what is joined. -/
theorem patches_step (hop : ∀ groups, op ≠ .setPatches groups) :
    (step r op).patches = r.patches := by
  cases op with
  | setPatches groups => exact absurd rfl (hop groups)
  | keyAt tg client now => exact keyAt_patches r tg client now
  | bind session username =>
    simp only [step, bind]
    split <;> rfl
  | unbind session =>
    simp only [step, unbind]
    split <;> rfl
  | unkeyAs tg client => exact unkeyAs_patches r tg client
  | unkey tg => exact unkey_patches r tg
  | _ => rfl

/-- Only a key request arms a console, or spends what it has armed. -/
theorem pending_step (hop : ∀ tg client now, op ≠ .keyAt tg client now) :
    (step r op).pending = r.pending := by
  cases op with
  | keyAt tg client now => exact absurd rfl (hop tg client now)
  | bind session username =>
    simp only [step, bind]
    split <;> rfl
  | unbind session =>
    simp only [step, unbind]
    split <;> rfl
  | unkeyAs tg client => exact unkeyAs_pending r tg client
  | unkey tg => exact unkey_pending r tg
  | _ => rfl

end Router

end RfxVoiced
