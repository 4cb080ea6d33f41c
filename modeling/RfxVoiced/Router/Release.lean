import RfxVoiced.Lib.Ledger
import RfxVoiced.Router.Step

/-!
# A release strands nothing

What a key took is recorded under its client and the route that was pressed, and releasing that
route gives back what the record lists. So the records are receipts, and the router is a ledger:
every call but an accepted key request yields, and an accepted one takes the patch of the pressed
route. The records then account for every route held, unless a key request overwrites the record of
an earlier press of the same button, whose patch has been edited in between.

## Main definitions

* `Router.ledger` — the router, as a ledger of receipts
* `Router.AllRecorded` — every route held is listed in a record of its holder
* `Router.keepsRecord` — the call does not overwrite the only record of a route still held

## Main results

* `ledger_step`, `ledger_keyAt` — each call is a move of the ledger
* `allRecorded_step_iff` — a call keeps every route recorded exactly when it keeps its records
-/

namespace RfxVoiced

namespace Router

/-- The router as a ledger: routes are held by clients, and what a key took is the receipt of the
route that was pressed. -/
def ledger (r : Router) : Ledger ClientId RouteId RouteId where
  holds client t := r.holds t client = true
  receipt client p := (r.took.lookup (client, p)).map fun routes => {t | t ∈ routes}

/-- Every route held is listed in what some key of its holder took. -/
def AllRecorded (r : Router) : Prop :=
  ∀ client t, r.holds t client = true →
    ∃ p routes, r.took.lookup (client, p) = some routes ∧ t ∈ routes

section Ledger

variable {r : Router} {op : Op}

theorem receipt_eq_some_iff {client : ClientId} {p : RouteId} {S : Set RouteId} :
    r.ledger.receipt client p = some S ↔
      ∃ routes, r.took.lookup (client, p) = some routes ∧ {t | t ∈ routes} = S := by
  simp [ledger, Option.map_eq_some_iff]

theorem allRecorded_iff_covered : r.AllRecorded ↔ r.ledger.Covered := by
  constructor
  · intro h client t ht
    obtain ⟨p, routes, hroutes, hmem⟩ := h client t ht
    exact ⟨p, {t | t ∈ routes}, receipt_eq_some_iff.mpr ⟨routes, hroutes, rfl⟩, hmem⟩
  · intro h client t ht
    obtain ⟨p, S, hS, hmem⟩ := h client t ht
    obtain ⟨routes, hroutes, rfl⟩ := receipt_eq_some_iff.mp hS
    exact ⟨p, routes, hroutes, hmem⟩

theorem receipt_congr {r' : Router} {client : ClientId} {p : RouteId}
    (h : r'.took.lookup (client, p) = r.took.lookup (client, p)) :
    r'.ledger.receipt client p = r.ledger.receipt client p :=
  congrArg (Option.map fun routes => {t | t ∈ routes}) h

/-- A call that drops no record, and puts nobody on the air, only loses resources. -/
theorem ledger_lose {r' : Router} (hholds : ∀ t d, r'.holds t d = true → r.holds t d = true)
    (htook : r'.took = r.took) : r.ledger.Yields r'.ledger :=
  Ledger.Yields.lose (fun d t => hholds t d)
    (funext fun _ => funext fun _ => receipt_congr (by rw [htook]))

/-- A call that takes the departed off the air, and drops their records, is a departure. -/
theorem ledger_depart {r' : Router} (gone : ClientId → Bool)
    (hholds : ∀ t d, r'.holds t d = true → r.holds t d = true ∧ gone d = false)
    (htook : r'.took = r.took.retain fun k _ => !gone k.1) : r.ledger.Yields r'.ledger := by
  refine Ledger.Yields.depart (fun d => gone d = true) (fun d t ht => ?_) ?_
  · obtain ⟨hheld, hstays⟩ := hholds t d ht
    exact ⟨hheld, by simp [hstays]⟩
  · intro d p hstays
    apply receipt_congr
    rw [htook, Table.lookup_retain]
    have hkeep : gone d = false := by simpa using hstays
    cases r.took.lookup (d, p) <;> simp [hkeep]

theorem ledger_unkeyAs (tg : RouteId) (client : ClientId) :
    r.ledger.Yields (r.unkeyAs tg client).2.ledger := by
  refine Ledger.Yields.giveBack (c := client) (p := tg) ?_ ?_ ?_
  · exact fun d t ht => ((holds_unkeyAs r tg client t d).mp ht).1
  · intro t S hS hmem ht
    obtain ⟨routes, hroutes, rfl⟩ := receipt_eq_some_iff.mp hS
    have hmine : r.mine tg client = routes := by rw [mine, hroutes, Option.getD_some]
    exact ((holds_unkeyAs r tg client t client).mp ht).2 rfl (hmine ▸ hmem)
  · intro d q hne
    apply receipt_congr
    rw [unkeyAs_took, Table.lookup_erase, if_neg hne]

/-- An accepted key request takes the patch of the pressed route, and records it. -/
theorem ledger_keyAt {tg : RouteId} {client : ClientId} {now : Instant} {k : Keyed}
    (h : (r.keyAt tg client now).1 = .ok k) :
    r.ledger.Takes (r.keyAt tg client now).2.ledger client tg {t | t ∈ r.joined tg} where
  others _ _ hd ht := holds_of_holds_keyAt hd ht
  outside t ht := by
    simp only [ledger, holds_keyAt_of_not_joined ht]
  filed := by simp [ledger, keyAt_took_of_ok h, Table.lookup_insert]
  kept d q hne := by
    apply receipt_congr
    rw [keyAt_took_of_ok h, Table.lookup_insert, if_neg hne]

/-- Every call but an accepted key request yields. -/
theorem ledger_step
    (hop : ∀ tg client now k, op = .keyAt tg client now → (r.keyAt tg client now).1 ≠ .ok k) :
    r.ledger.Yields (step r op).ledger := by
  cases op with
  | keyAt tg client now =>
    cases hans : (r.keyAt tg client now).1 with
    | ok k => exact absurd hans (hop tg client now k rfl)
    | error e =>
      -- Nothing is granted by a refusal, and nothing is noted down.
      refine ledger_lose (fun t d ht => ?_) (keyAt_took_of_error hans)
      rwa [step, holds_keyAt_of_error hans] at ht
  | unkeyAs tg client => exact ledger_unkeyAs tg client
  | unbind session =>
    cases hbound : r.sessionToClient.lookup session with
    | none =>
      rw [step, unbind_of_unbound hbound]
      exact ledger_lose (fun _ _ ht => ht) rfl
    | some client =>
      refine ledger_depart (fun d => d = client) (fun t d ht => ?_) ?_
      · simpa using (holds_unbind hbound t d).mp ht
      · simp [step, unbind, hbound]
  | dropServer server =>
    refine ledger_depart (fun d => d.server = server) (fun t d ht => ?_) ?_
    · simpa using (holds_dropServer r server t d).mp ht
    · simp [step, dropServer]
  | forgetClient client =>
    refine ledger_depart (fun d => d = client) (fun t d ht => ?_) ?_
    · simpa using (holds_forgetClient r client t d).mp ht
    · simp [step, forgetClient]
  | bind session username =>
    refine ledger_lose (fun t d ht => holds_step (by simp) ht) ?_
    simp only [step, bind]
    split <;> rfl
  | unkey tg => exact ledger_lose (fun t d ht => holds_step (by simp) ht) (unkey_took r tg)
  | _ => exact ledger_lose (fun t d ht => holds_step (by simp) ht) rfl

end Ledger

/-! ### Which calls keep every route recorded -/

/-- An accepted key request overwrites the record of the last press of the same button. The call
keeps its records when every route on the overwritten one that the client still holds is joined to
the pressed route, or is on another record of the client. -/
def keepsRecord (r : Router) : Op → Prop
  | .keyAt tg client now =>
    r.accepts tg client now = true →
      ∀ t ∈ (r.took.lookup (client, tg)).getD [], r.holds t client = true → t ∉ r.joined tg →
        ∃ e ∈ r.took.entries, e.1.1 = client ∧ e.1.2 ≠ tg ∧ t ∈ e.2
  | _ => True

instance (r : Router) (op : Op) : Decidable (keepsRecord r op) :=
  match op with
  | .keyAt tg client _ =>
    inferInstanceAs (Decidable (_ →
      ∀ t ∈ (r.took.lookup (client, tg)).getD [], r.holds t client = true → t ∉ r.joined tg →
        ∃ e ∈ r.took.entries, e.1.1 = client ∧ e.1.2 ≠ tg ∧ t ∈ e.2))
  | .openRoute .. | .openConventional .. | .close .. | .bind .. | .unbind .. | .dropServer ..
  | .setMember .. | .unkeyAs .. | .unkey .. | .setPatches .. | .forgetMembership ..
  | .forgetClient .. => inferInstanceAs (Decidable True)

theorem allRecorded_empty : Router.empty.AllRecorded := by
  intro client t ht
  rw [empty_holds] at ht
  exact absurd ht (by decide)

variable {r : Router}

theorem mem_took_iff {client : ClientId} {tg t : RouteId} :
    (∃ e ∈ r.took.entries, e.1.1 = client ∧ e.1.2 ≠ tg ∧ t ∈ e.2) ↔
      ∃ q, q ≠ tg ∧ ∃ routes, r.took.lookup (client, q) = some routes ∧ t ∈ routes := by
  constructor
  · rintro ⟨⟨⟨c, q⟩, routes⟩, he, rfl, hq, hmem⟩
    exact ⟨q, hq, routes, Table.lookup_eq_some_iff.mpr he, hmem⟩
  · rintro ⟨q, hq, routes, hroutes, hmem⟩
    exact ⟨⟨(client, q), routes⟩, Table.lookup_eq_some_iff.mp hroutes, rfl, hq, hmem⟩

theorem allRecorded_keyAt_iff (h : r.AllRecorded) {tg : RouteId} {client : ClientId}
    {now : Instant} {k : Keyed} (hans : (r.keyAt tg client now).1 = .ok k) :
    (r.keyAt tg client now).2.AllRecorded ↔ keepsRecord r (.keyAt tg client now) := by
  have haccepts : r.accepts tg client now = true := accepts_iff.mpr ⟨k, hans⟩
  have hiff := (ledger_keyAt hans).covered_iff (allRecorded_iff_covered.mp h)
  rw [allRecorded_iff_covered, hiff]
  constructor
  · intro hkeeps _ t _ ht hout
    obtain ⟨q, hq, T, hT, hmem⟩ := hkeeps t ht hout
    obtain ⟨routes, hroutes, rfl⟩ := receipt_eq_some_iff.mp hT
    exact mem_took_iff.mpr ⟨q, hq, routes, hroutes, hmem⟩
  · intro hkeeps t ht hout
    -- The route is on some record; only the one under the pressed button goes away.
    obtain ⟨p, routes, hroutes, hmem⟩ := h client t ht
    by_cases hp : p = tg
    · subst hp
      have hold : t ∈ (r.took.lookup (client, p)).getD [] := by rwa [hroutes, Option.getD_some]
      obtain ⟨q, hq, routes', hroutes', hmem'⟩ :=
        mem_took_iff.mp (hkeeps haccepts t hold ht hout)
      exact ⟨q, hq, {t | t ∈ routes'}, receipt_eq_some_iff.mpr ⟨routes', hroutes', rfl⟩, hmem'⟩
    · exact ⟨p, hp, {t | t ∈ routes}, receipt_eq_some_iff.mpr ⟨routes, hroutes, rfl⟩, hmem⟩

/-- A call keeps every route recorded exactly when it keeps its records. -/
theorem allRecorded_step_iff (h : r.AllRecorded) (op : Op) :
    (step r op).AllRecorded ↔ keepsRecord r op := by
  have hyields : (∀ tg client now k, op = .keyAt tg client now →
      (r.keyAt tg client now).1 ≠ .ok k) → (step r op).AllRecorded := fun hop =>
    allRecorded_iff_covered.mpr ((allRecorded_iff_covered.mp h).of_yields (ledger_step hop))
  cases op with
  | keyAt tg client now =>
    cases hans : (r.keyAt tg client now).1 with
    | ok k => exact allRecorded_keyAt_iff h hans
    | error e =>
      refine iff_of_true (hyields ?_) fun haccepts => ?_
      · rintro tg' client' now' k hop
        obtain ⟨rfl, rfl, rfl⟩ := Op.keyAt.inj hop
        rw [hans]
        simp
      · obtain ⟨k, hk⟩ := accepts_iff.mp haccepts
        rw [hans] at hk
        cases hk
  | _ => exact iff_of_true (hyields fun _ _ _ _ hop => by cases hop) trivial

/-! ### Runs -/

/-- The client was granted a key on this route at some point of the run. -/
def GotKey (p : RouteId) (client : ClientId) (ops : List Op) : Prop :=
  ∃ pre now post k, ops = pre ++ .keyAt p client now :: post ∧
    ((after pre).keyAt p client now).1 = .ok k

/-- The client released this route, and has not pressed it since. -/
def ReleasedSince (p : RouteId) (client : ClientId) (ops : List Op) : Prop :=
  ∃ pre post, ops = pre ++ .unkeyAs p client :: post ∧ ∀ now, .keyAt p client now ∉ post

/-- Whoever has released every route they were granted holds nothing, and is heard nowhere. -/
def StrandsNothing (ops : List Op) : Prop :=
  ∀ client, (∀ p, GotKey p client ops → ReleasedSince p client ops) →
    (∀ t, ¬ (after ops).holds t client = true) ∧ (after ops).destinationOf client = none

theorem GotKey.concat {p : RouteId} {client : ClientId} {ops : List Op} (h : GotKey p client ops)
    (op : Op) : GotKey p client (ops ++ [op]) := by
  obtain ⟨pre, now, post, k, rfl, hk⟩ := h
  exact ⟨pre, now, post ++ [op], k, by simp, hk⟩

/-- Only an accepted key request puts a record on file. -/
theorem lookup_took_step {op : Op} {client : ClientId} {p : RouteId} {routes : List RouteId}
    (h : (step r op).took.lookup (client, p) = some routes) :
    r.took.lookup (client, p) = some routes ∨
      ∃ now k, op = .keyAt p client now ∧ (r.keyAt p client now).1 = .ok k := by
  -- A departure drops records, and leaves the others as they were.
  have hretain : ∀ q : ClientId × RouteId → Bool,
      (r.took.retain fun k _ => q k).lookup (client, p) = some routes →
        r.took.lookup (client, p) = some routes := by
    intro q hq
    rw [Table.lookup_retain, Option.filter_eq_some_iff] at hq
    exact hq.1
  cases op with
  | keyAt tg client' now =>
    cases hans : (r.keyAt tg client' now).1 with
    | error e => exact Or.inl (by rwa [step, keyAt_took_of_error hans] at h)
    | ok k =>
      rw [step, keyAt_took_of_ok hans, Table.lookup_insert] at h
      split_ifs at h with hbutton
      · obtain ⟨rfl, rfl⟩ := Prod.mk.inj hbutton
        exact Or.inr ⟨now, k, rfl, hans⟩
      · exact Or.inl h
  | unkeyAs tg client' =>
    rw [step, unkeyAs_took, Table.lookup_erase] at h
    split_ifs at h with hbutton
    exact Or.inl h
  | unbind session =>
    cases hbound : r.sessionToClient.lookup session with
    | none => exact Or.inl (by rwa [step, unbind_of_unbound hbound] at h)
    | some gone =>
      simp only [step, unbind, hbound] at h
      exact Or.inl (hretain _ h)
  | dropServer server => exact Or.inl (hretain _ h)
  | forgetClient gone => exact Or.inl (hretain _ h)
  | bind session username =>
    refine Or.inl ?_
    simp only [step, bind] at h
    split at h <;> exact h
  | unkey tg => exact Or.inl (by rwa [step, unkey_took] at h)
  | _ => exact Or.inl h

/-- A record on file was put there by a key that was granted. -/
theorem gotKey_of_took {ops : List Op} {client : ClientId} {p : RouteId} {routes : List RouteId}
    (h : (after ops).took.lookup (client, p) = some routes) : GotKey p client ops := by
  induction ops using List.reverseRecOn generalizing routes with
  | nil => exact absurd h (by simp [Router.empty])
  | append_singleton ops op ih =>
    rw [after_concat] at h
    rcases lookup_took_step h with hold | ⟨now, k, rfl, hk⟩
    · exact (ih hold).concat op
    · exact ⟨ops, now, [], k, rfl, hk⟩

/-- Once a route has been released, and until it is pressed again, there is no record of it. -/
theorem took_eq_none_of_released {ops : List Op} {client : ClientId} {p : RouteId}
    (h : ReleasedSince p client ops) : (after ops).took.lookup (client, p) = none := by
  obtain ⟨pre, post, rfl, hpost⟩ := h
  induction post using List.reverseRecOn with
  | nil => rw [after_concat, step, unkeyAs_took, Table.lookup_erase, if_pos rfl]
  | append_singleton post op ih =>
    -- The record was absent before the last call, which is no press of this button.
    have hearlier := ih fun now hmem => hpost now (List.mem_append_left _ hmem)
    rw [← List.cons_append, ← List.append_assoc, after_concat]
    by_contra hsome
    obtain ⟨routes, hroutes⟩ := Option.ne_none_iff_exists'.mp hsome
    rcases lookup_took_step hroutes with hold | ⟨now, k, rfl, -⟩
    · exact absurd (hearlier.symm.trans hold) (by simp)
    · exact hpost now (by simp)

/-- While every route held is recorded, whoever has released what they were granted holds
nothing. -/
theorem strandsNothing_of_allRecorded {ops : List Op} (h : (after ops).AllRecorded) :
    StrandsNothing ops := by
  intro client hreleased
  -- Every record comes from a grant, every grant was released, and a release drops the record.
  have hnone : ∀ p, (after ops).took.lookup (client, p) = none := by
    intro p
    by_contra hsome
    obtain ⟨routes, hroutes⟩ := Option.ne_none_iff_exists'.mp hsome
    have hfree := took_eq_none_of_released (hreleased p (gotKey_of_took hroutes))
    exact absurd (hfree.symm.trans hroutes) (by simp)
  have hholds : ∀ t, ¬ (after ops).holds t client = true :=
    (allRecorded_iff_covered.mp h).holds_nothing fun p => by simp [ledger, hnone p]
  exact ⟨hholds, destinationOf_eq_none.mpr hholds⟩

/-- A run keeps every route recorded throughout exactly when each of its calls keeps its records,
and then a release strands nothing. -/
theorem release_strands_nothing (ops : List Op) :
    ((∀ pre, pre <+: ops → (after pre).AllRecorded) ↔ Along step keepsRecord Router.empty ops) ∧
      (Along step keepsRecord Router.empty ops → ∀ pre, pre <+: ops → StrandsNothing pre) := by
  have hiff : (∀ pre, pre <+: ops → (after pre).AllRecorded) ↔
      Along step keepsRecord Router.empty ops :=
    forall_prefix_iff_along (B := fun _ => True) (P := AllRecorded) (fun _ _ _ => trivial)
      (fun _ op _ h => allRecorded_step_iff h op) trivial allRecorded_empty ops
  exact ⟨hiff, fun halong pre hpre =>
    strandsNothing_of_allRecorded (hiff.mpr halong pre hpre)⟩

/-- A patch that goes away between two presses, with a release after the first: every press is
followed by its own release, so no record is ever overwritten. -/
example : Along step keepsRecord Router.empty
    [.openRoute 1 false, .openRoute 2 false, .setPatches [[1, 2]], .keyAt 1 ⟨1, 7⟩ 0,
      .unkeyAs 1 ⟨1, 7⟩, .setPatches [], .keyAt 1 ⟨1, 7⟩ 1, .unkeyAs 1 ⟨1, 7⟩] := by
  decide

/-- Two presses of one button, the patch going away in between, and one release. -/
def strandingRun : List Op :=
  [.openRoute 1 false, .openRoute 2 false, .setPatches [[1, 2]], .keyAt 1 ⟨1, 7⟩ 0,
    .setPatches [], .keyAt 1 ⟨1, 7⟩ 1, .unkeyAs 1 ⟨1, 7⟩]

/-- The second press overwrites the record of the first, so the release leaves route 2 keyed. -/
theorem strandingRun_strands : ¬ StrandsNothing strandingRun := by
  intro h
  have hreleased : ∀ p, GotKey p ⟨1, 7⟩ strandingRun → ReleasedSince p ⟨1, 7⟩ strandingRun := by
    rintro p ⟨pre, now, post, k, hrun, -⟩
    have hmem : Op.keyAt p ⟨1, 7⟩ now ∈ strandingRun := by
      rw [hrun]
      simp
    obtain rfl : p = 1 := by
      simp only [strandingRun, List.mem_cons, Op.keyAt.injEq, reduceCtorEq, false_or,
        List.not_mem_nil, or_false] at hmem
      rcases hmem with ⟨hp, -⟩ | ⟨hp, -⟩
      · exact hp
      · exact hp
    exact ⟨strandingRun.take 6, [], rfl, fun now => List.not_mem_nil⟩
  exact (h ⟨1, 7⟩ hreleased).1 2 (by decide)

end Router

end RfxVoiced
