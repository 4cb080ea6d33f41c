import RfxVoiced.Router.Quality

/-!
# No quality lag between calls

A quality that was parked during a call is to be taken up before the next one. A release takes up
what is parked on the channel that it leaves clear. But a channel can be left clear in other ways:
its talkers depart, a route of it is closed, or the patch table changes; and then a parked quality
is left behind.

## Main definitions

* `Router.Settled` — nothing is parked on a clear channel
* `Router.leavesNothingParked` — the call leaves no channel clear with a quality parked on it

## Main results

* `noLag_iff_settled` — there is no lag exactly where nothing is parked
* `settled_step_iff` — which calls keep it so
* `noLag_iff_along` — and which runs
-/

namespace RfxVoiced

namespace Router

/-- Nothing is parked on a clear channel. -/
def Settled (r : Router) : Prop :=
  ∀ t client l, r.isClear t = true → r.linkOn t client = some l → l.parked = none

/-- Between calls there is no lag: on a clear channel, the stored quality of every member is the one
that was last told. -/
def NoLag (ops : List Op) : Prop :=
  ∀ t client route m, (after ops).isClear t = true → (after ops).routes.lookup t = some route →
    route.members.lookup client = some m → lastTold t client ops = some m.quality

theorem noLag_iff_settled (ops : List Op) : NoLag ops ↔ (after ops).Settled := by
  constructor
  · intro h t client l hclear hl
    obtain ⟨route, hroute, hmember⟩ := Option.bind_eq_some_iff.mp hl
    obtain ⟨m, hm, rfl⟩ := Option.map_eq_some_iff.mp hmember
    obtain ⟨hlatest, hsteady⟩ := link_after hl
    cases hp : route.deferred.lookup client with
    | none => rfl
    | some p =>
      -- A parked quality is the one last told, and never the one held.
      have hsame : m.quality = p := by
        have htold := h t client route m hclear hroute hm
        rw [hlatest, Deadband.latest, hp, Option.getD_some] at htold
        exact (Option.some.inj htold).symm
      have hnear : jittersOneLane m.quality p = true := hsteady p hp
      rw [hsame] at hnear
      simp [jittersOneLane, Dsp.laneStep] at hnear
  · intro h t client route m hclear hroute hm
    have hl : (after ops).linkOn t client = some ⟨m.quality, route.deferred.lookup client⟩ := by
      rw [linkOn, hroute, Option.bind_some, hm, Option.map_some]
    rw [(link_after hl).1, ← Deadband.held_eq_latest (h t client _ hclear hl)]

/-! ### Which calls leave nothing parked -/

/-- Those whom a call takes off the air without a release. -/
def departs (r : Router) : Op → RouteId → ClientId → Bool
  | .unbind session => fun _ c => r.clientOf session = some c
  | .dropServer server => fun _ c => c.server = server
  | .forgetClient client => fun _ c => c = client
  | .close tg => fun t _ => t = tg
  | _ => fun _ _ => false

/-- The channel of this route is left clear without a release: its talkers depart, or it is clear
once the patch table is replaced. -/
def leftClear (r : Router) (op : Op) (t : RouteId) : Bool :=
  match op with
  | .setPatches groups => (r.setPatches groups).isClear t
  | .unbind _ | .dropServer _ | .forgetClient _ | .close _ => r.leavesClear (r.departs op) t
  | _ => false

/-- No channel is left clear without a release on which a quality is parked for a member that
stays. -/
def leavesNothingParked (r : Router) (op : Op) : Prop :=
  ∀ t client l, r.linkOn t client = some l → l.parked ≠ none → r.departs op t client = false →
    r.leftClear op t = false

section Step

variable {r r' : Router} {op : Op}

/-- A call that takes links and talkers away together keeps nothing parked on a clear channel
exactly when it leaves none clear on which something is parked. -/
theorem settled_iff_of_departs {gone : RouteId → ClientId → Bool} {clear : RouteId → Bool}
    (hlink : ∀ t c, r'.linkOn t c = if gone t c then none else r.linkOn t c)
    (hclear : ∀ t, r'.isClear t = clear t) :
    r'.Settled ↔ ∀ t client l, r.linkOn t client = some l → l.parked ≠ none →
      gone t client = false → clear t = false := by
  constructor
  · intro h t client l hl hparked hstays
    by_contra hcl
    have hl' : r'.linkOn t client = some l := by rw [hlink, hstays, hl, if_neg (by simp)]
    exact hparked (h t client l ((hclear t).trans (by simpa using hcl)) hl')
  · intro h t client l hcl hl
    rw [hlink] at hl
    split_ifs at hl with hgone
    by_contra hparked
    have hbusy := h t client l hl hparked (by simpa using hgone)
    exact absurd (hbusy.symm.trans ((hclear t).symm.trans hcl)) (by decide)

/-- A call under which links stay, or start afresh, and no channel becomes clear. -/
theorem settled_of_keeps (h : r.Settled) (hclear : ∀ t, r'.isClear t = true → r.isClear t = true)
    (hlink : ∀ t c l, r'.linkOn t c = some l → r.linkOn t c = some l) : r'.Settled :=
  fun t client l hcl hl => h t client l (hclear t hcl) (hlink t client l hl)

theorem isClear_of_holds {t : RouteId} (h : r'.isClear t = true)
    (hjoined : ∀ t, r'.joined t = r.joined t)
    (hholds : ∀ t c, r.holds t c = true → r'.holds t c = true) : r.isClear t = true := by
  rw [isClear_iff] at h ⊢
  rw [hjoined] at h
  exact fun u hu c hc => h u hu c (hholds u c hc)

/-- A call that starts nothing and ends nothing clears no channel, unless it edits the patches. -/
theorem isClear_of_quiet {t : RouteId} (hquiet : op.quiet = true)
    (hfixed : ∀ groups, op ≠ .setPatches groups) (h : (step r op).isClear t = true) :
    r.isClear t = true := by
  refine isClear_of_holds h (fun u => ?_) fun u c hc => ?_
  · rw [joined, patches_step hfixed, joined]
  · exact (holds_step_of_quiet r u c hquiet).trans hc

/-- A release takes up what is parked on the channels it clears, and what is parked on the others
was parked on busy ones. -/
theorem settled_of_release (cleared : RouteId → Prop) (h : r.Settled)
    (hkept : ∀ t, ¬ cleared t → r'.isClear t = true → r.isClear t = true)
    (hlink : ∀ t c l, r'.linkOn t c = some l →
      (r'.isClear t = true ∧ cleared t → ∃ l₀, l = Deadband.settle l₀) ∧
        (¬ (r'.isClear t = true ∧ cleared t) → r.linkOn t c = some l)) : r'.Settled := by
  intro t client l hcl hl
  by_cases hcleared : cleared t
  · obtain ⟨l₀, rfl⟩ := (hlink t client l hl).1 ⟨hcl, hcleared⟩
    rfl
  · exact h t client l (hkept t hcleared hcl) ((hlink t client l hl).2 fun hc => hcleared hc.2)

theorem settled_of_link {p : Prop} [Decidable p] {x : Option (Deadband UInt8)} {l : Deadband UInt8}
    (hl : (if p then x.map Deadband.settle else x) = some l) :
    (p → ∃ l₀, l = Deadband.settle l₀) ∧ (¬ p → x = some l) := by
  constructor
  · intro hp
    rw [if_pos hp] at hl
    obtain ⟨l₀, -, rfl⟩ := Option.map_eq_some_iff.mp hl
    exact ⟨l₀, rfl⟩
  · intro hp
    rwa [if_neg hp] at hl

theorem settled_unkeyAs (h : r.Settled) (tg : RouteId) (client : ClientId) :
    (r.unkeyAs tg client).2.Settled := by
  refine settled_of_release (fun t => ∃ u ∈ r.mine tg client, t ∈ r.joined u) h
    (fun t hnone hcl => ?_) fun t c l hl => settled_of_link (by rwa [linkOn_unkeyAs] at hl)
  rw [isClear_iff] at hcl ⊢
  intro u hu c hc
  rw [joined, unkeyAs_patches, ← joined] at hcl
  -- Nothing of this channel is given back, so whoever was on it still is.
  refine hcl u hu c ((holds_unkeyAs r tg client u c).mpr ⟨hc, fun _ hmine => ?_⟩)
  exact hnone ⟨u, hmine, mem_joined_comm.mp hu⟩

theorem settled_unkey (h : r.Settled) (tg : RouteId) : (r.unkey tg).Settled := by
  refine settled_of_release (fun t => t ∈ r.joined tg) h (fun t hnone hcl => ?_)
    fun t c l hl => settled_of_link (by rwa [linkOn_unkey] at hl)
  rw [isClear_iff] at hcl ⊢
  intro u hu c hc
  rw [joined, unkey_patches, ← joined] at hcl
  refine hcl u hu c ((holds_unkey r tg u c).mpr ⟨?_, hc⟩)
  rintro rfl
  exact hnone (mem_joined_comm.mp hu)

/-- A quality is parked on a busy channel only. -/
theorem settled_setMember (h : r.Settled) (tg : RouteId) (client : ClientId) (listen : Bool)
    (quality : UInt8) : (r.setMember tg client listen quality).Settled := by
  intro t c l hcl hl
  have hclear : r.isClear t = true :=
    isClear_of_holds hcl (fun _ => rfl) fun u d hd =>
      (holds_setMember r u tg d client listen quality).trans hd
  rw [linkOn_setMember] at hl
  split_ifs at hl with hwho
  · -- The link that is told: the channel is clear, so the quality is taken at once.
    obtain ⟨rfl, rfl⟩ := hwho
    obtain rfl := Option.some.inj hl
    rw [hclear]
    cases r.linkOn t c <;> rfl
  · exact h t c l hclear hl

/-- The end of a session takes the links of its client away, if it has one. -/
theorem settled_unbind_iff (session : SessionId) :
    (step r (.unbind session)).Settled ↔ r.leavesNothingParked (.unbind session) := by
  cases hbound : r.sessionToClient.lookup session with
  | none =>
    refine settled_iff_of_departs (fun t c => ?_) fun t => ?_
    · rw [step, unbind_of_unbound hbound]
      simp [departs, clientOf, hbound]
    · refine isClear_eq_leavesClear ?_ fun u d => ?_
      · rw [step, unbind_of_unbound hbound]
      · rw [step, unbind_of_unbound hbound]
        simp [departs, clientOf, hbound]
  | some client =>
    have hdeparts : ∀ t c, r.departs (.unbind session) t c = decide (c = client) := by
      intro t c
      simp only [departs, clientOf, hbound, Option.some.injEq, eq_comm]
    refine settled_iff_of_departs (fun t c => ?_) fun t => ?_
    · simp only [step, linkOn_unbind hbound, hdeparts, decide_eq_true_eq]
    · refine isClear_eq_leavesClear ?_ fun u d => ?_
      · rw [joined, patches_step (by simp), joined]
      · rw [step, holds_unbind hbound, hdeparts, decide_eq_false_iff_not]

/-- A call keeps nothing parked on a clear channel exactly when it leaves none clear without a
release on which something is parked. -/
theorem settled_step_iff (h : r.Settled) (op : Op) :
    (step r op).Settled ↔ r.leavesNothingParked op := by
  cases op with
  -- The departures, and the closing of a route: links go, and channels may be left clear.
  | unbind session => exact settled_unbind_iff session
  | dropServer server =>
    refine settled_iff_of_departs (fun t c => ?_) fun t => ?_
    · rw [step, linkOn_dropServer]
      simp [departs]
    · refine isClear_eq_leavesClear rfl fun u d => ?_
      rw [step, holds_dropServer]
      simp [departs]
  | forgetClient client =>
    refine settled_iff_of_departs (fun t c => ?_) fun t => ?_
    · rw [step, linkOn_forgetClient]
      simp [departs]
    · refine isClear_eq_leavesClear rfl fun u d => ?_
      rw [step, holds_forgetClient]
      simp [departs]
  | close tg =>
    refine settled_iff_of_departs (fun t c => ?_) fun t => ?_
    · rw [step, linkOn_close]
      simp [departs]
    · exact isClear_eq_leavesClear rfl fun u d => holds_close r tg u d
  -- An edit of the patches: no link goes, and what is clear is what the new table joins.
  | setPatches groups =>
    exact settled_iff_of_departs (fun t c => (if_neg (by simp [departs])).symm) fun t => rfl
  -- The other calls leave nothing parked on a clear channel.
  | setMember tg client listen quality =>
    exact iff_of_true (settled_setMember h tg client listen quality) fun _ _ _ _ _ _ => rfl
  | unkeyAs tg client => exact iff_of_true (settled_unkeyAs h tg client) fun _ _ _ _ _ _ => rfl
  | unkey tg => exact iff_of_true (settled_unkey h tg) fun _ _ _ _ _ _ => rfl
  | keyAt tg client now =>
    refine iff_of_true (settled_of_keeps h (fun t hcl => isClear_of_isClear_keyAt hcl)
      fun t c l hl => ?_) fun _ _ _ _ _ _ => rfl
    rwa [step, linkOn_keyAt] at hl
  | openRoute tg encrypted =>
    refine iff_of_true (settled_of_keeps h (fun t hcl => isClear_of_quiet rfl (by simp) hcl)
      fun t c l hl => ?_) fun _ _ _ _ _ _ => rfl
    rwa [step, linkOn_openRoute] at hl
  | openConventional id am =>
    refine iff_of_true (settled_of_keeps h (fun t hcl => isClear_of_quiet rfl (by simp) hcl)
      fun t c l hl => ?_) fun _ _ _ _ _ _ => rfl
    rwa [step, linkOn_openConventional] at hl
  | bind session username =>
    refine iff_of_true (settled_of_keeps h (fun t hcl => isClear_of_quiet rfl (by simp) hcl)
      fun t c l hl => ?_) fun _ _ _ _ _ _ => rfl
    simp only [step, bind] at hl
    split at hl <;> exact hl
  | forgetMembership client =>
    refine iff_of_true (settled_of_keeps h (fun t hcl => isClear_of_quiet rfl (by simp) hcl)
      fun t c l hl => ?_) fun _ _ _ _ _ _ => rfl
    rw [step, linkOn_forgetMembership] at hl
    split_ifs at hl
    exact hl

end Step

/-! ### Runs -/

theorem settled_empty : Router.empty.Settled := by
  intro t client l _ hl
  simp [linkOn, Router.empty] at hl

/-- **No quality lag between calls.** Throughout a run, every member of a clear channel is stored at
the quality last told, exactly when each call of the run leaves no channel clear without a release
on which a quality is parked. -/
theorem noLag_iff_along (ops : List Op) :
    (∀ pre, pre <+: ops → NoLag pre) ↔ Along step leavesNothingParked Router.empty ops := by
  simp only [noLag_iff_settled]
  exact forall_prefix_iff_along (P := Settled) (B := fun _ => True) (fun _ _ _ => trivial)
    (fun _ op _ h => settled_step_iff h op) trivial settled_empty ops

/-- A quality is parked while a player talks, whose session then ends. -/
def cutShort : List Op :=
  [.openRoute 1 false, .bind ⟨1, 10⟩ "[7] A".toList, .setMember 1 ⟨1, 8⟩ true 93,
    .keyAt 1 ⟨1, 7⟩ 0, .setMember 1 ⟨1, 8⟩ true 92, .unbind ⟨1, 10⟩]

/-- The channel is clear, and the listener is still stored at the quality before the last. -/
theorem cutShort_lags : ¬ NoLag cutShort := by
  intro h
  have hstored := h 1 ⟨1, 8⟩ _ _ (by decide) rfl rfl
  exact absurd hstored (by decide)

end Router

end RfxVoiced
