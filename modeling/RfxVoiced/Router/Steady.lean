import Mathlib.Data.List.Infix
import RfxVoiced.Router.Quality

/-!
# No decoder is swapped during a call

While a channel is busy, the lane of a member is pinned. A quality of the same lane may be stored,
one of a neighbouring lane is parked, and what is parked is taken up only on a clear channel. So as
long as a link stays within one lane of where it was, its listener stays on one decoder, whatever
other clients do meanwhile.

## Main definitions

* `Router.storedQuality` — the quality a member is served at
* `WithinOneLane` — one lane apart at most, and both silent or both audible

## Main results

* `jittersOneLane_iff` — what is parked on a busy channel
* `lane_storedQuality_step` — a step on a channel that stays busy keeps the lane
* `lane_never_swaps` — a run keeps it
-/

namespace RfxVoiced

theorem Dsp.laneStep_dvd_laneOf (quality : UInt8) :
    Dsp.laneStep.toNat ∣ (Dsp.laneOf quality).toNat := by
  simp only [Dsp.laneOf]
  split_ifs
  · exact Nat.dvd_zero _
  · -- A multiple of the step, which is no larger than what was divided and does not wrap.
    rw [UInt8.toNat_mul, UInt8.toNat_div,
      Nat.mod_eq_of_lt ((Nat.div_mul_le_self _ _).trans_lt (UInt8.toNat_lt _))]
    exact Nat.dvd_mul_left _ _

namespace Router

/-- What is parked on a busy channel: a quality exactly one lane away. -/
theorem jittersOneLane_iff {was now : UInt8} :
    jittersOneLane was now = true ↔ OneLaneApart was now := by
  refine ⟨oneLaneApart_of_jitters, ?_⟩
  rintro ⟨hlane, hmuted⟩
  simp only [jittersOneLane, hmuted, ne_eq, not_true_eq_false, if_false, decide_eq_true_eq]
  apply UInt8.toNat_inj.mp
  split_ifs with hle
  · rw [UInt8.toNat_sub_of_le _ _ hle]
    rw [UInt8.le_iff_toNat_le] at hle
    simp only [Dsp.laneStep, UInt8.reduceToNat] at hlane ⊢
    omega
  · have hge : Dsp.laneOf now ≤ Dsp.laneOf was := by
      rw [UInt8.le_iff_toNat_le] at hle ⊢
      omega
    rw [UInt8.toNat_sub_of_le _ _ hge]
    rw [UInt8.le_iff_toNat_le] at hle
    simp only [Dsp.laneStep, UInt8.reduceToNat] at hlane ⊢
    omega

/-- Two qualities render at most one lane apart, and are both silent or both audible. -/
def WithinOneLane (was now : UInt8) : Prop :=
  (Dsp.laneOf now).toNat ≤ (Dsp.laneOf was).toNat + Dsp.laneStep.toNat ∧
    (Dsp.laneOf was).toNat ≤ (Dsp.laneOf now).toNat + Dsp.laneStep.toNat ∧
    Dsp.profileMuted (Dsp.laneOf was) = Dsp.profileMuted (Dsp.laneOf now)

/-- Lanes are a whole number of steps apart: what is near and not parked is on the same lane. -/
theorem laneOf_eq_of_not_jitters {was now : UInt8} (hnear : WithinOneLane was now)
    (hjitters : ¬ jittersOneLane was now = true) : Dsp.laneOf now = Dsp.laneOf was := by
  obtain ⟨hbelow, habove, hmuted⟩ := hnear
  have hapart : ¬ ((Dsp.laneOf was).toNat + Dsp.laneStep.toNat = (Dsp.laneOf now).toNat ∨
      (Dsp.laneOf now).toNat + Dsp.laneStep.toNat = (Dsp.laneOf was).toNat) := fun hlane =>
    hjitters (jittersOneLane_iff.mpr ⟨hlane, hmuted⟩)
  obtain ⟨m, hm⟩ := Dsp.laneStep_dvd_laneOf was
  obtain ⟨n, hn⟩ := Dsp.laneStep_dvd_laneOf now
  simp only [Dsp.laneStep, UInt8.reduceToNat] at hbelow habove hapart hm hn
  apply UInt8.toNat_inj.mp
  omega

variable {r : Router} {t : RouteId} {client : ClientId}

/-- The quality that a member of a route is served at. -/
def storedQuality (r : Router) (t : RouteId) (client : ClientId) : Option UInt8 :=
  (r.routes.lookup t).bind fun route => (route.members.lookup client).map Member.quality

theorem storedQuality_eq (r : Router) (t : RouteId) (client : ClientId) :
    r.storedQuality t client = (r.linkOn t client).map Deadband.held := by
  rw [storedQuality, linkOn, Option.map_bind]
  refine congrArg (Option.bind _) (funext fun route => ?_)
  rw [Function.comp_apply, Option.map_map]
  rfl

/-- A step on a channel that is busy before and after it keeps the lane of a member that stays, when
it tells the member nothing further than one lane away. -/
theorem lane_storedQuality_step {op : Op} {was now : UInt8}
    (hbefore : r.isClear t = false) (hafter : (step r op).isClear t = false)
    (hwas : r.storedQuality t client = some was)
    (hnow : (step r op).storedQuality t client = some now)
    (htold : ∀ quality, qualityTold t client r op = some quality → WithinOneLane was quality) :
    Dsp.laneOf now = Dsp.laneOf was := by
  rw [storedQuality_eq] at hwas hnow
  obtain ⟨l₀, hl₀, rfl⟩ := Option.map_eq_some_iff.mp hwas
  obtain ⟨l, hl, rfl⟩ := Option.map_eq_some_iff.mp hnow
  rcases linkOn_step hl with ⟨quality, htells, rfl⟩ | ⟨-, l₁, hl₁, hkept⟩
  · rw [hl₀, hbefore]
    simp only [tellLink, Deadband.tell, Bool.not_false, Bool.true_and]
    split_ifs with hjitters
    · rfl
    · exact laneOf_eq_of_not_jitters (htold quality htells) hjitters
  · obtain rfl : l₁ = l₀ := Option.some.inj (hl₁.symm.trans hl₀)
    rcases hkept with rfl | ⟨-, hclear⟩
    · rfl
    · exact absurd (hafter.symm.trans hclear) (by decide)

theorem setMember_of_qualityTold {op : Op} {quality : UInt8}
    (h : qualityTold t client r op = some quality) :
    ∃ listen, op = .setMember t client listen quality := by
  cases op with
  | setMember tg client' listen quality' =>
    simp only [qualityTold] at h
    split_ifs at h with hwho
    obtain ⟨rfl, rfl⟩ := hwho
    obtain rfl := Option.some.inj h
    exact ⟨listen, rfl⟩
  | _ => exact absurd h (by simp [qualityTold])

/-- **Jitter never swaps a decoder during a call.** Throughout a run in which a channel is busy and
a client stays a member of it, if every quality told for that member is within one lane of the one
stored at the start, and silent or audible alike, then the stored quality keeps its lane. -/
theorem lane_never_swaps {q₀ : UInt8} (ops : List Op)
    (hstart : r.storedQuality t client = some q₀)
    (hbusy : ∀ pre, pre <+: ops → (run step r pre).isClear t = false)
    (hstays : ∀ pre, pre <+: ops → ((run step r pre).storedQuality t client).isSome = true)
    (htold : ∀ listen quality, Op.setMember t client listen quality ∈ ops →
      WithinOneLane q₀ quality) :
    ∀ pre, pre <+: ops → ∃ quality, (run step r pre).storedQuality t client = some quality ∧
      Dsp.laneOf quality = Dsp.laneOf q₀ := by
  intro pre hpre
  induction pre using List.reverseRecOn with
  | nil => exact ⟨q₀, hstart, rfl⟩
  | append_singleton pre op ih =>
    have hinit : pre <+: ops := (List.prefix_append pre [op]).trans hpre
    have hop : op ∈ ops := hpre.subset (by simp)
    obtain ⟨was, hwas, hlane⟩ := ih hinit
    obtain ⟨now, hnow⟩ := Option.isSome_iff_exists.mp (hstays _ hpre)
    have hafter := hbusy _ hpre
    rw [run_concat] at hnow hafter
    refine ⟨now, by rwa [run_concat], ?_⟩
    rw [← hlane]
    refine lane_storedQuality_step (hbusy pre hinit) hafter hwas hnow fun quality htells => ?_
    obtain ⟨listen, rfl⟩ := setMember_of_qualityTold htells
    simpa only [WithinOneLane, hlane] using htold listen quality hop

/-- A listener at 93 while a player talks. -/
def talking : Router :=
  after [.openRoute 1 false, .setMember 1 ⟨1, 8⟩ true 93, .keyAt 1 ⟨1, 7⟩ 0]

/-- The link wavers over the edge of its lane, while a second player tries to key. -/
theorem talking_stays_on_lane :
    let ops : List Op := [.setMember 1 ⟨1, 8⟩ true 92, .keyAt 1 ⟨1, 9⟩ 5,
      .setMember 1 ⟨1, 8⟩ true 96, .setMember 1 ⟨1, 8⟩ true 98]
    ∃ quality, (run step talking ops).storedQuality 1 ⟨1, 8⟩ = some quality ∧
      Dsp.laneOf quality = Dsp.laneOf 93 := by
  intro ops
  refine lane_never_swaps (r := talking) ops (by decide) ?_ ?_ ?_ ops List.prefix_rfl
  · intro pre hpre
    have hall : ∀ pre ∈ ops.inits, (run step talking pre).isClear 1 = false := by decide
    exact hall pre ((List.mem_inits pre ops).mpr hpre)
  · intro pre hpre
    have hall : ∀ pre ∈ ops.inits,
        ((run step talking pre).storedQuality 1 ⟨1, 8⟩).isSome = true := by decide
    exact hall pre ((List.mem_inits pre ops).mpr hpre)
  · intro listen quality hop
    simp only [ops, List.mem_cons, Op.setMember.injEq, reduceCtorEq, List.not_mem_nil, true_and,
      false_or, or_false] at hop
    rcases hop with ⟨-, rfl⟩ | ⟨-, rfl⟩ | ⟨-, rfl⟩ <;> unfold WithinOneLane <;> decide

end Router

end RfxVoiced
