import RfxVoiced.Dsp.Draining

/-!
# Whom a lane waits for

A lane waits for every talker who has a queue on it, until the talker is gone. Queues are kept by
lane and talker, but when a talker was last heard of is kept by talker only. So a talker who has
left a lane, and goes on contributing to another, is still waited for on the first.

## Main definitions

* `AmMix.Op`, `AmMix.after` — what is done to a mixer, in any order
* `AmMix.lastAdd`, `AmMix.lastAddTo` — when a talker last contributed anything, and to a lane

## Main results

* `seen_after` — a mixer knows when each talker it has a queue of last contributed anything
* `emits_iff` — when a lane comes out
-/

namespace RfxVoiced.Dsp.AmMix

/-- What is done to a mixer. -/
inductive Op
  | add (lane : LegKey) (talker : UInt32) (pcm : List Int16) (now : Instant)
  | drain (now : Instant)

variable {S : Signal} {m : AmMix S} {lane : LegKey} {t : UInt32} {now : Instant}

def step (m : AmMix S) : Op → AmMix S
  | .add lane talker pcm now => m.add lane talker pcm now
  | .drain now => (m.drain now).2

/-- The mixer that a list of operations leads to. -/
def after (S : Signal) (ops : List Op) : AmMix S := run step (AmMix.new S) ops

@[simp] theorem after_concat (ops : List Op) (op : Op) :
    after S (ops ++ [op]) = step (after S ops) op := run_concat step _ ops op

/-- When an operation contributes anything of the talker. -/
def adds (t : UInt32) (_ : AmMix S) : Op → Option Instant
  | .add _ talker _ now => if talker = t then some now else none
  | .drain _ => none

/-- When an operation contributes anything of the talker to the lane. -/
def addsTo (lane : LegKey) (t : UInt32) (_ : AmMix S) : Op → Option Instant
  | .add lane' talker _ now => if lane' = lane ∧ talker = t then some now else none
  | .drain _ => none

/-- When the talker last contributed anything. -/
def lastAdd (S : Signal) (t : UInt32) (ops : List Op) : Option Instant :=
  lastSeen step (adds t) (AmMix.new S) ops

/-- When the talker last contributed anything to the lane. -/
def lastAddTo (S : Signal) (lane : LegKey) (t : UInt32) (ops : List Op) : Option Instant :=
  lastSeen step (addsTo lane t) (AmMix.new S) ops

/-- What a mixer knows of when a talker was last heard of is right, and it knows it of everybody it
has a queue of. -/
theorem seen_after (ops : List Op) :
    (∀ t at_, (after S ops).seen.lookup t = some at_ → lastAdd S t ops = some at_) ∧
      ∀ lane t, ((after S ops).queues.lookup (lane, t)).isSome = true →
        ((after S ops).seen.lookup t).isSome = true := by
  induction ops using List.reverseRecOn with
  | nil => exact ⟨fun t at_ h => by simp [after, AmMix.new] at h,
      fun lane t h => by simp [after, AmMix.new] at h⟩
  | append_singleton ops op ih =>
    obtain ⟨hseen, hknown⟩ := ih
    have hlast : ∀ t, lastAdd S t (ops ++ [op]) =
        (adds t (after S ops) op).or (lastAdd S t ops) :=
      fun t => lastSeen_concat step (adds t) (AmMix.new S) ops op
    -- An addition is the last thing heard of its talker, and a drain can only forget.
    cases op with
    | add lane talker pcm now =>
      refine ⟨fun t at_ h => ?_, fun lane' t h => ?_⟩
      · rw [after_concat, step, seen_add] at h
        rw [hlast, adds]
        split_ifs at h with ht
        · rw [if_pos ht.symm, Option.some_or, h]
        · rw [if_neg (Ne.symm ht), Option.none_or, hseen t at_ h]
      · rw [after_concat, step, lookup_add] at h
        rw [after_concat, step, seen_add]
        split_ifs with ht
        · rfl
        · rw [if_neg fun heq => ht (congrArg Prod.snd heq)] at h
          exact hknown lane' t h
    | drain now =>
      refine ⟨fun t at_ h => ?_, fun lane' t h => ?_⟩
      · rw [after_concat, step, seen_drain, forget, Table.lookup_retain] at h
        rw [hlast, adds, Option.none_or]
        exact hseen t at_ (Option.filter_eq_some_iff.mp h).1
      · -- A queue that a drain keeps is of somebody who is present.
        rw [after_concat, step, lookup_drain] at h
        rw [after_concat, step, seen_drain, forget, Table.lookup_retain]
        split_ifs at h with hpresent
        · rw [present] at hpresent
          obtain ⟨at_, hat⟩ := Option.isSome_iff_exists.mp (Option.isSome_of_any hpresent)
          rw [hat, Option.any_some] at hpresent
          rw [hat, Option.filter_some, if_pos hpresent]
          rfl
        · cases h

/-- Somebody with a queue is present exactly when they have contributed something lately, to
whatever lane. -/
theorem present_after_iff {ops : List Op} {q : List Int16}
    (hq : (after S ops).queues.lookup (lane, t) = some q) :
    (after S ops).present now t = true ↔
      ∃ at_, lastAdd S t ops = some at_ ∧ (now - at_) / 1000000 ≤ amGoneMs := by
  obtain ⟨hseen, hknown⟩ := seen_after (S := S) ops
  obtain ⟨at_, hat⟩ := Option.isSome_iff_exists.mp
    (hknown lane t (Option.isSome_of_eq_some hq))
  rw [present, hat, Option.any_some, decide_eq_true_iff, hseen t at_ hat]
  simp

/-- One who is present has a frame queued on the lane, and everybody else with a queue there has a
frame too, or has long added nothing to the lane. -/
structure Supplied (S : Signal) (ops : List Op) (now : Instant) (lane : LegKey) (t₀ : UInt32) :
    Prop where
  present : (after S ops).present now t₀ = true
  framed : ∃ q, (after S ops).queues.lookup (lane, t₀) = some q ∧ amFrame ≤ q.length
  others : ∀ t q, t ≠ t₀ → (after S ops).queues.lookup (lane, t) = some q →
    amFrame ≤ q.length ∨
      ∀ at_, lastAddTo S lane t ops = some at_ → amGoneMs * 1000000 < now - at_

/-- **Whom a lane waits for.** A lane on which somebody has a frame, and everybody else has one too
or has left, comes out exactly when everybody whose queue there is short has long added nothing to
any lane. -/
theorem emits_iff (ops : List Op) (now : Instant) (lane : LegKey) {t₀ : UInt32}
    (h : Supplied S ops now lane t₀) :
    (∃ pcm, (lane, pcm) ∈ ((after S ops).drain now).1 ∧ amFrame ≤ pcm.length) ↔
      ∀ t q, (after S ops).queues.lookup (lane, t) = some q → q.length < amFrame →
        ∀ at_, lastAdd S t ops = some at_ → amGoneMs < (now - at_) / 1000000 := by
  obtain ⟨q₀, hq₀, -⟩ := h.framed
  have hdue : 0 < (after S ops).framesDue now lane ↔
      ∀ t q, (after S ops).queues.lookup (lane, t) = some q → q.length < amFrame →
        ∀ at_, lastAdd S t ops = some at_ → amGoneMs < (now - at_) / 1000000 := by
    rw [framesDue_pos_iff, and_iff_right ⟨t₀, q₀, h.present, hq₀⟩]
    refine forall₂_congr fun t q => ?_
    constructor
    · intro hall hq hshort at_ hat
      by_contra hlate
      have hhere := (present_after_iff hq).mpr ⟨at_, hat, not_lt.mp hlate⟩
      exact absurd (hall hhere hq) (not_le.mpr hshort)
    · intro hgone hhere hq
      by_contra hshort
      obtain ⟨at_, hat, hlately⟩ := (present_after_iff hq).mp hhere
      exact absurd hlately (not_le.mpr (hgone hq (not_le.mp hshort) at_ hat))
  rw [← hdue]
  constructor
  · rintro ⟨pcm, hpcm, -⟩
    exact mem_keys_drain.mp (List.mem_map_of_mem (f := Prod.fst) hpcm)
  · intro hpos
    obtain ⟨x, hx, rfl⟩ := List.mem_map.mp (mem_keys_drain.mpr hpos)
    refine ⟨x.2, hx, ?_⟩
    obtain ⟨phase, heq⟩ := ((after S ops).drain_fst_spec now).2 x hx
    rw [heq, mixedLane, List.length_map, List.length_range]
    exact Nat.le_mul_of_pos_left amFrame hpos

/-- Two lanes: that of a listener on a good link, and that of one on a bad link. -/
def clearLane : LegKey := (.am, 100, false)

def noisyLane : LegKey := (.am, 40, false)

def said (n : ℕ) : List Int16 := List.replicate n 1

/-- The second talker leaves the clear lane with a part of a frame on it, when its last listener
there moves to the noisy one, and goes on there. A fifth of a second later the first has a frame on
the clear lane. -/
def movedOn : List Op :=
  [.add clearLane 2 (said 10) 0, .add noisyLane 2 (said 5) 200000000,
    .add clearLane 1 (said 160) 200000000]

/-- The same, but that the second talker goes on nowhere. -/
def leftForGood : List Op := [.add clearLane 2 (said 10) 0, .add clearLane 1 (said 160) 200000000]

theorem lookup_leftForGood (t : UInt32) :
    (after S leftForGood).queues.lookup (clearLane, t) =
      if t = 1 then some (said 160) else if t = 2 then some (said 10) else none := by
  simp [after, leftForGood, step, lookup_add, AmMix.new]

theorem lookup_movedOn (t : UInt32) :
    (after S movedOn).queues.lookup (clearLane, t) =
      if t = 1 then some (said 160) else if t = 2 then some (said 10) else none := by
  have hne : clearLane ≠ noisyLane := by decide
  simp [after, movedOn, step, lookup_add, AmMix.new, hne]

/-- Where the second talker has long left, the clear lane is supplied. -/
theorem supplied_of_left {ops : List Op}
    (hqueues : ∀ t, (after S ops).queues.lookup (clearLane, t) =
      if t = 1 then some (said 160) else if t = 2 then some (said 10) else none)
    (hpresent : (after S ops).present 200000000 1 = true)
    (hleft : lastAddTo S clearLane 2 ops = some 0) :
    Supplied S ops 200000000 clearLane 1 := by
  refine ⟨hpresent, ⟨said 160, (hqueues 1).trans (if_pos rfl), by simp [said, amFrame]⟩, ?_⟩
  intro t q ht hq
  rw [hqueues, if_neg ht] at hq
  split_ifs at hq with htwo
  subst htwo
  refine Or.inr fun at_ hat => ?_
  obtain rfl : 0 = at_ := Option.some.inj (hleft.symm.trans hat)
  decide

/-- The clear lane waits for the second talker, and does not come out. -/
theorem movedOn_stalls :
    Supplied Signal.passing movedOn 200000000 clearLane 1 ∧
      ((after Signal.passing movedOn).drain 200000000).1 = [] :=
  ⟨supplied_of_left lookup_movedOn (by decide) (by decide), by decide +kernel⟩

/-- Had it gone on nowhere, the lane would come out. -/
theorem leftForGood_emits :
    ∃ pcm, (clearLane, pcm) ∈ ((after Signal.passing leftForGood).drain 200000000).1 ∧
      amFrame ≤ pcm.length := by
  refine (emits_iff leftForGood 200000000 clearLane
    (supplied_of_left lookup_leftForGood (by decide) (by decide))).mpr
    fun t q hq hshort at_ hat => ?_
  rw [lookup_leftForGood] at hq
  split_ifs at hq with hone htwo
  · obtain rfl := Option.some.inj hq
    simp [said, amFrame] at hshort
  · subst htwo
    obtain rfl : 0 = at_ := Option.some.inj hat
    decide

end RfxVoiced.Dsp.AmMix
