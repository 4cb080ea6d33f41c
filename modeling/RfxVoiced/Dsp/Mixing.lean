import Mathlib.Algebra.BigOperators.Group.List.Basic
import Mathlib.Algebra.Ring.Int.Defs
import RfxVoiced.Dsp.AmMix
import RfxVoiced.Lib.Run

/-!
# What a mixer gives out, sample by sample

A mixer goes through its tables in the order in which they happen to list their keys. What it gives
out does not depend on that: lanes are sorted first, each lane is taken from by itself, and the
talkers of a lane are summed. The sums are of 32 bits, and wrap. They are computed here as integers,
brought back into 32 bits once at the end.

## Main definitions

* `AmMix.queue`, `AmMix.sampleSum` — what is queued of a talker, and the sum over the talkers
* `AmMix.mixed` — one sample of the mix
* `AmMix.SameQueues` — two mixers have the same queued, in whatever order they list it

## Main results

* `pairwise_lanes`, `lanes_congr` — lanes come in order, whatever the order of the tables
* `mixSamples_spec` — so many samples of the mix, and what they leave
* `run_mixLane_spec` — the same for all lanes, one after the other
* `run_mixLane_congr` — mixers with the same queues give out the same
-/

namespace RfxVoiced.Dsp

/-! ### The order of lanes -/

/-- The place of a lane in the order. -/
def laneRank (k : LegKey) : ℕ := (k.1.toNat * 256 + k.2.1.toNat) * 2 + k.2.2.toNat

theorem Mode.toNat_inj {a b : Mode} : a.toNat = b.toNat ↔ a = b := by
  cases a <;> cases b <;> decide

theorem laneLe_iff {a b : LegKey} : laneLe a b ↔ laneRank a ≤ laneRank b := by
  obtain ⟨modeA, qualityA, bridgedA⟩ := a
  obtain ⟨modeB, qualityB, bridgedB⟩ := b
  have hbridged : (bridgedA = true → bridgedB = true) ↔ bridgedA.toNat ≤ bridgedB.toNat := by
    cases bridgedA <;> cases bridgedB <;> decide
  have hA := qualityA.toNat_lt
  have hB := qualityB.toNat_lt
  have hA' := bridgedA.toNat_le
  have hB' := bridgedB.toNat_le
  simp only [laneLe, laneRank, ← Mode.toNat_inj, UInt8.lt_iff_toNat_lt, ← UInt8.toNat_inj, hbridged]
  omega

theorem laneRank_inj {a b : LegKey} (h : laneRank a = laneRank b) : a = b := by
  obtain ⟨modeA, qualityA, bridgedA⟩ := a
  obtain ⟨modeB, qualityB, bridgedB⟩ := b
  have hA := qualityA.toNat_lt
  have hB := qualityB.toNat_lt
  have hA' := bridgedA.toNat_le
  have hB' := bridgedB.toNat_le
  have hinj : ∀ x y : Bool, x.toNat = y.toNat → x = y := by decide
  simp only [laneRank] at h
  have hmode : modeA = modeB := Mode.toNat_inj.mp (by omega)
  have hquality : qualityA = qualityB := UInt8.toNat_inj.mp (by omega)
  have hbridged : bridgedA = bridgedB := hinj _ _ (by omega)
  rw [hmode, hquality, hbridged]

instance : Std.Total laneLe :=
  ⟨fun a b => by rw [laneLe_iff, laneLe_iff]; exact Nat.le_total _ _⟩

instance : IsTrans LegKey laneLe :=
  ⟨fun a b c => by rw [laneLe_iff, laneLe_iff, laneLe_iff]; exact Nat.le_trans⟩

instance : Std.Antisymm laneLe :=
  ⟨fun _ _ h h' => laneRank_inj (Nat.le_antisymm (laneLe_iff.mp h) (laneLe_iff.mp h'))⟩

/-- One lane comes before another. -/
def laneLt (a b : LegKey) : Prop := laneLe a b ∧ a ≠ b

/-! ### Sums -/

/-- The sum is one that 32 bits hold. -/
def Fits (z : ℤ) : Prop := -2 ^ 31 ≤ z ∧ z < 2 ^ 31

theorem Fits.toInt_ofInt {z : ℤ} (h : Fits z) : (Int32.ofInt z).toInt = z :=
  Int32.toInt_ofInt_of_le h.1 h.2

namespace AmMix

variable {S : Signal} {m m' : AmMix S} {lane : LegKey} {talkers : List UInt32} {t : UInt32}

theorem mem_lanes : lane ∈ m.lanes ↔ ∃ t, (m.queues.lookup (lane, t)).isSome = true := by
  rw [lanes, List.mem_dedup, List.mem_insertionSort, List.mem_map]
  constructor
  · rintro ⟨⟨lane', t⟩, hk, rfl⟩
    exact ⟨t, AList.lookup_isSome.mpr (AList.mem_keys.mpr hk)⟩
  · rintro ⟨t, ht⟩
    exact ⟨(lane, t), AList.mem_keys.mp (AList.lookup_isSome.mp ht), rfl⟩

theorem mem_talkersOf : t ∈ m.talkersOf lane ↔ (m.queues.lookup (lane, t)).isSome = true := by
  rw [talkersOf, List.mem_map]
  constructor
  · rintro ⟨⟨lane', t'⟩, hk, rfl⟩
    obtain ⟨hmem, hlane⟩ := List.mem_filter.mp hk
    obtain rfl : lane' = lane := of_decide_eq_true hlane
    exact AList.lookup_isSome.mpr (AList.mem_keys.mpr hmem)
  · intro ht
    have hk := AList.mem_keys.mp (AList.lookup_isSome.mp ht)
    exact ⟨(lane, t), List.mem_filter.mpr ⟨hk, decide_eq_true rfl⟩, rfl⟩

theorem mem_talkersOf_of_lookup {q : List Int16} (h : m.queues.lookup (lane, t) = some q) :
    t ∈ m.talkersOf lane := mem_talkersOf.mpr (Option.isSome_of_eq_some h)

theorem queued_of_lookup {q : List Int16} (h : m.queues.lookup (lane, t) = some q) :
    m.queued lane t = q.length := by rw [queued, h, Option.getD_some]

theorem nodup_talkersOf (m : AmMix S) (lane : LegKey) : (m.talkersOf lane).Nodup := by
  refine List.Nodup.map_on ?_ (m.queues.keys_nodup.filter _)
  rintro ⟨lane₁, t₁⟩ h₁ ⟨lane₂, t₂⟩ h₂ htalker
  have hlane₁ : lane₁ = lane := of_decide_eq_true (List.mem_filter.mp h₁).2
  have hlane₂ : lane₂ = lane := of_decide_eq_true (List.mem_filter.mp h₂).2
  exact Prod.ext (hlane₁.trans hlane₂.symm) htalker

theorem length_talkersOf_le (m : AmMix S) (lane : LegKey) :
    (m.talkersOf lane).length ≤ m.queues.keys.length := by
  rw [talkersOf, List.length_map]
  exact List.length_filter_le _ _

theorem talkersOf_ne_nil (h : lane ∈ m.lanes) : m.talkersOf lane ≠ [] := by
  obtain ⟨t, ht⟩ := mem_lanes.mp h
  exact List.ne_nil_of_mem (mem_talkersOf.mpr ht)

/-- Lanes come in order. -/
theorem pairwise_lanes (m : AmMix S) : m.lanes.Pairwise laneLt := by
  have hsorted : m.lanes.Pairwise laneLe :=
    (List.pairwise_insertionSort laneLe (m.queues.keys.map Prod.fst)).sublist
      (List.dedup_sublist _)
  exact hsorted.imp₂ (fun _ _ hle hne => ⟨hle, hne⟩) m.nodup_lanes

/-! ### What is queued -/

theorem lookup_add (m : AmMix S) (lane : LegKey) (talker : UInt32) (pcm : List Int16)
    (now : Instant) (k : LegKey × UInt32) :
    (m.add lane talker pcm now).queues.lookup k =
      if k = (lane, talker) then some ((m.queues.lookup (lane, talker)).getD [] ++ pcm)
      else m.queues.lookup k := Table.lookup_insert ..

theorem seen_add (m : AmMix S) (lane : LegKey) (talker : UInt32) (pcm : List Int16)
    (now : Instant) (t : UInt32) :
    (m.add lane talker pcm now).seen.lookup t =
      if t = talker then some now else m.seen.lookup t := Table.lookup_insert ..

/-- What is queued of a talker on a lane. -/
def queue (m : AmMix S) (lane : LegKey) (t : UInt32) : List Int16 :=
  (m.queues.lookup (lane, t)).getD []

/-- The sum of what talkers have queued at one place; past the end of a queue there is nothing. -/
def sampleSum (m : AmMix S) (lane : LegKey) (talkers : List UInt32) (i : ℕ) : ℤ :=
  (talkers.map fun t => ((m.queue lane t)[i]?.getD 0).toInt).sum

theorem sampleSum_bounds (m : AmMix S) (lane : LegKey) (talkers : List UInt32) (i : ℕ) :
    -32768 * talkers.length ≤ m.sampleSum lane talkers i ∧
      m.sampleSum lane talkers i ≤ 32767 * talkers.length := by
  induction talkers with
  | nil => exact ⟨le_refl _, le_refl _⟩
  | cons t talkers ih =>
    have hsum : m.sampleSum lane (t :: talkers) i =
        ((m.queue lane t)[i]?.getD 0).toInt + m.sampleSum lane talkers i := List.sum_cons
    have hlow := Int16.le_toInt ((m.queue lane t)[i]?.getD 0)
    have hhigh := Int16.toInt_lt ((m.queue lane t)[i]?.getD 0)
    rw [hsum, List.length_cons]
    omega

/-- The mixers have the same queued on a lane. -/
def AgreeOn (lane : LegKey) (m m' : AmMix S) : Prop :=
  ∀ t, m.queues.lookup (lane, t) = m'.queues.lookup (lane, t)

/-- The mixers have the same queued, whatever the order in which their tables list it. -/
def SameQueues (m m' : AmMix S) : Prop := ∀ k, m.queues.lookup k = m'.queues.lookup k

theorem SameQueues.agreeOn (h : m.SameQueues m') (lane : LegKey) : AgreeOn lane m m' :=
  fun t => h (lane, t)

theorem AgreeOn.queue (h : AgreeOn lane m m') (t : UInt32) : m.queue lane t = m'.queue lane t := by
  rw [AmMix.queue, AmMix.queue, h]

/-- The talkers of a lane may be listed in another order. -/
theorem AgreeOn.talkersOf (h : AgreeOn lane m m') :
    (m.talkersOf lane).Perm (m'.talkersOf lane) := by
  rw [List.perm_ext_iff_of_nodup (m.nodup_talkersOf lane) (m'.nodup_talkersOf lane)]
  intro t
  rw [mem_talkersOf, mem_talkersOf, h t]

theorem AgreeOn.sampleSum (h : AgreeOn lane m m') {talkers' : List UInt32}
    (hperm : talkers.Perm talkers') (i : ℕ) :
    m.sampleSum lane talkers i = m'.sampleSum lane talkers' i := by
  rw [AmMix.sampleSum, AmMix.sampleSum]
  simp only [h.queue]
  exact (hperm.map _).sum_eq

/-- Tables that list their keys in another order have the same lanes, in the same order. -/
theorem lanes_congr (h : m.SameQueues m') : m.lanes = m'.lanes := by
  refine List.Perm.eq_of_pairwise' (r := laneLe) (m.pairwise_lanes.imp And.left)
    (m'.pairwise_lanes.imp And.left) ?_
  rw [List.perm_ext_iff_of_nodup m.nodup_lanes m'.nodup_lanes]
  intro lane
  rw [mem_lanes, mem_lanes]
  exact exists_congr fun t => by rw [h]

/-! ### One sample -/

theorem toInt32_eq (s : Int16) : s.toInt32 = Int32.ofInt s.toInt := by
  rw [← Int16.toInt_toInt32, Int32.ofInt_toInt]

theorem popSum_concat_of_dry (h : (m.popSum lane talkers).2.queue lane t = []) :
    m.popSum lane (talkers ++ [t]) = m.popSum lane talkers := by
  rw [queue] at h
  rw [popSum, List.foldl_concat, ← popSum]
  cases hq : (m.popSum lane talkers).2.queues.lookup (lane, t) with
  | none => rfl
  | some q =>
    rw [hq, Option.getD_some] at h
    subst h
    rfl

theorem popSum_concat_of_some {s : Int16} {rest : List Int16}
    (h : (m.popSum lane talkers).2.queues.lookup (lane, t) = some (s :: rest)) :
    m.popSum lane (talkers ++ [t]) = ((m.popSum lane talkers).1 + s.toInt32,
      { (m.popSum lane talkers).2 with
        queues := (m.popSum lane talkers).2.queues.insert (lane, t) rest }) := by
  rw [popSum, List.foldl_concat, ← popSum, h]

theorem sampleSum_concat (m : AmMix S) (lane : LegKey) (talkers : List UInt32) (t : UInt32)
    (i : ℕ) : m.sampleSum lane (talkers ++ [t]) i =
      m.sampleSum lane talkers i + ((m.queue lane t)[i]?.getD 0).toInt := by
  rw [sampleSum, List.map_append, List.sum_append, List.map_singleton, List.sum_singleton,
    ← sampleSum]

/-- One sample of each talker: their sum, wrapped once, and queues that are one sample shorter. -/
theorem popSum_spec (m : AmMix S) (lane : LegKey) (h : talkers.Nodup) :
    (m.popSum lane talkers).1 = Int32.ofInt (m.sampleSum lane talkers 0) ∧
      (∀ k, (m.popSum lane talkers).2.queues.lookup k =
        if k.1 = lane ∧ k.2 ∈ talkers then (m.queues.lookup k).map List.tail
        else m.queues.lookup k) ∧
      (m.popSum lane talkers).2.seen = m.seen ∧ (m.popSum lane talkers).2.phase = m.phase := by
  induction talkers using List.reverseRecOn with
  | nil => exact ⟨rfl, fun k => (if_neg fun hk => List.not_mem_nil hk.2).symm, rfl, rfl⟩
  | append_singleton talkers t ih =>
    rw [← List.concat_eq_append, List.nodup_concat] at h
    obtain ⟨hsum, hqueues, hseen, hphase⟩ := ih h.2
    -- Nothing has been taken of the last talker yet.
    have hlast : (m.popSum lane talkers).2.queues.lookup (lane, t) = m.queues.lookup (lane, t) := by
      rw [hqueues, if_neg fun hk => h.1 hk.2]
    have hmem : ∀ k : LegKey × UInt32, (k.1 = lane ∧ k.2 ∈ talkers ++ [t]) ↔
        (k.1 = lane ∧ k.2 ∈ talkers) ∨ k = (lane, t) := by
      rintro ⟨lane', t'⟩
      simp only [List.mem_append, List.mem_singleton, Prod.mk.injEq, and_or_left]
    by_cases hdry : m.queue lane t = []
    · have hsame : m.popSum lane (talkers ++ [t]) = m.popSum lane talkers :=
        popSum_concat_of_dry (by rwa [queue, hlast])
      have htail : (m.queues.lookup (lane, t)).map List.tail = m.queues.lookup (lane, t) := by
        rw [queue] at hdry
        cases hq : m.queues.lookup (lane, t) with
        | none => rfl
        | some q =>
          rw [hq, Option.getD_some] at hdry
          rw [Option.map_some, hdry, List.tail_nil]
      rw [hsame, sampleSum_concat, hdry]
      refine ⟨?_, fun k => ?_, hseen, hphase⟩
      · rw [hsum]
        exact congrArg Int32.ofInt (Int.add_zero _).symm
      · rw [hqueues]
        by_cases hk : k = (lane, t)
        · rw [if_neg (hk ▸ fun hin => h.1 hin.2), if_pos ((hmem k).mpr (Or.inr hk)), hk, htail]
        · exact if_congr (by rw [hmem, or_iff_left hk]) rfl rfl
    · obtain ⟨s, rest, hq⟩ : ∃ s rest, m.queues.lookup (lane, t) = some (s :: rest) := by
        rw [queue] at hdry
        cases hq : m.queues.lookup (lane, t) with
        | none => exact absurd (by rw [hq]; rfl) hdry
        | some q =>
          rw [hq, Option.getD_some] at hdry
          obtain ⟨s, rest, rfl⟩ := List.exists_cons_of_ne_nil hdry
          exact ⟨s, rest, rfl⟩
      have htaken := popSum_concat_of_some (hlast.trans hq)
      rw [htaken, sampleSum_concat, queue, hq]
      refine ⟨?_, fun k => ?_, hseen, hphase⟩
      · rw [hsum, toInt32_eq, ← Int32.ofInt_add]
        rfl
      · rw [Table.lookup_insert, hqueues]
        by_cases hk : k = (lane, t)
        · rw [if_pos hk, if_pos ((hmem k).mpr (Or.inr hk)), hk, hq]
          rfl
        · rw [if_neg hk]
          exact if_congr (by rw [hmem, or_iff_left hk]) rfl rfl

/-! ### So many samples -/

/-- The oscillator after so many beaten samples. -/
def phaseAfter (S : Signal) (beating : Bool) (n : ℕ) (phase : S.Phase) : S.Phase :=
  if beating then (fun p => (S.beat p).2)^[n] phase else phase

/-- The beat in the sample that comes so many samples later. -/
def beatAt (S : Signal) (beating : Bool) (phase : S.Phase) (i : ℕ) : Int32 :=
  if beating then (S.beat (phaseAfter S true i phase)).1 else 0

/-- One sample of the mix, given where the oscillator starts. -/
def mixed (m : AmMix S) (lane : LegKey) (talkers : List UInt32) (beating : Bool) (phase : S.Phase)
    (i : ℕ) : Int16 :=
  clampSample (Int32.ofInt (m.sampleSum lane talkers i) + beatAt S beating phase i).toInt

theorem mixSample_spec (m : AmMix S) (lane : LegKey) (h : talkers.Nodup) (beating : Bool) :
    (m.mixSample lane talkers beating).1 = m.mixed lane talkers beating m.phase 0 ∧
      (∀ k, (m.mixSample lane talkers beating).2.queues.lookup k =
        if k.1 = lane ∧ k.2 ∈ talkers then (m.queues.lookup k).map List.tail
        else m.queues.lookup k) ∧
      (m.mixSample lane talkers beating).2.seen = m.seen ∧
      (m.mixSample lane talkers beating).2.phase = phaseAfter S beating 1 m.phase := by
  obtain ⟨hsum, hqueues, hseen, hphase⟩ := m.popSum_spec lane h
  cases beating with
  | true =>
    refine ⟨?_, hqueues, hseen, ?_⟩
    · simp only [mixSample, if_true, hsum, hphase]
      rfl
    · simp only [mixSample, if_true, hphase]
      rfl
  | false =>
    refine ⟨?_, hqueues, hseen, hphase⟩
    simp only [mixSample, Bool.false_eq_true, if_false, hsum, mixed, beatAt]
    rw [Int32.add_zero]

/-- A queue that is one sample shorter has its samples one place earlier. -/
theorem mixed_of_tail (hqueues : ∀ t ∈ talkers, m'.queue lane t = (m.queue lane t).tail)
    (beating : Bool) (i : ℕ) :
    m'.mixed lane talkers beating (phaseAfter S beating 1 m.phase) i =
      m.mixed lane talkers beating m.phase (i + 1) := by
  have hsum : m'.sampleSum lane talkers i = m.sampleSum lane talkers (i + 1) := by
    refine congrArg List.sum (List.map_congr_left fun t ht => ?_)
    rw [hqueues t ht, List.getElem?_tail]
  have hbeat : beatAt S beating (phaseAfter S beating 1 m.phase) i =
      beatAt S beating m.phase (i + 1) := by
    cases beating with
    | true => rfl
    | false => rfl
  rw [mixed, mixed, hsum, hbeat]

theorem mixSamples_succ (m : AmMix S) (lane : LegKey) (talkers : List UInt32) (beating : Bool)
    (n : ℕ) :
    mixSamples lane talkers beating (n + 1) m =
      ((m.mixSample lane talkers beating).1 ::
          (mixSamples lane talkers beating n (m.mixSample lane talkers beating).2).1,
        (mixSamples lane talkers beating n (m.mixSample lane talkers beating).2).2) := rfl

/-- So many samples of the mix, and the queues without them. -/
theorem mixSamples_spec (m : AmMix S) (lane : LegKey) (h : talkers.Nodup) (beating : Bool)
    (n : ℕ) :
    (mixSamples lane talkers beating n m).1 =
        (List.range n).map (m.mixed lane talkers beating m.phase) ∧
      (∀ k, (mixSamples lane talkers beating n m).2.queues.lookup k =
        if k.1 = lane ∧ k.2 ∈ talkers then (m.queues.lookup k).map (List.drop n)
        else m.queues.lookup k) ∧
      (mixSamples lane talkers beating n m).2.seen = m.seen ∧
      (mixSamples lane talkers beating n m).2.phase = phaseAfter S beating n m.phase := by
  induction n generalizing m with
  | zero =>
    refine ⟨rfl, fun k => ?_, rfl, by simp [mixSamples, phaseAfter]⟩
    cases hk : m.queues.lookup k <;> simp [mixSamples, hk]
  | succ n ih =>
    obtain ⟨hfirst, hpopped, hseen₁, hphase₁⟩ := m.mixSample_spec lane h beating
    obtain ⟨hrest, hqueues, hseen, hphase⟩ := ih (m.mixSample lane talkers beating).2
    -- The first sample of every queue is taken, and the rest are mixed from the tails.
    have htail : ∀ t ∈ talkers, (m.mixSample lane talkers beating).2.queue lane t =
        (m.queue lane t).tail := by
      intro t ht
      rw [queue, hpopped, if_pos ⟨rfl, ht⟩, queue]
      cases m.queues.lookup (lane, t) <;> rfl
    rw [mixSamples_succ]
    refine ⟨?_, fun k => ?_, hseen.trans hseen₁, ?_⟩
    · rw [hfirst, hrest, List.range_succ_eq_map, List.map_cons, List.map_map, hphase₁]
      refine congrArg _ (List.map_congr_left fun i _ => ?_)
      exact mixed_of_tail htail beating i
    · have hlookup := hqueues k
      rw [hpopped] at hlookup
      rw [hlookup]
      split_ifs
      · rw [Option.map_map]
        exact congrArg (fun f => Option.map f _) (funext fun q => by simp)
      · rfl
    · rw [hphase, hphase₁]
      cases beating with
      | true => rfl
      | false => rfl

/-! ### Lane by lane -/

/-- Carriers beat on a lane while more than one radio is up on it. -/
def beatingOn (m : AmMix S) (beats : Bool) (lane : LegKey) : Bool :=
  beats && decide (1 < (m.talkersOf lane).length)

/-- So many samples of a lane, given where the oscillator starts. -/
def mixedLane (m : AmMix S) (beats : Bool) (lane : LegKey) (phase : S.Phase) (n : ℕ) :
    List Int16 :=
  (List.range n).map (m.mixed lane (m.talkersOf lane) (m.beatingOn beats lane) phase)

theorem AgreeOn.beatingOn (h : AgreeOn lane m m') (beats : Bool) :
    m.beatingOn beats lane = m'.beatingOn beats lane := by
  rw [AmMix.beatingOn, AmMix.beatingOn, h.talkersOf.length_eq]

theorem AgreeOn.mixedLane (h : AgreeOn lane m m') (beats : Bool) (phase : S.Phase) (n : ℕ) :
    m.mixedLane beats lane phase n = m'.mixedLane beats lane phase n := by
  rw [AmMix.mixedLane, AmMix.mixedLane, h.beatingOn]
  refine List.map_congr_left fun i _ => ?_
  rw [mixed, mixed, h.sampleSum h.talkersOf]

/-- How much is taken of a lane depends on what is queued there. -/
def Local (samples : AmMix S → LegKey → ℕ) : Prop :=
  ∀ m m' lane, AgreeOn lane m m' → samples m lane = samples m' lane

variable (beats : Bool) {samples : AmMix S → LegKey → ℕ}

/-- One lane: what is put beside the others, and what is taken from the queues. -/
theorem mixLane_spec (samples : AmMix S → LegKey → ℕ)
    (acc : List (LegKey × List Int16) × AmMix S) (lane : LegKey) :
    (mixLane beats samples acc lane).1 = acc.1 ++
        (if samples acc.2 lane = 0 then []
          else [(lane, acc.2.mixedLane beats lane acc.2.phase (samples acc.2 lane))]) ∧
      (∀ k, (mixLane beats samples acc lane).2.queues.lookup k =
        if k.1 = lane then (acc.2.queues.lookup k).map (List.drop (samples acc.2 lane))
        else acc.2.queues.lookup k) ∧
      (mixLane beats samples acc lane).2.seen = acc.2.seen ∧
      (mixLane beats samples acc lane).2.phase =
        phaseAfter S (acc.2.beatingOn beats lane) (samples acc.2 lane) acc.2.phase := by
  obtain ⟨hpcm, hqueues, hseen, hphase⟩ := acc.2.mixSamples_spec lane
    (acc.2.nodup_talkersOf lane) (acc.2.beatingOn beats lane) (samples acc.2 lane)
  have hstep : mixLane beats samples acc lane =
      (if (acc.2.mixedLane beats lane acc.2.phase (samples acc.2 lane)).isEmpty then acc.1
        else acc.1 ++ [(lane, acc.2.mixedLane beats lane acc.2.phase (samples acc.2 lane))],
      (mixSamples lane (acc.2.talkersOf lane) (acc.2.beatingOn beats lane) (samples acc.2 lane)
        acc.2).2) := by
    rw [mixedLane, ← hpcm]
    rfl
  rw [hstep]
  refine ⟨?_, fun k => ?_, hseen, hphase⟩
  · cases samples acc.2 lane with
    | zero => simp [mixedLane]
    | succ n => simp [mixedLane, List.range_succ]
  · -- A lane of which nothing is queued has no talkers, and nothing to lose.
    rw [hqueues]
    by_cases hk : k.1 = lane
    · obtain ⟨lane', t⟩ := k
      obtain rfl : lane' = lane := hk
      cases hq : acc.2.queues.lookup (lane', t) with
      | none => simp
      | some q =>
        have ht : t ∈ acc.2.talkersOf lane' := mem_talkersOf_of_lookup hq
        simp [ht]
    · simp [hk]

/-- Taking from one lane leaves what is queued on the others. -/
theorem agreeOn_mixLane (acc : List (LegKey × List Int16) × AmMix S) {lane lane' : LegKey}
    (h : lane' ≠ lane) : AgreeOn lane' (mixLane beats samples acc lane).2 acc.2 := by
  intro t
  rw [(mixLane_spec beats samples acc lane).2.1, if_neg h]

/-- The lanes, one after the other: those of which anything is taken come out, each with what is
queued on it; and that much is gone from the queues. -/
theorem run_mixLane_spec (hlocal : Local samples) {lanes : List LegKey} (hlanes : lanes.Nodup)
    (acc : List (LegKey × List Int16) × AmMix S) :
    (∃ made, (run (mixLane beats samples) acc lanes).1 = acc.1 ++ made ∧
        made.map Prod.fst = lanes.filter (fun lane => samples acc.2 lane ≠ 0) ∧
        ∀ x ∈ made, ∃ phase,
          x.2 = acc.2.mixedLane beats x.1 phase (samples acc.2 x.1)) ∧
      (∀ k, (run (mixLane beats samples) acc lanes).2.queues.lookup k =
        if k.1 ∈ lanes then (acc.2.queues.lookup k).map (List.drop (samples acc.2 k.1))
        else acc.2.queues.lookup k) ∧
      (run (mixLane beats samples) acc lanes).2.seen = acc.2.seen := by
  induction lanes generalizing acc with
  | nil => exact ⟨⟨[], by simp⟩, fun k => rfl, rfl⟩
  | cons lane lanes ih =>
    obtain ⟨hfresh, hrest⟩ := List.nodup_cons.mp hlanes
    obtain ⟨hfirst, hqueues, hseen, -⟩ := mixLane_spec beats samples acc lane
    obtain ⟨⟨made, hmade, hkeys, hpcm⟩, hqueues', hseen'⟩ :=
      ih hrest (mixLane beats samples acc lane)
    -- The lanes that are still to come have not been taken from.
    have hagree : ∀ lane' ∈ lanes, AgreeOn lane' (mixLane beats samples acc lane).2 acc.2 :=
      fun lane' hmem => agreeOn_mixLane beats acc fun heq => hfresh (heq ▸ hmem)
    have hsame : ∀ lane' ∈ lanes,
        samples (mixLane beats samples acc lane).2 lane' = samples acc.2 lane' :=
      fun lane' hmem => hlocal _ _ _ (hagree lane' hmem)
    refine ⟨⟨(if samples acc.2 lane = 0 then []
        else [(lane, acc.2.mixedLane beats lane acc.2.phase (samples acc.2 lane))]) ++ made,
      ?_, ?_, fun x hx => ?_⟩, fun k => ?_, hseen'.trans hseen⟩
    · rw [run_cons, hmade, hfirst, List.append_assoc]
    · have hfilter : lanes.filter (fun l => samples (mixLane beats samples acc lane).2 l ≠ 0) =
          lanes.filter fun l => samples acc.2 l ≠ 0 :=
        List.filter_congr fun l hl => by rw [hsame l hl]
      rw [List.map_append, hkeys, hfilter, List.filter_cons]
      by_cases hzero : samples acc.2 lane = 0
      · simp [hzero]
      · simp [hzero]
    · rcases List.mem_append.mp hx with hx | hx
      · split_ifs at hx with hzero
        · exact absurd hx List.not_mem_nil
        · obtain rfl := List.mem_singleton.mp hx
          exact ⟨acc.2.phase, rfl⟩
      · have hlane : x.1 ∈ lanes := by
          have hkey := List.mem_map_of_mem (f := Prod.fst) hx
          rw [hkeys] at hkey
          exact (List.mem_filter.mp hkey).1
        obtain ⟨phase, hx⟩ := hpcm x hx
        refine ⟨phase, ?_⟩
        rw [hx, hsame x.1 hlane, (hagree x.1 hlane).mixedLane]
    · rw [run_cons, hqueues', hqueues]
      by_cases hk : k.1 ∈ lanes
      · have hne : k.1 ≠ lane := fun heq => hfresh (heq ▸ hk)
        rw [if_pos hk, if_neg hne, if_pos (List.mem_cons_of_mem _ hk), hsame k.1 hk]
      · by_cases hlane : k.1 = lane
        · rw [if_neg hk, if_pos hlane, if_pos (List.mem_cons.mpr (Or.inl hlane)), hlane]
        · rw [if_neg hk, if_neg hlane, if_neg (by simp [hk, hlane])]

/-- Mixers with the same queues give out the same, lane by lane, and have the same left. -/
theorem run_mixLane_congr (hlocal : Local samples) (lanes : List LegKey)
    (acc acc' : List (LegKey × List Int16) × AmMix S) (hout : acc.1 = acc'.1)
    (hqueues : acc.2.SameQueues acc'.2) (hphase : beats = true → acc.2.phase = acc'.2.phase) :
    (run (mixLane beats samples) acc lanes).1 = (run (mixLane beats samples) acc' lanes).1 ∧
      (run (mixLane beats samples) acc lanes).2.SameQueues
        (run (mixLane beats samples) acc' lanes).2 ∧
      (beats = true → (run (mixLane beats samples) acc lanes).2.phase =
        (run (mixLane beats samples) acc' lanes).2.phase) := by
  induction lanes generalizing acc acc' with
  | nil => exact ⟨hout, hqueues, hphase⟩
  | cons lane lanes ih =>
    obtain ⟨hmade, hleft, -, hend⟩ := mixLane_spec beats samples acc lane
    obtain ⟨hmade', hleft', -, hend'⟩ := mixLane_spec beats samples acc' lane
    have hagree := hqueues.agreeOn lane
    have hn : samples acc.2 lane = samples acc'.2 lane := hlocal _ _ _ hagree
    refine ih _ _ ?_ (fun k => ?_) fun hbeats => ?_
    · have hpcm : acc.2.mixedLane beats lane acc.2.phase (samples acc.2 lane) =
          acc'.2.mixedLane beats lane acc'.2.phase (samples acc'.2 lane) := by
        rw [hagree.mixedLane, hn]
        cases beats with
        | true => rw [hphase rfl]
        | false => rfl
      rw [hmade, hmade', hout, hpcm, hn]
    · rw [hleft, hleft', hn, hqueues k]
    · rw [hend, hend', hagree.beatingOn, hn, hphase hbeats]

end AmMix

end RfxVoiced.Dsp
