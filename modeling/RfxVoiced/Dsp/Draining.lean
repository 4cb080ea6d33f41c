import Mathlib.Order.Bounds.Basic
import RfxVoiced.Dsp.Mixing
import RfxVoiced.Lib.Loop

/-!
# Draining a mixer

`drain` goes round a loop on each lane, taking a frame of every talker while all of them have one.
Nothing in the loop counts the rounds; it ends because a round takes from every queue. Here the loop
is written as it stands, and shown to take as many frames as the shortest queue has. What comes out
is then known sample by sample.

## Main definitions

* `AmMix.drainWithin` — `drain` with its loop, given fuel
* `AmMix.present`, `AmMix.framesDue` — who is waited for, and how many frames they all have
* `AmMix.ExactMix` — a lane is the sum of its talkers, with the beat

## Main results

* `yields_drain` — the loops end
* `lookup_drain` — what is left queued
* `drain_is_exact` — a drain is an exact mix, aligned to frames
-/

namespace RfxVoiced.Dsp

namespace AmMix

variable {S : Signal} {m m' : AmMix S} {lane : LegKey} {talkers : List UInt32} {t : UInt32}
  {now : Instant}

/-! ### The loop -/

/-- Every talker has a whole frame. -/
def ready (m : AmMix S) (lane : LegKey) (talkers : List UInt32) : Bool :=
  talkers.all fun t => (m.queues.lookup (lane, t)).any fun q => decide (amFrame ≤ q.length)

/-- One round: a frame of every talker, while all of them have one. -/
def drainRound (lane : LegKey) (talkers : List UInt32) (x : List Int16 × AmMix S) :
    Option (List Int16 × AmMix S) :=
  if x.2.ready lane talkers then
    let (made, m) := mixSamples lane talkers (decide (1 < talkers.length)) amFrame x.2
    some (x.1 ++ made, m)
  else none

def drainLane (fuel : ℕ) (acc : List (LegKey × List Int16) × AmMix S) (lane : LegKey) :
    Option (List (LegKey × List Int16) × AmMix S) :=
  let talkers := acc.2.talkersOf lane
  (loop (drainRound lane talkers) fuel ([], acc.2)).map fun x =>
    (if x.2.1.isEmpty then acc.1 else acc.1 ++ [(lane, x.2.1)], x.2.2)

/-- `AmMix::drain` as it is written: each lane goes round until somebody has no frame. -/
def drainWithin (fuel : ℕ) (m : AmMix S) (now : Instant) :
    Option (List (LegKey × List Int16) × AmMix S) :=
  let m := m.forget now
  m.lanes.foldlM (drainLane fuel) ([], m)

/-- How many whole frames all talkers of a lane have. -/
def frames (m : AmMix S) (lane : LegKey) : ℕ :=
  ((m.talkersOf lane).map fun t => m.queued lane t / amFrame).min?.getD 0

theorem lt_frames_iff (h : m.talkersOf lane ≠ []) {n : ℕ} :
    n < m.frames lane ↔ ∀ t ∈ m.talkersOf lane, n < m.queued lane t / amFrame := by
  have hne : (m.talkersOf lane).map (fun t => m.queued lane t / amFrame) ≠ [] := by simpa using h
  obtain ⟨least, hleast⟩ := Option.isSome_iff_exists.mp (List.isSome_min?_of_ne_nil hne)
  have hframes : m.frames lane = least := by rw [frames, hleast, Option.getD_some]
  obtain ⟨hmem, hle⟩ := List.min?_eq_some_iff.mp hleast
  rw [hframes]
  constructor
  · exact fun hn t ht => hn.trans_le (hle _ (List.mem_map_of_mem ht))
  · intro hall
    obtain ⟨t, ht, rfl⟩ := List.mem_map.mp hmem
    exact hall t ht

/-- Samples are taken one after the other. -/
theorem mixSamples_add (m : AmMix S) (lane : LegKey) (talkers : List UInt32) (beating : Bool)
    (a b : ℕ) :
    mixSamples lane talkers beating (a + b) m =
      ((mixSamples lane talkers beating a m).1 ++
          (mixSamples lane talkers beating b (mixSamples lane talkers beating a m).2).1,
        (mixSamples lane talkers beating b (mixSamples lane talkers beating a m).2).2) := by
  induction a generalizing m with
  | zero =>
    rw [Nat.zero_add]
    rfl
  | succ a ih =>
    rw [Nat.succ_add, mixSamples_succ, ih, mixSamples_succ]
    rfl

/-- After so many rounds there is another exactly while all talkers have a frame more. -/
theorem ready_mixSamples_iff (h : m.talkersOf lane ≠ []) (beating : Bool) (i : ℕ) :
    (mixSamples lane (m.talkersOf lane) beating (i * amFrame) m).2.ready lane (m.talkersOf lane) =
        true ↔ i < m.frames lane := by
  obtain ⟨-, hqueues, -, -⟩ :=
    m.mixSamples_spec lane (m.nodup_talkersOf lane) beating (i * amFrame)
  rw [ready, List.all_eq_true, lt_frames_iff h]
  refine forall₂_congr fun t ht => ?_
  obtain ⟨q, hq⟩ := Option.isSome_iff_exists.mp (mem_talkersOf.mp ht)
  rw [hqueues, if_pos ⟨rfl, ht⟩, hq, Option.map_some, Option.any_some, decide_eq_true_iff,
    List.length_drop, queued_of_lookup hq, amFrame]
  omega

/-- The samples that are taken of a lane. -/
def framed (m : AmMix S) (lane : LegKey) : ℕ := m.frames lane * amFrame

/-- The loop of a lane ends, and has then taken what all of the talkers have whole frames of. -/
theorem yields_drainLane {acc : List (LegKey × List Int16) × AmMix S}
    (h : acc.2.talkersOf lane ≠ []) :
    Yields (fun fuel => drainLane fuel acc lane) (mixLane true framed acc lane) := by
  have hrounds : Yields
      (fun fuel => loop (drainRound lane (acc.2.talkersOf lane)) fuel ([], acc.2))
      (acc.2.frames lane, mixSamples lane (acc.2.talkersOf lane)
        (decide (1 < (acc.2.talkersOf lane).length)) (acc.2.frames lane * amFrame) acc.2) := by
    have hstart : (([], acc.2) : List Int16 × AmMix S) =
        mixSamples lane (acc.2.talkersOf lane) (decide (1 < (acc.2.talkersOf lane).length))
          (0 * amFrame) acc.2 := by
      rw [Nat.zero_mul]
      rfl
    rw [hstart]
    apply yields_loop fun i => mixSamples lane (acc.2.talkersOf lane)
      (decide (1 < (acc.2.talkersOf lane).length)) (i * amFrame) acc.2
    · intro i hi
      rw [drainRound, if_pos ((ready_mixSamples_iff h _ i).mpr hi), Nat.succ_mul, mixSamples_add]
    · rw [drainRound, if_neg]
      rw [ready_mixSamples_iff h]
      exact lt_irrefl _
  exact hrounds.map fun x =>
    (if x.2.1.isEmpty then acc.1 else acc.1 ++ [(lane, x.2.1)], x.2.2)

theorem drain_eq_run (m : AmMix S) (now : Instant) :
    m.drain now = run (mixLane true framed) ([], m.forget now) (m.forget now).lanes := rfl

/-- A lane keeps its talkers while the others are drained. -/
theorem along_talkers {lanes : List LegKey} {acc : List (LegKey × List Int16) × AmMix S}
    (h : ∀ lane ∈ lanes, acc.2.talkersOf lane ≠ []) :
    Along (mixLane true framed) (fun acc lane => acc.2.talkersOf lane ≠ []) acc lanes := by
  induction lanes generalizing acc with
  | nil => trivial
  | cons lane lanes ih =>
    refine ⟨h lane List.mem_cons_self, ih fun lane' hmem => ?_⟩
    obtain ⟨t, ht⟩ := List.exists_mem_of_ne_nil _ (h lane' (List.mem_cons_of_mem _ hmem))
    have hkept : t ∈ (mixLane true framed acc lane).2.talkersOf lane' := by
      rw [mem_talkersOf, (mixLane_spec true framed acc lane).2.1]
      split_ifs
      · rw [Option.isSome_map]
        exact mem_talkersOf.mp ht
      · exact mem_talkersOf.mp ht
    exact List.ne_nil_of_mem hkept

/-- A drain ends. -/
theorem yields_drain (m : AmMix S) (now : Instant) :
    Yields (fun fuel => m.drainWithin fuel now) (m.drain now) := by
  rw [drain_eq_run]
  exact Yields.foldlM (fun acc lane hlane => yields_drainLane hlane)
    (along_talkers fun lane hlane => talkersOf_ne_nil hlane)

/-! ### Who is waited for -/

/-- The talker has contributed something lately enough to be waited for. -/
def present (m : AmMix S) (now : Instant) (t : UInt32) : Bool :=
  (m.seen.lookup t).any fun at_ => decide ((now - at_) / 1000000 ≤ amGoneMs)

/-- The queues of those who are not present are discarded, and no others. -/
theorem lookup_forget (m : AmMix S) (now : Instant) (lane : LegKey) (t : UInt32) :
    (m.forget now).queues.lookup (lane, t) =
      if m.present now t then m.queues.lookup (lane, t) else none := by
  have hseen : ((m.seen.lookup t).filter fun at_ =>
      decide ((now - at_) / 1000000 ≤ amGoneMs)).isSome = m.present now t := by
    rw [present]
    cases m.seen.lookup t with
    | none => rfl
    | some at_ => by_cases h : (now - at_) / 1000000 ≤ amGoneMs <;> simp [Option.filter, h]
  simp only [forget, Table.lookup_retain]
  rw [hseen]
  cases m.queues.lookup (lane, t) with
  | none => simp
  | some q => cases m.present now t <;> rfl

/-- How many whole frames the talkers who are present have on a lane, all of them. -/
def framesDue (m : AmMix S) (now : Instant) (lane : LegKey) : ℕ := (m.forget now).frames lane

/-- What the talkers who are present have on a lane, in whole frames. -/
def wholeFrames (m : AmMix S) (now : Instant) (lane : LegKey) : Set ℕ :=
  {n | ∃ t q, m.present now t = true ∧ m.queues.lookup (lane, t) = some q ∧
    n = q.length / amFrame}

theorem lookup_forget_of_present {q : List Int16} (hpresent : m.present now t = true)
    (hq : m.queues.lookup (lane, t) = some q) :
    (m.forget now).queues.lookup (lane, t) = some q := by
  rw [lookup_forget, if_pos hpresent, hq]

theorem mem_talkersOf_forget :
    t ∈ (m.forget now).talkersOf lane ↔
      m.present now t = true ∧ ∃ q, m.queues.lookup (lane, t) = some q := by
  rw [mem_talkersOf, lookup_forget]
  split_ifs with h <;> simp [h, Option.isSome_iff_exists]

/-- The frames due are the least that anybody who is present has. -/
theorem isLeast_framesDue (m : AmMix S) (now : Instant) (lane : LegKey) :
    IsLeast (m.wholeFrames now lane) (m.framesDue now lane) ∨
      m.wholeFrames now lane = ∅ ∧ m.framesDue now lane = 0 := by
  have hmem : ∀ n, n ∈ m.wholeFrames now lane ↔
      n ∈ ((m.forget now).talkersOf lane).map fun t => (m.forget now).queued lane t / amFrame := by
    intro n
    rw [List.mem_map]
    constructor
    · rintro ⟨t, q, hpresent, hq, rfl⟩
      refine ⟨t, mem_talkersOf_forget.mpr ⟨hpresent, q, hq⟩, ?_⟩
      rw [queued_of_lookup (lookup_forget_of_present hpresent hq)]
    · rintro ⟨t, ht, rfl⟩
      obtain ⟨hpresent, q, hq⟩ := mem_talkersOf_forget.mp ht
      refine ⟨t, q, hpresent, hq, ?_⟩
      rw [queued_of_lookup (lookup_forget_of_present hpresent hq)]
  rw [framesDue, frames]
  cases hleast : (((m.forget now).talkersOf lane).map fun t =>
      (m.forget now).queued lane t / amFrame).min? with
  | none =>
    -- Nobody is present: there is no least, and nothing due.
    refine Or.inr ⟨Set.eq_empty_of_forall_notMem fun n hn => ?_, rfl⟩
    rw [hmem, List.min?_eq_none_iff.mp hleast] at hn
    exact List.not_mem_nil hn
  | some least =>
    obtain ⟨hin, hle⟩ := List.min?_eq_some_iff.mp hleast
    exact Or.inl ⟨(hmem least).mpr hin, fun n hn => hle n ((hmem n).mp hn)⟩

/-- A lane is due exactly when everybody who is present on it has a frame, and somebody is. -/
theorem framesDue_pos_iff :
    0 < m.framesDue now lane ↔
      (∃ t q, m.present now t = true ∧ m.queues.lookup (lane, t) = some q) ∧
        ∀ t q, m.present now t = true → m.queues.lookup (lane, t) = some q →
          amFrame ≤ q.length := by
  rcases m.isLeast_framesDue now lane with ⟨hleast, hle⟩ | ⟨hnobody, hzero⟩
  · obtain ⟨t₀, q₀, hpresent₀, hq₀, hframes₀⟩ := hleast
    rw [and_iff_right ⟨t₀, q₀, hpresent₀, hq₀⟩]
    constructor
    · intro hpos t q hpresent hq
      have hframe := hpos.trans_le (hle ⟨t, q, hpresent, hq, rfl⟩)
      exact (Nat.div_pos_iff.mp hframe).2
    · intro hall
      rw [hframes₀]
      exact Nat.div_pos (hall t₀ q₀ hpresent₀ hq₀) (by decide)
  · rw [hzero]
    refine iff_of_false (lt_irrefl 0) ?_
    rintro ⟨⟨t, q, hpresent, hq⟩, -⟩
    have hmem : q.length / amFrame ∈ m.wholeFrames now lane := ⟨t, q, hpresent, hq, rfl⟩
    rw [hnobody] at hmem
    exact hmem

/-! ### What comes out -/

theorem local_framed : Local (framed (S := S)) := by
  intro m m' lane h
  have hqueued : ∀ t, m.queued lane t = m'.queued lane t := fun t => by rw [queued, queued, h]
  have hframes : m.frames lane = m'.frames lane := by
    by_cases hne : m.talkersOf lane = []
    · have hne' : m'.talkersOf lane = [] := (hne ▸ h.talkersOf).nil_eq.symm
      rw [frames, frames, hne, hne']
      rfl
    · have hne' : m'.talkersOf lane ≠ [] := fun heq => hne (heq ▸ h.talkersOf).eq_nil
      refine eq_of_forall_lt_iff fun n => ?_
      rw [lt_frames_iff hne, lt_frames_iff hne']
      simp only [h.talkersOf.mem_iff, hqueued]
  rw [framed, framed, hframes]

/-- A lane is the sum of its talkers, with the beat of their carriers if there are several; and no
sum on the way to it leaves 32 bits. -/
structure ExactMix (m : AmMix S) (lane : LegKey) (n : ℕ) (pcm : List Int16) : Prop where
  length : pcm.length = n
  sample : ∀ i, i < n → ∃ beat : ℤ, -2200 ≤ beat ∧ beat ≤ 2200 ∧
    ((m.talkersOf lane).length = 1 → beat = 0) ∧
    (∀ summed, summed <+: m.talkersOf lane → Fits (m.sampleSum lane summed i)) ∧
    Fits (m.sampleSum lane (m.talkersOf lane) i + beat) ∧
    pcm[i]? = some (clampSample (m.sampleSum lane (m.talkersOf lane) i + beat))

/-- The note of the beat is an amplitude of 2200 at most, either way. -/
def BeatBounded (S : Signal) : Prop :=
  ∀ phase, -2200 ≤ (S.beat phase).1.toInt ∧ (S.beat phase).1.toInt ≤ 2200

theorem beatAt_bounds (hbeat : BeatBounded S) (beating : Bool) (phase : S.Phase) (i : ℕ) :
    -2200 ≤ (beatAt S beating phase i).toInt ∧ (beatAt S beating phase i).toInt ≤ 2200 := by
  cases beating with
  | true => exact hbeat _
  | false =>
    have hnone : (beatAt S false phase i).toInt = 0 := rfl
    omega

/-- With few enough talkers nothing wraps, and a lane comes out exact. -/
theorem exactMix_mixedLane (hbeat : BeatBounded S) (lane : LegKey)
    (hfew : (m.talkersOf lane).length < 60000) (phase : S.Phase) (n : ℕ) :
    ExactMix m lane n (m.mixedLane true lane phase n) := by
  refine ⟨by simp [mixedLane], fun i hi => ?_⟩
  obtain ⟨hlow, hhigh⟩ := beatAt_bounds hbeat (m.beatingOn true lane) phase i
  have hfits : ∀ summed, summed <+: m.talkersOf lane → ∀ beat : ℤ, -2200 ≤ beat → beat ≤ 2200 →
      Fits (m.sampleSum lane summed i + beat) := by
    intro summed hsummed beat hlow hhigh
    obtain ⟨hbelow, habove⟩ := m.sampleSum_bounds lane summed i
    have hlen := hsummed.length_le
    constructor <;> omega
  have hsum : ∀ beat : Int32, -2200 ≤ beat.toInt → beat.toInt ≤ 2200 →
      (Int32.ofInt (m.sampleSum lane (m.talkersOf lane) i) + beat).toInt =
        m.sampleSum lane (m.talkersOf lane) i + beat.toInt := by
    intro beat hlow hhigh
    rw [← (hfits _ List.prefix_rfl beat.toInt hlow hhigh).toInt_ofInt, Int32.ofInt_add,
      Int32.ofInt_toInt]
  refine ⟨(beatAt S (m.beatingOn true lane) phase i).toInt, hlow, hhigh, fun hone => ?_,
    fun summed hsummed => ?_, hfits _ List.prefix_rfl _ hlow hhigh, ?_⟩
  · have hquiet : m.beatingOn true lane = false := by simp [beatingOn, hone]
    rw [hquiet]
    rfl
  · simpa using hfits summed hsummed 0 (by decide) (by decide)
  · rw [← hsum _ hlow hhigh, mixedLane, List.getElem?_map, List.getElem?_range hi]
    rfl

/-- The mixers hold the same, whatever the order in which their tables list it. -/
structure SameContents (m m' : AmMix S) : Prop where
  queues : m.SameQueues m'
  seen : ∀ t, m.seen.lookup t = m'.seen.lookup t
  phase : m.phase = m'.phase

theorem SameContents.forget (h : m.SameContents m') (now : Instant) :
    (m.forget now).SameContents (m'.forget now) := by
  refine ⟨?_, fun t => ?_, h.phase⟩
  · rintro ⟨lane, t⟩
    rw [lookup_forget, lookup_forget, present, present, h.seen, h.queues]
  · simp only [AmMix.forget, Table.lookup_retain, h.seen]

/-- Whoever has something to give that is due is on a lane that is gone through. -/
theorem mem_lanes_of_framesDue_pos (h : 0 < m.framesDue now lane) :
    lane ∈ (m.forget now).lanes := by
  obtain ⟨⟨t, q, hpresent, hq⟩, -⟩ := framesDue_pos_iff.mp h
  exact mem_lanes.mpr ⟨t, mem_talkersOf.mp (mem_talkersOf_forget.mpr ⟨hpresent, q, hq⟩)⟩

/-- The lanes that come out, and how much of each. -/
theorem drain_fst_spec (m : AmMix S) (now : Instant) :
    (m.drain now).1.map Prod.fst =
        (m.forget now).lanes.filter (fun lane => 0 < m.framesDue now lane) ∧
      ∀ x ∈ (m.drain now).1, ∃ phase,
        x.2 = (m.forget now).mixedLane true x.1 phase (m.framesDue now x.1 * amFrame) := by
  obtain ⟨⟨made, hmade, hkeys, hpcm⟩, -, -⟩ :=
    run_mixLane_spec true local_framed (m.forget now).nodup_lanes ([], m.forget now)
  have hmade : (m.drain now).1 = made := hmade
  rw [hmade]
  refine ⟨hkeys.trans (List.filter_congr fun lane _ => decide_eq_decide.mpr ?_), hpcm⟩
  rw [framed, framesDue, amFrame]
  dsimp only
  omega

theorem mem_keys_drain :
    lane ∈ (m.drain now).1.map Prod.fst ↔ 0 < m.framesDue now lane := by
  rw [(m.drain_fst_spec now).1, List.mem_filter, decide_eq_true_iff]
  exact and_iff_right_of_imp mem_lanes_of_framesDue_pos

/-- What is left queued. -/
theorem lookup_drain (m : AmMix S) (now : Instant) (lane : LegKey) (t : UInt32) :
    (m.drain now).2.queues.lookup (lane, t) =
      if m.present now t then
        (m.queues.lookup (lane, t)).map (List.drop (m.framesDue now lane * amFrame))
      else none := by
  have hleft := (run_mixLane_spec true local_framed (m.forget now).nodup_lanes
    ([], m.forget now)).2.1 (lane, t)
  rw [drain_eq_run, hleft]
  dsimp only
  rw [lookup_forget]
  split_ifs with hlane hpresent hpresent
  · rfl
  · rfl
  · cases hq : m.queues.lookup (lane, t) with
    | none => rfl
    | some q =>
      -- A queue of somebody who is present is on a lane that is gone through.
      refine absurd (mem_lanes.mpr ⟨t, ?_⟩) hlane
      rw [lookup_forget, if_pos hpresent, hq]
      rfl
  · rfl

/-- A lane comes out as one stream, whoever contributed to it. -/
theorem nodup_drain (m : AmMix S) (now : Instant) : ((m.drain now).1.map Prod.fst).Nodup := by
  rw [(m.drain_fst_spec now).1]
  exact (m.forget now).nodup_lanes.filter _

/-- What is left of a mixer carries nothing that the mixer did not carry. -/
theorem Carries.drain {p : LegKey → Prop} (h : m.Carries p) (now : Instant) :
    (m.drain now).2.Carries p := by
  rintro ⟨lane, t⟩ hk
  have hleft := AList.lookup_isSome.mpr hk
  rw [lookup_drain] at hleft
  split_ifs at hleft
  · rw [Option.isSome_map] at hleft
    exact h (lane, t) (AList.lookup_isSome.mp hleft)
  · cases hleft

/-- Nor does anything else come out. -/
theorem Carries.of_mem_drain {p : LegKey → Prop} (h : m.Carries p)
    (hlane : lane ∈ (m.drain now).1.map Prod.fst) : p lane := by
  obtain ⟨⟨t, q, -, hq⟩, -⟩ := framesDue_pos_iff.mp (mem_keys_drain.mp hlane)
  exact h (lane, t) (AList.lookup_isSome.mp (Option.isSome_of_eq_some hq))

theorem seen_drain (m : AmMix S) (now : Instant) : (m.drain now).2.seen = (m.forget now).seen :=
  (run_mixLane_spec true local_framed (m.forget now).nodup_lanes
    ([], m.forget now)).2.2

/-- Mixers that hold the same give out the same, and hold the same afterwards. -/
theorem SameContents.drain (h : m.SameContents m') (now : Instant) :
    (m.drain now).1 = (m'.drain now).1 ∧ (m.drain now).2.SameContents (m'.drain now).2 := by
  have hforget := h.forget now
  obtain ⟨hout, hleft, hphase⟩ := run_mixLane_congr true local_framed
    (m.forget now).lanes ([], m.forget now) ([], m'.forget now) rfl hforget.queues
    fun _ => hforget.phase
  have hseen : ∀ t, (m.drain now).2.seen.lookup t = (m'.drain now).2.seen.lookup t := by
    intro t
    rw [seen_drain, seen_drain]
    exact hforget.seen t
  rw [drain_eq_run, drain_eq_run] at hseen ⊢
  rw [← lanes_congr hforget.queues] at hseen ⊢
  exact ⟨hout, hleft, hseen, hphase rfl⟩

/-- **A drain is an exact mix, aligned to frames.** It ends. It discards the queues of those who are
not present, and no others. On each lane it takes the least number of whole frames that a talker
has off the front of each queue, and leaves the rest. The lanes of which that is anything come out,
in order and each once, as the sums of their talkers with the beat. And none of it depends on the
order in which tables are gone through. -/
theorem drain_is_exact (hbeat : BeatBounded S) (m : AmMix S) (now : Instant)
    (hfew : ∀ lane, (m.talkersOf lane).length < 60000) :
    Yields (fun fuel => m.drainWithin fuel now) (m.drain now) ∧
    (∀ lane, IsLeast (m.wholeFrames now lane) (m.framesDue now lane) ∨
      m.wholeFrames now lane = ∅ ∧ m.framesDue now lane = 0) ∧
    (∀ lane t, (m.drain now).2.queues.lookup (lane, t) =
      if m.present now t then
        (m.queues.lookup (lane, t)).map (List.drop (m.framesDue now lane * amFrame))
      else none) ∧
    (∀ lane, lane ∈ (m.drain now).1.map Prod.fst ↔ 0 < m.framesDue now lane) ∧
    (∀ x ∈ (m.drain now).1,
      ExactMix (m.forget now) x.1 (m.framesDue now x.1 * amFrame) x.2) ∧
    ((m.drain now).1.map Prod.fst).Pairwise laneLt ∧
    ∀ m', m.SameContents m' → (m.drain now).1 = (m'.drain now).1 ∧
      (m.drain now).2.SameContents (m'.drain now).2 := by
  refine ⟨m.yields_drain now, m.isLeast_framesDue now, m.lookup_drain now, fun _ => mem_keys_drain,
    fun x hx => ?_, ?_, fun m' hsame => hsame.drain now⟩
  · obtain ⟨phase, hx⟩ := (m.drain_fst_spec now).2 x hx
    rw [hx]
    refine exactMix_mixedLane hbeat x.1 (lt_of_le_of_lt ?_ (hfew x.1)) phase _
    -- Those who are present are some of the talkers.
    refine (List.subperm_of_subset ((m.forget now).nodup_talkersOf x.1) fun t ht => ?_).length_le
    obtain ⟨-, q, hq⟩ := mem_talkersOf_forget.mp ht
    rw [mem_talkersOf, hq]
    rfl
  · rw [(m.drain_fst_spec now).1]
    exact (m.forget now).pairwise_lanes.filter _

/-- Two who speak at once, with two frames and a half and with one and a half, and one who has
stopped. -/
def threeTalkers : AmMix Signal.passing :=
  (((AmMix.new Signal.passing).add (.am, 100, false) 9 (List.replicate 200 1) 0).add
    (.am, 100, false) 7 (List.replicate 400 5) 200000000).add
    (.am, 100, false) 8 (List.replicate 240 6) 200000000

/-- One frame of the two comes out, what they have beyond it is kept, and the third is not waited
for. -/
theorem drain_of_threeTalkers :
    (∃ x ∈ (threeTalkers.drain 200000000).1, x.1 = (.am, 100, false) ∧ x.2.length = amFrame) ∧
    (∀ x ∈ (threeTalkers.drain 200000000).1, x.1 = (.am, 100, false)) ∧
    (threeTalkers.drain 200000000).2.queues.lookup ((.am, 100, false), 7) =
        some (List.replicate 240 5) ∧
    (threeTalkers.drain 200000000).2.queues.lookup ((.am, 100, false), 8) =
        some (List.replicate 80 6) ∧
    (threeTalkers.drain 200000000).2.queues.lookup ((.am, 100, false), 9) = none := by
  have hsilent : -2200 ≤ (0 : Int32).toInt ∧ (0 : Int32).toInt ≤ 2200 := by decide
  have hbeat : BeatBounded Signal.passing := fun _ => hsilent
  have hfew : ∀ lane, (threeTalkers.talkersOf lane).length < 60000 := fun lane =>
    lt_of_le_of_lt (threeTalkers.length_talkersOf_le lane) (by decide)
  obtain ⟨-, -, hleft, hkeys, hmix, -⟩ := drain_is_exact hbeat threeTalkers 200000000 hfew
  have hdue : threeTalkers.framesDue 200000000 (.am, 100, false) = 1 := by decide +kernel
  refine ⟨?_, fun x hx => ?_, ?_, ?_, ?_⟩
  · obtain ⟨x, hx, hlane⟩ := List.mem_map.mp ((hkeys (.am, 100, false)).mpr (by rw [hdue]; decide))
    refine ⟨x, hx, hlane, ?_⟩
    rw [(hmix x hx).length, hlane, hdue, one_mul]
  · have hlanes : (threeTalkers.drain 200000000).1.map Prod.fst = [(.am, 100, false)] := by
      decide +kernel
    exact List.mem_singleton.mp (hlanes ▸ List.mem_map_of_mem hx)
  · rw [hleft]
    decide +kernel
  · rw [hleft]
    decide +kernel
  · rw [hleft]
    decide +kernel

end AmMix

end RfxVoiced.Dsp
