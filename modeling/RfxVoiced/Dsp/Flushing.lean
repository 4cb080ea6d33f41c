import RfxVoiced.Dsp.Mixing
import Mathlib.Order.Bounds.Basic

/-!
# Flushing a mixer

When a collision is over, what is still queued is given out, as far as the longest queue of each
lane reaches. Nothing of it is lost, as long as the sums fit 32 bits; they do with up to 65 536
talkers on a lane, and one more can make them wrap.

## Main definitions

* `AmMix.longest` — how far the queues of a lane reach

## Main results

* `flush_loses_nothing` — every lane comes out as the sum of its talkers
* `crowd_wraps` — not so with one talker too many
-/

namespace RfxVoiced.Dsp.AmMix

variable {S : Signal} {m m' : AmMix S} {lane : LegKey} {t : UInt32}

/-- How far the queues of a lane reach. -/
def longest (m : AmMix S) (lane : LegKey) : ℕ :=
  ((m.talkersOf lane).map (m.queued lane)).max?.getD 0

theorem lt_longest_iff {n : ℕ} :
    n < m.longest lane ↔ ∃ t ∈ m.talkersOf lane, n < m.queued lane t := by
  rw [longest]
  cases hmax : ((m.talkersOf lane).map (m.queued lane)).max? with
  | none =>
    have hnobody : m.talkersOf lane = [] := by simpa using hmax
    simp [hnobody]
  | some greatest =>
    obtain ⟨hmem, hle⟩ := List.max?_eq_some_iff.mp hmax
    rw [Option.getD_some]
    constructor
    · intro hn
      obtain ⟨t, ht, rfl⟩ := List.mem_map.mp hmem
      exact ⟨t, ht, hn⟩
    · rintro ⟨t, ht, hn⟩
      exact hn.trans_le (hle _ (List.mem_map_of_mem ht))

theorem local_longest : Local (longest (S := S)) := by
  intro m m' lane h
  have hqueued : ∀ t, m.queued lane t = m'.queued lane t := fun t => by rw [queued, queued, h]
  refine eq_of_forall_lt_iff fun n => ?_
  simp only [lt_longest_iff, h.talkersOf.mem_iff, hqueued]

/-- The lanes that come out, and how much of each. -/
theorem flush_eq_spec (m : AmMix S) :
    m.flush.1.map Prod.fst = m.lanes.filter (fun lane => 0 < m.longest lane) ∧
      ∀ x ∈ m.flush.1, ∃ phase, x.2 = m.mixedLane false x.1 phase (m.longest x.1) := by
  obtain ⟨⟨made, hmade, hkeys, hpcm⟩, -, -⟩ :=
    run_mixLane_spec false local_longest m.nodup_lanes ([], m)
  have hmade : m.flush.1 = made := hmade
  rw [hmade]
  refine ⟨hkeys.trans (List.filter_congr fun lane _ => decide_eq_decide.mpr ?_), hpcm⟩
  exact Nat.pos_iff_ne_zero.symm

theorem mem_keys_flush :
    lane ∈ m.flush.1.map Prod.fst ↔ ∃ t q, m.queues.lookup (lane, t) = some q ∧ q ≠ [] := by
  rw [m.flush_eq_spec.1, List.mem_filter, decide_eq_true_iff, lt_longest_iff]
  constructor
  · rintro ⟨-, t, ht, hpos⟩
    obtain ⟨q, hq⟩ := Option.isSome_iff_exists.mp (mem_talkersOf.mp ht)
    rw [queued_of_lookup hq] at hpos
    exact ⟨t, q, hq, List.ne_nil_of_length_pos hpos⟩
  · rintro ⟨t, q, hq, hne⟩
    refine ⟨mem_lanes.mpr ⟨t, Option.isSome_of_eq_some hq⟩, t, mem_talkersOf_of_lookup hq, ?_⟩
    rw [queued_of_lookup hq]
    exact List.length_pos_iff.mpr hne

/-- A lane comes out as far as its longest queue, as the wrapped sums of its talkers. -/
theorem pcm_of_mem_flush {x : LegKey × List Int16} (hx : x ∈ m.flush.1) :
    x.2.length = m.longest x.1 ∧ ∀ i, i < m.longest x.1 →
      x.2[i]? = some (clampSample (Int32.ofInt (m.sampleSum x.1 (m.talkersOf x.1) i)).toInt) := by
  obtain ⟨phase, hpcm⟩ := m.flush_eq_spec.2 x hx
  rw [hpcm, mixedLane]
  refine ⟨by rw [List.length_map, List.length_range], fun i hi => ?_⟩
  rw [List.getElem?_map, List.getElem?_range hi, Option.map_some, mixed]
  -- Nothing beats any more.
  have hquiet : beatAt S (m.beatingOn false x.1) phase i = 0 := rfl
  rw [hquiet, Int32.add_zero]

theorem isGreatest_longest (hlane : lane ∈ m.flush.1.map Prod.fst) :
    IsGreatest {n | ∃ t q, m.queues.lookup (lane, t) = some q ∧ n = q.length} (m.longest lane) := by
  have hle : ∀ t q, m.queues.lookup (lane, t) = some q → q.length ≤ m.longest lane := by
    intro t q hq
    by_contra hlong
    refine lt_irrefl _ (lt_longest_iff.mpr ⟨t, mem_talkersOf_of_lookup hq, ?_⟩)
    rw [queued_of_lookup hq]
    exact not_le.mp hlong
  refine ⟨?_, ?_⟩
  · -- The queue that reaches past one place less reaches all the way.
    obtain ⟨t₀, q₀, hq₀, hne⟩ := mem_keys_flush.mp hlane
    have hpos : 0 < m.longest lane := (List.length_pos_iff.mpr hne).trans_le (hle t₀ q₀ hq₀)
    obtain ⟨t, ht, hn⟩ := lt_longest_iff.mp (Nat.sub_lt hpos one_pos)
    obtain ⟨q, hq⟩ := Option.isSome_iff_exists.mp (mem_talkersOf.mp ht)
    rw [queued_of_lookup hq] at hn
    exact ⟨t, q, hq, le_antisymm (Nat.le_of_pred_lt hn) (hle t q hq)⟩
  · rintro n ⟨t, q, hq, rfl⟩
    exact hle t q hq

/-- With few enough talkers no sum on the way leaves 32 bits. -/
theorem fits_of_few (hfew : (m.talkersOf lane).length ≤ 65536) {summed : List UInt32}
    (hsummed : summed <+: m.talkersOf lane) (i : ℕ) : Fits (m.sampleSum lane summed i) := by
  obtain ⟨hlow, hhigh⟩ := m.sampleSum_bounds lane summed i
  have hlen := hsummed.length_le
  constructor <;> omega

/-- **A flush loses nothing.** Every lane with anything queued comes out, in order and each once, as
far as its longest queue. Its samples are the sums of its talkers where 32 bits hold these, and with
up to 65 536 talkers they do. The order of the tables does not matter. Nothing is left, so that
there is nothing to flush again. -/
theorem flush_loses_nothing (m : AmMix S) :
    (∀ lane, lane ∈ m.flush.1.map Prod.fst ↔
      ∃ t q, m.queues.lookup (lane, t) = some q ∧ q ≠ []) ∧
    (∀ x ∈ m.flush.1,
      IsGreatest {n | ∃ t q, m.queues.lookup (x.1, t) = some q ∧ n = q.length} x.2.length ∧
      ∀ i, i < x.2.length → Fits (m.sampleSum x.1 (m.talkersOf x.1) i) →
        x.2[i]? = some (clampSample (m.sampleSum x.1 (m.talkersOf x.1) i))) ∧
    (∀ lane, (m.talkersOf lane).length ≤ 65536 → ∀ summed, summed <+: m.talkersOf lane →
      ∀ i, Fits (m.sampleSum lane summed i)) ∧
    (m.flush.1.map Prod.fst).Pairwise laneLt ∧
    (∀ m', m.SameQueues m' → m.flush.1 = m'.flush.1) ∧
    (∀ k, m.flush.2.queues.lookup k = none) ∧ (∀ t, m.flush.2.seen.lookup t = none) ∧
    m.flush.2.flush.1 = [] := by
  refine ⟨fun _ => mem_keys_flush, fun x hx => ?_,
    fun _ hfew _ hsummed i => fits_of_few hfew hsummed i, ?_, fun m' hsame => ?_, fun _ => rfl,
    fun _ => rfl, rfl⟩
  · obtain ⟨hlen, hpcm⟩ := pcm_of_mem_flush hx
    rw [hlen]
    refine ⟨isGreatest_longest (List.mem_map_of_mem hx), fun i hi hfits => ?_⟩
    rw [hpcm i hi, hfits.toInt_ofInt]
  · rw [m.flush_eq_spec.1]
    exact m.pairwise_lanes.filter _
  · have hout := (run_mixLane_congr false local_longest m.lanes ([], m) ([], m') rfl hsame
      (by simp)).1
    have hflush : m.flush.1 = (run (mixLane false longest) ([], m) m.lanes).1 := rfl
    have hflush' : m'.flush.1 = (run (mixLane false longest) ([], m') m'.lanes).1 := rfl
    rw [hflush, hflush', hout, lanes_congr hsame]

/-- Two talkers of whom one has said more: both are heard to the end. -/
theorem flush_of_two :
    let lane : LegKey := (.am, 100, false)
    let m := ((AmMix.new Signal.passing).add lane 1 [5, 6] 0).add lane 2 [7] 0
    m.flush.1 = [(lane, [12, 6])] ∧
      ∀ x ∈ m.flush.1, ∀ i, i < x.2.length →
        x.2[i]? = some (clampSample (m.sampleSum x.1 (m.talkersOf x.1) i)) := by
  intro lane m
  obtain ⟨-, hpcm, hfits, -⟩ := m.flush_loses_nothing
  have hfew : ∀ lane, (m.talkersOf lane).length ≤ 65536 := fun lane =>
    (m.length_talkersOf_le lane).trans (by decide)
  exact ⟨by decide, fun x hx i hi =>
    (hpcm x hx).2 i hi (hfits x.1 (hfew x.1) _ List.prefix_rfl i)⟩

/-! ### One talker too many -/

def lowLane : LegKey := (.am, 100, false)

/-- So many talkers, each at the lowest sample there is. -/
def crowd (S : Signal) : ℕ → AmMix S
  | 0 => AmMix.new S
  | n + 1 => (crowd S n).add lowLane (UInt32.ofNat n) [-32768] 0

theorem lookup_crowd {n : ℕ} (h : n ≤ 2 ^ 32) (t : UInt32) :
    (crowd S n).queues.lookup (lowLane, t) = if t.toNat < n then some [-32768] else none := by
  induction n with
  | zero => rfl
  | succ n ih =>
    have hn : (UInt32.ofNat n).toNat = n := UInt32.toNat_ofNat_of_lt' (show n < 2 ^ 32 by omega)
    have hbefore := ih (by omega)
    rw [crowd, lookup_add]
    by_cases ht : t = UInt32.ofNat n
    · subst ht
      -- The newcomer had nothing queued.
      rw [if_pos rfl, ih (by omega), hn, if_neg (lt_irrefl n), if_pos (Nat.lt_succ_self n)]
      rfl
    · have hne : t.toNat ≠ n := fun heq => ht (UInt32.toNat_inj.mp (heq.trans hn.symm))
      rw [if_neg fun heq => ht (congrArg Prod.snd heq), hbefore]
      exact if_congr (by omega) rfl rfl

theorem length_talkersOf_crowd {n : ℕ} (h : n ≤ 2 ^ 32) :
    ((crowd S n).talkersOf lowLane).length = n := by
  have hperm : ((crowd S n).talkersOf lowLane).Perm ((List.range n).map UInt32.ofNat) := by
    rw [List.perm_ext_iff_of_nodup (nodup_talkersOf _ _)]
    · intro t
      rw [mem_talkersOf, lookup_crowd h, List.mem_map]
      constructor
      · intro hsome
        have ht : t.toNat < n := by
          by_contra hno
          rw [if_neg hno] at hsome
          cases hsome
        exact ⟨t.toNat, List.mem_range.mpr ht, UInt32.ofNat_toNat⟩
      · rintro ⟨i, hi, rfl⟩
        have hi := List.mem_range.mp hi
        rw [UInt32.toNat_ofNat_of_lt' (show i < 2 ^ 32 by omega), if_pos hi]
        rfl
    · refine List.Nodup.map_on (fun i hi j hj heq => ?_) List.nodup_range
      have hi := List.mem_range.mp hi
      have hj := List.mem_range.mp hj
      have hnat := congrArg UInt32.toNat heq
      rwa [UInt32.toNat_ofNat_of_lt' (show i < 2 ^ 32 by omega),
        UInt32.toNat_ofNat_of_lt' (show j < 2 ^ 32 by omega)] at hnat
  rw [hperm.length_eq, List.length_map, List.length_range]

theorem sampleSum_crowd {n : ℕ} (h : n ≤ 2 ^ 32) :
    (crowd S n).sampleSum lowLane ((crowd S n).talkersOf lowLane) 0 = -32768 * n := by
  have hlow : ∀ t ∈ (crowd S n).talkersOf lowLane,
      (((crowd S n).queue lowLane t)[0]?.getD 0).toInt = -32768 := by
    intro t ht
    have hsome := mem_talkersOf.mp ht
    rw [lookup_crowd h] at hsome
    rw [queue, lookup_crowd h]
    split_ifs at hsome ⊢
    · rfl
    · cases hsome
  rw [sampleSum, List.map_congr_left hlow, List.map_const', List.sum_replicate,
    length_talkersOf_crowd h]
  simp [mul_comm]

/-- With 65 537 talkers the sum of their samples wraps: the lane comes out at the highest sample
there is, and not at the lowest. -/
theorem crowd_wraps :
    ∃ x ∈ (crowd Signal.passing 65537).flush.1, x.1 = lowLane ∧ x.2[0]? = some 32767 ∧
      clampSample ((crowd Signal.passing 65537).sampleSum lowLane
        ((crowd Signal.passing 65537).talkersOf lowLane) 0) = -32768 := by
  have hfirst : (crowd Signal.passing 65537).queues.lookup (lowLane, 0) = some [-32768] := by
    rw [lookup_crowd (by decide)]
    rfl
  have hkey : lowLane ∈ (crowd Signal.passing 65537).flush.1.map Prod.fst :=
    mem_keys_flush.mpr ⟨0, _, hfirst, by simp⟩
  obtain ⟨x, hx, hlane⟩ := List.mem_map.mp hkey
  obtain ⟨-, hpcm⟩ := pcm_of_mem_flush hx
  have hpos : 0 < (crowd Signal.passing 65537).longest lowLane := by
    rw [lt_longest_iff]
    refine ⟨0, mem_talkersOf_of_lookup hfirst, ?_⟩
    rw [queued_of_lookup hfirst]
    decide
  rw [hlane] at hpcm
  refine ⟨x, hx, hlane, ?_, ?_⟩
  · rw [hpcm 0 hpos, sampleSum_crowd (by decide)]
    decide
  · rw [sampleSum_crowd (by decide)]
    decide

end RfxVoiced.Dsp.AmMix
