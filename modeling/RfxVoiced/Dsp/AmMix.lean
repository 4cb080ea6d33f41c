import RfxVoiced.Dsp.Talker
import RfxVoiced.Router.Basic
import Mathlib.Data.List.Sort
import Mathlib.Data.List.Dedup

/-!
# Two on one AM frequency

AM does not capture: of two that transmit at once a receiver hears the sum, and the beat of their
carriers. A mixer holds what each talker has contributed to each lane, and gives out a frame of a
lane once everybody who is up has contributed theirs. When the collision is over, what is left is
given out as it is.

## Main definitions

* `AmMix` — what is held of each talker, lane by lane
* `AmMix.add`, `AmMix.drain`, `AmMix.flush` — contribute, take whole frames, take what is left
* `AmMix.Carries` — every lane that anything was contributed to is of a kind
-/

namespace RfxVoiced.Dsp

/-- Samples in one 20 ms frame. -/
def amFrame : ℕ := 160

/-- A talker is treated as gone once its queue has been dry this long, in milliseconds. -/
def amGoneMs : ℕ := 120

/-- The order of lanes: by mode, then by quality, and the near side of a patch first. -/
def laneLe (a b : LegKey) : Prop :=
  a.1.toNat < b.1.toNat ∨
    a.1 = b.1 ∧ (a.2.1 < b.2.1 ∨ a.2.1 = b.2.1 ∧ (a.2.2 = true → b.2.2 = true))

instance : DecidableRel laneLe := fun a b =>
  inferInstanceAs (Decidable (a.1.toNat < b.1.toNat ∨
    a.1 = b.1 ∧ (a.2.1 < b.2.1 ∨ a.2.1 = b.2.1 ∧ (a.2.2 = true → b.2.2 = true))))

/-- A sum, brought back into the range of a sample. -/
def clampSample (sum : ℤ) : Int16 := Int16.ofInt (max (-32768) (min sum 32767))

/-- The mixer of one route: what its talkers have contributed and has not gone out. -/
structure AmMix (S : Signal) where
  /-- Samples that have not gone out, by lane and talker. -/
  queues : Table (LegKey × UInt32) (List Int16)
  /-- When each talker last contributed anything. -/
  seen : Table UInt32 Instant
  phase : S.Phase

namespace AmMix

variable {S : Signal}

def new (S : Signal) : AmMix S := ⟨∅, ∅, S.newPhase⟩

def add (m : AmMix S) (lane : LegKey) (talker : UInt32) (pcm : List Int16) (now : Instant) :
    AmMix S :=
  { m with
    seen := m.seen.insert talker now
    queues := m.queues.insert (lane, talker) ((m.queues.lookup (lane, talker)).getD [] ++ pcm) }

/-- The lanes that anything was contributed to, in order, each once. -/
def lanes (m : AmMix S) : List LegKey :=
  ((m.queues.keys.map Prod.fst).insertionSort laneLe).dedup

def talkersOf (m : AmMix S) (lane : LegKey) : List UInt32 :=
  (m.queues.keys.filter fun k => k.1 = lane).map Prod.snd

def queued (m : AmMix S) (lane : LegKey) (talker : UInt32) : ℕ :=
  ((m.queues.lookup (lane, talker)).getD []).length

/-- Take one sample of each talker. A queue that is dry adds nothing. -/
def popSum (m : AmMix S) (lane : LegKey) (talkers : List UInt32) : Int32 × AmMix S :=
  talkers.foldl (fun acc t =>
    match acc.2.queues.lookup (lane, t) with
    | some (s :: rest) =>
      (acc.1 + s.toInt32, { acc.2 with queues := acc.2.queues.insert (lane, t) rest })
    | _ => acc) (0, m)

/-- One sample of the mix; `beating` while more than one radio is up. -/
def mixSample (m : AmMix S) (lane : LegKey) (talkers : List UInt32) (beating : Bool) :
    Int16 × AmMix S :=
  let (sum, m) := m.popSum lane talkers
  if beating then
    let (note, phase) := S.beat m.phase
    (clampSample (sum + note).toInt, { m with phase := phase })
  else (clampSample sum.toInt, m)

/-- So many samples of the mix. -/
def mixSamples (lane : LegKey) (talkers : List UInt32) (beating : Bool) :
    ℕ → AmMix S → List Int16 × AmMix S
  | 0, m => ([], m)
  | n + 1, m =>
    let (s, m) := m.mixSample lane talkers beating
    let (rest, m) := mixSamples lane talkers beating n m
    (s :: rest, m)

/-- Mix one lane, so many samples of it, and put it beside the lanes that have any. -/
def mixLane (beats : Bool) (samples : AmMix S → LegKey → ℕ)
    (acc : List (LegKey × List Int16) × AmMix S) (lane : LegKey) :
    List (LegKey × List Int16) × AmMix S :=
  let talkers := acc.2.talkersOf lane
  let (pcm, m) := mixSamples lane talkers (beats && decide (1 < talkers.length))
    (samples acc.2 lane) acc.2
  (if pcm.isEmpty then acc.1 else acc.1 ++ [(lane, pcm)], m)

/-- Everything that is still queued, whether or not every talker has contributed. The collision is
over by then, so that nothing beats; and the mixer starts afresh. -/
def flush (m : AmMix S) : List (LegKey × List Int16) × AmMix S :=
  let (out, m) := m.lanes.foldl (mixLane false fun m lane =>
    ((m.talkersOf lane).map (m.queued lane)).max?.getD 0) ([], m)
  (out, { m with queues := ∅, seen := ∅ })

/-- Whoever has stopped is no longer waited for. -/
def forget (m : AmMix S) (now : Instant) : AmMix S :=
  let seen := m.seen.retain fun _ at_ => (now - at_) / 1000000 ≤ amGoneMs
  { m with
    seen := seen
    queues := m.queues.retain fun k _ => (seen.lookup k.2).isSome }

/-- Whole frames that every talker who is up has contributed to: one as often as the shortest queue
has one. -/
def drain (m : AmMix S) (now : Instant) : List (LegKey × List Int16) × AmMix S :=
  let m := m.forget now
  m.lanes.foldl (mixLane true fun m lane =>
    ((m.talkersOf lane).map fun t => m.queued lane t / amFrame).min?.getD 0 * amFrame) ([], m)

/-! ### What a mixer carries -/

/-- Every lane that anything was contributed to is of this kind. -/
def Carries (m : AmMix S) (p : LegKey → Prop) : Prop := ∀ k ∈ m.queues, p k.1

variable {m : AmMix S} {p : LegKey → Prop}

theorem carries_new : (new S).Carries p := fun _ hk => absurd hk (AList.notMem_empty _)

/-- A queue of such a lane may be made or changed. -/
theorem Carries.insert (h : m.Carries p) {lane : LegKey} (hlane : p lane) (talker : UInt32)
    (pcm : List Int16) :
    ({ m with queues := m.queues.insert (lane, talker) pcm } : AmMix S).Carries p := by
  intro k hk
  rcases (AList.mem_insert m.queues).mp hk with rfl | hk
  · exact hlane
  · exact h k hk

theorem Carries.add (h : m.Carries p) {lane : LegKey} (hlane : p lane) (talker : UInt32)
    (pcm : List Int16) (now : Instant) : (m.add lane talker pcm now).Carries p :=
  h.insert hlane talker _

theorem nodup_lanes (m : AmMix S) : m.lanes.Nodup := List.nodup_dedup _

end AmMix

end RfxVoiced.Dsp
