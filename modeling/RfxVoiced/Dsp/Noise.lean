import RfxVoiced.Dsp.Talker
import RfxVoiced.Lib.Run
import RfxVoiced.Lib.XorLinear
import Mathlib.Algebra.Ring.Rat
import Mathlib.Logic.Function.Iterate

/-!
# The generator behind noise and errors

Every hop has a generator of its own, an xorshift register whose state is multiplied out into the
numbers drawn. Zero is the one state that the register does not leave, and from which it would only
draw zero. No hop starts there, and none gets there.

## Main definitions

* `Rng` — the generator, with what is drawn from it
* `Leg` — a hop, as far as its generator goes
* `Hop` — the two places where a hop is made, each with its salt

## Main results

* `Rng.scramble_injective`, `Rng.scramble_ne` — the register takes different states apart, and moves
  every state but zero
* `Leg.exists_draws` — all that a hop does with its generator is to draw a number of times
* `Leg.rng_never_dies` — no hop comes to the state zero, and what it draws next is never what it has
  just drawn
-/

namespace RfxVoiced.Dsp

/-- The generator of the noise: a shift register whose state is multiplied when it is read. -/
structure Rng where
  state : UInt64
  deriving DecidableEq, Repr

namespace Rng

/-- The register after one step. -/
def scramble (x : UInt64) : UInt64 :=
  let x := x ^^^ x >>> 12
  let x := x ^^^ x <<< 25
  x ^^^ x >>> 27

def next (r : Rng) : UInt64 × Rng :=
  let x := scramble r.state
  (x * 0x2545F4914F6CDD1D, ⟨x⟩)

/-- Whether something of probability `p` happens. What is certain is not drawn for. The comparison
of the source is one of floating point numbers that are exact. -/
def chance (r : Rng) (p : ℚ) : Bool × Rng :=
  if p ≤ 0 then (false, r)
  else if 1 ≤ p then (true, r)
  else (decide (((r.next.1 >>> 11).toNat : ℚ) / 2 ^ 53 < p), r.next.2)

def below (r : Rng) (n : UInt32) : UInt32 × Rng :=
  ((r.next.1 % n.toUInt64).toUInt32, r.next.2)

/-- The generator once a number has been drawn. -/
def advance (r : Rng) : Rng := r.next.2

end Rng

/-- What a digital hop does to the frames of a lane. -/
structure ErrorProfile where
  erasure : ℚ
  bitErrors : ℕ

/-- A hop, as far as its generator goes. -/
inductive Leg where
  | digital (rng : Rng) (profile : ErrorProfile) (frameBytes : ℕ)
  | analog (rng : Rng)

/-- Where a hop is made: for the speaker's own link, or for a rendering. -/
inductive Hop where
  | bridge
  | rendering
  deriving DecidableEq, Repr

def Hop.salt : Hop → UInt64
  | .bridge => 1
  | .rendering => 2

namespace Leg

variable (profile : UInt8 → ErrorProfile)

def new (sink : Sink) (frameBytes : ℕ) (seed : UInt64) : Leg :=
  match sink.mode with
  | .p25 => digital ⟨0x9E3779B97F4A7C15 ^^^ seed⟩ (profile (laneOf sink.quality)) frameBytes
  | .fm | .am => analog ⟨0x8EBC6AF09C88C6E3 ^^^ seed⟩

/-- A hop as it is made in either of the two places. -/
def made (sink : Sink) (frameBytes : ℕ) (hop : Hop) : Leg :=
  new profile sink frameBytes (seedOf sink hop.salt)

def rng : Leg → Rng
  | digital rng _ _ => rng
  | analog rng => rng

/-- One frame. A digital hop loses it, or flips bits of it; an analogue one adds noise to every
sample. -/
def run : Leg → List Int16 → Leg
  | digital rng profile frameBytes, _ =>
    let (erased, rng) := rng.chance profile.erasure
    if erased then digital rng profile frameBytes
    else
      -- Each error draws the place of the bit that it flips.
      let flip := fun r : Rng => (r.below (UInt32.ofNat (frameBytes * 8))).2
      digital (flip^[profile.bitErrors] rng) profile frameBytes
  | analog rng, frame => analog (frame.foldl (fun r _ => r.next.2) rng)

end Leg

/-! ### The register -/

namespace Rng

/-- The three steps of the register, as maps of words. -/
def steps (x : BitVec 64) : BitVec 64 :=
  let x := x ^^^ x >>> 12
  let x := x ^^^ x <<< 25
  x ^^^ x >>> 27

theorem toBitVec_scramble (x : UInt64) : (scramble x).toBitVec = steps x.toBitVec := rfl

theorem xorLinear_steps : XorLinear steps := by
  have hright (k : ℕ) : XorLinear fun y : BitVec 64 => y ^^^ y >>> k :=
    XorLinear.id.xor (XorLinear.shiftRight k)
  have hleft (k : ℕ) : XorLinear fun y : BitVec 64 => y ^^^ y <<< k :=
    XorLinear.id.xor (XorLinear.shiftLeft k)
  exact (hright 27).comp ((hleft 25).comp (hright 12))

theorem steps_injective : Function.Injective steps :=
  (xorShiftRight_injective (by decide)).comp
    ((xorShiftLeft_injective (by decide)).comp (xorShiftRight_injective (by decide)))

/-- The register takes different states apart. -/
theorem scramble_injective : Function.Injective scramble := by
  intro x y h
  apply UInt64.toBitVec_inj.mp
  apply steps_injective
  rw [← toBitVec_scramble, ← toBitVec_scramble, h]

theorem scramble_eq_zero_iff (x : UInt64) : scramble x = 0 ↔ x = 0 := by
  have hzero : scramble 0 = 0 := rfl
  conv_lhs => rw [← hzero]
  exact scramble_injective.eq_iff

/-- What undoes the difference between a state and the next, at each single bit. -/
def undo : List (BitVec 64) :=
  [0x00024924924936DA, 0x0004924924926DB4, 0x000924924924DB69, 0x0010000000008009,
    0x0020000000010012, 0x00424924924B36FE, 0x0084924924966DFC, 0x01092492492CDBF9,
    0x0210000000108129, 0x0420000000210252, 0x08424924920B327E, 0x10849249241664FC,
    0x210B6DB6DA65FF22, 0x421492492682C89F, 0x842924924D05913F, 0x21192412402CC9FD,
    0x423001001210A521, 0x84624B24B6687C98, 0x218DB25B24BE2468, 0x43192D92DB357E0A,
    0x863012012423CACF, 0x25290010002948C6, 0x4A5200200052918D, 0x94A4004000A5231A,
    0x0001249249249B6D, 0x0000000000000001, 0x0000000000000002, 0x00024924924936DE,
    0x0004924924926DBC, 0x000924924924DB79, 0x0010000000008029, 0x0020000000010052,
    0x00424924924B367E, 0x0084924924966CFC, 0x01092492492CD9F9, 0x0210000000108529,
    0x0420000000210A52, 0x08400000004214A5, 0x108000000084294A, 0x210249249341644F,
    0x420492492682C89E, 0x840924924D05913D, 0x215B6D36D265FF23, 0x42B493493682C89D,
    0x856B6FB6FF4CA7E1, 0x239DB25B24BEA441, 0x47392D92DB347E58, 0x8E725B25B668FCB1,
    0x35AD925924BF243A, 0x6B5B24B2497E4874, 0xD6B4004000B5A633, 0x842124924905913F,
    0x210B6D36DA65FF27, 0x421493492682C895, 0x842B6FB6DF4CA7F1, 0x211DB25B64BEA461,
    0x42392D925B347E18, 0x84725B24B668FC31, 0x21AD925B24BF253A, 0x435B24B6497E4A74,
    0x86B4004800B5A233, 0x242124824905993F, 0x48424904920B327F, 0x90849209241664FE]

/-- The register moves every state but zero. -/
theorem scramble_ne {x : UInt64} (h : x ≠ 0) : scramble x ≠ x := by
  intro hfix
  have hdiff : steps x.toBitVec ^^^ x.toBitVec = 0 := by
    rw [← toBitVec_scramble, hfix, BitVec.xor_self]
    rfl
  have hbits : ∀ i < 64, ofTable undo 0 (steps (BitVec.twoPow 64 i) ^^^ BitVec.twoPow 64 i) =
      BitVec.twoPow 64 i := by decide +kernel
  have hzero : x.toBitVec = 0 :=
    XorLinear.eq_zero_of_table
      (xorLinear_steps.xor XorLinear.id) undo hbits hdiff
  exact h (UInt64.toBitVec_inj.mp hzero)

/-- The multiplier is odd, so that different states give different numbers. -/
theorem mul_injective : Function.Injective fun x : UInt64 => x * 0x2545F4914F6CDD1D := by
  have hundo (x : UInt64) : x * 0x2545F4914F6CDD1D * 0x59071D96D81ECD35 = x := by
    rw [UInt64.mul_assoc]
    exact UInt64.mul_one x
  intro x y h
  have hxy : x * 0x2545F4914F6CDD1D = y * 0x2545F4914F6CDD1D := h
  rw [← hundo x, hxy, hundo y]

variable {r : Rng}

theorem advance_state_eq_zero_iff : r.advance.state = 0 ↔ r.state = 0 :=
  scramble_eq_zero_iff r.state

/-- A generator that is not at zero does not get there, however often it draws. -/
theorem draws_state_ne_zero (h : r.state ≠ 0) (n : ℕ) : (advance^[n] r).state ≠ 0 := by
  induction n with
  | zero => exact h
  | succ n ih =>
    rw [Function.iterate_succ_apply']
    exact fun hzero => ih (advance_state_eq_zero_iff.mp hzero)

/-- Away from zero, what is drawn next is not what has just been drawn. -/
theorem next_ne (h : r.state ≠ 0) : r.advance.next.1 ≠ r.next.1 := by
  intro heq
  have hstates : scramble (scramble r.state) = scramble r.state := mul_injective heq
  exact scramble_ne (fun hzero => h ((scramble_eq_zero_iff _).mp hzero)) hstates

/-- The steps of the register, one by one. -/
theorem step_injective :
    (Function.Injective fun x : UInt64 => x ^^^ x >>> 12) ∧
    (Function.Injective fun x : UInt64 => x ^^^ x <<< 25) ∧
    (Function.Injective fun x : UInt64 => x ^^^ x >>> 27) := by
  have hbits {f : UInt64 → UInt64} {g : BitVec 64 → BitVec 64}
      (hfg : ∀ x, (f x).toBitVec = g x.toBitVec) (hg : Function.Injective g) :
      Function.Injective f := by
    intro x y h
    apply UInt64.toBitVec_inj.mp
    apply hg
    rw [← hfg, ← hfg, h]
  exact ⟨hbits (fun _ => rfl) (xorShiftRight_injective (k := 12) (by decide)),
    hbits (fun _ => rfl) (xorShiftLeft_injective (k := 25) (by decide)),
    hbits (fun _ => rfl) (xorShiftRight_injective (k := 27) (by decide))⟩

/-- What is certain is not drawn for, and anything else takes one number. -/
theorem exists_draws_chance (r : Rng) (p : ℚ) : ∃ n, (r.chance p).2 = advance^[n] r := by
  unfold chance
  split
  · exact ⟨0, rfl⟩
  · split
    · exact ⟨0, rfl⟩
    · exact ⟨1, rfl⟩

end Rng

/-! ### Seeds -/

/-- A seed leaves the topmost bits alone. -/
theorem seedOf_lt (sink : Sink) (hop : Hop) : (seedOf sink hop.salt).toNat < 2 ^ 49 := by
  have hquality : (sink.quality.toUInt64 * (0x12345678 : UInt64)).toNat < 2 ^ 49 := by
    have hq : sink.quality.toNat < 256 := sink.quality.toNat_lt
    rw [UInt64.toNat_mul, UInt8.toNat_toUInt64]
    apply Nat.lt_of_le_of_lt (Nat.mod_le _ _)
    change sink.quality.toNat * 0x12345678 < 2 ^ 49
    omega
  have hmode : (UInt64.ofNat sink.mode.toNat <<< (40 : UInt64)).toNat < 2 ^ 49 := by
    cases sink.mode <;> decide
  have hbridged : (sink.bridged.toUInt64 <<< (48 : UInt64)).toNat < 2 ^ 49 := by
    cases sink.bridged <;> decide
  have hsalt : (hop.salt * (0x9E3779B9 : UInt64)).toNat < 2 ^ 49 := by
    cases hop <;> decide
  rw [seedOf, UInt64.toNat_xor, UInt64.toNat_xor, UInt64.toNat_xor]
  exact Nat.xor_lt_two_pow
    (Nat.xor_lt_two_pow (Nat.xor_lt_two_pow hquality hmode) hbridged) hsalt

/-- A constant that has one of the topmost bits set is not undone by a seed. -/
theorem xor_seedOf_ne_zero {c : UInt64} (hc : 2 ^ 49 ≤ c.toNat) (sink : Sink) (hop : Hop) :
    c ^^^ seedOf sink hop.salt ≠ 0 := by
  intro h
  rw [UInt64.xor_eq_zero_iff] at h
  exact absurd (seedOf_lt sink hop) (by rw [← h]; omega)

/-! ### Hops -/

namespace Leg

variable (profile : UInt8 → ErrorProfile)

/-- No hop starts at zero. -/
theorem rng_made_ne_zero (sink : Sink) (frameBytes : ℕ) (hop : Hop) :
    (made profile sink frameBytes hop).rng.state ≠ 0 := by
  unfold made new
  split
  · exact xor_seedOf_ne_zero (by decide) sink hop
  · exact xor_seedOf_ne_zero (by decide) sink hop
  · exact xor_seedOf_ne_zero (by decide) sink hop

/-- All that a frame does to the generator is that numbers are drawn from it. -/
theorem exists_draws_run (leg : Leg) (frame : List Int16) :
    ∃ n, (leg.run frame).rng = Rng.advance^[n] leg.rng := by
  cases leg with
  | digital rng profile frameBytes =>
    obtain ⟨n, hn⟩ := rng.exists_draws_chance profile.erasure
    simp only [run]
    split
    · exact ⟨n, hn⟩
    · refine ⟨profile.bitErrors + n, ?_⟩
      rw [Function.iterate_add_apply]
      exact congrArg Rng.advance^[profile.bitErrors] hn
  | analog rng =>
    refine ⟨frame.length, ?_⟩
    induction frame generalizing rng with
    | nil => rfl
    | cons s frame ih => exact ih rng.advance

/-- All that a hop does with its generator is to draw from it. -/
theorem exists_draws (leg : Leg) (frames : List (List Int16)) :
    ∃ n, (RfxVoiced.run run leg frames).rng = Rng.advance^[n] leg.rng := by
  induction frames generalizing leg with
  | nil => exact ⟨0, rfl⟩
  | cons frame frames ih =>
    obtain ⟨n, hn⟩ := exists_draws_run leg frame
    obtain ⟨m, hm⟩ := ih (leg.run frame)
    refine ⟨m + n, ?_⟩
    rw [run_cons, hm, hn, Function.iterate_add_apply]

/-- **The generator never dies.** Each step of the register takes different states apart, so that a
state is zero after a draw only if it was zero before. The state that a hop starts from is not zero,
wherever the hop is made and whatever the link. A hop does nothing with its generator but draw from
it; and however many numbers have been drawn, the state is not zero, and the number drawn next is
not followed by itself. -/
theorem rng_never_dies :
    ((Function.Injective fun x : UInt64 => x ^^^ x >>> 12) ∧
      (Function.Injective fun x : UInt64 => x ^^^ x <<< 25) ∧
      (Function.Injective fun x : UInt64 => x ^^^ x >>> 27)) ∧
    (∀ r : Rng, r.next.2.state = 0 ↔ r.state = 0) ∧
    ∀ (profile : UInt8 → ErrorProfile) (sink : Sink) (frameBytes : ℕ) (hop : Hop),
      (made profile sink frameBytes hop).rng.state ≠ 0 ∧
      (∀ frames, ∃ n, (RfxVoiced.run run (made profile sink frameBytes hop) frames).rng =
        Rng.advance^[n] (made profile sink frameBytes hop).rng) ∧
      ∀ n, (Rng.advance^[n] (made profile sink frameBytes hop).rng).state ≠ 0 ∧
        (Rng.advance^[n] (made profile sink frameBytes hop).rng).next.1 ≠
          (Rng.advance^[n + 1] (made profile sink frameBytes hop).rng).next.1 := by
  refine ⟨Rng.step_injective, fun r => Rng.advance_state_eq_zero_iff, ?_⟩
  intro profile sink frameBytes hop
  have hstart := rng_made_ne_zero profile sink frameBytes hop
  refine ⟨hstart, exists_draws _, fun n => ?_⟩
  have hstate := Rng.draws_state_ne_zero hstart n
  refine ⟨hstate, ?_⟩
  rw [Function.iterate_succ_apply']
  exact (Rng.next_ne hstate).symm

end Leg

end RfxVoiced.Dsp
