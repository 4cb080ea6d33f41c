import Mathlib.Tactic.Common

/-!
# Values behind a deadband

A reading that jitters is steadied by a deadband. While the steadying is on, a new value close to
the one held is parked instead of taking its place, and is taken up when the steadying ends; any
other value is taken at once. What was last told is then either what is held, or what is parked, and
in the second case the two are close.

## Main definitions

* `Deadband`, `Deadband.tell`, `Deadband.settle`
* `Deadband.latest` — the last value told
* `Deadband.Steady` — a parked value is close to the one held

## Main results

* `latest_tell`, `latest_settle` — the last value told is not lost
* `steady_tell`, `steady_settle` — and lags behind by no more than the band
-/

namespace RfxVoiced

/-- A value that is held, and perhaps another that is parked behind it. -/
@[ext] structure Deadband (V : Type*) where
  held : V
  parked : Option V
  deriving DecidableEq

namespace Deadband

variable {V : Type*} (near : V → V → Bool) (d : Deadband V) (steadying : Bool) (v : V)

/-- A new value is told. -/
def tell : Deadband V := if steadying && near d.held v then ⟨d.held, some v⟩ else ⟨v, none⟩

/-- The parked value is taken up. -/
def settle : Deadband V := ⟨d.parked.getD d.held, none⟩

/-- The last value told. -/
def latest : V := d.parked.getD d.held

/-- A parked value is close to the one held. -/
def Steady : Prop := ∀ p, d.parked = some p → near d.held p = true

@[simp] theorem latest_tell : (d.tell near steadying v).latest = v := by
  unfold tell latest
  split_ifs <;> rfl

@[simp] theorem latest_settle : d.settle.latest = d.latest := rfl

@[simp] theorem settle_settle : d.settle.settle = d.settle := rfl

variable {near d}

theorem steady_tell : (d.tell near steadying v).Steady near := by
  intro p hp
  unfold tell at hp ⊢
  split_ifs at hp ⊢ with hclose
  · obtain rfl := Option.some.inj hp
    exact (Bool.and_eq_true_iff.mp hclose).2

theorem steady_settle : d.settle.Steady near := by
  intro p hp
  cases hp

/-- Where nothing is parked, what is held is what was last told. -/
theorem held_eq_latest (h : d.parked = none) : d.held = d.latest := by
  rw [latest, h, Option.getD_none]

/-- What is held is what was last told, or is close to it, and then it is the value told that is
parked. -/
theorem Steady.lag (h : d.Steady near) :
    d.held = d.latest ∨ d.parked = some d.latest ∧ near d.held d.latest = true := by
  cases hp : d.parked with
  | none => exact Or.inl (held_eq_latest hp)
  | some p =>
    have hlatest : d.latest = p := by rw [latest, hp, Option.getD_some]
    rw [hlatest]
    exact Or.inr ⟨rfl, h p hp⟩

end Deadband

end RfxVoiced
