import Mathlib.Tactic.Ring

/-!
# Numbers as bytes, the most significant first

The bytes of a number, in a given width, and the number that a run of bytes is. Writing keeps as
many of the low bytes as fit, and reading undoes writing.

## Main definitions

* `digits` — the bytes of a number, in a given width
* `value` — the number that bytes are

## Main results

* `value_digits` — reading what was written
* `digits_value` — writing what was read
* `value_cons`, `value_lt` — how the value of a run is made up, and how great it is
-/

namespace RfxVoiced.BigEndian

/-- The bytes of a number in a given width. What does not fit is cut off. -/
def digits : ℕ → ℕ → List UInt8
  | 0, _ => []
  | n + 1, v => UInt8.ofNat (v / 256 ^ n) :: digits n v

/-- The number that bytes are. -/
def value (bytes : List UInt8) : ℕ := bytes.foldl (fun v b => v * 256 + b.toNat) 0

theorem foldl_value (v : ℕ) (bytes : List UInt8) :
    bytes.foldl (fun v b => v * 256 + b.toNat) v = v * 256 ^ bytes.length + value bytes := by
  induction bytes generalizing v with
  | nil => simp [value]
  | cons b bytes ih =>
    have hvalue : value (b :: bytes) = (0 * 256 + b.toNat) * 256 ^ bytes.length + value bytes :=
      ih (0 * 256 + b.toNat)
    rw [List.foldl_cons, ih, hvalue, List.length_cons]
    ring

@[simp] theorem value_nil : value [] = 0 := rfl

@[simp] theorem value_cons (b : UInt8) (bytes : List UInt8) :
    value (b :: bytes) = b.toNat * 256 ^ bytes.length + value bytes := by
  rw [value, List.foldl_cons, foldl_value]
  ring

theorem value_lt (bytes : List UInt8) : value bytes < 256 ^ bytes.length := by
  induction bytes with
  | nil => simp
  | cons b bytes ih =>
    have hb : b.toNat < 256 := b.toNat_lt
    have hle : b.toNat * 256 ^ bytes.length ≤ 255 * 256 ^ bytes.length :=
      Nat.mul_le_mul_right _ (by omega)
    rw [value_cons, List.length_cons, pow_succ]
    omega

@[simp] theorem length_digits (n v : ℕ) : (digits n v).length = n := by
  induction n with
  | zero => rfl
  | succ n ih => rw [digits, List.length_cons, ih]

/-- Reading what was written gives the number back, as far as it fits the width. -/
theorem value_digits (n v : ℕ) : value (digits n v) = v % 256 ^ n := by
  induction n with
  | zero => rw [digits, value_nil, pow_zero, Nat.mod_one]
  | succ n ih =>
    rw [digits, value_cons, ih, length_digits, UInt8.toNat_ofNat', pow_succ 256 n, Nat.mod_mul,
      Nat.mul_comm, Nat.add_comm]

theorem value_digits_of_lt {n v : ℕ} (h : v < 256 ^ n) : value (digits n v) = v := by
  rw [value_digits, Nat.mod_eq_of_lt h]

theorem digits_mod (n v : ℕ) : digits n (v % 256 ^ n) = digits n v := by
  induction n generalizing v with
  | zero => rfl
  | succ n ih =>
    have hhead : v % 256 ^ (n + 1) / 256 ^ n = v / 256 ^ n % 256 := by
      rw [pow_succ 256 n, Nat.mod_mul_right_div_self]
    have htail : v % 256 ^ (n + 1) % 256 ^ n = v % 256 ^ n :=
      Nat.mod_mod_of_dvd v (Nat.pow_dvd_pow 256 (Nat.le_succ n))
    rw [digits, digits, ← ih (v % 256 ^ (n + 1)), htail, ih, hhead]
    congr 1
    apply UInt8.toNat_inj.mp
    rw [UInt8.toNat_ofNat', UInt8.toNat_ofNat', Nat.mod_mod]

/-- Writing what was read gives the bytes back. -/
theorem digits_value (bytes : List UInt8) : digits bytes.length (value bytes) = bytes := by
  induction bytes with
  | nil => rfl
  | cons b bytes ih =>
    have hlt := value_lt bytes
    have hpos : 0 < 256 ^ bytes.length := Nat.zero_lt_of_lt hlt
    have hhead : value (b :: bytes) / 256 ^ bytes.length = b.toNat := by
      rw [value_cons, Nat.mul_comm, Nat.mul_add_div hpos, Nat.div_eq_of_lt hlt, Nat.add_zero]
    have htail : value (b :: bytes) % 256 ^ bytes.length = value bytes := by
      rw [value_cons, Nat.mul_comm, Nat.mul_add_mod, Nat.mod_eq_of_lt hlt]
    rw [List.length_cons, digits, hhead, ← digits_mod, htail, ih, UInt8.ofNat_toNat]

end RfxVoiced.BigEndian
