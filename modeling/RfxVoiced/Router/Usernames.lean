import RfxVoiced.Lib.Decimal
import RfxVoiced.Router.Basic

/-!
# The player that a username names

A player chooses everything of a username but its start: the server puts the player's number in
front, in brackets. The number is what stands before the first closing bracket, so that nothing the
player writes behind it counts.

## Main definitions

* `Prefixed` — a username, taken apart at the first closing bracket

## Main results

* `playerIdFromUsername_eq_some_iff` — the usernames that name a player, and which
* `playerIdFromUsername_not_spoofed` — the prefix names the player, whatever follows it, and without
  a number in brackets nobody is named
-/

namespace RfxVoiced

variable {name inside rest : List Char} {n : UInt32}

theorem parseU32_eq (s : List Char) :
    parseU32 s = (Decimal.parse (2 ^ 32) s).map UInt32.ofNat := by
  have hstep : (fun (n : ℕ) (c : Char) =>
      let next := n * 10 + (c.toNat - '0'.toNat)
      if c.isDigit && next < 2 ^ 32 then some next else none) = Decimal.step (2 ^ 32) := by
    funext n c
    simp only [Decimal.step, Bool.and_eq_true, decide_eq_true_eq]
  unfold parseU32 Decimal.parse Decimal.unsigned
  rw [hstep]
  split <;> simp only [List.isEmpty_iff, apply_ite (Option.map UInt32.ofNat), Option.map_none]

/-- A text is read as `n` when it is a decimal number, and that number is `n`. -/
theorem parseU32_eq_some_iff {s : List Char} :
    parseU32 s = some n ↔ Decimal.IsNumeral s n.toNat := by
  rw [parseU32_eq, Option.map_eq_some_iff]
  constructor
  · intro h
    obtain ⟨k, hk, rfl⟩ := h
    obtain ⟨hnumeral, hlt⟩ := Decimal.parse_eq_some_iff.mp hk
    rwa [UInt32.toNat_ofNat_of_lt' hlt]
  · intro h
    exact ⟨n.toNat, Decimal.parse_eq_some_iff.mpr ⟨h, n.toNat_lt⟩, UInt32.ofNat_toNat⟩

/-- A username whose brackets hold `inside`: the text up to the first closing bracket. -/
def Prefixed (name inside : List Char) : Prop :=
  ']' ∉ inside ∧ ∃ rest, name = '[' :: inside ++ ']' :: rest

theorem takeWhile_bracket (h : ']' ∉ inside) (rest : List Char) :
    (inside ++ ']' :: rest).takeWhile (· ≠ ']') = inside := by
  rw [List.takeWhile_append_of_pos, List.takeWhile_cons_of_neg (by simp), List.append_nil]
  intro c hc
  exact decide_eq_true (ne_of_mem_of_not_mem hc h)

/-- The number is looked for before the first closing bracket, and nowhere else. -/
theorem playerIdFromUsername_of_prefixed (h : Prefixed name inside) :
    playerIdFromUsername name = parseU32 inside := by
  obtain ⟨hinside, rest, rfl⟩ := h
  rw [List.cons_append, playerIdFromUsername, if_pos (by simp), takeWhile_bracket hinside]

/-- Without brackets there is nothing to read. -/
theorem exists_prefixed_of_eq_some (h : playerIdFromUsername name = some n) :
    ∃ inside, Prefixed name inside := by
  unfold playerIdFromUsername at h
  split at h
  · next rest =>
    split at h
    · next hclosed =>
      obtain ⟨inside, behind, hsplit, hinside⟩ := List.eq_append_cons_of_mem hclosed
      exact ⟨inside, hinside, behind, congrArg (List.cons '[') hsplit⟩
    · contradiction
  · contradiction

/-- **The usernames that name a player.** They are those whose brackets hold a decimal number, and
the player is that number. -/
theorem playerIdFromUsername_eq_some_iff :
    playerIdFromUsername name = some n ↔
      ∃ inside, Prefixed name inside ∧ Decimal.IsNumeral inside n.toNat := by
  constructor
  · intro h
    obtain ⟨inside, hprefixed⟩ := exists_prefixed_of_eq_some h
    rw [playerIdFromUsername_of_prefixed hprefixed] at h
    exact ⟨inside, hprefixed, parseU32_eq_some_iff.mp h⟩
  · intro h
    obtain ⟨inside, hprefixed, hnumeral⟩ := h
    rw [playerIdFromUsername_of_prefixed hprefixed]
    exact parseU32_eq_some_iff.mpr hnumeral

/-- The prefix that the server gives a player's name. -/
theorem prefixed_toDigits (n : ℕ) (s : List Char) :
    Prefixed ('[' :: Nat.toDigits 10 n ++ ']' :: ' ' :: s) (Nat.toDigits 10 n) :=
  ⟨Decimal.not_mem_toDigits rfl, ' ' :: s, rfl⟩

/-- **The prefix names the player, and it cannot be spoofed.** A username that starts with the
number of a player in brackets names that player, whatever the player has chosen to write behind it.
A username names nobody when what its brackets hold, up to the first that closes, is no decimal
number of 32 bits, or when it has no such brackets. -/
theorem playerIdFromUsername_not_spoofed :
    (∀ (n : UInt32) (s : List Char),
      playerIdFromUsername ('[' :: Nat.toDigits 10 n.toNat ++ ']' :: ' ' :: s) = some n) ∧
    ∀ name : List Char, playerIdFromUsername name = none ↔
      ¬ ∃ inside k, Prefixed name inside ∧ Decimal.IsNumeral inside k ∧ k < 2 ^ 32 := by
  refine ⟨fun n s => ?_, fun name => ?_⟩
  · exact playerIdFromUsername_eq_some_iff.mpr
      ⟨_, prefixed_toDigits n.toNat s, Decimal.isNumeral_toDigits n.toNat⟩
  · rw [Option.eq_none_iff_forall_ne_some]
    apply not_iff_not.mp
    push Not
    constructor
    · intro h
      obtain ⟨n, hn⟩ := h
      obtain ⟨inside, hprefixed, hnumeral⟩ := playerIdFromUsername_eq_some_iff.mp hn
      exact ⟨inside, n.toNat, hprefixed, hnumeral, n.toNat_lt⟩
    · intro h
      obtain ⟨inside, k, hprefixed, hnumeral, hlt⟩ := h
      refine ⟨UInt32.ofNat k, playerIdFromUsername_eq_some_iff.mpr ⟨inside, hprefixed, ?_⟩⟩
      rwa [UInt32.toNat_ofNat_of_lt' hlt]

example : playerIdFromUsername "[12] [7] Arthur".toList = some 12 := by decide

end RfxVoiced
