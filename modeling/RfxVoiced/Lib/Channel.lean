import Mathlib.Logic.Function.Basic
import RfxVoiced.Lib.Run

/-!
# Channels

Several producers share a queue of bounded length. A producer that sends waits until there is room,
and sends nothing else meanwhile; so nothing is dropped, and what a producer sends keeps its order.
When nobody reads any more, what is queued stays there, and whoever sends waits for good.

## Main definitions

* `Channel` — the queue, what waits to be queued, and what has been taken
* `Channel.Op`, `Channel.step` — what happens to it
* `Channel.only` — what came from one producer

## Main results

* `only_taken` — what is taken of a producer begins what it sent
* `taken_starts` — what was queued first is taken first
-/

namespace RfxVoiced

namespace Channel

/-- What came from one producer, in order. -/
def only {ι α : Type*} [DecidableEq ι] (i : ι) (l : List (ι × α)) : List α :=
  (l.filter fun x => x.1 = i).map Prod.snd

section Only

variable {ι α : Type*} [DecidableEq ι] (i j : ι) (a : α) (l l' : List (ι × α))

theorem only_append : only i (l ++ l') = only i l ++ only i l' := by
  rw [only, List.filter_append, List.map_append, ← only, ← only]

theorem only_singleton : only i [(j, a)] = if j = i then [a] else [] := by
  by_cases h : j = i <;> simp [only, h]

/-- What only one producer sends can be told by what it is. -/
theorem filter_map_snd {l : List (ι × α)} {q : α → Bool} (h : ∀ x ∈ l, q x.2 = true → x.1 = i) :
    (l.map Prod.snd).filter q = (only i l).filter q := by
  rw [only, List.filter_map, List.filter_map, List.filter_filter]
  refine congrArg (List.map Prod.snd) (List.filter_congr fun x hx => ?_)
  by_cases hq : q x.2 = true
  · simp [hq, h x hx hq]
  · simp [hq]

theorem mem_only {l : List (ι × α)} {x : ι × α} (h : x ∈ l) : x.2 ∈ only x.1 l :=
  List.mem_map_of_mem (List.mem_filter.mpr ⟨h, by simp⟩)

end Only

end Channel

/-- A queue that several producers share. What each has sent is taken, queued or waiting. -/
structure Channel (ι α : Type*) [DecidableEq ι] (capacity : ℕ) where
  /-- What a producer waits to have queued. -/
  waiting : ι → Option α
  pending : List (ι × α)
  /-- What has been taken, the oldest first. -/
  taken : List (ι × α)
  sent : ι → List α
  /-- Whether somebody reads it. -/
  isOpen : Bool
  fits : pending.length ≤ capacity
  accounted : ∀ i, Channel.only i (taken ++ pending) ++ (waiting i).toList = sent i

namespace Channel

variable {ι α : Type*} [DecidableEq ι] {capacity : ℕ}

def new (ι α : Type*) [DecidableEq ι] (capacity : ℕ) : Channel ι α capacity where
  waiting _ := none
  pending := []
  taken := []
  sent _ := []
  isOpen := true
  fits := Nat.zero_le _
  accounted _ := rfl

/-- What happens to a channel. -/
inductive Op (ι α : Type*)
  | send (i : ι) (a : α)
  /-- What a producer waits with is queued. -/
  | enqueue (i : ι)
  | take
  /-- Nobody reads it any more. -/
  | close

/-- A producer sends, unless it still waits. -/
def send (c : Channel ι α capacity) (i : ι) (a : α) : Channel ι α capacity :=
  if h : c.waiting i = none then
    { c with
      waiting := Function.update c.waiting i (some a)
      sent := Function.update c.sent i (c.sent i ++ [a])
      accounted := fun j => by
        have hj := c.accounted j
        by_cases hji : j = i
        · subst hji
          rw [h] at hj
          simpa using hj
        · simpa [hji] using hj }
  else c

def enqueue (c : Channel ι α capacity) (i : ι) : Channel ι α capacity :=
  match h : c.waiting i with
  | none => c
  | some a =>
    if hroom : c.isOpen = true ∧ c.pending.length < capacity then
      { c with
        waiting := Function.update c.waiting i none
        pending := c.pending ++ [(i, a)]
        fits := by
          rw [List.length_append]
          exact hroom.2
        accounted := fun j => by
          have hj := c.accounted j
          rw [← List.append_assoc, only_append, only_singleton]
          by_cases hji : j = i
          · subst hji
            rw [h] at hj
            simpa using hj
          · simpa [hji, Ne.symm hji] using hj }
    else c

def take (c : Channel ι α capacity) : Channel ι α capacity :=
  match h : c.pending with
  | [] => c
  | x :: rest =>
    if c.isOpen then
      { c with
        pending := rest
        taken := c.taken ++ [x]
        fits := by
          have hfits := c.fits
          rw [h] at hfits
          exact Nat.le_of_succ_le hfits
        accounted := fun j => by
          have hj := c.accounted j
          rw [h] at hj
          simpa using hj }
    else c

def close (c : Channel ι α capacity) : Channel ι α capacity := { c with isOpen := false }

def step (c : Channel ι α capacity) : Op ι α → Channel ι α capacity
  | .send i a => c.send i a
  | .enqueue i => c.enqueue i
  | .take => c.take
  | .close => c.close

variable (c : Channel ι α capacity)

/-- **What is taken of a producer begins what it sent**: in its order, and with nothing missing
between. -/
theorem only_taken (i : ι) : only i c.taken <+: c.sent i := by
  rw [← c.accounted i, only_append, List.append_assoc]
  exact List.prefix_append _ _

/-- All that a producer sent has been taken, when nothing is queued and it does not wait. -/
theorem only_taken_of_idle {i : ι} (hpending : c.pending = []) (hwaiting : c.waiting i = none) :
    only i c.taken = c.sent i := by
  rw [← c.accounted i, hpending, hwaiting, List.append_nil]
  exact (List.append_nil _).symm

/-! ### What each producer has sent -/

theorem sent_send_of_idle {i : ι} (h : c.waiting i = none) (a : α) :
    (c.send i a).sent = Function.update c.sent i (c.sent i ++ [a]) := by
  rw [send, dif_pos h]

theorem sent_send_of_ne {i j : ι} (h : j ≠ i) (a : α) : (c.send i a).sent j = c.sent j := by
  unfold send
  split
  · exact Function.update_of_ne h _ _
  · rfl

/-- Only sending adds to what has been sent. -/
theorem sent_step {op : Op ι α} (h : ∀ i a, op ≠ .send i a) : (c.step op).sent = c.sent := by
  cases op with
  | send i a => exact absurd rfl (h i a)
  | enqueue i =>
    simp only [step]
    unfold enqueue
    split
    · rfl
    · split <;> rfl
  | take =>
    simp only [step]
    unfold take
    split
    · rfl
    · split <;> rfl
  | close => rfl

/-! ### What was queued first -/

/-- What was queued is taken in its order: it only grows. -/
theorem queued_step (op : Op ι α) :
    c.taken ++ c.pending <+: (c.step op).taken ++ (c.step op).pending := by
  cases op with
  | send i a =>
    simp only [step, send]
    split <;> exact List.prefix_rfl
  | enqueue i =>
    simp only [step]
    unfold enqueue
    split
    · exact List.prefix_rfl
    · split
      · rw [← List.append_assoc]
        exact List.prefix_append _ _
      · exact List.prefix_rfl
  | take =>
    simp only [step]
    unfold take
    split
    · exact List.prefix_rfl
    next x rest h =>
      split
      · change c.taken ++ c.pending <+: c.taken ++ [x] ++ rest
        rw [h, List.append_assoc]
        exact List.prefix_rfl
      · exact List.prefix_rfl
  | close => exact List.prefix_rfl

/-- What has been taken begins what was queued first, or goes on after it. -/
theorem taken_starts {first : List (ι × α)} (h : first <+: c.taken ++ c.pending) :
    first <+: c.taken ∨ c.taken <+: first :=
  List.prefix_or_prefix_of_prefix h (List.prefix_append _ _)

end Channel

end RfxVoiced
