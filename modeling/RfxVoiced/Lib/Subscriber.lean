import Mathlib.Data.List.Infix
import Mathlib.Data.List.Nodup
import RfxVoiced.Lib.Run

/-!
# Subscribing to what is announced

A subscriber is told of topics, one at a time and possibly more than once, and may ask for them only
while it is admitted. It asks for each topic once, in the order in which they were announced, and
while it is admitted it has asked for all of them.

## Main definitions

* `Subscriber` — what has been announced and what has been asked for
* `Subscriber.Op`, `Subscriber.step` — what happens to it

## Main results

* `known_run` — what is known is what was announced, each topic once, in order
-/

namespace RfxVoiced

/-- A subscriber, with what it has asked for at the front of what it knows. -/
@[ext]
structure Subscriber (α : Type*) where
  known : List α
  asked : List α
  admitted : Bool
  nodup : known.Nodup
  starts : asked <+: known
  caughtUp : admitted = true → asked = known

namespace Subscriber

variable {α : Type*} [DecidableEq α]

def new (α : Type*) : Subscriber α where
  known := []
  asked := []
  admitted := false
  nodup := List.nodup_nil
  starts := List.prefix_rfl
  caughtUp _ := rfl

/-- What a subscriber is told. -/
inductive Op (α : Type*)
  | announce (a : α)
  | enrol (admitted : Bool)
  deriving DecidableEq, Repr

/-- A topic that is announced again changes nothing. -/
def announce (s : Subscriber α) (a : α) : Subscriber α :=
  if h : a ∈ s.known then s
  else
    { known := s.known ++ [a]
      asked := if s.admitted then s.asked ++ [a] else s.asked
      admitted := s.admitted
      nodup := by
        rw [← List.concat_eq_append]
        exact s.nodup.concat h
      starts := by
        split_ifs with hadmitted
        · rw [s.caughtUp hadmitted]
        · exact s.starts.trans (List.prefix_append _ _)
      caughtUp := fun hadmitted => by rw [if_pos hadmitted, s.caughtUp hadmitted] }

omit [DecidableEq α] in
theorem starts_of_enrol (s : Subscriber α) (admitted : Bool) :
    (if admitted then s.known else s.asked) <+: s.known := by
  split
  · exact List.prefix_rfl
  · exact s.starts

/-- Once it is admitted, a subscriber asks for all that it has not asked for. -/
def enrol (s : Subscriber α) (admitted : Bool) : Subscriber α where
  known := s.known
  asked := if admitted then s.known else s.asked
  admitted := admitted
  nodup := s.nodup
  starts := s.starts_of_enrol admitted
  caughtUp h := if_pos h

def step (s : Subscriber α) : Op α → Subscriber α
  | .announce a => s.announce a
  | .enrol admitted => s.enrol admitted

/-- What a list of events announces. -/
def announcements (ops : List (Op α)) : List α :=
  ops.filterMap fun op =>
    match op with
    | .announce a => some a
    | .enrol _ => none

omit [DecidableEq α] in
theorem announcements_append (ops ops' : List (Op α)) :
    announcements (ops ++ ops') = announcements ops ++ announcements ops' := List.filterMap_append

/-! ### What is known -/

/-- One more element is new, or it has occurred before. -/
theorem eraseDups_concat (l : List α) (a : α) :
    (l ++ [a]).eraseDups = if a ∈ l then l.eraseDups else l.eraseDups ++ [a] := by
  rw [List.eraseDups_append]
  split_ifs with h
  · rw [List.removeAll, List.filter_cons_of_neg (by simpa using h), List.filter_nil,
      List.eraseDups_nil, List.append_nil]
  · rw [List.removeAll, List.filter_cons_of_pos (by simpa using h), List.filter_nil,
      List.eraseDups_cons, List.filter_nil, List.eraseDups_nil]

theorem mem_eraseDups_iff {l : List α} {a : α} : a ∈ l.eraseDups ↔ a ∈ l := by
  induction l using List.reverseRecOn with
  | nil => rw [List.eraseDups_nil]
  | append_singleton l b ih =>
    rw [eraseDups_concat, List.mem_append, List.mem_singleton]
    split_ifs with hb
    · rw [ih]
      exact ⟨Or.inl, fun h => h.elim id fun heq => heq ▸ hb⟩
    · rw [List.mem_append, ih, List.mem_singleton]

/-- **What is known is what was announced**, each topic once, in order. -/
theorem known_run (ops : List (Op α)) :
    (run step (new α) ops).known = (announcements ops).eraseDups := by
  induction ops using List.reverseRecOn with
  | nil => rfl
  | append_singleton ops op ih =>
    rw [run_concat, announcements, List.filterMap_append, ← announcements]
    cases op with
    | announce a =>
      have hmem : a ∈ (run step (new α) ops).known ↔ a ∈ announcements ops := by
        rw [ih, mem_eraseDups_iff]
      have hone : [Op.announce a].filterMap (fun op : Op α =>
          match op with
          | .announce a => some a
          | .enrol _ => none) = [a] := rfl
      rw [hone, eraseDups_concat, ← ih]
      simp only [step, announce, ← hmem]
      split_ifs <;> rfl
    | enrol admitted =>
      change (run step (new α) ops).known = (announcements ops ++ []).eraseDups
      rw [ih, List.append_nil]

end Subscriber

end RfxVoiced
