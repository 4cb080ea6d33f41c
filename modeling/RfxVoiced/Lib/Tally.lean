import RfxVoiced.Lib.Table

/-!
# Tallies

A tally goes through a list and updates, for each element, the entry of the element's key; an entry
that is not there yet starts from a default. What a key has in the end depends on the elements with
that key only, in their order.

## Main definitions

* `Table.upsert` — update the entry of a key, or start one
* `Table.tally` — do so for each element of a list

## Main results

* `lookup_tally` — what a key has in the end
-/

namespace RfxVoiced

namespace Table

variable {K V α : Type*} [DecidableEq K]

/-- Update the entry of a key, or start one from a default. -/
def upsert (t : Table K V) (k : K) (default : V) (f : V → V) : Table K V :=
  t.insert k (f ((t.lookup k).getD default))

/-- Update the entry of each element's key. -/
def tally (t : Table K V) (default : V) (key : α → K) (f : α → V → V) (l : List α) : Table K V :=
  l.foldl (fun t a => t.upsert (key a) default (f a)) t

variable (t : Table K V) (default : V)

theorem lookup_upsert (k k' : K) (f : V → V) :
    (t.upsert k default f).lookup k' =
      if k' = k then some (f ((t.lookup k).getD default)) else t.lookup k' :=
  lookup_insert t k k' _

variable (key : α → K) (f : α → V → V)

/-- **What a key has in the end** is what the elements with that key make of what it had. -/
theorem lookup_tally (l : List α) (k : K) :
    ((t.tally default key f l).lookup k).getD default =
      (l.filter fun a => key a = k).foldl (fun v a => f a v) ((t.lookup k).getD default) := by
  induction l generalizing t with
  | nil => rfl
  | cons a l ih =>
    have hcons : t.tally default key f (a :: l) =
        (t.upsert (key a) default (f a)).tally default key f l := rfl
    rw [hcons, ih, lookup_upsert]
    by_cases hk : key a = k
    · rw [if_pos hk.symm, Option.getD_some, hk,
        List.filter_cons_of_pos (by rw [hk]; exact decide_eq_true rfl), List.foldl_cons]
    · rw [if_neg (Ne.symm hk), List.filter_cons_of_neg (by simpa using hk)]

end Table

end RfxVoiced
