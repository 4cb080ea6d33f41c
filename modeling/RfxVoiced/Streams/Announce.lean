import Mathlib.Data.List.Find
import RfxVoiced.Router.Listening
import RfxVoiced.Streams.Serve

/-!
# Whom a call event reaches

A call event is fanned out in two ways. The control plane announces it across the patch, to each
console once and on the first route of the patch that it watches; an audio socket tells it to the
consoles watching the one route that was pressed, and to its own client. This file says, for each
way, what every client was last told afterwards.

## Main results

* `lastCall_announceCall` — what a console was last told, after an announcement across the patch
* `lastCall_sendCalls` — and after one on a single route
-/

namespace RfxVoiced

/-! ### Who watches a route -/

namespace Router

variable {r : Router} {t : RouteId} {client : ClientId}

theorem mem_listenersOf : client ∈ r.listenersOf t ↔ r.listensOn t client = some true := by
  unfold listenersOf listensOn
  cases r.routes.lookup t with
  | none => simp
  | some route =>
    simp only [List.mem_map, List.mem_filter, Option.bind_some, Option.map_eq_some_iff]
    constructor
    · rintro ⟨⟨c, m⟩, ⟨hmem, hlisten⟩, rfl⟩
      exact ⟨m, Table.lookup_eq_some_iff.mpr hmem, hlisten⟩
    · rintro ⟨m, hm, hlisten⟩
      exact ⟨⟨client, m⟩, ⟨Table.lookup_eq_some_iff.mp hm, hlisten⟩, rfl⟩

/-- The first route of the patch that a client watches. -/
def watchedFirst (r : Router) (tg : RouteId) (client : ClientId) : Option RouteId :=
  (r.joined tg).find? fun member => client ∈ r.listenersOf member

/-- Where the same clients watch the same patch, they are told on the same route. -/
theorem watchedFirst_congr {r' : Router} {tg : RouteId} (hjoined : r'.joined tg = r.joined tg)
    (hlistens : ∀ t, r'.listensOn t client = r.listensOn t client) :
    r'.watchedFirst tg client = r.watchedFirst tg client := by
  rw [watchedFirst, watchedFirst, hjoined]
  refine List.find?_congr fun member _ => ?_
  simp only [mem_listenersOf, hlistens]

end Router

namespace Streams

variable (s : Streams) (c : ClientId) (tg t : RouteId) (keyed : Bool) (talker : String)

theorem mem_consolesOn {r : Router} :
    c ∈ consolesOn r tg ↔ r.listensOn tg c = some true ∧ c.isConsole = true := by
  simp [consolesOn, Router.mem_listenersOf, ClientId.isConsole]

/-! ### On one route -/

@[simp] theorem sendCall_sinks (client : ClientId) :
    (s.sendCall client tg keyed talker).sinks = s.sinks := hand_sinks s client _

@[simp] theorem sendCalls_sinks (consoles : List ClientId) :
    (s.sendCalls consoles tg keyed talker).sinks = s.sinks := by
  induction consoles generalizing s with
  | nil => rfl
  | cons a consoles ih =>
    exact (ih (s.sendCall a tg keyed talker)).trans (sendCall_sinks s tg keyed talker a)

/-- Whoever is on the list and has a sink was last told this, on this route. -/
theorem lastCall_sendCalls (consoles : List ClientId) :
    (s.sendCalls consoles tg keyed talker).lastCall c t =
      if c ∈ consoles ∧ t = tg ∧ (s.sinks.lookup c).isSome = true then some keyed
      else s.lastCall c t := by
  induction consoles generalizing s with
  | nil => simp [sendCalls]
  | cons a consoles ih =>
    have htail := ih (s.sendCall a tg keyed talker)
    rw [sendCall_sinks, lastCall_sendCall] at htail
    refine htail.trans ?_
    by_cases ha : c = a
    · -- Told now, and perhaps again later, of the same thing.
      subst ha
      by_cases hreached : t = tg ∧ (s.sinks.lookup c).isSome = true
      · simp [hreached.1, hreached.2]
      · have hnot : ¬ ((s.sinks.lookup c).isSome = true ∧ c = c ∧ t = tg) := fun h =>
          hreached ⟨h.2.2, h.1⟩
        rw [if_neg fun h => hreached h.2, if_neg hnot, if_neg fun h => hreached h.2]
    · simp [ha]

/-! ### Across a patch -/

/-- One step of an announcement: a console that has not been told yet is told, on this route. -/
def tellOne (member : RouteId) (keyed : Bool) (talker : String) (acc : List ClientId × Streams)
    (c : ClientId) : List ClientId × Streams :=
  if c.server ≠ consoleServer ∨ c ∈ acc.1 then acc
  else (acc.1 ++ [c], acc.2.sendCall c member keyed talker)

theorem announceCall_eq (r : Router) :
    Control.announceCall r s tg keyed talker =
      ((r.joined tg).foldl (fun acc member =>
        (r.listenersOf member).foldl (tellOne member keyed talker) acc) ([], s)).2 := rfl

/-- What every call frame keeps, an announcement keeps. -/
theorem announceCall_induction {P : Streams → Prop} (r : Router)
    (hsend : ∀ s' c member, P s' → P (s'.sendCall c member keyed talker)) (h : P s) :
    P (Control.announceCall r s tg keyed talker) := by
  rw [announceCall_eq]
  refine run_invariant (P := fun acc : List ClientId × Streams => P acc.2)
    (fun acc member hacc => ?_) (s := ([], s)) h (r.joined tg)
  refine run_invariant (P := fun acc : List ClientId × Streams => P acc.2) (fun acc c hacc => ?_)
    hacc (r.listenersOf member)
  unfold tellOne
  split_ifs
  · exact hacc
  · exact hsend acc.2 c member hacc

section Tell

variable (acc : List ClientId × Streams) (member : RouteId)

/-- Telling the listeners of one route: a console among them is told unless it has been, and counts
as told from then on. -/
theorem tellOne_foldl (hc : c.isConsole = true) (listeners : List ClientId) :
    (c ∈ (listeners.foldl (tellOne member keyed talker) acc).1 ↔ c ∈ acc.1 ∨ c ∈ listeners) ∧
      (listeners.foldl (tellOne member keyed talker) acc).2.sinks = acc.2.sinks ∧
      (listeners.foldl (tellOne member keyed talker) acc).2.lastCall c t =
        if c ∉ acc.1 ∧ c ∈ listeners ∧ t = member ∧ (acc.2.sinks.lookup c).isSome = true
        then some keyed else acc.2.lastCall c t := by
  -- On the listeners, from any state of what has been told so far.
  have hserver : c.server = consoleServer := by simpa [ClientId.isConsole] using hc
  induction listeners generalizing acc with
  | nil => simp
  | cons a listeners ih =>
    obtain ⟨htold, hsinks, hlast⟩ := ih (tellOne member keyed talker acc a)
    rw [List.foldl_cons]
    by_cases hskip : a.server ≠ consoleServer ∨ a ∈ acc.1
    · have hsame : tellOne member keyed talker acc a = acc := if_pos hskip
      rw [hsame] at htold hsinks hlast ⊢
      refine ⟨?_, hsinks, ?_⟩
      · rw [htold]
        constructor
        · exact Or.imp_right (List.mem_cons_of_mem a)
        · rintro (h | h)
          · exact Or.inl h
          · rcases List.mem_cons.mp h with rfl | h
            · exact Or.inl (hskip.resolve_left (not_not.mpr hserver))
            · exact Or.inr h
      · rw [hlast]
        by_cases ha : c = a
        · -- A console is only passed over when it has been told already.
          subst ha
          have hin : c ∈ acc.1 := hskip.resolve_left (not_not.mpr hserver)
          rw [if_neg fun h => h.1 hin, if_neg fun h => h.1 hin]
        · simp [ha]
    · have htell : tellOne member keyed talker acc a =
          (acc.1 ++ [a], acc.2.sendCall a member keyed talker) := if_neg hskip
      rw [htell] at htold hsinks hlast ⊢
      rw [sendCall_sinks] at hsinks hlast
      refine ⟨?_, hsinks, ?_⟩
      · rw [htold]
        simp [or_assoc]
      · rw [hlast, lastCall_sendCall]
        by_cases ha : c = a
        · subst ha
          have hfresh : c ∉ acc.1 := fun h => hskip (Or.inr h)
          simp [hfresh, and_comm]
        · simp [ha]

/-- Telling the routes of a patch, one after the other: a console is told on the first of them that
it watches. -/
theorem tellAll_foldl (r : Router) (hc : c.isConsole = true) (members : List RouteId) :
    (members.foldl (fun acc member =>
        (r.listenersOf member).foldl (tellOne member keyed talker) acc) acc).2.lastCall c t =
      if c ∉ acc.1 ∧ (members.find? fun member => c ∈ r.listenersOf member) = some t ∧
          (acc.2.sinks.lookup c).isSome = true
      then some keyed else acc.2.lastCall c t := by
  induction members generalizing acc with
  | nil => simp
  | cons member members ih =>
    obtain ⟨htold, hsinks, hlast⟩ :=
      tellOne_foldl c t keyed talker acc member hc (r.listenersOf member)
    rw [List.foldl_cons, ih, hlast, hsinks]
    by_cases hwatches : c ∈ r.listenersOf member
    · -- Told on this route, so the later ones pass it over.
      have htold' : ¬ c ∉ ((r.listenersOf member).foldl (tellOne member keyed talker) acc).1 :=
        not_not.mpr (htold.mpr (Or.inr hwatches))
      rw [if_neg fun h => htold' h.1, List.find?_cons_of_pos (by simpa using hwatches)]
      simp only [hwatches, true_and, Option.some.injEq, eq_comm (a := member)]
    · have htold' : c ∉ ((r.listenersOf member).foldl (tellOne member keyed talker) acc).1 ↔
          c ∉ acc.1 := by
        rw [htold]
        simp [hwatches]
      rw [List.find?_cons_of_neg (by simpa using hwatches)]
      simp [hwatches, htold']

end Tell

/-- After an announcement across a patch, a console with a sink was last told this on the first
route of the patch that it watches, and on the others what it was told before. -/
theorem lastCall_announceCall (r : Router) (hc : c.isConsole = true) :
    (Control.announceCall r s tg keyed talker).lastCall c t =
      if r.watchedFirst tg c = some t ∧ (s.sinks.lookup c).isSome = true then some keyed
      else s.lastCall c t := by
  rw [announceCall_eq, tellAll_foldl c t keyed talker ([], s) r hc]
  exact if_congr (by simp [Router.watchedFirst]) rfl rfl

end Streams

end RfxVoiced
