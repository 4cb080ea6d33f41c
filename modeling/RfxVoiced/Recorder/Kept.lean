import RfxVoiced.Recorder.Refinement

/-!
# What becomes of a call

A call that begins while its route is free, and is written without a failure until it ends, is kept
with what was pushed to its route in between, whatever happens on other routes. It is found on the
disk from then on, until it is pruned.

## Main definitions

* `pushedTo` — the samples that are pushed to a route
* `Library.GoesOn` — the call on a route is not disturbed
* `Library.Keeps` — a call that is kept is not pruned

## Main results

* `current_run` — a call that is not disturbed takes down what is pushed to its route
* `call_is_kept` — it is found on the disk until it is pruned
-/

namespace RfxVoiced.Files

/-- The samples that are pushed to a route. -/
def pushedTo (tg : RouteId) (es : List Event) : List Int16 :=
  es.flatMap fun e =>
    match e with
    | .push t pcm _ => if t = tg then pcm else []
    | _ => []

theorem pushedTo_cons (tg : RouteId) (e : Event) (es : List Event) :
    pushedTo tg (e :: es) = pushedTo tg [e] ++ pushedTo tg es := by
  simp [pushedTo]

theorem pushedTo_push (tg t : RouteId) (pcm : List Int16) (io : Bool) :
    pushedTo tg [.push t pcm io] = if t = tg then pcm else [] := by
  simp [pushedTo]

/-- The call, with more that was heard. -/
def Call.heard (c : Call) (pcm : List Int16) : Call := { c with audio := c.audio ++ pcm }

theorem Call.heard_nil (c : Call) : c.heard [] = c := by rw [heard, List.append_nil]

theorem Call.heard_append (c : Call) (pcm pcm' : List Int16) :
    c.heard (pcm ++ pcm') = (c.heard pcm).heard pcm' := by
  rw [heard, heard, heard, List.append_assoc]

namespace Library

variable {tooShort : ℕ → UInt32 → Bool} {l : Library} {tg : RouteId} {c : Call}

/-- The call on a route is not disturbed: its samples are written, it does not end, the process goes
on, and it is not pruned. -/
def GoesOn (tg : RouteId) (l : Library) : Event → Prop
  | .push t _ io => t = tg → io = true
  | .finish t _ => t ≠ tg
  | .prune now removes => ∀ days ∈ l.days, ∀ cur ∈ l.current.lookup tg,
    ¬ cur.call.Pruned days now removes
  | .restart _ _ _ => False
  | .begin _ _ _ _ _ _ _ => True

/-- The event does not prune the call. -/
def Keeps (c : Call) (l : Library) : Event → Prop
  | .prune now removes => ∀ days ∈ l.days, ¬ c.Pruned days now removes
  | .restart now days removes => l.days.isSome = true → ¬ c.Pruned days now removes
  | _ => True

instance (tg : RouteId) (l : Library) : DecidablePred (GoesOn tg l)
  | .push t _ io => inferInstanceAs (Decidable (t = tg → io = true))
  | .finish t _ => inferInstanceAs (Decidable (t ≠ tg))
  | .prune now removes => Option.decidableForallMem (p := fun days => ∀ cur ∈ l.current.lookup tg,
      ¬ cur.call.Pruned days now removes) l.days
  | .restart _ _ _ => inferInstanceAs (Decidable False)
  | .begin _ _ _ _ _ _ _ => inferInstanceAs (Decidable True)

instance (c : Call) (l : Library) : DecidablePred (Keeps c l)
  | .prune now removes =>
    Option.decidableForallMem (p := fun days => ¬ c.Pruned days now removes) l.days
  | .restart now days removes =>
    inferInstanceAs (Decidable (l.days.isSome = true → ¬ c.Pruned days now removes))
  | .push _ _ _ | .finish _ _ | .begin _ _ _ _ _ _ _ => inferInstanceAs (Decidable True)

/-! ### While a call is being taken down -/

theorem lookup_begin_of_some (hcur : l.current.lookup tg = some ⟨c, true⟩) (now : UInt64)
    (tg' : RouteId) (server player : UInt32) (unit : String) (rate : UInt32) (io : Bool) :
    (l.begin now tg' server player unit rate io).current.lookup tg = some ⟨c, true⟩ := by
  unfold begin
  split
  · exact hcur
  next hfree =>
    have hne : tg ≠ tg' := by
      rintro rfl
      exact hfree (Or.inr (AList.lookup_isSome.mp (by rw [hcur]; rfl)))
    rw [Table.lookup_insert, if_neg hne]
    exact hcur

/-- An event that does not disturb a call adds to it what it pushes to its route. -/
theorem current_step (hcur : l.current.lookup tg = some ⟨c, true⟩) {e : Event}
    (he : l.GoesOn tg e) :
    (l.step tooShort e).current.lookup tg = some ⟨c.heard (pushedTo tg [e]), true⟩ := by
  cases e with
  | begin now tg' server player unit rate io =>
    change _ = some (⟨c.heard [], true⟩ : Current)
    rw [c.heard_nil]
    exact lookup_begin_of_some hcur now tg' server player unit rate io
  | push tg' pcm io =>
    rw [step, push, Table.lookup_modify, hcur, pushedTo_push]
    by_cases htg : tg' = tg
    · obtain rfl : io = true := he htg
      rw [if_pos htg.symm, if_pos htg]
      rfl
    · rw [if_neg (Ne.symm htg), if_neg htg, c.heard_nil]
  | finish tg' io =>
    change _ = some (⟨c.heard [], true⟩ : Current)
    rw [c.heard_nil, step, finish, Table.lookup_erase, if_neg (Ne.symm he)]
    exact hcur
  | prune now removes =>
    change _ = some (⟨c.heard [], true⟩ : Current)
    rw [c.heard_nil, step]
    cases hdays : l.days with
    | none =>
      rw [l.prune_off hdays]
      exact hcur
    | some days =>
      have hkeeps : ¬ c.Pruned days now removes := he days hdays _ hcur
      rw [l.prune_on hdays, Table.lookup_mapVal, hcur, Option.map_some, decide_eq_false hkeeps]
      rfl
  | restart now days removes => exact absurd he id

/-- **A call that is not disturbed takes down what is pushed to its route**, and nothing else. -/
theorem current_run (hcur : l.current.lookup tg = some ⟨c, true⟩) {es : List Event}
    (hes : Along (step tooShort) (GoesOn tg) l es) :
    (run (step tooShort) l es).current.lookup tg = some ⟨c.heard (pushedTo tg es), true⟩ := by
  induction es generalizing l c with
  | nil =>
    change l.current.lookup tg = some (⟨c.heard [], true⟩ : Current)
    rw [c.heard_nil]
    exact hcur
  | cons e es ih =>
    rw [run_cons, ih (current_step hcur hes.1) hes.2, ← c.heard_append, ← pushedTo_cons]

/-! ### Once it is kept -/

theorem mem_kept_prune (hc : c ∈ l.kept) {now : UInt64} {removes : Name → Bool}
    (h : ∀ days, l.days = some days → ¬ c.Pruned days now removes) :
    c ∈ (l.prune now removes).kept := by
  cases hdays : l.days with
  | none =>
    rw [l.prune_off hdays]
    exact hc
  | some days =>
    rw [l.prune_on hdays]
    exact List.mem_filter.mpr ⟨hc, decide_eq_true (h days hdays)⟩

theorem mem_kept_step (hc : c ∈ l.kept) {e : Event} (he : l.Keeps c e) :
    c ∈ (l.step tooShort e).kept := by
  cases e with
  | begin now tg server player unit rate io =>
    rw [step, begin]
    split <;> exact hc
  | push tg pcm io => exact hc
  | finish tg io => exact List.mem_append_left _ hc
  | prune now removes => exact mem_kept_prune hc he
  | restart now days removes =>
    refine mem_kept_prune (l := { l with
      days := l.days.map fun _ => days, seq := 0, clock := now, booted := now, current := ∅ }) hc
      fun days' hdays' => ?_
    obtain ⟨old, hold, rfl⟩ := Option.map_eq_some_iff.mp hdays'
    exact he (by rw [hold]; rfl)

theorem mem_kept_run (hc : c ∈ l.kept) {es : List Event}
    (hes : Along (step tooShort) (Keeps c) l es) : c ∈ (run (step tooShort) l es).kept :=
  run_induction (P := fun l => c ∈ l.kept) (fun _ _ he hc => mem_kept_step hc he) hc hes

/-- Recording stays on, or off. -/
theorem isSome_days_step (l : Library) (e : Event) :
    (l.step tooShort e).days.isSome = l.days.isSome := by
  cases e with
  | begin now tg server player unit rate io =>
    rw [step, begin]
    split <;> rfl
  | push tg pcm io => rfl
  | finish tg io => rfl
  | prune now removes => rw [step, (settings_prune _ _ _).1]
  | restart now days removes => rw [step, (settings_prune _ _ _).1, Option.isSome_map]

theorem isSome_days_run (l : Library) (es : List Event) :
    (run (step tooShort) l es).days.isSome = l.days.isSome :=
  run_invariant (P := fun l' => l'.days.isSome = l.days.isSome)
    (fun l' e h => (isSome_days_step l' e).trans h) rfl es

end Library

/-- A call, from its beginning on a free route to its end. -/
def transmission (now : UInt64) (tg : RouteId) (server player : UInt32) (unit : String)
    (rate : UInt32) (mid : List Event) : List Event :=
  .begin now tg server player unit rate true :: mid ++ [.finish tg true]

/-- A call that begins on a free route, is not disturbed, and is long enough, is kept when it
ends. -/
theorem kept_transmission {tooShort : ℕ → UInt32 → Bool} {l : Library} {tg : RouteId}
    (hon : l.days.isSome = true) (hfree : tg ∉ l.current) (now : UInt64) (server player : UInt32)
    (unit : String) {rate : UInt32} {mid : List Event}
    (hmid : Along (Library.step tooShort) (Library.GoesOn tg)
      (l.begin now tg server player unit rate true) mid)
    (hlong : tooShort (pushedTo tg mid).length rate = false) :
    ⟨tg, server, player, unit, rate, now, l.seq + 1, pushedTo tg mid⟩ ∈
      (run (Library.step tooShort) l
        (transmission now tg server player unit rate mid)).kept := by
  have hbegin : (l.begin now tg server player unit rate true).current.lookup tg =
      some ⟨⟨tg, server, player, unit, rate, now, l.seq + 1, []⟩, true⟩ := by
    have hstart : ¬ (l.days.isNone = true ∨ tg ∈ l.current) := by
      rintro (hoff | hbusy)
      · rw [Option.isNone_iff_eq_none.mp hoff] at hon
        cases hon
      · exact hfree hbusy
    rw [Library.begin, if_neg hstart, Table.lookup_insert, if_pos rfl]
  have hend := Library.current_run hbegin hmid
  rw [transmission, List.cons_append, run_cons, run_concat]
  change _ ∈ (Library.finish tooShort _ tg true).kept
  rw [Library.finish]
  apply List.mem_append_right
  change _ ∈ ((run (Library.step tooShort) (l.begin now tg server player unit rate true)
    mid).current.lookup tg).toList.flatMap _
  rw [hend, Option.toList_some, List.flatMap_singleton, Library.ended]
  have hlong' : tooShort ([] ++ pushedTo tg mid).length rate = false := hlong
  simp only [Call.heard, hlong', Bool.and_self, Bool.not_false, if_true]
  exact List.mem_singleton_self _

/-! ### On the disk -/

/-- The library of a recorder, after some events. -/
def Library.after (tooShort : ℕ → UInt32 → Bool) (r : Recorder) (es : List Event) : Library :=
  run (Library.step tooShort) (Library.new (some r)) es

/-- The recorder with its files, after the same events. -/
def Archive.after (tooShort : ℕ → UInt32 → Bool) (r : Recorder) (es : List Event) : Archive :=
  run (Archive.step tooShort) (Archive.new (some r)) es

/-- **What becomes of a call.** It begins while its route is free, is not disturbed, and is long
enough. Then its sidecar lies where it belongs, and beside it what was pushed to its route and
nothing else, from its end until it is pruned, whatever happened before it, beside it and after
it. -/
theorem call_is_kept (tooShort : ℕ → UInt32 → Bool) (r : Recorder) (pre mid post : List Event)
    (now : UInt64) (tg : RouteId) (server player : UInt32) (unit : String) (rate : UInt32)
    (htimely : Along (Library.step tooShort) Library.Timely (Library.new (some r))
      (pre ++ transmission now tg server player unit rate mid ++ post))
    (hfree : tg ∉ (Archive.after tooShort r pre).calls)
    (hmid : Along (Library.step tooShort) (Library.GoesOn tg)
      ((Library.after tooShort r pre).begin now tg server player unit rate true) mid)
    (hlong : tooShort (pushedTo tg mid).length rate = false)
    (hpost : Along (Library.step tooShort)
      (Library.Keeps ⟨tg, server, player, unit, rate, now,
        (Library.after tooShort r pre).seq + 1, pushedTo tg mid⟩)
      (Library.after tooShort r (pre ++ transmission now tg server player unit rate mid)) post) :
    (Archive.after tooShort r
      (pre ++ transmission now tg server player unit rate mid ++ post)).disk.Holds
      ⟨tg, server, player, unit, rate, now, (Library.after tooShort r pre).seq + 1,
        pushedTo tg mid⟩ := by
  have hpre := (along_append.mp (along_append.mp htimely).1).1
  have hfree' : tg ∉ (Library.after tooShort r pre).current := fun hbusy =>
    hfree (((refines_run (some r) hpre).2.keys tg).mp hbusy)
  have hon : (Library.after tooShort r pre).days.isSome = true :=
    Library.isSome_days_run (Library.new (some r)) pre
  have hkept := kept_transmission hon hfree' now server player unit hmid hlong
  rw [Library.after, ← run_append] at hkept
  have hlast := Library.mem_kept_run hkept hpost
  rw [← run_append] at hlast
  exact (refines_run (some r) htimely).2.kept _ hlast

/-- Two calls at the same time, the process starts anew, and a month has not passed yet. -/
theorem call_is_kept_beside_another :
    (Archive.after (fun n _ => n < 2) ⟨"calls".toList, 30, 0⟩
      ([.prune 86400 fun _ => true] ++ transmission 864000 1 1 7 "A" 8000
        [.push 1 [1, 2] true, .begin 864001 2 1 8 "B" 8000 true, .push 2 [3] true,
          .push 1 [4] true, .finish 2 true] ++ [.restart 2592000 30 fun _ => true])).disk.Holds
      ⟨1, 1, 7, "A", 8000, 864000, 1, [1, 2, 4]⟩ :=
  call_is_kept (fun n _ => n < 2) ⟨"calls".toList, 30, 0⟩ [.prune 86400 fun _ => true]
    [.push 1 [1, 2] true, .begin 864001 2 1 8 "B" 8000 true, .push 2 [3] true, .push 1 [4] true,
      .finish 2 true] [.restart 2592000 30 fun _ => true] 864000 1 1 7 "A" 8000
    (by decide +kernel) (by decide +kernel) (by decide +kernel) (by decide +kernel)
    (by decide +kernel)

end RfxVoiced.Files
