import RfxVoiced.Node.Acts

/-!
# Whose call is being recorded

A recording opens when a talkgroup is granted, and is filed under whoever asked for it; it goes on
until the talkgroup goes quiet. The router and the recorder are told apart: the paths that key and
release a talkgroup tell both, for the one route they name. Whatever else takes a talkgroup from
its holder is not told to the recorder, and what is heard on it afterwards is filed under the call
of somebody who is gone.

## Main definitions

* `Node.Truthful` — every talkgroup being recorded is held by the client its recording names
* `Node.keepsTruthful` — the event takes no recorded talkgroup from its holder without ending the
  recording, and opens none under another's name

## Main results

* `truthful_step_iff` — which events keep every recording truthful
* `truthful_iff_along` — and which runs
-/

namespace RfxVoiced

namespace Node

variable {host : Host} {n : Node host}

/-- Every talkgroup that is being recorded is held, and by the client that its recording names. -/
def Truthful (n : Node host) : Prop :=
  ∀ t call route, n.recorder.calls.lookup t = some call → n.router.routes.lookup t = some route →
    route.conventional = false → ∃ c, route.keyed = some c ∧ (call.server, call.player) = c.label

/-- This client holds a talkgroup while it is being recorded. -/
def records (n : Node host) (t : RouteId) (c : ClientId) : Prop :=
  (n.recorder.label t).isSome = true ∧ n.router.isTalkgroup t = true ∧ n.router.holds t c = true

/-- A key request takes no recorded talkgroup from a field unit, and a recording that it opens names
its client. -/
def keysRightly (n : Node host) (tg : RouteId) (client : ClientId) (now : Instant)
    (mark : UInt32 × UInt32) : Prop :=
  n.router.accepts tg client now = true →
    (∀ t d, n.records t d → ¬ n.router.cutsOff tg client now t d) ∧
      (n.router.isTalkgroup tg = true → n.recorder.recording = true →
        n.recorder.label tg = none → mark = client.label)

/-- A release gives back no recorded talkgroup but the one that it names. -/
def releasesRightly (n : Node host) (tg : RouteId) (client : ClientId) : Prop :=
  ∀ t, t ≠ tg → n.records t client → t ∉ n.router.mine tg client

/-- The departing hold no recorded talkgroup. -/
def losesNone (n : Node host) (gone : ClientId → Bool) : Prop :=
  ∀ t c, n.records t c → gone c = false

/-- The event takes no recorded talkgroup from its holder without ending the recording, and opens
none under another's name. -/
def keepsTruthful (n : Node host) (e : Event) : Prop :=
  match n.act e with
  | .key tg client now mark => n.keysRightly tg client now mark
  | .release tg client => n.releasesRightly tg client
  | .depart gone => n.losesNone gone
  | .clear _ | .quiet => True

/-- Nobody is mixed in on a talkgroup, and only listed routes are being recorded. -/
structure Listed (n : Node host) : Prop where
  alone : n.router.DigitalAlone
  listed : ∀ t, (n.recorder.label t).isSome = true → (n.router.onAir t).isSome = true

theorem truthful_iff (hn : n.Listed) : n.Truthful ↔ n.router.Labelled n.recorder.label := by
  constructor
  · intro h t l hl ht
    obtain ⟨call, hcall, rfl⟩ := Option.map_eq_some_iff.mp hl
    obtain ⟨a, ha, hconv⟩ := Router.isTalkgroup_iff_onAir.mp ht
    obtain ⟨route, hroute, rfl⟩ := Option.map_eq_some_iff.mp ha
    obtain ⟨c, hc, hlabel⟩ := h t call route hcall hroute hconv
    exact ⟨c, Router.holds_iff.mpr ⟨route, hroute, Or.inl hc⟩, hlabel⟩
  · intro h t call route hcall hroute hconv
    have ha : n.router.onAir t = some route.onAir := by rw [Router.onAir, hroute, Option.map_some]
    have ht := Router.isTalkgroup_iff_onAir.mpr ⟨route.onAir, ha, hconv⟩
    obtain ⟨c, hc, hlabel⟩ := h t _ (by rw [Active.label, hcall, Option.map_some]) ht
    obtain ⟨a, ha', hkeyed⟩ := (Router.holds_iff_keyed hn.alone ht).mp hc
    obtain rfl := Option.some.inj (ha.symm.trans ha')
    exact ⟨c, hkeyed, hlabel⟩

/-! ### Runs -/

theorem listed_initial (host : Host) (recording : Bool) : (initial host recording).Listed where
  alone := Router.digitalAlone_empty
  listed t h := by
    simp [initial, Active.label] at h

/-- No event but the closing of a route mixes anybody in on a talkgroup, or unlists a route that is
being recorded. -/
theorem Listed.step (hn : n.Listed) {e : Event} (he : closes e = false) : (n.step e).Listed := by
  have hlisted : ∀ t, (n.router.onAir t).isSome = true →
      ((n.step e).router.onAir t).isSome = true := by
    intro t ht
    rw [router_step]
    exact run_invariant_mem (P := fun r : Router => (r.onAir t).isSome = true)
      (fun r op hop hr => Router.listed_step (fun tg => ne_close_of_mem_calls he hop tg) hr) ht
  refine ⟨?_, fun t ht => ?_⟩
  · rw [router_step]
    exact run_invariant (P := Router.DigitalAlone) (fun _ op hr => Router.digitalAlone_step hr op)
      hn.alone _
  · rcases (does_step n he).listed ht with hold | hnew
    · exact hlisted t (hn.listed t hold)
    · exact hlisted t hnew

/-- An event keeps every recording truthful exactly when it takes no recorded talkgroup from its
holder without ending the recording, and opens none under another's name. -/
theorem truthful_step_iff (hn : n.Listed) (h : n.Truthful) {e : Event} (he : closes e = false) :
    (n.step e).Truthful ↔ n.keepsTruthful e := by
  have hdoes := does_step n he
  rw [truthful_iff (hn.step he)]
  rw [truthful_iff hn] at h
  unfold keepsTruthful
  cases hact : n.act e with
  | key tg client now mark =>
    rw [hact] at hdoes
    obtain ⟨hrouter, hrefused, haccepted⟩ := hdoes
    rw [hrouter]
    dsimp only [keysRightly]
    rw [Router.accepts_iff]
    cases hans : (n.router.keyAt tg client now).1 with
    -- A refused request takes nothing from anybody, and opens no recording.
    | error e' =>
      refine iff_of_true (fun t l hl ht => ?_) fun hok => ?_
      · rw [hrefused e' hans] at hl
        rw [Router.isTalkgroup_keyAt] at ht
        obtain ⟨c, hc, hlabel⟩ := h t l hl ht
        exact ⟨c, by rwa [Router.holds_keyAt_of_error hans], hlabel⟩
      · obtain ⟨k, hk⟩ := hok
        cases hk
    | ok k =>
      obtain ⟨opened, hopened, hlabel⟩ := haccepted k hans
      rw [Router.labelled_of_key hn.alone h hans hlabel]
      simp only [Except.ok.injEq, exists_eq', forall_const, records, and_imp]
      refine and_congr_right fun _ => forall_congr' fun ht => ?_
      rw [hopened ht]
  | release tg client =>
    rw [hact] at hdoes
    obtain ⟨hrouter, hlabel⟩ := hdoes
    rw [hrouter, Router.labelled_of_release hn.alone h hlabel]
    simp only [releasesRightly, records, and_imp]
  | clear tg =>
    rw [hact] at hdoes
    obtain ⟨hrouter, hlabel⟩ := hdoes
    rw [hrouter]
    exact iff_of_true (Router.labelled_of_unkey h hlabel) trivial
  | depart gone =>
    rw [hact] at hdoes
    obtain ⟨hholds, htalkgroup, hlabel⟩ := hdoes
    rw [hlabel, Router.labelled_of_departure (fun _ => gone) (fun _ => False)
      hn.alone h htalkgroup hholds (fun _ hfalse => hfalse.elim) fun _ _ => rfl]
    simp only [losesNone, records, and_imp, not_false_eq_true, forall_const]
  | quiet =>
    rw [hact] at hdoes
    obtain ⟨⟨ops, hrouter, hquiet⟩, hlabel⟩ := hdoes
    rw [hrouter, hlabel]
    exact iff_of_true (Router.labelled_run_of_quiet hn.listed h hquiet) trivial

/-- An event that closes no route. -/
abbrev OpenEvent := { e : Event // closes e = false }

def stepOpen (n : Node host) (e : OpenEvent) : Node host := n.step e.1

/-- From a fresh start, every talkgroup that is being recorded is held by the client its recording
names throughout a run exactly when each event of the run takes no recorded talkgroup from its
holder without ending the recording, and opens none under another's name. -/
theorem truthful_iff_along (host : Host) (recording : Bool) (es : List OpenEvent) :
    (∀ pre, pre <+: es → (run stepOpen (initial host recording) pre).Truthful) ↔
      Along stepOpen (fun n e => n.keepsTruthful e.1) (initial host recording) es := by
  refine forall_prefix_iff_along (P := Truthful) (B := Listed) (fun n e hn => hn.step e.2)
    (fun n e hn h => truthful_step_iff hn h e.2) (listed_initial host recording) ?_ es
  intro t call route hcall
  simp [initial] at hcall

/-- A field unit is being recorded on the only talkgroup, when a console presses it twice. -/
def pressedTwice : Node quietHost :=
  after quietHost true
    [.fleet 1 "tg.open" (.object [("tg", .int 1)]) 0,
      .console "console.attach" .null (some "first"), .connect (some "first"),
      .fleet 1 "key" (.object [("tg", .int 1), ("client", .int 7)]) 0,
      .frame 0 [16, 0, 0, 0, 0, 1] 1, .frame 0 [16, 0, 0, 0, 0, 1] 2]

/-- The talkgroup is the console's now, and the recording is still the unit's. -/
theorem pressedTwice_misfiled : ¬ pressedTwice.Truthful := by
  intro h
  have hlabel : pressedTwice.recorder.label 1 = some (1, 7) := by decide
  have hkeyed : (pressedTwice.router.routes.lookup 1).map (fun x => (x.keyed, x.conventional)) =
      some (some ⟨0, 1⟩, false) := by decide
  obtain ⟨call, hcall, hnames⟩ := Option.map_eq_some_iff.mp hlabel
  obtain ⟨route, hroute, hheld⟩ := Option.map_eq_some_iff.mp hkeyed
  obtain ⟨hholder, hdigital⟩ := Prod.mk.inj hheld
  obtain ⟨c, hc, heq⟩ := h 1 call route hcall hroute hdigital
  obtain rfl := Option.some.inj (hholder.symm.trans hc)
  exact absurd (hnames.symm.trans heq) (by decide)

end Node

end RfxVoiced
