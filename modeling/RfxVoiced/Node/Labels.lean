import RfxVoiced.Recorder
import RfxVoiced.Router.Talkgroups

/-!
# Labels on talkgroups

A recording names the client it is filed under, so the open recordings put a label on each
talkgroup that is being recorded. This file says when the labels go on naming the holders, as the
router takes a call and labels are put on and taken off.

## Main definitions

* `ClientId.label`, `Active.label` — how a recording names a client, and whom an open one names
* `Router.Labelled` — every talkgroup with a label on it is held by the client that the label names

## Main results

* `labelled_of_departure`, `labelled_of_release`, `labelled_of_key` — when departures, releases and
  key requests leave it so
* `labelled_of_unkey`, `labelled_run_of_quiet` — the calls that always do
-/

namespace RfxVoiced

/-- How a recording names a client: by server and player, or as dispatch. -/
def ClientId.label (c : ClientId) : UInt32 × UInt32 :=
  (c.server, if c.isConsole then 0 else c.player)

/-- A field unit is known by its label. -/
theorem ClientId.eq_of_label {c d : ClientId} (hd : d.isConsole = false) (h : c.label = d.label) :
    c = d := by
  obtain ⟨hserver, hplayer⟩ := Prod.mk.inj h
  have hc : c.isConsole = false := by
    simp only [isConsole] at hd ⊢
    rwa [hserver]
  rw [hc, hd] at hplayer
  cases c
  cases d
  simp_all

namespace Active

variable (a : Active) (tg t : RouteId)

/-- Whom the open recording of a route names, if one is open. -/
def label (a : Active) (t : RouteId) : Option (UInt32 × UInt32) :=
  (a.calls.lookup t).map fun call => (call.server, call.player)

theorem label_begin (server player : UInt32) (unit : String) (rate : UInt32) :
    (a.begin tg server player unit rate).label t =
      if t = tg ∧ a.recording = true ∧ a.label tg = none then some (server, player)
      else a.label t := by
  unfold begin label
  by_cases hopen : (!a.recording || (a.calls.lookup tg).isSome) = true
  · rw [if_pos hopen, if_neg]
    rintro ⟨-, hrec, hnone⟩
    simp [hrec, Option.map_eq_none_iff.mp hnone] at hopen
  · rw [if_neg hopen]
    simp only [Bool.or_eq_true, Bool.not_eq_true', not_or, Bool.not_eq_false,
      Option.not_isSome_iff_eq_none] at hopen
    rw [Table.lookup_insert]
    by_cases ht : t = tg
    · rw [if_pos ht, if_pos ⟨ht, hopen.1, by rw [hopen.2, Option.map_none]⟩, Option.map_some]
    · rw [if_neg ht, if_neg fun h => ht h.1]

theorem label_finish : (a.finish tg).label t = if t = tg then none else a.label t := by
  unfold finish label
  rw [Table.lookup_erase]
  split_ifs <;> rfl

/-- Samples do not change whom a recording names. -/
theorem label_push (pcm : List Int16) : (a.push tg pcm).label t = a.label t := by
  unfold push label
  exact Table.map_lookup_modify _ _ _ fun _ => rfl

end Active

namespace Router

/-- Every talkgroup with a label on it is held by the client that the label names. -/
def Labelled (r : Router) (label : RouteId → Option (UInt32 × UInt32)) : Prop :=
  ∀ t l, label t = some l → r.isTalkgroup t = true → ∃ c, r.holds t c = true ∧ l = c.label

variable {r r' : Router} {label label' : RouteId → Option (UInt32 × UInt32)}

/-- The departed take their routes with them; the labels on these are left behind, but for those
that are taken off. -/
theorem labelled_of_departure (gone : RouteId → ClientId → Bool) (ended : RouteId → Prop)
    (hr : r.DigitalAlone) (h : r.Labelled label)
    (htalkgroup : ∀ t, r'.isTalkgroup t = r.isTalkgroup t)
    (hholds : ∀ t c, r'.holds t c = true ↔ r.holds t c = true ∧ gone t c = false)
    (hended : ∀ t, ended t → label' t = none) (hkept : ∀ t, ¬ ended t → label' t = label t) :
    r'.Labelled label' ↔ ∀ t c, ¬ ended t → (label t).isSome = true → r.isTalkgroup t = true →
      r.holds t c = true → gone t c = false := by
  constructor
  · intro h' t c hnot hsome ht hc
    obtain ⟨l, hl⟩ := Option.isSome_iff_exists.mp hsome
    obtain ⟨d, hd, -⟩ := h' t l ((hkept t hnot).trans hl) ((htalkgroup t).trans ht)
    -- Somebody still holds the talkgroup, and it has only ever one holder.
    obtain ⟨hd, hstays⟩ := (hholds t d).mp hd
    rwa [eq_of_holds_talkgroup hr ht hc hd]
  · intro hstay t l hl ht
    have hnot : ¬ ended t := by
      intro hgone
      rw [hended t hgone] at hl
      cases hl
    rw [hkept t hnot] at hl
    rw [htalkgroup] at ht
    obtain ⟨c, hc, heq⟩ := h t l hl ht
    exact ⟨c, (hholds t c).mpr ⟨hc, hstay t c hnot (by rw [hl]; rfl) ht hc⟩, heq⟩

/-- A release takes the label off the route that it names, once that route is quiet. -/
theorem labelled_of_release {tg : RouteId} {client : ClientId} (hr : r.DigitalAlone)
    (h : r.Labelled label)
    (hlabel : ∀ t, label' t =
      if t = tg ∧ ((r.unkeyAs tg client).2.talkersOn tg).isEmpty = true then none else label t) :
    (r.unkeyAs tg client).2.Labelled label' ↔
      ∀ t, t ≠ tg → (label t).isSome = true → r.isTalkgroup t = true →
        r.holds t client = true → t ∉ r.mine tg client := by
  have htalkgroup : ∀ t, (r.unkeyAs tg client).2.isTalkgroup t = r.isTalkgroup t := by
    intro t
    have honair := onAir_unkeyAs r tg client t
    split_ifs at honair
    · exact isTalkgroup_of_onAir (f := fun a => a.silence (· = client)) (fun _ => rfl) honair
    · exact isTalkgroup_congr honair
  have hholds : ∀ t c, (r.unkeyAs tg client).2.holds t c = true ↔
      r.holds t c = true ∧ (decide (t ∈ r.mine tg client) && decide (c = client)) = false := by
    intro t c
    rw [holds_unkeyAs]
    simp only [Bool.and_eq_false_iff, decide_eq_false_iff_not]
    tauto
  rw [labelled_of_departure _ _ hr h htalkgroup hholds
    (fun t hover => by rw [hlabel, if_pos hover])
    fun t hnot => by rw [hlabel, if_neg hnot]]
  constructor
  · intro hstay t hne hsome ht hc
    simpa using hstay t client (fun hover => hne hover.1) hsome ht hc
  · intro hmine t c hnot hsome ht hc
    simp only [Bool.and_eq_false_iff, decide_eq_false_iff_not]
    by_cases htg : t = tg
    · -- The named route is quiet once its holder lets go of it.
      subst htg
      by_contra hboth
      rw [not_or, not_not, not_not] at hboth
      obtain ⟨hmem, rfl⟩ := hboth
      refine hnot ⟨rfl, talkersOn_isEmpty.mpr fun d hd => ?_⟩
      obtain ⟨hd, hkeep⟩ := (holds_unkeyAs r t c t d).mp hd
      exact hkeep (eq_of_holds_talkgroup hr ht hd hc) hmem
    · by_cases hcl : c = client
      · subst hcl
        exact Or.inl (hmine t htg hsome ht hc)
      · exact Or.inr hcl

/-- A key request takes labelled talkgroups from field units, and puts a label on the one it is
granted. -/
theorem labelled_of_key {tg : RouteId} {client : ClientId} {now : Instant} {k : Keyed}
    {mark : UInt32 × UInt32} {recording : Bool} (hr : r.DigitalAlone) (h : r.Labelled label)
    (hans : (r.keyAt tg client now).1 = .ok k)
    (hlabel : ∀ t, label' t =
      if t = tg ∧ recording = true ∧ label tg = none then some mark else label t) :
    (r.keyAt tg client now).2.Labelled label' ↔
      (∀ t d, (label t).isSome = true → r.isTalkgroup t = true → r.holds t d = true →
        ¬ r.cutsOff tg client now t d) ∧
      (r.isTalkgroup tg = true → recording = true → label tg = none → mark = client.label) := by
  have hr' := digitalAlone_keyAt hr tg client now
  have hkept : ∀ t, (label t).isSome = true → label' t = label t := by
    intro t hsome
    rw [hlabel, if_neg]
    rintro ⟨rfl, -, hnone⟩
    rw [hnone] at hsome
    cases hsome
  constructor
  · intro h'
    refine ⟨fun t d hsome ht hd hcut => ?_, fun ht hrec hnone => ?_⟩
    · obtain ⟨l, hl⟩ := Option.isSome_iff_exists.mp hsome
      obtain ⟨e, he, hle⟩ := h' t l ((hkept t hsome).trans hl) (isTalkgroup_keyAt.trans ht)
      obtain ⟨c, hc, hlc⟩ := h t l hl ht
      obtain rfl := eq_of_holds_talkgroup hr ht hd hc
      -- The label still names the unit that was cut off.
      obtain rfl := ClientId.eq_of_label (isConsole_of_cutsOff hcut).2 (hle.symm.trans hlc)
      exact (not_holds_keyAt_iff hr hd).mpr hcut he
    · have hmark : label' tg = some mark := by rw [hlabel, if_pos ⟨rfl, hrec, hnone⟩]
      obtain ⟨e, he, rfl⟩ := h' tg mark hmark (isTalkgroup_keyAt.trans ht)
      rw [eq_of_holds_talkgroup hr' (isTalkgroup_keyAt.trans ht) he
        (holds_keyAt_of_accepted hans ht)]
  · rintro ⟨hcut, hmark⟩ t l hl ht
    rw [isTalkgroup_keyAt] at ht
    rw [hlabel] at hl
    split_ifs at hl with hnew
    · obtain ⟨rfl, hrec, hnone⟩ := hnew
      obtain rfl := Option.some.inj hl
      exact ⟨client, holds_keyAt_of_accepted hans ht, hmark ht hrec hnone⟩
    · obtain ⟨c, hc, hlc⟩ := h t l hl ht
      refine ⟨c, ?_, hlc⟩
      by_contra hlost
      exact hcut t c (by rw [hl]; rfl) ht hc ((not_holds_keyAt_iff hr hc).mp hlost)

/-- The teardown of a route takes its label off. -/
theorem labelled_of_unkey {tg : RouteId} (h : r.Labelled label)
    (hlabel : ∀ t, label' t = if t = tg then none else label t) :
    (r.unkey tg).Labelled label' := by
  intro t l hl ht
  rw [hlabel] at hl
  split_ifs at hl with hne
  have hwas : r.isTalkgroup t = true := by
    have honair := onAir_unkey r tg t
    rw [if_neg hne] at honair
    rwa [isTalkgroup_congr honair] at ht
  obtain ⟨c, hc, heq⟩ := h t l hl hwas
  exact ⟨c, (holds_unkey r tg t c).mpr ⟨hne, hc⟩, heq⟩

theorem ne_close_of_quiet {op : Op} (h : op.quiet = true) (tg : RouteId) : op ≠ .close tg := by
  rintro rfl
  cases h

/-- What is listed and held stays so under quiet calls, and what arrives has no label. -/
theorem labelled_of_quiet (hlisted : ∀ t, (label t).isSome = true → (r.onAir t).isSome = true)
    (h : r.Labelled label)
    {op : Op} (hop : op.quiet = true) : (step r op).Labelled label := by
  intro t l hl ht
  have hnokey : ∀ tg client now, op ≠ .keyAt tg client now := by
    rintro tg client now rfl
    cases hop
  rcases isTalkgroup_step hnokey ht with hwas | ⟨hnone, -⟩
  · obtain ⟨c, hc, hlabel⟩ := h t l hl hwas
    exact ⟨c, (holds_step_of_quiet r t c hop).trans hc, hlabel⟩
  · have hsome := hlisted t (by rw [hl]; rfl)
    rw [onAir, hnone] at hsome
    cases hsome

/-- So a run of quiet calls leaves every label naming the holder. -/
theorem labelled_run_of_quiet (hlisted : ∀ t, (label t).isSome = true → (r.onAir t).isSome = true)
    (h : r.Labelled label) {ops : List Op} (hquiet : ∀ op ∈ ops, op.quiet = true) :
    (run step r ops).Labelled label := by
  have hboth : (∀ t, (label t).isSome = true → ((run step r ops).onAir t).isSome = true) ∧
      (run step r ops).Labelled label := by
    refine run_invariant_mem (P := fun r : Router =>
      (∀ t, (label t).isSome = true → (r.onAir t).isSome = true) ∧ r.Labelled label) ?_
      ⟨hlisted, h⟩
    intro r' op hop hr
    exact ⟨fun t ht => listed_step (ne_close_of_quiet (hquiet op hop)) (hr.1 t ht),
      labelled_of_quiet hr.1 hr.2 (hquiet op hop)⟩
  exact hboth.2

end Router

end RfxVoiced
