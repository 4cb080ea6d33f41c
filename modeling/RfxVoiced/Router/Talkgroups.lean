import RfxVoiced.Router.Delivery
import RfxVoiced.Router.Preemption

/-!
# Who holds a talkgroup

A talkgroup has one holder, since nobody is mixed in on it. The holder changes when it lets go, when
it departs, and when a console takes the talkgroup from a field unit. This file says on which routes
a key request does so, and that a talkgroup stays one whatever becomes of its holder.

## Main definitions

* `Router.cutsOff` — a key request takes this route from this unit

## Main results

* `not_holds_keyAt_iff` — exactly who is off a route after a key request
* `holds_keyAt_of_accepted` — the client holds the talkgroup it was granted
* `isTalkgroup_of_onAir` — the departed leave a talkgroup what it is
-/

namespace RfxVoiced

namespace Router

variable {r r' : Router} {tg t : RouteId} {client c d : ClientId} {now : Instant}

theorem holds_iff_keyed (hr : r.DigitalAlone) (ht : r.isTalkgroup t = true) :
    r.holds t c = true ↔ ∃ a, r.onAir t = some a ∧ a.keyed = some c := by
  obtain ⟨a, ha, hconv⟩ := isTalkgroup_iff_onAir.mp ht
  have halone := hr t a ha hconv
  rw [holds_iff_onAir]
  constructor
  · rintro ⟨a', ha', hkeyed | hmixed⟩
    · exact ⟨a', ha', hkeyed⟩
    · obtain rfl := Option.some.inj (ha.symm.trans ha')
      rw [halone] at hmixed
      exact absurd hmixed List.not_mem_nil
  · rintro ⟨a', ha', hkeyed⟩
    exact ⟨a', ha', Or.inl hkeyed⟩

/-- A talkgroup has one holder. -/
theorem eq_of_holds_talkgroup (hr : r.DigitalAlone) (ht : r.isTalkgroup t = true)
    (hc : r.holds t c = true) (hd : r.holds t d = true) : c = d := by
  obtain ⟨a, ha, hkc⟩ := (holds_iff_keyed hr ht).mp hc
  obtain ⟨a', ha', hkd⟩ := (holds_iff_keyed hr ht).mp hd
  obtain rfl := Option.some.inj (ha.symm.trans ha')
  exact Option.some.inj (hkc.symm.trans hkd)

/-- Who is on the air does not decide whether a route is a talkgroup. -/
theorem isTalkgroup_of_onAir {f : OnAir → OnAir} (hf : ∀ a, (f a).conventional = a.conventional)
    (h : r'.onAir t = (r.onAir t).map f) : r'.isTalkgroup t = r.isTalkgroup t := by
  rw [Bool.eq_iff_iff, isTalkgroup_iff_onAir, isTalkgroup_iff_onAir, h]
  cases r.onAir t with
  | none => simp
  | some a => simp [hf]

theorem isTalkgroup_congr (h : r'.onAir t = r.onAir t) : r'.isTalkgroup t = r.isTalkgroup t :=
  isTalkgroup_of_onAir (f := id) (fun _ => rfl) (h.trans Option.map_id'.symm)

/-! ### Key requests -/

/-- The request takes this route from this unit: a console is armed on it, on a patch that opens, or
takes the pressed route from the same unit. -/
def cutsOff (r : Router) (tg : RouteId) (client : ClientId) (now : Instant) (t : RouteId)
    (d : ClientId) : Prop :=
  t ∈ r.joined tg ∧
    (r.opens tg client = true ∧ r.contested t client = some d ∧ r.insisting t client now = true ∨
      r.contested tg client = some d ∧ r.insisting tg client now = true)

/-- Only a field unit is cut off, and only by a console. -/
theorem isConsole_of_cutsOff (h : r.cutsOff tg client now t d) :
    client.isConsole = true ∧ d.isConsole = false := by
  have hcontested : ∀ u, r.contested u client = some d →
      client.isConsole = true ∧ d.isConsole = false := by
    intro u hc
    obtain ⟨route, -, hcr⟩ := contested_eq_some_iff.mp hc
    exact (Route.contested_eq_some_iff.mp hcr).2.2
  rcases h.2 with ⟨-, hc, -⟩ | ⟨hc, -⟩
  · exact hcontested t hc
  · exact hcontested tg hc

/-- Whoever is on a route is off it after a key request exactly when the request takes the route
from them. -/
theorem not_holds_keyAt_iff (hr : r.DigitalAlone) (hd : r.holds t d = true) :
    ¬ (r.keyAt tg client now).2.holds t d = true ↔ r.cutsOff tg client now t d := by
  constructor
  · intro hlost
    obtain ⟨-, -, ht⟩ := lookup_of_lost hd hlost
    rcases lost_cases hd hlost with ⟨ho, -, hc, hi⟩ | ⟨hc, hi, -⟩
    · exact ⟨ht, Or.inl ⟨ho, hc, hi⟩⟩
    · exact ⟨ht, Or.inr ⟨hc, hi⟩⟩
  · intro hcut
    have hne : d ≠ client :=
      ClientId.ne_of_isConsole (isConsole_of_cutsOff hcut).1 (isConsole_of_cutsOff hcut).2
    obtain ⟨ht, ⟨ho, hc, hi⟩ | ⟨hc, hi⟩⟩ := hcut
    · exact ((lost_keyAt_iff_of_opens hr ho hne).mpr ⟨ht, hc, hi⟩).2
    · -- The pressed route is preempted, and its holder is taken off the whole patch.
      have haccepts : r.accepts tg client now = true := by simp [accepts, hc, hi]
      obtain ⟨k, hk⟩ := accepts_iff.mp haccepts
      obtain ⟨rfl, -⟩ := preempted_of_contested hc hk
      exact not_holds_preempted hr hc hk ht

/-- The client holds the talkgroup that it was granted. -/
theorem holds_keyAt_of_accepted {k : Keyed} (hans : (r.keyAt tg client now).1 = .ok k)
    (ht : r.isTalkgroup tg = true) : (r.keyAt tg client now).2.holds tg client = true := by
  obtain ⟨a, ha, hconv⟩ := isTalkgroup_iff_onAir.mp ht
  obtain ⟨route, hroute, rfl⟩ := Option.map_eq_some_iff.mp ha
  have hdigital : route.conventional = false := hconv
  have haccepts := accepts_iff.mpr ⟨k, hans⟩
  refine holds_iff.mpr ⟨route.press client (r.insisting tg client now), ?_, Or.inl ?_⟩
  · rw [lookup_keyAt_of_ok hans, if_pos rfl, hroute, Option.map_some]
  · rw [keyed_press_of_digital hdigital]
    split_ifs with htaken
    · rfl
    · -- Neither free nor preempted, and yet accepted: it was the client's own.
      rw [not_or] at htaken
      rw [accepts, opens, contested, hroute, Option.any_some, Option.bind_some] at haccepts
      simpa [Route.opens, hdigital, htaken.1, htaken.2] using haccepts

end Router

end RfxVoiced
