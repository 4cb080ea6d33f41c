import RfxVoiced.Router.Step

/-!
# Releasing on behalf of an audio socket

A console lets go of its button over its audio socket, or loses the socket while the button is
down. Both release through the router and then ask the router what is left, since a release that
released nothing must not end somebody else's call.

## Main results

* `holds_releaseOnDrop` — what becomes of every hold when a socket goes away
* `releaseOnDrop_gives_back_iff` — the drop gives everything back exactly when everything the client
  holds was taken by the key it is being heard through
-/

namespace RfxVoiced

namespace Streams

/-- The consoles monitoring a talkgroup. -/
def consolesOn (r : Router) (tg : RouteId) : List ClientId :=
  (r.listenersOf tg).filter fun c => c.server = consoleServer

/-- What a release left behind. -/
structure Released where
  /-- Nobody is transmitting on the route any more. -/
  recordingOver : Bool
  /-- And nobody on anything patched to it either. -/
  callOver : Bool
  watching : List ClientId

/-- A console letting go: release whatever it holds, and say what that left behind. -/
def releaseKey (r : Router) (tg : RouteId) (client : ClientId) : Released × Router :=
  let r := (r.unkeyAs tg client).2
  ({ recordingOver := (r.talkersOn tg).isEmpty
     callOver := r.isClear tg
     watching := consolesOn r tg }, r)

/-- A socket going away, possibly while its client is transmitting. -/
def releaseOnDrop (r : Router) (client : ClientId) : Option (RouteId × Bool) × Router :=
  match r.destinationOf client with
  | none => (none, r)
  | some (tg, _) =>
    -- One key only: the one that the client is being heard through.
    let r := (r.unkeyAs tg client).2
    (some (tg, (r.talkersOn tg).isEmpty), r)

section ReleaseOnDrop

variable (r : Router) (client : ClientId)

theorem releaseOnDrop_of_silent (h : r.destinationRoute client = none) :
    releaseOnDrop r client = (none, r) := by
  simp [releaseOnDrop, Router.destinationOf, h]

theorem releaseOnDrop_of_heard {tg : RouteId} (h : r.destinationRoute client = some tg) :
    (releaseOnDrop r client).2 = (r.unkeyAs tg client).2 := by
  simp [releaseOnDrop, Router.destinationOf, h]

/-- The drop releases the one key that the client is being heard through. -/
theorem holds_releaseOnDrop (t : RouteId) (d : ClientId) :
    (releaseOnDrop r client).2.holds t d = true ↔
      r.holds t d = true ∧
        (d = client → ∀ tg, r.destinationRoute client = some tg → t ∉ r.mine tg client) := by
  cases hdest : r.destinationRoute client with
  | none => simp [releaseOnDrop_of_silent r client hdest]
  | some tg =>
    rw [releaseOnDrop_of_heard r client hdest, Router.holds_unkeyAs]
    simp

/-- Nobody else is touched by a drop. -/
theorem holds_releaseOnDrop_of_ne {d : ClientId} (hd : d ≠ client) (t : RouteId) :
    (releaseOnDrop r client).2.holds t d = r.holds t d := by
  rw [Bool.eq_iff_iff, holds_releaseOnDrop]
  simp [hd]

/-- After a drop the client holds nothing and is heard nowhere, and everybody else holds what they
held, exactly when every route the client held was taken by the key that it was heard through. -/
theorem releaseOnDrop_gives_back_iff :
    ((∀ t, ¬ (releaseOnDrop r client).2.holds t client = true) ∧
        (releaseOnDrop r client).2.destinationOf client = none ∧
        ∀ d, d ≠ client → ∀ t, (releaseOnDrop r client).2.holds t d = r.holds t d) ↔
      ∀ t, r.holds t client = true →
        ∃ tg, r.destinationRoute client = some tg ∧ t ∈ r.mine tg client := by
  have hclear : (∀ t, ¬ (releaseOnDrop r client).2.holds t client = true) ↔
      ∀ t, r.holds t client = true →
        ∃ tg, r.destinationRoute client = some tg ∧ t ∈ r.mine tg client := by
    apply forall_congr'
    intro t
    rw [holds_releaseOnDrop]
    simp
  rw [← hclear]
  constructor
  · exact fun h => h.1
  · intro h
    exact ⟨h, Router.destinationOf_eq_none.mpr h, fun d hd t =>
      holds_releaseOnDrop_of_ne r client hd t⟩

end ReleaseOnDrop

/-- A console with two buttons down, on talkgroups that are not patched together. -/
def twoButtons : Router :=
  Router.after [.openRoute 1 false, .openRoute 2 false, .keyAt 1 ⟨0, 9⟩ 0, .keyAt 2 ⟨0, 9⟩ 1]

/-- Its socket goes away, and the first of the two stays keyed. -/
theorem twoButtons_keeps_one :
    ¬ ((∀ t, ¬ (releaseOnDrop twoButtons ⟨0, 9⟩).2.holds t ⟨0, 9⟩ = true) ∧
        (releaseOnDrop twoButtons ⟨0, 9⟩).2.destinationOf ⟨0, 9⟩ = none ∧
        ∀ d, d ≠ ⟨0, 9⟩ → ∀ t,
          (releaseOnDrop twoButtons ⟨0, 9⟩).2.holds t d = twoButtons.holds t d) := by
  rintro ⟨hclear, -, -⟩
  exact hclear 1 (by decide)

end Streams

end RfxVoiced
