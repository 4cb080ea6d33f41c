import RfxVoiced.Router.Basic

/-!
# Calls being recorded

A recording belongs to a route: it opens when a call starts there and is finished when the route
goes quiet. What is kept here is who the recording says was talking, and how much of it there is.
The files it is written to are described in `RfxVoiced.Recorder.Files`.
-/

namespace RfxVoiced

/-- One call being written, as its sidecar will describe it. -/
structure Recording where
  tg : RouteId
  server : UInt32
  player : UInt32
  /-- Whatever the server called the unit, or empty. -/
  unit : String
  samples : ℕ
  rate : UInt32

/-- The recorder, and what it is writing right now. -/
structure Active where
  /-- Whether recording is switched on at all. -/
  recording : Bool
  calls : Table RouteId Recording

namespace Active

/-- A key while a call is already open is a reply inside hang time: the same call, continued. -/
def begin (a : Active) (tg : RouteId) (server player : UInt32) (unit : String) (rate : UInt32) :
    Active :=
  if !a.recording || (a.calls.lookup tg).isSome then a
  else { a with calls := a.calls.insert tg ⟨tg, server, player, unit, 0, rate⟩ }

def push (a : Active) (tg : RouteId) (pcm : List Int16) : Active :=
  { a with
    calls := a.calls.modify tg fun call => { call with samples := call.samples + pcm.length } }

/-- `Active::end`. -/
def finish (a : Active) (tg : RouteId) : Active := { a with calls := a.calls.erase tg }

end Active

end RfxVoiced
