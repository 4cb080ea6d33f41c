import RfxVoiced.Dsp
import RfxVoiced.Lib.Groups
import RfxVoiced.Lib.Table
import Mathlib.Algebra.Group.Nat.Defs

/-!
# The routing table: data

Who may hear what, and who currently holds each channel. The fields and their names are those of
the source. Hash maps are finite tables: wherever the source iterates over one, the order of the
entries is the iteration order.

A talkgroup id and a frequency id share one 32-bit space, in which the high bit marks a frequency.
Instants are nanoseconds since some origin, so the saturating difference of two instants is the
truncated difference of naturals.
-/

namespace RfxVoiced

/-- A talkgroup, or a frequency. -/
abbrev RouteId := UInt32

/-! A question about the routes of a list is decided along the list, and not over all the ids that
there are. -/

instance (priority := 2000) decidableForallRoutes (p : RouteId → Prop) [DecidablePred p]
    (ts : List RouteId) : Decidable (∀ t, t ∈ ts → p t) :=
  List.decidableBAll p ts

instance (priority := 2000) decidableExistsRoutes (p : RouteId → Prop) [DecidablePred p]
    (ts : List RouteId) : Decidable (∃ t, t ∈ ts ∧ p t) :=
  List.decidableBEx p ts

/-- Nanoseconds since an arbitrary origin. -/
abbrev Instant := ℕ

/-- A client, globally: player ids are unique only within one server. -/
structure ClientId where
  server : UInt32
  player : UInt32
  deriving DecidableEq, Repr

/-- Consoles live on server 0, which no enrolled world can ever be. -/
def consoleServer : UInt32 := 0

def ClientId.isConsole (c : ClientId) : Bool := c.server = consoleServer

/-- A Mumble session, which is only meaningful within one tap. -/
structure SessionId where
  server : UInt32
  session : UInt32
  deriving DecidableEq, Repr

/-- How a client is a member of a route. -/
structure Member where
  listen : Bool
  /-- Link quality 0 to 100, where 100 is full quieting. -/
  quality : UInt8
  deriving DecidableEq, Repr

/-- Who hears a transmission, and how it should sound to them. -/
structure Listener where
  client : ClientId
  quality : UInt8
  mode : Dsp.Mode
  /-- On the far side of a patch from the speaker. -/
  bridged : Bool
  deriving DecidableEq, Repr

def Listener.sink (l : Listener) : Dsp.Sink where
  mode := l.mode
  quality := l.quality
  bridged := l.bridged

/-- A talkgroup or a frequency: its members, and who is transmitting on it. -/
structure Route where
  encrypted : Bool := false
  members : Table ClientId Member := ∅
  /-- The current grant holder, if any. -/
  keyed : Option ClientId := none
  /-- A frequency rather than a talkgroup. -/
  conventional : Bool := false
  am : Bool := false
  /-- Everybody else transmitting on this frequency right now. -/
  also : List ClientId := []
  /-- Quality updates parked while somebody was transmitting. -/
  deferred : Table ClientId UInt8 := ∅

/-- Conventional routes carry the high bit. -/
def convBase : UInt32 := 0x80000000

/-- What a route id says about itself: whether it is conventional, and whether it is AM.

The source divides the low bits, as a 32-bit float, by 10 000 and asks whether the megahertz lie in
`108.0..137.0`. Rounding cannot move an id across either bound: both are representable, ids below
`2^24` convert exactly, and the neighbours 107.9999 and 136.9999 are further from the bounds than
one rounding step. So the test is stated on the integer. -/
def classify (id : RouteId) : Bool × Bool :=
  if id < convBase then (false, false)
  else
    let units := id &&& ~~~convBase
    (true, decide (1080000 ≤ units ∧ units < 1370000))

/-- Whether a quality update is boundary jitter rather than real movement. -/
def jittersOneLane (was now : UInt8) : Bool :=
  let a := Dsp.laneOf was
  let b := Dsp.laneOf now
  if Dsp.profileMuted a ≠ Dsp.profileMuted b then false
  else (if a ≤ b then b - a else a - b) = Dsp.laneStep

def Route.mode (route : Route) : Dsp.Mode :=
  match route.conventional, route.am with
  | true, true => .am
  | true, false => .fm
  -- AM on a trunked route is meaningless and is ignored.
  | false, _ => .p25

/-- What an accepted key request did. -/
inductive Keyed
  | granted
  | preempted (holder : ClientId)
  /-- Accepted on a frequency somebody else is holding, and not heard over them. -/
  | doubled
  /-- Accepted on an AM frequency somebody else is on: both are heard. -/
  | mixed
  deriving DecidableEq, Repr

/-- Why a key request was refused. -/
inductive Refusal
  | noSuchRoute
  | busy
  | dispatchTransmitting
  | alreadyKeyed
  deriving DecidableEq, Repr

/-- The reason as it is sent to the client. -/
def Refusal.text : Refusal → String
  | noSuchRoute => "no such route"
  | busy => "busy - key again to take the channel"
  | dispatchTransmitting => "dispatch is transmitting"
  | alreadyKeyed => "route already keyed"

/-- The routing table: the routes, who is who, and what each key took. -/
structure Router where
  routes : Table RouteId Route
  sessionToClient : Table SessionId ClientId
  clientToSession : Table ClientId SessionId
  /-- The route each speaker keyed, as opposed to every route that key took. -/
  keyedBy : Table ClientId RouteId
  /-- Talkgroups cross-connected into one. -/
  patches : List (List RouteId)
  /-- Consoles that have been refused a busy route and may insist, and when they were. -/
  pending : Table (RouteId × ClientId) Instant
  /-- What a key took, per client and the route they pressed. -/
  took : Table (ClientId × RouteId) (List RouteId)

/-- A router before anybody has told it anything. -/
def Router.empty : Router where
  routes := ∅
  sessionToClient := ∅
  clientToSession := ∅
  keyedBy := ∅
  patches := []
  pending := ∅
  took := ∅

/-- How long a dispatcher has to insist after being refused a busy channel: four seconds. -/
def preemptWindow : ℕ := 4000000000

/-! ### Usernames -/

/-- Decimal digits as a 32-bit number; an optional leading plus is allowed. -/
def parseU32 (s : List Char) : Option UInt32 :=
  let digits := match s with
    | '+' :: rest => rest
    | _ => s
  if digits.isEmpty then none
  else
    (digits.foldlM (fun n c =>
      let next := n * 10 + (c.toNat - '0'.toNat)
      if c.isDigit && next < 2 ^ 32 then some next else none) 0).map UInt32.ofNat

/-- The player id of a username such as `[12] Arthur Mitchell`. -/
def playerIdFromUsername : List Char → Option UInt32
  | '[' :: rest => if ']' ∈ rest then parseU32 (rest.takeWhile (· ≠ ']')) else none
  | _ => none

end RfxVoiced
