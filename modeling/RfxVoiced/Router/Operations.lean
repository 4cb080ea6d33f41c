import RfxVoiced.Router.Basic

/-!
# The routing table: operations

Each function of the router, under the source's name. A function that mutates the router returns
the router it leaves, after its result: `keyAt` in particular can refuse a request and still leave
a different router, because a refusal arms the second press.
-/

namespace RfxVoiced

namespace Router

/-! ### Queries -/

def clientOf (r : Router) (session : SessionId) : Option ClientId :=
  r.sessionToClient.lookup session

def sessionOf (r : Router) (client : ClientId) : Option SessionId :=
  r.clientToSession.lookup client

/-- Every talkgroup joined to this one, including itself. -/
def joined (r : Router) (tg : RouteId) : List RouteId := Groups.component r.patches tg

/-- Whether this client is transmitting on that route right now: as the holder, or as somebody
mixed in on top of them. -/
def holds (r : Router) (tg : RouteId) (client : ClientId) : Bool :=
  match r.routes.lookup tg with
  | none => false
  | some route => route.keyed = some client || client ∈ route.also

/-- Everybody transmitting on a route at once. -/
def talkersOn (r : Router) (tg : RouteId) : List ClientId :=
  match r.routes.lookup tg with
  | none => []
  | some route => route.keyed.toList ++ route.also

/-- Nobody is transmitting on this route, or on anything patched to it. -/
def isClear (r : Router) (tg : RouteId) : Bool := (r.joined tg).all fun t => (r.talkersOn t).isEmpty

/-- Whether a collision is in progress on an AM frequency anywhere in the patch: more than one is
transmitting on its routes. -/
def amCollision (r : Router) (tg : RouteId) : Bool :=
  let group := r.joined tg
  if !(group.any fun t => (r.routes.lookup t).any Route.am) then false
  else
    let talkers := group.foldl (fun out t =>
      (r.talkersOn t).foldl (fun out who => if who ∈ out then out else out ++ [who]) out)
      ([] : List ClientId)
    decide (1 < talkers.length)

/-- Who is listening to a talkgroup. -/
def listenersOf (r : Router) (tg : RouteId) : List ClientId :=
  match r.routes.lookup tg with
  | none => []
  | some route => (route.members.entries.filter fun e => e.2.listen).map Sigma.fst

/-- Add one membership to a listener list. A client already listed keeps one entry, and the better
link wins it, together with the mode and the bridging of that link. -/
def mergeListener : List Listener → Listener → List Listener
  | [], l => [l]
  | x :: out, l =>
    if x.client = l.client then
      (if x.quality < l.quality then
        { x with quality := l.quality, mode := l.mode, bridged := l.bridged } else x) :: out
    else x :: mergeListener out l

/-- Listeners on a talkgroup and everything patched to it. -/
def listenersAcross (r : Router) (tg : RouteId) (except : Option ClientId) : List Listener :=
  (r.joined tg).foldl (fun out member =>
    match r.routes.lookup member with
    -- A patch may name a route that has not been opened.
    | none => out
    | some route =>
      route.members.entries.foldl (fun out e =>
        if !e.2.listen || some e.1 = except then out
        else
          mergeListener out
            { client := e.1
              quality := e.2.quality
              mode := route.mode
              bridged := member ≠ tg }) out) []

/-- The route a speaker is heard on: the one they keyed, while they hold it, and otherwise the
lowest they hold. -/
def destinationRoute (r : Router) (speaker : ClientId) : Option RouteId :=
  let lowest := (r.routes.keys.filter fun tg => r.holds tg speaker).min?
  match r.keyedBy.lookup speaker with
  -- The pressed route may have been lost since, to a preemption or a teardown.
  | some tg => if r.holds tg speaker then some tg else lowest
  | none => lowest

/-- What this client is keyed into, and who should hear it. -/
def destinationOf (r : Router) (speaker : ClientId) : Option (RouteId × List Listener) :=
  (r.destinationRoute speaker).map fun tg => (tg, r.listenersAcross tg (some speaker))

/-- The speaker's own hop. A route that does not list them is the console case: full quieting. -/
def sourceSink (r : Router) (tg : RouteId) (speaker : ClientId) : Dsp.Sink :=
  let route := r.routes.lookup tg
  { mode := (route.map Route.mode).getD .p25
    quality := ((route.bind fun x => x.members.lookup speaker).map Member.quality).getD 100
    bridged := false }

/-- Given a speaking Mumble session: the route it is keyed into, that speaker's own hop, and who
should receive it. -/
def destination (r : Router) (session : SessionId) :
    Option (RouteId × Dsp.Sink × List Listener) :=
  (r.clientOf session).bind fun speaker =>
    (r.destinationOf speaker).map fun d => (d.1, r.sourceSink d.1 speaker, d.2)

/-! ### Identities -/

def bind (r : Router) (session : SessionId) (username : List Char) : Option ClientId × Router :=
  match playerIdFromUsername username with
  | none => (none, r)
  | some player =>
    let client : ClientId := ⟨session.server, player⟩
    (some client,
      { r with
        sessionToClient := r.sessionToClient.insert session client
        clientToSession := r.clientToSession.insert client session })

/-- Take a client off a route, as the holder and as somebody mixed in. -/
def silence (route : Route) (gone : ClientId → Bool) : Route :=
  { route with
    also := route.also.filter fun c => !gone c
    keyed := route.keyed.filter fun c => !gone c }

def unbind (r : Router) (session : SessionId) : Router :=
  match r.sessionToClient.lookup session with
  | none => r
  | some client =>
    { r with
      sessionToClient := r.sessionToClient.erase session
      clientToSession := r.clientToSession.erase client
      routes := r.routes.mapVal fun _ route =>
        silence { route with members := route.members.erase client } (· = client)
      keyedBy := r.keyedBy.erase client
      took := r.took.retain fun k _ => k.1 ≠ client }

/-- Everything belonging to one server, for when a tap disconnects. -/
def dropServer (r : Router) (server : UInt32) : Router :=
  { r with
    sessionToClient := r.sessionToClient.retain fun s _ => s.server ≠ server
    clientToSession := r.clientToSession.retain fun c _ => c.server ≠ server
    routes := r.routes.mapVal fun _ route =>
      silence { route with members := route.members.retain fun c _ => c.server ≠ server }
        (·.server = server)
    keyedBy := r.keyedBy.retain fun c _ => c.server ≠ server
    took := r.took.retain fun k _ => k.1.server ≠ server }

/-! ### Opening and closing routes -/

/-- `Router::open`. -/
def openRoute (r : Router) (tg : RouteId) (encrypted : Bool) : Bool × Router :=
  let route := (r.routes.lookup tg).getD {}
  ((r.routes.lookup tg).isNone,
    { r with routes := r.routes.insert tg { route with encrypted := encrypted } })

def openConventional (r : Router) (id : RouteId) (am : Bool) : Bool × Router :=
  let route := (r.routes.lookup id).getD {}
  ((r.routes.lookup id).isNone,
    { r with routes := r.routes.insert id { route with conventional := true, am := am } })

def close (r : Router) (tg : RouteId) : Bool × Router :=
  ((r.routes.lookup tg).isSome, { r with routes := r.routes.erase tg })

/-! ### Membership -/

/-- The quality a member keeps being served at while the channel is busy, when the update is no more
than jitter. -/
def heldQuality (route : Route) (client : ClientId) (busy : Bool) (quality : UInt8) :
    Option UInt8 :=
  ((route.members.lookup client).map Member.quality).filter fun was =>
    busy && jittersOneLane was quality

/-- Membership and link quality. `listen` is applied immediately and always; the quality is held
back while somebody is talking, if it would only move the listener to a neighbouring lane. -/
def setMember (r : Router) (tg : RouteId) (client : ClientId) (listen : Bool) (quality : UInt8) :
    Router :=
  let busy := !r.isClear tg
  let fresh : Route := { conventional := (classify tg).1, am := (classify tg).2 }
  let route := (r.routes.lookup tg).getD fresh
  let route := match heldQuality route client busy quality with
    -- Jitter in the middle of a transmission is parked until the channel goes clear.
    | some was =>
      { route with
        members := route.members.insert client ⟨listen, was⟩
        deferred := route.deferred.insert client quality }
    | none =>
      { route with
        members := route.members.insert client ⟨listen, quality⟩
        deferred := route.deferred.erase client }
  { r with routes := r.routes.insert tg route }

/-- Drop a client's membership without touching what it is transmitting. -/
def forgetMembership (r : Router) (client : ClientId) : Router :=
  { r with
    routes := r.routes.mapVal fun _ route =>
      { route with
        members := route.members.erase client
        deferred := route.deferred.erase client } }

/-- Remove a client from every talkgroup, and release anything it was keying. -/
def forgetClient (r : Router) (client : ClientId) : Router :=
  { r with
    routes := r.routes.mapVal fun _ route =>
      silence
        { route with
          members := route.members.erase client
          deferred := route.deferred.erase client } (· = client)
    keyedBy := r.keyedBy.erase client
    took := r.took.retain fun k _ => k.1 ≠ client }

/-! ### Keying -/

/-- Whether a console was refused this route recently enough to insist. -/
def insisting (r : Router) (tg : RouteId) (client : ClientId) (now : Instant) : Bool :=
  (r.pending.lookup (tg, client)).any fun asked => now - asked ≤ preemptWindow

/-- Key one route. -/
def keyOne (r : Router) (tg : RouteId) (client : ClientId) (now : Instant) :
    Except Refusal Keyed × Router :=
  match r.routes.lookup tg with
  | none => (.error .noSuchRoute, r)
  | some route =>
    match route.keyed with
    | none =>
      (.ok .granted,
        { r with routes := r.routes.modify tg fun x => { x with keyed := some client } })
    | some holder =>
      -- Already ours: a reply inside hang time, not a new transmission.
      if holder = client then (.ok .granted, r)
      -- AM does not capture: the second transmitter is heard on top of the first.
      else if route.conventional && route.am then
        (.ok .mixed,
          if client ∈ route.also then r
          else
            { r with
              routes := r.routes.modify tg fun x => { x with also := x.also ++ [client] } })
      -- FM captures: the second transmitter is accepted and not heard.
      else if route.conventional then (.ok .doubled, r)
      else if client.isConsole && !holder.isConsole then
        -- Dispatch preempts, on the second press inside the window.
        if r.insisting tg client now then
          (.ok (.preempted holder),
            { r with
              pending := r.pending.erase (tg, client)
              routes := r.routes.modify tg fun x => { x with keyed := some client } })
        else (.error .busy, { r with pending := r.pending.insert (tg, client) now })
      else if !client.isConsole && holder.isConsole then (.error .dispatchTransmitting, r)
      else (.error .alreadyKeyed, r)

/-- What preempting a patch does to one of its other members: the preempted unit loses it too, and
the console's own refusal there is forgotten. -/
def handOver (r : Router) (holder client : ClientId) (other : RouteId) : Router :=
  { r with
    routes := r.routes.modify other fun x =>
      { x with
        keyed := if x.keyed = some holder then some client else x.keyed
        also := x.also.filter (· ≠ holder) }
    pending := r.pending.erase (other, client) }

/-- What a key took, and where it was pressed. -/
def recordTook (r : Router) (client : ClientId) (tg : RouteId) (group : List RouteId) : Router :=
  { r with
    took := r.took.insert (client, tg) group
    keyedBy := r.keyedBy.insert client tg }

/-- Key a route, at an explicit moment. A patch makes several talkgroups into one channel, so keying
any of them keys all of them: the pressed route decides the outcome, and the others are taken as far
as they allow it. -/
def keyAt (r : Router) (tg : RouteId) (client : ClientId) (now : Instant) :
    Except Refusal Keyed × Router :=
  let group := r.joined tg
  if 1 < group.length then
    match r.keyOne tg client now with
    | (.error e, r) => (.error e, r)
    | (.ok outcome, r) =>
      let siblings := group.filter (· ≠ tg)
      -- Preempting a patch is one act: the preempted unit loses every member it held.
      let r := match outcome with
        | .preempted holder => siblings.foldl (fun r other => handOver r holder client other) r
        | _ => r
      -- Best effort on the rest: what a sibling answers is discarded.
      let r := siblings.foldl (fun r other => (keyOne r other client now).2) r
      (.ok outcome, r.recordTook client tg group)
  else
    match r.keyOne tg client now with
    | (.error e, r) => (.error e, r)
    | (.ok outcome, r) => (.ok outcome, r.recordTook client tg [tg])

/-! ### Releasing -/

/-- Apply the parked quality updates of one route. -/
def applyDeferred (route : Route) : Route :=
  { route with
    members := route.members.overlay (fun quality m => { m with quality := quality }) route.deferred
    deferred := ∅ }

/-- Apply the parked quality updates, once the channel has actually gone clear. -/
def drainDeferred (r : Router) (tg : RouteId) : Router :=
  if !r.isClear tg then r
  else
    (r.joined tg).foldl (fun (r : Router) t =>
      { r with routes := r.routes.modify t applyDeferred }) r

/-- Take a client off one route, and say whether it was on it. -/
def letGo (r : Router) (client : ClientId) (other : RouteId) : Bool × Router :=
  match r.routes.lookup other with
  | none => (false, r)
  | some route =>
    (client ∈ route.also || route.keyed = some client,
      { r with routes := r.routes.modify other fun x => silence x (· = client) })

/-- Release a talkgroup, but only for whoever actually holds it: what the key took, or the current
group when there is no record. -/
def unkeyAs (r : Router) (tg : RouteId) (client : ClientId) : Bool × Router :=
  let mine := (r.took.lookup (client, tg)).getD (r.joined tg)
  let (released, r) := mine.foldl
    (fun (acc : Bool × Router) other =>
      let (here, r) := letGo acc.2 client other
      (acc.1 || here, r))
    (false, { r with took := r.took.erase (client, tg) })
  (released, mine.foldl drainDeferred { r with keyedBy := r.keyedBy.erase client })

/-- Unconditional release, for teardown paths that own the route outright. -/
def unkey (r : Router) (tg : RouteId) : Router :=
  drainDeferred
    { r with routes := r.routes.modify tg fun x => { x with keyed := none, also := [] } } tg

/-! ### Patches -/

/-- Replace the patch table wholesale. -/
def setPatches (r : Router) (groups : List (List RouteId)) : Router :=
  { r with patches := groups }

end Router

end RfxVoiced
