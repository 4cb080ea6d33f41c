import RfxVoiced.Control.Value
import RfxVoiced.Recorder
import RfxVoiced.Router.Operations
import RfxVoiced.Streams.Frames

/-!
# The control plane

FXServer posts its decisions to the control plane, one message per request, under the server whose
key it presented. Consoles have a plane of their own, authenticated by the node key. Each message is
one function of the tables that the planes share, and answers with a status code and a body.

## Main definitions

* `Core` — the tables that every plane shares
* `announceCall` — a call event, told to every console that listens across the patch
* `dispatch` — the messages of an authenticated server
* `dispatchConsole` — the messages of the console plane
-/

namespace RfxVoiced

/-- The tables that every plane shares. -/
structure Core where
  router : Router
  streams : Streams
  recorder : Active
  /-- The next console id to be given out. -/
  nextConsole : UInt32

/-- A status code and a body. -/
abbrev Reply := ℕ × Value

namespace Control

/-- An accepted message, with what it has to say. -/
def ok (fields : List (String × Value)) : Reply := (200, .object (("ok", .bool true) :: fields))

def refused (code : ℕ) (error : String) : Reply :=
  (code, .object [("ok", .bool false), ("error", .string error)])

/-- The server half of a client is the server whose key was presented, never the body's. -/
def clientOf (server : UInt32) (body : Value) : Option ClientId :=
  (body.u32Of "client").map fun player => ⟨server, player⟩

/-! ### Call events -/

/-- Push a call event to every console listening to a talkgroup or to anything patched to it. Each
console is told once, of the first route of the patch that it is watching. -/
def announceCall (r : Router) (s : Streams) (tg : RouteId) (keyed : Bool) (talker : String) :
    Streams :=
  ((r.joined tg).foldl (fun acc member =>
    (r.listenersOf member).foldl (fun (acc : List ClientId × Streams) c =>
      if c.server ≠ consoleServer ∨ c ∈ acc.1 then acc
      else (acc.1 ++ [c], acc.2.sendCall c member keyed talker)) acc) ([], s)).2

/-! ### The fleet plane -/

/-- `conv.open`: a frequency rather than a talkgroup. -/
def convOpen (core : Core) (body : Value) : Reply × Core :=
  match body.u32Of "tg" with
  | some id =>
    let (fresh, r) := core.router.openConventional id (body.flag "am")
    (ok [("fresh", .bool fresh)], { core with router := r })
  | none => (refused 400 "tg required", core)

/-- `tg.open` -/
def tgOpen (core : Core) (body : Value) : Reply × Core :=
  match body.u32Of "tg" with
  | some tg =>
    let (fresh, r) := core.router.openRoute tg (body.flag "encrypted")
    (ok [("fresh", .bool fresh)], { core with router := r })
  | none => (refused 400 "tg required", core)

/-- `tg.close` -/
def tgClose (core : Core) (body : Value) : Reply × Core :=
  match body.u32Of "tg" with
  | some tg => (ok [], { core with router := (core.router.close tg).2 })
  | none => (refused 400 "tg required", core)

/-- A link quality from 0 to 100, where an absent one is full quieting. -/
def qualityOf (body : Value) : UInt8 :=
  (min ((body.u32Of "quality").getD 100) 100).toUInt8

/-- `tg.members`: many member updates in one message. An entry without a talkgroup or a client is
passed over. -/
def tgMembers (core : Core) (server : UInt32) (body : Value) : Reply × Core :=
  match (body.get "members").bind Value.asArray with
  | some list =>
    let (applied, r) := list.foldl (fun (acc : ℕ × Router) m =>
      match m.u32Of "tg", clientOf server m with
      | some tg, some client =>
        (acc.1 + 1, acc.2.setMember tg client (m.flag "listen") (qualityOf m))
      | _, _ => acc) (0, core.router)
    (ok [("applied", .int applied)], { core with router := r })
  | none => (refused 400 "members required", core)

/-- `tg.member` -/
def tgMember (core : Core) (server : UInt32) (body : Value) : Reply × Core :=
  match body.u32Of "tg", clientOf server body with
  | some tg, some client =>
    (ok [], { core with
      router := core.router.setMember tg client (body.flag "listen") (qualityOf body) })
  | _, _ => (refused 400 "tg, server and client required", core)

/-- Whatever the server called the unit: a string as it is, anything else as it is written. -/
def unitOf (body : Value) : String :=
  match body.get "unit" with
  | some (.string s) => s
  | some other => other.write
  | none => ""

/-- `key`. A request that mixes or doubles joins a call that is already open, so it is neither
announced nor recorded. -/
def key (core : Core) (server : UInt32) (body : Value) (now : Instant) : Reply × Core :=
  match body.u32Of "tg", clientOf server body with
  | some tg, some client =>
    match core.router.keyAt tg client now with
    -- The call that is open there is somebody else's, on AM as on FM.
    | (.ok .mixed, r) => (ok [("mixed", .bool true)], { core with router := r })
    | (.ok .doubled, r) => (ok [("doubled", .bool true)], { core with router := r })
    | (.ok _, r) =>
      let unit := unitOf body
      (ok [("bound", .bool (r.sessionOf client).isSome)],
        { core with
          router := r
          streams := announceCall r core.streams tg true unit
          recorder := core.recorder.begin tg server client.player unit Dsp.rate })
    | (.error e, r) => (refused 409 e.text, { core with router := r })
  | _, _ => (refused 400 "tg, server and client required", core)

/-- `unkey`, on behalf of a client when one is named. The recording ends when the route goes quiet,
and the call when everything patched to it does. -/
def unkey (core : Core) (server : UInt32) (body : Value) : Reply × Core :=
  match body.u32Of "tg" with
  | some tg =>
    let r := match clientOf server body with
      | some client => (core.router.unkeyAs tg client).2
      | none => core.router.unkey tg
    -- Whether or not anything was released: the key may have been lost before.
    (ok [],
      { core with
        router := r
        recorder := if (r.talkersOn tg).isEmpty then core.recorder.finish tg else core.recorder
        streams := if r.isClear tg then announceCall r core.streams tg false ""
          else core.streams })
  | none => (refused 400 "tg required", core)

/-- `session.token` -/
def sessionToken (core : Core) (server : UInt32) (body : Value) : Reply × Core :=
  match clientOf server body, (body.get "token").bind Value.asStr with
  | some client, some token =>
    if token = "" then (refused 400 "server, client and non-empty token required", core)
    else (ok [], { core with streams := core.streams.authorize token client })
  | _, _ => (refused 400 "server, client and non-empty token required", core)

/-- `session.drop` -/
def sessionDrop (core : Core) (server : UInt32) (body : Value) : Reply × Core :=
  match clientOf server body with
  | some client => (ok [], { core with streams := core.streams.revokePlayer client })
  | none => (refused 400 "server and client required", core)

/-- How many routes there are, how many are keyed, and how many sessions are bound. -/
def summary (r : Router) : String :=
  let keyed := (r.routes.entries.filter fun e => e.2.keyed.isSome).length
  toString r.routes.keys.length ++ " routes (" ++ toString keyed ++ " keyed), " ++
    toString r.sessionToClient.keys.length ++ " identities bound"

/-- `stats` -/
def stats (core : Core) (server : UInt32) : Reply × Core :=
  (ok [("server", .int server.toNat), ("summary", .string (summary core.router)),
    ("streams", .int core.streams.connected)], core)

/-- The messages of an authenticated server. -/
def dispatch (core : Core) (path : String) (body : Value) (server : UInt32) (now : Instant) :
    Reply × Core :=
  match path with
  | "conv.open" => convOpen core body
  | "tg.open" => tgOpen core body
  | "tg.close" => tgClose core body
  | "tg.members" => tgMembers core server body
  | "tg.member" => tgMember core server body
  | "key" => key core server body now
  | "unkey" => unkey core server body
  | "session.token" => sessionToken core server body
  | "session.drop" => sessionDrop core server body
  | "stats" => stats core server
  | other => (refused 404 ("unknown endpoint " ++ other), core)

/-! ### The console plane -/

/-- The numbers of a list, cut down to 32 bits. Anything else in it is passed over. -/
def routesOf (items : List Value) : List RouteId :=
  (items.filterMap Value.asU64).map UInt32.ofNat

/-- The talkgroups that a console subscribes to. -/
def talkgroupsOf (body : Value) : List RouteId :=
  routesOf (((body.get "talkgroups").bind Value.asArray).getD [])

/-- A console is wired in, so it listens at full quieting. -/
def subscribe (r : Router) (client : ClientId) (tgs : List RouteId) : Router :=
  tgs.foldl (fun r tg => r.setMember tg client true 100) r

/-- `patches.set`: the patch table, replaced whole. A group of fewer than two is no patch. -/
def patchesSet (core : Core) (body : Value) : Reply × Core :=
  match (body.get "groups").bind Value.asArray with
  | some list =>
    let groups := ((list.filterMap Value.asArray).map routesOf).filter fun g => 1 < g.length
    (ok [("groups", .int groups.length)],
      { core with router := core.router.setPatches groups })
  | none => (refused 400 "groups required", core)

/-- `console.attach`, with the token minted for it, unless there is no randomness. -/
def consoleAttach (core : Core) (body : Value) (minted : Option String) : Reply × Core :=
  let id := core.nextConsole
  let core := { core with nextConsole := id + 1 }
  match minted with
  | none => (refused 500 "no randomness", core)
  | some token =>
    let client : ClientId := ⟨consoleServer, id⟩
    (ok [("client", .int id.toNat), ("token", .string token)],
      { core with
        router := subscribe core.router client (talkgroupsOf body)
        streams := core.streams.authorize token client })

/-- `console.update`: a board change. Membership is forgotten and set anew, the key is kept. -/
def consoleUpdate (core : Core) (body : Value) : Reply × Core :=
  match body.u32Of "client" with
  | some id =>
    let client : ClientId := ⟨consoleServer, id⟩
    let tgs := talkgroupsOf body
    (ok [("talkgroups", .int tgs.length)],
      { core with router := subscribe (core.router.forgetMembership client) client tgs })
  | none => (refused 400 "client required", core)

/-- `console.detach` -/
def consoleDetach (core : Core) (body : Value) : Reply × Core :=
  match body.u32Of "client" with
  | some id =>
    let client : ClientId := ⟨consoleServer, id⟩
    (ok [],
      { core with
        router := core.router.forgetClient client
        streams := core.streams.revokePlayer client })
  | none => (refused 400 "client required", core)

/-- The messages of the console plane. The two recall messages are answered from the recordings on
disk before any table is locked, by `answerRecall`. -/
def dispatchConsole (answerRecall : String → Value → Reply) (core : Core) (path : String)
    (body : Value) (minted : Option String) : Reply × Core :=
  match path with
  | "rec.index" => (answerRecall "rec.index" body, core)
  | "rec.audio" => (answerRecall "rec.audio" body, core)
  | "patches.set" => patchesSet core body
  | "console.attach" => consoleAttach core body minted
  | "console.update" => consoleUpdate core body
  | "console.detach" => consoleDetach core body
  | other => (refused 404 ("unknown message " ++ other), core)

end Control

end RfxVoiced
