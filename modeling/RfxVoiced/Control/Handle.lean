import RfxVoiced.Control.Request
import RfxVoiced.Servers.Resolve

/-!
# Handling a request

A request that has been read is authenticated before anything else is done with it. The console
plane goes by the node key. Everybody else is the server whose key was presented, in a header or in
the body, and what the request says about itself does not count.

## Main definitions

* `Gate` — what requests are authenticated by, beside the key index
* `answer` — a request that has been read, and what it is answered with
* `handle` — a connection, from its first byte to the answer
-/

namespace RfxVoiced.Control

/-- What requests are authenticated by, beside the key index: it stays the same as long as the node
runs. -/
structure Gate where
  /-- `serde_json::from_slice`: the value that some bytes are, if they are one. -/
  fromSlice : List UInt8 → Option Value
  digests : Digests
  /-- The node key, where there is one. -/
  nodeKey : Option String

/-! ### What a request presents -/

/-- The body as a value. An empty one says nothing, and neither does one that cannot be read. -/
def payloadOf (fromSlice : List UInt8 → Option Value) (body : List UInt8) : Value :=
  if body = [] then .object [] else (fromSlice body).getD (.object [])

def headerText (headers : Headers) (name : String) : Option String :=
  (headers.lookup name.toList).map String.ofList

/-- The key that is presented, in the header or else in the body. -/
def presentedKey (headers : Headers) (payload : Value) : String :=
  ((headerText headers "x-rfx-key").or ((payload.get "key").bind Value.asStr)).getD ""

/-- The node key that is presented, or nothing. -/
def presentedNodeKey (headers : Headers) : String := (headerText headers "x-node-key").getD ""

def Gate.payload (gate : Gate) (request : Request) : Value :=
  payloadOf gate.fromSlice request.body

/-! ### The handler -/

def badNodeKey : Reply := refused 401 "bad node key"

def unknownKey : Reply := refused 401 "unknown or missing server key"

/-- A request that has been read. -/
def answer (gate : Gate) (answerRecall : String → Value → Reply) (keys : KeyIndex) (core : Core)
    (request : Request) (now : Instant) (minted : Option String) : Reply × Core :=
  let path := String.ofList request.path
  let payload := gate.payload request
  let presented := presentedKey request.headers payload
  let presentedNode := presentedNodeKey request.headers
  if presentedNode ≠ "" then
    if !(gate.nodeKey.any fun k => constantTimeEq (asBytes k) (asBytes presentedNode)) then
      (badNodeKey, core)
    else dispatchConsole answerRecall core path payload minted
  else
    match keys.resolve gate.digests presented with
    | none => (unknownKey, core)
    | some server => dispatch core path payload server now

/-- A connection, from its first byte to the answer, if there is one. -/
def handle (gate : Gate) (answerRecall : String → Value → Reply) (keys : KeyIndex) (core : Core)
    (rd : Reads) (now : Instant) (minted : Option String) : Option Reply × Core :=
  match receive rd with
  | .ok request =>
    let (reply, core) := answer gate answerRecall keys core request now minted
    (some reply, core)
  | .error (.answered reply) => (some reply, core)
  | .error _ => (none, core)

end RfxVoiced.Control
