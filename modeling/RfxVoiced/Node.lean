import RfxVoiced.Lib.Run
import RfxVoiced.Streams.Serve

/-!
# The node

The planes of the node meet in the tables that they share: servers and consoles post to the control
plane, clients open audio sockets and send frames over them, the Mumble taps report who is who, and
the supervisor detaches servers and polls the patch list.

Each event is handled whole before the next. That is an assumption of this development: a message on
the control plane holds the routing table from its first line to its last, but a key, a release or
samples on a socket, the opening of a socket and its end, and a server that goes, give one lock back
before they take the next, and something else might happen in between. Which locks are held when is
the subject of `Node.Locks`.

## Main definitions

* `Host` — what the node uses and this development does not describe
* `Node`, `Event`, `Node.step` — the node as a machine
-/

namespace RfxVoiced

/-- The signal chain, and the answers to recall messages. -/
structure Host where
  vocoder : Dsp.Vocoder
  answerRecall : String → Value → Reply

/-- A host that renders nothing and recalls nothing. -/
def quietHost : Host where
  vocoder := { Talker := Unit, new := .ok (), pushPcm := fun t _ _ _ => (.ok [], t) }
  answerRecall := fun _ _ => (404, .null)

/-- An open audio socket: whom it was opened for, its sender, and its signal chain once it has sent
samples. -/
structure Socket (host : Host) where
  sender : Sender
  client : ClientId
  talker : Option host.vocoder.Talker

/-- The tables that the planes share, and the open sockets. -/
structure Node (host : Host) extends Core where
  /-- The open sockets, the latest first. -/
  sockets : List (Socket host)
  /-- The sender that the next socket will be given. -/
  nextSender : Sender

/-- What happens to the node. -/
inductive Event
  /-- A message of an authenticated server. -/
  | fleet (server : UInt32) (path : String) (body : Value) (now : Instant)
  /-- A message of the console plane, with the token that would be minted for it. -/
  | console (path : String) (body : Value) (minted : Option String)
  /-- A tap learns the username of a session. -/
  | bind (session : SessionId) (username : List Char)
  /-- A tap sees a session go. -/
  | unbind (session : SessionId)
  /-- A server's tap goes down, or the server is taken off the list. -/
  | detach (server : UInt32)
  /-- The polled patch list. -/
  | patches (groups : List (List RouteId))
  /-- A socket is opened, with the token of its request if there is one. -/
  | connect (token : Option String)
  /-- A binary frame arrives on a socket. -/
  | frame (sender : Sender) (buf : List UInt8) (now : Instant)
  /-- A socket goes away. -/
  | close (sender : Sender)

namespace Node

variable {host : Host}

def initial (host : Host) (recording : Bool) : Node host where
  router := Router.empty
  streams := Streams.empty
  recorder := ⟨recording, ∅⟩
  nextConsole := 1
  sockets := []
  nextSender := 0

/-- The open socket with this sender. -/
def socket (n : Node host) (sender : Sender) : Option (Socket host) :=
  n.sockets.find? fun s => s.sender = sender

/-- A socket that presents a token on file is opened for the client of that token: it is greeted,
and becomes the sink of its client. Any other is refused. The streams are locked twice, for the
token and for the sink; that the client is not sent away in between is assumed. -/
def connect (n : Node host) (token : Option String) : Node host :=
  match token.bind n.streams.clientFor with
  | none => n
  | some client =>
    let sender := n.nextSender
    -- An earlier sink of the client is replaced; the socket behind it stays open.
    { n with
      streams :=
        { n.streams with
          sinks := n.streams.sinks.insert client sender
          handed := (client, sender, .hello Dsp.rate) :: n.streams.handed }
      sockets := ⟨sender, client, none⟩ :: n.sockets
      nextSender := sender + 1 }

/-- Keep what a socket has become. -/
def setTalker (n : Node host) (sender : Sender) (talker : Option host.vocoder.Talker) :
    Node host :=
  { n with
    sockets := n.sockets.map fun s => if s.sender = sender then { s with talker := talker } else s }

/-- A frame on an open socket. Frames without a header, and of other kinds, are passed over. -/
def frame (n : Node host) (s : Socket host) (buf : List UInt8) (now : Instant) : Node host :=
  match headerOf buf with
  | none => n
  | some (kind, tg) =>
    if kind = Streams.txKeyKind then { n with toCore := Streams.txKey n.toCore tg s.client now }
    else if kind = Streams.txUnkeyKind then
      { n with toCore := Streams.txUnkey n.toCore tg s.client }
    else if kind = Streams.txAudioKind then
      let (core, talker) :=
        Streams.txAudio host.vocoder n.toCore s.talker s.client (buf.drop audioHeader)
      setTalker { n with toCore := core } s.sender talker
    else n

/-- One event, handled whole, also where the node locks its tables one after the other. -/
def step (n : Node host) : Event → Node host
  | .fleet server path body now =>
    { n with toCore := (Control.dispatch n.toCore path body server now).2 }
  | .console path body minted =>
    { n with toCore := (Control.dispatchConsole host.answerRecall n.toCore path body minted).2 }
  | .bind session username => { n with router := (n.router.bind session username).2 }
  | .unbind session => { n with router := n.router.unbind session }
  | .detach server =>
    { n with
      router := n.router.dropServer server
      streams := n.streams.dropServer server }
  | .patches groups => { n with router := n.router.setPatches groups }
  | .connect token => n.connect token
  | .frame sender buf now =>
    match n.socket sender with
    | none => n
    | some s => n.frame s buf now
  | .close sender =>
    match n.socket sender with
    | none => n
    -- The socket acts for the client it was opened for, to the last.
    | some s =>
      { n with
        toCore := Streams.dropSocket n.toCore s.client
        sockets := n.sockets.filter fun s => s.sender ≠ sender }

/-- The node that a list of events leads to, from a fresh start. -/
def after (host : Host) (recording : Bool) (es : List Event) : Node host :=
  run step (initial host recording) es

end Node

end RfxVoiced
