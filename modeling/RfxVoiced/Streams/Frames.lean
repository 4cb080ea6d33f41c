import RfxVoiced.Router.Basic
import Mathlib.Tactic.Common

/-!
# Audio sockets: frames and sinks

Everything a client is told, it is told over its audio socket. The table of sinks holds, for each
client, the sender of the socket that serves it, and the table of tokens says who may open one.

A frame handed to a sender is put in that socket's queue. What was handed out is kept together here,
newest frame first and each frame beside its client and its sender. The queues themselves, which are
bounded and drop what does not fit, are in `Node.Queues`.

## Main definitions

* `Frame`, `Frame.bytes` — what is sent, and how it is written
* `Streams` — tokens, sinks, and what has been handed out
* `Streams.lastCall` — what a client was last told about a call on a route
-/

namespace RfxVoiced

/-! ### Frames -/

/-- A number as four bytes, the most significant first. -/
def beBytes (n : UInt32) : List UInt8 :=
  [UInt8.ofNat (n.toNat / 2 ^ 24), UInt8.ofNat (n.toNat / 2 ^ 16), UInt8.ofNat (n.toNat / 2 ^ 8),
    UInt8.ofNat n.toNat]

/-- The number that four bytes are, the most significant first. -/
def ofBeBytes (a b c d : UInt8) : UInt32 :=
  UInt32.ofNat (a.toNat * 2 ^ 24 + b.toNat * 2 ^ 16 + c.toNat * 2 ^ 8 + d.toNat)

/-- A sample as two bytes, the least significant first. -/
def leBytes (s : Int16) : List UInt8 := [s.toUInt16.toUInt8, (s.toUInt16 >>> 8).toUInt8]

/-- The samples in a run of bytes. An odd byte at the end is no sample. -/
def leSamples : List UInt8 → List Int16
  | lo :: hi :: rest => (lo.toUInt16 ||| hi.toUInt16 <<< 8).toInt16 :: leSamples rest
  | _ => []

/-- Where the samples start in an audio frame. -/
def audioHeader : ℕ := 6

/-- What is sent to a client. -/
inductive Frame
  /-- The sample rate, once per socket. -/
  | hello (rate : UInt32)
  | audio (tg : RouteId) (pcm : List Int16)
  /-- A call started or ended on a talkgroup. -/
  | call (tg : RouteId) (keyed : Bool) (talker : String)
  /-- A transmit request was refused, and why. -/
  | deny (tg : RouteId) (reason : String)
  deriving DecidableEq

/-- The frame as it is written on the socket: its kind, one byte, and a route, for every kind but
the first. -/
def Frame.bytes : Frame → List UInt8
  | .hello rate => 0 :: beBytes rate
  | .audio tg pcm => 1 :: 0 :: beBytes tg ++ pcm.flatMap leBytes
  | .call tg keyed talker => 2 :: (if keyed then 1 else 0) :: beBytes tg ++ talker.toUTF8.toList
  | .deny tg reason => 3 :: 0 :: beBytes tg ++ reason.toUTF8.toList

/-- The route that a frame is about, if it is about one. -/
def Frame.route : Frame → Option RouteId
  | .hello _ => none
  | .audio tg _ | .call tg _ _ | .deny tg _ => some tg

/-- The kind of a frame and the route its header names, read from its bytes. Shorter frames have no
header. -/
def headerOf : List UInt8 → Option (UInt8 × RouteId)
  | kind :: _ :: a :: b :: c :: d :: _ => some (kind, ofBeBytes a b c d)
  | _ => none

theorem ofBeBytes_beBytes (n : UInt32) :
    ofBeBytes (UInt8.ofNat (n.toNat / 2 ^ 24)) (UInt8.ofNat (n.toNat / 2 ^ 16))
      (UInt8.ofNat (n.toNat / 2 ^ 8)) (UInt8.ofNat n.toNat) = n := by
  have hn : n.toNat < 2 ^ 32 := n.toNat_lt
  apply UInt32.toNat_inj.mp
  simp only [ofBeBytes, UInt8.toNat_ofNat', UInt32.toNat_ofNat']
  omega

/-! ### Streams -/

/-- The sending half of one socket's queue. -/
abbrev Sender := ℕ

/-- Who may open a socket, whose sender serves which client, and all that was handed to senders. -/
structure Streams where
  /-- Whose socket a token opens. -/
  tokens : Table String ClientId
  /-- The sender of each client's socket. -/
  sinks : Table ClientId Sender
  /-- The frames handed out, newest first. -/
  handed : List (ClientId × Sender × Frame)

namespace Streams

def empty : Streams where
  tokens := ∅
  sinks := ∅
  handed := []

def authorize (s : Streams) (token : String) (client : ClientId) : Streams :=
  { s with tokens := s.tokens.insert token client }

def revokePlayer (s : Streams) (client : ClientId) : Streams :=
  { s with
    tokens := s.tokens.retain fun _ c => c ≠ client
    sinks := s.sinks.erase client }

/-- Everything belonging to one server, for when a tap disconnects. -/
def dropServer (s : Streams) (server : UInt32) : Streams :=
  { s with
    tokens := s.tokens.retain fun _ c => c.server ≠ server
    sinks := s.sinks.retain fun c _ => c.server ≠ server }

def clientFor (s : Streams) (token : String) : Option ClientId := s.tokens.lookup token

def connected (s : Streams) : ℕ := s.sinks.keys.length

/-- Hand a frame to a client's sender, if it has one. -/
def hand (s : Streams) (client : ClientId) (frame : Frame) : Streams :=
  match s.sinks.lookup client with
  | none => s
  | some sender => { s with handed := (client, sender, frame) :: s.handed }

def sendCall (s : Streams) (client : ClientId) (tg : RouteId) (keyed : Bool) (talker : String) :
    Streams := s.hand client (.call tg keyed talker)

def sendDeny (s : Streams) (client : ClientId) (tg : RouteId) (reason : String) : Streams :=
  s.hand client (.deny tg reason)

def sendPcm (s : Streams) (client : ClientId) (tg : RouteId) (pcm : List Int16) : Streams :=
  s.hand client (.audio tg pcm)

/-! ### What a client was last told -/

/-- What an entry tells a client about a call on a route, if anything. -/
def tells (client : ClientId) (tg : RouteId) : ClientId × Sender × Frame → Option Bool
  | (c, _, .call tg' keyed _) => if c = client ∧ tg' = tg then some keyed else none
  | _ => none

/-- What a client was last told about a call on a route. -/
def lastCall (s : Streams) (client : ClientId) (tg : RouteId) : Option Bool :=
  s.handed.findSome? (tells client tg)

/-- Whoever was told something of a call was handed a frame that says so. -/
theorem exists_of_lastCall {s : Streams} {client : ClientId} {tg : RouteId} {keyed : Bool}
    (h : s.lastCall client tg = some keyed) :
    ∃ sender talker, (client, sender, Frame.call tg keyed talker) ∈ s.handed := by
  obtain ⟨⟨c, sender, frame⟩, hmem, htells⟩ := List.exists_of_findSome?_eq_some h
  cases frame with
  | call tg' keyed' talker =>
    obtain ⟨⟨rfl, rfl⟩, heq⟩ := Option.ite_none_right_eq_some.mp htells
    obtain rfl := Option.some.inj heq
    exact ⟨sender, talker, hmem⟩
  | _ => cases htells

section Hand

variable (s : Streams) (client c : ClientId) (tg t : RouteId)

@[simp] theorem hand_sinks (frame : Frame) : (s.hand client frame).sinks = s.sinks := by
  unfold hand
  split <;> rfl

/-- A call frame that reaches a sender is the last one; any other frame changes nothing. -/
theorem lastCall_sendCall (keyed : Bool) (talker : String) :
    (s.sendCall client tg keyed talker).lastCall c t =
      if (s.sinks.lookup client).isSome ∧ c = client ∧ t = tg then some keyed
      else s.lastCall c t := by
  unfold sendCall hand
  cases hsink : s.sinks.lookup client with
  | none => simp
  | some sender =>
    simp only [lastCall, List.findSome?_cons, tells, Option.isSome_some, true_and]
    by_cases h : client = c ∧ tg = t
    · rw [if_pos h, if_pos ⟨h.1.symm, h.2.symm⟩]
    · rw [if_neg h, if_neg fun h' => h ⟨h'.1.symm, h'.2.symm⟩]

theorem lastCall_sendDeny (reason : String) :
    (s.sendDeny client tg reason).lastCall c t = s.lastCall c t := by
  unfold sendDeny hand
  split <;> rfl

end Hand

end Streams

end RfxVoiced
