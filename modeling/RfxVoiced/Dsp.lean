import Mathlib.Data.Nat.Notation

/-!
# Link quality and renderings

The part of the signal chain that routing decisions rest on: the modulation a listener is served
in, the vocoder lane a link quality falls in, and whether that lane is silent. The filters, the
vocoder and the error rates of a lane live downstream of these decisions and are not described
here.
-/

namespace RfxVoiced.Dsp

/-- Samples a second, on every socket and in every recording. -/
def rate : UInt32 := 8000

/-- How a transmission is rendered. -/
inductive Mode
  | p25
  | fm
  | am
  deriving DecidableEq, Repr

/-- One RF hop. -/
structure Sink where
  mode : Mode
  /-- 0 to 100, where 100 is full quieting. -/
  quality : UInt8
  bridged : Bool
  deriving DecidableEq, Repr

/-- Below this quality nothing decodes at all. -/
def decodeFloor : UInt8 := 5

/-- Lane granularity. -/
def laneStep : UInt8 := 5

/-- The lane a link quality is grouped into. -/
def laneOf (quality : UInt8) : UInt8 :=
  let q := min quality 100
  if q ≤ decodeFloor then 0 else (q + laneStep / 2) / laneStep * laneStep

/-- The `muted` flag of the error profile at a quality. -/
def profileMuted (quality : UInt8) : Bool := decide (quality ≤ decodeFloor)

/-- The key of one rendering: two listeners that share it are served from one pass. -/
abbrev LegKey := Mode × UInt8 × Bool

def keyOf (sink : Sink) : LegKey := (sink.mode, laneOf sink.quality, sink.bridged)

/-- The signal chain of one speaker, from wide samples to one rendering per key in use. Its filters,
its vocoder and its noise are not described here: routing only passes samples through it. -/
structure Vocoder where
  Talker : Type
  /-- `Talker::new`, with the error it reports when the vocoder will not start. -/
  new : Except String Talker
  /-- `Talker::push_pcm`. -/
  pushPcm : Talker → List Int16 → Sink → List Sink →
    Except String (List (LegKey × List Int16)) × Talker

end RfxVoiced.Dsp
