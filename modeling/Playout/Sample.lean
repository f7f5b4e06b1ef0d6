import Playout.Error
import Playout.Format

/-!
# Samples

A sample is a timed piece of one stream. Its payload may be taken from it once; the size that is
reported when it is acknowledged is that of the payload it was made with. The type parameter is
whoever hears of the acknowledgment.
-/

namespace Playout

/-- Decoded data. -/
structure Payload where
  bytes : List UInt8
  deriving DecidableEq, Inhabited, Repr

namespace Payload

/-- A copy in newly allocated memory, if the system grants that. -/
def copyFromSlice (granted : Bool) (data : List UInt8) : Except MediaError Payload :=
  if granted then .ok ⟨data⟩ else .error (.memoryAllocationFailed data.length)

def size (p : Payload) : Nat :=
  p.bytes.length

def isEmpty (p : Payload) : Bool :=
  p.bytes.isEmpty

def debug (p : Payload) : String :=
  "Payload \x7b len: " ++ toString p.size ++ " \x7d"

end Payload

structure Sample (ρ : Type) where
  streamId : StreamId
  sampleId : UInt32
  startTime : UInt64
  endTime : UInt64
  duration : UInt64
  payload : Option Payload
  pixelFormat : PixelFormat
  /-- The size of the payload at the outset. -/
  dataSize : UInt32
  receiver : ρ

namespace Sample

variable {ρ : Type}

/-- The size of a payload as it is reported: with 32 bits, and the greatest such number if it
needs more. -/
def reportedSize (payload : Option Payload) : UInt32 :=
  match payload with
  | none => 0
  | some p => if p.size < UInt32.size then UInt32.ofNat p.size else UInt32.ofNat (UInt32.size - 1)

def new (streamId : StreamId) (receiver : ρ) (sampleId : UInt32)
    (startTime endTime duration : UInt64)
    (payload : Option Payload) (pixelFormat : PixelFormat) : Sample ρ :=
  { streamId, sampleId, startTime, endTime, duration, payload, pixelFormat,
    dataSize := reportedSize payload, receiver }

/-- The payload, and the sample without it. -/
def takePayload (s : Sample ρ) : Option Payload × Sample ρ :=
  (s.payload, { s with payload := none })

def debug (s : Sample ρ) : String :=
  let payload :=
    match s.payload with
    | none => "None"
    | some p => "Some(" ++ p.debug ++ ")"
  "Sample \x7b sample_id: " ++ toString s.sampleId ++ ", stream_id: " ++ toString s.streamId
    ++ ", start_time: " ++ toString s.startTime ++ ", end_time: " ++ toString s.endTime
    ++ ", duration: " ++ toString s.duration ++ ", payload: " ++ payload ++ " \x7d"

end Sample

end Playout
