import Playout.Decoder.Basic

/-!
# The passthrough decoder

Hands out each chunk as it came. It refuses chunks until it has been told a media type with a
major type, and it refuses empty chunks. It copies the chunk, which fails if the system has no
memory for the copy.
-/

namespace Playout

structure Passthrough where
  majorType : MajorType
  decoded : Option Payload
  /-- What the system answers to the requests for memory to come; the rest is granted. -/
  memory : List Bool
  deriving DecidableEq, Repr

namespace Passthrough

def name : String := "passthrough"

/-- The decoder as its backend makes it. -/
def fresh : Passthrough :=
  ⟨.unknown, none, []⟩

/-- A new decoder on a system that gives these answers. -/
def freshWith (memory : List Bool) : Passthrough :=
  { fresh with memory }

def setFormat (d : Passthrough) (media : MediaType) : Passthrough × Except MediaError Unit :=
  if media.majorType == .unknown then
    (d, .error (.codecInitializationFailed name "media type has no major type"))
  else ({ d with majorType := media.majorType }, .ok ())

/-- The system's answer to the next request for memory. -/
def grantsNext (d : Passthrough) : Bool :=
  d.memory.head?.getD true

/-- A refused chunk also discards the output of the one before it. -/
def decode (d : Passthrough) (chunk : List UInt8) (_ : SampleFlags) :
    Passthrough × Except MediaError Unit :=
  let d := { d with decoded := none }
  if d.majorType == .unknown then (d, .error (.decodingFailed name "format not set"))
  else if chunk.isEmpty then (d, .error (.decodingFailed name "empty chunk"))
  else
    let d' := { d with memory := d.memory.tail }
    match Payload.copyFromSlice d.grantsNext chunk with
    | .error e => (d', .error e)
    | .ok payload => ({ d' with decoded := some payload }, .ok ())

def take (d : Passthrough) : Passthrough × Option Payload :=
  ({ d with decoded := none }, d.decoded)

def ops : DecoderOps Passthrough where
  name _ := name
  setFormat := setFormat
  decode := decode
  take := take
  pixelFormat _ := .i420

end Passthrough

/-- The decoder backends that come with the library: passthrough alone. -/
def Backends.standardDecoders {κ : Type} (passthrough : κ) : DecoderBackends κ :=
  Backends.empty.register Passthrough.name passthrough

end Playout
