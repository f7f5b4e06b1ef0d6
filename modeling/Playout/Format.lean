import Playout.Json.Form

/-!
# Media formats

What a stream carries and how it is to be decoded, as the protocol negotiates it.
-/

namespace Playout

/-- The kind of media in a stream, which decides where its samples go. -/
inductive MajorType where
  | video
  | audio
  | unknown
  deriving DecidableEq, Inhabited, Repr

namespace MajorType

def name : MajorType → String
  | .video => "Video"
  | .audio => "Audio"
  | .unknown => "Unknown"

def ofName? : String → Option MajorType
  | "Video" => some .video
  | "Audio" => some .audio
  | "Unknown" => some .unknown
  | _ => none

instance : JsonForm MajorType where
  encode t := .text t.name
  decode j := j.choice?.bind ofName?

end MajorType

/-- The encoding of a stream. -/
inductive SubType where
  | wvc1
  | wma2
  | wma9
  | mp3
  | mp2a
  | mp2v
  | h264
  | aac
  | pcm
  | unknown
  deriving DecidableEq, Inhabited, Repr

namespace SubType

def name : SubType → String
  | .wvc1 => "Wvc1"
  | .wma2 => "Wma2"
  | .wma9 => "Wma9"
  | .mp3 => "Mp3"
  | .mp2a => "Mp2a"
  | .mp2v => "Mp2v"
  | .h264 => "H264"
  | .aac => "Aac"
  | .pcm => "Pcm"
  | .unknown => "Unknown"

def ofName? : String → Option SubType
  | "Wvc1" => some .wvc1
  | "Wma2" => some .wma2
  | "Wma9" => some .wma9
  | "Mp3" => some .mp3
  | "Mp2a" => some .mp2a
  | "Mp2v" => some .mp2v
  | "H264" => some .h264
  | "Aac" => some .aac
  | "Pcm" => some .pcm
  | "Unknown" => some .unknown
  | _ => none

instance : JsonForm SubType where
  encode t := .text t.name
  decode j := j.choice?.bind ofName?

end SubType

/-- The layout of a decoded frame. -/
inductive PixelFormat where
  | i420
  | yv12
  deriving DecidableEq, Inhabited, Repr

namespace PixelFormat

def name : PixelFormat → String
  | .i420 => "I420"
  | .yv12 => "Yv12"

def ofName? : String → Option PixelFormat
  | "I420" => some .i420
  | "Yv12" => some .yv12
  | _ => none

instance : JsonForm PixelFormat where
  encode f := .text f.name
  decode j := j.choice?.bind ofName?

end PixelFormat

/-- A rate as a quotient. -/
structure Fraction where
  numerator : UInt32
  denominator : UInt32
  deriving DecidableEq, Inhabited, Repr

namespace Fraction

def zero : Fraction :=
  ⟨0, 0⟩

/-- The quotient, and zero if there is none. -/
def toFloat (f : Fraction) : Float :=
  if f.denominator == 0 then 0 else f.numerator.toFloat / f.denominator.toFloat

instance : JsonForm Fraction where
  encode f := .record
    [("numerator", JsonForm.encode f.numerator), ("denominator", JsonForm.encode f.denominator)]
  decode j :=
    match j.members? ["numerator", "denominator"] with
    | some [numerator, denominator] => do
      return ⟨← JsonForm.required numerator, ← JsonForm.required denominator⟩
    | _ => none

end Fraction

/-- Everything that the protocol says of a stream's format. -/
structure MediaType where
  majorType : MajorType
  subType : SubType
  width : UInt32
  height : UInt32
  bitRate : UInt32
  samplesPerSecond : Fraction
  channels : UInt32
  bitsPerSample : UInt32
  blockAlign : UInt32
  extraData : List UInt8
  deriving DecidableEq, Repr

namespace MediaType

/-- The media type that says nothing. -/
def unspecified : MediaType where
  majorType := .unknown
  subType := .unknown
  width := 0
  height := 0
  bitRate := 0
  samplesPerSecond := .zero
  channels := 0
  bitsPerSample := 0
  blockAlign := 0
  extraData := []

instance : Inhabited MediaType := ⟨unspecified⟩

def video (subType : SubType) (width height : UInt32) : MediaType :=
  { unspecified with majorType := .video, subType, width, height }

def audio (subType : SubType) (rate channels bitsPerSample : UInt32) : MediaType :=
  { unspecified with
    majorType := .audio, subType, samplesPerSecond := ⟨rate, 1⟩, channels, bitsPerSample }

instance : JsonForm MediaType where
  encode m := .record
    [("major_type", JsonForm.encode m.majorType), ("sub_type", JsonForm.encode m.subType),
      ("width", JsonForm.encode m.width), ("height", JsonForm.encode m.height),
      ("bit_rate", JsonForm.encode m.bitRate),
      ("samples_per_second", JsonForm.encode m.samplesPerSecond),
      ("channels", JsonForm.encode m.channels),
      ("bits_per_sample", JsonForm.encode m.bitsPerSample),
      ("block_align", JsonForm.encode m.blockAlign), ("extra_data", JsonForm.encode m.extraData)]
  decode j :=
    match j.members? ["major_type", "sub_type", "width", "height", "bit_rate", "samples_per_second",
        "channels", "bits_per_sample", "block_align", "extra_data"] with
    | some [major, sub, width, height, bitRate, rate, channels, bits, align, extra] => do
      return {
        majorType := ← JsonForm.required major
        subType := ← JsonForm.required sub
        width := ← JsonForm.required width
        height := ← JsonForm.required height
        bitRate := ← JsonForm.required bitRate
        samplesPerSecond := ← JsonForm.required rate
        channels := ← JsonForm.required channels
        bitsPerSample := ← JsonForm.required bits
        blockAlign := ← JsonForm.required align
        extraData := ← JsonForm.required extra }
    | _ => none

end MediaType

/-- What an audio sink has to know. -/
structure AudioFormat where
  sampleRate : UInt32
  channels : UInt32
  bitsPerSample : UInt32
  deriving DecidableEq, Inhabited, Repr

namespace AudioFormat

def zero : AudioFormat :=
  ⟨0, 0, 0⟩

/-- The audio side of a media type. A width that is not given is sixteen bits. -/
def ofMediaType (m : MediaType) : AudioFormat where
  sampleRate := m.samplesPerSecond.numerator
  channels := m.channels
  bitsPerSample := if m.bitsPerSample == 0 then 16 else m.bitsPerSample

/-- A sink can be opened for it. -/
def isComplete (f : AudioFormat) : Bool :=
  f.sampleRate != 0 && f.channels != 0 && f.bitsPerSample != 0

instance : JsonForm AudioFormat where
  encode f := .record
    [("sample_rate", JsonForm.encode f.sampleRate), ("channels", JsonForm.encode f.channels),
      ("bits_per_sample", JsonForm.encode f.bitsPerSample)]
  decode j :=
    match j.members? ["sample_rate", "channels", "bits_per_sample"] with
    | some [rate, channels, bits] => do
      return ⟨← JsonForm.required rate, ← JsonForm.required channels, ← JsonForm.required bits⟩
    | _ => none

end AudioFormat

end Playout
