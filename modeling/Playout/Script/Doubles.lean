import Playout.Decoder.Passthrough
import Playout.Platform

/-!
# Stand-ins

Decoders and audio sinks with simple, known behaviour, for scripted sessions. The decoders keep a
copy of each chunk as their output unless their kind says otherwise; the kind is also their name.
-/

namespace Playout.Script

inductive CodecKind where
  | passthrough
  | copy
  /-- Its frames have the other layout. -/
  | yv12
  /-- Takes only chunks that are clean points. -/
  | keyframe
  /-- Gives each chunk when the next one comes. -/
  | delay
  /-- Gives an empty payload. -/
  | empty
  /-- Gives nothing. -/
  | nothing
  /-- Takes only video formats. -/
  | videoOnly
  /-- As `copy`, but its creation and destruction go unrecorded. -/
  | plain
  /-- Cannot be made. -/
  | broken
  deriving DecidableEq, Repr

namespace CodecKind

def name : CodecKind → String
  | passthrough => Passthrough.name
  | copy => "copy"
  | yv12 => "yv12"
  | keyframe => "keyframe"
  | delay => "delay"
  | empty => "empty"
  | nothing => "none"
  | videoOnly => "video_only"
  | plain => "plain"
  | broken => "broken"

/-- The kinds other than passthrough. -/
def standIns : List CodecKind :=
  [copy, yv12, keyframe, delay, empty, nothing, videoOnly, plain, broken]

def ofName? (s : String) : Option CodecKind :=
  (passthrough :: standIns).find? (·.name == s)

/-- Decoders of this kind are numbered when they are made and reported when they are destroyed. -/
def isRecorded : CodecKind → Bool
  | passthrough => false
  | plain => false
  | broken => false
  | _ => true

end CodecKind

structure StandIn where
  kind : CodecKind
  /-- The number of a recorded decoder. -/
  serial : Option Nat
  output : Option Payload
  /-- The chunk that waits for the next one. -/
  waiting : Option Payload
  deriving Repr

namespace StandIn

def setFormat (d : StandIn) (media : MediaType) : StandIn × Except MediaError Unit :=
  match d.kind with
  | .videoOnly =>
    if media.majorType == .video then (d, .ok ())
    else (d, .error (.unsupportedFormat media.majorType.name))
  | _ => (d, .ok ())

def decode (d : StandIn) (chunk : List UInt8) (flags : SampleFlags) :
    StandIn × Except MediaError Unit :=
  match d.kind with
  | .keyframe =>
    if flags.contains .cleanpoint then ({ d with output := some ⟨chunk⟩ }, .ok ())
    else (d, .error (.decodingFailed "keyframe" "no clean point"))
  | .delay => ({ d with output := d.waiting, waiting := some ⟨chunk⟩ }, .ok ())
  | .empty => ({ d with output := some ⟨[]⟩ }, .ok ())
  | .nothing => ({ d with output := none }, .ok ())
  | _ => ({ d with output := some ⟨chunk⟩ }, .ok ())

end StandIn

/-- A decoder in a scripted session. -/
inductive ScriptDecoder where
  | passthrough (d : Passthrough)
  | standIn (d : StandIn)

namespace ScriptDecoder

/-- What the backend of a kind makes. `serial` is the number of the next recorded decoder. -/
def create (serial : Nat) (kind : CodecKind) : Except MediaError ScriptDecoder :=
  match kind with
  | .passthrough => .ok (.passthrough .fresh)
  | .broken => .error (.codecInitializationFailed "broken" "factory failed")
  | kind => .ok (.standIn ⟨kind, if kind.isRecorded then some serial else none, none, none⟩)

/-- How the destruction of a recorded decoder is reported. -/
def label? : ScriptDecoder → Option String
  | .passthrough _ => none
  | .standIn d => d.serial.map fun n => d.kind.name ++ "#" ++ toString n

def ops : DecoderOps ScriptDecoder where
  name
    | .passthrough _ => Passthrough.name
    | .standIn d => d.kind.name
  setFormat
    | .passthrough d, media => let (d, r) := d.setFormat media; (.passthrough d, r)
    | .standIn d, media => let (d, r) := d.setFormat media; (.standIn d, r)
  decode
    | .passthrough d, chunk, flags => let (d, r) := d.decode chunk flags; (.passthrough d, r)
    | .standIn d, chunk, flags => let (d, r) := d.decode chunk flags; (.standIn d, r)
  take
    | .passthrough d => let (d, output) := d.take; (.passthrough d, output)
    | .standIn d => (.standIn { d with output := none }, d.output)
  pixelFormat
    | .passthrough _ => .i420
    | .standIn d => if d.kind == .yv12 then .yv12 else .i420

end ScriptDecoder

inductive AudioKind where
  /-- Nothing changes the length of its queue. -/
  | fixed
  /-- Its queue grows by one with each play. -/
  | counting
  | playFails
  | openFails
  | formatFails
  deriving DecidableEq, Repr

namespace AudioKind

def name : AudioKind → String
  | fixed => "fixed"
  | counting => "counting"
  | playFails => "play_fails"
  | openFails => "open_fails"
  | formatFails => "format_fails"

def ofName? (s : String) : Option AudioKind :=
  [fixed, counting, playFails, openFails, formatFails].find? (·.name == s)

def answers : SinkAnswers AudioKind AudioKind where
  create kind device :=
    if kind == openFails then .error (.audio ("cannot open " ++ device.getD "default"))
      else .ok kind
  setFormat kind format :=
    if kind == formatFails then
      .error (.unsupportedFormat
        (toString format.sampleRate ++ "/" ++ toString format.channels ++ "/"
          ++ toString format.bitsPerSample))
    else .ok ()

def play (kind : AudioKind) (_ : Payload) : Except MediaError Unit :=
  if kind == playFails then .error (.audio "device gone") else .ok ()

/-- The length of the queue after a call. -/
def depthAfter (kind : AudioKind) (depth : Nat) : SinkCall → Nat
  | .play _ _ => if kind == counting then depth + 1 else depth
  | .flush => if kind == counting then 0 else depth
  | _ => depth

end AudioKind

/-- Who hears of acknowledgments. -/
inductive AckMode where
  | log
  | channel
  /-- A channel without a receiver. -/
  | closed
  deriving DecidableEq, Inhabited, Repr

/-- The platform of scripted sessions. -/
abbrev platform : Platform where
  Codec := CodecKind
  Decoder := ScriptDecoder
  decoderOps := ScriptDecoder.ops
  Output := AudioKind
  Sink := AudioKind
  Receiver := AckMode

end Playout.Script
