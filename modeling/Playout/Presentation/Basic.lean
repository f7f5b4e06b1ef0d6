import Playout.Config
import Playout.Platform
import Playout.Playback.State
import Playout.Schedule

/-!
# Presentations

A presentation is a set of streams that are played together. Its streams are registered under their
numbers; a handle on a stream outlives the registration and keeps its own decoder, and it reaches
the queue that is registered under the stream's number at the time.
-/

namespace Playout

/-- A decoder in use, numbered among those made for its presentation. -/
structure BoundDecoder (δ : Type) where
  serial : Nat
  decoder : δ

/-- A stream as its handles see it. -/
structure Stream (δ : Type) where
  id : StreamId
  decoder : Option (BoundDecoder δ)
  /-- How many handles the host holds. -/
  holders : Nat

namespace Stream

variable {δ : Type}

def hasDecoder (s : Stream δ) : Bool :=
  s.decoder.isSome

def debug (s : Stream δ) : String :=
  "Stream \x7b id: " ++ toString s.id ++ ", has_decoder: " ++ toString s.hasDecoder ++ " \x7d"

end Stream

/-- An audio sink in use, numbered among those opened for its presentation. -/
structure BoundSink (σ : Type) where
  serial : Nat
  sink : σ

/-- The audio backend and the device that a host asks for. -/
structure AudioDevice where
  backend : Option String
  device : Option String
  deriving DecidableEq, Repr

namespace AudioDevice

def unspecified : AudioDevice :=
  ⟨none, none⟩

/-- An empty name asks for nothing. -/
def request (backend device : Option String) : AudioDevice :=
  ⟨backend.filter (!·.isEmpty), device.filter (!·.isEmpty)⟩

end AudioDevice

structure Presentation (H : Platform) where
  id : PresentationId
  /-- The queues of the registered streams, in the order of registration. -/
  queues : List (StreamQueue H.Receiver)
  /-- The registered streams, by number, with their places in `streams`. -/
  handles : List (StreamId × Nat)
  /-- Every stream ever created. -/
  streams : List (Stream H.Decoder)
  /-- The latest end of a released sample. -/
  playbackTime : UInt64
  /-- Some stream has ended. -/
  eos : Bool
  /-- Where video is to be drawn. -/
  output : Rect
  /-- Where the last frame was drawn; empty if no frame is on screen. -/
  lastRendered : Rect
  audioFormat : AudioFormat
  audioDevice : AudioDevice
  sink : Option (BoundSink H.Sink)
  decodersMade : Nat
  sinksOpened : Nat
  lifecycle : Lifecycle
  /-- The host holds a handle on the presentation. -/
  held : Bool

namespace Presentation

variable {H : Platform}

def new (id : PresentationId) : Presentation H where
  id := id
  queues := []
  handles := []
  streams := []
  playbackTime := 0
  eos := false
  output := .zero
  lastRendered := .zero
  audioFormat := .zero
  audioDevice := .unspecified
  sink := none
  decodersMade := 0
  sinksOpened := 0
  lifecycle := .new
  held := true

def state (x : Presentation H) : PlaybackState :=
  x.lifecycle.state

def isRunning (x : Presentation H) : Bool :=
  x.lifecycle.isActive

def debug (x : Presentation H) : String :=
  "Presentation \x7b id: PresentationId(" ++ x.id.text ++ "), state: " ++ x.state.name ++ " \x7d"

/-! ## Streams -/

def queue? (x : Presentation H) (s : StreamId) : Option (StreamQueue H.Receiver) :=
  x.queues.find? (·.id == s)

/-- The place of the stream registered under a number. -/
def findStream? (x : Presentation H) (s : StreamId) : Option Nat :=
  x.handles.lookup s

def streamIds (x : Presentation H) : List StreamId :=
  x.queues.map (·.id)

def queuedSamples (x : Presentation H) (s : StreamId) : Nat :=
  ((x.queue? s).map (·.samples.length)).getD 0

def streamMajorType (x : Presentation H) (s : StreamId) : MajorType :=
  ((x.queue? s).map (·.majorType)).getD .unknown

def streamEos (x : Presentation H) (s : StreamId) : Bool :=
  (x.queue? s).any (·.eos)

/-- Registers a new stream, whose first handle goes to the caller. -/
def createStream (x : Presentation H) (s : StreamId) : Except SessionError (Presentation H) :=
  if (x.findStream? s).isSome then .error (.duplicateStream x.id s)
  else .ok
    { x with
      handles := x.handles ++ [(s, x.streams.length)]
      queues := x.queues ++ [.new s]
      streams := x.streams ++ [⟨s, none, 1⟩] }

/-- A stream that has been unregistered, and the samples that were in its queue. -/
structure Detached (H : Platform) where
  presentation : Presentation H
  /-- The places of the streams that were unregistered. -/
  places : List Nat
  discarded : List (Sample H.Receiver)

/-- Unregisters a stream. Its queue goes with it. -/
def detachStream (x : Presentation H) (s : StreamId) : Except SessionError (Detached H) :=
  match x.findStream? s with
  | none => .error (.streamNotFound x.id s)
  | some place => .ok
    { presentation :=
        { x with
          handles := x.handles.filter (·.1 != s)
          queues := x.queues.filter (·.id != s) }
      places := [place]
      discarded := ((x.queue? s).map (·.samples)).getD [] }

/-- Unregisters every stream. -/
def detachStreams (x : Presentation H) : Detached H where
  presentation := { x with handles := [], queues := [] }
  places := x.handles.map (·.2)
  discarded := x.queues.flatMap (·.samples)

/-- Changes the queue of a registered stream. -/
def updateQueue (x : Presentation H) (s : StreamId)
    (f : StreamQueue H.Receiver → StreamQueue H.Receiver) : Except SessionError (Presentation H) :=
  match x.queues.findIdx? (·.id == s) with
  | none => .error (.streamNotFound x.id s)
  | some i => .ok { x with queues := x.queues.modify i f }

/-- Takes note of a stream's format. The audio format is that of the audio stream
configured last. -/
def configure (x : Presentation H) (s : StreamId) (media : MediaType) :
    Except SessionError (Presentation H) :=
  (x.updateQueue s fun q =>
    { q with majorType := media.majorType, width := media.width, height := media.height }).map
      fun x =>
    if media.majorType == .audio then { x with audioFormat := .ofMediaType media } else x

/-- Puts a sample at the end of its stream's queue. -/
def enqueue (x : Presentation H) (sample : Sample H.Receiver) :
    Except SessionError (Presentation H) :=
  x.updateQueue sample.streamId fun q => { q with samples := q.samples ++ [sample] }

def endStream (x : Presentation H) (s : StreamId) : Except SessionError (Presentation H) :=
  (x.updateQueue s fun q => { q with eos := true }).map fun x => { x with eos := true }

/-- Drops every queued sample and every end of stream. -/
def clearQueues (x : Presentation H) : Presentation H :=
  { x with queues := x.queues.map (·.clear), eos := false }

/-! ## Decoders -/

def boundDecoder? (x : Presentation H) (place : Nat) : Option (BoundDecoder H.Decoder) :=
  x.streams[place]?.bind (·.decoder)

/-- Puts a decoder, or none, in the place of a stream's decoder. -/
def bindDecoder (x : Presentation H) (place : Nat) (d : Option (BoundDecoder H.Decoder)) :
    Presentation H :=
  { x with streams := x.streams.modify place fun s => { s with decoder := d } }

/-! ## Settings -/

def setGeometry (x : Presentation H) (output : Rect) : Presentation H :=
  { x with output := output }

def setAudioDevice (x : Presentation H) (device : AudioDevice) : Presentation H :=
  { x with audioDevice := device }

/-- The audio backend to open: the one asked for, else the configured one. -/
def audioBackend? (x : Presentation H) (config : Config) : Option String :=
  x.audioDevice.backend <|> config.defaultAudioSink

/-! ## Video regions -/

/-- The region of the frame on screen, which is then no longer taken to be there. -/
def takeLastRendered (x : Presentation H) : Option Rect × Presentation H :=
  if x.lastRendered.isEmpty then (none, x)
  else (some x.lastRendered, { x with lastRendered := .zero })

/-- A frame is about to be drawn. If the one on screen was drawn elsewhere, its region is given out
to be painted over. -/
def beginFrame (x : Presentation H) : Option Rect × Presentation H :=
  let (stale, x) := if x.lastRendered != x.output then x.takeLastRendered else (none, x)
  (stale, { x with lastRendered := x.output })

/-! ## Lifecycle -/

/-- Everything is made ready for a new thread. -/
def rewind (x : Presentation H) : Presentation H :=
  { x with playbackTime := 0, lifecycle := x.lifecycle.clearExit }

/-- A thread starts to release samples, from playback time zero. -/
def spawn (x : Presentation H) (starter : ActorId) : Presentation H :=
  { x.rewind with lifecycle := x.rewind.lifecycle.spawn starter }

def keepThread (x : Presentation H) (thread : ActorId) : Presentation H :=
  { x with lifecycle := x.lifecycle.keepThread thread }

/-- Someone is in the middle of a start and has the state locked. -/
def isStarting (x : Presentation H) : Bool :=
  x.lifecycle.starter.isSome

def requestExit (x : Presentation H) : Presentation H :=
  { x with lifecycle := x.lifecycle.requestExit }

def enter (x : Presentation H) (state : PlaybackState) : Presentation H :=
  { x with lifecycle := x.lifecycle.enter state }

end Presentation

end Playout
