import Playout.Playback.Call
import Playout.Script.Doubles

/-!
# Steps of a script

A script names its presentations and its handles on streams. A step is a call on one of them, a
question, or something that the script's host does; a hook is a list of steps to be done inside a
callback. Every step has a reply, and what the callbacks see is logged for each presentation.
-/

namespace Playout.Script

/-- How a presentation's display takes events. -/
inductive EventMode where
  | accept
  | channel
  | refuse
  /-- A channel without a receiver. -/
  | closed
  deriving DecidableEq, Inhabited, Repr

/-- The callbacks in which a hook may run. -/
inductive HookPoint where
  | ack
  | event
  deriving DecidableEq, Repr

inductive Step where
  -- The registry
  | create (p : String) (id : PresentationId) (mode : EventMode)
  | find (p : String) (id : PresentationId)
  | get (id : PresentationId)
  | remove (id : PresentationId)
  | ids
  | len
  | shutdown
  | config
  | backends
  -- Handles on streams
  | setFormat (s : String) (decoder : Option String) (media : MediaType)
  | push (s : String) (chunk : Chunk AckMode)
  | endStream (s : String)
  | major (s : String)
  | streamEos (s : String)
  | hasDecoder (s : String)
  | streamId (s : String)
  | streamDebug (s : String)
  | forget (s : String)
  -- Presentations
  | createStream (p : String) (id : StreamId) (s : String)
  | findStream (p : String) (id : StreamId) (s : String)
  | removeStream (p : String) (id : StreamId)
  | removeStreams (p : String)
  | queued (p : String) (id : StreamId)
  | streamIds (p : String)
  | setGeometry (p : String) (output : Rect)
  | setAudioDevice (p : String) (backend device : Option String)
  | start (p : String)
  | stop (p : String)
  | flush (p : String)
  | running (p : String)
  | debug (p : String)
  | letGo (p : String)
  | depth (p : String) (n : Nat)
  -- What a playback thread does, done by the script
  | select (p : String) (pacing : Pacing)
  | dispatch (p : String)
  | tick (p : String) (pacing : Pacing) (limit : Option Nat)
  | openAudio (p : String)
  | releaseAudio (p : String)
  | drainAudio (p : String)
  | runInline (p : String)
  -- Callbacks
  | hook (p : String) (point : HookPoint) (n : Nat) (steps : List (String × Step))
  /-- Breaks off the callback and everything around it. -/
  | breakOff

inductive Reply where
  | done
  | failed (e : MediaError)
  | noHandle
  | dropped
  | nothingSelected
  | text (s : String)
  | texts (ss : List String)
  | number (n : Nat)
  | numbers (ns : List StreamId)
  | flag (b : Bool)
  | absent
  | found (id : PresentationId) (same : Bool)
  | size (n : Nat)
  | backends (decoders outputs : List String)
  | running (state : PlaybackState)
  | selection (selected : Option (Selected AckMode))
  | ticks (samples : List (StreamId × UInt32))

/-- What a callback saw. -/
inductive LogEntry where
  | event (e : Event) (refused : Bool)
  | undelivered (e : MediaError)
  | ack (sampleId : UInt32) (duration : UInt64) (size : UInt32) (state : PlaybackState)
  | ackUnheard
  | sink (call : SinkCall)
  /-- A step of a hook, by its name; a step that breaks off has no reply. -/
  | hook (name : String) (reply : Option Reply)

end Playout.Script
