import Playout.Presentation.Basic

/-!
# Tasks

A call on a presentation, and the body of its playback thread, are sequences of tasks. A task is
what happens at one moment, under one lock: between two tasks of one actor, tasks of others may be
done. A task that calls the host leaves a `callback` behind, which stays until the host returns;
from inside it the host may make calls of its own.
-/

namespace Playout

/-- A chunk of a stream as the protocol brings it. -/
structure Chunk (ρ : Type) where
  sampleId : UInt32
  startTime : UInt64
  endTime : UInt64
  duration : UInt64
  flags : SampleFlags
  data : List UInt8
  receiver : ρ

/-- Whether selection holds samples back. -/
inductive Pacing where
  | paced
  | unpaced
  deriving DecidableEq, Repr

/-- Where the body of a playback thread stands. -/
inductive Phase where
  /-- About to look at the exit flag. -/
  | polling
  /-- About to select a sample. -/
  | choosing
  /-- Nothing was ready. -/
  | resting
  /-- Out of the loop, about to look whether a stream has ended. -/
  | leaving
  /-- About to show that it plays out what is left. -/
  | turning
  /-- Playing out what is left. -/
  | draining
  /-- About to release the sink. -/
  | closing
  /-- About to show that it has ended. -/
  | ending
  deriving DecidableEq, Repr

inductive Task (H : Platform) where
  -- Streams
  | createStream (s : StreamId)
  | holdStream (place : Nat)
  | forgetStream (place : Nat)
  | detachStream (s : StreamId)
  | detachStreams
  | releaseDecoders (places : List Nat)
  -- Through a stream's handle
  | setFormat (place : Nat) (decoder : Option String) (media : MediaType)
  | loadDecoder (place : Nat) (name : String) (media : MediaType)
  | push (place : Nat) (chunk : Chunk H.Receiver)
  | enqueue (sample : Sample H.Receiver)
  | endStream (place : Nat)
  -- Settings
  | setGeometry (output : Rect)
  | setAudioDevice (device : AudioDevice)
  -- Lifecycle
  | start
  | keepThread (thread : ActorId)
  | requestExit
  | inspectThread
  | awaitStopped (thread : Option ActorId)
  | join (thread : ActorId)
  | repaint
  | clearQueues
  | flushSink
  | letGo
  | reclaim
  -- Delivery
  | tick (pacing : Pacing)
  | dispatch (selected : Selected H.Receiver)
  | offer (event : Event)
  | acknowledge (sample : Sample H.Receiver)
  | callback
  -- The audio sink
  | openSink
  | releaseSink
  | drainSink
  /-- `wake` is when the actor has slept enough, in nanoseconds. -/
  | pollSink (deadline : Instant) (wake : Nat)
  -- The playback thread
  | playback (phase : Phase)
  -- The end of a call that succeeds
  | finish

namespace Task

variable {H : Platform}

/-- A task keeps its presentation in existence, unless it goes through a stream's handle and has yet
to find out whether the presentation still exists. -/
def keepsAlive : Task H → Bool
  | .setFormat .. => false
  | .push .. => false
  | .endStream .. => false
  | .forgetStream _ => false
  | .reclaim => false
  | _ => true

/-- Asks the playback thread to end, waits for that, and paints over the last frame. -/
def stop : List (Task H) :=
  [.requestExit, .inspectThread, .repaint]

/-- What a playback thread does from its start. -/
def body : List (Task H) :=
  [.openSink, .playback .polling]

end Task

/-- What others can notice of a task. -/
inductive Effect (H : Platform) where
  /-- A sample was put into its stream's queue. -/
  | queued (sample : Sample H.Receiver)
  /-- A sample left its stream's queue to be delivered. -/
  | released (selected : Selected H.Receiver)
  /-- Samples were dropped with their queue. -/
  | discarded (samples : List (Sample H.Receiver))
  /-- The sink was asked for the length of its queue. -/
  | consulted (depth : Nat)
  /-- The display was given an event, and took it or not. -/
  | offered (event : Event) (result : Except MediaError Unit)
  | acknowledged (receiver : H.Receiver) (sampleId : UInt32) (duration : UInt64) (size : UInt32)
  /-- A call on a sink, by its number. -/
  | sink (serial : Nat) (call : SinkCall)
  | decoderMade (serial : Nat) (decoder : H.Decoder)
  | decoderDestroyed (serial : Nat) (decoder : H.Decoder)

/-- What a task can see beside the presentation itself. -/
structure Surroundings (H : Platform) where
  config : Config
  decoders : DecoderBackends H.Codec
  outputs : AudioBackends H.Output
  /-- Who does the task. -/
  self : ActorId
  /-- The name of the next thread to be started. -/
  fresh : ActorId
  hasEnded : ActorId → Bool
  /-- The presentation is registered, or someone refers to it. -/
  alive : Bool
  answers : Answers H

/-- What a task comes to. -/
structure Move (H : Platform) where
  presentation : Presentation H
  /-- What is to be done in place of the task. -/
  next : List (Task H) := []
  effects : List (Effect H) := []
  /-- What a newly started thread is to do. -/
  spawned : List (List (Task H)) := []
  /-- The result of the call, if the task ends one. -/
  result : Option (Except MediaError Unit) := none

/-- A task is done, or it cannot be done yet, or it breaks off everything that its
actor is doing. -/
inductive Outcome (H : Platform) where
  | moves (move : Move H)
  | waits
  | unwinds

end Playout
