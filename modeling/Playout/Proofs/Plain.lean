import Playout.Decoder.Passthrough
import Playout.Proofs.Playback.Run

/-!
# A plain platform

A host without surprises, on which general statements can be looked at: its only decoder is
passthrough, its sinks take everything and play it at once, and acknowledgments go to
numbered receivers.
-/

namespace Playout

abbrev Platform.plain : Platform where
  Codec := Unit
  Decoder := Passthrough
  decoderOps := Passthrough.ops
  Output := Unit
  Sink := Unit
  Receiver := Nat

/-- Nothing fails, and the sink has nothing left to play. -/
def Answers.plain : Answers .plain where
  createDecoder _ := .ok .fresh
  sinks := ⟨fun _ _ => .ok (), fun _ _ => .ok ()⟩
  queueLength _ := 0
  play _ _ := .ok ()
  deliver _ := .ok ()
  spawn := .ok ()
  clock := .origin

/-- A machine with the usual configuration and one thread of the host. -/
abbrev Machine.plain : Machine .plain :=
  .initial .standard (.standardDecoders ()) .empty

namespace Action

def steps (a : ActorId) (n : Nat) : List (Action .plain) :=
  .replicate n (.step a .plain)

def calling (a : ActorId) (c : Call .plain) (n : Nat) : List (Action .plain) :=
  .call a c :: steps a n

/-- The first thread of the host makes a presentation with one stream and pushes chunks of one byte
that start at the given times. -/
def prepared (media : MediaType) (times : List UInt64) : List (Action .plain) :=
  calling 0 (.create ⟨.replicate 16 0⟩) 1 ++ calling 0 (.createStream 0 1) 1
    ++ calling 0 (.setFormat ⟨0, 0⟩ none media) 2
    ++ times.flatMap fun time =>
      calling 0 (.push ⟨0, 0⟩ ⟨time.toUInt32, time, time + 1, 1, .empty, [0], 0⟩) 2

end Action

namespace Machine

/-- The sink is given 25 milliseconds, and is asked every 10. -/
def impatient : Config :=
  { Config.standard with audioDrainTimeout := .ofMillis 25, defaultAudioSink := some "null" }

/-- The sink is given as much time as can be written down in whole seconds. -/
def patient : Config :=
  { Config.standard with
    audioDrainTimeout := ⟨Duration.limit - nanosPerSecond, by decide⟩
    defaultAudioSink := some "null" }

open Playout.Action

/-- A stream with one piece of audio has ended. The host asks the thread to end, and it has played
out the piece. -/
def playedOut : List (Action .plain) :=
  prepared (.audio .unknown 44100 2 16) [0] ++ calling 0 (.endStream ⟨0, 0⟩) 1 ++
    calling 0 (.start 0) 2
    ++ calling 0 (.stop 0) 2 ++ steps 1 9

/-- The thread has a turn more, and the host's stop returns. -/
def leftBehind : List (Action .plain) :=
  playedOut ++ [.step 1 .plain] ++ steps 0 4

end Machine

end Playout
