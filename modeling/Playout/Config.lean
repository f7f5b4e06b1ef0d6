import Playout.Duration
import Playout.Error

/-!
# Configuration

What a host can adjust. A configuration is read from JSON field by field, and a field that is not
given keeps its usual value.
-/

namespace Playout

structure Config where
  /-- Audio is held back while the sink has this many samples queued. -/
  audioQueueThreshold : UInt64
  /-- How long a playback thread rests when nothing is ready. -/
  idleInterval : Duration
  /-- How often a stop looks again whether the thread has ended. -/
  stopPollInterval : Duration
  /-- How often the sink is asked whether it has played out its queue. -/
  audioDrainPollInterval : Duration
  /-- How long the sink is given to play out its queue. -/
  audioDrainTimeout : Duration
  /-- The decoder backend of streams that ask for none. -/
  defaultDecoder : String
  /-- The audio backend of presentations that ask for none. -/
  defaultAudioSink : Option String
  deriving DecidableEq, Repr

namespace Config

/-- The usual configuration. -/
def standard : Config where
  audioQueueThreshold := 10
  idleInterval := .ofMillis 10
  stopPollInterval := .ofMillis 250
  audioDrainPollInterval := .ofMillis 10
  audioDrainTimeout := .ofMillis 5000
  defaultDecoder := "passthrough"
  defaultAudioSink := none

instance : Inhabited Config := ⟨standard⟩

/-- Little buffering and short rests. -/
def lowLatency : Config :=
  { standard with
    audioQueueThreshold := 4
    idleInterval := .ofMillis 2
    stopPollInterval := .ofMillis 20 }

/-- Short waits throughout. -/
def quick : Config :=
  { standard with
    idleInterval := .ofMillis 1
    stopPollInterval := .ofMillis 5
    audioDrainPollInterval := .ofMillis 1
    audioDrainTimeout := .ofMillis 500 }

/-- A configuration that a registry accepts. The timeout of the drain may be zero, the intervals may
not. -/
def validate (c : Config) : Except SessionError Unit :=
  if c.audioQueueThreshold == 0 then
    .error (.invalidConfiguration "audio_queue_threshold" "must be at least 1 or audio never plays")
  else if c.idleInterval.isZero then
    .error (.invalidConfiguration "idle_interval" "must be non-zero")
  else if c.stopPollInterval.isZero then
    .error (.invalidConfiguration "stop_poll_interval" "must be non-zero")
  else if c.audioDrainPollInterval.isZero then
    .error (.invalidConfiguration "audio_drain_poll_interval" "must be non-zero")
  else if c.defaultDecoder.isEmpty then
    .error (.invalidConfiguration "default_decoder" "must name a decoder backend")
  else .ok ()

/-- The fields in the order in which they are written. -/
def fieldNames : List String :=
  ["audio_queue_threshold", "idle_interval", "stop_poll_interval", "audio_drain_poll_interval",
    "audio_drain_timeout", "default_decoder", "default_audio_sink"]

/-- The values of the fields, in the same order. -/
def fieldValues (c : Config) : List Json :=
  [JsonForm.encode c.audioQueueThreshold, JsonForm.encode c.idleInterval,
    JsonForm.encode c.stopPollInterval, JsonForm.encode c.audioDrainPollInterval,
    JsonForm.encode c.audioDrainTimeout, JsonForm.encode c.defaultDecoder,
    JsonForm.encode c.defaultAudioSink]

instance : JsonForm Config where
  encode c := .record (fieldNames.zip c.fieldValues)
  decode j :=
    match j.members? fieldNames with
    | some [threshold, idle, stopPoll, drainPoll, drainTimeout, decoder, sink] => do
      return {
        audioQueueThreshold := ← JsonForm.optional standard.audioQueueThreshold threshold
        idleInterval := ← JsonForm.optional standard.idleInterval idle
        stopPollInterval := ← JsonForm.optional standard.stopPollInterval stopPoll
        audioDrainPollInterval := ← JsonForm.optional standard.audioDrainPollInterval drainPoll
        audioDrainTimeout := ← JsonForm.optional standard.audioDrainTimeout drainTimeout
        defaultDecoder := ← JsonForm.optional standard.defaultDecoder decoder
        defaultAudioSink := ← JsonForm.optional standard.defaultAudioSink sink }
    | _ => none

end Config

end Playout
