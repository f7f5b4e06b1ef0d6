import Playout.AudioSink
import Playout.Decoder.Basic
import Playout.Duration
import Playout.Event

/-!
# Platforms

What a host supplies: decoders and audio sinks with the backends that make them, and whoever is told
of finished samples. Decoders are state machines. Everything else that a host or its system decides
is an answer, given at the moment it is asked for; nothing is assumed of how answers hang together.
-/

namespace Playout

structure Platform where
  /-- A backend that makes decoders. -/
  Codec : Type
  Decoder : Type
  decoderOps : DecoderOps Decoder
  /-- A backend that opens audio sinks. -/
  Output : Type
  Sink : Type
  /-- Who hears of the acknowledgment of a sample. -/
  Receiver : Type

/-- What a host answers at one moment, whatever it is asked. -/
structure Answers (H : Platform) where
  createDecoder : H.Codec → Except MediaError H.Decoder
  sinks : SinkAnswers H.Output H.Sink
  /-- How many samples a sink has yet to play. -/
  queueLength : H.Sink → Nat
  play : H.Sink → Payload → Except MediaError Unit
  deliver : Event → Except MediaError Unit
  /-- Whether the system starts another thread, and if not, why. -/
  spawn : Except String Unit
  clock : Instant

end Playout
