import Playout.Backends
import Playout.Error
import Playout.Format
import Playout.Sample
import Playout.SampleFlags

/-!
# Decoders

A decoder is a state machine: it is told a format, then given chunks, and after each chunk its
output may be taken. Loading a decoder asks the backend of some name for one and tells it the
format; a decoder that refuses the format is not used.
-/

namespace Playout

/-- The operations of decoders with states in `δ`. -/
structure DecoderOps (δ : Type) where
  name : δ → String
  setFormat : δ → MediaType → δ × Except MediaError Unit
  decode : δ → List UInt8 → SampleFlags → δ × Except MediaError Unit
  /-- Hands out what the last chunk gave, if anything. -/
  take : δ → δ × Option Payload
  pixelFormat : δ → PixelFormat

/-- How the loading of a decoder can end. -/
inductive Loading (δ : Type) where
  /-- No decoder was made. -/
  | failed (e : MediaError)
  /-- A decoder was made and refused the format. -/
  | refused (d : δ) (e : MediaError)
  | ready (d : δ)

namespace Loading

variable {δ : Type}

/-- The loaded decoder, or why there is none. -/
def result : Loading δ → Except MediaError δ
  | .failed e => .error e
  | .refused _ e => .error e
  | .ready d => .ok d

end Loading

/-- Decoder backends by name. -/
abbrev DecoderBackends (κ : Type) := Backends κ

/-- Loads a decoder. What the backends make of a request is given by `create`. -/
def Backends.load {κ δ : Type} (backends : DecoderBackends κ) (ops : DecoderOps δ)
    (create : κ → Except MediaError δ) (name : String) (media : MediaType) : Loading δ :=
  match backends.find? name with
  | none => .failed (.unknownDecoder name)
  | some backend =>
    match create backend with
    | .error e => .failed e
    | .ok fresh =>
      match ops.setFormat fresh media with
      | (d, .error e) => .refused d e
      | (d, .ok ()) => .ready d

end Playout
