import Playout.Identity

/-!
# Errors

What can go wrong, by cause. Each error has a text, a category, and says whether a caller can
go on after it.
-/

namespace Playout

/-- Errors of sessions as such. -/
inductive SessionError where
  | duplicatePresentation (id : PresentationId)
  | presentationNotFound (id : PresentationId)
  | duplicateStream (presentation : PresentationId) (stream : StreamId)
  | streamNotFound (presentation : PresentationId) (stream : StreamId)
  | invalidState (expected actual : String)
  | invalidConfiguration (field reason : String)
  deriving DecidableEq, Repr

namespace SessionError

def message : SessionError → String
  | .duplicatePresentation id => s!"Duplicate presentation: {id}"
  | .presentationNotFound id => s!"Presentation not found: {id}"
  | .duplicateStream presentation stream =>
    s!"Duplicate stream {stream} in presentation {presentation}"
  | .streamNotFound presentation stream =>
    s!"Stream {stream} not found in presentation {presentation}"
  | .invalidState expected actual => s!"Invalid state: expected {expected}, got {actual}"
  | .invalidConfiguration field reason => s!"Invalid configuration: {field} - {reason}"

/-- Only a bad configuration leaves nothing to go on with. -/
def recoverable : SessionError → Bool
  | .invalidConfiguration .. => false
  | _ => true

end SessionError

/-- The part of the program that an error concerns. -/
inductive ErrorCategory where
  | system
  | codec
  | format
  | audio
  | delivery
  | state
  | session
  | configuration
  | memory
  deriving DecidableEq, Repr

/-- Everything that a media operation can fail with. -/
inductive MediaError where
  | session (cause : SessionError)
  | system (text : String)
  | decodingFailed (codec reason : String)
  | decoderNotConfigured (stream : StreamId)
  | codecInitializationFailed (codec reason : String)
  | unsupportedFormat (format : String)
  | unknownDecoder (name : String)
  | unknownAudioBackend (name : String)
  | audio (text : String)
  | deliveryFailed (reason : String)
  | memoryAllocationFailed (size : Nat)
  deriving DecidableEq, Repr

instance : Coe SessionError MediaError := ⟨.session⟩

namespace MediaError

def message : MediaError → String
  | .session cause => cause.message
  | .system text => s!"I/O error: {text}"
  | .decodingFailed codec reason => s!"Decoding failed: {codec} - {reason}"
  | .decoderNotConfigured stream => s!"No decoder configured for stream {stream}"
  | .codecInitializationFailed codec reason => s!"Codec initialization failed: {codec} - {reason}"
  | .unsupportedFormat format => s!"Unsupported format: {format}"
  | .unknownDecoder name => s!"Unknown decoder backend: {name}"
  | .unknownAudioBackend name => s!"Unknown audio backend: {name}"
  | .audio text => s!"Audio error: {text}"
  | .deliveryFailed reason => s!"Event delivery failed: {reason}"
  | .memoryAllocationFailed size => s!"Memory allocation failed: {size} bytes"

def category : MediaError → ErrorCategory
  | .session (.invalidConfiguration ..) => .configuration
  | .session (.invalidState ..) => .state
  | .session _ => .session
  | .system _ => .system
  | .decodingFailed .. => .codec
  | .decoderNotConfigured _ => .state
  | .codecInitializationFailed .. => .codec
  | .unsupportedFormat _ => .format
  | .unknownDecoder _ => .configuration
  | .unknownAudioBackend _ => .configuration
  | .audio _ => .audio
  | .deliveryFailed _ => .delivery
  | .memoryAllocationFailed _ => .memory

/-- A caller can go on unless a codec, a format or a backend is not available at all. -/
def recoverable : MediaError → Bool
  | .session cause => cause.recoverable
  | .codecInitializationFailed .. => false
  | .unsupportedFormat _ => false
  | .unknownDecoder _ => false
  | .unknownAudioBackend _ => false
  | _ => true

end MediaError

end Playout
