import Playout.Backends
import Playout.Error
import Playout.Format
import Playout.Sample

/-!
# Audio sinks

An audio backend opens a sink for a device, and the sink is then told the format. A sink that
refuses the format is released at once and not used.
-/

namespace Playout

/-- What a sink, or the backend that should open one, is asked to do. -/
inductive SinkCall where
  | open (backend : String) (device : Option String)
  | openFailed
  | format (f : AudioFormat)
  | play (payload : Payload) (result : Except MediaError Unit)
  | flush
  | release

/-- How audio backends answer: whether they open a sink for a device, and whether an open sink
takes a format. -/
structure SinkAnswers (β σ : Type) where
  create : β → Option String → Except MediaError σ
  setFormat : σ → AudioFormat → Except MediaError Unit

/-- Audio backends by name. -/
abbrev AudioBackends (β : Type) := Backends β

/-- Opens a sink, with the calls that are made on the way. -/
def Backends.openSink {β σ : Type} (backends : AudioBackends β) (answers : SinkAnswers β σ)
    (name : String) (device : Option String) (format : AudioFormat) :
    Except MediaError σ × List SinkCall :=
  match backends.find? name with
  | none => (.error (.unknownAudioBackend name), [])
  | some backend =>
    match answers.create backend device with
    | .error e => (.error e, [.open name device, .openFailed])
    | .ok sink =>
      match answers.setFormat sink format with
      | .error e => (.error e, [.open name device, .format format, .release])
      | .ok () => (.ok sink, [.open name device, .format format])

end Playout
