import Playout.Script.Run

/-!
# Reports

What a script shows after each step: the reply, what was logged and destroyed since the step
before, and the state of the presentation that the step names. At the end every presentation is
stopped and removed.
-/

namespace Playout.Script

/-- What can be seen of a presentation from outside. -/
structure View where
  state : PlaybackState
  time : UInt64
  eos : Bool
  geometry : Rect
  audio : AudioFormat
  /-- Each stream with its number of queued samples, its major type and its end of stream. -/
  streams : List (StreamId × Nat × MajorType × Bool)

def View.ofPresentation (x : Presentation platform) : View where
  state := x.state
  time := x.playbackTime
  eos := x.eos
  geometry := x.output
  audio := x.audioFormat
  streams := x.queues.map fun q => (q.id, q.samples.length, q.majorType, q.eos)

structure Report where
  reply : Reply
  /-- The log entries of each presentation that has any, in their order. -/
  log : List (String × List LogEntry)
  drops : List String
  /-- The named presentation; `none` if there was never one, `some none` if it no longer exists. -/
  view : Option (Option View)

namespace Session

/-- A session with the given backends. -/
def new? (config : Config) (decoders : DecoderBackends CodecKind)
    (outputs : AudioBackends AudioKind) :
    Except MediaError Session :=
  match Machine.new? (H := platform) config decoders outputs with
  | .error e => .error (.session e)
  | .ok m => .ok (.ofMachine m)

def sortedTexts (ss : List String) : List String :=
  ss.mergeSort fun s t => !(t < s)

/-- The names of presentations in order. -/
def sortedNames (s : Session) : List String :=
  sortedTexts (s.names.map (·.1))

def view (s : Session) (name : String) : Option (Option View) :=
  (s.key? name).map fun _ => ((s.live? name).bind s.presentation?).map View.ofPresentation

/-- The log by names. -/
def groupedLog (s : Session) : List (String × List LogEntry) :=
  let names := sortedTexts (s.log.map (·.1)).eraseDups
  names.map fun name => (name, (s.log.filter (·.1 == name)).map (·.2))

def clearRecords (s : Session) : Session :=
  { s with log := [], drops := [] }

/-- Does a step and reports. `name` is the presentation to be shown. -/
def report (s : Session) (name : String) (step : Step) : Session × Report :=
  let (s, reply) := s.act step
  (s.clearRecords,
    { reply, log := s.groupedLog, drops := sortedTexts s.drops, view := s.view name })

/-- Stops and removes everything. -/
def close (s : Session) : Session :=
  let s := { s with hooks := [] }
  let s := s.sortedNames.foldl (fun s name => (s.act (.stop name)).1) s
  let s := (s.act .shutdown).1
  (s.handles.map (·.1)).foldl (fun s name => (s.act (.forget name)).1) s

end Session

end Playout.Script
