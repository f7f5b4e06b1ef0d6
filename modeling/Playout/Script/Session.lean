import Playout.Script.Step

/-!
# Sessions

The state of a script: the machine, the names, what the stand-ins remember, and the steps that wait
for a call to end. Effects of the machine are turned into log entries here.
-/

namespace Playout.Script

/-- What belongs to one presentation of a script. -/
structure Stage where
  name : String
  mode : EventMode
  /-- The length of the queue of any sink opened for the presentation. -/
  depth : Nat
  /-- How many events the display was given. -/
  events : Nat

/-- Steps to be done in a callback of a presentation. -/
structure Hook where
  presentation : Key
  point : HookPoint
  n : Nat
  steps : List (String × Step)

/-- How a step goes on when the call that was made for it has come to an end. -/
inductive Rest where
  /-- The result of the call is the reply. -/
  | result
  | reply (reply : Reply)
  /-- A presentation was created, to be bound to a name. -/
  | bind (name : String) (p : Key) (id : PresentationId) (mode : EventMode)
  /-- There is a new handle for a name, which has to let go of the handle it stands for. -/
  | refer (name : String) (h : Handle) (reply : Reply)
  | bindHandle (name : String) (h : Handle) (reply : Reply)
  /-- More samples may be released and delivered. -/
  | tick (p : Key) (pacing : Pacing) (limit : Option Nat) (samples : List (StreamId × UInt32))

/-- Whom the reply to a step is for. -/
inductive Recipient where
  | script
  /-- A hook of a presentation, with the name of the step and the steps to be done after it. -/
  | hook (p : Key) (name : String) (later : List (String × Step))

/-- A step whose call has not come to an end. -/
structure Errand where
  actor : ActorId
  /-- How many jobs the actor had before the call. -/
  height : Nat
  result : Option (Except MediaError Unit)
  rest : Rest
  recipient : Recipient

structure Session where
  machine : Machine platform
  stages : List Stage
  names : List (String × Key)
  handles : List (String × Handle)
  hooks : List Hook
  /-- Samples that were selected and not yet dispatched. -/
  inFlight : List (Selected AckMode)
  clock : Instant
  /-- The number of the next recorded decoder. -/
  serial : Nat
  log : List (String × LogEntry)
  drops : List String
  /-- The latest first. -/
  errands : List Errand
  /-- The reply to the last step of the script. -/
  reply : Reply

/-- The actor that does the steps of a script. -/
def host : ActorId := 0

namespace Session

def ofMachine (m : Machine platform) : Session where
  machine := m
  stages := []
  names := []
  handles := []
  hooks := []
  inFlight := []
  clock := .origin
  serial := 0
  log := []
  drops := []
  errands := []
  reply := .done

/-! ## Names -/

/-- The presentation that a name stands for. -/
def key? (s : Session) (name : String) : Option Key :=
  s.names.lookup name

/-- The same, if the presentation exists. -/
def live? (s : Session) (name : String) : Option Key :=
  (s.key? name).filter s.machine.alive

def bind (s : Session) (name : String) (p : Key) : Session :=
  { s with names := (name, p) :: s.names.filter (·.1 != name) }

def handle? (s : Session) (name : String) : Option Handle :=
  s.handles.lookup name

def bindHandle (s : Session) (name : String) (h : Handle) : Session :=
  { s with handles := (name, h) :: s.handles.filter (·.1 != name) }

def dropHandle (s : Session) (name : String) : Session :=
  { s with handles := s.handles.filter (·.1 != name) }

def presentation? (s : Session) (p : Key) : Option (Presentation platform) :=
  s.machine.presentations[p]?

def stream? (s : Session) (h : Handle) : Option (Stream ScriptDecoder) :=
  (s.presentation? h.presentation).bind fun x => x.streams[h.place]?

/-! ## What the stand-ins answer -/

def depth (s : Session) (p : Key) : Nat :=
  (s.stages[p]?.map (·.depth)).getD 0

def setDepth (s : Session) (p : Key) (depth : Nat) : Session :=
  { s with stages := s.stages.modify p fun stage => { stage with depth := depth } }

def deliver (mode : EventMode) (e : Event) : Except MediaError Unit :=
  match mode with
  | .accept => .ok ()
  | .channel => e.sendTo true
  | .refuse => .error (.deliveryFailed "refused")
  | .closed => e.sendTo false

def answers (s : Session) (p : Key) : Answers platform where
  createDecoder := ScriptDecoder.create s.serial
  sinks := AudioKind.answers
  queueLength _ := s.depth p
  play := AudioKind.play
  deliver := deliver ((s.stages[p]?.map (·.mode)).getD .accept)
  spawn := .ok ()
  clock := s.clock

/-! ## What the stand-ins record -/

def record (s : Session) (p : Key) (entry : LogEntry) : Session :=
  match s.stages[p]? with
  | none => s
  | some stage => { s with log := s.log ++ [(stage.name, entry)] }

/-- Whether the sink in use counts its queue. -/
def countsQueue (s : Session) (p : Key) : Bool :=
  ((s.presentation? p).bind (·.sink)).any fun bound => bound.sink == AudioKind.counting

def state (s : Session) (p : Key) : PlaybackState :=
  ((s.presentation? p).map (·.state)).getD .idle

/-- Takes note of an effect. While a presentation drains, a sink that counts its queue plays one
sample each time it is asked. -/
def observe (s : Session) (p : Key) : Effect platform → Session
  | .queued _ => s
  | .released _ => s
  | .discarded _ => s
  | .consulted depth =>
    if s.countsQueue p && s.state p == .draining then s.setDepth p (depth - 1) else s
  | .offered e result =>
    let s := { s with
               stages := s.stages.modify p fun stage => { stage with events := stage.events + 1 } }
    match (s.stages[p]?.map (·.mode)).getD .accept, result with
    | .closed, .error cause => s.record p (.undelivered cause)
    | _, result => s.record p (.event e (result matches .error _))
  | .acknowledged receiver sampleId duration size =>
    match receiver with
    | AckMode.closed => s.record p .ackUnheard
    | _ => s.record p (.ack sampleId duration size (s.state p))
  | .sink _ call =>
    let kind := ((s.presentation? p).bind (·.sink)).map (·.sink)
    let s := s.record p (.sink call)
    match kind with
    | none => s
    | some kind => s.setDepth p (AudioKind.depthAfter kind (s.depth p) call)
  | .decoderMade _ d =>
    match ScriptDecoder.label? d with
    | none => s
    | some _ => { s with serial := s.serial + 1 }
  | .decoderDestroyed _ d => { s with drops := s.drops ++ (ScriptDecoder.label? d).toList }

/-- The earliest hook that is to run in the callback of an effect. -/
def hook? (s : Session) (p : Key) : Effect platform → Option Hook
  | .offered _ _ =>
    let n := (s.stages[p]?.map (·.events)).getD 0
    s.hooks.find? fun h => h.presentation == p && h.point == .event && h.n + 1 == n
  | .acknowledged _ sampleId _ _ =>
    s.hooks.find? fun h => h.presentation == p && h.point == .ack && h.n == sampleId.toNat
  | _ => none

def addStage (s : Session) (stage : Stage) : Session :=
  { s with stages := s.stages ++ [stage] }

def arm (s : Session) (h : Hook) : Session :=
  { s with hooks := s.hooks ++ [h] }

/-- Removes the earliest hook for a callback. -/
def disarm (s : Session) (h : Hook) : Session :=
  { s with
    hooks := s.hooks.eraseP fun other =>
      other.presentation == h.presentation && other.point == h.point && other.n == h.n }

end Session

end Playout.Script
