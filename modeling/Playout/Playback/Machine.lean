import Playout.Playback.Perform

/-!
# The machine

All presentations of a host with everyone who acts on them. Each actor has a stack of jobs, the next
one on top. `step` lets one actor do one job; which actor moves next, and what the host answers, is
not decided here, so that the runs of the machine are all the interleavings there are. `invoke`
begins a call; `mayCall` says when an actor is in a position to make one.
-/

namespace Playout

/-- A presentation's place among all that were ever created. -/
abbrev Key := Nat

/-- What an actor has to do next. -/
inductive Job (H : Platform) where
  | at (p : Key) (task : Task H)
  | create (id : PresentationId)
  | remove (id : PresentationId)
  | shutdown
  | removeEach (ids : List PresentationId)

namespace Job

variable {H : Platform}

/-- The job keeps a presentation in existence. -/
def keepsAlive (p : Key) : Job H → Bool
  | .at q task => q == p && task.keepsAlive
  | _ => false

/-- The actor is inside a callback of the host. -/
def isCallback : Job H → Bool
  | .at _ .callback => true
  | _ => false

end Job

/-- A thread of the host, or the playback thread of a presentation. -/
inductive Role where
  | host
  | playback (p : Key)
  deriving DecidableEq, Repr

/-- Someone who acts, with what is to be done next on top. A thread of the host that has nothing to
do is idle; a playback thread that has nothing to do has ended. -/
structure Actor (H : Platform) where
  role : Role
  jobs : List (Job H)

namespace Actor

variable {H : Platform}

/-- A thread of the host makes calls when it is idle, and everyone does from inside a callback. -/
def mayCall (a : Actor H) : Bool :=
  match a.jobs with
  | [] => a.role == .host
  | job :: _ => job.isCallback

end Actor

structure Machine (H : Platform) where
  config : Config
  decoders : DecoderBackends H.Codec
  outputs : AudioBackends H.Output
  presentations : List (Presentation H)
  /-- The registered presentations. -/
  registry : List (PresentationId × Key)
  actors : List (Actor H)

/-- What a step comes to. -/
structure Progress (H : Platform) where
  machine : Machine H
  effects : List (Key × Effect H) := []
  /-- The result of the call that the step ends, if it ends one. -/
  result : Option (Except MediaError Unit) := none

namespace Machine

variable {H : Platform}

/-- A machine with one idle thread of the host. The configuration has to be valid. -/
def new? (config : Config) (decoders : DecoderBackends H.Codec) (outputs : AudioBackends H.Output) :
    Except SessionError (Machine H) :=
  config.validate.map fun _ =>
    { config, decoders, outputs, presentations := [], registry := [], actors := [⟨.host, []⟩] }

/-! ## The registry -/

def find? (m : Machine H) (id : PresentationId) : Option Key :=
  m.registry.lookup id

def get (m : Machine H) (id : PresentationId) : Except SessionError Key :=
  match m.find? id with
  | some p => .ok p
  | none => .error (.presentationNotFound id)

def ids (m : Machine H) : List PresentationId :=
  m.registry.map (·.1)

def size (m : Machine H) : Nat :=
  m.registry.length

/-- A presentation exists while it is registered, held, or being worked on. -/
def alive (m : Machine H) (p : Key) : Bool :=
  m.registry.any (·.2 == p) || m.presentations[p]?.any (·.held)
    || m.actors.any (·.jobs.any (·.keepsAlive p))

/-! ## Actors -/

/-- Another thread of the host appears. -/
def addHost (m : Machine H) : Machine H :=
  { m with actors := m.actors ++ [⟨.host, []⟩] }

/-- What an actor has to do, the next job first. -/
def stack (m : Machine H) (a : ActorId) : List (Job H) :=
  (m.actors[a]?.map (·.jobs)).getD []

def setStack (m : Machine H) (a : ActorId) (jobs : List (Job H)) : Machine H :=
  { m with actors := m.actors.modify a fun actor => { actor with jobs := jobs } }

def hasEnded (m : Machine H) (a : ActorId) : Bool :=
  (m.stack a).isEmpty

def mayCall (m : Machine H) (a : ActorId) : Bool :=
  m.actors[a]?.any (·.mayCall)

/-- An actor begins a call. -/
def invoke (m : Machine H) (a : ActorId) (jobs : List (Job H)) : Machine H :=
  m.setStack a (jobs ++ m.stack a)

def surroundings (m : Machine H) (a : ActorId) (p : Key) (answers : Answers H) :
    Surroundings H where
  config := m.config
  decoders := m.decoders
  outputs := m.outputs
  self := a
  fresh := m.actors.length
  hasEnded := m.hasEnded
  alive := m.alive p
  answers := answers

/-- Whose thread's body a job is the rest of. -/
def guarded? : Job H → Option Key
  | .at p (.playback _) => some p
  | _ => none

/-- Everything that an actor is doing is broken off. If that includes the body of a playback thread,
the thread has ended. -/
def unwind (m : Machine H) (a : ActorId) : Machine H :=
  let stopped := (m.stack a).filterMap guarded?
  { m.setStack a [] with
    presentations := stopped.foldl (fun xs p => xs.modify p (·.enter .stopped)) m.presentations }

/-! ## Steps -/

/-- The machine after a task of a presentation. `rest` is what its actor has to do afterwards. -/
def after (m : Machine H) (a : ActorId) (p : Key) (rest : List (Job H)) (move : Move H) :
    Progress H :=
  let m := m.setStack a (move.next.map (.at p) ++ rest)
  { machine :=
      { m with
        presentations := m.presentations.set p move.presentation
        actors := m.actors ++ move.spawned.map fun tasks => ⟨.playback p, tasks.map (.at p)⟩ }
    effects := move.effects.map fun e => (p, e)
    result := move.result }

/-- Unregisters a presentation. -/
def unregister (m : Machine H) (id : PresentationId) : Machine H :=
  { m with registry := m.registry.filter (·.1 != id) }

/-- What is left to be done with a presentation that was unregistered. -/
def teardown (p : Key) : List (Job H) :=
  (Task.stop ++ [Task.detachStreams]).map (.at p)

/-- Does a job of an actor that has `rest` to do afterwards. -/
def perform (m : Machine H) (a : ActorId) (answers : Answers H) (rest : List (Job H)) :
    Job H → Option (Progress H)
  | .at p task =>
    match m.presentations[p]? with
    | none => some { machine := m.setStack a rest }
    | some x =>
      match x.perform (m.surroundings a p answers) task with
      | .moves move => some (m.after a p rest move)
      | .waits => none
      | .unwinds => some { machine := m.unwind a }
  | .create id =>
    match m.find? id with
    | some _ =>
      some
        { machine := m.setStack a rest
          result := some (.error (.session (.duplicatePresentation id))) }
    | none =>
      some
        { machine :=
            { m.setStack a rest with
              presentations := m.presentations ++ [.new id]
              registry := m.registry ++ [(id, m.presentations.length)] }
          result := some (.ok ()) }
  | .remove id =>
    match m.find? id with
    | none =>
      some
        { machine := m.setStack a rest
          result := some (.error (.session (.presentationNotFound id))) }
    | some p =>
        some { machine := (m.unregister id).setStack a (teardown p ++ .at p .finish :: rest) }
  | .shutdown => some { machine := m.setStack a (.removeEach m.ids :: rest) }
  | .removeEach [] => some { machine := m.setStack a rest, result := some (.ok ()) }
  | .removeEach (id :: ids) =>
    match m.find? id with
    | none => some { machine := m.setStack a (.removeEach ids :: rest) }
    | some p =>
        some { machine := (m.unregister id).setStack a (teardown p ++ .removeEach ids :: rest) }

/-- One actor does its next job. There is no step if it has none, or if it has to wait. -/
def step (m : Machine H) (a : ActorId) (answers : Answers H) : Option (Progress H) :=
  match m.stack a with
  | [] => none
  | job :: rest => m.perform a answers rest job

end Machine

end Playout
