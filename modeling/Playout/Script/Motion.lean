import Playout.Script.Session

/-!
# Moving a session's machine

One actor at a time does its next job, and what the stand-ins see of it is recorded. An actor goes
on until it has to wait or sleeps, and time passes only when everyone waits or sleeps.
-/

namespace Playout.Script.Session

/-- The presentation that an actor's next job is about. -/
def subject (s : Session) (a : ActorId) : Key :=
  match s.machine.stack a with
  | .at p _ :: _ => p
  | _ => 0

def height (s : Session) (a : ActorId) : Nat :=
  (s.machine.stack a).length

/-- One step of the machine. -/
def step? (s : Session) (a : ActorId) : Option (Session × Progress platform) :=
  (s.machine.step a (s.answers (s.subject a))).map fun progress =>
    let s := { s with machine := progress.machine }
    (progress.effects.foldl (fun s (p, e) => s.observe p e) s, progress)

/-- Everything that an actor is doing is broken off. -/
def breakOff (s : Session) (a : ActorId) : Session :=
  { s with machine := s.machine.unwind a }

/-- The sample that selection would release. -/
def release? (s : Session) (p : Key) (pacing : Pacing) : Option (Schedule.Release AckMode) :=
  (s.presentation? p).bind fun x =>
    (x.select (s.machine.surroundings host p (s.answers p)) pacing).1

/-- A playback thread has nothing to release. -/
def isResting (s : Session) (a : ActorId) : Bool :=
  match s.machine.stack a with
  | .at p (.playback .resting) :: _ =>
    match s.presentation? p with
    | none => true
    | some x => !x.lifecycle.exitRequested && (s.release? p .paced).isNone
  | _ => false

/-- The step that an actor makes a call for. -/
def errand? (s : Session) (a : ActorId) : Option Errand :=
  s.errands.find? (·.actor == a)

/-- The call has come to an end. -/
def isDone (s : Session) (e : Errand) : Bool :=
  s.height e.actor ≤ e.height

/-- An actor can go on without time passing. -/
def canMove (s : Session) (a : ActorId) : Bool :=
  (s.errand? a).any s.isDone || (!s.isResting a && (s.step? a).isSome)

/-- Who goes on: an actor that is at it as long as it can, then the first that can. -/
def next? (s : Session) (a : ActorId) : Option ActorId :=
  (a :: List.range s.machine.actors.length).find? s.canMove

/-- When an actor that sleeps is due. -/
def wake? (s : Session) (a : ActorId) : Option Nat :=
  match s.machine.stack a with
  | .at _ (.pollSink _ wake) :: _ => some wake
  | _ => none

/-- Time passes until the first of those who sleep is due. -/
def passTime? (s : Session) : Option Session :=
  match ((List.range s.machine.actors.length).filterMap s.wake?).min? with
  | none => none
  | some wake =>
    if h : s.clock.nanos < wake ∧ wake < Instant.limit then
      some { s with clock := ⟨wake, h.2⟩ }
    else none

/-- The resources of presentations that have ceased to exist are released. -/
def reclaim (s : Session) (a : ActorId) : Session :=
  (List.range s.machine.presentations.length).foldl (fun s p =>
    if s.machine.alive p then s
    else
      match s.presentation? p with
      | none => s
      | some x =>
        if x.sink.isNone && x.handles.isEmpty && x.queues.isEmpty && x.unheldDecoders.isEmpty then s
        else
          match { s with machine := s.machine.invoke a [.at p .reclaim] }.step? a with
          | none => s
          | some (s, _) => s) s

/-- Takes the next sample of a presentation out of its queue, to be dispatched later. -/
def takeSample (s : Session) (p : Key) (pacing : Pacing) : Session × Reply :=
  match s.presentation? p, s.release? p pacing with
  | some x, some r =>
    let presentations := s.machine.presentations.set p (x.afterRelease r)
    ({ s with
        machine := { s.machine with presentations }
        inFlight := s.inFlight ++ [r.selected] }, .selection (some r.selected))
  | _, _ => (s, .selection none)

end Playout.Script.Session
