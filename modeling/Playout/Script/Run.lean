import Playout.Script.Motion
import Playout.Script.Question

/-!
# Running a script

A step is answered at once, or a call is made for it and it goes on when the call has come to an
end. The host does the steps of the script, and whoever is in a callback those of a hook. After each
step of the script everyone moves until nobody can: then the step has its reply, and no playback
thread has anything left to release.

The fuel counts moves; it is more than any script can use up.
-/

namespace Playout.Script

/-- What a step comes to. -/
inductive Response where
  | replies (reply : Reply)
  | calls (jobs : List (Job platform)) (rest : Rest)

namespace Session

/-! ## Steps -/

/-- Binds a name to a new handle, after letting go of the handle it stands for. -/
def refer (s : Session) (name : String) (h : Handle) (reply : Reply) : Session × Response :=
  match s.handle? name with
  | none => (s.bindHandle name h, .replies reply)
  | some old => (s.dropHandle name, .calls (Call.forgetStream old).jobs (.bindHandle name h reply))

/-- Selects and dispatches samples, as many as there are and at most so many. -/
def tick (s : Session) (p : Key) (pacing : Pacing) (limit : Option Nat)
    (samples : List (StreamId × UInt32)) : Response :=
  match limit, s.release? p pacing with
  | some 0, _ => .replies (.ticks samples)
  | _, none => .replies (.ticks samples)
  | limit, some r =>
    .calls (Call.tick p pacing).jobs
      (.tick p pacing (limit.map (· - 1))
        (samples ++ [(r.selected.sample.streamId, r.selected.sample.sampleId)]))

/-- Begins a step that is about a presentation, if it exists. -/
def beginOn (s : Session) (name : String) (f : Key → Session × Response) : Session × Response :=
  match s.live? name with
  | none => (s, .replies .dropped)
  | some p => f p

/-- Begins a step that is neither a question nor a single call. -/
def beginOther (s : Session) : Step → Session × Response
  | .create name id mode =>
    (s, .calls (Call.create id).jobs (.bind name s.machine.presentations.length id mode))
  | .forget name =>
    match s.handle? name with
    | none => (s, .replies .done)
    | some h => (s.dropHandle name, .calls (Call.forgetStream h).jobs (.reply .done))
  | .createStream name id handle => s.beginOn name fun p =>
    let place := ((s.presentation? p).map (·.streams.length)).getD 0
    (s, .calls (Call.createStream p id).jobs (.refer handle ⟨p, place⟩ (.number id.toNat)))
  | .findStream name id handle => s.beginOn name fun p =>
    match (s.presentation? p).bind (·.findStream? id) with
    | none => (s, .replies .absent)
    | some place =>
      (s, .calls (Call.holdStream ⟨p, place⟩).jobs (.refer handle ⟨p, place⟩ (.number id.toNat)))
  | .depth name n =>
    match s.key? name with
    | none => (s, .replies .done)
    | some p => (s.setDepth p n, .replies .done)
  | .select name pacing => s.beginOn name fun p =>
    let (s, reply) := s.takeSample p pacing
    (s, .replies reply)
  | .dispatch name => s.beginOn name fun p =>
    match s.inFlight with
    | [] => (s, .replies .nothingSelected)
    | selected :: later =>
      ({ s with inFlight := later }, .calls ((Part.dispatch selected).jobs p) .result)
  | .tick name pacing limit => s.beginOn name fun p => (s, s.tick p pacing limit [])
  | .hook name point n steps =>
    match s.key? name with
    | none => (s, .replies .dropped)
    | some p => (s.arm ⟨p, point, n, steps⟩, .replies .done)
  | _ => (s, .replies .done)

/-- Begins a step. -/
def begin (s : Session) (step : Step) : Session × Response :=
  match s.question? step, s.jobs? step with
  | some reply, _ => (s, .replies reply)
  | none, some (.error reply) => (s, .replies reply)
  | none, some (.ok jobs) => (s, .calls jobs .result)
  | none, none => s.beginOther step

/-- Goes on with a step whose call has come to an end. A name that is bound anew lets go of what
it stood for. -/
def resume (s : Session) (result : Option (Except MediaError Unit)) : Rest → Session × Response
  | .reply reply => (s, .replies reply)
  | .bindHandle name h reply => (s.bindHandle name h, .replies reply)
  | .tick p pacing limit samples => (s, s.tick p pacing limit samples)
  | rest =>
    match result, rest with
    | some (.error e), _ => (s, .replies (.failed e))
    | _, .bind name p id mode =>
      let old := s.key? name
      let s := (s.addStage { name, mode, depth := 0, events := 0 }).bind name p
      match old with
      | none => (s, .replies (.text id.text))
      | some old => (s, .calls (Call.letGo old).jobs (.reply (.text id.text)))
    | _, .refer name h reply => s.refer name h reply
    | _, _ => (s, .replies .done)

/-! ## Moves -/

/-- An actor makes a call for a step. -/
def call (s : Session) (a : ActorId) (jobs : List (Job platform)) (rest : Rest)
    (recipient : Recipient) :
    Session :=
  { s with
    machine := s.machine.invoke a jobs
    errands := ⟨a, s.height a, none, rest, recipient⟩ :: s.errands }

/-- Does the steps of a hook, each with a log entry, up to one that needs a call. -/
def runHook (a : ActorId) (p : Key) : List (String × Step) → Session → Session
  | [], s => s
  | (name, .breakOff) :: _, s => (s.record p (.hook name none)).breakOff a
  | (name, step) :: later, s =>
    match s.begin step with
    | (s, .replies reply) => runHook a p later (s.record p (.hook name (some reply)))
    | (s, .calls jobs rest) => s.call a jobs rest (.hook p name later)

/-- Gives a reply to whom it is for, or makes the call that has to come first. -/
def respond (s : Session) (a : ActorId) (recipient : Recipient) : Response → Session
  | .calls jobs rest => s.call a jobs rest recipient
  | .replies reply =>
    match recipient with
    | .script => { s with reply := reply }
    | .hook p name later => runHook a p later (s.record p (.hook name (some reply)))

/-- Goes on with the step that an actor's last call was made for. -/
def finish (s : Session) (e : Errand) : Session :=
  let s := { s with errands := s.errands.eraseP (·.actor == e.actor) }
  let (s, response) := s.resume e.result e.rest
  s.respond e.actor e.recipient response

/-- Takes note of a result for the step that an actor's last call was made for. -/
def keepResult (s : Session) (a : ActorId) (result : Option (Except MediaError Unit)) : Session :=
  match s.errand? a with
  | none => s
  | some e =>
    { s with errands := { e with
                          result := result <|> e.result } :: s.errands.eraseP (·.actor == a) }

/-- The steps of a callback that has been broken off are given up. -/
def giveUp (s : Session) (a : ActorId) : Session :=
  { s with errands := s.errands.filter fun e =>
      e.actor != a || e.height ≤ s.height a }

/-- An actor does its next job, and begins the steps of a hook if the job led into its callback. -/
def work (s : Session) (a : ActorId) : Option Session :=
  match s.step? a with
  | none => none
  | some (s, progress) =>
    let s := (s.keepResult a progress.result).giveUp a
    match progress.effects with
    | [(p, e)] =>
      match s.hook? p e with
      | none => some s
      | some h => some ((runHook a p h.steps (s.disarm h)).giveUp a)
    | _ => some s

/-- One move of an actor. -/
def move? (s : Session) (a : ActorId) : Option Session :=
  match (s.errand? a).filter s.isDone with
  | some e => some ((s.finish e).giveUp a)
  | none => s.work a

def fuel : Nat := 0x1000000000000000

/-- Everyone moves until nobody can, beginning with an actor. -/
def settle : Nat → ActorId → Session → Session
  | 0, _, s => s
  | fuel + 1, a, s =>
    match s.next? a with
    | some b =>
      match s.move? b with
      | none => s
      | some s => settle fuel b s
    | none =>
      match s.passTime? with
      | none => s
      | some s => settle fuel a s

/-- Does a step of the script and lets everything come to rest. -/
def act (s : Session) (step : Step) : Session × Reply :=
  let (s, response) := s.begin step
  let s := (settle fuel host (s.respond host .script response)).reclaim host
  (s, s.reply)

end Session

end Playout.Script
