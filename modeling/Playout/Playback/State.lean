import Playout.Json.Form

/-!
# The life of a playback thread

A presentation has at most one thread of its own at a time. The state says how far its current
thread, or the last one, has got; the exit flag asks it to end; the slot holds the thread for
whoever waits for its end first. Whoever starts a thread puts it into the slot when it is already
running, and keeps the state locked until then.
-/

namespace Playout

inductive PlaybackState where
  /-- Never started. -/
  | idle
  /-- Releasing samples. -/
  | running
  /-- Asked to end after the end of a stream; playing out what is left. -/
  | draining
  /-- The thread has ended. -/
  | stopped
  deriving DecidableEq, Inhabited, Repr

namespace PlaybackState

/-- A thread exists. -/
def isActive : PlaybackState → Bool
  | .running => true
  | .draining => true
  | _ => false

def name : PlaybackState → String
  | .idle => "Idle"
  | .running => "Running"
  | .draining => "Draining"
  | .stopped => "Stopped"

def ofName? : String → Option PlaybackState
  | "Idle" => some .idle
  | "Running" => some .running
  | "Draining" => some .draining
  | "Stopped" => some .stopped
  | _ => none

instance : JsonForm PlaybackState where
  encode s := .text s.name
  decode j := j.choice?.bind ofName?

end PlaybackState

/-- Whoever acts on presentations: a thread of the host, or a playback thread. -/
abbrev ActorId := Nat

structure Lifecycle where
  state : PlaybackState
  exitRequested : Bool
  /-- The last thread started, until someone takes it to wait for its end. -/
  thread : Option ActorId
  /-- Who has started a thread and has yet to put it into the slot. The state is locked meanwhile.
  -/
  starter : Option ActorId
  deriving DecidableEq, Repr

namespace Lifecycle

def new : Lifecycle :=
  ⟨.idle, false, none, none⟩

def isActive (l : Lifecycle) : Bool :=
  l.state.isActive

/-- A new thread runs. The slot is as it was. -/
def spawn (l : Lifecycle) (starter : ActorId) : Lifecycle :=
  { l with state := .running, starter := some starter }

/-- The new thread is put into the slot. -/
def keepThread (l : Lifecycle) (thread : ActorId) : Lifecycle :=
  { l with thread := some thread, starter := none }

/-- An earlier request to end does not concern a thread that is started now. -/
def clearExit (l : Lifecycle) : Lifecycle :=
  { l with exitRequested := false }

def requestExit (l : Lifecycle) : Lifecycle :=
  { l with exitRequested := true }

def enter (l : Lifecycle) (state : PlaybackState) : Lifecycle :=
  { l with state := state }

/-- Whoever takes the thread waits for its end; the thread itself does not wait. -/
def takeThread (l : Lifecycle) : Lifecycle :=
  { l with thread := none }

end Lifecycle

end Playout
