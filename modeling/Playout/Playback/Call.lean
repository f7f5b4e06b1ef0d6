import Playout.Playback.Machine

/-!
# Calls

The calls that a host can make, as the jobs they consist of. A call on a stream names the stream by
a handle: the presentation it was created in, and its place there.
-/

namespace Playout

/-- A host's reference to a stream. -/
structure Handle where
  presentation : Key
  place : Nat
  deriving DecidableEq, Repr

inductive Call (H : Platform) where
  | create (id : PresentationId)
  | remove (id : PresentationId)
  | shutdown
  /-- The host gives up its reference to a presentation. -/
  | letGo (p : Key)
  | createStream (p : Key) (s : StreamId)
  /-- The host keeps another reference to a stream. -/
  | holdStream (h : Handle)
  | forgetStream (h : Handle)
  | removeStream (p : Key) (s : StreamId)
  | removeStreams (p : Key)
  /-- Without a name the configured decoder is loaded. -/
  | setFormat (h : Handle) (decoder : Option String) (media : MediaType)
  | push (h : Handle) (chunk : Chunk H.Receiver)
  | endStream (h : Handle)
  | setGeometry (p : Key) (output : Rect)
  | setAudioDevice (p : Key) (backend device : Option String)
  | start (p : Key)
  | stop (p : Key)
  | flush (p : Key)
  /-- Releases and delivers one sample, if there is one to release. -/
  | tick (p : Key) (pacing : Pacing)

namespace Call

variable {H : Platform}

def jobs : Call H → List (Job H)
  | create id => [.create id]
  | remove id => [.remove id]
  | shutdown => [.shutdown]
  | letGo p => [.at p .letGo]
  | createStream p s => [.at p (.createStream s)]
  | holdStream h => [.at h.presentation (.holdStream h.place)]
  | forgetStream h => [.at h.presentation (.forgetStream h.place)]
  | removeStream p s => [.at p (.detachStream s)]
  | removeStreams p => [.at p .detachStreams, .at p .finish]
  | setFormat h decoder media => [.at h.presentation (.setFormat h.place decoder media)]
  | push h chunk => [.at h.presentation (.push h.place chunk)]
  | endStream h => [.at h.presentation (.endStream h.place)]
  | setGeometry p output => [.at p (.setGeometry output)]
  | setAudioDevice p backend device => [.at p (.setAudioDevice (.request backend device))]
  | start p => [.at p .start]
  | stop p => (Task.stop ++ [Task.finish]).map (.at p)
  | flush p => [.at p .clearQueues]
  | tick p pacing => [.at p (.tick pacing)]

end Call

/-- Single parts of a playback thread's work, for a host that does them itself while no
thread runs. -/
inductive Part (H : Platform) where
  | dispatch (selected : Selected H.Receiver)
  | openSink
  | releaseSink
  | drainSink
  /-- The whole body, with the exit already requested. -/
  | body

namespace Part

variable {H : Platform}

def tasks : Part H → List (Task H)
  | dispatch selected => [.dispatch selected]
  | openSink => [.openSink]
  | releaseSink => [.releaseSink]
  | drainSink => [.drainSink]
  | body => .requestExit :: Task.body

def jobs (part : Part H) (p : Key) : List (Job H) :=
  (part.tasks ++ [Task.finish]).map (.at p)

end Part

end Playout
