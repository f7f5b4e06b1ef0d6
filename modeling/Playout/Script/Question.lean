import Playout.Script.Session

/-!
# Questions and single calls

Most steps either ask something, which leaves the session as it is, or make a single call.
-/

namespace Playout.Script.Session

/-- A reply about a presentation, if it exists. -/
def onLive (s : Session) (name : String) (f : Presentation platform → Reply) : Reply :=
  match (s.live? name).bind s.presentation? with
  | none => .dropped
  | some x => f x

/-- A reply about a stream, if there is a handle on it. -/
def onHandle (s : Session) (name : String) (f : Handle → Stream ScriptDecoder → Reply) : Reply :=
  match s.handle? name with
  | none => .noHandle
  | some h =>
    match s.stream? h with
    | none => .noHandle
    | some stream => f h stream

/-- The presentation of a stream, if it exists. -/
def home? (s : Session) (h : Handle) : Option (Presentation platform) :=
  if s.machine.alive h.presentation then s.presentation? h.presentation else none

/-- The reply to a step that is a question. -/
def question? (s : Session) : Step → Option Reply
  | .find name id =>
    match s.machine.find? id with
    | none => some .absent
    | some p => some (.found id (s.key? name == some p))
  | .get id =>
    match s.machine.get id with
    | .error e => some (.failed (.session e))
    | .ok p => some (((s.presentation? p).map fun x => Reply.text x.id.text).getD .dropped)
  | .ids => some (.texts ((s.machine.ids.map (·.text)).mergeSort fun x y => !(y < x)))
  | .len => some (.size s.machine.size)
  | .config => some (.text (JsonForm.write s.machine.config))
  | .backends => some (.backends s.machine.decoders.names s.machine.outputs.names)
  | .major name => some (s.onHandle name fun h stream =>
    match s.home? h with
    | none => .text MajorType.unknown.name
    | some x => .text (x.streamMajorType stream.id).name)
  | .streamEos name => some (s.onHandle name fun h stream =>
    .flag ((s.home? h).any (·.streamEos stream.id)))
  | .hasDecoder name => some (s.onHandle name fun _ stream => .flag stream.hasDecoder)
  | .streamId name => some (s.onHandle name fun _ stream => .number stream.id.toNat)
  | .streamDebug name => some (s.onHandle name fun _ stream => .text stream.debug)
  | .queued name id => some (s.onLive name fun x => .number (x.queuedSamples id))
  | .streamIds name => some (s.onLive name fun x => .numbers x.streamIds)
  | .running name => some (s.onLive name fun x => .running x.state)
  | .debug name => some (s.onLive name fun x => .text x.debug)
  | _ => none

/-- Jobs on a presentation, if it exists. -/
def jobsOn (s : Session) (name : String) (jobs : Key → List (Job platform)) :
    Except Reply (List (Job platform)) :=
  match s.live? name with
  | none => .error .dropped
  | some p => .ok (jobs p)

/-- Jobs on a stream, if there is a handle on it. -/
def jobsThrough (s : Session) (name : String) (call : Handle → Call platform) :
    Except Reply (List (Job platform)) :=
  match s.handle? name with
  | none => .error .noHandle
  | some h => .ok (call h).jobs

/-- The jobs of letting go of a presentation. One that no longer exists is not missed. -/
def jobsOfLettingGo (s : Session) (name : String) : Except Reply (List (Job platform)) :=
  match s.live? name with
  | none => .error .done
  | some p => .ok (Call.letGo p).jobs

/-- The jobs of a step that is a single call, or the reply if there is nothing to make
the call on. -/
def jobs? (s : Session) : Step → Option (Except Reply (List (Job platform)))
  | .remove id => some (.ok (Call.remove id).jobs)
  | .shutdown => some (.ok Call.shutdown.jobs)
  | .setFormat name decoder media => some (s.jobsThrough name (.setFormat · decoder media))
  | .push name chunk => some (s.jobsThrough name (.push · chunk))
  | .endStream name => some (s.jobsThrough name .endStream)
  | .removeStream name id => some (s.jobsOn name fun p => (Call.removeStream p id).jobs)
  | .removeStreams name => some (s.jobsOn name fun p => (Call.removeStreams p).jobs)
  | .setGeometry name output => some (s.jobsOn name fun p => (Call.setGeometry p output).jobs)
  | .setAudioDevice name backend device =>
    some (s.jobsOn name fun p => (Call.setAudioDevice p backend device).jobs)
  | .start name => some (s.jobsOn name fun p => (Call.start p).jobs)
  | .stop name => some (s.jobsOn name fun p => (Call.stop p).jobs)
  | .flush name => some (s.jobsOn name fun p => (Call.flush p).jobs)
  | .letGo name => some (s.jobsOfLettingGo name)
  | .openAudio name => some (s.jobsOn name Part.openSink.jobs)
  | .releaseAudio name => some (s.jobsOn name Part.releaseSink.jobs)
  | .drainAudio name => some (s.jobsOn name Part.drainSink.jobs)
  | .runInline name => some (s.jobsOn name Part.body.jobs)
  | _ => none

end Playout.Script.Session
