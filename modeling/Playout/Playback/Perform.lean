import Playout.Playback.Task

/-!
# Doing a task

`Presentation.perform` is the whole behaviour of a presentation: what each task does to it, what it
calls on the way, and what is left to be done.
-/

namespace Playout.Presentation

variable {H : Platform}

/-- The end of a call. -/
def returning (x : Presentation H) (result : Except MediaError Unit) (effects : List (Effect H)) :
    Outcome H :=
  .moves { presentation := x, effects, result := some result }

/-- One part of a call or of a thread's body. -/
def going (x : Presentation H) (next : List (Task H)) (effects : List (Effect H)) : Outcome H :=
  .moves { presentation := x, next, effects }

/-- A stream's handle finds no presentation. -/
def gone : MediaError :=
  .session (.invalidState "live presentation" "presentation dropped")

/-- The destruction of a decoder, if there is one. -/
def destroyed (d : Option (BoundDecoder H.Decoder)) : List (Effect H) :=
  d.toList.map fun d => .decoderDestroyed d.serial d.decoder

/-- Samples that are dropped, if there are any. -/
def dropped (samples : List (Sample H.Receiver)) : List (Effect H) :=
  if samples.isEmpty then [] else [.discarded samples]

/-- A call on the sink, if there is one. -/
def sinkCall (sink : Option (BoundSink H.Sink)) (call : SinkCall) : List (Effect H) :=
  sink.toList.map fun s => .sink s.serial call

/-- Loads a decoder for a stream. The one in use is destroyed when the new one has been made, and
also if there is no new one. -/
def loadDecoder (c : Surroundings H) (x : Presentation H) (place : Nat) (name : String)
    (media : MediaType) : Outcome H :=
  let old := x.boundDecoder? place
  let counted := { x with decodersMade := x.decodersMade + 1 }
  let serial := x.decodersMade
  match c.decoders.load H.decoderOps c.answers.createDecoder name media with
  | .failed e => (x.bindDecoder place none).returning (.error e) (destroyed old)
  | .refused d e =>
    (counted.bindDecoder place none).returning (.error e)
      (.decoderMade serial d :: .decoderDestroyed serial d :: destroyed old)
  | .ready d =>
    (counted.bindDecoder place (some ⟨serial, d⟩)).returning (.ok ())
      (.decoderMade serial d :: destroyed old)

/-- Decodes a chunk. What the decoder gives becomes a sample, also if it gives nothing. -/
def decode (x : Presentation H) (place : Nat) (s : StreamId) (chunk : Chunk H.Receiver) :
    Outcome H :=
  match x.boundDecoder? place with
  | none => x.returning (.error (.decoderNotConfigured s)) []
  | some bound =>
    match H.decoderOps.decode bound.decoder chunk.data chunk.flags with
    | (d, .error e) =>
        (x.bindDecoder place (some { bound with decoder := d })).returning (.error e) []
    | (d, .ok ()) =>
      let (d, payload) := H.decoderOps.take d
      let sample := Sample.new s chunk.receiver chunk.sampleId chunk.startTime chunk.endTime
        chunk.duration payload (H.decoderOps.pixelFormat d)
      (x.bindDecoder place (some { bound with decoder := d })).going [.enqueue sample] []

/-- The length of the sink's queue, if there is a sink. -/
def depth? (c : Surroundings H) (x : Presentation H) : Option Nat :=
  x.sink.map fun s => c.answers.queueLength s.sink

/-- The next sample, and the question that selection asks the sink. -/
def select (c : Surroundings H) (x : Presentation H) (pacing : Pacing) :
    Option (Schedule.Release H.Receiver) × List (Effect H) :=
  match pacing with
  | .paced =>
    (Schedule.select? c.config.audioQueueThreshold.toNat x.queues x.playbackTime (x.depth? c),
      if Schedule.asksDepth x.queues then (x.depth? c).toList.map .consulted else [])
  | .unpaced => (Schedule.selectUnpaced? x.queues x.playbackTime, [])

/-- The presentation after a release. -/
def afterRelease (x : Presentation H) (r : Schedule.Release H.Receiver) : Presentation H :=
  { x with queues := r.queues, playbackTime := r.time }

/-- Delivers a released sample: a frame to the display, audio to the sink, if they hold a payload.
In every case the sample is acknowledged afterwards. -/
def dispatch (c : Surroundings H) (x : Presentation H) (selected : Selected H.Receiver) :
    Outcome H :=
  let sample := selected.sample
  match selected.majorType, sample.payload with
  | .video, some payload =>
    let (stale, x) := x.beginFrame
    let frame : VideoFrame :=
      { payload, pixelFormat := sample.pixelFormat, frameWidth := selected.width,
        frameHeight := selected.height, output := x.output }
    x.going
      (stale.toList.map (fun region => .offer (.redraw region))
        ++ [.offer (.videoFrame frame), .acknowledge sample.takePayload.2]) []
  | .audio, some payload =>
    match x.sink with
    | some s =>
      x.going [.acknowledge sample.takePayload.2]
        [.sink s.serial (.play payload (c.answers.play s.sink payload))]
    | none => x.going [.acknowledge sample] []
  | _, _ => x.going [.acknowledge sample] []

/-- Opens the audio sink, if the audio format is complete and a backend is named. A sink that
was left open is released when the new one is ready. If no sink can be opened, everything
stays as it is. -/
def openSink (c : Surroundings H) (x : Presentation H) : Outcome H :=
  if !x.audioFormat.isComplete then x.going [] []
  else
    match x.audioBackend? c.config with
    | none => x.going [] []
    | some backend =>
      let serial := x.sinksOpened
      let (opened, calls) :=
        c.outputs.openSink c.answers.sinks backend x.audioDevice.device x.audioFormat
      let x := { x with sinksOpened := serial + 1 }
      let effects := calls.map (Effect.sink serial)
      match opened with
      | .error _ => x.going [] effects
      | .ok sink =>
        { x with sink := some ⟨serial, sink⟩ }.going [] (effects ++ sinkCall x.sink .release)

/-- Asks the sink once whether it has played out its queue. -/
def pollSink (c : Surroundings H) (x : Presentation H) (deadline : Instant) (wake : Nat) :
    Outcome H :=
  if c.answers.clock.nanos < wake then .waits
  else
    match x.depth? c with
    | none => x.going [] []
    | some 0 => x.going [] [.consulted 0]
    | some depth =>
      if deadline ≤ c.answers.clock then x.going [] [.consulted depth]
      else
        let wake := c.answers.clock.nanos + c.config.audioDrainPollInterval.nanos
        x.going [.pollSink deadline wake] [.consulted depth]

/-- One step of the playback thread. -/
def playback (c : Surroundings H) (x : Presentation H) : Phase → Outcome H
  | .polling => x.going [.playback (if x.lifecycle.exitRequested then .leaving else .choosing)] []
  | .choosing =>
    match x.select c .paced with
    | (none, effects) => x.going [.playback .resting] effects
    | (some r, effects) =>
      (x.afterRelease r).going [.dispatch r.selected, .playback .polling]
        (effects ++ [.released r.selected])
  | .resting => x.going [.playback .polling] []
  | .leaving => x.going [.playback (if x.eos then .turning else .closing)] []
  | .turning => if x.isStarting then .waits else (x.enter .draining).going [.playback .draining] []
  | .draining =>
    match x.select c .unpaced with
    | (none, effects) => x.going [.drainSink, .playback .closing] effects
    | (some r, effects) =>
      (x.afterRelease r).going [.dispatch r.selected, .playback .draining]
        (effects ++ [.released r.selected])
  | .closing => x.going [.releaseSink, .playback .ending] []
  | .ending => if x.isStarting then .waits else (x.enter .stopped).going [] []

/-- The streams that no handle of the host reaches. -/
def unheldDecoders (x : Presentation H) : List (BoundDecoder H.Decoder) :=
  (x.streams.filter (·.holders == 0)).filterMap (·.decoder)

/-- The presentation ceases to exist. Its sink is released, and so are the decoders of the streams
that nobody holds. -/
def reclaim (x : Presentation H) : Outcome H :=
  let detached := x.detachStreams
  let streams := x.streams.map fun s => if s.holders == 0 then { s with decoder := none } else s
  { detached.presentation with sink := none, streams := streams }.returning (.ok ())
    (dropped detached.discarded ++ sinkCall x.sink .release
      ++ x.unheldDecoders.flatMap fun d => destroyed (some d))

/-- The host gives up one handle on a stream. The decoder goes with the last handle, unless the
stream is registered in a presentation that exists. -/
def forgetStream (x : Presentation H) (alive : Bool) (place : Nat) : Outcome H :=
  let x := { x with streams := x.streams.modify place fun s => { s with holders := s.holders - 1 } }
  let held := x.streams[place]?.any fun s => s.holders != 0
  let registered := alive && x.handles.any fun (_, other) => other == place
  if held || registered then x.returning (.ok ()) []
  else (x.bindDecoder place none).returning (.ok ()) (destroyed (x.boundDecoder? place))

/-- Does something through a handle, if the presentation exists. -/
def throughHandle (c : Surroundings H) (x : Presentation H) (place : Nat)
    (f : StreamId → Outcome H) : Outcome H :=
  match c.alive, x.streams[place]? with
  | true, some s => f s.id
  | _, _ => x.returning (.error gone) []

/-- Starts a thread, unless there is one. If that fails, everything has been made ready for it. -/
def start (c : Surroundings H) (x : Presentation H) : Outcome H :=
  if x.isStarting then .waits
  else if x.isRunning then x.returning (.ok ()) []
  else
    match c.answers.spawn with
    | .error text => x.rewind.returning (.error (.system text)) []
    | .ok () =>
      .moves
        { presentation := x.spawn c.self
          next := [.keepThread c.fresh]
          spawned := [Task.body] }

/-- Does a task. -/
def perform (c : Surroundings H) (x : Presentation H) : Task H → Outcome H
  | .createStream s =>
    match x.createStream s with
    | .error e => x.returning (.error e) []
    | .ok x => x.returning (.ok ()) []
  | .holdStream place =>
    { x with streams := x.streams.modify place fun s => { s with
                                                          holders := s.holders + 1 } }.returning
      (.ok ()) []
  | .forgetStream place => x.forgetStream c.alive place
  | .detachStream s =>
    match x.detachStream s with
    | .error e => x.returning (.error e) []
    | .ok d => d.presentation.going [.releaseDecoders d.places, .finish] (dropped d.discarded)
  | .detachStreams =>
    let d := x.detachStreams
    d.presentation.going [.releaseDecoders d.places] (dropped d.discarded)
  | .releaseDecoders [] => x.going [] []
  | .releaseDecoders (place :: places) =>
    (x.bindDecoder place none).going [.releaseDecoders places] (destroyed (x.boundDecoder? place))
  | .setFormat place decoder media =>
    x.throughHandle c place fun s =>
      match x.configure s media with
      | .error e => x.returning (.error e) []
      | .ok x => x.going [.loadDecoder place (decoder.getD c.config.defaultDecoder) media] []
  | .loadDecoder place name media => x.loadDecoder c place name media
  | .push place chunk => x.throughHandle c place fun s => x.decode place s chunk
  | .enqueue sample =>
    match x.enqueue sample with
    | .error e => x.returning (.error e) []
    | .ok x => x.returning (.ok ()) [.queued sample]
  | .endStream place =>
    x.throughHandle c place fun s =>
      match x.endStream s with
      | .error e => x.returning (.error e) []
      | .ok x => x.returning (.ok ()) []
  | .setGeometry output => (x.setGeometry output).returning (.ok ()) []
  | .setAudioDevice device => (x.setAudioDevice device).returning (.ok ()) []
  | .start => x.start c
  | .keepThread thread => (x.keepThread thread).returning (.ok ()) []
  | .requestExit => x.requestExit.going [] []
  | .inspectThread =>
    if x.lifecycle.thread == some c.self then x.going [] []
    else
      { x with lifecycle := x.lifecycle.takeThread }.going [.awaitStopped x.lifecycle.thread] []
  | .awaitStopped thread =>
    if x.isRunning then .waits else x.going (thread.toList.map .join) []
  | .join thread => if c.hasEnded thread then x.going [] [] else .waits
  | .repaint =>
    let (region, x) := x.takeLastRendered
    x.going (region.toList.map fun region => .offer (.redraw region)) []
  | .clearQueues => x.clearQueues.going [.flushSink] (dropped (x.queues.flatMap (·.samples)))
  | .flushSink => x.returning (.ok ()) (sinkCall x.sink .flush)
  | .letGo => { x with held := false }.returning (.ok ()) []
  | .reclaim => if c.alive then x.returning (.ok ()) [] else x.reclaim
  | .tick pacing =>
    match x.select c pacing with
    | (none, effects) => x.returning (.ok ()) effects
    | (some r, effects) =>
      (x.afterRelease r).going [.dispatch r.selected, .finish] (effects ++ [.released r.selected])
  | .dispatch selected => x.dispatch c selected
  | .offer event => x.going [.callback] [.offered event (c.answers.deliver event)]
  | .acknowledge sample =>
    x.going [.callback]
      [.acknowledged sample.receiver sample.sampleId sample.duration sample.dataSize]
  | .callback => x.going [] []
  | .openSink => x.openSink c
  | .releaseSink => { x with sink := none }.going [] (sinkCall x.sink .release)
  | .drainSink =>
    match c.answers.clock.add? c.config.audioDrainTimeout with
    | none => if x.isStarting then .waits else .unwinds
    | some deadline => x.going [.pollSink deadline 0] []
  | .pollSink deadline wake => x.pollSink c deadline wake
  | .playback phase => x.playback c phase
  | .finish => x.returning (.ok ()) []

end Playout.Presentation
