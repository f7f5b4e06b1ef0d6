import Playout.Proofs.Playback.Standing
import Playout.Proofs.Presentation.Queues

/-!
# What the tasks of calls do

`Conduct` says all that a task can come to that is not a duty and launches no thread: what changes
in the presentation, what is left to be done, and what is called on the way. Most tasks change
nothing that a playback thread goes by. What the others do to the queues, to the lifecycle and to
the screen is read off `Conduct`, and no later argument looks at the tasks themselves.
-/

namespace Playout

variable {H : Platform}

namespace Task

def isSteering : Task H → Bool
  | .start => true
  | .keepThread _ => true
  | .requestExit => true
  | .inspectThread => true
  | .awaitStopped _ => true
  | .join _ => true
  | .repaint => true
  | _ => false

def isOffer : Task H → Bool
  | .offer _ => true
  | _ => false

end Task

namespace Presentation

def launches (c : Surroundings H) (x : Presentation H) : Bool :=
  !x.isStarting && !x.isRunning && c.answers.spawn.isOk

theorem launches_iff {c : Surroundings H} {x : Presentation H} :
    x.launches c ↔ x.isStarting = false ∧ x.isRunning = false ∧ c.answers.spawn = .ok () := by
  cases hspawn : c.answers.spawn <;> simp [launches, hspawn, Except.isOk, Except.toBool]

/-- There is a thread already, or the system has none to give, or a thread is launched. -/
theorem start_cases {c : Surroundings H} {x : Presentation H} {move : Move H}
    (h : x.perform c .start = .moves move) :
    x.isRunning ∧ move = { presentation := x, result := some (.ok ()) } ∨
      (∃ text, c.answers.spawn = .error text ∧ x.isRunning = false ∧
        move = { presentation := x.rewind, result := some (.error (.system text)) }) ∨
      x.launches c ∧
        move = { presentation := x.spawn c.self, next := [.keepThread c.fresh]
                 spawned := [Task.body] } := by
  simp only [perform, start] at h
  cases hstarting : x.isStarting with
  | true => simp [hstarting] at h
  | false =>
      cases hrunning : x.isRunning with
      | true =>
          simp only [hstarting, hrunning] at h
          cases h
          exact .inl ⟨rfl, rfl⟩
      | false =>
          cases hspawn : c.answers.spawn with
          | error text =>
              simp only [hstarting, hrunning, hspawn] at h
              cases h
              exact .inr (.inl ⟨text, rfl, rfl, rfl⟩)
          | ok =>
              simp only [hstarting, hrunning, hspawn] at h
              cases h
              exact .inr (.inr ⟨launches_iff.mpr ⟨hstarting, hrunning, hspawn⟩, rfl⟩)

/-- Nothing has changed that a playback thread goes by. -/
structure Kept (x y : Presentation H) : Prop where
  queues : y.queues = x.queues
  handles : y.handles = x.handles
  playbackTime : y.playbackTime = x.playbackTime
  eos : y.eos = x.eos
  output : y.output = x.output
  lastRendered : y.lastRendered = x.lastRendered
  sink : y.sink = x.sink
  sinksOpened : y.sinksOpened = x.sinksOpened
  lifecycle : y.lifecycle = x.lifecycle

namespace Kept

variable {x y : Presentation H}

theorem refl (x : Presentation H) : x.Kept x := by
  constructor <;> rfl

/-- A thread does not go by what the handles on the streams hold. -/
theorem streams (x : Presentation H) (made : Nat) (streams : List (Stream H.Decoder)) :
    x.Kept { x with decodersMade := made, streams := streams } := by
  constructor <;> rfl

theorem state (h : x.Kept y) : y.state = x.state :=
  congrArg Lifecycle.state h.lifecycle

end Kept

end Presentation

open Presentation in
/-- What can come of a task that is not a duty and launches no thread. -/
inductive Conduct (c : Surroundings H) (x : Presentation H) : Task H → Outcome H → Prop where
  | waits {task} : Conduct c x task .waits
  /-- The call is over, or it has failed. -/
  | plain {task y result effects} : task.isSteering = false → task.isOffer = false → x.Kept y →
      (∀ e ∈ effects, e.isDecoding) → Conduct c x task (y.returning result effects)
  | skip {task} : task.isSteering = false → task.isOffer = false → Conduct c x task (x.going [] [])
  | releaseDecoder {place places y} : x.Kept y →
      Conduct c x (.releaseDecoders (place :: places))
        (y.going [.releaseDecoders places] (destroyed (x.boundDecoder? place)))
  | decode {place chunk sample y} : x.Kept y →
      Conduct c x (.push place chunk) (y.going [.enqueue sample] [])
  | enqueue {sample pre q post} : x.queues = pre ++ q :: post →
      (∀ p ∈ pre, p.id ≠ sample.streamId) →
      q.id = sample.streamId →
      Conduct c x (.enqueue sample)
        (returning { x with
                     queues := pre ++ { q with samples := q.samples ++ [sample] } :: post } (.ok ())
          [.queued sample])
  | createStream {s place streams} : x.findStream? s = none →
      Conduct c x (.createStream s)
        (returning
          { x with
            queues := x.queues ++ [.new s]
            handles := x.handles ++ [(s, place)]
            streams := streams }
          (.ok ()) [])
  | detachStream {s place} : x.findStream? s = some place →
      Conduct c x (.detachStream s)
        (going
          { x with
            queues := x.queues.filter (·.id != s)
            handles := x.handles.filter (·.1 != s) }
          [.releaseDecoders [place], .finish] (dropped (((x.queue? s).map (·.samples)).getD [])))
  | detachStreams {places} :
      Conduct c x .detachStreams
        (going { x with queues := [], handles := [] } [.releaseDecoders places]
          (dropped (x.queues.flatMap (·.samples))))
  | setFormat {place decoder media name pre q q' post format} : x.queues = pre ++ q :: post →
      q'.id = q.id → q'.samples = q.samples →
      Conduct c x (.setFormat place decoder media)
        (going { x with queues := pre ++ q' :: post, audioFormat := format }
          [.loadDecoder place name media] [])
  | endStream {place pre q post} : x.queues = pre ++ q :: post →
      Conduct c x (.endStream place)
        (returning { x with
                     queues := pre ++ { q with eos := true } :: post, eos := true } (.ok ()) [])
  | setGeometry {output} : Conduct c x (.setGeometry output)
      ((x.setGeometry output).returning (.ok ()) [])
  | clearQueues :
      Conduct c x .clearQueues
        (x.clearQueues.going [.flushSink] (dropped (x.queues.flatMap (·.samples))))
  | flushSink : Conduct c x .flushSink (x.returning (.ok ()) (sinkCall x.sink .flush))
  | reclaim {streams effects} : c.alive = false → (∀ e ∈ effects, e.isDecoding) →
      Conduct c x .reclaim
        (returning { x with queues := [], handles := [], sink := none, streams := streams } (.ok ())
          (dropped (x.queues.flatMap (·.samples)) ++ (sinkCall x.sink .release ++ effects)))
  | already : x.isRunning → Conduct c x .start (x.returning (.ok ()) [])
  /-- There was no thread, and the system has none to give. -/
  | fail {text} : x.isStarting = false → x.isRunning = false → c.answers.spawn = .error text →
      Conduct c x .start (x.rewind.returning (.error (.system text)) [])
  | keep {thread} : Conduct c x (.keepThread thread) ((x.keepThread thread).returning (.ok ()) [])
  | request : Conduct c x .requestExit (x.requestExit.going [] [])
  /-- The thread does not wait for itself. -/
  | own : x.lifecycle.thread = some c.self → Conduct c x .inspectThread (x.going [] [])
  | take : x.lifecycle.thread ≠ some c.self →
      Conduct c x .inspectThread
        (going { x with lifecycle := x.lifecycle.takeThread } [.awaitStopped x.lifecycle.thread] [])
  | stopped {thread} : x.isRunning = false →
      Conduct c x (.awaitStopped thread) (x.going (thread.toList.map .join) [])
  | joined {thread} : c.hasEnded thread → Conduct c x (.join thread) (x.going [] [])
  | bare : x.lastRendered.isEmpty → Conduct c x .repaint (x.going [] [])
  | cover : x.lastRendered.isEmpty = false →
      Conduct c x .repaint
        (going { x with lastRendered := .zero } [.offer (.redraw x.lastRendered)] [])
  | offer {region result} :
      Conduct c x (.offer (.redraw region)) (x.going [.callback] [.offered (.redraw region) result])

namespace Conduct

variable {c : Surroundings H} {x : Presentation H} {task : Task H}

theorem error (hsteering : task.isSteering = false) (hoffer : task.isOffer = false)
    (e : MediaError) :
    Conduct c x task (x.returning (.error e) []) :=
  .plain hsteering hoffer (.refl x) (by simp)

/-- What goes through a handle that reaches nothing ends in an error. -/
theorem throughHandle {place : Nat} {f : StreamId → Outcome H} (hsteering : task.isSteering = false)
    (hoffer : task.isOffer = false) (h : ∀ s, Conduct c x task (f s)) :
    Conduct c x task (x.throughHandle c place f) := by
  unfold Presentation.throughHandle
  split
  · exact h _
  · exact error hsteering hoffer _

theorem perform_createStream (s : StreamId) :
    Conduct c x (.createStream s) (x.perform c (.createStream s)) := by
  simp only [Presentation.perform, Presentation.createStream]
  cases hs : x.findStream? s with
  | none => exact .createStream hs
  | some place => exact error rfl rfl _

theorem perform_detachStream (s : StreamId) :
    Conduct c x (.detachStream s) (x.perform c (.detachStream s)) := by
  simp only [Presentation.perform, Presentation.detachStream]
  cases hs : x.findStream? s with
  | none => exact error rfl rfl _
  | some place => exact .detachStream hs

theorem perform_forgetStream (place : Nat) :
    Conduct c x (.forgetStream place) (x.perform c (.forgetStream place)) := by
  simp only [Presentation.perform, Presentation.forgetStream]
  split
  · exact .plain rfl rfl (.streams x _ _) (by simp)
  · exact .plain rfl rfl (.streams x _ _) (Presentation.destroyed_decoding _)

theorem perform_setFormat (place : Nat) (decoder : Option String) (media : MediaType) :
    Conduct c x (.setFormat place decoder media)
      (x.perform c (.setFormat place decoder media)) := by
  simp only [Presentation.perform]
  refine throughHandle rfl rfl fun s => ?_
  cases hy : x.configure s media with
  | error e => exact error rfl rfl _
  | ok y =>
      obtain ⟨pre, q, post, hsplit, -, -, rfl⟩ := Presentation.configure_eq_ok hy
      exact .setFormat hsplit rfl rfl

theorem perform_loadDecoder (place : Nat) (name : String) (media : MediaType) :
    Conduct c x (.loadDecoder place name media) (x.perform c (.loadDecoder place name media)) := by
  simp only [Presentation.perform, Presentation.loadDecoder]
  split
  · exact .plain rfl rfl (.streams x _ _) (Presentation.destroyed_decoding _)
  · refine .plain rfl rfl (.streams x _ _) ?_
    simpa [Effect.isDecoding] using Presentation.destroyed_decoding _
  · refine .plain rfl rfl (.streams x _ _) ?_
    simpa [Effect.isDecoding] using Presentation.destroyed_decoding _

theorem perform_push (place : Nat) (chunk : Chunk H.Receiver) :
    Conduct c x (.push place chunk) (x.perform c (.push place chunk)) := by
  simp only [Presentation.perform]
  refine throughHandle rfl rfl fun s => ?_
  unfold Presentation.decode
  split
  · exact error rfl rfl _
  · split
    · exact .plain rfl rfl (.streams x _ _) (by simp)
    · exact .decode (.streams x _ _)

theorem perform_enqueue (sample : Sample H.Receiver) :
    Conduct c x (.enqueue sample) (x.perform c (.enqueue sample)) := by
  simp only [Presentation.perform]
  cases hy : x.enqueue sample with
  | error e => exact error rfl rfl _
  | ok y =>
      obtain ⟨pre, q, post, hsplit, hpre, hid, rfl⟩ := Presentation.enqueue_eq_ok hy
      exact .enqueue hsplit hpre hid

theorem perform_endStream (place : Nat) :
    Conduct c x (.endStream place) (x.perform c (.endStream place)) := by
  simp only [Presentation.perform]
  refine throughHandle rfl rfl fun s => ?_
  cases hy : x.endStream s with
  | error e => exact error rfl rfl _
  | ok y =>
      obtain ⟨pre, q, post, hsplit, -, -, rfl⟩ := Presentation.endStream_eq_ok hy
      exact .endStream hsplit

theorem perform_start (hstart : x.launches c = false) :
    Conduct c x .start (x.perform c .start) := by
  simp only [Presentation.perform, Presentation.start]
  cases hstarting : x.isStarting with
  | true => exact .waits
  | false =>
      cases hrunning : x.isRunning with
      | true => exact .already hrunning
      | false =>
          cases hspawn : c.answers.spawn with
          | error text => exact .fail hstarting hrunning hspawn
          | ok =>
              rw [Presentation.launches_iff.mpr ⟨hstarting, hrunning, hspawn⟩] at hstart
              cases hstart

theorem perform_reclaim : Conduct c x .reclaim (x.perform c .reclaim) := by
  simp only [Presentation.perform]
  split
  · exact .plain rfl rfl (.refl x) (by simp)
  · rename_i hgone
    unfold Presentation.reclaim
    dsimp only
    rw [List.append_assoc]
    refine .reclaim (by simpa using hgone) fun e he => ?_
    obtain ⟨d, -, he⟩ := List.mem_flatMap.mp he
    exact Presentation.destroyed_decoding _ e he

end Conduct

/-- Everything that a task can come to that is not a duty and launches no thread. -/
theorem Presentation.perform_conduct {c : Surroundings H} {x : Presentation H} {task : Task H}
    (hfree : task.isDuty = false) (hstart : task = .start → x.launches c = false) :
    Conduct c x task (x.perform c task) := by
  cases task with
  | createStream s => exact .perform_createStream s
  | holdStream place => exact .plain rfl rfl (.streams x _ _) (by simp)
  | forgetStream place => exact .perform_forgetStream place
  | detachStream s => exact .perform_detachStream s
  | detachStreams => exact .detachStreams
  | releaseDecoders places =>
      cases places with
      | nil => exact .skip rfl rfl
      | cons place places => exact .releaseDecoder (.streams x _ _)
  | setFormat place decoder media => exact .perform_setFormat place decoder media
  | loadDecoder place name media => exact .perform_loadDecoder place name media
  | push place chunk => exact .perform_push place chunk
  | enqueue sample => exact .perform_enqueue sample
  | endStream place => exact .perform_endStream place
  | setGeometry output => exact .setGeometry
  | setAudioDevice device => exact .plain rfl rfl (by constructor <;> rfl) (by simp)
  | start => exact .perform_start (hstart rfl)
  | keepThread thread => exact .keep
  | requestExit => exact .request
  | inspectThread =>
      simp only [perform]
      split
      · rename_i hself
        exact .own (by simpa using hself)
      · rename_i hother
        exact .take (by simpa using hother)
  | awaitStopped thread =>
      simp only [perform]
      split
      · exact .waits
      · rename_i hidle
        exact .stopped (by simpa using hidle)
  | join thread =>
      simp only [perform]
      split
      · rename_i hended
        exact .joined hended
      · exact .waits
  | repaint =>
      simp only [perform, takeLastRendered]
      split
      · rename_i hempty
        exact .bare hempty
      · rename_i hframe
        exact .cover (by simpa using hframe)
  | clearQueues => exact .clearQueues
  | flushSink => exact .flushSink
  | letGo => exact .plain rfl rfl (by constructor <;> rfl) (by simp)
  | reclaim => exact .perform_reclaim
  | offer event =>
      cases event with
      | videoFrame frame => simp [Task.isDuty] at hfree
      | redraw region => exact .offer
  | callback => exact .skip rfl rfl
  | finish => exact .plain rfl rfl (.refl x) (by simp)
  | _ => simp [Task.isDuty] at hfree

namespace Conduct

variable {c : Surroundings H} {x : Presentation H} {task : Task H} {move : Move H}

/-- Only a start that finds no thread and a release set the playback time. -/
theorem playbackTime_eq (h : Conduct c x task (.moves move))
    (hstart : task = .start → x.isRunning) :
    move.presentation.playbackTime = x.playbackTime := by
  generalize ho : Outcome.moves move = o at h
  cases h with
  | waits => cases ho
  | plain _ _ hkept =>
      cases ho
      exact hkept.playbackTime
  | releaseDecoder hkept =>
      cases ho
      exact hkept.playbackTime
  | decode hkept =>
      cases ho
      exact hkept.playbackTime
  | fail _ hidle =>
      rw [hstart rfl] at hidle
      cases hidle
  | _ =>
      cases ho
      rfl

theorem eq_rewind_of_start (h : Conduct c x .start (.moves move)) (hidle : x.isRunning = false) :
    move.presentation = x.rewind := by
  generalize ho : Outcome.moves move = o at h
  cases h with
  | already hrunning =>
      rw [hidle] at hrunning
      cases hrunning
  | fail =>
      cases ho
      rfl
  | waits => cases ho
  | plain hsteering => cases hsteering
  | skip hsteering => cases hsteering

/-- Only one call changes where video is to be drawn. -/
theorem output_eq (h : Conduct c x task (.moves move))
    (hsettings : ∀ output, task ≠ .setGeometry output) :
    move.presentation.output = x.output := by
  generalize ho : Outcome.moves move = o at h
  cases h with
  | waits => cases ho
  | plain _ _ hkept =>
      cases ho
      exact hkept.output
  | releaseDecoder hkept =>
      cases ho
      exact hkept.output
  | decode hkept =>
      cases ho
      exact hkept.output
  | setGeometry => exact absurd rfl (hsettings _)
  | _ =>
      cases ho
      rfl

theorem dropped_silent (samples : List (Sample H.Receiver)) :
    ∀ e ∈ Presentation.dropped samples, e.isSilent := by
  unfold Presentation.dropped
  split <;> simp [Effect.isSilent]

/-- A call may flush the sink, and the sink of a presentation that ceases to exist is released.
Other tasks have nothing to do with it. -/
theorem sink_cases (h : Conduct c x task (.moves move)) :
    move.presentation.sinksOpened = x.sinksOpened ∧
      (move.presentation.sink = x.sink ∧ (∀ e ∈ move.effects, e.isSilent) ∨
        task = .flushSink ∧ move.presentation = x ∧
          move.effects = Presentation.sinkCall x.sink .flush ∨
        task = .reclaim ∧ c.alive = false ∧ move.presentation.sink = none ∧
          ∃ before after, move.effects =
            before ++ (Presentation.sinkCall x.sink .release ++ after) ∧
            (∀ e ∈ before, e.isSilent) ∧ ∀ e ∈ after, e.isSilent) := by
  have hsilent : ∀ {effects : List (Effect H)}, (∀ e ∈ effects, e.isDecoding) →
      ∀ e ∈ effects, e.isSilent :=
    fun hdecoding e he => Effect.isSilent_of_isDecoding (hdecoding e he)
  generalize ho : Outcome.moves move = o at h
  cases h with
  | waits => cases ho
  | plain _ _ hkept hdecoding =>
      cases ho
      exact ⟨hkept.sinksOpened, .inl ⟨hkept.sink, hsilent hdecoding⟩⟩
  | releaseDecoder hkept =>
      cases ho
      exact ⟨hkept.sinksOpened, .inl ⟨hkept.sink, hsilent (Presentation.destroyed_decoding _)⟩⟩
  | decode hkept =>
      cases ho
      exact ⟨hkept.sinksOpened, .inl ⟨hkept.sink, by simp⟩⟩
  | flushSink =>
      cases ho
      exact ⟨rfl, .inr (.inl ⟨rfl, rfl, rfl⟩)⟩
  | reclaim hgone hdecoding =>
      cases ho
      exact ⟨rfl, .inr (.inr ⟨rfl, hgone, rfl, _, _, rfl, dropped_silent _, hsilent hdecoding⟩)⟩
  | detachStream =>
      cases ho
      exact ⟨rfl, .inl ⟨rfl, dropped_silent _⟩⟩
  | detachStreams =>
      cases ho
      exact ⟨rfl, .inl ⟨rfl, dropped_silent _⟩⟩
  | clearQueues =>
      cases ho
      exact ⟨rfl, .inl ⟨rfl, dropped_silent _⟩⟩
  | _ =>
      cases ho
      exact ⟨rfl, .inl ⟨rfl, by simp [Effect.isSilent]⟩⟩

end Conduct

end Playout
