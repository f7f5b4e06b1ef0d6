import Playout.Playback.Perform

/-!
# Where a playback thread stands

The tasks of playback threads are duties; all others belong to calls, or are left behind by a duty
and done before the next one. What remains of a thread's body has one of few shapes, its standing.
`Advance` says all that a duty can come to, and `Conduct` all that a task of another kind can.
-/

namespace Playout

namespace Task

variable {H : Platform}

/-- A task that only a playback thread does. Ticks are their equivalent for a host without
such threads. -/
def isDuty : Task H → Bool
  | .tick _ => true
  | .dispatch _ => true
  | .offer (.videoFrame _) => true
  | .acknowledge _ => true
  | .openSink => true
  | .releaseSink => true
  | .drainSink => true
  | .pollSink .. => true
  | .playback _ => true
  | _ => false

def isFeed : Task H → Bool
  | .push .. => true
  | .enqueue _ => true
  | _ => false

/-- A task that is done between two duties, or for a call other than a push. -/
def isErrand (t : Task H) : Bool :=
  !t.isDuty && !t.isFeed

theorem isErrand_iff {t : Task H} : t.isErrand ↔ t.isDuty = false ∧ t.isFeed = false := by
  simp [isErrand]

/-- A task that a duty leaves behind, to be done before the next duty. -/
def isInterlude : Task H → Bool
  | .offer (.redraw _) => true
  | .callback => true
  | _ => false

def pacing? : Task H → Option Pacing
  | .tick pacing => some pacing
  | .playback .choosing => some .paced
  | .playback .draining => some .unpaced
  | _ => none

theorem isErrand_of_isInterlude {t : Task H} (h : t.isInterlude) : t.isErrand := by
  cases t with
  | offer event => cases event <;> simp_all [isInterlude, isErrand, isDuty, isFeed]
  | callback => rfl
  | _ => simp [isInterlude] at h

end Task

def Pacing.loop : Pacing → Phase
  | .paced => .polling
  | .unpaced => .draining

@[simp] theorem Pacing.loop_inj {pacing pacing' : Pacing} :
    pacing.loop = pacing'.loop ↔ pacing = pacing' := by
  cases pacing <;> cases pacing' <;> simp [loop]

inductive Standing (H : Platform) where
  | openingSink
  | at (phase : Phase)
  | dispatching (selected : Selected H.Receiver) (pacing : Pacing)
  | showing (frame : VideoFrame) (sample : Sample H.Receiver) (pacing : Pacing)
  | acknowledging (sample : Sample H.Receiver) (pacing : Pacing)
  | drainingSink
  | pollingSink (deadline : Instant) (wake : Nat)
  | releasingSink

namespace Standing

variable {H : Platform}

def duty : Standing H → Task H
  | openingSink => .openSink
  | .at phase => .playback phase
  | dispatching selected _ => .dispatch selected
  | showing frame _ _ => .offer (.videoFrame frame)
  | acknowledging sample _ => .acknowledge sample
  | drainingSink => .drainSink
  | pollingSink deadline wake => .pollSink deadline wake
  | releasingSink => .releaseSink

def later : Standing H → List (Task H)
  | openingSink => [.playback .polling]
  | .at _ => []
  | dispatching _ pacing => [.playback pacing.loop]
  | showing _ sample pacing => [.acknowledge sample, .playback pacing.loop]
  | acknowledging _ pacing => [.playback pacing.loop]
  | drainingSink => [.playback .closing]
  | pollingSink .. => [.playback .closing]
  | releasingSink => [.playback .ending]

def duties : Option (Standing H) → List (Task H)
  | none => []
  | some s => s.duty :: s.later

theorem duty_isDuty (s : Standing H) : s.duty.isDuty := by
  cases s <;> rfl

theorem duties_isDuty (s? : Option (Standing H)) : ∀ t ∈ duties s?, t.isDuty := by
  cases s? with
  | none => simp [duties]
  | some s => cases s <;> simp [duties, duty, later, Task.isDuty]

/-- What is left to be done by a thread says where it stands. -/
theorem duties_injective : Function.Injective (duties : Option (Standing H) → List (Task H)) := by
  rintro (_ | s) (_ | s') h
  · rfl
  · cases h
  · cases h
  · obtain ⟨hduty, hlater⟩ := List.cons.inj h
    cases s <;> cases s' <;> simp_all [duty, later]

end Standing

/-! ## Quiet effects -/

def SinkCall.isPlay : SinkCall → Bool
  | .play .. => true
  | _ => false

namespace Effect

variable {H : Platform} {e : Effect H}

/-- The effect neither moves a sample nor passes on what a sample holds. -/
def isQuiet : Effect H → Bool
  | .consulted _ => true
  | .offered (.redraw _) _ => true
  | .sink _ call => !call.isPlay
  | .decoderMade .. => true
  | .decoderDestroyed .. => true
  | _ => false

def isDecoding : Effect H → Bool
  | .decoderMade .. => true
  | .decoderDestroyed .. => true
  | _ => false

/-- A decoder is made or destroyed, or a sink is told something other than to play. -/
def isUpkeep : Effect H → Bool
  | .sink _ call => !call.isPlay
  | .decoderMade .. => true
  | .decoderDestroyed .. => true
  | _ => false

def isSilent : Effect H → Bool
  | .sink .. => false
  | .consulted _ => false
  | _ => true

def event? : Effect H → Option Event
  | .offered event _ => some event
  | _ => none

theorem isQuiet_of_isUpkeep (h : e.isUpkeep) : e.isQuiet := by
  cases e <;> simp_all [isUpkeep, isQuiet]

theorem isSilent_of_isDecoding (h : e.isDecoding) : e.isSilent := by
  cases e <;> simp_all [isDecoding, isSilent]

theorem isUpkeep_of_isDecoding (h : e.isDecoding) : e.isUpkeep := by
  cases e <;> simp_all [isDecoding, isUpkeep]

theorem event?_of_isUpkeep (h : e.isUpkeep) : e.event? = none := by
  cases e <;> simp_all [isUpkeep, event?]

end Effect

theorem Backends.openSink_calls {β σ : Type} (backends : AudioBackends β)
    (answers : SinkAnswers β σ) (name : String) (device : Option String) (format : AudioFormat) :
    ∀ call ∈ (backends.openSink answers name device format).2, call.isPlay = false := by
  unfold openSink
  cases backends.find? name with
  | none => simp
  | some backend =>
      cases hsink : answers.create backend device with
      | error e => simp [hsink, SinkCall.isPlay]
      | ok sink =>
          cases hformat : answers.setFormat sink format with
          | error e => simp [hsink, hformat, SinkCall.isPlay]
          | ok => simp [hsink, hformat, SinkCall.isPlay]

namespace Presentation

variable {H : Platform}

theorem destroyed_decoding (d : Option (BoundDecoder H.Decoder)) :
    ∀ e ∈ destroyed d, e.isDecoding := by
  cases d <;> simp [destroyed, Effect.isDecoding]

theorem sinkCall_upkeep (sink : Option (BoundSink H.Sink)) {call : SinkCall}
    (h : call.isPlay = false) :
    ∀ e ∈ sinkCall sink call, e.isUpkeep := by
  cases sink <;> simp [sinkCall, Effect.isUpkeep, h]

theorem sinkCall_quiet (sink : Option (BoundSink H.Sink)) {call : SinkCall}
    (h : call.isPlay = false) :
    ∀ e ∈ sinkCall sink call, e.isQuiet :=
  fun e he => Effect.isQuiet_of_isUpkeep (sinkCall_upkeep sink h e he)

theorem openSink_eq_going (c : Surroundings H) (x : Presentation H) :
    ∃ sink opened effects, x.openSink c =
      { x with sink := sink, sinksOpened := opened }.going [] effects ∧
      ∀ e ∈ effects, e.isUpkeep := by
  unfold openSink
  by_cases hformat : x.audioFormat.isComplete
  · simp only [hformat, Bool.not_true, Bool.false_eq_true, if_false]
    cases x.audioBackend? c.config with
    | none => exact ⟨x.sink, x.sinksOpened, [], rfl, by simp⟩
    | some backend =>
        have hcalls :=
          c.outputs.openSink_calls c.answers.sinks backend x.audioDevice.device x.audioFormat
        have hopen : ∀ e ∈ (c.outputs.openSink c.answers.sinks backend x.audioDevice.device
            x.audioFormat).2.map (@Effect.sink H x.sinksOpened), e.isUpkeep := by
          intro e he
          obtain ⟨call, hcall, rfl⟩ := List.mem_map.mp he
          simp [Effect.isUpkeep, hcalls call hcall]
        dsimp only
        split
        · exact ⟨x.sink, x.sinksOpened + 1, _, rfl, hopen⟩
        · rename_i sink _
          refine ⟨some ⟨x.sinksOpened, sink⟩, x.sinksOpened + 1, _, rfl, ?_⟩
          intro e he
          exact (List.mem_append.mp he).elim (hopen e) (sinkCall_upkeep _ rfl e)
  · simp only [hformat]
    exact ⟨x.sink, x.sinksOpened, [], rfl, by simp⟩

end Presentation

/-! ## Duties -/

/-- The new frame takes the place of the one on screen, whatever has to be painted over. -/
theorem Presentation.beginFrame_snd {H : Platform} (x : Presentation H) :
    x.beginFrame.2 = { x with lastRendered := x.output } := by
  simp only [beginFrame, takeLastRendered]
  by_cases hsame : x.lastRendered = x.output
  · simp [hsame]
  · by_cases hempty : x.lastRendered.isEmpty <;> simp [hsame, hempty]

/-- How a duty changes the presentation, what it calls on the way, and where its thread stands
afterwards. -/
inductive Advance {H : Platform} (c : Surroundings H) (x : Presentation H) :
    Standing H → Presentation H → List (Effect H) → Option (Standing H) → Prop where
  | openSink {sink opened effects} :
      x.openSink c = { x with sink := sink, sinksOpened := opened }.going [] effects →
      (∀ e ∈ effects, e.isQuiet) →
      Advance c x .openingSink { x with sink := sink, sinksOpened := opened } effects
        (some (.at .polling))
  | poll : Advance c x (.at .polling) x []
      (some (.at (if x.lifecycle.exitRequested then .leaving else .choosing)))
  | nothingReady {effects} : x.select c .paced = (none, effects) →
      Advance c x (.at .choosing) x effects (some (.at .resting))
  | choose {r effects} : x.select c .paced = (some r, effects) →
      Advance c x (.at .choosing) (x.afterRelease r) (effects ++ [.released r.selected])
        (some (.dispatching r.selected .paced))
  | rest : Advance c x (.at .resting) x [] (some (.at .polling))
  | leave : Advance c x (.at .leaving) x [] (some (.at (if x.eos then .turning else .closing)))
  | turn : x.isStarting = false →
      Advance c x (.at .turning) (x.enter .draining) [] (some (.at .draining))
  | nothingLeft {effects} : x.select c .unpaced = (none, effects) →
      Advance c x (.at .draining) x effects (some .drainingSink)
  | drain {r effects} : x.select c .unpaced = (some r, effects) →
      Advance c x (.at .draining) (x.afterRelease r) (effects ++ [.released r.selected])
        (some (.dispatching r.selected .unpaced))
  | close : Advance c x (.at .closing) x [] (some .releasingSink)
  | finish : x.isStarting = false → Advance c x (.at .ending) (x.enter .stopped) [] none
  | frame {selected payload pacing} : selected.majorType = .video →
      selected.sample.payload = some payload →
      Advance c x (.dispatching selected pacing) x.beginFrame.2 []
        (some (.showing
          { payload, pixelFormat := selected.sample.pixelFormat, frameWidth := selected.width,
            frameHeight := selected.height, output := x.output }
          selected.sample.takePayload.2 pacing))
  | play {selected payload pacing s} : selected.majorType = .audio →
      selected.sample.payload = some payload → x.sink = some s →
      Advance c x (.dispatching selected pacing) x
        [.sink s.serial (.play payload (c.answers.play s.sink payload))]
        (some (.acknowledging selected.sample.takePayload.2 pacing))
  | pass {selected pacing} :
      (selected.majorType = .video → selected.sample.payload = none) →
      (selected.majorType = .audio → selected.sample.payload = none ∨ x.sink = none) →
      Advance c x (.dispatching selected pacing) x [] (some (.acknowledging selected.sample pacing))
  | offer {frame sample pacing} :
      Advance c x (.showing frame sample pacing) x
        [.offered (.videoFrame frame) (c.answers.deliver (.videoFrame frame))]
        (some (.acknowledging sample pacing))
  | acknowledge {sample pacing} :
      Advance c x (.acknowledging sample pacing) x
        [.acknowledged sample.receiver sample.sampleId sample.duration sample.dataSize]
        (some (.at pacing.loop))
  | setDeadline {deadline} : c.answers.clock.add? c.config.audioDrainTimeout = some deadline →
      Advance c x .drainingSink x [] (some (.pollingSink deadline 0))
  /-- The deadline cannot be represented. -/
  | overflow : c.answers.clock.add? c.config.audioDrainTimeout = none → x.isStarting = false →
      Advance c x .drainingSink (x.enter .stopped) [] none
  | pollAgain {deadline wake depth} : x.depth? c = some depth → depth ≠ 0 →
      wake ≤ c.answers.clock.nanos → ¬ deadline ≤ c.answers.clock →
      Advance c x (.pollingSink deadline wake) x [.consulted depth]
        (some (.pollingSink deadline
          (c.answers.clock.nanos + c.config.audioDrainPollInterval.nanos)))
  | pollLast {deadline wake} : wake ≤ c.answers.clock.nanos →
      (∀ depth, x.depth? c = some depth → depth = 0 ∨ deadline ≤ c.answers.clock) →
      Advance c x (.pollingSink deadline wake) x ((x.depth? c).toList.map .consulted)
        (some (.at .closing))
  | releaseSink : Advance c x .releasingSink { x with
                                               sink := none }
                                                 (Presentation.sinkCall x.sink .release)
      (some (.at .ending))

theorem Advance.isRunning_eq {H : Platform} {c : Surroundings H} {x y : Presentation H}
    {s : Standing H}
    {effects : List (Effect H)} {s? : Option (Standing H)} (h : Advance c x s y effects s?)
    (hx : x.isRunning) : y.isRunning = s?.isSome := by
  cases h with
  | frame =>
      rw [Presentation.beginFrame_snd]
      exact hx
  | turn => rfl
  | finish => rfl
  | overflow => rfl
  | _ => exact hx

/-- What the next duty leaves to be done before the one after it. A region where the new frame does
not go is painted over before the frame is shown, and the host is called. -/
def Standing.interludes {H : Platform} (x : Presentation H) : Standing H → List (Task H)
  | dispatching selected _ =>
    match selected.majorType, selected.sample.payload with
    | .video, some _ => x.beginFrame.1.toList.map fun region => .offer (.redraw region)
    | _, _ => []
  | showing .. => [.callback]
  | acknowledging .. => [.callback]
  | _ => []

theorem Standing.interludes_of_frame {H : Platform} {x : Presentation H}
    {selected : Selected H.Receiver} {payload : Payload} (htype : selected.majorType = .video)
    (hpayload : selected.sample.payload = some payload) (pacing : Pacing) :
    (dispatching selected pacing).interludes x =
      x.beginFrame.1.toList.map fun region => .offer (.redraw region) := by
  simp only [interludes, htype, hpayload]

theorem Standing.interludes_of_no_frame {H : Platform} {x : Presentation H}
    {selected : Selected H.Receiver}
    (h : selected.majorType = .video → selected.sample.payload = none) (pacing : Pacing) :
    (dispatching selected pacing).interludes x = [] := by
  simp only [interludes]
  split
  · rename_i payload htype hpayload
    rw [h htype] at hpayload
    cases hpayload
  · rfl

theorem Standing.isInterlude_of_mem {H : Platform} {x : Presentation H} {s : Standing H}
    {t : Task H} (h : t ∈ s.interludes x) : t.isInterlude := by
  cases s with
  | dispatching selected pacing =>
      simp only [interludes] at h
      split at h
      · obtain ⟨region, -, rfl⟩ := List.mem_map.mp h
        rfl
      · cases h
  | showing =>
      rw [List.mem_singleton.mp h]
      rfl
  | acknowledging =>
      rw [List.mem_singleton.mp h]
      rfl
  | _ => cases h

/-- What comes of the next duty of a thread. If it moves, it leaves tasks of other kinds to be done
first, and then the duties of the new standing. -/
inductive Onward {H : Platform} (c : Surroundings H) (x : Presentation H) (s : Standing H) :
    Outcome H → Prop where
  | waits : Onward c x s .waits
  | going {y next effects s?} : next ++ s.later = s.interludes x ++ Standing.duties s? →
      Advance c x s y effects s? → Onward c x s (y.going next effects)
  | unwinds : s = .drainingSink → Advance c x s (x.enter .stopped) [] none → Onward c x s .unwinds

namespace Onward

variable {H : Platform} {c : Surroundings H} {x y : Presentation H} {s : Standing H}
  {s? : Option (Standing H)} {next : List (Task H)} {effects : List (Effect H)}

theorem of_moves {move : Move H} (h : Onward c x s (.moves move)) :
    ∃ s?, move.next ++ s.later = s.interludes x ++ Standing.duties s? ∧ move.spawned = [] ∧
      Advance c x s move.presentation move.effects s? := by
  generalize ho : Outcome.moves move = o at h
  cases h with
  | waits => cases ho
  | unwinds => cases ho
  | going hnext hadv =>
      cases ho
      exact ⟨_, hnext, rfl, hadv⟩

theorem of_unwinds (h : Onward c x s .unwinds) :
    s = .drainingSink ∧ Advance c x s (x.enter .stopped) [] none := by
  generalize ho : Outcome.unwinds = o at h
  cases h with
  | waits => cases ho
  | going => cases ho
  | unwinds hs hadv => exact ⟨hs, hadv⟩

theorem playback (phase : Phase) : Onward c x (.at phase) (x.playback c phase) := by
  cases phase with
  | polling => exact .going rfl .poll
  | choosing =>
      simp only [Presentation.playback]
      rcases hs : x.select c .paced with ⟨_ | r, effects⟩
      · exact .going rfl (.nothingReady hs)
      · exact .going rfl (.choose hs)
  | resting => exact .going rfl .rest
  | leaving => exact .going rfl .leave
  | turning =>
      simp only [Presentation.playback]
      cases hstarting : x.isStarting with
      | true => exact .waits
      | false => exact .going rfl (.turn hstarting)
  | draining =>
      simp only [Presentation.playback]
      rcases hs : x.select c .unpaced with ⟨_ | r, effects⟩
      · exact .going rfl (.nothingLeft hs)
      · exact .going rfl (.drain hs)
  | closing => exact .going rfl .close
  | ending =>
      simp only [Presentation.playback]
      cases hstarting : x.isStarting with
      | true => exact .waits
      | false => exact .going rfl (.finish hstarting)

/-- A stale region is painted over before the frame is shown. -/
theorem dispatch (selected : Selected H.Receiver) (pacing : Pacing) :
    Onward c x (.dispatching selected pacing) (x.dispatch c selected) := by
  have hpass : ∀ {y effects sample},
      (selected.majorType = .video → selected.sample.payload = none) →
      Advance c x (.dispatching selected pacing) y effects (some (.acknowledging sample pacing)) →
      Onward c x (.dispatching selected pacing) (y.going [.acknowledge sample] effects) := by
    intro y effects sample hnone hadv
    refine .going ?_ hadv
    rw [Standing.interludes_of_no_frame hnone]
    rfl
  cases hp : selected.sample.payload with
  | none =>
      have hnone : Onward c x (.dispatching selected pacing)
          (x.going [.acknowledge selected.sample] []) :=
        hpass (by simp [hp]) (.pass (by simp [hp]) (by simp [hp]))
      cases ht : selected.majorType <;> simpa only [Presentation.dispatch, ht, hp] using hnone
  | some payload =>
      cases ht : selected.majorType with
      | unknown =>
          simp only [Presentation.dispatch, ht, hp]
          exact hpass (by simp [ht]) (.pass (by simp [ht]) (by simp [ht]))
      | video =>
          simp only [Presentation.dispatch, ht, hp]
          refine .going ?_ (.frame ht hp)
          rw [Standing.interludes_of_frame ht hp]
          simp [Standing.later, Standing.duties, Standing.duty, Presentation.beginFrame_snd]
      | audio =>
          cases hs : x.sink with
          | none =>
              simp only [Presentation.dispatch, ht, hp, hs]
              exact hpass (by simp [ht]) (.pass (by simp [ht]) (fun _ => .inr hs))
          | some sink =>
              simp only [Presentation.dispatch, ht, hp, hs]
              exact hpass (by simp [ht]) (.play ht hp hs)

theorem openSink : Onward c x .openingSink (x.openSink c) := by
  obtain ⟨sink, opened, effects, hy, hupkeep⟩ := Presentation.openSink_eq_going c x
  rw [hy]
  exact .going rfl (.openSink hy fun e he => Effect.isQuiet_of_isUpkeep (hupkeep e he))

theorem pollSink (deadline : Instant) (wake : Nat) :
    Onward c x (.pollingSink deadline wake) (x.pollSink c deadline wake) := by
  unfold Presentation.pollSink
  by_cases hwake : c.answers.clock.nanos < wake
  · rw [if_pos hwake]
    exact .waits
  · rw [if_neg hwake]
    have hlast : (∀ depth, x.depth? c = some depth → depth = 0 ∨ deadline ≤ c.answers.clock) →
        Onward c x (.pollingSink deadline wake) (x.going [] ((x.depth? c).toList.map .consulted)) :=
      fun hend => .going rfl (.pollLast (Nat.not_lt.mp hwake) hend)
    split
    · rename_i hd
      simpa [hd] using hlast (by simp [hd])
    · rename_i hd
      simpa [hd] using hlast (by simp [hd])
    · rename_i depth hne hd
      by_cases hlate : deadline ≤ c.answers.clock
      · rw [if_pos hlate]
        simpa [hd] using hlast (fun _ _ => .inr hlate)
      · rw [if_neg hlate]
        exact .going rfl (.pollAgain hd hne (Nat.not_lt.mp hwake) hlate)

end Onward

/-- Everything that the next duty of a thread can come to. -/
theorem Presentation.perform_duty {H : Platform} (c : Surroundings H) (x : Presentation H)
    (s : Standing H) : Onward c x s (x.perform c s.duty) := by
  cases s with
  | openingSink => exact .openSink
  | «at» phase => exact .playback phase
  | dispatching selected pacing => exact .dispatch selected pacing
  | showing frame sample pacing => exact .going rfl .offer
  | acknowledging sample pacing => exact .going rfl .acknowledge
  | drainingSink =>
      simp only [Standing.duty, perform]
      split
      · rename_i hd
        cases hstarting : x.isStarting with
        | true => exact .waits
        | false => exact .unwinds rfl (.overflow hd hstarting)
      · rename_i deadline hd
        exact .going rfl (.setDeadline hd)
  | pollingSink deadline wake => exact .pollSink deadline wake
  | releasingSink => exact .going rfl .releaseSink

end Playout
