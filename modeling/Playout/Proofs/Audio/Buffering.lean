import Playout.Proofs.Audio.SinkLog
import Playout.Proofs.Lifecycle.Threads
import Playout.Proofs.Plain

/-!
# Buffering of audio

A thread looks at the length of the sink's queue when it selects audio, and plays the audio later.
Whatever is done in between, nobody else plays to the sink, so that there is still room when the
audio comes to be played. While the thread is running the queue therefore gets no longer than the
threshold, unless it was longer when the sink was opened.
-/

namespace Playout

variable {H : Platform}

open SinkUse

/-! ## The configuration -/

namespace Machine

def fittings (m : Machine H) : Config × DecoderBackends H.Codec × AudioBackends H.Output :=
  (m.config, m.decoders, m.outputs)

theorem fittings_perform {m : Machine H} {a : ActorId} {answers : Answers H} {rest : List (Job H)}
    {job : Job H} {progress : Progress H} (h : m.perform a answers rest job = some progress) :
    progress.machine.fittings = m.fittings := by
  cases job with
  | «at» p task =>
      simp only [perform] at h
      split at h
      · cases h
        rfl
      · split at h
        · cases h
          rfl
        · cases h
        · cases h
          rfl
  | create id =>
      simp only [perform] at h
      split at h <;> cases h <;> rfl
  | remove id =>
      simp only [perform] at h
      split at h <;> cases h <;> rfl
  | shutdown =>
      cases h
      rfl
  | removeEach ids =>
      cases ids with
      | nil =>
          cases h
          rfl
      | cons id ids =>
          simp only [perform] at h
          split at h <;> cases h <;> rfl

theorem fittings_play {m : Machine H} {action : Action H} {progress : Progress H}
    (h : m.play action = some progress) : progress.machine.fittings = m.fittings := by
  cases action with
  | call a c =>
      obtain ⟨-, heq⟩ := Option.ite_none_right_eq_some.mp h
      cases heq
      rfl
  | reclaim a p =>
      obtain ⟨-, heq⟩ := Option.ite_none_right_eq_some.mp h
      cases heq
      rfl
  | step a answers =>
      simp only [play, step] at h
      split at h
      · cases h
      · exact fittings_perform h
  | addHost =>
      cases h
      rfl

theorem config_play {m : Machine H} {action : Action H} {progress : Progress H}
    (h : m.play action = some progress) : progress.machine.config = m.config :=
  congrArg (·.1) (fittings_play h)

theorem fittings_run (m : Machine H) (actions : List (Action H)) :
    (m.run actions).final.fittings = m.fittings :=
  run_induction (P := fun r => r.final.fittings = m.fittings) m rfl
    (fun _ _ _ h hplay => (fittings_play hplay).trans h) actions

theorem config_run (m : Machine H) (actions : List (Action H)) :
    (m.run actions).final.config = m.config :=
  congrArg (·.1) (fittings_run m actions)

end Machine

/-! ## The queue of a sink -/

def SinkUse.isPlay : SinkUse → Bool
  | .call c => c.isPlay
  | .asked _ => false

def Transition.sinkLog (t : Transition H) (p : Key) (n : Nat) : List SinkUse :=
  Deed.sinkLog n (t.deed? p).toList

def SinkUse.agrees (length : Nat) : SinkUse → Bool
  | .call _ => true
  | .asked depth => depth == length

/-- The lengths of a sink's queue before, between and after some transitions. The sink answers with
them, and from one to the next the queue grows by no more than the calls to play. -/
structure SinkQueue (p : Key) (n : Nat) (during : List (Transition H)) (length : Nat → Nat) :
    Prop where
  answers : ∀ i (h : i < during.length), ∀ u ∈ during[i].sinkLog p n, u.agrees (length i)
  grows : ∀ i (h : i < during.length),
    length (i + 1) ≤ length i + (during[i].sinkLog p n).countP (·.isPlay)

namespace SinkQueue

variable {p : Key} {n : Nat} {during : List (Transition H)} {t : Transition H} {length : Nat → Nat}

theorem init (h : SinkQueue p n (during ++ [t]) length) : SinkQueue p n during length := by
  have hsame : ∀ i (hi : i < during.length) (hi' : i < (during ++ [t]).length),
      (during ++ [t])[i] = during[i] := fun i hi _ => List.getElem_append_left hi
  refine ⟨fun i hi => ?_, fun i hi => ?_⟩
  · have hi' : i < (during ++ [t]).length := by simp; omega
    rw [← hsame i hi hi']
    exact h.answers i hi'
  · have hi' : i < (during ++ [t]).length := by simp; omega
    rw [← hsame i hi hi']
    exact h.grows i hi'

theorem latest (h : SinkQueue p n (during ++ [t]) length) :
    (∀ u ∈ t.sinkLog p n, u.agrees (length during.length)) ∧
      length (during.length + 1) ≤ length during.length + (t.sinkLog p n).countP (·.isPlay) := by
  have hlt : during.length < (during ++ [t]).length := by simp
  have hlast : (during ++ [t])[during.length] = t := by simp
  have hanswers := h.answers during.length hlt
  have hgrows := h.grows during.length hlt
  rw [hlast] at hanswers hgrows
  exact ⟨hanswers, hgrows⟩

end SinkQueue

def Unplayed (effects : List (Effect H)) : Prop :=
  ∀ k payload result, .sink k (.play payload result) ∉ effects

namespace Unplayed

variable {effects more : List (Effect H)}

theorem of_quiet (h : ∀ e ∈ effects, e.isQuiet) : Unplayed effects := by
  intro k payload result hmem
  have hquiet := h _ hmem
  cases hquiet

theorem append (h : Unplayed effects) (hmore : Unplayed more) : Unplayed (effects ++ more) := by
  intro k payload result hmem
  rcases List.mem_append.mp hmem with hmem | hmem
  · exact h k payload result hmem
  · exact hmore k payload result hmem

theorem of_requeue {x y : Presentation H} {task : Task H} (h : Requeue x task y effects) :
    Unplayed effects := by
  intro k payload result hmem
  rcases h.effect_cases hmem with hquiet | ⟨samples, heq⟩ | ⟨sample, -, heq⟩
  · cases hquiet
  · cases heq
  · cases heq

theorem countP_eq_zero {x : Presentation H} {task : Task H} (h : Unplayed effects) (n : Nat) :
    (logOf n (Deed.sinkUses ⟨x, task, effects⟩)).countP (·.isPlay) = 0 := by
  refine List.countP_eq_zero.mpr fun u hu hplay => ?_
  obtain ⟨e, he, heq⟩ := List.mem_filterMap.mp (mem_logOf.mp hu)
  cases e with
  | sink k call =>
      obtain ⟨rfl, rfl⟩ := Prod.mk.inj (Option.some.inj heq)
      cases call with
      | play payload result => exact h k payload result he
      | _ => cases hplay
  | consulted depth =>
      obtain ⟨k, -, heq⟩ := Option.map_eq_some_iff.mp heq
      cases heq
      cases hplay
  | _ => cases heq

end Unplayed

/-! ## Room in the queue -/

/-- If a thread is about to play audio that it has selected with regard to the sink, the sink's
queue is shorter than the threshold. -/
def Scene.HasRoom (scene : Scene H) (n threshold length : Nat) : Prop :=
  ∀ selected, scene.standing = some (.dispatching selected .paced) → selected.majorType = .audio →
    scene.presentation.boundSerial = some n → length < threshold

namespace Presentation

variable {c : Surroundings H} {x : Presentation H} {r : Schedule.Release H.Receiver}
  {effects : List (Effect H)}

theorem asksDepth_of_selectUnpaced {time : UInt64}
    (h : Schedule.selectUnpaced? x.queues time = some r)
    (haudio : r.selected.majorType = .audio) : Schedule.asksDepth x.queues := by
  obtain ⟨i, q, sample, rest, hq, -, he, rfl⟩ := Schedule.selectUnpaced?_eq_some h
  have hcandidate : Schedule.candidate? x.queues = some q := by
    rw [Schedule.candidate?_eq, Schedule.earliest?_eq_some_iff.mpr he]
    exact hq
  have htype : q.majorType = .audio := haudio
  simp [Schedule.asksDepth, hcandidate, htype]

/-- Audio is selected when the sink in use has answered that its queue is shorter than
the threshold. -/
theorem asked_of_select (h : x.select c .paced = (some r, effects))
    (haudio : r.selected.majorType = .audio) {n : Nat} (hbound : x.boundSerial = some n) :
    ∃ depth, .consulted depth ∈ effects ∧ depth < c.config.audioQueueThreshold.toNat := by
  obtain ⟨s, hsink, -⟩ := Option.map_eq_some_iff.mp hbound
  have hdepth : x.depth? c = some (c.answers.queueLength s.sink) := by simp [depth?, hsink]
  obtain ⟨hselect, heffects⟩ := Prod.mk.inj h
  obtain ⟨hunpaced, hmay⟩ := Schedule.select?_eq_some hselect
  rw [haudio, hdepth] at hmay
  refine ⟨c.answers.queueLength s.sink, ?_, by simpa [Schedule.mayRelease] using hmay⟩
  rw [← heffects, if_pos (asksDepth_of_selectUnpaced hunpaced haudio), hdepth]
  simp

end Presentation

/-- If there is room before these uses of the sink, there is room afterwards, and its queue has
grown to the threshold at most. -/
def Scene.Fills (scene next : Scene H) (uses : List SinkUse) (n threshold : Nat) : Prop :=
  ∀ length later, scene.HasRoom n threshold length → (∀ u ∈ uses, u.agrees length) →
    later ≤ length + uses.countP (·.isPlay) →
      later ≤ max threshold length ∧ next.HasRoom n threshold later

namespace Scene.Fills

variable {x y : Presentation H} {s? : Option (Standing H)} {task : Task H}
  {effects : List (Effect H)}
  {n threshold : Nat}

/-- Nothing is played, and the thread is not about to play what it has selected with regard
to the sink. -/
theorem of_apart {scene : Scene H} (hunplayed : Unplayed effects)
    (happart : ∀ selected, s? ≠ some (.dispatching selected .paced)) :
    Fills scene ⟨y, s?⟩ (logOf n (Deed.sinkUses ⟨x, task, effects⟩)) n threshold := by
  intro length later _ _ hlater
  rw [hunplayed.countP_eq_zero n] at hlater
  exact ⟨by omega, fun selected hs => absurd hs (happart selected)⟩

/-- The thread stands where it stood, and its sink is the same or has gone. -/
theorem of_still (hunplayed : Unplayed effects)
    (hbound : y.boundSerial = some n → x.boundSerial = some n) :
    Fills ⟨x, s?⟩ ⟨y, s?⟩ (logOf n (Deed.sinkUses ⟨x, task, effects⟩)) n threshold := by
  intro length later hroom _ hlater
  rw [hunplayed.countP_eq_zero n] at hlater
  refine ⟨by omega, fun selected hs haudio hn => ?_⟩
  have hlength : length < threshold := hroom selected hs haudio (hbound hn)
  omega

theorem of_conduct {c : Surroundings H} {move : Move H} (h : Conduct c x task (.moves move)) :
    Fills ⟨x, s?⟩ ⟨move.presentation, s?⟩
      (logOf n (Deed.sinkUses ⟨x, task, move.effects⟩)) n threshold := by
  refine of_still (.of_requeue (Aside.of_moves h.aside).2.1) fun hn => ?_
  rcases h.sink_cases.2 with ⟨hsame, -⟩ | ⟨-, hsame, -⟩ | ⟨-, -, hnone, -⟩
  · rwa [Presentation.boundSerial_eq hsame] at hn
  · rwa [hsame] at hn
  · simp [Presentation.boundSerial, hnone] at hn

/-- Audio is selected while the queue is shorter than the threshold. -/
theorem of_choose {c : Surroundings H} {scene : Scene H} {r : Schedule.Release H.Receiver}
    (h : x.select c .paced = (some r, effects))
    (hthreshold : c.config.audioQueueThreshold.toNat = threshold) :
    Fills scene ⟨x.afterRelease r, some (.dispatching r.selected .paced)⟩
      (logOf n (Deed.sinkUses ⟨x, task, effects ++ [.released r.selected]⟩)) n threshold := by
  intro length later _ hasked hlater
  have hunplayed : Unplayed (effects ++ [.released r.selected]) :=
    (Unplayed.of_quiet (Presentation.select_quiet h)).append (by simp [Unplayed])
  rw [hunplayed.countP_eq_zero n] at hlater
  refine ⟨by omega, fun selected hs haudio hn => ?_⟩
  obtain rfl : r.selected = selected := by simpa using hs
  replace hn : x.boundSerial = some n := hn
  obtain ⟨depth, hdepth, hless⟩ := Presentation.asked_of_select h haudio hn
  have huse : SinkUse.asked depth ∈
      logOf n (Deed.sinkUses ⟨x, task, effects ++ [.released r.selected]⟩) := by
    refine mem_logOf.mpr (List.mem_filterMap.mpr ⟨_, List.mem_append_left _ hdepth, ?_⟩)
    simp [Effect.sinkUse?, hn]
  obtain rfl : depth = length := by simpa [SinkUse.agrees] using hasked _ huse
  omega

/-- What has been selected with regard to the sink finds room. -/
theorem of_play {selected : Selected H.Receiver} {s : BoundSink H.Sink} {payload : Payload}
    {result : Except MediaError Unit} {sample : Sample H.Receiver}
    (haudio : selected.majorType = .audio) (hsink : x.sink = some s) :
    Fills ⟨x, some (.dispatching selected .paced)⟩ ⟨x, some (.acknowledging sample .paced)⟩
      (logOf n (Deed.sinkUses ⟨x, task, [.sink s.serial (.play payload result)]⟩)) n threshold := by
  intro length later hroom _ hlater
  refine ⟨?_, fun selected hs => by simp at hs⟩
  by_cases hn : s.serial = n
  · have hlength : length < threshold :=
      hroom selected rfl haudio (by simp [Presentation.boundSerial, hsink, hn])
    have hcount := List.countP_le_length (p := fun u : SinkUse => u.isPlay)
      (l := logOf n (Deed.sinkUses ⟨x, task, [.sink s.serial (.play payload result)]⟩))
    have hone : (logOf n (Deed.sinkUses ⟨x, task, [.sink s.serial (.play payload result)]⟩)).length
        ≤ 1 :=
      List.length_filterMap_le _ _
    omega
  · have hother : logOf n (Deed.sinkUses ⟨x, task, [.sink s.serial (.play payload result)]⟩) =
        [] := by
      simp [logOf, Deed.sinkUses, Effect.sinkUse?, hn]
    rw [hother] at hlater
    simp at hlater
    omega

theorem of_advance {c : Surroundings H} {s : Standing H} (h : Advance c x s y effects s?)
    (hrunning : x.state = .running) (hstep : Scene.InStep ⟨x, some s⟩)
    (hthreshold : c.config.audioQueueThreshold.toNat = threshold) :
    Fills ⟨x, some s⟩ ⟨y, s?⟩ (logOf n (Deed.sinkUses ⟨x, task, effects⟩)) n threshold := by
  cases h with
  | openSink _ hquiet => exact of_apart (.of_quiet hquiet) (by simp)
  | nothingReady hselect => exact of_apart (.of_quiet (Presentation.select_quiet hselect)) (by simp)
  | nothingLeft hselect => exact of_apart (.of_quiet (Presentation.select_quiet hselect)) (by simp)
  | choose hselect => exact of_choose hselect hthreshold
  | drain hselect =>
      exact of_apart
        ((Unplayed.of_quiet (Presentation.select_quiet hselect)).append (by simp [Unplayed]))
        (by simp)
  | @play selected payload pacing s haudio _ hsink =>
      cases pacing with
      | paced => exact of_play haudio hsink
      | unpaced =>
          -- a thread that plays out what is left is not in this state
          rw [hstep _ rfl .draining rfl] at hrunning
          cases hrunning
  | releaseSink => exact of_apart (.of_quiet (Presentation.sinkCall_quiet _ rfl)) (by simp)
  | _ => exact of_apart (by simp [Unplayed]) (by simp)

theorem nothing {scene : Scene H} : Fills scene scene [] n threshold := by
  intro length later hroom _ hlater
  replace hlater : later ≤ length := hlater
  refine ⟨by omega, fun selected hs haudio hn => ?_⟩
  have hlength := hroom selected hs haudio hn
  omega

end Scene.Fills

theorem Turn.fills {m m' : Machine H} {p : Key} {crew crew' : Crew H}
    {doing? : Option (ActorId × Deed H)}
    {x : Presentation H} {threshold : Nat} (h : Turn m m' p crew doing? crew')
    (hx : m.presentations[p]? = some x) (hrunning : x.state = .running)
    (hstep : Scene.InStep ⟨x, crew.standing⟩)
    (hthreshold : m.config.audioQueueThreshold.toNat = threshold) (n : Nat) :
    ∃ y, m'.presentations[p]? = some y ∧ Scene.Fills ⟨x, crew.standing⟩ ⟨y, crew'.standing⟩
      (Deed.sinkLog n (doing?.map (·.2)).toList) n threshold := by
  cases doing? with
  | none =>
      obtain ⟨hy, rfl⟩ := h.still hx
      exact ⟨x, hy, .nothing⟩
  | some doing =>
      simp only [Option.map_some, Option.toList_some, Deed.sinkLog_single]
      cases h with
      | aside hx' hy hfree hstart hmove =>
          obtain rfl := Option.some.inj (hx.symm.trans hx')
          exact ⟨_, hy, .of_conduct (hmove ▸ Presentation.perform_conduct hfree hstart)⟩
      | start _ hx' _ hlaunches =>
          obtain rfl := Option.some.inj (hx.symm.trans hx')
          have hactive : x.isRunning := congrArg PlaybackState.isActive hrunning
          rw [(Presentation.launches_iff.mp hlaunches).2.1] at hactive
          cases hactive
      | duty hcrew hx' hy hadv =>
          subst hcrew
          obtain rfl := Option.some.inj (hx.symm.trans hx')
          refine ⟨_, hy, ?_⟩
          rw [Crew.standing_map]
          exact .of_advance hadv hrunning hstep hthreshold

def Transition.opensSink (t : Transition H) (p : Key) : Bool :=
  (t.doing? p).any fun (_, deed) =>
    match deed.task with
    | .openSink => true
    | _ => false

/-- After that it is not about to play anything. -/
theorem Turn.hasRoom_of_opensSink {m m' : Machine H} {p : Key} {crew crew' : Crew H}
    {action : Action H} {progress : Progress H} {y : Presentation H}
    (h : Turn m m' p crew (Transition.doing? p ⟨m, action, progress⟩) crew')
    (hopens : Transition.opensSink ⟨m, action, progress⟩ p) (n threshold length : Nat) :
    Scene.HasRoom ⟨y, crew'.standing⟩ n threshold length := by
  unfold Transition.opensSink at hopens
  generalize Transition.doing? p ⟨m, action, progress⟩ = doing? at h hopens
  obtain ⟨⟨a, deed⟩, rfl, htask⟩ := (Option.any_eq_true _ _).mp hopens
  cases h with
  | aside _ _ hfree =>
      simp only at htask
      split at htask
      · cases hfree
      · cases htask
  | start => cases htask
  | duty _ _ _ hadv =>
      intro selected hs
      rw [Crew.standing_map] at hs
      cases hadv with
      | openSink => cases hs
      | _ => cases htask

/-! ## Runs -/

def RunsThroughout (p : Key) (during : List (Transition H)) : Bool :=
  during.all fun t => (t.before.presentations[p]?).any (·.state == .running)

/-- How long the queue of a sink has been since the thread has seen to it, and that there is room
for what is about to be played. -/
structure Run.Buffers (r : Run H) (p : Key) (crew : Crew H) (n threshold : Nat) : Prop where
  steady : r.Steady p crew
  threshold_eq : r.final.config.audioQueueThreshold.toNat = threshold
  since : ∀ past t during length, r.trace = past ++ t :: during → t.opensSink p →
    RunsThroughout p during → SinkQueue p n during length →
      (∀ i ≤ during.length, length i ≤ max threshold (length 0)) ∧
        ∀ x, r.final.presentations[p]? = some x →
          Scene.HasRoom ⟨x, crew.standing⟩ n threshold (length during.length)

theorem Transition.sinkLog_eq (t : Transition H) (p : Key) (n : Nat) :
    t.sinkLog p n = Deed.sinkLog n ((t.doing? p).map (·.2)).toList := by
  rw [sinkLog, deed?]

namespace Run.Buffers

variable {r : Run H} {p : Key} {n threshold : Nat} {action : Action H} {progress : Progress H}
  {crew crew' : Crew H}

theorem next (h : r.Buffers p crew n threshold) (hcrew : Crewed r.final p crew)
    (hplay : r.final.play action = some progress)
    (hturn : Turn r.final progress.machine p crew
      (Transition.doing? p ⟨r.final, action, progress⟩) crew') :
    (r.extend action progress).Buffers p crew' n threshold where
  steady := h.steady.next hcrew hplay hturn
  threshold_eq := by
    rw [← h.threshold_eq]
    exact congrArg (·.audioQueueThreshold.toNat) (Machine.config_play hplay)
  since past t during length htrace hopens hruns hqueue := by
    rcases snoc_eq_split htrace with ⟨-, rfl, rfl⟩ | ⟨rest, rfl, hinit⟩
    · refine ⟨fun i hi => ?_, fun y hy => hturn.hasRoom_of_opensSink hopens n threshold _⟩
      obtain rfl : i = 0 := by simpa using hi
      omega
    · rw [RunsThroughout, List.all_append, Bool.and_eq_true] at hruns
      obtain ⟨hbounded, hroom⟩ := h.since past t rest length hinit hopens hruns.1 hqueue.init
      obtain ⟨x, hx, hrunning⟩ : ∃ x, r.final.presentations[p]? = some x ∧ x.state = .running := by
        obtain ⟨x, hx, hstate⟩ :=
          (Option.any_eq_true _ _).mp (List.all_eq_true.mp hruns.2 _ List.mem_cons_self)
        exact ⟨x, hx, by simpa using hstate⟩
      obtain ⟨y, hy, hfills⟩ := hturn.fills hx hrunning (h.steady.inStep x hx) h.threshold_eq n
      obtain ⟨hanswers, hgrows⟩ := hqueue.latest
      rw [Transition.sinkLog_eq] at hanswers hgrows
      obtain ⟨hlater, hroom'⟩ := hfills _ _ (hroom x hx) hanswers hgrows
      rw [List.length_append, List.length_singleton]
      refine ⟨fun i hi => ?_, fun z hz => ?_⟩
      · rcases Nat.eq_or_lt_of_le hi with rfl | hi
        · have hbefore := hbounded rest.length (Nat.le_refl _)
          omega
        · exact hbounded i (Nat.le_of_lt_succ hi)
      · obtain rfl := Option.some.inj (hy.symm.trans hz)
        exact hroom'

end Run.Buffers

namespace Machine

/-- While a thread is running, the queue of its sink gets no longer than the threshold, unless it
was longer when the thread had opened the sink. -/
theorem buffering_bounded (config : Config) (decoders : DecoderBackends H.Codec)
    (outputs : AudioBackends H.Output) (actions : List (Action H)) (p : Key) (n : Nat)
    {past during : List (Transition H)} {t : Transition H} {length : Nat → Nat}
    (htrace : ((initial config decoders outputs).run actions).trace = past ++ t :: during)
    (hopens : t.opensSink p) (hruns : RunsThroughout p during)
    (hqueue : SinkQueue p n during length) :
    ∀ i ≤ during.length, length i ≤ max config.audioQueueThreshold.toNat (length 0) := by
  obtain ⟨crew, -, hbuffers⟩ := run_turns
    (P := fun r crew => r.Buffers p crew n config.audioQueueThreshold.toNat)
    (initial config decoders outputs)
    (fun q => ⟨none, .initial config decoders outputs q⟩) (.initial config decoders outputs p)
    ⟨.initial config decoders outputs p, rfl, fun _ _ _ _ htrace => by simp at htrace⟩
    (fun _ _ _ _ _ hcrew h hplay _ hturn => h.next hcrew hplay hturn) actions
  exact (hbuffers.since past t during length htrace hopens hruns hqueue).1

/-- A machine on which audio is held back as soon as the sink has something to play. -/
def sounding : Machine .plain :=
  .initial { Config.standard with audioQueueThreshold := 1, defaultAudioSink := some "null" }
    (.standardDecoders ()) (Backends.empty.register "null" ())

open Playout.Action in
/-- Two pieces of audio are pushed and a thread plays the first one. The sink, which has not played
it by then, is asked before the second one. -/
def heldBack : List (Action .plain) :=
  prepared (.audio .unknown 44100 2 16) [0, 1] ++ calling 0 (.start 0) 2 ++ steps 1 6
    ++ .replicate 3 (.step 1 { Answers.plain with queueLength := fun _ => 1 })

/-- The sink has an empty queue until the first piece is played. -/
def heldBackLength (i : Nat) : Nat :=
  if i ≤ 2 then 0 else 1

theorem heldBack_bounded :
    ∃ past t during, (sounding.run heldBack).trace = past ++ t :: during ∧ t.opensSink 0 ∧
      RunsThroughout 0 during ∧ SinkQueue 0 0 during heldBackLength ∧
      (during.flatMap (·.sinkLog 0 0)).length = 3 ∧
      ∀ i ≤ during.length, heldBackLength i ≤ 1 := by
  have hsplit : (sounding.run heldBack).trace = (sounding.run heldBack).trace.take 16 ++
      (sounding.run heldBack).trace.get ⟨16, by decide +kernel⟩ ::
      (sounding.run heldBack).trace.drop 17 := by
    simp
  have hqueue : SinkQueue 0 0 ((sounding.run heldBack).trace.drop 17) heldBackLength :=
    ⟨by decide +kernel, by decide +kernel⟩
  refine ⟨_, _, _, hsplit, by decide +kernel, by decide +kernel, hqueue, by decide +kernel, ?_⟩
  exact buffering_bounded _ _ _ heldBack 0 0 hsplit (by decide +kernel) (by decide +kernel) hqueue

end Machine

end Playout
