import Playout.Proofs.Audio.Deadline
import Playout.Proofs.Audio.Settings

/-!
# The sink of a thread

A thread begins by opening a sink, for what has been negotiated and asked for by then. What comes of
that it keeps until it closes, whatever is negotiated or asked for meanwhile: it plays to this sink
and to no other, and without one audio is acknowledged and not played.
-/

namespace Playout

variable {H : Platform}

/-! ## Openings -/

def Config.wantsSink (config : Config) (format : AudioFormat) (device : AudioDevice)
    (backend : String) : Prop :=
  (format.sampleRate ≠ 0 ∧ format.channels ≠ 0) ∧
  (device.backend <|> config.defaultAudioSink) = some backend

/-- What comes of opening a sink: the sink, if there is one in the end, and the calls
that were made. -/
inductive Opening (config : Config) (outputs : AudioBackends H.Output)
    (answers : SinkAnswers H.Output H.Sink)
    (format : AudioFormat) (device : AudioDevice) (serial : Nat) :
    Option (BoundSink H.Sink) → List (Effect H) → Prop where
  /-- There is nothing to open, and nothing is tried. -/
  | untried : (∀ backend, ¬ config.wantsSink format device backend) →
      Opening config outputs answers format device serial none []
  | unknown {backend} : config.wantsSink format device backend → outputs.find? backend = none →
      Opening config outputs answers format device serial none []
  | failed {backend output e} : config.wantsSink format device backend →
      outputs.find? backend = some output →
      answers.create output device.device = .error e →
      Opening config outputs answers format device serial none
        [.sink serial (.open backend device.device), .sink serial .openFailed]
  | refused {backend output sink e} : config.wantsSink format device backend →
      outputs.find? backend = some output →
      answers.create output device.device = .ok sink → answers.setFormat sink format = .error e →
      Opening config outputs answers format device serial none
        [.sink serial (.open backend device.device), .sink serial (.format format),
          .sink serial .release]
  | bound {backend output sink} : config.wantsSink format device backend →
      outputs.find? backend = some output →
      answers.create output device.device = .ok sink → answers.setFormat sink format = .ok () →
      Opening config outputs answers format device serial (some ⟨serial, sink⟩)
        [.sink serial (.open backend device.device), .sink serial (.format format)]

theorem Presentation.opening {c : Surroundings H} {x y : Presentation H} {effects : List (Effect H)}
    (hcomplete : x.audioFormat.isComplete ↔
      x.audioFormat.sampleRate ≠ 0 ∧ x.audioFormat.channels ≠ 0)
    (hsink : x.sink = none) (hopen : x.openSink c = y.going [] effects) :
    Opening c.config c.outputs c.answers.sinks x.audioFormat x.audioDevice x.sinksOpened y.sink
      effects := by
  unfold openSink at hopen
  by_cases hformat : x.audioFormat.isComplete
  · simp only [hformat, Bool.not_true, Bool.false_eq_true, if_false, audioBackend?] at hopen
    cases hbackend : (x.audioDevice.backend <|> c.config.defaultAudioSink) with
    | none =>
        rw [hbackend] at hopen
        cases hopen
        rw [hsink]
        exact .untried fun backend hwants => by cases hbackend.symm.trans hwants.2
    | some backend =>
        have hwants : c.config.wantsSink x.audioFormat x.audioDevice backend :=
          ⟨hcomplete.mp hformat, hbackend⟩
        simp only [hbackend, Backends.openSink] at hopen
        cases houtput : c.outputs.find? backend with
        | none =>
            simp only [houtput] at hopen
            cases hopen
            exact hsink ▸ .unknown hwants houtput
        | some output =>
            cases hcreate : c.answers.sinks.create output x.audioDevice.device with
            | error e =>
                simp only [houtput, hcreate] at hopen
                cases hopen
                exact hsink ▸ .failed hwants houtput hcreate
            | ok sink =>
                cases htakes : c.answers.sinks.setFormat sink x.audioFormat with
                | error e =>
                    simp only [houtput, hcreate, htakes] at hopen
                    cases hopen
                    exact hsink ▸ .refused hwants houtput hcreate htakes
                | ok =>
                    simp only [houtput, hcreate, htakes, hsink] at hopen
                    cases hopen
                    exact .bound hwants houtput hcreate htakes
  · have hincomplete : x.audioFormat.isComplete = false := by simpa using hformat
    simp only [hincomplete] at hopen
    cases hopen
    rw [hsink]
    exact .untried fun backend hwants => hformat (hcomplete.mpr hwants.1)

/-! ## What a thread does with its sink -/

/-- The sink that a thread has, if this is the one that it opens. It has released it by the time
that it ends. -/
def Standing.sink? (opened? : Option (BoundSink H.Sink)) : Standing H → Option (BoundSink H.Sink)
  | .openingSink => none
  | .at .ending => none
  | _ => opened?

theorem Standing.sink?_cases (opened? : Option (BoundSink H.Sink)) (s : Standing H) :
    s.sink? opened? = none ∨ s.sink? opened? = opened? := by
  cases s with
  | openingSink => exact .inl rfl
  | «at» phase => cases phase <;> first | exact .inl rfl | exact .inr rfl
  | _ => exact .inr rfl

/-- The duties of a thread after it has opened its sink, each with the host's answers, and where it
stands afterwards. -/
inductive PlaybackCourse (opened? : Option (BoundSink H.Sink)) :
    List (Answers H × Deed H) → Option (Standing H) → Prop where
  | begun : PlaybackCourse opened? [] (some (.at .polling))
  | duty {done s c x y effects s?} : PlaybackCourse opened? done (some s) →
      x.sink = s.sink? opened? →
      Advance c x s y effects s? → (s? = none → s = .at .ending) →
      PlaybackCourse opened? (done ++ [(c.answers, ⟨x, s.duty, effects⟩)]) s?

namespace Advance

variable {c : Surroundings H} {x y : Presentation H} {s s' : Standing H} {effects : List (Effect H)}
  {s? : Option (Standing H)} {opened? : Option (BoundSink H.Sink)}

theorem ne_openingSink (h : Advance c x s y effects s?) : s? ≠ some .openingSink := by
  cases h <;> simp

/-- After it has been opened a thread's sink is what it is until it is released. -/
theorem sink?_eq (h : Advance c x s y effects (some s')) (hs : s ≠ .openingSink)
    (hx : x.sink = s.sink? opened?) :
    y.sink = s'.sink? opened? := by
  generalize hs' : some s' = s? at h
  cases h with
  | openSink => exact absurd rfl hs
  | poll =>
      cases hs'
      rw [hx]
      split <;> rfl
  | leave =>
      cases hs'
      rw [hx]
      split <;> rfl
  | @acknowledge _ pacing =>
      cases hs'
      rw [hx]
      cases pacing <;> rfl
  | frame =>
      cases hs'
      rw [Presentation.beginFrame_snd]
      exact hx
  | releaseSink =>
      cases hs'
      rfl
  | finish => cases hs'
  | overflow => cases hs'
  | _ =>
      cases hs'
      exact hx

theorem consulted_of_select {pacing : Pacing} {r? : Option (Schedule.Release H.Receiver)}
    (h : x.select c pacing = (r?, effects)) : ∀ e ∈ effects, ∃ depth, e = .consulted depth := by
  intro e he
  cases pacing with
  | unpaced =>
      obtain ⟨-, rfl⟩ := Prod.mk.inj h
      cases he
  | paced =>
      obtain ⟨-, rfl⟩ := Prod.mk.inj h
      split at he
      · obtain ⟨depth, -, heq⟩ := List.mem_map.mp he
        exact ⟨depth, heq.symm⟩
      · cases he

/-- A thread plays to the sink that there is and releases it, and makes no other call on a sink. -/
theorem sink_call (h : Advance c x s y effects s?) (hs : s ≠ .openingSink) {k : Nat}
    {call : SinkCall}
    (hmem : .sink k call ∈ effects) : (call.isPlay ∨ call = .release) ∧ x.boundSerial = some k := by
  have hselected : ∀ {pacing : Pacing} {r? : Option (Schedule.Release H.Receiver)}
      {effects : List (Effect H)},
      x.select c pacing = (r?, effects) → .sink k call ∉ effects := fun hselect hmem => by
    obtain ⟨depth, heq⟩ := consulted_of_select hselect _ hmem
    cases heq
  cases h with
  | openSink => exact absurd rfl hs
  | nothingReady hselect => exact absurd hmem (hselected hselect)
  | nothingLeft hselect => exact absurd hmem (hselected hselect)
  | choose hselect => exact absurd hmem (by simp [hselected hselect])
  | drain hselect => exact absurd hmem (by simp [hselected hselect])
  | play _ _ hsink =>
      cases List.mem_singleton.mp hmem
      exact ⟨.inl rfl, by simp [Presentation.boundSerial, hsink]⟩
  | releaseSink =>
      obtain ⟨bound, hbound, heq⟩ := List.mem_map.mp hmem
      cases heq
      exact ⟨.inr rfl, by simp [Presentation.boundSerial, Option.mem_toList.mp hbound]⟩
  | _ => simp at hmem

theorem duty_of_released (h : Advance c x s y effects (some s')) (hs : s ≠ .openingSink)
    {selected : Selected H.Receiver} (hmem : .released selected ∈ effects) :
    s'.duty = .dispatch selected := by
  have hselected : ∀ {pacing : Pacing} {r? : Option (Schedule.Release H.Receiver)}
      {effects : List (Effect H)},
      x.select c pacing = (r?, effects) → .released selected ∉ effects := fun hselect hmem => by
    obtain ⟨depth, heq⟩ := consulted_of_select hselect _ hmem
    cases heq
  generalize hs' : some s' = s? at h
  cases h with
  | openSink => exact absurd rfl hs
  | nothingReady hselect => exact absurd hmem (hselected hselect)
  | nothingLeft hselect => exact absurd hmem (hselected hselect)
  | choose hselect =>
      cases hs'
      obtain rfl : selected = _ := by simpa [hselected hselect] using hmem
      rfl
  | drain hselect =>
      cases hs'
      obtain rfl : selected = _ := by simpa [hselected hselect] using hmem
      rfl
  | releaseSink => simp [Presentation.sinkCall] at hmem
  | _ => simp at hmem

theorem effects_of_dispatch (h : Advance c x s y effects s?) {selected : Selected H.Receiver}
    {payload : Payload} (hduty : s.duty = .dispatch selected) (haudio : selected.majorType = .audio)
    (hpayload : selected.sample.payload = some payload) :
    effects = x.sink.toList.map fun b =>
      .sink b.serial (.play payload (c.answers.play b.sink payload)) := by
  cases h with
  | frame hvideo =>
      cases hduty
      cases haudio.symm.trans hvideo
  | play _ hgiven hbound =>
      cases hduty
      cases hpayload.symm.trans hgiven
      rw [hbound]
      rfl
  | pass _ hunplayed =>
      cases hduty
      rcases hunplayed haudio with hnothing | hunbound
      · cases hpayload.symm.trans hnothing
      · rw [hunbound]
        rfl
  | _ => cases hduty

theorem duty_of_dispatch (h : Advance c x s y effects (some s')) {selected : Selected H.Receiver}
    (hduty : s.duty = .dispatch selected) (haudio : selected.majorType = .audio)
    (hsink : x.sink = none) :
    s'.duty = .acknowledge selected.sample := by
  generalize hs' : some s' = s? at h
  cases h with
  | frame hvideo =>
      cases hduty
      cases haudio.symm.trans hvideo
  | play _ _ hbound => cases hsink.symm.trans hbound
  | pass =>
      cases hduty
      cases hs'
      rfl
  | _ => cases hduty

theorem effects_of_acknowledge (h : Advance c x s y effects s?) {sample : Sample H.Receiver}
    (hduty : s.duty = .acknowledge sample) :
    effects = [.acknowledged sample.receiver sample.sampleId sample.duration sample.dataSize] := by
  cases h with
  | acknowledge =>
      cases hduty
      rfl
  | _ => cases hduty

end Advance

/-- Audio that one duty releases is dispatched by the next, and acknowledged by the one
after that. -/
def PassesOn (first next : Answers H × Deed H) : Prop :=
  ∀ selected, selected.majorType = .audio →
    (.released selected ∈ first.2.effects → next.2.task = .dispatch selected) ∧
      (first.2.task = .dispatch selected → next.2.task = .acknowledge selected.sample)

namespace PlaybackCourse

variable {opened? : Option (BoundSink H.Sink)} {done : List (Answers H × Deed H)}
  {s? : Option (Standing H)}
  {s : Standing H}

theorem ne_openingSink (h : PlaybackCourse opened? done s?) : s? ≠ some .openingSink := by
  cases h with
  | begun => simp
  | duty _ _ hadv => exact hadv.ne_openingSink

/-- What holds of a duty that does not open a sink holds of all of them. -/
theorem forall_duties {P : Answers H × Deed H → Prop} (h : PlaybackCourse opened? done s?)
    (hP : ∀ c x s y effects s?, s ≠ .openingSink → x.sink = s.sink? opened? →
      Advance c x s y effects s? →
      P (c.answers, ⟨x, s.duty, effects⟩)) : ∀ e ∈ done, P e := by
  induction h with
  | begun => exact fun _ he => nomatch he
  | duty hcourse hsink hadv _ ih =>
      have hs := hP _ _ _ _ _ _ (fun heq => hcourse.ne_openingSink (heq ▸ rfl)) hsink hadv
      exact List.forall_mem_append.mpr ⟨ih, List.forall_mem_singleton.mpr hs⟩

theorem task_ne_openSink (h : PlaybackCourse opened? done s?) :
    ∀ e ∈ done, e.2.task ≠ .openSink := by
  refine h.forall_duties fun c x s y effects s? hs _ _ htask => ?_
  cases s <;> first | exact hs rfl | cases htask

theorem sink_call (h : PlaybackCourse opened? done s?) :
    ∀ e ∈ done, ∀ k call, .sink k call ∈ e.2.effects →
    (call.isPlay ∨ call = .release) ∧ opened?.map (·.serial) = some k := by
  refine h.forall_duties fun c x s y effects s? hs hsink hadv k call hmem => ?_
  obtain ⟨hcall, hbound⟩ := hadv.sink_call hs hmem
  rw [Presentation.boundSerial, hsink] at hbound
  rcases s.sink?_cases opened? with hnone | hopened
  · simp [hnone] at hbound
  · exact ⟨hcall, hopened ▸ hbound⟩

theorem acknowledged (h : PlaybackCourse opened? done s?) :
    ∀ e ∈ done, ∀ sample, e.2.task = .acknowledge sample →
    e.2.effects = [.acknowledged sample.receiver sample.sampleId sample.duration sample.dataSize] :=
  h.forall_duties fun _ _ _ _ _ _ _ _ hadv _ htask => hadv.effects_of_acknowledge htask

/-- The sink that was opened plays the audio that is dispatched. -/
theorem played (h : PlaybackCourse opened? done s?) :
    ∀ e ∈ done, ∀ selected payload, e.2.task = .dispatch selected →
    selected.majorType = .audio → selected.sample.payload = some payload →
      e.2.effects = opened?.toList.map fun b =>
        .sink b.serial (.play payload (e.1.play b.sink payload)) := by
  refine h.forall_duties fun c x s y effects s? _ hsink hadv selected payload htask haudio
    hpayload => ?_
  have hopened : s.sink? opened? = opened? := by
    cases s <;> first | rfl | cases htask
  rw [← hopened, ← hsink]
  exact hadv.effects_of_dispatch htask haudio hpayload

/-- A thread that is about to end has released its sink. -/
theorem released (h : PlaybackCourse opened? done (some (.at .ending))) :
    ∃ e ∈ done, e.2.task = .releaseSink := by
  generalize hs : some (Standing.at .ending) = s? at h
  cases h with
  | begun => cases hs
  | duty _ _ hadv =>
      cases hadv with
      | releaseSink => exact ⟨_, List.mem_concat_self, rfl⟩
      | poll =>
          split at hs <;> cases hs
      | leave =>
          split at hs <;> cases hs
      | @acknowledge _ pacing => cases pacing <;> cases hs
      | _ => cases hs

theorem passesOn (h : PlaybackCourse none done (some s)) {last next : Answers H × Deed H}
    (hlast : done.getLast? = some last) (hnext : next.2.task = s.duty) : PassesOn last next := by
  cases h with
  | begun => cases hlast
  | @duty _ s' _ _ _ _ _ hcourse hsink hadv =>
      rw [List.getLast?_concat, Option.some.injEq] at hlast
      subst hlast
      intro selected haudio
      refine ⟨fun hmem => ?_, fun htask => ?_⟩
      · exact hnext.trans
          (hadv.duty_of_released (fun heq => hcourse.ne_openingSink (heq ▸ rfl)) hmem)
      · have hnone : Standing.sink? none s' = none := by
          cases s' with
          | «at» phase => cases phase <;> rfl
          | _ => rfl
        exact hnext.trans (hadv.duty_of_dispatch htask haudio (hsink.trans hnone))

theorem isChain_passesOn (h : PlaybackCourse none done s?) : done.IsChain PassesOn := by
  induction h with
  | begun => exact .nil
  | duty hcourse _ _ _ ih =>
      refine List.isChain_append.mpr ⟨ih, .singleton _, fun last hlast next hnext => ?_⟩
      cases hnext
      exact hcourse.passesOn hlast rfl

theorem getLast?_of_none (h : PlaybackCourse opened? done none) :
    ∃ e, done.getLast? = some e ∧ e.2.task = .playback .ending := by
  cases h with
  | duty _ _ _ hends =>
      obtain rfl := hends rfl
      exact ⟨_, List.getLast?_concat, rfl⟩

end PlaybackCourse

/-! ## The sink of a thread in a run -/

/-- The first thing that a thread has done is to open its sink, for the settings of that moment.
What it has done since then is listed. -/
inductive Run.OpensSink (r : Run H) (p : Key) (b : ActorId) (config : Config)
    (outputs : AudioBackends H.Output)
    (opened? : Option (BoundSink H.Sink)) (done : List (Answers H × Deed H)) : Prop where
  | intro {past t since answers x effects} : r.trace = past ++ t :: since →
      t.action = .step b answers →
      t.doing? p = some (b, ⟨x, .openSink, effects⟩) → x.sink = none →
      Opening config outputs answers.sinks (formatAfter p past)
        (deviceAfter p past) x.sinksOpened opened? effects →
      r.duties p b = (answers, ⟨x, .openSink, effects⟩) :: done →
        OpensSink r p b config outputs opened? done

inductive Run.PlaysFor (r : Run H) (p : Key) (b : ActorId) (config : Config)
    (outputs : AudioBackends H.Output)
    (opened? : Option (BoundSink H.Sink)) : Option (Standing H) → Prop where
  | foreign : r.duties p b = [] → PlaysFor r p b config outputs opened? none
  | begins : r.duties p b = [] → PlaysFor r p b config outputs opened? (some .openingSink)
  | goesOn {done s?} : r.OpensSink p b config outputs opened? done →
      PlaybackCourse opened? done s? →
      PlaysFor r p b config outputs opened? s?

structure Run.Equipped (r : Run H) (p : Key) (b : ActorId) (config : Config)
    (outputs : AudioBackends H.Output) (crew : Crew H) : Prop where
  listed : r.duties p b ≠ [] → b < r.final.actors.length
  course : ∃ opened?, r.PlaysFor p b config outputs opened? (crew.of b) ∧
    ∀ x s, r.final.presentations[p]? = some x → crew.of b = some s → x.sink = s.sink? opened?

namespace Run.OpensSink

variable {r : Run H} {p : Key} {b : ActorId} {config : Config} {outputs : AudioBackends H.Output}
  {opened? : Option (BoundSink H.Sink)} {done : List (Answers H × Deed H)}

theorem extend (h : r.OpensSink p b config outputs opened? done) (action : Action H)
    (progress : Progress H) :
    (r.extend action progress).OpensSink p b config outputs opened?
      (done ++ (Transition.duty? ⟨r.final, action, progress⟩ p b).toList) := by
  obtain @⟨past, t, since, answers, x, effects, htrace, haction, hdoing, hsink, hopening,
    hduties⟩ := h
  have hlonger : (r.extend action progress).trace =
      past ++ t :: (since ++ [⟨r.final, action, progress⟩]) := by
    rw [Run.extend, htrace, List.append_assoc, List.cons_append]
  refine .intro hlonger haction hdoing hsink hopening ?_
  rw [Run.duties_extend, hduties, List.cons_append]

end Run.OpensSink

namespace Run.Equipped

variable {r : Run H} {p : Key} {b : ActorId} {config : Config} {outputs : AudioBackends H.Output}
  {crew crew' : Crew H} {action : Action H} {progress : Progress H} {deed : Deed H}

theorem keep (h : r.Equipped p b config outputs crew) (hplay : r.final.play action = some progress)
    (hnone : Transition.duty? ⟨r.final, action, progress⟩ p b = none) (hof : crew'.of b = crew.of b)
    (hsink : ∀ s y, crew.of b = some s → progress.machine.presentations[p]? = some y →
      ∃ x, r.final.presentations[p]? = some x ∧ y.sink = x.sink) :
    (r.extend action progress).Equipped p b config outputs crew' where
  listed hduties := by
    rw [duties_extend, hnone, Option.toList_none, List.append_nil] at hduties
    exact Nat.lt_of_lt_of_le (h.listed hduties) (Machine.length_actors_le hplay)
  course := by
    obtain ⟨opened?, hplays, hbound⟩ := h.course
    have hduties : (r.extend action progress).duties p b = r.duties p b := by
      rw [duties_extend, hnone, Option.toList_none, List.append_nil]
    rw [hof]
    refine ⟨opened?, ?_, fun y s hy hs => ?_⟩
    · generalize crew.of b = s? at hplays
      cases hplays with
      | foreign hempty => exact .foreign (hduties.trans hempty)
      | begins hempty => exact .begins (hduties.trans hempty)
      | goesOn hopens hcourse =>
          have hsame := hopens.extend action progress
          rw [hnone, Option.toList_none, List.append_nil] at hsame
          exact .goesOn hsame hcourse
    · obtain ⟨x, hx, hsame⟩ := hsink s y hs hy
      exact hsame.trans (hbound x s hx hs)

theorem own (h : r.Equipped p b config outputs crew) (hremembers : r.RemembersAudio p)
    (hconfig : r.final.config = config) (houtputs : r.final.outputs = outputs)
    (hcrew : Crewed r.final p crew)
    (hcrew' : Crewed progress.machine p crew') (hplay : r.final.play action = some progress)
    (hdoing : Transition.doing? p ⟨r.final, action, progress⟩ = some (b, deed))
    (hduty : deed.task.isDuty) (hends : crew' = none → crew = some (b, .at .ending)) :
    (r.extend action progress).Equipped p b config outputs crew' := by
  obtain ⟨answers, s, s?, y, rfl, rfl, rfl, htask, hx, hy, hadv⟩ :=
    hcrew.advance_of_doing hcrew' hplay hdoing hduty
  obtain ⟨x, task, effects⟩ := deed
  subst htask
  have hdone : Transition.duty? ⟨r.final, .step b answers, progress⟩ p b =
      some (answers, ⟨x, s.duty, effects⟩) :=
    Transition.duty?_eq_some.mpr ⟨rfl, Transition.deed?_of_doing hdoing, hduty⟩
  have hlisted : b < progress.machine.actors.length := by
    obtain ⟨_, _, -, hstack, -⟩ := Transition.perform_of_doing hplay hdoing
    exact Nat.lt_of_lt_of_le (Machine.lt_of_stack hstack) (Machine.length_actors_le hplay)
  refine ⟨fun _ => hlisted, ?_⟩
  obtain ⟨opened?, hplays, hbound⟩ := h.course
  have hof : Crew.of (some (b, s)) b = some s := Crew.of_self b (some s)
  replace hbound : x.sink = s.sink? opened? := hbound x s hx hof
  rw [hof] at hplays
  rw [Crew.of_self]
  cases hplays with
  | begins hempty =>
      cases hadv with
      | @openSink sink opened _ hopen =>
          have hformat : x.audioFormat = formatAfter p r.trace := by
            rw [← hremembers.format, hx]
            rfl
          have hdevice : x.audioDevice = deviceAfter p r.trace := by
            rw [← hremembers.device, hx]
            rfl
          have hopening :=
            Presentation.opening (hformat ▸ formatAfter_isComplete p r.trace) hbound hopen
          refine ⟨sink, .goesOn (.intro rfl rfl hdoing hbound ?_ ?_) .begun, fun z s hz hs => ?_⟩
          · rw [← hformat, ← hdevice, ← hconfig, ← houtputs]
            exact hopening
          · rw [duties_extend, hempty, hdone]
            rfl
          · cases hs
            obtain rfl := Option.some.inj (hy.symm.trans hz)
            rfl
  | goesOn hopens hcourse =>
      have hne : s ≠ .openingSink := fun heq => hcourse.ne_openingSink (heq ▸ rfl)
      have hsame := hopens.extend (.step b answers) progress
      rw [hdone] at hsame
      refine ⟨opened?, .goesOn hsame (hcourse.duty hbound hadv fun hnone => ?_),
        fun z s' hz hs => ?_⟩
      · rw [hnone] at hends
        exact (Prod.mk.inj (Option.some.inj (hends rfl))).2
      · subst hs
        obtain rfl := Option.some.inj (hy.symm.trans hz)
        exact hadv.sink?_eq hne hbound

/-- A new thread has no sink to begin with. -/
theorem start {a : ActorId} {x : Presentation H} (h : r.Equipped p b config outputs none)
    (hplay : r.final.play action = some progress)
    (hnone : Transition.duty? ⟨r.final, action, progress⟩ p b = none) (hunbound : x.sink = none)
    (hy : progress.machine.presentations[p]? = some (x.spawn a)) :
    (r.extend action progress).Equipped p b config outputs
    (some (r.final.actors.length, .openingSink)) := by
  by_cases hb : b = r.final.actors.length
  · subst hb
    have hempty : r.duties p r.final.actors.length = [] :=
      Classical.byContradiction fun hduties => Nat.lt_irrefl _ (h.listed hduties)
    have hsame : (r.extend action progress).duties p r.final.actors.length = [] := by
      rw [duties_extend, hempty, hnone]
      rfl
    have hof : Crew.of (some (r.final.actors.length, (.openingSink : Standing H)))
        r.final.actors.length =
        some .openingSink := Crew.of_self _ (some .openingSink)
    refine ⟨fun hduties => absurd hsame hduties, none, hof ▸ .begins hsame, fun y s hy' hs => ?_⟩
    rw [hof] at hs
    cases hs
    cases hy.symm.trans hy'
    exact hunbound
  · have hof : Crew.of (some (r.final.actors.length, (.openingSink : Standing H))) b = none :=
      Crew.of_of_ne (some .openingSink) hb
    exact h.keep hplay hnone hof fun s y hs => nomatch hs

theorem next (h : r.Equipped p b config outputs crew) (hquiet : r.Quiet p crew)
    (hremembers : r.RemembersAudio p)
    (hconfig : r.final.config = config) (houtputs : r.final.outputs = outputs)
    (hcrew : Crewed r.final p crew)
    (hplay : r.final.play action = some progress) (hcrew' : Crewed progress.machine p crew')
    (hturn : Turn r.final progress.machine p crew
      (Transition.doing? p ⟨r.final, action, progress⟩) crew')
    (hwhole : r.brokeOff p = false)
    (htimely : Transition.breaksOff ⟨r.final, action, progress⟩ p = false) :
    (r.extend action progress).Equipped p b config outputs crew' := by
  have hpresent : ∀ s, crew.of b = some s →
      crew = some (b, s) ∧ ∃ x, r.final.presentations[p]? = some x := by
    intro s hs
    obtain rfl := Crew.eq_some_of hs
    exact ⟨rfl, hcrew.exists_presentation⟩
  cases hdoing : Transition.doing? p ⟨r.final, action, progress⟩ with
  | none =>
      have hnone : Transition.duty? ⟨r.final, action, progress⟩ p b = none :=
        Transition.duty?_eq_none_of_free (fun a deed hdeed => nomatch hdoing.symm.trans hdeed)
      rw [hdoing] at hturn
      have hsame : crew' = crew := by
        cases hx : r.final.presentations[p]? with
        | none => exact (hturn.absent hx).2.1
        | some x => exact (hturn.still hx).2
      refine h.keep hplay hnone (by rw [hsame]) fun s y hs hy => ?_
      obtain ⟨-, x, hx⟩ := hpresent s hs
      obtain rfl := Option.some.inj ((hturn.still hx).1.symm.trans hy)
      exact ⟨_, hx, rfl⟩
  | some doing =>
      obtain ⟨a, deed⟩ := doing
      have hends : crew' = none → ∀ s, crew = some (b, s) → s = .at .ending := fun hnone s hown =>
        hturn.ending hown hnone (Transition.stack_of_whole hplay htimely)
      have hfree : deed.task.isDuty = false →
          Transition.duty? ⟨r.final, action, progress⟩ p b = none :=
        fun hfree => Transition.duty?_eq_none_of_free fun a' deed' hdeed => by
          cases hdoing.symm.trans hdeed
          exact hfree
      have hforeign :=
        Transition.duty?_eq_none_of_foreign (t := ⟨r.final, action, progress⟩) (b := b) hplay hturn
      rw [hdoing] at hturn
      cases hturn with
      | @aside _ answers task rest x move hx hy hnot hstart hmove =>
          refine h.keep hplay (hfree hnot) rfl fun s y hs hy' => ⟨x, hx, ?_⟩
          obtain rfl := Option.some.inj (hy.symm.trans hy')
          obtain ⟨rfl, -⟩ := hpresent s hs
          have hconduct :=
            Presentation.perform_conduct (c := r.final.surroundings a p answers) hnot hstart
          rw [hmove] at hconduct
          rcases hconduct.sink_cases.2 with ⟨hsame, -⟩ | ⟨-, hsame, -⟩ | ⟨-, hgone, -⟩
          · exact hsame
          · rw [hsame]
          · -- the thread keeps the presentation
            cases hgone.symm.trans hcrew.alive
      | start hnone hx hy =>
          subst hnone
          exact h.start hplay (hfree rfl) (hquiet.unbound hwhole rfl _ hx) hy
      | @duty _ _ s x y _ s? hown hx hy =>
          by_cases ha : a = b
          · subst ha
            refine h.own hremembers hconfig houtputs hcrew hcrew' hplay hdoing s.duty_isDuty
              fun hnone => ?_
            rw [hown, hends hnone s hown]
          · have hother : ∀ s, crew ≠ some (b, s) := by
              intro s' heq
              exact ha (Prod.mk.inj (Option.some.inj (hown.symm.trans heq))).1
            have hof : crew.of b = none := hown ▸ Crew.of_of_ne (some s) (Ne.symm ha)
            refine h.keep hplay (hforeign hother)
              ((Crew.of_of_ne s? (Ne.symm ha)).trans hof.symm) fun s' y' hs' => ?_
            cases hof.symm.trans hs'

end Run.Equipped

namespace Machine

theorem run_equipped (config : Config) (decoders : DecoderBackends H.Codec)
    (outputs : AudioBackends H.Output) (actions : List (Action H)) (p : Key) (b : ActorId) :
    ∃ crew, Crewed ((initial config decoders outputs).run actions).final p crew ∧
      (((initial config decoders outputs).run actions).brokeOff p = false →
        ((initial config decoders outputs).run actions).Equipped p b config outputs crew) := by
  obtain ⟨crew, hcrew, -, -, -, hequipped⟩ := run_turns
    (P := fun r crew => r.Quiet p crew ∧ r.RemembersAudio p ∧
      r.final.fittings = (config, decoders, outputs) ∧
      (r.brokeOff p = false → r.Equipped p b config outputs crew))
    (initial config decoders outputs) (fun q => ⟨none, .initial config decoders outputs q⟩)
    (.initial config decoders outputs p)
    ⟨.initial config decoders outputs p, ⟨rfl, rfl⟩, rfl, fun _ =>
      ⟨fun hduties => absurd rfl hduties, none, .foreign rfl, fun _ _ _ hs => nomatch hs⟩⟩
    (fun r action progress crew crew' hcrew
      ⟨hquiet, hremembers, hfittings, hequipped⟩ hplay hcrew' hturn => by
      refine ⟨hquiet.next hcrew hplay hturn, hremembers.next hcrew hplay hturn,
        (fittings_play hplay).trans hfittings,
        fun hwhole => ?_⟩
      obtain ⟨hwhole, htimely⟩ := Run.brokeOff_extend.mp hwhole
      exact (hequipped hwhole).next hquiet hremembers (congrArg (·.1) hfittings)
        (congrArg (·.2.2) hfittings) hcrew
        hplay hcrew' hturn hwhole htimely)
    actions
  exact ⟨crew, hcrew, hequipped⟩

end Machine

structure Run.KeepsSink (r : Run H) (p : Key) (b : ActorId) (opened? : Option (BoundSink H.Sink))
    (done : List (Answers H × Deed H)) : Prop where
  once : ∀ e ∈ done, e.2.task ≠ .openSink
  calls : ∀ e ∈ done, ∀ k call, .sink k call ∈ e.2.effects →
    (call.isPlay ∨ call = .release) ∧ opened?.map (·.serial) = some k
  played : ∀ e ∈ done, ∀ selected payload, e.2.task = .dispatch selected →
    selected.majorType = .audio →
    selected.sample.payload = some payload →
      e.2.effects = opened?.toList.map fun s =>
        .sink s.serial (.play payload (e.1.play s.sink payload))
  /-- Without a sink audio goes on to its acknowledgment. -/
  unplayed : opened? = none → done.IsChain PassesOn
  acknowledged : ∀ e ∈ done, ∀ sample, e.2.task = .acknowledge sample →
    e.2.effects = [.acknowledged sample.receiver sample.sampleId sample.duration sample.dataSize]
  bound : r.final.plays p b → ∀ x, r.final.presentations[p]? = some x →
    x.sink = opened? ∨ x.sink = none ∧ ∃ e ∈ done, e.2.task = .releaseSink
  ended : r.final.plays p b = false → ∃ e, done.getLast? = some e ∧ e.2.task = .playback .ending

def Transition.Launches (t : Transition H) (p : Key) : Prop :=
  t.Starts p ∧ ∃ a answers, t.action = .step a answers ∧ answers.spawn = .ok ()

structure Run.ChoosesSinks (r : Run H) (p : Key) (config : Config)
    (outputs : AudioBackends H.Output) : Prop where
  begins : ∀ past t after, r.trace = past ++ t :: after → t.Launches p →
    (⟨t.before, past⟩ : Run H).duties p t.before.actors.length = [] ∧
      t.progress.machine.stack t.before.actors.length = Task.body.map (.at p)
  opens : ∀ b rest answers, r.final.stack b = .at p .openSink :: rest →
    ∃ progress, r.final.play (.step b answers) = some progress
  chosen : ∀ b, r.duties p b ≠ [] →
    ∃ opened? done, r.OpensSink p b config outputs opened? done ∧ r.KeepsSink p b opened? done
  /-- The formats among the settings are those of audio that is negotiated for
  registered streams. -/
  negotiated : ∀ t ∈ r.trace, ∀ a x place decoder media effects,
    t.doing? p = some (a, ⟨x, .setFormat place decoder media, effects⟩) → ∀ format,
      t.formats? p = some format ↔
        media.majorType = .audio ∧ format = .ofMediaType media ∧ t.before.alive p ∧
          ∃ stream, x.streams[place]? = some stream ∧ ∃ q ∈ x.queues, q.id = stream.id
  /-- The devices among the settings are those that calls have asked for. -/
  requested : ∀ past t after a x device effects, r.trace = past ++ t :: after →
    t.doing? p = some (a, ⟨x, .setAudioDevice device, effects⟩) →
      ∃ u ∈ past, ∃ backend name, u.action = .call a (.setAudioDevice p backend name) ∧
        device = .request backend name

namespace Run.Equipped

variable {r : Run H} {p : Key} {b : ActorId} {config : Config} {outputs : AudioBackends H.Output}
  {crew : Crew H}

theorem chosen (h : r.Equipped p b config outputs crew) (hcrew : Crewed r.final p crew)
    (hduties : r.duties p b ≠ []) :
    ∃ opened? done, r.OpensSink p b config outputs opened? done ∧ r.KeepsSink p b opened? done := by
  obtain ⟨opened?, hplays, hbound⟩ := h.course
  generalize hs : crew.of b = s? at hplays
  cases hplays with
  | foreign hempty => exact absurd hempty hduties
  | begins hempty => exact absurd hempty hduties
  | @goesOn done _ hopens hcourse =>
      refine ⟨opened?, done, hopens,
        { once := hcourse.task_ne_openSink
          calls := hcourse.sink_call
          played := hcourse.played
          unplayed := ?_
          acknowledged := hcourse.acknowledged
          bound := fun hplays x hx => ?_
          ended := fun hends => ?_ }⟩
      · rintro rfl
        exact hcourse.isChain_passesOn
      · obtain ⟨s, rfl⟩ := hcrew.of_plays hplays
        obtain rfl : some s = s? := (Crew.of_self b (some s)).symm.trans hs
        have hsink := hbound x s hx hs
        by_cases hending : s = .at .ending
        · subst hending
          exact .inr ⟨hsink, hcourse.released⟩
        · left
          rw [hsink]
          cases s with
          | openingSink => exact absurd rfl hcourse.ne_openingSink
          | «at» phase => cases phase <;> first | rfl | exact absurd rfl hending
          | _ => rfl
      · cases s? with
        | none => exact hcourse.getLast?_of_none
        | some s =>
            rw [Crew.eq_some_of hs] at hcrew
            rw [hcrew.plays] at hends
            cases hends

end Run.Equipped

namespace Machine

theorem exists_play_openSink {m : Machine H} {p : Key} {b : ActorId} {crew : Crew H}
    {rest : List (Job H)}
    (hcrew : Crewed m p crew) (hstack : m.stack b = .at p .openSink :: rest) (answers : Answers H) :
    ∃ progress, m.play (.step b answers) = some progress := by
  obtain ⟨s, rfl, -⟩ := hcrew.standing_of_stack hstack rfl
  obtain ⟨x, hx⟩ := hcrew.exists_presentation
  obtain ⟨sink, opened, effects, hopen, -⟩ :=
    Presentation.openSink_eq_going (m.surroundings b p answers) x
  exact ⟨_, play_step hstack hx hopen⟩

theorem body_of_launches {config : Config} {decoders : DecoderBackends H.Codec}
    {outputs : AudioBackends H.Output}
    {actions : List (Action H)} {p : Key} {past after : List (Transition H)} {t : Transition H}
    (htrace : ((initial config decoders outputs).run actions).trace = past ++ t :: after)
    (hlaunches : t.Launches p) :
    t.progress.machine.stack t.before.actors.length = Task.body.map (.at p) := by
  obtain ⟨⟨a, x, effects, hdoing, hidle⟩, b, answers, haction, hspawn⟩ := hlaunches
  obtain ⟨hplay, -⟩ := turn_of_trace htrace p
  obtain ⟨m, action, progress⟩ := t
  obtain ⟨answers', rest, haction', -, -, ⟨move, hmove, hprogress, -⟩ | ⟨hunwinds, -⟩⟩ :=
    Transition.perform_of_doing hplay hdoing
  · cases haction.symm.trans haction'
    rcases Presentation.start_cases hmove with ⟨hrunning, -⟩ | ⟨text, hnone, -⟩ | ⟨-, rfl⟩
    · rw [hidle] at hrunning
      cases hrunning
    · cases hspawn.symm.trans hnone
    · rw [hprogress, stack_after_new (Nat.le_refl _), Nat.sub_self]
      rfl
  · exact absurd hunwinds (Presentation.start_ne_unwinds _ x)

/-- A thread opens its sink before anything else, for what has been negotiated and asked for last,
and uses this sink and no other one; without a sink it acknowledges audio and does not play it. That
is so as long as no thread of the presentation breaks off. -/
theorem sinks_chosen (config : Config) (decoders : DecoderBackends H.Codec)
    (outputs : AudioBackends H.Output) (actions : List (Action H)) (p : Key)
    (hwhole : ((initial config decoders outputs).run actions).brokeOff p = false) :
    ((initial config decoders outputs).run actions).ChoosesSinks p config outputs where
  begins past t after htrace hlaunches := by
    refine ⟨?_, body_of_launches htrace hlaunches⟩
    obtain ⟨earlier, hrun, -⟩ := run_split _ actions htrace
    have hearlier : ((initial config decoders outputs).run earlier).brokeOff p = false := by
      rw [Run.brokeOff, htrace, List.any_append, Bool.or_eq_false_iff] at hwhole
      rw [hrun]
      exact hwhole.1
    obtain ⟨crew, -, hequipped⟩ :=
      run_equipped config decoders outputs earlier p t.before.actors.length
    have hlisted := (hequipped hearlier).listed
    rw [hrun] at hlisted
    exact Classical.byContradiction fun hduties => Nat.lt_irrefl _ (hlisted hduties)
  opens b rest answers hstack := by
    obtain ⟨crew, hcrew⟩ := run_crewed config decoders outputs actions p
    exact exists_play_openSink hcrew hstack answers
  chosen b hduties := by
    obtain ⟨crew, hcrew, hequipped⟩ := run_equipped config decoders outputs actions p b
    exact (hequipped hwhole).chosen hcrew hduties
  negotiated t ht a x place decoder media effects hdoing format :=
    Transition.formats?_eq_some_iff (play_of_mem ht) hdoing format
  requested past t after a x device effects htrace hdoing := by
    obtain ⟨earlier, hrun, hplay⟩ := run_split _ actions htrace
    obtain ⟨_, _, -, hstack, -⟩ := Transition.perform_of_doing hplay hdoing
    have hmem : Job.at p (.setAudioDevice device) ∈
        ((initial config decoders outputs).run earlier).final.stack a := by
      rw [hrun, hstack]
      exact List.mem_cons_self
    have hcall := request_of_mem config decoders outputs earlier hmem
    rwa [hrun] at hcall

end Machine

/-- The numbers of the sinks that a thread has played to, once for each time. -/
def Run.playsTo (r : Run H) (p : Key) (b : ActorId) : List Nat :=
  ((r.duties p b).flatMap (·.2.effects)).filterMap fun
    | .sink k call => if call.isPlay then some k else none
    | _ => none

theorem Run.ChoosesSinks.playsTo_eq_nil {r : Run H} {p : Key} {b : ActorId} {config : Config}
    {outputs : AudioBackends H.Output} (h : r.ChoosesSinks p config outputs)
    (hopening : ∀ e, (r.duties p b).head? = some e → e.2.effects = []) : r.playsTo p b = [] := by
  by_cases hduties : r.duties p b = []
  · simp [playsTo, hduties]
  obtain ⟨opened?, done, hopens, hkeeps⟩ := h.chosen b hduties
  obtain ⟨-, -, -, -, hopened, hsplit⟩ := hopens
  rw [hsplit] at hopening
  obtain rfl := hopening _ rfl
  have hnone : opened? = none := by
    generalize heffects : ([] : List (Effect H)) = effects at hopened
    cases hopened <;> first | rfl | cases heffects
  refine List.filterMap_eq_nil_iff.mpr fun effect heffect => ?_
  obtain ⟨e, he, hmem⟩ := List.mem_flatMap.mp heffect
  rw [hsplit] at he
  rcases List.mem_cons.mp he with rfl | he
  · cases hmem
  · cases effect with
    | sink k call =>
        have hcall := (hkeeps.calls e he k call hmem).2
        rw [hnone] at hcall
        cases hcall
    | _ => rfl

namespace Machine

open Playout.Action

def anotherPiece : List (Action .plain) :=
  calling 0 (.push ⟨0, 0⟩ ⟨1, 1, 2, 1, .empty, [0], 0⟩) 2 ++ calling 0 (.start 0) 2 ++ steps 2 6

/-- A thread has opened its sink when the host asks for a backend that nobody knows. It is stopped
and followed by another thread. -/
def redirected : List (Action .plain) :=
  prepared (.audio .unknown 44100 2 16) [0] ++ calling 0 (.start 0) 2 ++ steps 1 1
    ++ calling 0 (.setAudioDevice 0 (some "absent") none) 1 ++ steps 1 5 ++ calling 0 (.stop 0) 2 ++
      steps 1 6
    ++ steps 0 4 ++ anotherPiece

/-- The first thread plays to its sink all the same, and the second one plays to none. -/
theorem redirected_chosen :
    let r := (initial impatient (.standardDecoders ()) (Backends.empty.register "null" ())).run
        redirected
    r.brokeOff 0 = false ∧ r.ChoosesSinks 0 impatient (Backends.empty.register "null" ()) ∧
      r.playsTo 0 1 = [0] ∧ r.playsTo 0 2 = [] ∧ (r.duties 0 2).length = 5 := by
  have hwhole : ((initial impatient (.standardDecoders ()) (Backends.empty.register "null" ())).run
      redirected).brokeOff 0 = false := by decide +kernel
  exact ⟨hwhole,
    sinks_chosen _ _ _ redirected 0 hwhole, by decide +kernel, by decide +kernel, by decide +kernel⟩

/-- A thread has broken off when the host asks for a backend that nobody knows. It is followed by
another thread. -/
def restarted : List (Action .plain) :=
  leftBehind ++ calling 0 (.setAudioDevice 0 (some "absent") none) 1 ++ anotherPiece

/-- The second thread opens nothing, and plays to the sink that the first one has left behind. -/
theorem leftover_sink_plays :
    let r := (initial patient (.standardDecoders ()) (Backends.empty.register "null" ())).run
        restarted
    patient.validate = .ok () ∧ deviceAfter 0 r.trace = ⟨some "absent", none⟩ ∧
      (r.duties 0 2).head?.map (fun e => e.2.effects.length) = some 0 ∧ r.playsTo 0 2 = [0] ∧
      ¬ r.ChoosesSinks 0 patient (Backends.empty.register "null" ()) := by
  intro r
  have hopening : (r.duties 0 2).head?.map (fun e => e.2.effects.length) = some 0 := by
    decide +kernel
  have hplays : r.playsTo 0 2 = [0] := by decide +kernel
  refine ⟨by decide, by decide +kernel, hopening, hplays, fun h => ?_⟩
  have hsilent : r.playsTo 0 2 = [] := h.playsTo_eq_nil fun e he => by
    rw [he] at hopening
    exact List.length_eq_zero_iff.mp (Option.some.inj hopening)
  cases hplays.symm.trans hsilent

end Machine

end Playout
