import Playout.Proofs.Audio.Buffering
import Playout.Proofs.Lifecycle.Halt

/-!
# Waiting for the sink

A thread that has played out what was left gives its sink some time to play out its own queue. It
asks the sink again and again, and sleeps in between, so that it is the clock that ends the wait and
not the sink. The number of questions is bounded by the time that is given and the time that each
sleep takes; after the last one the thread releases the sink and ends.
-/

namespace Playout

variable {H : Platform}

/-! ## What a waiting thread does -/

/-- How often a sleep fits into a time, if a last one may take longer. -/
def Duration.sleeps (time sleep : Duration) : Nat :=
  (time.nanos + sleep.nanos - 1) / sleep.nanos

/-- Somebody who has slept often enough has slept all the time. -/
theorem Duration.le_sleeps {time sleep : Duration} (hsleep : sleep.isZero = false) {n : Nat}
    (h : n * sleep.nanos < time.nanos + sleep.nanos) : n ≤ time.sleeps sleep := by
  have hpos : 0 < sleep.nanos := Nat.pos_of_ne_zero (by simpa [isZero] using hsleep)
  rw [sleeps, Nat.le_div_iff_mul_le hpos]
  omega

/-- A configuration that is accepted lets the thread sleep. -/
theorem Config.drainPoll_of_valid {config : Config} (h : config.validate = .ok ()) :
    config.audioDrainPollInterval.isZero = false := by
  unfold validate at h
  repeat' split at h
  all_goals simp_all

/-- The duties that a thread does after it has set a deadline, each with the host's answers, and
where it stands afterwards. -/
inductive DrainCourse (sleep : Duration) (deadline : Instant) :
    List (Answers H × Deed H) → Option (Standing H) → Prop where
  | begun : DrainCourse sleep deadline [] (some (.pollingSink deadline 0))
  /-- The sink has something to play and there is time left, so that the thread goes to sleep. -/
  | again {done wake answers x s} :
      DrainCourse sleep deadline done (some (.pollingSink deadline wake)) →
      wake ≤ answers.clock.nanos → x.sink = some s → answers.queueLength s.sink ≠ 0 →
        ¬ deadline ≤ answers.clock →
      DrainCourse sleep deadline
        (done ++ [(answers,
          ⟨x, .pollSink deadline wake, [.consulted (answers.queueLength s.sink)]⟩)])
        (some (.pollingSink deadline (answers.clock.nanos + sleep.nanos)))
  /-- The sink has nothing to play. -/
  | played {done wake answers x s} :
      DrainCourse sleep deadline done (some (.pollingSink deadline wake)) →
      wake ≤ answers.clock.nanos → x.sink = some s → answers.queueLength s.sink = 0 →
      DrainCourse sleep deadline (done ++ [(answers, ⟨x, .pollSink deadline wake, [.consulted 0]⟩)])
        (some (.at .closing))
  /-- The thread gives up. -/
  | late {done wake answers x s} :
      DrainCourse sleep deadline done (some (.pollingSink deadline wake)) →
      wake ≤ answers.clock.nanos → x.sink = some s → answers.queueLength s.sink ≠ 0 →
        deadline ≤ answers.clock →
      DrainCourse sleep deadline
        (done ++ [(answers,
          ⟨x, .pollSink deadline wake, [.consulted (answers.queueLength s.sink)]⟩)])
        (some (.at .closing))
  /-- There is no sink to ask. -/
  | unbound {done wake answers x} :
      DrainCourse sleep deadline done (some (.pollingSink deadline wake)) →
      wake ≤ answers.clock.nanos → x.sink = none →
      DrainCourse sleep deadline (done ++ [(answers, ⟨x, .pollSink deadline wake, []⟩)])
        (some (.at .closing))
  | close {done answers x} : DrainCourse sleep deadline done (some (.at .closing)) →
      DrainCourse sleep deadline (done ++ [(answers, ⟨x, .playback .closing, []⟩)])
        (some .releasingSink)
  | release {done answers x} : DrainCourse sleep deadline done (some .releasingSink) →
      DrainCourse sleep deadline
        (done ++ [(answers, ⟨x, .releaseSink, x.sink.toList.map fun s => .sink s.serial .release⟩)])
        (some (.at .ending))
  | finish {done answers x} : DrainCourse sleep deadline done (some (.at .ending)) → x.sink = none →
      DrainCourse sleep deadline (done ++ [(answers, ⟨x, .playback .ending, []⟩)]) none

def Effect.isQuery : Effect H → Bool
  | .consulted _ => true
  | _ => false

/-- How often the sink was asked in the course of some duties. -/
def queries (done : List (Answers H × Deed H)) : Nat :=
  (done.flatMap (·.2.effects)).countP (·.isQuery)

theorem queries_snoc (done : List (Answers H × Deed H)) (answers : Answers H) (deed : Deed H) :
    queries (done ++ [(answers, deed)]) = queries done + deed.effects.countP (·.isQuery) := by
  simp [queries]

@[simp] theorem queries_consulted (done : List (Answers H × Deed H)) (answers : Answers H)
    (x : Presentation H) (task : Task H) (depth : Nat) :
    queries (done ++ [(answers, ⟨x, task, [.consulted depth]⟩)]) = queries done + 1 := by
  rw [queries_snoc]
  rfl

@[simp] theorem queries_silent (done : List (Answers H × Deed H)) (answers : Answers H)
    (x : Presentation H)
    (task : Task H) : queries (done ++ [(answers, ⟨x, task, []⟩)]) = queries done :=
  queries_snoc ..

@[simp] theorem queries_release (done : List (Answers H × Deed H)) (answers : Answers H)
    (x : Presentation H) (task : Task H) (sink : Option (BoundSink H.Sink)) :
    queries (done ++ [(answers, ⟨x, task, sink.toList.map fun s => .sink s.serial .release⟩)]) =
      queries done := by
  rw [queries_snoc]
  simp [List.countP_eq_zero, Effect.isQuery]

/-- How many duties are left to a thread that asks no more than once again. -/
def Standing.toClose : Option (Standing H) → Nat
  | some (.pollingSink ..) => 4
  | some (.at .closing) => 3
  | some .releasingSink => 2
  | some (.at .ending) => 1
  | _ => 0

namespace DrainCourse

variable {sleep : Duration} {deadline : Instant} {done : List (Answers H × Deed H)}
  {s? : Option (Standing H)}

/-- A thread that goes to sleep again has slept once for each question, since it has set
its deadline. -/
theorem slept {start : Nat} {wake : Nat} {deadline' : Instant}
    (h : DrainCourse sleep deadline done (some (.pollingSink deadline' wake)))
    (hstart : ∀ e ∈ done, start ≤ e.1.clock.nanos) :
    done = [] ∧ wake = 0 ∨
      start + done.length * sleep.nanos ≤ wake ∧ wake < deadline.nanos + sleep.nanos := by
  generalize hs : some (Standing.pollingSink deadline' wake) = s? at h
  induction h generalizing wake deadline' with
  | begun =>
      cases hs
      exact .inl ⟨rfl, rfl⟩
  | @again done wake answers x s _ hwake _ _ htime ih =>
      cases hs
      have hlater : start ≤ answers.clock.nanos := hstart (answers, _) List.mem_concat_self
      have hearly : answers.clock.nanos < deadline.nanos := Nat.lt_of_not_le htime
      refine .inr ⟨?_, Nat.add_lt_add_right hearly _⟩
      rw [List.length_append, List.length_singleton, Nat.succ_mul]
      rcases ih (fun e he => hstart e (List.mem_append_left _ he)) rfl with ⟨rfl, -⟩ | ⟨hslept, -⟩
      · simpa using hlater
      · omega
  | _ => cases hs

/-- A thread asks once more after its last sleep, and has three things to do before it ends. -/
theorem length_le {start : Nat} {timeout : Duration} (h : DrainCourse sleep deadline done s?)
    (hsleep : sleep.isZero = false) (hdeadline : deadline.nanos = start + timeout.nanos)
    (hstart : ∀ e ∈ done, start ≤ e.1.clock.nanos) :
    done.length + Standing.toClose s? ≤ timeout.sleeps sleep + 4 := by
  have hasleep : ∀ {done : List (Answers H × Deed H)} {wake : Nat},
      DrainCourse sleep deadline done (some (.pollingSink deadline wake)) →
      (∀ e ∈ done, start ≤ e.1.clock.nanos) → done.length ≤ timeout.sleeps sleep := by
    intro done wake h hstart
    rcases h.slept hstart with ⟨rfl, -⟩ | ⟨hslept, hwake⟩
    · exact Nat.zero_le _
    · exact Duration.le_sleeps hsleep (by omega)
  have hinit : ∀ {done : List (Answers H × Deed H)} {e : Answers H × Deed H},
      (∀ f ∈ done ++ [e], start ≤ f.1.clock.nanos) → ∀ f ∈ done, start ≤ f.1.clock.nanos :=
    fun h f hf => h f (List.mem_append_left _ hf)
  induction h with
  | begun => simp [Standing.toClose]
  | again hcourse hwake hsink hlength htime =>
      have hbound := hasleep (.again hcourse hwake hsink hlength htime) hstart
      exact Nat.add_le_add_right hbound 4
  | played hcourse | late hcourse | unbound hcourse =>
      have hbound := hasleep hcourse (hinit hstart)
      simp only [List.length_append, List.length_singleton, Standing.toClose]
      omega
  | close _ ih | release _ ih | finish _ _ ih =>
      have hbound := ih (hinit hstart)
      simp only [List.length_append, List.length_singleton, Standing.toClose] at hbound ⊢
      omega

/-- Each duty asks the sink once at most. -/
theorem queries_le_length (h : DrainCourse sleep deadline done s?) :
    queries done ≤ done.length := by
  induction h with
  | begun => exact Nat.le_refl 0
  | again _ _ _ _ _ ih | played _ _ _ _ ih | late _ _ _ _ _ ih => simpa using ih
  | unbound _ _ _ ih | close _ ih | release _ ih | finish _ _ ih => simpa using Nat.le_succ_of_le ih

theorem queries_le (h : DrainCourse sleep deadline done s?) :
    queries done + 3 ≤ done.length + Standing.toClose s? := by
  induction h with
  | begun => simp [Standing.toClose, queries]
  | again hcourse | played hcourse | late hcourse | unbound hcourse =>
      have hbound := hcourse.queries_le_length
      simp [Standing.toClose]
      omega
  | close _ ih | release _ ih | finish _ _ ih =>
      simp only [Standing.toClose] at ih
      simp [Standing.toClose]
      omega

variable {c : Surroundings H} {x : Presentation H} {s : Standing H} {move : Move H}

theorem poll {wake : Nat} (h : DrainCourse sleep deadline done (some (.pollingSink deadline wake)))
    (hsleep : c.config.audioDrainPollInterval = sleep)
    (hmove : x.pollSink c deadline wake = .moves move) :
    ∃ s?, DrainCourse sleep deadline
      (done ++ [(c.answers, ⟨x, .pollSink deadline wake, move.effects⟩)]) s? ∧
      move.next ++ [.playback .closing] = Standing.duties s? := by
  have hclosing : [.playback .closing] = Standing.duties (some (.at .closing : Standing H)) := rfl
  unfold Presentation.pollSink at hmove
  by_cases hwake : c.answers.clock.nanos < wake
  · rw [if_pos hwake] at hmove
    cases hmove
  rw [if_neg hwake] at hmove
  replace hwake := Nat.not_lt.mp hwake
  cases hsink : x.sink with
  | none =>
      simp only [Presentation.depth?, hsink, Option.map_none] at hmove
      cases hmove
      exact ⟨_, .unbound h hwake hsink, hclosing⟩
  | some s =>
      simp only [Presentation.depth?, hsink, Option.map_some] at hmove
      split at hmove
      · rename_i hnone
        cases hnone
      · rename_i hzero
        cases hmove
        exact ⟨_, .played h hwake hsink (Option.some.inj hzero), hclosing⟩
      · rename_i depth hne hdepth
        obtain rfl := Option.some.inj hdepth
        have hpending : c.answers.queueLength s.sink ≠ 0 := hne
        split at hmove
        · rename_i hlate
          cases hmove
          exact ⟨_, .late h hwake hsink hpending hlate, hclosing⟩
        · rename_i htime
          cases hmove
          exact ⟨_, .again h hwake hsink hpending htime, by rw [hsleep]; rfl⟩

/-- A thread that waits for its sink, or has done so, does one thing after the other. -/
theorem next (h : DrainCourse sleep deadline done (some s))
    (hsleep : c.config.audioDrainPollInterval = sleep)
    (hending : s = .at .ending → x.sink = none) (hunlocked : x.isStarting = false)
    (hmove : x.perform c s.duty = .moves move) :
    ∃ s?, DrainCourse sleep deadline (done ++ [(c.answers, ⟨x, s.duty, move.effects⟩)]) s? ∧
      move.next ++ s.later = Standing.duties s? ∧
        (s? = none → move.presentation.state = .stopped) := by
  have hpoll : ∀ {done : List (Answers H × Deed H)} {deadline' : Instant} {wake : Nat},
      DrainCourse sleep deadline done (some (.pollingSink deadline' wake)) →
        deadline' = deadline := by
    intro done deadline' wake h
    cases h <;> rfl
  cases s with
  | pollingSink deadline' wake =>
      obtain rfl := hpoll h
      obtain ⟨s?, hcourse, hnext⟩ := h.poll hsleep hmove
      refine ⟨s?, hcourse, hnext, ?_⟩
      rintro rfl
      simp [Standing.duties] at hnext
  | «at» phase =>
      cases phase with
      | closing =>
          cases hmove
          exact ⟨_, .close h, rfl, fun hnone => by cases hnone⟩
      | ending =>
          simp only [Standing.duty, Presentation.perform, Presentation.playback, hunlocked] at hmove
          cases hmove
          exact ⟨_, .finish h (hending rfl), rfl, fun _ => rfl⟩
      | _ => cases h
  | releasingSink =>
      cases hmove
      exact ⟨_, .release h, rfl, fun hnone => by cases hnone⟩
  | _ => cases h

theorem wake_eq {deadline' : Instant} {wake : Nat}
    (h : DrainCourse sleep deadline done (some (.pollingSink deadline' wake))) :
    wake = (done.getLast?.map fun e => e.1.clock.nanos + sleep.nanos).getD 0 := by
  cases h with
  | begun => rfl
  | again => simp

theorem sink_eq_none (h : DrainCourse sleep deadline done s?) :
    ∀ e ∈ done, e.2.task = .playback .ending → e.2.before.sink = none := by
  induction h with
  | begun => exact fun _ he => nomatch he
  | finish _ hnone ih =>
      exact List.forall_mem_append.mpr ⟨ih, List.forall_mem_singleton.mpr fun _ => hnone⟩
  | again _ _ _ _ _ ih | played _ _ _ _ ih | late _ _ _ _ _ ih | unbound _ _ _ ih | close _ ih
  | release _ ih =>
      refine List.forall_mem_append.mpr ⟨ih, List.forall_mem_singleton.mpr fun heq => ?_⟩
      cases heq

theorem ne_drainingSink (h : DrainCourse sleep deadline done (some s)) : s ≠ .drainingSink := by
  rintro rfl
  cases h

/-- It can do the next thing when it has slept enough. -/
theorem ready (h : DrainCourse sleep deadline done (some s)) (c : Surroundings H)
    (hunlocked : x.isStarting = false)
    (hwake : ∀ deadline wake, s = .pollingSink deadline wake → wake ≤ c.answers.clock.nanos) :
    ∃ move, x.perform c s.duty = .moves move := by
  cases s with
  | pollingSink deadline' wake =>
      simp only [Standing.duty, Presentation.perform, Presentation.pollSink,
        if_neg (Nat.not_lt.mpr (hwake _ _ rfl)), Presentation.going]
      split <;> try split
      all_goals exact ⟨_, rfl⟩
  | «at» phase =>
      cases phase with
      | closing => exact ⟨_, rfl⟩
      | ending =>
          simp only [Standing.duty, Presentation.perform, Presentation.playback, hunlocked]
          exact ⟨_, rfl⟩
      | _ => cases h
  | releasingSink => exact ⟨_, rfl⟩
  | _ => cases h

end DrainCourse

/-! ## The duties of a thread in a run -/

def Action.answers? (b : ActorId) : Action H → Option (Answers H)
  | .step a answers => if a = b then some answers else none
  | _ => none

theorem Action.answers?_eq_some {b : ActorId} {action : Action H} {answers : Answers H} :
    action.answers? b = some answers ↔ action = .step b answers := by
  cases action with
  | step a answers' => by_cases ha : a = b <;> simp [answers?, ha]
  | _ => simp [answers?]

/-- The duty of a presentation that an actor does, with the host's answers. -/
def Transition.duty? (t : Transition H) (p : Key) (b : ActorId) : Option (Answers H × Deed H) :=
  match t.action.answers? b, t.deed? p with
  | some answers, some deed => if deed.task.isDuty then some (answers, deed) else none
  | _, _ => none

def Run.duties (r : Run H) (p : Key) (b : ActorId) : List (Answers H × Deed H) :=
  r.trace.filterMap (·.duty? p b)

namespace Transition

variable {t : Transition H} {p : Key} {b : ActorId} {answers : Answers H} {deed : Deed H}

theorem duty?_eq_some :
    t.duty? p b = some (answers, deed) ↔
      t.action = .step b answers ∧ t.deed? p = some deed ∧ deed.task.isDuty := by
  rw [← Action.answers?_eq_some]
  unfold duty?
  split
  · rename_i answers' deed' hanswers hdeed
    simp only [hanswers, hdeed, Option.ite_none_right_eq_some, Option.some.injEq, Prod.mk.injEq]
    refine ⟨?_, ?_⟩
    · rintro ⟨hduty, rfl, rfl⟩
      exact ⟨rfl, rfl, hduty⟩
    · rintro ⟨rfl, rfl, hduty⟩
      exact ⟨hduty, rfl, rfl⟩
  · rename_i hnot
    simp only [reduceCtorEq, false_iff, not_and]
    exact fun hanswers hdeed => absurd hdeed (hnot _ _ hanswers)

theorem duty?_eq_none_of_idle (h : t.action.answers? b = none) : t.duty? p b = none := by
  simp [duty?, h]

theorem doing?_of_duty (hplay : t.before.play t.action = some t.progress)
    (h : t.duty? p b = some (answers, deed)) : t.doing? p = some (b, deed) := by
  obtain ⟨haction, hdeed, -⟩ := duty?_eq_some.mp h
  obtain ⟨a, hdoing⟩ := exists_doing hdeed
  obtain ⟨answers', -, haction', -⟩ := perform_of_doing hplay hdoing
  cases haction'.symm.trans haction
  exact hdoing

theorem duty?_eq_none_of_free
    (hfree : ∀ a deed, t.doing? p = some (a, deed) → deed.task.isDuty = false) :
    t.duty? p b = none := by
  refine Option.eq_none_iff_forall_not_mem.mpr fun ⟨answers, deed⟩ hmem => ?_
  obtain ⟨-, hdeed, hduty⟩ := duty?_eq_some.mp hmem
  obtain ⟨a, hdoing⟩ := exists_doing hdeed
  rw [hfree a deed hdoing] at hduty
  cases hduty

theorem duty?_eq_none_of_foreign {crew crew' : Crew H}
    (hplay : t.before.play t.action = some t.progress)
    (hturn : Turn t.before t.progress.machine p crew (t.doing? p) crew')
    (hforeign : ∀ s, crew ≠ some (b, s)) :
    t.duty? p b = none := by
  refine Option.eq_none_iff_forall_not_mem.mpr fun ⟨answers, deed⟩ hmem => ?_
  have hduty := (duty?_eq_some.mp hmem).2.2
  rw [doing?_of_duty hplay hmem] at hturn
  cases hturn with
  | aside _ _ hfree =>
      rw [hfree] at hduty
      cases hduty
  | start => cases hduty
  | duty hcrew => exact hforeign _ hcrew

end Transition

theorem Run.duties_extend (r : Run H) (p : Key) (b : ActorId) (action : Action H)
    (progress : Progress H) :
    (r.extend action progress).duties p b =
      r.duties p b ++ (Transition.duty? ⟨r.final, action, progress⟩ p b).toList := by
  simp only [duties, extend, List.filterMap_append, List.filterMap_cons, List.filterMap_nil]
  cases Transition.duty? ⟨r.final, action, progress⟩ p b <;> rfl

/-- Nobody begins a start while there is a thread. -/
theorem Turn.isStarting_eq_false {m m' : Machine H} {p : Key} {crew crew' : Crew H}
    {doing? : Option (ActorId × Deed H)} {x y : Presentation H} (h : Turn m m' p crew doing? crew')
    (hcrew : crew ≠ none) (hx : m.presentations[p]? = some x) (hy : m'.presentations[p]? = some y)
    (hunlocked : x.isStarting = false) : y.isStarting = false := by
  cases doing? with
  | none =>
      obtain rfl := Option.some.inj (hy.symm.trans (h.still hx).1)
      exact hunlocked
  | some doing =>
      rw [Presentation.isStarting] at hunlocked ⊢
      cases h with
      | aside hx' hy' hfree hstart hmove =>
          obtain rfl := Option.some.inj (hx.symm.trans hx')
          obtain rfl := Option.some.inj (hy.symm.trans hy')
          rcases (Presentation.perform_steering hfree hstart _ hmove).starter_cases with
            ⟨thread, -, hnone⟩ | ⟨-, hsame⟩
          · rw [hnone]
            rfl
          · rw [hsame]
            exact hunlocked
      | start hnone => exact absurd hnone hcrew
      | duty _ hx' hy' hadv =>
          obtain rfl := Option.some.inj (hx.symm.trans hx')
          obtain rfl := Option.some.inj (hy.symm.trans hy')
          rw [hadv.starter_eq]
          exact hunlocked

/-- A thread has set a deadline, and has done what there was to do since. -/
structure Run.Drains (r : Run H) (p : Key) (b : ActorId) (sleep : Duration) (deadline : Instant)
    (crew : Crew H) (s? : Option (Standing H)) : Prop where
  course : DrainCourse sleep deadline (r.duties p b) s?
  stack : ∀ s, s? = some s → r.final.stack b = (Standing.duties (some s)).map (.at p)
  gone : s? = none → ∀ s, crew ≠ some (b, s)
  listed : b < r.final.actors.length
  present : ∃ x, r.final.presentations[p]? = some x
  /-- A start that found no thread was over before. -/
  unlocked : s? ≠ none → ∀ x, r.final.presentations[p]? = some x → x.isStarting = false
  sleeps : r.final.config.audioDrainPollInterval = sleep

namespace Run.Drains

variable {r : Run H} {p : Key} {b : ActorId} {sleep : Duration} {deadline : Instant}
  {crew crew' : Crew H}
  {s? : Option (Standing H)} {s : Standing H} {action : Action H} {progress : Progress H}

theorem crew_ne_none (h : r.Drains p b sleep deadline crew s?) (hcrew : Crewed r.final p crew)
    (hopen : s? ≠ none) :
    crew ≠ none := by
  obtain ⟨s, rfl⟩ := Option.ne_none_iff_exists'.mp hopen
  obtain ⟨s', hown, -⟩ := hcrew.standing_of_stack (h.stack s rfl) s.duty_isDuty
  rw [hown]
  exact Option.some_ne_none _

/-- Nothing that others do changes where the thread stands. -/
theorem keep (h : r.Drains p b sleep deadline crew s?) (hcrew : Crewed r.final p crew)
    (hplay : r.final.play action = some progress)
    (hturn : Turn r.final progress.machine p crew
      (Transition.doing? p ⟨r.final, action, progress⟩) crew')
    (hnone : Transition.duty? ⟨r.final, action, progress⟩ p b = none)
    (hstack : ∀ s, s? = some s → progress.machine.stack b = r.final.stack b)
    (hover : s? = none → ∀ s, crew' ≠ some (b, s)) :
    (r.extend action progress).Drains p b sleep deadline crew' s? where
  course := by
    rw [duties_extend, hnone, Option.toList_none, List.append_nil]
    exact h.course
  stack s hs := (hstack s hs).trans (h.stack s hs)
  gone := hover
  listed := Nat.lt_of_lt_of_le h.listed (Machine.length_actors_le hplay)
  present := h.present.elim fun _ hx => hturn.exists_after hx
  unlocked hopen y hy := by
    obtain ⟨x, hx⟩ := h.present
    exact hturn.isStarting_eq_false (h.crew_ne_none hcrew hopen) hx hy (h.unlocked hopen x hx)
  sleeps := by
    rw [← h.sleeps]
    exact congrArg (·.audioDrainPollInterval) (Machine.config_play hplay)

theorem foreign (h : r.Drains p b sleep deadline crew none)
    (hturn : Turn r.final progress.machine p crew
      (Transition.doing? p ⟨r.final, action, progress⟩) crew') :
    ∀ s, crew' ≠ some (b, s) := by
  have hforeign := h.gone rfl
  generalize Transition.doing? p ⟨r.final, action, progress⟩ = doing? at hturn
  cases hturn with
  | start =>
      intro s heq
      have hlisted := h.listed
      rw [← (Prod.mk.inj (Option.some.inj heq)).1] at hlisted
      exact Nat.lt_irrefl _ hlisted
  | @duty a _ _ _ _ _ s'? hcrew =>
      intro s heq
      cases s'? with
      | none => cases heq
      | some s' =>
          cases heq
          exact hforeign _ hcrew
  | _ => exact hforeign

theorem own {answers : Answers H} (h : r.Drains p b sleep deadline crew (some s))
    (hcrew : Crewed r.final p crew)
    (hmanned : ∀ x, r.final.presentations[p]? = some x → Manned x crew)
    (hplay : r.final.play (.step b answers) = some progress)
    (hcrew' : Crewed progress.machine p crew')
    (hturn : Turn r.final progress.machine p crew
      (Transition.doing? p ⟨r.final, .step b answers, progress⟩) crew') :
    ∃ s? deed, (r.extend (.step b answers) progress).Drains p b sleep deadline crew' s? ∧
      (r.extend (.step b answers) progress).duties p b = r.duties p b ++ [(answers, deed)] := by
  obtain ⟨x, hx⟩ := h.present
  have hstack : r.final.stack b = .at p s.duty :: s.later.map (.at p) := h.stack s rfl
  have hstands : s = .at .ending → x.sink = none := by
    rintro rfl
    obtain ⟨s', hown, htask, -⟩ := hcrew.standing_of_stack hstack rfl
    obtain rfl : s' = .at .ending := by
      cases s' with
      | «at» phase =>
          cases htask
          rfl
      | _ => cases htask
    exact (hmanned x hx).unbound (by rw [hown]; rfl)
  have hmoves : ∃ move, x.perform (r.final.surroundings b p answers) s.duty = .moves move ∧
      progress = r.final.after b p (s.later.map (.at p)) move := by
    simp only [Machine.play, Machine.step, hstack, Machine.perform, hx] at hplay
    split at hplay
    · rename_i move hmove
      exact ⟨move, hmove, (Option.some.inj hplay).symm⟩
    · cases hplay
    · rename_i hunwinds
      obtain ⟨rfl, -⟩ := Onward.of_unwinds
        (hunwinds ▸ Presentation.perform_duty (r.final.surroundings b p answers) x s)
      exact absurd rfl h.course.ne_drainingSink
  obtain ⟨move, hmove, rfl⟩ := hmoves
  have hunlocked : x.isStarting = false := h.unlocked (Option.some_ne_none s) x hx
  obtain ⟨s?, hcourse, hnext, hstopped⟩ := h.course.next h.sleeps hstands hunlocked hmove
  have hy : (r.final.after b p (s.later.map (.at p)) move).machine.presentations[p]? =
      some move.presentation :=
    Crewed.presentation_after hx
  have hduty : Transition.duty?
      ⟨r.final, .step b answers, r.final.after b p (s.later.map (.at p)) move⟩ p b =
      some (answers, ⟨x, s.duty, move.effects⟩) := by
    refine Transition.duty?_eq_some.mpr ⟨rfl, ?_, s.duty_isDuty⟩
    rw [Transition.deed?_at hstack, if_pos rfl, hx]
    simp [Machine.after, Function.comp_def]
  have hduties :=
    Run.duties_extend r p b (.step b answers) (r.final.after b p (s.later.map (.at p)) move)
  rw [hduty] at hduties
  refine ⟨s?, _, ⟨?_, ?_, ?_, ?_, ⟨_, hy⟩, fun _ z hz => ?_, h.sleeps⟩, hduties⟩
  · rw [hduties]
    exact hcourse
  · rintro s' rfl
    have hafter : (r.final.after b p (s.later.map (.at p)) move).machine.stack b = _ :=
      Machine.stack_after_self h.listed
    rw [← List.map_append, hnext] at hafter
    exact hafter
  · rintro rfl s' rfl
    have hrunning := hcrew'.running _ hy
    rw [Presentation.isRunning, Lifecycle.isActive,
      show move.presentation.lifecycle.state = .stopped from hstopped rfl]
      at hrunning
    cases hrunning
  · exact Nat.lt_of_lt_of_le h.listed (Machine.length_actors_le hplay)
  · exact hturn.isStarting_eq_false (h.crew_ne_none hcrew (Option.some_ne_none s)) hx hz hunlocked

/-- Whatever happens, the thread goes on as it can, or others act. -/
theorem next (h : r.Drains p b sleep deadline crew s?) (hcrew : Crewed r.final p crew)
    (hmanned : ∀ x, r.final.presentations[p]? = some x → Manned x crew)
    (hplay : r.final.play action = some progress) (hcrew' : Crewed progress.machine p crew')
    (hturn : Turn r.final progress.machine p crew
      (Transition.doing? p ⟨r.final, action, progress⟩) crew') :
    ∃ s'?, (r.extend action progress).Drains p b sleep deadline crew' s'? ∧
      (s? = none → s'? = none) ∧
      (s? ≠ none → (((r.extend action progress).duties p b).map (·.1)) =
        (r.duties p b).map (·.1) ++ (action.answers? b).toList) := by
  cases s? with
  | none =>
      have hnone :=
        Transition.duty?_eq_none_of_foreign (t := ⟨r.final, action, progress⟩) hplay hturn
          (h.gone rfl)
      have hkept := h.keep hcrew hplay hturn hnone (fun s hs => by cases hs) fun _ =>
          h.foreign hturn
      exact ⟨none, hkept, fun _ => rfl, fun hnot => absurd rfl hnot⟩
  | some s =>
      cases hanswers : action.answers? b with
      | some answers =>
          obtain rfl := Action.answers?_eq_some.mp hanswers
          obtain ⟨s'?, deed, hdrains, hduties⟩ := h.own hcrew hmanned hplay hcrew' hturn
          exact ⟨s'?, hdrains, fun hended => (by cases hended), fun _ => by simp [hduties]⟩
      | none =>
          have hnone :=
            Transition.duty?_eq_none_of_idle (t := ⟨r.final, action, progress⟩) (p := p) hanswers
          obtain ⟨x, hx⟩ := h.present
          have hbusy : s.duty ≠ .callback := by cases s <;> simp [Standing.duty]
          have hstays : progress.machine.stack b = r.final.stack b := by
            rcases hturn.does_or_stays hx (h.stack s rfl) hbusy with
              ⟨⟨y, task, effects⟩, hdoing⟩ | hstays
            · obtain ⟨answers, -, rfl, -⟩ := Transition.perform_of_doing hplay hdoing
              simp [Action.answers?] at hanswers
            · exact hstays
          have hkept := h.keep hcrew hplay hturn hnone (fun _ _ => hstays) fun hended =>
              by cases hended
          refine ⟨some s, hkept, fun hended => (by cases hended), fun _ => ?_⟩
          simp [Run.duties_extend, hnone]

end Run.Drains

namespace Machine

variable {m : Machine H} {p : Key} {b : ActorId} {sleep : Duration} {deadline : Instant}
  {crew : Crew H}

/-- The host's answers to an actor whenever it is the actor's turn, whether or not it can act. -/
def turnsOf (b : ActorId) (actions : List (Action H)) : List (Answers H) :=
  actions.filterMap (·.answers? b)

theorem turnsOf_append (actions more : List (Action H)) :
    turnsOf b (actions ++ more) = turnsOf b actions ++ turnsOf b more :=
  List.filterMap_append

theorem turnsOf_step (answers : Answers H) (more : List (Action H)) :
    turnsOf b (.step b answers :: more) = answers :: turnsOf b more := by
  simp [turnsOf, Action.answers?]

theorem turnsOf_concat (actions : List (Action H)) (action : Action H) :
    turnsOf b (actions ++ [action]) = turnsOf b actions ++ (action.answers? b).toList := by
  rw [turnsOf_append]
  cases hanswers : action.answers? b <;> simp [turnsOf, hanswers]

def polls (m : Machine H) (p : Key) (b : ActorId) : Bool :=
  (m.stack b).head?.any fun
    | .at q (.pollSink ..) => q == p
    | _ => false

/-- Each sleep is as long as it is asked for: whenever it is the actor's turn to ask the sink again,
so much time has passed since its last turn. -/
def SleepsBetween (m : Machine H) (p : Key) (b : ActorId) (sleep : Duration)
    (actions : List (Action H)) : Prop :=
  ∀ pre first mid next post, actions = pre ++ .step b first :: (mid ++ .step b next :: post) →
    turnsOf b mid = [] → (m.run (pre ++ .step b first :: mid)).final.polls p b →
    first.clock.nanos + sleep.nanos ≤ next.clock.nanos

theorem SleepsBetween.of_append {actions more : List (Action H)}
    (h : SleepsBetween m p b sleep (actions ++ more)) :
    SleepsBetween m p b sleep actions := by
  intro pre first mid next post heq
  exact h pre first mid next (post ++ more) (by simp [heq])

/-- It is enough if so much time passes between any two of the actor's turns. -/
theorem SleepsBetween.of_isChain {actions : List (Action H)}
    (h : (turnsOf b actions).IsChain fun first next =>
      first.clock.nanos + sleep.nanos ≤ next.clock.nanos) :
    SleepsBetween m p b sleep actions := by
  rintro pre first mid next post rfl hmid -
  rw [turnsOf_append, turnsOf_step, turnsOf_append, hmid, turnsOf_step, List.nil_append] at h
  exact (List.isChain_cons_cons.mp h.right_of_append).1

theorem exists_last_turn {actions : List (Action H)} {init : List (Answers H)} {last : Answers H}
    (h : turnsOf b actions = init ++ [last]) :
    ∃ pre mid, actions = pre ++ .step b last :: mid ∧ turnsOf b mid = [] := by
  obtain ⟨before, after, rfl, -, hafter⟩ := List.filterMap_eq_append_iff.mp h
  obtain ⟨idle, action, mid, rfl, -, hanswers, hmid⟩ := List.filterMap_eq_cons_iff.mp hafter
  obtain rfl := Action.answers?_eq_some.mp hanswers
  exact ⟨before ++ idle, mid, by simp, hmid⟩

/-- A thread that has slept enough can act. -/
theorem exists_play {actions : List (Action H)} {s : Standing H} {answers : Answers H}
    (h : (m.run actions).Drains p b sleep deadline crew (some s))
    (hturns : ((m.run actions).duties p b).map (·.1) = turnsOf b actions)
    (hsleeps : SleepsBetween m p b sleep (actions ++ [.step b answers])) :
    ∃ progress, (m.run actions).final.play (.step b answers) = some progress := by
  obtain ⟨x, hx⟩ := h.present
  have hwake : ∀ deadline' wake, s = .pollingSink deadline' wake → wake ≤ answers.clock.nanos := by
    rintro deadline' wake rfl
    rw [h.course.wake_eq]
    rcases List.eq_nil_or_concat ((m.run actions).duties p b) with hnil | ⟨init, e, hconcat⟩
    · simp [hnil]
    · rw [hconcat, List.concat_eq_append] at hturns ⊢
      rw [List.map_append] at hturns
      obtain ⟨pre, mid, rfl, hmid⟩ := exists_last_turn hturns.symm
      rw [List.getLast?_concat]
      refine hsleeps pre e.1 mid answers [] (by simp) hmid ?_
      simp [polls, h.stack _ rfl, Standing.duties, Standing.duty]
  obtain ⟨move, hmove⟩ := h.course.ready ((m.run actions).final.surroundings b p answers)
    (h.unlocked (Option.some_ne_none s) x hx) hwake
  exact ⟨(m.run actions).final.after b p (s.later.map (.at p)) move,
    play_step (h.stack s rfl) hx hmove⟩

/-- Where the thread stands after any actions, and whether it has acted at all of its
turns by then. -/
theorem run_drains (hall : ∀ actions q, ∃ crew : Crew H, Crewed (m.run actions).final q crew)
    (hcrew : Crewed m p crew) (hmanned : ∀ x, m.presentations[p]? = some x → Manned x crew)
    (hbegun : (⟨m, []⟩ : Run H).Drains p b sleep deadline crew (some (.pollingSink deadline 0)))
    (actions : List (Action H)) :
    ∃ crew s?, Crewed (m.run actions).final p crew ∧
      (∀ x, (m.run actions).final.presentations[p]? = some x → Manned x crew) ∧
      (m.run actions).Drains p b sleep deadline crew s? ∧
      (SleepsBetween m p b sleep actions → s? ≠ none →
        ((m.run actions).duties p b).map (·.1) = turnsOf b actions) := by
  induction actions using List.reverseRecOn with
  | nil => exact ⟨crew, _, hcrew, hmanned, hbegun, fun _ _ => rfl⟩
  | append_singleton actions action ih =>
      obtain ⟨crew, s?, hcrew, hmanned, hdrains, hturns⟩ := ih
      have hrun : m.run (actions ++ [action]) = (m.run actions).act action := run_append ..
      rw [hrun, Run.act, turnsOf_concat]
      cases hplay : (m.run actions).final.play action with
      | none =>
          refine ⟨crew, s?, hcrew, hmanned, hdrains, fun hsleeps hopen => ?_⟩
          have hsame := hturns hsleeps.of_append hopen
          cases hanswers : action.answers? b with
          | none => simpa using hsame
          | some answers =>
              -- the thread could have acted
              obtain rfl := Action.answers?_eq_some.mp hanswers
              obtain ⟨s, rfl⟩ := Option.ne_none_iff_exists'.mp hopen
              obtain ⟨progress, hplays⟩ := exists_play hdrains hsame hsleeps
              rw [hplay] at hplays
              cases hplays
      | some progress =>
          obtain ⟨crew', hcrew', hturn⟩ := hcrew.turn (hall actions) hplay
          obtain ⟨s'?, hdrains', hover, hacts⟩ := hdrains.next hcrew hmanned hplay hcrew' hturn
          refine ⟨crew', s'?, hcrew', Manned.turn hcrew hmanned hturn, hdrains',
            fun hsleeps hopen => ?_⟩
          have hwas : s? ≠ none := fun hnone => hopen (hover hnone)
          rw [hacts hwas, hturns hsleeps.of_append hwas]

end Machine

/-- A thread that has come to wait for its sink has nothing else to do before it closes. -/
theorem Crewed.drainingSink_of_stack {m : Machine H} {p : Key} {b : ActorId} {crew : Crew H}
    {rest : List (Job H)} (h : Crewed m p crew) (hstack : m.stack b = .at p .drainSink :: rest) :
    crew = some (b, .drainingSink) ∧ rest = [.at p (.playback .closing)] := by
  obtain ⟨s, hcrew, htask, hrest⟩ := h.standing_of_stack hstack rfl
  obtain rfl : s = .drainingSink := by
    cases s <;> cases htask
    rfl
  exact ⟨hcrew, hrest⟩

/-- What becomes of a thread that has set a deadline for its sink. It asks the sink, and sleeps, as
long as the sink has something to play and there is time left; then it releases the sink and ends,
if it gets enough turns. -/
structure Machine.WaitsForSink (m : Machine H) (p : Key) (b : ActorId) (config : Config)
    (deadline : Instant) (actions : List (Action H)) : Prop where
  course : ∃ s?, DrainCourse config.audioDrainPollInterval deadline
    ((m.run actions).duties p b) s? ∧
    ∀ s, s? = some s → (m.run actions).final.stack b = (Standing.duties (some s)).map (.at p)
  queries : queries ((m.run actions).duties p b) ≤
    config.audioDrainTimeout.sleeps config.audioDrainPollInterval + 1
  duties : ((m.run actions).duties p b).length ≤
    config.audioDrainTimeout.sleeps config.audioDrainPollInterval + 4
  stopped : ∀ u ∈ (m.run actions).trace, u.Does p b (.playback .ending) →
    ∃ y, u.progress.machine.presentations[p]? = some y ∧ y.state = .stopped ∧ y.sink = none
  ends : m.SleepsBetween p b config.audioDrainPollInterval actions →
    config.audioDrainTimeout.sleeps config.audioDrainPollInterval + 4 ≤
      (Machine.turnsOf b actions).length →
      ∃ u ∈ (m.run actions).trace, u.Does p b (.playback .ending)

namespace DrainCourse

variable {sleep : Duration} {deadline : Instant} {done : List (Answers H × Deed H)}
  {s? : Option (Standing H)}

/-- A thread that has nothing left to do has shown that it has ended. -/
theorem exists_ending (h : DrainCourse sleep deadline done none) :
    ∃ e ∈ done, e.2.task = .playback .ending := by
  cases h with
  | finish => exact ⟨_, List.mem_concat_self, rfl⟩

theorem toClose_pos {s : Standing H} (h : DrainCourse sleep deadline done (some s)) :
    0 < Standing.toClose (some s) := by
  cases h <;> simp [Standing.toClose]

end DrainCourse

namespace Machine

variable {m : Machine H} {p : Key} {b : ActorId} {start deadline : Instant} {crew : Crew H}

theorem mem_duties {actions : List (Action H)} {t : Transition H} {task : Task H}
    (ht : t ∈ (m.run actions).trace) (hdoes : t.Does p b task) (hduty : task.isDuty) :
    ∃ answers x effects, (answers, ⟨x, task, effects⟩) ∈ (m.run actions).duties p b ∧
      ((∃ move, x.perform (t.before.surroundings b p answers) task = .moves move ∧
          t.progress.machine.presentations[p]? = some move.presentation) ∨
        x.perform (t.before.surroundings b p answers) task = .unwinds) := by
  obtain ⟨x, effects, hdoing⟩ := hdoes
  obtain ⟨answers, rest, haction, -, hx, hperform⟩ :=
    Transition.perform_of_doing (play_of_mem ht) hdoing
  refine ⟨answers, x, effects, List.mem_filterMap.mpr ⟨t, ht, ?_⟩, ?_⟩
  · exact Transition.duty?_eq_some.mpr ⟨haction, Transition.deed?_of_doing hdoing, hduty⟩
  · rcases hperform with ⟨move, hmove, hprogress, -⟩ | ⟨hunwinds, -⟩
    · refine .inl ⟨move, hmove, ?_⟩
      rw [hprogress]
      exact Crewed.presentation_after hx
    · exact .inr hunwinds

theorem waitsForSink_of_drains {config : Config} {s? : Option (Standing H)}
    {actions : List (Action H)}
    (h : (m.run actions).Drains p b config.audioDrainPollInterval deadline crew s?)
    (hvalid : config.audioDrainPollInterval.isZero = false)
    (hdeadline : start.add? config.audioDrainTimeout = some deadline)
    (hclock : ∀ answers ∈ turnsOf b actions, start ≤ answers.clock)
    (hturns : SleepsBetween m p b config.audioDrainPollInterval actions → s? ≠ none →
      ((m.run actions).duties p b).map (·.1) = turnsOf b actions) :
    m.WaitsForSink p b config deadline actions := by
  have hsum : deadline.nanos = start.nanos + config.audioDrainTimeout.nanos := by
    obtain ⟨hlt, heq⟩ := Option.dite_none_right_eq_some.mp hdeadline
    cases heq
    rfl
  have hstart : ∀ e ∈ (m.run actions).duties p b, start.nanos ≤ e.1.clock.nanos := by
    intro e he
    obtain ⟨t, ht, hduty⟩ := List.mem_filterMap.mp he
    have haction := (Transition.duty?_eq_some.mp hduty).1
    exact hclock e.1 (List.mem_filterMap.mpr
      ⟨t.action, action_mem m actions t ht, Action.answers?_eq_some.mpr haction⟩)
  have hlength := h.course.length_le hvalid hsum hstart
  have hqueries := h.course.queries_le
  refine ⟨⟨s?, h.course,
    h.stack⟩, by omega, by omega, fun u hu hdoes => ?_, fun hsleeps henough => ?_⟩
  · obtain ⟨answers, x, effects, hmem, hperform⟩ := mem_duties hu hdoes rfl
    have hnone : x.sink = none := h.course.sink_eq_none _ hmem rfl
    rcases hperform with ⟨move, hmove, hy⟩ | hunwinds
    · simp only [Presentation.perform, Presentation.playback] at hmove
      split at hmove
      · cases hmove
      · cases hmove
        exact ⟨_, hy, rfl, hnone⟩
    · simp only [Presentation.perform, Presentation.playback] at hunwinds
      split at hunwinds <;> cases hunwinds
  · obtain rfl : s? = none := by
      refine Classical.byContradiction fun hopen => ?_
      obtain ⟨s, rfl⟩ := Option.ne_none_iff_exists'.mp hopen
      have hpos := h.course.toClose_pos
      have hall := congrArg List.length (hturns hsleeps hopen)
      rw [List.length_map] at hall
      omega
    obtain ⟨e, he, htask⟩ := h.course.exists_ending
    obtain ⟨t, ht, hduty⟩ := List.mem_filterMap.mp he
    refine ⟨t, ht, e.2.before, e.2.effects, ?_⟩
    rw [Transition.doing?_of_duty (play_of_mem ht) hduty, ← htask]

/-- The wait for the sink is bounded, whatever the sink answers and whatever others do. A thread
that is about to wait sets a deadline, if it can be represented. If the clock is not turned back, it
asks the sink at most once more than the number of sleeps that it takes to fill the timeout; and it
ends with the sink released if it gets enough turns after it has slept. -/
theorem drain_wait_bounded (config : Config) (hvalid : config.validate = .ok ())
    (decoders : DecoderBackends H.Codec) (outputs : AudioBackends H.Output)
    (earlier : List (Action H)) {p : Key}
    {b : ActorId} {rest : List (Job H)} {x : Presentation H} {answers : Answers H}
    {deadline : Instant}
    (hstack : ((initial config decoders outputs).run earlier).final.stack b =
      .at p .drainSink :: rest)
    (hx : ((initial config decoders outputs).run earlier).final.presentations[p]? = some x)
    (hdeadline : answers.clock.add? config.audioDrainTimeout = some deadline) :
    ∃ progress, ((initial config decoders outputs).run earlier).final.play (.step b answers) =
      some progress ∧
      ∀ more : List (Action H), (∀ later ∈ turnsOf b more, answers.clock ≤ later.clock) →
        progress.machine.WaitsForSink p b config deadline more := by
  let m := ((initial config decoders outputs).run earlier).final
  let move : Move H := { presentation := x, next := [.pollSink deadline 0] }
  have hmove : x.perform (m.surroundings b p answers) .drainSink = .moves move := by
    have hconfig : m.config = config := config_run ..
    simp only [Presentation.perform, surroundings, hconfig, hdeadline]
    rfl
  have hplay : m.play (.step b answers) = some (m.after b p rest move) := play_step hstack hx hmove
  have hrun : ∀ more, ((m.after b p rest move).machine.run more).final =
      ((initial config decoders outputs).run (earlier ++ .step b answers :: more)).final :=
    fun more => by
    rw [run_append_eq, run_cons hplay]
  have hall : ∀ more q, ∃ crew : Crew H,
      Crewed ((m.after b p rest move).machine.run more).final q crew :=
    fun more q => hrun more ▸ run_crewed config decoders outputs _ q
  obtain ⟨crew, hcrew, hmanned⟩ :=
    run_manned config decoders outputs (earlier ++ [.step b answers]) p
  rw [← hrun []] at hcrew hmanned
  have hlater : rest = [.at p (.playback .closing)] := by
    obtain ⟨crew, hcrew⟩ := run_crewed config decoders outputs earlier p
    exact (hcrew.drainingSink_of_stack hstack).2
  have hlt := lt_of_stack hstack
  have hbegun : (⟨(m.after b p rest move).machine, []⟩ : Run H).Drains p b
      config.audioDrainPollInterval deadline
      crew (some (.pollingSink deadline 0)) := by
    have hwaits : (m.after b p rest move).machine.stack b = .at p (.pollSink deadline 0) :: rest :=
      stack_after_self hlt
    refine ⟨.begun, ?_, fun hended => (by cases hended), ?_, ⟨x, Crewed.presentation_after hx⟩,
      fun _ y hy => ?_, ?_⟩
    · rintro s ⟨⟩
      rw [hwaits, hlater]
      rfl
    · exact Nat.lt_of_lt_of_le hlt (length_actors_le hplay)
    · obtain ⟨s, rfl, hduty, -⟩ := hcrew.standing_of_stack hwaits rfl
      refine (hmanned y hy).unlocked s rfl ?_
      cases s <;> first | rfl | cases hduty
    · rw [config_play hplay, config_run]
      rfl
  refine ⟨_, hplay, fun more hclock => ?_⟩
  obtain ⟨crew', s?, -, -, hdrains, hturns⟩ := run_drains hall hcrew hmanned hbegun more
  exact waitsForSink_of_drains hdrains (Config.drainPoll_of_valid hvalid) hdeadline hclock hturns

end Machine

def Job.isDrainSink (p : Key) : Job H → Bool
  | .at q task => q == p && task.isDrainSink
  | _ => false

theorem Job.eq_of_isDrainSink {p : Key} {job : Job H} (h : job.isDrainSink p) :
    job = .at p .drainSink := by
  cases job with
  | «at» q task =>
      obtain ⟨hq, htask⟩ := (Bool.and_eq_true _ _).mp h
      obtain rfl := beq_iff_eq.mp hq
      cases task <;> first | rfl | cases htask
  | _ => cases h

namespace Machine

/-- The thread gets a turn every 10 milliseconds, and the sink never plays what it has. -/
def stuck : List (Action .plain) :=
  (List.finRange 7).map fun i =>
    .step 1 { Answers.plain with
      queueLength := fun _ => 1
      clock := ⟨10000000 * i.val, by have hi := i.isLt; unfold Instant.limit nanosPerSecond; omega⟩
        }

/-- After three sleeps the thread asks for the fourth time, and gives up. -/
theorem stuck_bounded :
    let before :=
      ((initial impatient (.standardDecoders ()) (Backends.empty.register "null" ())).run
        playedOut).final
    ∃ progress deadline, before.play (.step 1 .plain) = some progress ∧
      Answers.plain.clock.add? impatient.audioDrainTimeout = some deadline ∧
      progress.machine.WaitsForSink 0 1 impatient deadline stuck ∧
      impatient.audioDrainTimeout.sleeps impatient.audioDrainPollInterval = 3 ∧
      queries ((progress.machine.run stuck).duties 0 1) = 4 ∧
      ∃ u ∈ (progress.machine.run stuck).trace, u.Does 0 1 (.playback .ending) := by
  intro before
  have htop : (before.stack 1).head?.any (·.isDrainSink 0) := by decide +kernel
  have hstack : ∃ rest, before.stack 1 = .at 0 .drainSink :: rest := by
    obtain ⟨job, hjob, hdrains⟩ := (Option.any_eq_true _ _).mp htop
    obtain ⟨rest, hrest⟩ := List.head?_eq_some_iff.mp hjob
    exact ⟨rest, Job.eq_of_isDrainSink hdrains ▸ hrest⟩
  have hx : (before.presentations[0]?).isSome := by decide +kernel
  have hdeadline : (Answers.plain.clock.add? impatient.audioDrainTimeout).isSome := by
    decide +kernel
  have hqueries : (before.play (.step 1 .plain)).all
      fun progress => queries ((progress.machine.run stuck).duties 0 1) == 4 := by decide +kernel
  have hclock : ∀ later ∈ turnsOf 1 stuck, Answers.plain.clock ≤ later.clock := by decide +kernel
  obtain ⟨rest, hstack⟩ := hstack
  obtain ⟨x, hx⟩ := Option.isSome_iff_exists.mp hx
  obtain ⟨deadline, hdeadline⟩ := Option.isSome_iff_exists.mp hdeadline
  obtain ⟨progress, hplay, hwaits⟩ :=
    drain_wait_bounded impatient (by decide) _ _ playedOut hstack hx hdeadline
  have hwait := hwaits stuck hclock
  rw [hplay, Option.all_some, beq_iff_eq] at hqueries
  refine ⟨progress, deadline, hplay, hdeadline,
    hwait, by decide, hqueries, hwait.ends ?_ (by decide +kernel)⟩
  exact .of_isChain (by decide +kernel)

end Machine

end Playout
