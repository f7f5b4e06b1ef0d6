import Mathlib.Data.List.Chain
import Playout.Proofs.Playback.Run
import Playout.Proofs.Playback.Standing

/-!
# Stacks of jobs

What each operation of the machine does to the stacks of its actors. Calls of hosts and jobs of the
registry put only errands on a stack, except that a push begins with the push itself.
-/

namespace Playout

variable {H : Platform}

namespace Machine

variable {m : Machine H} {a b : ActorId} {jobs : List (Job H)}

theorem stack_of_le (h : m.actors.length ≤ a) : m.stack a = [] := by
  simp [stack, List.getElem?_eq_none h]

theorem lt_of_stack {job : Job H} (h : m.stack a = job :: jobs) : a < m.actors.length := by
  refine Nat.lt_of_not_le fun hle => ?_
  simp [stack_of_le hle] at h

theorem lt_of_mayCall (h : m.mayCall a) : a < m.actors.length := by
  refine Nat.lt_of_not_le fun hle => ?_
  simp [mayCall, List.getElem?_eq_none hle] at h

theorem stack_initial (config : Config) (decoders : DecoderBackends H.Codec)
    (outputs : AudioBackends H.Output) : (initial config decoders outputs).stack a = [] := by
  cases a <;> simp [initial, stack]

/-- Who may make a call is idle or inside a callback. -/
theorem stack_of_mayCall (h : m.mayCall a) :
    m.stack a = [] ∨ ∃ p rest, m.stack a = .at p .callback :: rest := by
  unfold mayCall at h
  unfold stack
  cases hactor : m.actors[a]? with
  | none => exact .inl rfl
  | some actor =>
      simp only [hactor, Option.any_some, Actor.mayCall] at h
      rcases hjobs : actor.jobs with _ | ⟨job, rest⟩
      · exact .inl (by simp [hjobs])
      · rw [hjobs] at h
        cases job with
        | «at» p task =>
            cases task <;> simp [Job.isCallback] at h
            exact .inr ⟨p, rest, by simp [hjobs]⟩
        | _ => simp [Job.isCallback] at h

theorem stack_setStack_self (h : a < m.actors.length) : (m.setStack a jobs).stack a = jobs := by
  simp [stack, setStack, List.getElem?_eq_getElem h]

theorem stack_setStack_of_ne (h : b ≠ a) : (m.setStack a jobs).stack b = m.stack b := by
  simp [stack, setStack, Ne.symm h]

theorem setStack_stack : m.setStack a (m.stack a) = m := by
  have hactors : m.actors.modify a (fun actor => { actor with jobs := m.stack a }) = m.actors := by
    apply List.ext_getElem?
    intro i
    rw [List.getElem?_modify]
    by_cases hi : a = i
    · subst hi
      cases hactor : m.actors[a]? with
      | none => simp
      | some actor => simp [stack, hactor]
    · simp [hi]
  simp only [setStack, hactors]

theorem setStack_setStack {more : List (Job H)} :
    (m.setStack a jobs).setStack a more = m.setStack a more := by
  simp only [setStack, List.modify_modify_eq]
  rfl

theorem stack_append {m' : Machine H} {new : List (Actor H)} (h : m'.actors = m.actors ++ new)
    (hb : b < m.actors.length) : m'.stack b = m.stack b := by
  simp [stack, h, List.getElem?_append_left hb]

variable {p : Key} {rest : List (Job H)} {move : Move H}

theorem stack_after_self (ha : a < m.actors.length) :
    (m.after a p rest move).machine.stack a = move.next.map (.at p) ++ rest := by
  rw [after, stack_append (m := m.setStack a (move.next.map (.at p) ++ rest)) rfl
    (by simpa [setStack] using ha), stack_setStack_self ha]

theorem stack_after_of_ne (hb : b < m.actors.length) (hne : b ≠ a) :
    (m.after a p rest move).machine.stack b = m.stack b := by
  rw [after, stack_append (m := m.setStack a (move.next.map (.at p) ++ rest)) rfl
    (by simpa [setStack] using hb), stack_setStack_of_ne hne]

/-- Whoever appears has jobs of the presentation whose task made it appear. -/
theorem stack_after_new (hb : m.actors.length ≤ b) :
    (m.after a p rest move).machine.stack b =
      (move.spawned[b - m.actors.length]?.map fun tasks => tasks.map (.at p)).getD [] := by
  have hlen : ((m.actors.modify a fun actor =>
      { actor with jobs := move.next.map (.at p) ++ rest }).length) ≤ b := by simpa using hb
  simp [after, stack, setStack, List.getElem?_append_right hlen, Function.comp_def]

theorem set_presentations {x : Presentation H} (hx : m.presentations[p]? = some x) :
    m.presentations.set p x = m.presentations := by
  obtain ⟨hlt, rfl⟩ := List.getElem?_eq_some_iff.mp hx
  exact List.set_getElem_self hlt

/-- A task that leaves its presentation as it is changes nothing but the stack. -/
theorem after_still {x : Presentation H} {next : List (Task H)}
    {result : Option (Except MediaError Unit)}
    (hx : m.presentations[p]? = some x) (a : ActorId) (rest : List (Job H)) :
    m.after a p rest { presentation := x, next, result } =
      { machine := m.setStack a (next.map (.at p) ++ rest), result } := by
  simp only [after, setStack, set_presentations hx, List.map_nil, List.append_nil]

theorem machine_after {rest : List (Job H)} {move : Move H} (hspawned : move.spawned = []) :
    (m.after a p rest move).machine =
      { m.setStack a (move.next.map (.at p) ++ rest) with
        presentations := m.presentations.set p move.presentation } := by
  simp only [after, hspawned, List.map_nil, List.append_nil]
  rfl

theorem setStack_back {jobs : List (Job H)} (presentations : List (Presentation H)) :
    ({ m.setStack a jobs with presentations := presentations } : Machine H).setStack a (m.stack a) =
      { m with presentations := presentations } :=
  congrArg (fun back : Machine H => { back with presentations := presentations })
    (setStack_setStack.trans setStack_stack)

theorem play_step {task : Task H} {rest : List (Job H)} {answers : Answers H} {move : Move H}
    (hstack : m.stack a = .at p task :: rest) (hx : m.presentations[p]? = some x)
    (hmoves : x.perform (m.surroundings a p answers) task = .moves move) :
    m.play (.step a answers) = some (m.after a p rest move) := by
  simp only [play, step, hstack, perform, hx, hmoves]

theorem stack_addHost : m.addHost.stack b = m.stack b := by
  by_cases hb : b < m.actors.length
  · exact stack_append rfl hb
  · rw [stack_of_le (Nat.not_lt.mp hb)]
    simp only [addHost, stack, List.getElem?_append_right (Nat.not_lt.mp hb)]
    cases b - m.actors.length <;> rfl

def owes (m : Machine H) (f : Job H → Bool) : Bool :=
  m.actors.any (·.jobs.any f)

theorem owes_of_mem {f : Job H → Bool} {job : Job H} (hmem : job ∈ m.stack b) (hf : f job) :
    m.owes f := by
  unfold stack at hmem
  cases hactor : m.actors[b]? with
  | none => simp [hactor] at hmem
  | some actor =>
      rw [hactor] at hmem
      exact List.any_eq_true.mpr
        ⟨actor, List.mem_of_getElem? hactor, List.any_eq_true.mpr ⟨job, hmem, hf⟩⟩

theorem alive_of_mem {job : Job H} (hmem : job ∈ m.stack b) (hkeeps : job.keepsAlive p) :
    m.alive p := by
  have howes : m.owes (·.keepsAlive p) := owes_of_mem hmem hkeeps
  unfold alive
  rw [Bool.or_eq_true]
  exact .inr howes

end Machine

/-! ## Kinds of jobs -/

def Job.isDutyOf (p : Key) : Job H → Bool
  | .at q task => q == p && task.isDuty
  | _ => false

namespace Job

variable {p q : Key} {tasks : List (Task H)}

theorem isDutyOf_of_ne {task : Task H} (h : q ≠ p) : Job.isDutyOf p (.at q task) = false := by
  simp [isDutyOf, h]

theorem map_at_of_ne (h : q ≠ p) : ∀ job ∈ tasks.map (Job.at q), Job.isDutyOf p job = false := by
  intro job hjob
  obtain ⟨task, -, rfl⟩ := List.mem_map.mp hjob
  exact isDutyOf_of_ne h

theorem map_at_of_free (h : ∀ t ∈ tasks, t.isDuty = false) :
    ∀ job ∈ tasks.map (Job.at q), Job.isDutyOf p job = false := by
  intro job hjob
  obtain ⟨task, htask, rfl⟩ := List.mem_map.mp hjob
  simp [isDutyOf, h task htask]

end Job

/-! ## Errands -/

def Job.isFeed : Job H → Bool
  | .at _ task => task.isFeed
  | _ => false

def Job.isErrand : Job H → Bool
  | .at _ task => task.isErrand
  | _ => true

namespace Job

variable {job : Job H} {jobs : List (Job H)}

theorem isDutyOf_of_isErrand (p : Key) (h : job.isErrand) : job.isDutyOf p = false := by
  cases job with
  | «at» q task => simp [isDutyOf, (Task.isErrand_iff.mp h).1]
  | _ => rfl

theorem isFeed_of_isErrand (h : job.isErrand) : job.isFeed = false := by
  cases job with
  | «at» q task => exact (Task.isErrand_iff.mp h).2
  | _ => rfl

theorem errands_map_at {p : Key} {tasks : List (Task H)} (h : ∀ t ∈ tasks, t.isErrand) :
    ∀ job ∈ tasks.map (Job.at p), job.isErrand := by
  intro job hjob
  obtain ⟨task, htask, rfl⟩ := List.mem_map.mp hjob
  exact h task htask

end Job

theorem Call.jobs_errands {c : Call H} (hhosts : c.isHosts) :
    (∀ job ∈ c.jobs, job.isErrand) ∨ ∃ handle chunk, c = .push handle chunk := by
  cases c with
  | tick => simp [isHosts] at hhosts
  | push handle chunk => exact .inr ⟨handle, chunk, rfl⟩
  | stop =>
      exact .inl (Job.errands_map_at (by simp [Task.stop, Task.isErrand, Task.isDuty, Task.isFeed]))
  | _ => exact .inl (by simp [jobs, Job.isErrand, Task.isErrand, Task.isDuty, Task.isFeed])

theorem Machine.teardown_errands {p : Key} {job : Job H} (hjob : job.isErrand) :
    ∀ job' ∈ teardown p ++ [job], job'.isErrand := by
  intro job' hjob'
  rcases List.mem_append.mp hjob' with hmem | hmem
  · refine Job.errands_map_at ?_ job' hmem
    simp [Task.stop, Task.isErrand, Task.isDuty, Task.isFeed]
  · rw [List.mem_singleton.mp hmem]
    exact hjob

/-! ## Plans -/

/-- Calls begin with tasks of this kind. All others come of doing one. -/
def Task.isPlanned : Task H → Bool
  | .releaseDecoders _ => false
  | .loadDecoder .. => false
  | .enqueue _ => false
  | .keepThread _ => false
  | .awaitStopped _ => false
  | .join _ => false
  | .flushSink => false
  | .offer _ => false
  | .callback => false
  | t => !t.isDuty

theorem Task.isDuty_of_isPlanned {t : Task H} (h : t.isPlanned) : t.isDuty = false := by
  cases t with
  | offer event => simp [isPlanned] at h
  | _ => simp_all [isPlanned, isDuty]

/-- Whoever is about to look at the thread of a presentation has asked it to end just before. -/
def Prompted (p : Key) (jobs : List (Job H)) : Prop :=
  jobs.IsChain fun first next => next = .at p .inspectThread → first = .at p .requestExit

/-- The jobs at a presentation among these are those of calls that have yet to begin. -/
structure Plan (p : Key) (jobs : List (Job H)) : Prop where
  planned : ∀ t, Job.at p t ∈ jobs → t.isPlanned
  prompted : Prompted p jobs
  head : jobs.head? ≠ some (.at p .inspectThread)

namespace Plan

variable {p q : Key} {job : Job H} {jobs : List (Job H)} {tasks : List (Task H)}

theorem of_absent (h : ∀ t, Job.at p t ∉ jobs) : Plan p jobs where
  planned t ht := absurd ht (h t)
  prompted := List.isChain_iff_forall_rel_of_append_cons_cons.mpr fun first next pre post hjobs
    hnext =>
    absurd (by simp [hjobs, hnext]) (h .inspectThread)
  head heq := h _ (List.mem_of_mem_head? heq)

theorem nil : Plan p ([] : List (Job H)) :=
  of_absent (by simp)

theorem at_of_ne (h : q ≠ p) : Plan p (tasks.map (Job.at q)) :=
  of_absent (by simp [h])

theorem single {t : Task H} (hplanned : t.isPlanned) (hother : t ≠ .inspectThread) :
    Plan p [.at q t] where
  planned u hu := by
    simp only [List.mem_singleton, Job.at.injEq] at hu
    exact hu.2 ▸ hplanned
  prompted := List.isChain_singleton _
  head := by simp [hother]

theorem planned_map (tasks : List (Task H)) (h : ∀ t ∈ tasks, t.isPlanned) :
    ∀ t, Job.at p t ∈ tasks.map (Job.at q) → t.isPlanned := by
  intro t ht
  obtain ⟨u, hu, heq⟩ := List.mem_map.mp ht
  cases heq
  exact h t hu

theorem call {c : Call H} (hhosts : c.isHosts) : Plan p c.jobs := by
  cases c with
  | tick => simp [Call.isHosts] at hhosts
  | create => exact of_absent (by simp [Call.jobs])
  | remove => exact of_absent (by simp [Call.jobs])
  | shutdown => exact of_absent (by simp [Call.jobs])
  | stop q =>
      refine ⟨planned_map _ ?_, ?_, by simp [Call.jobs, Task.stop]⟩
      · simp [Task.stop, Task.isPlanned, Task.isDuty]
      · simp [Call.jobs, Task.stop, Prompted]
  | removeStreams q =>
      refine ⟨planned_map [.detachStreams, .finish] ?_, ?_, by simp [Call.jobs]⟩
      · simp [Task.isPlanned, Task.isDuty]
      · simp [Call.jobs, Prompted]
  | _ => exact single rfl (by simp)

/-- A stop and the removal of all streams, and then something of the registry or the end
of the call. -/
theorem teardown (hjob : ∀ t, job = .at p t → t = .finish) :
    Plan p (Machine.teardown q ++ [job]) := by
  have hlast : job ≠ .at p .inspectThread := fun heq => by simpa using hjob _ heq
  refine ⟨fun t ht => ?_, ?_, by simp [Machine.teardown, Task.stop]⟩
  · rcases List.mem_append.mp ht with hstop | hmem
    · exact planned_map _ (by simp [Task.stop, Task.isPlanned, Task.isDuty]) t hstop
    · rw [hjob t (List.mem_singleton.mp hmem).symm]
      rfl
  · simp [Machine.teardown, Task.stop, Prompted, hlast]

theorem isDutyOf (h : Plan p jobs) : ∀ job ∈ jobs, job.isDutyOf p = false := by
  intro job hjob
  cases job with
  | «at» q t =>
      by_cases hqp : q = p
      · subst hqp
        simpa [Job.isDutyOf] using Task.isDuty_of_isPlanned (h.planned t hjob)
      · exact Job.isDutyOf_of_ne hqp
  | _ => rfl

end Plan

/-- What comes of a job of the registry: errands at registered presentations, and perhaps a new
presentation, which is registered then. -/
structure Machine.Registers (m : Machine H) (a : ActorId) (rest : List (Job H))
    (progress : Progress H) (jobs : List (Job H)) (created : Option PresentationId) : Prop where
  actors : progress.machine.actors = (m.setStack a (jobs ++ rest)).actors
  presentations : progress.machine.presentations = m.presentations ++ (created.map .new).toList
  registry : progress.machine.registry ⊆
    m.registry ++ (created.map (·, m.presentations.length)).toList
  errands : ∀ job ∈ jobs, job.isErrand
  plan : ∀ p, Plan p jobs
  known : ∀ p t, Job.at p t ∈ jobs → p ∈ m.registry.map (·.2)
  effects : progress.effects = []

namespace Machine

variable {m : Machine H} {a : ActorId} {answers : Answers H} {rest : List (Job H)} {job : Job H}

theorem mem_of_find? {id : PresentationId} {p : Key} (h : m.find? id = some p) :
    (id, p) ∈ m.registry := by
  obtain ⟨before, after, hsplit, -⟩ := List.lookup_eq_some_iff.mp h
  simp [hsplit]

theorem mem_registry_of_find? {id : PresentationId} {p : Key} (h : m.find? id = some p) :
    p ∈ m.registry.map (·.2) :=
  List.mem_map_of_mem (mem_of_find? h)

/-- A job that leaves no tasks behind and creates nothing. -/
theorem Registers.plain (jobs : List (Job H)) {result : Option (Except MediaError Unit)}
    (herrands : ∀ job ∈ jobs, job.isErrand) (hnone : ∀ p t, Job.at p t ∉ jobs) :
    m.Registers a rest { machine := m.setStack a (jobs ++ rest), result } jobs none where
  actors := rfl
  presentations := (List.append_nil _).symm
  registry := List.subset_append_left _ _
  errands := herrands
  plan p := .of_absent (hnone p)
  known p t ht := absurd ht (hnone p t)
  effects := rfl

/-- A presentation is unregistered and torn down, and something of the registry or the end of the
call follows. -/
theorem Registers.teardown {id : PresentationId} {p : Key} (hp : m.find? id = some p)
    (herrand : job.isErrand) (hfinish : ∀ q t, job = .at q t → q = p ∧ t = .finish) :
    m.Registers a rest
      { machine := (m.unregister id).setStack a (Machine.teardown p ++ job :: rest) }
      (Machine.teardown p ++ [job]) none where
  actors := by simp [setStack, unregister]
  presentations := (List.append_nil _).symm
  registry e he := List.mem_append_left _ (List.mem_of_mem_filter he)
  errands := teardown_errands herrand
  plan q := .teardown fun t ht => (hfinish q t ht).2
  known q t ht := by
    suffices hqp : q = p by
      rw [hqp]
      exact mem_registry_of_find? hp
    rcases List.mem_append.mp ht with hmem | hmem
    · obtain ⟨u, -, heq⟩ := List.mem_map.mp hmem
      exact (Job.at.inj heq).1.symm
    · exact (hfinish q t (List.mem_singleton.mp hmem).symm).1
  effects := rfl

theorem perform_registry {progress : Progress H} (hjob : ∀ q task, job ≠ .at q task)
    (hstep : m.perform a answers rest job = some progress) :
    ∃ jobs created, m.Registers a rest progress jobs created := by
  have hdone : ∀ result, m.Registers a rest { machine := m.setStack a rest, result } [] none :=
    fun result => .plain [] (List.forall_mem_nil _) (by simp)
  have heach : ∀ ids : List PresentationId,
      m.Registers a rest { machine := m.setStack a (.removeEach ids :: rest) }
        [.removeEach ids] none :=
    fun ids => .plain [.removeEach ids] (by simp [Job.isErrand]) (by simp)
  cases job with
  | «at» q task => exact absurd rfl (hjob q task)
  | create id =>
      simp only [perform] at hstep
      split at hstep
      · cases hstep
        exact ⟨_, _, hdone _⟩
      · cases hstep
        exact ⟨[], some id, rfl, rfl, List.Subset.refl _, List.forall_mem_nil _,
          fun _ => .nil, by simp, rfl⟩
  | remove id =>
      simp only [perform] at hstep
      split at hstep
      · cases hstep
        exact ⟨_, _, hdone _⟩
      · rename_i p hp
        cases hstep
        refine ⟨_, _, .teardown hp rfl fun q t heq => ?_⟩
        cases heq
        exact ⟨rfl, rfl⟩
  | shutdown =>
      cases hstep
      exact ⟨_, _, heach m.ids⟩
  | removeEach ids =>
      cases ids with
      | nil =>
          cases hstep
          exact ⟨_, _, hdone _⟩
      | cons id ids =>
          simp only [perform] at hstep
          split at hstep
          · cases hstep
            exact ⟨_, _, heach ids⟩
          · rename_i p hp
            cases hstep
            exact ⟨_, _, .teardown hp rfl (by simp)⟩

theorem length_setStack : (m.setStack a rest).actors.length = m.actors.length := by
  simp [setStack]

/-- One actor has other jobs afterwards, if it was in a position to act, and others may
have appeared. -/
theorem actors_play {action : Action H} {progress : Progress H}
    (hplay : m.play action = some progress) :
    ∃ b jobs new, progress.machine.actors = (m.setStack b jobs).actors ++ new ∧
      (m.mayCall b ∨ m.stack b ≠ [] ∨ jobs = m.stack b) := by
  cases action with
  | call b c =>
      simp only [play, Option.ite_none_right_eq_some, Bool.and_eq_true, Option.some.injEq] at hplay
      obtain ⟨⟨⟨hmay, -⟩, -⟩, rfl⟩ := hplay
      exact ⟨b, c.jobs ++ m.stack b, [], (List.append_nil _).symm, .inl hmay⟩
  | reclaim b p =>
      simp only [play, Option.ite_none_right_eq_some, Option.some.injEq] at hplay
      obtain ⟨hmay, rfl⟩ := hplay
      exact ⟨b, .at p .reclaim :: m.stack b, [], (List.append_nil _).symm, .inl hmay⟩
  | addHost =>
      cases hplay
      exact ⟨0, m.stack 0, [⟨.host, []⟩], by rw [setStack_stack]; rfl, .inr (.inr rfl)⟩
  | step b answers =>
      simp only [play, step] at hplay
      split at hplay
      · cases hplay
      · rename_i job rest hstack
        have hbusy : m.stack b ≠ [] := by simp [hstack]
        by_cases hat : ∃ q task, job = .at q task
        · obtain ⟨q, task, rfl⟩ := hat
          simp only [perform] at hplay
          split at hplay
          · cases hplay
            exact ⟨b, rest, [], (List.append_nil _).symm, .inr (.inl hbusy)⟩
          · split at hplay
            · cases hplay
              exact ⟨b, _, _, rfl, .inr (.inl hbusy)⟩
            · cases hplay
            · cases hplay
              exact ⟨b, [], [], (List.append_nil _).symm, .inr (.inl hbusy)⟩
        · obtain ⟨jobs, created, hregisters⟩ :=
            perform_registry (fun q task heq => hat ⟨q, task, heq⟩) hplay
          exact ⟨b, jobs ++ rest, [], by rw [hregisters.actors, List.append_nil], .inr (.inl hbusy)⟩

theorem length_actors_le {action : Action H} {progress : Progress H}
    (hplay : m.play action = some progress) :
    m.actors.length ≤ progress.machine.actors.length := by
  obtain ⟨b, jobs, new, hactors, -⟩ := actors_play hplay
  rw [hactors, List.length_append, length_setStack]
  exact Nat.le_add_right _ _

/-- A playback thread stays one, and does nothing any more when it has ended. -/
theorem thread_play {action : Action H} {progress : Progress H} {p : Key} {jobs : List (Job H)}
    (hplay : m.play action = some progress) (ha : m.actors[a]? = some ⟨.playback p, jobs⟩) :
    ∃ jobs', progress.machine.actors[a]? = some ⟨.playback p, jobs'⟩ ∧
      (jobs = [] → jobs' = []) := by
  obtain ⟨b, more, new, hactors, hacts⟩ := actors_play hplay
  have hlt : a < (m.setStack b more).actors.length := by
    rw [length_setStack]
    exact (List.getElem?_eq_some_iff.mp ha).1
  rw [hactors, List.getElem?_append_left hlt, setStack, List.getElem?_modify, ha]
  by_cases hb : b = a
  · subst hb
    have hstack : m.stack b = jobs := by rw [stack, ha]; rfl
    refine ⟨more, by simp, ?_⟩
    rintro rfl
    rcases hacts with hmay | hbusy | hsame
    · simp [mayCall, ha, Actor.mayCall] at hmay
    · exact absurd hstack hbusy
    · exact hsame.trans hstack
  · exact ⟨jobs, by simp [hb], id⟩

theorem length_actors_le_run (m : Machine H) (actions : List (Action H)) :
    m.actors.length ≤ (m.run actions).final.actors.length := by
  refine run_induction (P := fun r => m.actors.length ≤ r.final.actors.length) m
    (Nat.le_refl _) ?_ actions
  intro r action progress hr hplay
  exact Nat.le_trans hr (length_actors_le hplay)

end Machine

end Playout
