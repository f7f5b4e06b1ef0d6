import Playout.Proofs.Playback.Crew

/-!
# Turns

A transition of the machine as it is seen from one presentation: an actor begins a call, or is busy
elsewhere, or it does a task of the presentation. `Turn` says for each of these what it changes on
the stacks and at the presentation, so that an invariant of a presentation and of the jobs that are
left to be done at it is proved without regard to the rest of the machine.
-/

namespace Playout

variable {H : Platform}

structure Deed (H : Platform) where
  before : Presentation H
  task : Task H
  effects : List (Effect H)

/-- What a transition does to a presentation, and who does it, if it does a task of it. -/
def Transition.doing? (p : Key) (t : Transition H) : Option (ActorId × Deed H) :=
  match t.action with
  | .step a _ =>
    match t.before.stack a with
    | .at q task :: _ =>
      if q = p then t.before.presentations[p]?.map fun x =>
        (a, ⟨x, task, t.progress.effects.map (·.2)⟩)
      else none
    | _ => none
  | _ => none

namespace Transition

theorem doing?_at {m : Machine H} {p q : Key} {a : ActorId} {answers : Answers H}
    {task : Task H} {rest : List (Job H)} {progress : Progress H}
    (hstack : m.stack a = .at q task :: rest) :
    Transition.doing? p ⟨m, .step a answers, progress⟩ =
      if q = p then m.presentations[p]?.map fun x => (a, ⟨x, task, progress.effects.map (·.2)⟩)
      else none := by
  simp [doing?, hstack]

def Does (t : Transition H) (p : Key) (a : ActorId) (task : Task H) : Prop :=
  ∃ x effects, t.doing? p = some (a, ⟨x, task, effects⟩)

def IsBy (t : Transition H) (a : ActorId) : Prop :=
  ∃ answers, t.action = .step a answers

theorem doing?_of_isBy {t : Transition H} {p : Key} {a : ActorId} {task : Task H}
    {x : Presentation H} (hby : t.IsBy a) (hhead : (t.before.stack a).head? = some (.at p task))
    (hx : t.before.presentations[p]? = some x) :
    ∃ effects, t.doing? p = some (a, ⟨x, task, effects⟩) := by
  obtain ⟨answers, haction⟩ := hby
  obtain ⟨rest, hstack⟩ := List.head?_eq_some_iff.mp hhead
  refine ⟨t.progress.effects.map (·.2), ?_⟩
  simp [doing?, haction, hstack, hx]

/-- Whoever does something to a presentation does its next task, and goes on with what is left to be
done, or breaks off. -/
theorem perform_of_doing {m : Machine H} {action : Action H} {progress : Progress H} {p : Key}
    {a : ActorId} {x : Presentation H} {task : Task H} {effects : List (Effect H)}
    (hplay : m.play action = some progress)
    (hdoing : doing? p ⟨m, action, progress⟩ = some (a, ⟨x, task, effects⟩)) :
    ∃ answers rest, action = .step a answers ∧ m.stack a = .at p task :: rest ∧
      m.presentations[p]? = some x ∧
      ((∃ move, x.perform (m.surroundings a p answers) task = .moves move ∧
          progress = m.after a p rest move ∧ effects = move.effects) ∨
        x.perform (m.surroundings a p answers) task = .unwinds ∧
          progress = { machine := m.unwind a } ∧
          effects = []) := by
  cases action with
  | step b answers =>
      simp only [Machine.play, Machine.step] at hplay
      cases hstack : m.stack b with
      | nil => simp [hstack] at hplay
      | cons job rest =>
          simp only [hstack] at hplay
          cases job with
          | «at» q other =>
              rw [doing?_at hstack] at hdoing
              split at hdoing
              · rename_i hqp
                subst hqp
                obtain ⟨y, hy, heq⟩ := Option.map_eq_some_iff.mp hdoing
                simp only [Prod.mk.injEq, Deed.mk.injEq] at heq
                obtain ⟨rfl, rfl, rfl, rfl⟩ := heq
                refine ⟨answers, rest, rfl, hstack, hy, ?_⟩
                simp only [Machine.perform, hy] at hplay
                split at hplay
                · rename_i move hmove
                  cases hplay
                  exact .inl ⟨move, hmove, rfl, by simp [Machine.after, Function.comp_def]⟩
                · cases hplay
                · rename_i hunwinds
                  cases hplay
                  exact .inr ⟨hunwinds, rfl, rfl⟩
              · cases hdoing
          | _ => simp [doing?, hstack] at hdoing
  | _ => simp [doing?] at hdoing

end Transition

/-- What is said of both kinds of outcome is said of the moves of a task that moves. -/
theorem Outcome.of_moves {o : Outcome H} {move : Move H} {P : Move H → Prop} {Q : Prop}
    (h : (∃ move, o = .moves move ∧ P move) ∨ o = .unwinds ∧ Q) (ho : o = .moves move) :
    P move := by
  rcases h with ⟨other, hother, hP⟩ | ⟨hunwinds, -⟩
  · cases ho.symm.trans hother
    exact hP
  · cases ho.symm.trans hunwinds

/-! ## What a transition does to the stacks -/

/-- One actor has done the jobs `old` and has `new` to do in their place. The others go on with what
they were doing, and whoever has just appeared has nothing to do at the presentation. -/
structure Machine.Replaces (m m' : Machine H) (p : Key) (a : ActorId)
    (old new rest : List (Job H)) :
    Prop where
  before : m.stack a = old ++ rest
  after : m'.stack a = new ++ rest
  others : ∀ b, b ≠ a → m'.stack b = m.stack b ∨ m.stack b = [] ∧ ∀ t, Job.at p t ∉ m'.stack b

namespace Machine.Replaces

variable {m m' : Machine H} {p q : Key} {a : ActorId} {job : Job H} {old new rest : List (Job H)}

/-- The stacks of the new machine are those of the old one with `new` in the place of `old`. -/
theorem of_setStack (hstack : m.stack a = old ++ rest) (ha : a < m.actors.length)
    (hactors : m'.actors = (m.setStack a (new ++ rest)).actors) :
    m.Replaces m' p a old new rest where
  before := hstack
  after := by
    have hsame : m'.stack a = (m.setStack a (new ++ rest)).stack a := by simp [stack, hactors]
    rw [hsame, stack_setStack_self ha]
  others b hb := by
    have hsame : m'.stack b = (m.setStack a (new ++ rest)).stack b := by simp [stack, hactors]
    exact .inl (by rw [hsame, stack_setStack_of_ne hb])

/-- An actor does a task. A thread that it starts is one of the task's presentation. -/
theorem of_after {move : Move H} (hstack : m.stack a = job :: rest)
    (hapart : q ≠ p ∨ move.spawned = []) :
    m.Replaces (m.after a q rest move).machine p a [job] (move.next.map (.at q)) rest where
  before := hstack
  after := stack_after_self (lt_of_stack hstack)
  others b hb := by
    by_cases hold : b < m.actors.length
    · exact .inl (stack_after_of_ne hold hb)
    · have hge := Nat.not_lt.mp hold
      refine .inr ⟨stack_of_le hge, fun t ht => ?_⟩
      rw [stack_after_new hge] at ht
      rcases hapart with hqp | hnone
      · cases hspawned : move.spawned[b - m.actors.length]? with
        | none => simp [hspawned] at ht
        | some tasks => simp [hspawned, hqp] at ht
      · simp [hnone] at ht

theorem stack_eq {b : ActorId} (h : m.Replaces m' p a old new rest) (hb : b ≠ a)
    (hstack : m.stack b ≠ []) :
    m'.stack b = m.stack b := by
  rcases h.others b hb with hsame | ⟨hempty, -⟩
  · exact hsame
  · exact absurd hempty hstack

theorem mem_cases {t : Task H} {b : ActorId} (h : m.Replaces m' p a old new rest)
    (hmem : Job.at p t ∈ m'.stack b) : Job.at p t ∈ m.stack b ∨ Job.at p t ∈ new := by
  by_cases hb : b = a
  · subst hb
    rw [h.after] at hmem
    rw [h.before]
    exact (List.mem_append.mp hmem).symm.imp_left (List.mem_append_right old)
  · rcases h.others b hb with hsame | ⟨-, hnone⟩
    · exact .inl (hsame ▸ hmem)
    · exact absurd hmem (hnone t)

/-- The same jobs of a presentation are on everyone's stack, but for those replaced. -/
theorem mem_iff {t : Task H} (h : m.Replaces m' p a old new rest) (hold : Job.at p t ∉ old)
    (hnew : Job.at p t ∉ new) (b : ActorId) : Job.at p t ∈ m'.stack b ↔ Job.at p t ∈ m.stack b := by
  by_cases hb : b = a
  · subst hb
    rw [h.before, h.after]
    simp [hold, hnew]
  · rcases h.others b hb with hsame | ⟨hempty, hnone⟩
    · rw [hsame]
    · simp [hempty, hnone t]

end Machine.Replaces

/-! ## Turns -/

/-- A transition as it is seen from one presentation and its crew. -/
inductive Turn (m m' : Machine H) (p : Key) (crew : Crew H) :
    Option (ActorId × Deed H) → Crew H → Prop where
  /-- A thread of the host appears. -/
  | arrival : (∀ b, m'.stack b = m.stack b) → m'.presentations[p]? = m.presentations[p]? →
      Turn m m' p crew none crew
  | call {a jobs} : m.mayCall a → Plan p jobs → m.Replaces m' p a [] jobs (m.stack a) →
      m'.presentations[p]? = m.presentations[p]? → Turn m m' p crew none crew
  /-- Someone does a job of another presentation, or of the registry, or drops one of a presentation
  that does not exist. -/
  | elsewhere {a job old new rest} : m.Replaces m' p a (job :: old) new rest →
      (∀ t, Job.at p t ∈ job :: old → m.presentations[p]? = none) → Plan p new →
      (m'.presentations[p]? = m.presentations[p]? ∨
        m.presentations[p]? = none ∧ ∃ id, m'.presentations[p]? = some (.new id)) →
      Turn m m' p crew none crew
  | aside {a answers task rest x move} : m.presentations[p]? = some x →
      m'.presentations[p]? = some move.presentation → task.isDuty = false →
      (task = .start → x.launches (m.surroundings a p answers) = false) →
      x.perform (m.surroundings a p answers) task = .moves move →
      m.Replaces m' p a [.at p task] (move.next.map (.at p)) rest →
      Turn m m' p crew (some (a, ⟨x, task, move.effects⟩)) crew
  /-- There is a thread, which the actor has yet to put into the slot. -/
  | start {a answers rest x} : crew = none → m.presentations[p]? = some x →
      m'.presentations[p]? = some (x.spawn a) → x.launches (m.surroundings a p answers) →
      m.stack a = .at p .start :: rest → m'.stack a = .at p (.keepThread m.actors.length) :: rest →
      m.stack m.actors.length = [] → m'.stack m.actors.length = Task.body.map (.at p) →
      (∀ b, b ≠ a → b ≠ m.actors.length → m'.stack b = m.stack b) →
      Turn m m' p crew (some (a, ⟨x, .start, []⟩)) (some (m.actors.length, .openingSink))
  /-- The thread does its next duty, or breaks off. -/
  | duty {a answers s x y effects s?} : crew = some (a, s) → m.presentations[p]? = some x →
      m'.presentations[p]? = some y → Advance (m.surroundings a p answers) x s y effects s? →
      m.Replaces m' p a ((Standing.duties (some s)).map (.at p))
        ((s.interludes x ++ Standing.duties s?).map (.at p)) [] →
      Turn m m' p crew (some (a, ⟨x, s.duty, effects⟩)) (s?.map (a, ·))

/-- Where nothing is done to a presentation, nothing changes. -/
theorem Turn.still {m m' : Machine H} {p : Key} {crew crew' : Crew H} {x : Presentation H}
    (h : Turn m m' p crew none crew') (hx : m.presentations[p]? = some x) :
    m'.presentations[p]? = some x ∧ crew' = crew := by
  cases h with
  | arrival _ hsame => exact ⟨hsame.trans hx, rfl⟩
  | call _ _ _ hsame => exact ⟨hsame.trans hx, rfl⟩
  | elsewhere _ _ _ hpres =>
      rcases hpres with hsame | ⟨hnone, -⟩
      · exact ⟨hsame.trans hx, rfl⟩
      · rw [hnone] at hx
        cases hx

/-- Nothing is done to a presentation that does not exist, but it may appear. -/
theorem Turn.absent {m m' : Machine H} {p : Key} {crew crew' : Crew H}
    {doing? : Option (ActorId × Deed H)}
    (h : Turn m m' p crew doing? crew') (hnone : m.presentations[p]? = none) :
    doing? = none ∧ crew' = crew ∧
      (m'.presentations[p]? = none ∨ ∃ id, m'.presentations[p]? = some (.new id)) := by
  have hnot : ∀ {x}, m.presentations[p]? ≠ some x := by simp [hnone]
  cases h with
  | arrival _ hsame => exact ⟨rfl, rfl, .inl (hsame.trans hnone)⟩
  | call _ _ _ hsame => exact ⟨rfl, rfl, .inl (hsame.trans hnone)⟩
  | elsewhere _ _ _ hpres =>
      rcases hpres with hsame | ⟨-, id, hnew⟩
      · exact ⟨rfl, rfl, .inl (hsame.trans hnone)⟩
      · exact ⟨rfl, rfl, .inr ⟨id, hnew⟩⟩
  | aside hx => exact absurd hx hnot
  | start _ hx => exact absurd hx hnot
  | duty _ hx => exact absurd hx hnot

theorem Turn.exists_after {m m' : Machine H} {p : Key} {crew crew' : Crew H}
    {doing? : Option (ActorId × Deed H)} {x : Presentation H} (h : Turn m m' p crew doing? crew')
    (hx : m.presentations[p]? = some x) : ∃ y, m'.presentations[p]? = some y := by
  cases h with
  | arrival _ hsame => exact ⟨x, hsame.trans hx⟩
  | call _ _ _ hsame => exact ⟨x, hsame.trans hx⟩
  | elsewhere _ _ _ hpres =>
      rcases hpres with hsame | ⟨hnone, -⟩
      · exact ⟨x, hsame.trans hx⟩
      · cases hnone.symm.trans hx
  | aside _ hy => exact ⟨_, hy⟩
  | start _ _ hy => exact ⟨_, hy⟩
  | duty _ _ hy => exact ⟨_, hy⟩

/-- Who is about to do a task of the presentation does it, or still has it to do. Only inside a
callback there can be something else to be done first. -/
theorem Turn.does_or_stays {m m' : Machine H} {p : Key} {crew crew' : Crew H}
    {doing? : Option (ActorId × Deed H)} {x : Presentation H} {a : ActorId} {task : Task H}
    {rest : List (Job H)} (h : Turn m m' p crew doing? crew') (hx : m.presentations[p]? = some x)
    (hstack : m.stack a = .at p task :: rest) (hbusy : task ≠ .callback) :
    (∃ deed, doing? = some (a, deed)) ∨ m'.stack a = m.stack a := by
  have hnonempty : m.stack a ≠ [] := by simp [hstack]
  cases h with
  | arrival hstacks => exact .inr (hstacks a)
  | @call b jobs hmay _ hreplaces =>
      refine .inr (hreplaces.stack_eq (fun hb => ?_) hnonempty)
      subst hb
      rcases Machine.stack_of_mayCall hmay with hempty | ⟨q, rest, hcallback⟩
      · exact hnonempty hempty
      · rw [hstack] at hcallback
        exact hbusy (Job.at.inj (List.cons.inj hcallback).1).2
  | @elsewhere b job old new rest hreplaces hold =>
      refine .inr (hreplaces.stack_eq (fun hb => ?_) hnonempty)
      subst hb
      have hbefore := hreplaces.before
      rw [hstack] at hbefore
      rw [hold task (by rw [← (List.cons.inj hbefore).1]; exact List.mem_cons_self)] at hx
      cases hx
  | @aside b _ _ _ _ _ _ _ _ _ _ hreplaces =>
      by_cases hb : a = b
      · exact .inl ⟨_, by rw [hb]⟩
      · exact .inr (hreplaces.stack_eq hb hnonempty)
  | @start b _ _ _ _ _ _ _ _ _ hempty _ hothers =>
      by_cases hb : a = b
      · exact .inl ⟨_, by rw [hb]⟩
      · exact .inr (hothers a hb fun hnew => hnonempty (hnew ▸ hempty))
  | @duty b _ _ _ _ _ _ _ _ _ _ hreplaces =>
      by_cases hb : a = b
      · exact .inl ⟨_, by rw [hb]⟩
      · exact .inr (hreplaces.stack_eq hb hnonempty)

/-- Where the tasks come from that are to be done at a presentation: they were to be done before, or
a call begins with them, or they are the thread's, or a new thread is to be put into the slot, or
they come of the task that was done. -/
theorem Turn.task_cases {m m' : Machine H} {p : Key} {crew crew' : Crew H}
    {doing? : Option (ActorId × Deed H)} {t : Task H} {b : ActorId}
    (h : Turn m m' p crew doing? crew') (hmem : Job.at p t ∈ m'.stack b) :
    Job.at p t ∈ m.stack b ∨ t.isPlanned ∨ t.isDuty ∨ t.isInterlude ∨
      (∃ thread, t = .keepThread thread) ∨
      ∃ a answers x task move, doing? = some (a, ⟨x, task, move.effects⟩) ∧
        m.presentations[p]? = some x ∧
        task.isDuty = false ∧ (task = .start → x.launches (m.surroundings a p answers) = false) ∧
        x.perform (m.surroundings a p answers) task = .moves move ∧ t ∈ move.next := by
  cases h with
  | arrival hstacks => exact .inl (hstacks b ▸ hmem)
  | call _ hplan hreplaces =>
      exact (hreplaces.mem_cases hmem).imp_right fun hnew => .inl (hplan.planned t hnew)
  | elsewhere hreplaces _ hplan =>
      exact (hreplaces.mem_cases hmem).imp_right fun hnew => .inl (hplan.planned t hnew)
  | aside hx _ hfree hstart hmove hreplaces =>
      refine (hreplaces.mem_cases hmem).imp_right fun hnew => .inr (.inr (.inr (.inr ?_)))
      exact ⟨_, _, _, _, _, rfl, hx, hfree, hstart, hmove, by simpa using hnew⟩
  | @start a _ rest x _ _ _ _ hstack hstack' _ hbody hothers =>
      by_cases hnew : b = m.actors.length
      · subst hnew
        rw [hbody] at hmem
        obtain ⟨u, hu, heq⟩ := List.mem_map.mp hmem
        cases heq
        exact .inr (.inr (.inl (Standing.duties_isDuty (some .openingSink) t hu)))
      · by_cases hb : b = a
        · subst hb
          rw [hstack'] at hmem
          rw [hstack]
          rcases List.mem_cons.mp hmem with heq | hrest
          · exact .inr (.inr (.inr (.inr (.inl ⟨_, (Job.at.inj heq).2⟩))))
          · exact .inl (List.mem_cons_of_mem _ hrest)
        · exact .inl (hothers b hb hnew ▸ hmem)
  | @duty _ _ _ x _ _ s? _ _ _ _ hreplaces =>
      refine (hreplaces.mem_cases hmem).imp_right fun hnew => .inr ?_
      rcases List.mem_append.mp (by simpa using hnew) with hinterlude | hduty
      · exact .inr (.inl (Standing.isInterlude_of_mem hinterlude))
      · exact .inl (Standing.duties_isDuty s? t hduty)

theorem Turn.crew_of_isDuty {m m' : Machine H} {p : Key} {crew crew' : Crew H}
    {doing? : Option (ActorId × Deed H)} {a : ActorId} {deed : Deed H}
    (h : Turn m m' p crew doing? crew') (hdoing : doing? = some (a, deed))
    (hduty : deed.task.isDuty) :
    ∃ s, crew = some (a, s) := by
  cases h with
  | aside _ _ hfree =>
      cases hdoing
      rw [hfree] at hduty
      cases hduty
  | start =>
      cases hdoing
      cases hduty
  | duty hcrew =>
      cases hdoing
      exact ⟨_, hcrew⟩
  | _ => cases hdoing

namespace Crewed

variable {m : Machine H} {p q : Key} {crew : Crew H} {a : ActorId} {answers : Answers H}
  {task : Task H} {rest : List (Job H)} {x : Presentation H} {progress : Progress H}

theorem turn_of_moves {move : Move H} (h : Crewed m p crew)
    (hstack : m.stack a = .at p task :: rest) (hx : m.presentations[p]? = some x)
    (hmove : x.perform (m.surroundings a p answers) task = .moves move) :
    ∃ crew', Crewed (m.after a p rest move).machine p crew' ∧
      Turn m (m.after a p rest move).machine p crew (some (a, ⟨x, task, move.effects⟩)) crew' := by
  have howes := h.owes a
  have hlt := Machine.lt_of_stack hstack
  rw [hstack] at howes
  rcases howes.cons_cases with ⟨hfree, -⟩ | ⟨s, hof, hjob, hrest⟩
  · replace hfree : task.isDuty = false := by simpa [Job.isDutyOf] using hfree
    by_cases hstart : task = .start → x.launches (m.surroundings a p answers) = false
    · obtain ⟨hstate, -, hnext, hspawned⟩ :=
        Aside.of_moves (hmove ▸ Presentation.perform_aside hfree hstart)
      have hduties : ∀ t ∈ move.next, t.isDuty = false := fun t ht =>
        (hnext t ht).elim (fun herrand => (Task.isErrand_iff.mp herrand).1) (·.1)
      exact ⟨crew, h.after_aside hstack hx hfree hduties hspawned hstate,
        .aside hx (presentation_after hx) hfree hstart hmove (.of_after hstack (.inr hspawned))⟩
    · -- a thread is launched: it is the first actor after those there are
      obtain ⟨rfl, hlaunches⟩ := Classical.not_imp.mp hstart
      replace hlaunches : x.launches (m.surroundings a p answers) := by simpa using hlaunches
      have hidle := (Presentation.launches_iff.mp hlaunches).2.1
      rw [Presentation.perform_start hlaunches] at hmove
      cases hmove
      have hnone : crew = none := by simpa [hidle] using (h.running x hx).symm
      refine ⟨_, h.after_start hstack hx hidle rfl (by simp [Task.isDuty]),
        .start hnone hx (presentation_after hx) hlaunches hstack (Machine.stack_after_self hlt)
          (Machine.stack_of_le (Nat.le_refl _)) ?_ ?_⟩
      · rw [Machine.stack_after_new (Nat.le_refl _), Nat.sub_self]
        rfl
      · intro b hb hnew
        by_cases hold : b < m.actors.length
        · exact Machine.stack_after_of_ne hold hb
        · have hge := Nat.not_lt.mp hold
          have hlater : 1 ≤ b - m.actors.length :=
            Nat.sub_pos_of_lt (Nat.lt_of_le_of_ne hge (Ne.symm hnew))
          rw [Machine.stack_after_new hge, List.getElem?_eq_none hlater, Machine.stack_of_le hge]
          rfl
  · obtain rfl : task = s.duty := by simpa using hjob
    obtain rfl := Crew.eq_some_of hof
    have hrunning : x.isRunning := h.running x hx
    obtain ⟨s?, hnext, hspawned, hadv⟩ :=
      Onward.of_moves (hmove ▸ Presentation.perform_duty (m.surroundings a p answers) x s)
    have hreplaces : m.Replaces (m.after a p rest move).machine p a [.at p s.duty]
        (move.next.map (.at p)) rest := .of_after hstack (.inr hspawned)
    have hduties : ∀ t ∈ s.interludes x, t.isDuty = false := fun t ht =>
      (Task.isErrand_iff.mp (Task.isErrand_of_isInterlude (Standing.isInterlude_of_mem ht))).1
    refine ⟨s?.map (a, ·), ?_, .duty rfl hx (presentation_after hx) hadv ?_⟩
    · exact h.after_duty hstack hof hx hrest hnext hduties hspawned (hadv.isRunning_eq hrunning)
    · refine ⟨by rw [hstack, hrest]; simp [Standing.duties], ?_, hreplaces.others⟩
      rw [hreplaces.after, hrest, ← List.map_append, hnext, List.append_nil]

/-- Only a thread that was about to set its deadline breaks off. -/
theorem duties_of_unwinds (h : Crewed m p crew) (hstack : m.stack a = .at p task :: rest)
    (hunwinds : x.perform (m.surroundings a p answers) task = .unwinds) :
    crew = some (a, .drainingSink) ∧ task = .drainSink ∧
      m.stack a = (Standing.duties (some .drainingSink)).map (.at p) ∧
      Advance (m.surroundings a p answers) x .drainingSink (x.enter .stopped) [] none := by
  have howes := h.owes a
  rw [hstack] at howes
  rcases howes.cons_cases with ⟨hfree, -⟩ | ⟨s, hof, hjob, hrest⟩
  · replace hfree : task.isDuty = false := by simpa [Job.isDutyOf] using hfree
    by_cases hstart : task = .start
    · subst hstart
      exact absurd hunwinds (Presentation.start_ne_unwinds _ x)
    · exact absurd hunwinds
        (Presentation.perform_aside hfree fun heq => absurd heq hstart).ne_unwinds
  · obtain rfl : task = s.duty := by simpa using hjob
    obtain rfl := Crew.eq_some_of hof
    obtain ⟨rfl, hadv⟩ :=
      Onward.of_unwinds (hunwinds ▸ Presentation.perform_duty (m.surroundings a p answers) x s)
    exact ⟨rfl, rfl, by rw [hstack, hrest]; rfl, hadv⟩

/-- A duty is the thread's next one, and it is done as the host answers. -/
theorem advance_of_doing (h : Crewed m p crew) (hcrew' : Crewed progress.machine p crew')
    (hplay : m.play action = some progress)
    (hdoing : Transition.doing? p ⟨m, action, progress⟩ = some (b, deed))
    (hduty : deed.task.isDuty) :
    ∃ answers s s? y, action = .step b answers ∧ crew = some (b, s) ∧ crew' = s?.map (b, ·) ∧
      deed.task = s.duty ∧ m.presentations[p]? = some deed.before ∧
        progress.machine.presentations[p]? = some y ∧
      Advance (m.surroundings b p answers) deed.before s y deed.effects s? := by
  obtain ⟨x, task, effects⟩ := deed
  obtain ⟨answers, rest, haction, hstack, hx, hperform⟩ := Transition.perform_of_doing hplay hdoing
  obtain ⟨s, rfl, rfl, hrest⟩ := h.standing_of_stack hstack hduty
  rcases hperform with ⟨move, hmove, rfl, rfl⟩ | ⟨hunwinds, rfl, rfl⟩
  · obtain ⟨s?, hnext, hspawned, hadv⟩ :=
      Onward.of_moves (hmove ▸ Presentation.perform_duty (m.surroundings b p answers) x s)
    have hfree : ∀ t ∈ s.interludes x, t.isDuty = false := fun t ht =>
      (Task.isErrand_iff.mp (Task.isErrand_of_isInterlude (Standing.isInterlude_of_mem ht))).1
    have hafter := h.after_duty hstack (Crew.of_self b (some s)) hx hrest hnext hfree hspawned
      (hadv.isRunning_eq (h.running x hx))
    exact ⟨answers, s, s?, _, haction, rfl, hcrew'.unique hafter, rfl, hx, presentation_after hx,
      hadv⟩
  · obtain ⟨hcrew, -, hwhole, hadv⟩ := h.duties_of_unwinds hstack hunwinds
    obtain ⟨-, rfl⟩ := Prod.mk.inj (Option.some.inj hcrew)
    obtain ⟨hnone, hy⟩ := h.unwind_own hx hwhole (by simp [Crew.of])
    exact ⟨answers, .drainingSink, none, _, haction, rfl, hcrew'.unique hnone, rfl, hx, hy, hadv⟩

/-- A job of a presentation that does not exist is no duty, since there is no crew. -/
theorem isDutyOf_of_absent (h : Crewed m p crew) (hstack : m.stack a = .at q task :: rest)
    (hq : m.presentations[q]? = none) : Job.isDutyOf p (.at q task) = false := by
  by_cases hqp : q = p
  · subst hqp
    obtain rfl := h.eq_none_of_absent hq
    have howes := h.owes a
    rw [hstack] at howes
    rcases howes.cons_cases with ⟨hfree, -⟩ | ⟨s, hof, -, -⟩
    · exact hfree
    · cases hof
  · exact Job.isDutyOf_of_ne hqp

theorem turn_at (hall : ∀ q, ∃ crew : Crew H, Crewed m q crew) (h : Crewed m p crew)
    (hstack : m.stack a = .at q task :: rest)
    (hstep : m.perform a answers rest (.at q task) = some progress) :
    ∃ crew', Crewed progress.machine p crew' ∧ Turn m progress.machine p crew
      (Transition.doing? p ⟨m, .step a answers, progress⟩) crew' := by
  have hlt := Machine.lt_of_stack hstack
  rw [Transition.doing?_at hstack]
  simp only [Machine.perform] at hstep
  cases hx : m.presentations[q]? with
  | none =>
      simp only [hx, Option.some.injEq] at hstep
      subst hstep
      refine ⟨crew, h.setStack hstack (h.isDutyOf_of_absent hstack hx) (List.forall_mem_nil _), ?_⟩
      have hdoing : (if q = p then m.presentations[p]?.map fun x =>
          (a, (⟨x, task, []⟩ : Deed H)) else none) = none := by
        split
        · rename_i hqp
          subst hqp
          simp [hx]
        · rfl
      simp only [List.map_nil, hdoing]
      have hreplaces : m.Replaces (m.setStack a rest) p a [.at q task] [] rest :=
        .of_setStack hstack hlt rfl
      refine .elsewhere hreplaces ?_ .nil (.inl rfl)
      intro t ht
      simp only [List.mem_singleton, Job.at.injEq] at ht
      rw [ht.1]
      exact hx
  | some x =>
      simp only [hx] at hstep
      cases hmove : x.perform (m.surroundings a q answers) task with
      | waits => simp [hmove] at hstep
      | moves move =>
          simp only [hmove, Option.some.injEq] at hstep
          subst hstep
          by_cases hqp : q = p
          · subst hqp
            have heffects : (m.after a q rest move).effects.map (·.2) = move.effects := by
              simp [Machine.after, Function.comp_def]
            rw [if_pos rfl, hx, Option.map_some, heffects]
            exact h.turn_of_moves hstack hx hmove
          · rw [if_neg hqp]
            refine ⟨crew, h.after_other hstack hqp, .elsewhere (.of_after hstack (.inl hqp)) ?_
              (.at_of_ne hqp) (.inl (List.getElem?_set_ne hqp))⟩
            simp [Ne.symm hqp]
      | unwinds =>
          simp only [hmove, Option.some.injEq] at hstep
          subst hstep
          -- only the thread of `q` breaks off, and there is nothing else on its stack
          obtain ⟨other, hother⟩ := hall q
          obtain ⟨rfl, rfl, hwhole, hadv⟩ := hother.duties_of_unwinds hstack hmove
          have hreplaces : m.Replaces (m.unwind a) p a
              ((Standing.duties (some .drainingSink)).map (.at q))
              [] [] := .of_setStack (by simpa using hwhole) hlt rfl
          by_cases hqp : q = p
          · subst hqp
            obtain ⟨rfl, -⟩ := h.duties_of_unwinds hstack hmove
            obtain ⟨hcrew', hpres⟩ := h.unwind_own hx hwhole (by simp [Crew.of])
            refine ⟨none, hcrew', ?_⟩
            rw [if_pos rfl, hx]
            exact .duty rfl hx hpres hadv hreplaces
          · obtain ⟨hcrew', hpres⟩ := h.unwind_other hqp hwhole
            rw [if_neg hqp]
            refine ⟨crew, hcrew', .elsewhere hreplaces ?_ .nil (.inl hpres)⟩
            simp [Standing.duty, Standing.later, Ne.symm hqp]

theorem turn_registry {job : Job H} (h : Crewed m p crew) (hstack : m.stack a = job :: rest)
    (hjob : ∀ q task, job ≠ .at q task) (hstep : m.perform a answers rest job = some progress) :
    ∃ crew', Crewed progress.machine p crew' ∧ Turn m progress.machine p crew none crew' := by
  have hfree : job.isDutyOf p = false := by
    cases job with
    | «at» q task => exact absurd rfl (hjob q task)
    | _ => rfl
  obtain ⟨jobs, created, hregisters⟩ := Machine.perform_registry hjob hstep
  have hcrew : Crewed (m.setStack a (jobs ++ rest)) p crew :=
    h.setStack hstack hfree fun job hmem => Job.isDutyOf_of_isErrand p (hregisters.errands job hmem)
  have hreplaces : m.Replaces progress.machine p a [job] jobs rest :=
    .of_setStack hstack (Machine.lt_of_stack hstack) hregisters.actors
  have hold : ∀ t, Job.at p t ∈ [job] → m.presentations[p]? = none := fun t ht =>
    absurd (List.mem_singleton.mp ht).symm (hjob p t)
  have hpresentations := hregisters.presentations
  cases created with
  | none =>
      have hsame : progress.machine.presentations = m.presentations :=
        hpresentations.trans (List.append_nil _)
      exact ⟨crew, hcrew.congr hregisters.actors hsame,
        .elsewhere hreplaces hold (hregisters.plan p) (.inl (by rw [hsame]))⟩
  | some id =>
      refine ⟨crew, hcrew.create hregisters.actors hpresentations,
        .elsewhere hreplaces hold (hregisters.plan p) ?_⟩
      rw [hpresentations]
      rcases Nat.lt_trichotomy p m.presentations.length with hlt | heq | hgt
      · exact .inl (List.getElem?_append_left hlt)
      · refine .inr ⟨List.getElem?_eq_none (Nat.le_of_eq heq.symm), id, ?_⟩
        rw [heq]
        exact List.getElem?_concat_length
      · refine .inl ?_
        rw [List.getElem?_eq_none (Nat.le_of_lt hgt), List.getElem?_eq_none]
        simpa using Nat.succ_le_of_lt hgt

theorem turn {action : Action H} (hall : ∀ q, ∃ crew : Crew H, Crewed m q crew)
    (h : Crewed m p crew) (hplay : m.play action = some progress) :
    ∃ crew', Crewed progress.machine p crew' ∧
      Turn m progress.machine p crew (Transition.doing? p ⟨m, action, progress⟩) crew' := by
  have hinvoke : ∀ {a jobs}, m.mayCall a → Plan p jobs →
      Turn m (m.invoke a jobs) p crew none crew :=
    fun hmay hplan => .call hmay hplan (.of_setStack rfl (Machine.lt_of_mayCall hmay) rfl) rfl
  cases action with
  | call a c =>
      simp only [Machine.play, Option.ite_none_right_eq_some, Bool.and_eq_true,
        Option.some.injEq] at hplay
      obtain ⟨⟨⟨hmay, hhosts⟩, -⟩, rfl⟩ := hplay
      have hplan : Plan p c.jobs := .call hhosts
      exact ⟨crew, h.invoke (Machine.lt_of_mayCall hmay) hplan.isDutyOf, hinvoke hmay hplan⟩
  | reclaim a q =>
      simp only [Machine.play, Option.ite_none_right_eq_some, Option.some.injEq] at hplay
      obtain ⟨hmay, rfl⟩ := hplay
      have hplan : Plan p [Job.at q (.reclaim : Task H)] := .single rfl (by simp)
      exact ⟨crew, h.invoke (Machine.lt_of_mayCall hmay) hplan.isDutyOf, hinvoke hmay hplan⟩
  | addHost =>
      simp only [Machine.play, Option.some.injEq] at hplay
      subst hplay
      exact ⟨crew, h.addHost, .arrival (fun _ => Machine.stack_addHost) rfl⟩
  | step a answers =>
      simp only [Machine.play, Machine.step] at hplay
      cases hstack : m.stack a with
      | nil => simp [hstack] at hplay
      | cons job rest =>
          simp only [hstack] at hplay
          by_cases hjob : ∃ q task, job = .at q task
          · obtain ⟨q, task, rfl⟩ := hjob
            exact turn_at hall h hstack hplay
          · have hnot : ∀ q task, job ≠ .at q task := fun q task heq => hjob ⟨q, task, heq⟩
            have hdoing : Transition.doing? p ⟨m, .step a answers, progress⟩ = none := by
              cases job with
              | «at» q task => exact absurd rfl (hnot q task)
              | _ => simp [Transition.doing?, hstack]
            rw [hdoing]
            exact turn_registry h hstack hnot hplay

end Crewed

/-- What holds of a machine with its crew, and is kept by every turn, holds of every run of
the machine. -/
theorem Machine.run_turns {p : Key} {crew : Crew H} {P : Run H → Crew H → Prop} (m : Machine H)
    (hall : ∀ q, ∃ crew : Crew H, Crewed m q crew) (hcrew : Crewed m p crew)
    (start : P ⟨m, []⟩ crew)
    (next : ∀ r action progress crew crew', Crewed r.final p crew → P r crew →
      r.final.play action = some progress → Crewed progress.machine p crew' →
      Turn r.final progress.machine p crew (Transition.doing? p ⟨r.final, action, progress⟩) crew' →
      P (r.extend action progress) crew')
    (actions : List (Action H)) :
    ∃ crew, Crewed (m.run actions).final p crew ∧ P (m.run actions) crew := by
  -- the crews of all presentations go along, since a thread that breaks off may be another one's
  have hrun : ∀ q, ∃ crew, Crewed (m.run actions).final q crew ∧
      (q = p → P (m.run actions) crew) := by
    refine run_induction (P := fun r => ∀ q, ∃ crew, Crewed r.final q crew ∧ (q = p → P r crew)) m
      ?_ ?_
      actions
    · intro q
      by_cases hqp : q = p
      · subst hqp
        exact ⟨crew, hcrew, fun _ => start⟩
      · obtain ⟨other, hother⟩ := hall q
        exact ⟨other, hother, fun heq => absurd heq hqp⟩
    · intro r action progress hr hplay q
      obtain ⟨crew, hold, hP⟩ := hr q
      obtain ⟨crew', hnew, hturn⟩ := hold.turn (fun q => (hr q).imp fun _ hq => hq.1) hplay
      refine ⟨crew', hnew, fun hqp => ?_⟩
      subst hqp
      exact next r action progress crew crew' hold (hP rfl) hplay hnew hturn
  obtain ⟨crew, hcrew, hP⟩ := hrun p
  exact ⟨crew, hcrew, hP rfl⟩

theorem Machine.run_crewed (config : Config) (decoders : DecoderBackends H.Codec)
    (outputs : AudioBackends H.Output) (actions : List (Action H)) (p : Key) :
    ∃ crew, Crewed ((initial config decoders outputs).run actions).final p crew := by
  obtain ⟨crew, hcrew, -⟩ := run_turns (P := fun _ _ => True) (initial config decoders outputs)
    (fun q => ⟨none, .initial config decoders outputs q⟩)
    (.initial config decoders outputs p) trivial
    (fun _ _ _ _ _ _ _ _ _ _ => trivial) actions
  exact ⟨crew, hcrew⟩

theorem Machine.run_turn (config : Config) (decoders : DecoderBackends H.Codec)
    (outputs : AudioBackends H.Output) (earlier : List (Action H)) {p : Key}
    {past : List (Transition H)} {t : Transition H} {crew : Crew H}
    (hrun : (initial config decoders outputs).run earlier = ⟨t.before, past⟩)
    (hplay : t.before.play t.action = some t.progress) (hcrew : Crewed t.before p crew) :
    ∃ crew', Crewed t.progress.machine p crew' ∧
      Turn t.before t.progress.machine p crew (t.doing? p) crew' := by
  refine Crewed.turn (fun q => ?_) hcrew hplay
  have hfinal := run_crewed config decoders outputs earlier q
  rwa [hrun] at hfinal

theorem Machine.turn_of_trace {config : Config} {decoders : DecoderBackends H.Codec}
    {outputs : AudioBackends H.Output} {actions : List (Action H)}
    {past after : List (Transition H)} {t : Transition H}
    (htrace : ((initial config decoders outputs).run actions).trace = past ++ t :: after)
    (p : Key) :
    t.before.play t.action = some t.progress ∧ ∃ crew crew', Crewed t.before p crew ∧
      Turn t.before t.progress.machine p crew (t.doing? p) crew' := by
  obtain ⟨earlier, hrun, hplay⟩ := run_split _ actions htrace
  obtain ⟨crew, hcrew⟩ := run_crewed config decoders outputs earlier p
  rw [hrun] at hcrew
  obtain ⟨crew', -, hturn⟩ := run_turn config decoders outputs earlier hrun hplay hcrew
  exact ⟨hplay, crew, crew', hcrew, hturn⟩

end Playout
