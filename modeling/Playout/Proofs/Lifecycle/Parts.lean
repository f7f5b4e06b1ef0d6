import Playout.Proofs.Lifecycle.Removal

/-!
# Calls in parts

Some calls consist of one task, or of one more that comes of it. Others act before the first part,
and between the two. What an actor has to do waits for it meanwhile, so that the course of the call
is known: it returns with its only part, or with the second one.
-/

namespace Playout

variable {H : Platform}

/-- There is one move at most, so that what some move is like is what this one is like. -/
theorem Outcome.kind_of_moves {kind : Move H → Prop} {outcome : Outcome H} {move : Move H}
    (hkind : ∃ move, outcome = .moves move ∧ kind move) (h : outcome = .moves move) :
    kind move := by
  obtain ⟨other, hother, hkind⟩ := hkind
  obtain rfl := Outcome.moves.inj (h.symm.trans hother)
  exact hkind

/-- An actor makes a call, and it returns with `last`. -/
structure Makes (a : ActorId) (c : Call H) (first : Transition H) (between : List (Transition H))
    (last : Transition H) : Prop where
  called : first.action = .call a c
  busy : ∀ t ∈ between, t.returns a = false
  returned : last.returns a

/-- The actor does a task of the presentation, which is `x` by then, and this is what
comes of it. -/
structure Transition.Carries (t : Transition H) (p : Key) (a : ActorId) (task : Task H)
    (answers : Answers H) (x : Presentation H) (move : Move H) : Prop where
  action : t.action = .step a answers
  present : t.before.presentations[p]? = some x
  moves : x.perform (t.before.surroundings a p answers) task = .moves move
  progress : ∃ rest, t.before.stack a = .at p task :: rest ∧
    t.progress = t.before.after a p rest move

namespace Transition

variable {t : Transition H} {p : Key} {a : ActorId} {task : Task H} {answers : Answers H}
  {x : Presentation H}
  {move : Move H}

theorem isBy_of_returns (h : t.returns a) : t.IsBy a := by
  obtain ⟨m, action, progress⟩ := t
  cases action with
  | step b answers =>
      simp only [returns, Bool.and_eq_true, beq_iff_eq] at h
      exact ⟨answers, by rw [h.1]⟩
  | _ => cases h

theorem result_of_returns (h : t.returns a) : t.progress.result.isSome := by
  obtain ⟨m, action, progress⟩ := t
  cases action with
  | step b answers => exact (Bool.and_eq_true_iff.mp h).2
  | _ => cases h

namespace Carries

theorem result (h : t.Carries p a task answers x move) : t.progress.result = move.result := by
  obtain ⟨rest, -, hprogress⟩ := h.progress
  rw [hprogress]
  rfl

theorem returns (h : t.Carries p a task answers x move) : t.returns a = move.result.isSome := by
  simp [Transition.returns, h.action, h.result]

theorem doing (h : t.Carries p a task answers x move) :
    t.doing? p = some (a, ⟨x, task, move.effects⟩) := by
  obtain ⟨rest, hstack, hprogress⟩ := h.progress
  obtain ⟨m, action, progress⟩ := t
  obtain rfl : action = .step a answers := h.action
  obtain rfl : progress = m.after a p rest move := hprogress
  rw [doing?_at hstack, if_pos rfl, h.present]
  simp [Machine.after, Function.comp_def]

theorem presentations_after (h : t.Carries p a task answers x move) :
    t.progress.machine.presentations = t.before.presentations.set p move.presentation := by
  obtain ⟨rest, -, hprogress⟩ := h.progress
  rw [hprogress]
  rfl

theorem presentation_after (h : t.Carries p a task answers x move) :
    t.progress.machine.presentations[p]? = some move.presentation := by
  rw [h.presentations_after]
  exact List.getElem?_set_self (List.getElem?_eq_some_iff.mp h.present).1

theorem effects_eq (h : t.Carries p a task answers x move) (q : Key) :
    t.effects q = if p = q then move.effects else [] := by
  obtain ⟨rest, -, hprogress⟩ := h.progress
  rw [Transition.effects, hprogress]
  exact filterMap_key

theorem stack_after (h : t.Carries p a task answers x move) :
    ∃ rest, t.progress.machine.stack a = move.next.map (.at p) ++ rest := by
  obtain ⟨rest, hstack, hprogress⟩ := h.progress
  exact ⟨rest, by rw [hprogress, Machine.stack_after_self (Machine.lt_of_stack hstack)]⟩

end Carries

end Transition

/-- The transition does something of a kind to one presentation, and has no other effects than
on that one. -/
structure Transition.Amounts (t : Transition H) (p : Key)
    (kind : Presentation H → List (Effect H) → Presentation H → Prop) : Prop where
  presentations : ∃ x y, t.before.presentations[p]? = some x ∧ kind x (t.effects p) y ∧
    t.progress.machine.presentations = t.before.presentations.set p y
  registry : t.progress.machine.registry = t.before.registry
  effects : ∀ e ∈ t.progress.effects, e.1 = p

theorem Transition.Carries.amounts {t : Transition H} {p : Key} {a : ActorId} {task : Task H}
    {answers : Answers H} {x : Presentation H} {move : Move H}
    {kind : Presentation H → List (Effect H) → Presentation H → Prop}
    (h : t.Carries p a task answers x move) (hkind : kind x move.effects move.presentation) :
    t.Amounts p kind where
  presentations := by
    refine ⟨x, _, h.present, ?_, h.presentations_after⟩
    rwa [h.effects_eq, if_pos rfl]
  registry := by
    obtain ⟨rest, -, hprogress⟩ := h.progress
    rw [hprogress]
    rfl
  effects := by
    obtain ⟨rest, -, hprogress⟩ := h.progress
    rw [hprogress]
    simp [Machine.after]

/-! ## The next step of an actor -/

namespace Transition

variable {t : Transition H} {p : Key} {a : ActorId} {task : Task H} {x : Presentation H}
  {effects : List (Effect H)}

theorem carries_of_doing (hplay : t.before.play t.action = some t.progress)
    (hdoing : t.doing? p = some (a, ⟨x, task, effects⟩))
    (hstays : ∀ c : Surroundings H, x.perform c task ≠ .unwinds) :
    ∃ answers move, t.Carries p a task answers x move := by
  obtain ⟨answers, rest, haction, hstack, hx, ⟨move, hmove, hprogress, -⟩ | ⟨hunwinds, -⟩⟩ :=
    perform_of_doing hplay hdoing
  · exact ⟨answers, move, haction, hx, hmove, rest, hstack, hprogress⟩
  · exact absurd hunwinds (hstays _)

theorem carries_of_moves (hplay : t.before.play t.action = some t.progress)
    (hdoing : t.doing? p = some (a, ⟨x, task, effects⟩))
    (hmoves : ∀ c : Surroundings H, ∃ move, x.perform c task = .moves move) :
    ∃ answers move, t.Carries p a task answers x move := by
  refine carries_of_doing hplay hdoing fun c hunwinds => ?_
  obtain ⟨move, hmove⟩ := hmoves c
  cases hmove.symm.trans hunwinds

/-- A task that is not a duty and starts no thread is carried out. -/
theorem carries_of_does (hplay : t.before.play t.action = some t.progress) (hdoes : t.Does p a task)
    (hfree : task.isDuty = false) (hstart : task ≠ .start)
    (hx : t.before.presentations[p]? = some x) :
    ∃ answers move, t.Carries p a task answers x move := by
  obtain ⟨z, effects, hdoing⟩ := hdoes
  obtain ⟨-, -, -, -, hz, -⟩ := perform_of_doing hplay hdoing
  obtain rfl := Option.some.inj (hx.symm.trans hz)
  exact carries_of_doing hplay hdoing fun c =>
    (Presentation.perform_aside hfree fun heq => absurd heq hstart).ne_unwinds

end Transition

namespace Machine

variable {config : Config} {decoders : DecoderBackends H.Codec} {outputs : AudioBackends H.Output}
  {actions : List (Action H)} {past between after : List (Transition H)} {first last : Transition H}
  {p : Key}
  {a : ActorId} {c : Call H} {task : Task H} {rest : List (Job H)}

/-- A task waits for its actor, whatever the others do. -/
theorem stack_of_idle {idle : List (Transition H)} {t : Transition H}
    (htrace : ((initial config decoders outputs).run actions).trace =
      past ++ first :: (idle ++ t :: after))
    (hstack : first.progress.machine.stack a = .at p task :: rest) (hbusy : task ≠ .callback)
    (hx : (first.progress.machine.presentations[p]?).isSome) (hidle : ∀ u ∈ idle, ¬ u.IsBy a) :
    t.before.stack a = .at p task :: rest ∧ (t.before.presentations[p]?).isSome := by
  refine holds_through (P := fun m => m.stack a = .at p task :: rest ∧ (m.presentations[p]?).isSome)
    _ _ htrace
    ⟨hstack, hx⟩ ?_
  rintro past u after hu hmem ⟨hstack, hx⟩
  obtain ⟨x, hx⟩ := Option.isSome_iff_exists.mp hx
  obtain ⟨hplay, crew, crew', -, hturn⟩ := turn_of_trace hu p
  obtain ⟨y, hy⟩ := hturn.exists_after hx
  refine ⟨?_, by rw [hy]; rfl⟩
  rcases hturn.own_or_stays hplay hx hstack hbusy with ⟨effects, hdoing⟩ | ⟨-, hsame⟩
  · obtain ⟨answers, -, haction, -⟩ := Transition.perform_of_doing hplay hdoing
    exact absurd ⟨answers, haction⟩ (hidle u hmem)
  · exact hsame.trans hstack

end Machine

/-! ## Calls in one part or two -/

structure Task.EndsCall (task : Task H) : Prop where
  busy : task ≠ .callback
  moves : ∀ (c : Surroundings H) (x : Presentation H), ∃ move, x.perform c task = .moves move
  ends : ∀ (c : Surroundings H) (x : Presentation H) move, x.perform c task = .moves move →
    move.next = [] ∧ move.result.isSome

/-- The task is always done, and ends its call or leaves one task that does. -/
structure Task.InTwo (task : Task H) : Prop where
  busy : task ≠ .callback
  moves : ∀ (c : Surroundings H) (x : Presentation H), ∃ move, x.perform c task = .moves move
  goes : ∀ (c : Surroundings H) (x : Presentation H) move, x.perform c task = .moves move →
    move.next = [] ∧ move.result.isSome ∨
      ∃ next, move.next = [next] ∧ move.result = none ∧ next.EndsCall

/-- The course of a call that begins with a task. The actor returns with that, or does something
else after it and returns with that; everything else that happens meanwhile is done by others. -/
inductive InParts (p : Key) (a : ActorId) (task : Task H) (between : List (Transition H))
    (last : Transition H) :
    Prop where
  | once {answers x move} : (∀ u ∈ between, ¬ u.IsBy a) → last.Carries p a task answers x move →
      move.next = [] → InParts p a task between last
  | twice {idle t more answers x move next answers' y move'} : between = idle ++ t :: more →
      (∀ u ∈ idle ++ more, ¬ u.IsBy a) → t.Carries p a task answers x move → move.next = [next] →
      last.Carries p a next answers' y move' → InParts p a task between last

theorem own_of_once {a : ActorId} {P : Transition H → Prop} {between : List (Transition H)}
    {last : Transition H} (hidle : ∀ u ∈ between, ¬ u.IsBy a) (hlast : P last) :
    ∀ u ∈ between ++ [last], u.IsBy a → P u := by
  intro u hu hby
  rcases List.mem_append.mp hu with hbetween | hmem
  · exact absurd hby (hidle u hbetween)
  · rw [List.mem_singleton.mp hmem]
    exact hlast

theorem own_of_twice {a : ActorId} {P : Transition H → Prop} {idle more : List (Transition H)}
    {t last : Transition H} (hidle : ∀ u ∈ idle ++ more, ¬ u.IsBy a) (ht : P t) (hlast : P last) :
    ∀ u ∈ (idle ++ t :: more) ++ [last], u.IsBy a → P u := by
  intro u hu hby
  have hwhere : u ∈ idle ++ more ∨ u = t ∨ u = last := by
    simp only [List.mem_append, List.mem_cons, List.not_mem_nil, or_false] at hu ⊢
    tauto
  rcases hwhere with hothers | rfl | rfl
  · exact absurd hby (hidle u hothers)
  · exact ht
  · exact hlast

theorem exists_first_step (a : ActorId) (during : List (Transition H)) :
    (∀ u ∈ during, ¬ u.IsBy a) ∨
      ∃ idle t more, during = idle ++ t :: more ∧ (∀ u ∈ idle, ¬ u.IsBy a) ∧ t.IsBy a := by
  induction during with
  | nil => exact .inl (by simp)
  | cons u during ih =>
      by_cases hu : u.IsBy a
      · exact .inr ⟨[], u, during, rfl, by simp, hu⟩
      · rcases ih with hnone | ⟨idle, t, more, rfl, hidle, ht⟩
        · exact .inl (List.forall_mem_cons.mpr ⟨hu, hnone⟩)
        · exact .inr ⟨u :: idle, t, more, rfl, List.forall_mem_cons.mpr ⟨hu, hidle⟩, ht⟩

namespace Machine

variable {config : Config} {decoders : DecoderBackends H.Codec} {outputs : AudioBackends H.Output}
  {actions : List (Action H)} {past between after : List (Transition H)} {first last : Transition H}
  {p : Key}
  {a : ActorId} {c : Call H} {task : Task H} {rest : List (Job H)}

/-- The actor comes to its next task with its first step, if that task is always done. -/
theorem carries_of_idle {idle : List (Transition H)} {t : Transition H}
    (htrace : ((initial config decoders outputs).run actions).trace =
      past ++ first :: (idle ++ t :: after))
    (hstack : first.progress.machine.stack a = .at p task :: rest) (hbusy : task ≠ .callback)
    (hx : (first.progress.machine.presentations[p]?).isSome) (hidle : ∀ u ∈ idle, ¬ u.IsBy a)
    (ht : t.IsBy a)
    (hmoves : ∀ (c : Surroundings H) (x : Presentation H), ∃ move, x.perform c task = .moves move) :
    ∃ answers x move, t.Carries p a task answers x move := by
  obtain ⟨hstack', hx'⟩ := stack_of_idle htrace hstack hbusy hx hidle
  obtain ⟨x, hx'⟩ := Option.isSome_iff_exists.mp hx'
  have hplay : t.before.play t.action = some t.progress := play_of_mem (by rw [htrace]; simp)
  obtain ⟨effects, hdoing⟩ := Transition.doing?_of_isBy ht (by rw [hstack']; rfl) hx'
  obtain ⟨answers, move, hcarries⟩ := Transition.carries_of_moves hplay hdoing fun c => hmoves c x
  exact ⟨answers, x, move, hcarries⟩

/-- What has just been called is what its actor does next, and its presentation exists. -/
theorem stack_of_called (hplay : first.before.play first.action = some first.progress)
    (hcalled : first.action = .call a c) (hjobs : c.jobs = [.at p task]) (hkey : c.key? = some p) :
    first.progress.machine.stack a = .at p task :: first.before.stack a ∧
      (first.progress.machine.presentations[p]?).isSome := by
  rw [hcalled] at hplay
  simp only [play, Option.ite_none_right_eq_some, Bool.and_eq_true, Option.some.injEq] at hplay
  obtain ⟨⟨⟨hmay, -⟩, hknown⟩, hprogress⟩ := hplay
  rw [← hprogress, hjobs]
  refine ⟨stack_setStack_self (lt_of_mayCall hmay), ?_⟩
  have hlt : p < first.before.presentations.length := by simpa [knows, hkey] using hknown
  simpa [invoke, setStack] using hlt

/-- A call that consists of one task or two takes its course. -/
theorem inParts_of_makes
    (htrace : ((initial config decoders outputs).run actions).trace =
      past ++ first :: (between ++ last :: after))
    (h : Makes a c first between last) (hjobs : c.jobs = [.at p task]) (hkey : c.key? = some p)
    (htask : task.InTwo) : InParts p a task between last := by
  have hplay : first.before.play first.action = some first.progress :=
    play_of_mem (by rw [htrace]; simp)
  obtain ⟨hstack, hx⟩ := stack_of_called hplay h.called hjobs hkey
  rcases exists_first_step a between with hnone | ⟨idle, t, more, rfl, hidle, ht⟩
  · obtain ⟨answers, x, move, hcarries⟩ :=
      carries_of_idle htrace hstack htask.busy hx hnone
        (Transition.isBy_of_returns h.returned) htask.moves
    have hreturns := hcarries.returns.symm.trans h.returned
    rcases htask.goes _ _ _ hcarries.moves with ⟨hnext, -⟩ | ⟨next, -, hresult, -⟩
    · exact .once hnone hcarries hnext
    · simp [hresult] at hreturns
  · have hcourse : ((initial config decoders outputs).run actions).trace =
        past ++ first :: (idle ++ t :: (more ++ last :: after)) := by
      simpa using htrace
    obtain ⟨answers, x, move, hcarries⟩ :=
      carries_of_idle hcourse hstack htask.busy hx hidle ht htask.moves
    have hstays := hcarries.returns.symm.trans (h.busy t (by simp))
    rcases htask.goes _ _ _ hcarries.moves with ⟨-, hresult⟩ | ⟨next, hnext, -, hends⟩
    · rw [hresult] at hstays
      cases hstays
    obtain ⟨below, hstack'⟩ := hcarries.stack_after
    rw [hnext] at hstack'
    have hx' : (t.progress.machine.presentations[p]?).isSome :=
      Option.isSome_iff_exists.mpr ⟨_, hcarries.presentation_after⟩
    have hlater : ((initial config decoders outputs).run actions).trace =
        (past ++ first :: idle) ++ t :: (more ++ last :: after) := by
      simpa using htrace
    -- the second part ends the call, so that nobody can have done it before `last`
    rcases exists_first_step a more with hquiet | ⟨quiet, u, further, rfl, hquiet, hu⟩
    · obtain ⟨answers', y, move', hcarries'⟩ := carries_of_idle hlater hstack' hends.busy hx' hquiet
        (Transition.isBy_of_returns h.returned) hends.moves
      exact .twice rfl (fun v hv => (List.mem_append.mp hv).elim (hidle v) (hquiet v)) hcarries
        hnext hcarries'
    · have hsooner : ((initial config decoders outputs).run actions).trace =
          (past ++ first :: idle) ++ t :: (quiet ++ u :: (further ++ last :: after)) := by
        simpa using htrace
      obtain ⟨answers', y, move', hcarries'⟩ :=
        carries_of_idle hsooner hstack' hends.busy hx' hquiet hu hends.moves
      have hearly := hcarries'.returns.symm.trans (h.busy u (by simp))
      rw [(hends.ends _ _ _ hcarries'.moves).2] at hearly
      cases hearly

/-- A call that returns at the end of a run is part of a run that goes on after it. -/
theorem makes_of_run {m : Machine H} {earlier during : List (Action H)}
    (hmay : (m.run earlier).final.mayCall a && c.isHosts && (m.run earlier).final.knows c)
    (hbusy : ∀ t ∈ (((m.run earlier).final.invoke a c.jobs).run during).trace.dropLast,
      t.returns a = false)
    (hlast : (((m.run earlier).final.invoke a c.jobs).run during).trace.getLast? = some last)
    (hreturned : last.returns a) (more : List (Action H)) :
    ∃ between after first, (m.run (earlier ++ .call a c :: (during ++ more))).trace =
        (m.run earlier).trace ++ first :: (between ++ last :: after) ∧
      Makes a c first between last := by
  obtain ⟨between, after, htrace, hcall⟩ := trace_of_call hmay hlast more
  rw [htrace, List.dropLast_concat] at hbusy
  exact ⟨between, after, _, hcall, rfl, hbusy, hreturned⟩

end Machine

end Playout
