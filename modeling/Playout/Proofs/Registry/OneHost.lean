import Playout.Proofs.Registry.Entries

/-!
# One host

A host with one thread makes one call after the other. As long as it makes none from inside a
callback, all that other actors do is the work of playback threads, each at its own presentation:
they deliver what they release, and leave the streams and the registry alone. Where no thread plays,
nothing happens that the host does not do itself.
-/

namespace Playout

variable {H : Platform}

/-- The transition fits into a sequence of calls: the host has no second thread, and no call is
begun before the one before it is over. -/
def Transition.isInSequence (t : Transition H) : Bool :=
  match t.action with
  | .call a _ => (t.before.stack a).isEmpty
  | .reclaim a _ => (t.before.stack a).isEmpty
  | .step .. => true
  | .addHost => false

/-- The host has one thread, which makes one call after the other. -/
def Run.InSequence (r : Run H) : Prop :=
  ∀ t ∈ r.trace, t.isInSequence

/-! ## The work of a playback thread -/

def Task.isRoutine : Task H → Bool
  | .tick _ => false
  | t => t.isDuty || t.isInterlude

def Job.isRoutineOf (p : Key) : Job H → Bool
  | .at q task => q == p && task.isRoutine
  | _ => false

namespace Task

variable {t : Task H}

theorem isRoutine_of_isInterlude (h : t.isInterlude) : t.isRoutine := by
  cases t <;> simp_all [isRoutine, isInterlude]

theorem isRoutine_of_mem_duties {s? : Option (Standing H)} (h : t ∈ Standing.duties s?) :
    t.isRoutine := by
  have hduty := Standing.duties_isDuty s? t h
  cases t with
  | tick pacing =>
      cases s? with
      | none => cases h
      | some s => cases s <;> simp [Standing.duties, Standing.duty, Standing.later] at h
  | _ => simp_all [isRoutine]

/-- A routine task is part of an offer, or it is what a thread at some standing does. -/
theorem isRoutine_cases (h : t.isRoutine) :
    (∃ event, t = .offer event) ∨ t = .callback ∨ ∃ s : Standing H, t = s.duty := by
  cases t with
  | tick => cases h
  | offer event => exact .inl ⟨event, rfl⟩
  | callback => exact .inr (.inl rfl)
  | dispatch selected => exact .inr (.inr ⟨.dispatching selected .paced, rfl⟩)
  | acknowledge sample => exact .inr (.inr ⟨.acknowledging sample .paced, rfl⟩)
  | openSink => exact .inr (.inr ⟨.openingSink, rfl⟩)
  | releaseSink => exact .inr (.inr ⟨.releasingSink, rfl⟩)
  | drainSink => exact .inr (.inr ⟨.drainingSink, rfl⟩)
  | pollSink deadline wake => exact .inr (.inr ⟨.pollingSink deadline wake, rfl⟩)
  | playback phase => exact .inr (.inr ⟨.at phase, rfl⟩)
  | _ => simp [isRoutine, isDuty, isInterlude] at h

end Task

namespace Presentation

variable {c : Surroundings H} {x : Presentation H} {task : Task H} {move : Move H}

theorem perform_routine (h : task.isRoutine) (hmove : x.perform c task = .moves move) :
    (∀ t ∈ move.next, t.isRoutine) ∧ move.spawned = [] := by
  rcases Task.isRoutine_cases h with ⟨event, rfl⟩ | rfl | ⟨s, rfl⟩
  · cases hmove
    exact ⟨by simp [Task.isRoutine, Task.isInterlude], rfl⟩
  · cases hmove
    exact ⟨by simp, rfl⟩
  · obtain ⟨s?, hnext, hspawned, -⟩ := Onward.of_moves (hmove ▸ perform_duty c x s)
    refine ⟨fun t ht => ?_, hspawned⟩
    have hmem : t ∈ s.interludes x ++ Standing.duties s? := hnext ▸ List.mem_append_left s.later ht
    rcases List.mem_append.mp hmem with hinterlude | hduty
    · exact Task.isRoutine_of_isInterlude (Standing.isInterlude_of_mem hinterlude)
    · exact Task.isRoutine_of_mem_duties hduty

/-- Only a start makes a thread appear, and the thread has its whole body to do. -/
theorem perform_spawned (hmove : x.perform c task = .moves move) :
    move.spawned = [] ∨ move.spawned = [Task.body] := by
  cases hroutine : task.isRoutine with
  | true => exact .inl (perform_routine hroutine hmove).2
  | false =>
      cases task with
      | tick pacing =>
          simp only [perform] at hmove
          split at hmove
          · cases hmove
            exact .inl rfl
          · cases hmove
            exact .inl rfl
      | start =>
          rcases start_cases hmove with ⟨-, rfl⟩ | ⟨text, -, -, rfl⟩ | ⟨-, rfl⟩
          · exact .inl rfl
          · exact .inl rfl
          · exact .inr rfl
      | offer event =>
          cases event <;> simp [Task.isRoutine, Task.isDuty, Task.isInterlude] at hroutine
      | _ =>
          first
          | exact .inl (Aside.of_moves (hmove ▸ perform_aside rfl (by simp))).2.2.2
          | simp [Task.isRoutine, Task.isDuty, Task.isInterlude] at hroutine

end Presentation

/-! ## Machines with one host -/

/-- Everyone but the first actor is a playback thread, and has only its routine to do. -/
structure Machine.Hosted (m : Machine H) : Prop where
  threads : ∀ a actor, a ≠ 0 → m.actors[a]? = some actor →
    ∃ p, actor.role = .playback p ∧ ∀ job ∈ actor.jobs, job.isRoutineOf p

namespace Machine.Hosted

variable {m m' : Machine H} {p q : Key} {a : ActorId} {job : Job H} {jobs rest : List (Job H)}
  {action : Action H}
  {progress : Progress H}

theorem congr (h : m.Hosted) (hactors : m'.actors = m.actors) : m'.Hosted where
  threads := hactors ▸ h.threads

theorem routine (h : m.Hosted) (ha : a ≠ 0) (hstack : m.stack a = job :: rest) :
    ∃ p task actor, m.actors[a]? = some actor ∧ actor.role = .playback p ∧ job = .at p task ∧
      task.isRoutine ∧
      ∀ job ∈ rest, job.isRoutineOf p := by
  unfold stack at hstack
  cases hactor : m.actors[a]? with
  | none => simp [hactor] at hstack
  | some actor =>
      obtain ⟨p, hrole, hjobs⟩ := h.threads a actor ha hactor
      have hstack : actor.jobs = job :: rest := by simpa [hactor] using hstack
      rw [hstack] at hjobs
      have hjob := hjobs job List.mem_cons_self
      cases job with
      | «at» q task =>
          simp only [Job.isRoutineOf, Bool.and_eq_true, beq_iff_eq] at hjob
          obtain ⟨rfl, hroutine⟩ := hjob
          exact ⟨q, task, actor, rfl, hrole, rfl, hroutine,
            fun job hmem => hjobs job (List.mem_cons_of_mem _ hmem)⟩
      | _ => cases hjob

/-- Only the host begins a call outside of callbacks. -/
theorem eq_zero_of_idle (h : m.Hosted) (hmay : m.mayCall a) (hempty : (m.stack a).isEmpty) :
    a = 0 := by
  by_contra ha
  unfold mayCall at hmay
  unfold stack at hempty
  cases hactor : m.actors[a]? with
  | none => simp [hactor] at hmay
  | some actor =>
      obtain ⟨p, hrole, -⟩ := h.threads a actor ha hactor
      have hjobs : actor.jobs = [] := by simpa [hactor] using hempty
      simp [hactor, Actor.mayCall, hjobs, hrole] at hmay

theorem setStack (h : m.Hosted)
    (hjobs : ∀ actor p, a ≠ 0 → m.actors[a]? = some actor → actor.role = .playback p →
      ∀ job ∈ jobs, job.isRoutineOf p) : (m.setStack a jobs).Hosted where
  threads b actor hb hactor := by
    simp only [Machine.setStack, List.getElem?_modify] at hactor
    cases hold : m.actors[b]? with
    | none => simp [hold] at hactor
    | some old =>
        obtain ⟨p, hrole, hroutine⟩ := h.threads b old hb hold
        by_cases hab : a = b
        · subst hab
          obtain rfl : { old with jobs := jobs } = actor := by simpa [hold] using hactor
          exact ⟨p, hrole, hjobs old p hb hold hrole⟩
        · obtain rfl : old = actor := by simpa [hold, hab] using hactor
          exact ⟨p, hrole, hroutine⟩

theorem after {move : Move H} (h : m.Hosted)
    (hjobs : ∀ actor p, a ≠ 0 → m.actors[a]? = some actor → actor.role = .playback p →
      ∀ job ∈ move.next.map (.at q) ++ rest, job.isRoutineOf p)
    (hspawned : move.spawned = [] ∨ move.spawned = [Task.body]) :
    (m.after a q rest move).machine.Hosted := by
  have hset := h.setStack hjobs
  rcases hspawned with hnone | hbody
  · exact hset.congr (by simp [Machine.after, hnone])
  · refine ⟨fun b actor hb hactor => ?_⟩
    have hactors : (m.after a q rest move).machine.actors =
        (m.setStack a (move.next.map (.at q) ++ rest)).actors ++
        [⟨.playback q, Task.body.map (.at q)⟩] := by
      simp [Machine.after, hbody]
    rw [hactors, List.getElem?_append] at hactor
    split at hactor
    · exact hset.threads b actor hb hactor
    · obtain rfl := List.mem_singleton.mp (List.mem_of_getElem? hactor)
      exact ⟨q, rfl, by simp [Task.body, Job.isRoutineOf, Task.isRoutine, Task.isDuty]⟩

theorem perform {answers : Answers H} (h : m.Hosted) (hstack : m.stack a = job :: rest)
    (hstep : m.perform a answers rest job = some progress) : progress.machine.Hosted := by
  by_cases hat : ∃ q task, job = .at q task
  · obtain ⟨q, task, rfl⟩ := hat
    have hrest : ∀ actor p, a ≠ 0 → m.actors[a]? = some actor → actor.role = .playback p →
        ∀ job ∈ rest, job.isRoutineOf p := by
      intro actor p ha hactor hrole
      obtain ⟨p', task', actor', hactor', hrole', -, -, hrest⟩ := h.routine ha hstack
      obtain rfl := Option.some.inj (hactor.symm.trans hactor')
      obtain rfl := Role.playback.inj (hrole.symm.trans hrole')
      exact hrest
    simp only [Machine.perform] at hstep
    split at hstep
    · cases hstep
      exact h.setStack hrest
    · rename_i x hx
      split at hstep
      · rename_i move hmove
        cases hstep
        refine h.after (fun actor p ha hactor hrole job hmem => ?_)
          (Presentation.perform_spawned hmove)
        rcases List.mem_append.mp hmem with hnew | hold
        · obtain ⟨p', task', actor', hactor', hrole', hjob, hroutine, -⟩ := h.routine ha hstack
          obtain rfl := Option.some.inj (hactor.symm.trans hactor')
          obtain rfl := Role.playback.inj (hrole.symm.trans hrole')
          obtain ⟨rfl, rfl⟩ := Job.at.inj hjob
          obtain ⟨t, ht, rfl⟩ := List.mem_map.mp hnew
          simp [Job.isRoutineOf, (Presentation.perform_routine hroutine hmove).1 t ht]
        · exact hrest actor p ha hactor hrole job hold
      · cases hstep
      · cases hstep
        have hempty : (m.setStack a []).Hosted := h.setStack (by simp)
        exact hempty.congr rfl
  · obtain ⟨jobs, created, hregisters⟩ :=
      perform_registry (fun q task heq => hat ⟨q, task, heq⟩) hstep
    refine (h.setStack fun actor p ha hactor hrole => ?_).congr hregisters.actors
    obtain ⟨p', task, -, -, -, rfl, -⟩ := h.routine ha hstack
    exact absurd ⟨p', task, rfl⟩ hat

theorem next (h : m.Hosted) (hplay : m.play action = some progress)
    (hsequence : Transition.isInSequence ⟨m, action, progress⟩) : progress.machine.Hosted := by
  cases action with
  | call a c =>
      simp only [Machine.play, Option.ite_none_right_eq_some, Bool.and_eq_true,
        Option.some.injEq] at hplay
      obtain ⟨⟨⟨hmay, -⟩, -⟩, rfl⟩ := hplay
      exact h.setStack fun _ _ ha => absurd (h.eq_zero_of_idle hmay hsequence) ha
  | reclaim a q =>
      simp only [Machine.play, Option.ite_none_right_eq_some, Option.some.injEq] at hplay
      obtain ⟨hmay, rfl⟩ := hplay
      exact h.setStack fun _ _ ha => absurd (h.eq_zero_of_idle hmay hsequence) ha
  | addHost => cases hsequence
  | step a answers =>
      simp only [Machine.play, Machine.step] at hplay
      split at hplay
      · cases hplay
      · rename_i job rest hstack
        exact h.perform hstack hplay

end Machine.Hosted

/-! ## What threads leave alone -/

/-- What a playback thread does to a presentation. If there is no thread, that is nothing. -/
structure Presentation.Spares (x y : Presentation H) : Prop where
  handles : y.handles = x.handles
  streams : y.streams = x.streams
  idle : x.isRunning = false → y = x

theorem Presentation.Spares.refl (x : Presentation H) : x.Spares x :=
  ⟨rfl, rfl, fun _ => rfl⟩

namespace Machine.Hosted

variable {m : Machine H} {p : Key} {a : ActorId} {answers : Answers H} {progress : Progress H}
  {crew crew' : Crew H} {x : Presentation H}

theorem role_of_doing (h : m.Hosted) (ha : a ≠ 0) {deed : Deed H} {action : Action H}
    (hplay : m.play action = some progress)
    (hdoing : Transition.doing? p ⟨m, action, progress⟩ = some (a, deed)) :
    (∃ actor, m.actors[a]? = some actor ∧ actor.role = .playback p) ∧ deed.task.isRoutine := by
  obtain ⟨answers, rest, -, hstack, -⟩ := Transition.perform_of_doing hplay hdoing
  obtain ⟨q, task, actor, hactor, hrole, hjob, hroutine, -⟩ := h.routine ha hstack
  obtain ⟨rfl, rfl⟩ := Job.at.inj hjob
  exact ⟨⟨actor, hactor, hrole⟩, hroutine⟩

theorem spares (h : m.Hosted) (ha : a ≠ 0) (hcrew : Crewed m p crew)
    (hplay : m.play (.step a answers) = some progress)
    (hturn : Turn m progress.machine p crew
      (Transition.doing? p ⟨m, .step a answers, progress⟩) crew')
    (hx : m.presentations[p]? = some x) :
    ∃ y, progress.machine.presentations[p]? = some y ∧ x.Spares y := by
  cases hdoing : Transition.doing? p ⟨m, .step a answers, progress⟩ with
  | none => exact ⟨x, (hdoing ▸ hturn).still hx |>.1, .refl x⟩
  | some doing =>
      obtain ⟨b, deed⟩ := doing
      obtain rfl : b = a := by
        obtain ⟨answers', -, haction, -⟩ := Transition.perform_of_doing hplay hdoing
        cases haction
        rfl
      have hroutine := (h.role_of_doing ha hplay hdoing).2
      rw [hdoing] at hturn
      cases hturn with
      | aside hx' hy hfree _ hmove =>
          obtain rfl := Option.some.inj (hx.symm.trans hx')
          refine ⟨_, hy, ?_⟩
          rcases Task.isRoutine_cases hroutine with ⟨event, rfl⟩ | rfl | ⟨s, rfl⟩
          · cases hmove
            exact .refl x
          · cases hmove
            exact .refl x
          · rw [s.duty_isDuty] at hfree
            cases hfree
      | start => cases hroutine
      | duty hown hx' hy hadv =>
          obtain rfl := Option.some.inj (hx.symm.trans hx')
          obtain ⟨-, hhandles, hstreams, -⟩ := Presentation.Advance.tables_kept hadv
          refine ⟨_, hy, hhandles, hstreams, fun hidle => ?_⟩
          rw [hcrew.running x hx, hown] at hidle
          cases hidle

theorem step_frame (h : m.Hosted) (ha : a ≠ 0) (hplay : m.play (.step a answers) = some progress) :
    progress.machine.stack 0 = m.stack 0 ∧ progress.machine.registry = m.registry := by
  simp only [play, step] at hplay
  split at hplay
  · cases hplay
  · rename_i job rest hstack
    obtain ⟨p, task, -, -, -, rfl, hroutine, -⟩ := h.routine ha hstack
    refine ⟨?_, (perform_at_frame hplay).1⟩
    have hlt := lt_of_stack hstack
    simp only [Machine.perform] at hplay
    split at hplay
    · cases hplay
      exact stack_setStack_of_ne (Ne.symm ha)
    · split at hplay
      · cases hplay
        exact stack_after_of_ne (Nat.lt_of_le_of_lt (Nat.zero_le a) hlt) (Ne.symm ha)
      · cases hplay
      · cases hplay
        exact stack_setStack_of_ne (Ne.symm ha)

end Machine.Hosted

end Playout
