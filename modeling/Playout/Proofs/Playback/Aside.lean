import Playout.Proofs.Playback.Conduct

/-!
# Tasks that are not duties

What a task of a call can do to the queues is one of few things, and the effects say which. It
launches a thread or it leaves the playback state alone; it never releases or acknowledges a sample,
and it breaks nothing off.
-/

namespace Playout

variable {H : Platform}

inductive Requeue (x : Presentation H) : Task H → Presentation H → List (Effect H) → Prop where
  | keep {task y effects} : y.queues = x.queues → y.handles = x.handles →
      (∀ e ∈ effects, e.isQuiet) → Requeue x task y effects
  | register {s place y} : x.findStream? s = none → y.queues = x.queues ++ [.new s] →
      y.handles = x.handles ++ [(s, place)] → Requeue x (.createStream s) y []
  | detach {s place y} : x.findStream? s = some place → y.queues = x.queues.filter (·.id != s) →
      y.handles = x.handles.filter (·.1 != s) →
      Requeue x (.detachStream s) y (Presentation.dropped (((x.queue? s).map (·.samples)).getD []))
  | detachAll {task y rest} : y.queues = [] → y.handles = [] → (∀ e ∈ rest, e.isQuiet) →
      Requeue x task y (Presentation.dropped (x.queues.flatMap (·.samples)) ++ rest)
  /-- The stream's format or its end is noted. -/
  | revise {task y pre q q' post} : x.queues = pre ++ q :: post → y.queues = pre ++ q' :: post →
      q'.id = q.id → q'.samples = q.samples → y.handles = x.handles → Requeue x task y []
  | enqueue {sample y pre q post} : x.queues = pre ++ q :: post →
      (∀ p ∈ pre, p.id ≠ sample.streamId) →
      q.id = sample.streamId → y.queues =
        pre ++ { q with samples := q.samples ++ [sample] } :: post →
      y.handles = x.handles → Requeue x (.enqueue sample) y [.queued sample]
  | clear {y} : y.queues = x.queues.map (·.clear) → y.handles = x.handles →
      Requeue x .clearQueues y (Presentation.dropped (x.queues.flatMap (·.samples)))

theorem Presentation.mem_dropped {samples : List (Sample H.Receiver)} {e : Effect H}
    (h : e ∈ dropped samples) : e = .discarded samples := by
  unfold dropped at h
  split at h
  · simp at h
  · exact List.mem_singleton.mp h

namespace Requeue

variable {x y : Presentation H} {task : Task H} {effects : List (Effect H)}

/-- Beside quiet effects there are only those of dropped samples and of the sample that is put
into a queue. -/
theorem effect_cases (h : Requeue x task y effects) {e : Effect H} (he : e ∈ effects) :
    e.isQuiet ∨ (∃ samples, e = .discarded samples) ∨
      ∃ sample, task = .enqueue sample ∧ e = .queued sample := by
  cases h with
  | keep _ _ hquiet => exact .inl (hquiet e he)
  | detach => exact .inr (.inl ⟨_, Presentation.mem_dropped he⟩)
  | detachAll _ _ hquiet =>
      rcases List.mem_append.mp he with hmem | hmem
      · exact .inr (.inl ⟨_, Presentation.mem_dropped hmem⟩)
      · exact .inl (hquiet e hmem)
  | enqueue => exact .inr (.inr ⟨_, rfl, List.mem_singleton.mp he⟩)
  | clear => exact .inr (.inl ⟨_, Presentation.mem_dropped he⟩)
  | register => simp at he
  | revise => simp at he

theorem filterMap_eq_nil {β : Type} {f : Effect H → Option β} (h : Requeue x task y effects)
    (hquiet : ∀ e, e.isQuiet → f e = none) (hdiscarded : ∀ samples, f (.discarded samples) = none)
    (hqueued : ∀ sample, task = .enqueue sample → f (.queued sample) = none) :
    effects.filterMap f = [] := by
  refine List.filterMap_eq_nil_iff.mpr fun e he => ?_
  rcases h.effect_cases he with hq | ⟨samples, rfl⟩ | ⟨sample, htask, rfl⟩
  · exact hquiet e hq
  · exact hdiscarded samples
  · exact hqueued sample htask

end Requeue

inductive Aside (x : Presentation H) (task : Task H) : Outcome H → Prop where
  | waits : Aside x task .waits
  | returning {y result effects} : y.state = x.state → Requeue x task y effects →
      Aside x task (y.returning result effects)
  | going {y next effects} : y.state = x.state → Requeue x task y effects →
      (∀ t ∈ next, t.isErrand ∨ t.isDuty = false ∧ task.isFeed) →
        Aside x task (y.going next effects)

namespace Aside

variable {x y : Presentation H} {task : Task H} {c : Surroundings H}

theorem of_moves {move : Move H} (h : Aside x task (.moves move)) :
    move.presentation.state = x.state ∧ Requeue x task move.presentation move.effects ∧
      (∀ t ∈ move.next, t.isErrand ∨ t.isDuty = false ∧ task.isFeed) ∧ move.spawned = [] := by
  generalize ho : Outcome.moves move = o at h
  cases h with
  | waits => cases ho
  | returning hstate hqueues =>
      cases ho
      exact ⟨hstate, hqueues, by simp, rfl⟩
  | going hstate hqueues hnext =>
      cases ho
      exact ⟨hstate, hqueues, hnext, rfl⟩

theorem ne_unwinds {o : Outcome H} (h : Aside x task o) : o ≠ .unwinds := by
  cases h <;> simp [Presentation.returning, Presentation.going]

end Aside

theorem Conduct.aside {c : Surroundings H} {x : Presentation H} {task : Task H} {o : Outcome H}
    (h : Conduct c x task o) : Aside x task o := by
  have hquiet : ∀ {effects : List (Effect H)}, (∀ e ∈ effects, e.isDecoding) →
      ∀ e ∈ effects, e.isQuiet :=
    fun hdecoding e he => Effect.isQuiet_of_isUpkeep
      (Effect.isUpkeep_of_isDecoding (hdecoding e he))
  cases h with
  | waits => exact .waits
  | plain _ _ hkept hdecoding =>
      exact .returning hkept.state (.keep hkept.queues hkept.handles (hquiet hdecoding))
  | releaseDecoder hkept =>
      exact .going hkept.state
        (.keep hkept.queues hkept.handles (hquiet (Presentation.destroyed_decoding _)))
        (by simp [Task.isErrand, Task.isDuty, Task.isFeed])
  | decode hkept =>
      exact .going hkept.state (.keep hkept.queues hkept.handles (by simp))
        (by simp [Task.isErrand, Task.isDuty, Task.isFeed])
  | enqueue hsplit hpre hid => exact .returning rfl (.enqueue hsplit hpre hid rfl rfl)
  | createStream hnew => exact .returning rfl (.register hnew rfl rfl)
  | detachStream hplace =>
      exact .going rfl (.detach hplace rfl rfl) (by simp [Task.isErrand, Task.isDuty, Task.isFeed])
  | detachStreams =>
      rw [← List.append_nil (Presentation.dropped _)]
      exact .going rfl (.detachAll rfl rfl (by simp))
        (by simp [Task.isErrand, Task.isDuty, Task.isFeed])
  | setFormat hsplit hid hsamples =>
      exact .going rfl (.revise hsplit rfl hid hsamples rfl)
        (by simp [Task.isErrand, Task.isDuty, Task.isFeed])
  | endStream hsplit => exact .returning rfl (.revise hsplit rfl rfl rfl rfl)
  | setGeometry => exact .returning rfl (.keep rfl rfl (by simp))
  | clearQueues =>
      exact .going rfl (.clear rfl rfl) (by simp [Task.isErrand, Task.isDuty, Task.isFeed])
  | flushSink => exact .returning rfl (.keep rfl rfl (Presentation.sinkCall_quiet _ rfl))
  | already => exact .returning rfl (.keep rfl rfl (by simp))
  | fail => exact .returning rfl (.keep rfl rfl (by simp))
  | keep => exact .returning rfl (.keep rfl rfl (by simp))
  | reclaim _ hdecoding =>
      refine .returning rfl (.detachAll rfl rfl fun e he => ?_)
      exact (List.mem_append.mp he).elim (Presentation.sinkCall_quiet _ rfl e) (hquiet hdecoding e)
  | offer =>
      exact .going rfl (.keep rfl rfl (by simp [Effect.isQuiet]))
        (by simp [Task.isErrand, Task.isDuty, Task.isFeed])
  | _ =>
      exact .going rfl (.keep rfl rfl (by simp)) (by simp [Task.isErrand, Task.isDuty, Task.isFeed])

namespace Presentation

variable {c : Surroundings H} {x : Presentation H} {task : Task H}

theorem perform_aside (hfree : task.isDuty = false)
    (hstart : task = .start → x.launches c = false) :
    Aside x task (x.perform c task) :=
  (perform_conduct hfree hstart).aside

theorem perform_start (hlaunches : x.launches c) :
    x.perform c .start =
      .moves { presentation := x.spawn c.self, next := [.keepThread c.fresh]
               spawned := [Task.body] } := by
  obtain ⟨hstarting, hidle, hspawn⟩ := launches_iff.mp hlaunches
  simp [perform, start, hstarting, hidle, hspawn]

theorem start_ne_unwinds (c : Surroundings H) (x : Presentation H) :
    x.perform c .start ≠ .unwinds := by
  cases hlaunches : x.launches c with
  | true =>
      rw [perform_start hlaunches]
      simp
  | false => exact (perform_aside rfl fun _ => hlaunches).ne_unwinds

/-- All that a task can come to when it is done, whoever does it: that of a task that is not a duty,
the launch of a thread, a duty, a tick of a host, or an offer of a frame. -/
inductive Feat (c : Surroundings H) (x : Presentation H) : Task H → Move H → Prop where
  | aside {task move} : task.isDuty = false → (task = .start → x.launches c = false) →
      Conduct c x task (.moves move) → Feat c x task move
  | start : x.launches c →
      Feat c x .start
        { presentation := x.spawn c.self, next := [.keepThread c.fresh], spawned := [Task.body] }
  | duty {s s? move} : Advance c x s move.presentation move.effects s? → Feat c x s.duty move
  | nothing {pacing effects} : x.select c pacing = (none, effects) →
      Feat c x (.tick pacing) { presentation := x, effects, result := some (.ok ()) }
  | tick {pacing r effects} : x.select c pacing = (some r, effects) →
      Feat c x (.tick pacing)
        { presentation := x.afterRelease r
          next := [.dispatch r.selected, .finish]
          effects := effects ++ [.released r.selected] }
  /-- What follows the frame is not told by this task, so that it is not a thread's duty
  as a whole. -/
  | offer {frame result} : Feat c x (.offer (.videoFrame frame))
      { presentation := x, next := [.callback], effects := [.offered (.videoFrame frame) result] }

theorem perform_feat {move : Move H} (h : x.perform c task = .moves move) : Feat c x task move := by
  have hduty : ∀ s : Standing H, task = s.duty → Feat c x task move := by
    rintro s rfl
    obtain ⟨s?, -, -, hadv⟩ := Onward.of_moves (h ▸ perform_duty c x s)
    exact .duty hadv
  cases hfree : task.isDuty with
  | false =>
      by_cases hstart : task = .start → x.launches c = false
      · exact .aside hfree hstart (h ▸ perform_conduct hfree hstart)
      · obtain ⟨rfl, hlaunches⟩ := Classical.not_imp.mp hstart
        replace hlaunches : x.launches c := by simpa using hlaunches
        rw [perform_start hlaunches] at h
        cases h
        exact .start hlaunches
  | true =>
      cases task with
      | tick pacing =>
          simp only [perform] at h
          rcases hselect : x.select c pacing with ⟨_ | r, effects⟩
          · rw [hselect] at h
            cases h
            exact .nothing hselect
          · rw [hselect] at h
            cases h
            exact .tick hselect
      | dispatch selected => exact hduty (.dispatching selected .paced) rfl
      | offer event =>
          cases event with
          | videoFrame frame =>
              cases h
              exact .offer
          | redraw => cases hfree
      | acknowledge sample => exact hduty (.acknowledging sample .paced) rfl
      | openSink => exact hduty .openingSink rfl
      | releaseSink => exact hduty .releasingSink rfl
      | drainSink => exact hduty .drainingSink rfl
      | pollSink deadline wake => exact hduty (.pollingSink deadline wake) rfl
      | playback phase => exact hduty (.at phase) rfl
      | _ => cases hfree

end Presentation

end Playout
