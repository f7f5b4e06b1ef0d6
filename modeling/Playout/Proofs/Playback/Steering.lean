import Playout.Proofs.Playback.Turn

/-!
# What calls do to a thread and to the screen

Of all tasks of calls only the parts of a start and of a stop have to do with the life of a playback
thread and with the frame on screen. `Steering` says all that they do, but for the launch of a
thread; the other tasks leave both alone, and give the display no events.
-/

namespace Playout

variable {H : Platform}

theorem Standing.duties_isSteering (s? : Option (Standing H)) :
    ∀ t ∈ Standing.duties s?, t.isSteering = false := by
  cases s? with
  | none => simp [duties]
  | some s => cases s <;> simp [duties, duty, later, Task.isSteering]

/-- A thread has no part of a start or a stop to do as one of its duties. -/
theorem Standing.not_mem_duties {t : Task H} (ht : t.isSteering) (s? : Option (Standing H)) :
    t ∉ Standing.duties s? := by
  intro hmem
  rw [duties_isSteering s? t hmem] at ht
  cases ht

theorem Standing.not_mem {t : Task H} (ht : t.isSteering) (x : Presentation H) (s : Standing H)
    (s? : Option (Standing H)) : t ∉ s.interludes x ++ Standing.duties s? := by
  intro hmem
  rcases List.mem_append.mp hmem with hmem | hmem
  · have hinterlude := isInterlude_of_mem hmem
    cases t <;> simp_all [Task.isInterlude, Task.isSteering]
  · exact not_mem_duties ht s? hmem

/-- What a task that is not a duty does to the lifecycle and the screen, what it leaves to be done,
and its effects. -/
inductive Steering (c : Surroundings H) (x : Presentation H) :
    Task H → Presentation H → List (Task H) → List (Effect H) → Prop where
  | already : x.isRunning → Steering c x .start x [] []
  | fail : x.isStarting = false → x.isRunning = false → Steering c x .start x.rewind [] []
  | keep {thread} : Steering c x (.keepThread thread) (x.keepThread thread) [] []
  | request : Steering c x .requestExit x.requestExit [] []
  /-- The thread does not wait for itself. -/
  | own : x.lifecycle.thread = some c.self → Steering c x .inspectThread x [] []
  | take : x.lifecycle.thread ≠ some c.self →
      Steering c x .inspectThread { x with lifecycle := x.lifecycle.takeThread }
        [.awaitStopped x.lifecycle.thread] []
  | stopped {thread} : x.isRunning = false →
      Steering c x (.awaitStopped thread) x (thread.toList.map .join) []
  | joined {thread} : c.hasEnded thread → Steering c x (.join thread) x [] []
  | bare : x.lastRendered.isEmpty → Steering c x .repaint x [] []
  | cover : x.lastRendered.isEmpty = false →
      Steering c x .repaint { x with lastRendered := .zero } [.offer (.redraw x.lastRendered)] []
  | offer {event result} : Steering c x (.offer event) x [.callback] [.offered event result]
  | apart {task y next effects} : task.isSteering = false → task.isOffer = false →
      y.lifecycle = x.lifecycle → y.lastRendered = x.lastRendered →
      (y.sink = x.sink ∨ y.sink = none) → (∀ t ∈ next, t.isSteering = false ∧ t.isOffer = false) →
      (∀ e ∈ effects, e.event? = none) → Steering c x task y next effects

namespace Steering

variable {c : Surroundings H} {x y : Presentation H} {task : Task H} {next : List (Task H)}
  {effects : List (Effect H)}

def Of (c : Surroundings H) (x : Presentation H) (task : Task H) (o : Outcome H) : Prop :=
  ∀ move, o = .moves move → Steering c x task move.presentation move.next move.effects

theorem Of.moves {move : Move H} (h : Steering c x task move.presentation move.next move.effects) :
    Of c x task (.moves move) := by
  intro other heq
  cases heq
  exact h

theorem Of.waits : Of c x task .waits := by
  intro other heq
  cases heq

theorem Of.returning {result : Except MediaError Unit} (h : Steering c x task y [] effects) :
    Of c x task (y.returning result effects) :=
  .moves h

theorem Of.going (h : Steering c x task y next effects) : Of c x task (y.going next effects) :=
  .moves h

theorem dropped_event (samples : List (Sample H.Receiver)) :
    ∀ e ∈ Presentation.dropped samples, e.event? = none := by
  intro e he
  rw [Presentation.mem_dropped he]
  rfl

theorem inspectThread_not_mem (h : Steering c x task y next effects) :
    Task.inspectThread ∉ next := by
  cases h with
  | stopped => simp
  | apart _ _ _ _ _ hnext => exact fun hmem => by simpa [Task.isSteering] using (hnext _ hmem).1
  | _ => simp

theorem of_requestExit (h : Steering c x .requestExit y next effects) :
    y = x.requestExit ∧ next = [] := by
  cases h with
  | request => exact ⟨rfl, rfl⟩
  | apart hsteering => simp [Task.isSteering] at hsteering

end Steering

open Steering in
theorem Conduct.steering {c : Surroundings H} {x : Presentation H} {task : Task H} {o : Outcome H}
    (h : Conduct c x task o) : Steering.Of c x task o := by
  have hnone : ∀ {effects : List (Effect H)}, (∀ e ∈ effects, e.isDecoding) →
      ∀ e ∈ effects, e.event? = none :=
    fun hdecoding e he => Effect.event?_of_isUpkeep (Effect.isUpkeep_of_isDecoding (hdecoding e he))
  have hcall : ∀ {call : SinkCall}, call.isPlay = false →
      ∀ e ∈ Presentation.sinkCall x.sink call, e.event? = none :=
    fun hplay e he => Effect.event?_of_isUpkeep (Presentation.sinkCall_upkeep _ hplay e he)
  cases h with
  | waits => exact .waits
  | plain hsteering hoffer hkept hdecoding =>
      exact .returning
        (.apart hsteering hoffer hkept.lifecycle hkept.lastRendered (.inl hkept.sink) (by simp)
        (hnone hdecoding))
  | skip hsteering hoffer =>
      exact .going (.apart hsteering hoffer rfl rfl (.inl rfl) (by simp) (by simp))
  | releaseDecoder hkept =>
      exact .going (.apart rfl rfl hkept.lifecycle hkept.lastRendered (.inl hkept.sink)
        (by simp [Task.isSteering, Task.isOffer]) (hnone (Presentation.destroyed_decoding _)))
  | decode hkept =>
      exact .going (.apart rfl rfl hkept.lifecycle hkept.lastRendered (.inl hkept.sink)
        (by simp [Task.isSteering, Task.isOffer]) (by simp))
  | enqueue =>
      exact .returning (.apart rfl rfl rfl rfl (.inl rfl) (by simp) (by simp [Effect.event?]))
  | createStream => exact .returning (.apart rfl rfl rfl rfl (.inl rfl) (by simp) (by simp))
  | detachStream =>
      exact .going (.apart rfl rfl rfl rfl (.inl rfl) (by simp [Task.isSteering, Task.isOffer])
        (dropped_event _))
  | detachStreams =>
      exact .going (.apart rfl rfl rfl rfl (.inl rfl) (by simp [Task.isSteering, Task.isOffer])
        (dropped_event _))
  | setFormat =>
      exact .going (.apart rfl rfl rfl rfl (.inl rfl) (by simp [Task.isSteering, Task.isOffer])
        (by simp))
  | endStream => exact .returning (.apart rfl rfl rfl rfl (.inl rfl) (by simp) (by simp))
  | clearQueues =>
      exact .going (.apart rfl rfl rfl rfl (.inl rfl) (by simp [Task.isSteering, Task.isOffer])
        (dropped_event _))
  | setGeometry => exact .returning (.apart rfl rfl rfl rfl (.inl rfl) (by simp) (by simp))
  | flushSink => exact .returning (.apart rfl rfl rfl rfl (.inl rfl) (by simp) (hcall rfl))
  | reclaim _ hdecoding =>
      refine .returning (.apart rfl rfl rfl rfl (.inr rfl) (by simp) fun e he => ?_)
      simp only [List.mem_append] at he
      rcases he with he | he | he
      · exact dropped_event _ e he
      · exact hcall rfl e he
      · exact hnone hdecoding e he
  | already hrunning => exact .returning (.already hrunning)
  | fail hstarting hidle => exact .returning (.fail hstarting hidle)
  | keep => exact .returning .keep
  | request => exact .going .request
  | own hself => exact .going (.own hself)
  | take hother => exact .going (.take hother)
  | stopped hidle => exact .going (.stopped hidle)
  | joined hended => exact .going (.joined hended)
  | bare hempty => exact .going (.bare hempty)
  | cover hframe => exact .going (.cover hframe)
  | offer => exact .going .offer

theorem Presentation.perform_steering {c : Surroundings H} {x : Presentation H} {task : Task H}
    (hfree : task.isDuty = false) (hstart : task = .start → x.launches c = false) :
    Steering.Of c x task (x.perform c task) :=
  (perform_conduct hfree hstart).steering

end Playout
