import Playout.Proofs.Delivery.Conservation
import Playout.Proofs.Playback.Steering
import Playout.Proofs.Schedule.Drain

/-!
# What is left to be delivered

A thread releases samples in the order of a drain, whether or not it holds some of them back. As
long as nobody else changes the queues, what it has released and what a drain would release now make
up what a drain would have released before. Whether the thread plays out everything depends on where
it stands, and on whether some stream has ended.
-/

namespace Playout

variable {H : Platform}

/-! ## Remainders -/

namespace Presentation

variable {c : Surroundings H} {x y : Presentation H} {pacing : Pacing} {effects : List (Effect H)}

/-- What a drain would release now. -/
def remainder (x : Presentation H) : List (Selected H.Receiver) :=
  (Schedule.drain x.queues x.playbackTime).released.map (·.1)

theorem remainder_eq_nil_iff : x.remainder = [] ↔ ∀ q ∈ x.queues, q.samples = [] := by
  rw [remainder, List.map_eq_nil_iff]
  exact Schedule.drain_released_eq_nil_iff

theorem remainder_of_selectUnpaced {r : Schedule.Release H.Receiver}
    (h : Schedule.selectUnpaced? x.queues x.playbackTime = some r) :
    x.remainder = r.selected :: (x.afterRelease r).remainder := by
  rw [remainder, Schedule.drain_of_some h]
  rfl

theorem remainder_of_select {r : Schedule.Release H.Receiver}
    (h : x.select c pacing = (some r, effects)) :
    x.remainder = r.selected :: (x.afterRelease r).remainder := by
  refine remainder_of_selectUnpaced ?_
  cases pacing with
  | paced => exact (Schedule.select?_eq_some (Prod.mk.inj h).1).1
  | unpaced => exact (Prod.mk.inj h).1

/-- The remainder is made up of what waits for the streams, each in its own order. -/
theorem Registered.ofStream_remainder (h : x.Registered) (s : StreamId) :
    Sample.ofStream s (x.remainder.map (·.sample)) = x.waiting s := by
  -- on the number of queued samples: a drain takes one of them, and goes on with the others
  induction hn : Schedule.queued x.queues generalizing x with
  | zero =>
      have hempty := Schedule.queued_eq_zero_iff.mp hn
      rw [remainder_eq_nil_iff.mpr hempty]
      show [] = x.waiting s
      unfold waiting
      cases hq : x.queue? s with
      | none => rfl
      | some q => simp [hempty q (queue?_eq_some hq).1]
  | succ n ih =>
      cases hs : Schedule.selectUnpaced? x.queues x.playbackTime with
      | none =>
          have hzero := Schedule.queued_eq_zero_iff.mpr (Schedule.selectUnpaced?_eq_none_iff.mp hs)
          omega
      | some r =>
          have hcount := Schedule.queued_of_selectUnpaced? hs
          obtain ⟨i, q, sample, rest, hq, hsamples, -, rfl⟩ := Schedule.selectUnpaced?_eq_some hs
          obtain ⟨pre, post, hx, -, hset⟩ := Schedule.exists_split_of_getElem? hq
          have hrelease := Balanced.release h hx hsamples (hset _)
            (rfl : (x.afterRelease
              (Schedule.takeHead x.queues x.playbackTime i q sample rest)).handles = _)
          have hbalance : x.waiting s = Sample.ofStream s [sample] ++
              (x.afterRelease (Schedule.takeHead x.queues x.playbackTime i q sample rest)).waiting
                s := by
            simpa [Ledger.entered, Ledger.departed, Effect.entered?, Effect.departures,
              StreamQueue.select]
              using hrelease.balance s
          have hrest := ih hrelease.registered (by simp only [afterRelease]; omega)
          rw [remainder_of_selectUnpaced hs, List.map_cons, ← List.singleton_append,
            Sample.ofStream_append, hrest, hbalance]
          rfl

end Presentation

/-! ## Phases -/

namespace Phase

/-- The thread plays out what is left, at once or when it has been asked to end. -/
def playsOut (eos : Bool) : Phase → Bool
  | .polling => eos
  | .choosing => eos
  | .resting => eos
  | .leaving => eos
  | .turning => true
  | .draining => true
  | .closing => false
  | .ending => false

def isOver : Phase → Bool
  | .closing => true
  | .ending => true
  | _ => false

def isLoop : Phase → Bool
  | .polling => true
  | .choosing => true
  | .resting => true
  | _ => false

theorem playsOut_of_isLoop {phase : Phase} (h : phase.isLoop) (eos : Bool) :
    phase.playsOut eos = eos := by
  cases phase <;> first | rfl | cases h

end Phase

@[simp] theorem Pacing.isOver_loop (pacing : Pacing) : pacing.loop.isOver = false := by
  cases pacing <;> rfl

def Standing.phase : Standing H → Phase
  | openingSink => .polling
  | .at phase => phase
  | dispatching _ pacing => pacing.loop
  | showing _ _ pacing => pacing.loop
  | acknowledging _ pacing => pacing.loop
  | drainingSink => .closing
  | pollingSink .. => .closing
  | releasingSink => .ending

def Job.phase? (p : Key) : Job H → Option Phase
  | .at q (.playback phase) => if q = p then some phase else none
  | _ => none

def Machine.phases (m : Machine H) (p : Key) : List Phase :=
  m.actors.flatMap fun actor => actor.jobs.filterMap (·.phase? p)

theorem Job.phase?_eq_none {p : Key} {job : Job H} (h : job.isDutyOf p = false) :
    job.phase? p = none := by
  cases job with
  | «at» q task => cases task <;> simp_all [phase?, isDutyOf, Task.isDuty]
  | _ => rfl

theorem Crewed.phases_eq {m : Machine H} {p : Key} {crew : Crew H} (h : Crewed m p crew) :
    m.phases p = crew.standing.toList.map (·.phase) := by
  rw [Machine.phases, h.flatMap_jobs fun job => Job.phase?_eq_none]
  rcases crew.standing with _ | s
  · rfl
  · cases s <;>
      simp [Standing.duties, Standing.duty, Standing.later, List.filterMap_cons, Job.phase?,
        Standing.phase]

/-! ## One duty -/

namespace Advance

variable {c : Surroundings H} {x y : Presentation H} {s : Standing H} {effects : List (Effect H)}
  {s? : Option (Standing H)}

theorem eos_eq (h : Advance c x s y effects s?) : y.eos = x.eos := by
  cases h with
  | frame => rw [Presentation.beginFrame_snd]
  | _ => rfl

theorem remainder_eq (h : Advance c x s y effects s?) :
    x.remainder = Ledger.released effects ++ y.remainder := by
  have hquiet : ∀ {y : Presentation H} {effects : List (Effect H)}, (∀ e ∈ effects, e.isQuiet) →
      y.remainder = x.remainder → x.remainder = Ledger.released effects ++ y.remainder := by
    intro y effects heffects hsame
    rw [(Ledger.blank_of_quiet heffects).released, hsame]
    rfl
  have hrelease : ∀ {r pacing before}, x.select c pacing = (some r, before) →
      x.remainder = Ledger.released (before ++ [.released r.selected]) ++
        (x.afterRelease r).remainder := by
    intro r pacing before hselect
    have hblank := Ledger.blank_of_quiet (Presentation.select_quiet hselect)
    rw [Ledger.released_append, hblank.released]
    exact Presentation.remainder_of_select hselect
  cases h with
  | openSink _ heffects => exact hquiet heffects rfl
  | nothingReady hselect => exact hquiet (Presentation.select_quiet hselect) rfl
  | nothingLeft hselect => exact hquiet (Presentation.select_quiet hselect) rfl
  | choose hselect => exact hrelease hselect
  | drain hselect => exact hrelease hselect
  | frame =>
      rw [Presentation.beginFrame_snd]
      rfl
  | releaseSink => exact hquiet (Presentation.sinkCall_quiet _ rfl) rfl
  | pollAgain => exact hquiet (by simp [Effect.isQuiet]) rfl
  | pollLast => exact hquiet (by simp [Effect.isQuiet]) rfl
  | _ => rfl

theorem spent (h : Advance c x s y effects s?) (hs : s.phase.isOver) :
    Ledger.released effects = [] ∧ s?.all (·.phase.isOver) := by
  cases h with
  | releaseSink =>
      exact ⟨(Ledger.blank_of_quiet (Presentation.sinkCall_quiet _ rfl)).released, rfl⟩
  | pollLast =>
      refine ⟨(Ledger.blank_of_quiet ?_).released, rfl⟩
      simp [Effect.isQuiet]
  | pollAgain => exact ⟨rfl, rfl⟩
  | close => exact ⟨rfl, rfl⟩
  | finish => exact ⟨rfl, rfl⟩
  | setDeadline => exact ⟨rfl, rfl⟩
  | overflow => exact ⟨rfl, rfl⟩
  | frame => simp [Standing.phase] at hs
  | play => simp [Standing.phase] at hs
  | pass => simp [Standing.phase] at hs
  | offer => simp [Standing.phase] at hs
  | acknowledge => simp [Standing.phase] at hs
  | _ => cases hs

/-- A thread that plays out what is left goes on doing so until nothing is left. -/
theorem playsOut (h : Advance c x s y effects s?) (hs : s.phase.playsOut x.eos) :
    s?.any (·.phase.playsOut y.eos) ∨ s?.all (·.phase.isOver) ∧ y.remainder = [] := by
  rw [h.eos_eq]
  cases h with
  | poll =>
      refine .inl ?_
      split <;> exact hs
  | leave =>
      have heos : x.eos := hs
      exact .inl (by simp [heos, Standing.phase, Phase.playsOut])
  | nothingLeft hselect =>
      refine .inr ⟨rfl, Presentation.remainder_eq_nil_iff.mpr ?_⟩
      exact Schedule.selectUnpaced?_eq_none_iff.mp (Prod.mk.inj hselect).1
  | close => cases hs
  | finish => cases hs
  | setDeadline => cases hs
  | overflow => cases hs
  | pollAgain => cases hs
  | pollLast => cases hs
  | releaseSink => cases hs
  | _ => exact .inl hs

/-- A thread that leaves behind what is not ready does not come to play it out. -/
theorem paced (h : Advance c x s y effects s?) (hs : s.phase.playsOut x.eos = false) :
    s?.any (·.phase.playsOut y.eos) = false := by
  rw [h.eos_eq]
  cases h with
  | poll => split <;> exact hs
  | leave =>
      have heos : x.eos = false := hs
      simp [heos, Standing.phase, Phase.playsOut]
  | turn => cases hs
  | nothingLeft => rfl
  | finish => rfl
  | overflow => rfl
  | _ => exact hs

end Advance

/-! ## Tasks that leave the samples alone -/

namespace Task

/-- The task is a part of what feeds, ends, configures, empties or starts a presentation. -/
def interferes : Task H → Bool
  | .setFormat .. => true
  | .enqueue _ => true
  | .endStream _ => true
  | .clearQueues => true
  | .start => true
  | .keepThread _ => true
  | _ => false

def removes : Task H → Bool
  | .detachStream _ => true
  | .detachStreams => true
  | _ => false

end Task

namespace Presentation

/-- The samples are as they were, and so is what decides on their release. There may be a
new stream. -/
structure Untouched (x y : Presentation H) : Prop where
  queues : y.queues = x.queues ∨ ∃ s, y.queues = x.queues ++ [.new s]
  time : y.playbackTime = x.playbackTime
  eos : y.eos = x.eos

namespace Untouched

variable {c : Surroundings H} {x y : Presentation H} {task : Task H}

theorem remainder_eq (h : x.Untouched y) : y.remainder = x.remainder := by
  rw [remainder, remainder, h.time]
  rcases h.queues with hsame | ⟨s, hnew⟩
  · rw [hsame]
  · rw [hnew, Schedule.drain_append_empty rfl]

def Of (x : Presentation H) (o : Outcome H) : Prop :=
  ∀ move, o = .moves move → x.Untouched move.presentation

theorem Of.returning {result : Except MediaError Unit} {effects : List (Effect H)}
    (h : x.Untouched y) :
    Of x (y.returning result effects) := by
  intro move hmove
  cases hmove
  exact h

theorem Of.going {next : List (Task H)} {effects : List (Effect H)} (h : x.Untouched y) :
    Of x (y.going next effects) := by
  intro move hmove
  cases hmove
  exact h

theorem Of.waits : Of x .waits := by
  intro move hmove
  cases hmove

theorem of_kept (h : x.Kept y) : x.Untouched y :=
  ⟨.inl h.queues, h.playbackTime, h.eos⟩

end Untouched

end Presentation

open Presentation Untouched in
/-- Nothing but the tasks that interfere, or that remove streams, touches the samples of a
presentation that exists. -/
theorem Conduct.untouched {c : Surroundings H} {x : Presentation H} {task : Task H} {o : Outcome H}
    (h : Conduct c x task o) (hinterferes : task.interferes = false)
    (hremoves : task.removes = false) (halive : c.alive) : Untouched.Of x o := by
  cases h with
  | waits => exact .waits
  | plain _ _ hkept => exact .returning (of_kept hkept)
  | releaseDecoder hkept => exact .going (of_kept hkept)
  | decode hkept => exact .going (of_kept hkept)
  | createStream => exact .returning ⟨.inr ⟨_, rfl⟩, rfl, rfl⟩
  | setGeometry => exact .returning ⟨.inl rfl, rfl, rfl⟩
  | flushSink => exact .returning ⟨.inl rfl, rfl, rfl⟩
  | reclaim hgone =>
      rw [halive] at hgone
      cases hgone
  | enqueue => simp [Task.interferes] at hinterferes
  | setFormat => simp [Task.interferes] at hinterferes
  | endStream => simp [Task.interferes] at hinterferes
  | clearQueues => simp [Task.interferes] at hinterferes
  | already => simp [Task.interferes] at hinterferes
  | fail => simp [Task.interferes] at hinterferes
  | keep => simp [Task.interferes] at hinterferes
  | detachStream => simp [Task.removes] at hremoves
  | detachStreams => simp [Task.removes] at hremoves
  | _ => exact .going ⟨.inl rfl, rfl, rfl⟩

/-! ## From one moment to another -/

/-- How the deliveries of a presentation go on from one moment to another if only its thread touches
the samples. -/
structure Delivers (x : Presentation H) (s? : Option (Standing H)) (effects : List (Effect H))
    (y : Presentation H) (t? : Option (Standing H)) : Prop where
  registered : x.Registered → y.Registered
  eos : y.eos = x.eos
  remainder : x.remainder = Ledger.released effects ++ y.remainder
  tickets : Acknowledges s? effects t?
  spent : s?.all (·.phase.isOver) → Ledger.released effects = [] ∧ t?.all (·.phase.isOver)
  playsOut : s?.any (·.phase.playsOut x.eos) →
    t?.any (·.phase.playsOut y.eos) ∨ t?.all (·.phase.isOver) ∧ y.remainder = []
  paced : s?.any (·.phase.playsOut x.eos) = false → t?.any (·.phase.playsOut y.eos) = false

namespace Delivers

variable {c : Surroundings H} {x y z : Presentation H} {s : Standing H}
  {s? t? u? : Option (Standing H)}
  {task : Task H} {effects more : List (Effect H)}

theorem refl (x : Presentation H) (s? : Option (Standing H)) : Delivers x s? [] x s? where
  registered h := h
  eos := rfl
  remainder := rfl
  tickets := by simp [Acknowledges, Ledger.released, Ledger.acknowledged]
  spent h := ⟨rfl, h⟩
  playsOut := .inl
  paced h := h

theorem trans (h : Delivers x s? effects y t?) (hmore : Delivers y t? more z u?) :
    Delivers x s? (effects ++ more) z u? where
  registered hx := hmore.registered (h.registered hx)
  eos := hmore.eos.trans h.eos
  remainder := by
    rw [h.remainder, hmore.remainder, Ledger.released_append, List.append_assoc]
  tickets := by
    have hfirst := h.tickets
    have hsecond := hmore.tickets
    unfold Acknowledges at *
    rw [Ledger.released_append, List.map_append, ← List.append_assoc, hfirst, List.append_assoc,
      hsecond, Ledger.acknowledged_append, List.append_assoc]
  spent hover := by
    obtain ⟨hnone, hover'⟩ := h.spent hover
    obtain ⟨hnone', hend⟩ := hmore.spent hover'
    exact ⟨by rw [Ledger.released_append, hnone, hnone']; rfl, hend⟩
  playsOut hout := by
    rcases h.playsOut hout with hout' | ⟨hover, hempty⟩
    · exact hmore.playsOut hout'
    · obtain ⟨hnone, hover'⟩ := hmore.spent hover
      have hrest := hmore.remainder
      rw [hempty, hnone, List.nil_append] at hrest
      exact .inr ⟨hover', hrest.symm⟩
  paced hpaced := hmore.paced (h.paced hpaced)

theorem of_advance (hadv : Advance c x s y effects s?) : Delivers x (some s) effects y s? where
  registered hx := (Presentation.Balanced.of_advance hx hadv).registered
  eos := hadv.eos_eq
  remainder := hadv.remainder_eq
  tickets := .of_advance hadv
  spent := hadv.spent
  playsOut := hadv.playsOut
  paced := hadv.paced

theorem of_aside {move : Move H} (hfree : task.isDuty = false)
    (hinterferes : task.interferes = false)
    (hremoves : task.removes = false) (halive : c.alive) (hmove : x.perform c task = .moves move) :
    Delivers x s? move.effects move.presentation s? := by
  have hstart : task = .start → x.launches c = false := by
    rintro rfl
    cases hinterferes
  have hconduct := Presentation.perform_conduct (c := c) hfree hstart
  have hrequeue := (Aside.of_moves (hmove ▸ hconduct.aside)).2.1
  have huntouched := hconduct.untouched hinterferes hremoves halive move hmove
  refine ⟨fun hx => ?_, huntouched.eos, ?_, .of_requeue hrequeue, fun hover => ?_, fun hout => ?_,
    ?_⟩
  · exact (Presentation.Balanced.of_requeue hx hrequeue).registered
  · rw [hrequeue.released_eq_nil, huntouched.remainder_eq]
    rfl
  · exact ⟨hrequeue.released_eq_nil, hover⟩
  · rw [huntouched.eos]
    exact .inl hout
  · rw [huntouched.eos]
    exact id

end Delivers

end Playout
