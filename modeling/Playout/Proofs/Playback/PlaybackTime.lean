import Mathlib.Data.List.DropRight
import Playout.Proofs.Delivery.Conservation
import Playout.Proofs.Plain

/-!
# The playback time

A presentation keeps one number of how far it has got. It is the latest end of everything that was
released since the last start that found no thread, however the calls and duties of its actors
alternate: such a start sets it to zero even if no thread can be launched then, a release moves it
on to the end of the sample if that is later, and nothing else touches it.
-/

namespace Playout

variable {H : Platform}

namespace Ledger

variable {ρ : Type}

def reach (time : UInt64) (released : List (Selected ρ)) : UInt64 :=
  released.foldl (fun time r => max time r.sample.endTime) time

theorem reach_append (time : UInt64) (released more : List (Selected ρ)) :
    reach time (released ++ more) = reach (reach time released) more :=
  List.foldl_append

/-- The later of two times is one of them, and neither is after it. -/
theorem max_spec (a b : UInt64) : a ≤ max a b ∧ b ≤ max a b ∧ (max a b = a ∨ max a b = b) := by
  have hmax : max a b = if a ≤ b then b else a := rfl
  rw [hmax]
  split
  · rename_i hle
    exact ⟨hle, UInt64.le_refl b, .inr rfl⟩
  · rename_i hgt
    exact ⟨UInt64.le_refl a, UInt64.le_of_lt (UInt64.not_le.mp hgt), .inl rfl⟩

theorem le_reach (time : UInt64) (released : List (Selected ρ)) : time ≤ reach time released := by
  induction released generalizing time with
  | nil => exact UInt64.le_refl time
  | cons r released ih => exact UInt64.le_trans (max_spec time r.sample.endTime).1 (ih _)

theorem endTime_le_reach {time : UInt64} {released : List (Selected ρ)} :
    ∀ r ∈ released, r.sample.endTime ≤ reach time released := by
  induction released generalizing time with
  | nil => simp
  | cons first released ih =>
      intro r hr
      rcases List.mem_cons.mp hr with rfl | hr
      · exact UInt64.le_trans (max_spec time r.sample.endTime).2.1 (le_reach _ released)
      · exact ih r hr

theorem reach_attained (time : UInt64) (released : List (Selected ρ)) :
    reach time released = time ∨ ∃ r ∈ released, r.sample.endTime = reach time released := by
  induction released generalizing time with
  | nil => exact .inl rfl
  | cons first released ih =>
      have hstep : reach time (first :: released) =
          reach (max time first.sample.endTime) released := rfl
      rw [hstep]
      rcases ih (max time first.sample.endTime) with hsame | ⟨r, hr, hend⟩
      · rw [hsame]
        rcases (max_spec time first.sample.endTime).2.2 with hmax | hmax
        · exact .inl hmax
        · exact .inr ⟨first, List.mem_cons_self, hmax.symm⟩
      · exact .inr ⟨r, List.mem_cons_of_mem _ hr, hend⟩

structure Latest (released : List (Selected ρ)) (time : UInt64) : Prop where
  bound : ∀ r ∈ released, r.sample.endTime ≤ time
  attained : time = 0 ∨ ∃ r ∈ released, r.sample.endTime = time

theorem latest_reach (released : List (Selected ρ)) : Latest released (reach 0 released) :=
  ⟨endTime_le_reach, reach_attained 0 released⟩

end Ledger

namespace Deed

/-- A start finds no thread, whether or not the system then has one to give. -/
def rewinds (d : Deed H) : Bool :=
  match d.task with
  | .start => !d.before.isRunning
  | _ => false

/-- What has been done since the last start that found no thread, or from the beginning if
there was none. -/
def sinceStart (deeds : List (Deed H)) : List (Deed H) :=
  deeds.rtakeWhile (!·.rewinds)

/-- The latest end of everything released since then. -/
def highWater (deeds : List (Deed H)) : UInt64 :=
  Ledger.reach 0 (Ledger.released (effectsOf (sinceStart deeds)))

theorem sinceStart_append {earlier since : List (Deed H)} {start : Deed H} (hstart : start.rewinds)
    (hsince : ∀ d ∈ since, d.rewinds = false) : sinceStart (earlier ++ start :: since) = since := by
  induction since using List.reverseRecOn with
  | nil => exact List.rtakeWhile_concat_neg _ _ _ (by simp [hstart])
  | append_singleton since latest ih =>
      have hlatest : latest.rewinds = false := hsince latest (by simp)
      have hinit := ih fun d hd => hsince d (List.mem_append_left _ hd)
      rw [← List.cons_append, ← List.append_assoc, sinceStart,
        List.rtakeWhile_concat_pos _ _ _ (by simp [hlatest])]
      exact congrArg (· ++ [latest]) hinit

theorem highWater_snoc (deeds : List (Deed H)) (deed : Deed H) :
    highWater (deeds ++ [deed]) =
      if deed.rewinds then 0 else Ledger.reach (highWater deeds)
        (Ledger.released deed.effects) := by
  unfold highWater sinceStart
  rw [List.rtakeWhile_concat]
  cases deed.rewinds with
  | true => rfl
  | false => simp [effectsOf, Ledger.reach_append]

end Deed

/-! ## One deed -/

structure Deed.Timed (deed : Deed H) (after : UInt64) : Prop where
  time : after =
    if deed.rewinds then 0 else Ledger.reach deed.before.playbackTime (Ledger.released deed.effects)
  selects : deed.task.pacing? = none → Ledger.released deed.effects = []

namespace Presentation

theorem time_of_select {c : Surroundings H} {x : Presentation H} {pacing : Pacing}
    {r : Schedule.Release H.Receiver} {effects : List (Effect H)}
    (h : x.select c pacing = (some r, effects)) :
    r.time = max x.playbackTime r.selected.sample.endTime := by
  have hr : Schedule.selectUnpaced? x.queues x.playbackTime = some r := by
    cases pacing with
    | unpaced => exact (Prod.mk.inj h).1
    | paced => exact (Schedule.select?_eq_some (Prod.mk.inj h).1).1
  obtain ⟨i, q, sample, rest, -, -, -, rfl⟩ := Schedule.selectUnpaced?_eq_some hr
  rfl

end Presentation

theorem Advance.playbackTime_eq {c : Surroundings H} {x y : Presentation H} {s : Standing H}
    {effects : List (Effect H)} {s? : Option (Standing H)} (h : Advance c x s y effects s?) :
    y.playbackTime = Ledger.reach x.playbackTime (Ledger.released effects) := by
  cases h.passage with
  | idle hquiet _ _ _ _ htime =>
      rw [htime, (Ledger.blank_of_quiet hquiet).released]
      rfl
  | release hselect hy heffects =>
      rw [hy, heffects, Ledger.released_append,
        (Ledger.blank_of_quiet (Presentation.select_quiet hselect)).released]
      exact Presentation.time_of_select hselect
  | delivery _ _ _ _ _ hreleased _ htime =>
      rw [htime, hreleased]
      rfl

namespace Deed.Timed

variable {c : Surroundings H} {x y : Presentation H} {task : Task H} {effects : List (Effect H)}

theorem of_advance {s : Standing H} {s? : Option (Standing H)} (h : Advance c x s y effects s?) :
    Timed ⟨x, s.duty, effects⟩ y.playbackTime where
  time := by
    have hkept : (⟨x, s.duty, effects⟩ : Deed H).rewinds = false := by
      cases s <;> rfl
    rw [hkept]
    exact h.playbackTime_eq
  selects hnone := by
    refine List.eq_nil_iff_forall_not_mem.mpr fun selected hmem => ?_
    obtain ⟨pacing, -, -, hpacing, -, -⟩ := h.select_of_mem hmem
    cases hnone.symm.trans hpacing

theorem of_conduct {move : Move H} (h : Conduct c x task (.moves move)) :
    Timed ⟨x, task, move.effects⟩ move.presentation.playbackTime := by
  have hnone : Ledger.released move.effects = [] := (Aside.of_moves h.aside).2.1.released_eq_nil
  refine ⟨?_, fun _ => hnone⟩
  rw [hnone]
  by_cases hstart : task = .start → x.isRunning
  · have hkept : (⟨x, task, move.effects⟩ : Deed H).rewinds = false := by
      unfold Deed.rewinds
      split
      · rename_i heq
        simp [hstart heq]
      · rfl
    rw [hkept]
    exact h.playbackTime_eq hstart
  · obtain ⟨rfl, hidle⟩ := Classical.not_imp.mp hstart
    have hrewinds : (⟨x, .start, move.effects⟩ : Deed H).rewinds := by
      simpa [Deed.rewinds] using hidle
    rw [hrewinds, h.eq_rewind_of_start (by simpa using hidle)]
    rfl

theorem of_start (hlaunches : x.launches c) (starter : ActorId) :
    Timed ⟨x, .start, []⟩ (x.spawn starter).playbackTime where
  time := by
    have hidle := (Presentation.launches_iff.mp hlaunches).2.1
    have hrewinds : (⟨x, .start, []⟩ : Deed H).rewinds := by simpa [Deed.rewinds] using hidle
    rw [hrewinds]
    rfl
  selects _ := rfl

theorem of_tick {pacing : Pacing} {r : Schedule.Release H.Receiver}
    (hselect : x.select c pacing = (some r, effects)) :
    Timed ⟨x, .tick pacing, effects ++ [.released r.selected]⟩ (x.afterRelease r).playbackTime where
  time := by
    rw [Ledger.released_append,
      (Ledger.blank_of_quiet (Presentation.select_quiet hselect)).released]
    exact Presentation.time_of_select hselect
  selects hnone := by cases hnone

theorem of_moves {move : Move H} (h : x.perform c task = .moves move) :
    Timed ⟨x, task, move.effects⟩ move.presentation.playbackTime := by
  cases Presentation.perform_feat h with
  | aside _ _ hconduct => exact of_conduct hconduct
  | start hlaunches => exact of_start hlaunches _
  | duty hadv => exact of_advance hadv
  | nothing hselect =>
      have hnone := (Ledger.blank_of_quiet (Presentation.select_quiet hselect)).released
      exact ⟨(congrArg (Ledger.reach x.playbackTime) hnone).symm, fun _ => hnone⟩
  | tick hselect => exact of_tick hselect
  | offer => exact ⟨rfl, fun _ => rfl⟩

/-- Nothing is started and nothing is released by what breaks off. -/
theorem of_unwinds (h : x.perform c task = .unwinds) :
    Timed ⟨x, task, []⟩ (x.enter .stopped).playbackTime where
  time := by
    have hkept : (⟨x, task, []⟩ : Deed H).rewinds = false := by
      unfold Deed.rewinds
      split
      · rename_i heq
        subst heq
        exact absurd h (Presentation.start_ne_unwinds c x)
      · rfl
    rw [hkept]
    rfl
  selects _ := rfl

end Deed.Timed

/-! ## All that was done -/

/-- A start that finds no thread sets the playback time to zero. It never decreases otherwise, and
only what selects a sample moves it. -/
structure Deed.KeepsTime (deed : Deed H) (after : UInt64) : Prop where
  reset : deed.rewinds → after = 0
  grows : deed.rewinds = false → deed.before.playbackTime ≤ after
  stays : deed.rewinds = false → deed.task.pacing? = none → after = deed.before.playbackTime

theorem Deed.Timed.keepsTime {deed : Deed H} {after : UInt64} (h : deed.Timed after) :
    deed.KeepsTime after where
  reset hrewinds := by rw [h.time, if_pos hrewinds]
  grows hkept := by
    rw [h.time, hkept]
    exact Ledger.le_reach _ _
  stays hkept hnone := by
    rw [h.time, hkept, h.selects hnone]
    rfl

/-- The playback time is the latest end of what was released since the last start that found no
thread, and it has been so after each deed. -/
structure Deed.TimeMarked (deeds : List (Deed H)) (time : UInt64) : Prop where
  mark : time = highWater deeds
  latest : Ledger.Latest (Ledger.released (effectsOf (sinceStart deeds))) time
  each : ∀ earlier deed later, deeds = earlier ++ deed :: later →
    deed.before.playbackTime = highWater earlier ∧ deed.KeepsTime (highWater (earlier ++ [deed]))

namespace Deed.TimeMarked

variable {deeds : List (Deed H)} {deed : Deed H} {time after : UInt64}

theorem nil : TimeMarked ([] : List (Deed H)) 0 where
  mark := rfl
  latest := Ledger.latest_reach _
  each earlier deed later heq := by simp at heq

theorem snoc (h : TimeMarked deeds time) (hbefore : deed.before.playbackTime = time)
    (hdeed : deed.Timed after) : TimeMarked (deeds ++ [deed]) after := by
  have hmark : after = highWater (deeds ++ [deed]) := by
    rw [highWater_snoc, ← h.mark, ← hbefore]
    exact hdeed.time
  exact ⟨hmark, hmark ▸ Ledger.latest_reach _,
    Throughout.snoc h.each ⟨hbefore.trans h.mark, hmark ▸ hdeed.keepsTime⟩⟩

end Deed.TimeMarked

namespace Scene

variable {scene next : Scene H} {deed : Deed H} {deeds earlier since : List (Deed H)}
  {start : Deed H}

theorem Step.timed (h : Step scene deed next) : deed.Timed next.presentation.playbackTime := by
  cases h with
  | aside hfree hstart hmove => exact .of_moves hmove
  | start hlaunches => exact .of_start hlaunches _
  | duty hadv => exact .of_advance hadv

theorem History.timeMarked {id : PresentationId} (h : History (.new id) deeds scene) :
    Deed.TimeMarked deeds scene.presentation.playbackTime := by
  induction h with
  | nil => exact .nil
  | snoc _ hstep ih => exact ih.snoc (congrArg (·.playbackTime) hstep.before_eq) hstep.timed

/-- The playback time is the latest end of what was released since the latest start that
found no thread. -/
theorem History.playbackTime_eq {id : PresentationId} (h : History (.new id) deeds scene)
    (hdeeds : deeds = earlier ++ start :: since) (hstart : start.rewinds)
    (hsince : ∀ d ∈ since, d.rewinds = false) :
    scene.presentation.playbackTime = Ledger.reach 0 (Ledger.released (Deed.effectsOf since)) := by
  rw [h.timeMarked.mark, hdeeds, Deed.highWater, Deed.sinceStart_append hstart hsince]

end Scene

/-- A presentation with everything that has been done to it. -/
structure Chronicle (H : Platform) where
  presentation : Presentation H
  deeds : List (Deed H)

namespace Chronicle

def record (w : Chronicle H) (c : Surroundings H) (task : Task H) : Chronicle H :=
  match w.presentation.perform c task with
  | .moves move => ⟨move.presentation, w.deeds ++ [⟨w.presentation, task, move.effects⟩]⟩
  | .waits => w
  | .unwinds => ⟨w.presentation.enter .stopped, w.deeds ++ [⟨w.presentation, task, []⟩]⟩

/-- Tasks of all kinds are done to a new presentation, in any order and by anyone. -/
def of (id : PresentationId) (tasks : List (Surroundings H × Task H)) : Chronicle H :=
  tasks.foldl (fun w (c, task) => w.record c task) ⟨.new id, []⟩

def TimeMarked (w : Chronicle H) : Prop :=
  Deed.TimeMarked w.deeds w.presentation.playbackTime

theorem TimeMarked.record {w : Chronicle H} (h : w.TimeMarked) (c : Surroundings H)
    (task : Task H) :
    (w.record c task).TimeMarked := by
  unfold Chronicle.record
  split
  · rename_i move hmove
    exact Deed.TimeMarked.snoc h rfl (.of_moves hmove)
  · exact h
  · rename_i hunwinds
    exact Deed.TimeMarked.snoc h rfl (.of_unwinds hunwinds)

theorem timeMarked (id : PresentationId) (tasks : List (Surroundings H × Task H)) :
    (of id tasks).TimeMarked := by
  induction tasks using List.reverseRecOn with
  | nil => exact Deed.TimeMarked.nil
  | append_singleton tasks task ih =>
      rw [of, List.foldl_append]
      exact ih.record task.1 task.2

end Chronicle

/-- The playback time of a presentation at the end of a run goes with everything that was
done to it. -/
def Run.TimeMarked (r : Run H) (p : Key) : Prop :=
  ∀ x, r.final.presentations[p]? = some x → Deed.TimeMarked (r.deeds p) x.playbackTime

namespace Machine

/-- In every run of the machine, and whatever else is done to a presentation by anyone in any
order, the playback time is the latest end of what was released since the last start that
found no thread. -/
theorem playbackTime_marks (config : Config) (decoders : DecoderBackends H.Codec)
    (outputs : AudioBackends H.Output) (actions : List (Action H)) (p : Key) :
    ((initial config decoders outputs).run actions).TimeMarked p ∧
      ∀ (id : PresentationId) (tasks : List (Surroundings H × Task H)),
        (Chronicle.of id tasks).TimeMarked := by
  refine ⟨fun x hx => ?_, Chronicle.timeMarked⟩
  obtain ⟨crew, id, y, -, hhistory, hy⟩ := run_history config decoders outputs actions p
  obtain rfl : x = y := by simpa [hx] using hy
  exact hhistory.timeMarked

open Playout.Action in
/-- The presentation's thread has played one sample of two, and the stream has ended. -/
def halfPlayed : List (Action .plain) :=
  prepared (.audio .unknown 0 0 0) [0, 20] ++ calling 0 (.endStream ⟨0, 0⟩) 1 ++
    calling 0 (.start 0) 2 ++ steps 1 5

open Playout.Action in
/-- The host stops the presentation, whose thread plays out the other sample. -/
def playedBoth : List (Action .plain) :=
  halfPlayed ++ calling 0 (.stop 0) 2 ++ steps 1 14 ++ steps 0 4

def startedInVain : List (Action .plain) :=
  playedBoth ++ [.call 0 (.start 0), .step 0 { Answers.plain with spawn := .error "no thread" }]

/-- While a stop waits, the playback time moves on; and a start that launches no thread
sets it back. -/
theorem startedInVain_rewinds :
    ([halfPlayed, playedBoth, startedInVain].map fun actions =>
        (plain.run actions).final.presentations[0]?.map fun x => (x.state, x.playbackTime)) =
      [some (.running, 1), some (.stopped, 21), some (.stopped, 0)] ∧
    ([halfPlayed, playedBoth, startedInVain].map fun actions =>
      (plain.run actions).final.actors.length) = [2, 2, 2] := by
  decide +kernel

end Machine

end Playout
