import Playout.Proofs.Playback.History
import Playout.Proofs.Presentation.Ledger

/-!
# Conservation of samples

A sample that entered a queue waits there, or it is in the hand of the playback thread, or it
has been acknowledged, or it was discarded; it is in one of these places only, and the last two
are final. The books are kept by stream and in order, so that equal samples remain distinct by
their positions.
-/

namespace Playout

variable {H : Platform}

def Standing.inHand : Option (Standing H) → List (Sample H.Receiver)
  | some (.dispatching selected _) => [selected.sample]
  | some (.showing _ sample _) => [sample]
  | some (.acknowledging sample _) => [sample]
  | _ => []

namespace Presentation

variable {c : Surroundings H} {x y : Presentation H} {pacing : Pacing} {effects : List (Effect H)}

/-- A selection at most asks for the length of the sink's queue. -/
theorem select_quiet {r? : Option (Schedule.Release H.Receiver)}
    (h : x.select c pacing = (r?, effects)) :
    ∀ e ∈ effects, e.isQuiet := by
  cases pacing with
  | unpaced =>
      simp only [select, Prod.mk.injEq] at h
      simp [← h.2]
  | paced =>
      simp only [select, Prod.mk.injEq] at h
      rw [← h.2]
      split
      · intro e he
        obtain ⟨depth, -, rfl⟩ := List.mem_map.mp he
        rfl
      · simp

theorem selectUnpaced?_of_select {r : Schedule.Release H.Receiver}
    (h : x.select c pacing = (some r, effects)) :
    Schedule.selectUnpaced? x.queues x.playbackTime = some r := by
  cases pacing with
  | unpaced => exact (Prod.mk.inj h).1
  | paced => exact (Schedule.select?_eq_some (Prod.mk.inj h).1).1

/-- Either pacing releases the head of some queue. -/
theorem select_eq_some {r : Schedule.Release H.Receiver}
    (h : x.select c pacing = (some r, effects)) :
    ∃ pre q post sample rest, x.queues = pre ++ q :: post ∧ q.samples = sample :: rest ∧
      r.selected = q.select sample ∧ r.queues = pre ++ { q with samples := rest } :: post := by
  have hr := selectUnpaced?_of_select h
  obtain ⟨i, q, sample, rest, hq, hsamples, -, rfl⟩ := Schedule.selectUnpaced?_eq_some hr
  obtain ⟨pre, post, hx, -, hset⟩ := Schedule.exists_split_of_getElem? hq
  exact ⟨pre, q, post, sample, rest, hx, hsamples, rfl, hset _⟩

end Presentation

/-- There are three kinds of advances: nothing happens to any sample, or one is released, or the one
in hand is delivered. -/
inductive Passage (c : Surroundings H) (x : Presentation H) (s : Standing H) (y : Presentation H)
    (effects : List (Effect H)) (s? : Option (Standing H)) : Prop where
  | idle : (∀ e ∈ effects, e.isQuiet) → y.queues = x.queues → y.handles = x.handles →
      Standing.inHand (some s) = [] → Standing.inHand s? = [] → y.playbackTime = x.playbackTime →
      Passage c x s y effects s?
  | release {r pacing before} : x.select c pacing = (some r, before) → y = x.afterRelease r →
      effects = before ++ [.released r.selected] → Standing.inHand (some s) = [] →
      s? = some (.dispatching r.selected pacing) → s.duty.pacing? = some pacing →
        Passage c x s y effects s?
  | delivery : Standing.inHand (some s) ≠ [] → y.queues = x.queues → y.handles = x.handles →
      Ledger.entered effects = [] → Ledger.departed effects = [] → Ledger.released effects = [] →
      (Standing.inHand (some s)).map (·.ticket) =
        Ledger.acknowledged effects ++ (Standing.inHand s?).map (·.ticket) →
      y.playbackTime = x.playbackTime → Passage c x s y effects s?

theorem Advance.passage {c : Surroundings H} {x y : Presentation H} {s : Standing H}
    {effects : List (Effect H)} {s? : Option (Standing H)} (h : Advance c x s y effects s?) :
    Passage c x s y effects s? := by
  have hhand : ∀ sample : Sample H.Receiver, [sample] ≠ [] := fun _ => List.cons_ne_nil _ _
  cases h with
  | openSink hgoing hquiet => exact .idle hquiet rfl rfl rfl rfl rfl
  | nothingReady hselect => exact .idle (Presentation.select_quiet hselect) rfl rfl rfl rfl rfl
  | nothingLeft hselect => exact .idle (Presentation.select_quiet hselect) rfl rfl rfl rfl rfl
  | choose hselect => exact .release hselect rfl rfl rfl rfl rfl
  | drain hselect => exact .release hselect rfl rfl rfl rfl rfl
  | frame => exact Presentation.beginFrame_snd x ▸ .delivery (hhand _) rfl rfl rfl rfl rfl rfl rfl
  | play => exact .delivery (hhand _) rfl rfl rfl rfl rfl rfl rfl
  | pass => exact .delivery (hhand _) rfl rfl rfl rfl rfl rfl rfl
  | offer => exact .delivery (hhand _) rfl rfl rfl rfl rfl rfl rfl
  | acknowledge => exact .delivery (hhand _) rfl rfl rfl rfl rfl rfl rfl
  | releaseSink => exact .idle (Presentation.sinkCall_quiet _ rfl) rfl rfl rfl rfl rfl
  | pollAgain => exact .idle (by simp [Effect.isQuiet]) rfl rfl rfl rfl rfl
  | pollLast => exact .idle (by simp [Effect.isQuiet]) rfl rfl rfl rfl rfl
  | _ => exact .idle (List.forall_mem_nil _) rfl rfl rfl rfl rfl

theorem Advance.select_of_mem {c : Surroundings H} {x y : Presentation H} {s : Standing H}
    {effects : List (Effect H)} {s? : Option (Standing H)} {selected : Selected H.Receiver}
    (h : Advance c x s y effects s?) (hmem : selected ∈ Ledger.released effects) :
    ∃ pacing r before, s.duty.pacing? = some pacing ∧ x.select c pacing = (some r, before) ∧
      r.selected = selected := by
  cases h.passage with
  | idle hquiet => simp [(Ledger.blank_of_quiet hquiet).released] at hmem
  | delivery _ _ _ _ _ hreleased => simp [hreleased] at hmem
  | @release r pacing before hselect _ heffects _ _ hpacing =>
      refine ⟨pacing, r, before, hpacing, hselect, ?_⟩
      rw [heffects, Ledger.released_append,
        (Ledger.blank_of_quiet (Presentation.select_quiet hselect)).released] at hmem
      exact (List.mem_singleton.mp hmem).symm

namespace Presentation.Balanced

variable {c : Surroundings H} {x y : Presentation H} {s : Standing H} {s? : Option (Standing H)}
  {pacing : Pacing} {effects : List (Effect H)}

theorem of_select {r : Schedule.Release H.Receiver} (h : x.Registered)
    (hr : x.select c pacing = (some r, effects)) :
    Balanced x (x.afterRelease r) (effects ++ [.released r.selected]) := by
  obtain ⟨pre, q, post, sample, rest, hx, hsamples, hselected, hqueues⟩ := select_eq_some hr
  have hblank := Ledger.blank_of_quiet (select_quiet hr)
  have hrelease : Balanced x (x.afterRelease r) [.released (q.select sample)] :=
    release h hx hsamples hqueues rfl
  refine ⟨hrelease.registered, fun s => ?_⟩
  rw [hselected, Ledger.entered_append, Ledger.departed_append, hblank.entered, hblank.departed]
  exact hrelease.balance s

theorem of_advance (h : x.Registered) (hadv : Advance c x s y effects s?) :
    Balanced x y effects := by
  cases hadv.passage with
  | idle hquiet hqueues hhandles =>
      have hblank := Ledger.blank_of_quiet hquiet
      exact keep h hqueues hhandles hblank.entered hblank.departed
  | release hselect hy heffects =>
      subst hy heffects
      exact of_select h hselect
  | delivery _ hqueues hhandles hentered hdeparted =>
      exact keep h hqueues hhandles hentered hdeparted

end Presentation.Balanced

namespace Requeue

variable {x y : Presentation H} {task : Task H} {effects : List (Effect H)}

theorem released_eq_nil (h : Requeue x task y effects) : Ledger.released effects = [] :=
  h.filterMap_eq_nil (fun _ => Effect.release?_quiet) (fun _ => rfl) (fun _ _ => rfl)

theorem acknowledged_eq_nil (h : Requeue x task y effects) : Ledger.acknowledged effects = [] :=
  h.filterMap_eq_nil (fun _ => Effect.ticket?_quiet) (fun _ => rfl) (fun _ _ => rfl)

end Requeue

/-! ## Acknowledgments -/

def Acknowledges (s? : Option (Standing H)) (effects : List (Effect H)) (t? : Option (Standing H)) :
    Prop :=
  (Standing.inHand s?).map (·.ticket) ++ (Ledger.released effects).map (·.sample.ticket) =
    Ledger.acknowledged effects ++ (Standing.inHand t?).map (·.ticket)

namespace Acknowledges

variable {c : Surroundings H} {x y : Presentation H} {s : Standing H} {s? : Option (Standing H)}
  {task : Task H} {effects : List (Effect H)}

theorem of_advance (hadv : Advance c x s y effects s?) : Acknowledges (some s) effects s? := by
  unfold Acknowledges
  cases hadv.passage with
  | idle hquiet _ _ hbefore hafter =>
      have hblank := Ledger.blank_of_quiet hquiet
      rw [hblank.released, hblank.acknowledged, hbefore, hafter]
      rfl
  | release hselect _ heffects hbefore hafter =>
      have hblank := Ledger.blank_of_quiet (Presentation.select_quiet hselect)
      rw [heffects, Ledger.released_append, Ledger.acknowledged_append, hblank.released,
        hblank.acknowledged, hbefore, hafter]
      rfl
  | delivery _ _ _ _ _ hreleased htickets =>
      rw [hreleased, List.map_nil, List.append_nil]
      exact htickets

theorem of_requeue (hr : Requeue x task y effects) : Acknowledges s? effects s? := by
  rw [Acknowledges, hr.released_eq_nil, hr.acknowledged_eq_nil]
  simp

end Acknowledges

/-! ## Histories -/

namespace Scene

variable {scene next : Scene H} {deed : Deed H} {deeds : List (Deed H)}

theorem Step.balanced (h : Step scene deed next) (hreg : scene.presentation.Registered) :
    Presentation.Balanced scene.presentation next.presentation deed.effects := by
  cases h with
  | aside hfree hstart hmove =>
      have haside := Aside.of_moves (hmove ▸ Presentation.perform_aside hfree hstart)
      exact .of_requeue hreg haside.2.1
  | start hidle => exact .keep hreg rfl rfl rfl rfl
  | duty hadv => exact .of_advance hreg hadv

theorem Step.acknowledges (h : Step scene deed next) :
    Acknowledges scene.standing deed.effects next.standing := by
  cases h with
  | aside hfree hstart hmove =>
      have haside := Aside.of_moves (hmove ▸ Presentation.perform_aside hfree hstart)
      exact .of_requeue haside.2.1
  | start hidle => rfl
  | duty hadv => exact .of_advance hadv

structure Settled (effects : List (Effect H)) (scene : Scene H) : Prop where
  registered : scene.presentation.Registered
  queues : ∀ s, Sample.ofStream s (Ledger.entered effects) =
    Sample.ofStream s ((Ledger.departed effects).map (·.1)) ++ scene.presentation.waiting s
  hand : (Ledger.released effects).map (·.sample.ticket) =
    Ledger.acknowledged effects ++ (Standing.inHand scene.standing).map (·.ticket)

theorem History.settled {id : PresentationId} (h : History (.new id) deeds scene) :
    Settled (Deed.effectsOf deeds) scene := by
  induction h with
  | nil => exact ⟨Presentation.registered_new id, fun _ => rfl, rfl⟩
  | @snoc deeds scene deed next _ hstep ih =>
      have hbalanced := hstep.balanced ih.registered
      have heffects : Deed.effectsOf (deeds ++ [deed]) = Deed.effectsOf deeds ++ deed.effects := by
        simp [Deed.effectsOf]
      refine ⟨hbalanced.registered, fun s => ?_, ?_⟩
      · calc
          Sample.ofStream s (Ledger.entered (Deed.effectsOf (deeds ++ [deed])))
            = Sample.ofStream s ((Ledger.departed (Deed.effectsOf deeds)).map (·.1)) ++
                (scene.presentation.waiting s ++ Sample.ofStream s (Ledger.entered deed.effects))
                  := by
              simp [heffects, ih.queues s]
          _ = _ := by
              rw [hbalanced.balance s, heffects]
              simp
      · calc
          (Ledger.released (Deed.effectsOf (deeds ++ [deed]))).map (·.sample.ticket)
            = Ledger.acknowledged (Deed.effectsOf deeds) ++
                ((Standing.inHand scene.standing).map (·.ticket) ++
                  (Ledger.released deed.effects).map (·.sample.ticket)) := by
              simp [heffects, ih.hand]
          _ = _ := by
              rw [hstep.acknowledges, heffects]
              simp

end Scene

/-! ## Samples underway -/

/-- The released sample that a job is about, before its acknowledgment. -/
def Job.inHand? (p : Key) : Job H → Option (Sample H.Receiver)
  | .at q (.dispatch selected) => if q = p then some selected.sample else none
  | .at q (.acknowledge sample) => if q = p then some sample else none
  | _ => none

def Machine.underway (m : Machine H) (p : Key) : List (Sample H.Receiver) :=
  m.actors.flatMap fun actor => actor.jobs.filterMap (·.inHand? p)

theorem Job.inHand?_eq_none {p : Key} {job : Job H} (h : job.isDutyOf p = false) :
    job.inHand? p = none := by
  cases job with
  | «at» q task =>
      cases task <;> simp_all [inHand?, isDutyOf, Task.isDuty]
  | _ => rfl

theorem Crewed.underway_eq {m : Machine H} {p : Key} {crew : Crew H} (h : Crewed m p crew) :
    m.underway p = Standing.inHand crew.standing := by
  rw [Machine.underway, h.flatMap_jobs fun job => Job.inHand?_eq_none]
  rcases crew.standing with _ | s
  · rfl
  · cases s <;>
      simp [Standing.duties, Standing.duty, Standing.later, List.filterMap_cons, Job.inHand?,
        Standing.inHand]

end Playout
