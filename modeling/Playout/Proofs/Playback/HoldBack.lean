import Playout.Proofs.Playback.PlaybackTime
import Playout.Proofs.Schedule.Order

/-!
# Holding back

Paced selection holds a frame back while some stream is pending, unless nothing has played yet. It
tells the latter by the playback time, which is the latest end of all samples that were released
since the thread was started. Samples that end at time zero do not move it, so that after them
selection goes on as if nothing had played.
-/

namespace Playout

variable {H : Platform}

/-! ## Playback at zero -/

namespace Ledger

variable {ρ : Type}

theorem max_eq_zero_iff {a b : UInt64} : max a b = 0 ↔ a = 0 ∧ b = 0 := by
  constructor
  · intro hzero
    obtain ⟨ha, hb, -⟩ := max_spec a b
    rw [hzero] at ha hb
    exact ⟨UInt64.le_antisymm ha UInt64.zero_le, UInt64.le_antisymm hb UInt64.zero_le⟩
  · rintro ⟨rfl, rfl⟩
    rfl

theorem reach_eq_zero_iff {time : UInt64} {released : List (Selected ρ)} :
    reach time released = 0 ↔ time = 0 ∧ ∀ r ∈ released, r.sample.endTime = 0 := by
  induction released generalizing time with
  | nil => simp [reach]
  | cons r released ih =>
      have hstep : reach time (r :: released) = reach (max time r.sample.endTime) released := rfl
      rw [hstep, ih, max_eq_zero_iff]
      simp [and_assoc]

end Ledger

/-! ## The gate -/

/-- While some stream is pending, paced selection lets nothing but audio go unless playback has got
as far as that or its time is zero. -/
theorem Scene.Step.reached_of_pending {scene next : Scene H} {deed : Deed H}
    {selected : Selected H.Receiver}
    (h : Step scene deed next) (hpaced : deed.task.pacing? = some .paced)
    (hreleased : selected ∈ Ledger.released deed.effects) (hframe : selected.majorType ≠ .audio)
    (hpending : deed.before.queues.any (·.isPending)) :
    deed.before.playbackTime = 0 ∨ selected.sample.startTime ≤ deed.before.playbackTime := by
  cases h with
  | aside hfree hstart hmove =>
      have haside := Aside.of_moves (hmove ▸ Presentation.perform_aside hfree hstart)
      rw [haside.2.1.released_eq_nil] at hreleased
      cases hreleased
  | start => cases hreleased
  | @duty c x s y effects s? hadv =>
      obtain ⟨pacing, r, before, hpacing, hselect, rfl⟩ := hadv.select_of_mem hreleased
      obtain rfl : pacing = .paced := Option.some.inj (hpacing.symm.trans hpaced)
      obtain ⟨q, hq, hwaits⟩ := List.any_eq_true.mp hpending
      obtain ⟨hempty, hopen⟩ : q.samples = [] ∧ q.eos = false := by
        simpa [StreamQueue.isPending] using hwaits
      have hmay := (Schedule.select?_eq_some (Prod.mk.inj hselect).1).2
      exact (Presentation.open_of_pending hmay hq hempty hopen).resolve_left hframe

def Run.deedsBetween (r : Run H) (p : Key) (k n : Nat) : List (Deed H) :=
  ((r.deeds p).take n).drop (k + 1)

theorem Run.deeds_eq_between {r : Run H} {p : Key} {k n : Nat} {start deed : Deed H}
    (hstart : (r.deeds p)[k]? = some start) (hdeed : (r.deeds p)[n]? = some deed) (hkn : k < n) :
    r.deeds p =
      ((r.deeds p).take k ++ start :: r.deedsBetween p k n) ++ deed ::
      (r.deeds p).drop (n + 1) := by
  obtain ⟨hn, rfl⟩ := List.getElem?_eq_some_iff.mp hdeed
  obtain ⟨hk, rfl⟩ := List.getElem?_eq_some_iff.mp hstart
  have hlt : k < ((r.deeds p).take n).length := by
    rw [List.length_take]
    omega
  have hbefore : (r.deeds p).take n =
      (r.deeds p).take k ++ (r.deeds p)[k] :: r.deedsBetween p k n := by
    have hsplit := List.take_append_drop k ((r.deeds p).take n)
    rw [← List.getElem_cons_drop hlt, List.take_take, Nat.min_eq_left (by omega), List.getElem_take]
      at hsplit
    exact hsplit.symm
  rw [← hbefore, List.getElem_cons_drop hn, List.take_append_drop]

namespace Machine

/-- When the thread selects with regard to the others, the playback time is the latest end of what
was released since the latest start that found no thread, which is the one that launched it. While
some stream is pending, nothing but audio goes then unless playback has got as far as that, or
everything that was released since the start ends at time zero. -/
theorem frames_held_back (config : Config) (decoders : DecoderBackends H.Codec)
    (outputs : AudioBackends H.Output) (actions : List (Action H)) (p : Key) (k n : Nat) {r : Run H}
    {deed : Deed H} {selected : Selected H.Receiver}
    (hr : (initial config decoders outputs).run actions = r)
    (hstart : ((r.deeds p)[k]?).any (·.rewinds)) (hsince : (r.deedsBetween p k n).all (!·.rewinds))
    (hdeed : (r.deeds p)[n]? = some deed) (hkn : k < n) (hpaced : deed.task.pacing? = some .paced)
    (hreleased : selected ∈ Ledger.released deed.effects) (hframe : selected.majorType ≠ .audio)
    (hpending : deed.before.queues.any (·.isPending)) :
    deed.before.playbackTime = Ledger.reach 0
      (Ledger.released (Deed.effectsOf (r.deedsBetween p k n))) ∧
      (selected.sample.startTime ≤ deed.before.playbackTime ∨
        ∀ s ∈ Ledger.released (Deed.effectsOf (r.deedsBetween p k n)), s.sample.endTime = 0) := by
  subst hr
  obtain ⟨start, hstart', hrewinds⟩ := (Option.any_eq_true _ _).mp hstart
  obtain ⟨crew, id, x, -, hhistory, -⟩ := run_history config decoders outputs actions p
  obtain ⟨scene, next, hbefore, hstep, -⟩ := hhistory.split (Run.deeds_eq_between hstart' hdeed hkn)
  have htime := hbefore.playbackTime_eq rfl hrewinds (by simpa using hsince)
  rw [← hstep.before_eq] at htime
  refine ⟨htime, ?_⟩
  rcases hstep.reached_of_pending hpaced hreleased hframe hpending with hzero | hreached
  · rw [htime] at hzero
    exact .inr (Ledger.reach_eq_zero_iff.mp hzero).2
  · exact .inl hreached

open Playout.Action in
/-- One stream brings a frame that ends at the given time, and one that starts at 20 time units.
Another one has nothing to offer and has not ended. The presentation's thread shows both frames if
it does not hold the second one back. -/
def secondFrame (first : UInt64) : List (Action .plain) :=
  prepared (.video .unknown 2 2) [] ++ calling 0 (.createStream 0 2) 1
    ++ calling 0 (.push ⟨0, 0⟩ ⟨1, 0, first, 0, .empty, [0], 0⟩) 2
    ++ calling 0 (.push ⟨0, 0⟩ ⟨2, 20, 30, 10, .empty, [0], 0⟩) 2
    ++ calling 0 (.start 0) 2 ++ steps 1 10

/-- A first frame that ends at time 20 lets the second one go. -/
theorem secondFrame_reached :
    ∃ deed selected, ((plain.run (secondFrame 20)).deeds 0)[19]? = some deed ∧
      selected ∈ Ledger.released deed.effects ∧
        selected.sample.startTime ≤ deed.before.playbackTime := by
  have hfacts : (((plain.run (secondFrame 20)).deeds 0)[19]?).any (fun deed =>
      deed.task.pacing? == some .paced && deed.before.queues.any (·.isPending) &&
        (Ledger.released deed.effects).any (·.majorType == .video)) := by decide +kernel
  obtain ⟨deed, hdeed, hfacts⟩ := (Option.any_eq_true _ _).mp hfacts
  simp only [Bool.and_eq_true, beq_iff_eq, List.any_eq_true (l := Ledger.released _)] at hfacts
  obtain ⟨⟨hpaced, hpending⟩, selected, hselected, htype⟩ := hfacts
  obtain ⟨-, hreached | hzero⟩ := frames_held_back _ _ _ (secondFrame 20) 0 8 19
    (r := plain.run (secondFrame 20)) rfl (by decide +kernel)
    (by decide +kernel) hdeed (by decide) hpaced
    hselected (by simp [htype]) hpending
  · exact ⟨deed, selected, hdeed, hselected, hreached⟩
  · -- the first frame does not end at time zero
    have hends : (Ledger.released
        (Deed.effectsOf ((plain.run (secondFrame 20)).deedsBetween 0 8 19))).any
        (·.sample.endTime != 0) := by decide +kernel
    obtain ⟨s, hs, hend⟩ := List.any_eq_true.mp hends
    simp [hzero s hs] at hend

/-- After a first frame that ends at time zero the second one goes ahead of its time, though a frame
has been released since the start and a stream is pending. -/
theorem secondFrame_not_held_back :
    (((plain.run (secondFrame 0)).deeds 0)[8]?).any (·.rewinds) ∧
      ((plain.run (secondFrame 0)).deedsBetween 0 8 19).all (!·.rewinds) ∧
      (Ledger.released (Deed.effectsOf ((plain.run (secondFrame 0)).deedsBetween 0 8 19))).length =
        1 ∧
      (((plain.run (secondFrame 0)).deeds 0)[19]?).any (fun deed =>
        deed.task.pacing? == some .paced && deed.before.queues.any (·.isPending) &&
          (Ledger.released deed.effects).any fun selected =>
            selected.majorType == .video && deed.before.playbackTime <
              selected.sample.startTime) := by
  decide +kernel

end Machine

end Playout
