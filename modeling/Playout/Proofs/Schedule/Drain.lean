import Playout.Proofs.Schedule.Selection

/-!
# Draining

Repeated unpaced selection empties the queues, and the sequence that it releases does not depend on
when it takes over from paced selection: whatever the sink answers, a paced tick releases the next
sample of that sequence or leaves everything as it was. When every stream has ended and the sink
always has room, paced selection alone releases the whole sequence.
-/

namespace Playout.Schedule

variable {ρ : Type} {queues : List (StreamQueue ρ)} {time : UInt64}

/-! ## Courses -/

def Course.cons (r : Release ρ) (later : Course ρ) : Course ρ :=
  { later with released := (r.selected, r.time) :: later.released }

@[simp] theorem Course.cons_released (r : Release ρ) (later : Course ρ) :
    (later.cons r).released = (r.selected, r.time) :: later.released := rfl

@[simp] theorem Course.cons_queues (r : Release ρ) (later : Course ρ) :
    (later.cons r).queues = later.queues := rfl

@[simp] theorem Course.cons_time (r : Release ρ) (later : Course ρ) :
    (later.cons r).time = later.time := rfl

/-- Paced selection at one tick after the other, each with its own depth. A tick that releases
nothing is followed by the next one all the same. -/
def pacedTicks (threshold : Nat) : List (Option Nat) → List (StreamQueue ρ) → UInt64 → Course ρ
  | [], queues, time => ⟨[], queues, time⟩
  | depth :: depths, queues, time =>
    match select? threshold queues time depth with
    | none => pacedTicks threshold depths queues time
    | some r => (pacedTicks threshold depths r.queues r.time).cons r

theorem drain_of_none (h : selectUnpaced? queues time = none) :
    drain queues time = ⟨[], queues, time⟩ := by
  have hzero : queued queues = 0 := queued_eq_zero_iff.mpr (selectUnpaced?_eq_none_iff.mp h)
  rw [drain, hzero, repeatSelection]

/-- The fuel of a drain is exactly used up: each release takes one sample. -/
theorem drain_of_some {r : Release ρ} (h : selectUnpaced? queues time = some r) :
    drain queues time = (drain r.queues r.time).cons r := by
  rw [drain, queued_of_selectUnpaced? h, repeatSelection, h]
  rfl

/-- Induction along a drain. Each release leaves one sample less, so that the empty queues
are reached. -/
@[elab_as_elim]
theorem drain_induction {motive : List (StreamQueue ρ) → UInt64 → Prop}
    (done : ∀ queues time, selectUnpaced? queues time = none → motive queues time)
    (next : ∀ queues time r, selectUnpaced? queues time = some r → motive r.queues r.time →
      motive queues time) (queues : List (StreamQueue ρ)) (time : UInt64) : motive queues time := by
  induction hn : queued queues generalizing queues time with
  | zero => exact done queues time (selectUnpaced?_eq_none_iff.mpr (queued_eq_zero_iff.mp hn))
  | succ n ih =>
      cases hs : selectUnpaced? queues time with
      | none => exact done queues time hs
      | some r =>
          have hcount := queued_of_selectUnpaced? hs
          exact next queues time r hs (ih r.queues r.time (by omega))

theorem selectUnpaced?_drain (queues : List (StreamQueue ρ)) (time : UInt64) :
    selectUnpaced? (drain queues time).queues (drain queues time).time = none := by
  induction queues, time using drain_induction with
  | done queues time hnone =>
      rw [drain_of_none hnone]
      exact hnone
  | next queues time r hs ih =>
      rw [drain_of_some hs]
      exact ih

/-! ## Streams without samples -/

theorem earliest?_append_empty {q : StreamQueue ρ} (hq : q.samples = []) :
    earliest? (queues ++ [q]) = earliest? queues := by
  rw [earliest?_snoc, nearer, headStart?_eq_none_iff.mpr hq]

theorem selectUnpaced?_append_empty {q : StreamQueue ρ} (hq : q.samples = []) :
    selectUnpaced? (queues ++ [q]) time =
      (selectUnpaced? queues time).map fun r => { r with queues := r.queues ++ [q] } := by
  unfold selectUnpaced?
  rw [earliest?_append_empty hq]
  rcases earliest?_spec queues with ⟨hnone, -⟩ | ⟨i, start, hsome, hhead⟩
  · simp [hnone]
  · obtain ⟨first, sample, rest, hfirst, hsamples, -⟩ := headAt?_eq_some hhead.head
    have hlt : i < queues.length := (List.getElem?_eq_some_iff.mp hfirst).1
    have hsame : (queues ++ [q])[i]? = some first := by rw [List.getElem?_append_left hlt, hfirst]
    simp [hsome, popAt, hsame, hfirst, hsamples, List.set_append_left _ _ hlt]

theorem drain_append_empty {q : StreamQueue ρ} (hq : q.samples = []) (queues : List (StreamQueue ρ))
    (time : UInt64) : (drain (queues ++ [q]) time).released = (drain queues time).released := by
  induction queues, time using drain_induction with
  | done queues time hnone =>
      have hnone' : selectUnpaced? (queues ++ [q]) time = none := by
        rw [selectUnpaced?_append_empty hq, hnone]
        rfl
      rw [drain_of_none hnone, drain_of_none hnone']
  | next queues time r hs ih =>
      have hs' : selectUnpaced? (queues ++ [q]) time =
          some { r with queues := r.queues ++ [q] } := by
        rw [selectUnpaced?_append_empty hq, hs]
        rfl
      rw [drain_of_some hs, drain_of_some hs', Course.cons_released, Course.cons_released, ih]

theorem drain_released_eq_nil_iff :
    (drain queues time).released = [] ↔ ∀ q ∈ queues, q.samples = [] := by
  have hiff : selectUnpaced? queues time = none ↔ ∀ q ∈ queues, q.samples = [] :=
    selectUnpaced?_eq_none_iff
  rw [← hiff]
  cases hs : selectUnpaced? queues time with
  | none => simp [drain_of_none hs]
  | some r => simp [drain_of_some hs]

/-! ## Taking over from paced selection -/

/-- The two halves of a sequence whose first half is released by paced ticks. -/
theorem drain_after_pacedTicks (threshold : Nat) (depths : List (Option Nat))
    (queues : List (StreamQueue ρ)) (time : UInt64) :
    drain queues time =
      let paced := pacedTicks threshold depths queues time
      let rest := drain paced.queues paced.time
      { rest with released := paced.released ++ rest.released } := by
  induction depths generalizing queues time with
  | nil => rfl
  | cons depth depths ih =>
      cases hs : select? threshold queues time depth with
      | none => simpa [pacedTicks, hs] using ih queues time
      | some r =>
          rw [drain_of_some (select?_eq_some hs).1, ih r.queues r.time]
          simp [pacedTicks, hs, Course.cons]

/-! ## Ticks that withhold nothing -/

theorem eos_of_selectUnpaced? {r : Release ρ} (h : selectUnpaced? queues time = some r)
    (hall : ∀ q ∈ queues, q.eos) : ∀ q ∈ r.queues, q.eos := by
  obtain ⟨i, q, sample, rest, hq, -, -, rfl⟩ := selectUnpaced?_eq_some h
  intro other hother
  rcases List.mem_or_eq_of_mem_set hother with hmem | rfl
  · exact hall other hmem
  · exact hall q (List.mem_of_getElem? hq)

/-- No gate is closed when no stream is pending and the sink has room. -/
theorem mayRelease_of_eos {threshold : Nat} {depth : Option Nat} (hall : ∀ q ∈ queues, q.eos)
    (hdepth : depth.all (· < threshold)) (majorType : MajorType) (start : UInt64) :
    mayRelease threshold (queues.any (·.isPending)) time depth majorType start := by
  have hpending : queues.any (·.isPending) = false := by
    rw [List.any_eq_false]
    intro q hq
    simp [StreamQueue.isPending, hall q hq]
  cases majorType with
  | audio => exact hdepth
  | video => simp [mayRelease, hpending]
  | unknown => simp [mayRelease, hpending]

theorem select?_of_eos {threshold : Nat} {depth : Option Nat} (hall : ∀ q ∈ queues, q.eos)
    (hdepth : depth.all (· < threshold)) :
    select? threshold queues time depth = selectUnpaced? queues time := by
  rw [select?_eq_filter]
  cases selectUnpaced? queues time with
  | none => rfl
  | some r => simp [Option.filter_some, mayRelease_of_eos hall hdepth]

/-- With all gates open, the first ticks release the first samples of the drain. -/
theorem pacedTicks_of_eos {threshold : Nat} {depths : List (Option Nat)}
    (queues : List (StreamQueue ρ)) (time : UInt64) (hall : ∀ q ∈ queues, q.eos)
    (hdepths : ∀ depth ∈ depths, depth.all (· < threshold)) :
    (pacedTicks threshold depths queues time).released =
      (drain queues time).released.take depths.length := by
  induction depths generalizing queues time with
  | nil => rfl
  | cons depth depths ih =>
      have hrest : ∀ depth ∈ depths, depth.all (· < threshold) :=
        fun d hd => hdepths d (List.mem_cons_of_mem depth hd)
      have hsame : select? threshold queues time depth = selectUnpaced? queues time :=
        select?_of_eos hall (hdepths depth List.mem_cons_self)
      cases hs : selectUnpaced? queues time with
      | none =>
          rw [drain_of_none hs]
          rw [hs] at hsame
          simpa [pacedTicks, hsame, drain_of_none hs] using ih queues time hall hrest
      | some r =>
          rw [drain_of_some hs]
          rw [hs] at hsame
          simp [pacedTicks, hsame, ih r.queues r.time (eos_of_selectUnpaced? hs hall) hrest]

/-- Without withheld candidates, as many ticks as there are samples leave nothing behind. -/
theorem pacedTicks_eq_drain {threshold : Nat} {depths : List (Option Nat)}
    (queues : List (StreamQueue ρ)) (time : UInt64) (hall : ∀ q ∈ queues, q.eos)
    (hdepths : ∀ depth ∈ depths, depth.all (· < threshold)) (hlen : queued queues ≤ depths.length) :
    pacedTicks threshold depths queues time = drain queues time := by
  induction depths generalizing queues time with
  | nil =>
      have hzero : queued queues = 0 := Nat.le_zero.mp hlen
      rw [pacedTicks, drain, hzero, repeatSelection]
  | cons depth depths ih =>
      have hrest : ∀ depth ∈ depths, depth.all (· < threshold) :=
        fun d hd => hdepths d (List.mem_cons_of_mem depth hd)
      have hsame : select? threshold queues time depth = selectUnpaced? queues time :=
        select?_of_eos hall (hdepths depth List.mem_cons_self)
      cases hs : selectUnpaced? queues time with
      | none =>
          have hzero : queued queues = 0 :=
            queued_eq_zero_iff.mpr (selectUnpaced?_eq_none_iff.mp hs)
          rw [hs] at hsame
          rw [pacedTicks, hsame]
          exact ih queues time hall hrest (by omega)
      | some r =>
          have hcount := queued_of_selectUnpaced? hs
          rw [List.length_cons] at hlen
          rw [hs] at hsame
          rw [pacedTicks, hsame, drain_of_some hs]
          exact congrArg (Course.cons r)
            (ih r.queues r.time (eos_of_selectUnpaced? hs hall) hrest (by omega))

/-! ## Independence of the time of stopping -/

/-- Paced ticks followed by a drain release the same samples with the same attributes, and reach
the same playback time, as the drain alone. If nothing is withheld, the ticks release them
without the drain. -/
theorem pacedTicks_then_drain (threshold : Nat) (depths : List (Option Nat))
    (queues : List (StreamQueue ρ)) (time : UInt64) :
    let paced := pacedTicks threshold depths queues time
    let rest := drain paced.queues paced.time
    let alone := drain queues time
    selectUnpaced? alone.queues alone.time = none ∧
      paced.released ++ rest.released = alone.released ∧
      rest.queues = alone.queues ∧ rest.time = alone.time ∧
      ((∀ q ∈ queues, q.eos) → (∀ depth ∈ depths, depth.all (· < threshold)) →
        paced.released = alone.released.take depths.length ∧
        (queued queues ≤ depths.length → paced = alone)) := by
  intro paced rest alone
  have hsplit : alone = { rest with released := paced.released ++ rest.released } :=
    drain_after_pacedTicks threshold depths queues time
  refine ⟨selectUnpaced?_drain queues time, ?_, ?_, ?_, ?_⟩
  · rw [hsplit]
  · rw [hsplit]
  · rw [hsplit]
  · intro hall hdepths
    exact ⟨pacedTicks_of_eos queues time hall hdepths, pacedTicks_eq_drain queues time hall hdepths⟩

/-- An audio stream and a video stream, both ended, with samples that have to be interleaved. -/
def endedPair : List (StreamQueue Unit) :=
  [⟨1, .audio, 0, 0, true, [.new 1 () 10 0 20 20 none .i420, .new 1 () 11 40 60 20 none .i420]⟩,
    ⟨2, .video, 8, 6, true, [.new 2 () 20 20 70 50 none .i420]⟩]

theorem pacedTicks_endedPair :
    (∀ q ∈ endedPair, q.eos) ∧ (∀ depth ∈ [none, some 1, some 0], depth.all (· < 2)) ∧
      queued endedPair ≤ 3 ∧
      (drain endedPair 0).released.map (·.1.sample.sampleId) = [10, 20, 11] ∧
      pacedTicks 2 [none, some 1, some 0] endedPair 0 = drain endedPair 0 := by
  have hall : ∀ q ∈ endedPair, q.eos := by decide
  have hdepths : ∀ depth ∈ [none, some 1, some 0], depth.all (· < 2) := by decide
  have hcount : queued endedPair ≤ 3 := by decide
  have h := pacedTicks_then_drain 2 [none, some 1, some 0] endedPair 0
  exact ⟨hall, hdepths, hcount, by decide, (h.2.2.2.2 hall hdepths).2 hcount⟩

end Playout.Schedule
