import Mathlib.Data.List.Sort
import Playout.Proofs.Playback.PlaybackTime
import Playout.Proofs.Schedule.Drain

/-!
# Draining as a merge

A drain merges the queues. It takes every sample once and each queue in its own order; and if the
queues are ordered by start time, then so is what it releases, with the stream that was
registered first going first among equals. This is what a stable sort makes of all samples,
stream after stream.
-/

namespace Playout.Schedule

variable {ρ : Type} {queues : List (StreamQueue ρ)} {time : UInt64}

/-! ## Where the samples come from -/

def places : Nat → List (StreamQueue ρ) → UInt64 → List Nat
  | 0, _, _ => []
  | n + 1, queues, time =>
    match earliest? queues, selectUnpaced? queues time with
    | some (i, _), some r => i :: places n r.queues r.time
    | _, _ => []

/-- What a drain releases, each with the place of its stream. -/
def placed (queues : List (StreamQueue ρ)) (time : UInt64) : List (Nat × Selected ρ) :=
  (places (queued queues) queues time).zip ((drain queues time).released.map (·.1))

def releasedFrom (i : Nat) (placed : List (Nat × Selected ρ)) : List (Selected ρ) :=
  (placed.filter (·.1 == i)).map (·.2)

theorem releasedFrom_cons_self (i : Nat) (s : Selected ρ) (placed : List (Nat × Selected ρ)) :
    releasedFrom i ((i, s) :: placed) = s :: releasedFrom i placed := by
  simp [releasedFrom]

theorem releasedFrom_cons_of_ne {i j : Nat} (h : j ≠ i) (s : Selected ρ)
    (placed : List (Nat × Selected ρ)) :
    releasedFrom i ((j, s) :: placed) = releasedFrom i placed := by
  simp [releasedFrom, h]

theorem placed_of_none (h : selectUnpaced? queues time = none) : placed queues time = [] := by
  simp [placed, drain_of_none h]

theorem placed_of_some {r : Release ρ} {i : Nat} {start : UInt64} (hi : EarliestHead queues i start)
    (h : selectUnpaced? queues time = some r) :
    placed queues time = (i, r.selected) :: placed r.queues r.time := by
  have hplace : earliest? queues = some (i, start) := earliest?_eq_some_iff.mpr hi
  rw [placed, queued_of_selectUnpaced? h, drain_of_some h]
  simp [places, hplace, h, placed]

theorem placed_map_snd (queues : List (StreamQueue ρ)) (time : UInt64) :
    (placed queues time).map (·.2) = (drain queues time).released.map (·.1) := by
  induction queues, time using drain_induction with
  | done queues time hnone => simp [placed_of_none hnone, drain_of_none hnone]
  | next queues time r hs ih =>
      obtain ⟨_, _, _, _, -, -, hi, -⟩ := selectUnpaced?_eq_some hs
      simp [placed_of_some hi hs, drain_of_some hs, ih]

theorem releasedFrom_placed (queues : List (StreamQueue ρ)) (time : UInt64) (i : Nat) :
    releasedFrom i (placed queues time) =
      (queues[i]?).elim [] fun q => q.samples.map q.select := by
  induction queues, time using drain_induction with
  | done queues time hnone =>
      rw [placed_of_none hnone]
      cases hq : queues[i]? with
      | none => rfl
      | some q =>
          have hempty := selectUnpaced?_eq_none_iff.mp hnone q (List.mem_of_getElem? hq)
          simp [releasedFrom, hempty]
  | next queues time r hs ih =>
      obtain ⟨j, q, sample, rest, hq, hsamples, hj, rfl⟩ := selectUnpaced?_eq_some hs
      rw [placed_of_some hj hs]
      by_cases hij : j = i
      · subst hij
        have hset : (queues.set j { q with samples := rest })[j]? =
            some { q with samples := rest } :=
          List.getElem?_set_self (List.getElem?_eq_some_iff.mp hq).1
        rw [takeHead, hset] at ih
        rw [takeHead, releasedFrom_cons_self, ih, hq]
        simp only [Option.elim_some, hsamples, List.map_cons]
        rfl
      · have hset : (queues.set j { q with samples := rest })[i]? = queues[i]? :=
          List.getElem?_set_ne hij
        rw [takeHead, hset] at ih
        rw [takeHead, releasedFrom_cons_of_ne hij, ih]

theorem mem_placed_iff {i : Nat} {s : Selected ρ} :
    (i, s) ∈ placed queues time ↔
      ∃ q, queues[i]? = some q ∧ ∃ sample ∈ q.samples, q.select sample = s := by
  have hfrom : (i, s) ∈ placed queues time ↔ s ∈ releasedFrom i (placed queues time) := by
    simp [releasedFrom]
  rw [hfrom, releasedFrom_placed]
  cases queues[i]? <;> simp

theorem mem_drain_iff {s : Selected ρ} :
    s ∈ (drain queues time).released.map (·.1) ↔
      ∃ q ∈ queues, ∃ sample ∈ q.samples, q.select sample = s := by
  rw [← placed_map_snd, List.mem_map]
  constructor
  · rintro ⟨⟨i, s⟩, hmem, rfl⟩
    obtain ⟨q, hq, hs⟩ := mem_placed_iff.mp hmem
    exact ⟨q, List.mem_of_getElem? hq, hs⟩
  · rintro ⟨q, hq, hs⟩
    obtain ⟨i, hi⟩ := List.getElem?_of_mem hq
    exact ⟨(i, s), mem_placed_iff.mpr ⟨q, hi, hs⟩, rfl⟩

/-! ## How far a drain goes -/

theorem queued_eq_length (queues : List (StreamQueue ρ)) :
    queued queues = (queues.flatMap (·.samples)).length := by
  induction queues with
  | nil => rfl
  | cons q queues ih => rw [queued, ih, List.flatMap_cons, List.length_append]

theorem queued_repeatSelection (n : Nat) (queues : List (StreamQueue ρ)) (time : UInt64) :
    queued (repeatSelection selectUnpaced? n queues time).queues = queued queues - n := by
  induction n generalizing queues time with
  | zero => rfl
  | succ n ih =>
      rw [repeatSelection]
      cases hs : selectUnpaced? queues time with
      | none =>
          have hzero : queued queues = 0 :=
            queued_eq_zero_iff.mpr (selectUnpaced?_eq_none_iff.mp hs)
          simp [hzero]
      | some r =>
          have hcount := queued_of_selectUnpaced? hs
          simp only [ih]
          omega

theorem released_repeatSelection (n : Nat) (queues : List (StreamQueue ρ)) (time : UInt64) :
    (repeatSelection selectUnpaced? n queues time).released =
    (drain queues time).released.take n := by
  induction n generalizing queues time with
  | zero => rfl
  | succ n ih =>
      rw [repeatSelection]
      cases hs : selectUnpaced? queues time with
      | none => simp [drain_of_none hs]
      | some r => simp [drain_of_some hs, ih]

/-- More selections than there are samples change nothing. -/
theorem repeatSelection_of_queued_le {n : Nat} (hn : queued queues ≤ n) :
    repeatSelection selectUnpaced? n queues time = drain queues time := by
  induction n generalizing queues time with
  | zero => rw [drain, Nat.le_zero.mp hn]
  | succ n ih =>
      rw [repeatSelection]
      cases hs : selectUnpaced? queues time with
      | none => rw [drain_of_none hs]
      | some r =>
          have hcount := queued_of_selectUnpaced? hs
          rw [drain_of_some hs, ← ih (by omega)]
          rfl

theorem length_released_drain (queues : List (StreamQueue ρ)) (time : UInt64) :
    (drain queues time).released.length = queued queues := by
  induction queues, time using drain_induction with
  | done queues time hnone =>
      rw [drain_of_none hnone, queued_eq_zero_iff.mpr (selectUnpaced?_eq_none_iff.mp hnone),
        List.length_nil]
  | next queues time r hs ih =>
      rw [drain_of_some hs, queued_of_selectUnpaced? hs, Course.cons_released, List.length_cons, ih]

theorem queues_drain (queues : List (StreamQueue ρ)) (time : UInt64) :
    (drain queues time).queues = queues.map fun q => { q with samples := [] } := by
  induction queues, time using drain_induction with
  | done queues time hnone =>
      have hempty := selectUnpaced?_eq_none_iff.mp hnone
      have hsame : queues.map (fun q => { q with samples := [] }) = queues.map id :=
        List.map_congr_left fun q hq => by
          rw [← hempty q hq]
          rfl
      rw [drain_of_none hnone, hsame, List.map_id]
  | next queues time r hs ih =>
      obtain ⟨i, q, sample, rest, hq, -, -, rfl⟩ := selectUnpaced?_eq_some hs
      obtain ⟨pre, post, rfl, -, hset⟩ := exists_split_of_getElem? hq
      rw [drain_of_some hs, Course.cons_queues, ih, takeHead, hset]
      simp

theorem time_drain (queues : List (StreamQueue ρ)) (time : UInt64) :
    (drain queues time).time = Ledger.reach time ((drain queues time).released.map (·.1)) := by
  induction queues, time using drain_induction with
  | done queues time hnone =>
      rw [drain_of_none hnone]
      rfl
  | next queues time r hs ih =>
      obtain ⟨_, _, _, _, -, -, -, rfl⟩ := selectUnpaced?_eq_some hs
      rw [drain_of_some hs, Course.cons_time, ih, Course.cons_released, List.map_cons]
      rfl

/-! ## The order of a drain -/

/-- Each queue is ordered by start time. -/
def InOrder (queues : List (StreamQueue ρ)) : Prop :=
  ∀ q ∈ queues, q.samples.Pairwise (·.startTime ≤ ·.startTime)

instance : Decidable (InOrder queues) :=
  inferInstanceAs (Decidable (∀ q ∈ queues, q.samples.Pairwise (·.startTime ≤ ·.startTime)))

/-- Earlier, or equally early and from a stream that was not registered later. -/
def NotAfter (a b : Nat × Selected ρ) : Prop :=
  a.2.sample.startTime < b.2.sample.startTime ∨
    a.2.sample.startTime = b.2.sample.startTime ∧ a.1 ≤ b.1

/-- The earliest head of ordered queues is the earliest of all samples, and comes before all equally
early ones of the streams that were registered later. -/
theorem EarliestHead.le_of_inOrder {i j : Nat} {start : UInt64} {q : StreamQueue ρ}
    {sample : Sample ρ}
    (h : EarliestHead queues i start) (ho : InOrder queues) (hq : queues[j]? = some q)
    (hs : sample ∈ q.samples) :
    start ≤ sample.startTime ∧ (j < i → start < sample.startTime) := by
  have hsorted := ho q (List.mem_of_getElem? hq)
  cases hsamples : q.samples with
  | nil => simp [hsamples] at hs
  | cons first rest =>
      have hhead := headAt?_of_samples hq hsamples
      have hfirst : first.startTime ≤ sample.startTime := by
        rw [hsamples] at hs hsorted
        rcases List.mem_cons.mp hs with rfl | hrest
        · exact UInt64.le_refl _
        · exact (List.pairwise_cons.mp hsorted).1 sample hrest
      exact ⟨UInt64.le_trans (h.least j _ hhead) hfirst,
        fun hlt => UInt64.lt_of_lt_of_le (h.leftmost j _ hlt hhead) hfirst⟩

/-- Taking a head leaves no queue with more samples than before. -/
theorem mem_of_mem_takeHead {i j : Nat} {q p : StreamQueue ρ} {sample s : Sample ρ}
    {rest : List (Sample ρ)} (hq : queues[i]? = some q) (hsamples : q.samples = sample :: rest)
    (hp : (takeHead queues time i q sample rest).queues[j]? = some p) (hs : s ∈ p.samples) :
    ∃ p', queues[j]? = some p' ∧ s ∈ p'.samples := by
  by_cases hij : i = j
  · subst hij
    rw [takeHead, List.getElem?_set_self (List.getElem?_eq_some_iff.mp hq).1] at hp
    cases hp
    exact ⟨q, hq, hsamples ▸ List.mem_cons_of_mem sample hs⟩
  · rw [takeHead, List.getElem?_set_ne hij] at hp
    exact ⟨p, hp, hs⟩

theorem InOrder.takeHead {i : Nat} {q : StreamQueue ρ} {sample : Sample ρ} {rest : List (Sample ρ)}
    (h : InOrder queues) (hq : queues[i]? = some q) (hs : q.samples = sample :: rest) :
    InOrder (takeHead queues time i q sample rest).queues := by
  intro p hp
  rcases List.mem_or_eq_of_mem_set hp with hold | rfl
  · exact h p hold
  · have hsorted := h q (List.mem_of_getElem? hq)
    rw [hs] at hsorted
    exact (List.pairwise_cons.mp hsorted).2

theorem pairwise_placed (queues : List (StreamQueue ρ)) (time : UInt64) (h : InOrder queues) :
    (placed queues time).Pairwise NotAfter := by
  induction queues, time using drain_induction with
  | done queues time hnone =>
      rw [placed_of_none hnone]
      exact .nil
  | next queues time r hs ih =>
      obtain ⟨i, q, sample, rest, hq, hsamples, hi, rfl⟩ := selectUnpaced?_eq_some hs
      rw [placed_of_some hi hs]
      refine List.pairwise_cons.mpr ⟨?_, ih (h.takeHead hq hsamples)⟩
      rintro ⟨j, later⟩ hlater
      obtain ⟨p, hp, s, hsp, rfl⟩ := mem_placed_iff.mp hlater
      obtain ⟨p', hp', hsp'⟩ := mem_of_mem_takeHead hq hsamples hp hsp
      obtain ⟨hle, hfirst⟩ := hi.le_of_inOrder h hp' hsp'
      by_cases hji : j < i
      · exact .inl (hfirst hji)
      · rcases UInt64.lt_or_eq_of_le hle with hlt | heq
        · exact .inl hlt
        · exact .inr ⟨heq, Nat.not_lt.mp hji⟩

/-- What comes before everything that follows it, and strictly before everything in front of it, is
the first of the sorted list. -/
theorem insertionSort_append_cons {α : Type} (r : α → α → Prop) [DecidableRel r]
    {front back : List α} {a : α} (hfront : ∀ b ∈ front, ¬ r b a) (hback : ∀ b ∈ back, r a b) :
    (front ++ a :: back).insertionSort r = a :: (front ++ back).insertionSort r := by
  induction front with
  | nil =>
      rw [List.nil_append, List.nil_append, List.insertionSort_cons]
      cases hsorted : back.insertionSort r with
      | nil => rfl
      | cons b rest =>
          have hmem : b ∈ back := (List.mem_insertionSort r).mp (hsorted ▸ List.mem_cons_self)
          rw [List.orderedInsert_cons, if_pos (hback b hmem)]
  | cons b front ih =>
      rw [List.cons_append, List.insertionSort_cons,
        ih fun c hc => hfront c (List.mem_cons_of_mem b hc),
        List.orderedInsert_of_not_le r _ (hfront b List.mem_cons_self), List.cons_append,
        List.insertionSort_cons]

/-- All samples of the queues, stream after stream. -/
def laidOut (queues : List (StreamQueue ρ)) : List (Selected ρ) :=
  queues.flatMap fun q => q.samples.map q.select

theorem mem_laidOut_iff {s : Selected ρ} :
    s ∈ laidOut queues ↔ ∃ q ∈ queues, ∃ sample ∈ q.samples, q.select sample = s := by
  simp [laidOut]

/-- A drain of ordered queues is the stable sort of all their samples. -/
theorem drain_eq_insertionSort (queues : List (StreamQueue ρ)) (time : UInt64)
    (h : InOrder queues) :
    (drain queues time).released.map (·.1) =
      (laidOut queues).insertionSort fun a b => a.sample.startTime ≤ b.sample.startTime := by
  induction queues, time using drain_induction with
  | done queues time hnone =>
      have hempty := selectUnpaced?_eq_none_iff.mp hnone
      have hnil : laidOut queues = [] := by
        simpa [laidOut] using hempty
      rw [drain_of_none hnone, hnil]
      rfl
  | next queues time r hs ih =>
      obtain ⟨i, q, sample, rest, hq, hsamples, hi, rfl⟩ := selectUnpaced?_eq_some hs
      have hrest := ih (h.takeHead hq hsamples)
      obtain ⟨pre, post, hsplit, hlen, hset⟩ := exists_split_of_getElem? hq
      have hlaid : laidOut queues =
          laidOut pre ++ q.select sample :: (rest.map q.select ++ laidOut post) := by
        simp [laidOut, hsplit, hsamples]
      have hleft : laidOut (takeHead queues time i q sample rest).queues =
          laidOut pre ++ (rest.map q.select ++ laidOut post) := by
        rw [takeHead, hset]
        simp only [laidOut, List.flatMap_append, List.flatMap_cons]
        rfl
      have hfront : ∀ s ∈ laidOut pre, ¬ s.sample.startTime ≤ sample.startTime := by
        intro s hs
        obtain ⟨p, hp, other, hother, rfl⟩ := mem_laidOut_iff.mp hs
        obtain ⟨j, hj⟩ := List.getElem?_of_mem hp
        have hji : j < pre.length := (List.getElem?_eq_some_iff.mp hj).1
        have hp' : queues[j]? = some p := by rw [hsplit, List.getElem?_append_left hji, hj]
        exact UInt64.not_le.mpr ((hi.le_of_inOrder h hp' hother).2 (hlen ▸ hji))
      have hback : ∀ s ∈ rest.map q.select ++ laidOut post,
          sample.startTime ≤ s.sample.startTime := by
        intro s hs
        have hmem : s ∈ laidOut queues := by
          rw [hlaid]
          exact List.mem_append_right _ (List.mem_cons_of_mem _ hs)
        obtain ⟨p, hp, other, hother, rfl⟩ := mem_laidOut_iff.mp hmem
        obtain ⟨j, hj⟩ := List.getElem?_of_mem hp
        exact (hi.le_of_inOrder h hj hother).1
      rw [drain_of_some hs, Course.cons_released, List.map_cons, hrest, hlaid, hleft]
      exact (insertionSort_append_cons _ hfront hback).symm

/-! ## The whole merge -/

/-- Unpaced selection ends after as many releases as there are samples, whatever the queues are, and
leaves none behind. Every stream's samples are released in the order of its queue. If the queues are
ordered, the releases are ordered by start time and then by the place of the stream, so that they
are the stable sort of all samples. The playback time ends at the latest of the time before and of
all end times. -/
theorem drain_merges (queues : List (StreamQueue ρ)) (time : UInt64) :
    let course := drain queues time
    (∀ n, let part := repeatSelection selectUnpaced? n queues time
      part.released = course.released.take n ∧
        (selectUnpaced? part.queues part.time = none ↔ queued queues ≤ n) ∧
        (queued queues ≤ n → part = course)) ∧
      course.released.length = (queues.flatMap (·.samples)).length ∧
      course.queues = queues.map (fun q => { q with samples := [] }) ∧
      (placed queues time).map (·.2) = course.released.map (·.1) ∧
      (∀ i, releasedFrom i (placed queues time) =
        (queues[i]?).elim [] fun q => q.samples.map q.select) ∧
      (InOrder queues →
        (placed queues time).Pairwise NotAfter ∧
          course.released.map (·.1) =
            (laidOut queues).insertionSort fun a b => a.sample.startTime ≤ b.sample.startTime) ∧
      time ≤ course.time ∧
      (∀ q ∈ queues, ∀ sample ∈ q.samples, sample.endTime ≤ course.time) ∧
      (course.time = time ∨ ∃ q ∈ queues, ∃ sample ∈ q.samples, sample.endTime = course.time) := by
  intro course
  have htime : course.time = Ledger.reach time (course.released.map (·.1)) := time_drain queues time
  refine ⟨fun n => ⟨released_repeatSelection n queues time, ?_, repeatSelection_of_queued_le⟩, ?_,
    queues_drain queues time, placed_map_snd queues time, releasedFrom_placed queues time,
    fun ho => ⟨pairwise_placed queues time ho, drain_eq_insertionSort queues time ho⟩, ?_, ?_, ?_⟩
  · rw [selectUnpaced?_eq_none_iff, ← queued_eq_zero_iff, queued_repeatSelection]
    omega
  · rw [length_released_drain, queued_eq_length]
  · rw [htime]
    exact Ledger.le_reach _ _
  · intro q hq sample hs
    rw [htime]
    exact Ledger.endTime_le_reach _ (mem_drain_iff.mpr ⟨q, hq, sample, hs, rfl⟩)
  · rw [htime]
    refine (Ledger.reach_attained _ _).imp id ?_
    rintro ⟨s, hs, hend⟩
    obtain ⟨q, hq, sample, hsample, rfl⟩ := mem_drain_iff.mp hs
    exact ⟨q, hq, sample, hsample, hend⟩

/-- Three streams, of which the first two have samples that start at the same time. -/
def tiedStreams : List (StreamQueue Unit) :=
  [⟨1, .video, 8, 6, false, [.new 1 () 10 5 25 20 none .i420, .new 1 () 11 20 40 20 none .i420]⟩,
    ⟨2, .audio, 0, 0, true, [.new 2 () 20 5 90 85 none .i420, .new 2 () 21 5 30 25 none .i420]⟩,
    ⟨3, .audio, 0, 0, false, [.new 3 () 30 0 5 5 none .i420]⟩]

theorem tiedStreams_merged :
    InOrder tiedStreams ∧
      (drain tiedStreams 7).released.map (·.1.sample.sampleId) = [30, 10, 20, 21, 11] ∧
      (placed tiedStreams 7).map (·.1) = [2, 0, 1, 1, 0] ∧ (drain tiedStreams 7).time = 90 ∧
      (placed tiedStreams 7).Pairwise NotAfter := by
  have ho : InOrder tiedStreams := by decide
  exact ⟨ho, by decide, by decide, by decide, ((drain_merges tiedStreams 7).2.2.2.2.2.1 ho).1⟩

end Playout.Schedule
