import Mathlib.Data.List.Induction
import Playout.Schedule

/-!
# One selection

The two scans for the earliest head agree: both end at the leftmost position of the least start
time. Both selections take the head found there and leave everything else alone; paced selection is
unpaced selection behind one condition, so that a candidate is either released or withheld and never
replaced by another one.
-/

namespace Playout.Schedule

variable {ρ : Type} {queues : List (StreamQueue ρ)} {time : UInt64}

/-! ## The earliest head -/

def headAt? (queues : List (StreamQueue ρ)) (i : Nat) : Option UInt64 :=
  queues[i]?.bind (·.headStart?)

@[simp] theorem headAt?_nil (i : Nat) : headAt? ([] : List (StreamQueue ρ)) i = none := rfl

@[simp] theorem headAt?_zero (q : StreamQueue ρ) (queues : List (StreamQueue ρ)) :
    headAt? (q :: queues) 0 = q.headStart? := rfl

@[simp] theorem headAt?_succ (q : StreamQueue ρ) (queues : List (StreamQueue ρ)) (i : Nat) :
    headAt? (q :: queues) (i + 1) = headAt? queues i := rfl

theorem headAt?_eq_some {i : Nat} {start : UInt64} (h : headAt? queues i = some start) :
    ∃ q sample rest, queues[i]? = some q ∧ q.samples = sample :: rest ∧
      sample.startTime = start := by
  obtain ⟨q, hq, hs⟩ := Option.bind_eq_some_iff.mp h
  obtain ⟨sample, hh, rfl⟩ := Option.map_eq_some_iff.mp hs
  obtain ⟨rest, hr⟩ := List.head?_eq_some_iff.mp hh
  exact ⟨q, sample, rest, hq, hr, rfl⟩

theorem headAt?_of_samples {i : Nat} {q : StreamQueue ρ} {sample : Sample ρ}
    {rest : List (Sample ρ)} (hq : queues[i]? = some q) (hs : q.samples = sample :: rest) :
    headAt? queues i = some sample.startTime := by
  simp [headAt?, hq, StreamQueue.headStart?, hs]

theorem headStart?_eq_none_iff {q : StreamQueue ρ} : q.headStart? = none ↔ q.samples = [] := by
  simp [StreamQueue.headStart?]

/-- `EarliestHead queues i start` says that `i` is the leftmost position whose head attains the
least start time, and that `start` is this time. -/
structure EarliestHead (queues : List (StreamQueue ρ)) (i : Nat) (start : UInt64) : Prop where
  head : headAt? queues i = some start
  least : ∀ j other, headAt? queues j = some other → start ≤ other
  leftmost : ∀ j other, j < i → headAt? queues j = some other → start < other

theorem EarliestHead.unique {i j : Nat} {s t : UInt64} (hi : EarliestHead queues i s)
    (hj : EarliestHead queues j t) : i = j ∧ s = t := by
  have hst : s = t := UInt64.le_antisymm (hi.least j t hj.head) (hj.least i s hi.head)
  refine ⟨?_, hst⟩
  rcases Nat.lt_trichotomy i j with hlt | heq | hgt
  · exact absurd (hj.leftmost i s hlt hi.head) (by rw [hst]; exact UInt64.lt_irrefl t)
  · exact heq
  · exact absurd (hi.leftmost j t hgt hj.head) (by rw [hst]; exact UInt64.lt_irrefl t)

theorem headAt?_append_left {i : Nat} (h : i < queues.length) (more : List (StreamQueue ρ)) :
    headAt? (queues ++ more) i = headAt? queues i := by
  rw [headAt?, List.getElem?_append_left h, headAt?]

theorem lt_length_of_headAt? {i : Nat} {start : UInt64} (h : headAt? queues i = some start) :
    i < queues.length := by
  obtain ⟨q, sample, rest, hq, -, -⟩ := headAt?_eq_some h
  exact (List.getElem?_eq_some_iff.mp hq).1

/-- The head at a position with one stream more: of an older stream or of the new one. -/
theorem headAt?_snoc {q : StreamQueue ρ} {i : Nat} {start : UInt64}
    (h : headAt? (queues ++ [q]) i = some start) :
    headAt? queues i = some start ∨ i = queues.length ∧ q.headStart? = some start := by
  have hlt := lt_length_of_headAt? h
  rw [List.length_append, List.length_singleton] at hlt
  rcases Nat.lt_succ_iff_lt_or_eq.mp hlt with hold | rfl
  · exact .inl (by rwa [headAt?_append_left hold] at h)
  · exact .inr ⟨rfl, by simpa [headAt?] using h⟩

/-- The earliest head stays where it is unless the new stream has a head that is
strictly earlier. -/
theorem EarliestHead.snoc {q : StreamQueue ρ} {i : Nat} {start : UInt64}
    (h : EarliestHead queues i start)
    (hq : ∀ s, q.headStart? = some s → start ≤ s) : EarliestHead (queues ++ [q]) i start := by
  have hi : i < queues.length := lt_length_of_headAt? h.head
  refine ⟨by rw [headAt?_append_left hi, h.head], ?_, ?_⟩
  · intro j other hj
    rcases headAt?_snoc hj with hold | ⟨-, hnew⟩
    · exact h.least j other hold
    · exact hq other hnew
  · intro j other hlt hj
    rw [headAt?_append_left (by omega)] at hj
    exact h.leftmost j other hlt hj

theorem EarliestHead.last {q : StreamQueue ρ} {start : UInt64} (hq : q.headStart? = some start)
    (hrest : ∀ j other, headAt? queues j = some other → start < other) :
    EarliestHead (queues ++ [q]) queues.length start := by
  refine ⟨by simp [headAt?, hq], ?_, ?_⟩
  · intro j other hj
    rcases headAt?_snoc hj with hold | ⟨-, hnew⟩
    · exact UInt64.le_of_lt (hrest j other hold)
    · rw [hq] at hnew
      cases hnew
      exact UInt64.le_refl start
  · intro j other hlt hj
    rw [headAt?_append_left hlt] at hj
    exact hrest j other hj

theorem earliest?_snoc (queues : List (StreamQueue ρ)) (q : StreamQueue ρ) :
    earliest? (queues ++ [q]) = nearer (earliest? queues) (q, queues.length) := by
  simp [earliest?, List.zipIdx_append]

/-- The scan keeps the earliest head of the streams it has passed. -/
theorem earliest?_spec (queues : List (StreamQueue ρ)) :
    (earliest? queues = none ∧ ∀ i, headAt? queues i = none) ∨
      ∃ i start, earliest? queues = some (i, start) ∧ EarliestHead queues i start := by
  induction queues using List.reverseRecOn with
  | nil => exact .inl ⟨rfl, headAt?_nil⟩
  | append_singleton queues q ih =>
      rw [earliest?_snoc]
      cases hq : q.headStart? with
      | none =>
          rcases ih with ⟨hn, hall⟩ | ⟨i, start, hs, he⟩
          · refine .inl ⟨by simp [nearer, hq, hn], fun i => ?_⟩
            rw [Option.eq_none_iff_forall_ne_some]
            intro start hstart
            rcases headAt?_snoc hstart with hold | ⟨-, hnew⟩
            · simp [hall i] at hold
            · simp [hq] at hnew
          · exact .inr ⟨i, start, by simp [nearer, hq, hs], he.snoc (fun s h => by simp [hq] at h)⟩
      | some front =>
          right
          rcases ih with ⟨hn, hall⟩ | ⟨i, best, hs, he⟩
          · exact ⟨queues.length, front, by simp [nearer, hq, hn],
              .last hq (fun j other h => by simp [hall j] at h)⟩
          · by_cases hlt : front < best
            · exact ⟨queues.length, front, by simp [nearer, hq, hs, hlt],
                .last hq (fun j other h => UInt64.lt_of_lt_of_le hlt (he.least j other h))⟩
            · exact ⟨i, best, by simp [nearer, hq, hs, hlt], he.snoc (fun s h => by
                rw [hq] at h
                cases h
                exact UInt64.not_lt.mp hlt)⟩

theorem earliest?_eq_some_iff {i : Nat} {start : UInt64} :
    earliest? queues = some (i, start) ↔ EarliestHead queues i start := by
  rcases earliest?_spec queues with ⟨hn, hall⟩ | ⟨j, other, hs, he⟩
  · constructor
    · intro h
      simp [hn] at h
    · intro h
      have hhead := h.head
      simp [hall i] at hhead
  · rw [hs]
    constructor
    · intro h
      cases h
      exact he
    · intro h
      obtain ⟨rfl, rfl⟩ := he.unique h
      rfl

/-- There is no earliest head exactly if every queue is empty. -/
theorem earliest?_eq_none_iff : earliest? queues = none ↔ ∀ q ∈ queues, q.samples = [] := by
  constructor
  · intro h q hq
    rcases earliest?_spec queues with ⟨-, hall⟩ | ⟨i, start, hs, -⟩
    · obtain ⟨i, hi⟩ := List.getElem?_of_mem hq
      have hhead := hall i
      rw [headAt?, hi, Option.bind_some] at hhead
      exact headStart?_eq_none_iff.mp hhead
    · simp [hs] at h
  · intro h
    rcases earliest?_spec queues with ⟨hn, -⟩ | ⟨i, start, -, he⟩
    · exact hn
    · obtain ⟨q, sample, rest, hq, hsamples, -⟩ := headAt?_eq_some he.head
      simp [h q (List.mem_of_getElem? hq)] at hsamples

/-! ## The scan of paced selection -/

/-- Over the streams it has passed, the scan of paced selection agrees with that of
unpaced selection. -/
theorem foldl_next (passed left : List (StreamQueue ρ)) :
    passed.zipIdx.foldl (Found.next (passed ++ left)) ⟨none, false⟩ =
      ⟨(earliest? passed).map (·.1), passed.any (·.isPending)⟩ := by
  induction passed using List.reverseRecOn generalizing left with
  | nil => rfl
  | append_singleton passed q ih =>
      have hpassed := ih (q :: left)
      -- The lookup in all streams finds the head that the scan has kept.
      have hbest : ((earliest? passed).map (·.1)).bind
          (fun e => (passed ++ q :: left)[e]?.bind (·.headStart?)) =
          (earliest? passed).map (·.2) := by
        rcases earliest?_spec passed with ⟨hn, -⟩ | ⟨e, best, hs, he⟩
        · rw [hn]
          rfl
        · have hlookup := headAt?_append_left (lt_length_of_headAt? he.head) (q :: left)
          rw [he.head] at hlookup
          rw [hs]
          exact hlookup
      rw [List.append_assoc, List.singleton_append, List.zipIdx_append, List.foldl_append, hpassed,
        earliest?_snoc, List.any_append]
      simp only [List.zipIdx_singleton, List.foldl_cons, List.foldl_nil, Found.next, hbest, nearer,
        Nat.zero_add, List.any_cons, List.any_nil, Bool.or_false]
      cases hq : q.headStart? with
      | none =>
          have hempty := headStart?_eq_none_iff.mp hq
          cases heos : q.eos <;> simp [StreamQueue.isPending, hempty, heos]
      | some start =>
          have hsamples : q.samples ≠ [] := fun h => by simp [headStart?_eq_none_iff.mpr h] at hq
          cases earliest? passed with
          | none => simp [StreamQueue.isPending, hsamples]
          | some best =>
              by_cases hlt : start < best.2 <;> simp [StreamQueue.isPending, hsamples, hlt]

theorem search_eq (queues : List (StreamQueue ρ)) :
    search queues = ⟨(earliest? queues).map (·.1), queues.any (·.isPending)⟩ := by
  simpa [search] using foldl_next queues []

theorem candidate?_eq (queues : List (StreamQueue ρ)) :
    candidate? queues = (earliest? queues).bind fun (i, _) => queues[i]? := by
  rw [candidate?, search_eq]
  cases earliest? queues <;> rfl

/-! ## Taking the head -/

/-- The release of the head `sample` of the stream `q` at position `i`. -/
def takeHead (queues : List (StreamQueue ρ)) (time : UInt64) (i : Nat) (q : StreamQueue ρ)
    (sample : Sample ρ) (rest : List (Sample ρ)) : Release ρ :=
  ⟨q.select sample, queues.set i { q with samples := rest }, max time sample.endTime⟩

theorem exists_split_of_getElem? {i : Nat} {q : StreamQueue ρ} (h : queues[i]? = some q) :
    ∃ pre post, queues = pre ++ q :: post ∧ pre.length = i ∧
      ∀ q', queues.set i q' = pre ++ q' :: post := by
  obtain ⟨hlt, rfl⟩ := List.getElem?_eq_some_iff.mp h
  refine ⟨queues.take i, queues.drop (i + 1), ?_, ?_, ?_⟩
  · rw [← List.drop_eq_getElem_cons hlt, List.take_append_drop]
  · rw [List.length_take]
    omega
  · intro q'
    rw [List.set_eq_take_append_cons_drop, if_pos hlt]

/-- Everything that unpaced selection can do: it takes the earliest head. -/
theorem selectUnpaced?_eq_some {r : Release ρ} (h : selectUnpaced? queues time = some r) :
    ∃ i q sample rest, queues[i]? = some q ∧ q.samples = sample :: rest ∧
      EarliestHead queues i sample.startTime ∧ r = takeHead queues time i q sample rest := by
  rcases earliest?_spec queues with ⟨hn, -⟩ | ⟨i, start, hs, he⟩
  · simp [selectUnpaced?, hn] at h
  · obtain ⟨q, sample, rest, hq, hsamples, rfl⟩ := headAt?_eq_some he.head
    refine ⟨i, q, sample, rest, hq, hsamples, he, ?_⟩
    simp only [selectUnpaced?, hs, popAt, hq, hsamples, Option.some.injEq] at h
    exact h.symm

theorem selectUnpaced?_eq_none_iff :
    selectUnpaced? queues time = none ↔ ∀ q ∈ queues, q.samples = [] := by
  rw [← earliest?_eq_none_iff]
  rcases earliest?_spec queues with ⟨hn, -⟩ | ⟨i, start, hs, he⟩
  · simp [selectUnpaced?, hn]
  · obtain ⟨q, sample, rest, hq, hsamples, rfl⟩ := headAt?_eq_some he.head
    simp [selectUnpaced?, hs, popAt, hq, hsamples]

/-- Paced selection releases the sample that unpaced selection would release, or nothing. -/
theorem select?_eq_filter (threshold : Nat) (queues : List (StreamQueue ρ)) (time : UInt64)
    (depth : Option Nat) :
    select? threshold queues time depth =
      (selectUnpaced? queues time).filter fun r =>
        mayRelease threshold (queues.any (·.isPending)) time depth r.selected.majorType
          r.selected.sample.startTime := by
  rcases earliest?_spec queues with ⟨hn, -⟩ | ⟨i, start, hs, he⟩
  · simp [select?, search_eq, selectUnpaced?, hn]
  · obtain ⟨q, sample, rest, hq, hsamples, rfl⟩ := headAt?_eq_some he.head
    simp [select?, search_eq, selectUnpaced?, hs, hq, popAt, hsamples, StreamQueue.headStart?,
      StreamQueue.select, Option.filter_some]

theorem select?_eq_some {threshold : Nat} {depth : Option Nat} {r : Release ρ}
    (h : select? threshold queues time depth = some r) :
    selectUnpaced? queues time = some r ∧
      mayRelease threshold (queues.any (·.isPending)) time depth r.selected.majorType
        r.selected.sample.startTime := by
  rw [select?_eq_filter] at h
  exact Option.filter_eq_some_iff.mp h

/-! ## The samples that are left -/

theorem queued_eq_zero_iff : queued queues = 0 ↔ ∀ q ∈ queues, q.samples = [] := by
  induction queues with
  | nil => simp [queued]
  | cons q queues ih => simp [queued, ih, List.length_eq_zero_iff]

theorem queued_set {i : Nat} {q : StreamQueue ρ} {sample : Sample ρ} {rest : List (Sample ρ)}
    (hq : queues[i]? = some q) (hs : q.samples = sample :: rest) :
    queued queues = queued (queues.set i { q with samples := rest }) + 1 := by
  induction queues generalizing i with
  | nil => simp at hq
  | cons p queues ih =>
      cases i with
      | zero =>
          simp only [List.getElem?_cons_zero, Option.some.injEq] at hq
          subst hq
          simp only [queued, List.set_cons_zero, hs, List.length_cons]
          omega
      | succ i =>
          have hrest := ih (i := i) hq
          simp only [queued, List.set_cons_succ] at hrest ⊢
          omega

/-- A release takes exactly one sample out of the queues. -/
theorem queued_of_selectUnpaced? {r : Release ρ} (h : selectUnpaced? queues time = some r) :
    queued queues = queued r.queues + 1 := by
  obtain ⟨i, q, sample, rest, hq, hs, -, rfl⟩ := selectUnpaced?_eq_some h
  exact queued_set hq hs

end Playout.Schedule
