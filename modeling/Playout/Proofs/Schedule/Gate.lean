import Playout.Proofs.Plain
import Playout.Proofs.Delivery.Conservation
import Playout.Proofs.Schedule.Selection

/-!
# The gate of paced selection

Paced selection looks at one sample only: the head of the first stream among those whose head starts
earliest. What follows from the lists of samples, the playback time, the threshold and the length of
the sink's queue is stated of this candidate, without the search for it.
-/

namespace Playout

namespace Schedule

variable {ρ : Type} {queues : List (StreamQueue ρ)} {threshold : Nat} {time : UInt64}
  {depth : Option Nat}

/-! ## The candidate -/

/-- The stream that was registered first among those whose head starts earliest, with its head, what
is queued behind that, and the streams that were registered before and after it. -/
structure Candidate (queues : List (StreamQueue ρ)) where
  pre : List (StreamQueue ρ)
  queue : StreamQueue ρ
  post : List (StreamQueue ρ)
  sample : Sample ρ
  rest : List (Sample ρ)
  split : queues = pre ++ queue :: post
  head : queue.samples = sample :: rest
  before : ∀ p ∈ pre, ∀ s ∈ p.samples.head?, sample.startTime < s.startTime
  after : ∀ p ∈ post, ∀ s ∈ p.samples.head?, sample.startTime ≤ s.startTime

namespace Candidate

def release (c : Candidate queues) (time : UInt64) : Release ρ where
  selected := ⟨c.sample, c.queue.majorType, c.queue.width, c.queue.height⟩
  queues := c.pre ++ { c.queue with samples := c.rest } :: c.post
  time := max time c.sample.endTime

/-- Audio goes if there is room in the sink or no sink. Everything else goes if all streams have
samples or have ended, if nothing has played yet, or if playback has got as far as the candidate. -/
def MayGo (c : Candidate queues) (threshold : Nat) (time : UInt64) (depth : Option Nat) : Prop :=
  (c.queue.majorType = .audio ∧ ∀ d, depth = some d → d < threshold) ∨
    (c.queue.majorType ≠ .audio ∧
      ((∀ q ∈ queues, q.samples ≠ [] ∨ q.eos) ∨ time = 0 ∨ c.sample.startTime ≤ time))

theorem mem_of_getElem?_split {pre post : List (StreamQueue ρ)} {q p : StreamQueue ρ} {j : Nat}
    (h : (pre ++ q :: post)[j]? = some p) :
    (j < pre.length ∧ p ∈ pre) ∨ (j = pre.length ∧ p = q) ∨ (pre.length < j ∧ p ∈ post) := by
  rcases Nat.lt_trichotomy j pre.length with hlt | rfl | hgt
  · rw [List.getElem?_append_left hlt] at h
    exact .inl ⟨hlt, List.mem_of_getElem? h⟩
  · simp only [List.getElem?_append_right (Nat.le_refl _), Nat.sub_self, List.getElem?_cons_zero,
      Option.some.injEq] at h
    exact .inr (.inl ⟨rfl, h.symm⟩)
  · obtain ⟨n, hn⟩ : ∃ n, j - pre.length = n + 1 := ⟨j - pre.length - 1, by omega⟩
    rw [List.getElem?_append_right (Nat.le_of_lt hgt), hn, List.getElem?_cons_succ] at h
    exact .inr (.inr ⟨hgt, List.mem_of_getElem? h⟩)

theorem earliestHead (c : Candidate queues) :
    EarliestHead queues c.pre.length c.sample.startTime := by
  obtain ⟨pre, q, post, sample, rest, rfl, head, before, after⟩ := c
  refine ⟨by simp [headAt?, StreamQueue.headStart?, head], ?_, ?_⟩
  · intro j other hj
    obtain ⟨p, s, more, hp, hs, rfl⟩ := headAt?_eq_some hj
    rcases mem_of_getElem?_split hp with ⟨-, hpre⟩ | ⟨-, rfl⟩ | ⟨-, hpost⟩
    · exact UInt64.le_of_lt (before p hpre s (by simp [hs]))
    · rw [head] at hs
      cases hs
      exact UInt64.le_refl _
    · exact after p hpost s (by simp [hs])
  · intro j other hlt hj
    obtain ⟨p, s, more, hp, hs, rfl⟩ := headAt?_eq_some hj
    rcases mem_of_getElem?_split hp with ⟨-, hpre⟩ | ⟨rfl, -⟩ | ⟨hgt, -⟩
    · exact before p hpre s (by simp [hs])
    · exact absurd hlt (Nat.lt_irrefl _)
    · exact absurd hlt (Nat.lt_asymm hgt)

theorem of_earliestHead {i : Nat} {start : UInt64} (h : EarliestHead queues i start) :
    Nonempty (Candidate queues) := by
  obtain ⟨q, sample, rest, hq, hs, rfl⟩ := headAt?_eq_some h.head
  obtain ⟨pre, post, hsplit, rfl, -⟩ := exists_split_of_getElem? hq
  refine ⟨⟨pre, q, post, sample, rest, hsplit, hs, ?_, ?_⟩⟩
  · intro p hp s hhead
    obtain ⟨j, hj⟩ := List.getElem?_of_mem hp
    have hlt : j < pre.length := (List.getElem?_eq_some_iff.mp hj).1
    have hj' : queues[j]? = some p := by rw [hsplit, List.getElem?_append_left hlt, hj]
    obtain ⟨more, hmore⟩ := List.head?_eq_some_iff.mp hhead
    exact h.leftmost j _ hlt (headAt?_of_samples hj' hmore)
  · intro p hp s hhead
    have hmem : p ∈ queues := hsplit ▸ List.mem_append_right _ (List.mem_cons_of_mem _ hp)
    obtain ⟨j, hj⟩ := List.getElem?_of_mem hmem
    obtain ⟨more, hmore⟩ := List.head?_eq_some_iff.mp hhead
    exact h.least j _ (headAt?_of_samples hj hmore)

theorem empty_or_nonempty (queues : List (StreamQueue ρ)) :
    (∀ q ∈ queues, q.samples = []) ∨ Nonempty (Candidate queues) := by
  rcases earliest?_spec queues with ⟨hnone, -⟩ | ⟨i, start, -, hi⟩
  · exact .inl (earliest?_eq_none_iff.mp hnone)
  · exact .inr (of_earliestHead hi)

theorem nonempty_iff : Nonempty (Candidate queues) ↔ ∃ q ∈ queues, q.samples ≠ [] := by
  constructor
  · rintro ⟨⟨pre, q, post, sample, rest, rfl, head, -, -⟩⟩
    exact ⟨q, by simp, by simp [head]⟩
  · rintro ⟨q, hq, hs⟩
    exact (empty_or_nonempty queues).resolve_left fun hempty => hs (hempty q hq)

instance : Subsingleton (Candidate queues) where
  allEq a b := by
    have hlen : a.pre.length = b.pre.length := (a.earliestHead.unique b.earliestHead).1
    obtain ⟨pre, q, post, sample, rest, hsplit, head, hbefore, hafter⟩ := a
    obtain ⟨pre', q', post', sample', rest', hsplit', head', hbefore', hafter'⟩ := b
    obtain ⟨rfl, hqs⟩ := List.append_inj (hsplit.symm.trans hsplit') hlen
    obtain ⟨rfl, rfl⟩ := List.cons.inj hqs
    obtain ⟨rfl, rfl⟩ := List.cons.inj (head.symm.trans head')
    rfl

theorem getElem?_length_pre (c : Candidate queues) : queues[c.pre.length]? = some c.queue := by
  obtain ⟨pre, q, post, sample, rest, rfl, -, -, -⟩ := c
  rw [List.getElem?_append_right (Nat.le_refl _), Nat.sub_self, List.getElem?_cons_zero]

theorem set_length_pre (c : Candidate queues) (q : StreamQueue ρ) :
    queues.set c.pre.length q = c.pre ++ q :: c.post := by
  obtain ⟨pre, q, post, sample, rest, rfl, -, -, -⟩ := c
  rw [List.set_append_right _ _ (Nat.le_refl _), Nat.sub_self, List.set_cons_zero]

theorem selectUnpaced?_eq (c : Candidate queues) (time : UInt64) :
    selectUnpaced? queues time = some (c.release time) := by
  simp only [selectUnpaced?, earliest?_eq_some_iff.mpr c.earliestHead, popAt, c.getElem?_length_pre,
    c.head, c.set_length_pre]
  rfl

theorem asksDepth_iff (c : Candidate queues) : asksDepth queues ↔ c.queue.majorType = .audio := by
  simp [asksDepth, candidate?_eq, earliest?_eq_some_iff.mpr c.earliestHead, c.getElem?_length_pre]

theorem mayRelease_iff (c : Candidate queues) :
    mayRelease threshold (queues.any (·.isPending)) time depth c.queue.majorType
      c.sample.startTime ↔
      c.MayGo threshold time depth := by
  have hpending : queues.any (·.isPending) = false ↔ ∀ q ∈ queues, q.samples ≠ [] ∨ q.eos := by
    simp [StreamQueue.isPending, Classical.or_iff_not_imp_left]
  have hroom : depth.all (· < threshold) ↔ ∀ d, depth = some d → d < threshold := by
    cases depth <;> simp
  rw [MayGo, ← hpending, ← hroom]
  cases hmajor : c.queue.majorType <;> simp [mayRelease, or_assoc]

theorem select?_eq_some_iff (c : Candidate queues) {r : Release ρ} :
    select? threshold queues time depth = some r ↔
      c.MayGo threshold time depth ∧ c.release time = r := by
  rw [select?_eq_filter, c.selectUnpaced?_eq, Option.filter_eq_some_iff, Option.some.injEq,
    ← c.mayRelease_iff]
  constructor
  · rintro ⟨rfl, hmay⟩
    exact ⟨hmay, rfl⟩
  · rintro ⟨hmay, rfl⟩
    exact ⟨rfl, hmay⟩

end Candidate

/-! ## Selection as a whole -/

theorem asksDepth_eq_true_iff :
    asksDepth queues ↔ ∃ c : Candidate queues, c.queue.majorType = .audio := by
  constructor
  · intro h
    rcases Candidate.empty_or_nonempty queues with hempty | ⟨⟨c⟩⟩
    · have hsearch := earliest?_eq_none_iff.mpr hempty
      simp [asksDepth, candidate?_eq, hsearch] at h
    · exact ⟨c, c.asksDepth_iff.mp h⟩
  · rintro ⟨c, hc⟩
    exact c.asksDepth_iff.mpr hc

theorem select?_eq_some_iff {r : Release ρ} :
    select? threshold queues time depth = some r ↔
      ∃ c : Candidate queues, c.MayGo threshold time depth ∧ c.release time = r := by
  constructor
  · intro h
    rcases Candidate.empty_or_nonempty queues with hempty | ⟨⟨c⟩⟩
    · have hsearch : selectUnpaced? queues time = none := selectUnpaced?_eq_none_iff.mpr hempty
      simp [select?_eq_filter, hsearch] at h
    · exact ⟨c, c.select?_eq_some_iff.mp h⟩
  · rintro ⟨c, hc⟩
    exact c.select?_eq_some_iff.mpr hc

/-- The length of the sink's queue is asked for exactly when the selection depends on it: a sink
whose queue has reached the threshold is not the same as no sink. -/
theorem asksDepth_eq_false_iff :
    asksDepth queues = false ↔
      ∀ d d', select? threshold queues time d = select? threshold queues time d' := by
  rw [← Bool.not_eq_true, asksDepth_eq_true_iff]
  constructor
  · intro hother d d'
    have hsame (c : Candidate queues) : c.MayGo threshold time d ↔ c.MayGo threshold time d' := by
      have hframe : c.queue.majorType ≠ .audio := fun haudio => hother ⟨c, haudio⟩
      simp [Candidate.MayGo, hframe]
    ext r
    simp only [select?_eq_some_iff, hsame]
  · rintro hsame ⟨c, haudio⟩
    have hfree : select? threshold queues time none = some (c.release time) :=
      c.select?_eq_some_iff.mpr ⟨.inl ⟨haudio, by simp⟩, rfl⟩
    rw [hsame none (some threshold)] at hfree
    obtain ⟨⟨-, hroom⟩ | ⟨hframe, -⟩, -⟩ := c.select?_eq_some_iff.mp hfree
    · exact Nat.lt_irrefl _ (hroom threshold rfl)
    · exact hframe haudio

end Schedule

def Effect.depth? {H : Platform} : Effect H → Option Nat
  | .consulted depth => some depth
  | _ => none

namespace Presentation

variable {H : Platform}

/-- What paced selection does to a presentation, whoever asks for it. The sink is asked for the
length of its queue if there is a sink and selection is interested; and the presentation stays as it
is unless something is released. -/
structure SelectsPaced (c : Surroundings H) (x : Presentation H) (move : Move H) : Prop where
  asked : move.effects.filterMap Effect.depth? =
    if Schedule.asksDepth x.queues then (x.depth? c).toList else []
  outcome : match Schedule.select? c.config.audioQueueThreshold.toNat x.queues x.playbackTime
    (x.depth? c) with
    | none => move.presentation = x ∧ Ledger.released move.effects = []
    | some r => move.presentation = { x with queues := r.queues, playbackTime := r.time } ∧
        Ledger.released move.effects = [r.selected]

variable {c : Surroundings H} {x : Presentation H}

/-- The questions of a selection, and what it says apart from them. -/
theorem select_paced (c : Surroundings H) (x : Presentation H) :
    ∃ questions, x.select c .paced =
        (Schedule.select? c.config.audioQueueThreshold.toNat x.queues x.playbackTime (x.depth? c),
          questions) ∧
      Ledger.released questions = [] ∧
      questions.filterMap Effect.depth? =
        if Schedule.asksDepth x.queues then (x.depth? c).toList else [] := by
  have hselect : x.select c .paced = ((x.select c .paced).1, (x.select c .paced).2) := rfl
  refine ⟨_, rfl, (Ledger.blank_of_quiet (select_quiet hselect)).released, ?_⟩
  split
  · cases x.depth? c <;> rfl
  · rfl

/-- The host's tick and the thread select in the same way. -/
theorem perform_of_paced {task : Task H} (h : task.pacing? = some .paced) :
    ∃ next result next',
      x.perform c task =
        match x.select c .paced with
        | (none, effects) => .moves { presentation := x, next, effects, result }
        | (some r, effects) =>
          (x.afterRelease r).going (.dispatch r.selected :: next')
          (effects ++ [.released r.selected]) := by
  unfold Task.pacing? at h
  split at h
  · cases h
    exact ⟨[], some (.ok ()), [.finish], rfl⟩
  · exact ⟨[.playback .resting], none, [.playback .polling], rfl⟩
  · cases h
  · cases h

theorem selectsPaced_of_perform {task : Task H} (h : task.pacing? = some .paced) :
    ∃ move, x.perform c task = .moves move ∧ SelectsPaced c x move := by
  obtain ⟨questions, hselect, hquiet, hasked⟩ := select_paced c x
  obtain ⟨next, result, next', hperform⟩ := perform_of_paced (c := c) (x := x) h
  rw [hselect] at hperform
  cases hs : Schedule.select? c.config.audioQueueThreshold.toNat x.queues x.playbackTime
    (x.depth? c) with
  | none =>
      rw [hs] at hperform
      exact ⟨_, hperform, hasked, by simp [hs, hquiet]⟩
  | some r =>
      rw [hs] at hperform
      have hasked' : (questions ++ [Effect.released r.selected]).filterMap Effect.depth? =
          questions.filterMap Effect.depth? :=
        List.filterMap_append.trans (List.append_nil _)
      have hreleased : Ledger.released (questions ++ [.released r.selected]) = [r.selected] := by
        rw [Ledger.released_append, hquiet]
        rfl
      exact ⟨_, hperform, hasked'.trans hasked, by simp [hs, afterRelease, hreleased]⟩

end Presentation

namespace Schedule

/-- One paced selection from any queues, at any playback time, with any threshold and any answer of
the sink. There is one candidate, unless there is no sample. The sink's answer is asked for exactly
when the candidate is audio, which is when it makes a difference. Something is released exactly when
the candidate may go, and then it is the candidate's head that is taken, and nothing else changes
apart from the playback time. Whoever makes this selection leaves a presentation as it was if
nothing is released. -/
theorem pacedSelection_exact {ρ : Type} (threshold : Nat) (queues : List (StreamQueue ρ))
    (time : UInt64) (depth : Option Nat) :
    Subsingleton (Candidate queues) ∧
      (Nonempty (Candidate queues) ↔ ∃ q ∈ queues, q.samples ≠ []) ∧
      (asksDepth queues ↔ ∃ c : Candidate queues, c.queue.majorType = .audio) ∧
      (asksDepth queues = false ↔
        ∀ d d', select? threshold queues time d = select? threshold queues time d') ∧
      (∀ r, select? threshold queues time depth = some r ↔
        ∃ c : Candidate queues, c.MayGo threshold time depth ∧ c.release time = r) ∧
      ∀ {H : Platform} (c : Surroundings H) (x : Presentation H) (task : Task H),
        task.pacing? = some .paced → ∃ move, x.perform c task = .moves move ∧
          x.SelectsPaced c move :=
  ⟨inferInstance, Candidate.nonempty_iff, asksDepth_eq_true_iff, asksDepth_eq_false_iff,
    fun _ => select?_eq_some_iff, fun _ _ _ => Presentation.selectsPaced_of_perform⟩

/-- A frame at 100 time units, of which 50 have been played, and an audio stream that has
nothing to offer. -/
def frameTooEarly : Presentation .plain :=
  { Presentation.new ⟨.replicate 16 0⟩ with
    playbackTime := 50
    queues := [⟨1, .video, 8, 6, false, [.new 1 0 10 100 140 40 none .i420]⟩,
      ⟨2, .audio, 0, 0, false, []⟩] }

def hostTicks : Surroundings .plain :=
  ⟨.standard, .standardDecoders (), .empty, 0, 1, fun _ => false, true, .plain⟩

theorem frameTooEarly_held :
    (Task.tick .paced : Task .plain).pacing? = some .paced ∧
      select? 10 frameTooEarly.queues frameTooEarly.playbackTime none = none ∧
      ∃ move, frameTooEarly.perform hostTicks (.tick .paced) = .moves move ∧
        frameTooEarly.SelectsPaced hostTicks move := by
  have hexact := pacedSelection_exact 10 frameTooEarly.queues frameTooEarly.playbackTime none
  exact ⟨rfl, by decide, hexact.2.2.2.2.2 hostTicks frameTooEarly (.tick .paced) rfl⟩

end Schedule

end Playout
