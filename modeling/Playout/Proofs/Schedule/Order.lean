import Playout.Playback.Perform
import Playout.Proofs.Plain
import Playout.Proofs.Presentation.Queues
import Playout.Proofs.Schedule.Selection

/-!
# The order of releases

Streams are fed in the order of their own start times, and paced selection takes the earliest head
each time. A sample can then be overtaken by a later one only if its stream had nothing to offer at
that moment and had not ended, and if the gate of paced selection was open in spite of that.
-/

namespace Playout

/-- What is done to a fixed set of streams: samples are queued, streams end, and paced selection is
asked for a sample, with the length of the sink's queue if there is a sink. -/
inductive Feed (H : Platform) where
  | enqueue (sample : Sample H.Receiver)
  | endStream (s : StreamId)
  | tick (depth : Option Nat)

/-- Each stream gets its samples in the order of their start times, and none after its end. -/
def Orderly {H : Platform} (feeds : List (Feed H)) : Prop :=
  feeds.Pairwise fun
    | .enqueue a, .enqueue b => a.streamId = b.streamId → a.startTime ≤ b.startTime
    | .endStream s, .enqueue b => b.streamId ≠ s
    | _, _ => True

namespace Presentation

variable {H : Platform} {x : Presentation H} {f : Feed H} {feeds : List (Feed H)} {threshold : Nat}

/-- The presentation after a feed; a sample or an end for an unknown stream is refused. -/
def feed (threshold : Nat) (x : Presentation H) : Feed H → Presentation H
  | .enqueue sample => (x.enqueue sample).toOption.getD x
  | .endStream s => (x.endStream s).toOption.getD x
  | .tick depth =>
    ((Schedule.select? threshold x.queues x.playbackTime depth).map x.afterRelease).getD x

def release? (threshold : Nat) (x : Presentation H) : Feed H → Option (Schedule.Release H.Receiver)
  | .tick depth => Schedule.select? threshold x.queues x.playbackTime depth
  | _ => none

def releases (threshold : Nat) :
    Presentation H → List (Feed H) → List (Presentation H × Selected H.Receiver)
  | _, [] => []
  | x, f :: feeds =>
    ((x.release? threshold f).map fun r => (x, r.selected)).toList
      ++ (x.feed threshold f).releases threshold feeds

/-! ## Queues that are fed in order -/

/-- What holds of a stream as long as its feeds are orderly: its own samples are in order, and what
is still to come is later than all of them, and nothing is to come after its end. -/
structure FedInOrder (q : StreamQueue H.Receiver) (feeds : List (Feed H)) : Prop where
  own : ∀ s ∈ q.samples, s.streamId = q.id
  sorted : q.samples.Pairwise (·.startTime ≤ ·.startTime)
  ahead : ∀ s ∈ q.samples, ∀ next, .enqueue next ∈ feeds → next.streamId = q.id →
    s.startTime ≤ next.startTime
  ended : q.eos → ∀ next, .enqueue next ∈ feeds → next.streamId ≠ q.id

theorem FedInOrder.of_empty {q : StreamQueue H.Receiver} (hs : q.samples = []) (he : q.eos = false)
    (feeds : List (Feed H)) : FedInOrder q feeds := by
  constructor <;> simp [hs, he]

theorem FedInOrder.tail {q : StreamQueue H.Receiver} (h : FedInOrder q (f :: feeds)) :
    FedInOrder q feeds where
  own := h.own
  sorted := h.sorted
  ahead s hs next hn := h.ahead s hs next (List.mem_cons_of_mem f hn)
  ended he next hn := h.ended he next (List.mem_cons_of_mem f hn)

theorem FedInOrder.push {q : StreamQueue H.Receiver} {sample : Sample H.Receiver}
    (h : FedInOrder q (.enqueue sample :: feeds)) (hid : q.id = sample.streamId)
    (ho : Orderly (.enqueue sample :: feeds)) :
    FedInOrder { q with samples := q.samples ++ [sample] } feeds := by
  constructor
  · intro s hs
    rcases List.mem_append.mp hs with hold | hnew
    · exact h.own s hold
    · rw [List.mem_singleton.mp hnew, hid]
  · refine List.pairwise_append.mpr ⟨h.sorted, List.pairwise_singleton _ _, ?_⟩
    intro s hs next hn
    rw [List.mem_singleton.mp hn]
    exact h.ahead s hs sample List.mem_cons_self hid.symm
  · intro s hs next hn hto
    rcases List.mem_append.mp hs with hold | hnew
    · exact h.tail.ahead s hold next hn hto
    · rw [List.mem_singleton.mp hnew]
      exact (List.pairwise_cons.mp ho).1 _ hn (by rw [← hid, hto])
  · exact h.tail.ended

theorem FedInOrder.close {q : StreamQueue H.Receiver} (h : FedInOrder q (.endStream q.id :: feeds))
    (ho : Orderly (.endStream q.id :: feeds)) : FedInOrder { q with eos := true } feeds where
  own := h.own
  sorted := h.sorted
  ahead := h.tail.ahead
  ended _ _ hn := (List.pairwise_cons.mp ho).1 _ hn

theorem FedInOrder.pop {q : StreamQueue H.Receiver} {sample : Sample H.Receiver}
    {rest : List (Sample H.Receiver)} (h : FedInOrder q (f :: feeds))
    (hs : q.samples = sample :: rest) :
    FedInOrder { q with samples := rest } feeds := by
  have hsub : ∀ s ∈ rest, s ∈ q.samples := fun s hm => hs ▸ List.mem_cons_of_mem sample hm
  constructor
  · exact fun s hm => h.own s (hsub s hm)
  · exact (List.pairwise_cons.mp (hs ▸ h.sorted)).2
  · exact fun s hm => h.tail.ahead s (hsub s hm)
  · exact h.tail.ended

/-! ## One feed -/

inductive FedOnce : Feed H → StreamQueue H.Receiver → StreamQueue H.Receiver → Prop
  | enqueue {sample : Sample H.Receiver} {q : StreamQueue H.Receiver}
      (hid : q.id = sample.streamId) :
      FedOnce (.enqueue sample) q { q with samples := q.samples ++ [sample] }
  | endStream {q : StreamQueue H.Receiver} : FedOnce (.endStream q.id) q { q with eos := true }
  | tick {depth : Option Nat} {q : StreamQueue H.Receiver} {sample : Sample H.Receiver}
      {rest : List (Sample H.Receiver)} (hs : q.samples = sample :: rest) :
      FedOnce (.tick depth) q { q with samples := rest }

theorem FedOnce.id_eq {q q' : StreamQueue H.Receiver} (h : FedOnce f q q') : q'.id = q.id := by
  cases h <;> rfl

theorem feed_cases (threshold : Nat) (x : Presentation H) (f : Feed H) :
    x.feed threshold f = x ∨
      ∃ pre q q' post, x.queues = pre ++ q :: post ∧
        (x.feed threshold f).queues = pre ++ q' :: post ∧ FedOnce f q q' := by
  cases f with
  | enqueue sample =>
      cases he : x.enqueue sample with
      | error e => exact .inl (by simp [feed, he, Except.toOption])
      | ok y =>
          obtain ⟨pre, q, post, hsplit, -, hid, rfl⟩ := enqueue_eq_ok he
          exact .inr ⟨pre, q, _, post, hsplit, by simp [feed, he, Except.toOption], .enqueue hid⟩
  | endStream s =>
      cases he : x.endStream s with
      | error e => exact .inl (by simp [feed, he, Except.toOption])
      | ok y =>
          obtain ⟨pre, q, post, hsplit, -, rfl, rfl⟩ := endStream_eq_ok he
          exact .inr ⟨pre, q, _, post, hsplit, by simp [feed, he, Except.toOption], .endStream⟩
  | tick depth =>
      cases hs : Schedule.select? threshold x.queues x.playbackTime depth with
      | none => exact .inl (by simp [feed, hs])
      | some r =>
          obtain ⟨i, q, sample, rest, hq, hsamples, -, rfl⟩ :=
            Schedule.selectUnpaced?_eq_some (Schedule.select?_eq_some hs).1
          obtain ⟨pre, post, hsplit, -, hset⟩ := Schedule.exists_split_of_getElem? hq
          refine .inr ⟨pre, q, _, post, hsplit, ?_, .tick hsamples⟩
          simp [feed, hs, afterRelease, Schedule.takeHead, hset]

theorem streamIds_feed (threshold : Nat) (x : Presentation H) (f : Feed H) :
    (x.feed threshold f).streamIds = x.streamIds := by
  rcases feed_cases threshold x f with hsame | ⟨pre, q, q', post, hx, hy, hfed⟩
  · rw [hsame]
  · simp [streamIds, hx, hy, hfed.id_eq]

/-! ## The invariant -/

structure Fed (x : Presentation H) (feeds : List (Feed H)) : Prop where
  queues : ∀ q ∈ x.queues, FedInOrder q feeds
  orderly : Orderly feeds

theorem Fed.start (hnew : ∀ q ∈ x.queues, q.samples = [] ∧ q.eos = false) (ho : Orderly feeds) :
    Fed x feeds :=
  ⟨fun q hq => .of_empty (hnew q hq).1 (hnew q hq).2 feeds, ho⟩

theorem FedInOrder.next {q q' : StreamQueue H.Receiver} (h : FedInOrder q (f :: feeds))
    (ho : Orderly (f :: feeds)) (hfed : FedOnce f q q') : FedInOrder q' feeds := by
  cases hfed with
  | enqueue hid => exact h.push hid ho
  | endStream => exact h.close ho
  | tick hs => exact h.pop hs

theorem Fed.next (h : Fed x (f :: feeds)) : Fed (x.feed threshold f) feeds := by
  refine ⟨?_, (List.pairwise_cons.mp h.orderly).2⟩
  rcases feed_cases threshold x f with hsame | ⟨pre, q, q', post, hx, hy, hfed⟩
  · rw [hsame]
    exact fun q hq => (h.queues q hq).tail
  · have hold := h.queues
    rw [hx] at hold
    rw [hy]
    intro p hp
    rcases List.mem_append.mp hp with hpre | hp
    · exact (hold p (List.mem_append_left _ hpre)).tail
    rcases List.mem_cons.mp hp with rfl | hpost
    · exact (hold q (List.mem_append_right _ List.mem_cons_self)).next h.orderly hfed
    · exact (hold p (List.mem_append_right _ (List.mem_cons_of_mem _ hpost))).tail

/-! ## Releases -/

theorem mem_releases_cons {y : Presentation H} {b : Selected H.Receiver} :
    (y, b) ∈ x.releases threshold (f :: feeds) ↔
      (∃ r, x.release? threshold f = some r ∧ y = x ∧ b = r.selected) ∨
        (y, b) ∈ (x.feed threshold f).releases threshold feeds := by
  cases hr : x.release? threshold f with
  | none => simp [releases, hr]
  | some r => simp [releases, hr]

/-- Everything that a release tells of the presentation before it. -/
theorem release?_spec {r : Schedule.Release H.Receiver} (h : x.release? threshold f = some r) :
    ∃ depth, f = .tick depth ∧
      (∃ q ∈ x.queues, r.selected.sample ∈ q.samples) ∧
      (∀ p ∈ x.queues, ∀ s rest, p.samples = s :: rest →
        r.selected.sample.startTime ≤ s.startTime) ∧
      Schedule.mayRelease threshold (x.queues.any (·.isPending)) x.playbackTime depth
        r.selected.majorType
        r.selected.sample.startTime := by
  cases f with
  | enqueue sample => simp [release?] at h
  | endStream s => simp [release?] at h
  | tick depth =>
      obtain ⟨hunpaced, hmay⟩ := Schedule.select?_eq_some h
      obtain ⟨i, q, sample, rest, hq, hsamples, he, rfl⟩ := Schedule.selectUnpaced?_eq_some hunpaced
      refine ⟨depth, rfl, ⟨q, List.mem_of_getElem? hq, ?_⟩, ?_, hmay⟩
      · simp [Schedule.takeHead, StreamQueue.select, hsamples]
      · intro p hp s rest hs
        obtain ⟨j, hj⟩ := List.getElem?_of_mem hp
        exact he.least j s.startTime (Schedule.headAt?_of_samples hj hs)

theorem exists_queue_of_mem_releases (h : Fed x feeds) {y : Presentation H}
    {b : Selected H.Receiver}
    (hb : (y, b) ∈ x.releases threshold feeds) : b.sample.streamId ∈ x.streamIds := by
  induction feeds generalizing x with
  | nil => simp [releases] at hb
  | cons f feeds ih =>
      rcases mem_releases_cons.mp hb with ⟨r, hr, -, rfl⟩ | htail
      · obtain ⟨-, -, ⟨q, hq, hmem⟩, -, -⟩ := release?_spec hr
        rw [(h.queues q hq).own _ hmem]
        exact List.mem_map_of_mem hq
      · rw [← streamIds_feed threshold x f]
        exact ih h.next htail

/-- A bound on what a stream holds and on what it will get is a bound on what it releases. -/
theorem le_startTime_of_mem_releases {bound : UInt64} {s : StreamId} (h : Fed x feeds)
    (hheld : ∀ q ∈ x.queues, q.id = s → ∀ sample ∈ q.samples, bound ≤ sample.startTime)
    (hnext : ∀ next, .enqueue next ∈ feeds → next.streamId = s → bound ≤ next.startTime)
    {y : Presentation H} {b : Selected H.Receiver} (hb : (y, b) ∈ x.releases threshold feeds)
    (hs : b.sample.streamId = s) : bound ≤ b.sample.startTime := by
  induction feeds generalizing x with
  | nil => simp [releases] at hb
  | cons f feeds ih =>
      rcases mem_releases_cons.mp hb with ⟨r, hr, -, rfl⟩ | htail
      · obtain ⟨-, -, ⟨q, hq, hmem⟩, -, -⟩ := release?_spec hr
        exact hheld q hq (by rw [← hs, (h.queues q hq).own _ hmem]) _ hmem
      · refine ih h.next ?_ (fun next hn => hnext next (List.mem_cons_of_mem f hn)) htail
        rcases feed_cases threshold x f with hsame | ⟨pre, q, q', post, hx, hy, hfed⟩
        · rw [hsame]
          exact hheld
        · rw [hx] at hheld
          rw [hy]
          intro p hp hid sample hmem
          rcases List.mem_append.mp hp with hpre | hp
          · exact hheld p (List.mem_append_left _ hpre) hid sample hmem
          rcases List.mem_cons.mp hp with rfl | hpost
          · have hq := hheld q (List.mem_append_right _ List.mem_cons_self)
            cases hfed with
            | enqueue hto =>
                rcases List.mem_append.mp hmem with hold | hnew
                · exact hq hid sample hold
                · rw [List.mem_singleton.mp hnew]
                  exact hnext _ List.mem_cons_self (by rw [← hto, ← hid])
            | endStream => exact hq hid sample hmem
            | tick hsamples =>
                exact hq hid sample (hsamples ▸ List.mem_cons_of_mem _ hmem)
          · exact hheld p (List.mem_append_right _ (List.mem_cons_of_mem _ hpost)) hid sample hmem

/-! ## Overtaking -/

/-- What excuses the release of `a` before a sample of stream `s` that starts earlier: the stream
had nothing queued and had not ended, and the gate was open in spite of that. -/
def Excused (x : Presentation H) (a : Selected H.Receiver) (s : StreamId) : Prop :=
  (∃ q, x.queue? s = some q ∧ q.samples = [] ∧ q.eos = false) ∧
    (a.majorType = .audio ∨ x.playbackTime = 0 ∨ a.sample.startTime ≤ x.playbackTime)

/-- No sample in a queue starts earlier than the one that is released. -/
theorem startTime_le_of_release? (h : Fed x (f :: feeds)) {r : Schedule.Release H.Receiver}
    (hr : x.release? threshold f = some r) :
    ∀ q ∈ x.queues, ∀ sample ∈ q.samples, r.selected.sample.startTime ≤ sample.startTime := by
  obtain ⟨-, -, -, hleast, -⟩ := release?_spec hr
  intro q hq sample hmem
  cases hs : q.samples with
  | nil => simp [hs] at hmem
  | cons first rest =>
      have hfirst := hleast q hq first rest hs
      have hsorted := (h.queues q hq).sorted
      rw [hs] at hmem hsorted
      rcases List.mem_cons.mp hmem with rfl | hrest
      · exact hfirst
      · exact UInt64.le_trans hfirst ((List.pairwise_cons.mp hsorted).1 sample hrest)

theorem open_of_pending {depth : Option Nat} {majorType : MajorType} {start : UInt64}
    (hmay : Schedule.mayRelease threshold
      (x.queues.any (·.isPending)) x.playbackTime depth majorType start)
    {q : StreamQueue H.Receiver} (hq : q ∈ x.queues) (hs : q.samples = []) (he : q.eos = false) :
    majorType = .audio ∨ x.playbackTime = 0 ∨ start ≤ x.playbackTime := by
  have hpending : x.queues.any (·.isPending) = true :=
    List.any_eq_true.mpr ⟨q, hq, by simp [StreamQueue.isPending, hs, he]⟩
  cases majorType with
  | audio => exact .inl rfl
  | video => simpa [Schedule.mayRelease, hpending] using hmay
  | unknown => simpa [Schedule.mayRelease, hpending] using hmay

/-- The step of the argument: what can be overtaken by the release of one tick. -/
theorem excused_of_release? (h : Fed x (f :: feeds)) {r : Schedule.Release H.Receiver}
    (hr : x.release? threshold f = some r) {y : Presentation H} {b : Selected H.Receiver}
    (hb : (y, b) ∈ (x.feed threshold f).releases threshold feeds)
    (hlt : b.sample.startTime < r.selected.sample.startTime) :
    Excused x r.selected b.sample.streamId := by
  obtain ⟨depth, rfl, -, hleast, hmay⟩ := release?_spec hr
  have hlate : ∃ next, .enqueue next ∈ feeds ∧ next.streamId = b.sample.streamId ∧
      next.startTime < r.selected.sample.startTime := by
    apply Classical.byContradiction
    intro hnone
    have hle : r.selected.sample.startTime ≤ b.sample.startTime := by
      refine le_startTime_of_mem_releases h (fun q hq _ => startTime_le_of_release? h hr q hq) ?_
        (mem_releases_cons.mpr (.inr hb)) rfl
      intro next hn hto
      apply UInt64.not_lt.mp
      intro hless
      exact hnone ⟨next, by simpa using hn, hto, hless⟩
    exact UInt64.lt_irrefl _ (UInt64.lt_of_lt_of_le hlt hle)
  obtain ⟨next, hn, hto, hless⟩ := hlate
  have hmem : Feed.enqueue next ∈ Feed.tick depth :: feeds := List.mem_cons_of_mem _ hn
  obtain ⟨q, hq⟩ : ∃ q, x.queue? b.sample.streamId = some q := by
    rw [← Option.isSome_iff_exists, queue?_isSome_iff]
    have hid := exists_queue_of_mem_releases h.next hb
    rw [streamIds_feed] at hid
    exact List.mem_map.mp hid
  obtain ⟨hqmem, hid⟩ := queue?_eq_some hq
  have hempty : q.samples = [] := by
    cases hs : q.samples with
    | nil => rfl
    | cons first rest =>
        have hfirst := hleast q hqmem first rest hs
        have hafter := (h.queues q hqmem).ahead first (by simp [hs]) next hmem (by rw [hto, hid])
        exact absurd hless (UInt64.not_lt.mpr (UInt64.le_trans hfirst hafter))
  have hopen : q.eos = false := by
    cases he : q.eos with
    | false => rfl
    | true => exact absurd (by rw [hto, hid]) ((h.queues q hqmem).ended he next hmem)
  exact ⟨⟨q, hq, hempty, hopen⟩, open_of_pending hmay hqmem hempty hopen⟩

theorem releases_excused (threshold : Nat) (h : Fed x feeds) :
    (x.releases threshold feeds).Pairwise fun a b =>
      b.2.sample.startTime < a.2.sample.startTime → Excused a.1 a.2 b.2.sample.streamId := by
  induction feeds generalizing x with
  | nil => exact .nil
  | cons f feeds ih =>
      cases hr : x.release? threshold f with
      | none =>
          have hnext : Fed (x.feed threshold f) feeds := h.next
          simpa [releases, hr] using ih hnext
      | some r =>
          simp only [releases, hr, Option.map_some, Option.toList_some, List.singleton_append]
          refine List.pairwise_cons.mpr ⟨?_, ih h.next⟩
          intro b hb hlt
          exact excused_of_release? h hr hb hlt

theorem not_excused {a : Selected H.Receiver} {s : StreamId} (h : ∀ q ∈ x.queues, ¬ q.isPending) :
    ¬ Excused x a s := by
  rintro ⟨⟨q, hq, hs, he⟩, -⟩
  exact h q (queue?_eq_some hq).1 (by simp [StreamQueue.isPending, hs, he])

/-- On streams that are fed in order, a later sample overtakes an earlier one only with an excuse;
and if no stream is pending whenever something is released, the releases are in order. -/
theorem releases_overtake_only_excused (threshold : Nat) (x : Presentation H)
    (feeds : List (Feed H))
    (hnew : ∀ q ∈ x.queues, q.samples = [] ∧ q.eos = false) (ho : Orderly feeds) :
    ((x.releases threshold feeds).Pairwise fun a b =>
        b.2.sample.startTime < a.2.sample.startTime → Excused a.1 a.2 b.2.sample.streamId) ∧
      ((∀ a ∈ x.releases threshold feeds, ∀ q ∈ a.1.queues, ¬ q.isPending) →
        (x.releases threshold feeds).Pairwise fun a b =>
          a.2.sample.startTime ≤ b.2.sample.startTime) := by
  have hpairs := releases_excused threshold (Fed.start hnew ho)
  refine ⟨hpairs, fun hnone => ?_⟩
  refine hpairs.imp_of_mem fun {a b} ha _ hexcused => ?_
  apply UInt64.not_lt.mp
  intro hlt
  exact not_excused (hnone a ha) (hexcused hlt)

def videoAndAudio : Presentation .plain :=
  { Presentation.new ⟨.replicate 16 0⟩ with
    queues := [⟨1, .video, 8, 6, false, []⟩, ⟨2, .audio, 0, 0, false, []⟩] }

/-- A frame goes out at once, since nothing has played yet, and overtakes the audio that
comes later. -/
def frameThenAudio : List (Feed .plain) :=
  [.enqueue (.new 1 0 10 100 140 40 none .i420), .tick none,
    .enqueue (.new 2 0 20 50 70 20 none .i420), .endStream 2, .tick (some 3)]

theorem frameThenAudio_overtakes :
    (∀ q ∈ videoAndAudio.queues, q.samples = [] ∧ q.eos = false) ∧ Orderly frameThenAudio ∧
      (videoAndAudio.releases 10 frameThenAudio).map (·.2.sample.startTime) = [100, 50] ∧
      (videoAndAudio.releases 10 frameThenAudio).Pairwise fun a b =>
        b.2.sample.startTime < a.2.sample.startTime → Excused a.1 a.2 b.2.sample.streamId := by
  have hnew : ∀ q ∈ videoAndAudio.queues, q.samples = [] ∧ q.eos = false := by
    simp [videoAndAudio]
  have ho : Orderly frameThenAudio := by simp [Orderly, frameThenAudio, Sample.new]
  exact ⟨hnew, ho,
    by decide, (releases_overtake_only_excused 10 videoAndAudio frameThenAudio hnew ho).1⟩

end Presentation

end Playout
