import Mathlib.Data.List.Nodup
import Playout.Proofs.Lifecycle.Removal
import Playout.Proofs.Playback.PlaybackTime

/-!
# The tables of streams

A presentation has two tables of its streams: the queues, whose order decides between samples that
start at the same time, and the registrations, which say where the streams are. Whatever is done to
a presentation, both hold the same numbers in the same order, that of creation, and no number twice.
So a number is found in either table or in none, the first entry with a number is the only one, and
a change to one stream leaves the others alone.
-/

namespace Playout

variable {H : Platform}

namespace Task

/-- The registered numbers after a task, by those before it. Giving up the last reference to a
presentation unregisters all of its streams. -/
def enroll (alive : Bool) (live : List StreamId) : Task H → List StreamId
  | .createStream s => if s ∈ live then live else live ++ [s]
  | .detachStream s => live.filter (· != s)
  | .detachStreams => []
  | .reclaim => if alive then live else []
  | _ => live

/-- The task may change the queue of the stream with this number. A task that is addressed to one
stream reaches no other. -/
def reaches (x : Presentation H) (u : StreamId) : Task H → Bool
  | .createStream s => s == u
  | .detachStream s => s == u
  | .setFormat place _ _ => x.numberAt? place == some u
  | .enqueue sample => sample.streamId == u
  | .endStream place => x.numberAt? place == some u
  | .detachStreams => true
  | .clearQueues => true
  | .reclaim => true
  | t => t.pacing?.isSome

/-- The task is about registrations, or about what a queue says of its stream. -/
def isTabular : Task H → Bool
  | .createStream _ => true
  | .detachStream _ => true
  | .detachStreams => true
  | .setFormat .. => true
  | .enqueue _ => true
  | .endStream _ => true
  | .clearQueues => true
  | .reclaim => true
  | _ => false

theorem enroll_of_other {t : Task H} (h : t.isTabular = false) (alive : Bool)
    (live : List StreamId) :
    t.enroll alive live = live := by
  cases t <;> first | rfl | cases h

end Task

namespace Presentation

variable {c : Surroundings H} {x y : Presentation H} {task : Task H} {live : List StreamId}
  {s u : StreamId}

/-- Both tables hold the streams with these numbers, and each registration leads to its stream. -/
structure Tables (x : Presentation H) (live : List StreamId) : Prop where
  distinct : live.Nodup
  queues : x.streamIds = live
  handles : x.handles.map (·.1) = live
  placed : x.Placed

namespace Tables

theorem new (id : PresentationId) : (Presentation.new id : Presentation H).Tables [] :=
  ⟨List.nodup_nil, rfl, rfl, fun _ h => absurd h List.not_mem_nil⟩

theorem findStream?_eq_none_iff (h : x.Tables live) : x.findStream? s = none ↔ s ∉ live := by
  rw [← h.handles, findStream?, List.lookup_eq_none_iff]
  simp only [List.mem_map, not_exists, not_and]
  exact forall₂_congr fun handle _ => bne_iff_ne.trans ne_comm

theorem exists_place (h : x.Tables live) (hs : s ∈ live) : ∃ place, x.findStream? s = some place :=
  Option.ne_none_iff_exists'.mp fun hnone => h.findStream?_eq_none_iff.mp hnone hs

theorem place_eq {place other : Nat} (h : x.Tables live) (hplace : (s, place) ∈ x.handles)
    (hother : (s, other) ∈ x.handles) : place = other := by
  have hnodup : (x.handles.map (·.1)).Nodup := h.handles ▸ h.distinct
  exact congrArg (·.2) (List.inj_on_of_nodup_map hnodup hplace hother rfl)

theorem number_eq {place : Nat} (h : x.Tables live) (hs : (s, place) ∈ x.handles)
    (hu : (u, place) ∈ x.handles) : s = u :=
  Option.some.inj ((h.placed _ hs).symm.trans (h.placed _ hu))

end Tables

structure Retables (alive : Bool) (x : Presentation H) (task : Task H) (y : Presentation H) :
    Prop where
  tables : ∀ live, x.Tables live → y.Tables (task.enroll alive live)
  apart : ∀ u, task.reaches x u = false → y.queue? u = x.queue? u

namespace Retables

variable {alive : Bool}

theorem of_ids (hids : y.streamIds = x.streamIds) (hhandles : y.handles = x.handles)
    (hplaced : x.Placed → y.Placed) (hlive : ∀ live, x.Tables live → task.enroll alive live = live)
    (hqueues : ∀ u, task.reaches x u = false → y.queue? u = x.queue? u) :
    Retables alive x task y where
  tables live h := by
    rw [hlive live h]
    exact ⟨h.distinct, hids.trans h.queues, hhandles ▸ h.handles, hplaced h.placed⟩
  apart := hqueues

theorem of_same (hqueues : y.queues = x.queues) (hhandles : y.handles = x.handles)
    (hplaced : x.Placed → y.Placed)
    (hlive : ∀ live, x.Tables live → task.enroll alive live = live) :
    Retables alive x task y :=
  of_ids (by rw [streamIds, streamIds, hqueues]) hhandles hplaced hlive fun u _ => by
    rw [queue?, queue?, hqueues]

/-- The queue of one stream has been changed, but not in its number. -/
theorem of_revise {pre post : List (StreamQueue H.Receiver)} {q q' : StreamQueue H.Receiver}
    (hx : x.queues = pre ++ q :: post) (hy : y.queues = pre ++ q' :: post) (hid : q'.id = q.id)
    (hhandles : y.handles = x.handles) (hplaced : x.Placed → y.Placed)
    (hlive : ∀ live, x.Tables live → task.enroll alive live = live)
    (hreaches : ∀ u, task.reaches x u = false → u ≠ q.id) : Retables alive x task y :=
  of_ids (by simp [streamIds, hx, hy, hid]) hhandles hplaced hlive fun u hu =>
    queue?_revise hx hy hid (hreaches u hu)

theorem of_none (hqueues : y.queues = []) (hhandles : y.handles = [])
    (hlive : ∀ live, task.enroll alive live = [])
    (hreaches : ∀ u, task.reaches x u) : Retables alive x task y where
  tables live _ := by
    rw [hlive live]
    exact ⟨List.nodup_nil,
      by simp [streamIds, hqueues], by simp [hhandles], by simp [Placed, hhandles]⟩
  apart u hu := by simp [hreaches u] at hu

theorem of_createStream {place : Nat} (hnew : x.findStream? s = none)
    (hqueues : y.queues = x.queues ++ [.new s])
    (hhandles : y.handles = x.handles ++ [(s, place)]) (hplaced : x.Placed → y.Placed) :
    Retables alive x (.createStream s) y where
  tables live h := by
    have hs : s ∉ live := h.findStream?_eq_none_iff.mp hnew
    have henroll : Task.enroll alive live (.createStream s : Task H) = live ++ [s] := if_neg hs
    rw [henroll]
    refine ⟨?_, ?_, ?_, hplaced h.placed⟩
    · exact List.nodup_append.mpr ⟨h.distinct, by simp, by
        rintro t ht other hother rfl
        exact hs (List.mem_singleton.mp hother ▸ ht)⟩
    · simp [streamIds, hqueues, StreamQueue.new, ← h.queues]
    · simp [hhandles, h.handles]
  apart u hu := queue?_register hqueues (Ne.symm (by simpa [Task.reaches] using hu))

theorem of_detachStream (hqueues : y.queues = x.queues.filter (·.id != s))
    (hhandles : y.handles = x.handles.filter (·.1 != s)) (hplaced : x.Placed → y.Placed) :
    Retables alive x (.detachStream s) y where
  tables live h := by
    refine ⟨h.distinct.filter _, ?_, ?_, hplaced h.placed⟩
    · rw [streamIds, hqueues, Task.enroll, ← h.queues, streamIds, List.filter_map]
      rfl
    · rw [hhandles, Task.enroll, ← h.handles, List.filter_map]
      rfl
  apart u hu := queue?_detach hqueues (Ne.symm (by simpa [Task.reaches] using hu))

end Retables

theorem createStream_retables {move : Move H} (h : x.perform c (.createStream s) = .moves move) :
    Retables c.alive x (.createStream s) move.presentation := by
  have hplaced := (createStream_lasts h).placed
  simp only [perform, createStream] at h
  cases hs : x.findStream? s with
  | none =>
      simp only [hs, Option.isSome_none, Bool.false_eq_true, if_false] at h
      cases h
      exact .of_createStream hs rfl rfl hplaced
  | some place =>
      simp only [hs, Option.isSome_some, if_true] at h
      cases h
      refine .of_same rfl rfl hplaced fun live hx => if_pos ?_
      by_contra hnot
      rw [hx.findStream?_eq_none_iff.mpr hnot] at hs
      cases hs

theorem detachStream_retables {move : Move H} (h : x.perform c (.detachStream s) = .moves move) :
    Retables c.alive x (.detachStream s) move.presentation := by
  have hplaced := (detachStream_lasts h).placed
  simp only [perform, detachStream] at h
  cases hs : x.findStream? s with
  | none =>
      simp only [hs] at h
      cases h
      refine .of_same rfl rfl hplaced fun live hx => List.filter_eq_self.mpr fun t ht => ?_
      have hnot := hx.findStream?_eq_none_iff.mp hs
      simpa using fun heq : t = s => hnot (heq ▸ ht)
  | some place =>
      simp only [hs] at h
      cases h
      exact .of_detachStream rfl rfl hplaced

theorem throughHandle_number {place : Nat} {f : StreamId → Outcome H} {move : Move H}
    (h : x.throughHandle c place f = .moves move) :
    (∃ s, x.numberAt? place = some s ∧ f s = .moves move) ∨ move.presentation = x := by
  unfold throughHandle at h
  split at h
  · rename_i stream _ hstream
    exact .inl ⟨stream.id, by simp [numberAt?, hstream], h⟩
  · cases h
    exact .inr rfl

theorem setFormat_retables {place : Nat} {decoder : Option String} {media : MediaType}
    {move : Move H} (h : x.perform c (.setFormat place decoder media) = .moves move) :
    Retables c.alive x (.setFormat place decoder media) move.presentation := by
  have hplaced := (setFormat_lasts h).placed
  simp only [perform] at h
  rcases throughHandle_number h with ⟨s, hs, hmove⟩ | hsame
  · split at hmove
    · cases hmove
      exact .of_same rfl rfl hplaced fun _ _ => rfl
    · rename_i y hy
      obtain ⟨pre, q, post, hsplit, -, rfl, rfl⟩ := configure_eq_ok hy
      cases hmove
      refine .of_revise hsplit rfl rfl rfl hplaced (fun _ _ => rfl) fun u hu => ?_
      simpa [Task.reaches, hs] using Ne.symm (by simpa [Task.reaches, hs] using hu)
  · rw [hsame] at hplaced ⊢
    exact .of_same rfl rfl hplaced fun _ _ => rfl

theorem endStream_retables {place : Nat} {move : Move H}
    (h : x.perform c (.endStream place) = .moves move) :
    Retables c.alive x (.endStream place) move.presentation := by
  have hplaced := (endStream_lasts h).placed
  simp only [perform] at h
  rcases throughHandle_number h with ⟨s, hs, hmove⟩ | hsame
  · split at hmove
    · cases hmove
      exact .of_same rfl rfl hplaced fun _ _ => rfl
    · rename_i y hy
      obtain ⟨pre, q, post, hsplit, -, rfl, rfl⟩ := endStream_eq_ok hy
      cases hmove
      refine .of_revise hsplit rfl rfl rfl hplaced (fun _ _ => rfl) fun u hu => ?_
      simpa [Task.reaches, hs] using Ne.symm (by simpa [Task.reaches, hs] using hu)
  · rw [hsame] at hplaced ⊢
    exact .of_same rfl rfl hplaced fun _ _ => rfl

theorem enqueue_retables {sample : Sample H.Receiver} {move : Move H}
    (h : x.perform c (.enqueue sample) = .moves move) :
    Retables c.alive x (.enqueue sample) move.presentation := by
  have hplaced := (perform_lasts rfl h).placed
  simp only [perform] at h
  split at h
  · cases h
    exact .of_same rfl rfl hplaced fun _ _ => rfl
  · rename_i y hy
    obtain ⟨pre, q, post, hsplit, -, hid, rfl⟩ := enqueue_eq_ok hy
    cases h
    refine .of_revise hsplit rfl rfl rfl hplaced (fun _ _ => rfl) fun u hu => ?_
    rw [hid]
    exact Ne.symm (by simpa [Task.reaches] using hu)

theorem reclaim_retables {move : Move H} (h : x.perform c .reclaim = .moves move) :
    Retables c.alive x .reclaim move.presentation := by
  have hplaced := (reclaim_lasts h).placed
  simp only [perform] at h
  split at h
  · rename_i halive
    cases h
    exact .of_same rfl rfl hplaced fun _ _ => if_pos halive
  · rename_i hgone
    cases h
    exact .of_none rfl rfl (fun _ => if_neg hgone) fun _ => rfl

theorem Conduct.tables_kept {move : Move H} (h : Conduct c x task (.moves move))
    (hother : task.isTabular = false) :
    move.presentation.queues = x.queues ∧ move.presentation.handles = x.handles := by
  generalize ho : Outcome.moves move = o at h
  cases h with
  | waits => cases ho
  | plain _ _ hkept =>
      cases ho
      exact ⟨hkept.queues, hkept.handles⟩
  | releaseDecoder hkept =>
      cases ho
      exact ⟨hkept.queues, hkept.handles⟩
  | decode hkept =>
      cases ho
      exact ⟨hkept.queues, hkept.handles⟩
  | enqueue | createStream | detachStream | detachStreams | setFormat | endStream | clearQueues
  | reclaim =>
      cases hother
  | _ =>
      cases ho
      exact ⟨rfl, rfl⟩

theorem streamIds_afterRelease {pacing : Pacing} {r : Schedule.Release H.Receiver}
    {effects : List (Effect H)}
    (h : x.select c pacing = (some r, effects)) : (x.afterRelease r).streamIds = x.streamIds := by
  obtain ⟨pre, q, post, sample, rest, hx, -, -, hqueues⟩ := select_eq_some h
  simp [streamIds, afterRelease, hx, hqueues]

/-- Only a release takes anything from a queue, and what it takes is a sample. -/
theorem Advance.tables_kept {s : Standing H} {effects : List (Effect H)} {s? : Option (Standing H)}
    (h : Advance c x s y effects s?) :
    y.streamIds = x.streamIds ∧ y.handles = x.handles ∧ y.streams = x.streams ∧
      (s.duty.pacing? = none → y.queues = x.queues) := by
  cases h with
  | choose hselect =>
      exact ⟨streamIds_afterRelease hselect, rfl, rfl, by simp [Standing.duty, Task.pacing?]⟩
  | drain hselect =>
      exact ⟨streamIds_afterRelease hselect, rfl, rfl, by simp [Standing.duty, Task.pacing?]⟩
  | frame =>
      rw [beginFrame_snd]
      exact ⟨rfl, rfl, rfl, fun _ => rfl⟩
  | _ => exact ⟨rfl, rfl, rfl, fun _ => rfl⟩

theorem Retables.of_advance {s : Standing H} {effects : List (Effect H)} {s? : Option (Standing H)}
    {alive : Bool} (h : Advance c x s y effects s?) : Retables alive x s.duty y := by
  obtain ⟨hids, hhandles, hstreams, hqueues⟩ := Advance.tables_kept h
  have hlasts : x.Lasts s.duty y := .of_same hstreams (by simp [hhandles])
  have hother : s.duty.isTabular = false := by cases s <;> rfl
  refine .of_ids hids hhandles hlasts.placed
    (fun live _ => Task.enroll_of_other hother alive live) fun u hu => ?_
  have hnone : s.duty.pacing? = none := by
    cases s <;> first | rfl | simpa [Standing.duty, Task.reaches] using hu
  rw [queue?, queue?, hqueues hnone]

theorem Retables.of_conduct {move : Move H} (hfree : task.isDuty = false)
    (h : x.perform c task = .moves move)
    (hconduct : Conduct c x task (.moves move)) : Retables c.alive x task move.presentation := by
  cases hother : task.isTabular with
  | false =>
      obtain ⟨hqueues, hhandles⟩ := Conduct.tables_kept hconduct hother
      exact .of_same hqueues hhandles (perform_lasts hfree h).placed fun live _ =>
        Task.enroll_of_other hother c.alive live
  | true =>
      cases task with
      | createStream => exact createStream_retables h
      | detachStream => exact detachStream_retables h
      | detachStreams =>
          cases h
          exact .of_none rfl rfl (fun _ => rfl) fun _ => rfl
      | setFormat => exact setFormat_retables h
      | enqueue => exact enqueue_retables h
      | endStream => exact endStream_retables h
      | clearQueues =>
          cases h
          refine .of_ids ?_ rfl (fun h => h) (fun _ _ => rfl) fun u hu => by cases hu
          simp [clearQueues, streamIds, StreamQueue.clear, Function.comp_def]
      | reclaim => exact reclaim_retables h
      | _ => cases hother

theorem perform_retables {move : Move H} (h : x.perform c task = .moves move) :
    Retables c.alive x task move.presentation := by
  cases perform_feat h with
  | aside hfree _ hconduct => exact .of_conduct hfree h hconduct
  | duty hadv => exact .of_advance hadv
  | tick hselect =>
      exact .of_ids (streamIds_afterRelease hselect) rfl (fun h => h) (fun _ _ => rfl) fun u hu =>
        by cases hu
  | _ => exact .of_same rfl rfl (fun h => h) fun _ _ => rfl

/-- What registers or unregisters streams is always done. -/
theorem enroll_of_not_moves (h : ∀ move, x.perform c task ≠ .moves move) (alive : Bool)
    (live : List StreamId) :
    task.enroll alive live = live := by
  cases task with
  | createStream s =>
      simp only [perform] at h
      split at h <;> exact absurd rfl (h _)
  | detachStream s =>
      simp only [perform] at h
      split at h <;> exact absurd rfl (h _)
  | detachStreams => exact absurd rfl (h _)
  | reclaim =>
      simp only [perform] at h
      split at h <;> exact absurd rfl (h _)
  | _ => rfl

theorem Retables.of_unwinds {alive : Bool} (h : x.perform c task = .unwinds) :
    Retables alive x task (x.enter .stopped) :=
  .of_same rfl rfl (fun h => h) fun live _ =>
    enroll_of_not_moves (c := c) (x := x) (by simp [h]) alive live

/-! ## What is refused -/

/-- Streams are registered under new numbers only, and only registered ones are removed. Nothing
changes if one of both is refused, and nothing that is addressed to one stream changes the queue
of another. -/
structure Tabular (c : Surroundings H) (x : Presentation H) (live : List StreamId) : Prop where
  create : ∀ s, x.perform c (.createStream s) =
    if s ∈ live then x.returning (.error (.session (.duplicateStream x.id s))) []
    else
      returning
        { x with
          handles := x.handles ++ [(s, x.streams.length)]
          queues := x.queues ++ [.new s]
          streams := x.streams ++ [⟨s, none, 1⟩] }
        (.ok ()) []
  remove : ∀ s ∈ live, ∃ (y : Presentation H) (place : Nat) (effects : List (Effect H)),
    x.findStream? s = some place ∧
    x.perform c (.detachStream s) = y.going [.releaseDecoders [place], .finish] effects
  refuse : ∀ s, s ∉ live →
    x.perform c (.detachStream s) = x.returning (.error (.session (.streamNotFound x.id s))) []
  apart : ∀ task move u, x.perform c task = .moves move → task.reaches x u = false →
    move.presentation.queue? u = x.queue? u
  /-- A sample that is to be put into a queue goes to that of the stream it was pushed to. -/
  push : ∀ place chunk,
    (∃ (y : Presentation H) (sample : Sample H.Receiver), x.numberAt? place = some sample.streamId ∧
      x.perform c (.push place chunk) = y.going [.enqueue sample] []) ∨
    ∃ (y : Presentation H) (e : MediaError),
      x.perform c (.push place chunk) = y.returning (.error e) []

theorem perform_push (c : Surroundings H) (x : Presentation H) (place : Nat)
    (chunk : Chunk H.Receiver) :
    (∃ (y : Presentation H) (sample : Sample H.Receiver), x.numberAt? place = some sample.streamId ∧
        x.perform c (.push place chunk) = y.going [.enqueue sample] []) ∨
      ∃ (y : Presentation H) (e : MediaError),
        x.perform c (.push place chunk) = y.returning (.error e) [] := by
  simp only [perform, throughHandle]
  split
  · rename_i stream _ hstream
    unfold decode
    split
    · exact .inr ⟨x, _, rfl⟩
    · split
      · exact .inr ⟨_, _, rfl⟩
      · exact .inl ⟨_, _, by simp [numberAt?, hstream, Sample.new], rfl⟩
  · exact .inr ⟨x, _, rfl⟩

theorem Tables.tabular (h : x.Tables live) (c : Surroundings H) : x.Tabular c live where
  create s := by
    simp only [perform, createStream]
    by_cases hs : s ∈ live
    · obtain ⟨place, hplace⟩ := h.exists_place hs
      simp [hs, hplace]
    · have hnone := h.findStream?_eq_none_iff.mpr hs
      simp [hs, hnone]
  remove s hs := by
    obtain ⟨place, hplace⟩ := h.exists_place hs
    simp only [perform, detachStream, hplace]
    exact ⟨_, place, _, rfl, rfl⟩
  refuse s hs := by
    have hnone := h.findStream?_eq_none_iff.mpr hs
    simp only [perform, detachStream, hnone]
  apart task move u hmove hu := (perform_retables hmove).apart u hu
  push := perform_push c x

end Presentation

/-! ## Any order of tasks -/

namespace Chronicle

/-- The numbers of the registered streams after these tasks, in the order of their creation. -/
def roster (tasks : List (Surroundings H × Task H)) : List StreamId :=
  tasks.foldl (fun live (c, task) => task.enroll c.alive live) []

theorem record_tables {w : Chronicle H} {live : List StreamId} (h : w.presentation.Tables live)
    (c : Surroundings H) (task : Task H) :
    (w.record c task).presentation.Tables (task.enroll c.alive live) := by
  unfold record
  split
  · rename_i move hmove
    exact (Presentation.perform_retables hmove).tables live h
  · rename_i hwaits
    rwa [Presentation.enroll_of_not_moves (c := c) (x := w.presentation) (by simp [hwaits])]
  · rename_i hunwinds
    exact (Presentation.Retables.of_unwinds hunwinds).tables live h

theorem of_tables (id : PresentationId) (tasks : List (Surroundings H × Task H)) :
    (of id tasks).presentation.Tables (roster tasks) := by
  induction tasks using List.reverseRecOn with
  | nil => exact .new id
  | append_singleton tasks task ih =>
      rw [of, roster, List.foldl_append, List.foldl_append]
      exact record_tables ih task.1 task.2

end Chronicle

/-! ## Runs -/

namespace Transition

def enroll (p : Key) (live : List StreamId) (t : Transition H) : List StreamId :=
  match t.doing? p with
  | some (_, deed) => deed.task.enroll (t.before.alive p) live
  | none => live

/-- The numbers of the registered streams of a presentation after these transitions, in the order of
their creation. -/
def roster (p : Key) (trace : List (Transition H)) : List StreamId :=
  trace.foldl (enroll p) []

theorem roster_snoc (p : Key) (trace : List (Transition H)) (t : Transition H) :
    roster p (trace ++ [t]) = t.enroll p (roster p trace) := by
  simp [roster]

/-- What is done to a presentation with these streams keeps to its tables. -/
structure Tabular (t : Transition H) (p : Key) (live : List StreamId) : Prop where
  tables : ∀ a deed, t.doing? p = some (a, deed) → deed.before.Tables live
  create : ∀ a x s effects, t.doing? p = some (a, ⟨x, .createStream s, effects⟩) →
    if s ∈ live then t.Refuses a (.session (.duplicateStream x.id s))
      else t.progress.result = some (.ok ())
  remove : ∀ a x s effects, t.doing? p = some (a, ⟨x, .detachStream s, effects⟩) →
    if s ∈ live then t.progress.result = none else t.Refuses a (.session (.streamNotFound x.id s))
  apart : ∀ a deed y u, t.doing? p = some (a, deed) →
    t.progress.machine.presentations[p]? = some y →
    deed.task.reaches deed.before u = false → y.queue? u = deed.before.queue? u
  /-- A sample that is to be put into a queue goes to that of the stream it was pushed to. -/
  push : ∀ a x place chunk effects, t.doing? p = some (a, ⟨x, .push place chunk, effects⟩) →
    t.progress.result = none → ∃ sample, x.numberAt? place = some sample.streamId ∧
      t.progress.machine.stack a = .at p (.enqueue sample) :: (t.before.stack a).tail

end Transition

namespace Crewed

variable {m : Machine H} {p : Key} {crew crew' : Crew H} {action : Action H} {progress : Progress H}
  {a : ActorId}
  {x : Presentation H} {task : Task H} {effects : List (Effect H)} {live : List StreamId}

theorem retables (h : Crewed m p crew) (hplay : m.play action = some progress)
    (hdoing : Transition.doing? p ⟨m, action, progress⟩ = some (a, ⟨x, task, effects⟩)) :
    ∃ y, progress.machine.presentations[p]? = some y ∧
      Presentation.Retables (m.alive p) x task y := by
  obtain ⟨answers, rest, rfl, hstack, hx, ⟨move, hmove, rfl, -⟩ | ⟨hunwinds, rfl, -⟩⟩ :=
    Transition.perform_of_doing hplay hdoing
  · exact ⟨_, presentation_after hx, Presentation.perform_retables hmove⟩
  · obtain ⟨rfl, -, hwhole, -⟩ := h.duties_of_unwinds hstack hunwinds
    exact ⟨_, (h.unwind_own hx hwhole (by simp [Crew.of])).2, .of_unwinds hunwinds⟩

theorem tables (h : Crewed m p crew) (hplay : m.play action = some progress)
    (hturn : Turn m progress.machine p crew (Transition.doing? p ⟨m, action, progress⟩) crew')
    (hx : m.presentations[p]? = some x) (hlive : x.Tables live) :
    ∃ y, progress.machine.presentations[p]? = some y ∧
      y.Tables (Transition.enroll p live ⟨m, action, progress⟩) := by
  unfold Transition.enroll
  cases hdoing : Transition.doing? p ⟨m, action, progress⟩ with
  | none => exact ⟨x, (hdoing ▸ hturn).still hx |>.1, hlive⟩
  | some doing =>
      obtain ⟨b, z, other, more⟩ := doing
      obtain ⟨answers, rest, -, -, hz, -⟩ := Transition.perform_of_doing hplay hdoing
      obtain rfl := Option.some.inj (hx.symm.trans hz)
      obtain ⟨y, hy, hretables⟩ := h.retables hplay hdoing
      exact ⟨y, hy, hretables.tables live hlive⟩

theorem tabular (h : Crewed m p crew) (hplay : m.play action = some progress)
    (hlive : ∀ x, m.presentations[p]? = some x → x.Tables live) :
    Transition.Tabular ⟨m, action, progress⟩ p live where
  tables b deed hdoing := by
    obtain ⟨-, -, -, -, hx, -⟩ := Transition.perform_of_doing hplay hdoing
    exact hlive _ hx
  create b x s effects hdoing := by
    obtain ⟨answers, rest, -, hstack, hx, hperform⟩ := Transition.perform_of_doing hplay hdoing
    have hcreate := ((hlive x hx).tabular (m.surroundings b p answers)).create s
    split at hcreate
    · rename_i hs
      obtain ⟨rfl, -⟩ := Outcome.of_moves hperform hcreate
      rw [if_pos hs]
      exact ⟨_, rest, hstack, Machine.after_still hx b rest⟩
    · rename_i hs
      obtain ⟨rfl, -⟩ := Outcome.of_moves hperform hcreate
      rw [if_neg hs]
      rfl
  remove b x s effects hdoing := by
    obtain ⟨answers, rest, -, hstack, hx, hperform⟩ := Transition.perform_of_doing hplay hdoing
    have htabular := (hlive x hx).tabular (m.surroundings b p answers)
    by_cases hs : s ∈ live
    · obtain ⟨y, place, effects', -, hgoing⟩ := htabular.remove s hs
      obtain ⟨rfl, -⟩ := Outcome.of_moves hperform hgoing
      rw [if_pos hs]
      rfl
    · obtain ⟨rfl, -⟩ := Outcome.of_moves hperform (htabular.refuse s hs)
      rw [if_neg hs]
      exact ⟨_, rest, hstack, Machine.after_still hx b rest⟩
  apart b deed y u hdoing hy hu := by
    obtain ⟨z, hz, hretables⟩ := h.retables hplay hdoing
    obtain rfl := Option.some.inj (hy.symm.trans hz)
    exact hretables.apart u hu
  push b x place chunk effects hdoing hresult := by
    obtain ⟨answers, rest, -, hstack, hx, hperform⟩ := Transition.perform_of_doing hplay hdoing
    rcases Presentation.perform_push (m.surroundings b p answers) x place chunk with
      ⟨y, sample, hnumber, hgoing⟩ | ⟨y, e, hreturning⟩
    · obtain ⟨rfl, -⟩ := Outcome.of_moves hperform hgoing
      refine ⟨sample, hnumber, ?_⟩
      rw [Machine.stack_after_self (Machine.lt_of_stack hstack), hstack]
      rfl
    · obtain ⟨rfl, -⟩ := Outcome.of_moves hperform hreturning
      cases hresult

end Crewed

/-! ## The end of a removal -/

/-- Once a stream is unregistered, the rest of its removal is left to be done until the removal is
successful. -/
def Run.Releases (r : Run H) (p : Key) : Prop :=
  ∀ past t since s a place, r.trace = past ++ t :: since → t.unregisters? p s = some (a, place) →
    (∀ u ∈ since, u.returns a = false) →
      (∃ x, r.final.presentations[p]? = some x) ∧
        ∃ tasks base, r.final.stack a = tasks.map (.at p) ++ base ∧ Releasing place True tasks

theorem Releasing.begin {m : Machine H} {action : Action H} {progress : Progress H} {p : Key}
    {s : StreamId} {a : ActorId} {place : Nat} (hplay : m.play action = some progress)
    (h : Transition.unregisters? ⟨m, action, progress⟩ p s = some (a, place)) :
    ∃ tasks base, progress.machine.stack a = tasks.map (.at p) ++ base ∧
      Releasing place True tasks := by
  obtain ⟨x, effects, hdoing, hplace⟩ := Transition.unregisters?_eq_some h
  obtain ⟨answers, rest, rfl, hstack, hx, hperform⟩ := Transition.perform_of_doing hplay hdoing
  simp only [Presentation.perform, Presentation.detachStream, hplace] at hperform
  obtain ⟨rfl, -⟩ := Outcome.of_moves hperform rfl
  exact ⟨_, rest, Machine.stack_after_self (Machine.lt_of_stack hstack), .releasing⟩

theorem Run.Releases.next {r : Run H} {p : Key} {action : Action H} {progress : Progress H}
    {crew crew' : Crew H} (h : r.Releases p) (hplay : r.final.play action = some progress)
    (hturn : Turn r.final progress.machine p crew
      (Transition.doing? p ⟨r.final, action, progress⟩) crew') :
    (r.extend action progress).Releases p := by
  intro past t since s a place htrace hunregisters hbusy
  rcases snoc_eq_split htrace with ⟨-, rfl, rfl⟩ | ⟨rest, rfl, hinit⟩
  · obtain ⟨x, effects, hdoing, -⟩ := Transition.unregisters?_eq_some hunregisters
    obtain ⟨-, -, -, -, hx, -⟩ := Transition.perform_of_doing hplay hdoing
    exact ⟨hturn.exists_after hx, Releasing.begin hplay hunregisters⟩
  · obtain ⟨⟨x, hx⟩, tasks, base, hstack, hreleasing⟩ :=
      h past t rest s a place hinit hunregisters fun u hu => hbusy u (List.mem_append_left _ hu)
    obtain ⟨y, hy⟩ := hturn.exists_after hx
    refine ⟨⟨y, hy⟩, ?_⟩
    rcases Releasing.next (P := fun _ => True)
      (fun _ => trivial) hreleasing hplay hturn hx hy hstack id with
      ⟨hreturns, -⟩ | ⟨-, tasks', hstack', hreleasing'⟩
    · rw [hbusy _ List.mem_concat_self] at hreturns
      cases hreturns
    · exact ⟨tasks', base, hstack', hreleasing'⟩

namespace Run

def Tabled (r : Run H) (p : Key) : Prop :=
  match r.final.presentations[p]? with
  | none => Transition.roster p r.trace = []
  | some x => x.Tables (Transition.roster p r.trace)

theorem Tabled.tables {r : Run H} {p : Key} {x : Presentation H} (h : r.Tabled p)
    (hx : r.final.presentations[p]? = some x) : x.Tables (Transition.roster p r.trace) := by
  rwa [Tabled, hx] at h

theorem Tabled.next {r : Run H} {p : Key} {action : Action H} {progress : Progress H}
    {crew crew' : Crew H}
    (h : r.Tabled p) (hcrew : Crewed r.final p crew) (hplay : r.final.play action = some progress)
    (hturn : Turn r.final progress.machine p crew
      (Transition.doing? p ⟨r.final, action, progress⟩) crew') :
    (r.extend action progress).Tabled p := by
  unfold Tabled at h ⊢
  rw [show (r.extend action progress).trace = r.trace ++ [⟨r.final, action, progress⟩] from rfl,
    Transition.roster_snoc]
  cases hx : r.final.presentations[p]? with
  | none =>
      rw [hx] at h
      obtain ⟨hdoing, -, hstill | ⟨id, hnew⟩⟩ := hturn.absent hx
      · simp only [show (r.extend action progress).final.presentations[p]? = none from hstill,
          Transition.enroll, hdoing, h]
      · simp only [show (r.extend action progress).final.presentations[p]? = some (.new id) from
          hnew, Transition.enroll, hdoing, h]
        exact .new id
  | some x =>
      rw [hx] at h
      obtain ⟨y, hy, htables⟩ := hcrew.tables hplay hturn hx h
      simp only [show (r.extend action progress).final.presentations[p]? = some y from hy]
      exact htables

/-- The streams of a presentation are in both of its tables, each once and in the order of creation;
whatever is done to it keeps to the tables, and a removal that is not refused is successful. -/
structure KeepsTables (r : Run H) (p : Key) : Prop where
  tables : ∀ x, r.final.presentations[p]? = some x → x.Tables (Transition.roster p r.trace)
  each : ∀ past t after, r.trace = past ++ t :: after → t.Tabular p (Transition.roster p past)
  removal : ∀ past t between last after s a place,
    r.trace = past ++ t :: (between ++ last :: after) →
    t.unregisters? p s = some (a, place) → (∀ u ∈ between, u.returns a = false) → last.returns a →
      last.progress.result = some (.ok ())

end Run

namespace Machine

theorem run_tabled (config : Config) (decoders : DecoderBackends H.Codec)
    (outputs : AudioBackends H.Output) (actions : List (Action H)) (p : Key) :
    ((initial config decoders outputs).run actions).Tabled p ∧
      ((initial config decoders outputs).run actions).Releases p := by
  obtain ⟨crew, -, htabled⟩ := run_turns (P := fun r _ => r.Tabled p ∧ r.Releases p)
    (initial config decoders outputs)
    (fun q => ⟨none, .initial config decoders outputs q⟩) (.initial config decoders outputs p)
    ⟨rfl, fun past t since s a place htrace => by simp at htrace⟩
    (fun _ _ _ _ _ hcrew h hplay _ hturn => ⟨h.1.next hcrew hplay hturn, h.2.next hplay hturn⟩)
      actions
  exact htabled

/-- Before each transition of a run, the tables of a presentation hold what is registered
at that time. -/
theorem tables_of_trace {config : Config} {decoders : DecoderBackends H.Codec}
    {outputs : AudioBackends H.Output}
    {actions : List (Action H)} {p : Key} {past after : List (Transition H)} {t : Transition H}
    {x : Presentation H}
    (htrace : ((initial config decoders outputs).run actions).trace = past ++ t :: after)
    (hx : t.before.presentations[p]? = some x) : x.Tables (Transition.roster p past) := by
  obtain ⟨earlier, hrun, -⟩ := run_split _ actions htrace
  have htabled := (run_tabled config decoders outputs earlier p).1
  rw [hrun] at htabled
  exact htabled.tables hx

/-- In every run of the machine, and whatever else is done to a presentation by anyone in any
order, both tables of a presentation hold its streams in the order of their creation, and each task
keeps to them. -/
theorem streams_tabled (config : Config) (decoders : DecoderBackends H.Codec)
    (outputs : AudioBackends H.Output) (actions : List (Action H)) (p : Key) :
    ((initial config decoders outputs).run actions).KeepsTables p ∧
      ∀ (id : PresentationId) (tasks : List (Surroundings H × Task H)),
        (Chronicle.of id tasks).presentation.Tables (Chronicle.roster tasks) ∧
          ∀ c, (Chronicle.of id tasks).presentation.Tabular c (Chronicle.roster tasks) := by
  refine ⟨⟨fun x hx => ?_, fun past t after htrace => ?_, ?_⟩, fun id tasks => ?_⟩
  · have htabled := (run_tabled config decoders outputs actions p).1
    rwa [Run.Tabled, hx] at htabled
  · obtain ⟨earlier, hrun, hplay⟩ := run_split _ actions htrace
    obtain ⟨crew, hcrew⟩ := run_crewed config decoders outputs earlier p
    have htabled := (run_tabled config decoders outputs earlier p).1
    rw [hrun] at hcrew htabled
    refine hcrew.tabular hplay fun x hx => ?_
    rwa [Run.Tabled, hx] at htabled
  · intro past t between last after s a place htrace hunregisters hbusy hreturns
    have hsplit : ((initial config decoders outputs).run actions).trace =
        (past ++ t :: between) ++ last :: after := by simp [htrace]
    obtain ⟨earlier, hrun, hplay⟩ := run_split _ actions hsplit
    obtain ⟨crew, hcrew⟩ := run_crewed config decoders outputs earlier p
    have hreleases := (run_tabled config decoders outputs earlier p).2
    rw [hrun] at hcrew hreleases
    obtain ⟨crew', -, hturn⟩ := run_turn config decoders outputs earlier hrun hplay hcrew
    obtain ⟨⟨x, hx⟩, tasks, base, hstack, hreleasing⟩ :=
      hreleases past t between s a place rfl hunregisters hbusy
    obtain ⟨y, hy⟩ := hturn.exists_after hx
    rcases Releasing.next (P := fun _ => True)
      (fun _ => trivial) hreleasing hplay hturn hx hy hstack id with
      ⟨-, hresult, -⟩ | ⟨hquiet, -⟩
    · exact hresult
    · exact absurd hreturns (by rw [hquiet]; simp)
  · have htables := Chronicle.of_tables id tasks
    exact ⟨htables, htables.tabular⟩

end Machine

end Playout
