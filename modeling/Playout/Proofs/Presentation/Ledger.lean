import Playout.Proofs.Playback.Aside
import Playout.Proofs.Schedule.Selection

/-!
# The ledger of a presentation

The effects of tasks record every sample that enters a queue and every sample that leaves one, with
what becomes of it. Queues are first in, first out: what waits for a stream, followed by what
enters, is what leaves followed by what waits afterwards. This holds of every task, since each
stream number has one queue and each queue holds samples of its own stream only.
-/

namespace Playout

/-- What becomes of a sample that leaves its queue. -/
inductive Fate where
  | released
  | discarded
  deriving DecidableEq, Repr

/-- What an acknowledgment says. -/
structure Ticket (ρ : Type) where
  receiver : ρ
  sampleId : UInt32
  duration : UInt64
  size : UInt32

def Sample.ticket {ρ : Type} (s : Sample ρ) : Ticket ρ :=
  ⟨s.receiver, s.sampleId, s.duration, s.dataSize⟩

def Sample.ofStream {ρ : Type} (s : StreamId) (samples : List (Sample ρ)) : List (Sample ρ) :=
  samples.filter (·.streamId == s)

@[simp] theorem Sample.ofStream_nil {ρ : Type} (s : StreamId) :
    ofStream s ([] : List (Sample ρ)) = [] :=
  rfl

@[simp] theorem Sample.ofStream_append {ρ : Type} (s : StreamId) (samples more : List (Sample ρ)) :
    ofStream s (samples ++ more) = ofStream s samples ++ ofStream s more :=
  List.filter_append ..

variable {H : Platform}

namespace Effect

def entered? : Effect H → Option (Sample H.Receiver)
  | .queued sample => some sample
  | _ => none

def departures : Effect H → List (Sample H.Receiver × Fate)
  | .released selected => [(selected.sample, .released)]
  | .discarded samples => samples.map (·, .discarded)
  | _ => []

def release? : Effect H → Option (Selected H.Receiver)
  | .released selected => some selected
  | _ => none

def ticket? : Effect H → Option (Ticket H.Receiver)
  | .acknowledged receiver sampleId duration size => some ⟨receiver, sampleId, duration, size⟩
  | _ => none

variable {e : Effect H}

theorem entered?_quiet (h : e.isQuiet) : e.entered? = none := by
  cases e <;> first | rfl | simp [isQuiet] at h

theorem departures_quiet (h : e.isQuiet) : e.departures = [] := by
  cases e <;> first | rfl | simp [isQuiet] at h

theorem release?_quiet (h : e.isQuiet) : e.release? = none := by
  cases e <;> first | rfl | simp [isQuiet] at h

theorem ticket?_quiet (h : e.isQuiet) : e.ticket? = none := by
  cases e <;> first | rfl | simp [isQuiet] at h

end Effect

namespace Ledger

def entered (effects : List (Effect H)) : List (Sample H.Receiver) :=
  effects.filterMap (·.entered?)

def departed (effects : List (Effect H)) : List (Sample H.Receiver × Fate) :=
  effects.flatMap (·.departures)

def released (effects : List (Effect H)) : List (Selected H.Receiver) :=
  effects.filterMap (·.release?)

def acknowledged (effects : List (Effect H)) : List (Ticket H.Receiver) :=
  effects.filterMap (·.ticket?)

variable {effects more : List (Effect H)}

@[simp] theorem entered_append : entered (effects ++ more) = entered effects ++ entered more :=
  List.filterMap_append

@[simp] theorem departed_append : departed (effects ++ more) = departed effects ++ departed more :=
  List.flatMap_append

@[simp] theorem released_append : released (effects ++ more) = released effects ++ released more :=
  List.filterMap_append

@[simp] theorem acknowledged_append :
    acknowledged (effects ++ more) = acknowledged effects ++ acknowledged more :=
  List.filterMap_append

structure Blank (effects : List (Effect H)) : Prop where
  entered : entered effects = []
  departed : departed effects = []
  released : released effects = []
  acknowledged : acknowledged effects = []

theorem blank_of_quiet (h : ∀ e ∈ effects, e.isQuiet) : Blank effects where
  entered := List.filterMap_eq_nil_iff.mpr fun e he => Effect.entered?_quiet (h e he)
  departed := List.flatMap_eq_nil_iff.mpr fun e he => Effect.departures_quiet (h e he)
  released := List.filterMap_eq_nil_iff.mpr fun e he => Effect.release?_quiet (h e he)
  acknowledged := List.filterMap_eq_nil_iff.mpr fun e he => Effect.ticket?_quiet (h e he)

theorem entered_dropped (samples : List (Sample H.Receiver)) :
    entered (Presentation.dropped samples) = [] := by
  unfold Presentation.dropped
  split <;> rfl

theorem departed_dropped (samples : List (Sample H.Receiver)) :
    departed (Presentation.dropped samples) = samples.map (·, .discarded) := by
  unfold Presentation.dropped
  split
  · rename_i hempty
    rw [List.isEmpty_iff.mp hempty]
    rfl
  · simp [departed, Effect.departures]

end Ledger

/-! ## Waiting samples -/

namespace Presentation

variable {x y : Presentation H}

def waiting (x : Presentation H) (s : StreamId) : List (Sample H.Receiver) :=
  ((x.queue? s).map (·.samples)).getD []

/-- The registered streams have one queue each, and a queue holds samples of its own stream. -/
structure Registered (x : Presentation H) : Prop where
  keys : x.handles.map (·.1) = x.queues.map (·.id)
  nodup : (x.queues.map (·.id)).Nodup
  home : ∀ q ∈ x.queues, ∀ sample ∈ q.samples, sample.streamId = q.id

theorem registered_new (id : PresentationId) : (Presentation.new id : Presentation H).Registered :=
  ⟨rfl, List.nodup_nil, by simp [Presentation.new]⟩

theorem waiting_of_split {pre post : List (StreamQueue H.Receiver)} {q : StreamQueue H.Receiver}
    (hx : x.queues = pre ++ q :: post) (hpre : ∀ p ∈ pre, p.id ≠ q.id) :
    x.waiting q.id = q.samples := by
  simp [waiting, queue?_of_split hx rfl hpre]

theorem waiting_eq_of_ne {pre post : List (StreamQueue H.Receiver)} {q q' : StreamQueue H.Receiver}
    {s : StreamId} (hx : x.queues = pre ++ q :: post) (hy : y.queues = pre ++ q' :: post)
    (hid : q'.id = q.id) (hs : s ≠ q.id) : y.waiting s = x.waiting s := by
  rw [waiting, waiting, queue?_revise hx hy hid hs]

theorem waiting_eq_nil (h : ∀ q ∈ x.queues, q.id ≠ s) : x.waiting s = [] := by
  have hnone : x.queues.find? (·.id == s) = none := by simpa using h
  simp [waiting, queue?, hnone]

namespace Registered

variable {pre post : List (StreamQueue H.Receiver)} {q q' : StreamQueue H.Receiver}

theorem ne_of_others (h : x.Registered) (hx : x.queues = pre ++ q :: post) :
    ∀ p ∈ pre ++ post, p.id ≠ q.id := by
  have hnodup := h.nodup
  rw [hx, List.map_append, List.map_cons, List.perm_middle.nodup_iff, ← List.map_append] at hnodup
  intro p hp heq
  exact (List.nodup_cons.mp hnodup).1 (List.mem_map.mpr ⟨p, hp, heq⟩)

theorem ne_of_split (h : x.Registered) (hx : x.queues = pre ++ q :: post) :
    ∀ p ∈ pre, p.id ≠ q.id :=
  fun p hp => h.ne_of_others hx p (List.mem_append_left _ hp)

theorem ne_of_unregistered {s : StreamId} (h : x.Registered) (hnone : x.findStream? s = none) :
    ∀ q ∈ x.queues, q.id ≠ s := by
  intro q hq hid
  have hmem : s ∈ x.handles.map (·.1) := by
    rw [h.keys, ← hid]
    exact List.mem_map_of_mem hq
  obtain ⟨handle, hhandle, hkey⟩ := List.mem_map.mp hmem
  have hother := List.lookup_eq_none_iff.mp hnone handle hhandle
  simp [hkey] at hother

/-- Another queue of the same stream may stand in the place of one. -/
theorem revise (h : x.Registered) (hx : x.queues = pre ++ q :: post)
    (hy : y.queues = pre ++ q' :: post) (hhandles : y.handles = x.handles) (hid : q'.id = q.id)
    (hsamples : ∀ sample ∈ q'.samples, sample.streamId = q.id) : y.Registered := by
  have hids : y.queues.map (·.id) = x.queues.map (·.id) := by simp [hx, hy, hid]
  refine ⟨by rw [hhandles, hids, h.keys], hids ▸ h.nodup, ?_⟩
  intro p hp sample hsample
  rw [hy] at hp
  rcases List.mem_append.mp hp with hmem | hmem
  · exact h.home p (by simp [hx, hmem]) sample hsample
  · rcases List.mem_cons.mp hmem with rfl | hmem
    · rw [hid]
      exact hsamples sample hsample
    · exact h.home p (by simp [hx, hmem]) sample hsample

theorem ofStream_waiting (h : x.Registered) (s t : StreamId) :
    Sample.ofStream t (x.waiting s) = if s = t then x.waiting s else [] := by
  unfold waiting
  cases hq : x.queue? s with
  | none => simp [Sample.ofStream]
  | some q =>
      obtain ⟨hmem, rfl⟩ := queue?_eq_some hq
      have hhome := h.home q hmem
      by_cases hs : q.id = t
      · rw [if_pos hs]
        exact List.filter_eq_self.mpr fun sample hsample => by simp [hhome sample hsample, hs]
      · rw [if_neg hs]
        exact List.filter_eq_nil_iff.mpr fun sample hsample => by simp [hhome sample hsample, hs]

end Registered

/-- The samples of a stream among all queued ones are those that wait for it. -/
theorem Registered.ofStream_flatMap (h : x.Registered) (s : StreamId) :
    Sample.ofStream s (x.queues.flatMap (·.samples)) = x.waiting s := by
  have hlist : ∀ queues : List (StreamQueue H.Receiver), (queues.map (·.id)).Nodup →
      (∀ q ∈ queues, ∀ sample ∈ q.samples, sample.streamId = q.id) →
      Sample.ofStream s (queues.flatMap (·.samples)) =
        ((queues.find? (·.id == s)).map (·.samples)).getD [] := by
    intro queues
    induction queues with
    | nil => simp [Sample.ofStream]
    | cons q queues ih =>
        intro hnodup hhome
        have hrest := ih (List.nodup_cons.mp hnodup).2 fun p hp =>
            hhome p (List.mem_cons_of_mem _ hp)
        have hq := hhome q List.mem_cons_self
        rw [Sample.ofStream] at hrest ⊢
        rw [List.flatMap_cons, List.filter_append, hrest]
        by_cases hs : q.id = s
        · have hself : q.samples.filter (·.streamId == s) = q.samples :=
            List.filter_eq_self.mpr fun sample hsample => by simp [hq sample hsample, hs]
          have hnone : queues.find? (·.id == s) = none := by
            refine List.find?_eq_none.mpr fun p hp hid => (List.nodup_cons.mp hnodup).1 ?_
            exact List.mem_map.mpr ⟨p, hp, (eq_of_beq hid).trans hs.symm⟩
          simp [hself, hnone, hs]
        · have hself : q.samples.filter (·.streamId == s) = [] :=
            List.filter_eq_nil_iff.mpr fun sample hsample => by simp [hq sample hsample, hs]
          simp [hself, hs]
  exact hlist x.queues h.nodup h.home

/-! ## One task -/

/-- The books balance: what waits and what enters is what leaves and what waits afterwards. -/
structure Balanced (x y : Presentation H) (effects : List (Effect H)) : Prop where
  registered : y.Registered
  balance : ∀ s, x.waiting s ++ Sample.ofStream s (Ledger.entered effects) =
    Sample.ofStream s ((Ledger.departed effects).map (·.1)) ++ y.waiting s

namespace Balanced

variable {effects : List (Effect H)} {task : Task H}

theorem keep (h : x.Registered) (hqueues : y.queues = x.queues) (hhandles : y.handles = x.handles)
    (hentered : Ledger.entered effects = []) (hdeparted : Ledger.departed effects = []) :
    Balanced x y effects := by
  refine ⟨⟨by rw [hqueues, hhandles, h.keys], hqueues ▸ h.nodup, hqueues ▸ h.home⟩, fun s => ?_⟩
  simp [hentered, hdeparted, waiting, queue?, hqueues]

theorem dropAll {rest : List (Effect H)} (h : x.Registered) (hy : y.Registered)
    (hwaiting : ∀ s, y.waiting s = []) (hblank : Ledger.Blank rest) :
    Balanced x y (dropped (x.queues.flatMap (·.samples)) ++ rest) := by
  refine ⟨hy, fun s => ?_⟩
  simp [Ledger.entered_dropped, Ledger.departed_dropped, hblank.entered, hblank.departed, hwaiting,
    ← h.ofStream_flatMap s, Function.comp_def]

theorem register {s : StreamId} {place : Nat} (h : x.Registered) (hnone : x.findStream? s = none)
    (hqueues : y.queues = x.queues ++ [.new s]) (hhandles : y.handles = x.handles ++ [(s, place)]) :
    Balanced x y [] := by
  have hfresh := h.ne_of_unregistered hnone
  refine ⟨⟨?_, ?_, ?_⟩, ?_⟩
  · simp [hqueues, hhandles, h.keys, StreamQueue.new]
  · rw [hqueues, List.map_append]
    refine List.nodup_append.mpr ⟨h.nodup, by simp, ?_⟩
    intro id hid other hother
    obtain ⟨q, hq, rfl⟩ := List.mem_map.mp hid
    simp only [List.map_cons, List.map_nil, List.mem_singleton] at hother
    rw [hother]
    exact hfresh q hq
  · intro q hq sample hsample
    rw [hqueues] at hq
    rcases List.mem_append.mp hq with hmem | hmem
    · exact h.home q hmem sample hsample
    · rw [List.mem_singleton.mp hmem] at hsample
      simp [StreamQueue.new] at hsample
  · intro t
    simp only [waiting, queue?, hqueues, List.find?_append]
    cases x.queues.find? (·.id == t) with
    | some q => simp [Ledger.entered, Ledger.departed]
    | none =>
        by_cases hst : s = t <;>
          simp [StreamQueue.new, hst, Ledger.entered, Ledger.departed]

theorem detach {s : StreamId} (h : x.Registered) (hqueues : y.queues = x.queues.filter (·.id != s))
    (hhandles : y.handles = x.handles.filter (·.1 != s)) :
    Balanced x y (dropped (x.waiting s)) := by
  refine ⟨⟨?_, ?_, ?_⟩, ?_⟩
  · have hkeys := congrArg (List.filter (· != s)) h.keys
    simpa [hqueues, hhandles, List.filter_map, Function.comp_def] using hkeys
  · rw [hqueues]
    exact h.nodup.sublist (List.filter_sublist.map _)
  · intro q hq
    rw [hqueues] at hq
    exact h.home q (List.mem_filter.mp hq).1
  · intro t
    have hmap : (Ledger.departed (dropped (x.waiting s))).map (·.1) = x.waiting s := by
      simp [Ledger.departed_dropped, Function.comp_def]
    rw [hmap, Ledger.entered_dropped, h.ofStream_waiting]
    by_cases hst : s = t
    · subst hst
      have hnone : y.waiting s = [] := waiting_eq_nil (by simp [hqueues])
      simp [hnone]
    · have hsame : y.waiting t = x.waiting t := by
        rw [waiting, waiting, queue?_detach hqueues (Ne.symm hst)]
      simp [hst, hsame]

theorem enqueue {sample : Sample H.Receiver} {pre post : List (StreamQueue H.Receiver)}
    {q : StreamQueue H.Receiver} (h : x.Registered) (hx : x.queues = pre ++ q :: post)
    (hid : q.id = sample.streamId)
    (hy : y.queues = pre ++ { q with samples := q.samples ++ [sample] } :: post)
    (hhandles : y.handles = x.handles) : Balanced x y [.queued sample] := by
  have hpre := h.ne_of_split hx
  refine ⟨?_, fun s => ?_⟩
  · refine h.revise hx hy hhandles rfl ?_
    intro other hother
    rcases List.mem_append.mp hother with hmem | hmem
    · exact h.home q (by simp [hx]) other hmem
    · rw [List.mem_singleton.mp hmem, hid]
  · by_cases hs : s = q.id
    · subst hs
      rw [waiting_of_split hx hpre, show y.waiting q.id = q.samples ++ [sample] from
        waiting_of_split hy hpre]
      simp [Ledger.entered, Ledger.departed, Effect.entered?, Effect.departures, Sample.ofStream,
        hid]
    · rw [waiting_eq_of_ne hx hy rfl hs]
      rw [hid] at hs
      simp [Ledger.entered, Ledger.departed, Effect.entered?, Effect.departures, Sample.ofStream,
        Ne.symm hs]

theorem release {sample : Sample H.Receiver} {rest : List (Sample H.Receiver)}
    {pre post : List (StreamQueue H.Receiver)} {q : StreamQueue H.Receiver} (h : x.Registered)
    (hx : x.queues = pre ++ q :: post) (hsamples : q.samples = sample :: rest)
    (hy : y.queues = pre ++ { q with samples := rest } :: post) (hhandles : y.handles = x.handles) :
    Balanced x y [.released (q.select sample)] := by
  have hpre := h.ne_of_split hx
  have hhome := h.home q (by simp [hx])
  rw [hsamples] at hhome
  have hid : sample.streamId = q.id := hhome sample List.mem_cons_self
  refine ⟨?_, fun s => ?_⟩
  · exact h.revise hx hy hhandles rfl fun other hother =>
      hhome other (List.mem_cons_of_mem _ hother)
  · by_cases hs : s = q.id
    · subst hs
      rw [waiting_of_split hx hpre, hsamples, show y.waiting q.id = rest from
        waiting_of_split hy hpre]
      simp [Ledger.entered, Ledger.departed, Effect.entered?, Effect.departures, Sample.ofStream,
        hid, StreamQueue.select]
    · rw [waiting_eq_of_ne hx hy rfl hs]
      rw [← hid] at hs
      simp [Ledger.entered, Ledger.departed, Effect.entered?, Effect.departures, Sample.ofStream,
        StreamQueue.select, Ne.symm hs]

theorem of_requeue (h : x.Registered) (hr : Requeue x task y effects) : Balanced x y effects := by
  cases hr with
  | keep hqueues hhandles hquiet =>
      have hblank := Ledger.blank_of_quiet hquiet
      exact keep h hqueues hhandles hblank.entered hblank.departed
  | register hnone hqueues hhandles => exact register h hnone hqueues hhandles
  | detach hplace hqueues hhandles => exact detach h hqueues hhandles
  | detachAll hqueues hhandles hquiet =>
      refine dropAll h ⟨by simp [hqueues, hhandles], by simp [hqueues], by simp [hqueues]⟩ ?_
        (Ledger.blank_of_quiet hquiet)
      exact fun s => waiting_eq_nil (by simp [hqueues])
  | @revise _ _ pre q q' post hx hy hid hsamples hhandles =>
      have hpre := h.ne_of_split hx
      refine ⟨h.revise hx hy hhandles hid (hsamples ▸ h.home q (by simp [hx])), fun s => ?_⟩
      by_cases hs : s = q.id
      · subst hs
        have hafter : y.waiting q.id = q.samples := by
          rw [← hid, ← hsamples]
          exact waiting_of_split hy (hid ▸ hpre)
        rw [waiting_of_split hx hpre, hafter]
        simp [Ledger.entered, Ledger.departed]
      · rw [waiting_eq_of_ne hx hy hid hs]
        simp [Ledger.entered, Ledger.departed]
  | enqueue hx hpre hid hy hhandles => exact enqueue h hx hid hy hhandles
  | clear hqueues hhandles =>
      have hids : y.queues.map (·.id) = x.queues.map (·.id) := by
        simp [hqueues, StreamQueue.clear, Function.comp_def]
      have hempty : ∀ q ∈ y.queues, q.samples = [] := by
        simp [hqueues, StreamQueue.clear]
      rw [← List.append_nil (dropped _)]
      refine dropAll h ⟨by rw [hhandles, hids, h.keys], hids ▸ h.nodup, ?_⟩ ?_
        (Ledger.blank_of_quiet (by simp))
      · intro q hq sample hsample
        simp [hempty q hq] at hsample
      · intro s
        unfold waiting
        cases hq : y.queue? s with
        | none => rfl
        | some q => simp [hempty q (queue?_eq_some hq).1]

end Balanced

end Presentation

end Playout
