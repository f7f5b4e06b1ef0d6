import Playout.Presentation.Basic

/-!
# Changes to one queue

An operation that is addressed to a stream number changes the first queue registered under it and
nothing else, or it fails because there is no such queue. These are the equations that later
arguments use in place of the operations themselves.
-/

namespace Playout.Presentation

variable {H : Platform} {x y : Presentation H} {s : StreamId}

theorem updateQueue_eq_ok {f : StreamQueue H.Receiver → StreamQueue H.Receiver}
    (h : x.updateQueue s f = .ok y) :
    ∃ pre q post, x.queues = pre ++ q :: post ∧ (∀ p ∈ pre, p.id ≠ s) ∧ q.id = s ∧
      y = { x with queues := pre ++ f q :: post } := by
  unfold updateQueue at h
  cases hi : x.queues.findIdx? (·.id == s) with
  | none => simp [hi] at h
  | some i =>
      obtain ⟨hlt, hid, hpre⟩ := List.findIdx?_eq_some_iff_getElem.mp hi
      obtain ⟨pre, q, post, hsplit, hlen, hmod⟩ := List.exists_of_modify f hlt
      have hq : x.queues[i] = q := by simp [hsplit, ← hlen]
      refine ⟨pre, q, post, hsplit, ?_, ?_, ?_⟩
      · intro p hp
        obtain ⟨j, hj, rfl⟩ := List.getElem_of_mem hp
        have hne := hpre j (by omega)
        simpa [hsplit, List.getElem_append_left hj] using hne
      · simpa [hq] using hid
      · simp only [hi, Except.ok.injEq] at h
        rw [← h, hmod]

theorem updateQueue_eq_error (h : x.queue? s = none)
    (f : StreamQueue H.Receiver → StreamQueue H.Receiver) :
    x.updateQueue s f = .error (.streamNotFound x.id s) := by
  have hnone : x.queues.findIdx? (·.id == s) = none :=
    List.findIdx?_eq_none_iff.mpr (by simpa [queue?] using h)
  simp [updateQueue, hnone]

/-- It fails only if there is no such queue. -/
theorem unregistered_of_updateQueue {f : StreamQueue H.Receiver → StreamQueue H.Receiver}
    {e : SessionError}
    (h : x.updateQueue s f = .error e) : e = .streamNotFound x.id s ∧ ∀ q ∈ x.queues, q.id ≠ s := by
  unfold updateQueue at h
  cases hi : x.queues.findIdx? (·.id == s) with
  | none =>
      rw [hi] at h
      cases h
      exact ⟨rfl, by simpa using List.findIdx?_eq_none_iff.mp hi⟩
  | some i =>
      rw [hi] at h
      cases h

/-- A queued sample goes to the end of its stream's queue. -/
theorem enqueue_eq_ok {sample : Sample H.Receiver} (h : x.enqueue sample = .ok y) :
    ∃ pre q post, x.queues = pre ++ q :: post ∧ (∀ p ∈ pre, p.id ≠ sample.streamId) ∧
      q.id = sample.streamId ∧
      y = { x with queues := pre ++ { q with samples := q.samples ++ [sample] } :: post } :=
  updateQueue_eq_ok h

theorem endStream_eq_ok (h : x.endStream s = .ok y) :
    ∃ pre q post, x.queues = pre ++ q :: post ∧ (∀ p ∈ pre, p.id ≠ s) ∧ q.id = s ∧
      y = { x with queues := pre ++ { q with eos := true } :: post, eos := true } := by
  unfold endStream at h
  cases hu : x.updateQueue s fun q => { q with eos := true } with
  | error e => simp [hu, Except.map] at h
  | ok z =>
      obtain ⟨pre, q, post, hsplit, hpre, hid, rfl⟩ := updateQueue_eq_ok hu
      simp only [hu, Except.map, Except.ok.injEq] at h
      exact ⟨pre, q, post, hsplit, hpre, hid, h.symm⟩

/-- Negotiation changes the type and the size of one stream and, for audio, the audio format. -/
theorem configure_eq_ok {media : MediaType} (h : x.configure s media = .ok y) :
    ∃ pre q post, x.queues = pre ++ q :: post ∧ (∀ p ∈ pre, p.id ≠ s) ∧ q.id = s ∧
      y =
        { x with
          queues := pre ++
            { q with majorType := media.majorType, width := media.width, height := media.height } ::
              post
          audioFormat :=
            if media.majorType == .audio then .ofMediaType media else x.audioFormat } := by
  unfold configure at h
  cases hu : x.updateQueue s fun q =>
      { q with majorType := media.majorType, width := media.width, height := media.height } with
  | error e => simp [hu, Except.map] at h
  | ok z =>
      obtain ⟨pre, q, post, hsplit, hpre, hid, rfl⟩ := updateQueue_eq_ok hu
      simp only [hu, Except.map, Except.ok.injEq] at h
      refine ⟨pre, q, post, hsplit, hpre, hid, ?_⟩
      rw [← h]
      split <;> rfl

theorem queue?_isSome_iff : (x.queue? s).isSome ↔ ∃ q ∈ x.queues, q.id = s := by
  simp [queue?, List.find?_isSome]

theorem queue?_eq_some {q : StreamQueue H.Receiver} (h : x.queue? s = some q) :
    q ∈ x.queues ∧ q.id = s :=
  ⟨List.mem_of_find?_eq_some h, by simpa using List.find?_some h⟩

/-! ## One queue among others -/

variable {pre post : List (StreamQueue H.Receiver)} {q q' : StreamQueue H.Receiver} {u : StreamId}

theorem queue?_of_split (hx : x.queues = pre ++ q :: post) (hid : q.id = u)
    (hpre : ∀ p ∈ pre, p.id ≠ u) :
    x.queue? u = some q := by
  have hnone : pre.find? (·.id == u) = none := by simpa using hpre
  simp [queue?, hx, List.find?_append, hnone, hid]

theorem queue?_revise (hx : x.queues = pre ++ q :: post) (hy : y.queues = pre ++ q' :: post)
    (hid : q'.id = q.id) (hu : u ≠ q.id) : y.queue? u = x.queue? u := by
  simp [queue?, hx, hy, List.find?_append, hid, Ne.symm hu]

theorem queue?_register (hy : y.queues = x.queues ++ [.new s]) (hu : u ≠ s) :
    y.queue? u = x.queue? u := by
  simp [queue?, hy, List.find?_append, StreamQueue.new, Ne.symm hu]

theorem queue?_detach (hy : y.queues = x.queues.filter (·.id != s)) (hu : u ≠ s) :
    y.queue? u = x.queue? u := by
  rw [queue?, queue?, hy, List.find?_filter]
  congr 1
  funext q
  by_cases hq : q.id = u
  · simp [hq, hu]
  · simp [hq]

end Playout.Presentation
