import Playout.Proofs.Playback.History

/-!
# Handles on streams

A handle knows its stream by the place. Streams stay in their places under their numbers, whatever
becomes of their registration, and only a load gives one a decoder. Without a decoder nothing can
be pushed through a handle; the rest of what goes through it fails when no stream is registered
under the number.
-/

namespace Playout

variable {H : Platform}

namespace Task

/-- The first task of a call through a handle on the stream at a place. -/
def isThrough (place : Nat) : Task H → Bool
  | .setFormat other _ _ => other == place
  | .push other _ => other == place
  | .endStream other => other == place
  | _ => false

def loadsFor (place : Nat) : Task H → Bool
  | .loadDecoder other _ _ => other == place
  | _ => false

theorem loadsFor_of_isPlanned {t : Task H} (h : t.isPlanned) (place : Nat) :
    t.loadsFor place = false := by
  cases t with
  | loadDecoder => cases h
  | _ => rfl

theorem loadsFor_of_isDuty {t : Task H} (h : t.isDuty) (place : Nat) :
    t.loadsFor place = false := by
  cases t with
  | loadDecoder => cases h
  | _ => rfl

end Task

namespace Presentation

variable {c : Surroundings H} {x y z : Presentation H} {task : Task H} {place : Nat}

def numberAt? (x : Presentation H) (place : Nat) : Option StreamId :=
  x.streams[place]?.map (·.id)

/-- The registered streams are where their registration says. -/
def Placed (x : Presentation H) : Prop :=
  ∀ handle ∈ x.handles, x.numberAt? handle.2 = some handle.1

theorem mem_of_findStream? {s : StreamId} (h : x.findStream? s = some place) :
    (s, place) ∈ x.handles := by
  obtain ⟨before, after, hsplit, -⟩ := List.lookup_eq_some_iff.mp h
  simp [hsplit]

theorem Placed.numberAt?_of_findStream? {s : StreamId} (hplaced : x.Placed)
    (h : x.findStream? s = some place) :
    x.numberAt? place = some s :=
  hplaced _ (mem_of_findStream? h)

/-- The streams stay where they are, and none is given a decoder unless one is loaded for it. -/
structure Lasts (x : Presentation H) (task : Task H) (y : Presentation H) : Prop where
  number : ∀ place s, x.numberAt? place = some s → y.numberAt? place = some s
  undecoded : ∀ place, task.loadsFor place = false → x.boundDecoder? place = none →
    y.boundDecoder? place = none
  handle : ∀ handle ∈ y.handles, handle ∈ x.handles ∨ y.numberAt? handle.2 = some handle.1

namespace Lasts

theorem placed (h : x.Lasts task y) (hplaced : x.Placed) : y.Placed := by
  intro handle hmem
  rcases h.handle handle hmem with hold | hnew
  · exact h.number _ _ (hplaced handle hold)
  · exact hnew

theorem trans (hxy : x.Lasts task y) (hyz : y.Lasts task z) : x.Lasts task z where
  number place s h := hyz.number place s (hxy.number place s h)
  undecoded place hload h := hyz.undecoded place hload (hxy.undecoded place hload h)
  handle handle hmem := by
    rcases hyz.handle handle hmem with hold | hnew
    · exact (hxy.handle handle hold).imp_right (hyz.number _ _)
    · exact .inr hnew

theorem of_each {f : Nat → Stream H.Decoder → Stream H.Decoder}
    (hstreams : ∀ place, y.streams[place]? = x.streams[place]?.map (f place))
    (hid : ∀ place stream, (f place stream).id = stream.id)
    (hdecoder : ∀ place stream, task.loadsFor place = false → x.streams[place]? = some stream →
      stream.decoder = none → (f place stream).decoder = none)
    (hhandles : ∀ handle ∈ y.handles, handle ∈ x.handles) : x.Lasts task y where
  number place s h := by
    obtain ⟨stream, hstream, rfl⟩ := Option.map_eq_some_iff.mp h
    simp [numberAt?, hstreams, hstream, hid]
  undecoded place hload h := by
    unfold boundDecoder? at h ⊢
    rw [hstreams]
    cases hstream : x.streams[place]? with
    | none => rfl
    | some stream =>
        rw [hstream] at h
        exact hdecoder place stream hload hstream h
  handle handle hmem := .inl (hhandles handle hmem)

theorem of_same (hstreams : y.streams = x.streams)
    (hhandles : ∀ handle ∈ y.handles, handle ∈ x.handles) :
    x.Lasts task y :=
  of_each (f := fun _ stream => stream) (by simp [hstreams]) (fun _ _ => rfl)
    (fun _ _ _ _ h => h) hhandles

theorem refl (x : Presentation H) (task : Task H) : x.Lasts task x :=
  of_same rfl fun _ h => h

/-- The stream at a place has been changed, but not in its number. -/
theorem of_modify {f : Stream H.Decoder → Stream H.Decoder}
    (hstreams : y.streams = x.streams.modify place f)
    (hhandles : y.handles = x.handles) (hid : ∀ stream, (f stream).id = stream.id)
    (hdecoder : ∀ stream, task.loadsFor place = false → x.streams[place]? = some stream →
      stream.decoder = none → (f stream).decoder = none) : x.Lasts task y := by
  refine of_each (f := fun i stream => if place = i then f stream else stream) ?_ ?_ ?_
    (by simp [hhandles])
  · intro i
    rw [hstreams, List.getElem?_modify]
    rfl
  · intro i stream
    split
    · exact hid stream
    · rfl
  · intro i stream hload hstream hnone
    split
    · rename_i hi
      subst hi
      exact hdecoder stream hload hstream hnone
    · exact hnone

/-- A stream that has no decoder is given one by a load only. -/
theorem of_bindDecoder {d : Option (BoundDecoder H.Decoder)}
    (hd : task.loadsFor place = false → x.boundDecoder? place = none → d = none) :
    x.Lasts task (x.bindDecoder place d) := by
  refine of_modify rfl rfl (fun _ => rfl) fun stream hload hstream hnone => hd hload ?_
  rw [boundDecoder?, hstream]
  exact hnone

/-- A new stream gets the place behind the others, and has no decoder. -/
theorem of_createStream {s : StreamId} (hstreams : y.streams = x.streams ++ [⟨s, none, 1⟩])
    (hhandles : y.handles = x.handles ++ [(s, x.streams.length)]) : x.Lasts task y where
  number place t h := by
    obtain ⟨stream, hstream, rfl⟩ := Option.map_eq_some_iff.mp h
    have hlt := (List.getElem?_eq_some_iff.mp hstream).1
    simp [numberAt?, hstreams, List.getElem?_append_left hlt, hstream]
  undecoded place _ h := by
    unfold boundDecoder? at h ⊢
    rw [hstreams]
    by_cases hlt : place < x.streams.length
    · rwa [List.getElem?_append_left hlt]
    · rw [List.getElem?_append_right (Nat.not_lt.mp hlt)]
      cases place - x.streams.length <;> rfl
  handle handle hmem := by
    rw [hhandles] at hmem
    rcases List.mem_append.mp hmem with hold | hnew
    · exact .inl hold
    · rw [List.mem_singleton.mp hnew]
      exact .inr (by simp [numberAt?, hstreams])

end Lasts

theorem createStream_lasts {s : StreamId} {move : Move H}
    (h : x.perform c (.createStream s) = .moves move) :
    x.Lasts (.createStream s) move.presentation := by
  simp only [perform, createStream] at h
  split at h
  · cases h
    exact .refl x _
  · rename_i y hy
    cases h
    split at hy
    · cases hy
    · cases hy
      exact .of_createStream rfl rfl

theorem forgetStream_lasts {move : Move H} (h : x.perform c (.forgetStream place) = .moves move) :
    x.Lasts (.forgetStream place) move.presentation := by
  have hfewer : x.Lasts (.forgetStream place)
      { x with streams := x.streams.modify place fun s => { s with holders := s.holders - 1 } } :=
    .of_modify rfl rfl (fun _ => rfl) fun _ _ _ h => h
  simp only [perform, forgetStream] at h
  split at h
  · cases h
    exact hfewer
  · cases h
    exact hfewer.trans (.of_bindDecoder fun _ _ => rfl)

theorem loadDecoder_lasts {name : String} {media : MediaType} {move : Move H}
    (h : x.perform c (.loadDecoder place name media) = .moves move) :
    x.Lasts (.loadDecoder place name media) move.presentation := by
  have hload : ∀ d made, x.Lasts (.loadDecoder place name media)
      (bindDecoder { x with decodersMade := made } place d) := fun d made =>
    .of_modify rfl rfl (fun _ => rfl) fun _ hload => by simp [Task.loadsFor] at hload
  simp only [perform, loadDecoder] at h
  split at h <;> cases h <;> exact hload _ _

/-- What goes through a handle and finds no presentation leaves everything as it is. -/
theorem throughHandle_lasts {f : StreamId → Outcome H} {move : Move H}
    (h : x.throughHandle c place f = .moves move)
    (hf : ∀ s, f s = .moves move → x.Lasts task move.presentation) :
    x.Lasts task move.presentation := by
  unfold throughHandle at h
  split at h
  · exact hf _ h
  · cases h
    exact .refl x _

theorem setFormat_lasts {decoder : Option String} {media : MediaType} {move : Move H}
    (h : x.perform c (.setFormat place decoder media) = .moves move) :
    x.Lasts (.setFormat place decoder media) move.presentation := by
  simp only [perform] at h
  refine throughHandle_lasts h fun s hs => ?_
  split at hs
  · cases hs
    exact .refl x _
  · rename_i y hy
    obtain ⟨pre, q, post, -, -, -, rfl⟩ := configure_eq_ok hy
    cases hs
    exact .of_same rfl fun _ h => h

theorem push_lasts {chunk : Chunk H.Receiver} {move : Move H}
    (h : x.perform c (.push place chunk) = .moves move) :
    x.Lasts (.push place chunk) move.presentation := by
  simp only [perform] at h
  refine throughHandle_lasts h fun s hs => ?_
  unfold decode at hs
  split at hs
  · cases hs
    exact .refl x _
  · rename_i bound hbound
    have hbind : ∀ d, x.Lasts (.push place chunk) (x.bindDecoder place d) := fun d =>
      .of_bindDecoder fun _ hnone => by simp [hbound] at hnone
    split at hs <;> cases hs <;> exact hbind _

theorem endStream_lasts {move : Move H} (h : x.perform c (.endStream place) = .moves move) :
    x.Lasts (.endStream place) move.presentation := by
  simp only [perform] at h
  refine throughHandle_lasts h fun s hs => ?_
  split at hs
  · cases hs
    exact .refl x _
  · rename_i y hy
    obtain ⟨pre, q, post, -, -, -, rfl⟩ := endStream_eq_ok hy
    cases hs
    exact .of_same rfl fun _ h => h

theorem reclaim_lasts {move : Move H} (h : x.perform c .reclaim = .moves move) :
    x.Lasts .reclaim move.presentation := by
  simp only [perform, reclaim] at h
  split at h
  · cases h
    exact .refl x _
  · cases h
    refine .of_each (f := fun _ s => if s.holders == 0 then { s with decoder := none } else s)
      (fun _ => List.getElem?_map ..) (fun _ s => ?_) (fun _ s _ _ hnone => ?_) fun _ h =>
        absurd h List.not_mem_nil
    · split <;> rfl
    · split
      · rfl
      · exact hnone

theorem detachStream_lasts {s : StreamId} {move : Move H}
    (h : x.perform c (.detachStream s) = .moves move) :
    x.Lasts (.detachStream s) move.presentation := by
  simp only [perform, detachStream] at h
  split at h
  · cases h
    exact .refl x _
  · rename_i d hd
    cases h
    split at hd
    · cases hd
    · cases hd
      exact .of_same rfl fun _ h => (List.mem_filter.mp h).1

theorem perform_lasts {move : Move H} (hfree : task.isDuty = false)
    (h : x.perform c task = .moves move) :
    x.Lasts task move.presentation := by
  cases task with
  | createStream s => exact createStream_lasts h
  | holdStream place =>
      cases h
      exact .of_modify rfl rfl (fun _ => rfl) fun _ _ _ h => h
  | forgetStream place => exact forgetStream_lasts h
  | detachStream s => exact detachStream_lasts h
  | detachStreams =>
      cases h
      exact .of_same rfl fun _ h => absurd h List.not_mem_nil
  | releaseDecoders places =>
      cases places with
      | nil =>
          cases h
          exact .refl x _
      | cons place places =>
          cases h
          exact .of_bindDecoder fun _ _ => rfl
  | setFormat place decoder media => exact setFormat_lasts h
  | loadDecoder place name media => exact loadDecoder_lasts h
  | push place chunk => exact push_lasts h
  | enqueue sample =>
      simp only [perform] at h
      split at h
      · cases h
        exact .refl x _
      · rename_i y hy
        obtain ⟨pre, q, post, -, -, -, rfl⟩ := enqueue_eq_ok hy
        cases h
        exact .of_same rfl fun _ h => h
  | endStream place => exact endStream_lasts h
  | reclaim => exact reclaim_lasts h
  | start =>
      rcases start_cases h with ⟨-, rfl⟩ | ⟨_, -, -, rfl⟩ | ⟨-, rfl⟩ <;>
        exact .of_same rfl fun _ h => h
  | inspectThread =>
      simp only [perform] at h
      split at h <;> cases h <;> exact .of_same rfl fun _ h => h
  | awaitStopped thread =>
      simp only [perform] at h
      split at h <;> cases h
      exact .refl x _
  | join thread =>
      simp only [perform] at h
      split at h <;> cases h
      exact .refl x _
  | repaint =>
      simp only [perform, takeLastRendered] at h
      split at h <;> cases h <;> exact .of_same rfl fun _ h => h
  | offer event =>
      cases h
      exact .refl x _
  | setGeometry | setAudioDevice | keepThread | requestExit | clearQueues | flushSink | letGo
  | callback | finish =>
      cases h
      exact .of_same rfl fun _ h => h
  | _ => cases hfree

end Presentation

theorem Advance.lasts {c : Surroundings H} {x y : Presentation H} {s : Standing H}
    {effects : List (Effect H)}
    {s? : Option (Standing H)} (h : Advance c x s y effects s?) : x.Lasts s.duty y := by
  cases h with
  | frame =>
      rw [Presentation.beginFrame_snd]
      exact .of_same rfl fun _ h => h
  | _ => exact .of_same rfl fun _ h => h

theorem Scene.Step.lasts {scene next : Scene H} {deed : Deed H} (h : Step scene deed next) :
    scene.presentation.Lasts deed.task next.presentation := by
  cases h with
  | aside hfree _ hmove => exact Presentation.perform_lasts hfree hmove
  | start => exact .of_same rfl fun _ h => h
  | duty hadv => exact hadv.lasts

theorem Crewed.number_kept {m m' : Machine H} {p : Key} {crew crew' : Crew H}
    {doing? : Option (ActorId × Deed H)}
    {x : Presentation H} (h : Crewed m p crew) (hturn : Turn m m' p crew doing? crew')
    (hx : m.presentations[p]? = some x) :
    ∃ y, m'.presentations[p]? = some y ∧ ∀ place s, x.numberAt? place = some s →
      y.numberAt? place = some s := by
  obtain ⟨y, hy⟩ := hturn.exists_after hx
  refine ⟨y, hy, ?_⟩
  rcases h.step_of_turn hturn hx hy with ⟨-, rfl, -⟩ | ⟨b, deed, -, hstep⟩
  · exact fun _ _ hs => hs
  · exact hstep.lasts.number

/-! ## Calls through a handle -/

namespace Presentation

variable {c : Surroundings H} {x : Presentation H} {task : Task H} {place : Nat} {s : StreamId}

theorem boundDecoder?_bindDecoder_none (x : Presentation H) (place : Nat) :
    (x.bindDecoder place none).boundDecoder? place = none := by
  simp only [boundDecoder?, bindDecoder, List.getElem?_modify]
  cases x.streams[place]? <;> simp

@[simp] theorem numberAt?_bindDecoder (x : Presentation H) (place other : Nat)
    (d : Option (BoundDecoder H.Decoder)) :
    (x.bindDecoder place d).numberAt? other = x.numberAt? other := by
  simp only [numberAt?, bindDecoder, List.getElem?_modify]
  cases x.streams[other]? with
  | none => rfl
  | some stream => by_cases hplace : place = other <;> simp [hplace]

/-- What goes through a handle finds its stream, unless the presentation is gone. -/
theorem throughHandle_cases (c : Surroundings H) (x : Presentation H) (place : Nat)
    (f : StreamId → Outcome H) :
    (c.alive = false ∨ x.streams[place]? = none) ∧
      x.throughHandle c place f = x.returning (.error gone) [] ∨
      ∃ stream, c.alive ∧ x.streams[place]? = some stream ∧
        x.throughHandle c place f = f stream.id := by
  unfold throughHandle
  split
  · rename_i stream halive hstream
    exact .inr ⟨stream, halive, hstream, rfl⟩
  · rename_i hgone
    refine .inl ⟨?_, rfl⟩
    cases halive : c.alive with
    | false => exact .inl rfl
    | true =>
        exact .inr (Option.eq_none_iff_forall_ne_some.mpr fun stream hs => hgone stream halive hs)

theorem throughHandle_fails {f : StreamId → Outcome H} (hstream : x.numberAt? place = some s)
    (hf : ∃ e, f s = x.returning (.error e) []) :
    ∃ e, x.throughHandle c place f = x.returning (.error e) [] := by
  unfold throughHandle
  split
  · rename_i stream _ hfound
    obtain rfl : stream.id = s := by simpa [numberAt?, hfound] using hstream
    exact hf
  · exact ⟨gone, rfl⟩

theorem setFormat_fails (hstream : x.numberAt? place = some s) (hnone : x.queue? s = none)
    (decoder : Option String) (media : MediaType) :
    ∃ e, x.perform c (.setFormat place decoder media) = x.returning (.error e) [] := by
  simp only [perform]
  refine throughHandle_fails hstream ⟨.session (.streamNotFound x.id s), ?_⟩
  rw [configure, updateQueue_eq_error hnone]
  rfl

theorem push_fails (hstream : x.numberAt? place = some s)
    (hundecoded : x.boundDecoder? place = none) (chunk : Chunk H.Receiver) : ∃ e,
      x.perform c (.push place chunk) = x.returning (.error e) [] := by
  simp only [perform]
  refine throughHandle_fails hstream ⟨.decoderNotConfigured s, ?_⟩
  rw [decode, hundecoded]

theorem endStream_fails (hstream : x.numberAt? place = some s) (hnone : x.queue? s = none) :
    ∃ e, x.perform c (.endStream place) = x.returning (.error e) [] := by
  simp only [perform]
  refine throughHandle_fails hstream ⟨.session (.streamNotFound x.id s), ?_⟩
  rw [endStream, updateQueue_eq_error hnone]
  rfl

/-- What goes through a handle fails at once and changes nothing, if the stream has no decoder and
no stream is registered under its number. A push does not even come as far as to look for one. -/
theorem perform_through (hstream : x.numberAt? place = some s)
    (hundecoded : x.boundDecoder? place = none)
    (hthrough : task.isThrough place) (hnone : task.isFeed = false → x.queue? s = none) :
    ∃ e, x.perform c task = x.returning (.error e) [] := by
  cases task with
  | setFormat other decoder media =>
      obtain rfl : other = place := by simpa [Task.isThrough] using hthrough
      exact setFormat_fails hstream (hnone rfl) decoder media
  | push other chunk =>
      obtain rfl : other = place := by simpa [Task.isThrough] using hthrough
      exact push_fails hstream hundecoded chunk
  | endStream other =>
      obtain rfl : other = place := by simpa [Task.isThrough] using hthrough
      exact endStream_fails hstream (hnone rfl)
  | _ => cases hthrough

/-- A load comes of a negotiation that has found a stream under the number. -/
theorem next_unloading {move : Move H} (hfree : task.isDuty = false)
    (hstart : task = .start → x.launches c = false)
    (h : x.perform c task = .moves move) (hstream : x.numberAt? place = some s)
    (hnone : ∀ decoder media, task = .setFormat place decoder media → x.queue? s = none) :
    ∀ t ∈ move.next, t.loadsFor place = false := by
  have hconduct := h ▸ perform_conduct (c := c) hfree hstart
  generalize ho : Outcome.moves move = o at hconduct
  cases hconduct with
  | @setFormat other decoder media =>
      intro t ht
      by_cases hother : other = place
      · subst hother
        obtain ⟨e, he⟩ := setFormat_fails (c := c) hstream (hnone decoder media rfl) decoder media
        rw [h] at he
        cases he
        cases ht
      · cases ho
        rw [List.mem_singleton.mp ht]
        simpa [Task.loadsFor] using hother
  | waits => cases ho
  | stopped =>
      cases ho
      intro t ht
      obtain ⟨thread, -, rfl⟩ := List.mem_map.mp ht
      rfl
  | _ =>
      cases ho
      simp [Task.loadsFor]

end Presentation

end Playout
