import Playout.Proofs.Presentation.Tables

/-!
# Streams and what is supplied to them

A stream's decoder and its queue make up its strand: the chunks that arrive are decoded in turn and
queued, until the end of the stream is noted. A push is done in two parts, and between them the
sample is on its way. What arrives at one stream changes no other, and a presentation is told by its
strands and by whether some stream has ended.
-/

namespace Playout

variable {H : Platform}

/-- What a host supplies to a stream: another chunk, or the notice that there are no more. -/
inductive Arrival (H : Platform) where
  | chunk (chunk : Chunk H.Receiver)
  | closing

namespace Arrival

def isClosing : Arrival H → Bool
  | .closing => true
  | .chunk _ => false

def ofPlace (place : Nat) (arrivals : List (Nat × Arrival H)) : List (Arrival H) :=
  arrivals.filterMap fun (other, arrival) => if other = place then some arrival else none

variable {place other : Nat} {arrival : Arrival H} {arrivals more : List (Nat × Arrival H)}

theorem ofPlace_concat_self :
    ofPlace place (arrivals ++ [(place, arrival)]) = ofPlace place arrivals ++ [arrival] := by
  simp [ofPlace]

theorem ofPlace_concat_of_ne (h : other ≠ place) :
    ofPlace place (arrivals ++ [(other, arrival)]) = ofPlace place arrivals := by
  simp [ofPlace, h]

theorem any_isClosing_iff :
    arrivals.any (·.2.isClosing) ↔ ∃ place, (closing : Arrival H) ∈ ofPlace place arrivals := by
  rw [List.any_eq_true]
  constructor
  · rintro ⟨⟨place, arrival⟩, hmem, hclosing⟩
    cases arrival with
    | closing => exact ⟨place, List.mem_filterMap.mpr ⟨_, hmem, by simp⟩⟩
    | chunk chunk => cases hclosing
  · rintro ⟨place, hmem⟩
    obtain ⟨⟨other, arrival⟩, harrival, hplace⟩ := List.mem_filterMap.mp hmem
    simp only [Option.ite_none_right_eq_some, Option.some.injEq] at hplace
    exact ⟨_, harrival, by rw [hplace.2]; rfl⟩

/-- Whether some stream has ended is told by what arrived at each. -/
theorem any_isClosing_eq (h : ∀ place, ofPlace place more = ofPlace place arrivals) :
    more.any (·.2.isClosing) = arrivals.any (·.2.isClosing) := by
  rw [Bool.eq_iff_iff, any_isClosing_iff, any_isClosing_iff]
  exact exists_congr fun place => by rw [h place]

end Arrival

namespace Task

def arrival? : Task H → Option (Nat × Arrival H)
  | .push place chunk => some (place, .chunk chunk)
  | .endStream place => some (place, .closing)
  | _ => none

def isSupply (t : Task H) : Bool :=
  t.isFeed || t.arrival?.isSome

end Task

/-! ## One stream -/

structure Strand (H : Platform) where
  decoder : Option (BoundDecoder H.Decoder)
  queue : Option (StreamQueue H.Receiver)

namespace Strand

def add (σ : Strand H) (sample : Sample H.Receiver) : Strand H :=
  { σ with queue := σ.queue.map fun q => { q with samples := q.samples ++ [sample] } }

def close (σ : Strand H) : Strand H :=
  { σ with queue := σ.queue.map fun q => { q with eos := true } }

def settle (σ : Strand H) : Option (Sample H.Receiver) → Strand H
  | none => σ
  | some sample => σ.add sample

def take (s : StreamId) (σ : Strand H) : Arrival H → Strand H
  | .closing => σ.close
  | .chunk chunk =>
    match σ.decoder with
    | none => σ
    | some bound =>
      match H.decoderOps.decode bound.decoder chunk.data chunk.flags with
      | (_, .error _) => σ
      | (d, .ok ()) =>
        let (d, payload) := H.decoderOps.take d
        add { σ with decoder := some { bound with decoder := d } }
          (Sample.new s chunk.receiver chunk.sampleId chunk.startTime chunk.endTime chunk.duration
            payload
            (H.decoderOps.pixelFormat d))

end Strand

namespace Presentation

variable {c : Surroundings H} {x y : Presentation H} {place : Nat} {s u : StreamId}

def strand (x : Presentation H) (place : Nat) (s : StreamId) : Strand H :=
  ⟨x.boundDecoder? place, x.queue? s⟩

/-- The first part of a push: the chunk is given to the decoder, and the sample that comes of it is
on its way. -/
structure Decodes (x : Presentation H) (place : Nat) (s : StreamId) (chunk : Chunk H.Receiver)
    (y : Presentation H) (sample : Sample H.Receiver) : Prop where
  stream : sample.streamId = s
  strand : (x.strand place s).take s (.chunk chunk) = (y.strand place s).add sample
  change : ∃ d, y = x.bindDecoder place d

theorem perform_push_ok {chunk : Chunk H.Receiver} {move : Move H}
    (hnumber : x.numberAt? place = some s)
    (h : x.perform c (.push place chunk) = .moves move) (hok : move.result.all (·.isOk)) :
    ∃ y sample, Decodes x place s chunk y sample ∧
      move = { presentation := y, next := [.enqueue sample] } := by
  have hfail : ∀ {y : Presentation H} {e : MediaError},
      y.returning (.error e) [] ≠ .moves move := by
    rintro y e heq
    cases heq
    cases hok
  simp only [perform, throughHandle] at h
  split at h
  · rename_i stream _ hstream
    obtain rfl : stream.id = s := by simpa [numberAt?, hstream] using hnumber
    have hbound? : x.boundDecoder? place = stream.decoder := by simp [boundDecoder?, hstream]
    simp only [decode, hbound?] at h
    cases hbound : stream.decoder with
    | none =>
        rw [hbound] at h
        exact absurd h hfail
    | some bound =>
        rw [hbound] at h
        dsimp only at h
        rcases hdecode : H.decoderOps.decode bound.decoder chunk.data chunk.flags with
          ⟨decoder, e | ⟨⟩⟩
        · rw [hdecode] at h
          exact absurd h hfail
        · rw [hdecode] at h
          cases h
          refine ⟨_, _, ⟨rfl, ?_, _, rfl⟩, rfl⟩
          simp [Presentation.strand, Strand.take, hbound, hdecode, Strand.add, bindDecoder,
            boundDecoder?, hstream, queue?]
  · exact absurd h hfail

theorem perform_enqueue_ok {sample : Sample H.Receiver} {move : Move H}
    (h : x.perform c (.enqueue sample) = .moves move) (hok : move.result.all (·.isOk)) :
    ∃ y, x.enqueue sample = .ok y ∧
      move = { presentation := y, effects := [.queued sample], result := some (.ok ()) } := by
  simp only [perform] at h
  cases hy : x.enqueue sample with
  | error e =>
      rw [hy] at h
      cases h
      cases hok
  | ok y =>
      rw [hy] at h
      cases h
      exact ⟨y, rfl, rfl⟩

theorem perform_endStream_ok {move : Move H} (hnumber : x.numberAt? place = some s)
    (h : x.perform c (.endStream place) = .moves move) (hok : move.result.all (·.isOk)) :
    ∃ y, x.endStream s = .ok y ∧ move = { presentation := y, result := some (.ok ()) } := by
  simp only [perform, throughHandle] at h
  split at h
  · rename_i stream _ hstream
    obtain rfl : stream.id = s := by simpa [numberAt?, hstream] using hnumber
    cases hy : x.endStream stream.id with
    | error e =>
        rw [hy] at h
        cases h
        cases hok
    | ok y =>
        rw [hy] at h
        cases h
        exact ⟨y, rfl, rfl⟩
  · cases h
    cases hok

theorem strand_of_enqueue {sample : Sample H.Receiver} (h : x.enqueue sample = .ok y) (place : Nat)
    (u : StreamId) :
    y.strand place u = if sample.streamId = u then (x.strand place u).add sample
      else x.strand place u := by
  obtain ⟨pre, q, post, hsplit, hpre, hid, rfl⟩ := enqueue_eq_ok h
  split
  · rename_i hu
    subst hu
    have hbefore := queue?_of_split hsplit hid hpre
    have hafter : queue? { x with
                           queues := pre ++ { q with samples := q.samples ++ [sample] } :: post }
        sample.streamId = some { q with samples := q.samples ++ [sample] } :=
          queue?_of_split rfl hid hpre
    simp [strand, Strand.add, hbefore, hafter, boundDecoder?]
  · rename_i hu
    have hsame : queue? { x with
                          queues := pre ++ { q with samples := q.samples ++ [sample] } :: post } u =
        x.queue? u := queue?_revise hsplit rfl rfl (hid ▸ Ne.symm hu)
    simp [strand, hsame, boundDecoder?]

theorem strand_of_endStream (h : x.endStream s = .ok y) (place : Nat) (u : StreamId) :
    y.strand place u = if s = u then (x.strand place u).close else x.strand place u := by
  obtain ⟨pre, q, post, hsplit, hpre, hid, rfl⟩ := endStream_eq_ok h
  split
  · rename_i hu
    subst hu
    have hbefore := queue?_of_split hsplit hid hpre
    have hafter : queue? { x with queues := pre ++ { q with eos := true } :: post, eos := true } s =
        some { q with eos := true } := queue?_of_split rfl hid hpre
    simp [strand, Strand.close, hbefore, hafter, boundDecoder?]
  · rename_i hu
    have hsame : queue? { x with queues := pre ++ { q with eos := true } :: post, eos := true } u =
        x.queue? u := queue?_revise hsplit rfl rfl (hid ▸ Ne.symm hu)
    simp [strand, hsame, boundDecoder?]

theorem strand_bindDecoder_of_ne {other : Nat} (x : Presentation H)
    (d : Option (BoundDecoder H.Decoder)) (hother : other ≠ place) (u : StreamId) :
    (x.bindDecoder place d).strand other u = x.strand other u := by
  simp [strand, boundDecoder?, bindDecoder, queue?, Ne.symm hother]

/-! ## One presentation -/

/-- What has become of a presentation whose streams have been supplied, but for the streams
themselves. -/
structure Stocked (x y : Presentation H) (arrivals : List (Nat × Arrival H)) : Prop where
  rest : y = { x with queues := y.queues, streams := y.streams, eos := y.eos }
  ids : y.streamIds = x.streamIds
  streams : ∀ i, y.streams[i]? = x.streams[i]?.map fun (stream : Stream H.Decoder) =>
    { stream with decoder := y.boundDecoder? i }
  unregistered : ∀ i, (∀ s, (s, i) ∉ x.handles) → y.boundDecoder? i = x.boundDecoder? i
  eos : y.eos = (x.eos || arrivals.any (·.2.isClosing))

namespace Stocked

variable {z : Presentation H} {arrivals : List (Nat × Arrival H)}

theorem refl (x : Presentation H) : Stocked x x [] where
  rest := rfl
  ids := rfl
  streams i := by
    cases hstream : x.streams[i]? with
    | none => rfl
    | some stream => simp [boundDecoder?, hstream]
  unregistered _ _ := rfl
  eos := by simp

theorem handles_eq (h : Stocked x y arrivals) : y.handles = x.handles := by
  rw [h.rest]

theorem numberAt?_eq (h : Stocked x y arrivals) (place : Nat) :
    y.numberAt? place = x.numberAt? place := by
  rw [numberAt?, numberAt?, h.streams]
  cases x.streams[place]? <;> rfl

theorem decode {d : Option (BoundDecoder H.Decoder)} {chunk : Chunk H.Receiver}
    (h : Stocked x y arrivals) (hplace : (s, place) ∈ x.handles) (hz : z = y.bindDecoder place d) :
    Stocked x z (arrivals ++ [(place, .chunk chunk)]) := by
  subst hz
  have hbound : ∀ i, (y.bindDecoder place d).boundDecoder? i =
      if place = i then y.streams[i]?.bind fun _ => d else y.boundDecoder? i := by
    intro i
    simp only [boundDecoder?, bindDecoder, List.getElem?_modify]
    split <;> cases y.streams[i]? <;> simp
  refine ⟨by rw [bindDecoder, h.rest], h.ids, fun i => ?_, fun i hi => ?_, ?_⟩
  · rw [hbound, bindDecoder, List.getElem?_modify, h.streams i]
    cases x.streams[i]? <;> by_cases hi : place = i <;> simp [hi]
  · rw [hbound, if_neg, h.unregistered i hi]
    rintro rfl
    exact hi s hplace
  · simpa [Arrival.isClosing, bindDecoder] using h.eos

theorem enqueue {sample : Sample H.Receiver} (h : Stocked x y arrivals)
    (hz : y.enqueue sample = .ok z) :
    Stocked x z arrivals := by
  obtain ⟨pre, q, post, hsplit, -, -, rfl⟩ := enqueue_eq_ok hz
  have hids : (pre ++ { q with samples := q.samples ++ [sample] } :: post).map (·.id) =
      y.streamIds := by
    simp [streamIds, hsplit]
  exact ⟨by rw [h.rest], hids.trans h.ids, h.streams, h.unregistered, h.eos⟩

theorem endStream (h : Stocked x y arrivals) (hz : y.endStream s = .ok z) :
    Stocked x z (arrivals ++ [(place, .closing)]) := by
  obtain ⟨pre, q, post, hsplit, -, -, rfl⟩ := endStream_eq_ok hz
  have hids : (pre ++ { q with eos := true } :: post).map (·.id) = y.streamIds := by
    simp [streamIds, hsplit]
  exact ⟨by rw [h.rest], hids.trans h.ids, h.streams, h.unregistered, by simp [Arrival.isClosing]⟩

end Stocked

/-- Lists of queues are the same if they hold the same streams and each stream has the
same queue. -/
theorem queues_eq {queues others : List (StreamQueue H.Receiver)}
    (hids : others.map (·.id) = queues.map (·.id)) (hnodup : (queues.map (·.id)).Nodup)
    (hsame : ∀ s ∈ queues.map (·.id), others.find? (·.id == s) = queues.find? (·.id == s)) :
    others = queues := by
  induction queues generalizing others with
  | nil => simpa using hids
  | cons q queues ih =>
      cases others with
      | nil => simp at hids
      | cons q' others =>
          simp only [List.map_cons, List.cons.injEq] at hids
          obtain ⟨hid, hids⟩ := hids
          obtain ⟨hnot, hrest⟩ := List.nodup_cons.mp hnodup
          have hfirst : q' = q := by simpa [hid] using hsame q.id (by simp)
          subst hfirst
          congr 1
          apply ih hids hrest
          intro s hs
          have hne : q'.id ≠ s := by
            rintro rfl
            exact hnot hs
          simpa [hne] using hsame s (List.mem_cons_of_mem _ hs)

/-- If as much has arrived and each registered stream has come to the same, the presentations
are the same. -/
theorem Stocked.eq {y z : Presentation H} {live : List StreamId}
    {arrivals more : List (Nat × Arrival H)}
    (htables : x.Tables live) (hy : Stocked x y arrivals) (hz : Stocked x z more)
    (hclosing : more.any (·.2.isClosing) = arrivals.any (·.2.isClosing))
    (hstrand : ∀ s place, (s, place) ∈ x.handles → z.strand place s = y.strand place s) :
    z = y := by
  have hqueues : z.queues = y.queues := by
    have hlive : y.queues.map (·.id) = live := hy.ids.trans htables.queues
    apply queues_eq (hz.ids.trans hy.ids.symm) (hlive ▸ htables.distinct)
    intro s hs
    rw [hlive, ← htables.handles] at hs
    obtain ⟨handle, hhandle, rfl⟩ := List.mem_map.mp hs
    exact congrArg (·.queue) (hstrand _ handle.2 hhandle)
  have hstreams : z.streams = y.streams := by
    refine List.ext_getElem? fun i => ?_
    rw [hz.streams, hy.streams]
    suffices hbound : z.boundDecoder? i = y.boundDecoder? i by rw [hbound]
    by_cases hi : ∃ s, (s, i) ∈ x.handles
    · obtain ⟨s, hs⟩ := hi
      exact congrArg (·.decoder) (hstrand s i hs)
    · have hnone : ∀ s, (s, i) ∉ x.handles := fun s hs => hi ⟨s, hs⟩
      rw [hz.unregistered i hnone, hy.unregistered i hnone]
  rw [hz.rest, hy.rest, hqueues, hstreams, hz.eos, hy.eos, hclosing]

end Presentation

end Playout
