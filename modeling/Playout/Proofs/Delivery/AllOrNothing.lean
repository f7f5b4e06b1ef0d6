import Playout.Proofs.Delivery.Debts

/-!
# Pushes that succeed and pushes that fail

A push decodes its chunk and then queues what came of it, and may fail in both parts. If it fails in
either, it leaves nothing behind but what the decoder made of the chunk for itself. If it succeeds,
one sample has come to the end of one queue.
-/

namespace Playout

variable {H : Platform}

namespace Presentation

variable {c : Surroundings H} {x y : Presentation H} {place : Nat} {chunk : Chunk H.Receiver}
  {sample : Sample H.Receiver} {move : Move H}

/-- The first part of a push, for any presentation and any decoder: it fails because the
presentation is gone, because the stream has no decoder, or because the decoder fails, or it goes on
to queue what it takes out of the decoder, which may be nothing. -/
inductive Digests (c : Surroundings H) (x : Presentation H) (place : Nat)
    (chunk : Chunk H.Receiver) :
    Move H → Prop where
  | gone : c.alive = false ∨ x.streams[place]? = none →
      Digests c x place chunk { presentation := x, result := some (.error gone) }
  | undecoded {s} : c.alive → x.streams[place]? = some s → s.decoder = none →
      Digests c x place chunk { presentation := x
                                result := some (.error (.decoderNotConfigured s.id)) }
  | undecodable {s bound d e} : c.alive → x.streams[place]? = some s → s.decoder = some bound →
      H.decoderOps.decode bound.decoder chunk.data chunk.flags = (d, .error e) →
      Digests c x place chunk
        { presentation := x.bindDecoder place (some { bound with decoder := d })
          result := some (.error e) }
  | decoded {s bound d} : c.alive → x.streams[place]? = some s → s.decoder = some bound →
      H.decoderOps.decode bound.decoder chunk.data chunk.flags = (d, .ok ()) →
      Digests c x place chunk
        { presentation := x.bindDecoder place (some { bound with
                                                      decoder := (H.decoderOps.take d).1 })
          next := [.enqueue
            { streamId := s.id, sampleId := chunk.sampleId, startTime := chunk.startTime
              endTime := chunk.endTime,
              duration := chunk.duration, payload := (H.decoderOps.take d).2,
              pixelFormat := H.decoderOps.pixelFormat (H.decoderOps.take d).1,
              dataSize := Sample.reportedSize (H.decoderOps.take d).2, receiver := chunk.receiver }]
                }

/-- The second part of a push: the stream is not registered any more, or the sample gets to the end
of its queue. -/
inductive Queues (x : Presentation H) (sample : Sample H.Receiver) : Move H → Prop where
  | unregistered : (∀ q ∈ x.queues, q.id ≠ sample.streamId) →
      Queues x sample
        { presentation := x
          result := some (.error (.session (.streamNotFound x.id sample.streamId))) }
  | queued {pre q post} : x.queues = pre ++ q :: post → (∀ p ∈ pre, p.id ≠ sample.streamId) →
      q.id = sample.streamId →
      Queues x sample
        { presentation := { x with
                            queues := pre ++ { q with samples := q.samples ++ [sample] } :: post }
          effects := [.queued sample]
          result := some (.ok ()) }

theorem perform_push_digests (c : Surroundings H) (x : Presentation H) (place : Nat)
    (chunk : Chunk H.Receiver) :
    ∃ move, x.perform c (.push place chunk) = .moves move ∧ Digests c x place chunk move := by
  simp only [perform]
  rcases throughHandle_cases c x place fun s => x.decode place s chunk with
    ⟨hgone, hfails⟩ | ⟨s, halive, hs, hfound⟩
  · exact ⟨_, hfails, .gone hgone⟩
  · have hbound : x.boundDecoder? place = s.decoder := by simp [boundDecoder?, hs]
    rw [hfound, decode, hbound]
    cases hd : s.decoder with
    | none => exact ⟨_, rfl, .undecoded halive hs hd⟩
    | some bound =>
        rcases hdecode : H.decoderOps.decode bound.decoder chunk.data chunk.flags with ⟨d, e | ⟨⟩⟩
        · exact ⟨_, by simp only [hdecode]; rfl, .undecodable halive hs hd hdecode⟩
        · exact ⟨_, by simp only [hdecode]; rfl, .decoded halive hs hd hdecode⟩

theorem perform_enqueue_queues (c : Surroundings H) (x : Presentation H)
    (sample : Sample H.Receiver) :
    ∃ move, x.perform c (.enqueue sample) = .moves move ∧ Queues x sample move := by
  simp only [perform]
  cases hy : x.enqueue sample with
  | error e =>
      obtain ⟨rfl, hnone⟩ := unregistered_of_updateQueue hy
      exact ⟨_, rfl, .unregistered hnone⟩
  | ok y =>
      obtain ⟨pre, q, post, hsplit, hpre, hid, rfl⟩ := enqueue_eq_ok hy
      exact ⟨_, rfl, .queued hsplit hpre hid⟩

theorem Digests.of_moves (h : x.perform c (.push place chunk) = .moves move) :
    Digests c x place chunk move :=
  Outcome.kind_of_moves (perform_push_digests c x place chunk) h

theorem Queues.of_moves (h : x.perform c (.enqueue sample) = .moves move) : Queues x sample move :=
  Outcome.kind_of_moves (perform_enqueue_queues c x sample) h

theorem endsCall_enqueue (sample : Sample H.Receiver) : (Task.enqueue sample).EndsCall where
  busy := by simp
  moves c x := (perform_enqueue_queues c x sample).imp fun _ h => h.1
  ends c x move h := by cases Queues.of_moves h <;> exact ⟨rfl, rfl⟩

theorem inTwo_push (place : Nat) (chunk : Chunk H.Receiver) :
    (Task.push place chunk : Task H).InTwo where
  busy := by simp
  moves c x := (perform_push_digests c x place chunk).imp fun _ h => h.1
  goes c x move h := by
    cases Digests.of_moves h with
    | decoded => exact .inr ⟨_, rfl, rfl, endsCall_enqueue _⟩
    | _ => exact .inl ⟨rfl, rfl⟩

theorem Digests.exists_sample {next : Task H} (h : Digests c x place chunk move)
    (hnext : move.next = [next]) :
    ∃ sample, next = .enqueue sample := by
  cases h with
  | decoded =>
      cases hnext
      exact ⟨_, rfl⟩
  | _ => cases hnext

/-- A push that fails to queue its sample leaves everything as it is. -/
theorem Queues.of_error {e : MediaError} (h : Queues x sample move)
    (hresult : move.result = some (.error e)) :
    move.effects = [] ∧ move.presentation = x := by
  cases h with
  | unregistered => exact ⟨rfl, rfl⟩
  | queued => cases hresult

structure AlikeButDecoder (x : Presentation H) (place : Nat) (y : Presentation H) : Prop where
  rest : y = { x with streams := y.streams }
  others : ∀ i, i ≠ place → y.streams[i]? = x.streams[i]?
  number : y.numberAt? place = x.numberAt? place
  serial : (y.boundDecoder? place).map (·.serial) = (x.boundDecoder? place).map (·.serial)

theorem AlikeButDecoder.refl (x : Presentation H) (place : Nat) : x.AlikeButDecoder place x :=
  ⟨rfl, fun _ _ => rfl, rfl, rfl⟩

theorem AlikeButDecoder.of_bind {s : Stream H.Decoder} {bound : BoundDecoder H.Decoder}
    (hs : x.streams[place]? = some s) (hbound : s.decoder = some bound) (d : H.Decoder) :
    x.AlikeButDecoder place (x.bindDecoder place (some { bound with decoder := d })) where
  rest := rfl
  others i hi := by simp [bindDecoder, Ne.symm hi]
  number := numberAt?_bindDecoder ..
  serial := by simp [boundDecoder?, bindDecoder, hs, hbound]

/-- The first part of a push has no effect, and changes at most the state of the decoder. -/
theorem Digests.alike (h : Digests c x place chunk move) :
    move.effects = [] ∧ x.AlikeButDecoder place move.presentation := by
  cases h with
  | gone => exact ⟨rfl, .refl x place⟩
  | undecoded => exact ⟨rfl, .refl x place⟩
  | undecodable _ hs hbound => exact ⟨rfl, .of_bind hs hbound _⟩
  | decoded _ hs hbound => exact ⟨rfl, .of_bind hs hbound _⟩

end Presentation

/-! ## The course of a push -/

/-- How a push goes: it is over with the decoding, or the sample is queued afterwards. Its actor
does nothing else meanwhile. -/
inductive PushCourse (p : Key) (place : Nat) (chunk : Chunk H.Receiver) (a : ActorId)
    (between : List (Transition H)) (last : Transition H) : Except MediaError Unit → Prop where
  | once {answers x move result} : (∀ u ∈ between, ¬ u.IsBy a) →
      last.Carries p a (.push place chunk) answers x move →
      Presentation.Digests (last.before.surroundings a p answers) x place chunk move →
      move.result = some result → PushCourse p place chunk a between last result
  | twice {idle t more answers x move sample answers' y move' result} : between =
      idle ++ t :: more →
      (∀ u ∈ idle ++ more, ¬ u.IsBy a) →
      t.Carries p a (.push place chunk) answers x move →
      Presentation.Digests (t.before.surroundings a p answers) x place chunk move →
      move.next = [.enqueue sample] →
      last.Carries p a (.enqueue sample) answers' y move' →
      y.Queues sample move' → move'.result = some result →
        PushCourse p place chunk a between last result

/-- The transition has no effect, and changes nothing of any presentation but the state of
one decoder. -/
def Transition.TouchesDecoder (t : Transition H) (p : Key) (place : Nat) : Prop :=
  t.Amounts p fun x effects y => effects = [] ∧ x.AlikeButDecoder place y

namespace PushCourse

variable {p : Key} {place : Nat} {chunk : Chunk H.Receiver} {a : ActorId}
  {between : List (Transition H)}
  {last : Transition H} {result : Except MediaError Unit}

theorem of_inParts (h : InParts p a (.push place chunk) between last)
    (hresult : last.progress.result = some result) :
    PushCourse p place chunk a between last result := by
  cases h with
  | once hidle hcarries _ =>
      exact .once hidle hcarries (.of_moves hcarries.moves) (hcarries.result ▸ hresult)
  | twice hsplit hidle hcarries hnext hcarries' =>
      have hdigests := Presentation.Digests.of_moves hcarries.moves
      obtain ⟨sample, rfl⟩ := hdigests.exists_sample hnext
      exact .twice hsplit hidle hcarries hdigests hnext hcarries' (.of_moves hcarries'.moves)
        (hcarries'.result ▸ hresult)

/-- The actor of a push that fails changes nothing but the state of the decoder. -/
theorem touchesDecoder {e : MediaError} (h : PushCourse p place chunk a between last (.error e)) :
    ∀ t ∈ between ++ [last], t.IsBy a → t.TouchesDecoder p place := by
  cases h with
  | once hidle hcarries hdigests _ => exact own_of_once hidle (hcarries.amounts hdigests.alike)
  | twice hsplit hidle hcarries hdigests _ hcarries' hqueues hresult =>
      subst hsplit
      obtain ⟨heffects, hsame⟩ := hqueues.of_error hresult
      exact own_of_twice hidle (hcarries.amounts hdigests.alike)
        (hcarries'.amounts ⟨heffects, hsame ▸ .refl _ place⟩)

theorem acknowledged_last (h : PushCourse p place chunk a between last result) (q : Key) :
    Ledger.acknowledged (last.effects q) = [] := by
  cases h with
  | once _ hcarries hdigests _ =>
      rw [hcarries.effects_eq, hdigests.alike.1]
      split <;> rfl
  | twice _ _ _ _ _ hcarries' hqueues _ =>
      rw [hcarries'.effects_eq]
      cases hqueues <;> split <;> rfl

end PushCourse

/-- What becomes of a push that has returned. If it has failed, its actor has changed nothing
but the state of the decoder, and nobody ever hears of it. If it has succeeded, nobody has
heard of it yet. -/
structure AllOrNothing (p : Key) (place : Nat) (chunk : Chunk H.Receiver) (a : ActorId)
    (past : List (Transition H)) (first : Transition H) (between : List (Transition H))
    (last : Transition H)
    (after : List (Transition H)) (result : Except MediaError Unit) : Prop where
  returned : last.progress.result = some result
  course : PushCourse p place chunk a between last result
  untouched : ∀ e, result = .error e → ∀ t ∈ between ++ [last], t.IsBy a → t.TouchesDecoder p place
  never : ∀ e, result = .error e →
    Unheard chunk (past ++ first :: (between ++ last :: after)) (past ++ (between ++ last :: after))
  notYet : result = .ok () → Unheard chunk (past ++ first :: (between ++ [last])) (past ++ between)

namespace Machine

/-- A push leaves one more sample in its queue, or nothing. Its two parts are known for any
presentation, any decoder and any chunk; in every run, they are all that the push consists of, and
nobody hears of a push that has failed. -/
theorem pushes_all_or_nothing (config : Config) (decoders : DecoderBackends H.Codec)
    (outputs : AudioBackends H.Output) (actions : List (Action H)) {p : Key} {place : Nat}
    {chunk : Chunk H.Receiver} {a : ActorId} {past between after : List (Transition H)}
    {first last : Transition H}
    (htrace : ((initial config decoders outputs).run actions).trace =
      past ++ first :: (between ++ last :: after))
    (h : Makes a (.push ⟨p, place⟩ chunk) first between last) :
    (∀ (c : Surroundings H) (x : Presentation H),
      ∃ move, x.perform c (.push place chunk) = .moves move ∧
        Presentation.Digests c x place chunk move) ∧
      (∀ (c : Surroundings H) (x : Presentation H) (sample : Sample H.Receiver), ∃ move,
        x.perform c (.enqueue sample) = .moves move ∧ x.Queues sample move) ∧
      ∃ result, AllOrNothing p place chunk a past first between last after result := by
  obtain ⟨result, hresult⟩ := Option.isSome_iff_exists.mp (Transition.result_of_returns h.returned)
  have hcourse : PushCourse p place chunk a between last result :=
    .of_inParts (inParts_of_makes htrace h rfl rfl (Presentation.inTwo_push place chunk)) hresult
  refine ⟨fun c x => Presentation.perform_push_digests c x place chunk,
    Presentation.perform_enqueue_queues, result, hresult, hcourse, ?_, ?_, fun _ => ?_⟩
  · rintro e rfl
    exact hcourse.touchesDecoder
  · rintro e rfl
    exact .of_counted (fun _ f => answered_le_of_failed f htrace h hresult) chunk
  · obtain ⟨earlier, hrun, -⟩ := run_split _ actions
      (show _ = (past ++ first :: between) ++ last :: after by simpa using htrace)
    refine .of_counted (fun q f => ?_) chunk
    have hbefore : answered (past ++ first :: between) q f ≤ asked (past ++ between) q f :=
      answered_le_of_underway f (by rw [hrun]) h.called h.busy
    have hlast : answered (past ++ first :: (between ++ [last])) q f =
        answered (past ++ first :: between) q f := by
      simp [answered, hcourse.acknowledged_last q]
    rw [hlast]
    exact hbefore

open Playout.Action in
def oneQueued : List (Action .plain) :=
  prepared (.video .unknown 4 4) [5] ++ [.addHost]

def lastChunk : Chunk Platform.plain.Receiver :=
  ⟨9, 20, 30, 10, .empty, [1], 7⟩

open Playout.Action in
/-- It has been decoded when another thread removes the stream. -/
def unregisteredMeanwhile : List (Action .plain) :=
  steps 0 1 ++ calling 1 (.removeStream 0 1) 4 ++ steps 0 1

open Playout.Action in
/-- The push of that chunk fails, also if another stream gets the number of the one that
was removed. -/
theorem unregisteredMeanwhile_fails :
    ∃ between after first last,
      (plain.run (oneQueued ++ .call 0 (.push ⟨0, 0⟩ lastChunk) ::
          (unregisteredMeanwhile ++ calling 0 (.createStream 0 1) 1))).trace =
        (plain.run oneQueued).trace ++ first :: (between ++ last :: after) ∧
      Makes 0 (.push ⟨0, 0⟩ lastChunk) first between last ∧
      AllOrNothing 0 0 lastChunk 0 (plain.run oneQueued).trace first between last after
        (.error (.session (.streamNotFound ⟨.replicate 16 0⟩ 1))) := by
  let c : Call .plain := .push ⟨0, 0⟩ lastChunk
  let r := ((plain.run oneQueued).final.invoke 0 c.jobs).run unregisteredMeanwhile
  have hbusy : ∀ t ∈ r.trace.dropLast, t.returns 0 = false := by decide +kernel
  have hfails : r.trace.getLast?.any fun t => t.returns 0 &&
      t.progress.result == some (.error (.session (.streamNotFound ⟨.replicate 16 0⟩ 1))) := by
    decide +kernel
  obtain ⟨last, hlast, hfails⟩ := (Option.any_eq_true _ _).mp hfails
  simp only [Bool.and_eq_true, beq_iff_eq] at hfails
  obtain ⟨between, after, first, htrace, hmakes⟩ :=
    makes_of_run (by decide +kernel) hbusy hlast hfails.1 (calling 0 (.createStream 0 1) 1)
  obtain ⟨-, -, result, houtcome⟩ := pushes_all_or_nothing _ _ _ _ htrace hmakes
  obtain rfl := Option.some.inj (houtcome.returned.symm.trans hfails.2)
  exact ⟨between, after, first, last, htrace, hmakes, houtcome⟩

end Machine

end Playout
