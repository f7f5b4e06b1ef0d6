import Playout.Decoder.Passthrough
import Playout.Proofs.Delivery.Whereabouts
import Playout.Proofs.Plain

/-!
# Who is handed a payload

The notes of a presentation are what happens to released samples: the release, the dispatch, the
frame that is shown or the audio that is played, and the acknowledgment. They consist of one
delivery for each release, one after the other, and a delivery hands the payload to at most one
consumer, whatever that consumer answers.
-/

namespace Playout

variable {H : Platform}

inductive Note (H : Platform) where
  | released (selected : Selected H.Receiver)
  /-- The delivery begins, with this sink bound and video to be drawn there. -/
  | dispatched (sink : Option Nat) (output : Rect)
  | shown (frame : VideoFrame) (result : Except MediaError Unit)
  | played (sink : Nat) (payload : Payload) (result : Except MediaError Unit)
  | acknowledged (ticket : Ticket H.Receiver)

def Effect.note? : Effect H → Option (Note H)
  | .released selected => some (.released selected)
  | .offered (.videoFrame frame) result => some (.shown frame result)
  | .sink serial (.play payload result) => some (.played serial payload result)
  | .acknowledged receiver sampleId duration size =>
    some (.acknowledged ⟨receiver, sampleId, duration, size⟩)
  | _ => none

namespace Note

def release? : Note H → Option (Selected H.Receiver)
  | .released selected => some selected
  | _ => none

def isEffect : Note H → Bool
  | .dispatched .. => false
  | _ => true

end Note

namespace Deed

/-- The beginning of a delivery is no effect, but it is noted what the presentation was like. -/
def dispatched (d : Deed H) : List (Note H) :=
  match d.task with
  | .dispatch _ => [.dispatched (d.before.sink.map (·.serial)) d.before.output]
  | _ => []

def notes (d : Deed H) : List (Note H) :=
  d.dispatched ++ d.effects.filterMap (·.note?)

end Deed

def Run.notes (r : Run H) (p : Key) : List (Note H) :=
  (r.deeds p).flatMap (·.notes)

/-- The delivery of a released sample: the sink that was bound and where video was to be drawn when
it began, and what the consumer of the payload answered, if there was one. -/
structure Delivery (H : Platform) where
  selected : Selected H.Receiver
  sink : Option Nat
  output : Rect
  answer : Except MediaError Unit

namespace Delivery

/-- Video goes to the display, audio to the sink if there is one; nothing else goes to anybody. -/
def handoff (d : Delivery H) : List (Note H) :=
  match d.selected.majorType, d.selected.sample.payload with
  | .video, some payload =>
    [.shown
      { payload, pixelFormat := d.selected.sample.pixelFormat, frameWidth := d.selected.width,
        frameHeight := d.selected.height, output := d.output }
      d.answer]
  | .audio, some payload => d.sink.toList.map fun serial => .played serial payload d.answer
  | _, _ => []

def begun (d : Delivery H) : List (Note H) :=
  [.released d.selected, .dispatched d.sink d.output] ++ d.handoff

def notes (d : Delivery H) : List (Note H) :=
  d.begun ++ [.acknowledged d.selected.sample.ticket]

theorem handoff_release (d : Delivery H) : d.handoff.filterMap (·.release?) = [] := by
  unfold handoff
  split
  · simp [Note.release?]
  · cases d.sink <;> simp [Note.release?]
  · simp

theorem begun_release (d : Delivery H) : d.begun.filterMap (·.release?) = [d.selected] := by
  rw [begun, List.filterMap_append, handoff_release]
  rfl

theorem notes_release (ds : List (Delivery H)) :
    (ds.flatMap notes).filterMap (·.release?) = ds.map (·.selected) := by
  induction ds with
  | nil => rfl
  | cons d ds ih =>
      rw [List.flatMap_cons, List.filterMap_append, ih, notes, List.filterMap_append, begun_release]
      simp [Note.release?]

end Delivery

/-! ## One duty after the other -/

/-- The notes up to some moment: complete deliveries, and what has been done for the
sample in hand. -/
inductive Logged (ds : List (Delivery H)) : Option (Standing H) → List (Note H) → Prop where
  | between {s?} : Standing.inHand s? = [] → Logged ds s? (ds.flatMap Delivery.notes)
  | released {selected pacing} :
      Logged ds (some (.dispatching selected pacing))
        (ds.flatMap Delivery.notes ++ [.released selected])
  | showing {selected sink output frame sample pacing} :
      (∀ answer, Delivery.handoff ⟨selected, sink, output, answer⟩ = [.shown frame answer]) →
      sample.ticket = selected.sample.ticket →
      Logged ds (some (.showing frame sample pacing))
        (ds.flatMap Delivery.notes ++ [.released selected, .dispatched sink output])
  | handed {d : Delivery H} {sample pacing} : sample.ticket = d.selected.sample.ticket →
      Logged ds (some (.acknowledging sample pacing)) (ds.flatMap Delivery.notes ++ d.begun)

theorem Effect.note?_quiet {e : Effect H} (h : e.isQuiet) : e.note? = none := by
  cases e with
  | offered event => cases event <;> simp_all [isQuiet, note?]
  | sink serial call => cases call <;> simp_all [isQuiet, note?, SinkCall.isPlay]
  | _ => simp_all [isQuiet, note?]

theorem Effect.notes_quiet {effects : List (Effect H)} (h : ∀ e ∈ effects, e.isQuiet) :
    effects.filterMap (·.note?) = [] :=
  List.filterMap_eq_nil_iff.mpr fun e he => note?_quiet (h e he)

theorem Requeue.note_eq_nil {x y : Presentation H} {task : Task H} {effects : List (Effect H)}
    (h : Requeue x task y effects) : effects.filterMap (·.note?) = [] :=
  h.filterMap_eq_nil (fun _ => Effect.note?_quiet) (fun _ => rfl) (fun _ _ => rfl)

namespace Logged

variable {ds : List (Delivery H)} {notes : List (Note H)} {c : Surroundings H}
  {x y : Presentation H}
  {s : Standing H} {s? t? : Option (Standing H)} {effects : List (Effect H)}

theorem eq_of_between (h : Logged ds s? notes) (hs : Standing.inHand s? = []) :
    notes = ds.flatMap Delivery.notes := by
  cases h with
  | between => rfl
  | released => simp [Standing.inHand] at hs
  | showing => simp [Standing.inHand] at hs
  | handed => simp [Standing.inHand] at hs

theorem stay (h : Logged ds s? notes) (hs : Standing.inHand s? = []) (ht : Standing.inHand t? = [])
    {more : List (Note H)} (hmore : more = []) : Logged ds t? (notes ++ more) := by
  rw [h.eq_of_between hs, hmore, List.append_nil]
  exact .between ht

theorem release (h : Logged ds s? notes) (hs : Standing.inHand s? = [])
    {selected : Selected H.Receiver} {pacing : Pacing} (hquiet : ∀ e ∈ effects, e.isQuiet) :
    Logged ds (some (.dispatching selected pacing))
      (notes ++ (effects ++ [Effect.released selected]).filterMap Effect.note?) := by
  rw [h.eq_of_between hs, List.filterMap_append, Effect.notes_quiet hquiet]
  exact .released

theorem dispatch {selected : Selected H.Receiver} {pacing : Pacing}
    (h : Logged ds (some (.dispatching selected pacing)) notes) (answer : Except MediaError Unit)
    (sample : Sample H.Receiver) (hsample : sample.ticket = selected.sample.ticket)
    (hhandoff : effects.filterMap (·.note?) =
      Delivery.handoff ⟨selected, x.sink.map (·.serial), x.output, answer⟩) :
    Logged ds (some (.acknowledging sample pacing))
      (notes ++ Deed.notes ⟨x, .dispatch selected, effects⟩) := by
  cases h with
  | between hs => simp [Standing.inHand] at hs
  | released =>
      have hhanded : Logged ds (some (.acknowledging sample pacing)) _ :=
        .handed (d := ⟨selected, x.sink.map (·.serial), x.output, answer⟩) hsample
      simpa [Deed.notes, Deed.dispatched, Delivery.begun, hhandoff] using hhanded

theorem of_advance (h : Logged ds (some s) notes) (hadv : Advance c x s y effects s?) :
    ∃ ds', Logged ds' s? (notes ++ Deed.notes ⟨x, s.duty, effects⟩) := by
  by_cases hs : Standing.inHand (some s) = []
  · have hdispatched : Deed.dispatched ⟨x, s.duty, effects⟩ = [] := by
      cases s <;> first | rfl | simp [Standing.inHand] at hs
    rw [Deed.notes, hdispatched, List.nil_append]
    cases hadv.passage with
    | idle hquiet _ _ _ hafter => exact ⟨ds, h.stay hs hafter (Effect.notes_quiet hquiet)⟩
    | release hselect _ heffects _ hafter =>
        subst heffects hafter
        exact ⟨ds, h.release hs (Presentation.select_quiet hselect)⟩
    | delivery hhand => exact absurd hs hhand
  · cases hadv with
    | @frame selected payload pacing htype hpayload =>
        cases h with
        | between hs => simp [Standing.inHand] at hs
        | released =>
            refine ⟨ds, ?_⟩
            rw [List.append_assoc]
            exact .showing (fun answer => by simp [Delivery.handoff, htype, hpayload]) rfl
    | @play selected payload pacing sink htype hpayload hsink =>
        refine ⟨ds, h.dispatch (c.answers.play sink.sink payload) _ rfl ?_⟩
        simp [Delivery.handoff, Effect.note?, htype, hpayload, hsink]
    | @pass selected pacing hvideo haudio =>
        refine ⟨ds, h.dispatch (.ok ()) _ rfl ?_⟩
        cases htype : selected.majorType with
        | unknown => simp [Delivery.handoff, htype]
        | video => simp [Delivery.handoff, htype, hvideo htype]
        | audio =>
            rcases haudio htype with hnone | hnone
            · simp [Delivery.handoff, htype, hnone]
            · cases hpayload : selected.sample.payload <;>
                simp [Delivery.handoff, htype, hpayload, hnone]
    | @offer frame sample pacing =>
        cases h with
        | between hs => simp [Standing.inHand] at hs
        | @showing selected sink output _ _ _ hhandoff hsample =>
            refine ⟨ds, ?_⟩
            have hhanded : Logged ds (some (.acknowledging sample pacing)) _ :=
              .handed (d := ⟨selected, sink, output, c.answers.deliver (.videoFrame frame)⟩) hsample
            rw [Delivery.begun, hhandoff] at hhanded
            simpa [Deed.notes, Deed.dispatched, Standing.duty, Effect.note?] using hhanded
    | @acknowledge sample pacing =>
        cases h with
        | between hs => simp [Standing.inHand] at hs
        | @handed d _ _ hsample =>
            refine ⟨ds ++ [d], ?_⟩
            have hbetween : Logged (ds ++ [d]) (some (.at pacing.loop)) _ := .between rfl
            have hticket : (⟨sample.receiver, sample.sampleId, sample.duration, sample.dataSize⟩ :
                Ticket H.Receiver) = d.selected.sample.ticket := hsample
            simpa [Deed.notes, Deed.dispatched, Standing.duty, Effect.note?, Delivery.notes,
              hticket]
              using hbetween
    | _ => exact absurd rfl hs

end Logged

/-- In the end there is one delivery for each release, and only the last one may be unfinished. -/
theorem Logged.deliveries {ds : List (Delivery H)} {s? : Option (Standing H)}
    {notes : List (Note H)} (h : Logged ds s? notes) :
    ∃ ds' : List (Delivery H), notes.filterMap (·.release?) = ds'.map (·.selected) ∧
      notes <+: ds'.flatMap Delivery.notes ∧
      (Standing.inHand s? = [] → notes = ds'.flatMap Delivery.notes) := by
  have hlast : ∀ (d : Delivery H) (part : List (Note H)), part <+: d.notes →
      part.filterMap (·.release?) = [d.selected] →
      (ds.flatMap Delivery.notes ++ part).filterMap (·.release?) = (ds ++ [d]).map (·.selected) ∧
        ds.flatMap Delivery.notes ++ part <+: (ds ++ [d]).flatMap Delivery.notes := by
    intro d part hpart hrelease
    refine ⟨?_, ?_⟩
    · rw [List.filterMap_append, Delivery.notes_release, hrelease, List.map_append]
      rfl
    · rw [List.flatMap_append, List.flatMap_singleton]
      exact (List.prefix_append_right_inj _).mpr hpart
  cases h with
  | between => exact ⟨ds, Delivery.notes_release ds, List.prefix_refl _, fun _ => rfl⟩
  | @released selected pacing =>
      obtain ⟨hselected, hprefix⟩ := hlast ⟨selected, none, .zero, .ok ()⟩ [.released selected]
        ⟨_, rfl⟩ rfl
      exact ⟨_, hselected, hprefix, fun hs => by simp [Standing.inHand] at hs⟩
  | @showing selected sink output frame sample pacing hhandoff =>
      obtain ⟨hselected, hprefix⟩ := hlast ⟨selected, sink, output, .ok ()⟩
        [.released selected, .dispatched sink output] ⟨_, rfl⟩ rfl
      exact ⟨_, hselected, hprefix, fun hs => by simp [Standing.inHand] at hs⟩
  | @handed d sample pacing =>
      obtain ⟨hselected, hprefix⟩ := hlast d d.begun ⟨_, rfl⟩ d.begun_release
      exact ⟨_, hselected, hprefix, fun hs => by simp [Standing.inHand] at hs⟩

/-! ## Histories -/

theorem Presentation.released_majorType {c : Surroundings H} {x : Presentation H} {pacing : Pacing}
    {r : Schedule.Release H.Receiver} {effects : List (Effect H)} (h : x.Registered)
    (hr : x.select c pacing = (some r, effects)) :
    r.selected.majorType = x.streamMajorType r.selected.sample.streamId := by
  obtain ⟨pre, q, post, sample, rest, hx, hsamples, hselected, -⟩ := select_eq_some hr
  have hid : sample.streamId = q.id := h.home q (by simp [hx]) sample (by simp [hsamples])
  have hnone : pre.find? (·.id == q.id) = none := by simpa using h.ne_of_split hx
  simp [hselected, StreamQueue.select, hid, streamMajorType, queue?, hx, List.find?_append, hnone]

namespace Scene

variable {ds : List (Delivery H)} {notes : List (Note H)} {scene next : Scene H} {deed : Deed H}
  {deeds : List (Deed H)}

theorem Step.logged (hstep : Step scene deed next) (h : Logged ds scene.standing notes) :
    ∃ ds', Logged ds' next.standing (notes ++ deed.notes) := by
  cases hstep with
  | @aside c x s? task move hfree hstart hmove =>
      have hqueues := (Aside.of_moves (hmove ▸ Presentation.perform_aside hfree hstart)).2.1
      have hnotes : Deed.notes ⟨x, task, move.effects⟩ = [] := by
        rw [Deed.notes, hqueues.note_eq_nil]
        cases task <;> first | rfl | simp [Task.isDuty] at hfree
      rw [hnotes, List.append_nil]
      exact ⟨ds, h⟩
  | start => exact ⟨ds, h.stay rfl rfl rfl⟩
  | duty hadv => exact h.of_advance hadv

theorem History.logged {id : PresentationId} (h : History (.new id) deeds scene) :
    ∃ ds, Logged ds scene.standing (deeds.flatMap (·.notes)) := by
  induction h with
  | nil => exact ⟨[], .between rfl⟩
  | snoc _ hstep ih =>
      obtain ⟨ds, hds⟩ := ih
      obtain ⟨ds', hds'⟩ := hstep.logged hds
      exact ⟨ds', by simpa using hds'⟩

theorem Step.released_majorType (hstep : Step scene deed next) (h : scene.presentation.Registered)
    {selected : Selected H.Receiver} (hmem : selected ∈ Ledger.released deed.effects) :
    selected.majorType = deed.before.streamMajorType selected.sample.streamId := by
  cases hstep with
  | aside hfree hstart hmove =>
      have hqueues := (Aside.of_moves (hmove ▸ Presentation.perform_aside hfree hstart)).2.1
      simp [hqueues.released_eq_nil] at hmem
  | start => simp [Ledger.released] at hmem
  | @duty c x s y effects s? hadv =>
      cases hadv.passage with
      | idle hquiet => simp [(Ledger.blank_of_quiet hquiet).released] at hmem
      | release hselect _ heffects =>
          subst heffects
          rw [Ledger.released_append,
            (Ledger.blank_of_quiet (Presentation.select_quiet hselect)).released] at hmem
          obtain rfl : selected = _ := by simpa [Ledger.released, Effect.release?] using hmem
          exact Presentation.released_majorType h hselect
      | delivery _ _ _ _ _ hreleased => simp [hreleased] at hmem

theorem History.released_majorType {id : PresentationId} (h : History (.new id) deeds scene) :
    ∀ deed ∈ deeds, ∀ selected ∈ Ledger.released deed.effects,
      selected.majorType = deed.before.streamMajorType selected.sample.streamId := by
  induction h with
  | nil => simp
  | snoc hhistory hstep ih =>
      intro deed hdeed selected hmem
      rcases List.mem_append.mp hdeed with hdeed | hdeed
      · exact ih deed hdeed selected hmem
      · rw [List.mem_singleton.mp hdeed] at hmem ⊢
        exact hstep.released_majorType hhistory.settled.registered hmem

end Scene

/-! ## Runs -/

theorem Deed.notes_release (d : Deed H) :
    d.notes.filterMap (·.release?) = Ledger.released d.effects := by
  have hdispatched : d.dispatched.filterMap (·.release?) = [] := by
    unfold dispatched
    split <;> rfl
  have hrelease : ∀ e : Effect H, e.note?.bind (·.release?) = e.release? := by
    intro e
    cases e with
    | offered event => cases event <;> rfl
    | sink serial call => cases call <;> rfl
    | _ => rfl
  rw [notes, List.filterMap_append, hdispatched, List.filterMap_filterMap, List.nil_append]
  exact List.filterMap_congr fun e _ => hrelease e

theorem Deed.notes_isEffect (d : Deed H) :
    d.notes.filter (·.isEffect) = d.effects.filterMap (·.note?) := by
  have hdispatched : d.dispatched.filter (·.isEffect) = [] := by
    unfold dispatched
    split <;> rfl
  have heffect : ∀ (e : Effect H) (note : Note H), e.note? = some note → note.isEffect := by
    intro e note hnote
    cases e with
    | offered event => cases event <;> simp [Effect.note?] at hnote; exact hnote ▸ rfl
    | sink serial call => cases call <;> simp [Effect.note?] at hnote; exact hnote ▸ rfl
    | _ => simp [Effect.note?] at hnote <;> exact hnote ▸ rfl
  rw [notes, List.filter_append, hdispatched, List.nil_append]
  refine List.filter_eq_self.mpr fun note hnote => ?_
  obtain ⟨e, -, he⟩ := List.mem_filterMap.mp hnote
  exact heffect e note he

/-- `e` is how the platform runs the passthrough decoder. -/
structure Passthrough.RunAs (e : Passthrough → H.Decoder) : Prop where
  decode : ∀ d data flags,
    H.decoderOps.decode (e d) data flags = (e (d.decode data flags).1, (d.decode data flags).2)
  take : ∀ d, H.decoderOps.take (e d) = (e d.take.1, d.take.2)

theorem Passthrough.runAs_id : Passthrough.RunAs (H := .plain) id :=
  ⟨fun _ _ _ => rfl, fun _ => rfl⟩

def Push.Through (push : Push H) (e : Passthrough → H.Decoder) : Prop :=
  ∃ x stream bound d, push.seen = some x ∧ x.streams[push.handle.place]? = some stream ∧
    stream.decoder = some bound ∧ bound.decoder = e d

theorem Passthrough.take_decode {d d' : Passthrough} {data : List UInt8} {flags : SampleFlags}
    (h : d.decode data flags = (d', .ok ())) : d'.take.2 = some ⟨data⟩ := by
  unfold decode Payload.copyFromSlice at h
  dsimp only at h
  split at h
  · cases h
  · split at h
    · cases h
    · split at h
      · cases h
      · next payload hcopy =>
          split at hcopy <;> cases hcopy
          cases h
          rfl

theorem Push.Yields.payload_of_passthrough {push : Push H} {sample : Sample H.Receiver}
    {e : Passthrough → H.Decoder} (h : push.Yields sample) (he : Passthrough.RunAs e)
    (hthrough : push.Through e) : sample.payload = some ⟨push.chunk.data⟩ := by
  obtain ⟨x, stream, bound, decoder, hseen, hstream, hbound, hdecode, rfl⟩ := h
  obtain ⟨x', stream', bound', d, hseen', hstream', hbound', hd⟩ := hthrough
  obtain rfl : x = x' := Option.some.inj (hseen.symm.trans hseen')
  obtain rfl : stream = stream' := Option.some.inj (hstream.symm.trans hstream')
  obtain rfl : bound = bound' := Option.some.inj (hbound.symm.trans hbound')
  rw [hd, he.decode, Prod.mk.injEq] at hdecode
  obtain ⟨rfl, hok⟩ := hdecode
  have htake : (d.decode push.chunk.data push.chunk.flags).1.take.2 = some ⟨push.chunk.data⟩ :=
    Passthrough.take_decode (Prod.ext rfl hok)
  simpa [Sample.new, he.take] using htake

/-- Payloads reach whom they are meant for, once, and as they were pushed. -/
structure Run.HandsOn (r : Run H) (p : Key) : Prop where
  /-- The notes leave out no frame, no audio and no acknowledgment. -/
  noted : (r.effects p).filterMap (·.note?) = (r.notes p).filter (·.isEffect)
  /-- The notes are those of one delivery for each release, and only the last may be unfinished. -/
  delivered : ∃ ds : List (Delivery H), Ledger.released (r.effects p) = ds.map (·.selected) ∧
    r.notes p <+: ds.flatMap Delivery.notes ∧
    (r.final.underway p = [] → r.notes p = ds.flatMap Delivery.notes)
  /-- A sample is released with the type that its stream has at that moment. -/
  typed : ∀ deed ∈ r.deeds p, ∀ selected ∈ Ledger.released deed.effects,
    selected.majorType = deed.before.streamMajorType selected.sample.streamId
  /-- Released samples are pushed ones, each of them once. -/
  pushed : List.Forall₂ Push.Yields (r.accepted p) (Ledger.entered (r.effects p)) ∧
    ∀ s, (Sample.ofStream s ((Ledger.released (r.effects p)).map (·.sample))).Sublist
      (Sample.ofStream s (Ledger.entered (r.effects p)))
  /-- What a passthrough decoder made of a chunk is the chunk. -/
  intact : ∀ e : Passthrough → H.Decoder, Passthrough.RunAs e →
    List.Forall₂ (fun push sample => push.Through e → sample.payload = some ⟨push.chunk.data⟩)
      (r.accepted p) (Ledger.entered (r.effects p))

theorem Run.handsOn {r : Run H} {p : Key} {crew : Crew H} {id : PresentationId} {x : Presentation H}
    (hcrew : Crewed r.final p crew)
    (hhistory : Scene.History (.new id) (r.deeds p) ⟨x, crew.standing⟩)
    (hfollowed : r.Followed) (heffects : r.effects p = Deed.effectsOf (r.deeds p)) :
    r.HandsOn p := by
  have hreleased : (r.notes p).filterMap (·.release?) = Ledger.released (r.effects p) := by
    rw [heffects, Deed.effectsOf, Run.notes, Ledger.released, List.filterMap_flatMap,
      List.filterMap_flatMap]
    exact List.flatMap_congr fun d _ => d.notes_release
  refine ⟨?_, ?_, hhistory.released_majorType, ⟨hfollowed.accepted p, fun s => ?_⟩, fun e he => ?_⟩
  · rw [heffects, Deed.effectsOf, Run.notes, List.filterMap_flatMap, List.filter_flatMap]
    exact List.flatMap_congr fun d _ => d.notes_isEffect.symm
  · obtain ⟨ds, hlogged⟩ := hhistory.logged
    obtain ⟨ds', hselected, hprefix, hcomplete⟩ := hlogged.deliveries
    exact ⟨ds', hreleased.symm.trans hselected, hprefix, fun hnone =>
      hcomplete (hcrew.underway_eq.symm.trans hnone)⟩
  · have hsettled := hhistory.settled
    rw [← heffects] at hsettled
    rw [hsettled.queues s, ← Ledger.delivered_departed]
    exact ((List.filter_sublist.map _).filter _).trans (List.sublist_append_left _ _)
  · exact (hfollowed.accepted p).imp fun _ _ hyields => hyields.payload_of_passthrough he

/-- In every run each payload is handed to the one consumer it is meant for, if there is one,
between the release of its sample and the acknowledgment, and to nobody else; the next release comes
afterwards. With the passthrough decoder the payload is the chunk that was pushed. -/
theorem Machine.payloads_handed_on (config : Config) (decoders : DecoderBackends H.Codec)
    (outputs : AudioBackends H.Output) (actions : List (Action H)) (p : Key) :
    ((initial config decoders outputs).run actions).HandsOn p := by
  obtain ⟨crew, id, x, hcrew, hhistory, -⟩ := run_history config decoders outputs actions p
  exact Run.handsOn hcrew hhistory (run_followed config decoders outputs actions)
    (run_effects _ actions p)

end Playout
