import Playout.Proofs.Delivery.AllOrNothing

/-!
# Negotiations

A negotiation notes the format of a stream and then loads a decoder for it. What it has noted stays,
also if no decoder can be loaded. The stream has none then, and whatever is pushed to it is refused
until a negotiation gives it one. Nothing that waits in a queue is touched in any case.
-/

namespace Playout

variable {H : Platform}

namespace Presentation

variable {c : Surroundings H} {x y : Presentation H} {place : Nat} {decoder : Option String}
  {name : String}
  {media : MediaType} {s : StreamId} {move : Move H}

/-! ## The two parts -/

/-- Why a negotiation is refused: the presentation is gone, or no stream is registered under
the number. -/
inductive Refuses (c : Surroundings H) (x : Presentation H) (place : Nat) : MediaError → Prop where
  | gone : c.alive = false ∨ x.streams[place]? = none → Refuses c x place gone
  | unregistered {stream} : c.alive → x.streams[place]? = some stream →
      (∀ q ∈ x.queues, q.id ≠ stream.id) →
      Refuses c x place (.session (.streamNotFound x.id stream.id))

/-- The first part of a negotiation, for any presentation: it is refused, or it notes the format and
goes on to load a decoder. -/
inductive Configures (c : Surroundings H) (x : Presentation H) (place : Nat)
    (decoder : Option String) (media : MediaType) : Move H → Prop where
  | refused {e} : Refuses c x place e →
      Configures c x place decoder media { presentation := x, result := some (.error e) }
  | configured {stream pre q post} : c.alive → x.streams[place]? = some stream →
      x.queues = pre ++ q :: post →
      (∀ p ∈ pre, p.id ≠ stream.id) → q.id = stream.id →
      Configures c x place decoder media
        { presentation :=
            { x with
              queues := pre ++
                { q with majorType := media.majorType, width := media.width
                         height := media.height } :: post
              audioFormat := if media.majorType == .audio then .ofMediaType media
                else x.audioFormat }
          next := [.loadDecoder place (decoder.getD c.config.defaultDecoder) media] }

/-- The second part of a negotiation, for any registry of decoders: the decoder that has been loaded
is bound to the stream, or the stream has none from then on. -/
inductive Equips (c : Surroundings H) (x : Presentation H) (place : Nat) (name : String)
    (media : MediaType) :
    Move H → Prop where
  | bound {d effects} :
      (c.decoders.load H.decoderOps c.answers.createDecoder name media).result = .ok d →
      (∀ e ∈ effects, e.isDecoding) →
      Equips c x place name media
        { presentation :=
            bindDecoder { x with
                          decodersMade := x.decodersMade + 1 } place (some ⟨x.decodersMade, d⟩)
          effects
          result := some (.ok ()) }
  | unbound {e made effects} :
      (c.decoders.load H.decoderOps c.answers.createDecoder name media).result = .error e →
      (∀ e ∈ effects, e.isDecoding) →
      Equips c x place name media
        { presentation := bindDecoder { x with decodersMade := made } place none
          effects
          result := some (.error e) }

theorem unregistered_of_configure {e : SessionError} (h : x.configure s media = .error e) :
    e = .streamNotFound x.id s ∧ ∀ q ∈ x.queues, q.id ≠ s := by
  unfold configure at h
  cases hu : x.updateQueue s fun q =>
      { q with majorType := media.majorType, width := media.width, height := media.height } with
  | error e' =>
      obtain rfl : e' = e := by simpa [hu, Except.map] using h
      exact unregistered_of_updateQueue hu
  | ok z => simp [hu, Except.map] at h

theorem perform_setFormat_configures (c : Surroundings H) (x : Presentation H) (place : Nat)
    (decoder : Option String) (media : MediaType) :
    ∃ move, x.perform c (.setFormat place decoder media) = .moves move ∧
      Configures c x place decoder media move := by
  simp only [perform]
  rcases throughHandle_cases c x place _ with ⟨hgone, hfails⟩ | ⟨stream, halive, hstream, hfound⟩
  · exact ⟨_, hfails, .refused (.gone hgone)⟩
  · rw [hfound]
    cases hy : x.configure stream.id media with
    | error e =>
        obtain ⟨rfl, hnone⟩ := unregistered_of_configure hy
        exact ⟨_, rfl, .refused (.unregistered halive hstream hnone)⟩
    | ok y =>
        obtain ⟨pre, q, post, hsplit, hpre, hid, rfl⟩ := configure_eq_ok hy
        exact ⟨_, rfl, .configured halive hstream hsplit hpre hid⟩

theorem perform_loadDecoder_equips (c : Surroundings H) (x : Presentation H) (place : Nat)
    (name : String) (media : MediaType) :
    ∃ move, x.perform c (.loadDecoder place name media) = .moves move ∧
      Equips c x place name media move := by
  have hold := destroyed_decoding (x.boundDecoder? place)
  simp only [perform, loadDecoder]
  cases hload : c.decoders.load H.decoderOps c.answers.createDecoder name media with
  | failed e => exact ⟨_, rfl, .unbound (by rw [hload]; rfl) hold⟩
  | refused d e =>
      exact ⟨_, rfl, .unbound (by rw [hload]; rfl) (by simpa [Effect.isDecoding] using hold)⟩
  | ready d => exact ⟨_, rfl, .bound (by rw [hload]; rfl) (by simpa [Effect.isDecoding] using hold)⟩

theorem Configures.of_moves (h : x.perform c (.setFormat place decoder media) = .moves move) :
    Configures c x place decoder media move :=
  Outcome.kind_of_moves (perform_setFormat_configures c x place decoder media) h

theorem Equips.of_moves (h : x.perform c (.loadDecoder place name media) = .moves move) :
    Equips c x place name media move :=
  Outcome.kind_of_moves (perform_loadDecoder_equips c x place name media) h

theorem endsCall_loadDecoder (place : Nat) (name : String) (media : MediaType) :
    (Task.loadDecoder place name media : Task H).EndsCall where
  busy := by simp
  moves c x := (perform_loadDecoder_equips c x place name media).imp fun _ h => h.1
  ends c x move h := by cases Equips.of_moves h <;> exact ⟨rfl, rfl⟩

theorem inTwo_setFormat (place : Nat) (decoder : Option String) (media : MediaType) :
    (Task.setFormat place decoder media : Task H).InTwo where
  busy := by simp
  moves c x := (perform_setFormat_configures c x place decoder media).imp fun _ h => h.1
  goes c x move h := by
    cases Configures.of_moves h with
    | refused => exact .inl ⟨rfl, rfl⟩
    | configured => exact .inr ⟨_, rfl, rfl, endsCall_loadDecoder ..⟩

/-! ## What a negotiation leaves alone -/

/-- Neither playback, the sink nor the other streams have changed, nor what waits in the queues, nor
an end of stream. -/
structure Retains (place : Nat) (x : Presentation H) (effects : List (Effect H))
    (y : Presentation H) : Prop where
  rest : y =
    { x with
      queues := y.queues, streams := y.streams, audioFormat := y.audioFormat, decodersMade :=
        y.decodersMade }
  waiting : y.queues.map (fun q => (q.id, q.samples, q.eos)) = x.queues.map fun q =>
    (q.id, q.samples, q.eos)
  queues : ∀ s, x.numberAt? place ≠ some s → y.queue? s = x.queue? s
  streams : ∀ i, i ≠ place → y.streams[i]? = x.streams[i]?
  effects : ∀ e ∈ effects, e.isDecoding

theorem Retains.refl (place : Nat) (x : Presentation H) : x.Retains place [] x :=
  ⟨rfl, rfl, fun _ _ => rfl, fun _ _ => rfl, by simp⟩

theorem Retains.of_bind (x : Presentation H) (made place : Nat)
    (d : Option (BoundDecoder H.Decoder))
    {effects : List (Effect H)} (heffects : ∀ e ∈ effects, e.isDecoding) :
    x.Retains place effects (bindDecoder { x with decodersMade := made } place d) :=
  ⟨rfl, rfl, fun _ _ => rfl, fun i hi => by simp [bindDecoder, Ne.symm hi], heffects⟩

theorem Configures.retains (h : Configures c x place decoder media move) :
    x.Retains place move.effects move.presentation := by
  cases h with
  | refused => exact .refl place x
  | @configured stream pre q post _ hstream hsplit _ hid =>
      refine ⟨rfl, by simp [hsplit], fun s hs => ?_, fun _ _ => rfl, by simp⟩
      have hother : s ≠ q.id := fun heq => hs (by simp [numberAt?, hstream, heq, hid])
      exact queue?_revise hsplit rfl rfl hother

theorem Equips.retains (h : Equips c x place name media move) :
    x.Retains place move.effects move.presentation := by
  cases h with
  | bound _ heffects => exact .of_bind x _ place _ heffects
  | unbound _ heffects => exact .of_bind x _ place none heffects

/-- The first part has found the stream if there is a second one. -/
theorem Configures.exists_number {next : Task H} (h : Configures c x place decoder media move)
    (hnext : move.next = [next]) :
    ∃ s, x.numberAt? place = some s ∧ move.presentation.numberAt? place = some s ∧
      next = .loadDecoder place (decoder.getD c.config.defaultDecoder) media := by
  cases h with
  | refused => cases hnext
  | configured _ hstream =>
      cases hnext
      have hs := congrArg (Option.map (·.id)) hstream
      exact ⟨_, hs, hs, rfl⟩

/-- The first part ends the call by an error only, and then it has changed nothing. -/
theorem Configures.refuses (h : Configures c x place decoder media move) (hnext : move.next = []) :
    ∃ e, Refuses c x place e ∧ move = { presentation := x, result := some (.error e) } := by
  cases h with
  | refused hrefuses => exact ⟨_, hrefuses, rfl⟩
  | configured => cases hnext

theorem Equips.number (h : Equips c x place name media move) (hs : x.numberAt? place = some s) :
    move.presentation.numberAt? place = some s := by
  cases h <;> exact (numberAt?_bindDecoder ..).trans hs

theorem Equips.undecoded {e : MediaError} (h : Equips c x place name media move)
    (hresult : move.result = some (.error e)) : move.presentation.boundDecoder? place = none := by
  cases h with
  | bound => cases hresult
  | unbound => exact boundDecoder?_bindDecoder_none _ place

theorem Digests.of_undecoded {chunk : Chunk H.Receiver} (h : Digests c x place chunk move)
    (hs : x.numberAt? place = some s) (hnone : x.boundDecoder? place = none) :
    move =
      { presentation := x
        result := some (.error (if c.alive then .decoderNotConfigured s else Presentation.gone)) }
          := by
  have hbare : ∀ stream, x.streams[place]? = some stream →
      stream.id = s ∧ stream.decoder = none := by
    intro stream hstream
    simp only [numberAt?, boundDecoder?, hstream, Option.map_some, Option.some.injEq,
      Option.bind_some] at hs hnone
    exact ⟨hs, hnone⟩
  cases h with
  | gone hgone =>
      rcases hgone with halive | hstream
      · simp [halive]
      · simp [numberAt?, hstream] at hs
  | undecoded halive hstream =>
      obtain ⟨rfl, -⟩ := hbare _ hstream
      simp [halive]
  | undecodable _ hstream hbound => cases (hbare _ hstream).2.symm.trans hbound
  | decoded _ hstream hbound => cases (hbare _ hstream).2.symm.trans hbound

end Presentation

/-! ## Streams without a decoder -/

def Transition.Equips (t : Transition H) (p : Key) (place : Nat) : Prop :=
  ∃ a name media, t.Does p a (.loadDecoder place name media) ∧ t.progress.result = some (.ok ())

/-- The actor's push is refused, for lack of a decoder if the presentation exists, and
changes nothing. -/
structure Transition.TurnsAway (t : Transition H) (p : Key) (place : Nat) (a : ActorId) : Prop where
  rebuffs : t.Rebuffs a
  error : ∃ x s, t.before.presentations[p]? = some x ∧ x.numberAt? place = some s ∧
    t.progress.result =
      some (.error (if t.before.alive p then .decoderNotConfigured s else Presentation.gone))

/-- Whatever is pushed to the stream at a place is refused, until a decoder is loaded for it. -/
structure Shut (p : Key) (place : Nat) (after : List (Transition H)) : Prop where
  steps : ∀ pre t post a chunk, after = pre ++ t :: post → (∀ u ∈ pre, ¬ u.Equips p place) →
    t.Does p a (.push place chunk) → t.TurnsAway p place a
  calls : ∀ pre first between last post a chunk, after = pre ++ first :: (between ++ last :: post) →
    (∀ u ∈ pre ++ between, ¬ u.Equips p place) →
      Makes a (.push ⟨p, place⟩ chunk) first between last →
      (∀ u ∈ between, ¬ u.IsBy a) ∧ last.TurnsAway p place a

namespace Machine

def Undecoded (m : Machine H) (p : Key) (place : Nat) : Prop :=
  ∃ x s, m.presentations[p]? = some x ∧ x.numberAt? place = some s ∧ x.boundDecoder? place = none

variable {config : Config} {decoders : DecoderBackends H.Codec} {outputs : AudioBackends H.Output}
  {actions : List (Action H)} {past between after : List (Transition H)}
  {first last t : Transition H} {p : Key}
  {place : Nat} {a : ActorId} {decoder : Option String} {media : MediaType}

theorem undecoded_next
    (htrace : ((initial config decoders outputs).run actions).trace = past ++ t :: after)
    (h : t.before.Undecoded p place) (hnot : ¬ t.Equips p place) :
    t.progress.machine.Undecoded p place := by
  obtain ⟨x, s, hx, hs, hnone⟩ := h
  obtain ⟨hplay, crew, crew', hcrew, hturn⟩ := turn_of_trace htrace p
  obtain ⟨y, hy⟩ := hturn.exists_after hx
  rcases hcrew.step_of_turn hturn hx hy with ⟨-, rfl, -⟩ | ⟨b, ⟨z, task, effects⟩, hdoing, hstep⟩
  · exact ⟨y, s, hy, hs, hnone⟩
  · refine ⟨y, s, hy, hstep.lasts.number place s hs, ?_⟩
    cases hload : task.loadsFor place with
    | false => exact hstep.lasts.undecoded place hload hnone
    | true =>
        cases task with
        | loadDecoder other name media =>
            obtain rfl : other = place := by simpa [Task.loadsFor] using hload
            obtain ⟨answers, move, hcarries⟩ := Transition.carries_of_moves hplay hdoing fun c =>
              (Presentation.endsCall_loadDecoder other name media).moves c z
            have hequips := Presentation.Equips.of_moves hcarries.moves
            rcases hresult : move.result with - | e | ⟨⟩
            · cases hequips <;> cases hresult
            · obtain rfl := Option.some.inj (hy.symm.trans hcarries.presentation_after)
              exact hequips.undecoded hresult
            · exact absurd ⟨b, name, media, ⟨z, effects, hdoing⟩, hcarries.result.trans hresult⟩
                hnot
        | _ => cases hload

theorem numbered_through {during : List (Transition H)} {s : StreamId}
    (htrace : ((initial config decoders outputs).run actions).trace =
      past ++ first :: (during ++ t :: after))
    (h : ∃ x, first.progress.machine.presentations[p]? = some x ∧ x.numberAt? place = some s) :
    ∃ y, t.before.presentations[p]? = some y ∧ y.numberAt? place = some s := by
  refine holds_through
    (P := fun m => ∃ x, m.presentations[p]? = some x ∧ x.numberAt? place = some s) _ _ htrace h ?_
  rintro past u after hu - ⟨x, hx, hs⟩
  obtain ⟨-, crew, crew', hcrew, hturn⟩ := turn_of_trace hu p
  obtain ⟨y, hy, hnumber⟩ := hcrew.number_kept hturn hx
  exact ⟨y, hy, hnumber place s hs⟩

theorem undecoded_through {during : List (Transition H)}
    (htrace : ((initial config decoders outputs).run actions).trace =
      past ++ first :: (during ++ t :: after))
    (h : first.progress.machine.Undecoded p place) (hnot : ∀ u ∈ during, ¬ u.Equips p place) :
    t.before.Undecoded p place :=
  holds_through (P := (·.Undecoded p place)) _ _ htrace h fun _ u _ hu hmem hbefore =>
    undecoded_next hu hbefore (hnot u hmem)

theorem turnsAway_of_carries {chunk : Chunk H.Receiver} {answers : Answers H} {x : Presentation H}
    {move : Move H}
    (h : t.Carries p a (.push place chunk) answers x move) (hbefore : t.before.Undecoded p place) :
    move.next = [] ∧ t.TurnsAway p place a := by
  obtain ⟨y, s, hy, hs, hnone⟩ := hbefore
  obtain rfl := Option.some.inj (h.present.symm.trans hy)
  obtain rfl := (Presentation.Digests.of_moves h.moves).of_undecoded hs hnone
  obtain ⟨rest, hstack, hprogress⟩ := h.progress
  have hrebuffs : t.Rebuffs a :=
    ⟨_, _, rest, hstack, hprogress.trans (after_still h.present a rest)⟩
  exact ⟨rfl, hrebuffs, x, s, h.present, hs, h.result⟩

theorem not_equips_of_called {b : ActorId} {c : Call H}
    (hplay : t.before.play t.action = some t.progress)
    (hcalled : t.action = .call b c) : ¬ t.Equips p place := by
  rintro ⟨a, name, media, ⟨x, effects, hdoing⟩, -⟩
  obtain ⟨answers, -, haction, -⟩ := Transition.perform_of_doing hplay hdoing
  cases hcalled.symm.trans haction

/-- A stream that has no decoder after a transition is shut from then on. -/
theorem shut_of_undecoded
    (htrace : ((initial config decoders outputs).run actions).trace = past ++ first :: after)
    (h : first.progress.machine.Undecoded p place) : Shut p place after where
  steps pre t post b chunk hafter hnot hdoes := by
    subst hafter
    obtain ⟨x, effects, hdoing⟩ := hdoes
    have hplay : t.before.play t.action = some t.progress := play_of_mem (by rw [htrace]; simp)
    obtain ⟨answers, move, hcarries⟩ := Transition.carries_of_moves hplay hdoing fun c =>
      (Presentation.inTwo_push place chunk).moves c x
    exact (turnsAway_of_carries hcarries (undecoded_through htrace h hnot)).2
  calls pre call between last post b chunk hafter hnot hmakes := by
    subst hafter
    have hplay : call.before.play call.action = some call.progress :=
      play_of_mem (by rw [htrace]; simp)
    have hcall : ((initial config decoders outputs).run actions).trace =
        (past ++ first :: pre) ++ call :: (between ++ last :: post) := by simp [htrace]
    have hclosed : ∀ idle u rest, between ++ last :: post = idle ++ u :: rest →
        (∀ v ∈ idle, v ∈ between) →
        u.before.Undecoded p place := by
      intro idle u rest hsplit hidle
      have hduring : ((initial config decoders outputs).run actions).trace =
          past ++ first :: ((pre ++ call :: idle) ++ u :: rest) := by simp [htrace, hsplit]
      refine undecoded_through hduring h fun v hv => ?_
      rcases List.mem_append.mp hv with hpre | hcons
      · exact hnot v (List.mem_append_left _ hpre)
      · rcases List.mem_cons.mp hcons with rfl | hmem
        · exact not_equips_of_called hplay hmakes.called
        · exact hnot v (List.mem_append_right _ (hidle v hmem))
    cases inParts_of_makes hcall hmakes rfl rfl (Presentation.inTwo_push place chunk) with
    | once hidle hcarries _ =>
        exact ⟨hidle,
          (turnsAway_of_carries hcarries (hclosed between last post rfl fun _ h => h)).2⟩
    | @twice idle u more _ _ _ _ _ _ _ hsplit _ hcarries hnext _ =>
        subst hsplit
        have hbefore := hclosed idle u (more ++ last :: post) (by simp) fun v hv =>
            List.mem_append_left _ hv
        rw [(turnsAway_of_carries hcarries hbefore).1] at hnext
        cases hnext

end Machine

/-! ## The course of a negotiation -/

/-- How a negotiation goes: it is refused at once, or its actor notes the format and then loads a
decoder for the stream, which is the same one although others may have done something meanwhile. -/
inductive NegotiationCourse (p : Key) (place : Nat) (decoder : Option String) (media : MediaType)
    (a : ActorId)
    (between : List (Transition H)) (last : Transition H) : Except MediaError Unit → Prop where
  | refused {answers x e} : (∀ u ∈ between, ¬ u.IsBy a) →
      last.Carries p a (.setFormat place decoder media) answers x
        { presentation := x, result := some (.error e) } →
      Presentation.Refuses (last.before.surroundings a p answers) x place e →
      NegotiationCourse p place decoder media a between last (.error e)
  | completed {idle t more answers x move s name answers' y move' result} : between =
      idle ++ t :: more →
      (∀ u ∈ idle ++ more, ¬ u.IsBy a) →
      t.Carries p a (.setFormat place decoder media) answers x move →
      Presentation.Configures (t.before.surroundings a p answers) x place decoder media move →
      x.numberAt? place = some s → move.next = [.loadDecoder place name media] →
      last.Carries p a (.loadDecoder place name media) answers' y move' →
        y.numberAt? place = some s →
      Presentation.Equips (last.before.surroundings a p answers') y place name media move' →
      move'.result = some result → NegotiationCourse p place decoder media a between last result

/-- What becomes of a negotiation that has returned. Its actor has changed nothing but the format of
the stream, the audio format and the decoder, and if it could not load one, the stream is shut. -/
structure Negotiated (p : Key) (place : Nat) (decoder : Option String) (media : MediaType)
    (a : ActorId)
    (between : List (Transition H)) (last : Transition H) (after : List (Transition H))
    (result : Except MediaError Unit) : Prop where
  returned : last.progress.result = some result
  course : NegotiationCourse p place decoder media a between last result
  retained : ∀ t ∈ between ++ [last], t.IsBy a → t.Amounts p (Presentation.Retains place)
  shut : ∀ e name, result = .error e → last.Does p a (.loadDecoder place name media) →
    Shut p place after

namespace NegotiationCourse

variable {config : Config} {decoders : DecoderBackends H.Codec} {outputs : AudioBackends H.Output}
  {actions : List (Action H)} {past between after : List (Transition H)}
  {first last t : Transition H} {p : Key}
  {place : Nat} {a : ActorId} {decoder : Option String} {media : MediaType}
  {result : Except MediaError Unit}

theorem of_inParts
    (htrace : ((Machine.initial config decoders outputs).run actions).trace =
      past ++ first :: (between ++ last :: after))
    (h : InParts p a (.setFormat place decoder media) between last)
    (hresult : last.progress.result = some result) :
    NegotiationCourse p place decoder media a between last result := by
  cases h with
  | once hidle hcarries hnext =>
      obtain ⟨e, hrefuses, rfl⟩ := (Presentation.Configures.of_moves hcarries.moves).refuses hnext
      obtain rfl := Option.some.inj (hcarries.result.symm.trans hresult)
      exact .refused hidle hcarries hrefuses
  | @twice idle t more _ _ _ _ _ _ _ hsplit hidle hcarries hnext hcarries' =>
      subst hsplit
      have hconfigures := Presentation.Configures.of_moves hcarries.moves
      obtain ⟨s, hs, hs', rfl⟩ := hconfigures.exists_number hnext
      have hlater : ((Machine.initial config decoders outputs).run actions).trace =
          (past ++ first :: idle) ++ t :: (more ++ last :: after) := by simp [htrace]
      obtain ⟨z, hz, hnumber⟩ :=
        Machine.numbered_through hlater ⟨_, hcarries.presentation_after, hs'⟩
      obtain rfl := Option.some.inj (hcarries'.present.symm.trans hz)
      exact .completed rfl hidle hcarries hconfigures hs hnext hcarries' hnumber
        (.of_moves hcarries'.moves)
        (hcarries'.result ▸ hresult)

theorem retained (h : NegotiationCourse p place decoder media a between last result) :
    ∀ t ∈ between ++ [last], t.IsBy a → t.Amounts p (Presentation.Retains place) := by
  cases h with
  | refused hidle hcarries _ => exact own_of_once hidle (hcarries.amounts (.refl place _))
  | completed hsplit hidle hcarries hconfigures _ _ hcarries' _ hequips _ =>
      subst hsplit
      exact own_of_twice hidle (hcarries.amounts hconfigures.retains)
        (hcarries'.amounts hequips.retains)

theorem undecoded {name : String} {e : MediaError}
    (h : NegotiationCourse p place decoder media a between last (.error e))
    (hdoes : last.Does p a (.loadDecoder place name media)) :
    last.progress.machine.Undecoded p place := by
  obtain ⟨x, effects, hdoing⟩ := hdoes
  cases h with
  | refused _ hcarries _ => cases hcarries.doing.symm.trans hdoing
  | completed _ _ _ _ _ _ hcarries hs hequips hresult =>
      exact ⟨_, _, hcarries.presentation_after, hequips.number hs, hequips.undecoded hresult⟩

end NegotiationCourse

namespace Machine

/-- A negotiation that fails early leaves everything as it is, and one that fails late leaves a
stream to which nothing can be pushed. Its two parts are known for any presentation, any media type
and any registry of decoders; in every run, they are all that the negotiation consists of, whatever
others do meanwhile. -/
theorem negotiations_settled (config : Config) (decoders : DecoderBackends H.Codec)
    (outputs : AudioBackends H.Output) (actions : List (Action H)) {p : Key} {place : Nat}
    {decoder : Option String} {media : MediaType} {a : ActorId}
    {past between after : List (Transition H)} {first last : Transition H}
    (htrace : ((initial config decoders outputs).run actions).trace =
      past ++ first :: (between ++ last :: after))
    (h : Makes a (.setFormat ⟨p, place⟩ decoder media) first between last) :
    (∀ (c : Surroundings H) (x : Presentation H),
      ∃ move, x.perform c (.setFormat place decoder media) = .moves move ∧
        Presentation.Configures c x place decoder media move) ∧
      (∀ (c : Surroundings H) (x : Presentation H) (name : String), ∃ move,
        x.perform c (.loadDecoder place name media) = .moves move ∧
          Presentation.Equips c x place name media move) ∧
      ∃ result, Negotiated p place decoder media a between last after result := by
  obtain ⟨result, hresult⟩ := Option.isSome_iff_exists.mp (Transition.result_of_returns h.returned)
  have hcourse : NegotiationCourse p place decoder media a between last result :=
    .of_inParts htrace
      (inParts_of_makes htrace h rfl rfl (Presentation.inTwo_setFormat place decoder media)) hresult
  refine ⟨fun c x => Presentation.perform_setFormat_configures c x place decoder media,
    fun c x name =>
    Presentation.perform_loadDecoder_equips c x place name media, result, hresult, hcourse,
      hcourse.retained, ?_⟩
  rintro e name rfl hdoes
  have hlast : ((initial config decoders outputs).run actions).trace =
      (past ++ first :: between) ++ last :: after := by simp [htrace]
  exact shut_of_undecoded hlast (hcourse.undecoded hdoes)

open Playout.Action in
def misconfigured : List (Action .plain) :=
  oneQueued ++ .call 0 (.setFormat ⟨0, 0⟩ (some "other") (.video .unknown 8 8)) ::
    (steps 0 2 ++ calling 0 (.push ⟨0, 0⟩ lastChunk) 1)

open Playout.Action in
/-- The stream has lost the decoder that it had, and the push is refused. -/
theorem misconfigured_shut :
    (∃ between after first last,
      (plain.run misconfigured).trace =
      (plain.run oneQueued).trace ++ first :: (between ++ last :: after) ∧
        Makes 0 (.setFormat ⟨0, 0⟩ (some "other") (.video .unknown 8 8)) first between last ∧
        Negotiated 0 0 (some "other") (.video .unknown 8 8) 0 between last after
          (.error (.unknownDecoder "other")) ∧
        Shut 0 0 after) ∧
      (plain.run misconfigured).trace.getLast?.bind (·.progress.result) =
        some (.error (.decoderNotConfigured 1)) := by
  let c : Call .plain := .setFormat ⟨0, 0⟩ (some "other") (.video .unknown 8 8)
  let r := ((plain.run oneQueued).final.invoke 0 c.jobs).run (steps 0 2)
  have hbusy : ∀ t ∈ r.trace.dropLast, t.returns 0 = false := by decide +kernel
  have hfails : r.trace.getLast?.any fun t => t.returns 0 &&
      t.progress.result == some (.error (.unknownDecoder "other")) := by decide +kernel
  obtain ⟨last, hlast, hfails⟩ := (Option.any_eq_true _ _).mp hfails
  simp only [Bool.and_eq_true, beq_iff_eq] at hfails
  obtain ⟨between, after, first, htrace, hmakes⟩ :=
    makes_of_run (by decide +kernel) hbusy hlast hfails.1 (calling 0 (.push ⟨0, 0⟩ lastChunk) 1)
  obtain ⟨-, -, result, hsettled⟩ := negotiations_settled _ _ _ _ htrace hmakes
  obtain rfl := Option.some.inj (hsettled.returned.symm.trans hfails.2)
  refine ⟨⟨between, after, first, last, htrace, hmakes, hsettled, ?_⟩, by decide +kernel⟩
  cases hsettled.course with
  | refused _ _ hrefuses => cases hrefuses
  | completed _ _ _ _ _ _ hcarries => exact hsettled.shut _ _ rfl ⟨_, _, hcarries.doing⟩

end Machine

end Playout
