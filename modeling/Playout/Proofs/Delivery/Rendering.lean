import Playout.Proofs.Delivery.Handoff

/-!
# How samples are rendered

The type of a stream and the size of its frames belong to the stream and not to its samples. A
sample is delivered as they are when it is released: as the last negotiation has left them that
reached the stream, whatever became of the decoder. The pixel format belongs to the sample, which
has it from the decoder.
-/

namespace Playout

variable {H : Platform}

/-- What a stream says of how its samples are rendered. -/
structure Rendering where
  majorType : MajorType
  width : UInt32
  height : UInt32
  deriving DecidableEq

def Rendering.unset : Rendering :=
  ⟨.unknown, 0, 0⟩

def MediaType.rendering (media : MediaType) : Rendering :=
  ⟨media.majorType, media.width, media.height⟩

def StreamQueue.rendering {ρ : Type} (q : StreamQueue ρ) : Rendering :=
  ⟨q.majorType, q.width, q.height⟩

def Selected.rendering {ρ : Type} (selected : Selected ρ) : Rendering :=
  ⟨selected.majorType, selected.width, selected.height⟩

/-! ## Negotiations -/

/-- What the task makes of the rendering of a stream, unless it fails: a new stream has none, and a
handle negotiates that of the stream under its number. -/
def Task.rendering? (x : Presentation H) (s : StreamId) : Task H → Option Rendering
  | .createStream t => if t = s then some .unset else none
  | .setFormat place _ media =>
      if (x.streams[place]?).any (·.id == s) then some media.rendering else none
  | _ => none

namespace Transition

def fails (t : Transition H) : Bool :=
  match t.progress.result with
  | some (.error _) => true
  | _ => false

/-- The rendering that the transition gives to a stream. The negotiation is done when the stream has
taken note of it; a decoder is looked for afterwards. -/
def negotiates? (t : Transition H) (p : Key) (s : StreamId) : Option Rendering :=
  (t.doing? p).bind fun (_, deed) => if t.fails then none else deed.task.rendering? deed.before s

end Transition

/-- The rendering of a stream after all this. -/
def renderingAfter (p : Key) (s : StreamId) (past : List (Transition H)) : Rendering :=
  (past.filterMap (·.negotiates? p s)).getLast?.getD .unset

theorem renderingAfter_snoc (p : Key) (s : StreamId) (past : List (Transition H))
    (t : Transition H) :
    renderingAfter p s (past ++ [t]) = (t.negotiates? p s).getD (renderingAfter p s past) := by
  unfold renderingAfter
  rw [List.filterMap_append]
  cases hnew : t.negotiates? p s <;> simp [hnew]

theorem renderingAfter_append {p : Key} {s : StreamId} {past since : List (Transition H)}
    (h : ∀ t ∈ since, t.negotiates? p s = none) :
    renderingAfter p s (past ++ since) = renderingAfter p s past := by
  rw [renderingAfter, List.filterMap_append, List.filterMap_eq_nil_iff.mpr h, List.append_nil]
  rfl

/-! ## What happens to the renderings of streams -/

namespace Presentation

variable {c : Surroundings H} {x y : Presentation H}

def KeepsRenderings (x y : Presentation H) : Prop :=
  ∀ q ∈ y.queues, ∃ old ∈ x.queues, old.id = q.id ∧ old.rendering = q.rendering

namespace KeepsRenderings

theorem of_queues (h : y.queues = x.queues) : x.KeepsRenderings y := by
  intro q hq
  exact ⟨q, h ▸ hq, rfl, rfl⟩

theorem of_sublist (h : ∀ q ∈ y.queues, q ∈ x.queues) : x.KeepsRenderings y :=
  fun q hq => ⟨q, h q hq, rfl, rfl⟩

theorem of_split {pre post : List (StreamQueue H.Receiver)} {q q' : StreamQueue H.Receiver}
    (hx : x.queues = pre ++ q :: post) (hy : y.queues = pre ++ q' :: post) (hid : q.id = q'.id)
    (hrendering : q.rendering = q'.rendering) : x.KeepsRenderings y := by
  intro other hother
  rw [hy] at hother
  rcases List.mem_append.mp hother with hmem | hmem
  · exact ⟨other, by simp [hx, hmem], rfl, rfl⟩
  · rcases List.mem_cons.mp hmem with rfl | hmem
    · exact ⟨q, by simp [hx], hid, hrendering⟩
    · exact ⟨other, by simp [hx, hmem], rfl, rfl⟩

theorem of_clear (h : y.queues = x.queues.map (·.clear)) : x.KeepsRenderings y := by
  intro q hq
  rw [h] at hq
  obtain ⟨old, hold, rfl⟩ := List.mem_map.mp hq
  exact ⟨old, hold, rfl, rfl⟩

theorem of_conduct {task : Task H} {move : Move H} (h : Conduct c x task (.moves move))
    (hcreate : ∀ s, task ≠ .createStream s)
    (hformat : ∀ place name media, task ≠ .setFormat place name media) :
    x.KeepsRenderings move.presentation := by
  generalize ho : Outcome.moves move = o at h
  cases h with
  | waits => cases ho
  | plain _ _ hkept =>
      cases ho
      exact of_queues hkept.queues
  | releaseDecoder hkept =>
      cases ho
      exact of_queues hkept.queues
  | decode hkept =>
      cases ho
      exact of_queues hkept.queues
  | enqueue hsplit =>
      cases ho
      exact of_split hsplit rfl rfl rfl
  | createStream => exact absurd rfl (hcreate _)
  | detachStream =>
      cases ho
      exact of_sublist fun q hq => (List.mem_filter.mp hq).1
  | detachStreams =>
      cases ho
      exact of_sublist fun q hq => absurd hq List.not_mem_nil
  | setFormat => exact absurd rfl (hformat _ _ _)
  | endStream hsplit =>
      cases ho
      exact of_split hsplit rfl rfl rfl
  | clearQueues =>
      cases ho
      exact of_clear rfl
  | reclaim =>
      cases ho
      exact of_sublist fun q hq => absurd hq List.not_mem_nil
  | _ =>
      cases ho
      exact of_queues rfl

theorem of_advance {s : Standing H} {effects : List (Effect H)} {s? : Option (Standing H)}
    (h : Advance c x s y effects s?) : x.KeepsRenderings y := by
  cases h.passage with
  | idle _ hqueues => exact of_queues hqueues
  | release hselect hy =>
      obtain ⟨pre, q, post, sample, rest, hx, -, -, hqueues⟩ := select_eq_some hselect
      subst hy
      exact of_split hx hqueues rfl rfl
  | delivery _ hqueues => exact of_queues hqueues

end KeepsRenderings

theorem perform_createStream (s : StreamId) :
    (∃ y : Presentation H, x.perform c (.createStream s) = y.returning (.ok ()) [] ∧
      y.queues = x.queues ++ [.new s] ∧
        x.findStream? s = none) ∨
      ∃ e, x.perform c (.createStream s) = x.returning (.error e) [] := by
  simp only [perform, createStream]
  cases hs : x.findStream? s with
  | none => exact .inl ⟨_, rfl, rfl, rfl⟩
  | some place => exact .inr ⟨_, rfl⟩

/-- A stream is negotiated, or there is none and nothing changes. -/
theorem perform_setFormat (place : Nat) (decoder : Option String) (media : MediaType) :
    (∃ (y : Presentation H) (next : List (Task H)) (stream : Stream H.Decoder)
      (pre : List (StreamQueue H.Receiver))
        (q q' : StreamQueue H.Receiver) (post : List (StreamQueue H.Receiver)),
        x.perform c (.setFormat place decoder media) = y.going next [] ∧
        x.streams[place]? = some stream ∧ x.queues = pre ++ q :: post ∧
          y.queues = pre ++ q' :: post ∧
        q.id = stream.id ∧ q'.id = q.id ∧ q'.rendering = media.rendering) ∨
      ∃ e, x.perform c (.setFormat place decoder media) = x.returning (.error e) [] := by
  simp only [perform, throughHandle]
  split
  · rename_i stream halive hstream
    cases hy : x.configure stream.id media with
    | error e => exact .inr ⟨_, rfl⟩
    | ok y =>
        obtain ⟨pre, q, post, hsplit, -, hid, rfl⟩ := configure_eq_ok hy
        exact .inl ⟨_, _, stream, pre, q, _, post, rfl, hstream, hsplit, rfl, hid, rfl, rfl⟩
  · exact .inr ⟨_, rfl⟩

theorem released_rendering {pacing : Pacing} {r : Schedule.Release H.Receiver}
    {effects : List (Effect H)} (h : x.Registered) (hr : x.select c pacing = (some r, effects)) :
    ∃ q ∈ x.queues, q.id = r.selected.sample.streamId ∧ q.rendering = r.selected.rendering := by
  obtain ⟨pre, q, post, sample, rest, hx, hsamples, hselected, -⟩ := select_eq_some hr
  refine ⟨q, by simp [hx], ?_, by rw [hselected]; rfl⟩
  rw [hselected]
  exact (h.home q (by simp [hx]) sample (by simp [hsamples])).symm

end Presentation

namespace Scene.Step

variable {scene next : Scene H} {deed : Deed H}

theorem keepsRenderings (h : Step scene deed next) (hcreate : ∀ s, deed.task ≠ .createStream s)
    (hformat : ∀ place name media, deed.task ≠ .setFormat place name media) :
    scene.presentation.KeepsRenderings next.presentation := by
  cases h with
  | aside hfree hstart hmove =>
      exact .of_conduct (hmove ▸ Presentation.perform_conduct hfree hstart) hcreate hformat
  | start => exact .of_queues rfl
  | duty hadv => exact .of_advance hadv

theorem released_rendering (h : Step scene deed next) (hreg : scene.presentation.Registered)
    {selected : Selected H.Receiver} (hmem : selected ∈ Ledger.released deed.effects) :
    ∃ q ∈ scene.presentation.queues, q.id = selected.sample.streamId ∧
      q.rendering = selected.rendering := by
  cases h with
  | aside hfree hstart hmove =>
      have hqueues := (Aside.of_moves (hmove ▸ Presentation.perform_aside hfree hstart)).2.1
      simp [hqueues.released_eq_nil] at hmem
  | start => cases hmem
  | duty hadv =>
      obtain ⟨pacing, r, before, -, hselect, rfl⟩ := hadv.select_of_mem hmem
      exact Presentation.released_rendering hreg hselect

end Scene.Step

/-! ## Runs -/

namespace Transition

variable {m : Machine H} {action : Action H} {progress : Progress H} {p : Key} {a : ActorId}
  {x : Presentation H} {effects : List (Effect H)}

theorem negotiates?_of_doing {deed : Deed H}
    (hdoing : doing? p ⟨m, action, progress⟩ = some (a, deed)) (s : StreamId) :
    negotiates? ⟨m, action, progress⟩ p s =
      if fails ⟨m, action, progress⟩ then none else deed.task.rendering? deed.before s := by
  rw [negotiates?, hdoing]
  rfl

theorem created {s : StreamId} (hplay : m.play action = some progress)
    (hdoing : doing? p ⟨m, action, progress⟩ = some (a, ⟨x, .createStream s, effects⟩)) :
    (∃ y, progress.machine.presentations[p]? = some y ∧ y.queues = x.queues ++ [.new s] ∧
        x.findStream? s = none ∧ fails ⟨m, action, progress⟩ = false) ∨
      progress.machine.presentations[p]? = some x ∧ fails ⟨m, action, progress⟩ := by
  obtain ⟨answers, rest, -, -, hx, hperform⟩ := perform_of_doing hplay hdoing
  rcases Presentation.perform_createStream (c := m.surroundings a p answers) (x := x) s with
    ⟨y, hcreated, hqueues, hnew⟩ | ⟨e, hfailed⟩
  · obtain ⟨rfl, -⟩ := Outcome.of_moves hperform hcreated
    exact .inl ⟨y, Crewed.presentation_after hx, hqueues, hnew, rfl⟩
  · obtain ⟨rfl, -⟩ := Outcome.of_moves hperform hfailed
    exact .inr ⟨Crewed.presentation_after hx, rfl⟩

theorem negotiated {place : Nat} {decoder : Option String} {media : MediaType}
    (hplay : m.play action = some progress)
    (hdoing : doing? p ⟨m, action, progress⟩ =
      some (a, ⟨x, .setFormat place decoder media, effects⟩)) :
    (∃ (y : Presentation H) (stream : Stream H.Decoder) (pre : List (StreamQueue H.Receiver))
        (q q' : StreamQueue H.Receiver) (post : List (StreamQueue H.Receiver)),
        progress.machine.presentations[p]? = some y ∧ x.streams[place]? = some stream ∧
        x.queues = pre ++ q :: post ∧ y.queues = pre ++ q' :: post ∧ q.id = stream.id ∧
          q'.id = q.id ∧
        q'.rendering = media.rendering ∧ fails ⟨m, action, progress⟩ = false) ∨
      progress.machine.presentations[p]? = some x ∧ fails ⟨m, action, progress⟩ := by
  obtain ⟨answers, rest, -, -, hx, hperform⟩ := perform_of_doing hplay hdoing
  rcases Presentation.perform_setFormat (c := m.surroundings a p answers)
    (x := x) place decoder media with
    ⟨y, next, stream, pre, q, q', post, hgoing, hstream, hsplit, hqueues, hid, hid', hrendering⟩ |
      ⟨e, hfailed⟩
  · obtain ⟨rfl, -⟩ := Outcome.of_moves hperform hgoing
    exact .inl ⟨y, stream, pre, q, q', post, Crewed.presentation_after hx, hstream, hsplit, hqueues,
      hid, hid', hrendering, rfl⟩
  · obtain ⟨rfl, -⟩ := Outcome.of_moves hperform hfailed
    exact .inr ⟨Crewed.presentation_after hx, rfl⟩

end Transition

structure Run.Rendered (r : Run H) (p : Key) : Prop where
  registered : ∀ x, r.final.presentations[p]? = some x → x.Registered
  renderings : ∀ x, r.final.presentations[p]? = some x → ∀ q ∈ x.queues,
    q.rendering = renderingAfter p q.id r.trace

namespace Run.Rendered

variable {r : Run H} {p : Key} {action : Action H} {progress : Progress H} {x y : Presentation H}
  {a : ActorId} {effects : List (Effect H)} {q : StreamQueue H.Receiver}

theorem of_old (h : r.Rendered p) (hx : r.final.presentations[p]? = some x)
    (hold : ∃ old ∈ x.queues, old.id = q.id ∧ old.rendering = q.rendering)
    (hnone : Transition.negotiates? ⟨r.final, action, progress⟩ p q.id = none) :
    q.rendering = renderingAfter p q.id (r.extend action progress).trace := by
  obtain ⟨old, hold, hid, hrendering⟩ := hold
  rw [Run.extend, renderingAfter_snoc, hnone, Option.getD_none, ← hrendering, ← hid]
  exact h.renderings x hx old hold

theorem of_new
    (hnew : Transition.negotiates? ⟨r.final, action, progress⟩ p q.id = some q.rendering) :
    q.rendering = renderingAfter p q.id (r.extend action progress).trace := by
  rw [Run.extend, renderingAfter_snoc, hnew, Option.getD_some]

theorem next_createStream {s : StreamId} (h : r.Rendered p)
    (hplay : r.final.play action = some progress)
    (hdoing : Transition.doing? p ⟨r.final, action, progress⟩ =
      some (a, ⟨x, .createStream s, effects⟩))
    (hx : r.final.presentations[p]? = some x) (hy : progress.machine.presentations[p]? = some y) :
    ∀ q ∈ y.queues, q.rendering = renderingAfter p q.id (r.extend action progress).trace := by
  intro q hq
  have hnegotiates := Transition.negotiates?_of_doing hdoing q.id
  rcases Transition.created hplay hdoing with ⟨z, hz, hqueues, hnew, hdone⟩ | ⟨hz, hfails⟩
  · obtain rfl : z = y := Option.some.inj (hz.symm.trans hy)
    rw [hdone] at hnegotiates
    rw [hqueues] at hq
    rcases List.mem_append.mp hq with hold | hnewest
    · have hother : s ≠ q.id := by
        exact fun heq => (h.registered x hx).ne_of_unregistered hnew q hold heq.symm
      exact h.of_old hx ⟨q, hold, rfl, rfl⟩ (by simpa [Task.rendering?, hother] using hnegotiates)
    · rw [List.mem_singleton.mp hnewest] at hnegotiates ⊢
      exact of_new (hnegotiates.trans (if_pos rfl))
  · obtain rfl := Option.some.inj (hz.symm.trans hy)
    exact h.of_old hx ⟨q, hq, rfl, rfl⟩ (by rw [hnegotiates, if_pos hfails])

theorem next_setFormat {place : Nat} {decoder : Option String} {media : MediaType}
    (h : r.Rendered p) (hplay : r.final.play action = some progress)
    (hdoing : Transition.doing? p ⟨r.final, action, progress⟩ =
      some (a, ⟨x, .setFormat place decoder media, effects⟩))
    (hx : r.final.presentations[p]? = some x) (hy : progress.machine.presentations[p]? = some y) :
    ∀ q ∈ y.queues, q.rendering = renderingAfter p q.id (r.extend action progress).trace := by
  intro q hq
  have hnegotiates := Transition.negotiates?_of_doing hdoing q.id
  rcases Transition.negotiated hplay hdoing with
    ⟨z, stream, pre, old, new, post, hz, hstream, hsplit, hqueues, hid, hid', hrendering, hdone⟩ |
      ⟨hz, hfails⟩
  · obtain rfl : z = y := Option.some.inj (hz.symm.trans hy)
    have hothers := (h.registered x hx).ne_of_others hsplit
    have hnumber : (x.streams[place]?).any (·.id == q.id) = (old.id == q.id) := by
      simp [hstream, hid]
    simp only [hdone, Task.rendering?, hnumber] at hnegotiates
    rw [hqueues] at hq
    have hapart : q ∈ pre ++ post →
        q.rendering = renderingAfter p q.id (r.extend action progress).trace := by
      intro hmem
      have hne : old.id ≠ q.id := Ne.symm (hothers q hmem)
      refine h.of_old hx ⟨q, ?_, rfl, rfl⟩ (by simpa [hne] using hnegotiates)
      rw [hsplit]
      rcases List.mem_append.mp hmem with hmem | hmem <;> simp [hmem]
    rcases List.mem_append.mp hq with hmem | hmem
    · exact hapart (List.mem_append_left _ hmem)
    · rcases List.mem_cons.mp hmem with rfl | hmem
      · exact of_new (by simpa [hid', hrendering] using hnegotiates)
      · exact hapart (List.mem_append_right _ hmem)
  · obtain rfl := Option.some.inj (hz.symm.trans hy)
    exact h.of_old hx ⟨q, hq, rfl, rfl⟩ (by rw [hnegotiates, if_pos hfails])

theorem next_of_deed (h : r.Rendered p) (hplay : r.final.play action = some progress)
    (hx : r.final.presentations[p]? = some x) (hy : progress.machine.presentations[p]? = some y)
    {crew crew' : Crew H} {deed : Deed H}
    (hdoing : Transition.doing? p ⟨r.final, action, progress⟩ = some (a, deed))
    (hstep : Scene.Step ⟨x, crew.standing⟩ deed ⟨y, crew'.standing⟩) :
    ∀ q ∈ y.queues, q.rendering = renderingAfter p q.id (r.extend action progress).trace := by
  have hnegotiates := Transition.negotiates?_of_doing hdoing
  have hbefore := hstep.before_eq
  obtain ⟨before, task, effects⟩ := deed
  obtain rfl : before = x := hbefore
  by_cases hcreate : ∃ s, task = .createStream s
  · obtain ⟨s, rfl⟩ := hcreate
    exact h.next_createStream hplay hdoing hx hy
  · by_cases hformat : ∃ place decoder media, task = .setFormat place decoder media
    · obtain ⟨place, decoder, media, rfl⟩ := hformat
      exact h.next_setFormat hplay hdoing hx hy
    · -- no other task has to do with the rendering of a stream
      have hkeeps := hstep.keepsRenderings (fun s heq => hcreate ⟨s, heq⟩)
        (fun place decoder media heq => hformat ⟨place, decoder, media, heq⟩)
      intro q hq
      refine h.of_old hx (hkeeps q hq) ?_
      rw [hnegotiates]
      cases task <;> simp_all [Task.rendering?]

theorem next (h : r.Rendered p) {crew crew' : Crew H} (hcrew : Crewed r.final p crew)
    (hplay : r.final.play action = some progress)
    (hturn : Turn r.final progress.machine p crew
      (Transition.doing? p ⟨r.final, action, progress⟩) crew') :
    (r.extend action progress).Rendered p := by
  cases hx : r.final.presentations[p]? with
  | none =>
      obtain ⟨-, -, hnone | ⟨id, hnew⟩⟩ := hturn.absent hx
      · exact ⟨fun y hy => absurd (hnone.symm.trans hy) nofun,
          fun y hy => absurd (hnone.symm.trans hy) nofun⟩
      · refine ⟨fun y hy => ?_, fun y hy => ?_⟩
        · obtain rfl := Option.some.inj (hnew.symm.trans hy)
          exact Presentation.registered_new id
        · obtain rfl := Option.some.inj (hnew.symm.trans hy)
          exact fun q hq => absurd hq List.not_mem_nil
  | some x =>
      obtain ⟨y, hy⟩ := hturn.exists_after hx
      have hsame : ∀ z, (r.extend action progress).final.presentations[p]? = some z → z = y :=
        fun z hz => Option.some.inj (hz.symm.trans hy)
      rcases hcrew.step_of_turn hturn hx hy with ⟨hnone, rfl, -⟩ | ⟨b, deed, hdoing, hstep⟩
      · refine ⟨fun z hz => hsame z hz ▸ h.registered y hx, fun z hz q hq => ?_⟩
        refine h.of_old hx ⟨q, hsame z hz ▸ hq, rfl, rfl⟩ ?_
        rw [Transition.negotiates?, hnone]
        rfl
      · refine ⟨fun z hz => hsame z hz ▸ (hstep.balanced (h.registered x hx)).registered,
          fun z hz => ?_⟩
        rw [hsame z hz]
        exact h.next_of_deed hplay hx hy hdoing hstep

end Run.Rendered

/-- Samples are delivered as their streams are rendered when they are released. -/
structure Run.RendersAsNegotiated (r : Run H) (p : Key) : Prop where
  /-- There is one delivery for each release, which goes by what the sample was released with. -/
  delivered : ∃ ds : List (Delivery H), Ledger.released (r.effects p) = ds.map (·.selected) ∧
    r.notes p <+: ds.flatMap Delivery.notes
  /-- At any moment since which nothing has been negotiated the stream was rendered like the sample,
  and so it was when the sample was pushed if nothing has been negotiated since then. -/
  released : ∀ past since t after selected, r.trace = past ++ (since ++ t :: after) →
    selected ∈ Ledger.released (t.effects p) →
      (∀ u ∈ since, u.negotiates? p selected.sample.streamId = none) →
        selected.rendering = renderingAfter p selected.sample.streamId past
  /-- What is released was pushed, and has the pixel format of its decoder since. -/
  pushed : List.Forall₂ Push.Yields (r.accepted p) (Ledger.entered (r.effects p)) ∧
    ∀ s, (Sample.ofStream s ((Ledger.released (r.effects p)).map (·.sample))).Sublist
      (Sample.ofStream s (Ledger.entered (r.effects p)))

namespace Machine

theorem run_rendered (config : Config) (decoders : DecoderBackends H.Codec)
    (outputs : AudioBackends H.Output) (actions : List (Action H)) (p : Key) :
    ∃ crew, Crewed ((initial config decoders outputs).run actions).final p crew ∧
      ((initial config decoders outputs).run actions).Rendered p :=
  run_turns (P := fun r _ => r.Rendered p) (initial config decoders outputs)
    (fun q => ⟨none, .initial config decoders outputs q⟩) (.initial config decoders outputs p)
    ⟨fun x hx => by simp [initial] at hx, fun x hx => by simp [initial] at hx⟩
    (fun _ _ _ _ _ hcrew h hplay _ hturn => h.next hcrew hplay hturn) actions

theorem rendering_of_released (config : Config) (decoders : DecoderBackends H.Codec)
    (outputs : AudioBackends H.Output) (actions : List (Action H)) {p : Key}
    {past after : List (Transition H)} {t : Transition H} {selected : Selected H.Receiver}
    (htrace : ((initial config decoders outputs).run actions).trace = past ++ t :: after)
    (hreleased : selected ∈ Ledger.released (t.effects p)) :
    selected.rendering = renderingAfter p selected.sample.streamId past := by
  obtain ⟨earlier, hrun, hplay⟩ := run_split _ actions htrace
  obtain ⟨crew, hcrew, hrendered⟩ := run_rendered config decoders outputs earlier p
  rw [hrun] at hcrew hrendered
  obtain ⟨crew', -, hturn⟩ := run_turn config decoders outputs earlier hrun hplay hcrew
  cases hdoing : t.doing? p with
  | none =>
      rw [Transition.effects_of_doing hplay hdoing] at hreleased
      cases hreleased
  | some doing =>
      obtain ⟨b, deed⟩ := doing
      rw [Transition.effects_of_doing hplay hdoing] at hreleased
      obtain ⟨answers, rest, -, -, hx, -⟩ :=
        Transition.perform_of_doing (x := deed.before) hplay hdoing
      obtain ⟨y, hy⟩ := hturn.exists_after hx
      rcases hcrew.step_of_turn hturn hx hy with ⟨hnone, -, -⟩ | ⟨b', deed', hdoing', hstep⟩
      · cases hdoing.symm.trans hnone
      · obtain ⟨rfl, rfl⟩ := Prod.mk.inj (Option.some.inj (hdoing.symm.trans hdoing'))
        obtain ⟨q, hq, hid, hrendering⟩ :=
          hstep.released_rendering (hrendered.registered _ hx) hreleased
        rw [← hrendering, ← hid]
        exact hrendered.renderings _ hx q hq

/-- A sample is delivered as the last negotiation has left its stream that reached it before the
release. So it is delivered as its stream was rendered when it was pushed unless the stream has been
negotiated or created anew since; its pixel format is the one that it was decoded with. -/
theorem rendered_as_negotiated (config : Config) (decoders : DecoderBackends H.Codec)
    (outputs : AudioBackends H.Output) (actions : List (Action H)) (p : Key) :
    ((initial config decoders outputs).run actions).RendersAsNegotiated p := by
  obtain ⟨crew, id, x, hcrew, hhistory, -⟩ := run_history config decoders outputs actions p
  have hhands :=
    Run.handsOn hcrew hhistory (run_followed config decoders outputs actions)
      (run_effects _ actions p)
  refine ⟨?_, fun past since t after selected htrace hreleased hnone => ?_, hhands.pushed⟩
  · obtain ⟨ds, hselected, hnotes, -⟩ := hhands.delivered
    exact ⟨ds, hselected, hnotes⟩
  · rw [← List.append_assoc] at htrace
    rw [rendering_of_released config decoders outputs actions htrace hreleased,
      renderingAfter_append hnone]

open Playout.Action in
/-- A frame is pushed while its stream has frames of 4 by 4 pixels. Frames of 8 by 6 pixels are
negotiated before a thread shows it. -/
def negotiatedAgain : List (Action .plain) :=
  prepared (.video .unknown 4 4) [0] ++ calling 0 (.setFormat ⟨0, 0⟩ none (.video .unknown 8 6)) 2
    ++ calling 0 (.start 0) 2 ++ steps 1 6

/-- It is shown with a size that its stream did not have when it was pushed. -/
theorem negotiatedAgain_shown :
    renderingAfter 0 1 ((plain.run negotiatedAgain).trace.take 7) = ⟨.video, 4, 4⟩ ∧
      (((plain.run negotiatedAgain).trace.drop 7).take 3).flatMap
          (fun t => (Ledger.entered (t.effects 0)).map (·.sampleId)) = [0] ∧
      (Ledger.released ((plain.run negotiatedAgain).effects 0)).map
      (fun s => (s.sample.sampleId, s.rendering)) =
        [(0, ⟨.video, 8, 6⟩)] ∧
      ((plain.run negotiatedAgain).effects 0).filterMap (fun e =>
          match e with
          | .offered (.videoFrame frame) _ => some (frame.frameWidth, frame.frameHeight)
          | _ => none) = [(8, 6)] := by
  decide +kernel

end Machine

end Playout
