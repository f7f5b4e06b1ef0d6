import Playout.Proofs.Delivery.Rendering
import Playout.Proofs.Presentation.Negotiation

/-!
# What sinks are opened for

A presentation remembers the format of the audio stream that was negotiated last and the audio
device that was asked for last. Nothing else that is done to it has to do with these settings,
whether or not a thread is running.
-/

namespace Playout

variable {H : Platform}

/-! ## The latest settings -/

def Task.format? : Task H → Option AudioFormat
  | .setFormat _ _ media => if media.majorType == .audio then some (.ofMediaType media) else none
  | _ => none

def Task.device? : Task H → Option AudioDevice
  | .setAudioDevice device => some device
  | _ => none

namespace Transition

/-- The audio format that is negotiated. It is noted when the stream has been found; a decoder is
looked for afterwards. -/
def formats? (t : Transition H) (p : Key) : Option AudioFormat :=
  (t.doing? p).bind fun (_, deed) => if t.fails then none else deed.task.format?

def requests? (t : Transition H) (p : Key) : Option AudioDevice :=
  (t.doing? p).bind fun (_, deed) => deed.task.device?

variable {t : Transition H} {p : Key} {a : ActorId} {deed : Deed H}

theorem formats?_of_doing (hdoing : t.doing? p = some (a, deed)) :
    t.formats? p = if t.fails then none else deed.task.format? := by
  rw [formats?, hdoing]
  rfl

theorem requests?_of_doing (hdoing : t.doing? p = some (a, deed)) :
    t.requests? p = deed.task.device? := by
  rw [requests?, hdoing]
  rfl

end Transition

def formatAfter (p : Key) (past : List (Transition H)) : AudioFormat :=
  (past.filterMap (·.formats? p)).getLast?.getD .zero

def deviceAfter (p : Key) (past : List (Transition H)) : AudioDevice :=
  (past.filterMap (·.requests? p)).getLast?.getD .unspecified

theorem formatAfter_snoc (p : Key) (past : List (Transition H)) (t : Transition H) :
    formatAfter p (past ++ [t]) = (t.formats? p).getD (formatAfter p past) := by
  unfold formatAfter
  rw [List.filterMap_append]
  cases hnew : t.formats? p <;> simp [hnew]

theorem deviceAfter_snoc (p : Key) (past : List (Transition H)) (t : Transition H) :
    deviceAfter p (past ++ [t]) = (t.requests? p).getD (deviceAfter p past) := by
  unfold deviceAfter
  rw [List.filterMap_append]
  cases hnew : t.requests? p <;> simp [hnew]

/-- A format that was negotiated always has a width, so that two numbers decide whether a sink can
be opened for it. -/
theorem formatAfter_isComplete (p : Key) (past : List (Transition H)) :
    (formatAfter p past).isComplete ↔
    (formatAfter p past).sampleRate ≠ 0 ∧ (formatAfter p past).channels ≠ 0 := by
  have hformat : formatAfter p past = .zero ∨ ∃ media, formatAfter p past = .ofMediaType media := by
    unfold formatAfter
    cases hlast : (past.filterMap (·.formats? p)).getLast? with
    | none => exact .inl rfl
    | some format =>
        obtain ⟨t, -, hformat⟩ := List.mem_filterMap.mp (List.mem_of_getLast? hlast)
        obtain ⟨⟨b, deed⟩, -, hnoted⟩ := Option.bind_eq_some_iff.mp hformat
        obtain ⟨-, hnoted⟩ := Option.ite_none_left_eq_some.mp hnoted
        obtain ⟨before, task, effects⟩ := deed
        cases task with
        | setFormat place decoder media =>
            obtain ⟨-, hmedia⟩ := Option.ite_none_right_eq_some.mp hnoted
            exact .inr ⟨media, (Option.some.inj hmedia).symm⟩
        | _ => cases hnoted
  rcases hformat with hzero | ⟨media, hmedia⟩
  · rw [hzero]
    decide
  · have hbits : (AudioFormat.ofMediaType media).bitsPerSample ≠ 0 := by
      unfold AudioFormat.ofMediaType
      by_cases hwidth : media.bitsPerSample = 0 <;> simp [hwidth]
    rw [hmedia]
    simp [AudioFormat.isComplete, hbits]

/-! ## What changes the settings -/

namespace Presentation

variable {c : Surroundings H} {x y : Presentation H} {task : Task H} {move : Move H}

structure SameAudio (x y : Presentation H) : Prop where
  format : y.audioFormat = x.audioFormat
  device : y.audioDevice = x.audioDevice

theorem SameAudio.refl (x : Presentation H) : x.SameAudio x :=
  ⟨rfl, rfl⟩

/-- What goes through a handle and finds no presentation changes nothing. -/
theorem throughHandle_sameAudio {place : Nat} {f : StreamId → Outcome H}
    (h : x.throughHandle c place f = .moves move)
    (hf : ∀ s, f s = .moves move → x.SameAudio move.presentation) :
    x.SameAudio move.presentation := by
  unfold throughHandle at h
  split at h
  · exact hf _ h
  · cases h
    exact .refl x

theorem createStream_sameAudio {s : StreamId} (h : x.perform c (.createStream s) = .moves move) :
    x.SameAudio move.presentation := by
  simp only [perform, createStream] at h
  split at h
  · cases h
    exact .refl x
  · rename_i y hy
    cases h
    split at hy <;> cases hy
    exact ⟨rfl, rfl⟩

theorem detachStream_sameAudio {s : StreamId} (h : x.perform c (.detachStream s) = .moves move) :
    x.SameAudio move.presentation := by
  simp only [perform, detachStream] at h
  split at h
  · cases h
    exact .refl x
  · rename_i d hd
    cases h
    split at hd <;> cases hd
    exact ⟨rfl, rfl⟩

theorem push_sameAudio {place : Nat} {chunk : Chunk H.Receiver}
    (h : x.perform c (.push place chunk) = .moves move) :
    x.SameAudio move.presentation := by
  simp only [perform] at h
  refine throughHandle_sameAudio h fun s hs => ?_
  unfold decode at hs
  split at hs
  · cases hs
    exact .refl x
  · split at hs <;> cases hs <;> exact ⟨rfl, rfl⟩

theorem enqueue_sameAudio {sample : Sample H.Receiver}
    (h : x.perform c (.enqueue sample) = .moves move) :
    x.SameAudio move.presentation := by
  simp only [perform] at h
  split at h
  · cases h
    exact .refl x
  · rename_i y hy
    obtain ⟨pre, q, post, -, -, -, rfl⟩ := enqueue_eq_ok hy
    cases h
    exact ⟨rfl, rfl⟩

theorem endStream_sameAudio {place : Nat} (h : x.perform c (.endStream place) = .moves move) :
    x.SameAudio move.presentation := by
  simp only [perform] at h
  refine throughHandle_sameAudio h fun s hs => ?_
  split at hs
  · cases hs
    exact .refl x
  · rename_i y hy
    obtain ⟨pre, q, post, -, -, -, rfl⟩ := endStream_eq_ok hy
    cases hs
    exact ⟨rfl, rfl⟩

/-- Two tasks change the settings, and no other task of a call does. -/
theorem perform_sameAudio (hfree : task.isDuty = false)
    (hformat : ∀ place decoder media, task ≠ .setFormat place decoder media)
    (hdevice : ∀ device, task ≠ .setAudioDevice device) (h : x.perform c task = .moves move) :
    x.SameAudio move.presentation := by
  cases task with
  | createStream s => exact createStream_sameAudio h
  | detachStream s => exact detachStream_sameAudio h
  | setFormat place decoder media => exact absurd rfl (hformat place decoder media)
  | setAudioDevice device => exact absurd rfl (hdevice device)
  | loadDecoder place name media =>
      cases Equips.of_moves h <;> exact ⟨rfl, rfl⟩
  | push place chunk => exact push_sameAudio h
  | enqueue sample => exact enqueue_sameAudio h
  | endStream place => exact endStream_sameAudio h
  | forgetStream place =>
      simp only [perform, forgetStream] at h
      split at h <;> cases h <;> exact ⟨rfl, rfl⟩
  | releaseDecoders places => cases places <;> cases h <;> exact ⟨rfl, rfl⟩
  | reclaim =>
      simp only [perform, reclaim] at h
      split at h <;> cases h <;> exact ⟨rfl, rfl⟩
  | start => rcases start_cases h with ⟨-, rfl⟩ | ⟨text, -, -, rfl⟩ | ⟨-, rfl⟩ <;> exact ⟨rfl, rfl⟩
  | inspectThread | awaitStopped | join =>
      simp only [perform] at h
      split at h <;> cases h <;> exact ⟨rfl, rfl⟩
  | repaint =>
      simp only [perform, takeLastRendered] at h
      split at h <;> cases h <;> exact ⟨rfl, rfl⟩
  | holdStream | detachStreams | setGeometry | keepThread | requestExit | clearQueues | flushSink
  | letGo | offer | callback | finish =>
      cases h
      exact ⟨rfl, rfl⟩
  | _ => cases hfree

end Presentation

theorem Advance.sameAudio {c : Surroundings H} {x y : Presentation H} {s : Standing H}
    {effects : List (Effect H)}
    {s? : Option (Standing H)} (h : Advance c x s y effects s?) : x.SameAudio y := by
  cases h with
  | frame =>
      rw [Presentation.beginFrame_snd]
      exact ⟨rfl, rfl⟩
  | _ => exact ⟨rfl, rfl⟩

theorem Scene.Step.sameAudio {scene next : Scene H} {deed : Deed H} (h : Step scene deed next)
    (hformat : ∀ place decoder media, deed.task ≠ .setFormat place decoder media)
    (hdevice : ∀ device, deed.task ≠ .setAudioDevice device) :
    scene.presentation.SameAudio next.presentation := by
  cases h with
  | aside hfree _ hmove => exact Presentation.perform_sameAudio hfree hformat hdevice hmove
  | start => exact ⟨rfl, rfl⟩
  | duty hadv => exact hadv.sameAudio

/-- A format is negotiated if it is one of audio, and if there is a stream under the number that is
registered. -/
theorem Transition.formats?_eq_some_iff {m : Machine H} {action : Action H} {progress : Progress H}
    {p : Key}
    {a : ActorId} {x : Presentation H} {place : Nat} {decoder : Option String} {media : MediaType}
    {effects : List (Effect H)} (hplay : m.play action = some progress)
    (hdoing : doing? p ⟨m, action, progress⟩ =
      some (a, ⟨x, .setFormat place decoder media, effects⟩))
    (format : AudioFormat) :
    formats? ⟨m, action, progress⟩ p = some format ↔
      media.majorType = .audio ∧ format = .ofMediaType media ∧ m.alive p ∧
        ∃ stream, x.streams[place]? = some stream ∧ ∃ q ∈ x.queues, q.id = stream.id := by
  obtain ⟨answers, rest, -, -, hx, hperform⟩ := perform_of_doing hplay hdoing
  obtain ⟨move, hmove, hconfigures⟩ :=
    Presentation.perform_setFormat_configures (m.surroundings a p answers) x place decoder media
  obtain ⟨rfl, -⟩ := Outcome.of_moves hperform hmove
  rw [formats?_of_doing hdoing]
  cases hconfigures with
  | refused hrefuses =>
      refine iff_of_false (by simp [fails, Machine.after]) ?_
      rintro ⟨-, -, halive, stream, hstream, q, hq, hid⟩
      cases hrefuses with
      | gone hgone =>
          rcases hgone with hgone | hgone
          · cases hgone.symm.trans halive
          · cases hgone.symm.trans hstream
      | unregistered _ hother hnone =>
          obtain rfl := Option.some.inj (hother.symm.trans hstream)
          exact hnone q hq hid
  | @configured stream pre q post halive hstream hqueues _ hid =>
      have hq : q ∈ x.queues := hqueues ▸ List.mem_append_right pre List.mem_cons_self
      constructor
      · intro hsome
        obtain ⟨-, hnoted⟩ := Option.ite_none_left_eq_some.mp hsome
        obtain ⟨haudio, hformat⟩ := Option.ite_none_right_eq_some.mp hnoted
        exact ⟨beq_iff_eq.mp haudio, (Option.some.inj hformat).symm, halive, stream, hstream, q, hq,
          hid⟩
      · rintro ⟨haudio, rfl, -⟩
        simp [fails, Machine.after, Task.format?, haudio]

/-! ## Runs -/

structure Run.RemembersAudio (r : Run H) (p : Key) : Prop where
  format : (r.final.presentations[p]?.map (·.audioFormat)).getD .zero = formatAfter p r.trace
  device : (r.final.presentations[p]?.map (·.audioDevice)).getD .unspecified = deviceAfter p r.trace

namespace Run.RemembersAudio

variable {r : Run H} {p : Key} {action : Action H} {progress : Progress H} {x y : Presentation H}
  {a : ActorId}
  {deed : Deed H}

/-- Nothing has been negotiated or asked for, and nothing has changed. -/
theorem same (h : r.RemembersAudio p)
    (hformats : Transition.formats? ⟨r.final, action, progress⟩ p = none)
    (hrequests : Transition.requests? ⟨r.final, action, progress⟩ p = none)
    (hformat : (progress.machine.presentations[p]?.map (·.audioFormat)).getD .zero =
      (r.final.presentations[p]?.map (·.audioFormat)).getD .zero)
    (hdevice : (progress.machine.presentations[p]?.map (·.audioDevice)).getD .unspecified =
      (r.final.presentations[p]?.map (·.audioDevice)).getD .unspecified) :
    (r.extend action progress).RemembersAudio p where
  format := by
    rw [extend, formatAfter_snoc, hformats, Option.getD_none, ← h.format]
    exact hformat
  device := by
    rw [extend, deviceAfter_snoc, hrequests, Option.getD_none, ← h.device]
    exact hdevice

theorem same_of_sameAudio (h : r.RemembersAudio p) (hx : r.final.presentations[p]? = some x)
    (hy : progress.machine.presentations[p]? = some y)
    (hdoing : Transition.doing? p ⟨r.final, action, progress⟩ = some (a, deed))
    (hformat : deed.task.format? = none)
    (hdevice : deed.task.device? = none) (hsame : x.SameAudio y) :
    (r.extend action progress).RemembersAudio p := by
  refine h.same ?_ ?_ ?_ ?_
  · rw [Transition.formats?_of_doing hdoing, hformat, ite_self]
  · rw [Transition.requests?_of_doing hdoing, hdevice]
  · rw [hx, hy]
    exact hsame.format
  · rw [hx, hy]
    exact hsame.device

theorem next_setFormat {place : Nat} {decoder : Option String} {media : MediaType}
    {effects : List (Effect H)}
    (h : r.RemembersAudio p) (hplay : r.final.play action = some progress)
    (hdoing : Transition.doing? p ⟨r.final, action, progress⟩ =
      some (a, ⟨x, .setFormat place decoder media, effects⟩)) :
        (r.extend action progress).RemembersAudio p := by
  obtain ⟨answers, rest, -, -, hx, hperform⟩ := Transition.perform_of_doing hplay hdoing
  obtain ⟨move, hmove, hconfigures⟩ :=
    Presentation.perform_setFormat_configures
      (r.final.surroundings a p answers) x place decoder media
  obtain ⟨rfl, -⟩ := Outcome.of_moves hperform hmove
  have hy : (r.final.after a p rest move).machine.presentations[p]? = some move.presentation :=
    Crewed.presentation_after hx
  have hformats := Transition.formats?_of_doing hdoing
  have hrequests := Transition.requests?_of_doing hdoing
  cases hconfigures with
  | refused => exact h.same hformats hrequests (by rw [hx, hy]) (by rw [hx, hy])
  | configured =>
      refine ⟨?_, ?_⟩
      · rw [extend, formatAfter_snoc, hformats, hy, ← h.format, hx]
        by_cases haudio : media.majorType == .audio <;>
          simp [haudio, Task.format?, Transition.fails, Machine.after]
      · rw [extend, deviceAfter_snoc, hrequests, hy, ← h.device, hx]
        rfl

theorem next_setAudioDevice {device : AudioDevice} {effects : List (Effect H)}
    (h : r.RemembersAudio p) (hplay : r.final.play action = some progress)
    (hdoing : Transition.doing? p ⟨r.final, action, progress⟩ =
      some (a, ⟨x, .setAudioDevice device, effects⟩)) :
    (r.extend action progress).RemembersAudio p := by
  obtain ⟨answers, rest, -, -, hx, hperform⟩ := Transition.perform_of_doing hplay hdoing
  obtain ⟨rfl, -⟩ := Outcome.of_moves hperform rfl
  let move : Move H := { presentation := x.setAudioDevice device, result := some (.ok ()) }
  have hy : (r.final.after a p rest move).machine.presentations[p]? =
      some (x.setAudioDevice device) :=
    Crewed.presentation_after hx
  refine ⟨?_, ?_⟩
  · rw [extend, formatAfter_snoc, Transition.formats?_of_doing hdoing, hy, ← h.format, hx]
    rfl
  · rw [extend, deviceAfter_snoc, Transition.requests?_of_doing hdoing, hy]
    rfl

theorem next_of_deed (h : r.RemembersAudio p) (hplay : r.final.play action = some progress)
    (hx : r.final.presentations[p]? = some x) (hy : progress.machine.presentations[p]? = some y)
    {crew crew' : Crew H}
    (hdoing : Transition.doing? p ⟨r.final, action, progress⟩ = some (a, deed))
    (hstep : Scene.Step ⟨x, crew.standing⟩ deed ⟨y, crew'.standing⟩) :
    (r.extend action progress).RemembersAudio p := by
  have hbefore := hstep.before_eq
  obtain ⟨before, task, effects⟩ := deed
  obtain rfl : before = x := hbefore
  by_cases hformat : ∃ place decoder media, task = .setFormat place decoder media
  · obtain ⟨place, decoder, media, rfl⟩ := hformat
    exact h.next_setFormat hplay hdoing
  · by_cases hdevice : ∃ device, task = .setAudioDevice device
    · obtain ⟨device, rfl⟩ := hdevice
      exact h.next_setAudioDevice hplay hdoing
    · -- no other task has to do with the settings
      have hsame : before.SameAudio y := hstep.sameAudio
        (fun place decoder media heq => hformat ⟨place, decoder, media, heq⟩) fun device heq =>
          hdevice ⟨device, heq⟩
      refine h.same_of_sameAudio hx hy hdoing ?_ ?_ hsame
      · cases task <;> simp_all [Task.format?]
      · cases task <;> simp_all [Task.device?]

theorem next (h : r.RemembersAudio p) {crew crew' : Crew H} (hcrew : Crewed r.final p crew)
    (hplay : r.final.play action = some progress)
    (hturn : Turn r.final progress.machine p crew
      (Transition.doing? p ⟨r.final, action, progress⟩) crew') :
    (r.extend action progress).RemembersAudio p := by
  have hnothing : Transition.doing? p ⟨r.final, action, progress⟩ = none →
      Transition.formats? ⟨r.final, action, progress⟩ p = none ∧
        Transition.requests? ⟨r.final, action, progress⟩ p = none := by
    intro hnone
    simp [Transition.formats?, Transition.requests?, hnone]
  cases hx : r.final.presentations[p]? with
  | none =>
      obtain ⟨hnone, -, hstill | ⟨id, hnew⟩⟩ := hturn.absent hx
      · exact h.same (hnothing hnone).1 (hnothing hnone).2 (by rw [hstill, hx]) (by rw [hstill, hx])
      · exact h.same (hnothing hnone).1 (hnothing hnone).2 (by rw [hnew, hx]; rfl)
          (by rw [hnew, hx]; rfl)
  | some x =>
      obtain ⟨y, hy⟩ := hturn.exists_after hx
      rcases hcrew.step_of_turn hturn hx hy with ⟨hnone, rfl, -⟩ | ⟨b, deed, hdoing, hstep⟩
      · exact h.same (hnothing hnone).1 (hnothing hnone).2 (by rw [hy, hx]) (by rw [hy, hx])
      · exact h.next_of_deed hplay hx hy hdoing hstep

end Run.RemembersAudio

/-! ## Where requests come from -/

/-- Nobody who does a task of a call goes on to ask for a device. -/
theorem Conduct.setAudioDevice_not_mem {c : Surroundings H} {x : Presentation H} {task : Task H}
    {move : Move H} (h : Conduct c x task (.moves move)) (device : AudioDevice) :
    Task.setAudioDevice device ∉ move.next := by
  generalize ho : Outcome.moves move = o at h
  cases h with
  | waits => cases ho
  | _ =>
      cases ho
      simp

theorem Standing.setAudioDevice_not_mem (x : Presentation H) (s : Standing H)
    (s? : Option (Standing H))
    (device : AudioDevice) : Task.setAudioDevice device ∉ s.interludes x ++ Standing.duties s? := by
  intro hmem
  rcases List.mem_append.mp hmem with hinterlude | hduty
  · cases Standing.isInterlude_of_mem hinterlude
  · cases Standing.duties_isDuty s? _ hduty

/-- Whoever does something to the presentation leaves no request for a device behind. -/
theorem Turn.mem_of_setAudioDevice {m m' : Machine H} {p : Key} {crew crew' : Crew H}
    {doing : ActorId × Deed H}
    {b : ActorId} {device : AudioDevice} (h : Turn m m' p crew (some doing) crew')
    (hmem : Job.at p (.setAudioDevice device) ∈ m'.stack b) :
    Job.at p (.setAudioDevice device) ∈ m.stack b := by
  cases h with
  | @aside a answers _ _ _ _ _ _ hfree hstart hmove hreplaces =>
      refine (hreplaces.mem_cases hmem).resolve_right fun hnew => ?_
      have hconduct := Presentation.perform_conduct (c := m.surroundings a p answers) hfree hstart
      rw [hmove] at hconduct
      exact hconduct.setAudioDevice_not_mem device (by simpa using hnew)
  | @start a _ _ _ _ _ _ _ hstack hrest _ hbody hothers =>
      by_cases hnew : b = m.actors.length
      · rw [hnew, hbody] at hmem
        simp [Task.body] at hmem
      · by_cases hb : b = a
        · rw [hb, hrest] at hmem
          rw [hb, hstack]
          simpa using hmem
        · exact hothers b hb hnew ▸ hmem
  | @duty _ _ s x _ _ s? _ _ _ _ hreplaces =>
      refine (hreplaces.mem_cases hmem).resolve_right fun hnew => ?_
      exact s.setAudioDevice_not_mem x s? device (by simpa using hnew)

namespace Machine

variable {m : Machine H} {p : Key} {a b : ActorId} {device : AudioDevice} {progress : Progress H}

theorem mem_of_replaced {m' : Machine H} {job : Job H} {rest : List (Job H)} (new : List (Job H))
    (hstack : m.stack a = job :: rest) (hactors : m'.actors = (m.setStack a (new ++ rest)).actors)
    (hnew : Job.at p (.setAudioDevice device) ∉ new)
    (hmem : Job.at p (.setAudioDevice device) ∈ m'.stack b) :
    Job.at p (.setAudioDevice device) ∈ m.stack b :=
  have hreplaces : m.Replaces m' p a [job] new rest :=
    .of_setStack hstack (lt_of_stack hstack) hactors
  (hreplaces.mem_cases hmem).resolve_right hnew

theorem mem_of_registry {answers : Answers H} {job : Job H} {rest : List (Job H)}
    (hstack : m.stack a = job :: rest)
    (hjob : ∀ q task, job ≠ .at q task) (hstep : m.perform a answers rest job = some progress)
    (hmem : Job.at p (.setAudioDevice device) ∈ progress.machine.stack b) :
    Job.at p (.setAudioDevice device) ∈ m.stack b := by
  cases job with
  | «at» q task => exact absurd rfl (hjob q task)
  | create id =>
      simp only [perform] at hstep
      split at hstep <;> cases hstep <;> exact mem_of_replaced [] hstack rfl List.not_mem_nil hmem
  | remove id =>
      simp only [perform] at hstep
      split at hstep <;> cases hstep
      · exact mem_of_replaced [] hstack rfl List.not_mem_nil hmem
      · rename_i q _
        exact mem_of_replaced (teardown q ++ [.at q .finish]) hstack
          (by simp [setStack, unregister])
          (by simp [teardown, Task.stop]) hmem
  | shutdown =>
      cases hstep
      exact mem_of_replaced [.removeEach m.ids] hstack rfl (by simp) hmem
  | removeEach ids =>
      cases ids with
      | nil =>
          cases hstep
          exact mem_of_replaced [] hstack rfl List.not_mem_nil hmem
      | cons id ids =>
          simp only [perform] at hstep
          split at hstep <;> cases hstep
          · exact mem_of_replaced [.removeEach ids] hstack rfl (by simp) hmem
          · rename_i q _
            exact mem_of_replaced (teardown q ++ [.removeEach ids]) hstack
              (by simp [setStack, unregister])
              (by simp [teardown, Task.stop]) hmem

/-- Work at another presentation has nothing to do with the requests at this one. -/
theorem mem_of_other {answers : Answers H} {q : Key} {task : Task H} {rest : List (Job H)}
    (hstack : m.stack a = .at q task :: rest) (hother : m.presentations[q]? = none ∨ q ≠ p)
    (hstep : m.perform a answers rest (.at q task) = some progress)
    (hmem : Job.at p (.setAudioDevice device) ∈ progress.machine.stack b) :
    Job.at p (.setAudioDevice device) ∈ m.stack b := by
  simp only [perform] at hstep
  split at hstep
  · cases hstep
    exact mem_of_replaced [] hstack rfl List.not_mem_nil hmem
  · rename_i x hx
    have hqp : q ≠ p := hother.resolve_left (by simp [hx])
    split at hstep
    · rename_i move _
      cases hstep
      have hreplaces : m.Replaces (m.after a q rest move).machine p a [.at q task]
          (move.next.map (.at q)) rest :=
        .of_after hstack (.inl hqp)
      exact (hreplaces.mem_cases hmem).resolve_right (by simp [hqp])
    · cases hstep
    · cases hstep
      have hstacks : (m.unwind a).stack b = (m.setStack a []).stack b := rfl
      rw [hstacks] at hmem
      by_cases hb : b = a
      · rw [hb, stack_setStack_self (lt_of_stack hstack)] at hmem
        cases hmem
      · rwa [stack_setStack_of_ne hb] at hmem

/-- What an actor has to do after it has begun something: that, or what it had to do before. -/
theorem mem_of_invoke {jobs : List (Job H)} {job : Job H} (hmay : m.mayCall a)
    (hmem : job ∈ (m.invoke a jobs).stack b) :
    job ∈ m.stack b ∨ b = a ∧ job ∈ jobs := by
  by_cases hb : b = a
  · subst hb
    rw [invoke, stack_setStack_self (lt_of_mayCall hmay)] at hmem
    exact (List.mem_append.mp hmem).symm.imp_right (.intro rfl)
  · rw [invoke, stack_setStack_of_ne hb] at hmem
    exact .inl hmem

/-- Devices are asked for by calls only. -/
theorem request_of_play {action : Action H} (hall : ∀ q, ∃ crew : Crew H, Crewed m q crew)
    (hplay : m.play action = some progress)
    (hmem : Job.at p (.setAudioDevice device) ∈ progress.machine.stack b) :
    Job.at p (.setAudioDevice device) ∈ m.stack b ∨
      ∃ backend name, action = .call b (.setAudioDevice p backend name) ∧
        device = .request backend name := by
  cases action with
  | call a c =>
      simp only [play, Option.ite_none_right_eq_some, Bool.and_eq_true, Option.some.injEq] at hplay
      obtain ⟨⟨⟨hmay, -⟩, -⟩, rfl⟩ := hplay
      refine (mem_of_invoke hmay hmem).imp_right ?_
      rintro ⟨rfl, hjobs⟩
      cases c with
      | setAudioDevice q backend name =>
          obtain ⟨rfl, hdevice⟩ := Job.at.inj (List.mem_singleton.mp hjobs)
          exact ⟨backend, name, rfl, Task.setAudioDevice.inj hdevice⟩
      | _ => simp [Call.jobs, Task.stop] at hjobs
  | reclaim a q =>
      simp only [play, Option.ite_none_right_eq_some, Option.some.injEq] at hplay
      obtain ⟨hmay, rfl⟩ := hplay
      rcases mem_of_invoke hmay hmem with hold | ⟨-, hjobs⟩
      · exact .inl hold
      · simp at hjobs
  | addHost =>
      cases hplay
      exact .inl (stack_addHost ▸ hmem)
  | step a answers =>
      refine .inl ?_
      simp only [play, step] at hplay
      split at hplay
      · cases hplay
      · rename_i job rest hstack
        cases job with
        | «at» q task =>
            by_cases hother : m.presentations[q]? = none ∨ q ≠ p
            · exact mem_of_other hstack hother hplay hmem
            · obtain ⟨hx, hqp⟩ := not_or.mp hother
              obtain rfl := not_not.mp hqp
              obtain ⟨x, hx⟩ := Option.ne_none_iff_exists'.mp hx
              obtain ⟨crew, hcrew⟩ := hall q
              obtain ⟨crew', -, hturn⟩ := hcrew.turn_at hall hstack hplay
              rw [Transition.doing?_at hstack, if_pos rfl, hx] at hturn
              exact hturn.mem_of_setAudioDevice hmem
        | _ => exact mem_of_registry hstack (by simp) hplay hmem

/-- Whoever is about to note a device has been asked for it by a call. -/
theorem request_of_mem (config : Config) (decoders : DecoderBackends H.Codec)
    (outputs : AudioBackends H.Output) (actions : List (Action H))
    (hmem : Job.at p (.setAudioDevice device) ∈
      ((initial config decoders outputs).run actions).final.stack b) :
    ∃ u ∈ ((initial config decoders outputs).run actions).trace, ∃ backend name,
      u.action = .call b (.setAudioDevice p backend name) ∧ device = .request backend name := by
  suffices h : (∀ q, ∃ crew, Crewed ((initial config decoders outputs).run actions).final q crew) ∧
      ∀ b device, Job.at p (.setAudioDevice device) ∈
        ((initial config decoders outputs).run actions).final.stack b →
        ∃ u ∈ ((initial config decoders outputs).run actions).trace, ∃ backend name,
          u.action = .call b (.setAudioDevice p backend name) ∧ device = .request backend name from
            h.2 b device hmem
  refine run_induction (P := fun r => (∀ q, ∃ crew, Crewed r.final q crew) ∧
    ∀ b device, Job.at p (.setAudioDevice device) ∈ r.final.stack b → ∃ u ∈ r.trace, ∃ backend name,
      u.action = .call b (.setAudioDevice p backend name) ∧ device = .request backend name)
    (initial config decoders outputs)
    ⟨fun q => ⟨none, .initial config decoders outputs q⟩,
      fun b device hmem => by simp [stack_initial] at hmem⟩ ?_
    actions
  rintro r action progress ⟨hall, h⟩ hplay
  refine ⟨fun q => ?_, fun b device hmem => ?_⟩
  · obtain ⟨crew, hcrew⟩ := hall q
    obtain ⟨crew', hcrew', -⟩ := hcrew.turn hall hplay
    exact ⟨crew', hcrew'⟩
  · rcases request_of_play hall hplay hmem with hold | ⟨backend, name, haction, hdevice⟩
    · obtain ⟨u, hu, hcall⟩ := h b device hold
      exact ⟨u, List.mem_append_left _ hu, hcall⟩
    · exact ⟨_, List.mem_concat_self, backend, name, haction, hdevice⟩

end Machine

end Playout
