import Playout.Proofs.Delivery.Conservation
import Playout.Proofs.Lifecycle.Quiet
import Playout.Proofs.Plain

/-!
# Threads and the playback state

A presentation has at most one thread, and it has one exactly while its state says so. The state
changes in few ways. A thread comes to play out what is left only when it has found itself asked to
end, and then that a stream has ended; how it selects samples goes with the state. Nobody but a
thread releases, delivers or acknowledges samples, or opens, feeds or releases the sink, so that
nothing of this happens after a stop as long as no thread is started.
-/

namespace Playout

variable {H : Platform}

/-! ## Changes of the playback state -/

namespace PlaybackState

/-- The ways in which the playback state changes. -/
inductive Moves : PlaybackState → PlaybackState → Prop where
  | start : Moves .idle .running
  | restart : Moves .stopped .running
  | drain : Moves .running .draining
  | stop : Moves .running .stopped
  | finish : Moves .draining .stopped

theorem Moves.of_isActive {state : PlaybackState} (h : state.isActive) : Moves state .stopped := by
  cases state with
  | running => exact .stop
  | draining => exact .finish
  | _ => cases h

theorem Moves.of_not_isActive {state : PlaybackState} (h : state.isActive = false) :
    Moves state .running := by
  cases state with
  | idle => exact .start
  | stopped => exact .restart
  | _ => cases h

end PlaybackState

theorem Advance.state_cases {c : Surroundings H} {x y : Presentation H} {s : Standing H}
    {effects : List (Effect H)} {s? : Option (Standing H)} (h : Advance c x s y effects s?) :
    y.state = x.state ∨ s = .at .turning ∧ y.state = .draining ∨
      s? = none ∧ y.state = .stopped := by
  cases h with
  | turn => exact .inr (.inl ⟨rfl, rfl⟩)
  | finish => exact .inr (.inr ⟨rfl, rfl⟩)
  | overflow => exact .inr (.inr ⟨rfl, rfl⟩)
  | frame =>
      rw [Presentation.beginFrame_snd]
      exact .inl rfl
  | _ => exact .inl rfl

def Phase.state? : Phase → Option PlaybackState
  | .draining => some .draining
  | .closing => none
  | .ending => none
  | _ => some .running

/-- A thread goes on in the state that it is in, unless it turns to what is left. -/
theorem Advance.state_eq {c : Surroundings H} {x y : Presentation H} {s s' : Standing H}
    {effects : List (Effect H)} {state : PlaybackState} (h : Advance c x s y effects (some s'))
    (hbefore : s.phase.state? = some state → x.state = state)
    (hafter : s'.phase.state? = some state) :
    y.state = state := by
  cases h with
  | poll => split at hafter <;> exact hbefore hafter
  | leave =>
      split at hafter
      · exact hbefore hafter
      · cases hafter
  | turn =>
      cases hafter
      rfl
  | nothingLeft => cases hafter
  | frame =>
      rw [Presentation.beginFrame_snd]
      exact hbefore hafter
  | _ => exact hbefore hafter

/-- The playback state goes with where the thread stands. -/
def Scene.InStep (scene : Scene H) : Prop :=
  ∀ s, scene.standing = some s → ∀ state, s.phase.state? = some state →
    scene.presentation.state = state

/-! ## What is left to threads -/

def SinkCall.isFlush : SinkCall → Bool
  | .flush => true
  | _ => false

/-- A sample is released, delivered or acknowledged, or a sink is opened, told the format, fed
or released. -/
def Effect.isWork : Effect H → Bool
  | .released _ => true
  | .offered (.videoFrame _) _ => true
  | .acknowledged .. => true
  | .sink _ call => !call.isFlush
  | _ => false

/-- The tasks of calls do no such work, but whoever gives up a presentation releases a sink
that was left. -/
theorem Conduct.reclaim_of_isWork {c : Surroundings H} {x : Presentation H} {task : Task H}
    {move : Move H}
    {e : Effect H} (h : Conduct c x task (.moves move)) (he : e ∈ move.effects) (hwork : e.isWork) :
    task = .reclaim ∧ x.sink ≠ none := by
  have hrequeue := (Aside.of_moves h.aside).2.1
  obtain ⟨n, call, rfl, hflush⟩ : ∃ n call, e = .sink n call ∧ call.isFlush = false := by
    rcases hrequeue.effect_cases he with hquiet | ⟨samples, rfl⟩ | ⟨sample, -, rfl⟩
    · cases e with
      | sink n call => exact ⟨n, call, rfl, by simpa [Effect.isWork] using hwork⟩
      | offered event result => cases event <;> simp [Effect.isWork, Effect.isQuiet] at hwork hquiet
      | _ => simp [Effect.isWork, Effect.isQuiet] at hwork hquiet
    · cases hwork
    · cases hwork
  have hloud : ∀ {effects : List (Effect H)}, (∀ e ∈ effects, e.isSilent) →
      .sink n call ∉ effects := by
    intro effects hsilent hmem
    have hnot := hsilent _ hmem
    cases hnot
  rcases h.sink_cases.2 with ⟨-, hsilent⟩ | ⟨-, -, heffects⟩ |
    ⟨rfl, -, -, before, after, heffects, hbefore, hafter⟩
  · exact absurd he (hloud hsilent)
  · rw [heffects] at he
    obtain ⟨b, -, heq⟩ := List.mem_map.mp he
    cases heq
    cases hflush
  · refine ⟨rfl, fun hnone => ?_⟩
    rw [heffects, hnone] at he
    simp only [Presentation.sinkCall, Option.toList_none, List.map_nil, List.nil_append,
      List.mem_append] at he
    exact he.elim (hloud hbefore) (hloud hafter)

namespace Scene.Step

variable {scene next : Scene H} {deed : Deed H}

theorem moves (h : Step scene deed next)
    (hmanned : scene.standing.isSome → scene.presentation.isRunning) :
    next.presentation.state = scene.presentation.state ∨
      PlaybackState.Moves scene.presentation.state next.presentation.state := by
  cases h with
  | aside hfree hstart hmove =>
      exact .inl (Aside.of_moves (hmove ▸ Presentation.perform_aside hfree hstart)).1
  | start hlaunches => exact .inr (.of_not_isActive (Presentation.launches_iff.mp hlaunches).2.1)
  | @duty c x s y effects s? hadv =>
      have hactive : x.state.isActive := hmanned rfl
      rcases hadv.state_cases with hsame | ⟨-, hdrains⟩ | ⟨-, hstopped⟩
      · exact .inl hsame
      · rw [hdrains]
        cases hstate : x.state with
        | running => exact .inr .drain
        | draining => exact .inl rfl
        | _ => simp [hstate, PlaybackState.isActive] at hactive
      · rw [hstopped]
        exact .inr (.of_isActive hactive)

/-- Only a thread that has turned to what is left makes the state say so. -/
theorem turning_of_draining (h : Step scene deed next)
    (hbefore : scene.presentation.state ≠ .draining)
    (hdrains : next.presentation.state = .draining) :
    scene.standing = some (.at .turning) ∧ deed.task = .playback .turning := by
  cases h with
  | aside hfree hstart hmove =>
      rw [(Aside.of_moves (hmove ▸ Presentation.perform_aside hfree hstart)).1] at hdrains
      exact absurd hdrains hbefore
  | start => cases hdrains
  | duty hadv =>
      rcases hadv.state_cases with hsame | ⟨rfl, -⟩ | ⟨-, hstopped⟩
      · exact absurd (hsame ▸ hdrains) hbefore
      · exact ⟨rfl, rfl⟩
      · rw [hstopped] at hdrains
        cases hdrains

theorem inStep (h : Step scene deed next) (hscene : scene.InStep) : next.InStep := by
  intro s' hs' state hstate
  cases h with
  | aside hfree hstart hmove =>
      rw [(Aside.of_moves (hmove ▸ Presentation.perform_aside hfree hstart)).1]
      exact hscene s' hs' state hstate
  | start =>
      cases hs'
      cases hstate
      rfl
  | duty hadv =>
      cases hs'
      exact hadv.state_eq (hscene _ rfl state) hstate

/-- How a sample is selected goes with the playback state. -/
theorem pacing_of_released (h : Step scene deed next) (hscene : scene.InStep)
    {selected : Selected H.Receiver} (hreleased : selected ∈ Ledger.released deed.effects) :
    deed.task.pacing? = some .paced ∧ deed.before.state = .running ∨
      deed.task.pacing? = some .unpaced ∧ deed.before.state = .draining := by
  cases h with
  | aside hfree hstart hmove =>
      have haside := Aside.of_moves (hmove ▸ Presentation.perform_aside hfree hstart)
      rw [haside.2.1.released_eq_nil] at hreleased
      cases hreleased
  | start => cases hreleased
  | @duty c x s y effects s? hadv =>
      obtain ⟨pacing, -, -, hpacing, -, -⟩ := hadv.select_of_mem hreleased
      cases s with
      | «at» phase =>
          cases phase with
          | choosing => exact .inl ⟨rfl, hscene _ rfl _ rfl⟩
          | draining => exact .inr ⟨rfl, hscene _ rfl _ rfl⟩
          | _ => cases hpacing
      | _ => cases hpacing

theorem isRunning_of_isWork (h : Step scene deed next)
    (hmanned : scene.standing.isSome → scene.presentation.isRunning) {e : Effect H}
    (he : e ∈ deed.effects) (hwork : e.isWork) :
    scene.presentation.isRunning ∨ deed.task = .reclaim ∧ scene.presentation.sink ≠ none := by
  cases h with
  | aside hfree hstart hmove =>
      exact .inr ((hmove ▸ Presentation.perform_conduct hfree hstart : Conduct ..).reclaim_of_isWork
        he hwork)
  | start => cases he
  | duty => exact .inl (hmanned rfl)

end Scene.Step

/-! ## What a thread has found -/

namespace Transition

/-- At this point of its body the thread finds a condition met. -/
def Finds (t : Transition H) (p : Key) (a : ActorId) (phase : Phase) (f : Presentation H → Bool) :
    Prop :=
  ∃ x effects, t.doing? p = some (a, ⟨x, .playback phase, effects⟩) ∧ f x

def idles (t : Transition H) (p : Key) : Bool :=
  (t.doing? p).all fun (_, deed) => !deed.task.isDuty

end Transition

/-- The thread has last found that it has been asked to end. -/
def FoundRequest (p : Key) (a : ActorId) (trace : List (Transition H)) : Prop :=
  ∃ before t since, trace = before ++ t :: since ∧
    t.Finds p a .polling (·.lifecycle.exitRequested) ∧
    since.all (·.idles p)

/-- The thread has last found that it has been asked to end, and then that a stream has ended. -/
def FoundEnd (p : Key) (a : ActorId) (trace : List (Transition H)) : Prop :=
  ∃ before t since, trace = before ++ t :: since ∧ FoundRequest p a before ∧
    t.Finds p a .leaving (·.eos) ∧
    since.all (·.idles p)

theorem FoundRequest.idle {p : Key} {a : ActorId} {trace : List (Transition H)} {t : Transition H}
    (h : FoundRequest p a trace) (hidle : t.idles p) : FoundRequest p a (trace ++ [t]) := by
  obtain ⟨before, u, since, rfl, hfound, hsince⟩ := h
  exact ⟨before, u, since ++ [t], by simp, hfound, by simp [List.all_append, hsince, hidle]⟩

theorem FoundEnd.idle {p : Key} {a : ActorId} {trace : List (Transition H)} {t : Transition H}
    (h : FoundEnd p a trace) (hidle : t.idles p) : FoundEnd p a (trace ++ [t]) := by
  obtain ⟨before, u, since, rfl, hrequest, hfound, hsince⟩ := h
  exact ⟨before, u,
    since ++ [t], by simp, hrequest, hfound, by simp [List.all_append, hsince, hidle]⟩

theorem Advance.of_leaving {c : Surroundings H} {x y : Presentation H} {s : Standing H}
    {effects : List (Effect H)} {s? : Option (Standing H)} (h : Advance c x s y effects s?)
    (hs : s? = some (.at .leaving)) : s = .at .polling ∧ x.lifecycle.exitRequested := by
  cases h with
  | poll =>
      have hphase := Standing.at.inj (Option.some.inj hs)
      split at hphase
      · rename_i hexit
        exact ⟨rfl, hexit⟩
      · cases hphase
  | leave =>
      have hphase := Standing.at.inj (Option.some.inj hs)
      split at hphase <;> cases hphase
  | @acknowledge _ pacing =>
      have hphase := Standing.at.inj (Option.some.inj hs)
      cases pacing <;> cases hphase
  | _ => cases hs

theorem Advance.of_turning {c : Surroundings H} {x y : Presentation H} {s : Standing H}
    {effects : List (Effect H)} {s? : Option (Standing H)} (h : Advance c x s y effects s?)
    (hs : s? = some (.at .turning)) : s = .at .leaving ∧ x.eos := by
  cases h with
  | poll =>
      have hphase := Standing.at.inj (Option.some.inj hs)
      split at hphase <;> cases hphase
  | leave =>
      have hphase := Standing.at.inj (Option.some.inj hs)
      split at hphase
      · rename_i heos
        exact ⟨rfl, heos⟩
      · cases hphase
  | @acknowledge _ pacing =>
      have hphase := Standing.at.inj (Option.some.inj hs)
      cases pacing <;> cases hphase
  | _ => cases hs

/-- A thread is where it was and has done nothing, or it has just been started, or it has
done a duty. -/
theorem Turn.crew_cases {m m' : Machine H} {p : Key} {crew crew' : Crew H}
    {doing? : Option (ActorId × Deed H)} {a : ActorId} {s' : Standing H}
    (h : Turn m m' p crew doing? crew') (hcrew' : crew' = some (a, s')) :
    crew = crew' ∧ (∀ b deed, doing? = some (b, deed) → deed.task.isDuty = false) ∨
      s' = .openingSink ∨
      ∃ c s x y effects, crew = some (a, s) ∧ doing? = some (a, ⟨x, s.duty, effects⟩) ∧
        Advance c x s y effects (some s') := by
  cases h with
  | aside _ _ hfree =>
      refine .inl ⟨rfl, fun b deed hdoing => ?_⟩
      cases hdoing
      exact hfree
  | start =>
      cases hcrew'
      exact .inr (.inl rfl)
  | @duty b answers s x y effects s? hcrew _ _ hadv =>
      cases s? with
      | none => cases hcrew'
      | some s'' =>
          cases hcrew'
          exact .inr (.inr ⟨_, s, x, y, effects, hcrew, rfl, hadv⟩)
  | _ => exact .inl ⟨rfl, by simp⟩

/-! ## Runs -/

/-- What a transition does to the playback state and to samples is in order, after what has
happened before it. -/
structure Transition.Disciplined (t : Transition H) (p : Key) (past : List (Transition H)) :
    Prop where
  moves : ∀ x y, t.before.presentations[p]? = some x →
    t.progress.machine.presentations[p]? = some y →
    y.state = x.state ∨ PlaybackState.Moves x.state y.state
  drains : ∀ x y, t.before.presentations[p]? = some x →
    t.progress.machine.presentations[p]? = some y →
    x.state ≠ .draining → y.state = .draining →
      ∃ a, t.Does p a (.playback .turning) ∧ FoundEnd p a past
  paced : ∀ a deed, t.doing? p = some (a, deed) → ∀ selected ∈ Ledger.released deed.effects,
    deed.task.pacing? = some .paced ∧ deed.before.state = .running ∨
      deed.task.pacing? = some .unpaced ∧ deed.before.state = .draining
  /-- Samples move and the sink is called while a thread is active. Only what a thread left open
  that has broken off is released when the presentation is given up. -/
  active : ∀ e ∈ t.effects p, e.isWork → (t.before.presentations[p]?).any (·.isRunning) ∨
    past.any (·.breaksOff p) ∧ ∃ a, t.Does p a .reclaim

namespace Transition.Disciplined

variable {m : Machine H} {action : Action H} {progress : Progress H} {t : Transition H} {p : Key}
  {past : List (Transition H)} {x y : Presentation H}

theorem of_exists (hx : t.before.presentations[p]? = some x)
    (hy : t.progress.machine.presentations[p]? = some y)
    (hmoves : y.state = x.state ∨ PlaybackState.Moves x.state y.state)
    (hdrains : x.state ≠ .draining → y.state = .draining →
      ∃ a, t.Does p a (.playback .turning) ∧ FoundEnd p a past)
    (hpaced : ∀ a deed, t.doing? p = some (a, deed) → ∀ selected ∈ Ledger.released deed.effects,
      deed.task.pacing? = some .paced ∧ deed.before.state = .running ∨
        deed.task.pacing? = some .unpaced ∧ deed.before.state = .draining)
    (hactive : ∀ e ∈ t.effects p, e.isWork → x.isRunning ∨
      past.any (·.breaksOff p) ∧ ∃ a, t.Does p a .reclaim) : t.Disciplined p past where
  moves x' y' hx' hy' := by
    obtain rfl := Option.some.inj (hx.symm.trans hx')
    obtain rfl := Option.some.inj (hy.symm.trans hy')
    exact hmoves
  drains x' y' hx' hy' := by
    obtain rfl := Option.some.inj (hx.symm.trans hx')
    obtain rfl := Option.some.inj (hy.symm.trans hy')
    exact hdrains
  paced := hpaced
  active e he hwork := by
    rw [hx]
    exact hactive e he hwork

theorem of_still (hx : m.presentations[p]? = some x)
    (hy : progress.machine.presentations[p]? = some x)
    (hplay : m.play action = some progress) (hnone : doing? p ⟨m, action, progress⟩ = none) :
    Disciplined ⟨m, action, progress⟩ p past := by
  have hsilent : effects ⟨m, action, progress⟩ p = [] := effects_of_doing hplay hnone
  refine of_exists hx hy (.inl rfl) (fun hbefore hdrains => absurd hdrains hbefore)
    (fun a deed hdoing => ?_) (fun e he => ?_)
  · cases hnone.symm.trans hdoing
  · rw [hsilent] at he
    cases he

theorem of_absent (hx : m.presentations[p]? = none) (hplay : m.play action = some progress)
    (hnone : doing? p ⟨m, action, progress⟩ = none) : Disciplined ⟨m, action, progress⟩ p past where
  moves x y hx' := by cases hx.symm.trans hx'
  drains x y hx' := by cases hx.symm.trans hx'
  paced a deed hdoing := by cases hnone.symm.trans hdoing
  active e he := by
    rw [effects_of_doing hplay hnone] at he
    cases he

end Transition.Disciplined

/-- The threads of a presentation keep to their order, and they rest after a stop. -/
structure Run.Disciplined (r : Run H) (p : Key) : Prop where
  single : ∀ a b, r.final.plays p a → r.final.plays p b → a = b
  manned : ∀ x, r.final.presentations[p]? = some x → (x.isRunning ↔ ∃ a, r.final.plays p a)
  each : ∀ past t after, r.trace = past ++ t :: after → t.Disciplined p past
  quiet : ∀ past call during next after a, r.trace = past ++ call :: (during ++ next :: after) →
    StopUnderway p a call during → (next.before.stack a).length = (call.before.stack a).length →
    (∀ t ∈ next :: after, ¬ t.Starts p) → ∀ t ∈ next :: after,
      (t.before.presentations[p]?).any (·.isRunning) = false ∧
        ∀ e ∈ t.effects p, e.isWork → r.brokeOff p ∧ ∃ a, t.Does p a .reclaim

structure Run.Steady (r : Run H) (p : Key) (crew : Crew H) : Prop where
  quiet : r.Quiet p crew
  inStep : ∀ x, r.final.presentations[p]? = some x → Scene.InStep ⟨x, crew.standing⟩
  request : ∀ a, crew = some (a, .at .leaving) → FoundRequest p a r.trace
  eos : ∀ a, crew = some (a, .at .turning) → FoundEnd p a r.trace

namespace Run.Steady

variable {r : Run H} {p : Key} {action : Action H} {progress : Progress H} {crew crew' : Crew H}

theorem initial (config : Config) (decoders : DecoderBackends H.Codec)
    (outputs : AudioBackends H.Output)
    (p : Key) : (⟨Machine.initial config decoders outputs, []⟩ : Run H).Steady p none where
  quiet := .initial config decoders outputs p
  inStep x hx := by simp [Machine.initial] at hx
  request a hcrew := by cases hcrew
  eos a hcrew := by cases hcrew

theorem idles_of_free
    (hfree : ∀ b deed, Transition.doing? p ⟨r.final, action, progress⟩ = some (b, deed) →
    deed.task.isDuty = false) : Transition.idles ⟨r.final, action, progress⟩ p := by
  unfold Transition.idles
  cases hdoing : Transition.doing? p ⟨r.final, action, progress⟩ with
  | none => rfl
  | some doing => simpa using hfree _ _ hdoing

theorem next_request (h : r.Steady p crew)
    (hturn : Turn r.final progress.machine p crew
      (Transition.doing? p ⟨r.final, action, progress⟩) crew')
    {a : ActorId} (hcrew' : crew' = some (a, .at .leaving)) :
    FoundRequest p a (r.extend action progress).trace := by
  rcases hturn.crew_cases hcrew' with
    ⟨rfl, hfree⟩ | hopening | ⟨c, s, x, y, effects, -, hdoing, hadv⟩
  · exact (h.request a hcrew').idle (idles_of_free hfree)
  · cases hopening
  · obtain ⟨rfl, hexit⟩ := hadv.of_leaving rfl
    exact ⟨r.trace, _, [], rfl, ⟨x, effects, hdoing, hexit⟩, rfl⟩

theorem next_eos (h : r.Steady p crew)
    (hturn : Turn r.final progress.machine p crew
      (Transition.doing? p ⟨r.final, action, progress⟩) crew')
    {a : ActorId} (hcrew' : crew' = some (a, .at .turning)) :
    FoundEnd p a (r.extend action progress).trace := by
  rcases hturn.crew_cases hcrew' with
    ⟨rfl, hfree⟩ | hopening | ⟨c, s, x, y, effects, hcrew, hdoing, hadv⟩
  · exact (h.eos a hcrew').idle (idles_of_free hfree)
  · cases hopening
  · obtain ⟨rfl, heos⟩ := hadv.of_turning rfl
    exact ⟨r.trace, _, [], rfl, h.request a hcrew, ⟨x, effects, hdoing, heos⟩, rfl⟩

/-- A sink without a thread has been left by one that has broken off. -/
theorem brokeOff_of_bound (h : r.Steady p crew) (hcrew : Crewed r.final p crew) {x : Presentation H}
    (hx : r.final.presentations[p]? = some x) (hidle : x.isRunning = false)
    (hsink : x.sink ≠ none) :
    r.brokeOff p := by
  have hnone : crew = none := by simpa [hidle] using (hcrew.running x hx).symm
  refine Classical.byContradiction fun hwhole => hsink ?_
  exact h.quiet.unbound (by simpa using hwhole) hnone x hx

theorem disciplined_of_step (h : r.Steady p crew) (hcrew : Crewed r.final p crew)
    (hplay : r.final.play action = some progress)
    (hturn : Turn r.final progress.machine p crew
      (Transition.doing? p ⟨r.final, action, progress⟩) crew')
    {x y : Presentation H} (hx : r.final.presentations[p]? = some x)
    (hy : progress.machine.presentations[p]? = some y) {b : ActorId} {deed : Deed H}
    (hdoing : Transition.doing? p ⟨r.final, action, progress⟩ = some (b, deed))
    (hstep : Scene.Step ⟨x, crew.standing⟩ deed ⟨y, crew'.standing⟩) :
    Transition.Disciplined ⟨r.final, action, progress⟩ p r.trace := by
  have hmanned : crew.standing.isSome → x.isRunning := by simp [hcrew.running x hx, Crew.standing]
  have heffects : Transition.effects ⟨r.final, action, progress⟩ p = deed.effects :=
    Transition.effects_of_doing hplay hdoing
  have hdoes : ∀ task, deed.task = task → Transition.Does ⟨r.final, action, progress⟩ p b task := by
    rintro _ rfl
    exact ⟨deed.before, deed.effects, hdoing⟩
  refine .of_exists hx hy (hstep.moves hmanned) (fun hbefore hdrains => ?_)
    (fun a deed' hdoing' => ?_) (fun e he hwork => ?_)
  · obtain ⟨hstands, htask⟩ := hstep.turning_of_draining hbefore hdrains
    obtain ⟨s, rfl⟩ := hturn.crew_of_isDuty hdoing (by rw [htask]; rfl)
    obtain rfl : s = .at .turning := Option.some.inj hstands
    exact ⟨b, hdoes _ htask, h.eos b rfl⟩
  · obtain rfl : deed = deed' := (Prod.mk.inj (Option.some.inj (hdoing.symm.trans hdoing'))).2
    exact fun _ hselected => hstep.pacing_of_released (h.inStep x hx) hselected
  · rw [heffects] at he
    cases hactive : x.isRunning with
    | true => exact .inl rfl
    | false =>
        rcases hstep.isRunning_of_isWork hmanned he hwork with hrunning | ⟨htask, hsink⟩
        · rw [hactive] at hrunning
          cases hrunning
        · exact .inr ⟨h.brokeOff_of_bound hcrew hx hactive hsink, b, hdoes _ htask⟩

theorem disciplined (h : r.Steady p crew) (hcrew : Crewed r.final p crew)
    (hplay : r.final.play action = some progress)
    (hturn : Turn r.final progress.machine p crew
      (Transition.doing? p ⟨r.final, action, progress⟩) crew') :
    Transition.Disciplined ⟨r.final, action, progress⟩ p r.trace := by
  cases hx : r.final.presentations[p]? with
  | none => exact .of_absent hx hplay (hturn.absent hx).1
  | some x =>
      obtain ⟨y, hy⟩ := hturn.exists_after hx
      rcases hcrew.step_of_turn hturn hx hy with ⟨hnone, rfl, -⟩ | ⟨b, deed, hdoing, hstep⟩
      · exact .of_still hx hy hplay hnone
      · exact h.disciplined_of_step hcrew hplay hturn hx hy hdoing hstep

theorem next (h : r.Steady p crew) (hcrew : Crewed r.final p crew)
    (hplay : r.final.play action = some progress)
    (hturn : Turn r.final progress.machine p crew
      (Transition.doing? p ⟨r.final, action, progress⟩) crew') :
    (r.extend action progress).Steady p crew' where
  quiet := h.quiet.next hcrew hplay hturn
  inStep y hy := by
    cases hx : r.final.presentations[p]? with
    | none =>
        obtain ⟨-, rfl, -⟩ := hturn.absent hx
        obtain rfl := hcrew.eq_none_of_absent hx
        intro s hs
        cases hs
    | some x =>
        rcases hcrew.step_of_turn hturn hx hy with ⟨-, rfl, rfl⟩ | ⟨b, deed, -, hstep⟩
        · exact h.inStep y hx
        · exact hstep.inStep (h.inStep x hx)
  request _ := h.next_request hturn
  eos _ := h.next_eos hturn

end Run.Steady

namespace Machine

theorem run_steady (config : Config) (decoders : DecoderBackends H.Codec)
    (outputs : AudioBackends H.Output) (actions : List (Action H)) (p : Key) :
    ∃ crew, Crewed ((initial config decoders outputs).run actions).final p crew ∧
      ((initial config decoders outputs).run actions).Steady p crew :=
  run_turns (P := fun r crew => r.Steady p crew) (initial config decoders outputs)
    (fun q => ⟨none, .initial config decoders outputs q⟩) (.initial config decoders outputs p)
    (.initial config decoders outputs p)
    (fun _ _ _ _ _ hcrew h hplay _ hturn => h.next hcrew hplay hturn) actions

/-- Whatever order its actors act in, a presentation has at most one thread, and one exactly while
it is active. Its state changes as the thread goes on, how samples are selected goes with the state,
and after a stop the presentation rests until a thread is started. -/
theorem threads_disciplined (config : Config) (decoders : DecoderBackends H.Codec)
    (outputs : AudioBackends H.Output) (actions : List (Action H)) (p : Key) :
    ((initial config decoders outputs).run actions).Disciplined p := by
  obtain ⟨crew, hcrew, hsteady⟩ := run_steady config decoders outputs actions p
  have heach : ∀ past t after, ((initial config decoders outputs).run actions).trace =
      past ++ t :: after →
      t.Disciplined p past := by
    intro past t after htrace
    obtain ⟨earlier, hrun, hplay⟩ := run_split _ actions htrace
    obtain ⟨crew, hcrew, hsteady⟩ := run_steady config decoders outputs earlier p
    rw [hrun] at hcrew hsteady
    obtain ⟨crew', -, hturn⟩ := run_turn config decoders outputs earlier hrun hplay hcrew
    exact hsteady.disciplined hcrew hplay hturn
  refine ⟨fun a b ha hb => ?_, fun x hx => ⟨fun hactive => ?_, fun ⟨a, ha⟩ => ?_⟩, heach, ?_⟩
  · obtain ⟨s, rfl⟩ := hcrew.of_plays ha
    obtain ⟨s', heq⟩ := hcrew.of_plays hb
    cases heq
    rfl
  · rw [hcrew.running x hx] at hactive
    obtain ⟨⟨a, s⟩, rfl⟩ := Option.isSome_iff_exists.mp hactive
    exact ⟨a, hcrew.plays⟩
  · obtain ⟨s, rfl⟩ := hcrew.of_plays ha
    exact hcrew.running x hx
  · intro past call during next after a htrace hstop hreturned hunstarted t ht
    have hrests :=
      (hsteady.quiet.returned past call during next after a htrace hstop hreturned hunstarted).2 t
        ht
    have hidle : (t.before.presentations[p]?).any (·.isRunning) = false := by
      cases hx : t.before.presentations[p]? with
      | none => rfl
      | some x => exact hrests x hx
    refine ⟨hidle, fun e he hwork => ?_⟩
    obtain ⟨earlier, later, hsplit⟩ := List.append_of_mem ht
    rw [hsplit, ← List.cons_append, ← List.append_assoc, ← List.append_assoc] at htrace
    rcases (heach _ t later htrace).active e he hwork with hactive | ⟨hbroke, hreclaim⟩
    · rw [hidle] at hactive
      cases hactive
    · refine ⟨?_, hreclaim⟩
      rw [Run.brokeOff, htrace, List.any_append, hbroke]
      rfl

open Playout.Action in
def givenUp : List (Action .plain) :=
  calling 0 (.letGo 0) 1 ++ calling 0 (.forgetStream ⟨0, 0⟩) 1 ++
    calling 0 (.remove ⟨.replicate 16 0⟩) 9
    ++ [.reclaim 0 0] ++ steps 0 1

/-- The deadline of this accepted configuration is out of range. The sink that the thread has
left open is released after the host's stop has returned, though nobody has started the
presentation since. -/
theorem leftover_sink_released :
    let stopped :=
      (initial patient (.standardDecoders ()) (Backends.empty.register "null" ())).run leftBehind
    patient.validate = .ok () ∧ (stopped.final.stack 0).isEmpty ∧
      stopped.final.presentations[0]?.map (·.state) = some .stopped ∧
      ¬ ∀ t ∈ (stopped.final.run givenUp).trace, ∀ e ∈ t.effects 0, e.isWork →
        (t.before.presentations[0]?).any (·.isRunning) :=
  ⟨by decide, by decide +kernel, by decide +kernel, by decide +kernel⟩

end Machine

end Playout
