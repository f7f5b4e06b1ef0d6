import Playout.Proofs.Lifecycle.Stopping

/-!
# What a stop leaves behind

A stop that waits returns when the thread has ended. By then the thread has released its sink, the
last frame is painted over, and everything that was released is acknowledged. If the thread came to
play out what was left, nothing is left. A second stop finds nothing to do.
-/

namespace Playout

variable {H : Platform}

/-! ## Stops in a run -/

/-- An actor's stop in a run that begins with it: what is left of the stop, and what has come
meanwhile of the presentation, whose thread stood somewhere if there was one. -/
structure Run.Stops (r : Run H) (p : Key) (a : ActorId) (base : List (Job H)) (x : Presentation H)
    (s? : Option (Standing H)) (crew : Crew H) (y : Presentation H) (jobs : List (Job H)) :
    Prop where
  present : r.final.presentations[p]? = some y
  stack : r.final.stack a = jobs ++ base
  stopping : Stopping p a True y crew jobs
  foreign : ∀ s, crew ≠ some (a, s)
  delivers : Delivers x s? (r.effects p) y crew.standing
  ended : s?.isSome → crew = none → y.state = .stopped ∧ (r.brokeOff p = false → y.sink = none)
  paced : s?.any (·.phase.playsOut x.eos) = false → r.trace.all (!·.drains p)

namespace Run.Stops

variable {r : Run H} {p : Key} {a : ActorId} {base jobs : List (Job H)} {x y : Presentation H}
  {s? : Option (Standing H)} {crew crew' : Crew H} {action : Action H} {progress : Progress H}

theorem alive (h : r.Stops p a base x s? crew y jobs) (hjobs : jobs ≠ []) : r.final.alive p := by
  have hmem : Job.at p .finish ∈ r.final.stack a := by
    rw [h.stack]
    exact List.mem_append_left base (h.stopping.finish_mem hjobs)
  exact Machine.alive_of_mem hmem (by simp [Job.keepsAlive, Task.keepsAlive])

theorem next (h : r.Stops p a base x s? crew y jobs) (hcrew : Crewed r.final p crew)
    (hmanned : Manned y crew)
    (hslotted : Slotted r.final p crew) (hplay : r.final.play action = some progress)
    (hturn : Turn r.final progress.machine p crew
      (Transition.doing? p ⟨r.final, action, progress⟩) crew')
    (hwithin : base.length < (r.final.stack a).length)
    (hspared : Transition.disturbs ⟨r.final, action, progress⟩ p = false) :
    ∃ z jobs', (r.extend action progress).Stops p a base x s? crew' z jobs' := by
  have hjobs : jobs ≠ [] := by
    rintro rfl
    simp [h.stack] at hwithin
  have hdeeds : ∀ b deed, Transition.doing? p ⟨r.final, action, progress⟩ = some (b, deed) →
      deed.task.interferes = false ∧ deed.task.removes = false := by
    intro b deed hdoing
    simpa [Transition.disturbs, hdoing] using hspared
  have hunstarted : ∀ b x effects,
      Transition.doing? p ⟨r.final, action, progress⟩ = some (b, ⟨x, .start, effects⟩) →
        x.isRunning := by
    intro b x effects hdoing
    have hnot := (hdeeds b _ hdoing).1
    cases hnot
  have hkept : ∀ b x effects thread,
      Transition.doing? p ⟨r.final, action, progress⟩ ≠
        some (b, ⟨x, .keepThread thread, effects⟩) := by
    intro b x effects thread hdoing
    have hnot := (hdeeds b _ hdoing).1
    cases hnot
  obtain ⟨z, hz⟩ := hturn.exists_after h.present
  obtain ⟨jobs', hstack, hstopping⟩ :=
    h.stopping.turn hjobs h.stack hcrew hslotted h.foreign h.present hz hturn hunstarted fun _ =>
      hkept
  refine ⟨z, jobs', hz, hstack, hstopping, hturn.foreign h.foreign hunstarted, ?_, fun hs => ?_,
    fun hout => ?_⟩
  · rw [Run.effects_extend_of_doing hplay rfl]
    exact h.delivers.trans (hturn.delivers h.present hz (h.alive hjobs) hdeeds)
  · refine fun hidle =>
      ⟨hturn.stopped h.present hz (fun hnone => (h.ended hs hnone).1) hidle, fun hwhole => ?_⟩
    rw [Run.brokeOff_extend] at hwhole
    exact hturn.unbound h.present hz hmanned (fun hnone => (h.ended hs hnone).2 hwhole.1)
      (Transition.stack_of_whole hplay hwhole.2) hidle
  · have hnot : Transition.drains ⟨r.final, action, progress⟩ p = false := by
      unfold Transition.drains
      cases hdoing : Transition.doing? p ⟨r.final, action, progress⟩ with
      | none => rfl
      | some doing =>
          obtain ⟨b, deed⟩ := doing
          cases htick : deed.task.isDrainTick with
          | false => exact htick
          | true =>
              have hplays := hturn.playsOut_of_isDrainTick hdoing htick y.eos
              rw [h.delivers.paced hout] at hplays
              cases hplays
    simp only [Run.extend, List.all_append, h.paced hout, List.all_cons, hnot]
    rfl

end Run.Stops

/-! ## Calls that come to nothing -/

namespace Machine

variable {m : Machine H} {p : Key} {a : ActorId} {x : Presentation H}

/-- The actor does these tasks, and nobody does anything else. After so many steps the machine is as
it was before, and nobody has noticed anything. -/
def Vanish (m : Machine H) (p : Key) (a : ActorId) (tasks : List (Task H)) (n : Nat) : Prop :=
  ∀ answers : List (Answers H), answers.length = n →
    ((m.invoke a (tasks.map (.at p))).run (answers.map (.step a))).final = m ∧
      ∀ t ∈ ((m.invoke a (tasks.map (.at p))).run (answers.map (.step a))).trace,
        t.progress.effects = []

theorem Vanish.nil : m.Vanish p a [] 0 := by
  intro answers hlength
  obtain rfl := List.length_eq_zero_iff.mp hlength
  have hsame : m.invoke a (([] : List (Task H)).map (.at p)) = m := setStack_stack
  rw [hsame]
  exact ⟨rfl, by simp [run]⟩

theorem Vanish.cons {task : Task H} {tasks : List (Task H)} {n : Nat}
    {result : Option (Except MediaError Unit)} (next : List (Task H))
    (hx : m.presentations[p]? = some x) (ha : a < m.actors.length)
    (htask : ∀ c : Surroundings H, c.self = a →
      x.perform c task = .moves { presentation := x, next, result })
    (hrest : m.Vanish p a (next ++ tasks) n) : m.Vanish p a (task :: tasks) (n + 1) := by
  intro answers hlength
  obtain ⟨first, answers, rfl⟩ := List.exists_cons_of_length_eq_add_one hlength
  have hstack : (m.invoke a ((task :: tasks).map (.at p))).stack a =
      .at p task :: (tasks.map (.at p) ++ m.stack a) := stack_setStack_self ha
  have hplay : (m.invoke a ((task :: tasks).map (.at p))).play (.step a first) =
      some { machine := m.invoke a ((next ++ tasks).map (.at p)), result } := by
    have hx' : (m.invoke a ((task :: tasks).map (.at p))).presentations[p]? = some x := hx
    have hmove := htask ((m.invoke a ((task :: tasks).map (.at p))).surroundings a p first) rfl
    -- nothing but the actor's stack has changed
    rw [play_step hstack hx' hmove, after_still hx', invoke, setStack_setStack, invoke]
    simp
  obtain ⟨hfinal, heffects⟩ := hrest answers (by simpa using hlength)
  have hrun := run_cons hplay (answers.map (.step a))
  rw [List.map_cons (l := answers), hrun]
  refine ⟨hfinal, fun t ht => ?_⟩
  rcases List.mem_cons.mp ht with rfl | ht
  · rfl
  · exact heffects t ht

end Machine

/-- Who has come back from a stop finds nothing to do in another one. -/
theorem Stopping.vanish {m : Machine H} {p : Key} {a : ActorId} {x : Presentation H}
    (ha : a < m.actors.length) (hx : m.presentations[p]? = some x) (hsought : x.Sought True)
    (hidle : x.isRunning = false) (hempty : x.lastRendered.isEmpty) :
    ∃ n, m.Vanish p a (Task.stop ++ [.finish]) n := by
  have hrequest : ∀ c : Surroundings H, c.self = a → x.perform c .requestExit = x.going [] [] := by
    intro c _
    have hsame : x.requestExit = x := by
      unfold Presentation.requestExit Lifecycle.requestExit
      rw [← hsought.asked]
    rw [Presentation.perform, hsame]
  have hawait : ∀ c : Surroundings H, c.self = a →
      x.perform c (.awaitStopped none) = x.going [] [] := by
    intro c _
    simp only [Presentation.perform, hidle]
    rfl
  have hrepaint : ∀ c : Surroundings H, c.self = a → x.perform c .repaint = x.going [] [] := by
    intro c _
    simp only [Presentation.perform, Presentation.takeLastRendered, hempty, if_true]
    rfl
  have hfinish : ∀ c : Surroundings H, c.self = a → x.perform c .finish = x.returning (.ok ()) [] :=
    fun _ _ => rfl
  have hend : m.Vanish p a [.repaint, .finish] 2 :=
    .cons [] hx ha hrepaint (.cons [] hx ha hfinish .nil)
  have hinspect : ∀ c : Surroundings H, c.self = a →
      x.perform c .inspectThread = x.going [.awaitStopped none] [] := by
    intro c _
    have hnone := hsought.slot trivial
    have htaken : { x with lifecycle := x.lifecycle.takeThread } = x := by
      unfold Lifecycle.takeThread
      rw [← hnone]
    simp only [Presentation.perform, hnone, htaken]
    rfl
  exact ⟨5, .cons [] hx ha hrequest
    (.cons [.awaitStopped none] hx ha hinspect (.cons [] hx ha hawait hend))⟩

/-! ## Stops that return -/

/-- The run is that of one call. Its actor is busy with it all the time, and at the end it has come
back to where it was. -/
def Run.isCall (r : Run H) (a : ActorId) (depth : Nat) : Bool :=
  r.trace.all (fun t => depth < (t.before.stack a).length) && (r.final.stack a).length == depth

/-- The run of an actor's stop, as far as these actions lead. -/
def Machine.stopping (m : Machine H) (p : Key) (a : ActorId) (during : List (Action H)) : Run H :=
  (m.invoke a (Call.stop p).jobs).run during

/-- The actor's call returns, if nobody else does anything meanwhile. The machine is then exactly as
it was before, and nobody has noticed anything. -/
def Machine.Ignores (m : Machine H) (a : ActorId) (c : Call H) : Prop :=
  ∃ n, ∀ answers : List (Answers H), answers.length = n →
    ((m.invoke a c.jobs).run (answers.map (.step a))).final = m ∧
      ∀ t ∈ ((m.invoke a c.jobs).run (answers.map (.step a))).trace, t.progress.effects = []

/-- What the run of a stop has made of a presentation whose thread was active. -/
structure Run.Halts (r : Run H) (p : Key) (m : Machine H) (x y : Presentation H) : Prop where
  stopped : y.state = .stopped
  /-- The sink is released, unless the thread has broken off. -/
  unbound : r.brokeOff p = false → y.sink = none
  blank : y.lastRendered.isEmpty
  /-- Everything that was underway or has been released is acknowledged, in the order of
  the releases. -/
  acknowledged : Ledger.acknowledged (r.effects p) =
    (m.underway p).map (·.ticket) ++ (Ledger.released (r.effects p)).map (·.sample.ticket)
  inOrder : Ledger.released (r.effects p) <+: x.remainder
  /-- Each queue is left with the end of what it held. -/
  left : ∀ s, x.waiting s =
    Sample.ofStream s ((Ledger.released (r.effects p)).map (·.sample)) ++ y.waiting s
  playedOut : (m.phases p).any (·.playsOut x.eos) →
    Ledger.released (r.effects p) = x.remainder ∧ ∀ q ∈ y.queues, q.samples = []
  paced : (m.phases p).any (·.playsOut x.eos) = false → r.trace.all (!·.drains p)
  spent : (m.phases p).all (·.isOver) → Ledger.released (r.effects p) = []
  /-- If nobody had asked the thread to end before, it is the end of a stream that decides. -/
  unasked : x.lifecycle.exitRequested = false → (m.phases p).any (·.playsOut x.eos) = x.eos

namespace Run.Stops

variable {r : Run H} {p : Key} {a : ActorId} {base jobs : List (Job H)} {x y : Presentation H}
  {crew crew' : Crew H} {m : Machine H}

theorem returned (h : r.Stops p a base x crew.standing crew' y jobs)
    (hreturned : (r.final.stack a).length = base.length) :
    y.Sought True ∧ crew' = none ∧ y.lastRendered.isEmpty ∧ r.final.stack a = base := by
  -- the actor has nothing above where it was, so nothing is left of the stop
  have hlength : jobs.length = 0 := by
    rw [h.stack, List.length_append] at hreturned
    omega
  obtain rfl := List.length_eq_zero_iff.mp hlength
  obtain ⟨hsought, hidle, hempty⟩ := h.stopping.of_nil
  exact ⟨hsought, hidle, hempty, h.stack⟩

theorem halts (h : r.Stops p a base x crew.standing none y jobs) (hcrew : Crewed m p crew)
    (hx : m.presentations[p]? = some x) (hactive : x.isRunning) (hmanned : Manned x crew)
    (hempty : y.lastRendered.isEmpty) : r.Halts p m x y := by
  have hsome : crew.standing.isSome := by
    have hrunning := hcrew.running x hx
    rw [hactive] at hrunning
    simpa [Crew.standing] using hrunning.symm
  have hany : ∀ f : Phase → Bool, (m.phases p).any f = crew.standing.any (fun s => f s.phase) := by
    intro f
    rw [hcrew.phases_eq]
    cases crew.standing <;> simp
  have hall : ∀ f : Phase → Bool, (m.phases p).all f = crew.standing.all (fun s => f s.phase) := by
    intro f
    rw [hcrew.phases_eq]
    cases crew.standing <;> simp
  obtain ⟨hstate, hsink⟩ := h.ended hsome rfl
  have hregistered := hmanned.registered
  have hregistered' := h.delivers.registered hregistered
  refine ⟨hstate, hsink, hempty, ?_, ?_, fun s => ?_, fun hout => ?_, fun hpaced => ?_,
    fun hover => ?_, fun hexit => ?_⟩
  · rw [hcrew.underway_eq]
    have htickets := h.delivers.tickets
    simpa [Acknowledges, Crew.standing, Standing.inHand] using htickets.symm
  · rw [h.delivers.remainder]
    exact List.prefix_append _ _
  · rw [← hregistered.ofStream_remainder, ← hregistered'.ofStream_remainder, h.delivers.remainder,
      List.map_append, Sample.ofStream_append]
  · rw [hany] at hout
    rcases h.delivers.playsOut hout with hnone | ⟨-, hnothing⟩
    · cases hnone
    · have hwhole := h.delivers.remainder
      rw [hnothing, List.append_nil] at hwhole
      exact ⟨hwhole.symm, Presentation.remainder_eq_nil_iff.mp hnothing⟩
  · rw [hany] at hpaced
    exact h.paced hpaced
  · rw [hall] at hover
    exact (h.delivers.spent hover).1
  · -- a thread that nobody has asked is in its loop
    rw [hany]
    have hloop := hmanned.looping hexit
    obtain ⟨s, hs⟩ := Option.isSome_iff_exists.mp hsome
    rw [hs] at hloop ⊢
    exact Phase.playsOut_of_isLoop hloop x.eos

end Run.Stops

namespace Machine

theorem run_manned (config : Config) (decoders : DecoderBackends H.Codec)
    (outputs : AudioBackends H.Output) (actions : List (Action H)) (p : Key) :
    ∃ crew, Crewed ((initial config decoders outputs).run actions).final p crew ∧
      ∀ x, ((initial config decoders outputs).run actions).final.presentations[p]? = some x →
        Manned x crew := by
  refine run_turns (P := fun r crew => ∀ x, r.final.presentations[p]? = some x → Manned x crew)
    (initial config decoders outputs) (fun q => ⟨none, .initial config decoders outputs q⟩)
    (.initial config decoders outputs p) (fun x hx => by simp [initial] at hx) ?_ actions
  intro r action progress crew crew' hcrew h _ _ hturn
  exact Manned.turn hcrew h hturn

/-- How a stop goes on, from any moment at which it can be called. -/
theorem stopping_stops {m : Machine H} {p : Key} {a : ActorId} {crew : Crew H} {x : Presentation H}
    (hall : ∀ q, ∃ crew : Crew H, Crewed m q crew) (hcrew : Crewed m p crew)
    (hmanned : Manned x crew)
    (hslotted : Slotted m p crew) (hx : m.presentations[p]? = some x) (hmay : m.mayCall a)
    (hother : ∀ s, crew ≠ some (a, s)) (during : List (Action H))
    (hwithin : ∀ t ∈ (m.stopping p a during).trace, (m.stack a).length < (t.before.stack a).length)
    (hspared : ∀ t ∈ (m.stopping p a during).trace, t.disturbs p = false) :
    ∃ crew' y jobs, Crewed (m.stopping p a during).final p crew' ∧
      (m.stopping p a during).Stops p a (m.stack a) x crew.standing crew' y jobs := by
  have hlt := lt_of_mayCall hmay
  have hfree : ∀ q, ∀ job ∈ (Call.stop p : Call H).jobs, job.isDutyOf q = false :=
    fun q => Plan.isDutyOf (.call rfl)
  have hstart : (⟨m.invoke a (Call.stop p).jobs, []⟩ : Run H).Stops p a
      (m.stack a) x crew.standing crew x
      (Call.stop p).jobs := by
    refine ⟨hx, stack_setStack_self hlt, .begun, hother, .refl x _, fun hsome hnone => ?_,
      fun _ => rfl⟩
    rw [hnone] at hsome
    cases hsome
  have hstart' : ∀ y, (m.invoke a (Call.stop p).jobs).presentations[p]? = some y →
      Manned y crew := by
    intro y hy
    obtain rfl := Option.some.inj (hx.symm.trans hy)
    exact hmanned
  have hcall : Slotted (m.invoke a (Call.stop p).jobs) p crew := by
    have hexists : p < m.presentations.length := (List.getElem?_eq_some_iff.mp hx).1
    have hplay : m.play (.call a (.stop p)) =
        some { machine := m.invoke a (Call.stop p).jobs } := by
      simp [play, hmay, Call.isHosts, knows, Call.key?, hexists]
    exact hslotted.turn hplay (.call hmay (.call rfl) (.of_setStack rfl hlt rfl) rfl)
  -- what holds of the thread and the slot is kept anyway; the stop goes on only under the
  -- conditions
  have hrun : ∃ crew', Crewed (m.stopping p a during).final p crew' ∧
      Slotted (m.stopping p a during).final p crew' ∧
      (∀ y, (m.stopping p a during).final.presentations[p]? = some y → Manned y crew') ∧
      ((∀ t ∈ (m.stopping p a during).trace, (m.stack a).length < (t.before.stack a).length) →
        (∀ t ∈ (m.stopping p a during).trace, t.disturbs p = false) →
        ∃ y jobs, (m.stopping p a during).Stops p a (m.stack a) x crew.standing crew' y jobs) := by
    refine run_turns (P := fun r crew' => Slotted r.final p crew' ∧
        (∀ y, r.final.presentations[p]? = some y → Manned y crew') ∧
        ((∀ t ∈ r.trace, (m.stack a).length < (t.before.stack a).length) →
          (∀ t ∈ r.trace, t.disturbs p = false) →
          ∃ y jobs, r.Stops p a (m.stack a) x crew.standing crew' y jobs))
      (m.invoke a (Call.stop p).jobs) (fun q => (hall q).imp fun _ h => h.invoke hlt (hfree q))
      (hcrew.invoke hlt (hfree p)) ⟨hcall, hstart', fun _ _ => ⟨x, _, hstart⟩⟩ ?_ during
    rintro r action progress crew₁ crew₂ hcrew₁ ⟨hslotted₁, hmanned₁, h⟩ hplay - hturn
    refine ⟨hslotted₁.turn hplay hturn, Manned.turn hcrew₁ hmanned₁ hturn,
      fun hwithin hspared => ?_⟩
    simp only [Run.extend, List.forall_mem_append, List.forall_mem_singleton] at hwithin hspared
    obtain ⟨y, jobs, hstops⟩ := h hwithin.1 hspared.1
    exact hstops.next hcrew₁ (hmanned₁ y hstops.present) hslotted₁ hplay hturn hwithin.2 hspared.2
  obtain ⟨crew', hcrew', -, -, hstops⟩ := hrun
  obtain ⟨y, jobs, hstops⟩ := hstops hwithin hspared
  exact ⟨crew', y, jobs, hcrew', hstops⟩

/-- Suppose that an actor other than the thread stops a presentation, and that until the stop
returns nobody feeds, ends, configures, empties or starts the presentation or removes streams from
it. If its thread was active, it has been halted, and what has been released and what is left is
determined by where it stood. In every case another stop comes to nothing. -/
theorem stop_halts (config : Config) (decoders : DecoderBackends H.Codec)
    (outputs : AudioBackends H.Output)
    (actions during : List (Action H)) (p : Key) (a : ActorId) {m : Machine H} {r : Run H}
    (hm : ((initial config decoders outputs).run actions).final = m)
    (hr : m.stopping p a during = r)
    (hexists : p < m.presentations.length) (hmay : m.mayCall a) (hother : m.plays p a = false)
    (hcall : r.isCall a (m.stack a).length) (hspared : r.trace.all (!·.disturbs p)) :
    ∃ x y, m.presentations[p]? = some x ∧ r.final.presentations[p]? = some y ∧
      (x.isRunning → r.Halts p m x y) ∧ r.final.Ignores a (.stop p) := by
  subst hm hr
  obtain ⟨crew, hcrew, hmanned⟩ := run_manned config decoders outputs actions p
  obtain ⟨crew', hcrew', hslotted⟩ := run_slotted config decoders outputs actions p
  obtain rfl := hcrew.unique hcrew'
  have hx := List.getElem?_eq_getElem hexists
  have hforeign : ∀ s, crew ≠ some (a, s) := by
    rintro s rfl
    rw [hcrew.plays] at hother
    cases hother
  obtain ⟨hwithin, hreturned⟩ := Bool.and_eq_true_iff.mp hcall
  obtain ⟨crew', y, jobs, hcrew', hstops⟩ :=
    stopping_stops (run_crewed config decoders outputs actions) hcrew
    (hmanned _ hx) hslotted hx hmay hforeign during (by simpa using hwithin)
    (by simpa using hspared)
  obtain ⟨hsought, rfl, hempty, hstack⟩ := hstops.returned (by simpa using hreturned)
  have hidle : y.isRunning = false := hcrew'.running y hstops.present
  refine ⟨_, y, hx, hstops.present, fun hactive => ?_, ?_⟩
  · exact hstops.halts hcrew hx hactive (hmanned _ hx) hempty
  · refine Stopping.vanish ?_ hstops.present hsought hidle hempty
    have hlt := lt_of_mayCall hmay
    rw [← length_setStack (a := a)] at hlt
    exact Nat.lt_of_lt_of_le hlt (length_actors_le_run _ during)

open Playout.Action in
def startedAtEnd (times : List UInt64) : List (Action .plain) :=
  prepared (.audio .unknown 0 0 0) times ++ calling 0 (.endStream ⟨0, 0⟩) 1 ++
    calling 0 (.start 0) 2

open Playout.Action in
/-- The host asks the thread to end, which plays out two samples, and waits for it. -/
def waitForTwo : List (Action .plain) :=
  steps 0 2 ++ steps 1 18 ++ steps 0 4

theorem waitForTwo_halts :
    ∃ x y, (plain.run (startedAtEnd [0, 20])).final.presentations[0]? = some x ∧
      ((plain.run (startedAtEnd [0, 20])).final.stopping 0 0 waitForTwo).final.presentations[0]? =
        some y ∧
      y.state = .stopped ∧ (∀ q ∈ y.queues, q.samples = []) ∧
      Ledger.released
        (((plain.run (startedAtEnd [0, 20])).final.stopping 0 0 waitForTwo).effects 0) =
        x.remainder := by
  obtain ⟨x, y, hx, hy, hhalts, -⟩ := stop_halts _ _ _ (startedAtEnd [0, 20]) waitForTwo 0 0
    (m := (plain.run (startedAtEnd [0, 20])).final)
    (r := (plain.run (startedAtEnd [0, 20])).final.stopping 0 0 waitForTwo) rfl rfl
    (by decide +kernel)
    (by decide +kernel) (by decide +kernel) (by decide +kernel) (by decide +kernel)
  have hfacts : (plain.run (startedAtEnd [0, 20])).final.presentations[0]?.map
      (fun x => (x.isRunning, x.eos)) = some (true, true) := by decide +kernel
  have hphases : (plain.run (startedAtEnd [0, 20])).final.phases 0 = [.polling] := by decide +kernel
  rw [hx] at hfacts
  obtain ⟨hactive, heos⟩ := Prod.mk.inj (Option.some.inj hfacts)
  have hhalted := hhalts hactive
  obtain ⟨hreleased, hempty⟩ := hhalted.playedOut (by rw [hphases, heos]; rfl)
  exact ⟨x, y, hx, hy, hhalted.stopped, hempty, hreleased⟩

open Playout.Action in
/-- While a thread of the host stops the presentation, another one removes the stream. -/
def removedMeanwhile : List (Action .plain) :=
  steps 0 2 ++ calling 2 (.removeStream 0 1) 4 ++ steps 1 10 ++ steps 0 4

open Playout.Action in
/-- The thread has been asked to end from its callback, and has played out what was left. Then
another sample is pushed. -/
def pushedLate : List (Action .plain) :=
  startedAtEnd [0] ++ steps 1 5 ++ calling 1 (.stop 0) 4 ++ steps 1 5
    ++ calling 0 (.push ⟨0, 0⟩ ⟨20, 20, 21, 1, .empty, [0], 0⟩) 2

open Playout.Action in
/-- The host asks the thread to end, which has nothing more to do, and waits for it. -/
def waitForNone : List (Action .plain) :=
  steps 0 2 ++ steps 1 5 ++ steps 0 4

/-- Though a stream has ended when the stop is called, a sample that is queued may be left
unacknowledged: it is removed with its stream, or the thread does not look at it any more. -/
theorem stop_may_leave_samples :
    (let m := (plain.run (startedAtEnd [0] ++ [.addHost])).final
     let r := m.stopping 0 0 removedMeanwhile
     m.presentations[0]?.map
       (fun x => (x.isRunning, x.lifecycle.exitRequested, x.eos, x.remainder.length)) =
         some (true, false, true, 1) ∧
       r.isCall 0 (m.stack 0).length ∧
       r.trace.all (fun t => (t.doing? 0).all fun (b, deed) =>
         !deed.task.interferes && (b == 0 || !deed.task.isSteering)) ∧
       (Ledger.acknowledged (r.effects 0)).length = 0) ∧
    (let m := (plain.run pushedLate).final
     let r := m.stopping 0 0 waitForNone
     m.presentations[0]?.map (fun x => (x.isRunning, x.eos, x.remainder.length)) =
       some (true, true, 1) ∧
       r.isCall 0 (m.stack 0).length ∧
       r.trace.all (fun t => !t.disturbs 0) ∧
       r.final.presentations[0]?.map (·.remainder.length) = some 1 ∧
       (Ledger.acknowledged (r.effects 0)).length = 0) := by
  decide +kernel

end Machine

end Playout
