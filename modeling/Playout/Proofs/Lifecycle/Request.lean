import Playout.Proofs.Lifecycle.Custody

/-!
# Requests to end

A stop first sets the exit flag and then waits. Whoever waits has set the flag before, and the
flag is still set then, unless the presentation was started in between: a start clears the flag,
whoever set it.
-/

namespace Playout

variable {H : Platform}

/-! ## Presentations that do not exist -/

/-- Nobody is about to stop a presentation that does not exist. -/
structure Grounded (m : Machine H) (p : Key) : Prop where
  registered : p ∈ m.registry.map (·.2) → p < m.presentations.length
  asked : ∀ b, Job.at p .requestExit ∈ m.stack b → p < m.presentations.length

theorem Call.key?_of_mem {c : Call H} {p : Key} {t : Task H} (h : Job.at p t ∈ c.jobs) :
    c.key? = some p := by
  cases c with
  | create => simp [jobs] at h
  | remove => simp [jobs] at h
  | shutdown => simp [jobs] at h
  | stop q =>
      obtain ⟨u, -, heq⟩ := List.mem_map.mp h
      rw [← (Job.at.inj heq).1]
      rfl
  | removeStreams q =>
      obtain rfl : p = q := by
        simp only [jobs, List.mem_cons, Job.at.injEq, List.not_mem_nil, or_false] at h
        rcases h with ⟨hq, -⟩ | ⟨hq, -⟩
        · exact hq
        · exact hq
      rfl
  | _ =>
      simp only [jobs, List.mem_singleton, Job.at.injEq] at h
      rw [h.1]
      rfl

theorem Machine.length_unwind (m : Machine H) (a : ActorId) :
    (m.unwind a).presentations.length = m.presentations.length := by
  have hfold : ∀ (keys : List Key) (xs : List (Presentation H)),
      (keys.foldl (fun xs p => xs.modify p (·.enter .stopped)) xs).length = xs.length := by
    intro keys
    induction keys with
    | nil => exact fun xs => rfl
    | cons p keys ih =>
        intro xs
        rw [List.foldl_cons, ih, List.length_modify]
  exact hfold _ _

namespace Grounded

variable {m m' : Machine H} {p : Key} {a : ActorId} {old new rest : List (Job H)}
  {action : Action H}
  {progress : Progress H}

theorem of_exists (h : p < m.presentations.length) : Grounded m p :=
  ⟨fun _ => h, fun _ _ => h⟩

theorem replace (h : Grounded m p) (hreplaces : m.Replaces m' p a old new rest)
    (hlength : m.presentations.length ≤ m'.presentations.length)
    (hregistry : p ∈ m'.registry.map (·.2) → p ∈ m.registry.map (·.2) ∨ p < m'.presentations.length)
    (hnew : Job.at p .requestExit ∈ new → p < m'.presentations.length) : Grounded m' p where
  registered hmem := by
    rcases hregistry hmem with hmem | hlt
    · exact Nat.lt_of_lt_of_le (h.registered hmem) hlength
    · exact hlt
  asked b hmem := by
    by_cases hb : b = a
    · subst hb
      rw [hreplaces.after] at hmem
      rcases List.mem_append.mp hmem with hmem | hmem
      · exact hnew hmem
      · have hbefore : Job.at p .requestExit ∈ m.stack b := by
          rw [hreplaces.before]
          exact List.mem_append_right old hmem
        exact Nat.lt_of_lt_of_le (h.asked b hbefore) hlength
    · rcases hreplaces.others b hb with hsame | ⟨-, hnone⟩
      · exact Nat.lt_of_lt_of_le (h.asked b (hsame ▸ hmem)) hlength
      · exact absurd hmem (hnone _)

theorem perform {answers : Answers H} {job : Job H} (h : Grounded m p)
    (hstack : m.stack a = job :: rest)
    (hstep : m.perform a answers rest job = some progress) : Grounded progress.machine p := by
  have hlt := Machine.lt_of_stack hstack
  by_cases hat : ∃ q task, job = .at q task
  · obtain ⟨q, task, rfl⟩ := hat
    by_cases hexists : p < m.presentations.length
    · refine of_exists (Nat.lt_of_lt_of_le hexists ?_)
      simp only [Machine.perform] at hstep
      split at hstep
      · cases hstep
        exact Nat.le_refl _
      · split at hstep
        · cases hstep
          simp [Machine.after, Machine.setStack]
        · cases hstep
        · cases hstep
          exact Nat.le_of_eq (m.length_unwind a).symm
    · -- a task makes no presentations, and only those of `p` leave requests for `p` behind
      have hp : m.presentations[p]? = none := List.getElem?_eq_none (Nat.not_lt.mp hexists)
      have hdrop : ∀ {m'} old rest, m.stack a = old ++ rest →
          m'.actors = (m.setStack a rest).actors →
          m'.registry = m.registry → m.presentations.length ≤ m'.presentations.length →
            Grounded m' p := by
        intro m' old rest hold hactors hregistry hlength
        have hreplaces : m.Replaces m' p a old [] rest := .of_setStack hold hlt hactors
        exact h.replace hreplaces hlength (fun hmem => .inl (hregistry ▸ hmem)) (by simp)
      simp only [Machine.perform] at hstep
      split at hstep
      · cases hstep
        exact hdrop [.at q task] rest hstack rfl rfl (Nat.le_refl _)
      · rename_i x hx
        have hqp : q ≠ p := fun heq => by simp [heq, hp] at hx
        split at hstep
        · rename_i move hmove
          cases hstep
          refine h.replace (.of_after hstack (.inl hqp)) ?_ (fun hmem => .inl hmem) ?_
          · simp [Machine.after, Machine.setStack]
          · simp [hqp]
        · cases hstep
        · cases hstep
          exact hdrop (m.stack a) [] (List.append_nil _).symm rfl rfl
            (Nat.le_of_eq (m.length_unwind a).symm)
  · obtain ⟨jobs, created, hregisters⟩ :=
      Machine.perform_registry (fun q task heq => hat ⟨q, task, heq⟩) hstep
    have hreplaces : m.Replaces progress.machine p a [job] jobs rest :=
      .of_setStack hstack hlt hregisters.actors
    have hlength : m.presentations.length ≤ progress.machine.presentations.length := by
      rw [hregisters.presentations, List.length_append]
      exact Nat.le_add_right _ _
    refine h.replace hreplaces hlength ?_ fun hmem => ?_
    · intro hmem
      obtain ⟨e, he, rfl⟩ := List.mem_map.mp hmem
      rcases List.mem_append.mp (hregisters.registry he) with hold | hnew
      · exact .inl (List.mem_map_of_mem hold)
      · refine .inr ?_
        rw [hregisters.presentations]
        cases created with
        | none => simp at hnew
        | some id =>
            obtain rfl : e = (id, m.presentations.length) := by simpa using hnew
            simp
    · exact Nat.lt_of_lt_of_le (h.registered (hregisters.known p _ hmem)) hlength

theorem play (h : Grounded m p) (hplay : m.play action = some progress) :
    Grounded progress.machine p := by
  have hinvoke : ∀ {a jobs}, m.mayCall a →
      (Job.at p .requestExit ∈ jobs → p < m.presentations.length) →
      Grounded (m.invoke a jobs) p := by
    intro a jobs hmay hjobs
    have hreplaces : m.Replaces (m.invoke a jobs) p a [] jobs (m.stack a) :=
      .of_setStack rfl (Machine.lt_of_mayCall hmay) rfl
    exact h.replace hreplaces (Nat.le_refl _) (fun hmem => .inl hmem) hjobs
  cases action with
  | call a c =>
      simp only [Machine.play, Option.ite_none_right_eq_some, Bool.and_eq_true,
        Option.some.injEq] at hplay
      obtain ⟨⟨⟨hmay, -⟩, hknows⟩, rfl⟩ := hplay
      refine hinvoke hmay fun hmem => ?_
      simpa [Machine.knows, Call.key?_of_mem hmem] using hknows
  | reclaim a q =>
      simp only [Machine.play, Option.ite_none_right_eq_some, Option.some.injEq] at hplay
      obtain ⟨hmay, rfl⟩ := hplay
      exact hinvoke hmay (by simp)
  | addHost =>
      simp only [Machine.play, Option.some.injEq] at hplay
      subst hplay
      exact ⟨h.registered, fun b hmem => h.asked b (Machine.stack_addHost (m := m) ▸ hmem)⟩
  | step a answers =>
      simp only [Machine.play, Machine.step] at hplay
      split at hplay
      · cases hplay
      · rename_i job rest hstack
        exact h.perform hstack hplay

end Grounded

/-! ## Prompts -/

namespace Prompted

variable {m m' : Machine H} {p : Key} {a b : ActorId} {jobs more : List (Job H)}
  {crew crew' : Crew H}
  {doing? : Option (ActorId × Deed H)}

theorem of_not_mem (h : Job.at p .inspectThread ∉ jobs) : Prompted p jobs :=
  List.isChain_iff_forall_rel_of_append_cons_cons.mpr fun first next pre post hjobs hnext =>
    absurd (by simp [hjobs, hnext]) h

theorem append (hjobs : Prompted p jobs) (hmore : Prompted p more)
    (hhead : jobs ≠ [] → more.head? ≠ some (.at p .inspectThread)) : Prompted p (jobs ++ more) :=
  List.IsChain.append hjobs hmore fun first hfirst next hnext heq => by
    refine absurd ?_ (hhead fun hnil => ?_)
    · rw [← heq]
      exact hnext
    · simp [hnil] at hfirst

theorem suffix (h : Prompted p (jobs ++ more)) : Prompted p more :=
  List.IsChain.right_of_append h

/-- Before a look at the slot comes the request to end. -/
theorem asked (h : Prompted p (jobs ++ more)) (hjobs : jobs ≠ [])
    (hhead : more.head? = some (.at p .inspectThread)) : Job.at p .requestExit ∈ jobs := by
  cases more with
  | nil => simp at hhead
  | cons next more =>
      obtain rfl : next = .at p .inspectThread := by simpa using hhead
      have hlast := List.IsChain.rel_getLast_head_of_append h hjobs (by simp) rfl
      rw [← hlast]
      exact List.getLast_mem hjobs

theorem replace {old new rest : List (Job H)} (h : ∀ b, Prompted p (m.stack b))
    (hreplaces : m.Replaces m' p a old new rest) (hnew : Prompted p new)
    (hhead : new ≠ [] → rest.head? ≠ some (.at p .inspectThread)) :
    ∀ b, Prompted p (m'.stack b) := by
  intro b
  by_cases hb : b = a
  · subst hb
    have hbefore := h b
    rw [hreplaces.before] at hbefore
    rw [hreplaces.after]
    exact hnew.append hbefore.suffix hhead
  · rcases hreplaces.others b hb with hsame | ⟨-, hnone⟩
    · rw [hsame]
      exact h b
    · exact of_not_mem (hnone _)

theorem turn (hground : Grounded m p) (h : ∀ b, Prompted p (m.stack b))
    (hturn : Turn m m' p crew doing? crew') : ∀ b, Prompted p (m'.stack b) := by
  cases hturn with
  | arrival hstacks =>
      intro b
      rw [hstacks b]
      exact h b
  | @call a jobs hmay hplan hreplaces =>
      refine replace h hreplaces hplan.prompted fun _ => ?_
      rcases Machine.stack_of_mayCall hmay with hempty | ⟨q, rest, hstack⟩
      · simp [hempty]
      · simp [hstack]
  | @elsewhere a job old new rest hreplaces hold hplan =>
      refine replace h hreplaces hplan.prompted fun _ hhead => ?_
      have hbefore := h a
      rw [hreplaces.before] at hbefore
      have hasked := hbefore.asked (by simp) hhead
      have hexists : p < m.presentations.length := by
        refine hground.asked a ?_
        rw [hreplaces.before]
        exact List.mem_append_left rest hasked
      exact absurd (List.getElem?_eq_none_iff.mp (hold _ hasked)) (Nat.not_le.mpr hexists)
  | @aside a answers task rest x move hx hx' hfree hstart hmove hreplaces =>
      have hsteer := Presentation.perform_steering hfree hstart move hmove
      refine replace h hreplaces (of_not_mem ?_) fun hnext hhead => ?_
      · simpa using hsteer.inspectThread_not_mem
      · have hbefore := h a
        rw [hreplaces.before] at hbefore
        have hasked := hbefore.asked (by simp) hhead
        obtain rfl : task = .requestExit := by simpa using (List.mem_singleton.mp hasked).symm
        exact hnext (by simp [hsteer.of_requestExit.2])
  | @start a _ rest x _ _ _ _ hstack hstack' _ hbody hothers =>
      intro b
      by_cases hnew : b = m.actors.length
      · subst hnew
        rw [hbody]
        exact of_not_mem (by simp [Task.body])
      · by_cases hb : b = a
        · subst hb
          have hbefore : Prompted p ([.at p .start] ++ rest) := by simpa [hstack] using h b
          have hkeep : Prompted p [(.at p (.keepThread m.actors.length) : Job H)] :=
            of_not_mem (by simp)
          rw [hstack']
          refine hkeep.append hbefore.suffix ?_
          intro _ hhead
          simpa using hbefore.asked (by simp) hhead
        · rw [hothers b hb hnew]
          exact h b
  | duty _ _ _ _ hreplaces =>
      refine replace h hreplaces (of_not_mem ?_) fun _ => by simp
      simpa using Standing.not_mem rfl _ _ _

end Prompted

/-! ## Requests and starts in a run -/

/-- A start that finds no thread. It takes back the requests made so far, also if no thread
can be had. -/
def Transition.Starts (t : Transition H) (p : Key) : Prop :=
  ∃ a x effects, t.doing? p = some (a, ⟨x, .start, effects⟩) ∧ x.isRunning = false

/-- The actor has asked the presentation's thread to end, and has only looked at the slot since. The
exit flag is set, or somebody has started the presentation since. -/
def Run.Asked (r : Run H) (p : Key) (a : ActorId) : Prop :=
  ∃ before asked since, r.trace = before ++ asked :: since ∧ asked.Does p a .requestExit ∧
    (∀ t ∈ since, t.IsBy a → t.Does p a .inspectThread) ∧
    ∃ x, r.final.presentations[p]? = some x ∧
      (x.lifecycle.exitRequested ∨ ∃ t ∈ since, t.Starts p)

theorem Steering.exitRequested {c : Surroundings H} {x y : Presentation H} {task : Task H}
    {next : List (Task H)} {effects : List (Effect H)} (h : Steering c x task y next effects)
    (hx : x.lifecycle.exitRequested) :
    y.lifecycle.exitRequested ∨ task = .start ∧ x.isRunning = false := by
  cases h with
  | request => exact .inl rfl
  | fail _ hidle => exact .inr ⟨rfl, hidle⟩
  | apart _ _ hlifecycle =>
      rw [hlifecycle]
      exact .inl hx
  | _ => exact .inl hx

theorem Advance.exitRequested_eq {c : Surroundings H} {x y : Presentation H} {s : Standing H}
    {effects : List (Effect H)} {s? : Option (Standing H)} (h : Advance c x s y effects s?) :
    y.lifecycle.exitRequested = x.lifecycle.exitRequested := by
  cases h with
  | frame => rw [Presentation.beginFrame_snd]
  | _ => rfl

theorem Turn.exitRequested {m m' : Machine H} {p : Key} {crew crew' : Crew H}
    {doing? : Option (ActorId × Deed H)} {x : Presentation H} (h : Turn m m' p crew doing? crew')
    (hx : m.presentations[p]? = some x) :
    ∃ y, m'.presentations[p]? = some y ∧ (x.lifecycle.exitRequested → y.lifecycle.exitRequested ∨
      ∃ a effects, doing? = some (a, ⟨x, .start, effects⟩) ∧ x.isRunning = false) := by
  cases doing? with
  | none => exact ⟨x, (h.still hx).1, .inl⟩
  | some doing =>
      cases h with
      | aside hx₀ hy hfree hstart hmove =>
          obtain rfl := Option.some.inj (hx.symm.trans hx₀)
          have hsteer := Presentation.perform_steering hfree hstart _ hmove
          refine ⟨_, hy, fun hexit => (hsteer.exitRequested hexit).imp_right ?_⟩
          rintro ⟨rfl, hidle⟩
          exact ⟨_, _, rfl, hidle⟩
      | start _ hx₀ hy hlaunches =>
          obtain rfl := Option.some.inj (hx.symm.trans hx₀)
          exact ⟨_, hy, fun _ => .inr ⟨_, _, rfl, (Presentation.launches_iff.mp hlaunches).2.1⟩⟩
      | duty _ hx₀ hy hadv =>
          obtain rfl := Option.some.inj (hx.symm.trans hx₀)
          exact ⟨_, hy, fun hexit => .inl (by rw [hadv.exitRequested_eq]; exact hexit)⟩

namespace Run.Asked

variable {r : Run H} {p : Key} {a : ActorId} {action : Action H} {progress : Progress H}
  {crew crew' : Crew H}

theorem request {x : Presentation H}
    (hdoes : Transition.Does ⟨r.final, action, progress⟩ p a .requestExit)
    (hx : progress.machine.presentations[p]? = some x) (hexit : x.lifecycle.exitRequested) :
    (r.extend action progress).Asked p a :=
  ⟨r.trace, ⟨r.final, action, progress⟩, [], rfl, hdoes, by simp, x, hx, .inl hexit⟩

theorem extend (h : r.Asked p a)
    (hturn : Turn r.final progress.machine p crew
      (Transition.doing? p ⟨r.final, action, progress⟩) crew')
    (hown : Transition.IsBy ⟨r.final, action, progress⟩ a →
      Transition.Does ⟨r.final, action, progress⟩ p a .inspectThread) :
    (r.extend action progress).Asked p a := by
  obtain ⟨before, asked, since, htrace, hasked, hsince, x, hx, hflag⟩ := h
  obtain ⟨y, hy, hkeeps⟩ := hturn.exitRequested hx
  refine ⟨before, asked, since ++ [⟨r.final, action, progress⟩], ?_, hasked, ?_, y, hy, ?_⟩
  · simp [Run.extend, htrace]
  · intro t ht
    rcases List.mem_append.mp ht with hold | hnew
    · exact hsince t hold
    · rw [List.mem_singleton.mp hnew]
      exact hown
  · rcases hflag with hexit | ⟨t, ht, hstarts⟩
    · rcases hkeeps hexit with hexit' | ⟨b, effects, hdoing, hidle⟩
      · exact .inl hexit'
      · exact .inr ⟨_, List.mem_append_right since (List.mem_singleton_self _), b, x, effects,
          hdoing, hidle⟩
    · exact .inr ⟨t, List.mem_append_left _ ht, hstarts⟩

end Run.Asked

/-! ## Whoever is between the request and the end -/

/-- A part of a stop that comes after the request and before the end of the thread. -/
def Task.isPursuit : Task H → Bool
  | .inspectThread => true
  | .awaitStopped _ => true
  | _ => false

/-- The next job of the actor is to look for the thread, or to wait for its end. -/
def Machine.Pursues (m : Machine H) (p : Key) (a : ActorId) : Prop :=
  ∃ t, (m.stack a).head? = some (.at p t) ∧ t.isPursuit

namespace Machine.Pursues

variable {m m' : Machine H} {p : Key} {a b : ActorId} {old new rest : List (Job H)}

theorem congr (h : m'.Pursues p b) (hsame : m'.stack b = m.stack b) : m.Pursues p b := by
  obtain ⟨t, hhead, ht⟩ := h
  exact ⟨t, hsame ▸ hhead, ht⟩

theorem other (h : m'.Pursues p b) (hreplaces : m.Replaces m' p a old new rest) (hb : b ≠ a) :
    m'.stack b = m.stack b := by
  rcases hreplaces.others b hb with hsame | ⟨-, hnone⟩
  · exact hsame
  · obtain ⟨t, hhead, -⟩ := h
    exact absurd (List.mem_of_mem_head? hhead) (hnone t)

/-- The actor has just come to it, or it has finished with what was to be done before. -/
theorem own (h : m'.Pursues p a) (hreplaces : m.Replaces m' p a old new rest) :
    (∃ t, new.head? = some (.at p t) ∧ t.isPursuit) ∨
      new = [] ∧ ∃ t, rest.head? = some (.at p t) ∧ t.isPursuit := by
  obtain ⟨t, hhead, ht⟩ := h
  rw [hreplaces.after] at hhead
  cases new with
  | nil => exact .inr ⟨rfl, t, hhead, ht⟩
  | cons job jobs => exact .inl ⟨t, hhead, ht⟩

end Machine.Pursues

theorem Task.isSteering_of_isPursuit {t : Task H} (h : t.isPursuit) : t.isSteering := by
  cases t <;> simp_all [isPursuit, isSteering]

theorem Plan.head_not_pursuit {p : Key} {jobs : List (Job H)} {t : Task H} (h : Plan p jobs)
    (hhead : jobs.head? = some (.at p t)) : t.isPursuit = false := by
  have hplanned := h.planned t (List.mem_of_mem_head? hhead)
  cases t with
  | inspectThread => exact absurd hhead h.head
  | awaitStopped => simp [Task.isPlanned] at hplanned
  | _ => rfl

/-- Only a look at the slot leaves behind what comes before the end of the thread. -/
theorem Steering.of_pursuit {c : Surroundings H} {x y : Presentation H} {task t : Task H}
    {next : List (Task H)} {effects : List (Effect H)} (h : Steering c x task y next effects)
    (hmem : t ∈ next) (ht : t.isPursuit) : task = .inspectThread := by
  cases t with
  | inspectThread => exact absurd hmem h.inspectThread_not_mem
  | awaitStopped thread =>
      rcases h.wait_cases with ⟨-, hnone⟩ | ⟨htask, -⟩
      · exact absurd hmem (hnone thread)
      · exact htask
  | _ => simp [Task.isPursuit] at ht

/-- What an actor of a run has to do about the end of a presentation's thread. -/
structure Run.Orderly (r : Run H) (p : Key) : Prop where
  grounded : Grounded r.final p
  prompted : ∀ b, Prompted p (r.final.stack b)
  foremost : Foremost r.final p
  asked : ∀ b, r.final.Pursues p b → r.Asked p b

namespace Run.Orderly

variable {r : Run H} {p : Key} {a b : ActorId} {action : Action H} {progress : Progress H}
  {crew crew' : Crew H} {old new rest : List (Job H)}

/-- Only by the request that it makes does an actor come to look for the thread after
another job. -/
theorem requests_of_rest {job : Job H} {t : Task H} (h : r.Orderly p)
    (hstack : r.final.stack a = job :: old ++ rest) (hhead : rest.head? = some (.at p t))
    (ht : t.isPursuit) : Job.at p .requestExit ∈ job :: old := by
  have hbefore := h.prompted a
  rw [hstack] at hbefore
  cases t with
  | inspectThread => exact hbefore.asked (by simp) hhead
  | awaitStopped thread =>
      exact absurd (List.mem_of_mem_head? hhead) (h.foremost.rest_not_mem hstack rfl)
  | _ => simp [Task.isPursuit] at ht

/-- Whoever is between the request and the end has made the request. -/
theorem asked_next (h : r.Orderly p)
    (hturn : Turn r.final progress.machine p crew
      (Transition.doing? p ⟨r.final, action, progress⟩) crew')
    (hpursues : progress.machine.Pursues p b) : (r.extend action progress).Asked p b := by
  -- whoever keeps its stack, and does nothing to the presentation, has asked before
  have hstay : progress.machine.stack b = r.final.stack b →
      (∀ deed, Transition.doing? p ⟨r.final, action, progress⟩ ≠ some (b, deed)) →
      (r.extend action progress).Asked p b := by
    intro hsame hnot
    obtain ⟨t, hhead, ht⟩ := hpursues.congr hsame
    have hasked := h.asked b ⟨t, hhead, ht⟩
    refine hasked.extend hturn fun hby => ?_
    obtain ⟨-, -, -, -, -, -, x, hx, -⟩ := hasked
    obtain ⟨effects, hdoing⟩ := Transition.doing?_of_isBy hby hhead hx
    exact absurd hdoing (hnot _)
  have hturn' := hturn
  generalize hdoing : Transition.doing? p ⟨r.final, action, progress⟩ = doing? at hturn'
  rw [hdoing] at hstay
  cases hturn' with
  | arrival hstacks => exact hstay (hstacks b) (by simp)
  | @call a jobs hmay hplan hreplaces =>
      by_cases hb : b = a
      · subst hb
        rcases hpursues.own hreplaces with ⟨t, hhead, ht⟩ | ⟨-, t, hhead, ht⟩
        · simp [hplan.head_not_pursuit hhead] at ht
        · -- whoever may make a call is idle or in a callback
          rcases Machine.stack_of_mayCall hmay with hempty | ⟨q, rest, hstack⟩
          · simp [hempty] at hhead
          · simp only [hstack, List.head?_cons, Option.some.injEq, Job.at.injEq] at hhead
            simp [← hhead.2, Task.isPursuit] at ht
      · exact hstay (hpursues.other hreplaces hb) (by simp)
  | @elsewhere a job old new rest hreplaces hold hplan =>
      by_cases hb : b = a
      · subst hb
        rcases hpursues.own hreplaces with ⟨t, hhead, ht⟩ | ⟨rfl, t, hhead, ht⟩
        · simp [hplan.head_not_pursuit hhead] at ht
        · have hasked := h.requests_of_rest hreplaces.before hhead ht
          have hexists : p < r.final.presentations.length := by
            refine h.grounded.asked b ?_
            rw [hreplaces.before]
            exact List.mem_append_left rest hasked
          exact absurd (List.getElem?_eq_none_iff.mp (hold _ hasked)) (Nat.not_le.mpr hexists)
      · exact hstay (hpursues.other hreplaces hb) (by simp)
  | @aside a answers task rest x move hx hx' hfree hstart hmove hreplaces =>
      by_cases hb : b = a
      · subst hb
        have hsteer := Presentation.perform_steering hfree hstart move hmove
        rcases hpursues.own hreplaces with ⟨t, hhead, ht⟩ | ⟨hnext, t, hhead, ht⟩
        · -- it goes on from its look at the slot to its wait
          have hmem : t ∈ move.next := by simpa using List.mem_of_mem_head? hhead
          obtain rfl := hsteer.of_pursuit hmem ht
          have hlooks : r.final.Pursues p b := ⟨.inspectThread, by simp [hreplaces.before], rfl⟩
          exact (h.asked b hlooks).extend hturn fun _ => ⟨x, move.effects, hdoing⟩
        · -- it has just made the request
          rw [hnext] at hreplaces
          have hasked := h.requests_of_rest hreplaces.before hhead ht
          obtain rfl : task = .requestExit := by simpa using (List.mem_singleton.mp hasked).symm
          refine .request ⟨x, move.effects, hdoing⟩ hx' ?_
          rw [hsteer.of_requestExit.1]
          rfl
      · refine hstay (hpursues.other hreplaces hb) ?_
        simp [Ne.symm hb]
  | @start a _ rest x _ _ _ _ hstack hstack' _ hbody hothers =>
      by_cases hnew : b = r.final.actors.length
      · subst hnew
        obtain ⟨t, hhead, ht⟩ := hpursues
        simp only [hbody, Task.body, List.map_cons, List.head?_cons, Option.some.injEq,
          Job.at.injEq] at hhead
        simp [← hhead.2, Task.isPursuit] at ht
      · by_cases hb : b = a
        · subst hb
          obtain ⟨t, hhead, ht⟩ := hpursues
          simp only [hstack', List.head?_cons, Option.some.injEq, Job.at.injEq] at hhead
          simp [← hhead.2, Task.isPursuit] at ht
        · refine hstay (hothers b hb hnew) ?_
          simp [Ne.symm hb]
  | @duty a answers s x y effects s? _ _ _ _ hreplaces =>
      by_cases hb : b = a
      · subst hb
        obtain ⟨t, hhead, ht⟩ := hpursues
        rw [hreplaces.after, List.append_nil] at hhead
        have hmem : t ∈ s.interludes x ++ Standing.duties s? := by
          simpa using List.mem_of_mem_head? hhead
        exact absurd hmem (Standing.not_mem (Task.isSteering_of_isPursuit ht) x s s?)
      · refine hstay (hpursues.other hreplaces hb) ?_
        simp [Ne.symm hb]

theorem next (h : r.Orderly p) (hplay : r.final.play action = some progress)
    (hturn : Turn r.final progress.machine p crew
      (Transition.doing? p ⟨r.final, action, progress⟩) crew') :
    (r.extend action progress).Orderly p where
  grounded := h.grounded.play hplay
  prompted := Prompted.turn h.grounded h.prompted hturn
  foremost := h.foremost.turn hturn
  asked _ hpursues := h.asked_next hturn hpursues

end Run.Orderly

namespace Machine

end Machine

end Playout
