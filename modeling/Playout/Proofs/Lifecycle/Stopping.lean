import Playout.Proofs.Delivery.Remainder
import Playout.Proofs.Display.Screen
import Playout.Proofs.Lifecycle.Request

/-!
# How a stop goes on

A stop goes through a few stages, whatever else happens meanwhile: the thread is asked to end, it
is looked for and waited for, and when it has ended the last frame is painted over. What holds at
a stage is kept as long as no thread is started, and the thread delivers what it comes to unless
it is disturbed.
-/

namespace Playout

variable {H : Platform}

/-! ## The end of a thread -/

theorem Advance.sink_eq_none {c : Surroundings H} {x y : Presentation H} {s : Standing H}
    {effects : List (Effect H)} {s? : Option (Standing H)} (h : Advance c x s y effects s?)
    (hs : s? = some (.at .ending)) : y.sink = none := by
  cases h with
  | releaseSink => rfl
  | poll =>
      have hphase := Standing.at.inj (Option.some.inj hs)
      split at hphase <;> cases hphase
  | leave =>
      have hphase := Standing.at.inj (Option.some.inj hs)
      split at hphase <;> cases hphase
  | @acknowledge _ pacing =>
      have hphase := Standing.at.inj (Option.some.inj hs)
      cases pacing <;> cases hphase
  | _ => simp at hs

/-- A thread leaves its loop when it finds that it has been asked to. -/
theorem Advance.isLoop {c : Surroundings H} {x y : Presentation H} {s : Standing H}
    {effects : List (Effect H)} {s? : Option (Standing H)} (h : Advance c x s y effects s?)
    (hexit : x.lifecycle.exitRequested = false) (hs : s.phase.isLoop) :
    s?.all (·.phase.isLoop) := by
  cases h with
  | poll =>
      rw [hexit]
      rfl
  | leave => cases hs
  | turn => cases hs
  | drain => cases hs
  | nothingLeft => cases hs
  | setDeadline => cases hs
  | pollAgain => cases hs
  | pollLast => cases hs
  | close => cases hs
  | releaseSink => cases hs
  | finish => rfl
  | overflow => rfl
  | _ => exact hs

theorem Steering.sink_cases {c : Surroundings H} {x y : Presentation H} {task : Task H}
    {next : List (Task H)} {effects : List (Effect H)} (h : Steering c x task y next effects) :
    y.sink = x.sink ∨ y.sink = none := by
  cases h with
  | apart _ _ _ _ hsink => exact hsink
  | _ => exact .inl rfl

/-- The thread plays out what is left, or lets the sink do so. -/
def Standing.drains : Standing H → Bool
  | .drainingSink => true
  | .pollingSink .. => true
  | .at .draining => true
  | .dispatching _ .unpaced => true
  | .showing _ _ .unpaced => true
  | .acknowledging _ .unpaced => true
  | _ => false

/-- A thread begins with that only when nobody is in the middle of a start. -/
theorem Advance.isStarting_eq_false {c : Surroundings H} {x y : Presentation H} {s s' : Standing H}
    {effects : List (Effect H)} (h : Advance c x s y effects (some s'))
    (hs : s.drains → x.isStarting = false) (hs' : s'.drains) : y.isStarting = false := by
  rw [Presentation.isStarting, h.starter_eq]
  cases h with
  | turn hstarting => exact hstarting
  | poll => split at hs' <;> cases hs'
  | leave => split at hs' <;> cases hs'
  | choose | rest | close | releaseSink | openSink | nothingReady | pollLast => cases hs'
  | @frame _ _ pacing | @play _ _ pacing | @pass _ pacing | @offer _ _ pacing
  | @acknowledge _ pacing =>
      cases pacing with
      | paced => cases hs'
      | unpaced => exact hs rfl
  | _ => exact hs rfl

/-- What holds of a presentation and its thread at any time: the thread stays in its loop until it
is asked to end, the state is not locked when it plays out what is left, and it has released the
sink when it is about to end. -/
structure Manned (x : Presentation H) (crew : Crew H) : Prop where
  registered : x.Registered
  looping : x.lifecycle.exitRequested = false → crew.standing.all (·.phase.isLoop)
  unlocked : ∀ s, crew.standing = some s → s.drains → x.isStarting = false
  unbound : crew.standing = some (.at .ending) → x.sink = none

theorem Manned.turn {m m' : Machine H} {p : Key} {crew crew' : Crew H}
    {doing? : Option (ActorId × Deed H)}
    (hcrew : Crewed m p crew) (h : ∀ x, m.presentations[p]? = some x → Manned x crew)
    (hturn : Turn m m' p crew doing? crew') :
    ∀ y, m'.presentations[p]? = some y → Manned y crew' := by
  intro y hy
  cases hturn with
  | arrival _ hsame => exact h y (hsame ▸ hy)
  | call _ _ _ hsame => exact h y (hsame ▸ hy)
  | elsewhere _ _ _ hpres =>
      rcases hpres with hsame | ⟨hnone, id, hnew⟩
      · exact h y (hsame ▸ hy)
      · obtain rfl := Option.some.inj (hy.symm.trans hnew)
        obtain rfl := hcrew.eq_none_of_absent hnone
        exact ⟨Presentation.registered_new id, fun _ => rfl, fun _ _ _ => rfl, fun _ => rfl⟩
  | @aside a answers task rest x move hx hx' hfree hstart hmove =>
      obtain rfl := Option.some.inj (hy.symm.trans hx')
      have hold := h x hx
      have hrequeue := (Aside.of_moves (hmove ▸ Presentation.perform_aside hfree hstart)).2.1
      have hsteer := Presentation.perform_steering hfree hstart move hmove
      refine ⟨(Presentation.Balanced.of_requeue hold.registered hrequeue).registered,
        fun hexit => ?_, fun s hs hdrains => ?_, fun hs => ?_⟩
      · cases hbefore : x.lifecycle.exitRequested with
        | false => exact hold.looping hbefore
        | true =>
            rcases hsteer.exitRequested hbefore with hstill | ⟨-, hidle⟩
            · rw [hstill] at hexit
              cases hexit
            · -- a start that fails takes requests back, and there is no thread then
              rw [hcrew.running x hx] at hidle
              obtain rfl : crew = none := by simpa using hidle
              rfl
      · have hbefore := hold.unlocked s hs hdrains
        unfold Presentation.isStarting at hbefore ⊢
        rcases hsteer.starter_cases with ⟨thread, rfl, hnone⟩ | ⟨-, hsame⟩
        · rw [hnone]
          rfl
        · rw [hsame]
          exact hbefore
      · rcases hsteer.sink_cases with hsame | hnone
        · exact hsame.trans (hold.unbound hs)
        · exact hnone
  | @start a _ rest x _ hx hx' =>
      obtain rfl := Option.some.inj (hy.symm.trans hx')
      have hkeep : Presentation.Balanced x (x.spawn a) [] :=
        .keep (h x hx).registered rfl rfl rfl rfl
      refine ⟨hkeep.registered, fun _ => rfl, fun s hs hdrains => ?_, fun hs => ?_⟩
      · cases hs
        cases hdrains
      · cases hs
  | @duty a answers s x y' effects s? hcrew' hx hx' hadv =>
      obtain rfl := Option.some.inj (hy.symm.trans hx')
      have hold := h x hx
      refine ⟨(Presentation.Balanced.of_advance hold.registered hadv).registered, fun hexit => ?_,
        fun s' hs hdrains => ?_, fun hs => ?_⟩
      · rw [hadv.exitRequested_eq] at hexit
        rw [Crew.standing_map]
        refine hadv.isLoop hexit ?_
        have hloop := hold.looping hexit
        rwa [hcrew'] at hloop
      · rw [Crew.standing_map] at hs
        subst hs
        exact hadv.isStarting_eq_false (hold.unlocked s (by rw [hcrew']; rfl)) hdrains
      · rw [Crew.standing_map] at hs
        exact hadv.sink_eq_none hs

/-! ## Stages of a stop -/

/-- The thread has been asked to end, and has been taken. It is in its slot again only if somebody
has come to the end of a start since. -/
structure Presentation.Sought (x : Presentation H) (settled : Prop) : Prop where
  asked : x.lifecycle.exitRequested
  slot : settled → x.lifecycle.thread = none

/-- What is left of an actor's stop, with what holds by then. -/
inductive Stopping (p : Key) (a : ActorId) (settled : Prop) (x : Presentation H) (crew : Crew H) :
    List (Job H) → Prop where
  | begun :
      Stopping p a settled x crew
        [.at p .requestExit, .at p .inspectThread, .at p .repaint, .at p .finish]
  | asked : x.lifecycle.exitRequested →
      Stopping p a settled x crew [.at p .inspectThread, .at p .repaint, .at p .finish]
  | waits {thread} : x.Sought settled →
      Stopping p a settled x crew [.at p (.awaitStopped thread), .at p .repaint, .at p .finish]
  | joins {thread} : x.Sought settled → crew = none →
      Stopping p a settled x crew [.at p (.join thread), .at p .repaint, .at p .finish]
  | repaints : x.Sought settled → crew = none →
      Stopping p a settled x crew [.at p .repaint, .at p .finish]
  /-- The display may be called, and the host may make calls from there. -/
  | returns (above : List (Job H)) : x.Sought settled → crew = none → x.lastRendered.isEmpty →
      Stopping p a settled x crew (above ++ [.at p .finish])
  | returned : x.Sought settled → crew = none → x.lastRendered.isEmpty →
      Stopping p a settled x crew []

/-- What has been reached by a stop is kept. -/
structure Holds (settled : Prop) (x y : Presentation H) (crew crew' : Crew H) : Prop where
  asked : x.lifecycle.exitRequested → y.lifecycle.exitRequested
  slot : settled → y.lifecycle.thread = x.lifecycle.thread ∨ y.lifecycle.thread = none
  idle : crew = none → crew' = none ∧ (x.lastRendered.isEmpty → y.lastRendered.isEmpty)

theorem Holds.of_steering {c : Surroundings H} {settled : Prop} {x y : Presentation H}
    {task : Task H}
    {next : List (Task H)} {effects : List (Effect H)} (h : Steering c x task y next effects)
    (hunstarted : task = .start → x.isRunning)
    (hkept : settled → ∀ thread, task ≠ .keepThread thread)
    (crew : Crew H) : Holds settled x y crew crew where
  asked hexit := by
    rcases h.exitRequested hexit with hstill | ⟨rfl, hidle⟩
    · exact hstill
    · rw [hunstarted rfl] at hidle
      cases hidle
  slot hsettled := by
    rcases h.wait_cases with ⟨⟨thread, rfl, -⟩ | ⟨hsame, -⟩, -⟩ | ⟨-, hnone, -⟩
    · exact absurd rfl (hkept hsettled thread)
    · exact .inl hsame
    · exact .inr hnone
  idle hidle := by
    refine ⟨hidle, fun hempty => ?_⟩
    rcases h.lastRendered_cases with hsame | ⟨-, hzero⟩
    · rw [hsame]
      exact hempty
    · rw [hzero]
      rfl

namespace Presentation.Sought

theorem holds {x y : Presentation H} {settled : Prop} {crew crew' : Crew H} (h : x.Sought settled)
    (hkeep : Holds settled x y crew crew') : y.Sought settled where
  asked := hkeep.asked h.asked
  slot hsettled := by
    rcases hkeep.slot hsettled with hsame | hnone
    · rw [hsame]
      exact h.slot hsettled
    · exact hnone

end Presentation.Sought

namespace Stopping

variable {p : Key} {a : ActorId} {settled : Prop} {x y : Presentation H} {crew crew' : Crew H}
  {job : Job H}
  {jobs above base : List (Job H)}

theorem holds (h : Stopping p a settled x crew jobs) (hkeep : Holds settled x y crew crew') :
    Stopping p a settled y crew' jobs := by
  cases h with
  | begun => exact .begun
  | asked hexit => exact .asked (hkeep.asked hexit)
  | waits hsought => exact .waits (hsought.holds hkeep)
  | joins hsought hidle => exact .joins (hsought.holds hkeep) (hkeep.idle hidle).1
  | repaints hsought hidle => exact .repaints (hsought.holds hkeep) (hkeep.idle hidle).1
  | returns above hsought hidle hempty =>
      exact .returns above (hsought.holds hkeep) (hkeep.idle hidle).1 ((hkeep.idle hidle).2 hempty)
  | returned hsought hidle hempty =>
      exact .returned (hsought.holds hkeep) (hkeep.idle hidle).1 ((hkeep.idle hidle).2 hempty)

theorem finish_mem (h : Stopping p a settled x crew jobs) (hjobs : jobs ≠ []) :
    Job.at p .finish ∈ jobs := by
  cases h with
  | returned => exact absurd rfl hjobs
  | _ => simp

/-- Whatever is on top of the stop, and is not of the presentation or is a callback, is there
at its end. -/
theorem above_of_head (h : Stopping p a settled x crew (job :: jobs))
    (hjob : ∀ t, job = .at p t → t = .callback) :
    ∃ above, job :: jobs = above ++ [.at p .finish] ∧ x.Sought settled ∧ crew = none ∧
      x.lastRendered.isEmpty := by
  generalize hall : job :: jobs = all at h
  cases h with
  | returns above hsought hidle hempty => exact ⟨above, rfl, hsought, hidle, hempty⟩
  | returned => cases hall
  | _ =>
      obtain rfl := (List.cons.inj hall).1
      cases hjob _ rfl

theorem of_nil (h : Stopping p a settled x crew []) :
    x.Sought settled ∧ crew = none ∧ x.lastRendered.isEmpty := by
  generalize hnil : ([] : List (Job H)) = all at h
  cases h with
  | returned hsought hidle hempty => exact ⟨hsought, hidle, hempty⟩
  | returns above => simp at hnil
  | _ => cases hnil

theorem inspect {c : Surroundings H} {next : List (Task H)} {effects : List (Effect H)}
    (hself : c.self = a) (hexit : x.lifecycle.exitRequested)
    (hslot : x.lifecycle.thread ≠ some a)
    (hsteer : Steering c x .inspectThread y next effects) :
    Stopping p a settled y crew (next.map (.at p) ++ [.at p .repaint, .at p .finish]) := by
  cases hsteer with
  | own hown =>
      rw [hself] at hown
      exact absurd hown hslot
  | take => exact .waits ⟨hexit, fun _ => rfl⟩
  | apart hsteering => cases hsteering

theorem await {c : Surroundings H} {thread : Option ActorId} {next : List (Task H)}
    {effects : List (Effect H)} (hsought : x.Sought settled) (hrunning : x.isRunning = crew.isSome)
    (hsteer : Steering c x (.awaitStopped thread) y next effects) :
    Stopping p a settled y crew (next.map (.at p) ++ [.at p .repaint, .at p .finish]) := by
  cases hsteer with
  | stopped hstopped =>
      have hidle : crew = none :=
        Option.not_isSome_iff_eq_none.mp (by rw [← hrunning, hstopped]; simp)
      cases thread with
      | none => exact .repaints hsought hidle
      | some t => exact .joins hsought hidle
  | apart hsteering => cases hsteering

theorem join {c : Surroundings H} {thread : ActorId} {next : List (Task H)}
    {effects : List (Effect H)} (hsought : x.Sought settled) (hidle : crew = none)
    (hsteer : Steering c x (.join thread) y next effects) :
    Stopping p a settled y crew (next.map (.at p) ++ [.at p .repaint, .at p .finish]) := by
  cases hsteer with
  | joined => exact .repaints hsought hidle
  | apart hsteering => cases hsteering

theorem repaint {c : Surroundings H} {next : List (Task H)} {effects : List (Effect H)}
    (hsought : x.Sought settled) (hidle : crew = none)
    (hsteer : Steering c x .repaint y next effects) :
    Stopping p a settled y crew (next.map (.at p) ++ [.at p .finish]) := by
  have hempty := hsteer.isEmpty_of_repaint
  have hkeep : Holds settled x y crew crew := .of_steering hsteer (by simp) (by simp) crew
  exact .returns _ (hsought.holds hkeep) hidle hempty

/-- The actor does the next part of its stop, or of what is done before its end. -/
theorem own {c : Surroundings H} {task : Task H} {move : Move H}
    (h : Stopping p a settled x crew (.at p task :: jobs)) (hself : c.self = a)
    (hrunning : x.isRunning = crew.isSome) (hslot : x.lifecycle.thread ≠ some a)
    (hkeep : Holds settled x move.presentation crew crew)
    (hsteer : Steering c x task move.presentation move.next move.effects)
    (hmove : x.perform c task = .moves move) :
    Stopping p a settled move.presentation crew (move.next.map (.at p) ++ jobs) := by
  generalize hall : Job.at p task :: jobs = all at h
  cases h with
  | begun =>
      cases hall
      obtain ⟨hy, hnext⟩ := hsteer.of_requestExit
      rw [hy, hnext]
      exact .asked rfl
  | asked hexit =>
      cases hall
      exact inspect hself hexit hslot hsteer
  | waits hsought =>
      cases hall
      exact await hsought hrunning hsteer
  | joins hsought hidle =>
      cases hall
      exact join hsought hidle hsteer
  | repaints hsought hidle =>
      cases hall
      exact repaint hsought hidle hsteer
  | returned => cases hall
  | returns above hsought hidle hempty =>
      cases above with
      | nil =>
          cases hall
          cases hmove
          exact .returned hsought hidle hempty
      | cons first above =>
          have hrest : jobs = above ++ [.at p .finish] := (List.cons.inj hall).2
          rw [hrest, ← List.append_assoc]
          exact .returns _ (hsought.holds hkeep) hidle ((hkeep.idle hidle).2 hempty)

end Stopping

/-! ## Stops among other things -/

namespace Stopping

variable {m m' : Machine H} {p : Key} {a b : ActorId} {settled : Prop} {x y : Presentation H}
  {crew crew' : Crew H} {jobs base new rest : List (Job H)} {doing? : Option (ActorId × Deed H)}

theorem call (h : Stopping p a settled x crew jobs) (hjobs : jobs ≠ [])
    (hstack : m.stack a = jobs ++ base)
    (hmay : m.mayCall a) (hreplaces : m.Replaces m' p a [] new (m.stack a)) :
    ∃ jobs', m'.stack a = jobs' ++ base ∧ Stopping p a settled x crew jobs' := by
  obtain ⟨job, jobs, rfl⟩ := List.exists_cons_of_ne_nil hjobs
  -- a call can be made only when the stop has nothing more to do but to return
  have hcallback : ∀ t, job = .at p t → t = .callback := by
    rintro t rfl
    rcases Machine.stack_of_mayCall hmay with hempty | ⟨q, rest, hhead⟩
    · rw [hempty] at hstack
      cases hstack
    · rw [hhead] at hstack
      exact (Job.at.inj (List.cons.inj hstack).1).2.symm
  obtain ⟨above, habove, hsought, hidle, hempty⟩ := h.above_of_head hcallback
  refine ⟨(new ++ above) ++ [.at p .finish], ?_, .returns _ hsought hidle hempty⟩
  rw [hreplaces.after, hstack, habove]
  simp

theorem elsewhere {job : Job H} {old : List (Job H)} (h : Stopping p a settled x crew jobs)
    (hjobs : jobs ≠ []) (hstack : m.stack a = jobs ++ base) (hold : ∀ t, Job.at p t ∉ job :: old)
    (hreplaces : m.Replaces m' p a (job :: old) new rest) :
    ∃ jobs', m'.stack a = jobs' ++ base ∧ Stopping p a settled x crew jobs' := by
  obtain ⟨first, jobs, rfl⟩ := List.exists_cons_of_ne_nil hjobs
  have hbefore := hreplaces.before
  rw [hstack] at hbefore
  obtain rfl : first = job := (List.cons.inj hbefore).1
  have hother : ∀ t, first = .at p t → t = .callback := by
    rintro t rfl
    exact absurd List.mem_cons_self (hold t)
  obtain ⟨above, habove, hsought, hidle, hempty⟩ := h.above_of_head hother
  have hfinish : Job.at p .finish ∉ first :: old := hold .finish
  rw [habove, List.append_assoc] at hbefore
  -- what is replaced is of something else, so it ends above the end of the stop
  have hrest : ∃ more, rest = more ++ [.at p .finish] ++ base := by
    rcases List.append_eq_append_iff.mp hbefore with ⟨more, hmore, hbase⟩ | ⟨more, -, hbase⟩
    · cases more with
      | nil => exact ⟨[], by simpa using hbase.symm⟩
      | cons next more =>
          obtain rfl : Job.at p .finish = next := (List.cons.inj hbase).1
          exact absurd (by rw [hmore]; simp) hfinish
    · exact ⟨more, by simpa using hbase⟩
  obtain ⟨more, hrest⟩ := hrest
  refine ⟨(new ++ more) ++ [.at p .finish], ?_, .returns _ hsought hidle hempty⟩
  rw [hreplaces.after, hrest]
  simp

/-- As long as no thread is started, a stop goes on to its end whatever else happens. -/
theorem turn (h : Stopping p a settled x crew jobs) (hjobs : jobs ≠ [])
    (hstack : m.stack a = jobs ++ base)
    (hcrew : Crewed m p crew) (hslotted : Slotted m p crew) (hforeign : ∀ s, crew ≠ some (a, s))
    (hx : m.presentations[p]? = some x) (hy : m'.presentations[p]? = some y)
    (hturn : Turn m m' p crew doing? crew')
    (hunstarted : ∀ b x effects, doing? = some (b, ⟨x, .start, effects⟩) → x.isRunning)
    (hkept : settled → ∀ b x effects thread, doing? ≠ some (b, ⟨x, .keepThread thread, effects⟩)) :
    ∃ jobs', m'.stack a = jobs' ++ base ∧ Stopping p a settled y crew' jobs' := by
  have hnonempty : m.stack a ≠ [] := by simp [hstack, hjobs]
  cases hturn with
  | arrival hstacks hsame =>
      obtain rfl := Option.some.inj (hx.symm.trans (hsame ▸ hy))
      exact ⟨jobs, by rw [hstacks a, hstack], h⟩
  | @call b new hmay hplan hreplaces hsame =>
      obtain rfl := Option.some.inj (hx.symm.trans (hsame ▸ hy))
      by_cases hb : a = b
      · subst hb
        exact h.call hjobs hstack hmay hreplaces
      · exact ⟨jobs, by rw [hreplaces.stack_eq hb hnonempty, hstack], h⟩
  | @elsewhere b job old new rest hreplaces hold hplan hpres =>
      rcases hpres with hsame | ⟨hnone, -⟩
      · obtain rfl := Option.some.inj (hx.symm.trans (hsame ▸ hy))
        by_cases hb : a = b
        · subst hb
          refine h.elsewhere hjobs hstack (fun t hmem => ?_) hreplaces
          rw [hold t hmem] at hx
          cases hx
        · exact ⟨jobs, by rw [hreplaces.stack_eq hb hnonempty, hstack], h⟩
      · rw [hnone] at hx
        cases hx
  | @aside b answers task rest x' move hx' hy' hfree hstart hmove hreplaces =>
      obtain rfl := Option.some.inj (hx.symm.trans hx')
      obtain rfl := Option.some.inj (hy.symm.trans hy')
      have hsteer := Presentation.perform_steering hfree hstart move hmove
      have hkeep : Holds settled x move.presentation crew crew := by
        refine .of_steering hsteer ?_ (fun hsettled thread => ?_) crew
        · rintro rfl
          exact hunstarted b x move.effects rfl
        · rintro rfl
          exact hkept hsettled b x move.effects thread rfl
      by_cases hb : a = b
      · subst hb
        obtain ⟨first, jobs, rfl⟩ := List.exists_cons_of_ne_nil hjobs
        have hbefore := hreplaces.before
        rw [hstack] at hbefore
        obtain rfl : first = .at p task := (List.cons.inj hbefore).1
        have hrest : rest = jobs ++ base := (List.cons.inj hbefore).2.symm
        have hslot := hslotted.thread_ne hx hnonempty hforeign
        refine ⟨move.next.map (.at p) ++ jobs, ?_,
          h.own rfl (hcrew.running x hx) hslot hkeep hsteer hmove⟩
        rw [hreplaces.after, hrest, List.append_assoc]
      · exact ⟨jobs, by rw [hreplaces.stack_eq hb hnonempty, hstack], h.holds hkeep⟩
  | @start b _ rest x' _ _ _ hlaunches =>
      have hidle := (Presentation.launches_iff.mp hlaunches).2.1
      rw [hunstarted b x' [] rfl] at hidle
      cases hidle
  | @duty b answers s x' y' effects s? hcrew' hx' hy' hadv hreplaces =>
      obtain rfl := Option.some.inj (hx.symm.trans hx')
      obtain rfl := Option.some.inj (hy.symm.trans hy')
      have hb : a ≠ b := fun heq => hforeign s (heq ▸ hcrew')
      have hkeep : Holds settled x y crew (s?.map (b, ·)) := by
        refine ⟨fun hexit => ?_, fun _ => .inl hadv.thread_eq, fun hidle => ?_⟩
        · rw [hadv.exitRequested_eq]
          exact hexit
        · rw [hcrew'] at hidle
          cases hidle
      exact ⟨jobs, by rw [hreplaces.stack_eq hb hnonempty, hstack], h.holds hkeep⟩

end Stopping

/-! ## What others may do meanwhile -/

def Task.isDrainTick : Task H → Bool
  | .playback .draining => true
  | _ => false

def Task.isDrainSink : Task H → Bool
  | .drainSink => true
  | _ => false

namespace Transition

/-- The presentation is fed, ended, configured, emptied or started, or it loses a stream. Whoever
comes to the end of a start starts the presentation, too. -/
def disturbs (t : Transition H) (p : Key) : Bool :=
  (t.doing? p).any fun (_, deed) => deed.task.interferes || deed.task.removes

/-- The thread plays out what is left, or finds that nothing is. -/
def drains (t : Transition H) (p : Key) : Bool :=
  (t.doing? p).any fun (_, deed) => deed.task.isDrainTick

/-- It is not so late that a deadline for the sink could not be represented. -/
def timely (t : Transition H) : Bool :=
  match t.action with
  | .step _ answers => (answers.clock.add? t.before.config.audioDrainTimeout).isSome
  | _ => true

/-- It is too late for a deadline when the thread comes to wait for the sink, and the thread
breaks off. -/
def breaksOff (t : Transition H) (p : Key) : Bool :=
  (t.doing? p).any (fun (_, deed) => deed.task.isDrainSink) && !t.timely

theorem stack_of_drainSink {m : Machine H} {action : Action H} {progress : Progress H} {p : Key}
    {b : ActorId} {x : Presentation H} {effects : List (Effect H)}
    (hplay : m.play action = some progress) (htimely : timely ⟨m, action, progress⟩)
    (hdoing : doing? p ⟨m, action, progress⟩ = some (b, ⟨x, .drainSink, effects⟩)) :
    ∃ deadline rest, progress.machine.stack b = .at p (.pollSink deadline 0) :: rest := by
  obtain ⟨answers, rest, rfl, hstack, -, hperform⟩ := perform_of_doing hplay hdoing
  obtain ⟨deadline, hdeadline⟩ := Option.isSome_iff_exists.mp htimely
  simp only [Presentation.perform, Machine.surroundings, hdeadline, Presentation.going] at hperform
  obtain ⟨rfl, -⟩ := Outcome.of_moves hperform rfl
  exact ⟨deadline, rest, Machine.stack_after_self (Machine.lt_of_stack hstack)⟩

/-- A thread that comes to wait for the sink goes on to ask it, unless it breaks off. -/
theorem stack_of_whole {m : Machine H} {action : Action H} {progress : Progress H} {p : Key}
    (hplay : m.play action = some progress) (hwhole : breaksOff ⟨m, action, progress⟩ p = false) :
    ∀ b x effects, doing? p ⟨m, action, progress⟩ = some (b, ⟨x, .drainSink, effects⟩) →
      ∃ deadline rest, progress.machine.stack b = .at p (.pollSink deadline 0) :: rest := by
  intro b x effects hdoing
  refine stack_of_drainSink hplay ?_ hdoing
  simpa [breaksOff, hdoing, Task.isDrainSink] using hwhole

end Transition

/-- A thread of the presentation has broken off. -/
def Run.brokeOff (r : Run H) (p : Key) : Bool :=
  r.trace.any (·.breaksOff p)

theorem Run.brokeOff_extend {r : Run H} {p : Key} {action : Action H} {progress : Progress H} :
    (r.extend action progress).brokeOff p = false ↔
      r.brokeOff p = false ∧ Transition.breaksOff ⟨r.final, action, progress⟩ p = false := by
  simp [brokeOff, extend]

namespace Turn

variable {m m' : Machine H} {p : Key} {x y : Presentation H} {crew crew' : Crew H}
  {doing? : Option (ActorId × Deed H)}

theorem delivers (h : Turn m m' p crew doing? crew') (hx : m.presentations[p]? = some x)
    (hy : m'.presentations[p]? = some y) (halive : m.alive p)
    (hspared : ∀ b deed, doing? = some (b, deed) →
      deed.task.interferes = false ∧ deed.task.removes = false) :
    Delivers x crew.standing ((doing?.map (·.2.effects)).getD []) y crew'.standing := by
  cases doing? with
  | none =>
      obtain ⟨hsame, rfl⟩ := h.still hx
      obtain rfl := Option.some.inj (hy.symm.trans hsame)
      exact .refl _ _
  | some doing =>
      cases h with
      | @aside b answers task rest x' move hx' hy' hfree hstart hmove =>
          obtain rfl := Option.some.inj (hx.symm.trans hx')
          obtain rfl := Option.some.inj (hy.symm.trans hy')
          obtain ⟨hinterferes, hremoves⟩ := hspared _ _ rfl
          exact .of_aside hfree hinterferes hremoves halive hmove
      | start =>
          obtain ⟨hnot, -⟩ := hspared _ _ rfl
          cases hnot
      | @duty b answers s x' y' effects s? hcrew' hx' hy' hadv =>
          obtain rfl := Option.some.inj (hx.symm.trans hx')
          obtain rfl := Option.some.inj (hy.symm.trans hy')
          rw [Crew.standing_map, hcrew']
          exact .of_advance hadv

/-- A thread that does not break off ends when it has nothing left to do but to show that it has. -/
theorem ending (h : Turn m m' p crew doing? crew') {a : ActorId} {s : Standing H}
    (hcrew : crew = some (a, s)) (hcrew' : crew' = none)
    (htimely : ∀ b x effects, doing? = some (b, ⟨x, .drainSink, effects⟩) →
      ∃ deadline rest, m'.stack b = .at p (.pollSink deadline 0) :: rest) : s = .at .ending := by
  cases h with
  | start => cases hcrew'
  | @duty b answers s x y effects s? hown hx hy hadv hreplaces =>
      obtain ⟨rfl, rfl⟩ := Prod.mk.inj (Option.some.inj (hown.symm.trans hcrew))
      obtain rfl : s? = none := by simpa using hcrew'
      obtain ⟨-, rfl | rfl⟩ := hadv.end_cases
      · rfl
      · -- the thread would have gone on to ask the sink
        obtain ⟨deadline, rest, hpoll⟩ := htimely b x effects rfl
        have hhead : Job.at p (.pollSink deadline 0) ∈ m'.stack b := by
          rw [hpoll]
          exact List.mem_cons_self
        rw [hreplaces.after] at hhead
        cases hhead
  | _ =>
      rw [hcrew] at hcrew'
      cases hcrew'

/-- Without a thread a presentation has no sink, unless its thread has broken off. -/
theorem unbound (h : Turn m m' p crew doing? crew') (hx : m.presentations[p]? = some x)
    (hy : m'.presentations[p]? = some y) (hmanned : Manned x crew)
    (hunbound : crew = none → x.sink = none)
    (htimely : ∀ b x effects, doing? = some (b, ⟨x, .drainSink, effects⟩) →
      ∃ deadline rest, m'.stack b = .at p (.pollSink deadline 0) :: rest)
    (hcrew' : crew' = none) : y.sink = none := by
  cases doing? with
  | none =>
      obtain ⟨hsame, rfl⟩ := h.still hx
      obtain rfl := Option.some.inj (hy.symm.trans hsame)
      exact hunbound hcrew'
  | some doing =>
      have hends : ∀ a s, crew = some (a, s) → s = .at .ending := fun _ _ hcrew =>
        h.ending hcrew hcrew' htimely
      cases h with
      | @aside b answers task rest x' move hx' hy' hfree hstart hmove =>
          obtain rfl := Option.some.inj (hx.symm.trans hx')
          obtain rfl := Option.some.inj (hy.symm.trans hy')
          rcases (Presentation.perform_steering hfree hstart move hmove).sink_cases with
            hkeeps | hnone
          · exact hkeeps.trans (hunbound hcrew')
          · exact hnone
      | start => cases hcrew'
      | @duty b answers s x' y' effects s? hcrew hx' hy' hadv =>
          obtain rfl := Option.some.inj (hx.symm.trans hx')
          obtain rfl := Option.some.inj (hy.symm.trans hy')
          obtain rfl : s? = none := by simpa using hcrew'
          obtain rfl := hends b s hcrew
          rw [hadv.end_cases.1]
          exact hmanned.unbound (by rw [hcrew]; rfl)

theorem stopped (h : Turn m m' p crew doing? crew') (hx : m.presentations[p]? = some x)
    (hy : m'.presentations[p]? = some y) (hstopped : crew = none → x.state = .stopped)
    (hcrew' : crew' = none) : y.state = .stopped := by
  cases doing? with
  | none =>
      obtain ⟨hsame, rfl⟩ := h.still hx
      obtain rfl := Option.some.inj (hy.symm.trans hsame)
      exact hstopped hcrew'
  | some doing =>
      cases h with
      | @aside b answers task rest x' move hx' hy' hfree hstart hmove =>
          obtain rfl := Option.some.inj (hx.symm.trans hx')
          obtain rfl := Option.some.inj (hy.symm.trans hy')
          have haside := Aside.of_moves (hmove ▸ Presentation.perform_aside hfree hstart)
          exact haside.1.trans (hstopped hcrew')
      | start => cases hcrew'
      | @duty b answers s x' y' effects s? hcrew hx' hy' hadv =>
          obtain rfl := Option.some.inj (hx.symm.trans hx')
          obtain rfl := Option.some.inj (hy.symm.trans hy')
          obtain rfl : s? = none := by simpa using hcrew'
          rw [hadv.end_cases.1]
          rfl

theorem foreign {a : ActorId} (h : Turn m m' p crew doing? crew')
    (hforeign : ∀ s, crew ≠ some (a, s))
    (hunstarted : ∀ b x effects, doing? = some (b, ⟨x, .start, effects⟩) → x.isRunning) :
    ∀ s, crew' ≠ some (a, s) := by
  cases h with
  | @start b _ rest x _ _ _ hlaunches =>
      have hidle := (Presentation.launches_iff.mp hlaunches).2.1
      rw [hunstarted b x [] rfl] at hidle
      cases hidle
  | @duty b answers s x y effects s? hcrew =>
      intro s' heq
      cases s? with
      | none => cases heq
      | some s'' =>
          cases heq
          exact hforeign s hcrew
  | _ => exact hforeign

theorem unmanned (h : Turn m m' p crew doing? crew') (hnone : crew = none)
    (hunstarted : ∀ b x effects, doing? = some (b, ⟨x, .start, effects⟩) → x.isRunning) :
    crew' = none := by
  cases h with
  | @start a _ rest x _ _ _ hlaunches =>
      have hidle := (Presentation.launches_iff.mp hlaunches).2.1
      rw [hunstarted a x [] rfl] at hidle
      cases hidle
  | duty hcrew =>
      rw [hnone] at hcrew
      cases hcrew
  | _ => exact hnone

/-- Only a thread that plays out what is left releases without regard to the others. -/
theorem playsOut_of_isDrainTick {b : ActorId} {deed : Deed H} (h : Turn m m' p crew doing? crew')
    (hdoing : doing? = some (b, deed)) (htick : deed.task.isDrainTick) (eos : Bool) :
    crew.standing.any (·.phase.playsOut eos) := by
  cases h with
  | @aside b answers task rest x move _ _ hfree =>
      cases hdoing
      cases task <;> simp_all [Task.isDrainTick, Task.isDuty]
  | start =>
      cases hdoing
      cases htick
  | @duty b answers s x y effects s? hcrew =>
      cases hdoing
      obtain rfl : s = .at .draining := by
        cases s with
        | «at» phase => cases phase <;> first | rfl | cases htick
        | _ => cases htick
      rw [hcrew]
      rfl
  | _ => cases hdoing

end Turn

end Playout
