import Playout.Proofs.Playback.Steering

/-!
# Starts in progress

Whoever launches a thread keeps the state locked until the thread is in its slot. At most one actor
is in the middle of a start of a presentation; it puts the presentation's thread into the slot
before it does anything else, and nobody changes the playback state before that. Until then the slot
may still hold an earlier thread.
-/

namespace Playout

variable {H : Platform}

/-! ## Tasks that nothing precedes -/

namespace Task

def isSequel : Task H → Bool
  | .keepThread _ => true
  | .awaitStopped _ => true
  | _ => false

variable {t : Task H}

theorem isSteering_of_isSequel (h : t.isSequel) : t.isSteering := by
  cases t <;> simp_all [isSequel, isSteering]

theorem isPlanned_of_isSequel (h : t.isSequel) : t.isPlanned = false := by
  cases t <;> simp_all [isSequel, isPlanned]

end Task

theorem Plan.not_mem_of_isSequel {p : Key} {jobs : List (Job H)} {t : Task H} (h : Plan p jobs)
    (ht : t.isSequel) : Job.at p t ∉ jobs := by
  intro hmem
  have hnot := Task.isPlanned_of_isSequel ht
  rw [h.planned t hmem] at hnot
  cases hnot

/-- What a thread does neither brings nor ends a part of a start or a stop. -/
theorem Machine.Replaces.mem_iff_of_duty {m m' : Machine H} {p : Key} {a : ActorId} {t : Task H}
    {x : Presentation H} {s : Standing H} {s? : Option (Standing H)}
    (h : m.Replaces m' p a ((Standing.duties (some s)).map (.at p))
      ((s.interludes x ++ Standing.duties s?).map (.at p)) []) (ht : t.isSteering) (b : ActorId) :
    Job.at p t ∈ m'.stack b ↔ Job.at p t ∈ m.stack b :=
  h.mem_iff (by simpa using Standing.not_mem_duties ht (some s))
    (by simpa using Standing.not_mem ht x s s?) b

namespace Steering

variable {c : Surroundings H} {x y : Presentation H} {task t : Task H} {next : List (Task H)}
  {effects : List (Effect H)}

theorem not_mem_tail (h : Steering c x task y next effects) (ht : t.isSequel) : t ∉ next.tail := by
  cases h with
  | stopped =>
      intro hmem
      obtain ⟨thread, -, rfl⟩ := List.mem_map.mp (List.mem_of_mem_tail hmem)
      cases ht
  | apart _ _ _ _ _ hnext =>
      intro hmem
      have hsteering := Task.isSteering_of_isSequel ht
      rw [(hnext t (List.mem_of_mem_tail hmem)).1] at hsteering
      cases hsteering
  | _ => simp

/-- Only a launch leaves a thread to be put into the slot. -/
theorem keepThread_not_mem (h : Steering c x task y next effects) (thread : ActorId) :
    Task.keepThread thread ∉ next := by
  cases h with
  | apart _ _ _ _ _ hnext => exact fun hmem => by simpa [Task.isSteering] using (hnext _ hmem).1
  | stopped => simp
  | _ => simp

/-- The state is unlocked when the thread is in its slot. -/
theorem starter_cases (h : Steering c x task y next effects) :
    (∃ thread, task = .keepThread thread ∧ y.lifecycle.starter = none) ∨
      (∀ thread, task ≠ .keepThread thread) ∧ y.lifecycle.starter = x.lifecycle.starter := by
  cases h with
  | keep => exact .inl ⟨_, rfl, rfl⟩
  | apart hsteering _ hlifecycle =>
      refine .inr ⟨?_, by rw [hlifecycle]⟩
      rintro thread rfl
      cases hsteering
  | _ => exact .inr ⟨by simp, rfl⟩

end Steering

namespace Advance

variable {c : Surroundings H} {x y : Presentation H} {s : Standing H} {effects : List (Effect H)}
  {s? : Option (Standing H)}

theorem starter_eq (h : Advance c x s y effects s?) :
    y.lifecycle.starter = x.lifecycle.starter := by
  cases h with
  | frame => rw [Presentation.beginFrame_snd]
  | _ => rfl

/-- A thread that ends has waited for the end of the start. -/
theorem starter_eq_none (h : Advance c x s y effects none) : x.lifecycle.starter = none := by
  have hnone : ∀ {starter : Option ActorId}, starter.isSome = false → starter = none := by simp
  cases h with
  | finish hstarting => exact hnone hstarting
  | overflow _ hstarting => exact hnone hstarting

end Advance

/-- Nothing precedes a task that takes the place of another. -/
def Foremost (m : Machine H) (p : Key) : Prop :=
  ∀ b (t : Task H), t.isSequel → Job.at p t ∉ (m.stack b).tail

namespace Foremost

variable {m m' : Machine H} {p : Key} {a b : ActorId} {crew crew' : Crew H} {t : Task H}
  {doing? : Option (ActorId × Deed H)} {old new rest : List (Job H)}

theorem head (h : Foremost m p) (hmem : Job.at p t ∈ m.stack b) (ht : t.isSequel) :
    ∃ rest, m.stack b = .at p t :: rest := by
  cases hstack : m.stack b with
  | nil => simp [hstack] at hmem
  | cons job jobs =>
      rw [hstack] at hmem
      rcases List.mem_cons.mp hmem with rfl | htail
      · exact ⟨jobs, rfl⟩
      · exact absurd htail (by simpa [hstack] using h b t ht)

theorem replace (h : Foremost m p) (hreplaces : m.Replaces m' p a old new rest)
    (hnew : ∀ t : Task H, t.isSequel → Job.at p t ∉ new.tail)
    (hrest : ∀ t : Task H, t.isSequel → Job.at p t ∉ rest) : Foremost m' p := by
  intro b t ht hmem
  by_cases hb : b = a
  · subst hb
    rw [hreplaces.after] at hmem
    cases new with
    | nil => exact hrest t ht (List.mem_of_mem_tail hmem)
    | cons job jobs =>
        rcases List.mem_append.mp hmem with hmem | hmem
        · exact hnew t ht hmem
        · exact hrest t ht hmem
  · rcases hreplaces.others b hb with hsame | ⟨-, hnone⟩
    · exact h b t ht (hsame ▸ hmem)
    · exact hnone _ (List.mem_of_mem_tail hmem)

theorem rest_not_mem {job : Job H} (h : Foremost m p) (hstack : m.stack a = job :: old ++ rest)
    (ht : t.isSequel) :
    Job.at p t ∉ rest := by
  intro hmem
  refine h a t ht ?_
  rw [hstack]
  exact List.mem_append_right old hmem

theorem turn (h : Foremost m p) (hturn : Turn m m' p crew doing? crew') : Foremost m' p := by
  -- such a task comes in place of one that was on top
  cases hturn with
  | arrival hstacks =>
      intro b t ht
      rw [hstacks b]
      exact h b t ht
  | @call a jobs hmay hplan hreplaces =>
      refine h.replace hreplaces
        (fun t ht hmem => hplan.not_mem_of_isSequel ht (List.mem_of_mem_tail hmem)) ?_
      intro t ht hmem
      rcases Machine.stack_of_mayCall hmay with hempty | ⟨q, rest, hstack⟩
      · simp [hempty] at hmem
      · rw [hstack] at hmem
        have htail := h a t ht
        rcases List.mem_cons.mp hmem with heq | hrest
        · rw [(Job.at.inj heq).2] at ht
          cases ht
        · exact htail (by rwa [hstack])
  | elsewhere hreplaces hold hplan =>
      exact h.replace hreplaces
        (fun t ht hmem => hplan.not_mem_of_isSequel ht (List.mem_of_mem_tail hmem))
        fun t ht => h.rest_not_mem hreplaces.before ht
  | aside hx hx' hfree hstart hmove hreplaces =>
      have hsteer := Presentation.perform_steering hfree hstart _ hmove
      refine h.replace hreplaces (fun t ht hmem => ?_) fun t ht =>
        h.rest_not_mem hreplaces.before ht
      rw [← List.map_tail] at hmem
      obtain ⟨u, hu, heq⟩ := List.mem_map.mp hmem
      exact hsteer.not_mem_tail ht ((Job.at.inj heq).2 ▸ hu)
  | @start a _ rest x _ _ _ _ hstack hstack' _ hbody hothers =>
      intro b t ht hmem
      by_cases hnew : b = m.actors.length
      · subst hnew
        rw [hbody, Task.body, List.map_cons, List.tail_cons, List.map_singleton,
          List.mem_singleton] at hmem
        rw [(Job.at.inj hmem).2] at ht
        cases ht
      · by_cases hb : b = a
        · subst hb
          rw [hstack'] at hmem
          refine h b t ht ?_
          rw [hstack]
          exact hmem
        · exact h b t ht (hothers b hb hnew ▸ hmem)
  | duty _ _ _ _ hreplaces =>
      refine h.replace hreplaces (fun t ht hmem => ?_) fun _ _ => List.not_mem_nil
      exact Standing.not_mem (Task.isSteering_of_isSequel ht) _ _ _
        (by simpa using List.mem_of_mem_tail hmem)

end Foremost

/-! ## The state under lock -/

def Machine.starter? (m : Machine H) (p : Key) : Option ActorId :=
  m.presentations[p]?.bind (·.lifecycle.starter)

/-- Whoever is in the middle of a start has yet to put the presentation's thread into the slot, and
nobody else has anything to put there. -/
structure Launching (m : Machine H) (p : Key) (crew : Crew H) : Prop where
  holds : ∀ b, m.starter? p = some b → ∃ thread, Job.at p (.keepThread thread) ∈ m.stack b
  locks : ∀ b thread, Job.at p (.keepThread thread) ∈ m.stack b →
    m.starter? p = some b ∧ b ≠ thread ∧ ∃ s, crew = some (thread, s)

namespace Launching

variable {m m' : Machine H} {p : Key} {a b : ActorId} {crew crew' : Crew H}
  {doing? : Option (ActorId × Deed H)}
  {thread : ActorId}

theorem congr (h : Launching m p crew) (hstarter : m'.starter? p = m.starter? p)
    (hkeeps : ∀ b thread, Job.at p (.keepThread thread) ∈ m'.stack b ↔
      Job.at p (.keepThread thread) ∈ m.stack b) :
    Launching m' p crew where
  holds b hb := by
    obtain ⟨thread, hmem⟩ := h.holds b (hstarter ▸ hb)
    exact ⟨thread, (hkeeps b thread).mpr hmem⟩
  locks b thread hmem := by
    rw [hstarter]
    exact h.locks b thread ((hkeeps b thread).mp hmem)

theorem starter?_eq {x : Presentation H} (hx : m.presentations[p]? = some x) :
    m.starter? p = x.lifecycle.starter := by
  rw [Machine.starter?, hx]
  rfl

/-- Nobody has a thread to put into the slot unless the state is locked. -/
theorem not_mem (h : Launching m p crew) (hnone : m.starter? p = none) (b thread : ActorId) :
    Job.at p (.keepThread thread) ∉ m.stack b := by
  intro hmem
  cases hnone.symm.trans (h.locks b thread hmem).1

theorem turn (h : Launching m p crew) (hforemost : Foremost m p)
    (hturn : Turn m m' p crew doing? crew') : Launching m' p crew' := by
  cases hturn with
  | arrival hstacks hsame =>
      exact h.congr (by rw [Machine.starter?, hsame]; rfl) fun b thread => by rw [hstacks b]
  | call _ hplan hreplaces hsame =>
      exact h.congr (by rw [Machine.starter?, hsame]; rfl) fun b thread =>
        hreplaces.mem_iff (by simp) (hplan.not_mem_of_isSequel rfl) b
  | @elsewhere a job old new rest hreplaces hold hplan hpres =>
      have hkeeps : ∀ b thread,
          Job.at p (.keepThread thread) ∈ m'.stack b ↔
            Job.at p (.keepThread thread) ∈ m.stack b := by
        refine fun b thread =>
          hreplaces.mem_iff (fun hmem => ?_) (hplan.not_mem_of_isSequel rfl) b
        -- there would be a presentation that is being started
        have hbefore : Job.at p (.keepThread thread) ∈ m.stack a := by
          rw [hreplaces.before]
          exact List.mem_append_left _ hmem
        have hstarter := (h.locks a thread hbefore).1
        rw [Machine.starter?, hold _ hmem] at hstarter
        cases hstarter
      refine h.congr ?_ hkeeps
      rcases hpres with hsame | ⟨hnone, id, hnew⟩
      · rw [Machine.starter?, hsame]
        rfl
      · rw [Machine.starter?, Machine.starter?, hnew, hnone]
        rfl
  | @aside a answers task rest x move hx hx' hfree hstart hmove hreplaces =>
      have hsteer := Presentation.perform_steering hfree hstart move hmove
      have hnext : ∀ thread, Job.at p (.keepThread thread) ∉ move.next.map (Job.at p) :=
        fun thread hmem => hsteer.keepThread_not_mem thread (by simpa using hmem)
      rcases hsteer.starter_cases with ⟨thread, rfl, hnone⟩ | ⟨hother, hsame⟩
      · have hlocks := h.locks a thread (by rw [hreplaces.before]; exact List.mem_cons_self)
        rw [← starter?_eq hx'] at hnone
        refine ⟨fun b hb => by simp [hnone] at hb, fun b other hmem => ?_⟩
        -- whoever else had a thread to put there would be the same actor, which has only this one
        -- on top
        rcases hreplaces.mem_cases hmem with hbefore | hnew
        · obtain rfl : a = b :=
            Option.some.inj (hlocks.1.symm.trans (h.locks b other hbefore).1)
          rw [hreplaces.after] at hmem
          rcases List.mem_append.mp hmem with hnew | hrest
          · exact absurd hnew (hnext other)
          · exact absurd hrest
              (hforemost.rest_not_mem (t := .keepThread other) hreplaces.before rfl)
        · exact absurd hnew (hnext other)
      · refine h.congr ?_ fun b thread => hreplaces.mem_iff ?_ (hnext thread) b
        · rw [starter?_eq hx', starter?_eq hx, hsame]
        · simpa using fun heq => hother thread heq.symm
  | @start a _ rest x hnone hx hx' hlaunches hstack hstack' hempty hbody hothers =>
      have hstarting := (Presentation.launches_iff.mp hlaunches).1
      have hunlocked : m.starter? p = none := by
        rw [starter?_eq hx]
        simpa [Presentation.isStarting] using hstarting
      have hlocked : m'.starter? p = some a := starter?_eq hx'
      refine ⟨fun b hb => ?_, fun b thread hmem => ?_⟩
      · obtain rfl : a = b := Option.some.inj (hlocked.symm.trans hb)
        exact ⟨m.actors.length, by rw [hstack']; exact List.mem_cons_self⟩
      · by_cases hnew : b = m.actors.length
        · subst hnew
          simp [hbody, Task.body] at hmem
        · by_cases hb : b = a
          · subst hb
            rw [hstack'] at hmem
            rcases List.mem_cons.mp hmem with heq | hrest
            · obtain rfl := Task.keepThread.inj (Job.at.inj heq).2
              exact ⟨hlocked, hnew, _, rfl⟩
            · exact absurd (hstack ▸ List.mem_cons_of_mem _ hrest) (h.not_mem hunlocked b thread)
          · exact absurd (hothers b hb hnew ▸ hmem) (h.not_mem hunlocked b thread)
  | @duty a answers s x y effects s? hcrew₀ hx hx' hadv hreplaces =>
      have hkeeps : ∀ b thread,
          Job.at p (.keepThread thread) ∈ m'.stack b ↔
            Job.at p (.keepThread thread) ∈ m.stack b :=
        fun b _ => hreplaces.mem_iff_of_duty rfl b
      have hstarter : m'.starter? p = m.starter? p := by
        rw [starter?_eq hx', starter?_eq hx, hadv.starter_eq]
      obtain ⟨hholds, hlocks⟩ := h.congr hstarter hkeeps
      refine ⟨hholds, fun b thread hmem => ?_⟩
      obtain ⟨hlocked, hne, s', hs'⟩ := hlocks b thread hmem
      obtain ⟨rfl, -⟩ := Prod.mk.inj (Option.some.inj (hcrew₀.symm.trans hs'))
      refine ⟨hlocked, hne, ?_⟩
      cases s? with
      | some next => exact ⟨next, rfl⟩
      | none =>
          rw [hstarter, starter?_eq hx, hadv.starter_eq_none] at hlocked
          cases hlocked

end Launching

/-! ## The slot -/

/-- What a task does to the slot. The end of a start fills it. Only a look at it leaves a wait
behind, and what is in the slot is taken then. -/
theorem Steering.wait_cases {c : Surroundings H} {x y : Presentation H} {task : Task H}
    {next : List (Task H)} {effects : List (Effect H)} (h : Steering c x task y next effects) :
    ((∃ thread, task = .keepThread thread ∧ y.lifecycle.thread = some thread) ∨
        y.lifecycle.thread = x.lifecycle.thread ∧ ∀ thread, task ≠ .keepThread thread) ∧
        (∀ thread, Task.awaitStopped thread ∉ next) ∨
      task = .inspectThread ∧ y.lifecycle.thread = none ∧ x.lifecycle.thread ≠ some c.self ∧
        next = [.awaitStopped x.lifecycle.thread] := by
  cases h with
  | keep => exact .inl ⟨.inl ⟨_, rfl, rfl⟩, by simp⟩
  | take hother => exact .inr ⟨rfl, rfl, hother, rfl⟩
  | apart hsteering _ hlifecycle _ _ hnext =>
      refine .inl ⟨.inr ⟨by rw [hlifecycle], ?_⟩, fun thread hmem => ?_⟩
      · rintro thread rfl
        cases hsteering
      · simpa [Task.isSteering] using (hnext _ hmem).1
  | _ => exact .inl ⟨.inr ⟨rfl, by simp⟩, by simp⟩

theorem Advance.thread_eq {c : Surroundings H} {x y : Presentation H} {s : Standing H}
    {effects : List (Effect H)} {s? : Option (Standing H)} (h : Advance c x s y effects s?) :
    y.lifecycle.thread = x.lifecycle.thread := by
  cases h with
  | frame => rw [Presentation.beginFrame_snd]
  | _ => rfl

/-- A thread has ended when it has shown that it has, or when it has broken off. -/
theorem Advance.end_cases {c : Surroundings H} {x y : Presentation H} {s : Standing H}
    {effects : List (Effect H)} (h : Advance c x s y effects none) :
    y = x.enter .stopped ∧ (s = .at .ending ∨ s = .drainingSink) := by
  cases h with
  | finish => exact ⟨rfl, .inl rfl⟩
  | overflow => exact ⟨rfl, .inr rfl⟩

namespace Machine

def isThread (m : Machine H) (a : ActorId) : Prop :=
  ∃ p jobs, m.actors[a]? = some ⟨.playback p, jobs⟩

def HasLeft (m : Machine H) (a : ActorId) : Prop :=
  ∃ p, m.actors[a]? = some ⟨.playback p, []⟩

variable {m : Machine H} {a : ActorId} {action : Action H} {progress : Progress H}

theorem isThread.play (h : m.isThread a) (hplay : m.play action = some progress) :
    progress.machine.isThread a := by
  obtain ⟨p, jobs, ha⟩ := h
  obtain ⟨jobs', ha', -⟩ := thread_play hplay ha
  exact ⟨p, jobs', ha'⟩

theorem isThread.hasLeft (h : m.isThread a) (hstack : m.stack a = []) : m.HasLeft a := by
  obtain ⟨p, jobs, ha⟩ := h
  obtain rfl : jobs = [] := by simpa [stack, ha] using hstack
  exact ⟨p, ha⟩

theorem HasLeft.play (h : m.HasLeft a) (hplay : m.play action = some progress) :
    progress.machine.HasLeft a := by
  obtain ⟨p, ha⟩ := h
  obtain ⟨jobs', ha', hnone⟩ := thread_play hplay ha
  exact ⟨p, hnone rfl ▸ ha'⟩

theorem HasLeft.stack_eq (h : m.HasLeft a) : m.stack a = [] := by
  obtain ⟨p, ha⟩ := h
  rw [stack, ha]
  rfl

end Machine

/-- Whoever is in the slot is the presentation's thread, or was it and has ended. -/
structure Slotted (m : Machine H) (p : Key) (crew : Crew H) : Prop where
  foremost : Foremost m p
  launching : Launching m p crew
  thread : ∀ t s, crew = some (t, s) → m.isThread t
  slot : ∀ x t, m.presentations[p]? = some x → x.lifecycle.thread = some t →
    (∃ s, crew = some (t, s)) ∨ m.HasLeft t

namespace Slotted

variable {m : Machine H} {p : Key} {a : ActorId} {crew crew' : Crew H} {action : Action H}
  {progress : Progress H} {x : Presentation H}

/-- Who has something to do and is not the thread is not in the slot. -/
theorem thread_ne (h : Slotted m p crew) (hx : m.presentations[p]? = some x)
    (hbusy : m.stack a ≠ []) (hother : ∀ s, crew ≠ some (a, s)) : x.lifecycle.thread ≠ some a := by
  intro hslot
  rcases h.slot x a hx hslot with ⟨s, hs⟩ | hleft
  · exact hother s hs
  · exact hbusy hleft.stack_eq

theorem isThread_of_launch (hplay : m.play action = some progress)
    (hdoing : Transition.doing? p ⟨m, action, progress⟩ = some (a, ⟨x, .start, []⟩))
    (hgrown : progress.machine.stack m.actors.length ≠ []) :
    progress.machine.isThread m.actors.length := by
  obtain ⟨answers, rest, -, -, -, ⟨move, hmove, rfl, -⟩ | ⟨hunwinds, -, -⟩⟩ :=
    Transition.perform_of_doing hplay hdoing
  · rcases Presentation.start_cases hmove with ⟨-, rfl⟩ | ⟨text, -, -, rfl⟩ | ⟨-, rfl⟩
    · exact absurd (Machine.stack_after_new (Nat.le_refl _)) hgrown
    · exact absurd (Machine.stack_after_new (Nat.le_refl _)) hgrown
    · exact ⟨p, Task.body.map (.at p), by simp [Machine.after, Machine.setStack]⟩
  · exact absurd hunwinds (Presentation.start_ne_unwinds _ x)

theorem thread_next (h : Slotted m p crew) (hplay : m.play action = some progress)
    (hturn : Turn m progress.machine p crew (Transition.doing? p ⟨m, action, progress⟩) crew') :
    ∀ t s, crew' = some (t, s) → progress.machine.isThread t := by
  intro t s hs
  generalize hdoing : Transition.doing? p ⟨m, action, progress⟩ = doing? at hturn
  cases hturn with
  | start _ _ _ _ _ _ _ hbody =>
      cases hs
      exact isThread_of_launch hplay hdoing (by simp [hbody, Task.body])
  | @duty a _ s₀ _ _ _ s? hcrew =>
      obtain ⟨next, -, heq⟩ := Option.map_eq_some_iff.mp hs
      cases heq
      exact (h.thread t s₀ hcrew).play hplay
  | _ => exact (h.thread t s hs).play hplay

theorem slot_next (h : Slotted m p crew) (hplay : m.play action = some progress)
    (hturn : Turn m progress.machine p crew (Transition.doing? p ⟨m, action, progress⟩) crew') :
    ∀ y t, progress.machine.presentations[p]? = some y → y.lifecycle.thread = some t →
      (∃ s, crew' = some (t, s)) ∨ progress.machine.HasLeft t := by
  intro y t hy hslot
  generalize Transition.doing? p ⟨m, action, progress⟩ = doing? at hturn
  have hold : ∀ x, m.presentations[p]? = some x → x.lifecycle.thread = some t →
      (∃ s, crew = some (t, s)) ∨ progress.machine.HasLeft t :=
    fun x hx ht => (h.slot x t hx ht).imp_right (·.play hplay)
  cases hturn with
  | arrival _ hsame => exact hold y (hsame ▸ hy) hslot
  | call _ _ _ hsame => exact hold y (hsame ▸ hy) hslot
  | elsewhere _ _ _ hpres =>
      rcases hpres with hsame | ⟨-, id, hnew⟩
      · exact hold y (hsame ▸ hy) hslot
      · obtain rfl := Option.some.inj (hy.symm.trans hnew)
        cases hslot
  | @aside a _ task rest x move hx hy' hfree hstart hmove hreplaces =>
      obtain rfl := Option.some.inj (hy.symm.trans hy')
      rcases (Presentation.perform_steering hfree hstart move hmove).wait_cases with
        ⟨⟨thread, rfl, hkept⟩ | ⟨hsame, -⟩, -⟩ | ⟨-, hnone, -⟩
      · -- what is put into the slot is the thread
        obtain rfl := Option.some.inj (hslot.symm.trans hkept)
        have hhead : Job.at p (.keepThread t) ∈ m.stack a := by
          rw [hreplaces.before]
          exact List.mem_cons_self
        exact .inl (h.launching.locks a t hhead).2.2
      · exact hold x hx (hsame ▸ hslot)
      · rw [hnone] at hslot
        cases hslot
  | @start _ _ _ x hnone hx hy' =>
      obtain rfl := Option.some.inj (hy.symm.trans hy')
      rcases hold x hx hslot with ⟨s, hs⟩ | hleft
      · rw [hnone] at hs
        cases hs
      · exact .inr hleft
  | @duty a _ s₀ x _ _ s? hcrew hx hy' hadv hreplaces =>
      obtain rfl := Option.some.inj (hy.symm.trans hy')
      rw [hadv.thread_eq] at hslot
      rcases hold x hx hslot with ⟨s, hs⟩ | hleft
      · obtain ⟨rfl, rfl⟩ := Prod.mk.inj (Option.some.inj (hcrew.symm.trans hs))
        cases s? with
        | some next => exact .inl ⟨next, rfl⟩
        | none =>
            -- it has just ended
            refine .inr (((h.thread a s₀ hcrew).play hplay).hasLeft ?_)
            rw [hreplaces.after]
            obtain ⟨-, rfl | rfl⟩ := hadv.end_cases <;> rfl
      · exact .inr hleft

theorem initial (config : Config) (decoders : DecoderBackends H.Codec)
    (outputs : AudioBackends H.Output) (p : Key) :
    Slotted (.initial config decoders outputs : Machine H) p none where
  foremost b t _ := by simp [Machine.stack_initial]
  launching := ⟨fun b hb =>
    by simp [Machine.starter?, Machine.initial] at hb, fun b thread hmem => by
    simp [Machine.stack_initial] at hmem⟩
  thread t s hs := by cases hs
  slot x t hx := by simp [Machine.initial] at hx

theorem turn (h : Slotted m p crew) (hplay : m.play action = some progress)
    (hturn : Turn m progress.machine p crew (Transition.doing? p ⟨m, action, progress⟩) crew') :
    Slotted progress.machine p crew' :=
  ⟨h.foremost.turn hturn, h.launching.turn h.foremost hturn, h.thread_next hplay hturn,
    h.slot_next hplay hturn⟩

end Slotted

/-- In every run the slot holds nobody but the presentation's thread and former ones. -/
theorem Machine.run_slotted (config : Config) (decoders : DecoderBackends H.Codec)
    (outputs : AudioBackends H.Output) (actions : List (Action H)) (p : Key) :
    ∃ crew, Crewed ((initial config decoders outputs).run actions).final p crew ∧
      Slotted ((initial config decoders outputs).run actions).final p crew :=
  run_turns (P := fun r crew => Slotted r.final p crew) (initial config decoders outputs)
    (fun q => ⟨none, .initial config decoders outputs q⟩) (.initial config decoders outputs p)
    (.initial config decoders outputs p)
    (fun _ _ _ _ _ _ h hplay _ hturn => h.turn hplay hturn) actions

end Playout
