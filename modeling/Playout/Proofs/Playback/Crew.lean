import Playout.Proofs.Playback.Aside
import Playout.Proofs.Playback.Stacks

/-!
# The crew of a presentation

At any time at most one actor has duties of a given presentation, its thread, and there is such an
actor exactly while the presentation is running. What the thread still has to do lies at the bottom
of its stack; above it are only tasks that are done in between.
-/

namespace Playout

variable {H : Platform}

/-- The duties of a presentation among some jobs are those of a standing, and they come last. -/
def Owes (p : Key) (jobs : List (Job H)) (s? : Option (Standing H)) : Prop :=
  ∃ free, jobs = free ++ (Standing.duties s?).map (.at p) ∧ ∀ job ∈ free, job.isDutyOf p = false

namespace Owes

variable {p q : Key} {job : Job H} {jobs new : List (Job H)} {s? : Option (Standing H)}

theorem nil : Owes p ([] : List (Job H)) none :=
  ⟨[], rfl, by simp⟩

theorem duties (p : Key) (s? : Option (Standing H)) :
    Owes p ((Standing.duties s?).map (.at p)) s? :=
  ⟨[], rfl, by simp⟩

theorem push (hnew : ∀ job ∈ new, job.isDutyOf p = false) (h : Owes p jobs s?) :
    Owes p (new ++ jobs) s? := by
  obtain ⟨free, rfl, hfree⟩ := h
  refine ⟨new ++ free, by simp, ?_⟩
  intro job hjob
  exact (List.mem_append.mp hjob).elim (hnew job) (hfree job)

/-- The next job is done in between, or it is the thread's next duty. -/
theorem cons_cases (h : Owes p (job :: jobs) s?) :
    job.isDutyOf p = false ∧ Owes p jobs s? ∨
      ∃ s, s? = some s ∧ job = .at p s.duty ∧ jobs = s.later.map (.at p) := by
  obtain ⟨free, hjobs, hfree⟩ := h
  cases free with
  | nil =>
      cases s? with
      | none => simp [Standing.duties] at hjobs
      | some s =>
          simp only [Standing.duties, List.nil_append, List.map_cons, List.cons.injEq] at hjobs
          exact .inr ⟨s, rfl, hjobs.1, hjobs.2⟩
  | cons first free =>
      simp only [List.cons_append, List.cons.injEq] at hjobs
      obtain ⟨rfl, rfl⟩ := hjobs
      exact .inl ⟨hfree _ (by simp), free, rfl, fun job hjob => hfree job (by simp [hjob])⟩

theorem tail (h : Owes p (job :: jobs) s?) (hjob : job.isDutyOf p = false) : Owes p jobs s? := by
  rcases h.cons_cases with ⟨-, hrest⟩ | ⟨s, -, rfl, -⟩
  · exact hrest
  · simp [Job.isDutyOf, s.duty_isDuty] at hjob

/-- Nothing is owed to a presentation whose jobs are not among these. -/
theorem eq_none (h : Owes p jobs s?) (hjobs : ∀ job ∈ jobs, job.isDutyOf p = false) :
    s? = none := by
  obtain ⟨free, rfl, -⟩ := h
  cases s? with
  | none => rfl
  | some s =>
      have hduty := hjobs (.at p s.duty) (by simp [Standing.duties])
      simp [Job.isDutyOf, s.duty_isDuty] at hduty

end Owes

theorem Owes.filterMap_eq {β : Type} {f : Job H → Option β} {p : Key} {jobs : List (Job H)}
    {s? : Option (Standing H)} (h : Owes p jobs s?)
    (hfree : ∀ job, job.isDutyOf p = false → f job = none) :
    jobs.filterMap f = ((Standing.duties s?).map (Job.at p)).filterMap f := by
  obtain ⟨free, rfl, hduties⟩ := h
  have hnone : free.filterMap f = [] :=
    List.filterMap_eq_nil_iff.mpr fun job hjob => hfree job (hduties job hjob)
  rw [List.filterMap_append, hnone, List.nil_append]

theorem Owes.filter_eq {p : Key} {jobs : List (Job H)} {s? : Option (Standing H)}
    (h : Owes p jobs s?) :
    jobs.filter (·.isDutyOf p) = (Standing.duties s?).map (.at p) := by
  obtain ⟨free, rfl, hfree⟩ := h
  have hduties : ∀ job ∈ (Standing.duties s?).map (Job.at p), job.isDutyOf p := by
    intro job hjob
    obtain ⟨t, ht, rfl⟩ := List.mem_map.mp hjob
    simp [Job.isDutyOf, Standing.duties_isDuty s? t ht]
  rw [List.filter_append, List.filter_eq_self.mpr hduties,
    List.filter_eq_nil_iff.mpr fun job hjob => by
    simp [hfree job hjob], List.nil_append]

theorem Owes.unique {p : Key} {jobs : List (Job H)} {s? s'? : Option (Standing H)}
    (h : Owes p jobs s?) (h' : Owes p jobs s'?) : s? = s'? := by
  have hsame := h.filter_eq.symm.trans h'.filter_eq
  refine Standing.duties_injective (List.map_injective_iff.mpr ?_ hsame)
  intro t t' heq
  cases heq
  rfl

/-! ## Crews -/

/-- The thread of a presentation, with what it still has to do. -/
abbrev Crew (H : Platform) := Option (ActorId × Standing H)

namespace Crew

def of (crew : Crew H) (a : ActorId) : Option (Standing H) :=
  crew.bind fun (b, s) => if b = a then some s else none

def standing (crew : Crew H) : Option (Standing H) :=
  crew.map (·.2)

@[simp] theorem of_self (a : ActorId) (s? : Option (Standing H)) :
    Crew.of (s?.map (a, ·)) a = s? := by
  cases s? <;> simp [of]

theorem of_of_ne {a b : ActorId} (s? : Option (Standing H)) (h : b ≠ a) :
    Crew.of (s?.map (a, ·)) b = none := by
  cases s? <;> simp [of, Ne.symm h]

@[simp] theorem standing_map (a : ActorId) (s? : Option (Standing H)) :
    Crew.standing (s?.map (a, ·)) = s? := by
  cases s? <;> rfl

theorem eq_some_of {crew : Crew H} {a : ActorId} {s : Standing H} (h : crew.of a = some s) :
    crew = some (a, s) := by
  rcases crew with _ | ⟨b, s'⟩
  · cases h
  · by_cases hb : b = a <;> simp_all [of]

end Crew

/-- The duties of a presentation are those of its crew, and there is a crew while it is running. -/
structure Crewed (m : Machine H) (p : Key) (crew : Crew H) : Prop where
  owes : ∀ a, Owes p (m.stack a) (crew.of a)
  running : ∀ x, m.presentations[p]? = some x → x.isRunning = crew.isSome
  present : crew.isSome → p < m.presentations.length

theorem Crewed.exists_presentation {m : Machine H} {p : Key} {member : ActorId × Standing H}
    (h : Crewed m p (some member)) : ∃ x, m.presentations[p]? = some x :=
  ⟨_, List.getElem?_eq_getElem (h.present rfl)⟩

/-- Who is to do a duty is the thread, and has nothing else to do but its other duties. -/
theorem Crewed.standing_of_stack {m : Machine H} {p : Key} {crew : Crew H} {a : ActorId}
    {task : Task H}
    {rest : List (Job H)} (h : Crewed m p crew) (hstack : m.stack a = .at p task :: rest)
    (hduty : task.isDuty) :
    ∃ s, crew = some (a, s) ∧ task = s.duty ∧ rest = s.later.map (.at p) := by
  have howes := h.owes a
  rw [hstack] at howes
  rcases howes.cons_cases with ⟨hfree, -⟩ | ⟨s, hof, hjob, hrest⟩
  · simp [Job.isDutyOf, hduty] at hfree
  · exact ⟨s, Crew.eq_some_of hof, (Job.at.inj hjob).2, hrest⟩

theorem Crewed.unique {m : Machine H} {p : Key} {crew crew' : Crew H} (h : Crewed m p crew)
    (h' : Crewed m p crew') : crew = crew' := by
  have hof : ∀ a, crew.of a = crew'.of a := fun a => (h.owes a).unique (h'.owes a)
  have heq : ∀ {crew crew' : Crew H}, (∀ a, crew.of a = crew'.of a) → ∀ member, crew = some member →
      crew' = crew := by
    rintro crew crew' hof ⟨a, s⟩ rfl
    exact Crew.eq_some_of ((hof a).symm.trans (Crew.of_self a (some s)))
  cases crew with
  | some member => exact (heq hof member rfl).symm
  | none =>
      cases crew' with
      | none => rfl
      | some member => exact heq (fun a => (hof a).symm) member rfl

theorem Crewed.eq_none_of_absent {m : Machine H} {p : Key} {crew : Crew H} (h : Crewed m p crew)
    (hnone : m.presentations[p]? = none) : crew = none := by
  cases crew with
  | none => rfl
  | some member =>
      exact absurd (h.present rfl) (Nat.not_lt.mpr (List.getElem?_eq_none_iff.mp hnone))

theorem flatMap_eq_single {α β : Type} {f : α → List β} {l : List α} {i : Nat}
    (h : ∀ j x, j ≠ i → l[j]? = some x → f x = []) : l.flatMap f = (l[i]?.map f).getD [] := by
  induction l generalizing i with
  | nil => rfl
  | cons x l ih =>
      cases i with
      | zero =>
          have hrest : l.flatMap f = [] := by
            refine List.flatMap_eq_nil_iff.mpr fun y hy => ?_
            obtain ⟨j, hj⟩ := List.getElem?_of_mem hy
            exact h (j + 1) y (Nat.succ_ne_zero j) hj
          simp [hrest]
      | succ i =>
          have hx := h 0 x (Nat.succ_ne_zero i).symm rfl
          rw [List.flatMap_cons, hx, List.nil_append]
          exact ih fun j y hj hy => h (j + 1) y (fun heq => hj (Nat.succ.inj heq)) hy

namespace Crewed

variable {m m' : Machine H} {p q : Key} {crew : Crew H} {a : ActorId} {jobs rest : List (Job H)}

theorem initial (config : Config) (decoders : DecoderBackends H.Codec)
    (outputs : AudioBackends H.Output)
    (p : Key) : Crewed (Machine.initial config decoders outputs) p none := by
  refine ⟨fun a => ?_, by simp [Machine.initial], by simp⟩
  rw [Machine.stack_initial]
  exact .nil

theorem presentation_after {x : Presentation H} {move : Move H}
    (hx : m.presentations[p]? = some x) :
    (m.after a p rest move).machine.presentations[p]? = some move.presentation := by
  obtain ⟨hlt, -⟩ := List.getElem?_eq_some_iff.mp hx
  exact List.getElem?_set_self hlt

/-- The crew stays when an actor does a job that is not one of its duties, and leaves
none behind. -/
theorem rework {job : Job H} (h : Crewed m p crew) (hstack : m.stack a = job :: rest)
    (hjob : job.isDutyOf p = false) (hself : m'.stack a = jobs ++ rest)
    (hjobs : ∀ job ∈ jobs, job.isDutyOf p = false)
    (hothers : ∀ b, b ≠ a → ∀ s?, Owes p (m.stack b) s? → Owes p (m'.stack b) s?)
    (hrunning : ∀ x, m'.presentations[p]? = some x → x.isRunning = crew.isSome)
    (hlength : m.presentations.length ≤ m'.presentations.length) : Crewed m' p crew := by
  refine ⟨fun b => ?_, hrunning, fun hcrew => Nat.lt_of_lt_of_le (h.present hcrew) hlength⟩
  by_cases hb : b = a
  · subst hb
    have howes := h.owes b
    rw [hstack] at howes
    rw [hself]
    exact (howes.tail hjob).push hjobs
  · exact hothers b hb _ (h.owes b)

theorem setStack {job : Job H} (h : Crewed m p crew) (hstack : m.stack a = job :: rest)
    (hjob : job.isDutyOf p = false) (hjobs : ∀ job ∈ jobs, job.isDutyOf p = false) :
    Crewed (m.setStack a (jobs ++ rest)) p crew := by
  have hlt := Machine.lt_of_stack hstack
  refine h.rework hstack hjob (Machine.stack_setStack_self hlt) hjobs ?_ h.running (Nat.le_refl _)
  intro b hb s? howes
  rw [Machine.stack_setStack_of_ne hb]
  exact howes

theorem addHost (h : Crewed m p crew) : Crewed m.addHost p crew :=
  ⟨fun b => Machine.stack_addHost (m := m) ▸ h.owes b, h.running, h.present⟩

/-- The registry has no part in who the crew is. -/
theorem congr (h : Crewed m p crew) (hactors : m'.actors = m.actors)
    (hpresentations : m'.presentations = m.presentations) : Crewed m' p crew := by
  have hstack : ∀ b, m'.stack b = m.stack b := fun b => by simp [Machine.stack, hactors]
  exact ⟨fun b => hstack b ▸ h.owes b, hpresentations ▸ h.running, hpresentations ▸ h.present⟩

theorem create {id : PresentationId} (h : Crewed m p crew) (hactors : m'.actors = m.actors)
    (hpresentations : m'.presentations = m.presentations ++ [.new id]) : Crewed m' p crew := by
  have hstack : ∀ b, m'.stack b = m.stack b := fun b => by simp [Machine.stack, hactors]
  refine ⟨fun b => hstack b ▸ h.owes b, ?_, ?_⟩
  · intro x hx
    rw [hpresentations] at hx
    by_cases hp : p < m.presentations.length
    · rw [List.getElem?_append_left hp] at hx
      exact h.running x hx
    · have hnone : crew = none := Option.not_isSome_iff_eq_none.mp fun hcrew => hp (h.present hcrew)
      have hmem := List.mem_of_getElem? (List.getElem?_append_right (Nat.not_lt.mp hp) ▸ hx)
      rw [List.mem_singleton] at hmem
      rw [hmem, hnone]
      rfl
  · intro hcrew
    rw [hpresentations, List.length_append]
    exact Nat.lt_add_right _ (h.present hcrew)

theorem invoke (h : Crewed m p crew) (ha : a < m.actors.length)
    (hjobs : ∀ job ∈ jobs, job.isDutyOf p = false) : Crewed (m.invoke a jobs) p crew := by
  refine ⟨fun b => ?_, h.running, h.present⟩
  by_cases hb : b = a
  · subst hb
    rw [Machine.invoke, Machine.stack_setStack_self ha]
    exact (h.owes b).push hjobs
  · rw [Machine.invoke, Machine.stack_setStack_of_ne hb]
    exact h.owes b

theorem after_other {task : Task H} {move : Move H} (h : Crewed m p crew)
    (hstack : m.stack a = .at q task :: rest) (hqp : q ≠ p) :
    Crewed (m.after a q rest move).machine p crew := by
  have hlt := Machine.lt_of_stack hstack
  refine h.rework hstack (Job.isDutyOf_of_ne hqp) (Machine.stack_after_self hlt)
    (Job.map_at_of_ne hqp) ?_ ?_ ?_
  · intro b hb s? howes
    by_cases hold : b < m.actors.length
    · rw [Machine.stack_after_of_ne hold hb]
      exact howes
    · have hge := Nat.not_lt.mp hold
      rw [Machine.stack_of_le hge] at howes
      obtain rfl := howes.eq_none (by simp)
      rw [Machine.stack_after_new hge]
      cases move.spawned[b - m.actors.length]? with
      | none => exact .nil
      | some tasks =>
          have hnew : Owes p (tasks.map (Job.at q) ++ []) none :=
            Owes.nil.push (Job.map_at_of_ne hqp)
          simpa using hnew
  · intro x hx
    have hsame : (m.presentations.set q move.presentation)[p]? = m.presentations[p]? :=
      List.getElem?_set_ne hqp
    exact h.running x (hsame ▸ hx)
  · simp [Machine.after, Machine.setStack]

/-- A task that is not a duty and launches no thread leaves the crew where it stands. -/
theorem after_aside {task : Task H} {x : Presentation H} {move : Move H} (h : Crewed m p crew)
    (hstack : m.stack a = .at p task :: rest) (hx : m.presentations[p]? = some x)
    (hfree : task.isDuty = false) (hnext : ∀ t ∈ move.next, t.isDuty = false)
    (hspawned : move.spawned = []) (hstate : move.presentation.state = x.state) :
    Crewed (m.after a p rest move).machine p crew := by
  have hlt := Machine.lt_of_stack hstack
  refine h.rework hstack (by simp [Job.isDutyOf, hfree]) (Machine.stack_after_self hlt)
    (Job.map_at_of_free hnext) ?_ ?_ ?_
  · intro b hb s? howes
    by_cases hold : b < m.actors.length
    · rw [Machine.stack_after_of_ne hold hb]
      exact howes
    · have hge := Nat.not_lt.mp hold
      rw [Machine.stack_of_le hge] at howes
      rw [Machine.stack_after_new hge, hspawned]
      exact howes
  · intro y hy
    rw [presentation_after hx] at hy
    cases hy
    rw [← h.running x hx]
    exact congrArg PlaybackState.isActive hstate
  · simp [Machine.after, Machine.setStack]

theorem after_duty {s : Standing H} {x : Presentation H} {s? : Option (Standing H)}
    {free : List (Task H)} {move : Move H} (h : Crewed m p crew)
    (hstack : m.stack a = .at p s.duty :: rest) (hof : crew.of a = some s)
    (hx : m.presentations[p]? = some x) (hrest : rest = s.later.map (.at p))
    (hnext : move.next ++ s.later = free ++ Standing.duties s?)
    (hfree : ∀ t ∈ free, t.isDuty = false)
    (hspawned : move.spawned = []) (hrunning : move.presentation.isRunning = s?.isSome) :
    Crewed (m.after a p rest move).machine p (s?.map (a, ·)) := by
  have hlt := Machine.lt_of_stack hstack
  obtain rfl := Crew.eq_some_of hof
  refine ⟨fun b => ?_, ?_, fun _ => ?_⟩
  · by_cases hb : b = a
    · subst hb
      rw [Machine.stack_after_self hlt, Crew.of_self, hrest, ← List.map_append, hnext,
        List.map_append]
      exact (Owes.duties p s?).push (Job.map_at_of_free hfree)
    · have howes : Owes p (m.stack b) none := by simpa [Crew.of, Ne.symm hb] using h.owes b
      rw [Crew.of_of_ne s? hb]
      by_cases hold : b < m.actors.length
      · rw [Machine.stack_after_of_ne hold hb]
        exact howes
      · rw [Machine.stack_after_new (Nat.not_lt.mp hold), hspawned]
        exact .nil
  · intro y hy
    rw [presentation_after hx] at hy
    cases hy
    simpa using hrunning
  · simpa [Machine.after, Machine.setStack] using h.present rfl

theorem after_start {x y : Presentation H} {next : List (Task H)}
    (h : Crewed m p crew) (hstack : m.stack a = .at p .start :: rest)
    (hx : m.presentations[p]? = some x) (hidle : x.isRunning = false) (hrunning : y.isRunning)
    (hnext : ∀ t ∈ next, t.isDuty = false) :
    Crewed (m.after a p rest { presentation := y, next, spawned := [Task.body] }).machine p
      (some (m.actors.length, .openingSink)) := by
  have hlt := Machine.lt_of_stack hstack
  -- there was no crew, so that nobody but the new actor has duties
  have hcrew : crew = none := by simpa [hidle] using (h.running x hx).symm
  subst hcrew
  refine ⟨fun b => ?_, ?_, fun _ => ?_⟩
  · by_cases hnew : b = m.actors.length
    · subst hnew
      rw [Machine.stack_after_new (Nat.le_refl _), Nat.sub_self,
        show Crew.of (some (m.actors.length, Standing.openingSink)) m.actors.length =
          some (.openingSink : Standing H) from Crew.of_self _ (some .openingSink)]
      exact Owes.duties p (some .openingSink)
    · have hof : Crew.of (some (m.actors.length, (.openingSink : Standing H))) b = none :=
        Crew.of_of_ne (some .openingSink) hnew
      have howes : Owes p (m.stack b) none := h.owes b
      rw [hof]
      by_cases hb : b = a
      · subst hb
        rw [hstack] at howes
        rw [Machine.stack_after_self hlt]
        exact (howes.tail (by simp [Job.isDutyOf, Task.isDuty])).push (Job.map_at_of_free hnext)
      · by_cases hold : b < m.actors.length
        · rw [Machine.stack_after_of_ne hold hb]
          exact howes
        · have hlater : 1 ≤ b - m.actors.length :=
            Nat.sub_pos_of_lt (Nat.lt_of_le_of_ne (Nat.not_lt.mp hold) (Ne.symm hnew))
          rw [Machine.stack_after_new (Nat.not_lt.mp hold), List.getElem?_eq_none hlater]
          exact .nil
  · intro z hz
    rw [presentation_after hx] at hz
    cases hz
    simpa using hrunning
  · simpa [Machine.after, Machine.setStack] using (List.getElem?_eq_some_iff.mp hx).1

theorem guarded_drainingSink :
    ((Standing.duties (some .drainingSink)).map (Job.at p)).filterMap (@Machine.guarded? H) = [p] :=
  rfl

theorem unwind_own (h : Crewed m p crew) {x : Presentation H} (hx : m.presentations[p]? = some x)
    (hstack : m.stack a = (Standing.duties (some .drainingSink)).map (.at p))
    (hof : (crew.of a).isSome) :
    Crewed (m.unwind a) p none ∧ (m.unwind a).presentations[p]? = some (x.enter .stopped) := by
  obtain ⟨s, hs⟩ := Option.isSome_iff_exists.mp hof
  obtain rfl := Crew.eq_some_of hs
  have hlt := Machine.lt_of_stack hstack
  have hpres : (m.unwind a).presentations[p]? = some (x.enter .stopped) := by
    rw [Machine.unwind, hstack, guarded_drainingSink]
    simp [hx]
  refine ⟨⟨fun b => ?_, ?_, by simp⟩, hpres⟩
  · by_cases hb : b = a
    · subst hb
      have hempty : (m.unwind b).stack b = [] := Machine.stack_setStack_self hlt
      rw [hempty]
      exact .nil
    · have hsame : (m.unwind a).stack b = m.stack b := Machine.stack_setStack_of_ne hb
      rw [hsame]
      simpa [Crew.of, Ne.symm hb] using h.owes b
  · intro y hy
    rw [hpres] at hy
    cases hy
    rfl

/-- Nothing changes for a presentation when the thread of another one breaks off. -/
theorem unwind_other (h : Crewed m p crew) (hqp : q ≠ p)
    (hstack : m.stack a = (Standing.duties (some .drainingSink)).map (.at q)) :
    Crewed (m.unwind a) p crew ∧ (m.unwind a).presentations[p]? = m.presentations[p]? := by
  have hlt := Machine.lt_of_stack hstack
  have hpres : (m.unwind a).presentations[p]? = m.presentations[p]? := by
    rw [Machine.unwind, hstack, guarded_drainingSink]
    simp [hqp]
  refine ⟨⟨fun b => ?_, ?_, ?_⟩, hpres⟩
  · by_cases hb : b = a
    · subst hb
      have hempty : (m.unwind b).stack b = [] := Machine.stack_setStack_self hlt
      have hnone := (h.owes b).eq_none (hstack ▸ Job.map_at_of_ne hqp)
      rw [hempty, hnone]
      exact .nil
    · have hsame : (m.unwind a).stack b = m.stack b := Machine.stack_setStack_of_ne hb
      rw [hsame]
      exact h.owes b
  · intro x hx
    rw [hpres] at hx
    exact h.running x hx
  · intro hcrew
    have hlength : (m.unwind a).presentations.length = m.presentations.length := by
      rw [Machine.unwind, hstack, guarded_drainingSink]
      simp
    rw [hlength]
    exact h.present hcrew

/-- What comes of everyone's jobs, if only duties of the presentation count, comes of those of
its thread. -/
theorem flatMap_jobs {β : Type} {f : Job H → Option β} (h : Crewed m p crew)
    (hfree : ∀ job, job.isDutyOf p = false → f job = none) :
    m.actors.flatMap (fun actor => actor.jobs.filterMap f) =
      ((Standing.duties crew.standing).map (Job.at p)).filterMap f := by
  have hstack : ∀ b actor, m.actors[b]? = some actor →
      actor.jobs.filterMap f = ((Standing.duties (crew.of b)).map (Job.at p)).filterMap f := by
    intro b actor hactor
    have howes := (h.owes b).filterMap_eq hfree
    rwa [Machine.stack, hactor] at howes
  rcases crew with _ | ⟨a, s⟩
  · refine List.flatMap_eq_nil_iff.mpr fun actor hactor => ?_
    obtain ⟨b, hb⟩ := List.getElem?_of_mem hactor
    exact hstack b actor hb
  · rw [flatMap_eq_single (i := a)]
    · have howes := (h.owes a).filterMap_eq hfree
      have hof : Crew.of (some (a, s)) a = some s := Crew.of_self a (some s)
      rw [hof, Machine.stack] at howes
      show _ = ((Standing.duties (some s)).map (Job.at p)).filterMap f
      cases hactor : m.actors[a]? with
      | none => simpa [hactor] using howes
      | some actor => simpa [hactor] using howes
    · intro b actor hb hactor
      rw [hstack b actor hactor, show Crew.of (some (a, s)) b = none from Crew.of_of_ne (some s) hb]
      rfl

end Crewed

end Playout
