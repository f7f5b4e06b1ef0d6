import Playout.Proofs.Delivery.Strands

/-!
# The order of arrival

Chunks of different streams may be pushed in any order, by any threads of the host, and so may the
streams be ended. As long as the calls on one stream follow one another, each stream comes to what
its own calls make of it: its decoder and its queue, a sample that is on its way counted as queued,
go through the same states whatever is done to the other streams meanwhile. So a presentation that
plays nothing meanwhile is in the end the same, and everything that it does afterwards is. Samples
that start at the same time are released in the order in which their streams were registered.
-/

namespace Playout

variable {H : Platform}

def Job.supplies (p : Key) : Job H → Bool
  | .at q task => q == p && task.isSupply
  | _ => false

def Job.enqueuesFor (p : Key) (s : StreamId) : Job H → Bool
  | .at q (.enqueue sample) => q == p && sample.streamId == s
  | _ => false

def Call.supplies (p : Key) : Call H → Bool
  | .push h _ => h.presentation == p
  | .endStream h => h.presentation == p
  | _ => false

/-- Something is supplied to a registered stream, while nothing else that was supplied to this
stream is on its way. -/
def Machine.admits (m : Machine H) (p : Key) (x : Presentation H) (task : Task H) : Bool :=
  match task.arrival? with
  | some (place, _) => x.handles.any fun (s, other) =>
      other == place && !m.owes (Job.enqueuesFor p s)
  | none => task.isFeed

def Transition.supplies (p : Key) (t : Transition H) : Bool :=
  match t.action with
  | .call _ c => c.supplies p
  | _ => (t.doing? p).any fun (_, deed) => t.before.admits p deed.before deed.task

namespace Run

def arrivals (r : Run H) (p : Key) : List (Nat × Arrival H) :=
  (r.deeds p).filterMap (·.task.arrival?)

def arrivalsAt (r : Run H) (p : Key) (place : Nat) : List (Arrival H) :=
  Arrival.ofPlace place (r.arrivals p)

/-- Nothing happens but that streams of the presentation are supplied. All calls are successful, and
all have returned. -/
structure Supplies (r : Run H) (p : Key) : Prop where
  only : ∀ t ∈ r.trace, t.supplies p
  successful : ∀ t ∈ r.trace, t.progress.result.all (·.isOk)
  returned : r.final.owes (Job.supplies p) = false

theorem arrivals_extend (r : Run H) (p : Key) (action : Action H) (progress : Progress H) :
    (r.extend action progress).arrivals p =
      r.arrivals p ++
        ((Transition.deed? p ⟨r.final, action, progress⟩).bind (·.task.arrival?)).toList := by
  rw [arrivals, deeds_extend, List.filterMap_append]
  cases Transition.deed? p ⟨r.final, action, progress⟩ with
  | none => rfl
  | some deed =>
      rw [arrivals, Option.bind_some]
      cases hdeed : deed.task.arrival? <;> simp [hdeed]

end Run

/-! ## The machine -/

namespace Machine

variable {m m' other : Machine H} {p : Key} {a b : ActorId} {jobs rest : List (Job H)}
  {move : Move H}

theorem stack_after_others (hspawned : move.spawned = []) (hb : b ≠ a) :
    (m.after a p rest move).machine.stack b = m.stack b := by
  by_cases hold : b < m.actors.length
  · exact stack_after_of_ne hold hb
  · have hge := Nat.not_lt.mp hold
    rw [stack_after_new hge, stack_of_le hge, hspawned]
    rfl

theorem roles_setStack (m : Machine H) (a : ActorId) (jobs : List (Job H)) :
    (m.setStack a jobs).actors.map (·.role) = m.actors.map (·.role) := by
  apply List.ext_getElem?
  intro i
  simp only [setStack, List.getElem?_map, List.getElem?_modify]
  cases m.actors[i]? with
  | none => simp
  | some actor => split <;> rfl

theorem actors_eq (hroles : m'.actors.map (·.role) = m.actors.map (·.role))
    (hstacks : ∀ a, m'.stack a = m.stack a) : m'.actors = m.actors := by
  apply List.ext_getElem?
  intro i
  have hrole := congrArg (·[i]?) hroles
  have hstack := hstacks i
  simp only [List.getElem?_map, stack] at hrole hstack
  cases hnew : m'.actors[i]? with
  | none =>
      rw [hnew] at hrole
      simpa using hrole.symm
  | some actor =>
      cases hold : m.actors[i]? with
      | none => simp [hnew, hold] at hrole
      | some actor' =>
          simp only [hnew, hold, Option.map_some, Option.some.injEq,
            Option.getD_some] at hrole hstack
          cases actor
          cases actor'
          simp_all

theorem not_mem_of_owes {f : Job H → Bool} {job : Job H} (h : m.owes f = false)
    (hmem : job ∈ m.stack b) :
    f job = false := by
  by_contra hjob
  rw [owes_of_mem hmem (by simpa using hjob)] at h
  cases h

/-- A machine after another one: some actors have begun to supply streams of a presentation. -/
structure Laden (m m' : Machine H) (p : Key) (y : Presentation H) : Prop where
  rest : m' = { m with presentations := m.presentations.set p y, actors := m'.actors }
  roles : m'.actors.map (·.role) = m.actors.map (·.role)
  present : m'.presentations[p]? = some y
  pending : ∀ a, ∃ jobs, m'.stack a = jobs ++ m.stack a ∧ ∀ job ∈ jobs, job.supplies p

namespace Laden

variable {y : Presentation H} {job : Job H}

theorem refl (hy : m.presentations[p]? = some y) : m.Laden m p y where
  rest := by rw [set_presentations hy]
  roles := rfl
  present := hy
  pending a := ⟨[], rfl, by simp⟩

theorem invoke (h : m.Laden m' p y) (ha : a < m'.actors.length)
    (hjobs : ∀ job ∈ jobs, job.supplies p) :
    m.Laden (m'.invoke a jobs) p y where
  rest := by
    rw [Machine.invoke, setStack]
    rw [h.rest]
  roles := (roles_setStack ..).trans h.roles
  present := h.present
  pending b := by
    obtain ⟨more, hstack, hmore⟩ := h.pending b
    by_cases hb : b = a
    · subst hb
      refine ⟨jobs ++ more, ?_, fun job hjob =>
        (List.mem_append.mp hjob).elim (hjobs job) (hmore job)⟩
      rw [Machine.invoke, stack_setStack_self ha, hstack, List.append_assoc]
    · exact ⟨more, by rw [Machine.invoke, stack_setStack_of_ne hb, hstack], hmore⟩

theorem after (h : m.Laden m' p y) (hquiet : m.owes (Job.supplies p) = false)
    (hstack : m'.stack a = job :: rest)
    (hjob : job.supplies p) (hspawned : move.spawned = []) (hnext : ∀ t ∈ move.next, t.isSupply) :
    m.Laden (m'.after a p rest move).machine p move.presentation where
  rest := by
    have hpresentations : m'.presentations = m.presentations.set p y := by rw [h.rest]
    simp only [Machine.after, setStack, hpresentations, List.set_set]
    rw [h.rest]
  roles := by
    have hroles := (roles_setStack m' a (move.next.map (.at p) ++ rest)).trans h.roles
    simpa [Machine.after, hspawned] using hroles
  present := Crewed.presentation_after h.present
  pending b := by
    obtain ⟨more, hmore, hsupplies⟩ := h.pending b
    by_cases hb : b = a
    · subst hb
      rw [stack_after_self (lt_of_stack hstack)]
      cases more with
      | nil =>
          have hmem : job ∈ m.stack b := by
            rw [← List.nil_append (m.stack b), ← hmore, hstack]
            exact List.mem_cons_self
          rw [not_mem_of_owes hquiet hmem] at hjob
          cases hjob
      | cons first more =>
          rw [hstack, List.cons_append] at hmore
          obtain ⟨rfl, rfl⟩ := List.cons.inj hmore
          refine ⟨move.next.map (.at p) ++ more, (List.append_assoc ..).symm,
            fun other hother => ?_⟩
          rcases List.mem_append.mp hother with hnew | hold
          · obtain ⟨t, ht, rfl⟩ := List.mem_map.mp hnew
            simp [Job.supplies, hnext t ht]
          · exact hsupplies other (List.mem_cons_of_mem _ hold)
    · exact ⟨more, (stack_after_others hspawned hb).trans hmore, hsupplies⟩

theorem stack_eq (h : m.Laden m' p y) (hreturned : m'.owes (Job.supplies p) = false) (a : ActorId) :
    m'.stack a = m.stack a := by
  obtain ⟨jobs, hstack, hsupplies⟩ := h.pending a
  cases jobs with
  | nil => exact hstack
  | cons job jobs =>
      have hjob := not_mem_of_owes hreturned (hstack ▸ List.mem_cons_self : job ∈ m'.stack a)
      rw [hsupplies job List.mem_cons_self] at hjob
      cases hjob

/-- When all calls have returned, only the presentation is different. -/
theorem eq (h : m.Laden m' p y) (hother : m.Laden other p y)
    (hreturned : m'.owes (Job.supplies p) = false)
    (hback : other.owes (Job.supplies p) = false) : other = m' := by
  have hactors : other.actors = m'.actors :=
    actors_eq (hother.roles.trans h.roles.symm) fun a =>
      (hother.stack_eq hback a).trans (h.stack_eq hreturned a).symm
  rw [hother.rest, h.rest, hactors]

end Laden

end Machine

/-! ## Samples on their way -/

/-- At most one sample for the stream is on its way, and the next thing that its actor does is to
put it into the queue. -/
inductive Awaiting (m : Machine H) (p : Key) (s : StreamId) :
    Option (Sample H.Receiver) → Prop where
  | nothing : (∀ b, ∀ job ∈ m.stack b, job.enqueuesFor p s = false) → Awaiting m p s none
  | sample {a sample rest} : m.stack a = .at p (.enqueue sample) :: rest → sample.streamId = s →
      (∀ job ∈ rest, job.enqueuesFor p s = false) →
      (∀ b, b ≠ a → ∀ job ∈ m.stack b, job.enqueuesFor p s = false) → Awaiting m p s (some sample)

namespace Awaiting

variable {m m' : Machine H} {p : Key} {s : StreamId} {a : ActorId} {rest : List (Job H)}
  {sample? : Option (Sample H.Receiver)}

/-- Nothing is on its way where nothing is being supplied. -/
theorem free_of_quiet (h : m.owes (Job.supplies p) = false) (s : StreamId) :
    ∀ b, ∀ job ∈ m.stack b, job.enqueuesFor p s = false := by
  intro b job hmem
  have hjob := Machine.not_mem_of_owes h hmem
  cases job with
  | «at» q task =>
      cases task with
      | enqueue sample =>
          have hqp : q ≠ p := by simpa [Job.supplies, Task.isSupply, Task.isFeed] using hjob
          simp [Job.enqueuesFor, hqp]
      | _ => rfl
  | _ => rfl

theorem of_quiet (h : m.owes (Job.supplies p) = false) (s : StreamId) : Awaiting m p s none :=
  .nothing (free_of_quiet h s)

theorem eq_none (h : Awaiting m p s sample?)
    (hfree : ∀ b, ∀ job ∈ m.stack b, job.enqueuesFor p s = false) :
    sample? = none := by
  cases h with
  | nothing => rfl
  | sample hstack hid =>
      have hhead := hfree _ _ (hstack ▸ List.mem_cons_self)
      simp [Job.enqueuesFor, hid] at hhead

theorem keep (old new : List (Job H)) (h : Awaiting m p s sample?)
    (hbefore : m.stack a = old ++ rest) (hafter : m'.stack a = new ++ rest)
    (hothers : ∀ b, b ≠ a → m'.stack b = m.stack b)
    (hnew : ∀ job ∈ new, job.enqueuesFor p s = false)
    (hhead : ∀ sample, (m.stack a).head? = some (.at p (.enqueue sample)) → sample.streamId ≠ s) :
    Awaiting m' p s sample? := by
  have hown : (∀ job ∈ m.stack a, job.enqueuesFor p s = false) →
      ∀ job ∈ m'.stack a, job.enqueuesFor p s = false := by
    intro hfree job hmem
    rw [hafter] at hmem
    rcases List.mem_append.mp hmem with hmem | hmem
    · exact hnew job hmem
    · exact hfree job (hbefore ▸ List.mem_append_right old hmem)
  cases h with
  | nothing hfree =>
      refine .nothing fun b => ?_
      by_cases hb : b = a
      · subst hb
        exact hown (hfree b)
      · rw [hothers b hb]
        exact hfree b
  | @sample c sample below hstack hid hbelow hfree =>
      have hc : c ≠ a := by
        rintro rfl
        exact hhead sample (by rw [hstack]; rfl) hid
      refine .sample ((hothers c hc).trans hstack) hid hbelow fun b hb => ?_
      by_cases hba : b = a
      · subst hba
        exact hown (hfree b hb)
      · rw [hothers b hba]
        exact hfree b hb

theorem begin {sample : Sample H.Receiver} {job : Job H}
    (hfree : ∀ b, ∀ job ∈ m.stack b, job.enqueuesFor p s = false)
    (hbefore : m.stack a = job :: rest) (hafter : m'.stack a = .at p (.enqueue sample) :: rest)
    (hothers : ∀ b, b ≠ a → m'.stack b = m.stack b) (hid : sample.streamId = s) :
    Awaiting m' p s (some sample) := by
  refine .sample hafter hid (fun other hother => hfree a other ?_) fun b hb => ?_
  · rw [hbefore]
    exact List.mem_cons_of_mem _ hother
  · rw [hothers b hb]
    exact hfree b

theorem finish {sample : Sample H.Receiver} (h : Awaiting m p s sample?) (hid : sample.streamId = s)
    (hbefore : m.stack a = .at p (.enqueue sample) :: rest) (hafter : m'.stack a = rest)
    (hothers : ∀ b, b ≠ a → m'.stack b = m.stack b) :
    sample? = some sample ∧ Awaiting m' p s none := by
  have hjob : Job.enqueuesFor p s (.at p (.enqueue sample) : Job H) := by
    simp [Job.enqueuesFor, hid]
  cases h with
  | nothing hfree =>
      rw [hfree a _ (hbefore ▸ List.mem_cons_self)] at hjob
      cases hjob
  | @sample b other below hstack _ hbelow hfree =>
      have hba : b = a := by
        by_contra hne
        rw [hfree a (Ne.symm hne) _ (hbefore ▸ List.mem_cons_self)] at hjob
        cases hjob
      subst hba
      rw [hbefore] at hstack
      obtain ⟨hhead, rfl⟩ := List.cons.inj hstack
      obtain rfl : sample = other := Task.enqueue.inj (Job.at.inj hhead).2
      refine ⟨rfl, .nothing fun c => ?_⟩
      by_cases hc : c = b
      · subst hc
        rw [hafter]
        exact hbelow
      · rw [hothers c hc]
        exact hfree c hc

end Awaiting

/-! ## One thing after the other -/

inductive Supplying (m : Machine H) (p : Key) (x : Presentation H) :
    Progress H → Presentation H → Option (Nat × Arrival H) → Prop where
  | call {a jobs} : m.mayCall a → (∀ job ∈ jobs, job.supplies p) →
      (∀ s, ∀ job ∈ jobs, job.enqueuesFor p s = false) →
        Supplying m p x { machine := m.invoke a jobs } x none
  | push {a rest s place chunk y sample} : m.stack a = .at p (.push place chunk) :: rest →
      (s, place) ∈ x.handles → m.owes (Job.enqueuesFor p s) = false →
        x.Decodes place s chunk y sample →
      Supplying m p x (m.after a p rest { presentation := y, next := [.enqueue sample] }) y
        (some (place, .chunk chunk))
  | enqueue {a rest sample y} : m.stack a = .at p (.enqueue sample) :: rest →
      x.enqueue sample = .ok y →
      Supplying m p x
        (m.after a p rest { presentation := y, effects := [.queued sample]
                            result := some (.ok ()) }) y none
  | close {a rest s place y} : m.stack a = .at p (.endStream place) :: rest →
      (s, place) ∈ x.handles →
      m.owes (Job.enqueuesFor p s) = false → x.endStream s = .ok y →
      Supplying m p x (m.after a p rest { presentation := y, result := some (.ok ()) }) y
        (some (place, .closing))

namespace Supplying

variable {m : Machine H} {p : Key} {x : Presentation H} {action : Action H} {progress : Progress H}

theorem of_call {a : ActorId} {c : Call H} (hplay : m.play (.call a c) = some progress)
    (h : c.supplies p) :
    Supplying m p x progress x none := by
  simp only [Machine.play, Option.ite_none_right_eq_some, Bool.and_eq_true,
    Option.some.injEq] at hplay
  obtain ⟨⟨⟨hmay, -⟩, -⟩, rfl⟩ := hplay
  cases c with
  | push handle chunk =>
      refine .call hmay ?_ (by simp [Call.jobs, Job.enqueuesFor])
      simpa [Call.jobs, Job.supplies, Task.isSupply, Task.isFeed, Call.supplies] using h
  | endStream handle =>
      refine .call hmay ?_ (by simp [Call.jobs, Job.enqueuesFor])
      simpa [Call.jobs, Job.supplies, Task.isSupply, Task.arrival?, Call.supplies] using h
  | _ => cases h

theorem of_perform {a : ActorId} {answers : Answers H} {task : Task H} {rest : List (Job H)}
    {move : Move H} (hplaced : x.Placed) (hstack : m.stack a = .at p task :: rest)
    (hmove : x.perform (m.surroundings a p answers) task = .moves move)
    (hok : move.result.all (·.isOk)) (h : m.admits p x task) :
    ∃ y, Supplying m p x (m.after a p rest move) y task.arrival? := by
  have hfree : ∀ place,
      (x.handles.any fun (s, other) => other == place && !m.owes (Job.enqueuesFor p s)) →
      ∃ s, (s, place) ∈ x.handles ∧ m.owes (Job.enqueuesFor p s) = false := by
    intro place hany
    obtain ⟨⟨s, other⟩, hmem, hother⟩ := List.any_eq_true.mp hany
    simp only [Bool.and_eq_true, beq_iff_eq, Bool.not_eq_true'] at hother
    exact ⟨s, hother.1 ▸ hmem, hother.2⟩
  cases task with
  | push place chunk =>
      obtain ⟨s, hmem, hnone⟩ := hfree place h
      obtain ⟨y, sample, hdecodes, rfl⟩ := Presentation.perform_push_ok (hplaced _ hmem) hmove hok
      exact ⟨y, .push hstack hmem hnone hdecodes⟩
  | enqueue sample =>
      obtain ⟨y, hy, rfl⟩ := Presentation.perform_enqueue_ok hmove hok
      exact ⟨y, .enqueue hstack hy⟩
  | endStream place =>
      obtain ⟨s, hmem, hnone⟩ := hfree place h
      obtain ⟨y, hy, rfl⟩ := Presentation.perform_endStream_ok (hplaced _ hmem) hmove hok
      exact ⟨y, .close hstack hmem hnone hy⟩
  | _ => cases h

theorem of_play (hx : m.presentations[p]? = some x) (hplaced : x.Placed)
    (hplay : m.play action = some progress) (h : Transition.supplies p ⟨m, action, progress⟩)
    (hok : progress.result.all (·.isOk)) :
    ∃ y, Supplying m p x progress y
      ((Transition.deed? p ⟨m, action, progress⟩).bind (·.task.arrival?)) := by
  cases action with
  | call a c => exact ⟨x, of_call hplay h⟩
  | reclaim => cases h
  | addHost => cases h
  | step a answers =>
      rw [Transition.deed?]
      have hany : (Transition.doing? p ⟨m, .step a answers, progress⟩).any
        fun (_, deed) => m.admits p deed.before deed.task := h
      cases hdoing : Transition.doing? p ⟨m, .step a answers, progress⟩ with
      | none => simp [hdoing] at hany
      | some doing =>
          obtain ⟨b, z, task, effects⟩ := doing
          have hadmits : m.admits p z task := by simpa [hdoing] using hany
          obtain ⟨answers', rest, -, hstack, hz, hperform⟩ :=
            Transition.perform_of_doing hplay hdoing
          obtain rfl := Option.some.inj (hx.symm.trans hz)
          have hfree : task.isDuty = false ∧ task ≠ .start := by
            refine ⟨?_, ?_⟩
            · cases task <;> first | rfl | cases hadmits
            · rintro rfl
              cases hadmits
          have hmoves :=
            (Presentation.perform_aside (c := m.surroundings b p answers') (x := x) hfree.1
            fun hstart => absurd hstart hfree.2).ne_unwinds
          rcases hperform with ⟨move, hmove, rfl, -⟩ | ⟨hunwinds, -⟩
          · exact of_perform hplaced hstack hmove hok hadmits
          · exact absurd hunwinds hmoves

theorem queued {y : Presentation H} {arrival? : Option (Nat × Arrival H)}
    (h : Supplying m p x progress y arrival?)
    {q : Key} {e : Effect H} (he : (q, e) ∈ progress.effects) : ∃ sample, e = .queued sample := by
  cases h with
  | @enqueue a rest sample =>
      obtain ⟨-, rfl⟩ := Prod.mk.inj (List.mem_singleton.mp he)
      exact ⟨sample, rfl⟩
  | _ => cases he

end Supplying

/-- Streams of a presentation have been supplied, and each has come to what it makes of what
arrived at it. -/
structure Supplied (m : Machine H) (p : Key) (x : Presentation H) (m' : Machine H)
    (y : Presentation H) (arrivals : List (Nat × Arrival H)) : Prop where
  laden : m.Laden m' p y
  stocked : x.Stocked y arrivals
  strands : ∀ s place, (s, place) ∈ x.handles → ∃ sample?, Awaiting m' p s sample? ∧
    (y.strand place s).settle sample? =
      (Arrival.ofPlace place arrivals).foldl (Strand.take s) (x.strand place s)

namespace Supplied

variable {m m' : Machine H} {p : Key} {x y z : Presentation H} {arrivals : List (Nat × Arrival H)}
  {live : List StreamId} {a : ActorId} {jobs rest : List (Job H)} {s : StreamId} {place : Nat}

theorem refl (hx : m.presentations[p]? = some x) (hquiet : m.owes (Job.supplies p) = false) :
    Supplied m p x m x [] where
  laden := .refl hx
  stocked := .refl x
  strands s _ _ := ⟨none, .of_quiet hquiet s, rfl⟩

theorem invoke (h : Supplied m p x m' y arrivals) (hmay : m'.mayCall a)
    (hjobs : ∀ job ∈ jobs, job.supplies p)
    (hfree : ∀ s, ∀ job ∈ jobs, job.enqueuesFor p s = false) :
    Supplied m p x (m'.invoke a jobs) y arrivals where
  laden := h.laden.invoke (Machine.lt_of_mayCall hmay) hjobs
  stocked := h.stocked
  strands s place hmem := by
    obtain ⟨sample?, hawaiting, hstrand⟩ := h.strands s place hmem
    have hafter : (m'.invoke a jobs).stack a = jobs ++ m'.stack a :=
      Machine.stack_setStack_self (Machine.lt_of_mayCall hmay)
    refine ⟨sample?, hawaiting.keep [] jobs rfl hafter ?_ (hfree s) ?_, hstrand⟩
    · intro b hb
      exact Machine.stack_setStack_of_ne hb
    · intro sample hhead
      rcases Machine.stack_of_mayCall hmay with hempty | ⟨q, below, hcallback⟩
      · simp [hempty] at hhead
      · simp [hcallback] at hhead

theorem push {chunk : Chunk H.Receiver} {sample : Sample H.Receiver}
    (h : Supplied m p x m' y arrivals)
    (htables : x.Tables live) (hquiet : m.owes (Job.supplies p) = false)
    (hstack : m'.stack a = .at p (.push place chunk) :: rest) (hmem : (s, place) ∈ y.handles)
    (hnone : m'.owes (Job.enqueuesFor p s) = false) (hdecodes : y.Decodes place s chunk z sample) :
    Supplied m p x (m'.after a p rest { presentation := z, next := [.enqueue sample] }).machine z
      (arrivals ++ [(place, .chunk chunk)]) := by
  rw [h.stocked.handles_eq] at hmem
  obtain ⟨d, hz⟩ := hdecodes.change
  refine ⟨?_, h.stocked.decode hmem hz, fun u other hother => ?_⟩
  · exact h.laden.after hquiet hstack (by simp [Job.supplies, Task.isSupply, Task.isFeed]) rfl
      (by simp [Task.isSupply, Task.isFeed])
  set m'' := (m'.after a p rest { presentation := z, next := [.enqueue sample] }).machine
  have hafter : m''.stack a = .at p (.enqueue sample) :: rest :=
    Machine.stack_after_self (Machine.lt_of_stack hstack)
  have hothers : ∀ b, b ≠ a → m''.stack b = m'.stack b :=
    fun b hb => Machine.stack_after_others rfl hb
  obtain ⟨sample?, hawaiting, hstrand⟩ := h.strands u other hother
  by_cases hu : u = s
  · subst hu
    obtain rfl := htables.place_eq hmem hother
    have hfree : ∀ b, ∀ job ∈ m'.stack b, job.enqueuesFor p u = false :=
      fun b job hjob => Machine.not_mem_of_owes hnone hjob
    obtain rfl := hawaiting.eq_none hfree
    refine ⟨some sample, .begin hfree hstack hafter hothers hdecodes.stream, ?_⟩
    rw [Arrival.ofPlace_concat_self, List.foldl_append, ← hstrand]
    exact hdecodes.strand.symm
  · have hplace : place ≠ other := by
      rintro rfl
      exact hu (htables.number_eq hother hmem)
    refine ⟨sample?, hawaiting.keep [_] [_] hstack hafter hothers ?_ ?_, ?_⟩
    · simpa [Job.enqueuesFor, hdecodes.stream] using Ne.symm hu
    · simp [hstack]
    · rw [Arrival.ofPlace_concat_of_ne hplace, ← hstrand, hz,
        Presentation.strand_bindDecoder_of_ne y d hplace.symm u]

theorem enqueue {sample : Sample H.Receiver} (h : Supplied m p x m' y arrivals)
    (hquiet : m.owes (Job.supplies p) = false)
    (hstack : m'.stack a = .at p (.enqueue sample) :: rest)
    (hz : y.enqueue sample = .ok z) {move : Move H} (hmove : move.presentation = z)
    (hnext : move.next = []) (hspawned : move.spawned = []) :
    Supplied m p x (m'.after a p rest move).machine z arrivals := by
  subst hmove
  refine ⟨?_, h.stocked.enqueue hz, fun u place hmem => ?_⟩
  · exact h.laden.after hquiet hstack (by simp [Job.supplies, Task.isSupply, Task.isFeed]) hspawned
      (by simp [hnext])
  have hafter : (m'.after a p rest move).machine.stack a = rest := by
    rw [Machine.stack_after_self (Machine.lt_of_stack hstack), hnext]
    rfl
  have hothers : ∀ b, b ≠ a → (m'.after a p rest move).machine.stack b = m'.stack b :=
    fun b hb => Machine.stack_after_others hspawned hb
  obtain ⟨sample?, hawaiting, hstrand⟩ := h.strands u place hmem
  rw [Presentation.strand_of_enqueue hz]
  by_cases hu : sample.streamId = u
  · obtain ⟨rfl, hnone⟩ := hawaiting.finish hu hstack hafter hothers
    exact ⟨none, hnone, by simpa [hu, Strand.settle] using hstrand⟩
  · refine ⟨sample?, hawaiting.keep [_] [] hstack hafter hothers (by simp) ?_, ?_⟩
    · intro other hhead
      rw [hstack] at hhead
      cases hhead
      exact hu
    · simpa [hu] using hstrand

theorem close (h : Supplied m p x m' y arrivals) (htables : x.Tables live)
    (hquiet : m.owes (Job.supplies p) = false)
    (hstack : m'.stack a = .at p (.endStream place) :: rest)
    (hmem : (s, place) ∈ y.handles) (hnone : m'.owes (Job.enqueuesFor p s) = false)
    (hz : y.endStream s = .ok z)
    {move : Move H} (hmove : move.presentation = z) (hnext : move.next = [])
    (hspawned : move.spawned = []) :
    Supplied m p x (m'.after a p rest move).machine z (arrivals ++ [(place, .closing)]) := by
  subst hmove
  rw [h.stocked.handles_eq] at hmem
  refine ⟨?_, h.stocked.endStream hz, fun u other hother => ?_⟩
  · exact h.laden.after hquiet hstack
      (by simp [Job.supplies, Task.isSupply, Task.arrival?]) hspawned (by simp [hnext])
  have hafter : (m'.after a p rest move).machine.stack a = rest := by
    rw [Machine.stack_after_self (Machine.lt_of_stack hstack), hnext]
    rfl
  have hothers : ∀ b, b ≠ a → (m'.after a p rest move).machine.stack b = m'.stack b :=
    fun b hb => Machine.stack_after_others hspawned hb
  obtain ⟨sample?, hawaiting, hstrand⟩ := h.strands u other hother
  have hkeep : Awaiting (m'.after a p rest move).machine p u sample? :=
    hawaiting.keep [_] [] hstack hafter hothers (by simp) (by simp [hstack])
  refine ⟨sample?, hkeep, ?_⟩
  rw [Presentation.strand_of_endStream hz]
  by_cases hu : s = u
  · subst hu
    obtain rfl := htables.place_eq hmem hother
    obtain rfl := hawaiting.eq_none fun b job hjob => Machine.not_mem_of_owes hnone hjob
    rw [if_pos rfl, Arrival.ofPlace_concat_self, List.foldl_append, ← hstrand]
    rfl
  · have hplace : place ≠ other := by
      rintro rfl
      exact hu (htables.number_eq hmem hother)
    rw [if_neg hu, Arrival.ofPlace_concat_of_ne hplace]
    exact hstrand

theorem next {progress : Progress H} {arrival? : Option (Nat × Arrival H)}
    (h : Supplied m p x m' y arrivals)
    (htables : x.Tables live) (hquiet : m.owes (Job.supplies p) = false)
    (hstep : Supplying m' p y progress z arrival?) :
    Supplied m p x progress.machine z (arrivals ++ arrival?.toList) := by
  cases hstep with
  | call hmay hjobs hfree =>
      rw [Option.toList_none, List.append_nil]
      exact h.invoke hmay hjobs hfree
  | push hstack hmem hnone hdecodes => exact h.push htables hquiet hstack hmem hnone hdecodes
  | enqueue hstack hz =>
      rw [Option.toList_none, List.append_nil]
      exact h.enqueue hquiet hstack hz rfl rfl rfl
  | close hstack hmem hnone hz => exact h.close htables hquiet hstack hmem hnone hz rfl rfl rfl

theorem placed (h : Supplied m p x m' y arrivals) (hplaced : x.Placed) : y.Placed := by
  intro handle hmem
  rw [h.stocked.numberAt?_eq]
  exact hplaced handle (h.stocked.handles_eq ▸ hmem)

/-- When all calls have returned, the machine is told by what arrived at each stream. -/
theorem eq {other : Machine H} {more : List (Nat × Arrival H)} (h : Supplied m p x m' y arrivals)
    (hother : Supplied m p x other z more) (htables : x.Tables live)
    (hreturned : m'.owes (Job.supplies p) = false) (hback : other.owes (Job.supplies p) = false)
    (hsame : ∀ place, Arrival.ofPlace place more = Arrival.ofPlace place arrivals) :
    other = m' := by
  have hstrand : ∀ s place, (s, place) ∈ x.handles → z.strand place s = y.strand place s := by
    intro s place hmem
    obtain ⟨sample?, hawaiting, hy⟩ := h.strands s place hmem
    obtain ⟨other?, hlast, hz⟩ := hother.strands s place hmem
    obtain rfl := hawaiting.eq_none (Awaiting.free_of_quiet hreturned s)
    obtain rfl := hlast.eq_none (Awaiting.free_of_quiet hback s)
    calc
      z.strand place s = (Arrival.ofPlace place more).foldl (Strand.take s) (x.strand place s) := hz
      _ = (Arrival.ofPlace place arrivals).foldl (Strand.take s) (x.strand place s) := by rw [hsame]
      _ = y.strand place s := hy.symm
  obtain rfl := h.stocked.eq htables hother.stocked (Arrival.any_isClosing_eq hsame) hstrand
  exact h.laden.eq hother.laden hreturned hback

end Supplied

/-! ## Runs -/

/-- What is released of a presentation with these streams is the head that starts first, and of
heads that start at the same time it is that of the first stream. -/
def Transition.TakesEarliest (t : Transition H) (p : Key) (live : List StreamId) : Prop :=
  ∀ a deed selected, t.doing? p = some (a, deed) → selected ∈ Ledger.released deed.effects →
    deed.before.streamIds = live ∧
      ∃ i q rest, deed.before.queues[i]? = some q ∧ q.samples = selected.sample :: rest ∧
        Schedule.EarliestHead deed.before.queues i selected.sample.startTime

/-- Two runs go on in the same way, and all in all the same samples are released, the same events
are offered and the same samples are acknowledged. -/
structure Run.GoOnAlike (r s later later' : Run H) : Prop where
  final : later'.final = later.final
  since : ∃ since, later.trace = r.trace ++ since ∧ later'.trace = s.trace ++ since
  released : ∀ p, Ledger.released (later'.effects p) = Ledger.released (later.effects p)
  offered : ∀ p, (later'.effects p).filterMap (·.event?) = (later.effects p).filterMap (·.event?)
  acknowledged : ∀ p, Ledger.acknowledged (later'.effects p) = Ledger.acknowledged (later.effects p)

/-- Runs that have only put samples into queues, and have come to the same machine, go on alike. -/
theorem Run.GoOnAlike.of_final {m : Machine H} {actions others : List (Action H)}
    (hfinal : (m.run others).final = (m.run actions).final)
    (hqueued : ∀ q, ∀ e ∈ (m.run actions).effects q, ∃ sample, e = .queued sample)
    (hqueued' : ∀ q, ∀ e ∈ (m.run others).effects q, ∃ sample, e = .queued sample)
    (more : List (Action H)) :
    GoOnAlike (m.run actions) (m.run others) (m.run (actions ++ more))
      (m.run (others ++ more)) := by
  have heffects : ∀ {β : Type} (f : Effect H → Option β) (q : Key),
      (∀ sample, f (.queued sample) = none) →
      ((m.run (others ++ more)).effects q).filterMap f =
      ((m.run (actions ++ more)).effects q).filterMap f := by
    intro β f q hf
    have hnone : ∀ {effects : List (Effect H)}, (∀ e ∈ effects, ∃ sample, e = .queued sample) →
        effects.filterMap f = [] := by
      intro effects hall
      refine List.filterMap_eq_nil_iff.mpr fun e he => ?_
      obtain ⟨sample, rfl⟩ := hall e he
      exact hf sample
    rw [Machine.run_append_eq, Machine.run_append_eq, hfinal, effects, effects, List.flatMap_append,
      List.flatMap_append, List.filterMap_append, List.filterMap_append]
    congr 1
    exact (hnone (hqueued' q)).trans (hnone (hqueued q)).symm
  refine ⟨?_, ⟨((m.run actions).final.run more).trace, ?_, ?_⟩, fun q => heffects _ q fun _ => rfl,
    fun q => heffects _ q fun _ => rfl, fun q => heffects _ q fun _ => rfl⟩
  · rw [Machine.run_append_eq, Machine.run_append_eq, hfinal]
  · rw [Machine.run_append_eq]
  · rw [Machine.run_append_eq, hfinal]

namespace Machine

variable {m : Machine H} {p : Key} {x : Presentation H} {live : List StreamId}

theorem run_supplied (hx : m.presentations[p]? = some x) (htables : x.Tables live)
    (hquiet : m.owes (Job.supplies p) = false) (actions : List (Action H))
    (honly : ∀ t ∈ (m.run actions).trace, t.supplies p)
    (hok : ∀ t ∈ (m.run actions).trace, t.progress.result.all (·.isOk)) :
    (∃ y, Supplied m p x (m.run actions).final y ((m.run actions).arrivals p)) ∧
      ∀ q, ∀ e ∈ (m.run actions).effects q, ∃ sample, e = .queued sample := by
  revert honly hok
  refine run_induction (P := fun r => (∀ t ∈ r.trace, t.supplies p) →
    (∀ t ∈ r.trace, t.progress.result.all (·.isOk)) →
      (∃ y, Supplied m p x r.final y (r.arrivals p)) ∧
        ∀ q, ∀ e ∈ r.effects q, ∃ sample, e = .queued sample)
    m ?_ ?_ actions
  · exact fun _ _ => ⟨⟨x, .refl hx hquiet⟩, by simp [Run.effects]⟩
  · intro r action progress hr hplay honly hok
    have hlast : (⟨r.final, action, progress⟩ : Transition H) ∈
        (r.extend action progress).trace := by
      simp [Run.extend]
    obtain ⟨⟨y, hy⟩, hqueued⟩ := hr (fun t ht => honly t (List.mem_append_left _ ht))
      fun t ht => hok t (List.mem_append_left _ ht)
    obtain ⟨z, hz⟩ :=
      Supplying.of_play hy.laden.present (hy.placed htables.placed) hplay (honly _ hlast)
      (hok _ hlast)
    refine ⟨⟨z, ?_⟩, fun q e he => ?_⟩
    · have hnext := hy.next htables hquiet hz
      rwa [← Run.arrivals_extend] at hnext
    · rw [Run.effects_extend] at he
      rcases List.mem_append.mp he with hold | hnew
      · exact hqueued q e hold
      · obtain ⟨⟨q', e'⟩, hmem, heq⟩ := List.mem_filterMap.mp hnew
        simp only [Option.ite_none_right_eq_some, Option.some.injEq] at heq
        obtain ⟨rfl, rfl⟩ := heq
        exact hz.queued hmem

/-- What is released is the head of the stream whose head starts first, and of streams whose heads
start at the same time, of the one that was registered first. -/
theorem run_takesEarliest (config : Config) (decoders : DecoderBackends H.Codec)
    (outputs : AudioBackends H.Output)
    (actions : List (Action H)) (p : Key) {past after : List (Transition H)} {t : Transition H}
    (htrace : ((initial config decoders outputs).run actions).trace = past ++ t :: after) :
    t.TakesEarliest p (Transition.roster p past) := by
  intro a deed selected hdoing hmem
  obtain ⟨-, crew, crew', -, hturn⟩ := turn_of_trace htrace p
  rw [hdoing] at hturn
  cases hturn with
  | aside _ _ hfree hstart hmove =>
      have hrequeue := (Aside.of_moves (hmove ▸ Presentation.perform_aside hfree hstart)).2.1
      simp [hrequeue.released_eq_nil] at hmem
  | start => cases hmem
  | duty _ hx _ hadv =>
      obtain ⟨pacing, r, before, -, hselect, rfl⟩ := hadv.select_of_mem hmem
      obtain ⟨i, q, sample, rest, hq, hsamples, hearliest, rfl⟩ :=
        Schedule.selectUnpaced?_eq_some (Presentation.selectUnpaced?_of_select hselect)
      exact ⟨(tables_of_trace htrace hx).queues, i, q, rest, hq, hsamples, hearliest⟩

/-- Streams that are supplied in two orders, each with the same things one after the other and with
nothing played meanwhile, make the same machine; whatever comes afterwards comes in both cases, and
all in all the same is released, shown and acknowledged. What is released is the head that starts
first, and with equal starts that of the stream registered first. -/
theorem arrival_order_immaterial (config : Config) (decoders : DecoderBackends H.Codec)
    (outputs : AudioBackends H.Output) {earlier actions others : List (Action H)} {m : Machine H}
    {past : List (Transition H)} {p : Key}
    (hrun : (initial config decoders outputs).run earlier = ⟨m, past⟩)
    (hp : p < m.presentations.length) (hquiet : m.owes (Job.supplies p) = false)
    (hactions : (m.run actions).Supplies p) (hothers : (m.run others).Supplies p)
    (hsame : ∀ place, (m.run others).arrivalsAt p place = (m.run actions).arrivalsAt p place) :
    (m.run others).final = (m.run actions).final ∧
      ∀ more : List (Action H),
        Run.GoOnAlike (m.run actions) (m.run others) (m.run (actions ++ more))
          (m.run (others ++ more)) ∧
          ∀ q before t after, past ++ (m.run (actions ++ more)).trace = before ++ t :: after →
            t.TakesEarliest q (Transition.roster q before) := by
  have hx := List.getElem?_eq_getElem hp
  have htabled := (run_tabled config decoders outputs earlier p).1
  rw [hrun, Run.Tabled, hx] at htabled
  obtain ⟨⟨y, hy⟩, hqueued⟩ :=
    run_supplied hx htabled hquiet actions hactions.only hactions.successful
  obtain ⟨⟨z, hz⟩, hqueued'⟩ :=
    run_supplied hx htabled hquiet others hothers.only hothers.successful
  have hfinal := hy.eq hz htabled hactions.returned hothers.returned hsame
  refine ⟨hfinal,
    fun more => ⟨.of_final hfinal hqueued hqueued' more, fun q before t after htrace => ?_⟩⟩
  have hwhole : ((initial config decoders outputs).run (earlier ++ (actions ++ more))).trace =
      before ++ t :: after := by
    rw [run_append_eq, hrun]
    exact htrace
  exact run_takesEarliest config decoders outputs _ q hwhole

open Playout.Action in
def twoStreams : List (Action .plain) :=
  prepared (.video .unknown 4 4) [] ++ calling 0 (.createStream 0 2) 1
    ++ calling 0 (.setFormat ⟨0, 1⟩ none (.video .unknown 4 4)) 2 ++ [.addHost]

def pushing (place : Nat) : Call .plain :=
  .push ⟨0, place⟩ ⟨0, 0, 1, 1, .empty, [0], 0⟩

open Playout.Action in
def inTurn : List (Action .plain) :=
  calling 0 (pushing 0) 2 ++ calling 0 (.endStream ⟨0, 0⟩) 1 ++ calling 1 (pushing 1) 2

open Playout.Action in
/-- The sample of the second stream is decoded first, and is on its way while the first stream
is supplied. -/
def overlapping : List (Action .plain) :=
  calling 1 (pushing 1) 1 ++ calling 0 (pushing 0) 2 ++ steps 1 1 ++ calling 0 (.endStream ⟨0, 0⟩) 1

theorem overlapping_goesOnAlike :
    (((plain.run twoStreams).final.run overlapping).final.presentations[0]?.map fun x =>
        x.queues.map fun q => (q.samples.length, q.eos)) = some [(1, true), (1, false)] ∧
      ((plain.run twoStreams).final.run overlapping).final =
      ((plain.run twoStreams).final.run inTurn).final ∧
      ∀ more : List (Action .plain),
        Run.GoOnAlike ((plain.run twoStreams).final.run inTurn)
          ((plain.run twoStreams).final.run overlapping)
          ((plain.run twoStreams).final.run (inTurn ++ more))
          ((plain.run twoStreams).final.run (overlapping ++ more)) := by
  have hturns : ((plain.run twoStreams).final.run inTurn).Supplies 0 :=
    ⟨by decide +kernel, by decide +kernel, by decide +kernel⟩
  have hoverlap : ((plain.run twoStreams).final.run overlapping).Supplies 0 :=
    ⟨by decide +kernel, by decide +kernel, by decide +kernel⟩
  have hsame : ∀ place, ((plain.run twoStreams).final.run overlapping).arrivalsAt 0 place =
      ((plain.run twoStreams).final.run inTurn).arrivalsAt 0 place := by
    intro place
    rcases place with _ | _ | place <;> rfl
  have hrun : ∀ r : Run .plain, r = ⟨r.final, r.trace⟩ := fun _ => rfl
  obtain ⟨hfinal, hmore⟩ :=
    @arrival_order_immaterial .plain .standard (.standardDecoders ()) .empty twoStreams inTurn
    overlapping (plain.run twoStreams).final (plain.run twoStreams).trace 0
      (hrun (plain.run twoStreams))
    (by decide +kernel) (by decide +kernel) hturns hoverlap hsame
  exact ⟨by decide +kernel, hfinal, fun more => (hmore more).1⟩

end Machine

end Playout
