import Mathlib.Data.List.Forall2
import Playout.Proofs.Delivery.Conservation

/-!
# Pushes

A push is a call that first gives its chunk to the stream's decoder and then, under another lock,
puts the sample in the stream's queue. The journal of a run follows the pushes of every actor until
they return. The pushes that succeed are, in the order in which they return, those whose samples
entered the queues.
-/

namespace Playout

variable {H : Platform}

/-- A push as it was called, with the presentation as it was when the chunk was given to
the decoder. -/
structure Push (H : Platform) where
  handle : Handle
  chunk : Chunk H.Receiver
  seen : Option (Presentation H)

/-- The sample is what the decoder of the stream made of the chunk. -/
def Push.Yields (push : Push H) (sample : Sample H.Receiver) : Prop :=
  ∃ x stream bound decoder, push.seen = some x ∧ x.streams[push.handle.place]? = some stream ∧
    stream.decoder = some bound ∧
    H.decoderOps.decode bound.decoder push.chunk.data push.chunk.flags = (decoder, .ok ()) ∧
    sample = Sample.new stream.id push.chunk.receiver push.chunk.sampleId push.chunk.startTime
      push.chunk.endTime push.chunk.duration (H.decoderOps.take decoder).2
      (H.decoderOps.pixelFormat (H.decoderOps.take decoder).1)

structure Pushes (H : Platform) where
  pending : ActorId → Option (Push H)
  accepted : List (Push H)

namespace Pushes

def empty : Pushes H :=
  ⟨fun _ => none, []⟩

def set (j : Pushes H) (a : ActorId) (push? : Option (Push H)) : Pushes H :=
  { j with pending := fun b => if b = a then push? else j.pending b }

/-- Takes note of a transition. A push returns when the next result of its actor is known. -/
def note (j : Pushes H) (t : Transition H) : Pushes H :=
  match t.action with
  | .call a (.push handle chunk) => j.set a (some ⟨handle, chunk, none⟩)
  | .step a _ =>
    match j.pending a with
    | none => j
    | some push =>
      match t.progress.result with
      | none =>
          j.set a (some { push with seen := t.before.presentations[push.handle.presentation]? })
      | some (.error _) => j.set a none
      | some (.ok ()) => { j.set a none with accepted := j.accepted ++ [push] }
  | _ => j

def acceptedBy (j : Pushes H) (p : Key) : List (Push H) :=
  j.accepted.filter (·.handle.presentation == p)

@[simp] theorem set_pending_self (j : Pushes H) (a : ActorId) (push? : Option (Push H)) :
    (j.set a push?).pending a = push? := by
  simp [set]

theorem set_pending_of_ne (j : Pushes H) {a b : ActorId} (push? : Option (Push H)) (h : b ≠ a) :
    (j.set a push?).pending b = j.pending b := by
  simp [set, h]

end Pushes

def Run.pushes (r : Run H) : Pushes H :=
  r.trace.foldl Pushes.note .empty

/-- The pushes to a presentation that succeeded, in the order of their returns. -/
def Run.accepted (r : Run H) (p : Key) : List (Push H) :=
  r.pushes.acceptedBy p

theorem Run.pushes_extend (r : Run H) (action : Action H) (progress : Progress H) :
    (r.extend action progress).pushes = r.pushes.note ⟨r.final, action, progress⟩ := by
  simp [Run.pushes, Run.extend]

/-! ## Stacks with pushes -/

/-- An actor's pending push is what it does next. There are `n` presentations. -/
inductive Pushing (n : Nat) : Option (Push H) → List (Job H) → Prop where
  | idle {jobs} : (∀ job ∈ jobs, job.isFeed = false) → Pushing n none jobs
  | called {push rest} : push.handle.presentation < n → (∀ job ∈ rest, job.isFeed = false) →
      Pushing n (some push)
        (.at push.handle.presentation (.push push.handle.place push.chunk) :: rest)
  | decoded {push sample rest} : push.handle.presentation < n → push.Yields sample →
      (∀ job ∈ rest, job.isFeed = false) →
      Pushing n (some push) (.at push.handle.presentation (.enqueue sample) :: rest)

theorem Pushing.mono {n k : Nat} {push? : Option (Push H)} {jobs : List (Job H)}
    (h : Pushing n push? jobs) (hk : n ≤ k) : Pushing k push? jobs := by
  cases h with
  | idle hfree => exact .idle hfree
  | called hp hfree => exact .called (Nat.lt_of_lt_of_le hp hk) hfree
  | decoded hp hyields hfree => exact .decoded (Nat.lt_of_lt_of_le hp hk) hyields hfree

/-! ## What tasks leave to be pushed -/

theorem Requeue.entered_eq_nil {x y : Presentation H} {task : Task H} {effects : List (Effect H)}
    (h : Requeue x task y effects) (htask : task.isFeed = false) : Ledger.entered effects = [] := by
  refine h.filterMap_eq_nil (fun _ => Effect.entered?_quiet) (fun _ => rfl) ?_
  rintro sample rfl
  simp [Task.isFeed] at htask

theorem Advance.entered_eq_nil {c : Surroundings H} {x y : Presentation H} {s : Standing H}
    {effects : List (Effect H)} {s? : Option (Standing H)} (h : Advance c x s y effects s?) :
    Ledger.entered effects = [] := by
  cases h.passage with
  | idle hquiet => exact (Ledger.blank_of_quiet hquiet).entered
  | release hselect _ heffects =>
      rw [heffects, Ledger.entered_append,
        (Ledger.blank_of_quiet (Presentation.select_quiet hselect)).entered]
      rfl
  | delivery _ _ _ hentered => exact hentered

theorem Standing.duties_isFeed (s? : Option (Standing H)) : ∀ t ∈ duties s?, t.isFeed = false := by
  rcases s? with _ | s
  · simp [duties]
  · cases s <;> simp [duties, duty, later, Task.isFeed]

/-- Only pushes leave anything to be pushed, and only they make samples enter a queue. -/
theorem Crewed.feeds_of_moves {m : Machine H} {p : Key} {crew : Crew H} {a : ActorId}
    {answers : Answers H} {task : Task H} {rest : List (Job H)} {x : Presentation H} {move : Move H}
    (h : Crewed m p crew) (hstack : m.stack a = .at p task :: rest) (htask : task.isFeed = false)
    (hmove : x.perform (m.surroundings a p answers) task = .moves move) :
    (∀ t ∈ move.next, t.isFeed = false) ∧ (∀ tasks ∈ move.spawned, ∀ t ∈ tasks, t.isFeed = false) ∧
      Ledger.entered move.effects = [] := by
  have howes := h.owes a
  rw [hstack] at howes
  rcases howes.cons_cases with ⟨hfree, -⟩ | ⟨s, hof, hjob, hrest⟩
  · replace hfree : task.isDuty = false := by simpa [Job.isDutyOf] using hfree
    by_cases hstart : task = .start → x.launches (m.surroundings a p answers) = false
    · obtain ⟨-, hqueues, hnext, hspawned⟩ :=
        Aside.of_moves (hmove ▸ Presentation.perform_aside hfree hstart)
      refine ⟨fun t ht => ?_, by simp [hspawned], hqueues.entered_eq_nil htask⟩
      rcases hnext t ht with herrand | ⟨-, hfeed⟩
      · exact (Task.isErrand_iff.mp herrand).2
      · simp [htask] at hfeed
    · obtain ⟨rfl, hlaunches⟩ := Classical.not_imp.mp hstart
      rw [Presentation.perform_start (by simpa using hlaunches)] at hmove
      cases hmove
      exact ⟨by simp [Task.isFeed], by simp [Task.body, Task.isFeed], rfl⟩
  · obtain rfl : task = s.duty := by simpa using hjob
    obtain ⟨s?, hnext, hspawned, hadv⟩ :=
      Onward.of_moves (hmove ▸ Presentation.perform_duty (m.surroundings a p answers) x s)
    refine ⟨fun t ht => ?_, by simp [hspawned], hadv.entered_eq_nil⟩
    have hmem : t ∈ s.interludes x ++ Standing.duties s? := hnext ▸ List.mem_append_left _ ht
    rcases List.mem_append.mp hmem with hmem | hmem
    · exact (Task.isErrand_iff.mp
        (Task.isErrand_of_isInterlude (Standing.isInterlude_of_mem hmem))).2
    · exact Standing.duties_isFeed s? t hmem

/-- The first part of a push fails, or gives a sample that is then put into a queue. -/
theorem Presentation.push_cases {c : Surroundings H} {x : Presentation H} {handle : Handle}
    {chunk : Chunk H.Receiver} {move : Move H}
    (h : x.perform c (.push handle.place chunk) = .moves move) :
    (∃ e, move.next = [] ∧ move.result = some (.error e) ∧ move.effects = [] ∧ move.spawned = []) ∨
      ∃ sample, move.next = [.enqueue sample] ∧ move.result = none ∧ move.effects = [] ∧
        move.spawned = [] ∧ Push.Yields ⟨handle, chunk, some x⟩ sample := by
  have hfail : ∀ {y : Presentation H} {e : MediaError}, y.returning (.error e) [] = .moves move →
      ∃ e, move.next = [] ∧ move.result = some (.error e) ∧ move.effects = [] ∧
        move.spawned = [] := by
    intro y e hmove
    cases hmove
    exact ⟨e, rfl, rfl, rfl, rfl⟩
  simp only [perform, throughHandle] at h
  split at h
  · rename_i stream halive hstream
    simp only [decode, boundDecoder?, hstream, Option.bind_some] at h
    cases hbound : stream.decoder with
    | none =>
        rw [hbound] at h
        exact .inl (hfail h)
    | some bound =>
        rw [hbound] at h
        dsimp only at h
        rcases hdecode : H.decoderOps.decode bound.decoder chunk.data chunk.flags with
          ⟨decoder, e | ⟨⟩⟩
        · rw [hdecode] at h
          exact .inl (hfail h)
        · rw [hdecode] at h
          cases h
          exact .inr ⟨_, rfl, rfl, rfl, rfl, x, stream, bound, decoder, rfl, hstream, hbound,
            hdecode, rfl⟩
  · exact .inl (hfail h)

/-- The second part of a push puts the sample into a queue exactly if the push succeeds. -/
theorem Presentation.enqueue_cases {c : Surroundings H} {x : Presentation H}
    {sample : Sample H.Receiver} {move : Move H} (h : x.perform c (.enqueue sample) = .moves move) :
    move.next = [] ∧ move.spawned = [] ∧
      ((∃ e, move.result = some (.error e) ∧ move.effects = []) ∨
        move.result = some (.ok ()) ∧ move.effects = [.queued sample]) := by
  simp only [perform] at h
  cases hy : x.enqueue sample with
  | error e =>
      simp only [hy] at h
      cases h
      exact ⟨rfl, rfl, .inl ⟨_, rfl, rfl⟩⟩
  | ok y =>
      simp only [hy] at h
      cases h
      exact ⟨rfl, rfl, .inr ⟨rfl, rfl⟩⟩

/-! ## The journal -/

def Feedless (jobs : List (Job H)) : Prop :=
  ∀ job ∈ jobs, job.isFeed = false

theorem Feedless.map_at {tasks : List (Task H)} (p : Key) (h : ∀ t ∈ tasks, t.isFeed = false) :
    Feedless (tasks.map (Job.at p)) := by
  intro job hjob
  obtain ⟨task, htask, rfl⟩ := List.mem_map.mp hjob
  exact h task htask

theorem Feedless.of_errands {jobs : List (Job H)} (h : ∀ job ∈ jobs, job.isErrand) :
    Feedless jobs :=
  fun job hjob => Job.isFeed_of_isErrand (h job hjob)

theorem Feedless.append {jobs more : List (Job H)} (h : Feedless jobs) (hmore : Feedless more) :
    Feedless (jobs ++ more) :=
  fun job hjob => (List.mem_append.mp hjob).elim (h job) (hmore job)

/-- One actor moves. What it has to do afterwards is `jobs`; whoever appears has nothing to push. -/
structure Machine.MovesOn (m m' : Machine H) (a : ActorId) (jobs : List (Job H)) : Prop where
  self : m'.stack a = jobs
  others : ∀ b, b ≠ a → m'.stack b = m.stack b ∨ m.stack b = [] ∧ Feedless (m'.stack b)
  length : m.presentations.length ≤ m'.presentations.length

namespace Machine

variable {m m' : Machine H} {a : ActorId} {jobs rest : List (Job H)} {p : Key} {move : Move H}

theorem movesOn_setStack (ha : a < m.actors.length)
    (hactors : m'.actors = (m.setStack a jobs).actors)
    (hlength : m.presentations.length ≤ m'.presentations.length) : m.MovesOn m' a jobs := by
  have hstack : ∀ b, m'.stack b = (m.setStack a jobs).stack b := fun b => by simp [stack, hactors]
  refine ⟨by rw [hstack, stack_setStack_self ha], fun b hb => .inl ?_, hlength⟩
  rw [hstack, stack_setStack_of_ne hb]

theorem movesOn_after (ha : a < m.actors.length)
    (hspawned : ∀ tasks ∈ move.spawned, ∀ t ∈ tasks, t.isFeed = false) :
    m.MovesOn (m.after a p rest move).machine a (move.next.map (.at p) ++ rest) := by
  refine ⟨stack_after_self ha, fun b hb => ?_, by simp [after, setStack]⟩
  by_cases hold : b < m.actors.length
  · exact .inl (stack_after_of_ne hold hb)
  · refine .inr ⟨stack_of_le (Nat.not_lt.mp hold), ?_⟩
    rw [stack_after_new (Nat.not_lt.mp hold)]
    cases htasks : move.spawned[b - m.actors.length]? with
    | none => exact fun job hjob => by simp at hjob
    | some tasks => exact Feedless.map_at p (hspawned tasks (List.mem_of_getElem? htasks))

theorem movesOn_registry {answers : Answers H} {job : Job H} {progress : Progress H}
    (ha : a < m.actors.length) (hrest : Feedless rest) (hjob : ∀ q task, job ≠ .at q task)
    (hstep : m.perform a answers rest job = some progress) :
    ∃ jobs, m.MovesOn progress.machine a jobs ∧ Feedless jobs := by
  obtain ⟨jobs, created, hregisters⟩ := perform_registry hjob hstep
  refine ⟨jobs ++ rest, movesOn_setStack ha hregisters.actors ?_, ?_⟩
  · rw [hregisters.presentations, List.length_append]
    exact Nat.le_add_right _ _
  · exact (Feedless.of_errands hregisters.errands).append hrest

end Machine

namespace Pushing

variable {m m' : Machine H} {a : ActorId} {jobs rest : List (Job H)}
  {push? : ActorId → Option (Push H)}

/-- Pending pushes stay with their actors while another one moves. -/
theorem movesOn (h : ∀ b, Pushing m.presentations.length (push? b) (m.stack b))
    (hmoves : m.MovesOn m' a jobs) (pushed? : ActorId → Option (Push H))
    (hself : Pushing m'.presentations.length (pushed? a) jobs)
    (hothers : ∀ b, b ≠ a → pushed? b = push? b) (b : ActorId) :
    Pushing m'.presentations.length (pushed? b) (m'.stack b) := by
  by_cases hb : b = a
  · subst hb
    rw [hmoves.self]
    exact hself
  · rw [hothers b hb]
    have hpushing := h b
    rcases hmoves.others b hb with hsame | ⟨hempty, hfree⟩
    · rw [hsame]
      exact hpushing.mono hmoves.length
    · rw [hempty] at hpushing
      generalize hp : push? b = p? at hpushing
      cases hpushing with
      | idle => exact .idle hfree

end Pushing

/-- The journal knows the pushes of all actors, and the samples of those that succeeded. -/
structure Run.Followed (r : Run H) : Prop where
  crewed : ∀ p, ∃ crew, Crewed r.final p crew
  pending : ∀ a, Pushing r.final.presentations.length (r.pushes.pending a) (r.final.stack a)
  accepted : ∀ p, List.Forall₂ Push.Yields (r.accepted p) (Ledger.entered (r.effects p))

namespace Run.Followed

variable {r : Run H} {a : ActorId} {answers : Answers H} {progress : Progress H} {action : Action H}

theorem extend (h : r.Followed) {jobs : List (Job H)} (hplay : r.final.play action = some progress)
    (hmoves : r.final.MovesOn progress.machine a jobs) {j : Pushes H}
    (hnote : r.pushes.note ⟨r.final, action, progress⟩ = j)
    (hself : Pushing progress.machine.presentations.length (j.pending a) jobs)
    (hothers : ∀ b, b ≠ a → j.pending b = r.pushes.pending b)
    (haccepted : ∀ p, List.Forall₂ Push.Yields (j.acceptedBy p)
      (Ledger.entered (r.effects p) ++
        Ledger.entered (Transition.effects ⟨r.final, action, progress⟩ p))) :
    (r.extend action progress).Followed := by
  subst hnote
  refine ⟨fun p => ?_, fun b => ?_, fun p => ?_⟩
  · obtain ⟨crew, hcrew⟩ := h.crewed p
    obtain ⟨crew', hcrew', -⟩ := hcrew.turn h.crewed hplay
    exact ⟨crew', hcrew'⟩
  · rw [Run.pushes_extend]
    exact Pushing.movesOn h.pending hmoves _ hself hothers b
  · rw [Run.accepted, Run.pushes_extend, Run.effects_extend, Ledger.entered_append]
    exact haccepted p

theorem extend_apart (h : r.Followed) {jobs : List (Job H)}
    (hplay : r.final.play action = some progress)
    (hmoves : r.final.MovesOn progress.machine a jobs)
    (hnote : r.pushes.note ⟨r.final, action, progress⟩ = r.pushes)
    (hnone : r.pushes.pending a = none) (hjobs : Feedless jobs)
    (heffects : ∀ p, Ledger.entered (Transition.effects ⟨r.final, action, progress⟩ p) = []) :
    (r.extend action progress).Followed := by
  refine h.extend hplay hmoves hnote (hnone ▸ .idle hjobs) (fun _ _ => rfl) fun p => ?_
  rw [heffects, List.append_nil]
  exact h.accepted p

theorem idle_of_mayCall (h : r.Followed) (hmay : r.final.mayCall a) :
    r.pushes.pending a = none ∧ Feedless (r.final.stack a) := by
  have hpending := h.pending a
  rcases Machine.stack_of_mayCall hmay with hempty | ⟨p, rest, hcallback⟩
  · rw [hempty] at hpending ⊢
    cases hpush : r.pushes.pending a with
    | none => exact ⟨rfl, by simp [Feedless]⟩
    | some push =>
        rw [hpush] at hpending
        cases hpending
  · rw [hcallback] at hpending ⊢
    cases hpush : r.pushes.pending a with
    | none =>
        rw [hpush] at hpending
        cases hpending with
        | idle hfree => exact ⟨rfl, hfree⟩
    | some push =>
        rw [hpush] at hpending
        cases hpending

theorem extend_invoke (h : r.Followed) {jobs : List (Job H)} (hmay : r.final.mayCall a)
    (hplay : r.final.play action = some { machine := r.final.invoke a jobs })
    (hnote : r.pushes.note ⟨r.final, action, { machine := r.final.invoke a jobs }⟩ = r.pushes)
    (hjobs : Feedless jobs) : (r.extend action { machine := r.final.invoke a jobs }).Followed := by
  obtain ⟨hnone, hstack⟩ := h.idle_of_mayCall hmay
  exact h.extend_apart hplay
    (Machine.movesOn_setStack (Machine.lt_of_mayCall hmay) rfl (Nat.le_refl _)) hnote hnone
    (hjobs.append hstack) fun _ => rfl

theorem extend_push (h : r.Followed) {handle : Handle} {chunk : Chunk H.Receiver}
    (hmay : r.final.mayCall a) (hknown : handle.presentation < r.final.presentations.length)
    (hplay : r.final.play (.call a (.push handle chunk)) =
      some { machine := r.final.invoke a (Call.jobs (.push handle chunk)) }) :
    (r.extend (.call a (.push handle chunk))
      { machine := r.final.invoke a (Call.jobs (.push handle chunk)) }).Followed := by
  obtain ⟨-, hstack⟩ := h.idle_of_mayCall hmay
  refine h.extend (j := r.pushes.set a (some ⟨handle, chunk, none⟩)) hplay
    (Machine.movesOn_setStack (Machine.lt_of_mayCall hmay) rfl (Nat.le_refl _)) rfl
    ?_ (fun b hb => Pushes.set_pending_of_ne _ _ hb) fun p => ?_
  · rw [Pushes.set_pending_self]
    exact .called hknown hstack
  · exact (List.append_nil _).symm ▸ h.accepted p

theorem extend_step (h : r.Followed) {job : Job H} {rest : List (Job H)}
    (hplay : r.final.play (.step a answers) = some progress)
    (hstack : r.final.stack a = job :: rest)
    (hstep : r.final.perform a answers rest job = some progress) (hnone : r.pushes.pending a = none)
    (hjob : job.isFeed = false) (hrest : Feedless rest) :
    (r.extend (.step a answers) progress).Followed := by
  have ha := Machine.lt_of_stack hstack
  have hnote : r.pushes.note ⟨r.final, .step a answers, progress⟩ = r.pushes := by
    simp [Pushes.note, hnone]
  have hsilent : progress.effects = [] → ∀ p,
      Ledger.entered (Transition.effects ⟨r.final, .step a answers, progress⟩ p) = [] := by
    intro hnil p
    simp [Transition.effects, hnil, Ledger.entered]
  by_cases hat : ∃ p task, job = .at p task
  · obtain ⟨p, task, rfl⟩ := hat
    have hperform := hstep
    simp only [Machine.perform] at hstep
    cases hx : r.final.presentations[p]? with
    | none =>
        simp only [hx, Option.some.injEq] at hstep
        subst hstep
        exact h.extend_apart hplay (Machine.movesOn_setStack ha rfl (Nat.le_refl _)) hnote hnone
          hrest
          (hsilent rfl)
    | some x =>
        simp only [hx] at hstep
        obtain ⟨crew, hcrew⟩ := h.crewed p
        cases hmove : x.perform (r.final.surroundings a p answers) task with
        | waits => simp [hmove] at hstep
        | moves move =>
            simp only [hmove, Option.some.injEq] at hstep
            subst hstep
            obtain ⟨hnext, hspawned, hentered⟩ := hcrew.feeds_of_moves hstack hjob hmove
            refine h.extend_apart hplay (Machine.movesOn_after ha hspawned) hnote hnone
              ((Feedless.map_at p hnext).append hrest) fun q => ?_
            rw [Transition.effects, Machine.after, filterMap_key]
            split
            · exact hentered
            · rfl
        | unwinds =>
            simp only [hmove, Option.some.injEq] at hstep
            subst hstep
            obtain ⟨-, -, hwhole, -⟩ := hcrew.duties_of_unwinds hstack hmove
            have hlength : (r.final.unwind a).presentations.length =
                r.final.presentations.length := by
              rw [Machine.unwind, hwhole, Crewed.guarded_drainingSink]
              simp
            exact h.extend_apart hplay (Machine.movesOn_setStack ha rfl (Nat.le_of_eq hlength.symm))
              hnote
              hnone (List.forall_mem_nil _) (hsilent rfl)
  · have hnot : ∀ p task, job ≠ .at p task := fun p task heq => hat ⟨p, task, heq⟩
    obtain ⟨jobs, hmoves, hjobs⟩ := Machine.movesOn_registry ha hrest hnot hstep
    refine h.extend_apart hplay hmoves hnote hnone hjobs (hsilent ?_)
    rcases Machine.perform_effects hstep with hnil | ⟨p, task, -, -, heq, -⟩
    · exact hnil
    · exact absurd heq (hnot p task)

theorem moves_of_push (h : r.Followed) {p : Key} {task : Task H} {rest : List (Job H)}
    (hplay : r.final.play (.step a answers) = some progress)
    (hstack : r.final.stack a = .at p task :: rest) (htask : task ≠ .drainSink)
    (hknown : p < r.final.presentations.length) :
    ∃ x move, r.final.presentations[p]? = some x ∧
      x.perform (r.final.surroundings a p answers) task = .moves move ∧
      progress = r.final.after a p rest move := by
  obtain ⟨crew, hcrew⟩ := h.crewed p
  have hx := List.getElem?_eq_getElem hknown
  simp only [Machine.play, Machine.step, hstack, Machine.perform, hx] at hplay
  cases hmove : r.final.presentations[p].perform (r.final.surroundings a p answers) task with
  | waits => simp [hmove] at hplay
  | unwinds => exact absurd (hcrew.duties_of_unwinds hstack hmove).2.1 htask
  | moves move =>
      simp only [hmove, Option.some.injEq] at hplay
      exact ⟨_, move, hx, hmove, hplay.symm⟩

theorem extend_decode (h : r.Followed) {push : Push H} {rest : List (Job H)}
    (hplay : r.final.play (.step a answers) = some progress)
    (hstack : r.final.stack a =
      .at push.handle.presentation (.push push.handle.place push.chunk) :: rest)
    (hpending : r.pushes.pending a = some push)
    (hknown : push.handle.presentation < r.final.presentations.length) (hrest : Feedless rest) :
    (r.extend (.step a answers) progress).Followed := by
  have ha := Machine.lt_of_stack hstack
  obtain ⟨x, move, hx, hmove, rfl⟩ := h.moves_of_push hplay hstack (by simp) hknown
  have hsilent : move.effects = [] → ∀ q, Ledger.entered (Transition.effects
      ⟨r.final, .step a answers, r.final.after a push.handle.presentation rest move⟩ q) = [] := by
    intro hnil q
    simp [Transition.effects, Machine.after, hnil, Ledger.entered]
  rcases Presentation.push_cases hmove with
    ⟨e, hnext, hresult, heffects, hspawned⟩ | ⟨sample, hnext, hresult, heffects, hspawned, hyields⟩
  · refine h.extend (j := r.pushes.set a none) hplay (Machine.movesOn_after ha (by simp [hspawned]))
      ?_ ?_ (fun b hb => Pushes.set_pending_of_ne _ _ hb) fun q => ?_
    · simp [Pushes.note, hpending, Machine.after, hresult]
    · rw [Pushes.set_pending_self, hnext]
      exact .idle hrest
    · rw [hsilent heffects, List.append_nil]
      exact h.accepted q
  · refine h.extend (j := r.pushes.set a (some { push with seen := some x })) hplay
      (Machine.movesOn_after ha (by simp [hspawned])) ?_ ?_
      (fun b hb => Pushes.set_pending_of_ne _ _ hb) fun q => ?_
    · simp [Pushes.note, hpending, Machine.after, hresult, hx]
    · rw [Pushes.set_pending_self, hnext]
      refine @Pushing.decoded _ _ { push with seen := some x } _ _ ?_ hyields hrest
      simpa [Machine.after, Machine.setStack] using hknown
    · rw [hsilent heffects, List.append_nil]
      exact h.accepted q

theorem extend_enqueue (h : r.Followed) {push : Push H} {sample : Sample H.Receiver}
    {rest : List (Job H)} (hplay : r.final.play (.step a answers) = some progress)
    (hstack : r.final.stack a = .at push.handle.presentation (.enqueue sample) :: rest)
    (hpending : r.pushes.pending a = some push)
    (hknown : push.handle.presentation < r.final.presentations.length)
    (hyields : push.Yields sample)
    (hrest : Feedless rest) : (r.extend (.step a answers) progress).Followed := by
  have ha := Machine.lt_of_stack hstack
  obtain ⟨x, move, hx, hmove, rfl⟩ := h.moves_of_push hplay hstack (by simp) hknown
  obtain ⟨hnext, hspawned, ⟨e, hresult, heffects⟩ | ⟨hresult, heffects⟩⟩ :=
    Presentation.enqueue_cases hmove
  · refine h.extend (j := r.pushes.set a none) hplay (Machine.movesOn_after ha (by simp [hspawned]))
      ?_ ?_ (fun b hb => Pushes.set_pending_of_ne _ _ hb) fun q => ?_
    · simp [Pushes.note, hpending, Machine.after, hresult]
    · rw [Pushes.set_pending_self, hnext]
      exact .idle hrest
    · have hnil : Transition.effects
          ⟨r.final, .step a answers, r.final.after a push.handle.presentation rest move⟩ q =
            [] := by
        simp [Transition.effects, Machine.after, heffects]
      rw [hnil]
      exact (List.append_nil _).symm ▸ h.accepted q
  · refine h.extend (j := { r.pushes.set a none with accepted := r.pushes.accepted ++ [push] })
      hplay
      (Machine.movesOn_after ha (by simp [hspawned])) ?_ ?_
      (fun b hb => Pushes.set_pending_of_ne _ _ hb) fun q => ?_
    · simp [Pushes.note, hpending, Machine.after, hresult]
    · show Pushing _ ((r.pushes.set a none).pending a) _
      rw [Pushes.set_pending_self, hnext]
      exact .idle hrest
    · rw [Transition.effects, Machine.after, heffects, filterMap_key, Pushes.acceptedBy,
        List.filter_append]
      refine List.rel_append (h.accepted q) ?_
      by_cases hq : push.handle.presentation = q <;>
        simp [hq, Ledger.entered, Effect.entered?, hyields]

theorem extend_play (h : r.Followed) (hplay : r.final.play action = some progress) :
    (r.extend action progress).Followed := by
  have haction := hplay
  cases action with
  | call a c =>
      simp only [Machine.play, Option.ite_none_right_eq_some, Bool.and_eq_true,
        Option.some.injEq] at haction
      obtain ⟨⟨⟨hmay, hhosts⟩, hknown⟩, rfl⟩ := haction
      rcases Call.jobs_errands hhosts with herrands | ⟨handle, chunk, rfl⟩
      · have hnote :
            r.pushes.note ⟨r.final, .call a c, { machine := r.final.invoke a c.jobs }⟩ =
              r.pushes := by
          cases c with
          | push handle chunk =>
              simp [Call.jobs, Job.isErrand, Task.isErrand, Task.isFeed] at herrands
          | _ => rfl
        exact h.extend_invoke hmay hplay hnote (.of_errands herrands)
      · exact h.extend_push hmay (by simpa [Machine.knows, Call.key?] using hknown) hplay
  | reclaim a p =>
      simp only [Machine.play, Option.ite_none_right_eq_some, Option.some.injEq] at haction
      obtain ⟨hmay, rfl⟩ := haction
      exact h.extend_invoke hmay hplay rfl (by simp [Feedless, Job.isFeed, Task.isFeed])
  | addHost =>
      simp only [Machine.play, Option.some.injEq] at haction
      subst haction
      refine ⟨fun p => (h.crewed p).imp fun _ hcrew => hcrew.addHost, fun a => ?_, fun p => ?_⟩
      · rw [Run.pushes_extend]
        show Pushing _ (r.pushes.pending a) (r.final.addHost.stack a)
        rw [Machine.stack_addHost]
        exact h.pending a
      · rw [Run.accepted, Run.pushes_extend, Run.effects_extend, Ledger.entered_append]
        exact (List.append_nil _).symm ▸ h.accepted p
  | step a answers =>
      simp only [Machine.play, Machine.step] at haction
      cases hstack : r.final.stack a with
      | nil => simp [hstack] at haction
      | cons job rest =>
          simp only [hstack] at haction
          have hpending := h.pending a
          rw [hstack] at hpending
          generalize hpush : r.pushes.pending a = push? at hpending
          cases hpending with
          | idle hfree =>
              exact h.extend_step hplay hstack haction hpush (hfree job List.mem_cons_self)
                fun other hother => hfree other (List.mem_cons_of_mem _ hother)
          | called hknown hrest => exact h.extend_decode hplay hstack hpush hknown hrest
          | decoded hknown hyields hrest =>
              exact h.extend_enqueue hplay hstack hpush hknown hyields hrest

end Run.Followed

theorem Machine.run_followed (config : Config) (decoders : DecoderBackends H.Codec)
    (outputs : AudioBackends H.Output) (actions : List (Action H)) :
    ((initial config decoders outputs).run actions).Followed := by
  refine run_induction (P := Run.Followed) _ ?_
    (fun r action progress h hplay => h.extend_play hplay)
    actions
  refine ⟨fun p => ⟨none, .initial config decoders outputs p⟩, fun a => ?_, fun p => .nil⟩
  rw [stack_initial]
  exact .idle (List.forall_mem_nil _)

end Playout
