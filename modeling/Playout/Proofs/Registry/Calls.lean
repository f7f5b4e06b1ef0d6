import Playout.Proofs.Plain
import Playout.Proofs.Registry.Teardown

/-!
# The registry of a host

What a registry owes its host. Whatever order its actors act in, what is found under an id is the
presentation that was created last under it, an id is refused to a creation exactly while it is
taken, and nothing that is done to one presentation can be noticed at another one. If the host makes
one call after the other, then its removals and shutdowns leave nothing behind, and what it does to
a presentation it does in a call that concerns the presentation.
-/

namespace Playout

variable {H : Platform}

/-! ## Calls underway -/

namespace Action

def key? : Action H → Option Key
  | .call _ c => c.key?
  | .reclaim _ p => some p
  | _ => none

/-- The call is made on the presentation, or it removes what is registered under the
presentation's id. -/
def Concerns (action : Action H) (m : Machine H) (p : Key) : Prop :=
  action.key? = some p ∨ ∃ a c id, action = .call a c ∧ c.clears id ∧ m.find? id = some p

end Action

namespace Transition

def isBeginning (t : Transition H) : Bool :=
  match t.action with
  | .call .. => true
  | .reclaim .. => true
  | _ => false

def latest? (trace : List (Transition H)) : Option (Transition H) :=
  (trace.filter (·.isBeginning)).getLast?

theorem latest?_beginning (trace : List (Transition H)) {t : Transition H} (h : t.isBeginning) :
    latest? (trace ++ [t]) = some t := by
  simp [latest?, h]

theorem latest?_append {since : List (Transition H)} (trace : List (Transition H))
    (h : ∀ t ∈ since, t.isBeginning = false) : latest? (trace ++ since) = latest? trace := by
  have hnone : since.filter (·.isBeginning) = [] :=
    List.filter_eq_nil_iff.mpr fun t ht => by simp [h t ht]
  rw [latest?, List.filter_append, hnone, List.append_nil, latest?]

/-- In a sequence of calls it is the host that begins one, when it has nothing else to do. -/
theorem idle_of_isBeginning {m : Machine H} {action : Action H} {progress : Progress H}
    (h : m.Hosted)
    (hplay : m.play action = some progress) (hsequence : isInSequence ⟨m, action, progress⟩)
    (hbegins : isBeginning ⟨m, action, progress⟩) :
    m.stack 0 = [] ∧ ((∃ c, action = .call 0 c) ∨ ∃ p, action = .reclaim 0 p) := by
  cases action with
  | call a c =>
      simp only [Machine.play, Option.ite_none_right_eq_some, Bool.and_eq_true] at hplay
      obtain rfl := h.eq_zero_of_idle hplay.1.1.1 hsequence
      exact ⟨List.isEmpty_iff.mp hsequence, .inl ⟨c, rfl⟩⟩
  | reclaim a p =>
      simp only [Machine.play, Option.ite_none_right_eq_some] at hplay
      obtain rfl := h.eq_zero_of_idle hplay.1 hsequence
      exact ⟨List.isEmpty_iff.mp hsequence, .inr ⟨p, rfl⟩⟩
  | step => cases hbegins
  | addHost => cases hbegins

end Transition

/-- What the host has left to do of what it began on a machine with this action. -/
inductive Occupied (first : Machine H) (action : Action H) (m : Machine H) :
    List (Job H) → Prop where
  | at {p jobs} : action.key? = some p → (∀ job ∈ jobs, ∃ task, job = .at p task) →
      Occupied first action m jobs
  | creating {a id} : action = .call a (.create id) → Occupied first action m [.create id]
  | clearing {a c f jobs} : action = .call a c → first.Maps f → Clearing first m c jobs →
      Occupied first action m jobs

namespace Occupied

variable {first m : Machine H} {action : Action H} {jobs : List (Job H)} {p : Key} {a : ActorId}
  {answers : Answers H} {progress : Progress H} {f : PresentationId → Option Key}

theorem call (hmaps : m.Maps f) (a : ActorId) (c : Call H) :
    Occupied m (.call a c) (m.invoke a c.jobs) c.jobs := by
  have hclearing : c.unregisters → Occupied m (.call a c) (m.invoke a c.jobs) c.jobs :=
    fun h => .clearing rfl hmaps ((Clearing.start h).spared rfl fun _ x hx => ⟨x, hx, .refl x⟩)
  cases c with
  | create id => exact .creating rfl
  | remove id => exact hclearing rfl
  | shutdown => exact hclearing rfl
  | _ => exact .at rfl (by simp [Call.jobs, Task.stop])

theorem begun (hhosted : m.Hosted) (hmaps : m.Maps f) (hplay : m.play action = some progress)
    (hsequence : Transition.isInSequence ⟨m, action, progress⟩)
    (hbegins : Transition.isBeginning ⟨m, action, progress⟩) :
    Occupied m action progress.machine (progress.machine.stack 0) := by
  have hstack : ∀ jobs, m.mayCall 0 → m.stack 0 = [] → (m.invoke 0 jobs).stack 0 = jobs := by
    intro jobs hmay hidle
    rw [Machine.invoke, Machine.stack_setStack_self (Machine.lt_of_mayCall hmay), hidle,
      List.append_nil]
  obtain ⟨hidle, ⟨c, rfl⟩ | ⟨p, rfl⟩⟩ :=
    Transition.idle_of_isBeginning hhosted hplay hsequence hbegins
  · simp only [Machine.play, Option.ite_none_right_eq_some, Bool.and_eq_true,
      Option.some.injEq] at hplay
    obtain ⟨⟨⟨hmay, -⟩, -⟩, rfl⟩ := hplay
    rw [hstack c.jobs hmay hidle]
    exact .call hmaps 0 c
  · simp only [Machine.play, Option.ite_none_right_eq_some, Option.some.injEq] at hplay
    obtain ⟨hmay, rfl⟩ := hplay
    rw [hstack _ hmay hidle]
    exact .at rfl (by simp)

theorem concerns (h : Occupied first action m jobs) {task : Task H} (hmem : Job.at p task ∈ jobs) :
    action.Concerns first p := by
  cases h with
  | «at» hkey hall =>
      obtain ⟨other, heq⟩ := hall _ hmem
      exact .inl ((Job.at.inj heq).1 ▸ hkey)
  | creating => simp at hmem
  | clearing haction _ hclearing =>
      obtain ⟨id, hid, hfind⟩ := hclearing.key hmem
      exact .inr ⟨_, _, id, haction, hid, hfind⟩

theorem spared {m' : Machine H} (h : Occupied first action m jobs)
    (hregistry : m'.registry = m.registry)
    (hspares : ∀ (p : Key) (x : Presentation H), m.presentations[p]? = some x →
      ∃ y, m'.presentations[p]? = some y ∧ x.Spares y) : Occupied first action m' jobs := by
  cases h with
  | «at» hkey hall => exact .at hkey hall
  | creating haction => exact .creating haction
  | clearing haction hmaps hclearing =>
      exact .clearing haction hmaps (hclearing.spared hregistry hspares)

theorem next (h : Occupied first action m jobs) (hstack : m.stack a = jobs) (hmaps : m.Maps f)
    (hstaffed : m.Staffed) (hplay : m.play (.step a answers) = some progress) :
    progress.machine.stack a = [] ∨
      Occupied first action progress.machine (progress.machine.stack a) := by
  cases h with
  | @«at» p jobs hkey hall =>
      refine .inr (.at hkey ?_)
      cases jobs with
      | nil => simp [Machine.play, Machine.step, hstack] at hplay
      | cons job rest =>
          obtain ⟨⟨task, rfl⟩, hrest⟩ := List.forall_mem_cons.mp hall
          simp only [Machine.play, Machine.step, hstack] at hplay
          intro job hmem
          exact (Machine.stack_perform_at (Machine.lt_of_stack hstack) hplay job hmem).elim
            (fun h => h) (hrest job)
  | @creating b id haction =>
      have hlt := Machine.lt_of_stack hstack
      simp only [Machine.play, Machine.step, hstack, Machine.perform] at hplay
      split at hplay
      · cases hplay
        exact .inl (Machine.stack_setStack_self hlt)
      · cases hplay
        exact .inl (Machine.stack_setStack_self hlt)
  | clearing haction hfirst hclearing =>
      rcases hclearing.next hstack hfirst hmaps hstaffed hplay with ⟨hempty, -⟩ | hnext
      · exact .inl hempty
      · exact .inr (.clearing haction hfirst hnext)

end Occupied

/-! ## Sequences of calls -/

/-- What holds at any time of a host that makes one call after the other. -/
structure Run.Sequential (r : Run H) : Prop where
  hosted : r.final.Hosted
  occupied : r.final.stack 0 ≠ [] → ∃ t, Transition.latest? r.trace = some t ∧
    Occupied t.before t.action r.final (r.final.stack 0)

namespace Run.Sequential

variable {r : Run H} {action : Action H} {progress : Progress H} {f : PresentationId → Option Key}

theorem next (h : r.Sequential) (hmaps : r.final.Maps f) (hstaffed : r.final.Staffed)
    (hplay : r.final.play action = some progress)
    (hsequence : Transition.isInSequence ⟨r.final, action, progress⟩) :
    (r.extend action progress).Sequential where
  hosted := h.hosted.next hplay hsequence
  occupied hbusy := by
    by_cases hbegins : Transition.isBeginning ⟨r.final, action, progress⟩
    · exact ⟨_, Transition.latest?_beginning r.trace hbegins,
        .begun h.hosted hmaps hplay hsequence hbegins⟩
    · have hlatest : Transition.latest? (r.extend action progress).trace =
          Transition.latest? r.trace :=
        Transition.latest?_append r.trace (by simpa using hbegins)
      cases action with
      | call => simp [Transition.isBeginning] at hbegins
      | reclaim => simp [Transition.isBeginning] at hbegins
      | addHost => cases hsequence
      | step a answers =>
          rw [hlatest]
          by_cases ha : a = 0
          · subst ha
            have hbefore : r.final.stack 0 ≠ [] := by
              intro hempty
              simp [Machine.play, Machine.step, hempty] at hplay
            obtain ⟨t, ht, hoccupied⟩ := h.occupied hbefore
            exact ⟨t, ht, (hoccupied.next rfl hmaps hstaffed hplay).resolve_left hbusy⟩
          · obtain ⟨hstack, hregistry⟩ := h.hosted.step_frame ha hplay
            have hsame : (r.extend (.step a answers) progress).final.stack 0 = r.final.stack 0 :=
              hstack
            rw [hsame] at hbusy ⊢
            obtain ⟨t, ht, hoccupied⟩ := h.occupied hbusy
            refine ⟨t, ht, hoccupied.spared hregistry fun p x hx => ?_⟩
            obtain ⟨crew, hcrew, -⟩ := hstaffed p
            obtain ⟨crew', -, hturn⟩ :=
              hcrew.turn (fun q => (hstaffed q).imp fun _ hq => hq.1) hplay
            exact h.hosted.spares ha hcrew hplay hturn hx

theorem ends (h : r.Sequential) (hmaps : r.final.Maps f) (hstaffed : r.final.Staffed)
    (hplay : r.final.play action = some progress)
    (hsequence : Transition.isInSequence ⟨r.final, action, progress⟩) {first : Transition H}
    {c : Call H}
    (hlatest : Transition.latest? r.trace = some first) (hfirst : first.action = .call 0 c)
    (hc : c.unregisters) (hbusy : r.final.stack 0 ≠ []) (hover : progress.machine.stack 0 = []) :
    Transition.Ends ⟨r.final, action, progress⟩ 0 first.before c := by
  have hcontinues : Transition.isBeginning ⟨r.final, action, progress⟩ = false :=
    Bool.eq_false_iff.mpr fun hbegins =>
      hbusy (Transition.idle_of_isBeginning h.hosted hplay hsequence hbegins).1
  cases action with
  | call => cases hcontinues
  | reclaim => cases hcontinues
  | addHost => cases hsequence
  | step a answers =>
      obtain rfl : a = 0 := by
        by_contra ha
        exact hbusy ((h.hosted.step_frame ha hplay).1 ▸ hover)
      obtain ⟨t, ht, hoccupied⟩ := h.occupied hbusy
      obtain rfl := Option.some.inj (hlatest.symm.trans ht)
      generalize hstack : r.final.stack 0 = jobs at hoccupied
      rw [hfirst] at hoccupied
      cases hoccupied with
      | «at» hkey =>
          cases c with
          | remove => cases hkey
          | shutdown => cases hkey
          | _ => cases hc
      | creating haction =>
          cases haction
          cases hc
      | clearing haction hmaps' hclearing =>
          cases haction
          rcases hclearing.next hstack hmaps' hmaps hstaffed hplay with ⟨-, hends⟩ | hnext
          · exact hends
          · exact absurd hover hnext.ne_nil

end Run.Sequential

/-! ## Runs -/

/-- The call that an actor begins with one transition returns with another one. -/
def Run.Returns (r : Run H) (a : ActorId) (c : Call H) (first last : Transition H) : Prop :=
  ∃ past between after, r.trace = past ++ first :: (between ++ last :: after) ∧
    first.action = .call a c ∧
    (∀ t ∈ between ++ [last], t.before.stack a ≠ []) ∧ last.progress.machine.stack a = []

/-- An id is refused if it is taken. Otherwise a new presentation is registered under it. -/
structure Transition.Creates (t : Transition H) (a : ActorId) (id : PresentationId) : Prop where
  refused : (t.before.find? id).isSome → t.Refuses a (.session (.duplicatePresentation id))
  created : t.before.find? id = none → t.progress.result = some (.ok ()) ∧
    t.progress.machine.find? id = some t.before.presentations.length ∧
    ∃ x, t.progress.machine.presentations = t.before.presentations ++ [x] ∧ x.id = id ∧
      x.state = .idle ∧
      x.handles = [] ∧ x.queues = [] ∧ x.streams = []

/-- The host's registry is a map from ids to presentations, which nothing but calls on the registry
changes, and what is removed from it is torn down. -/
structure Run.KeepsRegistry (r : Run H) : Prop where
  maps : r.final.Maps (Transition.lastCreated r.trace)
  get : ∀ id, r.final.get id = match Transition.lastCreated r.trace id with
    | some p => .ok p
    | none => .error (.presentationNotFound id)
  ids : ∀ id, id ∈ r.final.ids ↔ (Transition.lastCreated r.trace id).isSome
  size : r.final.size = r.final.ids.length
  creates : ∀ a id rest answers, r.final.stack a = .create id :: rest →
    ∃ progress, r.final.play (.step a answers) = some progress ∧
      Transition.Creates ⟨r.final, .step a answers, progress⟩ a id
  /-- Where nothing is done to a presentation, nothing is to be noticed at it. -/
  apart : ∀ t ∈ r.trace, ∀ p, t.doing? p = none → t.effects p = [] ∧
    ∀ x, t.before.presentations[p]? = some x → t.progress.machine.presentations[p]? = some x
  /-- A presentation is worked on by its own thread, or by the host in a call that concerns it. -/
  concerned : r.InSequence → ∀ past t after, r.trace = past ++ t :: after → ∀ p a deed,
    t.doing? p = some (a, deed) → t.before.actors[a]?.map (·.role) = some (.playback p) ∨
      a = 0 ∧ ∃ call, Transition.latest? past = some call ∧ call.action.Concerns call.before p
  tornDown : r.InSequence → ∀ a c first last, r.Returns a c first last → c.unregisters →
    last.Ends a first.before c

namespace Machine

variable {m : Machine H} {a : ActorId} {id : PresentationId} {rest : List (Job H)}

theorem play_create (hstack : m.stack a = .create id :: rest) (answers : Answers H) :
    ∃ progress, m.play (.step a answers) = some progress ∧
      Transition.Creates ⟨m, .step a answers, progress⟩ a id := by
  simp only [play, step, hstack, perform]
  cases hfind : m.find? id with
  | some p =>
      exact ⟨_, rfl, fun _ => ⟨_, rest, hstack, rfl⟩, fun hnone => by cases hfind.symm.trans hnone⟩
  | none =>
      refine ⟨_, rfl,
        fun hsome => by simp [hfind] at hsome, fun _ => ⟨rfl, ?_, _, rfl, rfl, rfl, rfl, rfl, rfl⟩⟩
      rw [find?] at hfind
      simp [find?, List.lookup_append, hfind]

variable {config : Config} {decoders : DecoderBackends H.Codec} {outputs : AudioBackends H.Output}
  {actions : List (Action H)}

theorem run_sequential (hsequence : ((initial config decoders outputs).run actions).InSequence) :
    ((initial config decoders outputs).run actions).Sequential := by
  induction actions using List.reverseRecOn with
  | nil =>
      refine ⟨⟨fun b actor hb hactor => ?_⟩,
        fun hbusy => absurd (stack_initial config decoders outputs) hbusy⟩
      obtain ⟨b, rfl⟩ := Nat.exists_eq_succ_of_ne_zero hb
      simp [run, initial] at hactor
  | append_singleton actions action ih =>
      have hact : (initial config decoders outputs).run (actions ++ [action]) =
          ((initial config decoders outputs).run actions).act action := run_append ..
      rw [hact] at hsequence ⊢
      unfold Run.act at hsequence ⊢
      cases hplay : ((initial config decoders outputs).run actions).final.play action with
      | none =>
          rw [hplay] at hsequence
          exact ih hsequence
      | some progress =>
          rw [hplay] at hsequence
          have hpast : ((initial config decoders outputs).run actions).InSequence := fun t ht =>
            hsequence t (List.mem_append_left _ ht)
          have hlast :=
            hsequence ⟨((initial config decoders outputs).run actions).final, action, progress⟩
            (List.mem_append_right _ List.mem_cons_self)
          exact (ih hpast).next (run_maps config decoders outputs actions)
            (run_slotted config decoders outputs actions) hplay hlast

theorem sequential_before (hsequence : ((initial config decoders outputs).run actions).InSequence)
    {past after : List (Transition H)} {t : Transition H}
    (htrace : ((initial config decoders outputs).run actions).trace = past ++ t :: after) :
    ∃ earlier, (initial config decoders outputs).run earlier = ⟨t.before, past⟩ ∧
      t.before.play t.action = some t.progress ∧ (⟨t.before, past⟩ : Run H).Sequential := by
  obtain ⟨earlier, hrun, hplay⟩ := run_split _ actions htrace
  have hpast : ((initial config decoders outputs).run earlier).InSequence := by
    rw [hrun]
    exact fun u hu => hsequence u (by rw [htrace]; exact List.mem_append_left _ hu)
  exact ⟨earlier, hrun, hplay, hrun ▸ run_sequential hpast⟩

theorem concerned_of_doing (hsequence : ((initial config decoders outputs).run actions).InSequence)
    {past after : List (Transition H)} {t : Transition H}
    (htrace : ((initial config decoders outputs).run actions).trace = past ++ t :: after) {p : Key}
    {deed : Deed H} (hdoing : t.doing? p = some (a, deed)) :
    t.before.actors[a]?.map (·.role) = some (.playback p) ∨
      a = 0 ∧ ∃ call, Transition.latest? past = some call ∧ call.action.Concerns call.before p := by
  obtain ⟨-, -, hplay, hordered⟩ := sequential_before hsequence htrace
  by_cases ha : a = 0
  · subst ha
    obtain ⟨answers, rest, -, hstack, -⟩ := Transition.perform_of_doing hplay hdoing
    have hbusy : t.before.stack 0 ≠ [] := by simp [hstack]
    have hmem : Job.at p deed.task ∈ t.before.stack 0 := hstack ▸ List.mem_cons_self
    obtain ⟨call, hcall, hoccupied⟩ := hordered.occupied hbusy
    exact .inr ⟨rfl, call, hcall, hoccupied.concerns hmem⟩
  · obtain ⟨⟨actor, hactor, hrole⟩, -⟩ := hordered.hosted.role_of_doing ha hplay hdoing
    left
    rw [hactor, Option.map_some, hrole]

/-- A host that makes one call after the other begins none until the one before has returned. -/
theorem idle_of_isBeginning (hsequence : ((initial config decoders outputs).run actions).InSequence)
    {t : Transition H} (ht : t ∈ ((initial config decoders outputs).run actions).trace)
    (hbegins : t.isBeginning) :
    t.before.stack 0 = [] ∧ ((∃ c, t.action = .call 0 c) ∨ ∃ p, t.action = .reclaim 0 p) := by
  obtain ⟨past, after, htrace⟩ := List.append_of_mem ht
  obtain ⟨-, -, hplay, hordered⟩ := sequential_before hsequence htrace
  exact Transition.idle_of_isBeginning hordered.hosted hplay (hsequence t ht) hbegins

theorem ends_of_returns (hsequence : ((initial config decoders outputs).run actions).InSequence)
    {c : Call H} {first last : Transition H}
    (hreturns : ((initial config decoders outputs).run actions).Returns a c first last)
    (hc : c.unregisters) : last.Ends a first.before c := by
  obtain ⟨past, between, after, htrace, haction, hbusy, hover⟩ := hreturns
  have hsplit : ((initial config decoders outputs).run actions).trace =
      ((past ++ [first]) ++ between) ++ last :: after := by simp [htrace]
  have hbegins : first.isBeginning := by simp [Transition.isBeginning, haction]
  have hfirst : first ∈ ((initial config decoders outputs).run actions).trace := by simp [htrace]
  have hlast : last ∈ ((initial config decoders outputs).run actions).trace := by simp [htrace]
  obtain rfl : a = 0 := by
    rcases (idle_of_isBeginning hsequence hfirst hbegins).2 with ⟨c', hcall⟩ | ⟨p, hreclaim⟩
    · exact (Action.call.inj (haction.symm.trans hcall)).1
    · cases haction.symm.trans hreclaim
  -- nothing else is begun before the call returns, since the host is busy with it
  have hnone : ∀ t ∈ between, t.isBeginning = false := by
    intro t ht
    refine Bool.eq_false_iff.mpr fun hbegins => hbusy t (List.mem_append_left _ ht) ?_
    exact (idle_of_isBeginning hsequence (by simp [htrace, ht]) hbegins).1
  have hlatest : Transition.latest? ((past ++ [first]) ++ between) = some first := by
    rw [Transition.latest?_append _ hnone]
    exact Transition.latest?_beginning past hbegins
  obtain ⟨earlier, hrun, hplay, hordered⟩ := sequential_before hsequence hsplit
  have hmaps := run_maps config decoders outputs earlier
  have hstaffed : Staffed _ := run_slotted config decoders outputs earlier
  rw [hrun] at hmaps hstaffed
  exact hordered.ends hmaps hstaffed hplay (hsequence last hlast) hlatest haction hc
    (hbusy last (List.mem_append_right _ List.mem_cons_self)) hover

/-- The registry of a host is kept, whatever the host does. -/
theorem registry_kept (config : Config) (decoders : DecoderBackends H.Codec)
    (outputs : AudioBackends H.Output) (actions : List (Action H)) :
    ((initial config decoders outputs).run actions).KeepsRegistry where
  maps := run_maps config decoders outputs actions
  get := (run_maps config decoders outputs actions).get_eq
  ids := (run_maps config decoders outputs actions).mem_ids
  size := Maps.size_eq _
  creates _ _ _ answers hstack := play_create hstack answers
  apart t ht p hnone := by
    obtain ⟨past, after, htrace⟩ := List.append_of_mem ht
    obtain ⟨earlier, hrun, hplay⟩ := run_split _ actions htrace
    obtain ⟨crew, hcrew⟩ := run_crewed config decoders outputs earlier p
    rw [hrun] at hcrew
    obtain ⟨crew', -, hturn⟩ := run_turn config decoders outputs earlier hrun hplay hcrew
    exact ⟨Transition.effects_of_doing hplay hnone, fun x hx => ((hnone ▸ hturn).still hx).1⟩
  concerned hsequence _ _ _ htrace _ _ _ hdoing := concerned_of_doing hsequence htrace hdoing
  tornDown hsequence _ _ _ _ hreturns hc := ends_of_returns hsequence hreturns hc

theorem returns_of_run {earlier during : List (Action H)} {c : Call H} {last : Transition H}
    (hmay : (m.run earlier).final.mayCall a && c.isHosts && (m.run earlier).final.knows c)
    (hbusy : ∀ t ∈ (((m.run earlier).final.invoke a c.jobs).run during).trace,
      t.before.stack a ≠ [])
    (hlast : (((m.run earlier).final.invoke a c.jobs).run during).trace.getLast? = some last)
    (hover : last.progress.machine.stack a = []) :
    (m.run (earlier ++ .call a c :: during)).Returns a c
      ⟨(m.run earlier).final, .call a c, { machine := (m.run earlier).final.invoke a c.jobs }⟩
        last := by
  have hplay : (m.run earlier).final.play (.call a c) =
      some { machine := (m.run earlier).final.invoke a c.jobs } := if_pos hmay
  obtain ⟨between, htrace⟩ := List.getLast?_eq_some_iff.mp hlast
  refine ⟨(m.run earlier).trace, between, [], ?_, rfl, htrace ▸ hbusy, hover⟩
  rw [run_append_eq, run_cons hplay, htrace]

open Playout.Action in
def playing : List (Action .plain) :=
  prepared (.video .unknown 4 4) [0, 1] ++ calling 0 (.start 0) 2 ++ steps 1 4

open Playout.Action in
def removed : List (Action .plain) :=
  playing ++ .call 0 (.remove ⟨.replicate 16 0⟩) :: (steps 0 3 ++ steps 1 9 ++ steps 0 7)

open Playout.Action in
theorem removed_registry_kept :
    (plain.run removed).InSequence ∧ (plain.run removed).KeepsRegistry ∧
      ∃ first last, (plain.run removed).Returns 0 (.remove ⟨.replicate 16 0⟩) first last ∧
        first.before.find? ⟨.replicate 16 0⟩ = some 0 ∧
        (first.before.presentations[0]?).map
            (fun x => (x.isRunning, x.queues.map (·.samples.length), (x.boundDecoder? 0).isSome)) =
          some (true, [1], true) ∧
        last.Ends 0 first.before (.remove ⟨.replicate 16 0⟩) := by
  let c : Call .plain := .remove ⟨.replicate 16 0⟩
  let r := ((plain.run playing).final.invoke 0 c.jobs).run (steps 0 3 ++ steps 1 9 ++ steps 0 7)
  have hsequence : (plain.run removed).InSequence := by
    unfold Run.InSequence
    decide +kernel
  have hkept : (plain.run removed).KeepsRegistry := registry_kept _ _ _ removed
  have hbusy : ∀ t ∈ r.trace, t.before.stack 0 ≠ [] := by decide +kernel
  have hover : r.trace.getLast?.any fun t => (t.progress.machine.stack 0).isEmpty := by
    decide +kernel
  obtain ⟨last, hlast, hempty⟩ := (Option.any_eq_true _ _).mp hover
  have hreturns := returns_of_run (by decide +kernel) hbusy hlast (List.isEmpty_iff.mp hempty)
  exact ⟨hsequence, hkept, _, last, hreturns, by decide +kernel, by decide +kernel,
    hkept.tornDown hsequence 0 c _ last hreturns rfl⟩

end Machine

end Playout
