import Playout.Proofs.Plain
import Playout.Proofs.Presentation.Handles

/-!
# Removed streams

A stream is removed in two parts: it is unregistered, so that its queue goes, and then its decoder
is released. Handles on it stay with the host. When the removal has returned, the stream has no
decoder any more, and what goes through its handles fails, unless another stream has got its
number meanwhile.
-/

namespace Playout

variable {H : Platform}

def Job.loadsFor (p : Key) (place : Nat) : Job H → Bool
  | .at q task => q == p && task.loadsFor place
  | _ => false

namespace Transition

def unregisters? (t : Transition H) (p : Key) (s : StreamId) : Option (ActorId × Nat) :=
  (t.doing? p).bind fun (a, deed) =>
    match deed.task with
    | .detachStream other => if other = s then (deed.before.findStream? s).map (a, ·) else none
    | _ => none

def returns (t : Transition H) (a : ActorId) : Bool :=
  match t.action with
  | .step b _ => b == a && t.progress.result.isSome
  | _ => false

/-- A format is negotiated through a handle on the stream at a place, while a stream is registered
under this number. -/
def negotiatesFor (t : Transition H) (p : Key) (place : Nat) (s : StreamId) : Bool :=
  (t.doing? p).any fun (_, deed) =>
    match deed.task with
    | .setFormat other _ _ => other == place && (deed.before.queue? s).isSome
    | _ => false

/-- A call of the actor ends with this error, and nothing else has changed. -/
def Refuses (t : Transition H) (a : ActorId) (e : MediaError) : Prop :=
  ∃ job rest, t.before.stack a = job :: rest ∧
    t.progress = { machine := t.before.setStack a rest, result := some (.error e) }

def Rebuffs (t : Transition H) (a : ActorId) : Prop :=
  ∃ e, t.Refuses a e

theorem unregisters?_eq_some {t : Transition H} {p : Key} {s : StreamId} {a : ActorId} {place : Nat}
    (h : t.unregisters? p s = some (a, place)) :
    ∃ x effects, t.doing? p = some (a, ⟨x, .detachStream s, effects⟩) ∧
      x.findStream? s = some place := by
  obtain ⟨⟨b, x, task, effects⟩, hdoing, hplace⟩ := Option.bind_eq_some_iff.mp h
  cases task with
  | detachStream other =>
      simp only [Option.ite_none_right_eq_some] at hplace
      obtain ⟨rfl, hplace⟩ := hplace
      obtain ⟨found, hfound, heq⟩ := Option.map_eq_some_iff.mp hplace
      cases heq
      exact ⟨x, effects, hdoing, hfound⟩
  | _ => cases hplace

end Transition

/-- Who is about to do a task of the presentation does it now, or has it still to do and returns
from nothing. Only inside a callback there can be something else to be done first. -/
theorem Turn.own_or_stays {m : Machine H} {p : Key} {crew crew' : Crew H} {action : Action H}
    {progress : Progress H} {a : ActorId} {x : Presentation H} {task : Task H} {rest : List (Job H)}
    (h : Turn m progress.machine p crew (Transition.doing? p ⟨m, action, progress⟩) crew')
    (hplay : m.play action = some progress) (hx : m.presentations[p]? = some x)
    (hstack : m.stack a = .at p task :: rest) (hbusy : task ≠ .callback) :
    (∃ effects, Transition.doing? p ⟨m, action, progress⟩ = some (a, ⟨x, task, effects⟩)) ∨
      Transition.returns ⟨m, action, progress⟩ a = false ∧
        progress.machine.stack a = m.stack a := by
  by_cases hown : Transition.IsBy ⟨m, action, progress⟩ a
  · exact .inl (Transition.doing?_of_isBy hown (by rw [hstack]; rfl) hx)
  · refine .inr ⟨Bool.eq_false_iff.mpr fun hreturns => ?_,
      (h.does_or_stays hx hstack hbusy).resolve_left ?_⟩
    · cases action with
      | step b answers =>
          simp only [Transition.returns, Bool.and_eq_true, beq_iff_eq] at hreturns
          exact hown ⟨answers, by rw [hreturns.1]⟩
      | _ => cases hreturns
    · rintro ⟨⟨y, other, effects⟩, hdoing⟩
      obtain ⟨answers, -, rfl, -⟩ := Transition.perform_of_doing hplay hdoing
      exact hown ⟨answers, rfl⟩

/-! ## The stream -/

/-- A stream of a presentation for which nobody is about to load a decoder. -/
structure Severed (m : Machine H) (p : Key) (place : Nat) (s : StreamId) (x : Presentation H) :
    Prop where
  present : m.presentations[p]? = some x
  stream : x.numberAt? place = some s
  unloading : ∀ b t, Job.at p t ∈ m.stack b → t.loadsFor place = false

namespace Severed

variable {m : Machine H} {p : Key} {place : Nat} {s : StreamId} {x : Presentation H}
  {action : Action H}
  {progress : Progress H} {crew crew' : Crew H}

theorem unloading_next (h : Severed m p place s x)
    (hturn : Turn m progress.machine p crew (Transition.doing? p ⟨m, action, progress⟩) crew')
    (hnone : Transition.negotiatesFor ⟨m, action, progress⟩ p place s = false) :
    ∀ b t, Job.at p t ∈ progress.machine.stack b → t.loadsFor place = false := by
  intro b t hmem
  rcases hturn.task_cases hmem with hold | hplanned | hduty | hinterlude | ⟨thread, rfl⟩ |
    ⟨a, answers, y, task, move, hdoing, hy, hfree, hstart, hmove, hnext⟩
  · exact h.unloading b t hold
  · exact Task.loadsFor_of_isPlanned hplanned place
  · exact Task.loadsFor_of_isDuty hduty place
  · cases t <;> first | rfl | cases hinterlude
  · rfl
  · obtain rfl := Option.some.inj (h.present.symm.trans hy)
    refine Presentation.next_unloading hfree hstart hmove h.stream ?_ t hnext
    rintro decoder media rfl
    simpa [Transition.negotiatesFor, hdoing] using hnone

/-- It stays so, and without a decoder if it has none, unless a negotiation finds another stream. -/
theorem next (h : Severed m p place s x) (hcrew : Crewed m p crew)
    (hplay : m.play action = some progress)
    (hturn : Turn m progress.machine p crew (Transition.doing? p ⟨m, action, progress⟩) crew')
    (hnone : Transition.negotiatesFor ⟨m, action, progress⟩ p place s = false) :
    ∃ y, Severed progress.machine p place s y ∧
      (x.boundDecoder? place = none → y.boundDecoder? place = none) := by
  have hunloading := h.unloading_next hturn hnone
  obtain ⟨y, hy⟩ := hturn.exists_after h.present
  rcases hcrew.step_of_turn hturn h.present hy with
    ⟨-, rfl, -⟩ | ⟨b, ⟨z, task, effects⟩, hdoing, hstep⟩
  · exact ⟨y, ⟨hy, h.stream, hunloading⟩, id⟩
  · obtain ⟨answers, rest, -, hstack, -⟩ := Transition.perform_of_doing hplay hdoing
    have hload : task.loadsFor place = false := h.unloading b task (hstack ▸ List.mem_cons_self)
    have hlasts := hstep.lasts
    exact ⟨y, ⟨hy, hlasts.number place s h.stream, hunloading⟩, hlasts.undecoded place hload⟩

end Severed

/-! ## The removal -/

/-- What is left to be done of a removal, once the stream is unregistered. Something holds by the
time that its decoder has been released. -/
inductive Releasing (place : Nat) (cleared : Prop) : List (Task H) → Prop where
  | releasing : Releasing place cleared [.releaseDecoders [place], .finish]
  | released : cleared → Releasing place cleared [.releaseDecoders [], .finish]
  | finishing : cleared → Releasing place cleared [.finish]

namespace Releasing

variable {m : Machine H} {p : Key} {place : Nat} {a : ActorId} {x y : Presentation H}
  {action : Action H}
  {progress : Progress H} {crew crew' : Crew H} {task : Task H} {tasks : List (Task H)}
  {base : List (Job H)}
  {P : Presentation H → Prop} {cleared cleared' : Prop}

theorem mono (h : Releasing place cleared tasks) (hkept : cleared → cleared') :
    Releasing place cleared' tasks := by
  cases h with
  | releasing => exact .releasing
  | released hcleared => exact .released (hkept hcleared)
  | finishing hcleared => exact .finishing (hkept hcleared)

theorem cons (h : Releasing place cleared tasks) :
    ∃ task rest, tasks = task :: rest ∧ task ≠ .callback := by
  cases h <;> exact ⟨_, _, rfl, by simp⟩

/-- The next task leads on to the others, and the last one returns. -/
theorem perform (hreleased : ∀ z : Presentation H, P (z.bindDecoder place none))
    (c : Surroundings H) {rest : List (Task H)} (h : Releasing place (P x) (task :: rest)) :
    (∃ y next effects, x.perform c task = y.going next effects ∧
      Releasing place (P y) (next ++ rest)) ∨
      rest = [] ∧ x.perform c task = x.returning (.ok ()) [] ∧ P x := by
  generalize hall : task :: rest = all at h
  cases h with
  | releasing =>
      cases hall
      exact .inl ⟨_, _, _, rfl, .released (hreleased x)⟩
  | released hcleared =>
      cases hall
      exact .inl ⟨_, _, _, rfl, .finishing hcleared⟩
  | finishing hcleared =>
      cases hall
      exact .inr ⟨rfl, rfl, hcleared⟩

theorem own (hreleased : ∀ z : Presentation H, P (z.bindDecoder place none)) {rest : List (Task H)}
    {effects : List (Effect H)} (h : Releasing place (P x) (task :: rest))
    (hplay : m.play action = some progress)
    (hdoing : Transition.doing? p ⟨m, action, progress⟩ = some (a, ⟨x, task, effects⟩))
    (hstack : m.stack a = (task :: rest).map (.at p) ++ base) :
    ∃ y, progress.machine.presentations[p]? = some y ∧
      (Transition.returns ⟨m, action, progress⟩ a ∧ progress.result = some (.ok ()) ∧ P y ∨
        Transition.returns ⟨m, action, progress⟩ a = false ∧
          ∃ tasks', progress.machine.stack a = tasks'.map (.at p) ++ base ∧
            Releasing place (P y) tasks') := by
  obtain ⟨answers, below, rfl, hhead, hx, hperform⟩ := Transition.perform_of_doing hplay hdoing
  obtain rfl : below = rest.map (.at p) ++ base := (List.cons.inj (hhead.symm.trans hstack)).2
  rcases h.perform hreleased (m.surroundings a p answers) with
    ⟨y, next, effects', hgoing, hnext⟩ | ⟨rfl, hreturning, hcleared⟩
  · obtain ⟨rfl, -⟩ := Outcome.of_moves hperform hgoing
    refine ⟨y, Crewed.presentation_after hx, .inr ⟨Bool.and_false _, next ++ rest, ?_, hnext⟩⟩
    rw [Machine.stack_after_self (Machine.lt_of_stack hhead), List.map_append, List.append_assoc]
  · obtain ⟨rfl, -⟩ := Outcome.of_moves hperform hreturning
    refine ⟨x, Crewed.presentation_after hx, .inl ⟨?_, rfl, hcleared⟩⟩
    simp [Transition.returns, Machine.after]

/-- Nobody else can do anything about it. -/
theorem next (hreleased : ∀ z : Presentation H, P (z.bindDecoder place none))
    (h : Releasing place (P x) tasks) (hplay : m.play action = some progress)
    (hturn : Turn m progress.machine p crew (Transition.doing? p ⟨m, action, progress⟩) crew')
    (hx : m.presentations[p]? = some x) (hy : progress.machine.presentations[p]? = some y)
    (hstack : m.stack a = tasks.map (.at p) ++ base) (hkept : P x → P y) :
    Transition.returns ⟨m, action, progress⟩ a ∧ progress.result = some (.ok ()) ∧ P y ∨
      Transition.returns ⟨m, action, progress⟩ a = false ∧
        ∃ tasks', progress.machine.stack a = tasks'.map (.at p) ++ base ∧
          Releasing place (P y) tasks' := by
  obtain ⟨task, rest, rfl, hbusy⟩ := h.cons
  rcases hturn.own_or_stays hplay hx hstack hbusy with ⟨effects, hdoing⟩ | ⟨hquiet, hsame⟩
  · obtain ⟨z, hz, hcases⟩ := h.own hreleased hplay hdoing hstack
    obtain rfl := Option.some.inj (hz.symm.trans hy)
    exact hcases
  · exact .inr ⟨hquiet, _, hsame.trans hstack, h.mono hkept⟩

end Releasing

/-- The stream at the place has no decoder any more once it has been released. -/
abbrev Removing (place : Nat) (x : Presentation H) : List (Task H) → Prop :=
  Releasing place (x.boundDecoder? place = none)

theorem Removing.next {m : Machine H} {p : Key} {place : Nat} {a : ActorId} {x y : Presentation H}
    {action : Action H} {progress : Progress H} {crew crew' : Crew H} {tasks : List (Task H)}
    {base : List (Job H)} (h : Removing place x tasks) (hplay : m.play action = some progress)
    (hturn : Turn m progress.machine p crew (Transition.doing? p ⟨m, action, progress⟩) crew')
    (hx : m.presentations[p]? = some x) (hy : progress.machine.presentations[p]? = some y)
    (hstack : m.stack a = tasks.map (.at p) ++ base)
    (hkept : x.boundDecoder? place = none → y.boundDecoder? place = none) :
    Transition.returns ⟨m, action, progress⟩ a ∧ progress.result = some (.ok ()) ∧
        y.boundDecoder? place = none ∨
      Transition.returns ⟨m, action, progress⟩ a = false ∧
        ∃ tasks', progress.machine.stack a = tasks'.map (.at p) ++ base ∧ Removing place y tasks' :=
  Releasing.next (P := (·.boundDecoder? place = none))
    (Presentation.boundDecoder?_bindDecoder_none · place) h hplay
    hturn hx hy hstack hkept

/-! ## Runs -/

/-- An actor unregisters the stream at a place. Nobody is about to load a decoder for it then, and
no format is negotiated afterwards through a handle on it while another stream has its number. -/
structure Removal (p : Key) (s : StreamId) (a : ActorId) (place : Nat) (first : Transition H)
    (since : List (Transition H)) : Prop where
  begun : first.unregisters? p s = some (a, place)
  unloading : first.before.owes (Job.loadsFor p place) = false
  unmistaken : ∀ t ∈ since, t.negotiatesFor p place s = false

structure Removed (m : Machine H) (p : Key) (s : StreamId) (a : ActorId) (place : Nat)
    (since : List (Transition H)) (x : Presentation H) : Prop where
  severed : Severed m p place s x
  underway : (∀ t ∈ since, t.returns a = false) →
    ∃ tasks base, m.stack a = tasks.map (.at p) ++ base ∧ Removing place x tasks
  returned : (∃ t ∈ since, t.returns a) → x.boundDecoder? place = none

structure Run.Removes (r : Run H) (p : Key) : Prop where
  placed : ∀ x, r.final.presentations[p]? = some x → x.Placed
  removed : ∀ past first since s a place, r.trace = past ++ first :: since →
    Removal p s a place first since → ∃ x, Removed r.final p s a place since x

theorem Removal.of_append {p : Key} {s : StreamId} {a : ActorId} {place : Nat}
    {first : Transition H}
    {since more : List (Transition H)} (h : Removal p s a place first (since ++ more)) :
    Removal p s a place first since where
  begun := h.begun
  unloading := h.unloading
  unmistaken t ht := h.unmistaken t (List.mem_append_left _ ht)

namespace Removed

variable {m : Machine H} {p : Key} {s : StreamId} {a : ActorId} {place : Nat} {x : Presentation H}
  {action : Action H} {progress : Progress H} {crew crew' : Crew H} {since : List (Transition H)}

theorem begin (hremoval : Removal p s a place ⟨m, action, progress⟩ []) (hcrew : Crewed m p crew)
    (hplay : m.play action = some progress)
    (hturn : Turn m progress.machine p crew (Transition.doing? p ⟨m, action, progress⟩) crew')
    (hplaced : ∀ x, m.presentations[p]? = some x → x.Placed) :
    ∃ y, Removed progress.machine p s a place [] y := by
  obtain ⟨x, effects, hdoing, hplace⟩ := Transition.unregisters?_eq_some hremoval.begun
  obtain ⟨answers, rest, rfl, hstack, hx, hperform⟩ := Transition.perform_of_doing hplay hdoing
  have hbefore : Severed m p place s x := by
    refine ⟨hx, (hplaced x hx).numberAt?_of_findStream? hplace,
      fun b t hmem => Bool.eq_false_iff.mpr fun hload => ?_⟩
    have howes :=
      Machine.owes_of_mem (f := Job.loadsFor p place) hmem (by simp [Job.loadsFor, hload])
    rw [hremoval.unloading] at howes
    cases howes
  obtain ⟨y, hsevered, -⟩ :=
    hbefore.next hcrew hplay hturn (by simp [Transition.negotiatesFor, hdoing])
  refine ⟨y, hsevered, fun _ => ?_, fun hreturned => by simp at hreturned⟩
  simp only [Presentation.perform, Presentation.detachStream, hplace] at hperform
  obtain ⟨rfl, -⟩ := Outcome.of_moves hperform rfl
  exact ⟨_, rest, Machine.stack_after_self (Machine.lt_of_stack hstack), .releasing⟩

theorem next (h : Removed m p s a place since x) (hcrew : Crewed m p crew)
    (hplay : m.play action = some progress)
    (hturn : Turn m progress.machine p crew (Transition.doing? p ⟨m, action, progress⟩) crew')
    (hnone : Transition.negotiatesFor ⟨m, action, progress⟩ p place s = false) :
    ∃ y, Removed progress.machine p s a place (since ++ [⟨m, action, progress⟩]) y := by
  obtain ⟨y, hsevered, hkept⟩ := h.severed.next hcrew hplay hturn hnone
  refine ⟨y, hsevered, fun hbusy => ?_, fun ⟨t, ht, hreturns⟩ => ?_⟩
  · obtain ⟨tasks, base, hstack, hremoving⟩ :=
      h.underway fun t ht => hbusy t (List.mem_append_left _ ht)
    rcases hremoving.next hplay hturn h.severed.present hsevered.present hstack hkept with
      ⟨hreturns, -⟩ | ⟨-, tasks', hstack', hremoving'⟩
    · rw [hbusy _ List.mem_concat_self] at hreturns
      cases hreturns
    · exact ⟨tasks', base, hstack', hremoving'⟩
  · by_cases hearlier : ∃ t ∈ since, t.returns a
    · exact hkept (h.returned hearlier)
    · have hbusy : ∀ t ∈ since, t.returns a = false := by simpa using hearlier
      obtain ⟨tasks, base, hstack, hremoving⟩ := h.underway hbusy
      rcases List.mem_append.mp ht with hold | hnew
      · exact absurd ⟨t, hold, hreturns⟩ hearlier
      · rw [List.mem_singleton.mp hnew] at hreturns
        rcases hremoving.next hplay hturn h.severed.present hsevered.present hstack hkept with
          ⟨-, -, hundecoded⟩ | ⟨hreturns', -⟩
        · exact hundecoded
        · rw [hreturns] at hreturns'
          cases hreturns'

theorem result (h : Removed m p s a place since x) (hcrew : Crewed m p crew)
    (hplay : m.play action = some progress)
    (hturn : Turn m progress.machine p crew (Transition.doing? p ⟨m, action, progress⟩) crew')
    (hnone : Transition.negotiatesFor ⟨m, action, progress⟩ p place s = false)
    (hbusy : ∀ t ∈ since, t.returns a = false)
    (hreturns : Transition.returns ⟨m, action, progress⟩ a) :
    progress.result = some (.ok ()) := by
  obtain ⟨y, hsevered, hkept⟩ := h.severed.next hcrew hplay hturn hnone
  obtain ⟨tasks, base, hstack, hremoving⟩ := h.underway hbusy
  rcases hremoving.next hplay hturn h.severed.present hsevered.present hstack hkept with
    ⟨-, hresult, -⟩ | ⟨hreturns', -⟩
  · exact hresult
  · rw [hreturns] at hreturns'
    cases hreturns'

/-- Once the removal has returned, what goes through a handle fails, but for an end of
another stream. -/
theorem rebuffs {b : ActorId} {deed : Deed H} (h : Removed m p s a place since x)
    (hreturned : ∃ t ∈ since, t.returns a) (hplay : m.play action = some progress)
    (hnone : Transition.negotiatesFor ⟨m, action, progress⟩ p place s = false)
    (hdoing : Transition.doing? p ⟨m, action, progress⟩ = some (b, deed))
    (hthrough : deed.task.isThrough place)
    (hend : deed.task = .endStream place → deed.before.queue? s = none) :
    Transition.Rebuffs ⟨m, action, progress⟩ b := by
  obtain ⟨z, task, effects⟩ := deed
  obtain ⟨answers, rest, -, hstack, hz, hperform⟩ := Transition.perform_of_doing hplay hdoing
  obtain rfl := Option.some.inj (h.severed.present.symm.trans hz)
  have hunregistered : task.isFeed = false → x.queue? s = none := by
    intro hfeed
    cases task with
    | setFormat other decoder media =>
        obtain rfl : other = place := by simpa [Task.isThrough] using hthrough
        simpa [Transition.negotiatesFor, hdoing] using hnone
    | endStream other =>
        obtain rfl : other = place := by simpa [Task.isThrough] using hthrough
        exact hend rfl
    | push => cases hfeed
    | _ => cases hthrough
  obtain ⟨e, hfails⟩ :=
    Presentation.perform_through (c := m.surroundings b p answers) h.severed.stream
    (h.returned hreturned) hthrough hunregistered
  obtain ⟨rfl, -⟩ := Outcome.of_moves hperform hfails
  exact ⟨e, _, rest, hstack, Machine.after_still hz b rest⟩

end Removed

theorem Run.Removes.next {r : Run H} {p : Key} {action : Action H} {progress : Progress H}
    {crew crew' : Crew H} (h : r.Removes p) (hcrew : Crewed r.final p crew)
    (hplay : r.final.play action = some progress)
    (hturn : Turn r.final progress.machine p crew
      (Transition.doing? p ⟨r.final, action, progress⟩) crew') :
    (r.extend action progress).Removes p where
  placed y hy := by
    cases hx : r.final.presentations[p]? with
    | none =>
        obtain ⟨-, -, hstill | ⟨id, hnew⟩⟩ := hturn.absent hx
        · cases hstill.symm.trans hy
        · cases hnew.symm.trans hy
          exact fun _ hmem => absurd hmem List.not_mem_nil
    | some x =>
        rcases hcrew.step_of_turn hturn hx hy with ⟨-, rfl, -⟩ | ⟨b, deed, -, hstep⟩
        · exact h.placed y hx
        · exact hstep.lasts.placed (h.placed x hx)
  removed past first since s a place htrace hremoval := by
    rcases snoc_eq_split htrace with ⟨-, rfl, rfl⟩ | ⟨rest, rfl, hinit⟩
    · exact Removed.begin hremoval hcrew hplay hturn h.placed
    · obtain ⟨x, hremoved⟩ := h.removed past first rest s a place hinit hremoval.of_append
      exact hremoved.next hcrew hplay hturn (hremoval.unmistaken _ List.mem_concat_self)

/-- Nothing comes of the handles on the stream at a place any more. -/
structure Lifeless (p : Key) (place : Nat) (s : StreamId) (last : Transition H)
    (after : List (Transition H)) :
    Prop where
  undecoded : ∀ t ∈ last :: after, ∀ x, t.progress.machine.presentations[p]? = some x →
    x.boundDecoder? place = none
  /-- What goes through one fails, unless it ends another stream that has the number. -/
  rebuffed : ∀ t ∈ after, ∀ b deed, t.doing? p = some (b, deed) → deed.task.isThrough place →
    (deed.task = .endStream place → deed.before.queue? s = none) → t.Rebuffs b

namespace Machine

theorem run_removes (config : Config) (decoders : DecoderBackends H.Codec)
    (outputs : AudioBackends H.Output) (actions : List (Action H)) (p : Key) :
    ((initial config decoders outputs).run actions).Removes p := by
  obtain ⟨crew, -, hremoves⟩ :=
    run_turns (P := fun r _ => r.Removes p) (initial config decoders outputs)
    (fun q => ⟨none, .initial config decoders outputs q⟩) (.initial config decoders outputs p)
    ⟨fun x hx => by simp [initial] at hx,
      fun past first since s a place htrace => by simp at htrace⟩
    (fun _ _ _ _ _ hcrew h hplay _ hturn => h.next hcrew hplay hturn) actions
  exact hremoves

/-- What holds of the stream before and after each transition of a run since the
removal has begun. -/
theorem run_removed (config : Config) (decoders : DecoderBackends H.Codec)
    (outputs : AudioBackends H.Output)
    (actions : List (Action H)) {p : Key} {s : StreamId} {a : ActorId} {place : Nat}
    {past since pre post : List (Transition H)} {first t : Transition H}
    (htrace : ((initial config decoders outputs).run actions).trace = past ++ first :: since)
    (hremoval : Removal p s a place first since) (hsince : since = pre ++ t :: post) :
    ∃ x y crew crew', Removed t.before p s a place pre x ∧
      Removed t.progress.machine p s a place (pre ++ [t]) y ∧
        t.before.play t.action = some t.progress ∧
      Crewed t.before p crew ∧ Turn t.before t.progress.machine p crew (t.doing? p) crew' := by
  subst hsince
  have hsplit : ((initial config decoders outputs).run actions).trace =
      (past ++ first :: pre) ++ t :: post := by
    rw [htrace, List.append_assoc, List.cons_append]
  obtain ⟨earlier, hrun, hplay⟩ := run_split _ actions hsplit
  have hremoves := run_removes config decoders outputs earlier p
  obtain ⟨crew, hcrew⟩ := run_crewed config decoders outputs earlier p
  rw [hrun] at hremoves hcrew
  obtain ⟨crew', -, hturn⟩ := run_turn config decoders outputs earlier hrun hplay hcrew
  obtain ⟨x, hbefore⟩ := hremoves.removed past first pre s a place rfl hremoval.of_append
  obtain ⟨y, hafter⟩ := hbefore.next hcrew hplay hturn (hremoval.unmistaken t (by simp))
  exact ⟨x, y, crew, crew', hbefore, hafter, hplay, hcrew, hturn⟩

/-- A removal that finds its stream is successful. When it has returned, the stream has no
decoder any more and its handles have no effect, unless one of them reaches another stream under
its number. -/
theorem removed_stream_lifeless (config : Config) (decoders : DecoderBackends H.Codec)
    (outputs : AudioBackends H.Output) (actions : List (Action H)) {p : Key} {s : StreamId}
    {a : ActorId}
    {place : Nat} {past between after : List (Transition H)} {first last : Transition H}
    (htrace : ((initial config decoders outputs).run actions).trace =
      past ++ first :: (between ++ last :: after))
    (hremoval : Removal p s a place first (between ++ last :: after))
    (hbusy : ∀ t ∈ between, t.returns a = false) (hreturns : last.returns a) :
    last.progress.result = some (.ok ()) ∧ Lifeless p place s last after := by
  have hrun := @run_removed H config decoders outputs actions p s a place past
      (between ++ last :: after)
  refine ⟨?_, fun t ht z hz => ?_, fun t ht b deed hdoing hthrough hend => ?_⟩
  · obtain ⟨x, y, crew, crew', hremoved, -, hplay, hcrew, hturn⟩ := hrun htrace hremoval rfl
    exact hremoved.result hcrew hplay hturn (hremoval.unmistaken last (by simp)) hbusy hreturns
  · obtain ⟨pre, post, hpre⟩ := List.append_of_mem ht
    have hsince : between ++ last :: after = (between ++ pre) ++ t :: post := by simp [hpre]
    have hlast : last ∈ pre ++ [t] := by
      cases pre with
      | nil => exact (List.cons.inj hpre).1 ▸ List.mem_cons_self
      | cons next pre => exact (List.cons.inj hpre).1 ▸ List.mem_cons_self
    obtain ⟨x, y, -, -, -, hremoved, -⟩ := hrun htrace hremoval hsince
    obtain rfl := Option.some.inj (hremoved.severed.present.symm.trans hz)
    refine hremoved.returned ⟨last, ?_, hreturns⟩
    rw [List.append_assoc]
    exact List.mem_append_right between hlast
  · obtain ⟨pre, post, rfl⟩ := List.append_of_mem ht
    have hsince : between ++ last :: (pre ++ t :: post) =
        (between ++ last :: pre) ++ t :: post := by simp
    obtain ⟨x, y, -, -, hremoved, -, hplay, -, -⟩ := hrun htrace hremoval hsince
    exact hremoved.rebuffs ⟨last, by simp, hreturns⟩ hplay
      (hremoval.unmistaken t (by simp)) hdoing hthrough hend

open Playout.Action in
/-- A stream is removed and another one is created under its number. Something is pushed through a
handle on the first one, and the second one is removed as well. -/
def removedTwice : List (Action .plain) :=
  prepared (.video .unknown 4 4) [] ++ calling 0 (.removeStream 0 1) 4 ++
    calling 0 (.createStream 0 1) 1
    ++ calling 0 (.push ⟨0, 0⟩ ⟨0, 0, 1, 1, .empty, [0], 0⟩) 1 ++ calling 0 (.removeStream 0 1) 4
    ++ calling 0 (.endStream ⟨0, 0⟩) 1

theorem removedTwice_lifeless :
    ∃ past first between last after,
      (plain.run removedTwice).trace = past ++ first :: (between ++ last :: after) ∧
      Removal 0 1 0 0 first (between ++ last :: after) ∧ (∀ t ∈ between, t.returns 0 = false) ∧
        last.returns 0 ∧
      (after.filterMap (·.doing? 0)).countP (·.2.task.isThrough 0) = 2 ∧
      last.progress.result = some (.ok ()) ∧ Lifeless 0 0 1 last after := by
  have hsplit : (plain.run removedTwice).trace = (plain.run removedTwice).trace.take 8 ++
      (plain.run removedTwice).trace.get ⟨8, by decide +kernel⟩ ::
        (((plain.run removedTwice).trace.drop 9).take 2 ++
          (plain.run removedTwice).trace.get ⟨11, by decide +kernel⟩ ::
          (plain.run removedTwice).trace.drop 12) := by
    have hrest := List.take_append_drop 2 ((plain.run removedTwice).trace.drop 9)
    rw [List.drop_drop] at hrest
    simp [hrest]
  have hremoval : Removal 0 1 0 0 ((plain.run removedTwice).trace.get ⟨8, by decide +kernel⟩)
      (((plain.run removedTwice).trace.drop 9).take 2 ++
        (plain.run removedTwice).trace.get ⟨11, by decide +kernel⟩ ::
        (plain.run removedTwice).trace.drop 12) :=
    ⟨by decide +kernel, by decide +kernel, by decide +kernel⟩
  refine ⟨_, _, _, _, _, hsplit,
    hremoval, by decide +kernel, by decide +kernel, by decide +kernel, ?_⟩
  exact removed_stream_lifeless _ _ _ removedTwice hsplit hremoval (by decide +kernel)
    (by decide +kernel)

open Playout.Action in
/-- A stream is removed and another one is created under its number. A handle on the first one is
used to end the stream and to negotiate a format. -/
def mistaken : List (Action .plain) :=
  prepared (.video .unknown 4 4) [] ++ calling 0 (.removeStream 0 1) 4 ++
    calling 0 (.createStream 0 1) 1
    ++ calling 0 (.endStream ⟨0, 0⟩) 1 ++
      calling 0 (.setFormat ⟨0, 0⟩ none (.audio .unknown 8000 1 8)) 2

/-- The removal has returned with success by then. It is the other stream that ends and that is
negotiated, and the first one has a decoder again. -/
theorem mistaken_reaches_other :
    ((plain.run mistaken).trace.drop 11).head?.any
        (fun t => t.returns 0 && t.progress.result.any (·.isOk)) ∧
      ((plain.run mistaken).trace.drop 14).flatMap
          (fun t => (t.doing? 0).toList.map (·.2.task.isThrough 0)) = [true, true, false] ∧
      ((plain.run (mistaken.take 14)).final.presentations.flatMap (·.queues)).map
          (fun q => (q.id, q.eos, q.majorType)) = [(1, false, .unknown)] ∧
      (plain.run (mistaken.take 14)).final.presentations.map
          (fun x => (x.eos, x.audioFormat, (x.boundDecoder? 0).isSome)) = [(false, .zero, false)] ∧
      ((plain.run mistaken).final.presentations.flatMap (·.queues)).map
          (fun q => (q.id, q.eos, q.majorType)) = [(1, true, .audio)] ∧
      (plain.run mistaken).final.presentations.map
          (fun x => (x.eos, x.audioFormat, (x.boundDecoder? 0).isSome)) =
          [(true, ⟨8000, 1, 8⟩, true)] := by
  decide +kernel

end Machine

end Playout
