import Playout.Playback.Call
import Playout.Proofs.Histories

/-!
# Runs

A run is what comes of a list of actions: calls that actors begin, jobs that they do, with whatever
the host answers, and threads of the host that appear. An action that cannot happen at its moment is
passed over, so that the lists of actions stand for all interleavings there are. The trace of a run
keeps every transition with the machine before it.
-/

namespace Playout

namespace Call

variable {H : Platform}

/-- Hosts make this call. Ticks are left to playback threads. -/
def isHosts : Call H → Bool
  | .tick .. => false
  | _ => true

def key? : Call H → Option Key
  | .create _ => none
  | .remove _ => none
  | .shutdown => none
  | .letGo p => some p
  | .createStream p _ => some p
  | .holdStream h => some h.presentation
  | .forgetStream h => some h.presentation
  | .removeStream p _ => some p
  | .removeStreams p => some p
  | .setFormat h _ _ => some h.presentation
  | .push h _ => some h.presentation
  | .endStream h => some h.presentation
  | .setGeometry p _ => some p
  | .setAudioDevice p _ _ => some p
  | .start p => some p
  | .stop p => some p
  | .flush p => some p
  | .tick p _ => some p

end Call

inductive Action (H : Platform) where
  | call (a : ActorId) (c : Call H)
  /-- An actor gives up the last reference to a presentation; if it is not the last one, nothing
  comes of it. -/
  | reclaim (a : ActorId) (p : Key)
  | step (a : ActorId) (answers : Answers H)
  /-- Another thread of the host appears. -/
  | addHost

/-- One thing that happened, with the machine before it and what it came to. -/
structure Transition (H : Platform) where
  before : Machine H
  action : Action H
  progress : Progress H

structure Run (H : Platform) where
  final : Machine H
  trace : List (Transition H)

namespace Machine

variable {H : Platform}

/-- A machine with one idle thread of the host and without presentations. -/
def initial (config : Config) (decoders : DecoderBackends H.Codec)
    (outputs : AudioBackends H.Output) :
    Machine H :=
  { config, decoders, outputs, presentations := [], registry := [], actors := [⟨.host, []⟩] }

/-- A new machine is initial, if its configuration is valid. -/
theorem new?_eq (config : Config) (decoders : DecoderBackends H.Codec)
    (outputs : AudioBackends H.Output) :
    new? config decoders outputs = config.validate.map fun _ => initial config decoders outputs :=
      rfl

/-- The presentation that a call is made on exists, or the call is made on none. -/
def knows (m : Machine H) (c : Call H) : Bool :=
  c.key?.all (· < m.presentations.length)

/-- What an action comes to, if it can happen. -/
def play (m : Machine H) : Action H → Option (Progress H)
  | .call a c =>
    if m.mayCall a && c.isHosts && m.knows c then some { machine := m.invoke a c.jobs } else none
  | .reclaim a p => if m.mayCall a then some { machine := m.invoke a [.at p .reclaim] } else none
  | .step a answers => m.step a answers
  | .addHost => some { machine := m.addHost }

end Machine

namespace Run

variable {H : Platform}

def extend (r : Run H) (action : Action H) (progress : Progress H) : Run H :=
  ⟨progress.machine, r.trace ++ [⟨r.final, action, progress⟩]⟩

def act (r : Run H) (action : Action H) : Run H :=
  match r.final.play action with
  | none => r
  | some progress => r.extend action progress

end Run

namespace Machine

variable {H : Platform}

def run (m : Machine H) (actions : List (Action H)) : Run H :=
  actions.foldl Run.act ⟨m, []⟩

/-- What holds at the start and is kept by every transition holds of every run. -/
theorem run_induction {P : Run H → Prop} (m : Machine H) (start : P ⟨m, []⟩)
    (next : ∀ r action progress, P r → r.final.play action = some progress →
      P (r.extend action progress))
    (actions : List (Action H)) : P (m.run actions) := by
  have hfold : ∀ (actions : List (Action H)) (r : Run H), P r → P (actions.foldl Run.act r) := by
    intro actions
    induction actions with
    | nil => exact fun r hr => hr
    | cons action actions ih =>
        intro r hr
        refine ih _ ?_
        unfold Run.act
        cases hp : r.final.play action with
        | none => exact hr
        | some progress => exact next r action progress hr hp
  exact hfold actions ⟨m, []⟩ start

theorem foldl_act (more : List (Action H)) (r : Run H) :
    more.foldl Run.act r = ⟨(r.final.run more).final, r.trace ++ (r.final.run more).trace⟩ := by
  induction more generalizing r with
  | nil => simp [run]
  | cons next more ih =>
      rw [run, List.foldl_cons, List.foldl_cons]
      cases hnext : r.final.play next with
      | none =>
          rw [show r.act next = r by simp [Run.act, hnext],
            show (⟨r.final, []⟩ : Run H).act next = ⟨r.final, []⟩ by simp [Run.act, hnext]]
          exact ih r
      | some progress =>
          rw [show r.act next = r.extend next progress by simp [Run.act, hnext],
            show (⟨r.final, []⟩ : Run H).act next = Run.extend ⟨r.final, []⟩ next progress by
              simp [Run.act, hnext],
            ih (r.extend next progress), ih (Run.extend ⟨r.final, []⟩ next progress)]
          simp [Run.extend]

theorem run_cons {m : Machine H} {action : Action H} {progress : Progress H}
    (hplay : m.play action = some progress) (more : List (Action H)) :
    m.run (action :: more) =
      ⟨(progress.machine.run more).final,
        ⟨m, action, progress⟩ :: (progress.machine.run more).trace⟩ := by
  have hact : (⟨m, []⟩ : Run H).act action = ⟨progress.machine, [⟨m, action, progress⟩]⟩ := by
    simp [Run.act, hplay, Run.extend]
  rw [run, List.foldl_cons, hact, foldl_act]
  rfl

theorem run_append (m : Machine H) (actions more : List (Action H)) :
    m.run (actions ++ more) = more.foldl Run.act (m.run actions) :=
  List.foldl_append

theorem run_append_eq (m : Machine H) (actions more : List (Action H)) :
    m.run (actions ++ more) =
      ⟨((m.run actions).final.run more).final,
        (m.run actions).trace ++ ((m.run actions).final.run more).trace⟩ := by
  rw [run_append, foldl_act]

theorem run_split (m : Machine H) (actions : List (Action H)) {past after : List (Transition H)}
    {t : Transition H} (htrace : (m.run actions).trace = past ++ t :: after) :
    ∃ earlier, m.run earlier = ⟨t.before, past⟩ ∧ t.before.play t.action = some t.progress := by
  have hall : (∃ earlier, m.run earlier = m.run actions) ∧ ∀ past t after,
      (m.run actions).trace = past ++ t :: after →
        ∃ earlier, m.run earlier = ⟨t.before, past⟩ ∧ t.before.play t.action = some t.progress := by
    refine run_induction (P := fun r => (∃ earlier, m.run earlier = r) ∧ ∀ past t after,
      r.trace = past ++ t :: after →
        ∃ earlier, m.run earlier = ⟨t.before, past⟩ ∧ t.before.play t.action = some t.progress) m
      ⟨⟨[], rfl⟩, fun past t after htrace => by simp at htrace⟩ ?_ actions
    rintro r action progress ⟨⟨earlier, rfl⟩, h⟩ hplay
    refine ⟨⟨earlier ++ [action], ?_⟩, fun past t after htrace => ?_⟩
    · rw [run_append]
      simp [Run.act, hplay]
    · rcases snoc_eq_split htrace with ⟨rfl, rfl, -⟩ | ⟨rest, rfl, hinit⟩
      · exact ⟨earlier, rfl, hplay⟩
      · exact h past t rest hinit
  exact hall.2 past t after htrace

theorem run_through (m : Machine H) (actions : List (Action H)) {past after : List (Transition H)}
    {t : Transition H} (htrace : (m.run actions).trace = past ++ t :: after) :
    ∃ earlier, m.run earlier = ⟨t.progress.machine, past ++ [t]⟩ := by
  obtain ⟨earlier, hrun, hplay⟩ := run_split m actions htrace
  refine ⟨earlier ++ [t.action], ?_⟩
  rw [run_append, hrun]
  simp [Run.act, hplay, Run.extend]

/-- Each transition of a run begins with the machine that the one before has left. -/
theorem before_eq_of_trace (m : Machine H) (actions : List (Action H))
    {past after : List (Transition H)}
    {t u : Transition H} (htrace : (m.run actions).trace = past ++ t :: u :: after) :
    u.before = t.progress.machine := by
  have hall : (∀ past t, (m.run actions).trace = past ++ [t] →
      (m.run actions).final = t.progress.machine) ∧
      ∀ past t u after, (m.run actions).trace = past ++ t :: u :: after →
        u.before = t.progress.machine := by
    refine run_induction
      (P := fun r => (∀ past t, r.trace = past ++ [t] → r.final = t.progress.machine) ∧
      ∀ past t u after, r.trace = past ++ t :: u :: after → u.before = t.progress.machine) m
      ⟨fun past t htrace => by simp at htrace, fun past t u after htrace => by simp at htrace⟩ ?_
        actions
    rintro r action progress ⟨hfinal, hbefore⟩ -
    refine ⟨fun past t htrace => ?_, fun past t u after htrace => ?_⟩
    · obtain ⟨-, hlast⟩ := List.append_inj' htrace rfl
      rw [← (List.cons.inj hlast).1]
      rfl
    · rw [← List.singleton_append, ← List.append_assoc] at htrace
      rcases snoc_eq_split htrace with ⟨hinit, rfl, -⟩ | ⟨rest, -, hinit⟩
      · exact hfinal past t hinit.symm
      · exact hbefore past t u rest (by rw [hinit, List.append_assoc, List.singleton_append])
  exact hall.2 past t u after htrace

/-- What each transition of a part of a run keeps holds at the end of that part, if it holds at
the beginning. -/
theorem holds_through {P : Machine H → Prop} (m : Machine H) (actions : List (Action H))
    {past during after : List (Transition H)} {first t : Transition H}
    (htrace : (m.run actions).trace = past ++ first :: (during ++ t :: after))
    (hfirst : P first.progress.machine)
    (hkeeps : ∀ past u after, (m.run actions).trace = past ++ u :: after → u ∈ during → P u.before →
      P u.progress.machine) : P t.before := by
  induction during generalizing past first with
  | nil => exact before_eq_of_trace m actions htrace ▸ hfirst
  | cons u during ih =>
      have hu : P u.before := before_eq_of_trace m actions htrace ▸ hfirst
      have hnext : (m.run actions).trace = (past ++ [first]) ++ u :: (during ++ t :: after) := by
        simpa using htrace
      exact ih hnext (hkeeps _ u _ hnext List.mem_cons_self hu) fun past v after hv hmem =>
        hkeeps past v after hv (List.mem_cons_of_mem u hmem)

theorem play_of_mem {m : Machine H} {actions : List (Action H)} {t : Transition H}
    (ht : t ∈ (m.run actions).trace) : t.before.play t.action = some t.progress := by
  obtain ⟨past, after, htrace⟩ := List.append_of_mem ht
  obtain ⟨-, -, hplay⟩ := run_split m actions htrace
  exact hplay

theorem action_mem (m : Machine H) (actions : List (Action H)) :
    ∀ t ∈ (m.run actions).trace, t.action ∈ actions := by
  have hfold : ∀ (actions : List (Action H)) (r : Run H), ∀ t ∈ (actions.foldl Run.act r).trace,
      t ∈ r.trace ∨ t.action ∈ actions := by
    intro actions
    induction actions with
    | nil => exact fun r t ht => .inl ht
    | cons action actions ih =>
        intro r t ht
        rcases ih (r.act action) t ht with hact | hlater
        · unfold Run.act at hact
          split at hact
          · exact .inl hact
          · rcases List.mem_append.mp hact with hold | hnew
            · exact .inl hold
            · rw [List.mem_singleton.mp hnew]
              exact .inr List.mem_cons_self
        · exact .inr (List.mem_cons_of_mem _ hlater)
  intro t ht
  exact (hfold actions ⟨m, []⟩ t ht).resolve_left List.not_mem_nil

/-- What comes of a call up to some moment, and what comes afterwards, are parts of one run. -/
theorem trace_of_call {m : Machine H} {a : ActorId} {c : Call H} {earlier during : List (Action H)}
    {last : Transition H}
    (hmay : (m.run earlier).final.mayCall a && c.isHosts && (m.run earlier).final.knows c)
    (hlast : (((m.run earlier).final.invoke a c.jobs).run during).trace.getLast? = some last)
    (more : List (Action H)) :
    ∃ between after, (((m.run earlier).final.invoke a c.jobs).run during).trace =
      between ++ [last] ∧
      (m.run (earlier ++ .call a c :: (during ++ more))).trace = (m.run earlier).trace ++
        ⟨(m.run earlier).final, .call a c, { machine := (m.run earlier).final.invoke a c.jobs }⟩ ::
          (between ++ last :: after) := by
  have hplay : (m.run earlier).final.play (.call a c) =
      some { machine := (m.run earlier).final.invoke a c.jobs } := if_pos hmay
  obtain ⟨between, htrace⟩ := List.getLast?_eq_some_iff.mp hlast
  refine ⟨between, ((((m.run earlier).final.invoke a c.jobs).run during).final.run more).trace,
    htrace, ?_⟩
  rw [run_append_eq, run_cons hplay, run_append_eq, htrace, List.append_assoc]
  rfl

theorem trace_prefix_foldl (more : List (Action H)) (r : Run H) :
    r.trace <+: (more.foldl Run.act r).trace := by
  rw [foldl_act]
  exact List.prefix_append _ _

theorem trace_prefix (m : Machine H) (actions more : List (Action H)) :
    (m.run actions).trace <+: (m.run (actions ++ more)).trace := by
  rw [run_append]
  exact trace_prefix_foldl more (m.run actions)

end Machine

end Playout
