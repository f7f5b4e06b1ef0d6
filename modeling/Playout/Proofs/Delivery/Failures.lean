import Mathlib.Data.List.Forall2
import Playout.Proofs.Plain
import Playout.Proofs.Playback.PlaybackTime

/-!
# Deliveries that fail

The display takes an event or refuses it, and so does a sink with a payload. Whoever delivers notes
what became of it and goes on in the same way. So two runs in which the same things happen, but
other deliveries fail, go through the same states and attempt the same deliveries. This is shown for
a single task first: only two tasks deliver anything, and neither looks at the result.
-/

namespace Playout

variable {H : Platform}

/-- The answers are the same, but for whether events and payloads are taken. -/
structure Answers.Alike (a b : Answers H) : Prop where
  createDecoder : b.createDecoder = a.createDecoder
  sinks : b.sinks = a.sinks
  queueLength : b.queueLength = a.queueLength
  spawn : b.spawn = a.spawn
  clock : b.clock = a.clock

/-- The surroundings are the same, but for whether events and payloads are taken. -/
structure Surroundings.Alike (c d : Surroundings H) : Prop where
  answers : c.answers.Alike d.answers
  others : d = { c with answers := d.answers }

/-- The actions are the same, but for whether events and payloads are taken. -/
inductive Action.Alike : Action H → Action H → Prop where
  | call {a c} : Alike (.call a c) (.call a c)
  | reclaim {a p} : Alike (.reclaim a p) (.reclaim a p)
  | step {a answers others} : answers.Alike others → Alike (.step a answers) (.step a others)
  | addHost : Alike .addHost .addHost

theorem Answers.Alike.eq {a b : Answers H} (h : a.Alike b) :
    b = { a with deliver := b.deliver, play := b.play } := by
  obtain ⟨hdecoder, hsinks, hlength, hspawn, hclock⟩ := h
  cases a
  cases b
  cases hdecoder
  cases hsinks
  cases hlength
  cases hspawn
  cases hclock
  rfl

theorem Surroundings.Alike.exists_results {c d : Surroundings H} (h : c.Alike d) :
    ∃ deliver play, d = { c with
                          answers := { c.answers with deliver := deliver, play := play } } := by
  refine ⟨d.answers.deliver, d.answers.play, h.others.trans ?_⟩
  rw [← h.answers.eq]

def Effect.attempt : Effect H → Effect H
  | .offered event _ => .offered event (.ok ())
  | .sink serial (.play payload _) => .sink serial (.play payload (.ok ()))
  | e => e

def Effect.play? : Effect H → Option (Nat × Payload)
  | .sink serial (.play payload _) => some (serial, payload)
  | _ => none

namespace Effect

theorem release?_attempt (e : Effect H) : e.attempt.release? = e.release? := by
  unfold attempt
  split <;> rfl

theorem event?_attempt (e : Effect H) : e.attempt.event? = e.event? := by
  unfold attempt
  split <;> rfl

theorem play?_attempt (e : Effect H) : e.attempt.play? = e.play? := by
  unfold attempt
  split <;> rfl

theorem ticket?_attempt (e : Effect H) : e.attempt.ticket? = e.ticket? := by
  unfold attempt
  split <;> rfl

/-- What is read off the attempts is the same for effects with the same attempts. -/
theorem filterMap_eq {β : Type} {f : Effect H → Option β} {effects more : List (Effect H)}
    (hf : ∀ e, f e.attempt = f e) (h : effects.map attempt = more.map attempt) :
    effects.filterMap f = more.filterMap f := by
  have hmap : ∀ effects : List (Effect H),
      (effects.map attempt).filterMap f = effects.filterMap f := fun _ => by
    simp [List.filterMap_map, hf]
  rw [← hmap effects, h, hmap]

end Effect

/-! ## One task -/

def Move.attempt (move : Move H) : Move H :=
  { move with effects := move.effects.map (·.attempt) }

def Outcome.attempt : Outcome H → Outcome H
  | .moves move => .moves move.attempt
  | .waits => .waits
  | .unwinds => .unwinds

namespace Presentation

variable {c d : Surroundings H} (x : Presentation H)

theorem dispatch_attempt (h : c.Alike d) (selected : Selected H.Receiver) :
    (x.dispatch d selected).attempt = (x.dispatch c selected).attempt := by
  obtain ⟨deliver, play, rfl⟩ := h.exists_results
  unfold dispatch
  dsimp only
  split
  · rfl
  · split <;> rfl
  · rfl

/-- Nothing but the noted results comes of how deliveries go. -/
theorem perform_attempt (h : c.Alike d) (task : Task H) :
    (x.perform d task).attempt = (x.perform c task).attempt := by
  cases task with
  | dispatch selected => exact x.dispatch_attempt h selected
  | releaseDecoders places => cases places <;> rfl
  | playback phase =>
      obtain ⟨deliver, play, rfl⟩ := h.exists_results
      cases phase <;> rfl
  | _ =>
      obtain ⟨deliver, play, rfl⟩ := h.exists_results
      rfl

end Presentation

/-! ## One action -/

def Progress.attempt (progress : Progress H) : Progress H :=
  { progress with effects := progress.effects.map fun (p, e) => (p, e.attempt) }

namespace Machine

variable (m : Machine H) (a : ActorId) {answers others : Answers H}

theorem after_attempt (p : Key) (rest : List (Job H)) (move : Move H) :
    (m.after a p rest move).attempt = m.after a p rest move.attempt := by
  simp [after, Progress.attempt, Move.attempt, Function.comp_def]

theorem perform_attempt (h : answers.Alike others) (rest : List (Job H)) (job : Job H) :
    (m.perform a others rest job).map (·.attempt) =
    (m.perform a answers rest job).map (·.attempt) := by
  cases job with
  | «at» p task =>
      simp only [perform]
      cases hx : m.presentations[p]? with
      | none => rfl
      | some x =>
          have hc : (m.surroundings a p answers).Alike (m.surroundings a p others) := ⟨h, rfl⟩
          have hattempt := x.perform_attempt hc task
          dsimp only
          generalize x.perform (m.surroundings a p others) task = o at hattempt ⊢
          generalize x.perform (m.surroundings a p answers) task = o' at hattempt ⊢
          cases o <;> cases o' <;> try cases hattempt
          · have hmove := Outcome.moves.inj hattempt
            simp only [Option.map_some, after_attempt, hmove]
          · rfl
          · rfl
  | removeEach ids => cases ids <;> rfl
  | _ => rfl

/-- What comes of an action depends on how deliveries go in the noted results only. -/
theorem play_attempt {action other : Action H} (h : action.Alike other) :
    (m.play other).map (·.attempt) = (m.play action).map (·.attempt) := by
  cases h with
  | step hanswers =>
      simp only [play, step]
      split
      · rfl
      · exact m.perform_attempt _ hanswers _ _
  | _ => rfl

end Machine

/-! ## Runs -/

/-- The same happened, but for whether events and payloads were taken. -/
structure Transition.Alike (t u : Transition H) : Prop where
  before : u.before = t.before
  action : t.action.Alike u.action
  progress : u.progress.attempt = t.progress.attempt

structure Run.Alike (r s : Run H) : Prop where
  final : s.final = r.final
  trace : List.Forall₂ Transition.Alike r.trace s.trace

theorem Run.Alike.act {r s : Run H} {action other : Action H} (h : r.Alike s)
    (haction : action.Alike other) :
    (r.act action).Alike (s.act other) := by
  have hplay := r.final.play_attempt haction
  unfold Run.act
  rw [h.final]
  generalize r.final.play other = next at hplay ⊢
  generalize r.final.play action = first at hplay ⊢
  cases next <;> cases first <;> try cases hplay
  · exact h
  · rename_i next first
    have hprogress : next.attempt = first.attempt := Option.some.inj hplay
    refine ⟨congrArg (·.machine) hprogress,
      List.rel_append h.trace (.cons ⟨h.final, haction, hprogress⟩ .nil)⟩

theorem Machine.run_alike (m : Machine H) {actions others : List (Action H)}
    (h : List.Forall₂ Action.Alike actions others) : (m.run actions).Alike (m.run others) := by
  have hfold : ∀ r s : Run H, r.Alike s →
      (actions.foldl Run.act r).Alike (others.foldl Run.act s) := by
    induction h with
    | nil => exact fun r s hrs => hrs
    | cons haction _ ih => exact fun r s hrs => ih _ _ (hrs.act haction)
  exact hfold _ _ ⟨rfl, .nil⟩

/-! ## What coincides -/

/-- The same deliveries are attempted, and the same samples are released and acknowledged. -/
structure Ledger.Coincides (effects more : List (Effect H)) : Prop where
  attempts : more.map (·.attempt) = effects.map (·.attempt)
  released : released more = released effects
  offered : more.filterMap (·.event?) = effects.filterMap (·.event?)
  played : more.filterMap (·.play?) = effects.filterMap (·.play?)
  acknowledged : acknowledged more = acknowledged effects

theorem Ledger.Coincides.of_attempts {effects more : List (Effect H)}
    (h : more.map (·.attempt) = effects.map (·.attempt)) : Coincides effects more where
  attempts := h
  released := Effect.filterMap_eq Effect.release?_attempt h
  offered := Effect.filterMap_eq Effect.event?_attempt h
  played := Effect.filterMap_eq Effect.play?_attempt h
  acknowledged := Effect.filterMap_eq Effect.ticket?_attempt h

/-- Two runs go through the same states, with the same results of calls, and for every presentation
they have the same effects but for whether events and payloads were taken. -/
structure Run.Coincides (r s : Run H) : Prop where
  final : s.final = r.final
  states : s.trace.map (·.before) = r.trace.map (·.before)
  results : s.trace.map (·.progress.result) = r.trace.map (·.progress.result)
  effects : ∀ p, Ledger.Coincides (r.effects p) (s.effects p)

theorem Transition.effects_attempt (t : Transition H) (p : Key) :
    (t.effects p).map (·.attempt) =
      t.progress.attempt.effects.filterMap fun (q, e) => if q = p then some e else none := by
  rw [effects, Progress.attempt, List.map_filterMap, List.filterMap_map]
  refine List.filterMap_congr fun entry _ => ?_
  obtain ⟨q, e⟩ := entry
  simp only [Function.comp_apply]
  split <;> rfl

theorem Run.Alike.map_eq {r s : Run H} {β : Type} (h : r.Alike s) (f : Transition H → β)
    (hf : ∀ t u, t.Alike u → f u = f t) : s.trace.map f = r.trace.map f := by
  have hmap : List.Forall₂ Eq (s.trace.map f) (r.trace.map f) :=
    List.forall₂_map_left_iff.mpr
      (List.forall₂_map_right_iff.mpr (h.trace.imp fun t u => hf t u).flip)
  rwa [List.forall₂_eq_eq_eq] at hmap

theorem Run.Alike.coincides {r s : Run H} (h : r.Alike s) : r.Coincides s where
  final := h.final
  states := h.map_eq _ fun _ _ halike => halike.before
  results := h.map_eq _ fun _ _ halike => congrArg (·.result) halike.progress
  effects p := by
    refine .of_attempts ?_
    rw [Run.effects, Run.effects, List.map_flatMap, List.map_flatMap, List.flatMap_def,
      List.flatMap_def]
    refine congrArg List.flatten (h.map_eq _ fun t u halike => ?_)
    rw [Transition.effects_attempt, Transition.effects_attempt, halike.progress]

namespace Chronicle

/-- What was done to two presentations is the same, but for whether events and payloads
were taken. -/
structure Coincides (v w : Chronicle H) : Prop where
  final : w.presentation = v.presentation
  states : w.deeds.map (·.before) = v.deeds.map (·.before)
  tasks : w.deeds.map (·.task) = v.deeds.map (·.task)
  effects : Ledger.Coincides (Deed.effectsOf v.deeds) (Deed.effectsOf w.deeds)

theorem Coincides.snoc {v w : Chronicle H} {x y : Presentation H} {task : Task H}
    {effects more : List (Effect H)}
    (h : v.Coincides w) (hxy : y = x) (heffects : more.map (·.attempt) = effects.map (·.attempt)) :
    Coincides ⟨x, v.deeds ++ [⟨v.presentation, task, effects⟩]⟩
      ⟨y, w.deeds ++ [⟨w.presentation, task, more⟩]⟩ where
  final := hxy
  states := by simp [h.states, h.final]
  tasks := by simp [h.tasks]
  effects := by
    refine .of_attempts ?_
    have hold := h.effects.attempts
    simp only [Deed.effectsOf] at hold ⊢
    simp [hold, heffects]

theorem Coincides.record {v w : Chronicle H} {c d : Surroundings H} (h : v.Coincides w)
    (hc : c.Alike d) (task : Task H) : (v.record c task).Coincides (w.record d task) := by
  have hattempt := w.presentation.perform_attempt hc task
  have hsame : v.presentation.perform c task = w.presentation.perform c task := by rw [h.final]
  unfold Chronicle.record
  rw [hsame]
  generalize w.presentation.perform d task = o at hattempt ⊢
  generalize w.presentation.perform c task = o' at hattempt ⊢
  cases o <;> cases o' <;> try cases hattempt
  · have hmove := Outcome.moves.inj hattempt
    exact h.snoc (congrArg (·.presentation) hmove) (congrArg (·.effects) hmove)
  · exact h
  · exact h.snoc (congrArg (·.enter .stopped) h.final) rfl

theorem of_coincides (id : PresentationId) {tasks others : List (Surroundings H × Task H)}
    (h : List.Forall₂ (fun (c, task) (d, other) => c.Alike d ∧ other = task) tasks others) :
    (of id tasks).Coincides (of id others) := by
  have hfold : ∀ v w : Chronicle H, v.Coincides w →
      (tasks.foldl (fun w (c, task) => w.record c task) v).Coincides
        (others.foldl (fun w (c, task) => w.record c task) w) := by
    induction h with
    | nil => exact fun v w hvw => hvw
    | @cons first other _ _ hhead _ ih =>
        obtain ⟨c, task⟩ := first
        obtain ⟨d, task'⟩ := other
        obtain ⟨hc, rfl⟩ := hhead
        exact fun v w hvw => ih _ _ (hvw.record hc task')
  exact hfold _ _ ⟨rfl, rfl, rfl, .of_attempts rfl⟩

end Chronicle

namespace Action

def refused : Action .plain → Action .plain
  | .step a answers =>
    .step a { answers with
              deliver := (·.sendTo false), play := fun _ _ => .error (.audio "closed") }
  | action => action

theorem refused_alike (action : Action .plain) : action.Alike action.refused := by
  cases action with
  | step a answers => exact .step ⟨rfl, rfl, rfl, rfl, rfl⟩
  | _ => constructor

end Action

namespace Machine

/-- Whatever becomes of deliveries, a run with the same actions and the same other answers goes
through the same states and attempts the same deliveries, and it releases and acknowledges the same
samples. So does whatever else is done to a presentation by anyone in any order. -/
theorem failures_without_influence (m : Machine H) {actions others : List (Action H)}
    (h : List.Forall₂ Action.Alike actions others) :
    (m.run actions).Coincides (m.run others) ∧
      ∀ (id : PresentationId) (tasks more : List (Surroundings H × Task H)),
        List.Forall₂ (fun (c, task) (d, other) => c.Alike d ∧ other = task) tasks more →
          (Chronicle.of id tasks).Coincides (Chronicle.of id more) :=
  ⟨(m.run_alike h).coincides, fun id _ _ => Chronicle.of_coincides id⟩

open Playout.Action in
def shownOnce : List (Action .plain) :=
  prepared (.video .unknown 4 4) [0] ++ calling 0 (.start 0) 2 ++ steps 1 8

theorem shownOnce_refused_coincides :
    List.Forall₂ Action.Alike shownOnce (shownOnce.map Action.refused) ∧
      ((plain.run shownOnce).effects 0).filterMap (fun
        | .offered _ result => some result.isOk
        | .acknowledged .. => some true
        | _ => none) = [true, true] ∧
      ((plain.run (shownOnce.map Action.refused)).effects 0).filterMap (fun
        | .offered _ result => some result.isOk
        | .acknowledged .. => some true
        | _ => none) = [false, true] ∧
      (plain.run shownOnce).Coincides (plain.run (shownOnce.map Action.refused)) := by
  have halike : List.Forall₂ Action.Alike shownOnce (shownOnce.map Action.refused) :=
    List.forall₂_map_right_iff.mpr (List.forall₂_same.mpr fun action _ => action.refused_alike)
  exact ⟨halike, by decide +kernel, by decide +kernel, (failures_without_influence _ halike).1⟩

end Machine

end Playout
