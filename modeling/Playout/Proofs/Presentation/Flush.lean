import Playout.Proofs.Audio.Buffering
import Playout.Proofs.Lifecycle.Parts
import Playout.Proofs.Playback.PlaybackTime

/-!
# Flushing

A flush has two parts: it forgets what is queued and which streams have ended, and then it flushes
the sink, if there is one. Nothing else changes, so that what was queued before has no influence on
anything that comes after.
-/

namespace Playout

variable {H : Platform}

namespace Presentation

variable {c d : Surroundings H} {x y z : Presentation H}

/-- `y` is `x` with every queue emptied and with no stream ended. All else is as it was. -/
structure Forgets (x y : Presentation H) : Prop where
  queues : y.queues = x.queues.map fun q => { q with samples := [], eos := false }
  rest : y = { x with queues := y.queues, eos := false }

theorem clearQueues_forgets (x : Presentation H) : x.Forgets x.clearQueues :=
  ⟨rfl, rfl⟩

structure AlikeButQueued (x y : Presentation H) : Prop where
  queues : List.Forall₂ (fun q r => r = { q with samples := r.samples, eos := r.eos })
    x.queues y.queues
  rest : y = { x with queues := y.queues, eos := y.eos }

theorem AlikeButQueued.clearQueues_eq (h : x.AlikeButQueued y) : y.clearQueues = x.clearQueues := by
  have hclear : ∀ {queues others : List (StreamQueue H.Receiver)},
      List.Forall₂ (fun q r => r = { q with samples := r.samples, eos := r.eos }) queues others →
        others.map (·.clear) = queues.map (·.clear) := by
    intro queues others h
    induction h with
    | nil => rfl
    | @cons q r _ _ hqr _ ih =>
        have hhead : r.clear = q.clear := by
          rw [hqr]
          rfl
        simp only [List.map_cons, hhead, ih]
  calc y.clearQueues
      = { x with queues := y.queues.map (·.clear), eos := false } := congrArg clearQueues h.rest
    _ = x.clearQueues := by rw [hclear h.queues, clearQueues]

def clearing (x : Presentation H) : Move H where
  presentation := x.clearQueues
  next := [.flushSink]
  effects := dropped (x.queues.flatMap (·.samples))

def flushing (x : Presentation H) : Move H where
  presentation := x
  effects := x.sink.toList.map fun s => .sink s.serial .flush
  result := some (.ok ())

theorem perform_clearQueues (c : Surroundings H) (x : Presentation H) :
    x.perform c .clearQueues = .moves x.clearing := rfl

theorem perform_flushSink (c : Surroundings H) (x : Presentation H) :
    x.perform c .flushSink = .moves x.flushing := rfl

theorem endsCall_flushSink : (Task.flushSink : Task H).EndsCall where
  busy := by simp
  moves c x := ⟨_, perform_flushSink c x⟩
  ends c x move h := by
    cases (perform_flushSink c x).symm.trans h
    exact ⟨rfl, rfl⟩

theorem inTwo_clearQueues : (Task.clearQueues : Task H).InTwo where
  busy := by simp
  moves c x := ⟨_, perform_clearQueues c x⟩
  goes c x move h := by
    cases (perform_clearQueues c x).symm.trans h
    exact .inr ⟨_, rfl, rfl, endsCall_flushSink⟩

end Presentation

/-! ## The course of a flush -/

/-- How a flush goes: it forgets what is queued by then, flushes the sink that is bound by then, and
returns. Its actor does nothing else meanwhile. -/
inductive FlushCourse (p : Key) (a : ActorId) (between : List (Transition H))
    (last : Transition H) : Prop where
  | twice {idle t more answers x y answers' z} : between = idle ++ t :: more →
      (∀ u ∈ idle ++ more, ¬ u.IsBy a) → x.Forgets y →
      t.Carries p a .clearQueues answers x
        { presentation := y
          next := [.flushSink]
          effects := Presentation.dropped (x.queues.flatMap (·.samples)) } →
      last.Carries p a .flushSink answers' z
        { presentation := z
          effects := z.sink.toList.map fun s => .sink s.serial .flush
          result := some (.ok ()) } →
      FlushCourse p a between last

theorem FlushCourse.of_inParts {p : Key} {a : ActorId} {between : List (Transition H)}
    {last : Transition H}
    (h : InParts p a .clearQueues between last) : FlushCourse p a between last := by
  cases h with
  | once _ hcarries hnext =>
      cases (Presentation.perform_clearQueues _ _).symm.trans hcarries.moves
      cases hnext
  | @twice _ _ _ _ x _ _ _ _ _ hsplit hidle hcarries hnext hcarries' =>
      cases (Presentation.perform_clearQueues _ _).symm.trans hcarries.moves
      cases hnext
      cases (Presentation.perform_flushSink _ _).symm.trans hcarries'.moves
      exact .twice hsplit hidle x.clearQueues_forgets hcarries hcarries'

namespace Action

def forgetting (a : ActorId) (p : Key) (answers : Answers H) : List (Action H) :=
  [.call a (.flush p), .step a answers]

def flushing (a : ActorId) (p : Key) (first second : Answers H) : List (Action H) :=
  forgetting a p first ++ [.step a second]

end Action

namespace Machine

variable {m n : Machine H} {a : ActorId} {p : Key} {x y : Presentation H}

/-- The machines differ in nothing but what is queued in one presentation, and in what has
ended there. -/
def AlikeButQueued (m : Machine H) (p : Key) (n : Machine H) : Prop :=
  ∃ x y, m.presentations[p]? = some x ∧ x.AlikeButQueued y ∧
    n = { m with presentations := m.presentations.set p y }

theorem play_flush (hmay : m.mayCall a) (hx : m.presentations[p]? = some x) :
    m.play (.call a (.flush p)) = some { machine := m.invoke a [.at p .clearQueues] } := by
  have hknown : m.knows (.flush p : Call H) := by
    simpa [knows, Call.key?] using (List.getElem?_eq_some_iff.mp hx).1
  rw [play, if_pos (by simp [hmay, hknown, Call.isHosts])]
  rfl

/-- A flush that has forgotten what is queued, and is yet to flush the sink. -/
theorem run_forgetting (hmay : m.mayCall a) (hx : m.presentations[p]? = some x)
    (answers : Answers H) :
    m.run (Action.forgetting a p answers) =
      ⟨{ m.setStack a (.at p .flushSink :: m.stack a) with
         presentations := m.presentations.set p x.clearQueues },
        [⟨m, .call a (.flush p), { machine := m.invoke a [.at p .clearQueues] }⟩,
          ⟨m.invoke a [.at p .clearQueues], .step a answers,
            (m.invoke a [.at p .clearQueues]).after a p (m.stack a) x.clearing⟩]⟩ := by
  have hstack : (m.invoke a [.at p .clearQueues]).stack a = .at p .clearQueues :: m.stack a :=
    stack_setStack_self (lt_of_mayCall hmay)
  rw [Action.forgetting, run_cons (play_flush hmay hx),
    run_cons (play_step hstack hx (Presentation.perform_clearQueues _ x)), machine_after rfl,
    invoke, setStack_setStack]
  rfl

/-- A flush that is not interrupted changes nothing but what is queued and what has ended. -/
theorem run_flushing (hmay : m.mayCall a) (hx : m.presentations[p]? = some x)
    (first second : Answers H) :
    (m.run (Action.flushing a p first second)).final =
        { m with presentations := m.presentations.set p x.clearQueues } ∧
      (m.run (Action.flushing a p first second)).trace.map (·.progress.result) =
      [none, none, some (.ok ())] ∧
      ∀ q, (m.run (Action.flushing a p first second)).effects q =
        if p = q then x.clearing.effects ++ x.flushing.effects else [] := by
  let cleared : Machine H :=
    { m.setStack a (.at p .flushSink :: m.stack a) with
      presentations := m.presentations.set p x.clearQueues }
  have hstack : cleared.stack a = .at p .flushSink :: m.stack a :=
    stack_setStack_self (lt_of_mayCall hmay)
  have hx' : cleared.presentations[p]? = some x.clearQueues :=
    List.getElem?_set_self (List.getElem?_eq_some_iff.mp hx).1
  have hplay : cleared.play (.step a second) =
      some (cleared.after a p (m.stack a) x.clearQueues.flushing) :=
    play_step hstack hx' (Presentation.perform_flushSink _ _)
  rw [Action.flushing, run_append_eq, run_forgetting hmay hx, run_cons hplay]
  refine ⟨?_, rfl, fun q => ?_⟩
  · calc (cleared.after a p (m.stack a) x.clearQueues.flushing).machine
        = { cleared.setStack a (m.stack a) with
            presentations := cleared.presentations.set p x.clearQueues } := machine_after rfl
      _ = cleared.setStack a (m.stack a) := by
        rw [set_presentations hx']
        rfl
      _ = { m with presentations := m.presentations.set p x.clearQueues } := setStack_back _
  · have hcalled : Transition.effects
        ⟨m, .call a (.flush p), { machine := m.invoke a [.at p .clearQueues] }⟩ q =
        [] := rfl
    simp only [Run.effects, List.cons_append, List.nil_append, List.flatMap_cons, hcalled,
      effects_after]
    split
    · simp only [run, List.foldl_nil, List.flatMap_nil, List.append_nil]
      rfl
    · rfl

end Machine

/-! ## Two runs -/

/-- Two runs are the same after so many transitions. -/
structure Run.AgreeAfter (n : Nat) (r s : Run H) : Prop where
  final : s.final = r.final
  trace : s.trace.drop n = r.trace.drop n

namespace Machine

variable {m n : Machine H} {a : ActorId} {p : Key}

theorem AlikeButQueued.mayCall_eq (h : m.AlikeButQueued p n) (b : ActorId) :
    n.mayCall b = m.mayCall b := by
  obtain ⟨x, y, -, -, rfl⟩ := h
  rfl

theorem AlikeButQueued.forgetting_eq (h : m.AlikeButQueued p n) (hmay : m.mayCall a)
    (answers : Answers H) :
    (n.run (Action.forgetting a p answers)).final =
    (m.run (Action.forgetting a p answers)).final := by
  have hmay' : n.mayCall a := (h.mayCall_eq a).trans hmay
  obtain ⟨x, y, hx, halike, rfl⟩ := h
  have hy : (m.presentations.set p y)[p]? = some y :=
    List.getElem?_set_self (List.getElem?_eq_some_iff.mp hx).1
  rw [run_forgetting hmay hx, run_forgetting hmay' hy, halike.clearQueues_eq]
  simp only [setStack, stack, List.set_set]

theorem AlikeButQueued.agreeAfter (h : m.AlikeButQueued p n) (hmay : m.mayCall a)
    (answers : Answers H) (more : List (Action H)) :
    (m.run (Action.forgetting a p answers ++ more)).AgreeAfter 2
    (n.run (Action.forgetting a p answers ++ more)) := by
  have hfinal := h.forgetting_eq hmay answers
  have hlength : ∀ k : Machine H, ∀ z, k.mayCall a → k.presentations[p]? = some z →
      (k.run (Action.forgetting a p answers)).trace.length = 2 := fun k z hmay hz => by
    rw [run_forgetting hmay hz]
    rfl
  have hmay' : n.mayCall a := (h.mayCall_eq a).trans hmay
  obtain ⟨x, y, hx, -, rfl⟩ := h
  have hm := hlength m x hmay hx
  have hn := hlength _ y hmay' (List.getElem?_set_self (List.getElem?_eq_some_iff.mp hx).1)
  constructor
  · simp only [run_append_eq, hfinal]
  · simp only [run_append_eq, hfinal]
    rw [← hn, List.drop_left]
    rw [hn, ← hm, List.drop_left]

end Machine

namespace Chronicle

/-- Tasks of all kinds are done after what has been done so far. -/
def goOn (w : Chronicle H) (tasks : List (Surroundings H × Task H)) : Chronicle H :=
  tasks.foldl (fun w (c, task) => w.record c task) w

theorem record_eq (w : Chronicle H) (c : Surroundings H) (task : Task H) :
    w.record c task = ⟨((⟨w.presentation, []⟩ : Chronicle H).record c task).presentation,
      w.deeds ++ ((⟨w.presentation, []⟩ : Chronicle H).record c task).deeds⟩ := by
  unfold record
  cases w.presentation.perform c task <;> simp

theorem goOn_eq (w : Chronicle H) (tasks : List (Surroundings H × Task H)) :
    w.goOn tasks = ⟨((⟨w.presentation, []⟩ : Chronicle H).goOn tasks).presentation,
      w.deeds ++ ((⟨w.presentation, []⟩ : Chronicle H).goOn tasks).deeds⟩ := by
  induction tasks generalizing w with
  | nil => simp [goOn]
  | cons first tasks ih =>
      obtain ⟨c, task⟩ := first
      have hcons : ∀ v : Chronicle H, v.goOn ((c, task) :: tasks) = (v.record c task).goOn tasks :=
        fun _ => rfl
      rw [hcons, hcons, ih, ih (record ⟨w.presentation, []⟩ c task), record_eq w]
      simp

end Chronicle

/-- What two presentations differed in is forgotten, and nothing differs afterwards. -/
theorem Presentation.AlikeButQueued.goOn_eq {x y : Presentation H} (h : x.AlikeButQueued y)
    (c d : Surroundings H) (tasks : List (Surroundings H × Task H)) :
    ((⟨y, []⟩ : Chronicle H).goOn ((d, .clearQueues) :: tasks)).presentation =
        ((⟨x, []⟩ : Chronicle H).goOn ((c, .clearQueues) :: tasks)).presentation ∧
      ((⟨y, []⟩ : Chronicle H).goOn ((d, .clearQueues) :: tasks)).deeds.drop 1 =
        ((⟨x, []⟩ : Chronicle H).goOn ((c, .clearQueues) :: tasks)).deeds.drop 1 := by
  have hcons : ∀ (z : Presentation H) (e : Surroundings H),
      (⟨z, []⟩ : Chronicle H).goOn ((e, .clearQueues) :: tasks) =
        (⟨z.clearQueues, [⟨z, .clearQueues, z.clearing.effects⟩]⟩ : Chronicle H).goOn tasks :=
        fun _ _ => rfl
  rw [hcons, hcons, Chronicle.goOn_eq ⟨y.clearQueues, _⟩, Chronicle.goOn_eq ⟨x.clearQueues, _⟩,
    h.clearQueues_eq]
  exact ⟨rfl, rfl⟩

/-! ## Flushes -/

/-- What a flush comes to that is not interrupted. The machine is as it was but for what is queued
and what has ended in one presentation, and the sink, if there is one, is flushed once. -/
structure Machine.FlushesAtOnce (m : Machine H) (p : Key) (x : Presentation H) (r : Run H) :
    Prop where
  final : ∃ y, x.Forgets y ∧ r.final = { m with presentations := m.presentations.set p y }
  results : r.trace.map (·.progress.result) = [none, none, some (.ok ())]
  effects : ∀ q, r.effects q =
    if p = q then
      Presentation.dropped (x.queues.flatMap (·.samples)) ++ x.sink.toList.map fun s =>
        .sink s.serial .flush
    else []

namespace Machine

/-- Whatever happens between the two parts of a flush, they are all that it does. -/
theorem flushCourse_of_makes (config : Config) (decoders : DecoderBackends H.Codec)
    (outputs : AudioBackends H.Output) (actions : List (Action H)) {p : Key} {a : ActorId}
    {past between after : List (Transition H)} {first last : Transition H}
    (htrace : ((initial config decoders outputs).run actions).trace =
      past ++ first :: (between ++ last :: after))
    (h : Makes a (.flush p) first between last) : FlushCourse p a between last :=
  .of_inParts (inParts_of_makes htrace h rfl rfl Presentation.inTwo_clearQueues)

theorem flushesAtOnce_of_mayCall {m : Machine H} {b : ActorId} {q : Key} {x : Presentation H}
    (hmay : m.mayCall b) (hx : m.presentations[q]? = some x) (answers answers' : Answers H) :
    m.FlushesAtOnce q x (m.run (Action.flushing b q answers answers')) := by
  obtain ⟨hfinal, hresults, heffects⟩ := run_flushing hmay hx answers answers'
  exact ⟨⟨_, x.clearQueues_forgets, hfinal⟩, hresults, heffects⟩

/-- A flush forgets what is queued and what has ended, and flushes the sink that is bound. In every
run, with whatever happens meanwhile, that is all that it does. From any two states that differ only
in what it forgets it leads to the same state, and everything is the same from then on, as also for
a host that does the tasks of a thread itself. -/
theorem flush_forgets_queued (config : Config) (decoders : DecoderBackends H.Codec)
    (outputs : AudioBackends H.Output) (actions : List (Action H)) :
    (∀ (p : Key) (a : ActorId) (past between after : List (Transition H))
      (first last : Transition H),
        ((initial config decoders outputs).run actions).trace =
          past ++ first :: (between ++ last :: after) →
          Makes a (.flush p) first between last → FlushCourse p a between last) ∧
      (∀ (m : Machine H) (b : ActorId) (q : Key) (x : Presentation H), m.mayCall b →
        m.presentations[q]? = some x →
        ∀ answers answers', m.FlushesAtOnce q x (m.run (Action.flushing b q answers answers'))) ∧
      (∀ (m n : Machine H) (b : ActorId) (q : Key), m.AlikeButQueued q n → m.mayCall b →
        ∀ answers more, (m.run (Action.forgetting b q answers ++ more)).AgreeAfter 2
          (n.run (Action.forgetting b q answers ++ more))) ∧
      ∀ (x y : Presentation H), x.AlikeButQueued y → ∀ c d tasks,
        ((⟨y, []⟩ : Chronicle H).goOn ((d, .clearQueues) :: tasks)).presentation =
            ((⟨x, []⟩ : Chronicle H).goOn ((c, .clearQueues) :: tasks)).presentation ∧
          ((⟨y, []⟩ : Chronicle H).goOn ((d, .clearQueues) :: tasks)).deeds.drop 1 =
            ((⟨x, []⟩ : Chronicle H).goOn ((c, .clearQueues) :: tasks)).deeds.drop 1 :=
  ⟨fun _ _ _ _ _ _ _ htrace h => flushCourse_of_makes config decoders outputs actions htrace h,
    fun _ _ _ _ hmay hx answers answers' => flushesAtOnce_of_mayCall hmay hx answers answers',
    fun _ _ _ _ halike hmay answers more => halike.agreeAfter hmay answers more,
    fun _ _ halike c d tasks => halike.goOn_eq c d tasks⟩

open Playout.Action in
/-- A thread does what it can between the two parts of a flush, and the host asks for more
afterwards. -/
def flushedMeanwhile : List (Action .plain) :=
  steps 0 1 ++ steps 1 1 ++ steps 0 1

/-- One piece of audio has been played and another is queued when the host flushes. It is forgotten,
and the sink of the running thread is flushed once. -/
theorem heldBack_flushed :
    ∃ between after first last,
      (sounding.run
        (heldBack ++ .call 0 (.flush 0) :: (flushedMeanwhile ++ Action.steps 1 2))).trace =
        (sounding.run heldBack).trace ++ first :: (between ++ last :: after) ∧
      Makes 0 (.flush 0) first between last ∧ FlushCourse 0 0 between last ∧
      (last.progress.machine.presentations[0]?).map (·.queues.map (·.samples.length)) = some [0] ∧
      (last.effects 0).length = 1 := by
  let c : Call .plain := .flush 0
  let r := ((sounding.run heldBack).final.invoke 0 c.jobs).run flushedMeanwhile
  have hbusy : ∀ t ∈ r.trace.dropLast, t.returns 0 = false := by decide +kernel
  have hreturns : r.trace.getLast?.any fun t => t.returns 0 &&
      ((t.progress.machine.presentations[0]?).map (·.queues.map (·.samples.length)) == some [0] &&
        (t.effects 0).length == 1) := by decide +kernel
  obtain ⟨last, hlast, hreturns⟩ := (Option.any_eq_true _ _).mp hreturns
  simp only [Bool.and_eq_true, beq_iff_eq] at hreturns
  obtain ⟨between, after, first, htrace, hmakes⟩ :=
    makes_of_run (by decide +kernel) hbusy hlast hreturns.1 (Action.steps 1 2)
  exact ⟨between, after, first, last, htrace, hmakes,
    (flush_forgets_queued _ _ _ _).1 0 0 _ _ _ _ _ htrace hmakes,
    hreturns.2⟩

end Machine

end Playout
