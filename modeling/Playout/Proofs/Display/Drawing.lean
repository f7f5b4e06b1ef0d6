import Playout.Proofs.Display.Offers
import Playout.Proofs.Lifecycle.Quiet

/-!
# Drawing

As long as the geometry is set, frames are begun and repaints done one after the other, each when
everything has been offered that came before, the log of a presentation with what is still to be
offered is tracked by what the presentation has in mind. So every entry fits what came before it,
and when a stop returns, nothing is left on screen.
-/

namespace Playout

variable {H : Platform}

/-! ## What is tracked -/

/-- The geometry is set, a frame is begun and one is painted over only when everything has been
offered that came before. -/
def Transition.orderly (t : Transition H) (p : Key) : Bool :=
  (t.doing? p).all fun (_, deed) => !(deed.task.marks && t.before.owes (Job.isOffer p))

theorem Transition.offers_of_orderly {t : Transition H} {p : Key} {a : ActorId} {deed : Deed H}
    (h : t.orderly p) (hdoing : t.doing? p = some (a, deed)) (hmarks : deed.task.marks)
    (b : ActorId) :
    t.before.offers p b = [] := by
  refine Machine.offers_of_owes ?_ b
  simpa [orderly, hdoing, hmarks] using h

namespace Displays

variable {x y : Presentation H} {task : Task H} {notices log : List Notice} {new base : List Event}

theorem tracked (h : Displays x task y notices new) (hbase : task.marks → base = [])
    (hlog : Notice.Tracked x.output x.lastRendered (log ++ (task.offer?.toList ++ base).map .event))
      :
    Notice.Tracked y.output y.lastRendered (log ++ notices ++ (new ++ base).map .event) := by
  -- nothing is left to be offered when the task marks the log
  have hbare : task.marks → task.offer? = none → Notice.Tracked x.output x.lastRendered log := by
    intro hmarks hoffer
    simpa [hbase hmarks, hoffer] using hlog
  cases h with
  | apart hoffer houtput hsame => simpa [hoffer, houtput, hsame] using hlog
  | offer => simpa [Task.offer?] using hlog
  | @geometry output =>
      rw [hbase rfl]
      simpa [Presentation.setGeometry] using (hbare rfl rfl).setGeometry output
  | bare hempty =>
      rw [hbase rfl]
      simpa using (hbare rfl rfl).bare hempty
  | cover hcovers =>
      rw [hbase rfl]
      simpa using (hbare rfl rfl).cover hcovers
  | frame hbegins hoffer hframe =>
      have hmarks : task.marks := by simp [Task.marks, hbegins]
      rw [hbase hmarks, Presentation.beginFrame_snd]
      by_cases hplace : x.lastRendered = x.output ∨ x.lastRendered.isEmpty
      · have hstale : x.beginFrame.1 = none := by
          rcases hplace with hsame | hempty <;>
            simp [Presentation.beginFrame, Presentation.takeLastRendered, *]
        simpa [hstale] using (hbare hmarks hoffer).inPlace hframe hplace
      · obtain ⟨hmoved, hcovers⟩ := not_or.mp hplace
        have hstale : x.beginFrame.1 = some x.lastRendered := by
          simp [Presentation.beginFrame, Presentation.takeLastRendered, hmoved, hcovers]
        simpa [hstale] using (hbare hmarks hoffer).elsewhere hframe hmoved (by simpa using hcovers)

theorem silent (h : Displays x task y notices new) (hmarks : task.marks = false)
    (hoffer : task.offer? = none) :
    y.output = x.output ∧ y.lastRendered = x.lastRendered ∧ notices = [] ∧ new = [] := by
  cases h with
  | apart _ houtput hsame => exact ⟨houtput, hsame, rfl, rfl⟩
  | frame hbegins => simp [Task.marks, hbegins] at hmarks
  | offer => cases hoffer
  | _ => cases hmarks

theorem nothing_new (h : Displays x task y notices new) (hfree : task.isDuty = false)
    (hempty : x.lastRendered.isEmpty) : new = [] := by
  cases h with
  | cover hcovers =>
      rw [hempty] at hcovers
      cases hcovers
  | frame hbegins => cases task <;> simp_all [Task.beginsFrame, Task.isDuty]
  | _ => rfl

theorem of_setGeometry {output : Rect} (h : Displays x (.setGeometry output) y notices new) :
    new = [] := by
  cases h with
  | frame hbegins => cases hbegins
  | _ => rfl

end Displays

def Run.notices (r : Run H) (p : Key) : List Notice :=
  (r.deeds p).flatMap Deed.notices

theorem Run.notices_extend_of_doing {r : Run H} {p : Key} {action : Action H}
    {progress : Progress H} {doing? : Option (ActorId × Deed H)}
    (hdoing : Transition.doing? p ⟨r.final, action, progress⟩ = doing?) :
    (r.extend action progress).notices p = r.notices p ++ (doing?.map (·.2.notices)).getD [] := by
  rw [notices, deeds_extend, Transition.deed?, hdoing, List.flatMap_append]
  cases doing? <;> simp [notices]

theorem Machine.run_events (m : Machine H) (actions : List (Action H)) (p : Key) :
    Notice.events ((m.run actions).notices p) =
      ((m.run actions).effects p).filterMap Effect.event? := by
  have hnotices : ∀ deed : Deed H,
      Notice.events deed.notices = deed.effects.filterMap Effect.event? := by
    rintro ⟨x, task, effects⟩
    cases task <;> simp [Deed.notices, Task.notice?]
  rw [run_effects, Run.notices, Deed.effectsOf, Notice.events, List.filterMap_flatMap,
    List.filterMap_flatMap]
  exact congrArg (List.flatMap · _) (funext hnotices)

/-- One actor at most has still something to offer, and with that the log is tracked by what the
presentation has in mind. -/
structure Run.Tracks (r : Run H) (p : Key) (holder : ActorId) : Prop where
  others : ∀ b, b ≠ holder → r.final.offers p b = []
  absent : r.final.presentations[p]? = none → r.notices p = [] ∧ r.final.offers p holder = []
  tracked : ∀ x, r.final.presentations[p]? = some x →
    Notice.Tracked x.output x.lastRendered (r.notices p ++ (r.final.offers p holder).map .event)

namespace Run.Tracks

variable {r : Run H} {p : Key} {holder : ActorId} {action : Action H} {progress : Progress H}
  {crew crew' : Crew H}

theorem initial (config : Config) (decoders : DecoderBackends H.Codec)
    (outputs : AudioBackends H.Output) (p : Key) (holder : ActorId) :
    (⟨Machine.initial config decoders outputs, []⟩ : Run H).Tracks p holder where
  others b _ := by simp [Machine.offers, Job.offers, Machine.stack_initial]
  absent _ := ⟨rfl, by simp [Machine.offers, Job.offers, Machine.stack_initial]⟩
  tracked x hx := by simp [Machine.initial] at hx

theorem offers_of_absent (h : r.Tracks p holder) (hnone : r.final.presentations[p]? = none)
    (b : ActorId) :
    r.final.offers p b = [] := by
  by_cases hb : b = holder
  · subst hb
    exact (h.absent hnone).2
  · exact h.others b hb

theorem of_deed {y : Presentation H} (hy : progress.machine.presentations[p]? = some y)
    (hothers : ∀ b, b ≠ holder → progress.machine.offers p b = [])
    (htracked : Notice.Tracked y.output y.lastRendered
      ((r.extend action progress).notices p ++ (progress.machine.offers p holder).map .event)) :
    (r.extend action progress).Tracks p holder where
  others := hothers
  absent hnone := by
    rw [show (r.extend action progress).final.presentations[p]? = some y from hy] at hnone
    cases hnone
  tracked z hz := by
    obtain rfl := Option.some.inj (hy.symm.trans hz)
    exact htracked

/-- Nothing is done to the presentation, but it may appear. -/
theorem stay (h : r.Tracks p holder)
    (hdoing : Transition.doing? p ⟨r.final, action, progress⟩ = none)
    (hturn : Turn r.final progress.machine p crew none crew') :
    (r.extend action progress).Tracks p holder := by
  have hoffers := hturn.offers_of_none h.offers_of_absent
  have hnotices : (r.extend action progress).notices p = r.notices p := by
    simpa using notices_extend_of_doing hdoing
  have hothers : ∀ b, b ≠ holder → progress.machine.offers p b = [] := fun b hb =>
    (hoffers b).trans (h.others b hb)
  cases hx : r.final.presentations[p]? with
  | some x =>
      refine of_deed (hturn.still hx).1 hothers ?_
      rw [hnotices, hoffers]
      exact h.tracked x hx
  | none =>
      obtain ⟨hsilent, hnothing⟩ := h.absent hx
      obtain ⟨-, -, hstill | ⟨id, hnew⟩⟩ := hturn.absent hx
      · refine ⟨hothers, fun _ => ⟨hnotices.trans hsilent, (hoffers holder).trans hnothing⟩,
          fun y hy => ?_⟩
        rw [show (r.extend action progress).final.presentations[p]? = none from hstill] at hy
        cases hy
      · refine of_deed hnew hothers ?_
        rw [hnotices, hoffers, hsilent, hnothing]
        exact .initial

/-- Nobody has anything to offer, and the actor is the next who may. -/
theorem mark {a : ActorId} {deed : Deed H} {y : Presentation H} {new base : List Event}
    (h : r.Tracks p holder) (hx : r.final.presentations[p]? = some deed.before)
    (hy : progress.machine.presentations[p]? = some y)
    (hnotices : (r.extend action progress).notices p = r.notices p ++ deed.notices)
    (hdeed : r.final.Exchanges progress.machine p a deed y new base)
    (hnone : ∀ b, r.final.offers p b = []) :
    (r.extend action progress).Tracks p a := by
  obtain ⟨hoffer, hbase⟩ := hdeed.of_nil (hnone a)
  refine of_deed hy (fun b hb => (hdeed.others b hb).trans (hnone b)) ?_
  rw [hnotices, hdeed.after]
  refine hdeed.displays.tracked (fun _ => hbase) ?_
  have htracked := h.tracked _ hx
  rw [hnone holder] at htracked
  rw [hoffer, hbase]
  exact htracked

theorem own {a : ActorId} {deed : Deed H} {y : Presentation H} {new base : List Event}
    (h : r.Tracks p a) (hx : r.final.presentations[p]? = some deed.before)
    (hy : progress.machine.presentations[p]? = some y)
    (hnotices : (r.extend action progress).notices p = r.notices p ++ deed.notices)
    (hdeed : r.final.Exchanges progress.machine p a deed y new base)
    (hmarks : deed.task.marks = false) :
    (r.extend action progress).Tracks p a := by
  refine of_deed hy (fun b hb => (hdeed.others b hb).trans (h.others b hb)) ?_
  rw [hnotices, hdeed.after]
  refine hdeed.displays.tracked (fun hmark => by simp [hmarks] at hmark) ?_
  rw [← hdeed.before]
  exact h.tracked _ hx

theorem other {a : ActorId} {deed : Deed H} {y : Presentation H} {new base : List Event}
    (h : r.Tracks p holder) (ha : a ≠ holder) (hx : r.final.presentations[p]? = some deed.before)
    (hy : progress.machine.presentations[p]? = some y)
    (hnotices : (r.extend action progress).notices p = r.notices p ++ deed.notices)
    (hdeed : r.final.Exchanges progress.machine p a deed y new base)
    (hmarks : deed.task.marks = false) :
    (r.extend action progress).Tracks p holder := by
  obtain ⟨hoffer, hbase⟩ := hdeed.of_nil (h.others a ha)
  obtain ⟨houtput, hsame, hsilent, hnew⟩ := hdeed.displays.silent hmarks hoffer
  refine of_deed hy (fun b hb => ?_) ?_
  · by_cases hb' : b = a
    · subst hb'
      rw [hdeed.after, hnew, hbase]
      rfl
    · exact (hdeed.others b hb').trans (h.others b hb)
  · rw [hnotices, hsilent, List.append_nil, hdeed.others holder (Ne.symm ha), houtput, hsame]
    exact h.tracked _ hx

theorem next (h : r.Tracks p holder)
    (hturn : Turn r.final progress.machine p crew
      (Transition.doing? p ⟨r.final, action, progress⟩) crew')
    (horderly : Transition.orderly ⟨r.final, action, progress⟩ p) :
    ∃ holder', (r.extend action progress).Tracks p holder' := by
  cases hdoing : Transition.doing? p ⟨r.final, action, progress⟩ with
  | none =>
      rw [hdoing] at hturn
      exact ⟨holder, h.stay hdoing hturn⟩
  | some doing =>
      obtain ⟨a, deed⟩ := doing
      rw [hdoing] at hturn
      have hx := hturn.before_eq rfl
      obtain ⟨y, hy⟩ := hturn.exists_after hx
      obtain ⟨new, base, hdeed⟩ := hturn.exchanges hy
      have hnotices : (r.extend action progress).notices p = r.notices p ++ deed.notices :=
        notices_extend_of_doing hdoing
      cases hmarks : deed.task.marks with
      | true =>
          exact ⟨a, h.mark hx hy hnotices hdeed
            (Transition.offers_of_orderly horderly hdoing hmarks)⟩
      | false =>
          by_cases ha : a = holder
          · subst ha
            exact ⟨a, h.own hx hy hnotices hdeed hmarks⟩
          · exact ⟨holder, h.other ha hx hy hnotices hdeed hmarks⟩

end Run.Tracks

/-! ## Stops -/

theorem above_of_append {α : Type} {old rest jobs base : List α} {job : α}
    (h : old ++ rest = jobs ++ base)
    (hmem : job ∈ jobs) (hold : job ∉ old) : ∃ more, rest = more ++ base ∧ job ∈ more := by
  rcases List.append_eq_append_iff.mp h with ⟨more, rfl, hrest⟩ | ⟨more, rfl, -⟩
  · exact ⟨more, hrest, (List.mem_append.mp hmem).resolve_left hold⟩
  · exact absurd (List.mem_append_left _ hmem) hold

theorem Machine.Replaces.above {m m' : Machine H} {p : Key} {a : ActorId}
    {old new rest jobs base : List (Job H)} {job : Job H} (h : m.Replaces m' p a old new rest)
    (hstack : m.stack a = jobs ++ base) (hmem : job ∈ jobs) (hold : job ∉ old) :
    ∃ jobs', m'.stack a = jobs' ++ base ∧ job ∈ jobs' := by
  obtain ⟨more, hrest, hmore⟩ := above_of_append (h.before.symm.trans hstack) hmem hold
  exact ⟨new ++ more, by rw [h.after, hrest, List.append_assoc], List.mem_append_right _ hmore⟩

/-- An actor that is about to have the frame painted over stays so until it does. -/
theorem Turn.repaint_above {m m' : Machine H} {p : Key} {a : ActorId} {x : Presentation H}
    {crew crew' : Crew H} {doing? : Option (ActorId × Deed H)} {jobs base : List (Job H)}
    (h : Turn m m' p crew doing? crew') (hx : m.presentations[p]? = some x)
    (hstack : m.stack a = jobs ++ base) (hmem : Job.at p .repaint ∈ jobs) :
    (∃ y effects, doing? = some (a, ⟨y, .repaint, effects⟩)) ∨
      ∃ jobs', m'.stack a = jobs' ++ base ∧ Job.at p .repaint ∈ jobs' := by
  have hnonempty : m.stack a ≠ [] := by
    rw [hstack]
    exact List.append_ne_nil_of_left_ne_nil (List.ne_nil_of_mem hmem) _
  have hstays : m'.stack a = m.stack a →
      ∃ jobs', m'.stack a = jobs' ++ base ∧ Job.at p .repaint ∈ jobs' :=
    fun hsame => ⟨jobs, hsame.trans hstack, hmem⟩
  have hreplaced : ∀ {b old new rest}, m.Replaces m' p b old new rest →
      (b = a → Job.at p .repaint ∉ old) →
      ∃ jobs', m'.stack a = jobs' ++ base ∧ Job.at p .repaint ∈ jobs' := by
    intro b old new rest hreplaces hold
    by_cases hb : a = b
    · subst hb
      exact hreplaces.above hstack hmem (hold rfl)
    · exact hstays (hreplaces.stack_eq hb hnonempty)
  cases h with
  | arrival hstacks => exact .inr (hstays (hstacks a))
  | call _ _ hreplaces => exact .inr (hreplaced hreplaces fun _ => List.not_mem_nil)
  | elsewhere hreplaces hold =>
      refine .inr (hreplaced hreplaces fun _ hrepaint => ?_)
      rw [hold _ hrepaint] at hx
      cases hx
  | @aside b answers task rest y move _ _ _ _ _ hreplaces =>
      by_cases hown : b = a ∧ task = .repaint
      · obtain ⟨rfl, rfl⟩ := hown
        exact .inl ⟨_, _, rfl⟩
      · refine .inr (hreplaced hreplaces fun hb hrepaint => hown ⟨hb, ?_⟩)
        simpa [eq_comm] using hrepaint
  | @start b _ rest y _ _ _ _ hbefore hafter hempty _ hothers =>
      refine .inr ?_
      by_cases hb : a = b
      · subst hb
        have hsplit : [.at p .start] ++ rest = jobs ++ base := hbefore.symm.trans hstack
        obtain ⟨more, hrest, hmore⟩ := above_of_append hsplit hmem (by simp)
        exact ⟨.at p (.keepThread m.actors.length) ::
          more, by rw [hafter, hrest]; rfl, List.mem_cons_of_mem _ hmore⟩
      · refine hstays (hothers a hb fun hnew => hnonempty ?_)
        rw [hnew, hempty]
  | @duty b answers s _ _ _ _ _ _ _ _ hreplaces =>
      refine .inr (hreplaced hreplaces fun _ hrepaint => ?_)
      obtain ⟨t, ht, heq⟩ := List.mem_map.mp hrepaint
      cases heq
      exact Standing.not_mem_duties rfl _ ht

/-- A stop that has been called has come to its repaint, or still has it to do. -/
def Run.Repaints (r : Run H) (p : Key) : Prop :=
  ∀ before call during a, r.trace = before ++ call :: during → call.action = .call a (.stop p) →
    (∃ t ∈ during, t.Does p a .repaint) ∨
      (∃ x, r.final.presentations[p]? = some x) ∧
        ∃ jobs, r.final.stack a = jobs ++ call.before.stack a ∧ Job.at p .repaint ∈ jobs

theorem Run.Repaints.next {r : Run H} {p : Key} {action : Action H} {progress : Progress H}
    {crew crew' : Crew H} (h : r.Repaints p) (hplay : r.final.play action = some progress)
    (hturn : Turn r.final progress.machine p crew
      (Transition.doing? p ⟨r.final, action, progress⟩) crew') :
    (r.extend action progress).Repaints p := by
  intro before call during a htrace hcall
  rcases snoc_eq_split htrace with ⟨-, rfl, rfl⟩ | ⟨rest, rfl, hinit⟩
  · obtain rfl : action = .call a (.stop p) := hcall
    obtain ⟨⟨x, hx⟩, hstack⟩ := Machine.play_stop hplay
    exact .inr ⟨hturn.exists_after hx, _, hstack, by simp [Call.jobs, Task.stop]⟩
  · rcases h before call rest a hinit hcall with ⟨t, ht, hdoes⟩ | ⟨⟨x, hx⟩, jobs, hstack, hmem⟩
    · exact .inl ⟨t, List.mem_append_left _ ht, hdoes⟩
    · rcases hturn.repaint_above hx hstack hmem with hdoes | hstill
      · exact .inl ⟨_, List.mem_concat_self, hdoes⟩
      · exact .inr ⟨hturn.exists_after hx, hstill⟩

/-- Nothing is shown any more, and nobody has anything to offer but for the actor on
top of `base`. -/
structure Cleared (m : Machine H) (p : Key) (a : ActorId) (crew : Crew H) (base : List (Job H)) :
    Prop where
  idle : crew = none
  empty : ∀ x, m.presentations[p]? = some x → x.lastRendered.isEmpty
  others : ∀ b, b ≠ a → m.offers p b = []
  base : Job.offers p base = []

theorem Turn.isDuty_eq_false {m m' : Machine H} {p : Key} {crew crew' : Crew H} {b : ActorId}
    {deed : Deed H} (h : Turn m m' p crew (some (b, deed)) crew') (hnone : crew = none) :
    deed.task.isDuty = false := by
  refine Bool.eq_false_iff.mpr fun hduty => ?_
  obtain ⟨s, hsome⟩ := h.crew_of_isDuty rfl hduty
  rw [hnone] at hsome
  cases hsome

namespace Cleared

variable {m m' : Machine H} {p : Key} {a : ActorId} {x : Presentation H} {crew crew' : Crew H}
  {doing? : Option (ActorId × Deed H)} {jobs base : List (Job H)}

theorem isEmpty_after (h : Turn m m' p crew doing? crew') (hnone : crew = none)
    (hx : m.presentations[p]? = some x)
    (hempty : x.lastRendered.isEmpty ∨ ∃ a effects, doing? = some (a, ⟨x, .repaint, effects⟩)) :
    ∀ y, m'.presentations[p]? = some y → y.lastRendered.isEmpty := by
  obtain ⟨z, hz, hafter⟩ :=
    h.isEmpty_lastRendered hx hempty fun b selected effects payload hdispatch => by
    subst hdispatch
    cases h.isDuty_eq_false hnone
  intro y hy
  obtain rfl := Option.some.inj (hz.symm.trans hy)
  exact hafter

theorem turn (h : Cleared m p a crew base) (hx : m.presentations[p]? = some x)
    (hturn : Turn m m' p crew doing? crew')
    (hunstarted : ∀ b x effects, doing? = some (b, ⟨x, .start, effects⟩) → x.isRunning) :
    Cleared m' p a crew' base where
  idle := hturn.unmanned h.idle hunstarted
  empty := isEmpty_after hturn h.idle hx (.inl (h.empty x hx))
  others b hb := by
    cases doing? with
    | none => exact (hturn.offers_of_none (by simp [hx]) b).trans (h.others b hb)
    | some doing =>
        obtain ⟨c, deed⟩ := doing
        obtain ⟨y, hy⟩ := hturn.exists_after hx
        obtain ⟨new, rest, hdeed⟩ := hturn.exchanges hy
        by_cases hc : b = c
        · subst hc
          obtain rfl := Option.some.inj (hx.symm.trans (hturn.before_eq rfl))
          rw [hdeed.after, (hdeed.of_nil (h.others b hb)).2,
            hdeed.displays.nothing_new (hturn.isDuty_eq_false h.idle) (h.empty _ hx)]
          rfl
        · exact (hdeed.others b hc).trans (h.others b hb)
  base := h.base

/-- When an actor paints over the last frame, nobody has anything to offer. -/
theorem repaint {effects : List (Effect H)} (hnone : crew = none)
    (hx : m.presentations[p]? = some x)
    (hstack : m.stack a = jobs ++ base) (hoffers : ∀ b, m.offers p b = [])
    (hturn : Turn m m' p crew (some (a, ⟨x, .repaint, effects⟩)) crew') :
    Cleared m' p a crew' base where
  idle := hturn.unmanned hnone (by simp)
  empty := isEmpty_after hturn hnone hx (.inr ⟨a, effects, rfl⟩)
  others b hb := by
    obtain ⟨y, hy⟩ := hturn.exists_after hx
    obtain ⟨new, rest, hdeed⟩ := hturn.exchanges hy
    exact (hdeed.others b hb).trans (hoffers b)
  base := by
    have hboth := hoffers a
    rw [Machine.offers, hstack, Job.offers_append] at hboth
    exact (List.append_eq_nil_iff.mp hboth).2

end Cleared

theorem Stopping.idle_of_repaint {p : Key} {a : ActorId} {settled : Prop} {x : Presentation H}
    {crew : Crew H}
    {jobs : List (Job H)} (h : Stopping p a settled x crew (.at p .repaint :: jobs)) :
    crew = none := by
  generalize hall : Job.at p .repaint :: jobs = all at h
  cases h with
  | repaints _ hidle => exact hidle
  | returns _ _ hidle => exact hidle
  | returned => cases hall
  | _ => cases hall

/-- After the repaint of a stop nothing is shown any more, until the stop returns. -/
def Run.Clears (r : Run H) (p : Key) (crew : Crew H) : Prop :=
  ∀ before call during a, r.trace = before ++ call :: during → StopUnderway p a call during →
    (∃ t ∈ during, t.Does p a .repaint) → Cleared r.final p a crew (call.before.stack a)

theorem Run.Clears.next {r : Run H} {p : Key} {action : Action H} {progress : Progress H}
    {crew crew' : Crew H} (h : r.Clears p crew) (hquiet : r.Quiet p crew)
    (hplay : r.final.play action = some progress)
    (hturn : Turn r.final progress.machine p crew
      (Transition.doing? p ⟨r.final, action, progress⟩) crew')
    (horderly : Transition.orderly ⟨r.final, action, progress⟩ p) :
    (r.extend action progress).Clears p crew' := by
  rintro before call during a htrace hstop ⟨t, ht, hdoes⟩
  rcases snoc_eq_split htrace with ⟨-, rfl, rfl⟩ | ⟨rest, rfl, hinit⟩
  · cases ht
  · have hrest := hstop.of_append
    have hunstarted := hstop.unstarted _ List.mem_concat_self
    obtain ⟨x, jobs, hx, hstack, hstopping, -⟩ := hquiet.underway before call rest a hinit hrest
    rcases List.mem_append.mp ht with hold | hnew
    · exact (h before call rest a hinit hrest ⟨t, hold, hdoes⟩).turn hx hturn
        (Transition.unstarted hunstarted)
    · obtain rfl := List.mem_singleton.mp hnew
      obtain ⟨y, effects, hdoing⟩ := hdoes
      have hoffers := Transition.offers_of_orderly horderly hdoing rfl
      obtain ⟨-, more, -, hhead, hy, -⟩ := Transition.perform_of_doing hplay hdoing
      obtain rfl := Option.some.inj (hx.symm.trans hy)
      rw [hdoing] at hturn
      -- what is left of the stop begins with the repaint
      obtain ⟨first, jobs, rfl⟩ := List.exists_cons_of_ne_nil (hstop.jobs_ne_nil hstack)
      obtain rfl := (List.cons.inj (hstack.symm.trans hhead)).1
      exact .repaint hstopping.idle_of_repaint hx hstack hoffers hturn

/-! ## Runs -/

structure Run.Draws (r : Run H) (p : Key) : Prop where
  events : Notice.events (r.notices p) = (r.effects p).filterMap Effect.event?
  exact : Notice.Exact (r.notices p)
  /-- Setting the geometry has no effects and leaves nothing to be offered. -/
  silent : ∀ t ∈ r.trace, ∀ a output, t.Does p a (.setGeometry output) →
    t.effects p = [] ∧ ∀ b, t.progress.machine.offers p b = t.before.offers p b
  /-- A stop that has returned has come to its repaint. -/
  repainted : ∀ before call during a, r.trace = before ++ call :: during →
    call.action = .call a (.stop p) →
    (r.final.stack a).length = (call.before.stack a).length → ∃ t ∈ during, t.Does p a .repaint
  /-- When a stop returns, the last event is no frame that covers anything. -/
  settled : ∀ before call during a, r.trace = before ++ call :: during →
    StopUnderway p a call during →
    (r.final.stack a).length = (call.before.stack a).length →
      ∀ frame, (Notice.events (r.notices p)).getLast? = some (.videoFrame frame) →
        frame.output.isEmpty

structure Run.Watched (r : Run H) (p : Key) (crew : Crew H) : Prop where
  quiet : r.Quiet p crew
  repaints : r.Repaints p
  tracks : (∀ u ∈ r.trace, u.orderly p) → ∃ holder, r.Tracks p holder
  clears : (∀ u ∈ r.trace, u.orderly p) → r.Clears p crew

namespace Run.Watched

variable {r : Run H} {p : Key} {action : Action H} {progress : Progress H} {crew crew' : Crew H}

theorem initial (config : Config) (decoders : DecoderBackends H.Codec)
    (outputs : AudioBackends H.Output)
    (p : Key) : (⟨Machine.initial config decoders outputs, []⟩ : Run H).Watched p none where
  quiet := .initial config decoders outputs p
  repaints before call during a htrace := by simp at htrace
  tracks _ := ⟨0, .initial config decoders outputs p 0⟩
  clears _ before call during a htrace := by simp at htrace

theorem next (h : r.Watched p crew) (hcrew : Crewed r.final p crew)
    (hplay : r.final.play action = some progress)
    (hturn : Turn r.final progress.machine p crew
      (Transition.doing? p ⟨r.final, action, progress⟩) crew') :
    (r.extend action progress).Watched p crew' where
  quiet := h.quiet.next hcrew hplay hturn
  repaints := h.repaints.next hplay hturn
  tracks horderly := by
    obtain ⟨holder, htracks⟩ := h.tracks fun u hu => horderly u (List.mem_append_left _ hu)
    exact htracks.next hturn (horderly _ List.mem_concat_self)
  clears horderly :=
    (h.clears fun u hu => horderly u (List.mem_append_left _ hu)).next h.quiet hplay hturn
    (horderly _ List.mem_concat_self)

theorem repainted (h : r.Watched p crew) {before during : List (Transition H)} {call : Transition H}
    {a : ActorId} (htrace : r.trace = before ++ call :: during)
    (hcall : call.action = .call a (.stop p))
    (hreturned : (r.final.stack a).length = (call.before.stack a).length) :
    ∃ t ∈ during, t.Does p a .repaint := by
  rcases h.repaints before call during a htrace hcall with hdoes | ⟨-, jobs, hstack, hmem⟩
  · exact hdoes
  · have hlength := List.length_pos_of_mem hmem
    rw [hstack, List.length_append] at hreturned
    omega

theorem settled (h : r.Watched p crew) (horderly : ∀ u ∈ r.trace, u.orderly p)
    {before during : List (Transition H)} {call : Transition H} {a : ActorId}
    (htrace : r.trace = before ++ call :: during) (hstop : StopUnderway p a call during)
    (hreturned : (r.final.stack a).length = (call.before.stack a).length) {frame : VideoFrame}
    (hlast : (Notice.events (r.notices p)).getLast? = some (.videoFrame frame)) :
    frame.output.isEmpty := by
  obtain ⟨x, jobs, hx, hstack, -⟩ := h.quiet.underway before call during a htrace hstop
  have hcleared := h.clears horderly before call during a htrace hstop
    (h.repainted htrace hstop.begun hreturned)
  -- nothing is left of the stop, and what was there before it offers nothing
  have hjobs : jobs = [] := by
    rw [hstack, List.length_append] at hreturned
    exact List.length_eq_zero_iff.mp (by omega)
  have hoffers : ∀ b, r.final.offers p b = [] := by
    intro b
    by_cases hb : b = a
    · subst hb
      rw [Machine.offers, hstack, hjobs]
      exact hcleared.base
    · exact hcleared.others b hb
  obtain ⟨holder, htracks⟩ := h.tracks horderly
  have htracked := htracks.tracked x hx
  rw [hoffers holder, List.map_nil, List.append_nil] at htracked
  exact htracked.blank (hcleared.empty x hx) hlast

theorem exact (h : r.Watched p crew) (horderly : ∀ u ∈ r.trace, u.orderly p) :
    Notice.Exact (r.notices p) := by
  obtain ⟨holder, htracks⟩ := h.tracks horderly
  cases hx : r.final.presentations[p]? with
  | none =>
      rw [(htracks.absent hx).1]
      exact .nil
  | some x => exact (htracks.tracked x hx).exact.of_append

end Run.Watched

namespace Machine

theorem run_watched (config : Config) (decoders : DecoderBackends H.Codec)
    (outputs : AudioBackends H.Output) (actions : List (Action H)) (p : Key) :
    ∃ crew, ((initial config decoders outputs).run actions).Watched p crew := by
  obtain ⟨crew, -, hwatched⟩ := run_turns (P := fun r crew => r.Watched p crew)
    (initial config decoders outputs) (fun q => ⟨none, .initial config decoders outputs q⟩)
    (.initial config decoders outputs p) (.initial config decoders outputs p)
    (fun _ _ _ _ _ hcrew h hplay _ hturn => h.next hcrew hplay hturn) actions
  exact ⟨crew, hwatched⟩

theorem setGeometry_silent (config : Config) (decoders : DecoderBackends H.Codec)
    (outputs : AudioBackends H.Output) (actions : List (Action H)) (p : Key) {t : Transition H}
    (ht : t ∈ ((initial config decoders outputs).run actions).trace) {a : ActorId} {output : Rect}
    (hdoes : t.Does p a (.setGeometry output)) :
    t.effects p = [] ∧ ∀ b, t.progress.machine.offers p b = t.before.offers p b := by
  obtain ⟨past, after, htrace⟩ := List.append_of_mem ht
  obtain ⟨hplay, crew, crew', -, hturn⟩ := turn_of_trace htrace p
  obtain ⟨x, effects, hdoing⟩ := hdoes
  obtain ⟨answers, rest, -, -, hx, hperform⟩ := Transition.perform_of_doing hplay hdoing
  rw [hdoing] at hturn
  obtain ⟨y, hy⟩ := hturn.exists_after hx
  obtain ⟨new, base, hdeed⟩ := hturn.exchanges hy
  refine ⟨?_, fun b => ?_⟩
  · rw [show t.effects p = effects from Transition.effects_of_doing hplay hdoing]
    rcases hperform with ⟨move, hmove, -, rfl⟩ | ⟨-, -, rfl⟩
    · cases hmove
      rfl
    · rfl
  · by_cases hb : b = a
    · subst hb
      rw [hdeed.before, hdeed.after, hdeed.displays.of_setGeometry]
      rfl
    · exact hdeed.others b hb

/-- When the geometry is set, a frame is begun and one is painted over only after everything has
been offered that came before, then every frame is drawn for the geometry that was set last,
what is painted over is just what is on screen and no longer belongs there, and a stop leaves
nothing on screen. -/
theorem log_exact (config : Config) (decoders : DecoderBackends H.Codec)
    (outputs : AudioBackends H.Output) (actions : List (Action H)) (p : Key)
    (horderly : ((initial config decoders outputs).run actions).trace.all (·.orderly p)) :
    ((initial config decoders outputs).run actions).Draws p := by
  obtain ⟨crew, hwatched⟩ := run_watched config decoders outputs actions p
  have hall : ∀ u ∈ ((initial config decoders outputs).run actions).trace, u.orderly p := by
    simpa using horderly
  exact
    { events := run_events _ actions p
      exact := hwatched.exact hall
      silent := fun _ ht _ _ hdoes => setGeometry_silent config decoders outputs actions p ht hdoes
      repainted := fun _ _ _ _ htrace hcall hreturned => hwatched.repainted htrace hcall hreturned
      settled := fun _ _ _ _ htrace hstop hreturned _ hlast =>
        hwatched.settled hall htrace hstop hreturned hlast }

open Playout.Action in
/-- Between two frames a thread of the host sets another geometry, and after the second one it stops
the presentation. -/
def movedThenStopped : List (Action .plain) :=
  prepared (.video .unknown 2 2) [0, 1] ++ calling 0 (.setGeometry 0 ⟨0, 0, 4, 4⟩) 1
    ++ calling 0 (.start 0) 2 ++ steps 1 8 ++ calling 0 (.setGeometry 0 ⟨0, 0, 8, 8⟩) 1 ++ steps 1 9
    ++ calling 0 (.stop 0) 2 ++ steps 1 6 ++ steps 0 6

/-- Each frame is painted over once, the first for the sake of the second and that one
by the stop. -/
theorem movedThenStopped_draws :
    (plain.run movedThenStopped).Draws 0 ∧
      (Notice.events ((plain.run movedThenStopped).notices 0)).map (fun
        | .videoFrame frame => (true, frame.output)
        | .redraw region => (false, region)) =
        [(true, ⟨0, 0, 4, 4⟩), (false, ⟨0, 0, 4, 4⟩), (true, ⟨0, 0, 8, 8⟩),
          (false, ⟨0, 0, 8, 8⟩)] := by
  have hdraws :=
    log_exact .standard (.standardDecoders ()) .empty movedThenStopped 0 (by decide +kernel)
  exact ⟨hdraws, by decide +kernel⟩

end Machine

end Playout
