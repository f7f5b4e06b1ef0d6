import Playout.Proofs.Display.Damage
import Playout.Proofs.Display.Screen

/-!
# What is shown and what is still to be offered

What is done to a presentation is seen in its log of notices, and it may leave events on the stack
of its actor, to be offered to the display later. `Displays` says both for everything that can be
done to a presentation, with what the presentation has in mind afterwards.
-/

namespace Playout

variable {H : Platform}

/-! ## What a task shows -/

namespace Task

def notice? : Task H → Option Notice
  | .setGeometry output => some (.geometry output)
  | .repaint => some .repaint
  | _ => none

def offer? : Task H → Option Event
  | .offer event => some event
  | _ => none

/-- The task sets the geometry, begins a frame or has the last one painted over. -/
def marks (t : Task H) : Bool :=
  t.notice?.isSome || t.beginsFrame

theorem offer?_eq_none {t : Task H} (h : t.isOffer = false) : t.offer? = none := by
  cases t <;> simp_all [isOffer, offer?]

theorem notice?_eq_none {t : Task H} (hsteering : t.isSteering = false)
    (hsettings : ∀ output, t ≠ .setGeometry output) : t.notice? = none := by
  cases t <;> simp_all [isSteering, notice?]

end Task

def Deed.notices (deed : Deed H) : List Notice :=
  deed.task.notice?.toList ++ (deed.effects.filterMap Effect.event?).map .event

theorem Deed.notices_of_no_event {x : Presentation H} {task : Task H} {effects : List (Effect H)}
    (h : ∀ e ∈ effects, e.event? = none) :
    (⟨x, task, effects⟩ : Deed H).notices = task.notice?.toList := by
  simp [notices, List.filterMap_eq_nil_iff.mpr h]

/-- How what is done to a presentation changes what it has in mind, what is seen of it, and what it
leaves to be offered. -/
inductive Displays (x : Presentation H) :
    Task H → Presentation H → List Notice → List Event → Prop where
  | apart {task y} : task.offer? = none → y.output = x.output → y.lastRendered = x.lastRendered →
      Displays x task y [] []
  | geometry {output} : Displays x (.setGeometry output) (x.setGeometry output) [.geometry output]
      []
  | bare : x.lastRendered.isEmpty → Displays x .repaint x [.repaint] []
  | cover : x.lastRendered.isEmpty = false →
      Displays x .repaint { x with lastRendered := .zero } [.repaint] [.redraw x.lastRendered]
  | frame {task frame} : task.beginsFrame → task.offer? = none → frame.output = x.output →
      Displays x task x.beginFrame.2 [] (x.beginFrame.1.toList.map .redraw ++ [.videoFrame frame])
  | offer {event} : Displays x (.offer event) x [.event event] []

theorem Presentation.perform_displays {c : Surroundings H} {x : Presentation H} {task : Task H}
    {move : Move H} (hfree : task.isDuty = false) (hstart : task = .start → x.launches c = false)
    (hmove : x.perform c task = .moves move) :
    Displays x task move.presentation (Deed.notices ⟨x, task, move.effects⟩)
      (move.next.filterMap Task.offer?) := by
  by_cases hsettings : ∃ output, task = .setGeometry output
  · obtain ⟨output, rfl⟩ := hsettings
    cases hmove
    exact .geometry
  · have hother : ∀ output, task ≠ .setGeometry output := fun output heq => hsettings ⟨output, heq⟩
    have houtput :=
      (hmove ▸ perform_conduct hfree hstart : Conduct c x task (.moves move)).output_eq hother
    have hsteer := perform_steering hfree hstart move hmove
    generalize move.presentation = y at houtput hsteer
    generalize move.next = next at hsteer
    generalize move.effects = effects at hsteer
    cases hsteer with
    | bare hempty => exact .bare hempty
    | cover hcovers => exact .cover hcovers
    | offer => exact .offer
    | @stopped thread => cases thread <;> exact .apart rfl houtput rfl
    | apart hsteering hoffer _ hsame _ hnext hevents =>
        rw [Deed.notices_of_no_event hevents, Task.notice?_eq_none hsteering hother,
          List.filterMap_eq_nil_iff.mpr fun t ht => Task.offer?_eq_none (hnext t ht).2]
        exact .apart (Task.offer?_eq_none hoffer) houtput hsame
    | _ => exact .apart rfl houtput rfl

theorem Standing.offers_duties (s : Standing H) :
    (duties (some s)).filterMap Task.offer? = s.duty.offer?.toList := by
  cases s <;> rfl

theorem Advance.displays {c : Surroundings H} {x y : Presentation H} {s : Standing H}
    {effects : List (Effect H)} {s? : Option (Standing H)} (h : Advance c x s y effects s?) :
    Displays x s.duty y (Deed.notices ⟨x, s.duty, effects⟩)
      ((s.interludes x ++ Standing.duties s?).filterMap Task.offer?) := by
  have hnotice : s.duty.notice? = none := by cases s <;> rfl
  rcases h.event_cases with hnone | ⟨frame, sample, pacing, result, rfl, rfl, rfl⟩
  · rw [Deed.notices_of_no_event hnone, hnotice]
    cases h with
    | frame htype hpayload =>
        have hstale :
            (x.beginFrame.1.toList.map fun region =>
            (Task.offer (.redraw region) : Task H)).filterMap
            Task.offer? = x.beginFrame.1.toList.map .redraw := by
          cases x.beginFrame.1 <;> rfl
        rw [Standing.interludes_of_frame htype hpayload, List.filterMap_append, hstale]
        exact .frame (by simp [Standing.duty, Task.beginsFrame, htype, hpayload]) rfl rfl
    | play htype =>
        rw [Standing.interludes_of_no_frame (by simp [htype])]
        exact .apart rfl rfl rfl
    | pass hvideo =>
        rw [Standing.interludes_of_no_frame hvideo]
        exact .apart rfl rfl rfl
    | offer => simp [Effect.event?] at hnone
    | _ => exact .apart rfl rfl rfl
  · cases h
    exact .offer

/-! ## What is still to be offered -/

namespace Job

variable {p : Key} {jobs more : List (Job H)} {tasks : List (Task H)} {task : Task H}

def offer? (p : Key) : Job H → Option Event
  | .at q task => if q = p then task.offer? else none
  | _ => none

def isOffer (p : Key) (job : Job H) : Bool :=
  (job.offer? p).isSome

def offers (p : Key) (jobs : List (Job H)) : List Event :=
  jobs.filterMap (offer? p)

theorem offers_append : offers p (jobs ++ more) = offers p jobs ++ offers p more :=
  List.filterMap_append

theorem offers_map_at : offers p (tasks.map (.at p)) = tasks.filterMap Task.offer? := by
  simp [offers, List.filterMap_map, Function.comp_def, offer?]

theorem offers_cons_at : offers p (.at p task :: jobs) = task.offer?.toList ++ offers p jobs := by
  cases h : task.offer? <;> simp [offers, offer?, h]

theorem offers_eq_nil (h : ∀ t, Job.at p t ∈ jobs → t.offer? = none) : offers p jobs = [] := by
  refine List.filterMap_eq_nil_iff.mpr fun job hjob => ?_
  cases job with
  | «at» q t =>
      by_cases hqp : q = p
      · subst hqp
        simpa [offer?] using h t hjob
      · simp [offer?, hqp]
  | _ => rfl

end Job

theorem Plan.offers {p : Key} {jobs : List (Job H)} (h : Plan p jobs) : Job.offers p jobs = [] := by
  refine Job.offers_eq_nil fun t ht => ?_
  have hplanned := h.planned t ht
  cases t <;> simp_all [Task.isPlanned, Task.offer?]

def Machine.offers (m : Machine H) (p : Key) (a : ActorId) : List Event :=
  Job.offers p (m.stack a)

theorem Machine.offers_of_owes {m : Machine H} {p : Key} (h : m.owes (Job.isOffer p) = false)
    (a : ActorId) :
    m.offers p a = [] := by
  refine List.filterMap_eq_nil_iff.mpr fun job hjob =>
    Option.not_isSome_iff_eq_none.mp fun hoffer => ?_
  rw [owes_of_mem hjob hoffer] at h
  cases h

namespace Machine.Replaces

variable {m m' : Machine H} {p : Key} {a : ActorId} {old new rest : List (Job H)}

theorem offers_before (h : m.Replaces m' p a old new rest) :
    m.offers p a = Job.offers p old ++ Job.offers p rest := by
  rw [Machine.offers, h.before, Job.offers_append]

theorem offers_after (h : m.Replaces m' p a old new rest) :
    m'.offers p a = Job.offers p new ++ Job.offers p rest := by
  rw [Machine.offers, h.after, Job.offers_append]

theorem offers_others (h : m.Replaces m' p a old new rest) {b : ActorId} (hb : b ≠ a) :
    m'.offers p b = m.offers p b := by
  unfold Machine.offers
  rcases h.others b hb with hsame | ⟨hempty, hnone⟩
  · rw [hsame]
  · rw [hempty, Job.offers_eq_nil fun t ht => absurd ht (hnone t)]
    rfl

theorem offers_eq (h : m.Replaces m' p a old new rest) (hold : Job.offers p old = [])
    (hnew : Job.offers p new = []) (b : ActorId) : m'.offers p b = m.offers p b := by
  by_cases hb : b = a
  · subst hb
    rw [h.offers_before, h.offers_after, hold, hnew]
  · exact h.offers_others hb

end Machine.Replaces

/-- What comes of a deed of the actor, which offers it before what it has still to offer. -/
structure Machine.Exchanges (m m' : Machine H) (p : Key) (a : ActorId) (deed : Deed H)
    (y : Presentation H) (new base : List Event) : Prop where
  displays : Displays deed.before deed.task y deed.notices new
  before : m.offers p a = deed.task.offer?.toList ++ base
  after : m'.offers p a = new ++ base
  others : ∀ b, b ≠ a → m'.offers p b = m.offers p b

/-- Who has nothing to offer offers nothing now. -/
theorem Machine.Exchanges.of_nil {m m' : Machine H} {p : Key} {a : ActorId} {deed : Deed H}
    {y : Presentation H} {new base : List Event} (h : m.Exchanges m' p a deed y new base)
    (hnone : m.offers p a = []) : deed.task.offer? = none ∧ base = [] := by
  obtain ⟨hoffer, hbase⟩ := List.append_eq_nil_iff.mp (h.before.symm.trans hnone)
  exact ⟨by simpa using hoffer, hbase⟩

namespace Turn

variable {m m' : Machine H} {p : Key} {crew crew' : Crew H} {a : ActorId} {deed : Deed H}
  {x y : Presentation H}

theorem offers_of_none (h : Turn m m' p crew none crew')
    (habsent : m.presentations[p]? = none → ∀ b, m.offers p b = []) (b : ActorId) :
    m'.offers p b = m.offers p b := by
  cases h with
  | arrival hstacks => rw [Machine.offers, hstacks b, Machine.offers]
  | call _ hplan hreplaces => exact hreplaces.offers_eq rfl hplan.offers b
  | @elsewhere a job old new rest hreplaces hold hplan =>
      refine hreplaces.offers_eq ?_ hplan.offers b
      cases hx : m.presentations[p]? with
      | none =>
          have hnone := habsent hx a
          rw [hreplaces.offers_before] at hnone
          exact (List.append_eq_nil_iff.mp hnone).1
      | some x =>
          refine Job.offers_eq_nil fun t ht => ?_
          rw [hold t ht] at hx
          cases hx

theorem exchanges (h : Turn m m' p crew (some (a, deed)) crew')
    (hy : m'.presentations[p]? = some y) :
    ∃ new base, m.Exchanges m' p a deed y new base := by
  cases h with
  | @aside _ answers task rest x move hx hx' hfree hstart hmove hreplaces =>
      obtain rfl := Option.some.inj (hy.symm.trans hx')
      refine ⟨_, Job.offers p rest, Presentation.perform_displays hfree hstart hmove, ?_, ?_,
        fun b hb => hreplaces.offers_others hb⟩
      · rw [Machine.offers, hreplaces.before, List.singleton_append, Job.offers_cons_at]
      · rw [hreplaces.offers_after, Job.offers_map_at]
  | @start _ _ rest x hnone hx hx' hidle hstack hstack' hempty hbody hothers =>
      obtain rfl := Option.some.inj (hy.symm.trans hx')
      refine ⟨[], Job.offers p rest, .apart rfl rfl rfl, ?_, ?_, fun b hb => ?_⟩
      · rw [Machine.offers, hstack, Job.offers_cons_at]
      · rw [Machine.offers, hstack', Job.offers_cons_at]
        rfl
      · by_cases hnew : b = m.actors.length
        · rw [hnew, Machine.offers, Machine.offers, hempty, hbody, Job.offers_map_at]
          rfl
        · rw [Machine.offers, hothers b hb hnew, Machine.offers]
  | @duty _ answers s x y' effects s? hcrew hx hx' hadv hreplaces =>
      obtain rfl := Option.some.inj (hy.symm.trans hx')
      refine ⟨_, [], hadv.displays, ?_, ?_, fun b hb => hreplaces.offers_others hb⟩
      · rw [hreplaces.offers_before, Job.offers_map_at, s.offers_duties]
        rfl
      · rw [hreplaces.offers_after, Job.offers_map_at]
        rfl

end Turn

end Playout
