import Playout.Proofs.Playback.History
import Playout.Proofs.Playback.Steering
import Playout.Proofs.Plain

/-!
# What stays on screen

The last frame that the display was given stays on screen until its region is painted over. A
presentation keeps that region in mind, and whoever takes it from there has the display paint over
it. A stop does so when its thread has ended, but from a callback it does so at once. What the
thread shows after that stays.
-/

namespace Playout

variable {H : Platform}

/-! ## The screen -/

/-- The region of the last frame after one more effect, if the frame covers anything and has not
been painted over. -/
def Effect.showOn (screen : Option Rect) (e : Effect H) : Option Rect :=
  match e.event? with
  | some (.videoFrame frame) => if frame.output.isEmpty then none else some frame.output
  | some (.redraw region) => if screen = some region then none else screen
  | none => screen

def onScreen (effects : List (Effect H)) : Option Rect :=
  effects.foldl Effect.showOn none

theorem foldl_showOn_of_no_event {effects : List (Effect H)} (h : ∀ e ∈ effects, e.event? = none)
    (screen : Option Rect) : effects.foldl Effect.showOn screen = screen := by
  induction effects with
  | nil => rfl
  | cons e effects ih =>
      have hfirst : Effect.showOn screen e = screen := by simp [Effect.showOn, h e]
      rw [List.foldl_cons, hfirst]
      exact ih fun e he => h e (List.mem_cons_of_mem _ he)

theorem isEmpty_of_foldl_showOn {effects : List (Effect H)} {screen : Option Rect} {region : Rect}
    (hscreen : ∀ o, screen = some o → o.isEmpty = false)
    (h : effects.foldl Effect.showOn screen = some region) : region.isEmpty = false := by
  induction effects generalizing screen with
  | nil => exact hscreen region h
  | cons e effects ih =>
      refine ih (fun o ho => ?_) h
      unfold Effect.showOn at ho
      split at ho
      · split at ho
        · cases ho
        · rename_i frame _ hcovers
          cases ho
          simpa using hcovers
      · split at ho
        · cases ho
        · exact hscreen o ho
      · exact hscreen o ho

/-! ## What changes it -/

theorem Presentation.effects_of_going {x y : Presentation H} {next next' : List (Task H)}
    {effects effects' : List (Effect H)} (h : x.going next effects = y.going next' effects') :
    effects' = effects := by
  simp only [going, Outcome.moves.injEq, Move.mk.injEq] at h
  exact h.2.2.1.symm

theorem Presentation.openSink_event {c : Surroundings H} {x y : Presentation H}
    {next : List (Task H)} {effects : List (Effect H)} (h : x.openSink c = y.going next effects) :
    ∀ e ∈ effects, e.event? = none := by
  obtain ⟨sink, opened, effects', hopen, hupkeep⟩ := openSink_eq_going c x
  rw [h] at hopen
  rw [effects_of_going hopen] at hupkeep
  exact fun e he => Effect.event?_of_isUpkeep (hupkeep e he)

theorem Presentation.select_event {c : Surroundings H} {x : Presentation H} {pacing : Pacing}
    {r? : Option (Schedule.Release H.Receiver)} {effects : List (Effect H)}
    (h : x.select c pacing = (r?, effects)) : ∀ e ∈ effects, e.event? = none := by
  cases pacing with
  | paced =>
      obtain ⟨-, rfl⟩ := Prod.mk.inj h
      intro e he
      split at he
      · obtain ⟨depth, -, rfl⟩ := List.mem_map.mp he
        rfl
      · simp at he
  | unpaced =>
      obtain ⟨-, rfl⟩ := Prod.mk.inj h
      simp

/-- The only event that a thread gives the display as a duty is the frame it was about to show. -/
theorem Advance.event_cases {c : Surroundings H} {x y : Presentation H} {s : Standing H}
    {effects : List (Effect H)} {s? : Option (Standing H)} (h : Advance c x s y effects s?) :
    (∀ e ∈ effects, e.event? = none) ∨ ∃ frame sample pacing result,
      s = .showing frame sample pacing ∧ y = x ∧
        effects = [.offered (.videoFrame frame) result] := by
  cases h with
  | offer => exact .inr ⟨_, _, _, _, rfl, rfl, rfl⟩
  | openSink hopen => exact .inl (Presentation.openSink_event hopen)
  | nothingReady hselect => exact .inl (Presentation.select_event hselect)
  | nothingLeft hselect => exact .inl (Presentation.select_event hselect)
  | choose hselect =>
      refine .inl fun e he => ?_
      rcases List.mem_append.mp he with hmem | hmem
      · exact Presentation.select_event hselect e hmem
      · rw [List.mem_singleton.mp hmem]
        rfl
  | drain hselect =>
      refine .inl fun e he => ?_
      rcases List.mem_append.mp he with hmem | hmem
      · exact Presentation.select_event hselect e hmem
      · rw [List.mem_singleton.mp hmem]
        rfl
  | pollLast =>
      refine .inl fun e he => ?_
      obtain ⟨depth, -, rfl⟩ := List.mem_map.mp he
      rfl
  | releaseSink => exact .inl fun e he =>
      Effect.event?_of_isUpkeep (Presentation.sinkCall_upkeep _ rfl e he)
  | _ => exact .inl (by simp [Effect.event?])

/-- A region is forgotten by a duty only when a frame takes its place. -/
theorem Advance.lastRendered_cases {c : Surroundings H} {x y : Presentation H} {s : Standing H}
    {effects : List (Effect H)} {s? : Option (Standing H)} (h : Advance c x s y effects s?) :
    y.lastRendered = x.lastRendered ∧
      (∀ frame sample pacing, s? ≠ some (.showing frame sample pacing)) ∨
      ∃ selected pacing payload frame sample, s = .dispatching selected pacing ∧
        selected.majorType = .video ∧ selected.sample.payload = some payload ∧
        y.lastRendered = x.output ∧ s? = some (.showing frame sample pacing) ∧
          frame.output = x.output := by
  cases h with
  | frame htype hpayload =>
      refine .inr ⟨_, _, _, _, _, rfl, htype, hpayload, ?_, rfl, rfl⟩
      rw [Presentation.beginFrame_snd]
  | poll =>
      refine .inl ⟨rfl, fun frame sample pacing heq => ?_⟩
      cases heq
  | leave =>
      refine .inl ⟨rfl, fun frame sample pacing heq => ?_⟩
      cases heq
  | _ => exact .inl ⟨rfl, by simp⟩

/-- Only a repaint lets a presentation forget a region, and it always does. -/
theorem Steering.lastRendered_cases {c : Surroundings H} {x y : Presentation H} {task : Task H}
    {next : List (Task H)} {effects : List (Effect H)} (h : Steering c x task y next effects) :
    y.lastRendered = x.lastRendered ∨ task = .repaint ∧ y.lastRendered = .zero := by
  cases h with
  | cover => exact .inr ⟨rfl, rfl⟩
  | apart _ _ _ hscreen => exact .inl hscreen
  | _ => exact .inl rfl

theorem Steering.isEmpty_of_repaint {c : Surroundings H} {x y : Presentation H}
    {next : List (Task H)} {effects : List (Effect H)} (h : Steering c x .repaint y next effects) :
    y.lastRendered.isEmpty := by
  cases h with
  | bare hempty => exact hempty
  | cover => rfl
  | apart hsteering => simp [Task.isSteering] at hsteering

/-- A frame that is drawn elsewhere than the last one has the last one painted over first. -/
theorem Presentation.redraw_mem_of_frame {x : Presentation H} {selected : Selected H.Receiver}
    {payload : Payload} (htype : selected.majorType = .video)
    (hpayload : selected.sample.payload = some payload) (hmoved : x.lastRendered ≠ x.output)
    (hcovers : x.lastRendered.isEmpty = false) (pacing : Pacing) :
    Task.offer (.redraw x.lastRendered) ∈ (Standing.dispatching selected pacing).interludes x := by
  have hstale : x.beginFrame.1 = some x.lastRendered := by
    simp [beginFrame, takeLastRendered, hmoved, hcovers]
  simp [Standing.interludes_of_frame htype hpayload, hstale]

/-! ## What a presentation has in mind -/

/-- The presentation has in mind what is on screen, or someone is about to paint it over. -/
def Minds (m : Machine H) (p : Key) (x : Presentation H) (screen : Option Rect) : Prop :=
  ∀ region, screen = some region →
    x.lastRendered = region ∨ ∃ b, Job.at p (.offer (.redraw region)) ∈ m.stack b

/-- A frame that the thread is about to show is in mind already. -/
def Intends (x : Presentation H) (crew : Crew H) : Prop :=
  ∀ t frame sample pacing, crew = some (t, .showing frame sample pacing) →
    x.lastRendered = frame.output

namespace Minds

variable {m m' : Machine H} {p : Key} {a : ActorId} {x y : Presentation H} {screen : Option Rect}
  {old new rest : List (Job H)} {crew crew' : Crew H}

theorem keep (h : Minds m p x screen) (hsame : y.lastRendered = x.lastRendered)
    (hpending : ∀ b region, Job.at p (.offer (.redraw region)) ∈ m.stack b →
      Job.at p (.offer (.redraw region)) ∈ m'.stack b) : Minds m' p y screen := by
  intro region hregion
  rcases h region hregion with hmind | ⟨b, hmem⟩
  · exact .inl (hsame.trans hmind)
  · exact .inr ⟨b, hpending b region hmem⟩

theorem pending_of_replaces {region : Rect} (hreplaces : m.Replaces m' p a old new rest)
    (hold : Job.at p (.offer (.redraw region)) ∉ old) {b : ActorId}
    (hmem : Job.at p (.offer (.redraw region)) ∈ m.stack b) :
    Job.at p (.offer (.redraw region)) ∈ m'.stack b := by
  by_cases hb : b = a
  · subst hb
    rw [hreplaces.before] at hmem
    rw [hreplaces.after]
    exact List.mem_append_right new ((List.mem_append.mp hmem).resolve_left hold)
  · rcases hreplaces.others b hb with hsame | ⟨hempty, -⟩
    · rw [hsame]
      exact hmem
    · simp [hempty] at hmem

/-- A task of a call: it paints over what it lets the presentation forget. -/
theorem aside {c : Surroundings H} {task : Task H} {next : List (Task H)}
    {effects : List (Effect H)} (h : Minds m p x screen) (hfree : task.isDuty = false)
    (hsteer : Steering c x task y next effects)
    (hreplaces : m.Replaces m' p a [.at p task] (next.map (.at p)) rest) :
    Minds m' p y (effects.foldl Effect.showOn screen) := by
  have hkeep : task.isOffer = false → y.lastRendered = x.lastRendered →
      (∀ e ∈ effects, e.event? = none) →
      Minds m' p y (effects.foldl Effect.showOn screen) := by
    intro hoffer hsame hevents
    rw [foldl_showOn_of_no_event hevents]
    refine h.keep hsame fun b region hmem => pending_of_replaces hreplaces ?_ hmem
    intro hmem
    obtain rfl : task = .offer (.redraw region) := by simpa using (List.mem_singleton.mp hmem).symm
    simp [Task.isOffer] at hoffer
  cases hsteer with
  | cover hcovers =>
      -- what is forgotten is to be painted over next
      intro region hregion
      rcases h region hregion with rfl | ⟨b, hmem⟩
      · refine .inr ⟨a, ?_⟩
        rw [hreplaces.after]
        simp
      · exact .inr ⟨b, pending_of_replaces hreplaces (by simp) hmem⟩
  | @offer event result =>
      cases event with
      | videoFrame frame => simp [Task.isDuty] at hfree
      | redraw painted =>
          intro region hregion
          -- this redraw is no longer pending, but its region is no longer on screen either
          have hstays : screen = some region ∧ region ≠ painted := by
            simp only [List.foldl_cons, List.foldl_nil, Effect.showOn, Effect.event?] at hregion
            split at hregion
            · cases hregion
            · rename_i hother
              refine ⟨hregion, fun heq => hother ?_⟩
              rw [hregion, heq]
          rcases h region hstays.1 with hmind | ⟨b, hmem⟩
          · exact .inl hmind
          · refine .inr ⟨b, pending_of_replaces hreplaces ?_ hmem⟩
            simp [hstays.2]
  | apart _ hoffer _ hscreen _ _ hevents => exact hkeep hoffer hscreen hevents
  | _ => exact hkeep rfl rfl (by simp)

/-- A duty: a frame that is begun takes the place of the last one, which is painted over if it was
drawn elsewhere. -/
theorem duty {c : Surroundings H} {s : Standing H} {effects : List (Effect H)}
    {s? : Option (Standing H)}
    (h : Minds m p x screen) (hcovers : ∀ o, screen = some o → o.isEmpty = false)
    (hintends : Intends x (some (a, s))) (hadv : Advance c x s y effects s?)
    (hreplaces : m.Replaces m' p a ((Standing.duties (some s)).map (.at p))
      ((s.interludes x ++ Standing.duties s?).map (.at p)) []) :
    Minds m' p y (effects.foldl Effect.showOn screen) := by
  have hpending : ∀ b region, Job.at p (.offer (.redraw region)) ∈ m.stack b →
      Job.at p (.offer (.redraw region)) ∈ m'.stack b := by
    intro b region hmem
    refine pending_of_replaces hreplaces ?_ hmem
    cases s <;> simp [Standing.duties, Standing.duty, Standing.later]
  rcases hadv.event_cases with hnone | ⟨frame, sample, pacing, result, rfl, rfl, rfl⟩
  · rw [foldl_showOn_of_no_event hnone]
    rcases hadv.lastRendered_cases with ⟨hsame, -⟩ |
      ⟨selected, pacing, payload, frame, sample, rfl, htype, hpayload, hlast, rfl, -⟩
    · exact h.keep hsame hpending
    · intro region hregion
      rcases h region hregion with rfl | ⟨b, hmem⟩
      · by_cases hmoved : x.lastRendered = x.output
        · exact .inl (hlast.trans hmoved.symm)
        · -- drawn elsewhere, so that the thread paints it over before it shows the frame
          have hredraw := Presentation.redraw_mem_of_frame htype hpayload hmoved (hcovers _ hregion)
            pacing
          refine .inr ⟨a, ?_⟩
          rw [hreplaces.after]
          simp [hredraw]
      · exact .inr ⟨b, hpending b region hmem⟩
  · intro region hregion
    have hframe : frame.output = region := by
      simp only [List.foldl_cons, List.foldl_nil, Effect.showOn, Effect.event?] at hregion
      split at hregion
      · cases hregion
      · exact Option.some.inj hregion
    exact .inl ((hintends a frame sample pacing rfl).trans hframe)

end Minds

/-! ## Runs -/

/-- The next thing that the actor does is to have the last frame painted over. -/
def Task.isRepaint : Task H → Bool
  | .repaint => true
  | _ => false

def Task.beginsFrame : Task H → Bool
  | .dispatch selected => selected.majorType == .video && selected.sample.payload.isSome
  | _ => false

def Job.isFrame (p : Key) : Job H → Bool
  | .at q (.offer (.videoFrame _)) => q == p
  | _ => false

def Job.isRedraw (p : Key) : Job H → Bool
  | .at q (.offer (.redraw _)) => q == p
  | _ => false

namespace Transition

/-- A stop has the last frame of the presentation painted over. -/
def repaints (t : Transition H) (p : Key) : Bool :=
  (t.doing? p).any fun (_, deed) => deed.task.isRepaint

def begins (t : Transition H) (p : Key) : Bool :=
  (t.doing? p).any fun (_, deed) => deed.task.beginsFrame

/-- No stop has the last frame painted over while the thread is about to show one that
it has begun. -/
def calm (t : Transition H) (p : Key) : Bool :=
  !(t.repaints p && t.before.owes (Job.isFrame p))

theorem repaints_iff {t : Transition H} {p : Key} :
    t.repaints p ↔ ∃ a deed, t.doing? p = some (a, deed) ∧ deed.task = .repaint := by
  have hrepaint : ∀ task : Task H, task.isRepaint ↔ task = .repaint := by
    intro task
    cases task <;> simp [Task.isRepaint]
  simp [repaints, Option.any_eq_true, hrepaint]

theorem begins_of_frame {t : Transition H} {p : Key} {a : ActorId} {x : Presentation H}
    {effects : List (Effect H)} {selected : Selected H.Receiver} {payload : Payload}
    (hdoing : t.doing? p = some (a, ⟨x, .dispatch selected, effects⟩))
    (htype : selected.majorType = .video)
    (hpayload : selected.sample.payload = some payload) : t.begins p := by
  simp [begins, hdoing, Task.beginsFrame, htype, hpayload]

theorem not_calm {t : Transition H} {p : Key} {a : ActorId} {x : Presentation H}
    {effects : List (Effect H)} {b : ActorId} {frame : VideoFrame}
    (hdoing : t.doing? p = some (a, ⟨x, .repaint, effects⟩))
    (hmem : Job.at p (.offer (.videoFrame frame)) ∈ t.before.stack b) : t.calm p = false := by
  have hrepaints : t.repaints p := repaints_iff.mpr ⟨a, _, hdoing, rfl⟩
  have howes : t.before.owes (Job.isFrame p) := Machine.owes_of_mem hmem (by simp [Job.isFrame])
  simp [calm, hrepaints, howes]

end Transition

theorem Crewed.videoFrame_mem {m : Machine H} {p : Key} {t : ActorId} {frame : VideoFrame}
    {sample : Sample H.Receiver} {pacing : Pacing}
    (h : Crewed m p (some (t, .showing frame sample pacing))) :
    Job.at p (.offer (.videoFrame frame)) ∈ m.stack t := by
  obtain ⟨free, hstack, -⟩ := h.owes t
  rw [hstack]
  simp [Crew.of, Standing.duties, Standing.duty]

/-- What a presentation of a run has in mind is what its effects have left on screen. -/
structure Run.Recalls (r : Run H) (p : Key) (crew : Crew H) : Prop where
  absent : r.final.presentations[p]? = none → r.effects p = []
  minds : ∀ x, r.final.presentations[p]? = some x → Minds r.final p x (onScreen (r.effects p))
  intends : ∀ x, r.final.presentations[p]? = some x → Intends x crew

namespace Run.Recalls

variable {r : Run H} {p : Key} {action : Action H} {progress : Progress H} {crew crew' : Crew H}

theorem isEmpty_of_onScreen (r : Run H) (p : Key) :
    ∀ o, onScreen (r.effects p) = some o → o.isEmpty = false :=
  fun _ ho => isEmpty_of_foldl_showOn (by simp) ho

theorem stay (h : r.Recalls p crew) (heffects : (r.extend action progress).effects p = r.effects p)
    (hsame : progress.machine.presentations[p]? = r.final.presentations[p]?)
    (hpending : ∀ b region, Job.at p (.offer (.redraw region)) ∈ r.final.stack b →
      Job.at p (.offer (.redraw region)) ∈ progress.machine.stack b) :
    (r.extend action progress).Recalls p crew where
  absent hnone := by
    rw [heffects]
    exact h.absent (hsame.symm.trans hnone)
  minds x hx := by
    rw [heffects]
    exact (h.minds x (hsame.symm.trans hx)).keep rfl hpending
  intends x hx := h.intends x (hsame.symm.trans hx)

theorem of_deed {y : Presentation H} (hy : progress.machine.presentations[p]? = some y)
    (hminds : Minds progress.machine p y (onScreen ((r.extend action progress).effects p)))
    (hintends : Intends y crew') : (r.extend action progress).Recalls p crew' where
  absent hnone := by
    rw [show (r.extend action progress).final.presentations[p]? = some y from hy] at hnone
    cases hnone
  minds z hz := by
    obtain rfl := Option.some.inj (hy.symm.trans hz)
    exact hminds
  intends z hz := by
    obtain rfl := Option.some.inj (hy.symm.trans hz)
    exact hintends

theorem next (h : r.Recalls p crew) (hcrew : Crewed r.final p crew)
    (hplay : r.final.play action = some progress)
    (hturn : Turn r.final progress.machine p crew
      (Transition.doing? p ⟨r.final, action, progress⟩) crew')
    (hcalm : Transition.calm ⟨r.final, action, progress⟩ p) :
    (r.extend action progress).Recalls p crew' := by
  generalize hdoing : Transition.doing? p ⟨r.final, action, progress⟩ = doing? at hturn
  have heffects := Run.effects_extend_of_doing hplay hdoing
  have hfold : onScreen ((r.extend action progress).effects p) =
      ((doing?.map (·.2.effects)).getD []).foldl Effect.showOn (onScreen (r.effects p)) := by
    rw [heffects, onScreen, List.foldl_append]
    rfl
  cases hturn with
  | arrival hstacks hsame =>
      refine h.stay (by simpa using heffects) hsame fun b region hmem => ?_
      rw [hstacks b]
      exact hmem
  | call hmay hplan hreplaces hsame =>
      exact h.stay (by simpa using heffects) hsame fun b region hmem =>
        Minds.pending_of_replaces hreplaces (by simp) hmem
  | elsewhere hreplaces hold hplan hpres =>
      rcases hpres with hsame | ⟨hnone, id, hnew⟩
      · cases hx : r.final.presentations[p]? with
        | none =>
            refine ⟨fun _ => ?_, fun x hx' => ?_, fun x hx' => ?_⟩
            · simpa [h.absent hx] using heffects
            · rw [show (r.extend action progress).final.presentations[p]? = none from
                hsame.trans hx] at hx'
              cases hx'
            · rw [show (r.extend action progress).final.presentations[p]? = none from
                hsame.trans hx] at hx'
              cases hx'
        | some x =>
            refine h.stay (by simpa using heffects) hsame fun b region hmem => ?_
            refine Minds.pending_of_replaces hreplaces (fun hmem => ?_) hmem
            rw [hold _ hmem] at hx
            cases hx
      · have hcrew' := hcrew.eq_none_of_absent hnone
        refine of_deed hnew (fun region hregion => ?_) fun t frame sample pacing heq => ?_
        · rw [hfold, h.absent hnone] at hregion
          cases hregion
        · rw [hcrew'] at heq
          cases heq
  | @aside a answers task rest x move hx hx' hfree hstart hmove hreplaces =>
      have hsteer := Presentation.perform_steering hfree hstart move hmove
      refine of_deed hx' ?_ fun t frame sample pacing heq => ?_
      · rw [hfold]
        exact (h.minds x hx).aside hfree hsteer hreplaces
      · have hbefore := h.intends x hx t frame sample pacing heq
        rcases hsteer.lastRendered_cases with hsame | ⟨rfl, -⟩
        · exact hsame.trans hbefore
        · -- the frame that the thread is about to show would be forgotten
          subst heq
          have hnot := Transition.not_calm hdoing hcrew.videoFrame_mem
          rw [hcalm] at hnot
          cases hnot
  | @start a answers rest x hnone hx hx' hidle hstack hstack' hempty hbody hothers =>
      refine of_deed hx' ?_ fun t frame sample pacing heq => by simp at heq
      rw [hfold]
      refine (h.minds x hx).keep rfl fun b region hmem => ?_
      by_cases hnew : b = r.final.actors.length
      · subst hnew
        simp [hempty] at hmem
      · by_cases hb : b = a
        · subst hb
          rw [hstack] at hmem
          rw [hstack']
          simpa using hmem
        · rw [hothers b hb hnew]
          exact hmem
  | @duty a answers s x y effects s? hcrew' hx hx' hadv hreplaces =>
      subst hcrew'
      refine of_deed hx' ?_ fun t frame sample pacing heq => ?_
      · rw [hfold]
        exact (h.minds x hx).duty (isEmpty_of_onScreen r p) (h.intends x hx) hadv hreplaces
      · rcases hadv.lastRendered_cases with ⟨-, hnot⟩ |
          ⟨selected, _, payload, frame', sample', -, -, -, hlast, rfl, houtput⟩
        · cases s? with
          | none => cases heq
          | some s' =>
              cases heq
              exact absurd rfl (hnot frame sample pacing)
        · cases heq
          exact hlast.trans houtput.symm

end Run.Recalls

/-! ## Repaints -/

theorem Turn.before_eq {m m' : Machine H} {p : Key} {crew crew' : Crew H} {a : ActorId}
    {doing? : Option (ActorId × Deed H)} {deed : Deed H} (h : Turn m m' p crew doing? crew')
    (hdoing : doing? = some (a, deed)) : m.presentations[p]? = some deed.before := by
  cases h <;> cases hdoing <;> assumption

/-- What a repaint has made the presentation forget stays forgotten until a frame is begun. -/
theorem Turn.isEmpty_lastRendered {m m' : Machine H} {p : Key} {crew crew' : Crew H}
    {x : Presentation H} {doing? : Option (ActorId × Deed H)} (h : Turn m m' p crew doing? crew')
    (hx : m.presentations[p]? = some x)
    (hempty : x.lastRendered.isEmpty ∨ ∃ a effects, doing? = some (a, ⟨x, .repaint, effects⟩))
    (hbegins : ∀ a selected effects payload, doing? = some (a, ⟨x, .dispatch selected, effects⟩) →
      selected.majorType = .video → selected.sample.payload ≠ some payload) :
    ∃ y, m'.presentations[p]? = some y ∧ y.lastRendered.isEmpty := by
  cases doing? with
  | none => exact ⟨x, (h.still hx).1, by simpa using hempty⟩
  | some doing =>
      cases h with
      | aside hx₀ hy hfree hstart hmove =>
          obtain rfl := Option.some.inj (hx.symm.trans hx₀)
          have hsteer := Presentation.perform_steering hfree hstart _ hmove
          refine ⟨_, hy, ?_⟩
          rcases hempty with hempty | ⟨a, effects, heq⟩
          · rcases hsteer.lastRendered_cases with hsame | ⟨-, hzero⟩
            · rw [hsame]
              exact hempty
            · rw [hzero]
              rfl
          · cases heq
            exact hsteer.isEmpty_of_repaint
      | start _ hx₀ hy =>
          obtain rfl := Option.some.inj (hx.symm.trans hx₀)
          exact ⟨_, hy, by simpa [Presentation.spawn, Presentation.rewind] using hempty⟩
      | @duty a _ s _ y _ _ _ hx₀ hy hadv =>
          obtain rfl := Option.some.inj (hx.symm.trans hx₀)
          refine ⟨_, hy, ?_⟩
          rcases hadv.lastRendered_cases with ⟨hsame, -⟩ |
            ⟨selected, _, payload, _, _, rfl, htype, hpayload, -⟩
          · rcases hempty with hempty | ⟨b, effects, heq⟩
            · rw [hsame]
              exact hempty
            · simp only [Option.some.injEq, Prod.mk.injEq, Deed.mk.injEq] at heq
              have hduty := s.duty_isDuty
              rw [heq.2.2.1] at hduty
              cases hduty
          · exact absurd hpayload (hbegins a selected _ payload rfl htype)

/-- After a repaint, and until a frame is begun, the presentation has no region in mind. -/
def Run.Forgets (r : Run H) (p : Key) : Prop :=
  ∀ before t after, r.trace = before ++ t :: after → t.repaints p →
    (∀ u ∈ after, u.begins p = false) →
    ∃ x, r.final.presentations[p]? = some x ∧ x.lastRendered.isEmpty

theorem Run.Forgets.next {r : Run H} {p : Key} {action : Action H} {progress : Progress H}
    {crew crew' : Crew H} (h : r.Forgets p)
    (hturn : Turn r.final progress.machine p crew
      (Transition.doing? p ⟨r.final, action, progress⟩) crew') :
    (r.extend action progress).Forgets p := by
  intro before t after htrace hrepaint hbegins
  rcases snoc_eq_split htrace with ⟨-, rfl, -⟩ | ⟨earlier, rfl, hinit⟩
  · -- the repaint is what happens now
    obtain ⟨a, ⟨x, task, effects⟩, hdoing, rfl⟩ := Transition.repaints_iff.mp hrepaint
    refine hturn.isEmpty_lastRendered (hturn.before_eq hdoing) (.inr ⟨a, effects, hdoing⟩) ?_
    intro b selected effects' payload hdispatch
    rw [hdoing] at hdispatch
    cases hdispatch
  · obtain ⟨x, hx, hempty⟩ := h before t earlier hinit hrepaint fun v hv => hbegins v (by simp [hv])
    refine hturn.isEmpty_lastRendered hx (.inl hempty) ?_
    intro b selected effects payload hdispatch htype hpayload
    have hframe := Transition.begins_of_frame hdispatch htype hpayload
    rw [hbegins _ (by simp)] at hframe
    cases hframe

namespace Machine

theorem run_forgets (config : Config) (decoders : DecoderBackends H.Codec)
    (outputs : AudioBackends H.Output) (actions : List (Action H)) (p : Key) :
    ((initial config decoders outputs).run actions).Forgets p := by
  obtain ⟨-, -, hforgets⟩ := run_turns (p := p) (P := fun r _ => r.Forgets p)
    (initial config decoders outputs) (fun q => ⟨none, .initial config decoders outputs q⟩)
    (.initial config decoders outputs p) (fun before t after htrace => by simp at htrace)
    (fun r action progress crew crew' _ h _ _ hturn => h.next hturn) actions
  exact hforgets

theorem run_recalls (config : Config) (decoders : DecoderBackends H.Codec)
    (outputs : AudioBackends H.Output) (actions : List (Action H)) (p : Key)
    (hcalm : ∀ u ∈ ((initial config decoders outputs).run actions).trace, u.calm p) :
    ∃ crew, ((initial config decoders outputs).run actions).Recalls p crew := by
  obtain ⟨crew, -, hrecalls⟩ := run_turns (p := p)
    (P := fun r crew => (∀ u ∈ r.trace, u.calm p) → r.Recalls p crew)
    (initial config decoders outputs) (fun q => ⟨none, .initial config decoders outputs q⟩)
    (.initial config decoders outputs p)
    (fun _ => ⟨fun _ => rfl, fun x hx =>
      by simp [initial] at hx, fun x hx => by simp [initial] at hx⟩)
    (fun r action progress crew crew' hcrew h hplay _ hturn hcalm =>
      (h fun u hu => hcalm u (List.mem_append_left _ hu)).next hcrew hplay hturn
        (hcalm _ List.mem_concat_self)) actions
  exact ⟨crew, hrecalls hcalm⟩

/-- Suppose that no stop has the last frame painted over while the thread is about to show another.
Then after a stop has done so, and if no frame is begun any more, the presentation has no region in
mind; and when the display has been given every redraw, nothing is left on screen. -/
theorem repaint_clears_screen (config : Config) (decoders : DecoderBackends H.Codec)
    (outputs : AudioBackends H.Output) (actions : List (Action H)) (p : Key) (k : Nat)
    (hrepaint : (((initial config decoders outputs).run actions).trace[k]?).any (·.repaints p))
    (hbegins : (((initial config decoders outputs).run actions).trace.drop (k + 1)).all
      (!·.begins p))
    (hcalm : ((initial config decoders outputs).run actions).trace.all (·.calm p))
    (hdone : ((initial config decoders outputs).run actions).final.owes (Job.isRedraw p) = false) :
    (∃ x, ((initial config decoders outputs).run actions).final.presentations[p]? = some x ∧
      x.lastRendered.isEmpty) ∧
      onScreen (((initial config decoders outputs).run actions).effects p) = none := by
  obtain ⟨t, ht, hrepaints⟩ := (Option.any_eq_true _ _).mp hrepaint
  obtain ⟨hk, rfl⟩ := List.getElem?_eq_some_iff.mp ht
  have htrace := List.take_append_drop k ((initial config decoders outputs).run actions).trace
  rw [← List.getElem_cons_drop hk] at htrace
  obtain ⟨x, hx, hempty⟩ :=
    run_forgets config decoders outputs actions p _ _ _ htrace.symm hrepaints
    (by simpa using hbegins)
  obtain ⟨crew, hrecalls⟩ := run_recalls config decoders outputs actions p (by simpa using hcalm)
  refine ⟨⟨x, hx, hempty⟩, ?_⟩
  cases hscreen : onScreen (((initial config decoders outputs).run actions).effects p) with
  | none => rfl
  | some region =>
      have hcovers := Run.Recalls.isEmpty_of_onScreen _ p region hscreen
      rcases hrecalls.minds x hx region hscreen with rfl | ⟨b, hmem⟩
      · rw [hempty] at hcovers
        cases hcovers
      · have howes := owes_of_mem hmem (by simp [Job.isRedraw] : Job.isRedraw p _)
        rw [hdone] at howes
        cases howes

open Playout.Action in
/-- A thread of the host starts a presentation with one frame. The presentation's thread shows it,
and the host stops the presentation from the callback of the acknowledgment. -/
def stoppedAfterFrame : List (Action .plain) :=
  prepared (.video .unknown 2 2) [0] ++ calling 0 (.setGeometry 0 ⟨0, 0, 4, 4⟩) 1
    ++ calling 0 (.start 0) 2 ++ steps 1 7 ++ calling 1 (.stop 0) 6 ++ steps 1 10

theorem stoppedAfterFrame_clears_screen :
    onScreen ((plain.run stoppedAfterFrame).effects 0) = none := by
  have hclears :=
    repaint_clears_screen .standard (.standardDecoders ()) .empty stoppedAfterFrame 0 25
    (by decide +kernel) (by decide +kernel) (by decide +kernel) (by decide +kernel)
  exact hclears.2

open Playout.Action in
/-- A thread of the host starts a presentation with two frames and an ended stream. The
presentation's thread shows the first, and the host stops the presentation from that callback; then
the thread plays out what is left and ends. -/
def stoppedWhileShowing : List (Action .plain) :=
  prepared (.video .unknown 2 2) [0, 1] ++ calling 0 (.setGeometry 0 ⟨0, 0, 4, 4⟩) 1
    ++ calling 0 (.endStream ⟨0, 0⟩) 1 ++ calling 0 (.start 0) 2 ++ steps 1 5 ++
      calling 1 (.stop 0) 6
    ++ steps 1 20

/-- Everyone has done what there was to do, and the second frame is still on screen. -/
theorem stoppedWhileShowing_leaves_frame :
    (plain.run stoppedWhileShowing).final.actors.all (·.jobs.isEmpty) ∧
      (plain.run stoppedWhileShowing).final.presentations[0]?.map (·.state) = some .stopped ∧
      (plain.run stoppedWhileShowing).final.presentations[0]?.map (·.lastRendered) =
        some ⟨0, 0, 4, 4⟩ ∧
      onScreen ((plain.run stoppedWhileShowing).effects 0) = some ⟨0, 0, 4, 4⟩ := by
  decide +kernel

end Machine

end Playout
