import Playout.Proofs.Playback.Turn

/-!
# The history of a presentation

Whatever the actors of a machine do, each presentation by itself sees a succession of deeds: tasks
of calls, launches of a thread, and duties of that thread one after the other. A property of single
presentations is proved by induction on such histories, without regard to stacks.
-/

namespace Playout

variable {H : Platform}

/-- A presentation, with the standing of its thread if there is one. -/
structure Scene (H : Platform) where
  presentation : Presentation H
  standing : Option (Standing H)

/-- A task that is not a duty is done, or a thread is launched, or it does its next duty. -/
inductive Scene.Step : Scene H → Deed H → Scene H → Prop where
  | aside {c x s? task move} : task.isDuty = false → (task = .start → x.launches c = false) →
      x.perform c task = .moves move →
      Step ⟨x, s?⟩ ⟨x, task, move.effects⟩ ⟨move.presentation, s?⟩
  | start {c x a} : x.launches c → Step ⟨x, none⟩ ⟨x, .start, []⟩ ⟨x.spawn a, some .openingSink⟩
  | duty {c x s y effects s?} : Advance c x s y effects s? →
      Step ⟨x, some s⟩ ⟨x, s.duty, effects⟩ ⟨y, s?⟩

inductive Scene.History (first : Scene H) : List (Deed H) → Scene H → Prop where
  | nil : History first [] first
  | snoc {deeds scene deed next} : History first deeds scene → Scene.Step scene deed next →
      History first (deeds ++ [deed]) next

def Scene.new (id : PresentationId) : Scene H :=
  ⟨.new id, none⟩

theorem Scene.Step.before_eq {scene next : Scene H} {deed : Deed H} (h : Step scene deed next) :
    deed.before = scene.presentation := by
  cases h <;> rfl

/-- A history leads up to each of its deeds and goes on from there. -/
theorem Scene.History.split {first last : Scene H} {deeds earlier later : List (Deed H)}
    {deed : Deed H} (h : History first deeds last) (hdeeds : deeds = earlier ++ deed :: later) :
    ∃ scene next, History first earlier scene ∧ Step scene deed next ∧ History next later last := by
  induction h generalizing later with
  | nil => simp at hdeeds
  | snoc hhistory hstep ih =>
      rcases snoc_eq_split hdeeds with ⟨rfl, rfl, rfl⟩ | ⟨rest, rfl, hinit⟩
      · exact ⟨_, _, hhistory, hstep, .nil⟩
      · obtain ⟨scene, next, hearlier, hdeed, hlater⟩ := ih hinit
        exact ⟨scene, next, hearlier, hdeed, hlater.snoc hstep⟩

def Transition.deed? (p : Key) (t : Transition H) : Option (Deed H) :=
  (t.doing? p).map (·.2)

theorem Transition.deed?_at {m : Machine H} {p q : Key} {a : ActorId} {answers : Answers H}
    {task : Task H} {rest : List (Job H)} {progress : Progress H}
    (hstack : m.stack a = .at q task :: rest) :
    Transition.deed? p ⟨m, .step a answers, progress⟩ =
      if q = p then m.presentations[p]?.map fun x =>
        ⟨x, task, progress.effects.map (·.2)⟩ else none := by
  rw [deed?, doing?_at hstack]
  by_cases hqp : q = p
  · simp [hqp, Function.comp_def]
  · simp [hqp]

theorem Transition.deed?_of_doing {t : Transition H} {p : Key} {a : ActorId} {deed : Deed H}
    (hdoing : t.doing? p = some (a, deed)) : t.deed? p = some deed := by
  rw [deed?, hdoing]
  rfl

theorem Transition.exists_doing {t : Transition H} {p : Key} {deed : Deed H}
    (hdeed : t.deed? p = some deed) :
    ∃ a, t.doing? p = some (a, deed) := by
  obtain ⟨⟨a, _⟩, hdoing, rfl⟩ := Option.map_eq_some_iff.mp hdeed
  exact ⟨a, hdoing⟩

def Run.deeds (r : Run H) (p : Key) : List (Deed H) :=
  r.trace.filterMap (·.deed? p)

/-- A transition as it is seen from one presentation: nothing is done to it, or it appears, or one
deed is done. -/
inductive Sighting (m m' : Machine H) (p : Key) (crew : Crew H) :
    Option (Deed H) → Crew H → Prop where
  | apart : m'.presentations[p]? = m.presentations[p]? → Sighting m m' p crew none crew
  | appears {id} : m.presentations[p]? = none → m'.presentations[p]? = some (.new id) →
      Sighting m m' p crew none none
  | deed {x y deed crew'} : m.presentations[p]? = some x → m'.presentations[p]? = some y →
      Scene.Step ⟨x, crew.standing⟩ deed ⟨y, crew'.standing⟩ →
        Sighting m m' p crew (some deed) crew'

namespace Crewed

variable {m : Machine H} {p q : Key} {crew : Crew H} {a : ActorId} {answers : Answers H}
  {task : Task H} {rest : List (Job H)} {x : Presentation H} {progress : Progress H}

theorem sighting_of_turn {m' : Machine H} {doing? : Option (ActorId × Deed H)} {crew' : Crew H}
    (hcrew : Crewed m p crew) (h : Turn m m' p crew doing? crew') :
    Sighting m m' p crew (doing?.map (·.2)) crew' := by
  cases h with
  | arrival _ hsame => exact .apart hsame
  | call _ _ _ hsame => exact .apart hsame
  | elsewhere _ _ _ hpres =>
      rcases hpres with hsame | ⟨hnone, id, hnew⟩
      · exact .apart hsame
      · obtain rfl := hcrew.eq_none_of_absent hnone
        exact .appears hnone hnew
  | aside hx hy hfree hstart hmove _ => exact .deed hx hy (.aside hfree hstart hmove)
  | start hnone hx hy hlaunches => exact .deed hx hy (hnone ▸ .start hlaunches)
  | @duty a _ s x y _ s? hcrew hx hy hadv =>
      refine .deed hx hy ?_
      rw [Crew.standing_map, hcrew]
      exact .duty hadv

/-- Either nothing is done to a presentation, which stays as it is, or one deed. -/
theorem step_of_turn {m' : Machine H} {doing? : Option (ActorId × Deed H)} {crew' : Crew H}
    {y : Presentation H} (hcrew : Crewed m p crew) (h : Turn m m' p crew doing? crew')
    (hx : m.presentations[p]? = some x) (hy : m'.presentations[p]? = some y) :
    doing? = none ∧ y = x ∧ crew' = crew ∨
      ∃ b deed, doing? = some (b, deed) ∧
        Scene.Step ⟨x, crew.standing⟩ deed ⟨y, crew'.standing⟩ := by
  cases doing? with
  | none =>
      obtain ⟨hsame, hstay⟩ := h.still hx
      exact .inl ⟨rfl, Option.some.inj (hy.symm.trans hsame), hstay⟩
  | some doing =>
      have hsight := hcrew.sighting_of_turn h
      generalize hdeed : Option.map (·.2) (some doing) = deed? at hsight
      cases hsight with
      | apart => cases hdeed
      | appears => cases hdeed
      | deed hx' hy' hstep =>
          obtain rfl := Option.some.inj (hx.symm.trans hx')
          obtain rfl := Option.some.inj (hy.symm.trans hy')
          obtain rfl := Option.some.inj hdeed
          exact .inr ⟨doing.1, doing.2, rfl, hstep⟩

end Crewed

/-! ## Runs -/

def Transition.effects (t : Transition H) (p : Key) : List (Effect H) :=
  t.progress.effects.filterMap fun (q, e) => if q = p then some e else none

def Run.effects (r : Run H) (p : Key) : List (Effect H) :=
  r.trace.flatMap (·.effects p)

def Deed.effectsOf (deeds : List (Deed H)) : List (Effect H) :=
  deeds.flatMap (·.effects)

theorem Run.effects_extend (r : Run H) (p : Key) (action : Action H) (progress : Progress H) :
    (r.extend action progress).effects p =
      r.effects p ++ Transition.effects ⟨r.final, action, progress⟩ p := by
  simp [Run.effects, Run.extend]

theorem filterMap_key {effects : List (Effect H)} {p q : Key} :
    ((effects.map fun e => (q, e)).filterMap fun (r, e) => if r = p then some e else none) =
      if q = p then effects else [] := by
  rw [List.filterMap_map]
  by_cases hqp : q = p
  · rw [if_pos hqp]
    exact (congrArg (List.filterMap · effects) (funext fun e => if_pos hqp)).trans
      List.filterMap_some
  · rw [if_neg hqp]
    exact List.filterMap_eq_nil_iff.mpr fun e _ => if_neg hqp

/-- The effects of a job are those of a task on its own presentation. -/
theorem Machine.perform_effects {m : Machine H} {a : ActorId} {answers : Answers H}
    {rest : List (Job H)}
    {job : Job H} {progress : Progress H} (h : m.perform a answers rest job = some progress) :
    progress.effects = [] ∨ ∃ q task x, ∃ effects : List (Effect H), job = .at q task ∧
      m.presentations[q]? = some x ∧ progress.effects = effects.map fun e => (q, e) := by
  by_cases hat : ∃ q task, job = .at q task
  · obtain ⟨q, task, rfl⟩ := hat
    simp only [perform] at h
    cases hx : m.presentations[q]? with
    | none =>
        simp only [hx, Option.some.injEq] at h
        exact .inl (h ▸ rfl)
    | some x =>
        simp only [hx] at h
        cases hmove : x.perform (m.surroundings a q answers) task with
        | waits => simp [hmove] at h
        | moves move =>
            simp only [hmove, Option.some.injEq] at h
            exact .inr ⟨q, task, x, move.effects, rfl, hx, h ▸ rfl⟩
        | unwinds =>
            simp only [hmove, Option.some.injEq] at h
            exact .inl (h ▸ rfl)
  · obtain ⟨jobs, created, hregisters⟩ := perform_registry (fun q task heq => hat ⟨q, task, heq⟩) h
    exact .inl hregisters.effects

theorem Transition.effects_eq {m : Machine H} {action : Action H} {progress : Progress H} (p : Key)
    (hplay : m.play action = some progress) :
    Transition.effects ⟨m, action, progress⟩ p =
      Deed.effectsOf (Transition.deed? p ⟨m, action, progress⟩).toList := by
  cases action with
  | call a c =>
      simp only [Machine.play, Option.ite_none_right_eq_some, Option.some.injEq] at hplay
      rw [← hplay.2]
      rfl
  | reclaim a q =>
      simp only [Machine.play, Option.ite_none_right_eq_some, Option.some.injEq] at hplay
      rw [← hplay.2]
      rfl
  | addHost =>
      cases hplay
      rfl
  | step a answers =>
      simp only [Machine.play, Machine.step] at hplay
      cases hstack : m.stack a with
      | nil => simp [hstack] at hplay
      | cons job rest =>
          simp only [hstack] at hplay
          rcases Machine.perform_effects hplay with hnil | ⟨q, task, x, effects, rfl, hx, heffects⟩
          · have hdeed : ∀ d ∈ (Transition.deed? p ⟨m, .step a answers, progress⟩).toList,
                d.effects = [] := by
              intro d hd
              cases job <;> simp [Transition.deed?, Transition.doing?, hstack, hnil] at hd
              obtain ⟨-, x, -, rfl⟩ := hd
              rfl
            simp [Transition.effects, hnil, Deed.effectsOf, List.flatMap_eq_nil_iff.mpr hdeed]
          · rw [Transition.effects, heffects, filterMap_key, Transition.deed?_at hstack]
            by_cases hqp : q = p
            · subst hqp
              simp [hx, heffects, Deed.effectsOf, Function.comp_def]
            · simp [hqp, Deed.effectsOf]

theorem Machine.effects_after {m : Machine H} {a : ActorId} {p : Key} {rest : List (Job H)}
    {move : Move H} {action : Action H} (q : Key) :
    Transition.effects ⟨m, action, m.after a p rest move⟩ q = if p = q then move.effects
      else [] := by
  rw [Transition.effects]
  exact filterMap_key

theorem Transition.effects_of_doing {m : Machine H} {action : Action H} {progress : Progress H}
    {p : Key} {doing? : Option (ActorId × Deed H)} (hplay : m.play action = some progress)
    (hdoing : Transition.doing? p ⟨m, action, progress⟩ = doing?) :
    Transition.effects ⟨m, action, progress⟩ p = (doing?.map (·.2.effects)).getD [] := by
  rw [Transition.effects_eq p hplay, Transition.deed?, hdoing]
  cases doing? <;> simp [Deed.effectsOf]

theorem Run.effects_extend_of_doing {r : Run H} {p : Key} {action : Action H}
    {progress : Progress H}
    {doing? : Option (ActorId × Deed H)} (hplay : r.final.play action = some progress)
    (hdoing : Transition.doing? p ⟨r.final, action, progress⟩ = doing?) :
    (r.extend action progress).effects p = r.effects p ++ (doing?.map (·.2.effects)).getD [] := by
  rw [effects_extend, Transition.effects_of_doing hplay hdoing]

def Run.Accounts (r : Run H) (p : Key) (crew : Crew H) : Prop :=
  match r.final.presentations[p]? with
  | none => r.deeds p = []
  | some x => ∃ id, Scene.History (.new id) (r.deeds p) ⟨x, crew.standing⟩

theorem Run.deeds_extend (r : Run H) (p : Key) (action : Action H) (progress : Progress H) :
    (r.extend action progress).deeds p =
      r.deeds p ++ (Transition.deed? p ⟨r.final, action, progress⟩).toList := by
  simp [Run.deeds, Run.extend, List.filterMap_append, List.filterMap_cons]
  cases Transition.deed? p ⟨r.final, action, progress⟩ <;> rfl

/-- In every run each presentation has a crew, and a history that accounts for it. -/
theorem Machine.run_accounts (config : Config) (decoders : DecoderBackends H.Codec)
    (outputs : AudioBackends H.Output) (actions : List (Action H)) (p : Key) :
    ∃ crew, Crewed ((initial config decoders outputs).run actions).final p crew ∧
      ((initial config decoders outputs).run actions).Accounts p crew := by
  refine run_turns (P := fun r crew => r.Accounts p crew) (initial config decoders outputs)
    (fun q => ⟨none, .initial config decoders outputs q⟩)
    (.initial config decoders outputs p) rfl ?_ actions
  intro r action progress crew crew' hcrew haccounts _ _ hturn
  have hsight := hcrew.sighting_of_turn hturn
  rw [← Transition.deed?] at hsight
  unfold Run.Accounts at haccounts ⊢
  rw [Run.deeds_extend]
  generalize Transition.deed? p ⟨r.final, action, progress⟩ = deed? at hsight
  cases hsight with
  | apart hsame =>
      rw [show (r.extend action progress).final.presentations[p]? = r.final.presentations[p]? from
        hsame]
      simpa using haccounts
  | appears hnone hnew =>
      rw [hnone] at haccounts
      rw [show (r.extend action progress).final.presentations[p]? = some (.new _) from hnew]
      simp only at haccounts
      rw [haccounts]
      exact ⟨_, .nil⟩
  | deed hx hy hstep =>
      rw [hx] at haccounts
      rw [show (r.extend action progress).final.presentations[p]? = some _ from hy]
      obtain ⟨id, hhistory⟩ := haccounts
      exact ⟨id, hhistory.snoc hstep⟩

theorem Machine.run_effects (m : Machine H) (actions : List (Action H)) (p : Key) :
    (m.run actions).effects p = Deed.effectsOf ((m.run actions).deeds p) := by
  refine run_induction (P := fun r => r.effects p = Deed.effectsOf (r.deeds p)) m rfl ?_ actions
  intro r action progress hr hplay
  rw [Run.effects_extend, Run.deeds_extend, hr, Transition.effects_eq p hplay]
  simp [Deed.effectsOf]

theorem Machine.run_history (config : Config) (decoders : DecoderBackends H.Codec)
    (outputs : AudioBackends H.Output) (actions : List (Action H)) (p : Key) :
    ∃ crew id x, Crewed ((initial config decoders outputs).run actions).final p crew ∧
      Scene.History (.new id) (((initial config decoders outputs).run actions).deeds p)
        ⟨x, crew.standing⟩ ∧
      (((initial config decoders outputs).run actions).final.presentations[p]?).getD (.new id) =
        x := by
  obtain ⟨crew, hcrew, haccounts⟩ := run_accounts config decoders outputs actions p
  unfold Run.Accounts at haccounts
  cases hx : ((initial config decoders outputs).run actions).final.presentations[p]? with
  | none =>
      rw [hx] at haccounts
      obtain rfl := hcrew.eq_none_of_absent hx
      refine ⟨none, ⟨.replicate 16 0⟩, _, hcrew, ?_, rfl⟩
      rw [haccounts]
      exact .nil
  | some x =>
      rw [hx] at haccounts
      obtain ⟨id, hhistory⟩ := haccounts
      exact ⟨crew, id, x, hcrew, hhistory, rfl⟩

end Playout
