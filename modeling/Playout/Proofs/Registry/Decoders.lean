import Playout.Proofs.Lifecycle.Parts
import Playout.Proofs.Presentation.Decoders
import Playout.Proofs.Registry.Calls

/-!
# The decoders of a host

What becomes of decoders in a run. Whoever acts in which order, a decoder that was made is in use
for one stream or was destroyed, and no decoder is destroyed twice. A load destroys what it
replaces. If the host makes one call after the other, then a stream that is unregistered by a
removal or a shutdown has lost its decoder when the call returns, and it gets no other one as long
as no stream is registered under its number: until then a negotiation through its handles does not
come as far as to a load.
-/

namespace Playout

variable {H : Platform}

/-! ## One transition -/

structure Presentation.Follows (x : Presentation H) (effects : List (Effect H))
    (y : Presentation H) : Prop where
  balances : x.Balances effects y
  number : ∀ place s, x.numberAt? place = some s → y.numberAt? place = some s

namespace Presentation

variable {x y z : Presentation H} {effects more : List (Effect H)} {place : Nat}

theorem numberAt?_isSome_iff : (x.numberAt? place).isSome ↔ place < x.slots.length := by
  simp [numberAt?, slots]

theorem Follows.refl (x : Presentation H) : x.Follows [] x :=
  ⟨.refl x, fun _ _ h => h⟩

theorem Follows.trans (hxy : x.Follows effects y) (hyz : y.Follows more z) :
    x.Follows (effects ++ more) z :=
  ⟨hxy.balances.trans hyz.balances, fun place s h => hyz.number place s (hxy.number place s h)⟩

end Presentation

def Machine.Loadable (m : Machine H) (p : Key) : Prop :=
  ∀ b t place, Job.at p t ∈ m.stack b → t.loadsFor place →
    ∃ x, m.presentations[p]? = some x ∧ (x.numberAt? place).isSome

namespace Crewed

variable {m : Machine H} {p : Key} {crew crew' : Crew H} {action : Action H} {progress : Progress H}
  {x : Presentation H}

theorem loadable (h : Crewed m p crew) (hload : m.Loadable p)
    (hturn : Turn m progress.machine p crew (Transition.doing? p ⟨m, action, progress⟩) crew') :
    progress.machine.Loadable p := by
  have hlater : ∀ x place, m.presentations[p]? = some x → (x.numberAt? place).isSome →
      ∃ y, progress.machine.presentations[p]? = some y ∧ (y.numberAt? place).isSome := by
    intro x place hx hsome
    obtain ⟨s, hs⟩ := Option.isSome_iff_exists.mp hsome
    obtain ⟨y, hy, hnumber⟩ := h.number_kept hturn hx
    exact ⟨y, hy, by rw [hnumber place s hs]; rfl⟩
  intro b t place hmem hloads
  rcases hturn.task_cases hmem with hold | hplanned | hduty | hinterlude | ⟨thread, rfl⟩ |
    ⟨a, answers, x, task, move, -, hx, hfree, hstart, hmove, hnext⟩
  · obtain ⟨x, hx, hsome⟩ := hload b t place hold hloads
    exact hlater x place hx hsome
  · rw [Task.loadsFor_of_isPlanned hplanned] at hloads
    cases hloads
  · rw [Task.loadsFor_of_isDuty hduty] at hloads
    cases hloads
  · cases t <;> first | cases hloads | cases hinterlude
  · cases hloads
  · obtain ⟨decoder, media, rfl⟩ := Presentation.setFormat_of_loads hfree hstart hmove hnext hloads
    rcases Presentation.setFormat_cases hmove with ⟨e, -, hnone, -⟩ | ⟨hsome, -⟩
    · rw [hnone] at hnext
      cases hnext
    · exact hlater x place hx hsome

theorem follows (h : Crewed m p crew) (hload : m.Loadable p) (hplay : m.play action = some progress)
    (hturn : Turn m progress.machine p crew (Transition.doing? p ⟨m, action, progress⟩) crew')
    (hx : m.presentations[p]? = some x) :
    ∃ y, progress.machine.presentations[p]? = some y ∧
      x.Follows (Transition.effects ⟨m, action, progress⟩ p) y := by
  obtain ⟨y, hy, hnumber⟩ := h.number_kept hturn hx
  refine ⟨y, hy, ?_, hnumber⟩
  cases hdoing : Transition.doing? p ⟨m, action, progress⟩ with
  | none =>
      obtain rfl := Option.some.inj (hy.symm.trans ((hdoing ▸ hturn).still hx).1)
      rw [Transition.effects_of_doing hplay hdoing]
      exact .refl y
  | some doing =>
      obtain ⟨a, z, task, effects⟩ := doing
      rw [Transition.effects_of_doing hplay hdoing]
      obtain ⟨answers, rest, rfl, hstack, hz, ⟨move, hmove, rfl, rfl⟩ | ⟨hunwinds, rfl, rfl⟩⟩ :=
        Transition.perform_of_doing hplay hdoing
      · obtain rfl := Option.some.inj (hx.symm.trans hz)
        obtain rfl := Option.some.inj (hy.symm.trans (presentation_after hx))
        refine Presentation.perform_balances (fun place hloads => ?_) hmove
        obtain ⟨w, hw, hsome⟩ := hload a task place (hstack ▸ List.mem_cons_self) hloads
        obtain rfl := Option.some.inj (hx.symm.trans hw)
        exact Presentation.numberAt?_isSome_iff.mp hsome
      · obtain ⟨rfl, -, hwhole, -⟩ := h.duties_of_unwinds hstack hunwinds
        obtain rfl := Option.some.inj (hy.symm.trans (h.unwind_own hx hwhole (by simp [Crew.of])).2)
        exact .of_same rfl rfl (by simp)

end Crewed

/-! ## From one moment to a later one -/

/-- What has become of the streams of a presentation and of their decoders since any moment. -/
structure Run.Follows (r : Run H) (p : Key) : Prop where
  loadable : r.final.Loadable p
  absent : r.final.presentations[p]? = none → r.effects p = []
  start : ∀ x, r.final.presentations[p]? = some x →
    ∃ id, (Presentation.new id).Follows (r.effects p) x
  since : ∀ past t since x, r.trace = past ++ t :: since → t.before.presentations[p]? = some x →
    ∃ y, r.final.presentations[p]? = some y ∧ x.Follows ((t :: since).flatMap (·.effects p)) y

theorem Run.Follows.next {r : Run H} {p : Key} {action : Action H} {progress : Progress H}
    {crew crew' : Crew H}
    (h : r.Follows p) (hcrew : Crewed r.final p crew) (hplay : r.final.play action = some progress)
    (hturn : Turn r.final progress.machine p crew
      (Transition.doing? p ⟨r.final, action, progress⟩) crew') :
    (r.extend action progress).Follows p := by
  have hfollows : ∀ x, r.final.presentations[p]? = some x →
      ∃ y, progress.machine.presentations[p]? = some y ∧
      x.Follows (Transition.effects ⟨r.final, action, progress⟩ p) y :=
    fun x hx => hcrew.follows h.loadable hplay hturn hx
  refine ⟨hcrew.loadable h.loadable hturn, fun hnone => ?_, fun y hy => ?_,
    fun past t since x htrace hx => ?_⟩
  · rw [effects_extend]
    cases hx : r.final.presentations[p]? with
    | none =>
        rw [h.absent hx, Transition.effects_of_doing hplay (hturn.absent hx).1]
        rfl
    | some x =>
        obtain ⟨y, hy, -⟩ := hfollows x hx
        cases hnone.symm.trans hy
  · rw [effects_extend]
    cases hx : r.final.presentations[p]? with
    | none =>
        obtain ⟨hdoing, -, hstill | ⟨id, hnew⟩⟩ := hturn.absent hx
        · cases hstill.symm.trans hy
        · obtain rfl := Option.some.inj (hnew.symm.trans hy)
          rw [h.absent hx, Transition.effects_of_doing hplay hdoing]
          exact ⟨id, .refl _⟩
    | some x =>
        obtain ⟨id, hstart⟩ := h.start x hx
        obtain ⟨z, hz, hfollow⟩ := hfollows x hx
        obtain rfl := Option.some.inj (hy.symm.trans hz)
        exact ⟨id, hstart.trans hfollow⟩
  · rcases snoc_eq_split htrace with ⟨-, rfl, rfl⟩ | ⟨rest, rfl, hinit⟩
    · simpa [Run.extend] using hfollows x hx
    · obtain ⟨y, hy, hrest⟩ := h.since past t rest x hinit hx
      obtain ⟨z, hz, hfollow⟩ := hfollows y hy
      refine ⟨z, hz, ?_⟩
      rw [← List.cons_append, List.flatMap_append]
      simpa using hrest.trans hfollow

theorem Machine.run_follows (config : Config) (decoders : DecoderBackends H.Codec)
    (outputs : AudioBackends H.Output) (actions : List (Action H)) (p : Key) :
    ((initial config decoders outputs).run actions).Follows p := by
  obtain ⟨crew, -, hfollows⟩ :=
    run_turns (P := fun r _ => r.Follows p) (initial config decoders outputs)
    (fun q => ⟨none, .initial config decoders outputs q⟩) (.initial config decoders outputs p)
    ⟨fun b t place hmem =>
      by simp [stack_initial] at hmem, fun _ => rfl, fun x hx => by simp [initial] at hx,
      fun past t since x htrace => by simp at htrace⟩
    (fun _ _ _ _ _ hcrew h hplay _ hturn => h.next hcrew hplay hturn) actions
  exact hfollows

/-! ## What has become of a decoder -/

/-- The decoders that were made and not destroyed are those in use, each for one stream. -/
structure Presentation.AccountsFor (x : Presentation H) (effects : List (Effect H)) : Prop where
  made : Effect.madeIn effects = List.range x.decodersMade
  destroyed : ∀ n ∈ Effect.destroyedIn effects, n ∈ Effect.madeIn effects
  once : (Effect.destroyedIn effects).Nodup
  bound : ∀ n, (∃ place d, x.boundDecoder? place = some d ∧ d.serial = n) ↔
    n ∈ Effect.madeIn effects ∧ n ∉ Effect.destroyedIn effects
  single : ∀ place other d e, x.boundDecoder? place = some d → x.boundDecoder? other = some e →
    d.serial = e.serial → place = other

theorem Presentation.Balances.accounts {id : PresentationId} {effects : List (Effect H)}
    {x : Presentation H}
    (h : (Presentation.new id).Balances effects x) : x.AccountsFor effects := by
  have hmade : Effect.madeIn effects = List.range x.decodersMade := by
    rw [h.counted, h.made, List.range_eq_range']
    simp [Presentation.new]
  have hkept : (Effect.madeIn effects).Perm (Effect.destroyedIn effects ++ x.serials) := by
    simpa [Presentation.serials, Presentation.slots, Presentation.new] using h.kept
  have hnodup : (Effect.destroyedIn effects ++ x.serials).Nodup := by
    rw [← hkept.nodup_iff, hmade]
    exact List.nodup_range
  obtain ⟨honce, hserials, hapart⟩ := List.nodup_append.mp hnodup
  refine ⟨hmade, fun n hn => hkept.symm.subset (List.mem_append_left _ hn), honce, fun n => ?_, ?_⟩
  · rw [← Presentation.mem_serials]
    constructor
    · intro hn
      exact ⟨hkept.symm.subset (List.mem_append_right _ hn), fun hgone => hapart n hgone n hn rfl⟩
    · rintro ⟨hn, hstays⟩
      exact (List.mem_append.mp (hkept.subset hn)).resolve_left hstays
  · exact fun place other d e hd he hserial =>
      Presentation.place_eq_of_serial hserials hd he hserial

/-! ## Streams without a decoder -/

theorem Task.mem_enroll {s : StreamId} {alive : Bool} {live : List StreamId} {t : Task H}
    (h : s ∈ t.enroll alive live) : s ∈ live ∨ t = .createStream s := by
  cases t with
  | createStream u =>
      simp only [enroll] at h
      split at h
      · exact .inl h
      · refine (List.mem_append.mp h).imp_right fun hnew => ?_
        rw [List.mem_singleton.mp hnew]
  | detachStream u => exact .inl (List.mem_filter.mp h).1
  | detachStreams => cases h
  | reclaim =>
      simp only [enroll] at h
      split at h
      · exact .inl h
      · cases h
  | _ => exact .inl h

def Transition.registers (t : Transition H) (p : Key) (s : StreamId) : Bool :=
  (t.doing? p).any fun (_, deed) =>
    match deed.task with
    | .createStream u => u == s && t.progress.result.any (·.isOk)
    | _ => false

theorem Presentation.Tables.queue?_eq_none_iff {x : Presentation H} {live : List StreamId}
    {s : StreamId} (h : x.Tables live) : x.queue? s = none ↔ s ∉ live := by
  rw [← h.queues, streamIds]
  simp [queue?]

/-- A stream that has neither a registration under its number nor a decoder, and is not about
to get one. -/
structure Bare (m : Machine H) (p : Key) (place : Nat) (s : StreamId) (x : Presentation H) : Prop
    extends Severed m p place s x where
  unregistered : x.queue? s = none
  undecoded : x.boundDecoder? place = none

/-- It stays so until a stream is registered under its number. -/
theorem Bare.next {m : Machine H} {p : Key} {place : Nat} {s : StreamId} {x : Presentation H}
    {action : Action H}
    {progress : Progress H} {crew crew' : Crew H} {live : List StreamId} (h : Bare m p place s x)
    (hcrew : Crewed m p crew) (hplay : m.play action = some progress)
    (hturn : Turn m progress.machine p crew (Transition.doing? p ⟨m, action, progress⟩) crew')
    (htables : x.Tables live) (hnone : Transition.registers ⟨m, action, progress⟩ p s = false) :
    ∃ y, Bare progress.machine p place s y := by
  have hdone : ∀ a z task effects,
      Transition.doing? p ⟨m, action, progress⟩ = some (a, ⟨z, task, effects⟩) → z = x := by
    intro a z task effects hdoing
    obtain ⟨-, -, -, -, hz, -⟩ := Transition.perform_of_doing hplay hdoing
    exact Option.some.inj (hz.symm.trans h.present)
  have hquiet : Transition.negotiatesFor ⟨m, action, progress⟩ p place s = false := by
    cases hdoing : Transition.doing? p ⟨m, action, progress⟩ with
    | none => simp [Transition.negotiatesFor, hdoing]
    | some doing =>
        obtain ⟨a, z, task, effects⟩ := doing
        obtain rfl := hdone a z task effects hdoing
        cases task <;> simp [Transition.negotiatesFor, hdoing, h.unregistered]
  obtain ⟨y, hsevered, hkept⟩ := h.toSevered.next hcrew hplay hturn hquiet
  refine ⟨y, hsevered, ?_, hkept h.undecoded⟩
  have hlive : s ∉ live := htables.queue?_eq_none_iff.mp h.unregistered
  cases hdoing : Transition.doing? p ⟨m, action, progress⟩ with
  | none =>
      obtain rfl :=
        Option.some.inj (hsevered.present.symm.trans ((hdoing ▸ hturn).still h.present).1)
      exact h.unregistered
  | some doing =>
      obtain ⟨a, z, task, effects⟩ := doing
      obtain rfl := hdone a z task effects hdoing
      obtain ⟨w, hw, hretables⟩ := hcrew.retables hplay hdoing
      obtain rfl := Option.some.inj (hsevered.present.symm.trans hw)
      refine (hretables.tables live htables).queue?_eq_none_iff.mpr fun hmem => ?_
      obtain rfl := (Task.mem_enroll hmem).resolve_left hlive
      -- the number was free, so that the registration has not been refused
      have htabular : Transition.Tabular ⟨m, action, progress⟩ p live :=
        hcrew.tabular hplay fun v hv => by
        rwa [Option.some.inj (hv.symm.trans h.present)]
      have hcreated := htabular.create a z s effects hdoing
      rw [if_neg hlive] at hcreated
      simp [Transition.registers, hdoing, show progress.result = _ from hcreated, Except.isOk,
        Except.toBool] at hnone

/-- A bare stream stays so, from whatever moment on, until a stream is registered under
its number. -/
def Run.StaysBare (r : Run H) (p : Key) (place : Nat) (s : StreamId) : Prop :=
  ∀ past t since, r.trace = past ++ t :: since → (∃ x, Bare t.progress.machine p place s x) →
    (∀ u ∈ since, u.registers p s = false) → ∃ x, Bare r.final p place s x

theorem Run.StaysBare.next {r : Run H} {p : Key} {place : Nat} {s : StreamId} {action : Action H}
    {progress : Progress H} {crew crew' : Crew H} (h : r.StaysBare p place s) (htabled : r.Tabled p)
    (hcrew : Crewed r.final p crew) (hplay : r.final.play action = some progress)
    (hturn : Turn r.final progress.machine p crew
      (Transition.doing? p ⟨r.final, action, progress⟩) crew') :
    (r.extend action progress).StaysBare p place s := by
  intro past t since htrace hbare hnone
  rcases snoc_eq_split htrace with ⟨-, rfl, rfl⟩ | ⟨rest, rfl, hinit⟩
  · exact hbare
  · obtain ⟨x, hx⟩ := h past t rest hinit hbare fun u hu => hnone u (List.mem_append_left _ hu)
    exact hx.next hcrew hplay hturn (htabled.tables hx.present) (hnone _ List.mem_concat_self)

theorem Machine.run_staysBare (config : Config) (decoders : DecoderBackends H.Codec)
    (outputs : AudioBackends H.Output) (actions : List (Action H)) (p : Key) (place : Nat)
    (s : StreamId) :
    ((initial config decoders outputs).run actions).StaysBare p place s := by
  obtain ⟨crew, -, hstays, -⟩ := run_turns (P := fun r _ => r.StaysBare p place s ∧ r.Tabled p)
    (initial config decoders outputs)
    (fun q => ⟨none, .initial config decoders outputs q⟩) (.initial config decoders outputs p)
    ⟨fun past t since htrace => by simp at htrace, rfl⟩
    (fun _ _ _ _ _ hcrew h hplay _ hturn =>
      ⟨h.1.next h.2 hcrew hplay hturn, h.2.next hcrew hplay hturn⟩) actions
  exact hstays

/-! ## While the host is in a call -/

/-- The host begins a call with one transition and returns from it with another one. -/
structure Run.Completes (r : Run H) (a : ActorId) (c : Call H) (past : List (Transition H))
    (first : Transition H)
    (between : List (Transition H)) (last : Transition H) (after : List (Transition H)) : Prop where
  trace : r.trace = past ++ first :: (between ++ last :: after)
  called : first.action = .call a c
  busy : ∀ t ∈ between ++ [last], t.before.stack a ≠ []
  returned : last.progress.machine.stack a = []

theorem Run.InSequence.of_prefix {r earlier : Run H} (h : r.InSequence)
    (hbegins : earlier.trace <+: r.trace) :
    earlier.InSequence :=
  fun t ht => h t (hbegins.subset ht)

/-- What threads leave alone and the host keeps, until it is through, holds while the host is
in its call. -/
theorem Machine.run_call {config : Config} {decoders : DecoderBackends H.Codec}
    {outputs : AudioBackends H.Output} {P : Machine H → Prop}
    (spared : ∀ m m' : Machine H, P m → m'.stack 0 = m.stack 0 → (∀ (p : Key) (x : Presentation H),
      m.presentations[p]? = some x → ∃ y, m'.presentations[p]? = some y ∧ x.Spares y) → P m')
    (next : ∀ (m : Machine H) answers progress, P m → m.play (.step 0 answers) = some progress →
      progress.machine.stack 0 ≠ [] → P progress.machine)
    (actions : List (Action H))
    (hsequence : ((initial config decoders outputs).run actions).InSequence)
    {past since : List (Transition H)} {first : Transition H}
    (htrace : ((initial config decoders outputs).run actions).trace = past ++ first :: since)
    (hbegun : P first.progress.machine) (hbusy : ∀ t ∈ since, t.before.stack 0 ≠ [])
    (hstill : ((initial config decoders outputs).run actions).final.stack 0 ≠ []) :
    P ((initial config decoders outputs).run actions).final := by
  induction actions using List.reverseRecOn generalizing since with
  | nil => simp [run] at htrace
  | append_singleton actions action ih =>
      have hact : (initial config decoders outputs).run (actions ++ [action]) =
          ((initial config decoders outputs).run actions).act action := run_append ..
      rw [hact] at hsequence htrace hstill ⊢
      unfold Run.act at hsequence htrace hstill ⊢
      cases hplay : ((initial config decoders outputs).run actions).final.play action with
      | none =>
          rw [hplay] at hsequence htrace hstill
          exact ih hsequence htrace hbusy hstill
      | some progress =>
          rw [hplay] at hsequence htrace hstill
          rcases snoc_eq_split htrace with ⟨-, rfl, rfl⟩ | ⟨rest, rfl, hinit⟩
          · exact hbegun
          · have hpast : ((initial config decoders outputs).run actions).InSequence := fun t ht =>
              hsequence t (List.mem_append_left _ ht)
            have hearlier := hbusy _ List.mem_concat_self
            have hP := ih hpast hinit (fun t ht => hbusy t (List.mem_append_left _ ht)) hearlier
            have hlast := hsequence _ (List.mem_append_right _ List.mem_cons_self)
            have hhosted := (run_sequential hpast).hosted
            -- the host is busy, so that it begins nothing
            have hcontinues : Transition.isBeginning
                ⟨((initial config decoders outputs).run actions).final, action, progress⟩ = false :=
              Bool.eq_false_iff.mpr fun hbegins =>
                hearlier (Transition.idle_of_isBeginning hhosted hplay hlast hbegins).1
            cases action with
            | call a c => cases hcontinues
            | reclaim a p => cases hcontinues
            | addHost => cases hlast
            | step a answers =>
                by_cases ha : a = 0
                · subst ha
                  exact next _ answers progress hP hplay hstill
                · refine spared _ _ hP (hhosted.step_frame ha hplay).1 fun p x hx => ?_
                  obtain ⟨crew, hcrew⟩ := run_crewed config decoders outputs actions p
                  obtain ⟨crew', -, hturn⟩ :=
                    hcrew.turn (run_crewed config decoders outputs actions) hplay
                  exact hhosted.spares ha hcrew hplay hturn hx

/-! ## The removal of a stream -/

/-- What the host has left to do when it has called the removal of a stream. -/
inductive Dropping (p : Key) (s : StreamId) (place : Nat) (x : Presentation H) :
    List (Job H) → Prop where
  | begun : x.findStream? s = some place → Dropping p s place x [.at p (.detachStream s)]
  | detached {tasks} : x.findStream? s = none → Removing place x tasks →
      Dropping p s place x (tasks.map (.at p))

namespace Dropping

variable {m : Machine H} {p : Key} {s : StreamId} {place : Nat} {x y : Presentation H}
  {answers : Answers H}
  {progress : Progress H} {jobs : List (Job H)}

theorem spared (h : Dropping p s place x jobs) (hspares : x.Spares y) :
    Dropping p s place y jobs := by
  have hfind : y.findStream? s = x.findStream? s := by
    rw [Presentation.findStream?, hspares.handles]; rfl
  cases h with
  | begun hplace => exact .begun (hfind.trans hplace)
  | detached hnone hremoving =>
      refine .detached (hfind.trans hnone) (hremoving.mono fun hbound => ?_)
      rwa [Presentation.boundDecoder?, hspares.streams]

theorem find?_detached (x : Presentation H) (s : StreamId) :
    Presentation.findStream? { x with handles := x.handles.filter (·.1 != s) } s = none := by
  refine List.lookup_eq_none_iff.mpr fun handle hmem => ?_
  have hother : handle.1 ≠ s := bne_iff_ne.mp (List.mem_filter.mp hmem).2
  exact bne_iff_ne.mpr (Ne.symm hother)

theorem next (h : Dropping p s place x (m.stack 0)) (hx : m.presentations[p]? = some x)
    (hplay : m.play (.step 0 answers) = some progress) :
    ∃ y, progress.machine.presentations[p]? = some y ∧
      (progress.machine.stack 0 = [] ∧ y.findStream? s = none ∧ y.boundDecoder? place = none ∨
        Dropping p s place y (progress.machine.stack 0)) := by
  generalize hstack : m.stack 0 = jobs at h
  have hgoing : ∀ {task y next effects} tasks, m.stack 0 = .at p task :: tasks.map (.at p) →
      x.perform (m.surroundings 0 p answers) task = Presentation.going y next effects →
        progress.machine.presentations[p]? = some y ∧
          progress.machine.stack 0 = (next ++ tasks).map (.at p) := by
    intro task y next effects tasks hstack hmove
    simp only [Machine.play, Machine.step, hstack, Machine.perform, hx, hmove, Presentation.going,
      Option.some.injEq] at hplay
    subst hplay
    refine ⟨Crewed.presentation_after hx, ?_⟩
    rw [Machine.stack_after_self (Machine.lt_of_stack hstack), List.map_append]
  cases h with
  | begun hplace =>
      have hmove : x.perform (m.surroundings 0 p answers) (.detachStream s) =
          Presentation.going
            { x with
              handles := x.handles.filter (·.1 != s)
              queues := x.queues.filter (·.id != s) }
            [.releaseDecoders [place], .finish]
            (Presentation.dropped (((x.queue? s).map (·.samples)).getD [])) := by
        simp only [Presentation.perform, Presentation.detachStream, hplace]
      obtain ⟨hy, hnow⟩ := hgoing [] hstack hmove
      refine ⟨_, hy, .inr ?_⟩
      rw [hnow]
      exact .detached (find?_detached x s) .releasing
  | @detached tasks hnone hremoving =>
      cases hremoving with
      | releasing =>
          obtain ⟨hy, hnow⟩ := hgoing [.finish] hstack rfl
          refine ⟨_, hy, .inr ?_⟩
          rw [hnow]
          exact .detached hnone (.released (Presentation.boundDecoder?_bindDecoder_none x place))
      | released hbound =>
          obtain ⟨hy, hnow⟩ := hgoing [.finish] hstack rfl
          refine ⟨_, hy, .inr ?_⟩
          rw [hnow]
          exact .detached hnone (.finishing hbound)
      | finishing hbound =>
          have hmove : x.perform (m.surroundings 0 p answers) .finish = x.returning (.ok ()) [] :=
            rfl
          simp only [List.map_cons, List.map_nil] at hstack
          simp only [Machine.play, Machine.step, hstack, Machine.perform, hx, hmove,
            Presentation.returning, Option.some.injEq] at hplay
          subst hplay
          refine ⟨x, Crewed.presentation_after hx, .inl ⟨?_, hnone, hbound⟩⟩
          rw [Machine.stack_after_self (Machine.lt_of_stack hstack)]
          rfl

end Dropping

/-! ## Streams that a call unregisters -/

def Call.discards (m : Machine H) (p : Key) (s : StreamId) : Call H → Prop
  | .removeStream q u => q = p ∧ u = s
  | c => ∃ id, c.clears id ∧ m.find? id = some p

/-- What becomes of a stream of a presentation that is unregistered by a call: when the call
returns, its decoder has been destroyed, and it gets no other one until a stream is registered under
its number. -/
structure Discarded (p : Key) (s : StreamId) (place : Nat) (x : Presentation H)
    (during : List (Transition H)) (last : Transition H) (after : List (Transition H)) : Prop where
  released : ∃ y, last.progress.machine.presentations[p]? = some y ∧ y.findStream? s = none ∧
    y.boundDecoder? place = none
  destroyed : ∀ d, x.boundDecoder? place = some d →
    d.serial ∈ Effect.destroyedIn (during.flatMap (·.effects p))
  stays : ∀ pre t post, after = pre ++ t :: post → (∀ u ∈ pre ++ [t], u.registers p s = false) →
    ∃ y, t.progress.machine.presentations[p]? = some y ∧ y.boundDecoder? place = none

namespace Machine

variable {config : Config} {decoders : DecoderBackends H.Codec} {outputs : AudioBackends H.Output}
  {actions : List (Action H)} {p : Key} {s : StreamId} {place : Nat} {x : Presentation H}
  {a : ActorId} {c : Call H}
  {past between after : List (Transition H)} {first last : Transition H}

theorem step_of_completes (hsequence : ((initial config decoders outputs).run actions).InSequence)
    (h : ((initial config decoders outputs).run actions).Completes a c past first between last
      after) :
    a = 0 ∧ first.before.stack 0 = [] ∧
      first.progress = { machine := first.before.invoke 0 c.jobs } ∧
      (first.before.invoke 0 c.jobs).stack 0 = c.jobs ∧
        ∃ answers, last.action = .step 0 answers := by
  have hfirst : first ∈ ((initial config decoders outputs).run actions).trace := by simp [h.trace]
  have hbegins : first.isBeginning := by simp [Transition.isBeginning, h.called]
  obtain ⟨hidle, hwhat⟩ := idle_of_isBeginning hsequence hfirst hbegins
  obtain rfl : a = 0 := by
    rcases hwhat with ⟨c', hcall⟩ | ⟨q, hreclaim⟩
    · exact (Action.call.inj (h.called.symm.trans hcall)).1
    · cases h.called.symm.trans hreclaim
  obtain ⟨-, -, hplay, -⟩ := sequential_before hsequence h.trace
  rw [h.called] at hplay
  simp only [play, Option.ite_none_right_eq_some, Bool.and_eq_true, Option.some.injEq] at hplay
  obtain ⟨⟨⟨hmay, -⟩, -⟩, hprogress⟩ := hplay
  refine ⟨rfl, hidle, hprogress.symm, ?_, ?_⟩
  · rw [invoke, stack_setStack_self (lt_of_mayCall hmay), hidle, List.append_nil]
  · have hsplit : ((initial config decoders outputs).run actions).trace =
        (past ++ first :: between) ++ last :: after := by simp [h.trace]
    have hbusy := h.busy last (by simp)
    have hlast : last ∈ ((initial config decoders outputs).run actions).trace := by simp [h.trace]
    obtain ⟨-, -, hplay, hordered⟩ := sequential_before hsequence hsplit
    have hcontinues : last.isBeginning = false := Bool.eq_false_iff.mpr fun hbegins =>
      hbusy (idle_of_isBeginning hsequence hlast hbegins).1
    have horder := hsequence last hlast
    obtain ⟨before, action, progress⟩ := last
    cases action with
    | call => cases hcontinues
    | reclaim => cases hcontinues
    | addHost => cases horder
    | step b answers =>
        by_cases hb : b = 0
        · exact ⟨answers, by rw [hb]⟩
        · have hsame := (hordered.hosted.step_frame hb hplay).1
          exact absurd (hsame.symm.trans h.returned) hbusy

/-- When the removal of a stream returns, the stream is unregistered and has no decoder. -/
theorem dropped_of_completes
    (hsequence : ((initial config decoders outputs).run actions).InSequence)
    (h : ((initial config decoders outputs).run actions).Completes a
      (.removeStream p s) past first between last after)
    (hx : first.before.presentations[p]? = some x) (hplace : x.findStream? s = some place) :
    ∃ y, last.progress.machine.presentations[p]? = some y ∧ y.findStream? s = none ∧
      y.boundDecoder? place = none := by
  obtain ⟨rfl, hidle, hprogress, hjobs, answers, hstep⟩ := step_of_completes hsequence h
  have hsplit : ((initial config decoders outputs).run actions).trace =
      (past ++ first :: between) ++ last :: after := by simp [h.trace]
  obtain ⟨earlier, hrun, hplay, -⟩ := sequential_before hsequence hsplit
  have hpast : ((initial config decoders outputs).run earlier).InSequence :=
    hsequence.of_prefix ⟨last :: after, by rw [hrun, hsplit]⟩
  let P : Machine H → Prop := fun m =>
      ∃ x, m.presentations[p]? = some x ∧ Dropping p s place x (m.stack 0)
  have hdropping : P ((initial config decoders outputs).run earlier).final := by
    have htrace : ((initial config decoders outputs).run earlier).trace =
        past ++ first :: between := by rw [hrun]
    refine run_call (P := P) ?_ ?_ earlier hpast htrace ?_
      (fun t ht => h.busy t (List.mem_append_left _ ht)) (by rw [hrun]; exact h.busy last (by simp))
    · rintro m m' ⟨y, hy, hdropping⟩ hstack hspares
      obtain ⟨z, hz, hspared⟩ := hspares p y hy
      exact ⟨z, hz, hstack ▸ hdropping.spared hspared⟩
    · rintro m answers progress ⟨y, hy, hdropping⟩ hplay hstill
      obtain ⟨z, hz, ⟨hempty, -⟩ | hnext⟩ := hdropping.next hy hplay
      · exact absurd hempty hstill
      · exact ⟨z, hz, hnext⟩
    · rw [hprogress]
      refine ⟨x, hx, ?_⟩
      rw [hjobs]
      exact .begun hplace
  rw [hrun] at hdropping
  obtain ⟨y, hy, hdropping⟩ := hdropping
  rw [hstep] at hplay
  obtain ⟨z, hz, ⟨-, hfind, hbound⟩ | hnext⟩ := hdropping.next hy hplay
  · exact ⟨z, hz, hfind, hbound⟩
  · rw [h.returned] at hnext
    generalize hnil : ([] : List (Job H)) = jobs at hnext
    cases hnext with
    | begun => cases hnil
    | detached _ hremoving => cases hremoving <;> cases hnil

/-- When a call returns that unregisters a stream, the stream is unregistered and has no decoder. -/
theorem released_of_completes
    (hsequence : ((initial config decoders outputs).run actions).InSequence)
    (h : ((initial config decoders outputs).run actions).Completes a c past first between last
      after)
    (hc : c.discards first.before p s) (hx : first.before.presentations[p]? = some x)
    (hplace : x.findStream? s = some place) :
    ∃ y, last.progress.machine.presentations[p]? = some y ∧ y.findStream? s = none ∧
      y.boundDecoder? place = none := by
  have hclears : (∃ id, c.clears id ∧ first.before.find? id = some p) → c.unregisters →
      ∃ y, last.progress.machine.presentations[p]? = some y ∧ y.findStream? s = none ∧
        y.boundDecoder? place = none := by
    rintro ⟨id, hid, hfind⟩ hunregisters
    have hreturns : ((initial config decoders outputs).run actions).Returns a c first last :=
      ⟨past, between, after, h.trace, h.called, h.busy, h.returned⟩
    rcases ends_of_returns hsequence hreturns hunregisters with
      ⟨other, rfl, hnone, -⟩ | ⟨-, -, hemptied⟩
    · rw [show id = other from hid] at hfind
      cases hnone.symm.trans hfind
    · obtain ⟨z, y, hz, hy, htorn⟩ := hemptied.tornDown id p hid hfind
      obtain rfl := Option.some.inj (hx.symm.trans hz)
      refine ⟨y, hy, ?_, htorn.released _ (Presentation.mem_of_findStream? hplace)⟩
      rw [Presentation.findStream?, htorn.handles]
      rfl
  cases c with
  | removeStream q u =>
      obtain ⟨rfl, rfl⟩ := hc
      exact dropped_of_completes hsequence h hx hplace
  | remove id => exact hclears hc rfl
  | shutdown => exact hclears hc rfl
  | _ =>
      obtain ⟨id, hid, -⟩ := hc
      cases hid

/-- When the host has nothing to do, nobody is about to load a decoder. -/
theorem Hosted.unloading {m : Machine H} (h : m.Hosted) (hidle : m.stack 0 = []) {b : ActorId}
    {t : Task H} (hmem : Job.at p t ∈ m.stack b) (place : Nat) : t.loadsFor place = false := by
  by_cases hb : b = 0
  · rw [hb, hidle] at hmem
    cases hmem
  · unfold stack at hmem
    cases hactor : m.actors[b]? with
    | none => simp [hactor] at hmem
    | some actor =>
        obtain ⟨q, -, hroutine⟩ := h.threads b actor hb hactor
        have hjob := hroutine _ (show Job.at p t ∈ actor.jobs by simpa [hactor] using hmem)
        cases t with
        | loadDecoder =>
            simp [Job.isRoutineOf, Task.isRoutine, Task.isDuty, Task.isInterlude] at hjob
        | _ => rfl

/-- A stream that is unregistered by a call is bare when the call returns. -/
theorem bare_of_completes (hsequence : ((initial config decoders outputs).run actions).InSequence)
    (h : ((initial config decoders outputs).run actions).Completes a c past first between last
      after)
    (hc : c.discards first.before p s) (hx : first.before.presentations[p]? = some x)
    (hplace : x.findStream? s = some place) :
    ∃ y, Bare last.progress.machine p place s y ∧ y.findStream? s = none ∧
      x.Follows ((first :: (between ++ [last])).flatMap (·.effects p)) y := by
  obtain ⟨y, hy, hfind, hbound⟩ := released_of_completes hsequence h hc hx hplace
  obtain ⟨rfl, -⟩ := step_of_completes hsequence h
  have hsplit : ((initial config decoders outputs).run actions).trace =
      (past ++ first :: between) ++ last :: after := by simp [h.trace]
  obtain ⟨through, hrun⟩ := run_through _ _ hsplit
  have hfollows := run_follows config decoders outputs through p
  have htabled := (run_tabled config decoders outputs through p).1
  have hpast : ((initial config decoders outputs).run through).InSequence :=
    hsequence.of_prefix ⟨after, by rw [hrun, hsplit]; simp⟩
  have hordered := run_sequential hpast
  rw [hrun] at hfollows htabled hordered
  obtain ⟨z, hz, hsince⟩ := hfollows.since past first (between ++ [last]) x (by simp) hx
  obtain rfl := Option.some.inj (hy.symm.trans hz)
  have hnumber := (tables_of_trace h.trace hx).placed.numberAt?_of_findStream? hplace
  have htables := htabled.tables hy
  exact ⟨y, ⟨⟨hy, hsince.number place s hnumber,
    fun b t hmem => hordered.hosted.unloading h.returned hmem place⟩,
    htables.queue?_eq_none_iff.mpr (htables.findStream?_eq_none_iff.mp hfind), hbound⟩, hfind,
      hsince⟩

theorem discarded_of_completes
    (hsequence : ((initial config decoders outputs).run actions).InSequence)
    (h : ((initial config decoders outputs).run actions).Completes a c past first between last
      after)
    (hc : c.discards first.before p s) (hx : first.before.presentations[p]? = some x)
    (hplace : x.findStream? s = some place) :
    Discarded p s place x (between ++ [last]) last after := by
  obtain ⟨y, hbare, hfind, hfollows⟩ := bare_of_completes hsequence h hc hx hplace
  obtain ⟨rfl, -, hprogress, -⟩ := step_of_completes hsequence h
  refine ⟨⟨y, hbare.present, hfind, hbare.undecoded⟩, fun d hd => ?_,
    fun pre t post hafter hnone => ?_⟩
  · have hgone := (hfollows.balances.decoder place d hd).resolve_left (by simp [hbare.undecoded])
    have hcall : first.effects p = [] := by rw [Transition.effects, hprogress]; rfl
    simpa [hcall] using hgone
  · have hlater : ((initial config decoders outputs).run actions).trace =
        (past ++ first :: (between ++ last :: pre)) ++ t :: post := by simp [h.trace, hafter]
    obtain ⟨further, hfurther⟩ := run_through _ _ hlater
    have hstays := run_staysBare config decoders outputs further p place s
    rw [hfurther] at hstays
    obtain ⟨w, hw⟩ := hstays (past ++ first :: between) last (pre ++ [t]) (by simp) ⟨y, hbare⟩ hnone
    exact ⟨w, hw.present, hw.undecoded⟩

end Machine

/-! ## Runs -/

def Transition.Loads (t : Transition H) (p : Key) (a : ActorId) (x : Presentation H) (place : Nat)
    (name : String) (media : MediaType) : Prop :=
  ∃ answers y, t.action = .step a answers ∧ t.progress.machine.presentations[p]? = some y ∧
    x.Loads place (t.before.decoders.load H.decoderOps answers.createDecoder name media)
      (t.effects p)
      t.progress.result y

def Transition.Negotiates (t : Transition H) (p : Key) (a : ActorId) (x : Presentation H)
    (place : Nat) (decoder : Option String) (media : MediaType) : Prop :=
  t.effects p = [] ∧ ∃ y, t.progress.machine.presentations[p]? = some y ∧ y.slots = x.slots ∧
    ((∃ e, t.progress.result = some (.error e)) ∨
      t.progress.result = none ∧ (t.progress.machine.stack a).head? =
        some (.at p (.loadDecoder place (decoder.getD t.before.config.defaultDecoder) media)))

/-- The decoders of a presentation are accounted for, a load replaces a decoder, and a stream that
is unregistered gives up its own. -/
structure Run.KeepsDecoders (r : Run H) (p : Key) : Prop where
  accounted : ∀ x, r.final.presentations[p]? = some x → x.AccountsFor (r.effects p)
  negotiates : ∀ t ∈ r.trace, ∀ a x place decoder media,
    t.Does p a (.setFormat place decoder media) →
    t.before.presentations[p]? = some x → t.Negotiates p a x place decoder media
  loads : ∀ t ∈ r.trace, ∀ a x place name media, t.Does p a (.loadDecoder place name media) →
    t.before.presentations[p]? = some x → t.Loads p a x place name media
  discarded : r.InSequence → ∀ a c past first between last after,
    r.Completes a c past first between last after →
    ∀ s, c.discards first.before p s → ∀ x place, first.before.presentations[p]? = some x →
      x.findStream? s = some place → Discarded p s place x (between ++ [last]) last after

namespace Machine

theorem negotiates_of_does {t : Transition H} {p : Key} {a : ActorId} {x : Presentation H}
    {place : Nat}
    {decoder : Option String} {media : MediaType} (hplay : t.before.play t.action = some t.progress)
    (hdoes : t.Does p a (.setFormat place decoder media))
    (hx : t.before.presentations[p]? = some x) :
    t.Negotiates p a x place decoder media := by
  obtain ⟨answers, move, hcarries⟩ := Transition.carries_of_does hplay hdoes rfl (by simp) hx
  have heffects : t.effects p = move.effects := (hcarries.effects_eq p).trans (if_pos rfl)
  rcases Presentation.setFormat_cases hcarries.moves with ⟨e, hresult, -, hnone, hsame⟩ |
    ⟨-, hresult, hnone, hstreams, -, hnext⟩
  · exact ⟨heffects.trans hnone, _,
      hcarries.presentation_after, by rw [hsame], .inl ⟨e, hcarries.result.trans hresult⟩⟩
  · obtain ⟨rest, hstack⟩ := hcarries.stack_after
    refine ⟨heffects.trans hnone, _,
      hcarries.presentation_after, by rw [Presentation.slots, hstreams]; rfl,
      .inr ⟨hcarries.result.trans hresult, ?_⟩⟩
    rw [hstack, hnext]
    rfl

theorem loads_of_does {t : Transition H} {p : Key} {a : ActorId} {x : Presentation H} {place : Nat}
    {name : String} {media : MediaType} (hplay : t.before.play t.action = some t.progress)
    (hdoes : t.Does p a (.loadDecoder place name media))
    (hx : t.before.presentations[p]? = some x) :
    t.Loads p a x place name media := by
  obtain ⟨answers, move, hcarries⟩ := Transition.carries_of_does hplay hdoes rfl (by simp) hx
  refine ⟨answers, move.presentation, hcarries.action, hcarries.presentation_after, ?_⟩
  rw [hcarries.effects_eq, if_pos rfl, hcarries.result]
  exact Presentation.loadDecoder_loads hcarries.moves

/-- Whatever a host does, the decoders of each of its presentations are accounted for. -/
theorem decoders_kept (config : Config) (decoders : DecoderBackends H.Codec)
    (outputs : AudioBackends H.Output) (actions : List (Action H)) (p : Key) :
    ((initial config decoders outputs).run actions).KeepsDecoders p where
  accounted x hx := by
    obtain ⟨id, hstart⟩ := (run_follows config decoders outputs actions p).start x hx
    exact hstart.balances.accounts
  negotiates _ ht _ _ _ _ _ hdoes hx := negotiates_of_does (play_of_mem ht) hdoes hx
  loads _ ht _ _ _ _ _ hdoes hx := loads_of_does (play_of_mem ht) hdoes hx
  discarded hsequence _ _ _ _ _ _ _ h _ hc _ _ hx hplace :=
    discarded_of_completes hsequence h hc hx hplace

theorem completes_of_run {m : Machine H} {a : ActorId} {c : Call H}
    {earlier during more : List (Action H)} {last : Transition H}
    (hmay : (m.run earlier).final.mayCall a && c.isHosts && (m.run earlier).final.knows c)
    (hbusy : ∀ t ∈ (((m.run earlier).final.invoke a c.jobs).run during).trace,
      t.before.stack a ≠ [])
    (hlast : (((m.run earlier).final.invoke a c.jobs).run during).trace.getLast? = some last)
    (hover : last.progress.machine.stack a = []) :
    ∃ between after, (m.run (earlier ++ .call a c :: (during ++ more))).Completes a c
      (m.run earlier).trace
      ⟨(m.run earlier).final, .call a c, { machine := (m.run earlier).final.invoke a c.jobs }⟩
        between last after := by
  obtain ⟨between, after, htrace, hcall⟩ := trace_of_call hmay hlast more
  exact ⟨between, after, hcall, rfl, htrace ▸ hbusy, hover⟩

open Playout.Action in
def loadedTwice : List (Action .plain) :=
  prepared (.video .unknown 4 4) [] ++
    calling 0 (.setFormat ⟨0, 0⟩ (some "other") (.video .unknown 4 4)) 2
    ++ calling 0 (.setFormat ⟨0, 0⟩ none (.video .unknown 4 4)) 2

open Playout.Action in
/-- The stream is removed then. Its handle gets no decoder, until another stream is created under
the number. -/
def replaced : List (Action .plain) :=
  loadedTwice ++ .call 0 (.removeStream 0 1) :: (steps 0 4 ++
    (calling 0 (.setFormat ⟨0, 0⟩ none (.video .unknown 4 4)) 1 ++ calling 0 (.createStream 0 1) 1
      ++ calling 0 (.setFormat ⟨0, 0⟩ none (.video .unknown 4 4)) 2))

open Playout.Action in
theorem replaced_decoders_kept :
    (plain.run replaced).InSequence ∧ (plain.run replaced).KeepsDecoders 0 ∧
      Effect.madeIn ((plain.run replaced).effects 0) = [0, 1, 2] ∧
      Effect.destroyedIn ((plain.run replaced).effects 0) = [0, 1] ∧
      ∃ past first between last after x,
        (plain.run replaced).Completes 0 (.removeStream 0 1) past first between last after ∧
        first.before.presentations[0]? = some x ∧ x.serials = [1] ∧
        Discarded 0 1 0 x (between ++ [last]) last after := by
  let c : Call .plain := .removeStream 0 1
  let r := ((plain.run loadedTwice).final.invoke 0 c.jobs).run (steps 0 4)
  have hsequence : (plain.run replaced).InSequence := by
    unfold Run.InSequence
    decide +kernel
  have hkept : (plain.run replaced).KeepsDecoders 0 := decoders_kept _ _ _ replaced 0
  have hbusy : ∀ t ∈ r.trace, t.before.stack 0 ≠ [] := by decide +kernel
  have hover : r.trace.getLast?.any fun t => (t.progress.machine.stack 0).isEmpty := by
    decide +kernel
  obtain ⟨last, hlast, hempty⟩ := (Option.any_eq_true _ _).mp hover
  have hbound : (plain.run loadedTwice).final.presentations[0]?.any fun x =>
      x.findStream? 1 == some 0 && x.serials == [1] := by decide +kernel
  obtain ⟨x, hx, hstream⟩ := (Option.any_eq_true _ _).mp hbound
  simp only [Bool.and_eq_true, beq_iff_eq] at hstream
  obtain ⟨between, after, hcompletes⟩ :=
    completes_of_run (by decide +kernel) hbusy hlast (List.isEmpty_iff.mp hempty)
  exact ⟨hsequence,
    hkept, by decide +kernel, by decide +kernel, _, _, between, last, after, x, hcompletes, hx,
    hstream.2, hkept.discarded hsequence 0 c _ _ _ _ _ hcompletes 1 ⟨rfl, rfl⟩ x 0 hx hstream.1⟩

end Machine

end Playout
