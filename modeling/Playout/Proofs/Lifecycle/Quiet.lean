import Playout.Proofs.Lifecycle.Halt

/-!
# After a stop

A stop by an actor other than the thread returns when there is no thread any more, whatever others
do meanwhile, as long as nobody starts one. From then on the presentation is not running. Without a
thread it has no sink either, unless a thread has broken off.
-/

namespace Playout

variable {H : Platform}

/-- An actor other than the thread begins to stop the presentation and is busy with that in what
follows. No thread is started meanwhile. -/
structure StopUnderway (p : Key) (a : ActorId) (call : Transition H)
    (during : List (Transition H)) :
    Prop where
  begun : call.action = .call a (.stop p)
  foreign : call.before.plays p a = false
  within : ∀ t ∈ during, (call.before.stack a).length < (t.before.stack a).length
  unstarted : ∀ t ∈ during, ¬ t.Starts p

namespace StopUnderway

variable {p : Key} {a : ActorId} {call t : Transition H} {during more : List (Transition H)}

theorem of_append (h : StopUnderway p a call (during ++ more)) : StopUnderway p a call during where
  begun := h.begun
  foreign := h.foreign
  within t ht := h.within t (List.mem_append_left _ ht)
  unstarted t ht := h.unstarted t (List.mem_append_left _ ht)

theorem jobs_ne_nil {jobs : List (Job H)} (h : StopUnderway p a call (during ++ [t]))
    (hstack : t.before.stack a = jobs ++ call.before.stack a) : jobs ≠ [] := by
  rintro rfl
  have hwithin := h.within t List.mem_concat_self
  rw [hstack] at hwithin
  exact Nat.lt_irrefl _ hwithin

end StopUnderway

/-- What holds of a presentation of a run with regard to the stops that are underway or have
returned, and to the end of its threads. -/
structure Run.Quiet (r : Run H) (p : Key) (crew : Crew H) : Prop where
  manned : ∀ x, r.final.presentations[p]? = some x → Manned x crew
  slotted : Slotted r.final p crew
  unbound : r.brokeOff p = false → crew = none → ∀ x, r.final.presentations[p]? = some x →
    x.sink = none
  underway : ∀ before call during a, r.trace = before ++ call :: during →
    StopUnderway p a call during →
    ∃ x jobs, r.final.presentations[p]? = some x ∧ r.final.stack a = jobs ++ call.before.stack a ∧
      Stopping p a False x crew jobs ∧ ∀ s, crew ≠ some (a, s)
  returned : ∀ before call during next after a,
    r.trace = before ++ call :: (during ++ next :: after) →
    StopUnderway p a call during → (next.before.stack a).length = (call.before.stack a).length →
    (∀ t ∈ next :: after, ¬ t.Starts p) →
    crew = none ∧ ∀ t ∈ next :: after, ∀ x, t.before.presentations[p]? = some x →
      x.isRunning = false

/-- A stop begins with all that there is to do for it, at a presentation that exists. -/
theorem Machine.play_stop {m : Machine H} {p : Key} {a : ActorId} {progress : Progress H}
    (hplay : m.play (.call a (.stop p)) = some progress) :
    (∃ x, m.presentations[p]? = some x) ∧
      progress.machine.stack a = (Call.stop p).jobs ++ m.stack a := by
  simp only [play, Option.ite_none_right_eq_some, Bool.and_eq_true, Option.some.injEq] at hplay
  obtain ⟨⟨⟨hmay, -⟩, hknows⟩, rfl⟩ := hplay
  have hexists : p < m.presentations.length := by simpa [knows, Call.key?] using hknows
  exact ⟨⟨_, List.getElem?_eq_getElem hexists⟩, stack_setStack_self (lt_of_mayCall hmay)⟩

theorem Transition.unstarted {t : Transition H} {p : Key} (h : ¬ t.Starts p) :
    ∀ b x effects, t.doing? p = some (b, ⟨x, .start, effects⟩) → x.isRunning := by
  intro b x effects hdoing
  apply Classical.byContradiction
  intro hidle
  exact h ⟨b, x, effects, hdoing, by simpa using hidle⟩

namespace Run.Quiet

variable {r : Run H} {p : Key} {action : Action H} {progress : Progress H} {crew crew' : Crew H}

theorem initial (config : Config) (decoders : DecoderBackends H.Codec)
    (outputs : AudioBackends H.Output)
    (p : Key) : (⟨Machine.initial config decoders outputs, []⟩ : Run H).Quiet p none where
  manned x hx := by simp [Machine.initial] at hx
  slotted := .initial config decoders outputs p
  unbound _ _ x hx := by simp [Machine.initial] at hx
  underway before call during a htrace := by simp at htrace
  returned before call during next after a htrace := by simp at htrace

theorem next_unbound (h : r.Quiet p crew) (hplay : r.final.play action = some progress)
    (hturn : Turn r.final progress.machine p crew
      (Transition.doing? p ⟨r.final, action, progress⟩) crew')
    (hwhole : (r.extend action progress).brokeOff p = false) (hnone : crew' = none) :
    ∀ y, progress.machine.presentations[p]? = some y → y.sink = none := by
  intro y hy
  rw [brokeOff_extend] at hwhole
  cases hx : r.final.presentations[p]? with
  | none =>
      obtain ⟨-, -, hstill | ⟨id, hnew⟩⟩ := hturn.absent hx
      · rw [hstill] at hy
        cases hy
      · rw [hnew] at hy
        cases hy
        rfl
  | some x =>
      exact hturn.unbound hx hy (h.manned x hx) (fun hidle => h.unbound hwhole.1 hidle x hx)
        (Transition.stack_of_whole hplay hwhole.2) hnone

/-- The call of a stop: nothing has been done yet, and the actor is about to make its request. -/
theorem begins {a : ActorId} (hplay : r.final.play action = some progress)
    (hcrew : Crewed r.final p crew)
    (hturn : Turn r.final progress.machine p crew
      (Transition.doing? p ⟨r.final, action, progress⟩) crew')
    (haction : action = .call a (.stop p)) (hforeign : r.final.plays p a = false) :
    ∃ x jobs, progress.machine.presentations[p]? = some x ∧
      progress.machine.stack a = jobs ++ r.final.stack a ∧ Stopping p a False x crew' jobs ∧
      ∀ s, crew' ≠ some (a, s) := by
  subst haction
  obtain ⟨⟨x, hx⟩, hstack⟩ := Machine.play_stop hplay
  obtain ⟨hy, rfl⟩ := hturn.still hx
  refine ⟨x, (Call.stop p).jobs, hy, hstack, .begun, ?_⟩
  rintro s rfl
  rw [hcrew.plays] at hforeign
  cases hforeign

theorem next_underway (h : r.Quiet p crew) (hcrew : Crewed r.final p crew)
    (hplay : r.final.play action = some progress)
    (hturn : Turn r.final progress.machine p crew
      (Transition.doing? p ⟨r.final, action, progress⟩) crew')
    {before during : List (Transition H)} {call : Transition H} {a : ActorId}
    (htrace : (r.extend action progress).trace = before ++ call :: during)
    (hstop : StopUnderway p a call during) :
    ∃ x jobs, progress.machine.presentations[p]? = some x ∧
      progress.machine.stack a = jobs ++ call.before.stack a ∧ Stopping p a False x crew' jobs ∧
      ∀ s, crew' ≠ some (a, s) := by
  rcases snoc_eq_split htrace with ⟨-, rfl, rfl⟩ | ⟨rest, rfl, hinit⟩
  · exact begins hplay hcrew hturn hstop.begun hstop.foreign
  · obtain ⟨x, jobs, hx, hstack, hstopping, hforeign⟩ :=
      h.underway before call rest a hinit hstop.of_append
    have hunstarted := Transition.unstarted (hstop.unstarted _ List.mem_concat_self)
    have hjobs := hstop.jobs_ne_nil hstack
    obtain ⟨y, hy⟩ := hturn.exists_after hx
    obtain ⟨jobs', hstack', hstopping'⟩ :=
      hstopping.turn hjobs hstack hcrew h.slotted hforeign hx hy
      hturn hunstarted False.elim
    exact ⟨y, jobs', hy, hstack', hstopping', hturn.foreign hforeign hunstarted⟩

theorem next_returned (h : r.Quiet p crew) (hcrew : Crewed r.final p crew)
    (hturn : Turn r.final progress.machine p crew
      (Transition.doing? p ⟨r.final, action, progress⟩) crew')
    {before during after : List (Transition H)} {call next : Transition H} {a : ActorId}
    (htrace : (r.extend action progress).trace = before ++ call :: (during ++ next :: after))
    (hstop : StopUnderway p a call during)
    (hreturned : (next.before.stack a).length = (call.before.stack a).length)
    (hunstarted : ∀ t ∈ next :: after, ¬ t.Starts p) :
    crew' = none ∧ ∀ t ∈ next :: after, ∀ x, t.before.presentations[p]? = some x →
      x.isRunning = false := by
  have hidle : crew = none → ∀ x, r.final.presentations[p]? = some x → x.isRunning = false := by
    intro hnone x hx
    rw [hcrew.running x hx, hnone]
    rfl
  rw [← List.cons_append, ← List.append_assoc] at htrace
  rcases snoc_eq_split htrace with ⟨hinit, rfl, rfl⟩ | ⟨rest, rfl, hinit⟩
  · -- the stop has just returned, so that nothing is left of it
    obtain ⟨x, jobs, hx, hstack, hstopping, -⟩ := h.underway before call during a hinit.symm hstop
    have hlength : jobs.length = 0 := by
      rw [hstack, List.length_append] at hreturned
      omega
    obtain rfl := List.length_eq_zero_iff.mp hlength
    have hnone := hstopping.of_nil.2.1
    refine ⟨hturn.unmanned hnone (Transition.unstarted (hunstarted _ List.mem_cons_self)),
      fun t ht => ?_⟩
    rw [List.mem_singleton.mp ht]
    exact hidle hnone
  · rw [List.append_assoc, List.cons_append] at hinit
    rw [← List.cons_append] at hunstarted ⊢
    obtain ⟨hnone, hstill⟩ :=
      h.returned before call during next rest a hinit hstop hreturned fun t ht =>
      hunstarted t (List.mem_append_left _ ht)
    have hlast := hunstarted _ List.mem_concat_self
    refine ⟨hturn.unmanned hnone (Transition.unstarted hlast), ?_⟩
    intro t ht
    rcases List.mem_append.mp ht with hold | hnew
    · exact hstill t hold
    · rw [List.mem_singleton.mp hnew]
      exact hidle hnone

theorem next (h : r.Quiet p crew) (hcrew : Crewed r.final p crew)
    (hplay : r.final.play action = some progress)
    (hturn : Turn r.final progress.machine p crew
      (Transition.doing? p ⟨r.final, action, progress⟩) crew') :
    (r.extend action progress).Quiet p crew' where
  manned := Manned.turn hcrew h.manned hturn
  slotted := h.slotted.turn hplay hturn
  unbound := h.next_unbound hplay hturn
  underway _ _ _ _ := h.next_underway hcrew hplay hturn
  returned _ _ _ _ _ _ := h.next_returned hcrew hturn

end Run.Quiet

theorem Machine.run_quiet (config : Config) (decoders : DecoderBackends H.Codec)
    (outputs : AudioBackends H.Output) (actions : List (Action H)) (p : Key) :
    ∃ crew, Crewed ((initial config decoders outputs).run actions).final p crew ∧
      ((initial config decoders outputs).run actions).Quiet p crew :=
  run_turns (P := fun r crew => r.Quiet p crew) (initial config decoders outputs)
    (fun q => ⟨none, .initial config decoders outputs q⟩) (.initial config decoders outputs p)
    (.initial config decoders outputs p)
    (fun _ _ _ _ _ hcrew h hplay _ hturn => h.next hcrew hplay hturn) actions

end Playout
