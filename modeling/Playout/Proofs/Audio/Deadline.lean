import Playout.Proofs.Audio.DrainWait

/-!
# The deadline of the wait

A thread that comes to wait for its sink adds the timeout to the time. The configuration does not
bound the timeout, so that the sum may be out of range. Then the thread breaks off, and its sink is
left behind. That is the only way in which a thread breaks off, so that sinks are always released
where all deadlines are in range.
-/

namespace Playout

variable {H : Platform}

/-- A timeout that begins now ends in range. -/
def Config.reaches (config : Config) (now : Instant) : Prop :=
  now.nanos + config.audioDrainTimeout.nanos < Instant.limit

theorem Config.add?_of_reaches {config : Config} {now : Instant} (h : config.reaches now) :
    now.add? config.audioDrainTimeout = some ⟨now.nanos + config.audioDrainTimeout.nanos, h⟩ :=
  dif_pos h

theorem Config.add?_eq_none {config : Config} {now : Instant} (h : ¬ config.reaches now) :
    now.add? config.audioDrainTimeout = none :=
  dif_neg h

/-- What becomes of a thread that has come to wait for its sink. It goes on to ask the sink if the
deadline is in range; else it ends at once, and its presentation keeps the sink. -/
inductive SetsDeadline (config : Config) (t : Transition H) (p : Key) (b : ActorId)
    (now : Instant) : Prop where
  | waits {x} (hrange : config.reaches now) :
      t.before.presentations[p]? = some x → t.progress.machine.presentations[p]? = some x →
      t.progress.machine.stack b =
        [.at p (.pollSink ⟨now.nanos + config.audioDrainTimeout.nanos, hrange⟩ 0),
          .at p (.playback .closing)] →
      t.progress.effects = [] → t.breaksOff p = false → SetsDeadline config t p b now
  | breaksOff {x} : ¬ config.reaches now →
      t.before.presentations[p]? = some x →
        t.progress.machine.presentations[p]? = some (x.enter .stopped) →
      t.progress.machine.stack b = [] → t.progress.effects = [] → t.breaksOff p →
        SetsDeadline config t p b now

structure Run.KeepsDeadlines (r : Run H) (p : Key) (config : Config) : Prop where
  next : ∀ b rest answers, r.final.stack b = .at p .drainSink :: rest →
    ∃ progress, r.final.play (.step b answers) = some progress ∧
      SetsDeadline config ⟨r.final, .step b answers, progress⟩ p b answers.clock
  /-- A thread breaks off for one reason only. -/
  broken : ∀ t ∈ r.trace, t.breaksOff p →
    ∃ b answers, t.action = .step b answers ∧ t.Does p b .drainSink ∧
    ¬ config.reaches answers.clock
  released : (∀ t ∈ r.trace, ∀ b answers, t.action = .step b answers → t.Does p b .drainSink →
      config.reaches answers.clock) →
    ∀ x, r.final.presentations[p]? = some x → x.isRunning = false →
      x.sink = none ∧ ∀ n, SinkUse.Over (r.sinkLog p n)

namespace Machine

variable {m : Machine H} {p : Key} {b : ActorId} {crew : Crew H} {rest : List (Job H)}

/-- A thread that has come to wait for its sink can act, whatever time it is. -/
theorem setsDeadline (hcrew : Crewed m p crew)
    (hmanned : ∀ x, m.presentations[p]? = some x → Manned x crew)
    (hstack : m.stack b = .at p .drainSink :: rest) (answers : Answers H) :
    ∃ progress, m.play (.step b answers) = some progress ∧
      SetsDeadline m.config ⟨m, .step b answers, progress⟩ p b answers.clock := by
  obtain ⟨hcrew', rfl⟩ := hcrew.drainingSink_of_stack hstack
  obtain ⟨x, hx⟩ := (hcrew' ▸ hcrew : Crewed m p (some (b, .drainingSink))).exists_presentation
  have hlt := lt_of_stack hstack
  have hbreaks : ∀ progress, Transition.breaksOff ⟨m, .step b answers, progress⟩ p =
      (answers.clock.add? m.config.audioDrainTimeout).isNone := by
    intro progress
    simp [Transition.breaksOff, Transition.timely, Transition.doing?_at hstack, hx,
      Task.isDrainSink]
  by_cases hrange : m.config.reaches answers.clock
  · have hdeadline := Config.add?_of_reaches hrange
    let move : Move H := { presentation := x, next := [.pollSink ⟨_, hrange⟩ 0] }
    have hmove : x.perform (m.surroundings b p answers) .drainSink = .moves move := by
      simp only [Presentation.perform, surroundings, hdeadline]
      rfl
    have hplay : m.play (.step b answers) = some (m.after b p [.at p (.playback .closing)] move) :=
      play_step hstack hx hmove
    exact ⟨_, hplay, .waits hrange hx (Crewed.presentation_after hx) (stack_after_self hlt) rfl
      ((hbreaks _).trans (by rw [hdeadline]; rfl))⟩
  · have hdeadline := Config.add?_eq_none hrange
    have hunlocked := (hmanned x hx).unlocked .drainingSink (by rw [hcrew']; rfl) rfl
    have hmove : x.perform (m.surroundings b p answers) .drainSink = .unwinds := by
      simp only [Presentation.perform, surroundings, hdeadline, hunlocked]
      rfl
    have hplay : m.play (.step b answers) = some { machine := m.unwind b } := by
      simp only [play, step, hstack, perform, hx, hmove]
    have hstopped := (hcrew.unwind_own hx hstack (by simp [hcrew', Crew.of])).2
    exact ⟨_, hplay, .breaksOff hrange hx hstopped (stack_setStack_self hlt) rfl
      ((hbreaks _).trans (by rw [hdeadline]; rfl))⟩

/-- A thread that breaks off has come to wait for its sink, and it is too late for that. -/
theorem late_of_breaksOff {t : Transition H} (hplay : t.before.play t.action = some t.progress)
    (hbreaks : t.breaksOff p) :
    ∃ b answers, t.action = .step b answers ∧ t.Does p b .drainSink ∧
      ¬ t.before.config.reaches answers.clock := by
  rw [Transition.breaksOff, Bool.and_eq_true, Option.any_eq_true] at hbreaks
  obtain ⟨⟨⟨b, x, task, effects⟩, hdoing, htask⟩, hlate⟩ := hbreaks
  obtain ⟨answers, -, haction, -⟩ := Transition.perform_of_doing hplay hdoing
  obtain rfl : task = .drainSink := by
    cases task <;> first | rfl | cases htask
  refine ⟨b, answers, haction, ⟨x, effects, hdoing⟩, fun hrange => ?_⟩
  simp [Transition.timely, haction, Config.add?_of_reaches hrange] at hlate

/-- Every thread that comes to wait for its sink sets a deadline if there is one in range, and
breaks off otherwise. If all deadlines are in range, there is no sink left behind where there
is no thread. -/
theorem deadlines_kept (config : Config) (decoders : DecoderBackends H.Codec)
    (outputs : AudioBackends H.Output) (actions : List (Action H)) (p : Key) :
    ((initial config decoders outputs).run actions).KeepsDeadlines p config := by
  have hbroken : ∀ t ∈ ((initial config decoders outputs).run actions).trace, t.breaksOff p →
      ∃ b answers, t.action = .step b answers ∧ t.Does p b .drainSink ∧
        ¬ config.reaches answers.clock := by
    intro t ht hbreaks
    have hlate := late_of_breaksOff (play_of_mem ht) hbreaks
    obtain ⟨past, after, htrace⟩ := List.append_of_mem ht
    obtain ⟨earlier, hrun, -⟩ := run_split _ actions htrace
    have hconfig : t.before.config = config :=
      congrArg (·.final.config) hrun ▸ config_run (initial config decoders outputs) earlier
    rwa [hconfig] at hlate
  refine ⟨fun b rest answers hstack => ?_, hbroken, fun hranges x hx hidle => ?_⟩
  · obtain ⟨crew, hcrew, hmanned⟩ := run_manned config decoders outputs actions p
    obtain ⟨progress, hplay, hsets⟩ := setsDeadline hcrew hmanned hstack answers
    rw [config_run] at hsets
    exact ⟨progress, hplay, hsets⟩
  · have hwhole : ((initial config decoders outputs).run actions).brokeOff p = false := by
      refine Bool.eq_false_iff.mpr fun hbroke => ?_
      obtain ⟨t, ht, hbreaks⟩ := List.any_eq_true.mp hbroke
      obtain ⟨b, answers, haction, hdoes, hlate⟩ := hbroken t ht hbreaks
      exact hlate (hranges t ht b answers haction hdoes)
    have hsink := unbound_of_idle config decoders outputs actions hx hidle hwhole
    exact ⟨hsink, over_of_unbound config decoders outputs actions hx hsink⟩

/-- This configuration is accepted, and still the thread breaks off, at any time. The presentation
has stopped, and its sink has not been released. -/
theorem patient_breaks_off :
    patient.validate = .ok () ∧ (∀ now, ¬ patient.reaches now) ∧
      let r := (initial patient (.standardDecoders ()) (Backends.empty.register "null" ())).run
        (playedOut ++ [.step 1 .plain])
      r.brokeOff 0 ∧ r.final.hasEnded 1 ∧
        r.final.presentations[0]?.map (fun x => (x.state, x.boundSerial)) =
          some (.stopped, some 0) := by
  refine ⟨by decide, fun now => ?_, by decide +kernel, by decide +kernel, by decide +kernel⟩
  have hlimit : Instant.limit ≤ patient.audioDrainTimeout.nanos := by decide
  exact Nat.not_lt.mpr (Nat.le_add_left_of_le hlimit)

end Machine

end Playout
