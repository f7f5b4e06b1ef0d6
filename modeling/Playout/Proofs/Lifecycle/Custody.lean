import Playout.Proofs.Lifecycle.Launch
import Playout.Proofs.Plain

/-!
# Who has the thread

A stop that waits takes the thread out of its slot, so that a later stop finds the slot empty; and
whoever starts a thread puts it into the slot only when it is already running. A playback thread
knows itself only by the slot: it waits for its own end, and then for good, if it stops its
presentation from a callback while another actor has taken it, or has yet to put it there. Otherwise
it never does.
-/

namespace Playout

variable {H : Platform}

namespace Machine

def plays (m : Machine H) (p : Key) (a : ActorId) : Bool :=
  (m.stack a).any (·.isDutyOf p)

/-- If the actor waits until the presentation has stopped, the thread that it has taken to
join it then. -/
def awaits? (m : Machine H) (p : Key) (a : ActorId) : Option (Option ActorId) :=
  match m.stack a with
  | .at q (.awaitStopped thread) :: _ => if q = p then some thread else none
  | _ => none

theorem awaits?_eq_some {m : Machine H} {p : Key} {a : ActorId} {thread : Option ActorId} :
    m.awaits? p a = some thread ↔ ∃ rest, m.stack a = .at p (.awaitStopped thread) :: rest := by
  unfold awaits?
  constructor
  · intro h
    split at h
    · rename_i q thread' rest hstack
      simp only [Option.ite_none_right_eq_some, Option.some.injEq] at h
      obtain ⟨rfl, rfl⟩ := h
      exact ⟨rest, hstack⟩
    · cases h
  · rintro ⟨rest, hstack⟩
    simp [hstack]

end Machine

theorem Crewed.of_plays {m : Machine H} {p : Key} {crew : Crew H} {a : ActorId}
    (h : Crewed m p crew) (hplays : m.plays p a) : ∃ s, crew = some (a, s) := by
  obtain ⟨job, hjob, hduty⟩ := List.any_eq_true.mp hplays
  cases hof : crew.of a with
  | some s => exact ⟨s, Crew.eq_some_of hof⟩
  | none =>
      obtain ⟨free, hstack, hfree⟩ := h.owes a
      rw [hof] at hstack
      simp only [Standing.duties, List.map_nil, List.append_nil] at hstack
      rw [hstack] at hjob
      simp [hfree job hjob] at hduty

theorem Crewed.plays {m : Machine H} {p : Key} {a : ActorId} {s : Standing H}
    (h : Crewed m p (some (a, s))) : m.plays p a := by
  obtain ⟨free, hstack, -⟩ := h.owes a
  refine List.any_eq_true.mpr ⟨.at p s.duty, ?_, by simp [Job.isDutyOf, s.duty_isDuty]⟩
  rw [hstack]
  simp [Crew.of, Standing.duties]

/-- As long as there is a thread there is somebody who keeps the presentation. -/
theorem Crewed.alive {m : Machine H} {p : Key} {b : ActorId} {s : Standing H}
    (h : Crewed m p (some (b, s))) :
    m.alive p := by
  obtain ⟨job, hjob, hduty⟩ := List.any_eq_true.mp h.plays
  refine Machine.alive_of_mem hjob ?_
  cases job with
  | «at» q task =>
      cases task <;> simp_all [Job.isDutyOf, Job.keepsAlive, Task.keepsAlive, Task.isDuty]
  | _ => cases hduty

/-! ## Custody -/

/-- Nobody stops waiting while the thread runs. -/
theorem Steering.isRunning_of_awaitStopped {c : Surroundings H} {x y : Presentation H}
    {thread : Option ActorId} {next : List (Task H)} {effects : List (Effect H)}
    (h : Steering c x (.awaitStopped thread) y next effects) : x.isRunning = false := by
  cases h with
  | stopped hidle => exact hidle
  | apart hsteering => simp [Task.isSteering] at hsteering

/-- Where a thread is that has not ended: in its slot, or with someone else who waits, or still with
whoever launched it. -/
inductive Custody (m : Machine H) (p : Key) (t : ActorId) (slot : Option ActorId) : Prop where
  | kept : slot = some t → Custody m p t slot
  | taken {b} : slot = none → b ≠ t → Job.at p (.awaitStopped (some t)) ∈ m.stack b →
      Custody m p t slot
  | underway {b} : b ≠ t → Job.at p (.keepThread t) ∈ m.stack b → Custody m p t slot

namespace Custody

variable {m m' : Machine H} {p : Key} {t a : ActorId} {slot : Option ActorId} {crew crew' : Crew H}
  {doing? : Option (ActorId × Deed H)}

theorem congr (h : Custody m p t slot)
    (hwaits : ∀ b thread, Job.at p (.awaitStopped thread) ∈ m.stack b →
      Job.at p (.awaitStopped thread) ∈ m'.stack b)
    (hkeeps : ∀ b thread, Job.at p (.keepThread thread) ∈ m.stack b →
      Job.at p (.keepThread thread) ∈ m'.stack b) :
    Custody m' p t slot := by
  cases h with
  | kept hslot => exact .kept hslot
  | taken hslot hb hmem => exact .taken hslot hb (hwaits _ _ hmem)
  | underway hb hmem => exact .underway hb (hkeeps _ _ hmem)

/-- Who finds the thread in the slot has it from now on; otherwise it stays with whoever had it. -/
theorem take {rest : List (Job H)} (h : Custody m p t slot) (hother : slot ≠ some a)
    (hreplaces : m.Replaces m' p a [.at p .inspectThread] [.at p (.awaitStopped slot)] rest) :
    Custody m' p t none := by
  cases h with
  | kept hslot =>
      subst hslot
      refine .taken (b := a) rfl (fun heq => hother (by rw [heq])) ?_
      rw [hreplaces.after]
      exact List.mem_cons_self
  | taken hslot hb hmem =>
      subst hslot
      exact .taken rfl hb ((hreplaces.mem_iff (by simp) (by simp) _).mpr hmem)
  | underway hb hmem => exact .underway hb ((hreplaces.mem_iff (by simp) (by simp) _).mpr hmem)

theorem turn (hcrew : Crewed m p crew) (hlaunching : Launching m p crew)
    (h : ∀ x s, m.presentations[p]? = some x → crew = some (t, s) →
      Custody m p t x.lifecycle.thread)
    (hturn : Turn m m' p crew doing? crew') :
    ∀ y s, m'.presentations[p]? = some y → crew' = some (t, s) →
      Custody m' p t y.lifecycle.thread := by
  intro y s hy hs
  -- only the end of a start fills the slot, only a look at it empties it and begins a wait, and no
  -- wait ends while the thread runs
  cases hturn with
  | arrival hstacks hsame =>
      exact (h y s (hsame ▸ hy) hs).congr (fun b _ hmem => hstacks b ▸ hmem) fun b _ hmem =>
        hstacks b ▸ hmem
  | call _ hplan hreplaces hsame =>
      exact (h y s (hsame ▸ hy) hs).congr
        (fun b _ => (hreplaces.mem_iff (by simp) (hplan.not_mem_of_isSequel rfl) b).mpr)
        fun b _ => (hreplaces.mem_iff (by simp) (hplan.not_mem_of_isSequel rfl) b).mpr
  | elsewhere hreplaces hold hplan hpres =>
      have hexists : m.presentations[p]? ≠ none := by
        intro hnone
        rw [hcrew.eq_none_of_absent hnone] at hs
        cases hs
      have hstays : ∀ {u : Task H}, u.isSequel → ∀ b, Job.at p u ∈ m.stack b →
          Job.at p u ∈ m'.stack b :=
        fun hu b => (hreplaces.mem_iff (fun hmem => hexists (hold _ hmem))
          (hplan.not_mem_of_isSequel hu) b).mpr
      rcases hpres with hsame | ⟨hnone, -⟩
      · exact (h y s (hsame ▸ hy) hs).congr (fun b _ => hstays rfl b) fun b _ => hstays rfl b
      · exact absurd hnone hexists
  | @aside a answers task rest x move hx hx' hfree hstart hmove hreplaces =>
      rw [hx'] at hy
      cases hy
      have hbefore := h x s hx hs
      have hsteer := Presentation.perform_steering hfree hstart move hmove
      rcases hsteer.wait_cases with ⟨hslot, hnext⟩ | ⟨rfl, hnone, hother, hnext⟩
      · rcases hslot with ⟨thread, rfl, hkept⟩ | ⟨hsame, hnot⟩
        · -- what is put into the slot is the thread
          have hhead : Job.at p (.keepThread thread) ∈ m.stack a := by
            rw [hreplaces.before]
            exact List.mem_cons_self
          obtain ⟨-, -, s', hs'⟩ := hlaunching.locks a thread hhead
          obtain ⟨rfl, -⟩ := Prod.mk.inj (Option.some.inj (hs.symm.trans hs'))
          exact .kept hkept
        · rw [hsame]
          refine hbefore.congr (fun b thread hmem => (hreplaces.mem_iff ?_ ?_ b).mpr hmem)
            fun b thread hmem => (hreplaces.mem_iff ?_ ?_ b).mpr hmem
          · intro hmem
            obtain rfl : task = .awaitStopped thread := by
              simpa using (List.mem_singleton.mp hmem).symm
            have hrunning := hcrew.running x hx
            rw [hsteer.isRunning_of_awaitStopped, hs] at hrunning
            cases hrunning
          · simpa using hnext thread
          · simpa using fun heq => hnot thread heq.symm
          · simpa using hsteer.keepThread_not_mem thread
      · rw [hnone]
        rw [hnext] at hreplaces
        exact hbefore.take hother hreplaces
  | @start a _ rest x hnone hx hx' hlaunches hstack hstack' hfresh hbody hothers =>
      cases hs
      refine .underway (b := a) ?_ (by rw [hstack']; exact List.mem_cons_self)
      rintro rfl
      rw [hstack] at hfresh
      cases hfresh
  | @duty a answers s₀ x y' effects s? hcrew₀ hx hx' hadv hreplaces =>
      rw [hx'] at hy
      cases hy
      cases s? with
      | none => cases hs
      | some =>
          cases hs
          rw [hadv.thread_eq]
          exact (h x s₀ hx hcrew₀).congr (fun b _ => (hreplaces.mem_iff_of_duty rfl b).mpr)
            fun b _ => (hreplaces.mem_iff_of_duty rfl b).mpr

end Custody

/-! ## The thread and its own wait -/

/-- A thread that has begun to wait for its own end does nothing any more. -/
theorem Turn.still_of_awaits {m m' : Machine H} {p : Key} {t : ActorId} {s : Standing H}
    {thread : Option ActorId}
    {rest : List (Job H)} {doing? : Option (ActorId × Deed H)} {crew' : Crew H}
    (h : Turn m m' p (some (t, s)) doing? crew') (hcrew : Crewed m p (some (t, s)))
    (hstack : m.stack t = .at p (.awaitStopped thread) :: rest) :
    m'.stack t = m.stack t ∧ crew' = some (t, s) := by
  -- the presentation runs, so that the wait cannot end, and the thread cannot get round it
  have hnot : ∀ deed, doing? ≠ some (t, deed) := by
    rintro deed rfl
    cases h with
    | aside hx _ hfree hstart hmove hreplaces =>
        have hbefore := hreplaces.before
        rw [hstack] at hbefore
        obtain rfl := (Job.at.inj (List.cons.inj hbefore).1).2
        have hrunning := hcrew.running _ hx
        rw [(Presentation.perform_steering hfree hstart _ hmove).isRunning_of_awaitStopped]
          at hrunning
        cases hrunning
    | start hnone => cases hnone
    | @duty _ _ s₀ _ _ _ _ _ _ _ _ hreplaces =>
        have hbefore := hreplaces.before
        rw [hstack, List.append_nil] at hbefore
        have hmem : Job.at p (.awaitStopped thread) ∈
            (Standing.duties (some s₀)).map (Job.at p) := by
          rw [← hbefore]
          exact List.mem_cons_self
        exact Standing.not_mem_duties rfl (some s₀) (by simpa using hmem)
  obtain ⟨x, hx⟩ := hcrew.exists_presentation
  refine ⟨(h.does_or_stays hx hstack (by simp)).resolve_left fun ⟨deed, hdeed⟩ => hnot deed hdeed,
    ?_⟩
  cases h with
  | start hnone => cases hnone
  | duty heq =>
      cases heq
      exact absurd rfl (hnot _)
  | _ => rfl

namespace Machine

/-- The slot does not show the thread: another actor that waits has taken it, or has launched it and
has yet to put it there. -/
def Mislays (m : Machine H) (p : Key) (t : ActorId) : Prop :=
  ∃ b, b ≠ t ∧ (m.awaits? p b = some (some t) ∨ (m.stack b).head? = some (.at p (.keepThread t)))

theorem mislays_of_custody {m : Machine H} {p : Key} {t : ActorId} {slot : Option ActorId}
    (h : Custody m p t slot)
    (hforemost : Foremost m p) (hother : slot ≠ some t) : m.Mislays p t := by
  cases h with
  | kept hslot => exact absurd hslot hother
  | taken _ hb hmem => exact ⟨_, hb, .inl (awaits?_eq_some.mpr (hforemost.head hmem rfl))⟩
  | underway hb hmem =>
      obtain ⟨rest, hstack⟩ := hforemost.head hmem rfl
      exact ⟨_, hb, .inr (by rw [hstack]; rfl)⟩

end Machine

/-- The thread of the presentation waits for its end since a look at the slot, which did
not show it. -/
def Run.WaitsSinceLook (r : Run H) (p : Key) (t : ActorId) : Prop :=
  ∃ past u after, r.trace = past ++ u :: after ∧ u.Does p t .inspectThread ∧ u.before.Mislays p t ∧
    u.progress.machine.stack t = r.final.stack t

theorem Run.WaitsSinceLook.extend {r : Run H} {p : Key} {t : ActorId} (h : r.WaitsSinceLook p t)
    {action : Action H} {progress : Progress H}
    (hstays : progress.machine.stack t = r.final.stack t) :
    (r.extend action progress).WaitsSinceLook p t := by
  obtain ⟨past, u, after, htrace, hdoes, hmislays, hsame⟩ := h
  refine ⟨past, u, after ++ [⟨r.final, action, progress⟩], ?_, hdoes, hmislays,
    hsame.trans hstays.symm⟩
  simp [Run.extend, htrace]

namespace Machine

/-- A wait that the thread has not begun yet begins with a look at the slot. -/
theorem waitsSinceLook_of_turn {r : Run H} {p : Key} {t : ActorId} {action : Action H}
    {progress : Progress H} {crew crew' : Crew H} {s : Standing H} {thread : Option ActorId}
    (hforemost : Foremost r.final p)
    (hcustody : ∀ x s, r.final.presentations[p]? = some x → crew = some (t, s) →
      Custody r.final p t x.lifecycle.thread)
    (hturn : Turn r.final progress.machine p crew
      (Transition.doing? p ⟨r.final, action, progress⟩) crew')
    (hs : crew' = some (t, s)) (hnew : Job.at p (.awaitStopped thread) ∉ r.final.stack t)
    (hmem : Job.at p (.awaitStopped thread) ∈ progress.machine.stack t) :
    (r.extend action progress).WaitsSinceLook p t := by
  generalize hdoing : Transition.doing? p ⟨r.final, action, progress⟩ = doing? at hturn
  cases hturn with
  | arrival hstacks => exact absurd (hstacks t ▸ hmem) hnew
  | call _ hplan hreplaces =>
      rcases hreplaces.mem_cases hmem with hold | hplanned
      · exact absurd hold hnew
      · simpa [Task.isPlanned] using hplan.planned _ hplanned
  | elsewhere hreplaces _ hplan =>
      rcases hreplaces.mem_cases hmem with hold | hplanned
      · exact absurd hold hnew
      · simpa [Task.isPlanned] using hplan.planned _ hplanned
  | @aside a answers task rest x move hx hx' hfree hstart hmove hreplaces =>
      have hsteer := Presentation.perform_steering hfree hstart move hmove
      rcases hsteer.wait_cases with ⟨-, hnone⟩ | ⟨rfl, -, hother, -⟩
      · rcases hreplaces.mem_cases hmem with hold | hnext
        · exact absurd hold hnew
        · exact absurd (by simpa using hnext) (hnone thread)
      · obtain rfl : a = t := by
          by_contra hne
          rcases hreplaces.others t (Ne.symm hne) with hsame | ⟨-, hnone⟩
          · exact hnew (hsame ▸ hmem)
          · exact hnone _ hmem
        refine ⟨r.trace, ⟨r.final, action, progress⟩, [], rfl, ⟨x, _, hdoing⟩, ?_, rfl⟩
        exact mislays_of_custody (hcustody x s hx hs) hforemost hother
  | start _ _ _ _ _ _ _ hbody =>
      cases hs
      simp [hbody, Task.body] at hmem
  | @duty _ _ s₀ x _ _ s? _ _ _ _ hreplaces =>
      rcases hreplaces.mem_cases hmem with hold | hnext
      · exact absurd hold hnew
      · exact absurd (by simpa using hnext) (Standing.not_mem rfl x s₀ s?)

/-- What holds of a presentation's threads in a run: where they are, and since when they wait for
themselves. -/
structure Guards (r : Run H) (p : Key) (t : ActorId) (crew : Crew H) : Prop where
  foremost : Foremost r.final p
  launching : Launching r.final p crew
  custody : ∀ x s, r.final.presentations[p]? = some x → crew = some (t, s) →
    Custody r.final p t x.lifecycle.thread
  waits : ∀ s thread, crew = some (t, s) → Job.at p (.awaitStopped thread) ∈ r.final.stack t →
    r.WaitsSinceLook p t

theorem Guards.extend {r : Run H} {p : Key} {t : ActorId} {action : Action H}
    {progress : Progress H}
    {crew crew' : Crew H} (h : Guards r p t crew) (hcrew : Crewed r.final p crew)
    (hturn : Turn r.final progress.machine p crew
      (Transition.doing? p ⟨r.final, action, progress⟩) crew') :
    Guards (r.extend action progress) p t crew' where
  foremost := h.foremost.turn hturn
  launching := h.launching.turn h.foremost hturn
  custody := Custody.turn hcrew h.launching h.custody hturn
  waits s thread hs hmem := by
    by_cases hold : Job.at p (.awaitStopped thread) ∈ r.final.stack t
    · -- the thread has been there before, since a new one has nothing to do
      have hcrewed : ∃ s, crew = some (t, s) := by
        generalize Transition.doing? p ⟨r.final, action, progress⟩ = doing? at hturn
        cases hturn with
        | start _ _ _ _ _ _ hfresh =>
            cases hs
            rw [hfresh] at hold
            cases hold
        | duty heq =>
            obtain ⟨next, -, heq'⟩ := Option.map_eq_some_iff.mp hs
            cases heq'
            exact ⟨_, heq⟩
        | _ => exact ⟨s, hs⟩
      obtain ⟨before, rfl⟩ := hcrewed
      obtain ⟨rest, hstack⟩ := h.foremost.head hold rfl
      exact (h.waits before thread rfl hold).extend (hturn.still_of_awaits hcrew hstack).1
    · exact waitsSinceLook_of_turn h.foremost h.custody hturn hs hold hmem

end Machine

end Playout
