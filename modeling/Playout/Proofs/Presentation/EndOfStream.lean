import Playout.Proofs.Histories
import Playout.Proofs.Presentation.Tables

/-!
# The ends of streams

A presentation keeps one flag of its own for the end of a stream, and one for each stream that is
registered. They are set together and cleared together, but a stream's flag goes with its
registration and starts anew with the next one. So the presentation's flag says that some stream has
ended since the queues were last cleared, be it registered or not, and a stream's flag that its
number has been ended since then and since it was registered.
-/

namespace Playout

variable {H : Platform}

/-! ## One task -/

/-- A task that was done to a presentation, with what its caller was told, if that was the
end of a call. -/
structure Report (H : Platform) where
  before : Presentation H
  task : Task H
  result : Option (Except MediaError Unit)

namespace Report

def concludes? (e : Report H) : Option StreamId :=
  match e.task with
  | .endStream place => if e.result.any (·.isOk) then e.before.numberAt? place else none
  | _ => none

def flushes (e : Report H) : Bool :=
  match e.task with
  | .clearQueues => true
  | _ => false

def registers? (e : Report H) : Option StreamId :=
  match e.task with
  | .createStream s => if e.result.any (·.isOk) then some s else none
  | _ => none

end Report

/-- The task may set or clear a flag, or bring a new one. -/
def Task.isFlagging : Task H → Bool
  | .createStream _ => true
  | .endStream _ => true
  | .clearQueues => true
  | _ => false

namespace Presentation

variable {c : Surroundings H} {x y : Presentation H} {task : Task H} {s u : StreamId} {b : Bool}
  {pre post : List (StreamQueue H.Receiver)} {q q' : StreamQueue H.Receiver}

def flag? (x : Presentation H) (s : StreamId) : Option Bool :=
  (x.queue? s).map (·.eos)

theorem flag?_eq (h : y.queues = x.queues) (s : StreamId) : y.flag? s = x.flag? s := by
  rw [flag?, flag?, queue?, queue?, h]

theorem flag?_of_revise (h : y.flag? s = some b) (hx : x.queues = pre ++ q :: post)
    (hy : y.queues = pre ++ q' :: post) (hid : q'.id = q.id) (heos : q'.eos = q.eos) :
    x.flag? s = some b := by
  have hsame : y.flag? s = x.flag? s := by
    simp only [flag?, queue?, hx, hy, List.find?_append]
    cases pre.find? (·.id == s) with
    | some p => rfl
    | none =>
        simp only [Option.none_or, List.find?_cons, hid]
        split
        · simp [heos]
        · rfl
  exact hsame.symm.trans h

theorem flag?_detach (hy : y.queues = x.queues.filter (·.id != u)) (h : y.flag? s = some b) :
    x.flag? s = some b := by
  by_cases hsu : s = u
  · subst hsu
    obtain ⟨q, hq, -⟩ := Option.map_eq_some_iff.mp h
    obtain ⟨hmem, hid⟩ := queue?_eq_some hq
    simp [hy, hid] at hmem
  · rwa [flag?, queue?_detach hy hsu] at h

theorem flag?_clear (s : StreamId) : x.clearQueues.flag? s = (x.queue? s).map fun _ => false := by
  have hfind : x.clearQueues.queue? s = (x.queue? s).map (·.clear) := by
    rw [queue?, clearQueues, List.find?_map]
    rfl
  rw [flag?, hfind, Option.map_map]
  rfl

/-- What a task makes of the flags. The flag of a stream is set by its end, it is down after a
registration and when the queues are cleared, and in all other cases it is as it was. -/
structure Remarks (e : Report H) (y : Presentation H) : Prop where
  eos : y.eos = (e.concludes?.isSome || !e.flushes && e.before.eos)
  flag : ∀ s b, y.flag? s = some b →
    e.concludes? = some s ∧ b = true ∨
      e.concludes? ≠ some s ∧
        ((e.flushes = true ∨ e.registers? = some s) ∧ b = false ∨
          e.flushes = false ∧ e.registers? ≠ some s ∧ e.before.flag? s = some b)
  fresh : ∀ s, e.registers? = some s → e.before.queue? s = none

namespace Remarks

theorem of_kept {e : Report H} (hconcludes : e.concludes? = none) (hflushes : e.flushes = false)
    (hregisters : e.registers? = none) (heos : y.eos = e.before.eos)
    (hflag : ∀ s b, y.flag? s = some b → e.before.flag? s = some b) : Remarks e y where
  eos := by simp [hconcludes, hflushes, heos]
  flag s b h := .inr ⟨by simp [hconcludes], .inr ⟨hflushes, by simp [hregisters], hflag s b h⟩⟩
  fresh s h := by simp [hregisters] at h

theorem of_other {result : Option (Except MediaError Unit)} (hother : task.isFlagging = false)
    (heos : y.eos = x.eos) (hflag : ∀ s b, y.flag? s = some b → x.flag? s = some b) :
    Remarks ⟨x, task, result⟩ y := by
  refine of_kept ?_ ?_ ?_ heos hflag
  all_goals cases task <;> first | rfl | cases hother

end Remarks

theorem createStream_remarks {move : Move H} {live : List StreamId} (hx : x.Tables live)
    (h : x.perform c (.createStream s) = .moves move) :
    Remarks ⟨x, .createStream s, move.result⟩ move.presentation := by
  simp only [perform, createStream] at h
  cases hs : x.findStream? s with
  | some place =>
      simp only [hs, Option.isSome_some, if_true] at h
      cases h
      exact .of_kept rfl rfl rfl rfl fun _ _ h => h
  | none =>
      simp only [hs, Option.isSome_none, Bool.false_eq_true, if_false] at h
      cases h
      have hnone : x.queue? s = none := by
        have hnot := hx.findStream?_eq_none_iff.mp hs
        rw [← hx.queues, streamIds] at hnot
        simpa [queue?] using hnot
      have hregisters : Report.registers? (⟨x, .createStream s, some (.ok ())⟩ : Report H) =
          some s := rfl
      refine ⟨rfl, fun u b hu => .inr ⟨by simp [Report.concludes?], ?_⟩, fun u hu => ?_⟩
      · by_cases hsu : u = s
        · subst hsu
          have hdown : b = false := by
            simpa [flag?, queue?, List.find?_append, StreamQueue.new,
              show x.queues.find? _ = none from hnone,
              eq_comm] using hu
          exact .inl ⟨.inr hregisters, hdown⟩
        · rw [flag?, queue?_register rfl hsu] at hu
          exact .inr ⟨rfl, by rw [hregisters]; simpa using Ne.symm hsu, hu⟩
      · rw [hregisters] at hu
        rwa [← Option.some.inj hu]

theorem endStream_remarks {place : Nat} {move : Move H}
    (h : x.perform c (.endStream place) = .moves move) :
    Remarks ⟨x, .endStream place, move.result⟩ move.presentation := by
  have hfails : ∀ e : MediaError, Remarks ⟨x, .endStream place, some (.error e)⟩ x := fun e =>
    .of_kept rfl rfl rfl rfl fun _ _ h => h
  simp only [perform, throughHandle] at h
  split at h
  · rename_i stream _ hstream
    split at h
    · cases h
      exact hfails _
    · rename_i y hy
      obtain ⟨pre, q, post, hsplit, hpre, hid, rfl⟩ := endStream_eq_ok hy
      cases h
      have hconcludes : Report.concludes? (⟨x, .endStream place, some (.ok ())⟩ : Report H) =
          some stream.id := by
        simp [Report.concludes?, numberAt?, hstream, Except.isOk, Except.toBool]
      refine ⟨by rw [hconcludes]; rfl, fun u b hu => ?_, fun u hu => by cases hu⟩
      rw [hconcludes]
      by_cases hsu : u = stream.id
      · subst hsu
        rw [flag?, queue?_of_split (q := { q with eos := true }) rfl hid hpre] at hu
        exact .inl ⟨rfl, by simpa using hu.symm⟩
      · rw [flag?, queue?_revise hsplit
          (show _ = pre ++ { q with eos := true } :: post from rfl) rfl (hid ▸ hsu)] at hu
        exact .inr ⟨by simpa using Ne.symm hsu, .inr ⟨rfl, by simp [Report.registers?], hu⟩⟩
  · cases h
    exact hfails _

theorem clearQueues_remarks {result : Option (Except MediaError Unit)} :
    Remarks ⟨x, .clearQueues, result⟩ x.clearQueues where
  eos := rfl
  flag s b h := by
    rw [flag?_clear] at h
    obtain ⟨q, -, hb⟩ := Option.map_eq_some_iff.mp h
    exact .inr ⟨by simp [Report.concludes?], .inl ⟨.inl rfl, hb.symm⟩⟩
  fresh s h := by cases h

theorem setFormat_remarks {place : Nat} {decoder : Option String} {media : MediaType}
    {move : Move H} (h : x.perform c (.setFormat place decoder media) = .moves move) :
    Remarks ⟨x, .setFormat place decoder media, move.result⟩ move.presentation := by
  simp only [perform] at h
  rcases throughHandle_number h with ⟨s, -, hmove⟩ | hsame
  · split at hmove
    · cases hmove
      exact .of_other rfl rfl fun _ _ h => h
    · rename_i y hy
      obtain ⟨pre, q, post, hsplit, -, -, rfl⟩ := configure_eq_ok hy
      cases hmove
      exact .of_other rfl rfl fun s b hb => flag?_of_revise hb hsplit rfl rfl rfl
  · rw [hsame]
    exact .of_other rfl rfl fun _ _ h => h

/-- Beside the three that are about the flags and a negotiation, no call changes a queue
in its flag. -/
theorem Conduct.flags_kept {move : Move H} (h : Conduct c x task (.moves move))
    (hother : task.isFlagging = false)
    (hformat : ∀ place decoder media, task ≠ .setFormat place decoder media) :
    move.presentation.eos = x.eos ∧ ∀ s b, move.presentation.flag? s = some b →
      x.flag? s = some b := by
  generalize ho : Outcome.moves move = o at h
  cases h with
  | waits => cases ho
  | plain _ _ hkept | releaseDecoder hkept | decode hkept =>
      cases ho
      exact ⟨hkept.eos, fun s b hb => (flag?_eq hkept.queues s).symm.trans hb⟩
  | enqueue hsplit =>
      cases ho
      exact ⟨rfl, fun s b hb => flag?_of_revise hb hsplit rfl rfl rfl⟩
  | detachStream =>
      cases ho
      exact ⟨rfl, fun s b hb => flag?_detach rfl hb⟩
  | detachStreams | reclaim =>
      cases ho
      exact ⟨rfl, fun s b hb => by simp [flag?, queue?] at hb⟩
  | setFormat => exact absurd rfl (hformat _ _ _)
  | createStream | endStream | clearQueues => cases hother
  | _ =>
      cases ho
      exact ⟨rfl, fun s b hb => hb⟩

theorem afterRelease_remarks {pacing : Pacing} {r : Schedule.Release H.Receiver}
    {effects : List (Effect H)}
    {result : Option (Except MediaError Unit)} (hother : task.isFlagging = false)
    (h : x.select c pacing = (some r, effects)) : Remarks ⟨x, task, result⟩ (x.afterRelease r) := by
  obtain ⟨pre, q, post, sample, rest, hx, -, -, hqueues⟩ := select_eq_some h
  exact .of_other hother rfl fun s b hb => flag?_of_revise hb hx hqueues rfl rfl

theorem Remarks.of_advance {s : Standing H} {effects : List (Effect H)} {s? : Option (Standing H)}
    {result : Option (Except MediaError Unit)} (h : Advance c x s y effects s?) :
    Remarks ⟨x, s.duty, result⟩ y := by
  have hother : s.duty.isFlagging = false := by cases s <;> rfl
  cases h with
  | choose hselect => exact afterRelease_remarks hother hselect
  | drain hselect => exact afterRelease_remarks hother hselect
  | frame =>
      rw [beginFrame_snd]
      exact .of_other hother rfl fun _ _ h => h
  | _ => exact .of_other hother rfl fun _ _ h => h

theorem perform_remarks {move : Move H} {live : List StreamId} (hx : x.Tables live)
    (h : x.perform c task = .moves move) : Remarks ⟨x, task, move.result⟩ move.presentation := by
  cases perform_feat h with
  | aside _ _ hconduct =>
      cases task with
      | createStream s => exact createStream_remarks hx h
      | endStream place => exact endStream_remarks h
      | clearQueues =>
          cases h
          exact clearQueues_remarks
      | setFormat place decoder media => exact setFormat_remarks h
      | _ =>
          obtain ⟨heos, hflag⟩ := Conduct.flags_kept hconduct rfl (by simp)
          exact .of_other rfl heos hflag
  | duty hadv => exact .of_advance hadv
  | tick hselect => exact afterRelease_remarks rfl hselect
  | start | nothing | offer => exact .of_other rfl rfl fun _ _ h => h

theorem Remarks.of_unwinds {result : Option (Except MediaError Unit)}
    (h : x.perform c task = .unwinds) :
    Remarks ⟨x, task, result⟩ (x.enter .stopped) := by
  refine .of_other ?_ rfl fun _ _ h => h
  cases task with
  | createStream s =>
      simp only [perform] at h
      split at h <;> cases h
  | endStream place =>
      simp only [perform, throughHandle] at h
      split at h
      · split at h <;> cases h
      · cases h
  | clearQueues => cases h
  | _ => rfl

end Presentation

/-! ## All that was done -/

namespace Report

/-- A stream was ended, and the queues were not cleared since. -/
def SomeEnded (reports : List (Report H)) : Prop :=
  Since (fun e => e.concludes?.isSome = true) (fun e => e.flushes = true) reports

/-- The stream with this number was ended, and since then the queues were not cleared and no stream
was registered under the number. -/
def Ended (s : StreamId) (reports : List (Report H)) : Prop :=
  Since (fun e => e.concludes? = some s) (fun e => e.flushes = true ∨ e.registers? = some s) reports

theorem Ended.someEnded {s : StreamId} {reports : List (Report H)} (h : Ended s reports) :
    SomeEnded reports :=
  h.mono (fun e he => by rw [he]; rfl) fun _ he => .inl he

end Report

/-- What has been done decides the flags. -/
structure Explained (reports : List (Report H)) (x : Presentation H) : Prop where
  eos : x.eos = true ↔ Report.SomeEnded reports
  flag : ∀ s b, x.flag? s = some b → (b = true ↔ Report.Ended s reports)

namespace Explained

variable {reports : List (Report H)} {e : Report H} {x y : Presentation H}

theorem nil (id : PresentationId) : Explained [] (.new id : Presentation H) where
  eos := iff_of_false (by simp [Presentation.new]) Since.not_nil
  flag s b h := by simp [Presentation.flag?, Presentation.queue?, Presentation.new] at h

theorem snoc (h : Explained reports e.before) (hremarks : Presentation.Remarks e y) :
    Explained (reports ++ [e]) y where
  eos := by
    rw [hremarks.eos, Report.SomeEnded, Since.snoc_iff, Bool.or_eq_true, Bool.and_eq_true, h.eos]
    simp [Report.SomeEnded]
  flag s b hb := by
    rw [Report.Ended, Since.snoc_iff]
    rcases hremarks.flag s b hb with
      ⟨hended, rfl⟩ | ⟨hother, ⟨hbreaks, rfl⟩ | ⟨hflushes, hregisters, hbefore⟩⟩
    · simp [hended]
    · simp [hother, hbreaks]
    · simpa [hother, hflushes, hregisters, Report.Ended] using h.flag s b hbefore

end Explained

structure Presentation.FlagsTell (x : Presentation H) (reports : List (Report H)) : Prop where
  presentation : x.eos = true ↔ Report.SomeEnded reports
  stream : ∀ s, (x.queue? s).isSome → (x.streamEos s = true ↔ Report.Ended s reports)
  implied : ∀ s, x.streamEos s = true → x.eos = true

/-- A flag stays as it is if nothing is done to the presentation, and also if something is done that
is not the end of the stream, or of any stream for the presentation's own flag, and does not clear
the queues. -/
structure Presentation.KeepsFlags (x : Presentation H) (e? : Option (Report H))
    (y : Presentation H) : Prop where
  presentation : (∀ e ∈ e?, e.concludes? = none ∧ e.flushes = false) → y.eos = x.eos
  stream : ∀ s, (∀ e ∈ e?, e.concludes? ≠ some s ∧ e.flushes = false) → (x.queue? s).isSome →
    (y.queue? s).isSome → y.streamEos s = x.streamEos s

namespace Presentation

variable {x y : Presentation H} {e : Report H} {s : StreamId}

theorem flag?_of_isSome (h : (x.queue? s).isSome) : x.flag? s = some (x.streamEos s) := by
  obtain ⟨q, hq⟩ := Option.isSome_iff_exists.mp h
  simp [flag?, streamEos, hq]

theorem isSome_of_streamEos (h : x.streamEos s = true) : (x.queue? s).isSome := by
  cases hq : x.queue? s with
  | some q => rfl
  | none => simp [streamEos, hq] at h

theorem flagsTell_of_explained {reports : List (Report H)} (h : Explained reports x) :
    x.FlagsTell reports where
  presentation := h.eos
  stream s hs := h.flag s _ (flag?_of_isSome hs)
  implied s hs :=
    h.eos.mpr ((h.flag s _ (flag?_of_isSome (isSome_of_streamEos hs))).mp hs).someEnded

theorem KeepsFlags.refl (x : Presentation H) (e? : Option (Report H)) : x.KeepsFlags e? x :=
  ⟨fun _ => rfl, fun _ _ _ _ => rfl⟩

theorem keepsFlags_of_remarks (h : Remarks e y) : e.before.KeepsFlags (some e) y where
  presentation hkept := by
    obtain ⟨hconcludes, hflushes⟩ := hkept e rfl
    simp [h.eos, hconcludes, hflushes]
  stream s hkept hs hs' := by
    obtain ⟨hconcludes, hflushes⟩ := hkept e rfl
    rcases h.flag s _ (flag?_of_isSome hs') with ⟨hended, -⟩ | ⟨-, ⟨hbreaks, -⟩ | ⟨-, -, hbefore⟩⟩
    · exact absurd hended hconcludes
    · rcases hbreaks with hflush | hregister
      · simp [hflushes] at hflush
      · simp [h.fresh s hregister] at hs
    · rw [flag?_of_isSome hs] at hbefore
      exact (Option.some.inj hbefore).symm

end Presentation

/-! ## Any order of tasks -/

namespace Chronicle

def report? (w : Chronicle H) (c : Surroundings H) (task : Task H) : Option (Report H) :=
  match w.presentation.perform c task with
  | .moves move => some ⟨w.presentation, task, move.result⟩
  | .waits => none
  | .unwinds => some ⟨w.presentation, task, none⟩

def reports (w : Chronicle H) : List (Surroundings H × Task H) → List (Report H)
  | [] => []
  | (c, task) :: tasks => (w.report? c task).toList ++ (w.record c task).reports tasks

theorem reports_snoc (w : Chronicle H) (tasks : List (Surroundings H × Task H)) (c : Surroundings H)
    (task : Task H) :
    w.reports (tasks ++ [(c, task)])
      = w.reports tasks ++
        ((tasks.foldl (fun w (c, task) => w.record c task) w).report? c task).toList := by
  induction tasks generalizing w with
  | nil => simp [reports]
  | cons first tasks ih => simp [reports, ih]

theorem record_remarks {w : Chronicle H} {live : List StreamId} (hlive : w.presentation.Tables live)
    (c : Surroundings H) (task : Task H) :
    match w.report? c task with
    | none => (w.record c task).presentation = w.presentation
    | some e =>
        e.before = w.presentation ∧ Presentation.Remarks e (w.record c task).presentation := by
  unfold report? record
  cases hperform : w.presentation.perform c task with
  | moves move => exact ⟨rfl, Presentation.perform_remarks hlive hperform⟩
  | waits => rfl
  | unwinds => exact ⟨rfl, .of_unwinds hperform⟩

theorem keepsFlags {w : Chronicle H} {live : List StreamId} (hlive : w.presentation.Tables live)
    (c : Surroundings H) (task : Task H) :
    w.presentation.KeepsFlags (w.report? c task) (w.record c task).presentation := by
  have hremarks := record_remarks hlive c task
  split at hremarks
  · rw [hremarks]
    exact .refl _ _
  · rename_i e he
    rw [he, ← hremarks.1]
    exact Presentation.keepsFlags_of_remarks hremarks.2

theorem explained (id : PresentationId) (tasks : List (Surroundings H × Task H)) :
    Explained (reports ⟨.new id, []⟩ tasks) (of id tasks).presentation := by
  induction tasks using List.reverseRecOn with
  | nil => exact .nil id
  | append_singleton tasks task ih =>
      obtain ⟨c, task⟩ := task
      have hremarks := record_remarks (of_tables id tasks) c task
      rw [reports_snoc, of, List.foldl_append]
      simp only [of, List.foldl_cons, List.foldl_nil] at hremarks ih ⊢
      split at hremarks
      · rename_i hnone
        simpa [hnone, hremarks] using ih
      · rename_i e he
        rw [← hremarks.1] at ih
        simpa [he] using ih.snoc hremarks.2

end Chronicle

/-! ## Runs -/

def Transition.report? (t : Transition H) (p : Key) : Option (Report H) :=
  (t.doing? p).map fun (_, deed) => ⟨deed.before, deed.task, t.progress.result⟩

def Run.reports (r : Run H) (p : Key) : List (Report H) :=
  r.trace.filterMap (·.report? p)

theorem Run.reports_extend (r : Run H) (p : Key) (action : Action H) (progress : Progress H) :
    (r.extend action progress).reports p
      = r.reports p ++ (Transition.report? ⟨r.final, action, progress⟩ p).toList := by
  simp only [reports, extend, List.filterMap_append, List.filterMap_cons, List.filterMap_nil]
  cases Transition.report? ⟨r.final, action, progress⟩ p <;> rfl

theorem Turn.still_of_report? {m : Machine H} {p : Key} {crew crew' : Crew H} {action : Action H}
    {progress : Progress H} {x : Presentation H}
    (h : Turn m progress.machine p crew (Transition.doing? p ⟨m, action, progress⟩) crew')
    (hreport : Transition.report? ⟨m, action, progress⟩ p = none)
    (hx : m.presentations[p]? = some x) :
    progress.machine.presentations[p]? = some x := by
  rw [Option.map_eq_none_iff.mp hreport] at h
  exact (h.still hx).1

namespace Crewed

variable {m : Machine H} {p : Key} {crew : Crew H} {action : Action H} {progress : Progress H}
  {live : List StreamId} {e : Report H}

/-- What is done to a presentation makes of the flags what its report says. -/
theorem remarks (h : Crewed m p crew) (hplay : m.play action = some progress)
    (hlive : ∀ x, m.presentations[p]? = some x → x.Tables live)
    (hreport : Transition.report? ⟨m, action, progress⟩ p = some e) :
    m.presentations[p]? = some e.before ∧
      ∃ y, progress.machine.presentations[p]? = some y ∧ Presentation.Remarks e y := by
  obtain ⟨⟨a, deed⟩, hdoing, rfl⟩ := Option.map_eq_some_iff.mp hreport
  obtain ⟨answers, rest, rfl, hstack, hx, ⟨move, hmove, rfl, -⟩ | ⟨hunwinds, rfl, -⟩⟩ :=
    Transition.perform_of_doing hplay hdoing
  · exact ⟨hx, _, presentation_after hx, Presentation.perform_remarks (hlive _ hx) hmove⟩
  · obtain ⟨rfl, -, hwhole, -⟩ := h.duties_of_unwinds hstack hunwinds
    exact ⟨hx, _, (h.unwind_own hx hwhole (by simp [Crew.of])).2, .of_unwinds hunwinds⟩

theorem keepsFlags {crew' : Crew H} {x y : Presentation H} (h : Crewed m p crew)
    (hplay : m.play action = some progress)
    (hturn : Turn m progress.machine p crew (Transition.doing? p ⟨m, action, progress⟩) crew')
    (hlive : ∀ x, m.presentations[p]? = some x → x.Tables live) (hx : m.presentations[p]? = some x)
    (hy : progress.machine.presentations[p]? = some y) :
    x.KeepsFlags (Transition.report? ⟨m, action, progress⟩ p) y := by
  cases hreport : Transition.report? ⟨m, action, progress⟩ p with
  | none =>
      obtain rfl := Option.some.inj ((hturn.still_of_report? hreport hx).symm.trans hy)
      exact .refl x none
  | some e =>
      obtain ⟨hbefore, z, hz, hremarks⟩ := h.remarks hplay hlive hreport
      obtain rfl := Option.some.inj (hx.symm.trans hbefore)
      obtain rfl := Option.some.inj (hy.symm.trans hz)
      exact Presentation.keepsFlags_of_remarks hremarks

end Crewed

namespace Run

/-- What has been done to a presentation decides its flags, and nothing has been done to one that
does not exist. -/
def Told (r : Run H) (p : Key) : Prop :=
  match r.final.presentations[p]? with
  | none => r.reports p = []
  | some x => Explained (r.reports p) x

theorem Told.next {r : Run H} {p : Key} {action : Action H} {progress : Progress H}
    {crew crew' : Crew H} (h : r.Told p) (htabled : r.Tabled p) (hcrew : Crewed r.final p crew)
    (hplay : r.final.play action = some progress)
    (hturn : Turn r.final progress.machine p crew
      (Transition.doing? p ⟨r.final, action, progress⟩) crew') :
    (r.extend action progress).Told p := by
  unfold Told at h ⊢
  rw [reports_extend]
  cases hx : r.final.presentations[p]? with
  | none =>
      rw [hx] at h
      obtain ⟨hdoing, -, hstill | ⟨id, hnew⟩⟩ := hturn.absent hx
      · have hreport : Transition.report? ⟨r.final, action, progress⟩ p = none := by
          rw [Transition.report?, hdoing, Option.map_none]
        simp only [show (r.extend action progress).final.presentations[p]? = none from hstill,
          hreport, h]
        rfl
      · have hreport : Transition.report? ⟨r.final, action, progress⟩ p = none := by
          rw [Transition.report?, hdoing, Option.map_none]
        simp only [show (r.extend action progress).final.presentations[p]? = some (.new id) from
          hnew, hreport, h]
        exact .nil id
  | some x =>
      rw [hx] at h
      cases hreport : Transition.report? ⟨r.final, action, progress⟩ p with
      | none =>
          have hsame := hturn.still_of_report? hreport hx
          simpa [show (r.extend action progress).final.presentations[p]? = some x from hsame] using
            h
      | some e =>
          obtain ⟨hbefore, y, hy, hremarks⟩ := hcrew.remarks hplay (fun _ => htabled.tables) hreport
          obtain rfl := Option.some.inj (hx.symm.trans hbefore)
          simpa [show (r.extend action progress).final.presentations[p]? = some y from hy] using
            h.snoc hremarks

end Run

namespace Machine

theorem run_told (config : Config) (decoders : DecoderBackends H.Codec)
    (outputs : AudioBackends H.Output) (actions : List (Action H)) (p : Key) :
    ((initial config decoders outputs).run actions).Told p ∧
      ((initial config decoders outputs).run actions).Tabled p := by
  obtain ⟨crew, -, htold⟩ := run_turns (P := fun r _ => r.Told p ∧ r.Tabled p)
    (initial config decoders outputs) (fun q => ⟨none, .initial config decoders outputs q⟩)
    (.initial config decoders outputs p) ⟨rfl, rfl⟩
    (fun _ _ _ _ _ hcrew h hplay _ hturn =>
      ⟨h.1.next h.2 hcrew hplay hturn, h.2.next hcrew hplay hturn⟩) actions
  exact htold

/-- At the end of every run the flags of a presentation tell what was done to it, and each
transition leaves a flag alone unless it ends a stream or clears the queues; and so it is whatever
is done to a presentation by anyone in any order. -/
theorem flags_tell (config : Config) (decoders : DecoderBackends H.Codec)
    (outputs : AudioBackends H.Output) (actions : List (Action H)) (p : Key) :
    (∀ x, ((initial config decoders outputs).run actions).final.presentations[p]? = some x →
      x.FlagsTell (((initial config decoders outputs).run actions).reports p)) ∧
    (∀ past t after x y, ((initial config decoders outputs).run actions).trace =
      past ++ t :: after →
      t.before.presentations[p]? = some x → t.progress.machine.presentations[p]? = some y →
        x.KeepsFlags (t.report? p) y) ∧
    ∀ (id : PresentationId) (tasks : List (Surroundings H × Task H)),
      (Chronicle.of id tasks).presentation.FlagsTell (Chronicle.reports ⟨.new id, []⟩ tasks) ∧
        ∀ c task, (Chronicle.of id tasks).presentation.KeepsFlags
          ((Chronicle.of id tasks).report? c task)
          ((Chronicle.of id tasks).record c task).presentation := by
  refine ⟨fun x hx => ?_, fun past t after x y htrace hx hy => ?_,
    fun id tasks => ⟨?_, fun c task => ?_⟩⟩
  · have htold := (run_told config decoders outputs actions p).1
    rw [Run.Told, hx] at htold
    exact Presentation.flagsTell_of_explained htold
  · obtain ⟨hplay, crew, crew', hcrew, hturn⟩ := turn_of_trace htrace p
    exact hcrew.keepsFlags hplay hturn (fun _ => tables_of_trace htrace) hx hy
  · exact Presentation.flagsTell_of_explained (Chronicle.explained id tasks)
  · exact Chronicle.keepsFlags (Chronicle.of_tables id tasks) c task

open Playout.Action in
/-- A stream is ended and removed, and another one is registered under its number. -/
def endedThenRenewed : List (Action .plain) :=
  prepared (.video .unknown 4 4) [] ++ calling 0 (.endStream ⟨0, 0⟩) 1 ++
    calling 0 (.removeStream 0 1) 4
    ++ calling 0 (.createStream 0 1) 1

theorem endedThenRenewed_flags :
    ∃ x, (plain.run endedThenRenewed).final.presentations[0]? = some x ∧
    x.FlagsTell ((plain.run endedThenRenewed).reports 0) ∧ x.eos = true ∧ (x.queue? 1).isSome ∧
      x.streamEos 1 = false := by
  have hflags : (plain.run endedThenRenewed).final.presentations[0]?.any fun x =>
      x.eos && (x.queue? 1).isSome && !x.streamEos 1 := by decide +kernel
  obtain ⟨x, hx, hall⟩ := (Option.any_eq_true _ _).mp hflags
  simp only [Bool.and_eq_true, Bool.not_eq_true'] at hall
  exact ⟨x, hx, (flags_tell _ _ _ endedThenRenewed 0).1 x hx, hall.1.1, hall.1.2, hall.2⟩

end Machine

end Playout
