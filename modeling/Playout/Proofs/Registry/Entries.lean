import Playout.Proofs.Lifecycle.Request
import Playout.Proofs.Presentation.Tables

/-!
# The entries of the registry

The registry is a table from the ids of presentations to their keys. An id is entered when a
presentation is created under it, and struck out when the presentation is removed; nothing else
changes the registry. So there is never more than one entry for an id, and what is found under an id
is the presentation that was created last under it, unless it was removed since. No key is given
twice, so no two ids lead to the same presentation.
-/

namespace Playout

variable {H : Platform}

def Job.removes? : Job H → Option PresentationId
  | .remove id => some id
  | .removeEach (id :: _) => some id
  | _ => none

namespace Transition

def job? (t : Transition H) : Option (ActorId × Job H) :=
  match t.action with
  | .step a _ => (t.before.stack a).head?.map (a, ·)
  | _ => none

def creates? (t : Transition H) : Option (PresentationId × Key) :=
  match t.job? with
  | some (_, .create id) =>
    if t.progress.result.any (·.isOk) then some (id, t.before.presentations.length) else none
  | _ => none

def removes (t : Transition H) (id : PresentationId) : Bool :=
  t.job?.bind (·.2.removes?) == some id

/-- What is found under an id after a transition, by what was found before. -/
def enter (id : PresentationId) (old : Option Key) (t : Transition H) : Option Key :=
  match t.creates? with
  | some (other, p) => if other = id then some p else old
  | none => if t.removes id then none else old

/-- The presentation that was created last under an id, if it was not removed since. -/
def lastCreated (trace : List (Transition H)) (id : PresentationId) : Option Key :=
  trace.foldl (enter id) none

theorem lastCreated_snoc (trace : List (Transition H)) (t : Transition H) (id : PresentationId) :
    lastCreated (trace ++ [t]) id = t.enter id (lastCreated trace id) := by
  simp [lastCreated]

end Transition

/-! ## What a transition does to the registry -/

namespace Machine

variable {m : Machine H} {a : ActorId} {answers : Answers H} {rest : List (Job H)} {q : Key}
  {task : Task H}
  {progress : Progress H}

theorem perform_at_frame (h : m.perform a answers rest (.at q task) = some progress) :
    progress.machine.registry = m.registry ∧
      progress.machine.presentations.length = m.presentations.length := by
  simp only [perform] at h
  split at h
  · cases h
    exact ⟨rfl, rfl⟩
  · split at h
    · cases h
      simp [after, setStack]
    · cases h
    · cases h
      exact ⟨rfl, m.length_unwind a⟩

/-- An actor that does a task of a presentation stays at the presentation, or goes on
with the rest. -/
theorem stack_perform_at (ha : a < m.actors.length)
    (h : m.perform a answers rest (.at q task) = some progress) :
    ∀ job ∈ progress.machine.stack a, (∃ t, job = .at q t) ∨ job ∈ rest := by
  simp only [perform] at h
  split at h
  · cases h
    rw [stack_setStack_self ha]
    exact fun job hmem => .inr hmem
  · split at h
    · cases h
      rw [stack_after_self ha]
      intro job hmem
      rcases List.mem_append.mp hmem with hnew | hold
      · obtain ⟨t, -, rfl⟩ := List.mem_map.mp hnew
        exact .inl ⟨t, rfl⟩
      · exact .inr hold
    · cases h
    · cases h
      have hnil : (m.unwind a).stack a = [] := stack_setStack_self ha
      simp [hnil]

theorem find?_eq_none_iff {id : PresentationId} : m.find? id = none ↔ id ∉ m.ids := by
  rw [find?, List.lookup_eq_none_iff]
  simp only [ids, List.mem_map, not_exists, not_and]
  exact forall₂_congr fun entry _ => bne_iff_ne.trans ne_comm

theorem find?_isSome_iff {id : PresentationId} : (m.find? id).isSome ↔ id ∈ m.ids := by
  rw [Option.isSome_iff_ne_none, ne_eq, find?_eq_none_iff, not_not]

/-- Where nothing is registered under an id, nothing is struck out. -/
theorem filter_registry_of_absent {id : PresentationId} (h : m.find? id = none) :
    m.registry.filter (·.1 != id) = m.registry := by
  refine List.filter_eq_self.mpr fun entry hmem => ?_
  have hnot := find?_eq_none_iff.mp h
  simpa using fun heq : entry.1 = id => hnot (heq ▸ List.mem_map_of_mem hmem)

theorem perform_removes {job : Job H} {id : PresentationId} (hjob : job.removes? = some id)
    (h : m.perform a answers rest job = some progress) :
    progress.machine.registry = m.registry.filter (·.1 != id) ∧
      progress.machine.presentations = m.presentations := by
  cases job with
  | remove other =>
      cases hjob
      simp only [perform] at h
      split at h
      · rename_i hnone
        cases h
        exact ⟨(filter_registry_of_absent hnone).symm, rfl⟩
      · cases h
        exact ⟨rfl, rfl⟩
  | removeEach ids =>
      cases ids with
      | nil => cases hjob
      | cons other ids =>
          cases hjob
          simp only [perform] at h
          split at h
          · rename_i hnone
            cases h
            exact ⟨(filter_registry_of_absent hnone).symm, rfl⟩
          · cases h
            exact ⟨rfl, rfl⟩
  | _ => cases hjob

end Machine

/-- What a transition does to the registry: someone creates a presentation, or removes the one that
has some id, or does something else. -/
inductive Reregisters (t : Transition H) : Prop where
  | create {id} : t.before.find? id = none → t.creates? = some (id, t.before.presentations.length) →
      t.progress.machine.registry = t.before.registry ++ [(id, t.before.presentations.length)] →
      t.progress.machine.presentations = t.before.presentations ++ [.new id] → Reregisters t
  | remove {id} : t.creates? = none → (∀ other, t.removes other = (id == other)) →
      t.progress.machine.registry = t.before.registry.filter (·.1 != id) →
      t.progress.machine.presentations.length = t.before.presentations.length → Reregisters t
  | keep : t.creates? = none → (∀ id, t.removes id = false) →
      t.progress.machine.registry = t.before.registry →
      t.progress.machine.presentations.length = t.before.presentations.length → Reregisters t

namespace Reregisters

variable {m : Machine H} {action : Action H} {progress : Progress H}

theorem of_step {a : ActorId} {answers : Answers H} {job : Job H} {rest : List (Job H)}
    (hstack : m.stack a = job :: rest) (hstep : m.perform a answers rest job = some progress) :
    Reregisters ⟨m, .step a answers, progress⟩ := by
  have hjob : Transition.job? ⟨m, .step a answers, progress⟩ = some (a, job) := by
    simp [Transition.job?, hstack]
  have hremoves : ∀ id, Transition.removes ⟨m, .step a answers, progress⟩ id =
      (job.removes? == some id) := by
    simp [Transition.removes, hjob]
  cases hid : job.removes? with
  | some id =>
      obtain ⟨hregistry, hpresentations⟩ := Machine.perform_removes hid hstep
      refine .remove ?_ (fun other => by simp [hremoves, hid]) hregistry
        (congrArg List.length hpresentations)
      cases job <;> simp_all [Transition.creates?, Job.removes?]
  | none =>
      have hkeeps : ∀ id, Transition.removes ⟨m, .step a answers, progress⟩ id = false := by
        simp [hremoves, hid]
      cases job with
      | «at» q task =>
          obtain ⟨hregistry, hlength⟩ := Machine.perform_at_frame hstep
          exact .keep (by simp [Transition.creates?, hjob]) hkeeps hregistry hlength
      | create id =>
          simp only [Machine.perform] at hstep
          cases hfind : m.find? id with
          | some p =>
              rw [hfind] at hstep
              cases hstep
              exact .keep (by simp [Transition.creates?, hjob, Except.isOk, Except.toBool]) hkeeps
                rfl rfl
          | none =>
              rw [hfind] at hstep
              cases hstep
              exact .create hfind (by simp [Transition.creates?, hjob, Except.isOk, Except.toBool])
                rfl rfl
      | remove id => cases hid
      | shutdown =>
          cases hstep
          exact .keep (by simp [Transition.creates?, hjob]) hkeeps rfl rfl
      | removeEach ids =>
          cases ids with
          | nil =>
              cases hstep
              exact .keep (by simp [Transition.creates?, hjob]) hkeeps rfl rfl
          | cons id ids => cases hid

theorem of_play (hplay : m.play action = some progress) : Reregisters ⟨m, action, progress⟩ := by
  cases action with
  | call a c =>
      simp only [Machine.play, Option.ite_none_right_eq_some, Option.some.injEq] at hplay
      rw [← hplay.2]
      exact .keep rfl (fun _ => rfl) rfl rfl
  | reclaim a p =>
      simp only [Machine.play, Option.ite_none_right_eq_some, Option.some.injEq] at hplay
      rw [← hplay.2]
      exact .keep rfl (fun _ => rfl) rfl rfl
  | addHost =>
      cases hplay
      exact .keep rfl (fun _ => rfl) rfl rfl
  | step a answers =>
      simp only [Machine.play, Machine.step] at hplay
      split at hplay
      · cases hplay
      · rename_i job rest hstack
        exact of_step hstack hplay

end Reregisters

/-! ## The registry as a map -/

/-- The registry is this map. Each entry leads to a presentation, and no two to the same one. -/
structure Machine.Maps (m : Machine H) (f : PresentationId → Option Key) : Prop where
  find : ∀ id, m.find? id = f id
  distinct : m.ids.Nodup
  apart : (m.registry.map (·.2)).Nodup
  known : ∀ p ∈ m.registry.map (·.2), p < m.presentations.length

namespace Machine.Maps

variable {m m' : Machine H} {f : PresentationId → Option Key} {t : Transition H}
  {id : PresentationId}

theorem get_eq (h : m.Maps f) (id : PresentationId) :
    m.get id = match f id with
      | some p => .ok p
      | none => .error (.presentationNotFound id) := by
  cases hid : f id <;> simp [get, h.find, hid]

theorem mem_ids (h : m.Maps f) (id : PresentationId) : id ∈ m.ids ↔ (f id).isSome := by
  rw [← find?_isSome_iff, h.find]

theorem size_eq (m : Machine H) : m.size = m.ids.length :=
  (List.length_map _).symm

/-- The presentations of different ids are different. -/
theorem inj (h : m.Maps f) {id other : PresentationId} {p : Key} (hid : f id = some p)
    (hother : f other = some p) :
    id = other := by
  rw [← h.find] at hid hother
  exact congrArg (·.1)
    (List.inj_on_of_nodup_map h.apart (mem_of_find? hid) (mem_of_find? hother) rfl)

theorem exists_of_find (h : m.Maps f) {id : PresentationId} {p : Key} (hid : f id = some p) :
    ∃ x, m.presentations[p]? = some x := by
  rw [← h.find] at hid
  exact ⟨_, List.getElem?_eq_getElem (h.known p (mem_registry_of_find? hid))⟩

theorem lookup_filter (entries : List (PresentationId × Key)) (id other : PresentationId) :
    (entries.filter (·.1 != id)).lookup other = if id = other then none
      else entries.lookup other := by
  induction entries with
  | nil => simp
  | cons entry entries ih =>
      obtain ⟨first, p⟩ := entry
      by_cases hfirst : first = id
      · subst hfirst
        simp only [List.filter_cons, bne_self_eq_false, Bool.false_eq_true, if_false, ih]
        split
        · rfl
        · rename_i hne
          rw [List.lookup_cons, beq_false_of_ne (Ne.symm hne)]
      · have hkeep : (first != id) = true := bne_iff_ne.mpr hfirst
        simp only [List.filter_cons, hkeep, if_true, List.lookup_cons, ih]
        by_cases hother : other = first
        · subst hother
          simp [Ne.symm hfirst]
        · simp [beq_false_of_ne hother]

theorem congr (h : m.Maps f) (hregistry : m'.registry = m.registry)
    (hlength : m'.presentations.length = m.presentations.length) : m'.Maps f where
  find id := by
    rw [← h.find, Machine.find?, hregistry]
    rfl
  distinct := by
    rw [Machine.ids, hregistry]
    exact h.distinct
  apart := hregistry ▸ h.apart
  known := by
    rw [hregistry, hlength]
    exact h.known

theorem create {x : Presentation H} (h : m.Maps f) (hfind : m.find? id = none)
    (hregistry : m'.registry = m.registry ++ [(id, m.presentations.length)])
    (hpresentations : m'.presentations = m.presentations ++ [x]) :
    m'.Maps fun other => if id = other then some m.presentations.length else f other where
  find other := by
    rw [Machine.find?, hregistry, List.lookup_append]
    by_cases hother : id = other
    · subst hother
      rw [Machine.find?] at hfind
      simp [hfind]
    · have hold := h.find other
      rw [Machine.find?] at hold
      simp [hold, hother, List.lookup_cons, beq_false_of_ne (Ne.symm hother)]
  distinct := by
    rw [Machine.ids, hregistry, List.map_append]
    refine List.nodup_append.mpr ⟨h.distinct, by simp, ?_⟩
    rintro other hmem same hsame rfl
    rw [List.mem_singleton.mp hsame] at hmem
    exact Machine.find?_eq_none_iff.mp hfind hmem
  apart := by
    -- the key is the number of presentations, and the keys of all entries are smaller
    rw [hregistry, List.map_append]
    refine List.nodup_append.mpr ⟨h.apart, by simp, ?_⟩
    rintro p hp same hsame rfl
    exact Nat.ne_of_lt (h.known p hp) (List.mem_singleton.mp hsame)
  known p hp := by
    rw [hpresentations, List.length_append]
    rw [hregistry, List.map_append] at hp
    rcases List.mem_append.mp hp with hold | hnew
    · exact Nat.lt_add_right _ (h.known p hold)
    · rw [List.mem_singleton.mp hnew]
      exact Nat.lt_add_one _

theorem remove (h : m.Maps f) (hregistry : m'.registry = m.registry.filter (·.1 != id))
    (hlength : m'.presentations.length = m.presentations.length) :
    m'.Maps fun other => if id = other then none else f other where
  find other := by
    rw [Machine.find?, hregistry, lookup_filter, ← h.find]
    rfl
  distinct := by
    rw [Machine.ids, hregistry]
    exact h.distinct.sublist (List.filter_sublist.map _)
  apart := by
    rw [hregistry]
    exact h.apart.sublist (List.filter_sublist.map _)
  known p hp := by
    rw [hlength]
    rw [hregistry] at hp
    exact h.known p ((List.filter_sublist.map _).subset hp)

/-- Every transition keeps the map, as its creation or its removal says. -/
theorem next (h : t.before.Maps f) (hstep : Reregisters t) :
    t.progress.machine.Maps fun id => t.enter id (f id) := by
  cases hstep with
  | create hfind hcreates hregistry hpresentations =>
      simp only [Transition.enter, hcreates]
      exact h.create hfind hregistry hpresentations
  | remove hcreates hremoves hregistry hlength =>
      simp only [Transition.enter, hcreates, hremoves, beq_iff_eq]
      exact h.remove hregistry hlength
  | keep hcreates hremoves hregistry hlength =>
      simp only [Transition.enter, hcreates, hremoves, Bool.false_eq_true, if_false]
      exact h.congr hregistry hlength

end Machine.Maps

theorem Machine.run_maps (config : Config) (decoders : DecoderBackends H.Codec)
    (outputs : AudioBackends H.Output) (actions : List (Action H)) :
    ((initial config decoders outputs).run actions).final.Maps
      (Transition.lastCreated ((initial config decoders outputs).run actions).trace) := by
  refine run_induction (P := fun r => r.final.Maps (Transition.lastCreated r.trace)) _ ?_ ?_ actions
  · exact ⟨fun _ => rfl, List.nodup_nil, List.nodup_nil, by simp [initial]⟩
  · intro r action progress hr hplay
    have hnext := Maps.next (t := ⟨r.final, action, progress⟩) hr (.of_play hplay)
    rwa [show Transition.lastCreated (r.extend action progress).trace =
      fun id => Transition.enter id (Transition.lastCreated r.trace id)
        ⟨r.final, action, progress⟩ from
        funext (Transition.lastCreated_snoc r.trace _)]

end Playout
