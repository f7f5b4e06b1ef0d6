import Playout.Proofs.Lifecycle.Halt
import Playout.Proofs.Registry.OneHost

/-!
# Teardown

A presentation that is removed is taken out of the registry first. Then it is stopped, its streams
are unregistered, and their decoders are released. A shutdown removes one presentation after the
other. When either returns to a host that makes one call after the other, nothing plays any more,
and nothing is left of the streams.
-/

namespace Playout

variable {H : Platform}

/-- Every presentation has a crew, and nobody else is in its slot but former threads. -/
def Machine.Staffed (m : Machine H) : Prop :=
  ∀ p, ∃ crew, Crewed m p crew ∧ Slotted m p crew

/-- Who has something to do, but no duties at the presentation, is not in the slot. -/
theorem Machine.Staffed.thread_ne {m : Machine H} {p : Key} {x : Presentation H} {a : ActorId}
    (h : m.Staffed) (hx : m.presentations[p]? = some x) (hbusy : m.stack a ≠ [])
    (hfree : ∀ job ∈ m.stack a, job.isDutyOf p = false) : x.lifecycle.thread ≠ some a := by
  obtain ⟨crew, hcrew, hslotted⟩ := h p
  refine hslotted.thread_ne hx hbusy ?_
  rintro s rfl
  have hnone := (hcrew.owes a).eq_none hfree
  simp [Crew.of] at hnone

/-! ## One presentation -/

/-- What is left of a presentation with certain streams: nothing plays, there are no streams, and
those that there were have no decoders. -/
structure Presentation.TornDown (before x : Presentation H) : Prop where
  idle : x.isRunning = false
  queues : x.queues = []
  handles : x.handles = []
  released : ∀ handle ∈ before.handles, x.boundDecoder? handle.2 = none

/-- What a stop does when it need not wait for the thread to stop any more. -/
def Task.isAftermath : Task H → Bool
  | .join _ => true
  | .repaint => true
  | .offer (.redraw _) => true
  | .callback => true
  | _ => false

inductive Tearing (before x : Presentation H) : List (Task H) → Prop where
  | begun : x.handles = before.handles → Tearing before x (Task.stop ++ [.detachStreams])
  | asked : x.handles = before.handles → Tearing before x [.inspectThread, .repaint, .detachStreams]
  | waits {thread} : x.handles = before.handles →
      Tearing before x [.awaitStopped thread, .repaint, .detachStreams]
  | stopped (tasks : List (Task H)) : x.handles = before.handles → x.isRunning = false →
      (∀ t ∈ tasks, t.isAftermath) → Tearing before x (tasks ++ [.detachStreams])
  | releases {places} : x.isRunning = false → x.queues = [] → x.handles = [] →
      (∀ handle ∈ before.handles, handle.2 ∈ places ∨ x.boundDecoder? handle.2 = none) →
      Tearing before x [.releaseDecoders places]
  | done : before.TornDown x → Tearing before x []

namespace Tearing

variable {before x y : Presentation H} {task : Task H} {tasks : List (Task H)} {c : Surroundings H}

theorem tornDown (h : Tearing before x []) : before.TornDown x := by
  generalize hnil : ([] : List (Task H)) = all at h
  cases h with
  | done htorn => exact htorn
  | stopped tasks => simp at hnil
  | _ => cases hnil

theorem spared (h : Tearing before x tasks) (hspares : x.Spares y) : Tearing before y tasks := by
  cases h with
  | begun hhandles => exact .begun (hspares.handles.trans hhandles)
  | asked hhandles => exact .asked (hspares.handles.trans hhandles)
  | waits hhandles => exact .waits (hspares.handles.trans hhandles)
  | stopped tasks hhandles hidle htasks =>
      rw [hspares.idle hidle]
      exact .stopped tasks hhandles hidle htasks
  | releases hidle hqueues hhandles hplaces =>
      rw [hspares.idle hidle]
      exact .releases hidle hqueues hhandles hplaces
  | done htorn =>
      rw [hspares.idle htorn.idle]
      exact .done htorn

theorem not_duty (h : Tearing before x tasks) : ∀ t ∈ tasks, t.isDuty = false := by
  cases h with
  | stopped tasks _ _ htasks =>
      intro t ht
      rcases List.mem_append.mp ht with hmem | hmem
      · have haftermath := htasks t hmem
        cases t with
        | offer event => cases event <;> first | rfl | cases haftermath
        | _ => first | rfl | cases haftermath
      · rw [List.mem_singleton.mp hmem]
        rfl
  | _ => simp [Task.stop, Task.isDuty]

/-- The presentation has been stopped, and what comes after that goes on. -/
theorem perform_aftermath (hhandles : x.handles = before.handles) (hidle : x.isRunning = false)
    (htask : task.isAftermath) (htasks : ∀ t ∈ tasks, t.isAftermath) :
    x.perform c task = .waits ∨ ∃ y next effects,
      x.perform c task = Presentation.going y next effects ∧
      Tearing before y (next ++ (tasks ++ [.detachStreams])) := by
  cases task with
  | join thread =>
      simp only [Presentation.perform]
      split
      · exact .inr ⟨x, [], [], rfl, .stopped tasks hhandles hidle htasks⟩
      · exact .inl rfl
  | repaint =>
      simp only [Presentation.perform, Presentation.takeLastRendered]
      split
      · exact .inr ⟨x, [], [], rfl, .stopped tasks hhandles hidle htasks⟩
      · refine .inr ⟨_, _, _, rfl, .stopped
          (.offer (.redraw x.lastRendered) :: tasks) hhandles hidle ?_⟩
        exact List.forall_mem_cons.mpr ⟨rfl, htasks⟩
  | offer event =>
      refine .inr ⟨x, [.callback], _, rfl, .stopped (.callback :: tasks) hhandles hidle ?_⟩
      exact List.forall_mem_cons.mpr ⟨rfl, htasks⟩
  | callback => exact .inr ⟨x, [], [], rfl, .stopped tasks hhandles hidle htasks⟩
  | _ => cases htask

/-- The host goes on with the teardown, or waits. It is never in the slot itself. -/
theorem perform (h : Tearing before x (task :: tasks))
    (hslot : x.lifecycle.thread ≠ some c.self) :
    x.perform c task = .waits ∨ ∃ y next effects,
      x.perform c task = Presentation.going y next effects ∧
      Tearing before y (next ++ tasks) := by
  generalize hall : task :: tasks = all at h
  cases h with
  | begun hhandles =>
      cases hall
      exact .inr ⟨_, _, _, rfl, .asked hhandles⟩
  | asked hhandles =>
      cases hall
      simp only [Presentation.perform]
      split
      · rename_i hown
        exact absurd (by simpa using hown) hslot
      · exact .inr ⟨_, _, _, rfl, .waits hhandles⟩
  | @waits thread hhandles =>
      cases hall
      simp only [Presentation.perform]
      split
      · exact .inl rfl
      · rename_i hidle
        refine .inr ⟨_, _, _, rfl, ?_⟩
        have hstopped : Tearing before x
            ((thread.toList.map .join ++ [.repaint]) ++ [.detachStreams]) :=
          .stopped _ hhandles (by simpa using hidle) (by cases thread <;> simp [Task.isAftermath])
        simpa using hstopped
  | stopped tasks' hhandles hidle htasks =>
      cases tasks' with
      | nil =>
          cases hall
          refine .inr ⟨_, _, _, rfl, .releases hidle rfl rfl fun handle hmem => .inl ?_⟩
          have hold : handle ∈ x.handles := hhandles ▸ hmem
          exact List.mem_map_of_mem hold
      | cons first tasks' =>
          cases hall
          obtain ⟨hfirst, htasks⟩ := List.forall_mem_cons.mp htasks
          exact perform_aftermath hhandles hidle hfirst htasks
  | @releases places hidle hqueues hhandles hplaces =>
      cases hall
      cases places with
      | nil =>
          refine .inr ⟨x, [], [], rfl, .done ⟨hidle, hqueues, hhandles, fun handle hmem => ?_⟩⟩
          exact (hplaces handle hmem).resolve_left List.not_mem_nil
      | cons place places =>
          refine .inr ⟨_, _, _, rfl, .releases hidle hqueues hhandles fun handle hmem => ?_⟩
          by_cases hplace : handle.2 = place
          · rw [hplace]
            exact .inr (Presentation.boundDecoder?_bindDecoder_none x place)
          · refine (hplaces handle hmem).imp (fun hin => ?_) fun hnone => ?_
            · exact (List.mem_cons.mp hin).resolve_left hplace
            · simpa [Presentation.boundDecoder?, Presentation.bindDecoder, Ne.symm hplace] using
                hnone
  | done => cases hall

end Tearing

/-! ## Several presentations -/

/-- Whatever was registered under some ids is being torn down, one presentation after the other. -/
structure Clears (first : Machine H) (target : PresentationId → Prop) (m : Machine H)
    (todo : List PresentationId) (current? : Option Key) : Prop where
  shrunk : ∀ id p, m.find? id = some p → first.find? id = some p
  within : ∀ id ∈ todo, target id
  listed : ∀ id p, target id → m.find? id = some p → id ∈ todo
  apart : ∀ id p, m.find? id = some p → current? ≠ some p
  waiting : ∀ id p x, target id → m.find? id = some p → first.presentations[p]? = some x →
    ∃ y, m.presentations[p]? = some y ∧ y.handles = x.handles
  torn : ∀ id p x, target id → first.find? id = some p → m.find? id = none → current? ≠ some p →
    first.presentations[p]? = some x → ∃ y, m.presentations[p]? = some y ∧ x.TornDown y

namespace Clears

variable {first m m' : Machine H} {target : PresentationId → Prop} {todo : List PresentationId}
  {id : PresentationId}
  {current? : Option Key} {p : Key} {x y : Presentation H}

theorem find?_congr (hregistry : m'.registry = m.registry) (id : PresentationId) :
    m'.find? id = m.find? id := by
  rw [Machine.find?, Machine.find?, hregistry]

theorem start (htarget : ∀ id ∈ todo, target id)
    (hlisted : ∀ id p, target id → first.find? id = some p → id ∈ todo) :
    Clears first target first todo none where
  shrunk _ _ h := h
  within := htarget
  listed := hlisted
  apart _ _ _ := by simp
  waiting id p x _ _ hx := ⟨x, hx, rfl⟩
  torn id p x _ hfind hnone := by
    rw [hfind] at hnone
    cases hnone

theorem spared (h : Clears first target m todo current?) (hregistry : m'.registry = m.registry)
    (hspares : ∀ (p : Key) (x : Presentation H), m.presentations[p]? = some x →
      ∃ y, m'.presentations[p]? = some y ∧ x.Spares y) :
    Clears first target m' todo current? where
  shrunk id p hfind := h.shrunk id p (find?_congr hregistry id ▸ hfind)
  within := h.within
  listed id p htarget hfind := h.listed id p htarget (find?_congr hregistry id ▸ hfind)
  apart id p hfind := h.apart id p (find?_congr hregistry id ▸ hfind)
  waiting id p x htarget hfind hx := by
    obtain ⟨y, hy, hhandles⟩ := h.waiting id p x htarget (find?_congr hregistry id ▸ hfind) hx
    obtain ⟨z, hz, hspared⟩ := hspares p y hy
    exact ⟨z, hz, hspared.handles.trans hhandles⟩
  torn id p x htarget hfind hnone hother hx := by
    obtain ⟨y, hy, htorn⟩ :=
      h.torn id p x htarget hfind (find?_congr hregistry id ▸ hnone) hother hx
    obtain ⟨z, hz, hspared⟩ := hspares p y hy
    rw [hspared.idle htorn.idle] at hz
    exact ⟨y, hz, htorn⟩

theorem setStack {a : ActorId} {jobs : List (Job H)} (h : Clears first target m todo current?) :
    Clears first target (m.setStack a jobs) todo current? :=
  h.spared rfl fun _ x hx => ⟨x, hx, .refl x⟩

theorem work (h : Clears first target m todo (some p)) (hregistry : m'.registry = m.registry)
    (hothers : ∀ q, q ≠ p → m'.presentations[q]? = m.presentations[q]?) :
    Clears first target m' todo (some p) where
  shrunk id q hfind := h.shrunk id q (find?_congr hregistry id ▸ hfind)
  within := h.within
  listed id q htarget hfind := h.listed id q htarget (find?_congr hregistry id ▸ hfind)
  apart id q hfind := h.apart id q (find?_congr hregistry id ▸ hfind)
  waiting id q x htarget hfind hx := by
    have hold : m.find? id = some q := find?_congr hregistry id ▸ hfind
    have hqp : q ≠ p := fun heq => h.apart id q hold (heq ▸ rfl)
    rw [hothers q hqp]
    exact h.waiting id q x htarget hold hx
  torn id q x htarget hfind hnone hother hx := by
    have hqp : q ≠ p := fun heq => hother (heq ▸ rfl)
    rw [hothers q hqp]
    exact h.torn id q x htarget hfind (find?_congr hregistry id ▸ hnone) hother hx

theorem unregister {f : PresentationId → Option Key} (h : Clears first target m (id :: todo) none)
    (hmaps : m.Maps f) (hfind : m.find? id = some p)
    (hregistry : m'.registry = m.registry.filter (·.1 != id))
    (hpresentations : m'.presentations = m.presentations) :
    Clears first target m' todo (some p) := by
  have hlookup : ∀ other, m'.find? other = if id = other then none else m.find? other := by
    intro other
    rw [Machine.find?, hregistry, Machine.Maps.lookup_filter]
    rfl
  have hother : ∀ {other q}, m'.find? other = some q → id ≠ other ∧ m.find? other = some q := by
    intro other q hq
    rw [hlookup] at hq
    exact ⟨fun heq => by simp [heq] at hq, by split at hq <;> simp_all⟩
  refine ⟨fun other q hq => h.shrunk other q (hother hq).2,
    fun other hmem => h.within other (by simp [hmem]), ?_,
    ?_, ?_, ?_⟩
  · intro other q htarget hq
    exact (List.mem_cons.mp (h.listed other q htarget (hother hq).2)).resolve_left
      (Ne.symm (hother hq).1)
  · intro other q hq heq
    obtain rfl := Option.some.inj heq
    refine (hother hq).1 (hmaps.inj (p := p) ?_ ?_)
    · rw [← hmaps.find, hfind]
    · rw [← hmaps.find, (hother hq).2]
  · intro other q x htarget hq hx
    rw [hpresentations]
    exact h.waiting other q x htarget (hother hq).2 hx
  · intro other q x htarget hq hnone hne hx
    rw [hpresentations]
    refine h.torn other q x htarget hq ?_ (by simp) hx
    rw [hlookup] at hnone
    split at hnone
    · rename_i heq
      subst heq
      obtain rfl : p = q := Option.some.inj ((h.shrunk id p hfind).symm.trans hq)
      exact absurd rfl hne
    · exact hnone

theorem skip (h : Clears first target m (id :: todo) none) (hnone : m.find? id = none) :
    Clears first target m todo none where
  shrunk := h.shrunk
  within other hmem := h.within other (List.mem_cons_of_mem _ hmem)
  listed other q htarget hfind := by
    refine (List.mem_cons.mp (h.listed other q htarget hfind)).resolve_left ?_
    rintro rfl
    rw [hnone] at hfind
    cases hfind
  apart := h.apart
  waiting := h.waiting
  torn := h.torn

theorem settle (h : Clears first target m todo (some p)) (hx : first.presentations[p]? = some x)
    (hy : m.presentations[p]? = some y) (htorn : x.TornDown y) :
    Clears first target m todo none where
  shrunk := h.shrunk
  within := h.within
  listed := h.listed
  apart _ _ _ := by simp
  waiting := h.waiting
  torn id q z htarget hfind hnone _ hz := by
    by_cases hqp : q = p
    · subst hqp
      obtain rfl := Option.some.inj (hx.symm.trans hz)
      exact ⟨y, hy, htorn⟩
    · exact h.torn id q z htarget hfind hnone (fun heq => hqp (Option.some.inj heq).symm) hz

end Clears

/-- Nothing is registered under these ids any more, and what was has been torn down. -/
structure Emptied (first : Machine H) (target : PresentationId → Prop) (m : Machine H) : Prop where
  unregistered : ∀ id, target id → m.find? id = none
  tornDown : ∀ id p, target id → first.find? id = some p →
    ∃ x y, first.presentations[p]? = some x ∧ m.presentations[p]? = some y ∧ x.TornDown y

theorem Clears.emptied {first m : Machine H} {target : PresentationId → Prop}
    {f : PresentationId → Option Key}
    (h : Clears first target m [] none) (hfirst : first.Maps f) : Emptied first target m := by
  have hnone : ∀ id, target id → m.find? id = none := by
    intro id htarget
    by_contra hsome
    obtain ⟨p, hp⟩ := Option.ne_none_iff_exists'.mp hsome
    exact List.not_mem_nil (h.listed id p htarget hp)
  refine ⟨hnone, fun id p htarget hfind => ?_⟩
  obtain ⟨x, hx⟩ := hfirst.exists_of_find (hfirst.find id ▸ hfind)
  obtain ⟨y, hy, htorn⟩ := h.torn id p x htarget hfind (hnone id htarget) (by simp) hx
  exact ⟨x, y, hx, hy, htorn⟩

/-! ## Removals and shutdowns -/

def Call.clears : Call H → PresentationId → Prop
  | .remove id, other => other = id
  | .shutdown, _ => True
  | _, _ => False

def Call.unregisters : Call H → Bool
  | .remove _ => true
  | .shutdown => true
  | _ => false

/-- What a removal or a shutdown goes on with when a presentation has been torn down. -/
inductive GoesOn (p : Key) : Call H → List PresentationId → Job H → Prop where
  | remove {id} : GoesOn p (.remove id) [] (.at p .finish)
  | shutdown {ids} : GoesOn p .shutdown ids (.removeEach ids)

/-- What is left to be done of a removal or of a shutdown that has been called on a machine. -/
inductive Clearing (first m : Machine H) : Call H → List (Job H) → Prop where
  | remove {id} : m.registry = first.registry →
      Clears first (Call.clears (.remove id : Call H)) m [id] none →
      Clearing first m (.remove id) [.remove id]
  | shutdown : Clears first (Call.clears (.shutdown : Call H)) m m.ids none →
      Clearing first m .shutdown [.shutdown]
  | each {ids} : Clears first (Call.clears (.shutdown : Call H)) m ids none →
      Clearing first m .shutdown [.removeEach ids]
  | tearing {c id p x y todo last} (tasks : List (Task H)) : Call.clears c id →
      first.find? id = some p →
      first.presentations[p]? = some x → m.presentations[p]? = some y →
        Clears first c.clears m todo (some p) →
      Tearing x y tasks → tasks ≠ [] → GoesOn p c todo last →
      Clearing first m c (tasks.map (.at p) ++ [last])
  | finish {id p} : first.find? id = some p →
      Clears first (Call.clears (.remove id : Call H)) m [] none →
      Clearing first m (.remove id) [.at p .finish]

/-- How a removal or a shutdown ends that has been called on a machine. -/
def Transition.Ends (t : Transition H) (a : ActorId) (first : Machine H) (c : Call H) : Prop :=
  (∃ id, c = .remove id ∧ first.find? id = none ∧
    t.Refuses a (.session (.presentationNotFound id))) ∨
    (∀ id, c = .remove id → (first.find? id).isSome) ∧ t.progress.result = some (.ok ()) ∧
      Emptied first c.clears t.progress.machine

namespace Clearing

variable {first m : Machine H} {c : Call H} {f g : PresentationId → Option Key}
  {id : PresentationId} {p : Key}
  {todo : List PresentationId} {jobs : List (Job H)} {last : Job H} {a : ActorId}
  {answers : Answers H}
  {progress : Progress H}

theorem start (h : c.unregisters) : Clearing first first c c.jobs := by
  cases c with
  | remove id =>
      refine .remove rfl
        (.start (fun other hmem => List.mem_singleton.mp hmem) fun other p hclears _ => ?_)
      exact List.mem_singleton.mpr hclears
  | shutdown =>
      refine .shutdown (.start (fun _ _ => trivial) fun id p _ hfind => ?_)
      exact Machine.find?_isSome_iff.mp (Option.isSome_iff_exists.mpr ⟨p, hfind⟩)
  | _ => cases h

theorem ne_nil (h : Clearing first m c jobs) : jobs ≠ [] := by
  cases h <;> simp

theorem key (h : Clearing first m c jobs) {t : Task H} (hmem : Job.at p t ∈ jobs) :
    ∃ id, c.clears id ∧ first.find? id = some p := by
  cases h with
  | @tearing _ id q x y todo last tasks hclears hfind _ _ _ _ _ hlast =>
      refine ⟨id, hclears, ?_⟩
      rcases List.mem_append.mp hmem with hmem | hmem
      · obtain ⟨u, -, heq⟩ := List.mem_map.mp hmem
        rw [← (Job.at.inj heq).1]
        exact hfind
      · cases hlast with
        | remove =>
            rw [(Job.at.inj (List.mem_singleton.mp hmem)).1]
            exact hfind
        | shutdown => simp at hmem
  | @finish id q hfind =>
      rw [(Job.at.inj (List.mem_singleton.mp hmem)).1]
      exact ⟨id, rfl, hfind⟩
  | _ => simp at hmem

theorem not_duty (h : Clearing first m c jobs) : ∀ job ∈ jobs, job.isDutyOf p = false := by
  cases h with
  | tearing tasks _ _ _ _ _ htearing _ hlast =>
      intro job hmem
      rcases List.mem_append.mp hmem with hmem | hmem
      · exact Job.map_at_of_free htearing.not_duty job hmem
      · rw [List.mem_singleton.mp hmem]
        cases hlast <;> simp [Job.isDutyOf, Task.isDuty]
  | _ => simp [Job.isDutyOf, Task.isDuty]

theorem spared {m' : Machine H} (h : Clearing first m c jobs) (hregistry : m'.registry = m.registry)
    (hspares : ∀ (p : Key) (x : Presentation H), m.presentations[p]? = some x →
      ∃ y, m'.presentations[p]? = some y ∧ x.Spares y) :
    Clearing first m' c jobs := by
  cases h with
  | remove hsame hclears => exact .remove (hregistry.trans hsame) (hclears.spared hregistry hspares)
  | shutdown hclears =>
      refine .shutdown ?_
      rw [Machine.ids, hregistry]
      exact hclears.spared hregistry hspares
  | each hclears => exact .each (hclears.spared hregistry hspares)
  | tearing tasks hid hfind hx hy hclears htearing htasks hlast =>
      obtain ⟨z, hz, hspared⟩ := hspares _ _ hy
      exact .tearing tasks hid hfind hx hz (hclears.spared hregistry hspares)
        (htearing.spared hspared) htasks hlast
  | finish hfind hclears => exact .finish hfind (hclears.spared hregistry hspares)

/-- What is left when a presentation has been torn down. -/
theorem of_last (hid : c.clears id) (hfind : first.find? id = some p)
    (hclears : Clears first c.clears m todo none)
    (hlast : GoesOn p c todo last) : Clearing first m c [last] := by
  cases hlast with
  | remove =>
      obtain rfl := hid
      exact .finish hfind hclears
  | shutdown => exact .each hclears

theorem begin {m' : Machine H} (hfirst : first.Maps f) (hmaps : m.Maps g)
    (hclears : Clears first c.clears m (id :: todo) none) (hfind : m.find? id = some p)
    (hregistry : m'.registry = m.registry.filter (·.1 != id))
    (hpresentations : m'.presentations = m.presentations)
    (hlast : GoesOn p c todo last) : Clearing first m' c (Machine.teardown p ++ [last]) := by
  have hid := hclears.within id List.mem_cons_self
  have hold := hclears.shrunk id p hfind
  obtain ⟨x, hx⟩ := hfirst.exists_of_find (hfirst.find id ▸ hold)
  obtain ⟨y, hy, hhandles⟩ := hclears.waiting id p x hid hfind hx
  exact .tearing _ hid hold hx (hpresentations ▸ hy)
    (hclears.unregister hmaps hfind hregistry hpresentations) (.begun hhandles) (by simp) hlast

theorem tear {x y : Presentation H} {task : Task H} {tasks : List (Task H)} (hid : c.clears id)
    (hfind : first.find? id = some p) (hx : first.presentations[p]? = some x)
    (hy : m.presentations[p]? = some y)
    (hclears : Clears first c.clears m todo (some p)) (htearing : Tearing x y (task :: tasks))
    (hlast : GoesOn p c todo last)
    (hstack : m.stack a = .at p task :: (tasks.map (.at p) ++ [last]))
    (hslot : y.lifecycle.thread ≠ some a) (hplay : m.play (.step a answers) = some progress) :
    Clearing first progress.machine c (progress.machine.stack a) := by
  simp only [Machine.play, Machine.step, hstack, Machine.perform, hy] at hplay
  rcases htearing.perform (c := m.surroundings a p answers) hslot with
    hwaits | ⟨z, next, effects, hgoing, hnext⟩
  · simp [hwaits] at hplay
  · simp only [hgoing, Presentation.going, Option.some.injEq] at hplay
    subst hplay
    have hnow : (m.after a p (tasks.map (.at p) ++ [last])
        { presentation := z, next, effects }).machine.presentations[p]? = some z :=
      Crewed.presentation_after hy
    have hwork : Clears first c.clears (m.after a p (tasks.map (.at p) ++ [last])
        { presentation := z, next, effects }).machine todo (some p) :=
      hclears.work rfl fun q hq => List.getElem?_set_ne (Ne.symm hq)
    rw [Machine.stack_after_self (Machine.lt_of_stack hstack), ← List.append_assoc,
      ← List.map_append]
    by_cases hempty : next ++ tasks = []
    · rw [hempty] at hnext ⊢
      exact of_last hid hfind (hwork.settle hx hnow hnext.tornDown) hlast
    · exact .tearing _ hid hfind hx hnow hwork hnext hempty hlast

theorem next (h : Clearing first m c jobs) (hstack : m.stack a = jobs) (hfirst : first.Maps f)
    (hmaps : m.Maps g) (hstaffed : m.Staffed) (hplay : m.play (.step a answers) = some progress) :
    progress.machine.stack a = [] ∧ Transition.Ends ⟨m, .step a answers, progress⟩ a first c ∨
      Clearing first progress.machine c (progress.machine.stack a) := by
  have hduties : ∀ p, ∀ job ∈ m.stack a, job.isDutyOf p = false := fun p => hstack ▸ h.not_duty
  cases h with
  | @remove id hregistry hclears =>
      have hlt := Machine.lt_of_stack hstack
      simp only [Machine.play, Machine.step, hstack, Machine.perform] at hplay
      cases hfind : m.find? id with
      | none =>
          simp only [hfind, Option.some.injEq] at hplay
          subst hplay
          have hnone : first.find? id = none := (Clears.find?_congr hregistry id).symm.trans hfind
          exact .inl ⟨Machine.stack_setStack_self hlt, .inl ⟨id, rfl, hnone, _, [], hstack, rfl⟩⟩
      | some p =>
          simp only [hfind, Option.some.injEq] at hplay
          subst hplay
          right
          rw [Machine.stack_setStack_self (by exact hlt)]
          exact begin hfirst hmaps hclears hfind rfl rfl .remove
  | shutdown hclears =>
      simp only [Machine.play, Machine.step, hstack, Machine.perform, Option.some.injEq] at hplay
      subst hplay
      right
      rw [Machine.stack_setStack_self (Machine.lt_of_stack hstack)]
      exact .each hclears.setStack
  | @each ids hclears =>
      have hlt := Machine.lt_of_stack hstack
      simp only [Machine.play, Machine.step, hstack] at hplay
      cases ids with
      | nil =>
          cases hplay
          have hemptied : Emptied first (Call.clears (.shutdown : Call H)) (m.setStack a []) :=
            hclears.setStack.emptied hfirst
          exact .inl ⟨Machine.stack_setStack_self hlt, .inr ⟨by simp, rfl, hemptied⟩⟩
      | cons id ids =>
          simp only [Machine.perform] at hplay
          right
          cases hfind : m.find? id with
          | none =>
              simp only [hfind, Option.some.injEq] at hplay
              subst hplay
              rw [Machine.stack_setStack_self hlt]
              exact .each (hclears.skip hfind).setStack
          | some p =>
              simp only [hfind, Option.some.injEq] at hplay
              subst hplay
              rw [Machine.stack_setStack_self (by exact hlt)]
              exact begin hfirst hmaps hclears hfind rfl rfl .shutdown
  | @tearing c id p x y todo last tasks hid hfind hx hy hclears htearing htasks hlast =>
      obtain ⟨task, tasks, rfl⟩ := List.exists_cons_of_ne_nil htasks
      have hslot := hstaffed.thread_ne hy (by simp [hstack]) (hduties p)
      exact .inr (tear hid hfind hx hy hclears htearing hlast hstack hslot hplay)
  | @finish id p hfind hclears =>
      obtain ⟨x, y, hx, hy, htorn⟩ := (hclears.emptied hfirst).tornDown id p rfl hfind
      have hmove : y.perform (m.surroundings a p answers) .finish = y.returning (.ok ()) [] := rfl
      simp only [Machine.play, Machine.step, hstack, Machine.perform, hy, hmove,
        Presentation.returning, Machine.after_still hy, Option.some.injEq] at hplay
      subst hplay
      have hemptied : Emptied first (Call.clears (.remove id : Call H)) (m.setStack a []) :=
        hclears.setStack.emptied hfirst
      refine .inl ⟨Machine.stack_setStack_self (Machine.lt_of_stack hstack),
        .inr ⟨fun other heq => ?_, rfl, hemptied⟩⟩
      rw [← Call.remove.inj heq, hfind]
      rfl

end Clearing

end Playout
