import Mathlib.Data.List.Induction
import Playout.Proofs.Histories
import Playout.Proofs.Playback.Run

/-!
# Damage

Each frame is to be drawn for the geometry that was set last. Where it is drawn elsewhere than the
one before, that one is to be painted over first, and so is a frame that a stop finds on screen. A
log of what is seen of a presentation is right if every entry fits what came before it. For the next
entry to fit, it is enough to keep in mind the geometry and one region.
-/

namespace Playout

variable {H : Platform}

/-! ## Logs -/

inductive Notice where
  | geometry (output : Rect)
  /-- A stop has the frame on screen painted over, if there is one. -/
  | repaint
  | event (e : Event)
  deriving DecidableEq

namespace Notice

def event? : Notice → Option Event
  | .event e => some e
  | _ => none

def events (log : List Notice) : List Event :=
  log.filterMap event?

def geometryOf (log : List Notice) : Rect :=
  log.foldl (fun output n => match n with | .geometry output => output | _ => output) .zero

def addSince : Option (VideoFrame × List Notice) → Notice → Option (VideoFrame × List Notice)
  | _, .event (.videoFrame frame) => some (frame, [])
  | some (frame, since), n => some (frame, since ++ [n])
  | none, _ => none

def sinceFrame? (log : List Notice) : Option (VideoFrame × List Notice) :=
  log.foldl addSince none

def paintings (region : Rect) : List Event :=
  if region.isEmpty then [] else [.redraw region]

/-- The entry is right after what came before. A frame has the geometry that was set last, and since
the last frame that one has been painted over exactly if it covers anything and a stop came or the
new one is drawn elsewhere. Only a frame that was shown just before is painted over, and only if it
covers anything. -/
def Fits (before : List Notice) : Notice → Prop
  | .event (.videoFrame frame) => frame.output = geometryOf before ∧
      ∀ last since, sinceFrame? before = some (last, since) →
        events since = if last.output ≠ frame.output ∨
          .repaint ∈ since then paintings last.output else []
  | .event (.redraw region) => region.isEmpty = false ∧
      ∃ frame, (events before).getLast? = some (.videoFrame frame) ∧ frame.output = region
  | _ => True

def Exact (log : List Notice) : Prop :=
  ∀ before n after, log = before ++ n :: after → Fits before n

variable {log more since : List Notice} {n : Notice} {frame last : VideoFrame} {region : Rect}

@[simp] theorem events_append : events (log ++ more) = events log ++ events more :=
  List.filterMap_append

@[simp] theorem events_map_event (es : List Event) : events (es.map .event) = es := by
  simp [events, List.filterMap_map, Function.comp_def, event?]

@[simp] theorem events_nil : events [] = [] := rfl

@[simp] theorem events_event (e : Event) : events (.event e :: log) = e :: events log := rfl

@[simp] theorem events_geometry (output : Rect) : events (.geometry output :: log) = events log :=
  rfl

@[simp] theorem events_repaint : events (.repaint :: log) = events log := rfl

theorem geometryOf_geometry (output : Rect) : geometryOf (log ++ [.geometry output]) = output := by
  simp [geometryOf]

theorem geometryOf_event (e : Event) : geometryOf (log ++ [.event e]) = geometryOf log := by
  simp [geometryOf]

theorem geometryOf_repaint : geometryOf (log ++ [.repaint]) = geometryOf log := by
  simp [geometryOf]

@[simp] theorem sinceFrame?_frame :
    sinceFrame? (log ++ [.event (.videoFrame frame)]) = some (frame, []) := by
  simp [sinceFrame?, addSince]

theorem sinceFrame?_of_no_frame (h : ∀ frame, n ≠ .event (.videoFrame frame)) :
    sinceFrame? (log ++ [n]) = (sinceFrame? log).map fun (last, since) => (last, since ++ [n]) := by
  rw [sinceFrame?, List.foldl_append]
  change addSince (sinceFrame? log) n = _
  cases n with
  | event e =>
      cases e with
      | videoFrame frame => exact absurd rfl (h frame)
      | redraw region => cases sinceFrame? log <;> rfl
  | _ => cases sinceFrame? log <;> rfl

theorem paintings_of_isEmpty (h : region.isEmpty) : paintings region = [] := by
  simp [paintings, h]

theorem paintings_of_covers (h : region.isEmpty = false) : paintings region = [.redraw region] := by
  simp [paintings, h]

theorem events_of_sinceFrame (h : sinceFrame? log = some (last, since)) :
    ∃ earlier, events log = earlier ++ .videoFrame last :: events since := by
  induction log using List.reverseRecOn generalizing last since with
  | nil => cases h
  | append_singleton log n ih =>
      by_cases hframe : ∃ frame, n = .event (.videoFrame frame)
      · obtain ⟨frame, rfl⟩ := hframe
        rw [sinceFrame?_frame] at h
        cases h
        exact ⟨events log, by simp⟩
      · rw [sinceFrame?_of_no_frame (not_exists.mp hframe)] at h
        obtain ⟨⟨last', since'⟩, hlast, heq⟩ := Option.map_eq_some_iff.mp h
        cases heq
        obtain ⟨earlier, hevents⟩ := ih hlast
        exact ⟨earlier, by simp [hevents]⟩

namespace Exact

theorem nil : Exact [] :=
  Throughout.nil

theorem snoc (h : Exact log) (hn : Fits log n) : Exact (log ++ [n]) :=
  Throughout.snoc h hn

theorem of_append (h : Exact (log ++ more)) : Exact log :=
  Throughout.of_append h

end Exact

/-! ## The region in mind -/

/-- What a region that a presentation has in mind says of the log. It is where the last frame was
drawn, and nothing has come since, or it is empty, and the last frame has been painted over if it
covers anything. -/
def Shows (shown : Rect) (log : List Notice) : Prop :=
  match sinceFrame? log with
  | none => events log = [] ∧ shown.isEmpty
  | some (last, since) =>
    .repaint ∈ since ∧ events since = paintings last.output ∧ shown.isEmpty ∨
      .repaint ∉ since ∧ events since = [] ∧ shown = last.output

structure Tracked (geometry shown : Rect) (log : List Notice) : Prop where
  exact : Exact log
  geometry : geometryOf log = geometry
  shown : Shows shown log

namespace Tracked

variable {geometry shown : Rect}

theorem initial : Tracked .zero .zero [] :=
  ⟨.nil, rfl, rfl, rfl⟩

theorem setGeometry (h : Tracked geometry shown log) (output : Rect) :
    Tracked output shown (log ++ [.geometry output]) := by
  refine ⟨h.exact.snoc trivial, geometryOf_geometry output, ?_⟩
  have hshown := h.shown
  unfold Shows at hshown ⊢
  rw [sinceFrame?_of_no_frame (by simp)]
  cases hsince : sinceFrame? log with
  | none => simpa [hsince] using hshown
  | some found => simpa [hsince] using hshown

/-- A region that covers anything is where the last frame was drawn, and nothing has come since. -/
theorem of_covers (h : Tracked geometry shown log) (hcovers : shown.isEmpty = false) :
    ∃ last since, sinceFrame? log = some (last, since) ∧ .repaint ∉ since ∧ events since = [] ∧
      shown = last.output ∧ (events log).getLast? = some (.videoFrame last) := by
  have hshown := h.shown
  unfold Shows at hshown
  split at hshown
  · rw [hshown.2] at hcovers
    cases hcovers
  · rename_i last since hsince
    rcases hshown with ⟨-, -, hempty⟩ | ⟨hrepaint, hnone, houtput⟩
    · rw [hempty] at hcovers
      cases hcovers
    · obtain ⟨earlier, hevents⟩ := events_of_sinceFrame hsince
      exact ⟨last, since, hsince, hrepaint, hnone, houtput, by simp [hevents, hnone]⟩

theorem bare (h : Tracked geometry shown log) (hempty : shown.isEmpty) :
    Tracked geometry shown (log ++ [.repaint]) := by
  refine ⟨h.exact.snoc trivial, geometryOf_repaint.trans h.geometry, ?_⟩
  have hshown := h.shown
  unfold Shows at hshown ⊢
  rw [sinceFrame?_of_no_frame (by simp)]
  cases hsince : sinceFrame? log with
  | none => simpa [hsince] using hshown
  | some found =>
      obtain ⟨last, since⟩ := found
      simp only [hsince] at hshown
      have hpainted : events since = paintings last.output := by
        rcases hshown with ⟨-, hpainted, -⟩ | ⟨-, hnone, houtput⟩
        · exact hpainted
        · rw [paintings_of_isEmpty (houtput ▸ hempty), hnone]
      exact .inl ⟨by simp, by simp [hpainted], hempty⟩

theorem cover (h : Tracked geometry shown log) (hcovers : shown.isEmpty = false) :
    Tracked geometry .zero (log ++ [.repaint] ++ [.event (.redraw shown)]) := by
  obtain ⟨last, since, hsince, -, hnone, houtput, hlast⟩ := h.of_covers hcovers
  have hrepaint : Exact (log ++ [.repaint]) := h.exact.snoc trivial
  refine ⟨hrepaint.snoc ⟨hcovers, last, by simpa using hlast, houtput.symm⟩, ?_, ?_⟩
  · rw [geometryOf_event, geometryOf_repaint, h.geometry]
  · rw [Shows, sinceFrame?_of_no_frame (by simp), sinceFrame?_of_no_frame (by simp), hsince]
    refine .inl ⟨by simp, ?_, rfl⟩
    simp [hnone, paintings_of_covers (houtput ▸ hcovers), houtput]

/-- A frame that covers the last one, or finds nothing on screen. -/
theorem inPlace (h : Tracked geometry shown log) (hframe : frame.output = geometry)
    (hplace : shown = geometry ∨ shown.isEmpty) :
    Tracked geometry geometry (log ++ [.event (.videoFrame frame)]) := by
  refine ⟨h.exact.snoc ⟨hframe.trans h.geometry.symm, fun last since hsince => ?_⟩,
    (geometryOf_event _).trans h.geometry, ?_⟩
  · have hshown := h.shown
    simp only [Shows, hsince] at hshown
    rcases hshown with ⟨hrepaint, hpainted, -⟩ | ⟨hrepaint, hnone, houtput⟩
    · rw [if_pos (.inr hrepaint), hpainted]
    · rw [hnone]
      rcases hplace with hsame | hempty
      · simp [hrepaint, ← houtput, hsame, hframe]
      · simp [paintings_of_isEmpty (houtput ▸ hempty)]
  · rw [Shows, sinceFrame?_frame]
    exact .inr ⟨List.not_mem_nil, rfl, hframe.symm⟩

/-- A frame that is drawn elsewhere than the one on screen. -/
theorem elsewhere (h : Tracked geometry shown log) (hframe : frame.output = geometry)
    (hplace : shown ≠ geometry) (hcovers : shown.isEmpty = false) :
    Tracked geometry geometry
      (log ++ [.event (.redraw shown)] ++ [.event (.videoFrame frame)]) := by
  obtain ⟨last, since, hsince, -, hnone, houtput, hlast⟩ := h.of_covers hcovers
  have hredraw : Exact (log ++ [.event (.redraw shown)]) :=
    h.exact.snoc ⟨hcovers, last, hlast, houtput.symm⟩
  have hgeometry : geometryOf (log ++ [.event (.redraw shown)]) = geometry :=
    (geometryOf_event _).trans h.geometry
  refine ⟨hredraw.snoc ⟨hframe.trans hgeometry.symm, fun last' since' hsince' => ?_⟩,
    (geometryOf_event _).trans hgeometry, ?_⟩
  · rw [sinceFrame?_of_no_frame (by simp), hsince] at hsince'
    cases hsince'
    have hmoved : last.output ≠ frame.output := by rwa [← houtput, hframe]
    rw [if_pos (.inl hmoved), ← houtput, paintings_of_covers hcovers]
    simp [hnone]
  · rw [Shows, sinceFrame?_frame]
    exact .inr ⟨List.not_mem_nil, rfl, hframe.symm⟩

/-- With nothing in mind, no frame is on screen that covers anything. -/
theorem blank (h : Tracked geometry shown log) (hempty : shown.isEmpty)
    (hlast : (events log).getLast? = some (.videoFrame frame)) : frame.output.isEmpty := by
  have hshown := h.shown
  unfold Shows at hshown
  split at hshown
  · rw [hshown.1] at hlast
    cases hlast
  · rename_i last since hsince
    obtain ⟨earlier, hevents⟩ := events_of_sinceFrame hsince
    have hframe : events since = [] → frame = last := by
      intro hnone
      simpa [hevents, hnone, eq_comm] using hlast
    rcases hshown with ⟨-, hpainted, -⟩ | ⟨-, hnone, houtput⟩
    · cases hcovers : last.output.isEmpty with
      | true => rwa [hframe (by rw [hpainted, paintings_of_isEmpty hcovers])]
      | false => simp [hevents, hpainted, paintings_of_covers hcovers] at hlast
    · rwa [hframe hnone, ← houtput]

end Tracked

end Notice

end Playout
