import Playout.Proofs.Lifecycle.Quiet
import Playout.Proofs.Plain

/-!
# The life of a sink

Each sink that is opened for a presentation has a log: it is opened and told the format, then it
is played to, flushed and asked for its queue, and in the end it is released once. A presentation
holds the one sink that is in use, and it holds none while there is no thread, unless a thread
has broken off.
-/

namespace Playout

variable {H : Platform}

/-! ## Logs -/

/-- What is done with a sink. -/
inductive SinkUse where
  | call (c : SinkCall)
  /-- The sink is asked for the length of its queue. -/
  | asked (depth : Nat)

namespace SinkUse

def isUse : SinkUse → Bool
  | .call (.play ..) => true
  | .call .flush => true
  | .asked _ => true
  | _ => false

/-- The sink is open and has been told the format. -/
inductive InUse : List SinkUse → Prop where
  | intro (backend : String) (device : Option String) (format : AudioFormat) {uses : List SinkUse} :
      (∀ u ∈ uses, u.isUse) → InUse (.call (.open backend device) :: .call (.format format) :: uses)

/-- No sink was opened, or it has been released. -/
inductive Over : List SinkUse → Prop where
  | unopened : Over []
  | failed (backend : String) (device : Option String) :
      Over [.call (.open backend device), .call .openFailed]
  | released {log : List SinkUse} : InUse log → Over (log ++ [.call .release])

variable {log uses : List SinkUse}

theorem InUse.append (h : InUse log) (huses : ∀ u ∈ uses, u.isUse) : InUse (log ++ uses) := by
  obtain ⟨backend, device, format, hlog⟩ := h
  exact .intro backend device format fun u hu => (List.mem_append.mp hu).elim (hlog u) (huses u)

theorem InUse.not_over (h : InUse log) : ¬ Over log := by
  intro hover
  obtain ⟨backend, device, format, hlog⟩ := h
  generalize hall : SinkUse.call (.open backend device) :: .call (.format format) :: _ =
    log at hover
  cases hover with
  | unopened => cases hall
  | failed => cases hall
  | released hinUse =>
      obtain ⟨backend', device', format', -⟩ := hinUse
      simp only [List.cons_append, List.cons.injEq] at hall
      have hlast := hlog (.call .release) (by simp [hall.2.2])
      cases hlast

end SinkUse

open SinkUse

/-- What an effect does to a sink, by its number, when the sink in use has the number `bound`. -/
def Effect.sinkUse? (bound : Option Nat) : Effect H → Option (Nat × SinkUse)
  | .sink n c => some (n, .call c)
  | .consulted depth => bound.map (·, .asked depth)
  | _ => none

def Presentation.boundSerial (x : Presentation H) : Option Nat :=
  x.sink.map (·.serial)

theorem Presentation.boundSerial_eq {x y : Presentation H} (h : y.sink = x.sink) :
    y.boundSerial = x.boundSerial := by
  rw [boundSerial, h, boundSerial]

def Deed.sinkUses (d : Deed H) : List (Nat × SinkUse) :=
  d.effects.filterMap (Effect.sinkUse? d.before.boundSerial)

def SinkUse.logOf (n : Nat) (uses : List (Nat × SinkUse)) : List SinkUse :=
  uses.filterMap fun (k, u) => if k = n then some u else none

def Deed.sinkLog (n : Nat) (deeds : List (Deed H)) : List SinkUse :=
  logOf n (deeds.flatMap (·.sinkUses))

namespace SinkUse

variable {n k : Nat} {uses more : List (Nat × SinkUse)} {log : List SinkUse}

theorem logOf_append : logOf n (uses ++ more) = logOf n uses ++ logOf n more :=
  List.filterMap_append

theorem logOf_map_self : logOf n (log.map (n, ·)) = log := by
  simp [logOf, List.filterMap_map]

theorem logOf_map_of_ne (h : k ≠ n) : logOf n (log.map (k, ·)) = [] := by
  simp [logOf, h]

theorem logOf_eq_nil (h : ∀ u, (n, u) ∉ uses) : logOf n uses = [] := by
  refine List.filterMap_eq_nil_iff.mpr fun ⟨k, u⟩ hmem => if_neg fun heq => ?_
  rw [heq] at hmem
  exact h u hmem

theorem mem_logOf {u : SinkUse} : u ∈ logOf n uses ↔ (n, u) ∈ uses := by
  simp [logOf]

end SinkUse

theorem Deed.sinkLog_append (n : Nat) (deeds more : List (Deed H)) :
    Deed.sinkLog n (deeds ++ more) = Deed.sinkLog n deeds ++ Deed.sinkLog n more := by
  simp [Deed.sinkLog, logOf_append]

theorem Deed.sinkLog_single (n : Nat) (deed : Deed H) :
    Deed.sinkLog n [deed] = logOf n deed.sinkUses := by
  simp [Deed.sinkLog]

/-! ## What happens to the sink of a presentation -/

def releasing (bound : Option Nat) : List (Nat × SinkUse) :=
  bound.toList.map (·, .call .release)

/-- How a deed changes the sink of a presentation, and what it does with sinks. -/
inductive Handles (x y : Presentation H) (uses : List (Nat × SinkUse)) : Prop where
  /-- The sink in use may be used. -/
  | keep : y.boundSerial = x.boundSerial → y.sinksOpened = x.sinksOpened →
      (∀ n u, (n, u) ∈ uses → u.isUse ∧ x.boundSerial = some n) → Handles x y uses
  | fail {log} : y.boundSerial = x.boundSerial → y.sinksOpened = x.sinksOpened + 1 → Over log →
      uses = log.map (x.sinksOpened, ·) → Handles x y uses
  | open {log} : y.boundSerial = some x.sinksOpened → y.sinksOpened = x.sinksOpened + 1 →
      InUse log →
      uses = log.map (x.sinksOpened, ·) ++ releasing x.boundSerial → Handles x y uses
  | release : y.boundSerial = none → y.sinksOpened = x.sinksOpened →
      uses = releasing x.boundSerial →
      Handles x y uses

/-- What a backend's sink has been through when it has been opened, or could not be. -/
theorem Backends.openSink_log {β σ : Type} (backends : AudioBackends β) (answers : SinkAnswers β σ)
    (name : String) (device : Option String) (format : AudioFormat) :
    (∃ sink, (backends.openSink answers name device format).1 = .ok sink ∧
        InUse ((backends.openSink answers name device format).2.map .call)) ∨
      ∃ e, (backends.openSink answers name device format).1 = .error e ∧
        Over ((backends.openSink answers name device format).2.map .call) := by
  unfold openSink
  cases backends.find? name with
  | none => exact .inr ⟨_, rfl, .unopened⟩
  | some backend =>
      cases hsink : answers.create backend device with
      | error e =>
          simp only [hsink]
          exact .inr ⟨e, rfl, .failed name device⟩
      | ok sink =>
          cases hformat : answers.setFormat sink format with
          | error e =>
              simp only [hsink, hformat]
              have hinUse : InUse [.call (.open name device), .call (.format format)] :=
                .intro name device format (List.forall_mem_nil _)
              exact .inr ⟨e, rfl, .released hinUse⟩
          | ok =>
              simp only [hsink, hformat]
              exact .inl ⟨sink, rfl, .intro name device format (List.forall_mem_nil _)⟩

namespace Presentation

variable {c : Surroundings H} {x : Presentation H}

theorem sinkUses_map_sink (bound : Option Nat) (n : Nat) (calls : List SinkCall) :
    (calls.map (Effect.sink (H := H) n)).filterMap (Effect.sinkUse? bound) =
      (calls.map .call).map (n, ·) := by
  simp [List.filterMap_map, Function.comp_def, Effect.sinkUse?]

theorem sinkUses_sinkCall (bound : Option Nat) (call : SinkCall) :
    (sinkCall x.sink call).filterMap (Effect.sinkUse? bound) =
      x.boundSerial.toList.map (·, .call call) := by
  cases hsink : x.sink <;> simp [sinkCall, boundSerial, hsink, Effect.sinkUse?]

theorem sinkUses_silent {effects : List (Effect H)} (bound : Option Nat)
    (h : ∀ e ∈ effects, e.isSilent) :
    effects.filterMap (Effect.sinkUse? bound) = [] := by
  refine List.filterMap_eq_nil_iff.mpr fun e he => ?_
  have hsilent := h e he
  cases e <;> first | rfl | cases hsilent

theorem openSink_handles (c : Surroundings H) (x : Presentation H) :
    ∃ y effects, x.openSink c = y.going [] effects ∧
      Handles x y (effects.filterMap (Effect.sinkUse? x.boundSerial)) := by
  unfold openSink
  by_cases hformat : x.audioFormat.isComplete
  · simp only [hformat, Bool.not_true, Bool.false_eq_true, if_false]
    cases x.audioBackend? c.config with
    | none => exact ⟨x, [], rfl, .keep rfl rfl (by simp)⟩
    | some backend =>
        dsimp only
        rcases c.outputs.openSink_log c.answers.sinks backend x.audioDevice.device
          x.audioFormat with
          ⟨sink, hopened, hlog⟩ | ⟨e, hopened, hlog⟩
        · rw [hopened]
          refine ⟨_, _, rfl, .open rfl rfl hlog ?_⟩
          rw [List.filterMap_append, sinkUses_map_sink, sinkUses_sinkCall]
          rfl
        · rw [hopened]
          exact ⟨_, _, rfl, .fail rfl rfl hlog (sinkUses_map_sink _ _ _)⟩
  · simp only [hformat]
    exact ⟨x, [], rfl, .keep rfl rfl (by simp)⟩

end Presentation

namespace Handles

variable {x y : Presentation H} {effects : List (Effect H)}

theorem apart (hsink : y.sink = x.sink) (hopened : y.sinksOpened = x.sinksOpened)
    (hsilent : ∀ e ∈ effects, e.isSilent) :
    Handles x y (effects.filterMap (Effect.sinkUse? x.boundSerial)) := by
  refine .keep (Presentation.boundSerial_eq hsink) hopened ?_
  simp [Presentation.sinkUses_silent _ hsilent]

theorem uses (hsink : y.sink = x.sink) (hopened : y.sinksOpened = x.sinksOpened)
    (huse : ∀ e ∈ effects, ∀ n u, Effect.sinkUse? x.boundSerial e = some (n, u) →
      u.isUse ∧ x.boundSerial = some n) :
    Handles x y (effects.filterMap (Effect.sinkUse? x.boundSerial)) := by
  refine .keep (Presentation.boundSerial_eq hsink) hopened fun n u hmem => ?_
  obtain ⟨e, he, heq⟩ := List.mem_filterMap.mp hmem
  exact huse e he n u heq

theorem consulted {bound : Option Nat} {depth n : Nat} {u : SinkUse}
    (h : Effect.sinkUse? bound (.consulted depth : Effect H) = some (n, u)) :
    u.isUse ∧ bound = some n := by
  cases bound with
  | none => cases h
  | some k =>
      cases h
      exact ⟨rfl, rfl⟩

theorem of_select {c : Surroundings H} {pacing : Pacing} {r? : Option (Schedule.Release H.Receiver)}
    (h : x.select c pacing = (r?, effects)) {e : Effect H} (he : e ∈ effects) {n : Nat}
    {u : SinkUse}
    (huse : Effect.sinkUse? x.boundSerial e = some (n, u)) : u.isUse ∧ x.boundSerial = some n := by
  cases pacing with
  | unpaced =>
      obtain ⟨-, rfl⟩ := Prod.mk.inj h
      cases he
  | paced =>
      obtain ⟨-, rfl⟩ := Prod.mk.inj h
      split at he
      · obtain ⟨depth, -, rfl⟩ := List.mem_map.mp he
        exact consulted huse
      · cases he

theorem of_release {c : Surroundings H} {pacing : Pacing} {r : Schedule.Release H.Receiver}
    (h : x.select c pacing = (some r, effects)) :
    Handles x (x.afterRelease r)
      ((effects ++ [Effect.released r.selected]).filterMap (Effect.sinkUse? x.boundSerial)) := by
  refine uses rfl rfl fun e he n u huse => ?_
  rcases List.mem_append.mp he with hmem | hmem
  · exact of_select h hmem huse
  · rw [List.mem_singleton.mp hmem] at huse
    cases huse

end Handles

theorem Advance.handles {c : Surroundings H} {x y : Presentation H} {s : Standing H}
    {effects : List (Effect H)} {s? : Option (Standing H)} (h : Advance c x s y effects s?) :
    Handles x y (effects.filterMap (Effect.sinkUse? x.boundSerial)) := by
  cases h with
  | openSink hopen =>
      obtain ⟨y, effects', hopen', hhandles⟩ := Presentation.openSink_handles c x
      rw [hopen] at hopen'
      cases hopen'
      exact hhandles
  | nothingReady hselect => exact .uses rfl rfl fun e he n u => Handles.of_select hselect he
  | nothingLeft hselect => exact .uses rfl rfl fun e he n u => Handles.of_select hselect he
  | choose hselect => exact .of_release hselect
  | drain hselect => exact .of_release hselect
  | @play _ _ _ s _ _ hsink =>
      refine .uses rfl rfl fun e he n u huse => ?_
      rw [List.mem_singleton.mp he] at huse
      cases huse
      exact ⟨rfl, by simp [Presentation.boundSerial, hsink]⟩
  | pollAgain =>
      refine .uses rfl rfl fun e he n u huse => ?_
      rw [List.mem_singleton.mp he] at huse
      exact Handles.consulted huse
  | pollLast =>
      refine .uses rfl rfl fun e he n u huse => ?_
      obtain ⟨depth, -, rfl⟩ := List.mem_map.mp he
      exact Handles.consulted huse
  | releaseSink => exact .release rfl rfl (Presentation.sinkUses_sinkCall _ _)
  | frame =>
      rw [Presentation.beginFrame_snd]
      exact .apart rfl rfl (List.forall_mem_nil _)
  | _ => exact .apart rfl rfl (by simp [Effect.isSilent])

theorem Conduct.handles {c : Surroundings H} {x : Presentation H} {task : Task H} {move : Move H}
    (h : Conduct c x task (.moves move)) :
    Handles x move.presentation (move.effects.filterMap (Effect.sinkUse? x.boundSerial)) := by
  obtain ⟨hopened, hcases⟩ := h.sink_cases
  rcases hcases with ⟨hsink, hsilent⟩ | ⟨-, hsame, heffects⟩ |
    ⟨-, -, hnone, before, after, heffects, hbefore, hafter⟩
  · exact .apart hsink hopened hsilent
  · rw [heffects, Presentation.sinkUses_sinkCall, hsame]
    refine .keep rfl rfl fun n u hmem => ?_
    obtain ⟨k, hk, heq⟩ := List.mem_map.mp hmem
    cases heq
    exact ⟨rfl, by simpa using hk⟩
  · refine .release (by simp [Presentation.boundSerial, hnone]) hopened ?_
    rw [heffects, List.filterMap_append, List.filterMap_append,
      Presentation.sinkUses_silent _ hbefore,
      Presentation.sinkUses_silent _ hafter, Presentation.sinkUses_sinkCall, List.append_nil]
    rfl

theorem Scene.Step.handles {scene next : Scene H} {deed : Deed H} (h : Step scene deed next) :
    Handles scene.presentation next.presentation deed.sinkUses := by
  cases h with
  | aside hfree hstart hmove =>
      exact (hmove ▸ Presentation.perform_conduct hfree hstart : Conduct ..).handles
  | start => exact .apart rfl rfl (List.forall_mem_nil _)
  | duty hadv => exact hadv.handles

/-! ## Histories -/

structure Presentation.SinksInOrder (x : Presentation H) (log : Nat → List SinkUse) : Prop where
  bound : ∀ n, x.boundSerial = some n → n < x.sinksOpened ∧ InUse (log n)
  done : ∀ n, x.boundSerial ≠ some n → Over (log n)
  fresh : ∀ n, x.sinksOpened ≤ n → log n = []

namespace Handles

variable {x y : Presentation H} {uses : List (Nat × SinkUse)} {n : Nat} {log : Nat → List SinkUse}

theorem logOf_releasing_of_ne {bound : Option Nat} (h : bound ≠ some n) :
    logOf n (releasing bound) = [] := by
  cases bound with
  | none => rfl
  | some k => simp_all [releasing, logOf]

/-- Nothing more is done with a sink that is not in use any more. -/
theorem retired (h : Handles x y uses) (hopened : n < x.sinksOpened)
    (hbound : x.boundSerial ≠ some n) :
    n < y.sinksOpened ∧ y.boundSerial ≠ some n ∧ logOf n uses = [] := by
  have hold : x.sinksOpened ≠ n := Nat.ne_of_gt hopened
  cases h with
  | keep hsame hcount huses =>
      exact ⟨hcount ▸ hopened, hsame ▸ hbound, logOf_eq_nil fun u hmem => hbound (huses n u hmem).2⟩
  | fail hsame hcount hlog huses =>
      refine ⟨by omega, hsame ▸ hbound, ?_⟩
      rw [huses, logOf_map_of_ne hold]
  | «open» hsame hcount hlog huses =>
      refine ⟨by omega, by simp [hsame, hold], ?_⟩
      rw [huses, logOf_append, logOf_map_of_ne hold, logOf_releasing_of_ne hbound, List.append_nil]
  | release hsame hcount huses =>
      exact ⟨hcount ▸ hopened, by simp [hsame], huses ▸ logOf_releasing_of_ne hbound⟩

theorem over_releasing (hx : x.SinksInOrder log) (n : Nat) :
    Over (log n ++ logOf n (releasing x.boundSerial)) := by
  by_cases hbound : x.boundSerial = some n
  · have hrelease : logOf n (releasing (some n)) = [.call .release] := by simp [releasing, logOf]
    rw [hbound, hrelease]
    exact .released (hx.bound n hbound).2
  · rw [logOf_releasing_of_ne hbound, List.append_nil]
    exact hx.done n hbound

theorem inOrder (h : Handles x y uses) (hx : x.SinksInOrder log) :
    y.SinksInOrder fun n => log n ++ logOf n uses := by
  have hnew : x.boundSerial ≠ some x.sinksOpened := fun hbound =>
    Nat.lt_irrefl _ (hx.bound x.sinksOpened hbound).1
  cases h with
  | keep hsame hcount huses =>
      refine ⟨fun n hn => ?_, fun n hn => ?_, fun n hn => ?_⟩
      · obtain ⟨hopened, hlog⟩ := hx.bound n (hsame ▸ hn)
        exact ⟨hcount ▸ hopened, hlog.append fun u hu => (huses n u (mem_logOf.mp hu)).1⟩
      · rw [hsame] at hn
        rw [logOf_eq_nil fun u hu => hn (huses n u hu).2, List.append_nil]
        exact hx.done n hn
      · rw [hcount] at hn
        rw [hx.fresh n hn, logOf_eq_nil fun u hu =>
          Nat.not_lt.mpr hn (hx.bound n (huses n u hu).2).1]
        rfl
  | fail hsame hcount hlog huses =>
      refine ⟨fun n hn => ?_, fun n hn => ?_, fun n hn => ?_⟩
      · obtain ⟨hopened, hinUse⟩ := hx.bound n (hsame ▸ hn)
        rw [huses, logOf_map_of_ne (Nat.ne_of_gt hopened), List.append_nil]
        exact ⟨by omega, hinUse⟩
      · by_cases hself : x.sinksOpened = n
        · rw [huses, hx.fresh n (Nat.le_of_eq hself), hself, logOf_map_self]
          exact hlog
        · rw [huses, logOf_map_of_ne hself, List.append_nil]
          exact hx.done n (hsame ▸ hn)
      · rw [hx.fresh n (by omega), huses, logOf_map_of_ne (by omega)]
        rfl
  | «open» hsame hcount hlog huses =>
      refine ⟨fun n hn => ?_, fun n hn => ?_, fun n hn => ?_⟩
      · obtain rfl : x.sinksOpened = n := Option.some.inj (hsame.symm.trans hn)
        rw [huses, hx.fresh _ (Nat.le_refl _), logOf_append, logOf_map_self,
          logOf_releasing_of_ne hnew, List.append_nil]
        exact ⟨by omega, hlog⟩
      · have hother : x.sinksOpened ≠ n := fun heq => hn (by rw [hsame, heq])
        rw [huses, logOf_append, logOf_map_of_ne hother]
        exact over_releasing hx n
      · have hother : x.boundSerial ≠ some n := fun hbound => by
          have hlt := (hx.bound n hbound).1
          omega
        rw [hx.fresh n (by omega), huses, logOf_append, logOf_map_of_ne (by omega),
          logOf_releasing_of_ne hother]
        rfl
  | release hsame hcount huses =>
      refine ⟨fun n hn => ?_, fun n _ => huses ▸ over_releasing hx n, fun n hn => ?_⟩
      · rw [hsame] at hn
        cases hn
      · rw [hcount] at hn
        rw [hx.fresh n hn, huses, logOf_releasing_of_ne fun hbound =>
          Nat.not_lt.mpr hn (hx.bound n hbound).1]
        rfl

end Handles

namespace Scene.History

variable {first last : Scene H} {deeds : List (Deed H)} {n : Nat}

theorem retired (h : History first deeds last) (hopened : n < first.presentation.sinksOpened)
    (hbound : first.presentation.boundSerial ≠ some n) :
    n < last.presentation.sinksOpened ∧ last.presentation.boundSerial ≠ some n ∧
      Deed.sinkLog n deeds = [] := by
  induction h with
  | nil => exact ⟨hopened, hbound, rfl⟩
  | snoc _ hstep ih =>
      obtain ⟨hopened', hbound', hlog⟩ := ih
      obtain ⟨hopened'', hbound'', hnone⟩ := hstep.handles.retired hopened' hbound'
      refine ⟨hopened'', hbound'', ?_⟩
      rw [Deed.sinkLog_append, Deed.sinkLog_single, hlog, hnone]
      rfl

theorem sinksInOrder {id : PresentationId} (h : History (.new id) deeds last) :
    last.presentation.SinksInOrder fun n => Deed.sinkLog n deeds := by
  induction h with
  | nil =>
      exact ⟨by simp [Scene.new, Presentation.new, Presentation.boundSerial], fun _ _ => .unopened,
      fun _ _ => rfl⟩
  | snoc _ hstep ih =>
      have hnext := hstep.handles.inOrder ih
      simpa only [Deed.sinkLog_append, Deed.sinkLog_single] using hnext

/-- Nobody comes back to a sink that is given up when it has just been opened. -/
theorem sinkLog_of_over {id : PresentationId} {earlier later : List (Deed H)} {deed : Deed H}
    {log : List SinkUse} (h : History (.new id) deeds last)
    (hdeeds : deeds = earlier ++ deed :: later)
    (huses : deed.sinkUses = log.map (deed.before.sinksOpened, ·)) (hover : Over log)
    (hlog : log ≠ []) :
    Deed.sinkLog deed.before.sinksOpened deeds = log := by
  obtain ⟨scene, next, hearlier, hstep, hlater⟩ := h.split hdeeds
  rw [hstep.before_eq] at huses ⊢
  have hsofar : Deed.sinkLog scene.presentation.sinksOpened (earlier ++ [deed]) = log := by
    rw [Deed.sinkLog_append, Deed.sinkLog_single, huses, logOf_map_self,
      hearlier.sinksInOrder.fresh _ (Nat.le_refl _), List.nil_append]
  have hnext := (hearlier.snoc hstep).sinksInOrder
  have hbound : next.presentation.boundSerial ≠ some scene.presentation.sinksOpened := by
    intro hbound
    have hinUse := (hnext.bound _ hbound).2
    rw [hsofar] at hinUse
    exact hinUse.not_over hover
  have hopened : scene.presentation.sinksOpened < next.presentation.sinksOpened :=
    Nat.lt_of_not_le fun hle => hlog (hsofar.symm.trans (hnext.fresh _ hle))
  rw [hdeeds, ← List.singleton_append, ← List.append_assoc, Deed.sinkLog_append, hsofar,
    (hlater.retired hopened hbound).2.2, List.append_nil]

end Scene.History

/-! ## Runs -/

def Run.sinkLog (r : Run H) (p : Key) (n : Nat) : List SinkUse :=
  Deed.sinkLog n (r.deeds p)

/-- The backend opens a sink, and the sink does not take the format. -/
def Presentation.Refused (c : Surroundings H) (x : Presentation H) (name : String) : Prop :=
  x.audioFormat.isComplete ∧ x.audioBackend? c.config = some name ∧
    ∃ backend sink e, c.outputs.find? name = some backend ∧
      c.answers.sinks.create backend x.audioDevice.device = .ok sink ∧
      c.answers.sinks.setFormat sink x.audioFormat = .error e

def Presentation.refusal (x : Presentation H) (name : String) : List SinkCall :=
  [.open name x.audioDevice.device, .format x.audioFormat, .release]

theorem Presentation.perform_openSink_of_refused {c : Surroundings H} {x : Presentation H}
    {name : String}
    (h : x.Refused c name) :
    x.perform c .openSink =
      going { x with
              sinksOpened := x.sinksOpened + 1 } []
                ((x.refusal name).map (.sink x.sinksOpened)) := by
  obtain ⟨hformat, hname, backend, sink, e, hbackend, hsink, hrefuses⟩ := h
  simp [perform, openSink, hformat, hname, Backends.openSink, hbackend, hsink, hrefuses, refusal]

theorem Presentation.over_refusal (x : Presentation H) (name : String) :
    Over ((x.refusal name).map .call) :=
  .released (.intro name x.audioDevice.device x.audioFormat (List.forall_mem_nil _))

theorem Transition.effects_of_refused {t : Transition H} {p : Key} {a : ActorId}
    {answers : Answers H} {x : Presentation H} {effects : List (Effect H)} {name : String}
    (hplay : t.before.play t.action = some t.progress) (haction : t.action = .step a answers)
    (hdoing : t.doing? p = some (a, ⟨x, .openSink, effects⟩))
    (h : x.Refused (t.before.surroundings a p answers) name) :
    effects = (x.refusal name).map (.sink x.sinksOpened) := by
  obtain ⟨answers', rest, haction', -, -, hperform⟩ := perform_of_doing hplay hdoing
  cases haction.symm.trans haction'
  exact (Outcome.of_moves hperform (Presentation.perform_openSink_of_refused h)).2

/-- The sinks of a presentation are opened, used and released in order. -/
structure Run.TendsSinks (r : Run H) (p : Key) : Prop where
  logs : ∀ n, InUse (r.sinkLog p n) ∨ Over (r.sinkLog p n)
  single : ∀ n k, InUse (r.sinkLog p n) → InUse (r.sinkLog p k) → n = k
  held : ∀ x, r.final.presentations[p]? = some x →
    ∀ n, x.boundSerial = some n ↔ InUse (r.sinkLog p n)
  refused : ∀ past t after a answers x effects name, r.trace = past ++ t :: after →
    t.action = .step a answers → t.doing? p = some (a, ⟨x, .openSink, effects⟩) →
    x.Refused (t.before.surroundings a p answers) name →
      effects = (x.refusal name).map (.sink x.sinksOpened) ∧
        r.sinkLog p x.sinksOpened = (x.refusal name).map .call
  /-- By the time that a thread ends, the presentation's sinks have been released, unless it
  breaks off. -/
  ended : ∀ past t after x y, r.trace = past ++ t :: after → t.before.presentations[p]? = some x →
    t.progress.machine.presentations[p]? = some y → x.isRunning → y.isRunning = false →
    t.breaksOff p = false → x.sink = none ∧ ∀ n, Over ((⟨t.before, past⟩ : Run H).sinkLog p n)
  /-- There is no sink without a thread, unless one has broken off. -/
  idle : r.brokeOff p = false → ∀ x, r.final.presentations[p]? = some x → x.isRunning = false →
    x.sink = none ∧ ∀ n, Over (r.sinkLog p n)
  flush : ∀ past t after a x effects, r.trace = past ++ t :: after →
    t.doing? p = some (a, ⟨x, .flushSink, effects⟩) → x.isRunning = false →
    past.any (·.breaksOff p) = false → effects = []

theorem Run.deeds_of_split {r : Run H} {p : Key} {past after : List (Transition H)}
    {t : Transition H} {a : ActorId} {deed : Deed H} (htrace : r.trace = past ++ t :: after)
    (hdoing : t.doing? p = some (a, deed)) :
    r.deeds p = past.filterMap (·.deed? p) ++ deed :: after.filterMap (·.deed? p) := by
  rw [Run.deeds, htrace, List.filterMap_append, List.filterMap_cons,
    Transition.deed?_of_doing hdoing]

namespace Machine

theorem run_sinksInOrder (config : Config) (decoders : DecoderBackends H.Codec)
    (outputs : AudioBackends H.Output) (actions : List (Action H)) (p : Key) :
    ∃ x, x.SinksInOrder (((initial config decoders outputs).run actions).sinkLog p) ∧
      ∀ y, ((initial config decoders outputs).run actions).final.presentations[p]? = some y →
        y = x := by
  obtain ⟨crew, id, x, -, hhistory, hfinal⟩ := run_history config decoders outputs actions p
  refine ⟨x, hhistory.sinksInOrder, fun y hy => ?_⟩
  rw [hy] at hfinal
  exact hfinal

theorem over_of_unbound (config : Config) (decoders : DecoderBackends H.Codec)
    (outputs : AudioBackends H.Output) (actions : List (Action H)) {p : Key} {x : Presentation H}
    (hx : ((initial config decoders outputs).run actions).final.presentations[p]? = some x)
    (hsink : x.sink = none) (n : Nat) :
    Over (((initial config decoders outputs).run actions).sinkLog p n) := by
  obtain ⟨y, horder, hfinal⟩ := run_sinksInOrder config decoders outputs actions p
  obtain rfl := hfinal x hx
  exact horder.done n (by simp [Presentation.boundSerial, hsink])

theorem unbound_of_idle (config : Config) (decoders : DecoderBackends H.Codec)
    (outputs : AudioBackends H.Output) (actions : List (Action H)) {p : Key} {x : Presentation H}
    (hx : ((initial config decoders outputs).run actions).final.presentations[p]? = some x)
    (hidle : x.isRunning = false)
    (hwhole : ((initial config decoders outputs).run actions).brokeOff p = false) :
    x.sink = none := by
  obtain ⟨crew, hcrew, hquiet⟩ := run_quiet config decoders outputs actions p
  have hnone : crew = none := by simpa [hidle] using (hcrew.running x hx).symm
  exact hquiet.unbound hwhole hnone x hx

/-- A thread that does not break off has released the sink by the time that it ends. -/
theorem unbound_of_ended (config : Config) (decoders : DecoderBackends H.Codec)
    (outputs : AudioBackends H.Output) (earlier : List (Action H)) {p : Key}
    {past : List (Transition H)} {t : Transition H} {x y : Presentation H}
    (hrun : (initial config decoders outputs).run earlier = ⟨t.before, past⟩)
    (hplay : t.before.play t.action = some t.progress) (hx : t.before.presentations[p]? = some x)
    (hy : t.progress.machine.presentations[p]? = some y) (hactive : x.isRunning)
    (hended : y.isRunning = false) (hwhole : t.breaksOff p = false) : x.sink = none := by
  obtain ⟨crew, hcrew, hquiet⟩ := run_quiet config decoders outputs earlier p
  rw [hrun] at hcrew hquiet
  obtain ⟨crew', hcrew', hturn⟩ := run_turn config decoders outputs earlier hrun hplay hcrew
  have hsome : crew.isSome := by rw [← hcrew.running x hx, hactive]
  have hnone : crew' = none := by simpa [hended] using (hcrew'.running y hy).symm
  obtain ⟨⟨a, s⟩, rfl⟩ := Option.isSome_iff_exists.mp hsome
  obtain rfl := hturn.ending rfl hnone (Transition.stack_of_whole hplay hwhole)
  exact (hquiet.manned x hx).unbound rfl

/-- A sink that does not take the format is released at once, and that is all. -/
theorem sinkLog_of_refused (config : Config) (decoders : DecoderBackends H.Codec)
    (outputs : AudioBackends H.Output) (actions : List (Action H)) {p : Key}
    {past after : List (Transition H)}
    {t : Transition H} {a : ActorId} {answers : Answers H} {x : Presentation H}
    {effects : List (Effect H)} {name : String}
    (htrace : ((initial config decoders outputs).run actions).trace = past ++ t :: after)
    (haction : t.action = .step a answers) (hdoing : t.doing? p = some (a, ⟨x, .openSink, effects⟩))
    (hrefused : x.Refused (t.before.surroundings a p answers) name) :
    effects = (x.refusal name).map (.sink x.sinksOpened) ∧
      ((initial config decoders outputs).run actions).sinkLog p x.sinksOpened =
        (x.refusal name).map .call := by
  obtain ⟨earlier, hrun, hplay⟩ := run_split _ actions htrace
  obtain rfl := Transition.effects_of_refused hplay haction hdoing hrefused
  refine ⟨rfl, ?_⟩
  obtain ⟨crew, id, y, -, hhistory, -⟩ := run_history config decoders outputs actions p
  exact hhistory.sinkLog_of_over (Run.deeds_of_split htrace hdoing)
    (Presentation.sinkUses_map_sink ..) (x.over_refusal name) (List.cons_ne_nil _ _)

theorem flush_of_idle (config : Config) (decoders : DecoderBackends H.Codec)
    (outputs : AudioBackends H.Output) (earlier : List (Action H)) {p : Key}
    {past : List (Transition H)}
    {t : Transition H} {a : ActorId} {x : Presentation H} {effects : List (Effect H)}
    (hrun : (initial config decoders outputs).run earlier = ⟨t.before, past⟩)
    (hplay : t.before.play t.action = some t.progress)
    (hdoing : t.doing? p = some (a, ⟨x, .flushSink, effects⟩)) (hidle : x.isRunning = false)
    (hwhole : (⟨t.before, past⟩ : Run H).brokeOff p = false) : effects = [] := by
  obtain ⟨answers, rest, -, -, hx, hperform⟩ := Transition.perform_of_doing hplay hdoing
  have hsink : x.sink = none :=
    unbound_of_idle config decoders outputs earlier (by rw [hrun]; exact hx) hidle
      (by rw [hrun]; exact hwhole)
  rcases hperform with ⟨move, hmove, -, heffects⟩ | ⟨-, -, heffects⟩
  · cases hmove
    rw [heffects, hsink]
    rfl
  · exact heffects

/-- The sinks of a presentation are opened, used and released in order, whatever becomes of its
threads, and only a thread that breaks off leaves one behind. -/
theorem sinks_tended (config : Config) (decoders : DecoderBackends H.Codec)
    (outputs : AudioBackends H.Output) (actions : List (Action H)) (p : Key) :
    ((initial config decoders outputs).run actions).TendsSinks p := by
  obtain ⟨x, horder, hfinal⟩ := run_sinksInOrder config decoders outputs actions p
  have hbound : ∀ n, x.boundSerial = some n ↔
      InUse (((initial config decoders outputs).run actions).sinkLog p n) := by
    intro n
    refine ⟨fun hn => (horder.bound n hn).2, fun hinUse => ?_⟩
    exact Classical.byContradiction fun hn => hinUse.not_over (horder.done n hn)
  refine
    { logs := fun n => ?_
      single := fun n k hn hk => Option.some.inj
        (((hbound n).mpr hn).symm.trans ((hbound k).mpr hk))
      held := fun y hy => hfinal y hy ▸ hbound
      refused := fun _ _ _ _ _ _ _ _ htrace haction hdoing hrefused =>
        sinkLog_of_refused config decoders outputs actions htrace haction hdoing hrefused
      ended := fun past t after x y htrace hx hy hactive hended hwhole => ?_
      idle := fun hwhole y hy hidle => ?_
      flush := fun past t after a x effects htrace hdoing hidle hwhole => ?_ }
  · by_cases hn : x.boundSerial = some n
    · exact .inl (horder.bound n hn).2
    · exact .inr (horder.done n hn)
  · obtain ⟨earlier, hrun, hplay⟩ := run_split _ actions htrace
    have hsink :=
      unbound_of_ended config decoders outputs earlier hrun hplay hx hy hactive hended hwhole
    have hover :=
      over_of_unbound config decoders outputs earlier (x := x) (by rw [hrun]; exact hx) hsink
    rw [hrun] at hover
    exact ⟨hsink, hover⟩
  · have hsink := unbound_of_idle config decoders outputs actions hy hidle hwhole
    exact ⟨hsink, over_of_unbound config decoders outputs actions hy hsink⟩
  · obtain ⟨earlier, hrun, hplay⟩ := run_split _ actions htrace
    exact flush_of_idle config decoders outputs earlier hrun hplay hdoing hidle hwhole

open Playout.Action in
/-- The deadline of this accepted configuration is out of range. The sink that the thread has opened
is not released before the presentation has stopped, and a flush calls it. -/
theorem leftover_sink_flushed :
    let m := initial patient (.standardDecoders ()) (Backends.empty.register "null" ())
    patient.validate = .ok () ∧
      (m.run leftBehind).final.presentations[0]?.map (·.state) = some .stopped ∧
      InUse ((m.run leftBehind).sinkLog 0 0) ∧
      ((m.run (leftBehind ++ calling 0 (.flush 0) 2)).sinkLog 0 0).length =
        ((m.run leftBehind).sinkLog 0 0).length + 1 := by
  have hbound : ((initial patient (.standardDecoders ()) (Backends.empty.register "null" ())).run
      leftBehind).final.presentations[0]?.map (·.boundSerial) = some (some 0) := by decide +kernel
  obtain ⟨x, horder, hfinal⟩ :=
    run_sinksInOrder patient (.standardDecoders ()) (Backends.empty.register "null" ()) leftBehind 0
  obtain ⟨y, hy, hserial⟩ := Option.map_eq_some_iff.mp hbound
  obtain rfl := hfinal y hy
  exact ⟨by decide, by decide +kernel, (horder.bound 0 hserial).2, by decide +kernel⟩

end Machine

end Playout
