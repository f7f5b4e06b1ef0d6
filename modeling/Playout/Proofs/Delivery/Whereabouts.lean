import Playout.Proofs.Delivery.Pushes

/-!
# Where every sample is

Samples leave their queues to be delivered or discarded, and acknowledgments come in the order of
the releases. Counting acknowledgments therefore tells of every sample that was ever accepted
where it is: in its queue, underway, acknowledged, or discarded. The count also shows that the
last two are final.
-/

namespace Playout

variable {H : Platform}

inductive Place where
  | waiting
  | underway
  | acknowledged
  | discarded
  deriving DecidableEq, Repr

namespace Ledger

variable {ρ : Type}

/-- Where samples are that have left their queues, when `n` releases have been acknowledged. -/
def settle : Nat → List (Sample ρ × Fate) → List (Sample ρ × Place)
  | _, [] => []
  | n, (sample, .discarded) :: rest => (sample, .discarded) :: settle n rest
  | 0, (sample, .released) :: rest => (sample, .underway) :: settle 0 rest
  | n + 1, (sample, .released) :: rest => (sample, .acknowledged) :: settle n rest

theorem settle_map_fst (n : Nat) (gone : List (Sample ρ × Fate)) :
    (settle n gone).map (·.1) = gone.map (·.1) := by
  induction gone generalizing n with
  | nil => rfl
  | cons first rest ih =>
      obtain ⟨sample, fate⟩ := first
      cases fate with
      | discarded => simp [settle, ih]
      | released => cases n <;> simp [settle, ih]

/-- The released samples among those that have left their queues. -/
def delivered (gone : List (Sample ρ × Fate)) : List (Sample ρ) :=
  (gone.filter (·.2 == .released)).map (·.1)

theorem settle_acknowledged (n : Nat) (gone : List (Sample ρ × Fate)) :
    ((settle n gone).filter (·.2 == .acknowledged)).map (·.1) = (delivered gone).take n := by
  induction gone generalizing n with
  | nil => simp [settle, delivered]
  | cons first rest ih =>
      obtain ⟨sample, fate⟩ := first
      cases fate with
      | discarded => simpa [settle, delivered] using ih n
      | released =>
          cases n with
          | zero => simpa [settle, delivered] using ih 0
          | succ n => simpa [settle, delivered] using ih n

theorem settle_underway (n : Nat) (gone : List (Sample ρ × Fate)) :
    ((settle n gone).filter (·.2 == .underway)).map (·.1) = (delivered gone).drop n := by
  induction gone generalizing n with
  | nil => simp [settle, delivered]
  | cons first rest ih =>
      obtain ⟨sample, fate⟩ := first
      cases fate with
      | discarded => simpa [settle, delivered] using ih n
      | released =>
          cases n with
          | zero => simpa [settle, delivered] using ih 0
          | succ n => simpa [settle, delivered] using ih n

/-- Later samples and acknowledgments change nothing for those that are acknowledged or discarded.
-/
theorem settle_stays {n k : Nat} {gone more : List (Sample ρ × Fate)} {i : Nat} {sample : Sample ρ}
    {place : Place} (hnk : n ≤ k) (hi : (settle n gone)[i]? = some (sample, place)) :
    ∃ later, (settle k (gone ++ more))[i]? = some (sample, later) ∧
      (place = .underway ∨ later = place) := by
  induction gone generalizing n k i with
  | nil => simp [settle] at hi
  | cons first rest ih =>
      obtain ⟨other, fate⟩ := first
      cases fate with
      | discarded =>
          cases i with
          | zero =>
              simp only [settle, List.getElem?_cons_zero, Option.some.injEq, Prod.mk.injEq] at hi
              obtain ⟨rfl, rfl⟩ := hi
              exact ⟨.discarded, by simp [settle], .inr rfl⟩
          | succ i =>
              simp only [settle, List.getElem?_cons_succ] at hi
              simpa [settle] using ih hnk hi
      | released =>
          cases n with
          | zero =>
              cases i with
              | zero =>
                  simp only [settle, List.getElem?_cons_zero, Option.some.injEq,
                    Prod.mk.injEq] at hi
                  obtain ⟨rfl, rfl⟩ := hi
                  cases k with
                  | zero => exact ⟨.underway, by simp [settle], .inl rfl⟩
                  | succ k => exact ⟨.acknowledged, by simp [settle], .inl rfl⟩
              | succ i =>
                  simp only [settle, List.getElem?_cons_succ] at hi
                  cases k with
                  | zero => simpa [settle] using ih (Nat.le_refl 0) hi
                  | succ k => simpa [settle] using ih (Nat.zero_le k) hi
          | succ n =>
              obtain ⟨k, rfl⟩ : ∃ l, k = l + 1 := ⟨k - 1, by omega⟩
              cases i with
              | zero =>
                  simp only [settle, List.getElem?_cons_zero, Option.some.injEq,
                    Prod.mk.injEq] at hi
                  obtain ⟨rfl, rfl⟩ := hi
                  exact ⟨.acknowledged, by simp [settle], .inr rfl⟩
              | succ i =>
                  simp only [settle, List.getElem?_cons_succ] at hi
                  simpa [settle] using ih (Nat.le_of_succ_le_succ hnk) hi

theorem delivered_departed (effects : List (Effect H)) :
    delivered (departed effects) = (released effects).map (·.sample) := by
  induction effects with
  | nil => rfl
  | cons e effects ih =>
      have hhead : delivered e.departures = (e.release?.toList).map (·.sample) := by
        cases e <;> simp [delivered, Effect.departures, Effect.release?, List.filter_map]
      rw [delivered, departed, List.flatMap_cons, List.filter_append, List.map_append,
        ← delivered, ← departed, ← delivered, hhead, ih, released, released, List.filterMap_cons]
      cases e.release? <;> rfl

end Ledger

/-- What the acknowledgment of a push has to say: the number and the duration it was given, and the
size of what the decoder made of its chunk. -/
structure Push.Expects (push : Push H) (payload : Option Payload) (ticket : Ticket H.Receiver) :
    Prop where
  receiver : ticket.receiver = push.chunk.receiver
  sampleId : ticket.sampleId = push.chunk.sampleId
  duration : ticket.duration = push.chunk.duration
  size : ∀ decoded, payload = some decoded → decoded.size < UInt32.size →
    ticket.size.toNat = decoded.size
  noSize : payload = none → ticket.size = 0

theorem Push.Yields.expects {push : Push H} {sample : Sample H.Receiver} (h : push.Yields sample) :
    push.Expects sample.payload sample.ticket := by
  obtain ⟨x, stream, bound, decoder, -, -, -, -, rfl⟩ := h
  refine ⟨rfl, rfl, rfl, fun decoded hdecoded hsize => ?_, fun hnone => ?_⟩
  · replace hdecoded : (H.decoderOps.take decoder).2 = some decoded := hdecoded
    simp only [Sample.new, Sample.ticket, Sample.reportedSize, hdecoded, if_pos hsize]
    exact UInt32.toNat_ofNat_of_lt' hsize
  · replace hnone : (H.decoderOps.take decoder).2 = none := hnone
    simp [Sample.new, Sample.ticket, Sample.reportedSize, hnone]

namespace Run

def waiting (r : Run H) (p : Key) (s : StreamId) : List (Sample H.Receiver) :=
  (r.final.presentations[p]?.map (·.waiting s)).getD []

/-- The samples that have left their queues, and where they are. -/
def gone (r : Run H) (p : Key) : List (Sample H.Receiver × Place) :=
  Ledger.settle (Ledger.acknowledged (r.effects p)).length (Ledger.departed (r.effects p))

/-- Where the samples of a stream are, the one that was queued first in front. -/
def places (r : Run H) (p : Key) (s : StreamId) : List (Sample H.Receiver × Place) :=
  (r.gone p).filter (·.1.streamId == s) ++ (r.waiting p s).map (·, .waiting)

/-- Every accepted sample is in one place, and what is acknowledged is what the places say. -/
structure Conserves (r : Run H) (p : Key) : Prop where
  /-- The pushes that succeeded are, one by one, those whose samples entered a queue. -/
  accepted : List.Forall₂
    (fun push sample => push.Yields sample ∧ push.Expects sample.payload sample.ticket)
    (r.accepted p) (Ledger.entered (r.effects p))
  placed : ∀ s, Sample.ofStream s (Ledger.entered (r.effects p)) = (r.places p s).map (·.1)
  acknowledged : Ledger.acknowledged (r.effects p) =
    ((r.gone p).filter (·.2 == .acknowledged)).map (·.1.ticket)
  underway : (r.final.underway p).map (·.ticket) =
    ((r.gone p).filter (·.2 == .underway)).map (·.1.ticket)
  single : (r.final.underway p).length ≤ 1
  /-- The samples of each stream are acknowledged in the order in which they were queued. -/
  inOrder : ∀ s, (Sample.ofStream s (((r.gone p).filter (·.2 == .acknowledged)).map (·.1))).Sublist
    (Sample.ofStream s (Ledger.entered (r.effects p)))

end Run

theorem Run.conserves {r : Run H} {p : Key} {crew : Crew H} {id : PresentationId}
    {x : Presentation H} (hcrew : Crewed r.final p crew)
    (hhistory : Scene.History (.new id) (r.deeds p) ⟨x, crew.standing⟩)
    (hx : r.final.presentations[p]?.getD (.new id) = x) (hfollowed : r.Followed)
    (heffects : r.effects p = Deed.effectsOf (r.deeds p)) : r.Conserves p := by
  have hsettled := hhistory.settled
  rw [← heffects] at hsettled
  have hwaiting : ∀ s, x.waiting s = r.waiting p s := fun s => by
    rw [← hx, Run.waiting]
    cases r.final.presentations[p]? <;> rfl
  -- the acknowledged samples are the first ones that were released, those underway are the others
  have hreleased : ((Ledger.delivered (Ledger.departed (r.effects p))).map (·.ticket)) =
      Ledger.acknowledged (r.effects p) ++ (r.final.underway p).map (·.ticket) := by
    rw [Ledger.delivered_departed, List.map_map, hcrew.underway_eq]
    exact hsettled.hand
  have hplace : ∀ place, ((r.gone p).filter (·.2 == place)).map (·.1.ticket) =
      (((r.gone p).filter (·.2 == place)).map (·.1)).map (·.ticket) := fun place => by
    rw [List.map_map]
    rfl
  have hgone : ∀ s, Sample.ofStream s (Ledger.entered (r.effects p)) =
      Sample.ofStream s ((r.gone p).map (·.1)) ++ r.waiting p s := fun s => by
    rw [hsettled.queues s, hwaiting, Run.gone, Ledger.settle_map_fst]
  refine ⟨?_, fun s => ?_, ?_, ?_, ?_, fun s => ?_⟩
  · exact (hfollowed.accepted p).imp fun push sample hyields => ⟨hyields, hyields.expects⟩
  · rw [hgone s, Run.places, List.map_append, List.map_map, Sample.ofStream, List.filter_map]
    simp [Function.comp_def]
  · rw [hplace, Run.gone, Ledger.settle_acknowledged, List.map_take, hreleased, List.take_left]
  · rw [hplace, Run.gone, Ledger.settle_underway, List.map_drop, hreleased, List.drop_left]
  · rw [hcrew.underway_eq]
    rcases crew.standing with _ | s
    · simp [Standing.inHand]
    · cases s <;> simp [Standing.inHand]
  · rw [hgone s]
    exact ((List.filter_sublist.map _).filter _).trans (List.sublist_append_left _ _)

theorem Machine.run_effects_append (m : Machine H) (actions more : List (Action H)) (p : Key) :
    ∃ effects, (m.run (actions ++ more)).effects p = (m.run actions).effects p ++ effects := by
  obtain ⟨trace, htrace⟩ := trace_prefix m actions more
  exact ⟨trace.flatMap
    (·.effects p), by rw [Run.effects, Run.effects, ← htrace, List.flatMap_append]⟩

/-- At every moment of every run, each sample whose push has succeeded is in exactly one place: in
its stream's queue, underway, acknowledged once and in order, or discarded. However the run goes on,
the acknowledged samples and the discarded ones remain so. -/
theorem Machine.samples_conserved (config : Config) (decoders : DecoderBackends H.Codec)
    (outputs : AudioBackends H.Output) (actions more : List (Action H)) (p : Key) :
    let r := (initial config decoders outputs).run actions
    let later := (initial config decoders outputs).run (actions ++ more)
    r.Conserves p ∧
      Ledger.entered (r.effects p) <+: Ledger.entered (later.effects p) ∧
      Ledger.acknowledged (r.effects p) <+: Ledger.acknowledged (later.effects p) ∧
      ∀ (i : Nat) (sample : Sample H.Receiver) (place : Place),
        (r.gone p)[i]? = some (sample, place) →
        ∃ place', (later.gone p)[i]? = some (sample, place') ∧
          (place = .underway ∨ place' = place) := by
  intro r later
  obtain ⟨effects, heffects⟩ := run_effects_append (initial config decoders outputs) actions more p
  replace heffects : later.effects p = r.effects p ++ effects := heffects
  obtain ⟨crew, id, x, hcrew, hhistory, hx⟩ := run_history config decoders outputs actions p
  have hconserves : r.Conserves p := Run.conserves hcrew hhistory hx
    (run_followed config decoders outputs actions) (run_effects _ actions p)
  refine ⟨hconserves, ?_, ?_, fun i sample place hi => ?_⟩
  · rw [heffects, Ledger.entered_append]
    exact List.prefix_append _ _
  · rw [heffects, Ledger.acknowledged_append]
    exact List.prefix_append _ _
  · rw [Run.gone, heffects, Ledger.departed_append]
    refine Ledger.settle_stays ?_ hi
    rw [Ledger.acknowledged_append, List.length_append]
    exact Nat.le_add_right _ _

end Playout
