import Mathlib.Data.Finset.Card
import Mathlib.Data.List.Perm.Subperm
import Playout.Proofs.Delivery.Whereabouts
import Playout.Proofs.Lifecycle.Parts

/-!
# What is owed

A push that succeeds is owed one acknowledgment, and one that fails is owed none. A host may give
the same receiver to several pushes, so that this is a matter of numbers: those who hear of a sample
of some number and duration hear of it no more often than pushes have asked for that, and a push
that has failed, or has not returned yet, does not count.
-/

namespace Playout

variable {H : Platform} {p : Key}

/-- What a push wants to be acknowledged: who is to hear of it, and the number and the duration
to be named. -/
abbrev Demand (ρ : Type) :=
  ρ × UInt32 × UInt64

def Chunk.demand {ρ : Type} (chunk : Chunk ρ) : Demand ρ :=
  (chunk.receiver, chunk.sampleId, chunk.duration)

def Ticket.demand {ρ : Type} (ticket : Ticket ρ) : Demand ρ :=
  (ticket.receiver, ticket.sampleId, ticket.duration)

def Push.isFor (push : Push H) (p : Key) (f : Demand H.Receiver → Bool) : Bool :=
  push.handle.presentation == p && f push.chunk.demand

def Transition.asks (t : Transition H) (p : Key) (f : Demand H.Receiver → Bool) : Bool :=
  match t.action with
  | .call _ (.push handle chunk) => handle.presentation == p && f chunk.demand
  | _ => false

def asked (trace : List (Transition H)) (p : Key) (f : Demand H.Receiver → Bool) : Nat :=
  trace.countP (·.asks p f)

def answered (trace : List (Transition H)) (p : Key) (f : Demand H.Receiver → Bool) : Nat :=
  (Ledger.acknowledged (trace.flatMap (·.effects p))).countP fun ticket => f ticket.demand

def Transition.Gives (t : Transition H) (receiver : H.Receiver) : Prop :=
  ∃ a handle chunk, t.action = .call a (.push handle chunk) ∧ chunk.receiver = receiver

/-- Nobody hears of a push. There are no more acknowledgments than other pushes have asked for, and
its receiver gets none at all unless it was given to one of those. -/
structure Unheard (chunk : Chunk H.Receiver) (trace others : List (Transition H)) : Prop where
  counted : ∀ p f, answered trace p f ≤ asked others p f
  none : (∀ t ∈ others, ¬ t.Gives chunk.receiver) →
    ∀ t ∈ trace, ∀ p, ∀ ticket ∈ Ledger.acknowledged (t.effects p), ticket.receiver ≠ chunk.receiver

theorem Unheard.of_counted {trace others : List (Transition H)}
    (h : ∀ p f, answered trace p f ≤ asked others p f)
    (chunk : Chunk H.Receiver) : Unheard chunk trace others where
  counted := h
  none := by
    classical
    intro hothers t ht p ticket hticket hreceiver
    have hnone : asked others p (fun demand => decide (demand.1 = chunk.receiver)) = 0 := by
      refine List.countP_eq_zero.mpr fun u hu hasks => hothers u hu ?_
      unfold Transition.asks at hasks
      split at hasks
      · rename_i b handle other haction
        simp only [Bool.and_eq_true, decide_eq_true_eq] at hasks
        exact ⟨b, handle, other, haction, hasks.2⟩
      · cases hasks
    have hzero := Nat.le_zero.mp (hnone ▸ h p fun demand => decide (demand.1 = chunk.receiver))
    have hmem : ticket ∈ Ledger.acknowledged (trace.flatMap (·.effects p)) := by
      obtain ⟨e, he, hticket⟩ := List.mem_filterMap.mp hticket
      exact List.mem_filterMap.mpr ⟨e, List.mem_flatMap.mpr ⟨t, ht, he⟩, hticket⟩
    exact List.countP_eq_zero.mp hzero ticket hmem (decide_eq_true hreceiver)

theorem Push.Yields.demand_eq {push : Push H} {sample : Sample H.Receiver}
    (h : push.Yields sample) :
    push.chunk.demand = sample.ticket.demand := by
  obtain ⟨x, stream, bound, decoder, -, -, -, -, rfl⟩ := h
  rfl

/-! ## Accepted pushes -/

namespace Pushes

variable {j : Pushes H} {t : Transition H} {a : ActorId} {answers : Answers H} {push : Push H}

theorem note_idle (ht : t.action = .step a answers) (hpush : j.pending a = none) :
    j.note t = j := by
  simp [note, ht, hpush]

theorem note_going (ht : t.action = .step a answers) (hpush : j.pending a = some push)
    (hresult : t.progress.result = none) :
    j.note t = j.set a
      (some { push with seen := t.before.presentations[push.handle.presentation]? }) := by
  simp [note, ht, hpush, hresult]

theorem note_failed {e : MediaError} (ht : t.action = .step a answers)
    (hpush : j.pending a = some push)
    (hresult : t.progress.result = some (.error e)) : j.note t = j.set a none := by
  simp [note, ht, hpush, hresult]

theorem note_accepted (ht : t.action = .step a answers) (hpush : j.pending a = some push)
    (hresult : t.progress.result = some (.ok ())) :
    j.note t = { j.set a none with accepted := j.accepted ++ [push] } := by
  simp [note, ht, hpush, hresult]

/-- Among `n` pushes with demands of this kind are those that have been accepted and those that may
still be accepted, whatever becomes of the push of one actor. -/
def Covered (j : Pushes H) (p : Key) (f : Demand H.Receiver → Bool) (exempt : Option ActorId)
    (n : Nat) : Prop :=
  ∃ due : Finset ActorId,
    (∀ b push, j.pending b = some push → push.isFor p f → b ∈ due ∨ exempt = some b) ∧
      j.accepted.countP (·.isFor p f) + due.card ≤ n

namespace Covered

variable {f : Demand H.Receiver → Bool} {exempt : Option ActorId} {n : Nat}

theorem empty (p : Key) (f : Demand H.Receiver → Bool) :
    (Pushes.empty : Pushes H).Covered p f none 0 :=
  ⟨∅, by simp [Pushes.empty], by simp [Pushes.empty]⟩

theorem accepted_le (h : j.Covered p f exempt n) : j.accepted.countP (·.isFor p f) ≤ n := by
  obtain ⟨due, -, hcount⟩ := h
  omega

theorem mono {k : Nat} (h : j.Covered p f exempt n) (hk : n ≤ k) : j.Covered p f exempt k := by
  obtain ⟨due, hdue, hcount⟩ := h
  exact ⟨due, hdue, Nat.le_trans hcount hk⟩

/-- The push of an actor is over, or gets as far as `push?`. -/
theorem set {push? : Option (Push H)} (h : j.Covered p f exempt n)
    (hself : ∀ push, push? = some push → push.isFor p f →
      (∃ old, j.pending a = some old ∧ old.isFor p f) ∨ exempt = some a) :
    (j.set a push?).Covered p f exempt n := by
  obtain ⟨due, hdue, hcount⟩ := h
  refine ⟨due, fun b push hb hfor => ?_, hcount⟩
  by_cases hba : b = a
  · subst hba
    rw [set_pending_self] at hb
    rcases hself push hb hfor with ⟨old, hold, hfor'⟩ | hexempt
    · exact hdue b old hold hfor'
    · exact .inr hexempt
  · rw [set_pending_of_ne _ _ hba] at hb
    exact hdue b push hb hfor

theorem call {handle : Handle} {chunk : Chunk H.Receiver} (h : j.Covered p f exempt n)
    (ht : t.action = .call a (.push handle chunk)) :
    (j.note t).Covered p f exempt (n + (t.asks p f).toNat) := by
  have hnote : j.note t = j.set a (some ⟨handle, chunk, none⟩) := by simp [note, ht]
  have hasks : t.asks p f = (⟨handle, chunk, none⟩ : Push H).isFor p f := by
    simp [Transition.asks, ht, Push.isFor]
  rw [hnote]
  cases hfor : t.asks p f with
  | false =>
      refine h.set fun push hpush hisFor => ?_
      cases hpush
      rw [← hasks, hfor] at hisFor
      cases hisFor
  | true =>
      obtain ⟨due, hdue, hcount⟩ := h
      refine ⟨insert a due, fun b push hb hisFor => ?_, ?_⟩
      · by_cases hba : b = a
        · exact .inl (hba ▸ Finset.mem_insert_self a due)
        · rw [set_pending_of_ne _ _ hba] at hb
          exact (hdue b push hb hisFor).imp_left Finset.mem_insert_of_mem
      · have hcard := Finset.card_insert_le a due
        have hsame : (j.set a (some ⟨handle, chunk, none⟩)).accepted = j.accepted := rfl
        rw [hsame, Bool.toNat_true]
        omega

theorem accept {push : Push H} (h : j.Covered p f exempt n) (hpush : j.pending a = some push)
    (hexempt : exempt ≠ some a) :
    ({ j.set a none with accepted := j.accepted ++ [push] } : Pushes H).Covered p f exempt n := by
  cases hfor : push.isFor p f with
  | false =>
      obtain ⟨due, hdue, hcount⟩ : (j.set a none).Covered p f exempt n := h.set (by simp)
      refine ⟨due, hdue, ?_⟩
      rw [List.countP_append, List.countP_singleton, hfor]
      exact hcount
  | true =>
      obtain ⟨due, hdue, hcount⟩ := h
      have hmem : a ∈ due := (hdue a push hpush hfor).resolve_right hexempt
      refine ⟨due.erase a, fun b other hb hisFor => ?_, ?_⟩
      · by_cases hba : b = a
        · subst hba
          rw [show ({ j.set b none with accepted := j.accepted ++ [push] } : Pushes H).pending b =
            none from
            set_pending_self ..] at hb
          cases hb
        · have hother := hdue b other ((set_pending_of_ne j none hba).symm.trans hb) hisFor
          exact hother.imp_left (Finset.mem_erase_of_ne_of_mem hba)
      · have hcard := Finset.card_erase_add_one hmem
        rw [List.countP_append, List.countP_singleton, hfor]
        simp only [if_true]
        omega

/-- A transition covers what it asks for, unless the push of which nothing is known yet returns. -/
theorem note (h : j.Covered p f exempt n) (hbusy : ∀ a, exempt = some a → t.returns a = false) :
    (j.note t).Covered p f exempt (n + (t.asks p f).toNat) := by
  have hmore : n ≤ n + (t.asks p f).toNat := Nat.le_add_right _ _
  cases haction : t.action with
  | call a c =>
      cases c with
      | push handle chunk => exact h.call haction
      | _ =>
          rw [Pushes.note, haction]
          exact h.mono hmore
  | reclaim | addHost =>
      rw [Pushes.note, haction]
      exact h.mono hmore
  | step a answers =>
      cases hpush : j.pending a with
      | none =>
          rw [note_idle haction hpush]
          exact h.mono hmore
      | some push =>
          cases hresult : t.progress.result with
          | none =>
              rw [note_going haction hpush hresult]
              refine (h.set fun next hnext hfor => ?_).mono hmore
              cases hnext
              exact .inl ⟨push, hpush, hfor⟩
          | some result =>
              rcases result with e | ⟨⟩
              · rw [note_failed haction hpush hresult]
                exact (h.set (by simp)).mono hmore
              · rw [note_accepted haction hpush hresult]
                refine (h.accept hpush fun hexempt => ?_).mono hmore
                have hquiet := hbusy a hexempt
                simp [Transition.returns, haction, hresult] at hquiet

theorem foldl {trace : List (Transition H)} (h : j.Covered p f exempt n)
    (hbusy : ∀ t ∈ trace, ∀ a, exempt = some a → t.returns a = false) :
    (trace.foldl Pushes.note j).Covered p f exempt (n + asked trace p f) := by
  induction trace generalizing j n with
  | nil => exact h
  | cons t trace ih =>
      have hrest := ih (h.note (hbusy t List.mem_cons_self)) fun u hu =>
          hbusy u (List.mem_cons_of_mem t hu)
      have hcount : asked (t :: trace) p f = (t.asks p f).toNat + asked trace p f := by
        cases hasks : t.asks p f <;> simp [asked, hasks, Nat.add_comm]
      rw [hcount, ← Nat.add_assoc]
      exact hrest

theorem exempt_call {handle : Handle} {chunk : Chunk H.Receiver} (h : j.Covered p f none n)
    (ht : t.action = .call a (.push handle chunk)) : (j.note t).Covered p f (some a) n := by
  obtain ⟨due, hdue, hcount⟩ := h
  have hexempt : j.Covered p f (some a) n :=
    ⟨due, fun b push hb hfor => .inl ((hdue b push hb hfor).resolve_right (by simp)), hcount⟩
  rw [Pushes.note, ht]
  exact hexempt.set fun _ _ _ => .inr rfl

/-- A push that was left out of account fails. -/
theorem exempt_fail {e : MediaError} (h : j.Covered p f (some a) n)
    (ht : t.action = .step a answers)
    (hresult : t.progress.result = some (.error e)) : (j.note t).Covered p f none n := by
  have hover : (j.note t).pending a = none ∧ (j.note t).Covered p f (some a) n := by
    cases hpush : j.pending a with
    | none =>
        rw [note_idle ht hpush]
        exact ⟨hpush, h⟩
    | some push =>
        rw [note_failed ht hpush hresult]
        exact ⟨set_pending_self .., h.set (by simp)⟩
  obtain ⟨hnone, due, hdue, hcount⟩ := hover
  refine ⟨due, fun b push hb hfor => .inl ((hdue b push hb hfor).resolve_right fun hba => ?_),
    hcount⟩
  cases hba
  rw [hnone] at hb
  cases hb

end Covered

/-- While a push has not returned, all accepted ones are others. -/
theorem covered_of_underway {f : Demand H.Receiver → Bool} {past between : List (Transition H)}
    {first : Transition H} {handle : Handle} {chunk : Chunk H.Receiver}
    (hcalled : first.action = .call a (.push handle chunk))
    (hbusy : ∀ t ∈ between, t.returns a = false) :
    ((past ++ first :: between).foldl Pushes.note .empty).Covered p f (some a)
    (asked (past ++ between) p f) := by
  have hpast : (past.foldl Pushes.note .empty).Covered p f none (0 + asked past p f) :=
    (Covered.empty p f).foldl (by simp)
  have hcount : asked (past ++ between) p f = 0 + asked past p f + asked between p f := by
    simp [asked]
  rw [List.foldl_append, List.foldl_cons, hcount]
  exact (hpast.exempt_call hcalled).foldl (by simpa using hbusy)

end Pushes

/-! ## Acknowledgments -/

theorem Scene.Settled.acknowledged_le {effects : List (Effect H)} {scene : Scene H}
    (h : Settled effects scene) (f : Ticket H.Receiver → Bool) :
    (Ledger.acknowledged effects).countP f ≤
    ((Ledger.entered effects).map (·.ticket)).countP f := by
  classical
  have hdeparted : ((Ledger.departed effects).map (·.1)).Subperm (Ledger.entered effects) := by
    refine List.subperm_ext_iff.mpr fun sample _ => ?_
    have hstream := congrArg (List.count sample) (h.queues sample.streamId)
    rw [List.count_append, Sample.ofStream, Sample.ofStream, List.count_filter (by simp),
      List.count_filter (by simp)] at hstream
    omega
  have hdelivered : (Ledger.delivered (Ledger.departed effects)).Sublist
      ((Ledger.departed effects).map (·.1)) :=
    List.filter_sublist.map _
  have hhand : (Ledger.delivered (Ledger.departed effects)).map (·.ticket) =
      Ledger.acknowledged effects ++ (Standing.inHand scene.standing).map (·.ticket) := by
    rw [Ledger.delivered_departed, List.map_map]
    exact h.hand
  calc
    (Ledger.acknowledged effects).countP f
      ≤ ((Ledger.delivered (Ledger.departed effects)).map (·.ticket)).countP f := by
        rw [hhand, List.countP_append]
        exact Nat.le_add_right _ _
    _ ≤ ((Ledger.entered effects).map (·.ticket)).countP f := by
        rw [List.countP_map, List.countP_map]
        exact (hdelivered.subperm.trans hdeparted).countP_le _

namespace Machine

variable {config : Config} {decoders : DecoderBackends H.Codec} {outputs : AudioBackends H.Output}
  {actions : List (Action H)} {past between after : List (Transition H)} {first last : Transition H}
  {a : ActorId} {handle : Handle} {chunk : Chunk H.Receiver}

theorem answered_le_accepted (config : Config) (decoders : DecoderBackends H.Codec)
    (outputs : AudioBackends H.Output) (actions : List (Action H)) (p : Key)
    (f : Demand H.Receiver → Bool) :
    answered ((initial config decoders outputs).run actions).trace p f ≤
      ((initial config decoders outputs).run actions).pushes.accepted.countP (·.isFor p f) := by
  obtain ⟨crew, id, x, -, hhistory, -⟩ := run_history config decoders outputs actions p
  have hsettled := hhistory.settled
  rw [← run_effects] at hsettled
  have haccepted := (run_followed config decoders outputs actions).accepted p
  generalize (initial config decoders outputs).run actions = r at hsettled haccepted ⊢
  have hdemands : (r.accepted p).map (·.chunk.demand) =
      (Ledger.entered (r.effects p)).map (·.ticket.demand) := by
    refine List.forall₂_eq_eq_eq ▸ List.forall₂_map_left_iff.mpr (List.forall₂_map_right_iff.mpr ?_)
    exact haccepted.imp fun push sample hyields => hyields.demand_eq
  calc
    answered r.trace p f
      ≤ ((Ledger.entered (r.effects p)).map (·.ticket)).countP fun ticket => f ticket.demand :=
        hsettled.acknowledged_le _
    _ = ((Ledger.entered (r.effects p)).map (·.ticket.demand)).countP f := by
        rw [List.countP_map, List.countP_map]
        rfl
    _ = r.pushes.accepted.countP (·.isFor p f) := by
        rw [← hdemands, List.countP_map, Run.accepted, Pushes.acceptedBy, List.countP_filter]
        refine List.countP_congr fun push _ => ?_
        simp [Push.isFor, and_comm]

/-- While a push has not returned, what is acknowledged is what other pushes have asked for. -/
theorem answered_le_of_underway (f : Demand H.Receiver → Bool)
    (htrace : ((initial config decoders outputs).run actions).trace = past ++ first :: between)
    (hcalled : first.action = .call a (.push handle chunk))
    (hbusy : ∀ t ∈ between, t.returns a = false) :
    answered (past ++ first :: between) p f ≤ asked (past ++ between) p f := by
  have hanswered := answered_le_accepted config decoders outputs actions p f
  rw [Run.pushes, htrace] at hanswered
  exact Nat.le_trans hanswered (Pushes.covered_of_underway hcalled hbusy).accepted_le

/-- What is acknowledged is what others than a push that fails ask for, for all time to come. -/
theorem answered_le_of_failed {e : MediaError} (f : Demand H.Receiver → Bool)
    (htrace : ((initial config decoders outputs).run actions).trace =
      past ++ first :: (between ++ last :: after))
    (h : Makes a (.push handle chunk) first between last)
    (hresult : last.progress.result = some (.error e)) :
    answered (past ++ first :: (between ++ last :: after)) p f ≤
      asked (past ++ (between ++ last :: after)) p f := by
  obtain ⟨answers, hlast⟩ := Transition.isBy_of_returns h.returned
  have hunderway : ((past ++ first :: between).foldl Pushes.note .empty).Covered p f (some a)
      (asked (past ++ between) p f) := Pushes.covered_of_underway h.called h.busy
  have hcovered :
      (after.foldl Pushes.note
        (((past ++ first :: between).foldl Pushes.note .empty).note last)).Covered p f none
        (asked (past ++ between) p f + asked after p f) :=
    (hunderway.exempt_fail hlast hresult).foldl (by simp)
  have hsplit : past ++ first :: (between ++ last :: after) =
      (past ++ first :: between) ++ last :: after := by simp
  have hcount : asked (past ++ (between ++ last :: after)) p f =
      asked (past ++ between) p f + asked after p f := by
    have hasks : last.asks p f = false := by simp [Transition.asks, hlast]
    simp [asked, hasks, Nat.add_assoc]
  have hanswered := answered_le_accepted config decoders outputs actions p f
  rw [Run.pushes, htrace, hsplit, List.foldl_append, List.foldl_cons] at hanswered
  rw [hsplit, hcount]
  exact Nat.le_trans hanswered hcovered.accepted_le

end Machine

end Playout
