import Playout.Decoder.Passthrough
import Playout.Proofs.Histories

/-!
# Conversations with a decoder

Whoever holds a decoder tells it formats, gives it chunks and takes what it has, in any order and
whatever the answers are. Passthrough needs to keep little of this in mind: whether it was ever told
a major type, and what the latest chunk gave if nobody has taken it. So its answers can be read off
the conversation and what the system says to its requests for memory, and what it hands out is never
left over from a chunk before the latest one.
-/

namespace Playout

inductive DecoderCall where
  | setFormat (media : MediaType)
  | decode (chunk : List UInt8) (flags : SampleFlags)
  | take

/-- What was asked of a decoder, with its answer. -/
inductive DecoderExchange where
  | configured (media : MediaType) (result : Except MediaError Unit)
  | decoded (chunk : List UInt8) (flags : SampleFlags) (result : Except MediaError Unit)
  | taken (output : Option Payload)

namespace DecoderExchange

def call : DecoderExchange → DecoderCall
  | configured media _ => .setFormat media
  | decoded chunk flags _ => .decode chunk flags
  | taken _ => .take

def Tells : DecoderExchange → Prop
  | configured media _ => media.majorType ≠ .unknown
  | _ => False

def Yields (payload : Payload) : DecoderExchange → Prop
  | decoded chunk _ result => result = .ok () ∧ payload = ⟨chunk⟩
  | _ => False

def Refuses : DecoderExchange → Prop
  | decoded _ _ result => result ≠ .ok ()
  | _ => False

def asksMemory : DecoderExchange → Bool
  | decoded _ _ (.ok ()) => true
  | decoded _ _ (.error (.memoryAllocationFailed _)) => true
  | _ => false

/-- The system's answer to the request for memory that comes after this conversation. -/
def Granted (memory : List Bool) (past : List DecoderExchange) : Prop :=
  (memory[past.countP asksMemory]?).getD true = true

def Decodes : DecoderExchange → Prop
  | decoded .. => True
  | _ => False

def Renews : DecoderExchange → Prop
  | configured .. => False
  | _ => True

variable {payload : Payload} {e : DecoderExchange}

theorem Refuses.decodes (h : e.Refuses) : e.Decodes := by
  cases e with
  | decoded => trivial
  | _ => exact h

theorem Decodes.renews (h : e.Decodes) : e.Renews := by
  cases e with
  | configured => exact h
  | _ => trivial

theorem Yields.decodes (h : e.Yields payload) : e.Decodes := by
  cases e with
  | decoded => trivial
  | _ => exact h

theorem Yields.not_refuses (h : e.Yields payload) : ¬ e.Refuses := by
  cases e with
  | decoded => exact fun hrefuses => hrefuses h.1
  | _ => exact h.elim

/-- The answer is what the conversation before it says. A format is taken up if it has a major type.
A chunk is decoded if a major type has been told at any time before, the chunk is not empty and
memory for it is granted; if only the latter fails, the answer says so. Handed out is what the
latest chunk gave, unless it was taken already or the chunk was refused. -/
def Fits (memory : List Bool) (past : List DecoderExchange) : DecoderExchange → Prop
  | configured media result => result = .ok () ↔ media.majorType ≠ .unknown
  | decoded chunk _ result =>
      (result = .ok () ↔ (∃ e ∈ past, e.Tells) ∧ chunk ≠ [] ∧ Granted memory past) ∧
        (result = .error (.memoryAllocationFailed chunk.length) ↔
          (∃ e ∈ past, e.Tells) ∧ chunk ≠ [] ∧ ¬ Granted memory past)
  | taken output => (∀ payload, output = some payload ↔ Since (·.Yields payload) Renews past) ∧
      (Since Refuses Decodes past → output = none)

end DecoderExchange

namespace DecoderOps

variable {δ : Type}

def answer (ops : DecoderOps δ) (d : δ) : DecoderCall → δ × DecoderExchange
  | .setFormat media => ((ops.setFormat d media).1, .configured media (ops.setFormat d media).2)
  | .decode chunk flags =>
      ((ops.decode d chunk flags).1, .decoded chunk flags (ops.decode d chunk flags).2)
  | .take => ((ops.take d).1, .taken (ops.take d).2)

/-- The decoder after all calls, and the conversation. -/
def converse (ops : DecoderOps δ) (d : δ) (calls : List DecoderCall) : δ × List DecoderExchange :=
  calls.foldl (fun (d, past) call => ((ops.answer d call).1, past ++ [(ops.answer d call).2]))
    (d, [])

theorem converse_snoc (ops : DecoderOps δ) (d : δ) (calls : List DecoderCall) (call : DecoderCall) :
    ops.converse d (calls ++ [call]) = ((ops.answer (ops.converse d calls).1 call).1,
      (ops.converse d calls).2 ++ [(ops.answer (ops.converse d calls).1 call).2]) := by
  rw [converse, List.foldl_append]
  rfl

theorem call_answer (ops : DecoderOps δ) (d : δ) (call : DecoderCall) :
    (ops.answer d call).2.call = call := by
  cases call <;> rfl

theorem calls_converse (ops : DecoderOps δ) (d : δ) (calls : List DecoderCall) :
    (ops.converse d calls).2.map (·.call) = calls := by
  induction calls using List.reverseRecOn with
  | nil => rfl
  | append_singleton calls call ih => simp [converse_snoc, ih, call_answer]

end DecoderOps

namespace Passthrough

open DecoderExchange

variable {d : Passthrough} {past : List DecoderExchange} {media : MediaType} {chunk : List UInt8}
  {flags : SampleFlags}

/-! ## Each operation -/

theorem setFormat_eq_ok_iff : (d.setFormat media).2 = .ok () ↔ media.majorType ≠ .unknown := by
  unfold setFormat
  split <;> simp_all

/-- A major type is never forgotten, for a format without one is refused. -/
theorem majorType_setFormat :
    (d.setFormat media).1.majorType ≠ .unknown ↔
      d.majorType ≠ .unknown ∨ media.majorType ≠ .unknown := by
  unfold setFormat
  split <;> simp_all

@[simp] theorem decoded_setFormat : (d.setFormat media).1.decoded = d.decoded := by
  unfold setFormat
  split <;> rfl

@[simp] theorem memory_setFormat : (d.setFormat media).1.memory = d.memory := by
  unfold setFormat
  split <;> rfl

@[simp] theorem grantsNext_mk (output : Option Payload) :
    grantsNext ⟨d.majorType, output, d.memory⟩ = d.grantsNext := rfl

theorem decode_cases (d : Passthrough) (chunk : List UInt8) (flags : SampleFlags) :
    ((d.majorType = .unknown ∨ chunk = []) ∧ ∃ reason, d.decode chunk flags =
      ({ d with decoded := none }, .error (.decodingFailed name reason))) ∨
    ((d.majorType ≠ .unknown ∧ chunk ≠ []) ∧ d.grantsNext = false ∧ d.decode chunk flags =
      ({ d with decoded := none, memory := d.memory.tail },
        .error (.memoryAllocationFailed chunk.length))) ∨
    ((d.majorType ≠ .unknown ∧ chunk ≠ []) ∧ d.grantsNext = true ∧ d.decode chunk flags =
      ({ d with decoded := some ⟨chunk⟩, memory := d.memory.tail }, .ok ())) := by
  by_cases htold : d.majorType = .unknown
  · exact .inl ⟨.inl htold, _, by simp only [decode, htold]; rfl⟩
  · by_cases hempty : chunk = []
    · exact .inl ⟨.inr hempty, _, by simp only [decode, htold, hempty, beq_iff_eq]; rfl⟩
    · right
      cases hgrants : d.grantsNext with
      | false =>
          exact .inl ⟨⟨htold, hempty⟩,
            rfl, by simp [decode, htold, hempty, Payload.copyFromSlice, hgrants]⟩
      | true =>
          exact .inr ⟨⟨htold, hempty⟩,
            rfl, by simp [decode, htold, hempty, Payload.copyFromSlice, hgrants]⟩

@[simp] theorem majorType_decode : (d.decode chunk flags).1.majorType = d.majorType := by
  rcases d.decode_cases chunk flags with ⟨-, _, h⟩ | ⟨-, -, h⟩ | ⟨-, -, h⟩ <;> rw [h]

/-- What was to be had before is gone in any case. -/
theorem decoded_decode {payload : Payload} :
    (d.decode chunk flags).1.decoded = some payload ↔
    (d.decode chunk flags).2 = .ok () ∧ payload = ⟨chunk⟩ := by
  rcases d.decode_cases chunk flags with ⟨-, _, h⟩ | ⟨-, -, h⟩ | ⟨-, -, h⟩ <;> simp [h, eq_comm]

/-- One answer of the system is used up exactly if the exchange says that memory was asked for. -/
theorem memory_decode : (d.decode chunk flags).1.memory =
    d.memory.drop
      ([DecoderExchange.decoded chunk flags (d.decode chunk flags).2].countP asksMemory) := by
  rcases d.decode_cases chunk flags with ⟨-, _, h⟩ | ⟨-, -, h⟩ | ⟨-, -, h⟩ <;> simp [h, asksMemory]

/-! ## What is kept in mind -/

/-- What the decoder has in mind of the conversation, and which answers of the system are left. -/
structure Recalls (memory : List Bool) (d : Passthrough) (past : List DecoderExchange) : Prop where
  majorType : d.majorType ≠ .unknown ↔ ∃ e ∈ past, e.Tells
  decoded : ∀ payload, d.decoded = some payload ↔ Since (·.Yields payload) Renews past
  memory : d.memory = memory.drop (past.countP asksMemory)

namespace Recalls

variable {memory : List Bool}

theorem fresh (memory : List Bool) : Recalls memory (freshWith memory) [] where
  majorType := by simp [freshWith, Passthrough.fresh]
  decoded payload := by simp [freshWith, Passthrough.fresh, Since.not_nil]
  memory := rfl

theorem grantsNext_iff (h : Recalls memory d past) : d.grantsNext = true ↔ Granted memory past := by
  rw [grantsNext, h.memory, List.head?_drop, Granted]

theorem setFormat (h : Recalls memory d past) (media : MediaType) :
    Recalls memory (d.setFormat media).1 (past ++ [.configured media (d.setFormat media).2]) where
  majorType := by
    rw [majorType_setFormat, h.majorType]
    simp [Tells, or_and_right, exists_or]
  decoded payload := by
    rw [decoded_setFormat, h.decoded, Since.snoc_iff]
    simp [Yields, Renews]
  memory := by
    rw [memory_setFormat, h.memory, List.countP_append]
    rfl

theorem decode (h : Recalls memory d past) (chunk : List UInt8) (flags : SampleFlags) :
    Recalls memory (d.decode chunk flags).1
      (past ++ [.decoded chunk flags (d.decode chunk flags).2]) where
  majorType := by
    rw [majorType_decode, h.majorType]
    simp [Tells, or_and_right, exists_or]
  decoded payload := by
    rw [decoded_decode, Since.snoc_iff]
    simp [Yields, Renews]
  memory := by rw [memory_decode, h.memory, List.drop_drop, List.countP_append]

theorem take (h : Recalls memory d past) : Recalls memory d.take.1 (past ++ [.taken d.take.2]) where
  majorType := by
    rw [show d.take.1.majorType = d.majorType from rfl, h.majorType]
    simp [Tells, or_and_right, exists_or]
  decoded payload := by
    rw [show d.take.1.decoded = none from rfl, Since.snoc_iff]
    simp [Yields, Renews]
  memory := by
    rw [show d.take.1.memory = d.memory from rfl, h.memory, List.countP_append]
    rfl

theorem eq_none_of_refused (h : Recalls memory d past) (hrefused : Since Refuses Decodes past) :
    d.decoded = none := by
  cases hdecoded : d.decoded with
  | none => rfl
  | some payload =>
      obtain ⟨e, -, hyields, hrefuses⟩ := ((h.decoded payload).mp hdecoded).exists_common hrefused
        (fun e he => he.decodes) (fun e he => he.decodes.renews)
      exact absurd hrefuses hyields.not_refuses

theorem fits_decode (h : Recalls memory d past) (chunk : List UInt8) (flags : SampleFlags) :
    Fits memory past (.decoded chunk flags (d.decode chunk flags).2) := by
  have htold := h.majorType
  have hgranted := h.grantsNext_iff
  rcases d.decode_cases chunk flags with
    ⟨hnot, _, heq⟩ | ⟨⟨hmajor, hchunk⟩, hno, heq⟩ | ⟨⟨hmajor, hchunk⟩, hyes, heq⟩
  · have hnever : ¬ ((∃ e ∈ past, e.Tells) ∧ chunk ≠ []) := fun hboth =>
      hnot.elim (htold.mpr hboth.1) hboth.2
    rw [heq]
    exact ⟨⟨nofun, fun hall => (hnever ⟨hall.1, hall.2.1⟩).elim⟩,
      ⟨nofun, fun hall => (hnever ⟨hall.1, hall.2.1⟩).elim⟩⟩
  · have hrefused : ¬ Granted memory past := fun hg => by simp [hgranted.mpr hg] at hno
    rw [heq]
    exact ⟨⟨nofun, fun hall => (hrefused hall.2.2).elim⟩,
      fun _ => ⟨htold.mp hmajor, hchunk, hrefused⟩, fun _ => rfl⟩
  · rw [heq]
    exact ⟨⟨fun _ => ⟨htold.mp hmajor, hchunk, hgranted.mp hyes⟩, fun _ => rfl⟩,
      ⟨nofun, fun hall => (hall.2.2 (hgranted.mp hyes)).elim⟩⟩

/-- Every answer fits what the decoder has in mind, and it keeps the answer in mind. -/
theorem answer (h : Recalls memory d past) (call : DecoderCall) :
    Recalls memory (ops.answer d call).1 (past ++ [(ops.answer d call).2]) ∧
      Fits memory past (ops.answer d call).2 := by
  cases call with
  | setFormat media => exact ⟨h.setFormat media, setFormat_eq_ok_iff⟩
  | decode chunk flags => exact ⟨h.decode chunk flags, h.fits_decode chunk flags⟩
  | take => exact ⟨h.take, h.decoded, h.eq_none_of_refused⟩

end Recalls

theorem converse_recalls (memory : List Bool) (calls : List DecoderCall) :
    Recalls memory (ops.converse (freshWith memory) calls).1
      (ops.converse (freshWith memory) calls).2 ∧
      Throughout (Fits memory) (ops.converse (freshWith memory) calls).2 := by
  induction calls using List.reverseRecOn with
  | nil => exact ⟨.fresh memory, .nil⟩
  | append_singleton calls call ih =>
      obtain ⟨hrecalls, hfits⟩ := ih
      obtain ⟨hnext, hanswer⟩ := hrecalls.answer call
      rw [DecoderOps.converse_snoc]
      exact ⟨hnext, hfits.snoc hanswer⟩

/-- In every conversation with a new decoder, each call is answered as what came before it and the
system's answers to requests for memory say. -/
theorem conversation_told (memory : List Bool) (calls : List DecoderCall) :
    (ops.converse (freshWith memory) calls).2.map (·.call) = calls ∧
      Throughout (Fits memory) (ops.converse (freshWith memory) calls).2 :=
  ⟨ops.calls_converse (freshWith memory) calls, (converse_recalls memory calls).2⟩

/-- There is a format and a chunk, and yet the second chunk is not decoded: memory for its copy is
refused. What the first chunk gave is gone as well. And a chunk is handed out although nothing was
ever taken before. -/
theorem decode_may_lack_memory :
    (ops.converse (freshWith [true, false])
      [.setFormat (.video .unknown 4 4), .decode [1, 2] .empty,
        .decode [3] .empty, .take]).2 =
      [.configured (.video .unknown 4 4) (.ok ()), .decoded [1, 2] .empty (.ok ()),
        .decoded [3] .empty (.error (.memoryAllocationFailed 1)), .taken none] ∧
    (ops.converse (freshWith [])
      [.setFormat (.video .unknown 4 4), .decode [1, 2] .empty, .take]).2 =
      [.configured (.video .unknown 4 4) (.ok ()), .decoded [1, 2] .empty (.ok ()),
        .taken (some ⟨[1, 2]⟩)] :=
  ⟨rfl, rfl⟩

end Passthrough

end Playout
