import Playout.Sample

/-!
# Scheduling

Which sample of which stream is released next. The candidate is always the earliest head among all
streams, and of equally early ones that of the stream registered first. Paced and unpaced selection
look for it each in its own scan. Paced selection may hold it back; a candidate that is held back is
never overtaken by another stream.
-/

namespace Playout

/-- What the scheduler knows of a stream. -/
structure StreamQueue (ρ : Type) where
  id : StreamId
  majorType : MajorType
  width : UInt32
  height : UInt32
  /-- The producer has said that nothing more will come. -/
  eos : Bool
  samples : List (Sample ρ)

/-- A released sample with what its stream was at that moment. -/
structure Selected (ρ : Type) where
  sample : Sample ρ
  majorType : MajorType
  width : UInt32
  height : UInt32

namespace StreamQueue

variable {ρ : Type}

/-- A stream without samples and without a format. -/
def new (id : StreamId) : StreamQueue ρ where
  id := id
  majorType := .unknown
  width := 0
  height := 0
  eos := false
  samples := []

def headStart? (q : StreamQueue ρ) : Option UInt64 :=
  q.samples.head?.map (·.startTime)

/-- More samples may come and none is there. -/
def isPending (q : StreamQueue ρ) : Bool :=
  q.samples.isEmpty && !q.eos

def select (q : StreamQueue ρ) (sample : Sample ρ) : Selected ρ :=
  ⟨sample, q.majorType, q.width, q.height⟩

def clear (q : StreamQueue ρ) : StreamQueue ρ :=
  { q with samples := [], eos := false }

end StreamQueue

namespace Schedule

variable {ρ : Type}

/-- The place of the earliest head and when it starts, as far as the streams have been looked at. A
later stream takes over only with a head that is strictly earlier. -/
def nearer (best : Option (Nat × UInt64)) : StreamQueue ρ × Nat → Option (Nat × UInt64)
  | (q, i) =>
    match q.headStart? with
    | none => best
    | some start => if best.all (start < ·.2) then some (i, start) else best

/-- The scan of unpaced selection. -/
def earliest? (queues : List (StreamQueue ρ)) : Option (Nat × UInt64) :=
  queues.zipIdx.foldl nearer none

/-- What the scan of paced selection has found: the place of the earliest head, and whether a stream
is pending. -/
structure Found where
  earliest : Option Nat
  pending : Bool

/-- The start of the head at the place found is looked up again for each comparison. -/
def Found.next (queues : List (StreamQueue ρ)) (found : Found) : StreamQueue ρ × Nat → Found
  | (q, i) =>
    match q.headStart? with
    | none => if q.eos then found else { found with pending := true }
    | some start =>
      let best := found.earliest.bind fun e => queues[e]?.bind (·.headStart?)
      if best.all (start < ·) then { found with earliest := some i } else found

/-- The scan of paced selection. -/
def search (queues : List (StreamQueue ρ)) : Found :=
  queues.zipIdx.foldl (Found.next queues) ⟨none, false⟩

/-- A release: the sample, the streams without it, and the playback time, which has reached the end
of the sample. -/
structure Release (ρ : Type) where
  selected : Selected ρ
  queues : List (StreamQueue ρ)
  time : UInt64

/-- Takes the head of the stream at a place. -/
def popAt (queues : List (StreamQueue ρ)) (i : Nat) (time : UInt64) : Option (Release ρ) :=
  match queues[i]? with
  | none => none
  | some q =>
    match q.samples with
    | [] => none
    | sample :: rest =>
      some ⟨q.select sample, queues.set i { q with samples := rest }, max time sample.endTime⟩

/-- The candidate of paced selection. -/
def candidate? (queues : List (StreamQueue ρ)) : Option (StreamQueue ρ) :=
  (search queues).earliest.bind (queues[·]?)

/-- The length of the sink's queue matters for audio only. -/
def asksDepth (queues : List (StreamQueue ρ)) : Bool :=
  (candidate? queues).any (·.majorType == .audio)

/-- Whether a candidate may go now. Audio waits for room in the sink, if there is one. Everything
else waits while some stream is pending, unless playback has got as far as the candidate or its time
is still zero. -/
def mayRelease (threshold : Nat) (pending : Bool) (time : UInt64) (depth : Option Nat)
    (majorType : MajorType) (start : UInt64) : Bool :=
  match majorType with
  | .audio => depth.all (· < threshold)
  | _ => !pending || time == 0 || start ≤ time

/-- Paced selection. `depth` is the length of the sink's queue, and `none` without a sink. -/
def select? (threshold : Nat) (queues : List (StreamQueue ρ)) (time : UInt64) (depth : Option Nat) :
    Option (Release ρ) := do
  let found := search queues
  let i ← found.earliest
  let q ← queues[i]?
  let start ← q.headStart?
  if mayRelease threshold found.pending time depth q.majorType start then popAt queues i time
    else none

/-- Selection that holds nothing back. -/
def selectUnpaced? (queues : List (StreamQueue ρ)) (time : UInt64) : Option (Release ρ) :=
  match earliest? queues with
  | none => none
  | some (i, _) => popAt queues i time

/-- The number of samples in all queues. -/
def queued : List (StreamQueue ρ) → Nat
  | [] => 0
  | q :: queues => q.samples.length + queued queues

/-- What repeated selection comes to: the released samples with the playback time after each, and
the queues and the time that are left. -/
structure Course (ρ : Type) where
  released : List (Selected ρ × UInt64)
  queues : List (StreamQueue ρ)
  time : UInt64

/-- Repeats a selection until nothing is selected, and at most `n` times. -/
def repeatSelection (choose : List (StreamQueue ρ) → UInt64 → Option (Release ρ)) :
    Nat → List (StreamQueue ρ) → UInt64 → Course ρ
  | 0, queues, time => ⟨[], queues, time⟩
  | n + 1, queues, time =>
    match choose queues time with
    | none => ⟨[], queues, time⟩
    | some r =>
      let later := repeatSelection choose n r.queues r.time
      { later with released := (r.selected, r.time) :: later.released }

/-- Paced selection as long as something is selected, while the sink's queue keeps its length. There
are no more releases than samples. -/
def selectAll (threshold : Nat) (depth : Option Nat) (queues : List (StreamQueue ρ))
    (time : UInt64) :
    Course ρ :=
  repeatSelection (fun queues time => select? threshold queues time depth)
    (queued queues) queues time

/-- Unpaced selection as long as something is selected. -/
def drain (queues : List (StreamQueue ρ)) (time : UInt64) : Course ρ :=
  repeatSelection selectUnpaced? (queued queues) queues time

end Schedule

end Playout
