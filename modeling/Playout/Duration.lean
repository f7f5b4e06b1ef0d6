import Playout.Json.Form

/-!
# Durations and instants

A duration is a count of nanoseconds that fits 64 bits of whole seconds. An instant counts from some
fixed moment and fits 63 bits of whole seconds, so that a duration added to an instant may be out of
range.
-/

namespace Playout

def nanosPerSecond : Nat := 1000000000

/-- The nanoseconds that no longer fit 64 bits of whole seconds. -/
def Duration.limit : Nat := 0x10000000000000000 * nanosPerSecond

/-- The nanoseconds that no longer fit 63 bits of whole seconds. -/
def Instant.limit : Nat := 0x8000000000000000 * nanosPerSecond

structure Duration where
  nanos : Nat
  nanos_lt : nanos < Duration.limit
  deriving DecidableEq, Repr

namespace Duration

/-- The duration of so many nanoseconds, if it is in range. -/
def ofNanos? (n : Nat) : Option Duration :=
  if h : n < limit then some ⟨n, h⟩ else none

/-- The duration of a 64-bit count of nanoseconds, which is always in range. -/
def ofNanos (n : UInt64) : Duration :=
  ⟨n.toNat, by have := n.toNat_lt; unfold limit nanosPerSecond; omega⟩

/-- The duration of so many milliseconds, written with 32 bits. -/
def ofMillis (n : UInt32) : Duration :=
  ⟨n.toNat * 1000000, by have := n.toNat_lt; unfold limit nanosPerSecond; omega⟩

def zero : Duration :=
  ofMillis 0

instance : Inhabited Duration := ⟨zero⟩

def isZero (d : Duration) : Bool :=
  d.nanos == 0

/-- Whole seconds. -/
def seconds (d : Duration) : Nat :=
  d.nanos / nanosPerSecond

/-- Nanoseconds beyond the whole seconds. -/
def subseconds (d : Duration) : Nat :=
  d.nanos % nanosPerSecond

/-- A duration is written as seconds and nanoseconds. On reading, nanoseconds that make up a second
or more carry over; other fields are refused. -/
instance : JsonForm Duration where
  encode d := .record [("secs", .natural d.seconds), ("nanos", .natural d.subseconds)]
  decode j :=
    match j.exactMembers? ["secs", "nanos"] with
    | some [secs, nanos] => do
      let secs : UInt64 ← JsonForm.required secs
      let nanos : UInt32 ← JsonForm.required nanos
      ofNanos? (secs.toNat * nanosPerSecond + nanos.toNat)
    | _ => none

end Duration

/-- A reading of a clock, in nanoseconds. -/
structure Instant where
  nanos : Nat
  nanos_lt : nanos < Instant.limit
  deriving DecidableEq, Repr

namespace Instant

/-- The moment from which instants are counted. -/
def origin : Instant :=
  ⟨0, by decide⟩

instance : Inhabited Instant := ⟨origin⟩

/-- The instant that lies a duration later, if it is in range. -/
def add? (t : Instant) (d : Duration) : Option Instant :=
  if h : t.nanos + d.nanos < limit then some ⟨t.nanos + d.nanos, h⟩ else none

instance : LE Instant := ⟨fun a b => a.nanos ≤ b.nanos⟩

instance (a b : Instant) : Decidable (a ≤ b) :=
  inferInstanceAs (Decidable (a.nanos ≤ b.nanos))

end Instant

end Playout
