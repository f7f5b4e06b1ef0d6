/-!
# Sample flags

A set of marks that the protocol puts on a chunk. Bits without a meaning are kept.
-/

namespace Playout

structure SampleFlags where
  bits : UInt32
  deriving DecidableEq, Inhabited, Repr

namespace SampleFlags

def cleanpoint : SampleFlags := ⟨0x1⟩
def discontinuity : SampleFlags := ⟨0x2⟩
def interlaced : SampleFlags := ⟨0x4⟩
def bottomFieldFirst : SampleFlags := ⟨0x8⟩
def repeatFieldFirst : SampleFlags := ⟨0x10⟩
def singleField : SampleFlags := ⟨0x20⟩
def derivedFromTopField : SampleFlags := ⟨0x40⟩
def hasNoTimestamps : SampleFlags := ⟨0x80⟩
def relativeTimestamps : SampleFlags := ⟨0x100⟩
def absoluteTimestamps : SampleFlags := ⟨0x200⟩

/-- The flags with a meaning, with their names. -/
def known : List (String × SampleFlags) :=
  [("CLEANPOINT", cleanpoint), ("DISCONTINUITY", discontinuity), ("INTERLACED", interlaced),
    ("BOTTOM_FIELD_FIRST", bottomFieldFirst), ("REPEAT_FIELD_FIRST", repeatFieldFirst),
    ("SINGLE_FIELD", singleField), ("DERIVED_FROM_TOP_FIELD", derivedFromTopField),
    ("HAS_NO_TIMESTAMPS", hasNoTimestamps), ("RELATIVE_TIMESTAMPS", relativeTimestamps),
    ("ABSOLUTE_TIMESTAMPS", absoluteTimestamps)]

def empty : SampleFlags := ⟨0⟩

def union (x y : SampleFlags) : SampleFlags := ⟨x.bits ||| y.bits⟩

def inter (x y : SampleFlags) : SampleFlags := ⟨x.bits &&& y.bits⟩

def minus (x y : SampleFlags) : SampleFlags := ⟨x.bits &&& ~~~y.bits⟩

def symmDiff (x y : SampleFlags) : SampleFlags := ⟨x.bits ^^^ y.bits⟩

/-- All flags with a meaning. -/
def all : SampleFlags :=
  known.foldl (fun x (_, y) => x.union y) empty

/-- The flags of a set that have a meaning. -/
def truncate (x : SampleFlags) : SampleFlags := x.inter all

/-- The flags with a meaning that a set lacks. -/
def complement (x : SampleFlags) : SampleFlags := all.minus x

def isEmpty (x : SampleFlags) : Bool := x.bits == 0

def contains (x y : SampleFlags) : Bool := x.inter y == y

def intersects (x y : SampleFlags) : Bool := !(x.inter y).isEmpty

/-- The set, if every bit in it has a meaning. -/
def strict? (x : SampleFlags) : Option SampleFlags :=
  if x.truncate == x then some x else none

/-- The names of the flags in a set. -/
def names (x : SampleFlags) : List String :=
  (known.filter fun (_, y) => x.contains y).map (·.1)

end SampleFlags

end Playout
