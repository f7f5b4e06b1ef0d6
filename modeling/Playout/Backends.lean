import Playout.Text.Quoted

/-!
# Backends by name

Decoders and audio sinks are made by backends that a host registers under names. A name that is
registered again stands for the new backend.
-/

namespace Playout

structure Backends (β : Type) where
  entries : List (String × β)
  deriving Inhabited

namespace Backends

variable {β : Type}

def empty : Backends β :=
  ⟨[]⟩

def register (b : Backends β) (name : String) (backend : β) : Backends β :=
  ⟨b.entries.filter (fun (key, _) => key != name) ++ [(name, backend)]⟩

def find? (b : Backends β) (name : String) : Option β :=
  (b.entries.find? fun (key, _) => key == name).map (·.2)

def contains (b : Backends β) (name : String) : Bool :=
  (b.find? name).isSome

def isEmpty (b : Backends β) : Bool :=
  b.entries.isEmpty

/-- The registered names in the order of their characters. -/
def names (b : Backends β) : List String :=
  (b.entries.map (·.1)).mergeSort fun s t => !(t < s)

/-- A diagnostic text that lists the names under the given title. -/
def debug (title : String) (b : Backends β) : String :=
  title ++ " \x7b backends: " ++ Quoted.quoteList b.names ++ " \x7d"

end Backends

end Playout
