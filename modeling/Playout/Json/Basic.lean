/-!
# JSON values

A value keeps what a reader of it can tell apart: the order of fields, repeated fields, and how a
number was written when it is not a plain natural number.
-/

namespace Playout

/-- A JSON value. -/
inductive Json where
  | null
  | bool (b : Bool)
  /-- A number written with digits only. -/
  | natural (n : Nat)
  /-- Any other number, as it was written. -/
  | numeral (lexeme : List Char)
  /-- A string; `none` if its escapes hold an unpaired surrogate, so that no text
  corresponds to it. -/
  | string (text : Option String)
  | array (items : List Json)
  | object (fields : List (Option String × Json))
  deriving Inhabited

namespace Json

/-- A string with a text. -/
def text (s : String) : Json :=
  .string (some s)

/-- An object from its fields in order. -/
def record (fields : List (String × Json)) : Json :=
  .object (fields.map fun (name, value) => (some name, value))

end Json

end Playout
