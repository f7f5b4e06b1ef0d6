import Playout.Json.Printer
import Playout.Json.Reader

/-!
# Types with a JSON form

A type gives its form in both directions. A record is read from an object, whose fields may stand in
any order, or from an array of the values in the order of the fields.
-/

namespace Playout

/-- A type with one JSON form. -/
class JsonForm (α : Type) where
  encode : α → Json
  decode : Json → Option α

namespace JsonForm

/-- The compact text of a value. -/
def write {α : Type} [JsonForm α] (a : α) : String :=
  String.ofList (encode a).render

/-- Reads a text that holds one value and nothing else. -/
def read? {α : Type} [JsonForm α] (s : String) : Option α :=
  (Json.read? s.toList).bind decode

/-- A natural number below a bound. -/
def decodeNat (bound : Nat) : Json → Option Nat
  | .natural n => if n < bound then some n else none
  | _ => none

instance : JsonForm UInt8 where
  encode n := .natural n.toNat
  decode j := (decodeNat UInt8.size j).map UInt8.ofNat

instance : JsonForm UInt32 where
  encode n := .natural n.toNat
  decode j := (decodeNat UInt32.size j).map UInt32.ofNat

instance : JsonForm UInt64 where
  encode n := .natural n.toNat
  decode j := (decodeNat UInt64.size j).map UInt64.ofNat

instance : JsonForm String where
  encode s := .text s
  decode
    | .string s => s
    | _ => none

instance {α : Type} [JsonForm α] : JsonForm (Option α) where
  encode
    | none => .null
    | some a => encode a
  decode
    | .null => some none
    | j => (decode j).map some

instance {α : Type} [JsonForm α] : JsonForm (List α) where
  encode as := .array (as.map encode)
  decode
    | .array items => items.mapM decode
    | _ => none

end JsonForm

namespace Json

/-- The first value of a field. -/
def field? (fields : List (Option String × Json)) (name : String) : Option Json :=
  (fields.find? fun (key, _) => key == some name).map (·.2)

/-- Fields can be read for these names if every key has a text and no name is given twice. -/
def wellKeyed (names : List String) (fields : List (Option String × Json)) : Bool :=
  fields.all (fun (key, _) => key.isSome)
    && names.all fun name => (fields.countP fun (key, _) => key == some name) ≤ 1

/-- The values given for a record's fields, in the order of `names`, and `none` for a field that is
not given. Fields with other names are left out of account. -/
def members? (names : List String) : Json → Option (List (Option Json))
  | .object fields => if wellKeyed names fields then some (names.map (field? fields)) else none
  | .array items =>
    if items.length ≤ names.length then
      some (items.map some ++ List.replicate (names.length - items.length) none)
    else none
  | _ => none

/-- As `members?`, but a field with any other name is refused. -/
def exactMembers? (names : List String) (j : Json) : Option (List (Option Json)) :=
  match j with
  | .object fields =>
    if fields.all fun (key, _) => key.any names.contains then members? names j else none
  | _ => members? names j

/-- The name of a choice: a string, or an object with this one field, whose value is null. -/
def choice? : Json → Option String
  | .string s => s
  | .object [(name, .null)] => name
  | _ => none

end Json

namespace JsonForm

/-- The member if it is given and has the form of its type. -/
def required {α : Type} [JsonForm α] (member : Option Json) : Option α :=
  member.bind decode

/-- The member if it is given, else `default`. -/
def optional {α : Type} [JsonForm α] (default : α) : Option Json → Option α
  | none => some default
  | some j => decode j

end JsonForm

end Playout
