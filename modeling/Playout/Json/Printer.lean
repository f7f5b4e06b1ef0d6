import Playout.Json.Basic
import Playout.Text.Hex

/-!
# Writing JSON

The compact form: no blanks, fields in the order given. In strings only the quote, the backslash and
the characters below the space are escaped.
-/

namespace Playout.Json

/-- The escape of one character of a string. -/
def escape (c : Char) : List Char :=
  match c with
  | '"' => ['\\', '"']
  | '\\' => ['\\', '\\']
  | '\x08' => ['\\', 'b']
  | '\x0c' => ['\\', 'f']
  | '\n' => ['\\', 'n']
  | '\r' => ['\\', 'r']
  | '\t' => ['\\', 't']
  | c => if c.toNat < 32 then '\\' :: 'u' :: Hex.ofNat 4 c.toNat else [c]

/-- A string between quotes. -/
def quoted (s : List Char) : List Char :=
  '"' :: s.flatMap escape ++ ['"']

/-- A string without a text is written as the empty string. -/
def quotedText (s : Option String) : List Char :=
  quoted (s.getD "").toList

mutual

/-- The compact form of a value. -/
def render : Json → List Char
  | .null => ['n', 'u', 'l', 'l']
  | .bool true => ['t', 'r', 'u', 'e']
  | .bool false => ['f', 'a', 'l', 's', 'e']
  | .natural n => Nat.toDigits 10 n
  | .numeral lexeme => lexeme
  | .string s => quotedText s
  | .array items => '[' :: renderItems items ++ [']']
  | .object fields => '\x7b' :: renderFields fields ++ ['\x7d']

/-- Values separated by commas. -/
def renderItems : List Json → List Char
  | [] => []
  | [item] => render item
  | item :: next :: rest => render item ++ ',' :: renderItems (next :: rest)

/-- Fields separated by commas. -/
def renderFields : List (Option String × Json) → List Char
  | [] => []
  | [(name, value)] => quotedText name ++ ':' :: render value
  | (name, value) :: next :: rest =>
    quotedText name ++ ':' :: render value ++ ',' :: renderFields (next :: rest)

end

end Playout.Json
