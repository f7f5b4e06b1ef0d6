import Playout.Json.Basic
import Playout.Text.Hex

/-!
# Reading JSON

A recursive-descent reader over characters. Each function hands back what it read and the rest of
the text. Values may nest without a limit; the fuel of the reader is the length of the text, and
every level of nesting and every item uses up at least one character.
-/

namespace Playout.Json

/-- The four characters that may stand between tokens. -/
def isBlank (c : Char) : Bool :=
  c == ' ' || c == '\n' || c == '\t' || c == '\r'

def skipBlanks (cs : List Char) : List Char :=
  cs.dropWhile isBlank

/-- One part of a string: a character, or a surrogate that lacks its partner. -/
inductive Unit16 where
  | char (c : Char)
  | unpaired

/-- Reads the four digits of a `\u` escape. -/
def readCode : List Char → Option (Nat × List Char)
  | a :: b :: c :: d :: rest => do
    let a ← Hex.value? a
    let b ← Hex.value? b
    let c ← Hex.value? c
    let d ← Hex.value? d
    return (((a * 16 + b) * 16 + c) * 16 + d, rest)
  | _ => none

def isHighSurrogate (n : Nat) : Bool :=
  0xD800 ≤ n && n < 0xDC00

def isLowSurrogate (n : Nat) : Bool :=
  0xDC00 ≤ n && n < 0xE000

/-- The low surrogate of an escape at the front of a text, if there is one. -/
def readLowSurrogate : List Char → Option (Nat × List Char)
  | '\\' :: 'u' :: rest =>
    match readCode rest with
    | some (n, rest) => if isLowSurrogate n then some (n, rest) else none
    | none => none
  | _ => none

/-- Reads what follows a backslash. -/
def readEscape : List Char → Option (Unit16 × List Char)
  | '"' :: rest => some (.char '"', rest)
  | '\\' :: rest => some (.char '\\', rest)
  | '/' :: rest => some (.char '/', rest)
  | 'b' :: rest => some (.char '\x08', rest)
  | 'f' :: rest => some (.char '\x0c', rest)
  | 'n' :: rest => some (.char '\n', rest)
  | 'r' :: rest => some (.char '\r', rest)
  | 't' :: rest => some (.char '\t', rest)
  | 'u' :: rest =>
    match readCode rest with
    | none => none
    | some (n, rest) =>
      if isHighSurrogate n then
        match readLowSurrogate rest with
        | some (low, rest) =>
          some (.char (Char.ofNat ((n - 0xD800) * 1024 + (low - 0xDC00) + 0x10000)), rest)
        | none => some (.unpaired, rest)
      else if isLowSurrogate n then some (.unpaired, rest)
      else some (.char (Char.ofNat n), rest)
  | _ => none

/-- Adds a part in front of a text; an unpaired surrogate spoils it. -/
def Unit16.cons : Unit16 → Option (List Char) → Option (List Char)
  | .char c, text => text.map (c :: ·)
  | .unpaired, _ => none

/-- Reads a string after its opening quote. A character below the space has to be escaped. -/
def readString : Nat → List Char → Option (Option (List Char) × List Char)
  | 0, _ => none
  | _, [] => none
  | _ + 1, '"' :: rest => some (some [], rest)
  | fuel + 1, '\\' :: rest =>
    match readEscape rest with
    | none => none
    | some (part, rest) =>
      match readString fuel rest with
      | none => none
      | some (text, rest) => some (part.cons text, rest)
  | fuel + 1, c :: rest =>
    if c.toNat < 32 then none
    else
      match readString fuel rest with
      | none => none
      | some (text, rest) => some (text.map (c :: ·), rest)

/-- A string with its text as a `String`. -/
def readText (fuel : Nat) (cs : List Char) : Option (Option String × List Char) :=
  (readString fuel cs).map fun (text, rest) => (text.map String.ofList, rest)

def isDigit (c : Char) : Bool :=
  '0' ≤ c && c ≤ '9'

/-- The number that decimal digits stand for. -/
def ofDigits (ds : List Char) : Nat :=
  ds.foldl (fun n d => 10 * n + (d.toNat - 48)) 0

/-- The digits before a point: a zero alone, or digits that do not start with one. -/
def readWhole : List Char → Option (List Char × List Char)
  | '0' :: rest =>
    match rest with
    | d :: _ => if isDigit d then none else some (['0'], rest)
    | [] => some (['0'], [])
  | cs =>
    match cs.takeWhile isDigit with
    | [] => none
    | ds => some (ds, cs.dropWhile isDigit)

/-- One or more digits. -/
def readDigits (cs : List Char) : Option (List Char × List Char) :=
  match cs.takeWhile isDigit with
  | [] => none
  | ds => some (ds, cs.dropWhile isDigit)

/-- The digits after a point, the point included; nothing if there is no point. -/
def readFraction : List Char → Option (List Char × List Char)
  | '.' :: rest => (readDigits rest).map fun (ds, rest) => ('.' :: ds, rest)
  | cs => some ([], cs)

def readSign : List Char → List Char × List Char
  | '+' :: rest => (['+'], rest)
  | '-' :: rest => (['-'], rest)
  | cs => ([], cs)

/-- The power of ten, its mark included; nothing if there is none. -/
def readExponent : List Char → Option (List Char × List Char)
  | c :: rest =>
    if c == 'e' || c == 'E' then
      let (sign, rest) := readSign rest
      (readDigits rest).map fun (ds, rest) => (c :: sign ++ ds, rest)
    else some ([], c :: rest)
  | [] => some ([], [])

/-- Reads a number without its sign. -/
def readUnsigned (cs : List Char) : Option (Json × List Char) := do
  let (whole, cs) ← readWhole cs
  let (fraction, cs) ← readFraction cs
  let (exponent, cs) ← readExponent cs
  match fraction, exponent with
  | [], [] => return (.natural (ofDigits whole), cs)
  | _, _ => return (.numeral (whole ++ fraction ++ exponent), cs)

/-- Reads a number. With a sign it is never a natural number, not even zero. -/
def readNumber : List Char → Option (Json × List Char)
  | '-' :: rest =>
    match readUnsigned rest with
    | some (.natural n, rest) => some (.numeral ('-' :: Nat.toDigits 10 n), rest)
    | some (.numeral lexeme, rest) => some (.numeral ('-' :: lexeme), rest)
    | _ => none
  | cs => readUnsigned cs

mutual

/-- Reads a value, after any blanks. -/
def readValue : Nat → List Char → Option (Json × List Char)
  | 0, _ => none
  | fuel + 1, cs =>
    match skipBlanks cs with
    | 'n' :: 'u' :: 'l' :: 'l' :: rest => some (.null, rest)
    | 't' :: 'r' :: 'u' :: 'e' :: rest => some (.bool true, rest)
    | 'f' :: 'a' :: 'l' :: 's' :: 'e' :: rest => some (.bool false, rest)
    | '"' :: rest => (readText fuel rest).map fun (text, rest) => (.string text, rest)
    | '[' :: rest =>
      match skipBlanks rest with
      | ']' :: rest => some (.array [], rest)
      | rest => (readItems fuel rest).map fun (items, rest) => (.array items, rest)
    | '\x7b' :: rest =>
      match skipBlanks rest with
      | '\x7d' :: rest => some (.object [], rest)
      | rest => (readFields fuel rest).map fun (fields, rest) => (.object fields, rest)
    | cs => readNumber cs

/-- Reads one or more items and the bracket that closes them. -/
def readItems : Nat → List Char → Option (List Json × List Char)
  | 0, _ => none
  | fuel + 1, cs =>
    match readValue fuel cs with
    | none => none
    | some (item, rest) =>
      match skipBlanks rest with
      | ']' :: rest => some ([item], rest)
      | ',' :: rest => (readItems fuel rest).map fun (items, rest) => (item :: items, rest)
      | _ => none

/-- Reads one or more fields and the brace that closes them. -/
def readFields : Nat → List Char → Option (List (Option String × Json) × List Char)
  | 0, _ => none
  | fuel + 1, cs =>
    match skipBlanks cs with
    | '"' :: rest =>
      match readText fuel rest with
      | none => none
      | some (name, rest) =>
        match skipBlanks rest with
        | ':' :: rest =>
          match readValue fuel rest with
          | none => none
          | some (value, rest) =>
            match skipBlanks rest with
            | '\x7d' :: rest => some ([(name, value)], rest)
            | ',' :: rest =>
              (readFields fuel rest).map fun (fields, rest) => ((name, value) :: fields, rest)
            | _ => none
        | _ => none
    | _ => none

end

/-- Reads a text that holds one value and otherwise only blanks. -/
def read? (s : List Char) : Option Json :=
  match readValue (2 * s.length + 2) s with
  | some (value, rest) => if (skipBlanks rest).isEmpty then some value else none
  | none => none

end Playout.Json
