import Playout.Json.Form

/-!
# Identities

A presentation is named by sixteen bytes. The protocol carries them as a GUID, whose first three
groups have their bytes in reverse; everywhere else the bytes are in the order of the text, which
has groups of four, two, two, two and six bytes between hyphens.
-/

namespace Playout

/-- Streams are numbered within their presentation. -/
abbrev StreamId := UInt32

/-- The identity of a presentation, as bytes in the order of its text. -/
structure PresentationId where
  bytes : Vector UInt8 16
  deriving DecidableEq, Repr

namespace PresentationId

/-- The bytes of a GUID and those of the text differ in the order of the first three groups.
Reversing these groups leads from either to the other. -/
def swapGroups (b : Vector UInt8 16) : Vector UInt8 16 :=
  #v[b[3], b[2], b[1], b[0], b[5], b[4], b[7], b[6], b[8], b[9], b[10], b[11], b[12], b[13], b[14],
    b[15]]

def ofGuid (guid : Vector UInt8 16) : PresentationId :=
  ⟨swapGroups guid⟩

def toGuid (p : PresentationId) : Vector UInt8 16 :=
  swapGroups p.bytes

/-- Marks random bytes as a random identity: version four in the seventh byte, and the usual variant
in the ninth. -/
def ofRandom (b : Vector UInt8 16) : PresentationId :=
  ⟨(b.set 6 ((b[6] &&& 0x0f) ||| 0x40)).set 8 ((b[8] &&& 0x3f) ||| 0x80)⟩

/-- The text with lower-case digits and hyphens. -/
def chars (p : PresentationId) : List Char :=
  let digits := Hex.ofBytes p.bytes.toList
  digits.take 8 ++ '-' :: (digits.drop 8).take 4 ++ '-' :: (digits.drop 12).take 4
    ++ '-' :: (digits.drop 16).take 4 ++ '-' :: digits.drop 20

def text (p : PresentationId) : String :=
  String.ofList p.chars

instance : ToString PresentationId := ⟨text⟩

/-- Reads thirty-two digits. -/
def ofDigits? (cs : List Char) : Option PresentationId := do
  let bytes ← Hex.toBytes? cs
  if h : bytes.toArray.size = 16 then return ⟨⟨bytes.toArray, h⟩⟩ else none

/-- Reads digits with hyphens between the groups. -/
def ofHyphenated? (cs : List Char) : Option PresentationId :=
  if cs.length == 36 && [8, 13, 18, 23].all (fun i => cs[i]? == some '-') then
    ofDigits? (cs.take 8 ++ (cs.drop 9).take 4 ++ (cs.drop 14).take 4 ++ (cs.drop 19).take 4
      ++ cs.drop 24)
  else none

/-- What may stand in front of the hyphenated digits, in either case. -/
def urnMark : List Char :=
  ['u', 'r', 'n', ':', 'u', 'u', 'i', 'd', ':']

/-- Reads one of the four written forms: digits alone, or with hyphens, and the latter also in
braces or after the mark of a URN. -/
def ofChars? (cs : List Char) : Option PresentationId :=
  match cs.length with
  | 32 => ofDigits? cs
  | 36 => ofHyphenated? cs
  | 38 =>
    if cs.head? == some '\x7b' && cs.getLast? == some '\x7d' then ofHyphenated? (cs.drop 1).dropLast
    else none
  | 45 => if (cs.take 9).map Char.toLower == urnMark then ofHyphenated? (cs.drop 9) else none
  | _ => none

def ofText? (s : String) : Option PresentationId :=
  ofChars? s.toList

/-- Identities are ordered as their bytes. -/
instance : Ord PresentationId where
  compare p q := compare p.text q.text

instance : JsonForm PresentationId where
  encode p := .text p.text
  decode
    | .string (some s) => ofText? s
    | _ => none

end PresentationId

end Playout
