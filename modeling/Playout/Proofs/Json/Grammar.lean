import Playout.Json.Printer
import Playout.Json.Reader
import Playout.Proofs.Text.Hex

/-!
# The texts of a JSON value

Whoever writes a value is free in much: blanks may stand around any value and any name, a character
may be escaped or not, and one escape may be chosen over another. A text spells a value if it is
written in one of these ways. The compact form is one of them.
-/

namespace Playout.Json

def Blank (cs : List Char) : Prop :=
  cs.all isBlank = true

/-! ## Strings -/

/-- Four hexadecimal digits, in either case, and the number they stand for. -/
inductive Code : Nat → List Char → Prop
  | digits {a b c d : Char} {i j k l : Nat} (first : Hex.value? a = some i)
      (second : Hex.value? b = some j) (third : Hex.value? c = some k)
      (fourth : Hex.value? d = some l) :
      Code (((i * 16 + j) * 16 + k) * 16 + l) [a, b, c, d]

def shorthands : List (Char × Char) :=
  [('"', '"'), ('\\', '\\'), ('/', '/'), ('b', '\x08'), ('f', '\x0c'), ('n', '\n'), ('r', '\r'),
    ('t', '\t')]

def LowNext (cs : List Char) : Prop :=
  ∃ n code rest, Code n code ∧ isLowSurrogate n = true ∧ cs = '\\' :: 'u' :: code ++ rest

/-- What may stand between the quotes for a text. A surrogate that lacks its partner
leaves no text. -/
inductive SpellsText : Option (List Char) → List Char → Prop
  | empty : SpellsText (some []) []
  | plain {c : Char} {text : Option (List Char)} {s : List Char} (visible : 32 ≤ c.toNat)
      (quote : c ≠ '"') (backslash : c ≠ '\\') (tail : SpellsText text s) :
      SpellsText (text.map (c :: ·)) (c :: s)
  | short {mark c : Char} {text : Option (List Char)} {s : List Char} (mem : (mark, c) ∈ shorthands)
      (tail : SpellsText text s) : SpellsText (text.map (c :: ·)) ('\\' :: mark :: s)
  | code {n : Nat} {code : List Char} {text : Option (List Char)} {s : List Char}
      (digits : Code n code)
      (high : isHighSurrogate n = false) (low : isLowSurrogate n = false)
      (tail : SpellsText text s) :
      SpellsText (text.map (Char.ofNat n :: ·)) ('\\' :: 'u' :: code ++ s)
  | pair {high low : Nat} {first second : List Char} {text : Option (List Char)} {s : List Char}
      (digits : Code high first) (more : Code low second) (isHigh : isHighSurrogate high = true)
      (isLow : isLowSurrogate low = true) (tail : SpellsText text s) :
      SpellsText (text.map (Char.ofNat ((high - 0xD800) * 1024 + (low - 0xDC00) + 0x10000) :: ·))
        ('\\' :: 'u' :: first ++ '\\' :: 'u' :: second ++ s)
  | unpaired {n : Nat} {code : List Char} {text : Option (List Char)} {s : List Char}
      (digits : Code n code)
      (alone : isLowSurrogate n = true ∨ isHighSurrogate n = true ∧ ¬ LowNext s)
      (tail : SpellsText text s) : SpellsText none ('\\' :: 'u' :: code ++ s)

/-! ## Numbers -/

def Digits (ds : List Char) : Prop :=
  ds ≠ [] ∧ ds.all isDigit = true

def IsFraction (cs : List Char) : Prop :=
  ∃ ds, Digits ds ∧ cs = '.' :: ds

def IsExponent (cs : List Char) : Prop :=
  ∃ mark sign ds, (mark = 'e' ∨ mark = 'E') ∧ sign ∈ [[], ['+'], ['-']] ∧ Digits ds ∧
    cs = mark :: sign ++ ds

/-- A number that is written with more than digits: with a sign, a fraction or an exponent. -/
def Numeral (lexeme : List Char) : Prop :=
  ∃ sign n fraction exponent, (sign = [] ∨ sign = ['-']) ∧ (fraction = [] ∨ IsFraction fraction) ∧
    (exponent = [] ∨ IsExponent exponent) ∧ (sign ≠ [] ∨ fraction ≠ [] ∨ exponent ≠ []) ∧
    lexeme = sign ++ (Nat.toDigits 10 n ++ fraction ++ exponent)

/-! ## Values -/

structure WrittenField where
  before : List Char
  key : List Char
  name : Option (List Char)
  after : List Char
  value : Json
  text : List Char

namespace WrittenField

def field (f : WrittenField) : Option String × Json :=
  (f.name.map String.ofList, f.value)

def chars (f : WrittenField) : List Char :=
  f.before ++ '"' :: f.key ++ '"' :: f.after ++ ':' :: f.text

def Named (f : WrittenField) : Prop :=
  Blank f.before ∧ SpellsText f.name f.key ∧ Blank f.after

end WrittenField

/-- The texts of a value. -/
inductive Spells : Json → List Char → Prop
  | null : Spells .null ['n', 'u', 'l', 'l']
  | isTrue : Spells (.bool true) ['t', 'r', 'u', 'e']
  | isFalse : Spells (.bool false) ['f', 'a', 'l', 's', 'e']
  | natural (n : Nat) : Spells (.natural n) (Nat.toDigits 10 n)
  | numeral {lexeme : List Char} (written : Numeral lexeme) : Spells (.numeral lexeme) lexeme
  | string {text : Option (List Char)} {s : List Char} (written : SpellsText text s) :
      Spells (.string (text.map String.ofList)) ('"' :: s ++ ['"'])
  | noItems {b : List Char} (blank : Blank b) : Spells (.array []) ('[' :: b ++ [']'])
  | array {items : List (Json × List Char)} (nonempty : items ≠ [])
      (spelled : ∀ item ∈ items, Spells item.1 item.2) :
      Spells (.array (items.map (·.1))) ('[' :: [','].intercalate (items.map (·.2)) ++ [']'])
  | noFields {b : List Char} (blank : Blank b) : Spells (.object []) ('\x7b' :: b ++ ['\x7d'])
  | object {fields : List WrittenField} (nonempty : fields ≠ []) (named : ∀ f ∈ fields, f.Named)
      (spelled : ∀ f ∈ fields, Spells f.value f.text) :
      Spells (.object (fields.map (·.field)))
        ('\x7b' :: [','].intercalate (fields.map (·.chars)) ++ ['\x7d'])
  | blanks {j : Json} {a s b : List Char} (left : Blank a) (right : Blank b)
      (spelled : Spells j s) :
      Spells j (a ++ s ++ b)

/-! ## The compact form -/

theorem code_ofNat {n : Nat} (h : n < 0x10000) : Code n (Hex.ofNat 4 n) := by
  have hlast (k : Nat) : Hex.value? (Hex.digit (k % 16)) = some (k % 16) :=
    Hex.value?_digit (Nat.mod_lt k (by decide))
  have hcode :=
    Code.digits (hlast (n / 16 / 16 / 16)) (hlast (n / 16 / 16)) (hlast (n / 16)) (hlast n)
  rwa [show ((n / 16 / 16 / 16 % 16 * 16 + n / 16 / 16 % 16) * 16 + n / 16 % 16) * 16 + n % 16 =
    n by
    omega] at hcode

theorem spellsText_escape {text : Option (List Char)} {s : List Char} (c : Char)
    (h : SpellsText text s) :
    SpellsText (text.map (c :: ·)) (escape c ++ s) := by
  unfold escape
  split
  iterate 7 exact .short (by decide) h
  next hq hb _ _ _ _ _ =>
    split
    · next hlow =>
      have hn : ∀ {n}, n < 32 → isHighSurrogate n = false ∧ isLowSurrogate n = false := by
        intro n hn
        simp only [isHighSurrogate, isLowSurrogate, Bool.and_eq_false_iff, decide_eq_false_iff_not]
        omega
      have hcode := SpellsText.code (code_ofNat (by omega)) (hn hlow).1 (hn hlow).2 h
      rwa [Char.ofNat_toNat] at hcode
    · next hvisible => exact .plain (by omega) hq hb h

theorem spellsText_escaped (cs : List Char) : SpellsText (some cs) (cs.flatMap escape) := by
  induction cs with
  | nil => exact .empty
  | cons c cs ih => exact spellsText_escape c ih

theorem spells_text (s : String) : Spells (.text s) (render (.text s)) := by
  have h := Spells.string (spellsText_escaped s.toList)
  rwa [Option.map_some, String.ofList_toList] at h

theorem renderItems_eq (items : List Json) :
    renderItems items = [','].intercalate (items.map render) := by
  induction items with
  | nil => rfl
  | cons item items ih =>
      cases items with
      | nil => simp [renderItems]
      | cons next rest => simp [renderItems, ih]

theorem spells_array {items : List Json} (h : ∀ j ∈ items, Spells j j.render) :
    Spells (.array items) (render (.array items)) := by
  cases items with
  | nil => exact .noItems rfl
  | cons item items =>
      have hspells := @Spells.array ((item :: items).map fun j => (j, j.render)) (by simp)
        (by simpa using h)
      simpa [render, renderItems_eq, Function.comp_def] using hspells

def compactField (f : String × Json) : WrittenField where
  before := []
  key := f.1.toList.flatMap escape
  name := some f.1.toList
  after := []
  value := f.2
  text := f.2.render

theorem renderFields_eq (fields : List (String × Json)) :
    renderFields (fields.map fun f => (some f.1, f.2))
      = [','].intercalate (fields.map fun f => (compactField f).chars) := by
  induction fields with
  | nil => rfl
  | cons field fields ih =>
      cases fields with
      | nil => simp [renderFields, compactField, WrittenField.chars, quotedText, quoted]
      | cons next rest =>
          simp only [List.map_cons] at ih
          simp [renderFields, ih, compactField, WrittenField.chars, quotedText, quoted]

theorem spells_record {fields : List (String × Json)} (h : ∀ f ∈ fields, Spells f.2 f.2.render) :
    Spells (.record fields) (render (.record fields)) := by
  cases fields with
  | nil => exact .noFields rfl
  | cons field fields =>
      have hspells := @Spells.object ((field :: fields).map compactField) (by simp)
        (by
          intro f hf
          obtain ⟨g, -, rfl⟩ := List.mem_map.mp hf
          exact ⟨rfl, spellsText_escaped g.1.toList, rfl⟩)
        (by
          intro f hf
          obtain ⟨g, hg, rfl⟩ := List.mem_map.mp hf
          exact h g hg)
      have hfields : (field :: fields).map (fun f => (compactField f).field)
          = (field :: fields).map fun f => (some f.1, f.2) := by
        simp [compactField, WrittenField.field]
      rw [List.map_map, Function.comp_def, hfields, List.map_map, Function.comp_def,
        ← renderFields_eq] at hspells
      exact hspells

end Playout.Json
