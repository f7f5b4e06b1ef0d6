import Mathlib.Tactic.IntervalCases
import Playout.Identity
import Playout.Proofs.Text.Hex

/-!
# Names of presentations

An identity has four spellings: its digits by themselves, the same in groups with hyphens between
them, and the latter in braces or after the mark of a URN. With letters in either case these, and no
other texts, are read as the identity. As a GUID it has its first three groups of bytes in reverse,
and no two GUIDs stand for one identity.
-/

namespace Playout.PresentationId

/-! ## Digits -/

def digits (p : PresentationId) : List Char :=
  Hex.ofBytes p.bytes.toList

def spellings (p : PresentationId) : List (List Char) :=
  [p.digits, p.chars, '\x7b' :: p.chars ++ ['\x7d'], urnMark ++ p.chars]

variable {p : PresentationId} {cs ds : List Char}

@[simp] theorem length_digits : p.digits.length = 32 := by
  simp [digits, Hex.length_ofBytes]

theorem ofDigits?_eq_some_iff : ofDigits? cs = some p ↔ cs.map Char.toLower = p.digits := by
  obtain ⟨⟨bytes, hsize⟩⟩ := p
  constructor
  · intro h
    obtain ⟨bs, hbs, hp⟩ := Option.bind_eq_some_iff.mp h
    split at hp
    · cases hp
      exact Hex.toBytes?_eq_some_iff.mp hbs
    · cases hp
  · intro h
    simp [ofDigits?, Hex.toBytes?_eq_some_iff.mpr h, hsize]

/-! ## Hyphens -/

def hyphenate (ds : List Char) : List Char :=
  ds.take 8 ++ '-' :: (ds.drop 8).take 4 ++ '-' :: (ds.drop 12).take 4 ++ '-' :: (ds.drop 16).take 4
    ++ '-' :: ds.drop 20

def joined (cs : List Char) : List Char :=
  cs.take 8 ++ (cs.drop 9).take 4 ++ (cs.drop 14).take 4 ++ (cs.drop 19).take 4 ++ cs.drop 24

def Hyphened (cs : List Char) : Prop :=
  cs.length = 36 ∧ ∀ i ∈ [8, 13, 18, 23], cs[i]? = some '-'

theorem chars_eq (p : PresentationId) : p.chars = hyphenate p.digits := rfl

theorem map_hyphenate {f : Char → Char} (h : f '-' = '-') :
    (hyphenate ds).map f = hyphenate (ds.map f) := by
  simp [hyphenate, List.map_take, List.map_drop, h]

theorem map_joined : (joined cs).map Char.toLower = joined (cs.map Char.toLower) := by
  simp [joined, List.map_take, List.map_drop]

theorem hyphened_map_iff : Hyphened (cs.map Char.toLower) ↔ Hyphened cs := by
  have hmark (c : Char) : c.toLower = '-' ↔ c = '-' := toLower_eq_iff (by decide)
  simp [Hyphened, hmark]

theorem joined_groups {a b c d e : List Char} (ha : a.length = 8) (hb : b.length = 4)
    (hc : c.length = 4) (hd : d.length = 4) :
    joined (a ++ '-' :: b ++ '-' :: c ++ '-' :: d ++ '-' :: e) = a ++ b ++ c ++ d ++ e := by
  simp [joined, List.drop_append, List.drop_eq_nil_of_le, ha, hb, hc, hd]

theorem hyphenate_groups {a b c d e : List Char} (ha : a.length = 8) (hb : b.length = 4)
    (hc : c.length = 4) (hd : d.length = 4) :
    hyphenate (a ++ b ++ c ++ d ++ e) = a ++ '-' :: b ++ '-' :: c ++ '-' :: d ++ '-' :: e := by
  simp [hyphenate, List.drop_append, List.drop_eq_nil_of_le, ha, hb, hc, hd]

theorem joined_hyphenate (h : ds.length = 32) : joined (hyphenate ds) = ds := by
  rw [hyphenate, joined_groups (by simp [h]) (by simp [h]) (by simp [h]) (by simp [h]),
    ← List.take_add, ← List.take_add, ← List.take_add, List.take_append_drop]

theorem hyphened_hyphenate (h : ds.length = 32) : Hyphened (hyphenate ds) := by
  simp [Hyphened, hyphenate, List.getElem?_append, h]

theorem take_drop_append (cs : List Char) (i n : Nat) :
    (cs.drop i).take n ++ cs.drop (i + n) = cs.drop i := by
  rw [← List.drop_drop, List.take_append_drop]

theorem hyphenate_joined (h : Hyphened cs) : hyphenate (joined cs) = cs := by
  obtain ⟨hlen, hmarks⟩ := h
  have hmark (i : Nat) (hi : i ∈ [8, 13, 18, 23]) : '-' :: cs.drop (i + 1) = cs.drop i := by
    obtain ⟨hlt, hi⟩ := List.getElem?_eq_some_iff.mp (hmarks i hi)
    rw [List.drop_eq_getElem_cons hlt, hi]
  rw [joined, hyphenate_groups (by simp [hlen]) (by simp [hlen]) (by simp [hlen]) (by simp [hlen])]
  -- The groups and hyphens are put before the rest one by one, from the end of the text.
  simp only [List.append_assoc, List.cons_append]
  rw [hmark 23 (by simp), take_drop_append cs 19 4, hmark 18 (by simp), take_drop_append cs 14 4,
    hmark 13 (by simp), take_drop_append cs 9 4, hmark 8 (by simp), List.take_append_drop]

theorem filter_hyphenate : (hyphenate ds).filter (· != '-') = ds.filter (· != '-') := by
  have hmark (cs : List Char) : ('-' :: cs).filter (· != '-') = cs.filter (· != '-') := rfl
  simp only [hyphenate, List.append_assoc, List.cons_append, List.filter_append, hmark]
  simp only [← List.filter_append]
  rw [take_drop_append ds 16 4, take_drop_append ds 12 4, take_drop_append ds 8 4,
    List.take_append_drop]

theorem ofHyphenated?_eq_some_iff : ofHyphenated? cs = some p ↔ cs.map Char.toLower = p.chars := by
  have hread : ofHyphenated? cs = some p ↔ Hyphened cs ∧ ofDigits? (joined cs) = some p := by
    simp [ofHyphenated?, Hyphened, joined, and_assoc]
  rw [hread, ofDigits?_eq_some_iff, chars_eq]
  constructor
  · rintro ⟨hhyphened, hdigits⟩
    rw [← hdigits, ← map_hyphenate (by decide), hyphenate_joined hhyphened]
  · intro hchars
    refine ⟨?_, ?_⟩
    · rw [← hyphened_map_iff, hchars]
      exact hyphened_hyphenate length_digits
    · rw [map_joined, hchars, joined_hyphenate length_digits]

/-! ## All spellings -/

@[simp] theorem length_chars : p.chars.length = 36 :=
  (hyphened_hyphenate length_digits).1

theorem ofChars?_digits (h : cs.length = 32) : ofChars? cs = ofDigits? cs := by
  unfold ofChars?
  rw [h]
  rfl

theorem ofChars?_hyphenated (h : cs.length = 36) : ofChars? cs = ofHyphenated? cs := by
  unfold ofChars?
  rw [h]
  rfl

theorem ofChars?_braced (h : cs.length = 36) :
    ofChars? ('\x7b' :: cs ++ ['\x7d']) = ofHyphenated? cs := by
  unfold ofChars?
  rw [show ('\x7b' :: cs ++ ['\x7d']).length = 38 by simp [h]]
  simp [List.getLast?_cons]

theorem ofChars?_marked {mark : List Char} (hmark : mark.map Char.toLower = urnMark)
    (h : cs.length = 36) :
    ofChars? (mark ++ cs) = ofHyphenated? cs := by
  have hlen : mark.length = 9 := by simpa [urnMark] using congrArg List.length hmark
  unfold ofChars?
  rw [show (mark ++ cs).length = 45 by simp [h, hlen]]
  simp [hlen, hmark]

theorem eq_braced (hopen : cs.head? = some '\x7b') (hclose : cs.getLast? = some '\x7d')
    (hlen : 1 < cs.length) :
    cs = '\x7b' :: (cs.drop 1).dropLast ++ ['\x7d'] := by
  obtain ⟨rest, rfl⟩ := List.head?_eq_some_iff.mp hopen
  have hlast : rest.getLast? = some '\x7d' := by
    cases rest with
    | nil => simp at hlen
    | cons c rest => simpa using hclose
  obtain ⟨inner, rfl⟩ := List.getLast?_eq_some_iff.mp hlast
  simp

theorem exists_braced (h : cs.map Char.toLower = '\x7b' :: ds ++ ['\x7d']) :
    ∃ inner, cs = '\x7b' :: inner ++ ['\x7d'] ∧ inner.map Char.toLower = ds := by
  obtain ⟨front, back, rfl, hfront, hback⟩ := List.map_eq_append_iff.mp h
  obtain ⟨c, inner, rfl, hopen, hinner⟩ := List.map_eq_cons_iff.mp hfront
  obtain ⟨c', rest, rfl, hclose, hrest⟩ := List.map_eq_cons_iff.mp hback
  obtain rfl := (toLower_eq_iff (by decide)).mp hopen
  obtain rfl := (toLower_eq_iff (by decide)).mp hclose
  obtain rfl := List.map_eq_nil_iff.mp hrest
  exact ⟨inner, rfl, hinner⟩

theorem ofChars?_cases (h : ofChars? cs = some p) :
    ofDigits? cs = some p ∨ ofHyphenated? cs = some p ∨
      (∃ inner, cs = '\x7b' :: inner ++ ['\x7d'] ∧ ofHyphenated? inner = some p) ∨
      ∃ mark inner, cs = mark ++ inner ∧ mark.map Char.toLower = urnMark ∧
        ofHyphenated? inner = some p := by
  unfold ofChars? at h
  split at h
  next => exact .inl h
  next => exact .inr (.inl h)
  next hlen =>
    split at h
    next hbraces =>
      simp only [Bool.and_eq_true, beq_iff_eq] at hbraces
      exact .inr (.inr (.inl ⟨_, eq_braced hbraces.1 hbraces.2 (by omega), h⟩))
    next => cases h
  next =>
    split at h
    next hmark =>
      exact .inr (.inr (.inr ⟨_, _, (List.take_append_drop 9 cs).symm, beq_iff_eq.mp hmark, h⟩))
    next => cases h
  next => cases h

/-- An identity is read from its spellings, with letters in either case, and from nothing else. -/
theorem ofChars?_eq_some_iff : ofChars? cs = some p ↔ cs.map Char.toLower ∈ p.spellings := by
  simp only [spellings, List.mem_cons, List.not_mem_nil, or_false]
  constructor
  · intro h
    rcases ofChars?_cases h with hread | hread | ⟨inner, rfl, hread⟩ |
      ⟨mark, inner, rfl, hmark, hread⟩
    · exact .inl (ofDigits?_eq_some_iff.mp hread)
    · exact .inr (.inl (ofHyphenated?_eq_some_iff.mp hread))
    · refine .inr (.inr (.inl ?_))
      rw [← ofHyphenated?_eq_some_iff.mp hread]
      simp
    · refine .inr (.inr (.inr ?_))
      rw [← ofHyphenated?_eq_some_iff.mp hread, ← hmark, List.map_append]
  · have hlength {inner : List Char} (h : inner.map Char.toLower = p.chars) : inner.length =
        36 := by
      rw [← List.length_map Char.toLower, h, length_chars]
    rintro (h | h | h | h)
    · have hlen : cs.length = 32 := by rw [← List.length_map Char.toLower, h, length_digits]
      rw [ofChars?_digits hlen]
      exact ofDigits?_eq_some_iff.mpr h
    · rw [ofChars?_hyphenated (hlength h)]
      exact ofHyphenated?_eq_some_iff.mpr h
    · obtain ⟨inner, rfl, hinner⟩ := exists_braced h
      rw [ofChars?_braced (hlength hinner)]
      exact ofHyphenated?_eq_some_iff.mpr hinner
    · obtain ⟨mark, inner, rfl, hmark, hinner⟩ := List.map_eq_append_iff.mp h
      rw [ofChars?_marked hmark (hlength hinner)]
      exact ofHyphenated?_eq_some_iff.mpr hinner

theorem ofText?_eq_some_iff {s : String} : ofText? s = some p ↔ s.toLower.toList ∈ p.spellings := by
  have hlower : s.toLower.toList = s.toList.map Char.toLower := String.toList_map
  rw [hlower]
  exact ofChars?_eq_some_iff

/-- Letters in lower case stay as they are, also if they were in upper case meanwhile. -/
theorem map_chars {f : Char → Char} (hdigit : ∀ n < 16, f (Hex.digit n) = Hex.digit n)
    (hhyphen : f '-' = '-') :
    p.chars.map f = p.chars := by
  rw [chars_eq, map_hyphenate hhyphen, digits, Hex.map_ofBytes hdigit]

theorem toList_text (p : PresentationId) : p.text.toList = p.chars :=
  String.toList_ofList

theorem ofChars?_chars (p : PresentationId) : ofChars? p.chars = some p := by
  rw [ofChars?_eq_some_iff, map_chars (fun _ => Hex.toLower_digit) (by decide)]
  simp [spellings]

/-- The text is read as the identity, and so it is without its hyphens, in braces and after the
mark of a URN. -/
structure Names (t : String) (p : PresentationId) : Prop where
  itself : ofText? t = some p
  joined : ofText? (String.ofList (t.toList.filter (· != '-'))) = some p
  braced : ofText? ("\x7b" ++ t ++ "\x7d") = some p
  marked : ofText? ("urn:uuid:" ++ t) = some p

theorem filter_chars (p : PresentationId) : p.chars.filter (· != '-') = p.digits := by
  rw [chars_eq, filter_hyphenate, List.filter_eq_self]
  intro c hc
  obtain ⟨n, hn, rfl⟩ := Hex.exists_digit_of_mem hc
  exact bne_iff_ne.mpr (Hex.digit_ne_hyphen hn)

theorem names_of_toLower {t : String} (hchars : t.toList.map Char.toLower = p.chars) :
    Names t p := by
  have hread {s : String} (hs : s.toList.map Char.toLower ∈ p.spellings) : ofText? s = some p :=
    ofChars?_eq_some_iff.mpr hs
  have hmark : (fun c : Char => c != '-') = (· != '-') ∘ Char.toLower := by
    funext c
    have hiff : c.toLower = '-' ↔ c = '-' := toLower_eq_iff (by decide)
    simp [bne, hiff]
  have hdigits : (t.toList.filter (· != '-')).map Char.toLower = p.digits := by
    rw [hmark, ← List.filter_map, hchars, filter_chars]
  refine ⟨hread ?_, hread ?_, hread ?_, hread ?_⟩
  · simp [hchars, spellings]
  · simp [hdigits, spellings]
  · simp [hchars, spellings]
  · simp [hchars, spellings, urnMark]

/-! ## GUIDs -/

/-- The first four bytes, the next two and the next two are each in reverse. -/
theorem toList_swapGroups (b : Vector UInt8 16) :
    (swapGroups b).toList = (b.toList.take 4).reverse ++ ((b.toList.drop 4).take 2).reverse
      ++ ((b.toList.drop 6).take 2).reverse ++ b.toList.drop 8 := by
  refine List.ext_getElem (by simp) fun i hi _ => ?_
  have hlt : i < 16 := by simpa using hi
  interval_cases i <;> simp [swapGroups]

@[simp] theorem swapGroups_swapGroups (b : Vector UInt8 16) : swapGroups (swapGroups b) = b := by
  ext i hi
  interval_cases i <;> rfl

theorem toGuid_ofGuid (guid : Vector UInt8 16) : (ofGuid guid).toGuid = guid := by
  simp [ofGuid, toGuid]

theorem ofGuid_toGuid (p : PresentationId) : ofGuid p.toGuid = p := by
  simp [ofGuid, toGuid]

theorem ofGuid_inj {guid other : Vector UInt8 16} : ofGuid guid = ofGuid other ↔ guid = other := by
  constructor
  · intro h
    rw [← toGuid_ofGuid guid, h, toGuid_ofGuid]
  · exact congrArg ofGuid

theorem ofGuid_eq_iff {guid bytes : Vector UInt8 16} :
    ofGuid guid = ⟨bytes⟩ ↔ bytes.toList =
      (guid.toList.take 4).reverse ++ ((guid.toList.drop 4).take 2).reverse
      ++ ((guid.toList.drop 6).take 2).reverse ++ guid.toList.drop 8 := by
  rw [ofGuid, mk.injEq, ← toList_swapGroups, Vector.toList_inj, eq_comm]

/-- A GUID and the identity that it stands for determine each other, by the order of their bytes.
The text of an identity is its digits in hyphened groups. It names the identity with letters in
either case, also without hyphens, in braces and after the mark of a URN, and nothing else does. -/
theorem names_faithful :
    (∀ guid, (ofGuid guid).toGuid = guid) ∧ (∀ p : PresentationId, ofGuid p.toGuid = p) ∧
    (∀ guid bytes, ofGuid guid = ⟨bytes⟩ ↔
      bytes.toList = (guid.toList.take 4).reverse ++ ((guid.toList.drop 4).take 2).reverse
        ++ ((guid.toList.drop 6).take 2).reverse ++ guid.toList.drop 8) ∧
    (∀ guid other, ofGuid guid = ofGuid other ↔ guid = other) ∧
    (∀ p : PresentationId, Hyphened p.text.toList ∧ p.text.toList.filter (· != '-') = p.digits ∧
      Names p.text p ∧ Names p.text.toUpper p) ∧
    ∀ (p : PresentationId) (s : String), ofText? s = some p ↔ s.toLower.toList ∈ p.spellings := by
  refine ⟨toGuid_ofGuid, ofGuid_toGuid, fun _ _ => ofGuid_eq_iff, fun _ _ => ofGuid_inj,
    fun p => ⟨?_, ?_, ?_, ?_⟩, fun _ _ => ofText?_eq_some_iff⟩
  · rw [toList_text]
    exact hyphened_hyphenate length_digits
  · rw [toList_text, filter_chars]
  · apply names_of_toLower
    rw [toList_text]
    exact map_chars (fun _ => Hex.toLower_digit) (by decide)
  · have hupper : p.text.toUpper.toList = p.text.toList.map Char.toUpper := String.toList_map
    apply names_of_toLower
    rw [hupper, toList_text, List.map_map]
    exact map_chars (fun _ => Hex.toLower_toUpper_digit) (by decide)

example : (ofGuid #v[0x78, 0x56, 0x34, 0x12, 0x34, 0x12, 0x78, 0x56, 1, 2, 3, 4, 5, 6, 7, 8]).text
    = "12345678-1234-5678-0102-030405060708" := by decide

end Playout.PresentationId
