import Playout.Proofs.Json.Grammar

/-!
# Every text of a value is read as that value

The reader is run on a text that spells a value, followed by anything. What it hands back is the
value and the rest, up to blanks in front of the rest. Only a number needs to know where it ends:
the rest must not go on with it. One unit of fuel for each level and each item is covered by two for
each character.
-/

namespace Playout.Json

/-! ## Blanks -/

theorem skipBlanks_append {b : List Char} (h : Blank b) (cs : List Char) :
    skipBlanks (b ++ cs) = skipBlanks cs := by
  unfold skipBlanks
  exact List.dropWhile_append_of_pos (List.all_eq_true.mp h)

theorem skipBlanks_cons {c : Char} (h : isBlank c = false) (cs : List Char) :
    skipBlanks (c :: cs) = c :: cs := by
  simp [skipBlanks, h]

theorem skipBlanks_skipBlanks (cs : List Char) : skipBlanks (skipBlanks cs) = skipBlanks cs := by
  induction cs with
  | nil => rfl
  | cons c cs ih =>
      cases hc : isBlank c with
      | true => simpa [skipBlanks, hc] using ih
      | false => rw [skipBlanks_cons hc, skipBlanks_cons hc]

/-! ## Strings -/

theorem readCode_append {n : Nat} {code : List Char} (h : Code n code) (rest : List Char) :
    readCode (code ++ rest) = some (n, rest) := by
  cases h with
  | digits ha hb hc hd => simp [readCode, ha, hb, hc, hd]

theorem code_of_readCode {n : Nat} {cs rest : List Char} (h : readCode cs = some (n, rest)) :
    ∃ code, Code n code ∧ cs = code ++ rest := by
  unfold readCode at h
  split at h
  · next a b c d tail =>
      simp only [Option.bind_eq_bind, Option.bind_eq_some_iff, Option.pure_def, Option.some.injEq,
        Prod.mk.injEq] at h
      obtain ⟨i, hi, j, hj, k, hk, l, hl, rfl, rfl⟩ := h
      exact ⟨[a, b, c, d], .digits hi hj hk hl, rfl⟩
  · cases h

theorem Code.ne_quote {n : Nat} {code : List Char} (h : Code n code) : '"' ∉ code := by
  have hquote : Hex.value? '"' = none := by decide
  cases h with
  | digits ha hb hc hd =>
      intro hmem
      simp only [List.mem_cons, List.not_mem_nil, or_false] at hmem
      obtain rfl | rfl | rfl | rfl := hmem <;> simp_all

theorem readLowSurrogate_escape {n : Nat} {code : List Char} (h : Code n code)
    (hlow : isLowSurrogate n = true) (rest : List Char) :
    readLowSurrogate ('\\' :: 'u' :: code ++ rest) = some (n, rest) := by
  simp [readLowSurrogate, readCode_append h, hlow]

theorem readLowSurrogate_eq_none {s : List Char} (h : ¬ LowNext s) (rest : List Char) :
    readLowSurrogate (s ++ '"' :: rest) = none := by
  cases hread : readLowSurrogate (s ++ '"' :: rest) with
  | none => rfl
  | some p =>
      obtain ⟨n, tail⟩ := p
      unfold readLowSurrogate at hread
      split at hread
      · next cs hcs =>
          cases hcode : readCode cs with
          | none => simp [hcode] at hread
          | some q =>
              obtain ⟨n', tail'⟩ := q
              simp only [hcode] at hread
              split at hread
              · next hlow =>
                  obtain ⟨code, hcode', rfl⟩ := code_of_readCode hcode
                  -- The escape lies before the quote, so it is the string's own.
                  rw [show '\\' :: 'u' :: (code ++ tail') = ('\\' :: 'u' :: code) ++ tail' from rfl,
                    List.append_eq_append_iff] at hcs
                  obtain ⟨t, ht, htail⟩ | ⟨t, ht, -⟩ := hcs
                  · cases t with
                    | nil => exact absurd ⟨n', code, [], hcode', hlow, by simpa using ht.symm⟩ h
                    | cons c t =>
                        obtain rfl : '"' = c := by simpa using (List.cons.inj htail).1
                        have hmem : '"' ∈ '\\' :: 'u' :: code := by simp [ht]
                        simp [hcode'.ne_quote] at hmem
                  · exact absurd ⟨n', code, t, hcode', hlow, ht⟩ h
              · cases hread
      · cases hread

theorem readEscape_shorthand {mark c : Char} (h : (mark, c) ∈ shorthands) (rest : List Char) :
    readEscape (mark :: rest) = some (.char c, rest) := by
  simp only [shorthands, List.mem_cons, Prod.mk.injEq, List.not_mem_nil, or_false] at h
  obtain ⟨rfl, rfl⟩ | ⟨rfl, rfl⟩ | ⟨rfl, rfl⟩ | ⟨rfl, rfl⟩ | ⟨rfl, rfl⟩ | ⟨rfl, rfl⟩ | ⟨rfl, rfl⟩ |
    ⟨rfl, rfl⟩ := h <;>
    rfl

theorem readEscape_code {n : Nat} {code : List Char} (h : Code n code)
    (hhigh : isHighSurrogate n = false) (hlow : isLowSurrogate n = false) (rest : List Char) :
    readEscape ('u' :: code ++ rest) = some (.char (Char.ofNat n), rest) := by
  simp [readEscape, readCode_append h, hhigh, hlow]

theorem readEscape_pair {high low : Nat} {first second : List Char} (h : Code high first)
    (h' : Code low second) (hhigh : isHighSurrogate high = true) (hlow : isLowSurrogate low = true)
    (rest : List Char) :
    readEscape ('u' :: first ++ '\\' :: 'u' :: second ++ rest)
      = some (.char (Char.ofNat ((high - 0xD800) * 1024 + (low - 0xDC00) + 0x10000)), rest) := by
  have hnext := readLowSurrogate_escape h' hlow rest
  simp only [List.cons_append, List.append_assoc] at hnext ⊢
  simp [readEscape, readCode_append h, hhigh, hnext]

theorem readEscape_unpaired {n : Nat} {code s : List Char} (h : Code n code)
    (halone : isLowSurrogate n = true ∨ isHighSurrogate n = true ∧ ¬ LowNext s) (rest : List Char) :
    readEscape ('u' :: code ++ (s ++ '"' :: rest)) = some (.unpaired, s ++ '"' :: rest) := by
  have hhigh : isLowSurrogate n = true → isHighSurrogate n = false := by
    simp only [isLowSurrogate, isHighSurrogate, Bool.and_eq_true, decide_eq_true_eq,
      Bool.and_eq_false_iff, decide_eq_false_iff_not]
    omega
  obtain hlow | ⟨hhigh', hnext⟩ := halone
  · simp [readEscape, readCode_append h, hhigh hlow, hlow]
  · simp [readEscape, readCode_append h, hhigh', readLowSurrogate_eq_none hnext]

theorem readString_backslash {fuel : Nat} {cs rest after : List Char} {part : Unit16}
    {text : Option (List Char)} (hpart : readEscape cs = some (part, rest))
    (hrest : readString fuel rest = some (text, after)) :
    readString (fuel + 1) ('\\' :: cs) = some (part.cons text, after) := by
  simp [readString, hpart, hrest]

theorem readString_spelled {text : Option (List Char)} {s : List Char} (h : SpellsText text s)
    (rest : List Char) (fuel : Nat) (hfuel : s.length < fuel) :
    readString fuel (s ++ '"' :: rest) = some (text, rest) := by
  induction h generalizing fuel with
  | empty =>
      cases fuel with
      | zero => omega
      | succ fuel => simp [readString]
  | plain hvisible hquote hbackslash _ ih =>
      cases fuel with
      | zero => omega
      | succ fuel =>
          have htail := ih fuel (by simp at hfuel; omega)
          simp [readString, htail, show ¬ _ < 32 from Nat.not_lt.mpr hvisible]
  | short hmem _ ih =>
      cases fuel with
      | zero => omega
      | succ fuel =>
          exact readString_backslash (readEscape_shorthand hmem _)
            (ih fuel (by simp at hfuel; omega))
  | code hcode hhigh hlow _ ih =>
      cases fuel with
      | zero => omega
      | succ fuel =>
          have hpart := readEscape_code hcode hhigh hlow
          have htail := ih fuel (by simp at hfuel; omega)
          simpa [List.append_assoc, Unit16.cons] using readString_backslash (hpart _) htail
  | pair hfirst hsecond hhigh hlow _ ih =>
      cases fuel with
      | zero => omega
      | succ fuel =>
          have hpart := readEscape_pair hfirst hsecond hhigh hlow
          have htail := ih fuel (by simp at hfuel; omega)
          simpa [List.append_assoc, Unit16.cons] using readString_backslash (hpart _) htail
  | unpaired hcode halone _ ih =>
      cases fuel with
      | zero => omega
      | succ fuel =>
          have hpart := readEscape_unpaired hcode halone rest
          have htail := ih fuel (by simp at hfuel; omega)
          simpa [List.append_assoc, Unit16.cons] using readString_backslash hpart htail

theorem readText_spelled {text : Option (List Char)} {s : List Char} (h : SpellsText text s)
    (rest : List Char) (fuel : Nat) (hfuel : s.length < fuel) :
    readText fuel (s ++ '"' :: rest) = some (text.map String.ofList, rest) := by
  simp [readText, readString_spelled h rest fuel hfuel]

/-! ## Numbers -/

def Pause (rest : List Char) : Prop :=
  ∀ c ∈ rest.head?, isDigit c = false

def Ends (rest : List Char) : Prop :=
  ∀ c ∈ rest.head?, isDigit c = false ∧ c ≠ '.' ∧ c ≠ 'e' ∧ c ≠ 'E'

theorem Ends.pause {rest : List Char} (h : Ends rest) : Pause rest :=
  fun c hc => (h c hc).1

theorem isDigit_eq (c : Char) : isDigit c = c.isDigit := by
  simp [isDigit, Char.isDigit, Char.le_def]

theorem span_digits {ds rest : List Char} (h : ds.all isDigit = true) (hrest : Pause rest) :
    (ds ++ rest).takeWhile isDigit = ds ∧ (ds ++ rest).dropWhile isDigit = rest := by
  have hall := List.all_eq_true.mp h
  rw [List.takeWhile_append_of_pos hall, List.dropWhile_append_of_pos hall]
  cases rest with
  | nil => simp
  | cons c rest =>
      have hc : isDigit c = false := hrest c (by simp)
      simp [hc]

theorem readDigits_spelled {ds rest : List Char} (h : Digits ds) (hrest : Pause rest) :
    readDigits (ds ++ rest) = some (ds, rest) := by
  obtain ⟨htake, hdrop⟩ := span_digits h.2 hrest
  unfold readDigits
  rw [htake, hdrop]
  split
  · exact absurd rfl h.1
  · rfl

theorem toDigits_all (n : Nat) : (Nat.toDigits 10 n).all isDigit = true := by
  apply List.all_eq_true.mpr
  intro c hc
  rw [isDigit_eq]
  exact Nat.isDigit_of_mem_toDigits (by decide) (by decide) hc

/-- Only zero is written with a leading zero. -/
theorem toDigits_cons (n : Nat) : ∃ d ds, Nat.toDigits 10 n = d :: ds ∧ (d = '0' → n = 0) := by
  induction n using Nat.strongRecOn with
  | ind n ih =>
      by_cases hn : n < 10
      · exact ⟨n.digitChar, [], Nat.toDigits_of_lt_base hn, by simp⟩
      · obtain ⟨d, ds, hdigits, hlead⟩ := ih (n / 10) (by omega)
        refine ⟨d, ds ++ [(n % 10).digitChar], ?_, ?_⟩
        · rw [Nat.toDigits_of_base_le (by decide) (by omega), hdigits, List.cons_append]
        · intro hd
          have := hlead hd
          omega

theorem ofDigits_toDigits (n : Nat) : ofDigits (Nat.toDigits 10 n) = n :=
  Nat.ofDigitChars_toDigits (by decide) (by decide)

theorem readWhole_toDigits (n : Nat) {rest : List Char} (hrest : Pause rest) :
    readWhole (Nat.toDigits 10 n ++ rest) = some (Nat.toDigits 10 n, rest) := by
  obtain ⟨d, ds, hdigits, hlead⟩ := toDigits_cons n
  by_cases hd : d = '0'
  · obtain rfl := hlead hd
    rw [Nat.toDigits_zero]
    cases rest with
    | nil => rfl
    | cons c rest =>
        have hc : isDigit c = false := hrest c (by simp)
        simp [readWhole, hc]
  · obtain ⟨htake, hdrop⟩ := span_digits (toDigits_all n) hrest
    rw [hdigits] at htake hdrop ⊢
    unfold readWhole
    split
    · next hzero => exact absurd (List.cons.inj hzero).1 hd
    · rw [htake, hdrop]

theorem readFraction_nil {rest : List Char} (hrest : ∀ c ∈ rest.head?, c ≠ '.') :
    readFraction rest = some ([], rest) := by
  unfold readFraction
  split
  · exact absurd rfl (hrest '.' (by simp))
  · rfl

theorem readFraction_spelled {cs rest : List Char} (h : IsFraction cs) (hrest : Pause rest) :
    readFraction (cs ++ rest) = some (cs, rest) := by
  obtain ⟨ds, hds, rfl⟩ := h
  simp [readFraction, readDigits_spelled hds hrest]

theorem readExponent_nil {rest : List Char} (hrest : ∀ c ∈ rest.head?, c ≠ 'e' ∧ c ≠ 'E') :
    readExponent rest = some ([], rest) := by
  cases rest with
  | nil => rfl
  | cons c rest =>
      have hc := hrest c (by simp)
      simp [readExponent, hc.1, hc.2]

theorem readSign_spelled {sign ds rest : List Char} (h : sign ∈ [[], ['+'], ['-']])
    (hds : Digits ds) :
    readSign (sign ++ (ds ++ rest)) = (sign, ds ++ rest) := by
  simp only [List.mem_cons, List.not_mem_nil, or_false] at h
  obtain rfl | rfl | rfl := h
  · obtain ⟨d, ds', rfl⟩ := List.exists_cons_of_ne_nil hds.1
    have hd : isDigit d = true := List.all_eq_true.mp hds.2 d (by simp)
    unfold readSign
    split
    · next heq =>
        obtain ⟨rfl, -⟩ := List.cons.inj heq
        cases hd
    · next heq =>
        obtain ⟨rfl, -⟩ := List.cons.inj heq
        cases hd
    · rfl
  · rfl
  · rfl

theorem readExponent_spelled {cs rest : List Char} (h : IsExponent cs) (hrest : Pause rest) :
    readExponent (cs ++ rest) = some (cs, rest) := by
  obtain ⟨mark, sign, ds, hmark, hsign, hds, rfl⟩ := h
  have hread := readDigits_spelled hds hrest
  simp only [List.cons_append, List.append_assoc, readExponent, readSign_spelled hsign hds]
  simp [hread, hmark]

theorem IsExponent.pause {cs rest : List Char} (h : IsExponent cs) :
    Pause (cs ++ rest) ∧ ∀ c ∈ (cs ++ rest).head?, c ≠ '.' := by
  obtain ⟨mark, sign, ds, hmark, -, -, rfl⟩ := h
  constructor
  · intro c hc
    obtain rfl : mark = c := by simpa using hc
    obtain rfl | rfl := hmark <;> rfl
  · intro c hc
    obtain rfl : mark = c := by simpa using hc
    obtain rfl | rfl := hmark <;> decide

theorem IsFraction.pause {cs rest : List Char} (h : IsFraction cs) : Pause (cs ++ rest) := by
  obtain ⟨ds, -, rfl⟩ := h
  intro c hc
  obtain rfl : '.' = c := by simpa using hc
  rfl

def unsigned (n : Nat) (fraction exponent : List Char) : Json :=
  match fraction, exponent with
  | [], [] => .natural n
  | _, _ => .numeral (Nat.toDigits 10 n ++ fraction ++ exponent)

theorem readUnsigned_spelled (n : Nat) {fraction exponent rest : List Char}
    (hfraction : fraction = [] ∨ IsFraction fraction)
    (hexponent : exponent = [] ∨ IsExponent exponent) (hrest : Ends rest) :
    readUnsigned (Nat.toDigits 10 n ++ fraction ++ exponent ++ rest)
      = some (unsigned n fraction exponent, rest) := by
  have hmore : Pause (exponent ++ rest) ∧ ∀ c ∈ (exponent ++ rest).head?, c ≠ '.' := by
    obtain rfl | hexponent := hexponent
    · exact ⟨hrest.pause, fun c hc => (hrest c hc).2.1⟩
    · exact hexponent.pause
  have hpause : Pause (fraction ++ (exponent ++ rest)) := by
    obtain rfl | hfraction := hfraction
    · exact hmore.1
    · exact hfraction.pause
  have hwhole := readWhole_toDigits n hpause
  have hfrac : readFraction (fraction ++ (exponent ++ rest)) =
      some (fraction, exponent ++ rest) := by
    obtain rfl | hfraction := hfraction
    · exact readFraction_nil hmore.2
    · exact readFraction_spelled hfraction hmore.1
  have hexp : readExponent (exponent ++ rest) = some (exponent, rest) := by
    obtain rfl | hexponent := hexponent
    · exact readExponent_nil fun c hc => (hrest c hc).2.2
    · exact readExponent_spelled hexponent hrest.pause
  simp only [List.append_assoc]
  unfold readUnsigned unsigned
  simp only [hwhole, hfrac, hexp, Option.bind_eq_bind, Option.bind_some, ofDigits_toDigits]
  split <;> simp

theorem readNumber_unsigned (n : Nat) (cs : List Char) :
    readNumber (Nat.toDigits 10 n ++ cs) = readUnsigned (Nat.toDigits 10 n ++ cs) := by
  obtain ⟨d, ds, hdigits, -⟩ := toDigits_cons n
  have hd : isDigit d = true := List.all_eq_true.mp (toDigits_all n) d (by simp [hdigits])
  rw [hdigits]
  unfold readNumber
  split
  · next heq =>
      obtain ⟨rfl, -⟩ := List.cons.inj heq
      cases hd
  · rfl

theorem readNumber_natural (n : Nat) {rest : List Char} (hrest : Ends rest) :
    readNumber (Nat.toDigits 10 n ++ rest) = some (.natural n, rest) := by
  rw [readNumber_unsigned]
  simpa [unsigned] using readUnsigned_spelled n (.inl rfl) (.inl rfl) hrest

theorem unsigned_eq_numeral {n : Nat} {fraction exponent : List Char}
    (h : fraction ≠ [] ∨ exponent ≠ []) :
    unsigned n fraction exponent = .numeral (Nat.toDigits 10 n ++ fraction ++ exponent) := by
  unfold unsigned
  split
  · simp at h
  · rfl

theorem readNumber_numeral {lexeme rest : List Char} (h : Numeral lexeme) (hrest : Ends rest) :
    readNumber (lexeme ++ rest) = some (.numeral lexeme, rest) := by
  obtain ⟨sign, n, fraction, exponent, hsign, hfraction, hexponent, hmore, rfl⟩ := h
  have hread := readUnsigned_spelled n hfraction hexponent hrest
  obtain rfl | rfl := hsign
  · rw [unsigned_eq_numeral (by simpa using hmore)] at hread
    rw [List.nil_append, ← hread, List.append_assoc, List.append_assoc, readNumber_unsigned]
  · unfold unsigned at hread
    simp only [List.cons_append, List.nil_append, readNumber]
    split at hread
    · rw [List.append_nil, List.append_nil] at hread ⊢
      simp only [hread]
    · simp only [hread]

/-! ## Values -/

attribute [local simp] readValue readItems readFields

theorem ends_of_blank {b rest : List Char} (h : Blank b) (hrest : Ends rest) :
    Ends (b ++ rest) := by
  cases b with
  | nil => exact hrest
  | cons c b =>
      intro c' hc'
      obtain rfl : c = c' := by simpa using hc'
      have hc : isBlank c = true := List.all_eq_true.mp h c (by simp)
      simp only [isBlank, Bool.or_eq_true, beq_iff_eq] at hc
      obtain ((rfl | rfl) | rfl) | rfl := hc <;> decide

theorem readValue_blank {b : List Char} (h : Blank b) (fuel : Nat) (cs : List Char) :
    readValue fuel (b ++ cs) = readValue fuel cs := by
  cases fuel with
  | zero => rfl
  | succ fuel => simp only [readValue, skipBlanks_append h]

def OpensNumber (c : Char) : Prop :=
  isDigit c = true ∨ c = '-'

theorem OpensNumber.not_blank {c : Char} (h : OpensNumber c) : isBlank c = false := by
  cases hb : isBlank c with
  | false => rfl
  | true =>
      simp only [isBlank, Bool.or_eq_true, beq_iff_eq] at hb
      unfold OpensNumber at h
      obtain ((rfl | rfl) | rfl) | rfl := hb <;> exact absurd h (by decide)

theorem OpensNumber.ne_bracket {c : Char} (h : OpensNumber c) : c ≠ ']' := by
  rintro rfl
  unfold OpensNumber at h
  exact absurd h (by decide)

theorem opensNumber_toDigits (n : Nat) : ∃ c cs, Nat.toDigits 10 n = c :: cs ∧ OpensNumber c := by
  obtain ⟨d, ds, hdigits, -⟩ := toDigits_cons n
  exact ⟨d, ds, hdigits, .inl (List.all_eq_true.mp (toDigits_all n) d (by simp [hdigits]))⟩

theorem Numeral.opensNumber {lexeme : List Char} (h : Numeral lexeme) :
    ∃ c cs, lexeme = c :: cs ∧ OpensNumber c := by
  obtain ⟨sign, n, fraction, exponent, hsign, -, -, -, rfl⟩ := h
  obtain rfl | rfl := hsign
  · obtain ⟨c, cs, hdigits, hc⟩ := opensNumber_toDigits n
    exact ⟨c, cs ++ fraction ++ exponent, by simp [hdigits], hc⟩
  · exact ⟨'-', _, rfl, .inr rfl⟩

theorem readValue_number {c : Char} {cs : List Char} (h : OpensNumber c) (fuel : Nat) :
    readValue (fuel + 1) (c :: cs) = readNumber (c :: cs) := by
  simp only [readValue, skipBlanks_cons h.not_blank]
  unfold OpensNumber at h
  split
  all_goals first
    | rfl
    | next heq =>
        obtain ⟨rfl, -⟩ := List.cons.inj heq
        exact absurd h (by decide)

theorem readItems_skipBlanks (fuel : Nat) (cs : List Char) :
    readItems fuel (skipBlanks cs) = readItems fuel cs := by
  match fuel with
  | 0 => rfl
  | 1 => rfl
  | fuel + 2 => simp only [readItems, readValue, skipBlanks_skipBlanks]

theorem readFields_skipBlanks (fuel : Nat) (cs : List Char) :
    readFields fuel (skipBlanks cs) = readFields fuel cs := by
  cases fuel with
  | zero => rfl
  | succ fuel => simp only [readFields, skipBlanks_skipBlanks]

theorem readValue_string {text : Option String} {cs rest : List Char} {fuel : Nat}
    (h : readText fuel cs = some (text, rest)) :
    readValue (fuel + 1) ('"' :: cs) = some (.string text, rest) := by
  simp [skipBlanks_cons (show isBlank '"' = false from rfl), h]

theorem readValue_noItems {cs rest : List Char} (fuel : Nat) (h : skipBlanks cs = ']' :: rest) :
    readValue (fuel + 1) ('[' :: cs) = some (.array [], rest) := by
  simp only [readValue, skipBlanks_cons (show isBlank '[' = false from rfl), h]

theorem readValue_items {c : Char} {items : List Json} {cs tail rest : List Char} {fuel : Nat}
    (hstart : skipBlanks cs = c :: tail) (hc : c ≠ ']')
    (h : readItems fuel cs = some (items, rest)) :
    readValue (fuel + 1) ('[' :: cs) = some (.array items, rest) := by
  rw [← readItems_skipBlanks, hstart] at h
  simp only [readValue, skipBlanks_cons (show isBlank '[' = false from rfl), hstart]
  split
  · next heq => exact absurd (List.cons.inj heq).1 hc
  · simp [h]

theorem readValue_noFields {cs rest : List Char} (fuel : Nat) (h : skipBlanks cs = '\x7d' :: rest) :
    readValue (fuel + 1) ('\x7b' :: cs) = some (.object [], rest) := by
  simp only [readValue, skipBlanks_cons (show isBlank '\x7b' = false from rfl), h]

theorem readValue_fields {fields : List (Option String × Json)} {cs tail rest : List Char}
    {fuel : Nat}
    (hstart : skipBlanks cs = '"' :: tail) (h : readFields fuel cs = some (fields, rest)) :
    readValue (fuel + 1) ('\x7b' :: cs) = some (.object fields, rest) := by
  rw [← readFields_skipBlanks, hstart] at h
  simp [skipBlanks_cons (show isBlank '\x7b' = false from rfl), hstart, h]

/-- The reader takes the text for the value, whatever follows that does not go on with a number, and
leaves the rest, up to blanks in front of it. -/
def ReadsAs (j : Json) (s : List Char) : Prop :=
  ∀ fuel rest, 2 * s.length ≤ fuel → Ends rest →
    ∃ after, readValue fuel (s ++ rest) = some (j, after) ∧ skipBlanks after = skipBlanks rest

/-- No value starts with a closing bracket. -/
theorem Spells.start {j : Json} {s : List Char} (h : Spells j s) (rest : List Char) :
    ∃ c tail, skipBlanks (s ++ rest) = c :: tail ∧ c ≠ ']' := by
  induction h generalizing rest with
  | null => exact ⟨'n', _, skipBlanks_cons rfl _, by decide⟩
  | isTrue => exact ⟨'t', _, skipBlanks_cons rfl _, by decide⟩
  | isFalse => exact ⟨'f', _, skipBlanks_cons rfl _, by decide⟩
  | natural n =>
      obtain ⟨c, cs, hdigits, hc⟩ := opensNumber_toDigits n
      exact ⟨c, cs ++ rest, by rw [hdigits]; exact skipBlanks_cons hc.not_blank _, hc.ne_bracket⟩
  | numeral h =>
      obtain ⟨c, cs, rfl, hc⟩ := h.opensNumber
      exact ⟨c, cs ++ rest, skipBlanks_cons hc.not_blank _, hc.ne_bracket⟩
  | string => exact ⟨'"', _, skipBlanks_cons rfl _, by decide⟩
  | noItems => exact ⟨'[', _, skipBlanks_cons rfl _, by decide⟩
  | array => exact ⟨'[', _, skipBlanks_cons rfl _, by decide⟩
  | noFields => exact ⟨'\x7b', _, skipBlanks_cons rfl _, by decide⟩
  | object => exact ⟨'\x7b', _, skipBlanks_cons rfl _, by decide⟩
  | blanks ha hb _ ih =>
      obtain ⟨c, tail, hskip, hc⟩ := ih (_ ++ rest)
      rw [List.append_assoc, List.append_assoc, skipBlanks_append ha]
      exact ⟨c, tail, hskip, hc⟩

theorem ends_cons {c : Char} (h : c ∈ [',', ']', '\x7d']) (rest : List Char) :
    Ends (c :: rest) := by
  intro c' hc'
  obtain rfl : c = c' := by simpa using hc'
  simp only [List.mem_cons, List.not_mem_nil, or_false] at h
  obtain rfl | rfl | rfl := h <;> decide

theorem readItems_spelled {items : List (Json × List Char)} (hne : items ≠ [])
    (h : ∀ item ∈ items, ReadsAs item.1 item.2) (rest : List Char) (fuel : Nat)
    (hfuel : 2 * ([','].intercalate (items.map (·.2))).length < fuel) :
    readItems fuel ([','].intercalate (items.map (·.2)) ++ ']' :: rest)
      = some (items.map (·.1), rest) := by
  induction items generalizing fuel with
  | nil => exact absurd rfl hne
  | cons item items ih =>
      obtain ⟨fuel, rfl⟩ : ∃ f, fuel = f + 1 := ⟨fuel - 1, by omega⟩
      have hitem := h item (by simp)
      cases items with
      | nil =>
          simp only [List.map_cons, List.map_nil, List.intercalate_singleton] at hfuel ⊢
          obtain ⟨after, hread, hafter⟩ :=
            hitem fuel (']' :: rest) (by omega) (ends_cons (by simp) rest)
          rw [skipBlanks_cons rfl] at hafter
          simp [hread, hafter]
      | cons next more =>
          simp only [List.map_cons, List.intercalate_cons_cons] at hfuel ih ⊢
          simp only [List.length_append, List.length_cons, List.length_nil] at hfuel
          have htail := ih (by simp) (fun j hj => h j (by simp_all)) fuel (by omega)
          obtain ⟨after, hread, hafter⟩ := hitem fuel
            (',' :: ([','].intercalate (next.2 :: more.map (·.2)) ++ ']' :: rest)) (by omega)
            (ends_cons (by simp) _)
          rw [skipBlanks_cons rfl] at hafter
          simp [hread, hafter, htail]

/-- A field is read, and what follows it decides whether it is the last one. -/
theorem readFields_step {f : WrittenField} (hnamed : f.Named) (h : ReadsAs f.value f.text)
    (fuel : Nat) (hfuel : 2 * f.chars.length ≤ fuel) (rest : List Char) :
    readFields (fuel + 1) (f.chars ++ '\x7d' :: rest) = some ([f.field], rest) ∧
      ∀ {fields after}, readFields fuel rest = some (fields, after) →
        readFields (fuel + 1) (f.chars ++ ',' :: rest) = some (f.field :: fields, after) := by
  obtain ⟨hbefore, hkey, hafter⟩ := hnamed
  simp only [WrittenField.chars, List.length_append, List.length_cons] at hfuel
  have hname (rest : List Char) := readText_spelled hkey (f.after ++ ':' :: (f.text ++ rest))
    fuel (by omega)
  simp only [WrittenField.chars, WrittenField.field, List.append_assoc, List.cons_append,
    readFields, skipBlanks_append hbefore, skipBlanks_cons (show isBlank '"' = false from rfl),
    hname, skipBlanks_append hafter, skipBlanks_cons (show isBlank ':' = false from rfl)]
  constructor
  · obtain ⟨after, hread, hskip⟩ := h fuel ('\x7d' :: rest) (by omega) (ends_cons (by simp) rest)
    rw [skipBlanks_cons rfl] at hskip
    simp [hread, hskip]
  · intro fields after hmore
    obtain ⟨after, hread, hskip⟩ := h fuel (',' :: rest) (by omega) (ends_cons (by simp) rest)
    rw [skipBlanks_cons rfl] at hskip
    simp [hread, hskip, hmore]

theorem readFields_spelled {fields : List WrittenField} (hne : fields ≠ [])
    (hnamed : ∀ f ∈ fields, f.Named)
    (h : ∀ f ∈ fields, ReadsAs f.value f.text) (rest : List Char) (fuel : Nat)
    (hfuel : 2 * ([','].intercalate (fields.map (·.chars))).length < fuel) :
    readFields fuel ([','].intercalate (fields.map (·.chars)) ++ '\x7d' :: rest)
      = some (fields.map (·.field), rest) := by
  induction fields generalizing fuel with
  | nil => exact absurd rfl hne
  | cons f fields ih =>
      obtain ⟨fuel, rfl⟩ : ∃ k, fuel = k + 1 := ⟨fuel - 1, by omega⟩
      have hstep := readFields_step (hnamed f (by simp)) (h f (by simp)) fuel
      cases fields with
      | nil =>
          simp only [List.map_cons, List.map_nil, List.intercalate_singleton] at hfuel ⊢
          exact (hstep (by omega) rest).1
      | cons next more =>
          simp only [List.map_cons, List.intercalate_cons_cons] at hfuel ih ⊢
          simp only [List.length_append, List.length_cons, List.length_nil] at hfuel
          have htail :=
            ih (by simp) (fun f hf => hnamed f (by simp_all)) (fun f hf => h f (by simp_all))
            fuel (by omega)
          simp only [List.append_assoc, List.cons_append]
          exact (hstep (by omega) _).2 htail

theorem readsAs_number {j : Json} {c : Char} {cs : List Char} (hc : OpensNumber c)
    (h : ∀ rest, Ends rest → readNumber (c :: cs ++ rest) = some (j, rest)) :
    ReadsAs j (c :: cs) := by
  intro fuel rest hfuel hrest
  simp only [List.length_cons] at hfuel
  obtain ⟨fuel, rfl⟩ : ∃ k, fuel = k + 1 := ⟨fuel - 1, by omega⟩
  exact ⟨rest, by rw [List.cons_append, readValue_number hc, ← List.cons_append, h rest hrest], rfl⟩

/-- A text that is recognised by what it starts with, so that no rest changes how it is read. -/
theorem readsAs_of_eq {j : Json} {c : Char} {cs : List Char}
    (h : ∀ fuel rest, 2 * cs.length < fuel →
      readValue (fuel + 1) (c :: cs ++ rest) = some (j, rest)) :
    ReadsAs j (c :: cs) := by
  intro fuel rest hfuel _
  simp only [List.length_cons] at hfuel
  obtain ⟨fuel, rfl⟩ : ∃ k, fuel = k + 1 := ⟨fuel - 1, by omega⟩
  exact ⟨rest, h fuel rest (by omega), rfl⟩

/-- A text between two marks, the first of which says how the rest is read. -/
theorem readsAs_enclosed {j : Json} {opening closing : Char} {cs : List Char}
    (h : ∀ fuel rest, 2 * cs.length < fuel →
      readValue (fuel + 1) (opening :: (cs ++ closing :: rest)) = some (j, rest)) :
    ReadsAs j (opening :: cs ++ [closing]) := by
  rw [List.cons_append]
  apply readsAs_of_eq
  intro fuel rest hfuel
  simp only [List.length_append, List.length_cons, List.length_nil] at hfuel
  simpa using h fuel rest (by omega)

theorem readsAs_string {text : Option (List Char)} {s : List Char} (h : SpellsText text s) :
    ReadsAs (.string (text.map String.ofList)) ('"' :: s ++ ['"']) :=
  readsAs_enclosed fun fuel rest hfuel => readValue_string (readText_spelled h rest fuel (by omega))

theorem exists_intercalate_cons (s : List Char) (more : List (List Char)) :
    ∃ tail, [','].intercalate (s :: more) = s ++ tail := by
  cases more <;> simp

theorem readsAs_array {items : List (Json × List Char)} (hne : items ≠ [])
    (hspells : ∀ item ∈ items, Spells item.1 item.2) (h : ∀ item ∈ items, ReadsAs item.1 item.2) :
    ReadsAs (.array (items.map (·.1))) ('[' :: [','].intercalate (items.map (·.2)) ++ [']']) := by
  refine readsAs_enclosed fun fuel rest hfuel => ?_
  obtain ⟨c, tail, hstart, hc⟩ : ∃ c tail,
      skipBlanks ([','].intercalate (items.map (·.2)) ++ ']' :: rest) = c :: tail ∧ c ≠ ']' := by
    obtain ⟨item, items, rfl⟩ := List.exists_cons_of_ne_nil hne
    obtain ⟨more, hmore⟩ := exists_intercalate_cons item.2 (items.map (·.2))
    rw [List.map_cons, hmore, List.append_assoc]
    exact (hspells item (by simp)).start _
  exact readValue_items hstart hc (readItems_spelled hne h rest fuel (by omega))

theorem readsAs_object {fields : List WrittenField} (hne : fields ≠ [])
    (hnamed : ∀ f ∈ fields, f.Named) (h : ∀ f ∈ fields, ReadsAs f.value f.text) :
    ReadsAs (.object (fields.map (·.field)))
      ('\x7b' :: [','].intercalate (fields.map (·.chars)) ++ ['\x7d']) := by
  refine readsAs_enclosed fun fuel rest hfuel => ?_
  obtain ⟨tail, hstart⟩ : ∃ tail,
      skipBlanks ([','].intercalate (fields.map (·.chars)) ++ '\x7d' :: rest) = '"' :: tail := by
    obtain ⟨f, fields, rfl⟩ := List.exists_cons_of_ne_nil hne
    obtain ⟨more, hmore⟩ := exists_intercalate_cons f.chars (fields.map (·.chars))
    rw [List.map_cons, hmore]
    simp only [WrittenField.chars, List.append_assoc, List.cons_append,
      skipBlanks_append (hnamed f (by simp)).1]
    exact ⟨_, skipBlanks_cons rfl _⟩
  exact readValue_fields hstart (readFields_spelled hne hnamed h rest fuel (by omega))

theorem readsAs_of_spells {j : Json} {s : List Char} (h : Spells j s) : ReadsAs j s := by
  induction h with
  | null => exact readsAs_of_eq fun _ _ _ => rfl
  | isTrue => exact readsAs_of_eq fun _ _ _ => rfl
  | isFalse => exact readsAs_of_eq fun _ _ _ => rfl
  | natural n =>
      obtain ⟨c, cs, hdigits, hc⟩ := opensNumber_toDigits n
      have hread (rest : List Char) : Ends rest → _ := readNumber_natural n
      rw [hdigits] at hread ⊢
      exact readsAs_number hc hread
  | numeral h =>
      obtain ⟨c, cs, rfl, hc⟩ := h.opensNumber
      exact readsAs_number hc fun _ => readNumber_numeral h
  | string h => exact readsAs_string h
  | noItems hb =>
      exact readsAs_enclosed fun fuel rest _ =>
        readValue_noItems fuel (by rw [skipBlanks_append hb, skipBlanks_cons rfl])
  | array hne hspells ih => exact readsAs_array hne hspells ih
  | noFields hb =>
      exact readsAs_enclosed fun fuel rest _ =>
        readValue_noFields fuel (by rw [skipBlanks_append hb, skipBlanks_cons rfl])
  | object hne hnamed _ ih => exact readsAs_object hne hnamed ih
  | blanks ha hb _ ih =>
      intro fuel rest hfuel hrest
      simp only [List.length_append] at hfuel
      rw [List.append_assoc, List.append_assoc, readValue_blank ha]
      obtain ⟨after, hread, hskip⟩ := ih fuel (_ ++ rest) (by omega) (ends_of_blank hb hrest)
      exact ⟨after, hread, by rw [hskip, skipBlanks_append hb]⟩

/-- A text of a value, with nothing else in it, is read as that value. -/
theorem read?_of_spells {j : Json} {s : List Char} (h : Spells j s) : read? s = some j := by
  obtain ⟨after, hread, hskip⟩ :=
    readsAs_of_spells h (2 * s.length + 2) [] (by omega) (by simp [Ends])
  rw [List.append_nil] at hread
  simp only [read?, hread, hskip]
  rfl

end Playout.Json
