import Playout.Text.Hex

/-!
# Reading hexadecimal digits

Digits are read in either case. So a text is read as some bytes exactly if, with its letters in
lower case, it is what is written of them.
-/

namespace Playout

/-! ## Letters in lower case -/

theorem toNat_toLower (c : Char) :
    c.toLower.toNat = if 65 ≤ c.toNat ∧ c.toNat ≤ 90 then c.toNat + 32 else c.toNat := by
  unfold Char.toLower
  simp only [ge_iff_le, UInt32.le_iff_toNat_le]
  split
  next hupper =>
    have hletter : 65 ≤ c.toNat ∧ c.toNat ≤ 90 := hupper
    have hsum : (c.val + 32).toNat = (c.toNat + 32) % 2 ^ 32 := UInt32.toNat_add ..
    rw [if_pos hletter]
    exact hsum.trans (Nat.mod_eq_of_lt (by omega))
  next hother => exact (if_neg hother).symm

theorem toLower_eq_iff {c mark : Char} (h : mark.toNat < 65 ∨ 122 < mark.toNat) :
    c.toLower = mark ↔ c = mark := by
  rw [← Char.toNat_inj, ← Char.toNat_inj, toNat_toLower]
  split <;> omega

namespace Hex

/-! ## One digit -/

theorem toNat_digit {n : Nat} (h : n < 16) :
    (digit n).toNat = if n < 10 then 48 + n else 87 + n := by
  revert n
  decide

theorem toLower_digit {n : Nat} (h : n < 16) : (digit n).toLower = digit n := by
  revert n
  decide

theorem toLower_toUpper_digit {n : Nat} (h : n < 16) : (digit n).toUpper.toLower = digit n := by
  revert n
  decide

theorem digit_ne_hyphen {n : Nat} (h : n < 16) : digit n ≠ '-' := by
  revert n
  decide

theorem value?_eq (c : Char) : value? c =
    if 48 ≤ c.toNat ∧ c.toNat ≤ 57 then some (c.toNat - 48)
    else if 97 ≤ c.toNat ∧ c.toNat ≤ 102 then some (c.toNat - 87)
    else if 65 ≤ c.toNat ∧ c.toNat ≤ 70 then some (c.toNat - 55)
    else none := by
  simp only [value?, Char.le_def, UInt32.le_iff_toNat_le]
  rfl

theorem lt_of_value? {c : Char} {n : Nat} (h : value? c = some n) : n < 16 := by
  rw [value?_eq] at h
  grind

theorem value?_eq_some_iff {c : Char} {n : Nat} (h : n < 16) :
    value? c = some n ↔ c.toLower = digit n := by
  rw [← Char.toNat_inj, toNat_toLower, toNat_digit h, value?_eq]
  grind

theorem value?_digit {n : Nat} (h : n < 16) : value? (digit n) = some n :=
  (value?_eq_some_iff h).mpr (toLower_digit h)

/-! ## Bytes -/

theorem ofBytes_cons (b : UInt8) (bs : List UInt8) :
    ofBytes (b :: bs) = digit (b.toNat / 16) :: digit (b.toNat % 16) :: ofBytes bs := rfl

theorem ofBytes_ofNat_cons {high low : Nat} (hhigh : high < 16) (hlow : low < 16)
    (bs : List UInt8) :
    ofBytes (.ofNat (16 * high + low) :: bs) = digit high :: digit low :: ofBytes bs := by
  have hbyte : (UInt8.ofNat (16 * high + low)).toNat = 16 * high + low :=
    UInt8.toNat_ofNat_of_lt' (show 16 * high + low < 256 by omega)
  rw [ofBytes_cons, hbyte, show (16 * high + low) / 16 =
    high by omega, show (16 * high + low) % 16 = low by omega]

theorem length_ofBytes (bs : List UInt8) : (ofBytes bs).length = 2 * bs.length := by
  induction bs with
  | nil => rfl
  | cons b bs ih =>
      rw [ofBytes_cons, List.length_cons, List.length_cons, List.length_cons, ih]
      omega

theorem exists_digit_of_mem {c : Char} {bs : List UInt8} (h : c ∈ ofBytes bs) :
    ∃ n < 16, c = digit n := by
  obtain ⟨b, -, hb⟩ := List.mem_flatMap.mp h
  have hlt := b.toNat_lt
  simp only [ofByte, List.mem_cons, List.not_mem_nil, or_false] at hb
  rcases hb with rfl | rfl
  · exact ⟨_, by omega, rfl⟩
  · exact ⟨_, by omega, rfl⟩

theorem map_ofBytes {f : Char → Char} (h : ∀ n < 16, f (digit n) = digit n) (bs : List UInt8) :
    (ofBytes bs).map f = ofBytes bs := by
  refine (List.map_congr_left fun c hc => ?_).trans (List.map_id _)
  obtain ⟨n, hn, rfl⟩ := exists_digit_of_mem hc
  exact h n hn

/-- Digits come in pairs, and each pair is one byte. -/
theorem toBytes?_eq_some_iff {cs : List Char} {bs : List UInt8} :
    toBytes? cs = some bs ↔ cs.map Char.toLower = ofBytes bs := by
  induction cs using toBytes?.induct generalizing bs with
  | case1 => cases bs <;> simp [toBytes?, ofBytes, ofByte]
  | case2 c => cases bs <;> simp [toBytes?, ofBytes, ofByte]
  | case3 h l rest ih =>
      simp only [toBytes?, Option.bind_eq_bind, Option.bind_eq_some_iff, Option.pure_def,
        Option.some.injEq, List.map_cons]
      constructor
      · rintro ⟨high, hhigh, low, hlow, bytes, hbytes, rfl⟩
        have hfirst := (value?_eq_some_iff (lt_of_value? hhigh)).mp hhigh
        have hsecond := (value?_eq_some_iff (lt_of_value? hlow)).mp hlow
        rw [hfirst, hsecond, ih.mp hbytes,
          ofBytes_ofNat_cons (lt_of_value? hhigh) (lt_of_value? hlow)]
      · intro hdigits
        cases bs with
        | nil => cases hdigits
        | cons b bs =>
            have hlt := b.toNat_lt
            rw [ofBytes_cons, List.cons.injEq, List.cons.injEq] at hdigits
            obtain ⟨hfirst, hsecond, hrest⟩ := hdigits
            refine ⟨_, (value?_eq_some_iff (by omega)).mpr hfirst, _,
              (value?_eq_some_iff (by omega)).mpr hsecond, bs,
              ih.mpr hrest, ?_⟩
            rw [Nat.div_add_mod, UInt8.ofNat_toNat]

end Hex

end Playout
