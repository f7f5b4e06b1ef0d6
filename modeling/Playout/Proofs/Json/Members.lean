import Playout.Json.Form

/-!
# The members of a record

The members that are read for a list of names, by what the object or the array gives. Neither the
order of the fields nor fields with other names matter; a name that is given twice does.
-/

namespace Playout.Json

/-- What the fields `known` give for their names if only some of the names are given. -/
def selected (known : List (String × Json)) (given : String → Bool) : List (Option Json) :=
  known.map fun f => if given f.1 then some f.2 else none

/-- These fields, among fields with other names. -/
def Holds (names : List String) (known fields : List (String × Json)) : Prop :=
  (fields.filter fun f => names.contains f.1).Perm known

theorem field?_of_mem {fields : List (String × Json)} {name : String} {value : Json}
    (hcount : fields.countP (fun f => f.1 == name) ≤ 1) (hmem : (name, value) ∈ fields) :
    field? (fields.map fun f => (some f.1, f.2)) name = some value := by
  induction fields with
  | nil => cases hmem
  | cons f fields ih =>
      by_cases hf : f.1 = name
      · have hzero : fields.countP (fun f => f.1 == name) = 0 := by
          rw [List.countP_cons_of_pos (by simpa using hf)] at hcount
          omega
        have hhead : f = (name, value) := by
          obtain rfl | htail := List.mem_cons.mp hmem
          · rfl
          · exact absurd (beq_self_eq_true name) (List.countP_eq_zero.mp hzero _ htail)
        simp [field?, hhead]
      · have htail : (name, value) ∈ fields := by
          obtain rfl | htail := List.mem_cons.mp hmem
          · exact absurd rfl hf
          · exact htail
        rw [List.countP_cons_of_neg (by simpa using hf)] at hcount
        have hrest := ih hcount htail
        simpa [field?, hf] using hrest

theorem field?_eq_none {fields : List (String × Json)} {name : String}
    (h : ∀ f ∈ fields, f.1 ≠ name) :
    field? (fields.map fun f => (some f.1, f.2)) name = none := by
  simpa [field?] using h

variable {names : List String} {values : List Json} {fields : List (String × Json)}

theorem countP_zip_le (hnodup : names.Nodup) (hlen : names.length = values.length) (name : String) :
    (names.zip values).countP (fun f => f.1 == name) ≤ 1 := by
  calc (names.zip values).countP (fun f => f.1 == name)
      = ((names.zip values).map (·.1)).count name := by rw [List.count, List.countP_map]; rfl
    _ = names.count name := by rw [List.map_fst_zip (by omega)]
    _ ≤ 1 := List.nodup_iff_count.mp hnodup name

/-- An object gives what its fields among the names give, whatever their order and whatever stands
between them. -/
theorem members?_record (given : String → Bool) (hnodup : names.Nodup)
    (hlen : names.length = values.length)
    (h : Holds names ((names.zip values).filter fun f => given f.1) fields) :
    (record fields).members? names = some (selected (names.zip values) given) := by
  have hmem {f : String × Json} :
      (f ∈ fields ∧ f.1 ∈ names) ↔ f ∈ names.zip values ∧ given f.1 = true := by
    simpa using h.mem_iff (a := f)
  have hcount : ∀ name ∈ names, fields.countP (fun f => f.1 == name) ≤ 1 := by
    intro name hname
    calc fields.countP (fun f => f.1 == name)
        = (fields.filter fun f => names.contains f.1).countP (fun f => f.1 == name) := by
          rw [List.countP_filter]
          apply List.countP_congr
          intro f _
          simp only [beq_iff_eq, Bool.and_eq_true, List.contains_iff_mem]
          constructor
          · rintro rfl
            exact ⟨rfl, hname⟩
          · exact And.left
      _ = ((names.zip values).filter fun f => given f.1).countP (fun f => f.1 == name) :=
          h.countP_eq _
      _ ≤ (names.zip values).countP (fun f => f.1 == name) := List.filter_sublist.countP_le
      _ ≤ 1 := countP_zip_le hnodup hlen name
  have hkeyed : wellKeyed names (fields.map fun f => (some f.1, f.2)) = true := by
    simpa [wellKeyed, List.countP_map, Function.comp_def] using hcount
  have hfield : ∀ f ∈ names.zip values,
      field? (fields.map fun f => (some f.1, f.2)) f.1 = if given f.1 then some f.2 else none := by
    intro f hf
    have hname : f.1 ∈ names := List.of_mem_zip hf |>.1
    split
    · next hgiven => exact field?_of_mem (hcount f.1 hname) (hmem.mpr ⟨hf, hgiven⟩).1
    · next hgiven =>
        apply field?_eq_none
        intro g hg hgf
        have hg' := hmem.mp ⟨hg, hgf ▸ hname⟩
        exact hgiven (hgf ▸ hg'.2)
  show members? names (.object (fields.map fun f => (some f.1, f.2))) = _
  simp only [members?, hkeyed, if_true, Option.some.injEq]
  calc names.map (field? (fields.map fun f => (some f.1, f.2)))
      = ((names.zip values).map (·.1)).map (field? (fields.map fun f => (some f.1, f.2))) := by
        rw [List.map_fst_zip (by omega)]
    _ = selected (names.zip values) given := by
        rw [List.map_map]
        exact List.map_congr_left hfield

/-- The fields as they are written, with nothing left out and nothing added. -/
theorem members?_zip (hnodup : names.Nodup) (hlen : names.length = values.length) :
    (record (names.zip values)).members? names = some (values.map some) := by
  have hholds : Holds names ((names.zip values).filter fun _ => true) (names.zip values) := by
    have hfilter : (names.zip values).filter (fun f => names.contains f.1) = names.zip values := by
      apply List.filter_eq_self.mpr
      intro f hf
      simpa using (List.of_mem_zip hf).1
    rw [Holds, hfilter, List.filter_eq_self.mpr (by simp)]
  rw [members?_record (fun _ => true) hnodup hlen hholds]
  simp only [selected, if_true, Option.some.injEq]
  rw [← Function.comp_def, ← List.map_map, List.map_snd_zip (by omega)]

theorem mem_take_of_zip {k : Nat} {f : String × Json} (hf : f ∈ (names.zip values).take k) :
    f.1 ∈ names.take k := by
  rw [List.zip, List.take_zipWith] at hf
  exact (List.of_mem_zip hf).1

theorem not_mem_take_of_zip (hnodup : names.Nodup) {k : Nat} {f : String × Json}
    (hf : f ∈ (names.zip values).drop k) : f.1 ∉ names.take k := by
  rw [List.zip, List.drop_zipWith] at hf
  rw [← List.take_append_drop k names] at hnodup
  exact fun hmem => (List.nodup_append.mp hnodup).2.2 _ hmem _ (List.of_mem_zip hf).1 rfl

theorem selected_take (hnodup : names.Nodup) (hlen : names.length = values.length) (k : Nat) :
    (values.take k).map some ++ List.replicate (names.length - (values.take k).length) none
      = selected (names.zip values) (names.take k).contains := by
  have htake : selected ((names.zip values).take k) (names.take k).contains =
      (values.take k).map some := by
    calc selected ((names.zip values).take k) (names.take k).contains
        = ((names.zip values).take k).map (some ·.2) :=
          List.map_congr_left fun f hf => if_pos (List.contains_iff_mem.mpr (mem_take_of_zip hf))
      _ = (((names.zip values).map (·.2)).take k).map some := by
        rw [← List.map_take, List.map_map]; rfl
      _ = (values.take k).map some := by rw [List.map_snd_zip (by omega)]
  have hdrop : selected ((names.zip values).drop k) (names.take k).contains
      = List.replicate (names.length - (values.take k).length) none := by
    refine List.eq_replicate_iff.mpr ⟨?_, ?_⟩
    · simp [selected, hlen]
      omega
    · intro member hmember
      obtain ⟨f, hf, rfl⟩ := List.mem_map.mp hmember
      exact if_neg (mt List.contains_iff_mem.mp (not_mem_take_of_zip hnodup hf))
  rw [← htake, ← hdrop]
  simp only [selected, ← List.map_append, List.take_append_drop]

theorem take_zip (hnodup : names.Nodup) (k : Nat) :
    (names.zip values).take k
      = (names.zip values).filter fun f => (names.take k).contains f.1 := by
  calc (names.zip values).take k
      = ((names.zip values).take k ++ (names.zip values).drop k).filter
          fun f => (names.take k).contains f.1 := by
        rw [List.filter_append,
          List.filter_eq_self.mpr fun f hf => List.contains_iff_mem.mpr (mem_take_of_zip hf),
          List.filter_eq_nil_iff.mpr fun f hf =>
            mt List.contains_iff_mem.mp (not_mem_take_of_zip hnodup hf),
          List.append_nil]
    _ = (names.zip values).filter fun f => (names.take k).contains f.1 := by
      rw [List.take_append_drop]

theorem members?_take (hnodup : names.Nodup) (hlen : names.length = values.length) (k : Nat) :
    (array (values.take k)).members? names
      = some (selected (names.zip values) (names.take k).contains) := by
  have hle : (values.take k).length ≤ names.length := by
    rw [List.length_take, hlen]
    omega
  simp only [members?, hle, if_true, selected_take hnodup hlen]

/-- A name given twice is refused, whatever the values. -/
theorem members?_twice {fields : List (Option String × Json)} {name : String} (hname : name ∈ names)
    (h : 2 ≤ fields.countP fun f => f.1 == some name) : (object fields).members? names = none := by
  have hkeyed : wellKeyed names fields = false := by
    simp only [wellKeyed, Bool.and_eq_false_iff, List.all_eq_false]
    exact .inr ⟨name, hname, by simp; omega⟩
  simp [members?, hkeyed]

end Playout.Json
