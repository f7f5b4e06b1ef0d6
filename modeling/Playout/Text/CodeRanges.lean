/-!
# Sets of characters as ranges

A large set of characters is written as the ranges of code points that it covers, both ends
included, in ascending order. A search can then stop at the first range that lies wholly above
the character.
-/

namespace Playout

abbrev CodeRanges := List (Nat × Nat)

namespace CodeRanges

/-- Whether a range from the list holds the code point. The ranges must ascend. -/
def holds : CodeRanges → Nat → Bool
  | [], _ => false
  | (low, high) :: rest, n => low ≤ n && (n ≤ high || holds rest n)

/-- Every range is in order, starts at `least` or above, and ends before the next one starts. -/
def ascendFrom (least : Nat) : CodeRanges → Bool
  | [] => true
  | (low, high) :: rest => least ≤ low && low ≤ high && ascendFrom (high + 1) rest

theorem holds_eq_false_of_lt {least n : Nat} {ranges : CodeRanges}
    (hranges : ascendFrom least ranges = true) (hn : n < least) : holds ranges n = false := by
  cases ranges with
  | nil => rfl
  | cons range rest =>
      obtain ⟨low, high⟩ := range
      simp only [ascendFrom, Bool.and_eq_true, decide_eq_true_eq] at hranges
      have hlow : ¬ low ≤ n := by omega
      simp [holds, hlow]

/-- On ascending ranges the search finds exactly the code points that lie in one of them. -/
theorem holds_iff {least n : Nat} {ranges : CodeRanges} (hranges : ascendFrom least ranges = true) :
    holds ranges n = true ↔ ∃ range ∈ ranges, range.1 ≤ n ∧ n ≤ range.2 := by
  induction ranges generalizing least with
  | nil => simp [holds]
  | cons range rest ih =>
      obtain ⟨low, high⟩ := range
      simp only [ascendFrom, Bool.and_eq_true, decide_eq_true_eq] at hranges
      obtain ⟨⟨_, hordered⟩, hrest⟩ := hranges
      have hbelow : ¬ low ≤ n → holds rest n = false := fun h =>
        holds_eq_false_of_lt hrest (by omega)
      by_cases hlow : low ≤ n
      · simp [holds, hlow, ih hrest]
      · have hnone := hbelow hlow
        simp only [holds, hlow, decide_false, Bool.false_and, Bool.false_eq_true, false_iff]
        rintro ⟨range, hmem, hin⟩
        rcases List.mem_cons.1 hmem with rfl | hmem
        · exact hlow hin.1
        · rw [(ih hrest).2 ⟨range, hmem, hin⟩] at hnone
          exact Bool.noConfusion hnone

end CodeRanges

end Playout
