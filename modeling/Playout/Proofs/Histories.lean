import Mathlib.Data.List.Induction

/-!
# Histories

A history is a list that grows at its end. What is said of one is mostly that every entry fits what
came before it, or that something happened which nothing has undone since. Either is known of a
history with one entry more from what was known of it before.
-/

namespace Playout

/-- An entry of a list that grows at its end is the new one, or it was there before. -/
theorem snoc_eq_split {α : Type} {old before after : List α} {new entry : α}
    (h : old ++ [new] = before ++ entry :: after) :
    (before = old ∧ entry = new ∧ after = []) ∨
      ∃ rest, after = rest ++ [new] ∧ old = before ++ entry :: rest := by
  rcases List.eq_nil_or_concat after with rfl | ⟨rest, latest, rfl⟩
  · obtain ⟨hinit, hlast⟩ := List.append_inj' h rfl
    exact .inl ⟨hinit.symm, (List.cons.inj hlast).1.symm, rfl⟩
  · rw [List.concat_eq_append, ← List.cons_append, ← List.append_assoc] at h
    obtain ⟨hinit, hlast⟩ := List.append_inj' h rfl
    obtain rfl := (List.cons.inj hlast).1
    exact .inr ⟨rest, List.concat_eq_append .., hinit⟩

/-! ## Entries that fit -/

/-- Every entry fits what came before it. -/
def Throughout {α : Type} (fits : List α → α → Prop) (history : List α) : Prop :=
  ∀ before entry after, history = before ++ entry :: after → fits before entry

namespace Throughout

variable {α : Type} {fits : List α → α → Prop} {history more : List α} {entry : α}

theorem nil : Throughout fits [] := by
  intro before entry after h
  simp at h

theorem snoc (h : Throughout fits history) (hentry : fits history entry) :
    Throughout fits (history ++ [entry]) := by
  intro before other after hsplit
  rcases snoc_eq_split hsplit with ⟨rfl, rfl, -⟩ | ⟨rest, -, hinit⟩
  · exact hentry
  · exact h before other rest hinit

theorem of_append (h : Throughout fits (history ++ more)) : Throughout fits history := by
  intro before entry after hsplit
  exact h before entry (after ++ more) (by simp [hsplit])

end Throughout

/-! ## What holds since then -/

/-- Something of the first kind is in the history, and nothing of the second kind comes after it. -/
def Since {α : Type} (marks breaks : α → Prop) (history : List α) : Prop :=
  ∃ past entry since, history = past ++ entry :: since ∧ marks entry ∧
    ∀ later ∈ since, ¬ breaks later

namespace Since

variable {α : Type} {marks breaks marks' breaks' : α → Prop} {history : List α}

theorem not_nil : ¬ Since marks breaks [] := by
  rintro ⟨past, entry, since, hnil, -⟩
  simp at hnil

theorem snoc_iff {entry : α} :
    Since marks breaks (history ++ [entry]) ↔
      marks entry ∨ ¬ breaks entry ∧ Since marks breaks history := by
  constructor
  · rintro ⟨past, other, since, hsplit, hmarks, hsince⟩
    rcases snoc_eq_split hsplit with ⟨-, rfl, -⟩ | ⟨rest, rfl, hinit⟩
    · exact .inl hmarks
    · exact .inr ⟨hsince entry (by simp), past, other, rest, hinit, hmarks, fun later hlater =>
        hsince later (List.mem_append_left _ hlater)⟩
  · rintro (hmarks | ⟨hkeeps, past, other, since, rfl, hmarks, hsince⟩)
    · exact ⟨history, entry, [], rfl, hmarks, by simp⟩
    · refine ⟨past, other, since ++ [entry], by simp, hmarks, fun later hlater => ?_⟩
      rcases List.mem_append.mp hlater with hmem | hmem
      · exact hsince later hmem
      · rwa [List.mem_singleton.mp hmem]

theorem mono (h : Since marks breaks history) (hmarks : ∀ entry, marks entry → marks' entry)
    (hbreaks : ∀ entry, breaks' entry → breaks entry) : Since marks' breaks' history := by
  obtain ⟨past, entry, since, hsplit, hentry, hsince⟩ := h
  exact ⟨past, entry, since, hsplit, hmarks entry hentry, fun later hlater hlate =>
    hsince later hlater (hbreaks later hlate)⟩

/-- If what marks either of two beginnings breaks the other, both began with the same entry. -/
theorem exists_common (h : Since marks breaks history) (h' : Since marks' breaks' history)
    (hmarks : ∀ entry, marks entry → breaks' entry)
    (hmarks' : ∀ entry, marks' entry → breaks entry) :
    ∃ entry ∈ history, marks entry ∧ marks' entry := by
  induction history using List.reverseRecOn with
  | nil => exact absurd h not_nil
  | append_singleton history entry ih =>
      rcases snoc_iff.mp h with hentry | ⟨hkeeps, hbefore⟩ <;>
        rcases snoc_iff.mp h' with hentry' | ⟨hkeeps', hbefore'⟩
      · exact ⟨entry, by simp, hentry, hentry'⟩
      · exact absurd (hmarks entry hentry) hkeeps'
      · exact absurd (hmarks' entry hentry') hkeeps
      · obtain ⟨common, hmem, hboth⟩ := ih hbefore hbefore'
        exact ⟨common, List.mem_append_left _ hmem, hboth⟩

end Since

end Playout
