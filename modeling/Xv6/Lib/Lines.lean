import Mathlib.Tactic

/-!
# Lines

The parts of a list that end with a separator, and what is left after the last one. Both are
computed from left to right with the part that has been begun, so that a list may come in pieces.
-/

namespace Lib

variable {α : Type*} [DecidableEq α] {sep : α} {acc w l l' : List α}

/-- The lines of `acc ++ l`, without their ends, where `acc` has been begun. -/
def linesFrom (sep : α) (acc : List α) : List α → List (List α)
  | [] => []
  | a :: l => if a = sep then acc :: linesFrom sep [] l else linesFrom sep (acc ++ [a]) l

/-- The line that has been begun after `l`. -/
def pending (sep : α) (acc : List α) : List α → List α
  | [] => acc
  | a :: l => if a = sep then pending sep [] l else pending sep (acc ++ [a]) l

lemma linesFrom_append : linesFrom sep acc (l ++ l')
    = linesFrom sep acc l ++ linesFrom sep (pending sep acc l) l' := by
  induction l generalizing acc with
  | nil => rfl
  | cons a l ih =>
    rw [List.cons_append, linesFrom, linesFrom, pending]
    split_ifs
    · rw [ih, List.cons_append]
    · exact ih

lemma pending_append : pending sep acc (l ++ l') = pending sep (pending sep acc l) l' := by
  induction l generalizing acc with
  | nil => rfl
  | cons a l ih =>
    rw [List.cons_append, pending, pending]
    split_ifs <;> exact ih

lemma linesFrom_of_not_mem (h : sep ∉ l) : linesFrom sep acc l = [] := by
  induction l generalizing acc with
  | nil => rfl
  | cons a l ih =>
    rw [List.mem_cons, not_or] at h
    rw [linesFrom, if_neg (Ne.symm h.1)]
    exact ih h.2

lemma pending_of_not_mem (h : sep ∉ l) : pending sep acc l = acc ++ l := by
  induction l generalizing acc with
  | nil => exact (List.append_nil acc).symm
  | cons a l ih =>
    rw [List.mem_cons, not_or] at h
    rw [pending, if_neg (Ne.symm h.1), ih h.2, List.append_assoc, List.singleton_append]

/-- The first line. -/
lemma linesFrom_line (h : sep ∉ w) :
    linesFrom sep [] (w ++ sep :: l) = w :: linesFrom sep [] l := by
  rw [linesFrom_append, linesFrom_of_not_mem h, pending_of_not_mem h, linesFrom, if_pos rfl,
    List.nil_append, List.nil_append]

lemma pending_line (h : sep ∉ w) : pending sep [] (w ++ sep :: l) = pending sep [] l := by
  rw [pending_append, pending_of_not_mem h, pending, if_pos rfl]

/-- What has been begun may as well be read again. -/
lemma linesFrom_eq (h : sep ∉ acc) : linesFrom sep acc l = linesFrom sep [] (acc ++ l) := by
  rw [linesFrom_append, linesFrom_of_not_mem h, pending_of_not_mem h, List.nil_append,
    List.nil_append]

lemma not_mem_pending (h : sep ∉ acc) : sep ∉ pending sep acc l := by
  induction l generalizing acc with
  | nil => exact h
  | cons a l ih =>
    rw [pending]
    split_ifs with ha
    · exact ih List.not_mem_nil
    · refine ih fun hc => ?_
      rcases List.mem_append.mp hc with hc | hc
      · exact h hc
      · exact ha (List.mem_singleton.mp hc).symm

/-- What has been begun is the end of the list. -/
lemma pending_suffix : pending sep acc l <:+ acc ++ l := by
  induction l generalizing acc with
  | nil => exact (List.append_nil acc).symm ▸ List.suffix_refl acc
  | cons a l ih =>
    rw [pending]
    split_ifs
    · exact ih.trans ⟨acc ++ [a], by rw [List.nil_append, List.append_assoc, List.singleton_append]⟩
    · have hnext : pending sep (acc ++ [a]) l <:+ acc ++ [a] ++ l := ih
      rwa [List.append_assoc, List.singleton_append] at hnext

/-- A list has no end of a line, or a first line. -/
lemma exists_line (sep : α) (l : List α) : sep ∉ l ∨ ∃ w r, l = w ++ sep :: r ∧ sep ∉ w := by
  by_cases h : sep ∈ l
  · obtain ⟨w, r, rfl, hw⟩ := List.eq_append_cons_of_mem h
    exact Or.inr ⟨w, r, rfl, hw⟩
  · exact Or.inl h

end Lib
