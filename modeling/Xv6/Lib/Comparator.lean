import Mathlib.Tactic
import Mathlib.Data.List.Pairwise

/-!
# Comparison functions and `qsort`

A comparison function tells by the sign of an integer which of two elements comes first. `qsort`
sorts a list only if the function is consistent on its elements.
-/

namespace Lib

variable {α : Type*} {cmp : α → α → Int} {l : List α}

/-- On the list, the comparison is a total preorder. -/
structure Consistent (cmp : α → α → Int) (l : List α) : Prop where
  antisymm : ∀ a ∈ l, ∀ b ∈ l, cmp a b < 0 ↔ 0 < cmp b a
  trans : ∀ a ∈ l, ∀ b ∈ l, ∀ c ∈ l, cmp a b ≤ 0 → cmp b c ≤ 0 → cmp a c ≤ 0

/-- On the list, the comparison is a strict total order. -/
structure StrictOrder (cmp : α → α → Int) (l : List α) : Prop where
  antisymm : ∀ a ∈ l, ∀ b ∈ l, cmp a b < 0 ↔ 0 < cmp b a
  trans : ∀ a ∈ l, ∀ b ∈ l, ∀ c ∈ l, cmp a b < 0 → cmp b c < 0 → cmp a c < 0
  eq_of_zero : ∀ a ∈ l, ∀ b ∈ l, cmp a b = 0 → a = b

lemma StrictOrder.consistent (h : StrictOrder cmp l) : Consistent cmp l where
  antisymm := h.antisymm
  trans a ha b hb c hc hab hbc := by
    rcases hab.eq_or_lt with hab | hab
    · rwa [h.eq_of_zero a ha b hb hab]
    rcases hbc.eq_or_lt with hbc | hbc
    · rw [← h.eq_of_zero b hb c hc hbc]
      exact hab.le
    · exact (h.trans a ha b hb c hc hab hbc).le

/-- `qsort` sorts by every comparison that is consistent. -/
def Sorts (qsort : (α → α → Int) → List α → List α) : Prop :=
  ∀ cmp l, Consistent cmp l →
    (qsort cmp l).Perm l ∧ (qsort cmp l).Pairwise (fun a b => cmp a b ≤ 0)

/-- Two elements of a sorted list stand in one order or in the other. -/
lemma related_or_of_pairwise {R : α → α → Prop} (h : l.Pairwise R) {a b : α} (ha : a ∈ l)
    (hb : b ∈ l) (hne : a ≠ b) : R a b ∨ R b a := by
  have : Std.Symm fun a b => R a b ∨ R b a := ⟨fun _ _ => Or.symm⟩
  exact List.Pairwise.forall (h.imp (S := fun a b => R a b ∨ R b a) Or.inl) ha hb hne

/-- A `qsort`, for any type of elements. -/
def mergeQsort (cmp : α → α → Int) (l : List α) : List α :=
  (l.attach.mergeSort fun a b => cmp a.1 b.1 ≤ 0).map Subtype.val

lemma sorts_mergeQsort : Sorts (mergeQsort (α := α)) := by
  intro cmp l h
  constructor
  · have := (List.mergeSort_perm l.attach fun a b => cmp a.1 b.1 ≤ 0).map Subtype.val
    rwa [List.attach_map_subtype_val] at this
  · unfold mergeQsort
    rw [List.pairwise_map]
    refine (List.pairwise_mergeSort (fun a b c hab hbc => ?_) (fun a b => ?_) l.attach).imp
      fun hab => by simpa using hab
    · simp only [decide_eq_true_eq] at hab hbc ⊢
      exact h.trans a a.2 b b.2 c c.2 hab hbc
    · have := h.antisymm b b.2 a a.2
      simp only [Bool.or_eq_true, decide_eq_true_eq]
      omega

end Lib
