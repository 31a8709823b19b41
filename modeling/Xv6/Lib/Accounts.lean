import Mathlib.Tactic

/-!
# Accounts

A resource is handed out in units, and a unit in use is recorded at one place: `ref i` is the unit
recorded at `i`, 0 if there is none. The accounts are right if no unit is recorded twice and the
units in use are those recorded.
-/

namespace Lib

open Function

variable {ι β : Type*} [Zero β]

structure Accounts (ref : ι → β) (used : Set β) : Prop where
  unique : ∀ {i j}, ref i ≠ 0 → ref i = ref j → i = j
  mem_iff : ∀ b, b ∈ used ↔ b ≠ 0 ∧ ∃ i, ref i = b

namespace Accounts

variable {ref : ι → β} {used : Set β} {i : ι} {b : β}

lemma mem (h : Accounts ref used) (hi : ref i ≠ 0) : ref i ∈ used :=
  (h.mem_iff _).mpr ⟨hi, i, rfl⟩

lemma ne_zero (h : Accounts ref used) (hb : b ∈ used) : b ≠ 0 := ((h.mem_iff b).mp hb).1

/-- A unit that is not in use is recorded at an empty place. -/
lemma attach [DecidableEq ι] (h : Accounts ref used) (hi : ref i = 0) (hb : b ∉ used)
    (h0 : b ≠ 0) : Accounts (update ref i b) (insert b used) where
  unique := by
    have hfree : ∀ j, ref j ≠ b := by
      intro j hj
      exact hb ((h.mem_iff b).mpr ⟨h0, j, hj⟩)
    intro j k hj hjk
    rw [update_apply] at hj hjk
    rw [update_apply] at hjk
    split_ifs at hj hjk with h1 h2 h2
    · exact h1.trans h2.symm
    · exact absurd hjk.symm (hfree k)
    · exact absurd hjk (hfree j)
    · exact h.unique hj hjk
  mem_iff := by
    intro c
    rw [Set.mem_insert_iff, h.mem_iff]
    constructor
    · rintro (rfl | ⟨hc, j, rfl⟩)
      · exact ⟨h0, i, update_self ..⟩
      · refine ⟨hc, j, update_of_ne ?_ ..⟩
        rintro rfl
        exact hc hi
    · rintro ⟨hc, j, rfl⟩
      by_cases hj : j = i
      · exact .inl (by rw [hj, update_self])
      · rw [update_of_ne hj] at hc ⊢
        exact .inr ⟨hc, j, rfl⟩

/-- A recorded unit is given back. -/
lemma detach [DecidableEq ι] (h : Accounts ref used) (hi : ref i ≠ 0) :
    Accounts (update ref i 0) (used \ {ref i}) where
  unique := by
    intro j k hj hjk
    have hji : j ≠ i := by
      rintro rfl
      exact hj (update_self ..)
    rw [update_of_ne hji] at hj hjk
    have hki : k ≠ i := by
      rintro rfl
      exact hj (hjk.trans (update_self ..))
    rw [update_of_ne hki] at hjk
    exact h.unique hj hjk
  mem_iff := by
    intro c
    rw [Set.mem_sdiff, Set.mem_singleton_iff, h.mem_iff]
    constructor
    · rintro ⟨⟨hc, j, rfl⟩, hne⟩
      refine ⟨hc, j, update_of_ne ?_ ..⟩
      rintro rfl
      exact hne rfl
    · rintro ⟨hc, j, rfl⟩
      have hji : j ≠ i := by
        rintro rfl
        exact hc (update_self ..)
      rw [update_of_ne hji] at hc ⊢
      exact ⟨⟨hc, j, rfl⟩, fun heq => hji (h.unique hc heq)⟩

end Accounts
end Lib
