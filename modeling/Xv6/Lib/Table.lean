import Mathlib.Tactic

/-!
# Arrays given by a function

`table n g` is the array of `n` cells in which cell `k` holds `g k`. Programs that update an
array cell by cell are followed by what they do to `g`.
-/

namespace Lib

open Function

variable {α β : Type*}

def table (n : Nat) (g : Nat → α) : List α := (List.range n).map g

variable {n k : Nat} {g h : Nat → α}

@[simp] lemma length_table : (table n g).length = n := by simp [table]

lemma getElem?_table (hk : k < n) : (table n g)[k]? = some (g k) := by simp [table, hk]

lemma table_congr (hgh : ∀ k < n, g k = h k) : table n g = table n h := by
  unfold table
  rw [List.map_inj_left]
  intro k hk
  exact hgh k (List.mem_range.mp hk)

lemma replicate_eq_table (n : Nat) (a : α) : List.replicate n a = table n fun _ => a := by
  simp [table]

lemma table_succ : table (n + 1) g = table n g ++ [g n] := by
  simp [table, List.range_succ]

lemma modify_table (f : α → α) :
    (table n g).modify k f = table n (update g k (f (g k))) := by
  apply List.ext_getElem (by simp)
  intro j hj _
  by_cases hkj : k = j
  · subst hkj
    simp [table]
  · simp [table, hkj, update_of_ne (Ne.symm hkj)]

end Lib
