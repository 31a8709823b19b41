import Mathlib.Tactic

/-!
# A finite map in slots

A table has `c` slots, each free or holding a key and a value. If no key is in two slots, the table
is a finite map: a binding is added in any free slot, and removed by freeing its slot.
-/

namespace Lib

open Function

variable {κ ν : Type*} [DecidableEq κ]

/-- The first slot that holds the key. -/
def slotOf (t : Nat → Option (κ × ν)) (c : Nat) (k : κ) : Option Nat :=
  (List.range c).find? fun j => (t j).any fun p => p.1 = k

/-- The map that a table stands for. -/
def slotMap (t : Nat → Option (κ × ν)) (c : Nat) (k : κ) : Option ν :=
  (slotOf t c k).bind fun j => (t j).map Prod.snd

/-- No key is in two slots. -/
def DistinctSlots (t : Nat → Option (κ × ν)) (c : Nat) : Prop :=
  ∀ j < c, ∀ j' < c, ∀ k v v', t j = some (k, v) → t j' = some (k, v') → j = j'

variable {t t' : Nat → Option (κ × ν)} {c j : Nat} {k : κ} {v : ν}

omit [DecidableEq κ] in
lemma DistinctSlots.congr (h : DistinctSlots t c) (heq : ∀ j < c, t' j = t j) :
    DistinctSlots t' c := by
  intro i hi i' hi' k v v' h1 h2
  rw [heq i hi] at h1
  rw [heq i' hi'] at h2
  exact h i hi i' hi' k v v' h1 h2

lemma slotOf_congr (heq : ∀ j < c, t' j = t j) (k : κ) : slotOf t' c k = slotOf t c k := by
  unfold slotOf
  refine List.find?_congr fun j hj => ?_
  rw [heq j (List.mem_range.mp hj)]

lemma slotOf_eq_none_iff : slotOf t c k = none ↔ ∀ j < c, ∀ v, t j ≠ some (k, v) := by
  simp only [slotOf, List.find?_eq_none, List.mem_range]
  refine forall₂_congr fun j _ => ?_
  cases h : t j with
  | none => simp
  | some p => simp [Prod.ext_iff]

lemma slotOf_eq_some (h : slotOf t c k = some j) : j < c ∧ ∃ v, t j = some (k, v) := by
  have hmem := List.mem_of_find?_eq_some h
  have hany := List.find?_some h
  refine ⟨List.mem_range.mp hmem, ?_⟩
  cases ht : t j with
  | none => simp [ht] at hany
  | some p =>
    rw [ht] at hany
    have hk : p.1 = k := by simpa using hany
    exact ⟨p.2, by rw [← hk]⟩

lemma slotOf_of_first (hj : j < c) (hv : t j = some (k, v))
    (hfirst : ∀ i < j, ∀ w, t i ≠ some (k, w)) : slotOf t c k = some j := by
  unfold slotOf
  rw [List.find?_range_eq_some]
  refine ⟨by simp [hv], List.mem_range.mpr hj, fun i hi => ?_⟩
  cases ht : t i with
  | none => simp
  | some p =>
    have hp : p.1 ≠ k := fun hp => hfirst i hi p.2 (by rw [ht, ← hp])
    simp [hp]

lemma slotMap_eq_none_iff : slotMap t c k = none ↔ slotOf t c k = none := by
  unfold slotMap
  cases h : slotOf t c k with
  | none => simp
  | some j =>
    obtain ⟨-, v, hv⟩ := slotOf_eq_some h
    simp [hv]

lemma slotMap_eq_some_iff (h : DistinctSlots t c) :
    slotMap t c k = some v ↔ ∃ j < c, t j = some (k, v) := by
  constructor
  · intro hmap
    unfold slotMap at hmap
    cases hs : slotOf t c k with
    | none => simp [hs] at hmap
    | some j =>
      obtain ⟨hj, w, hw⟩ := slotOf_eq_some hs
      have hwv : w = v := by simpa [hs, hw] using hmap
      exact ⟨j, hj, hwv ▸ hw⟩
  · rintro ⟨j, hj, hjv⟩
    cases hs : slotOf t c k with
    | none => exact absurd hjv (slotOf_eq_none_iff.mp hs j hj v)
    | some i =>
      obtain ⟨hi, w, hw⟩ := slotOf_eq_some hs
      obtain rfl := h i hi j hj k w v hw hjv
      simp [slotMap, hs, hjv]

lemma slotMap_congr (heq : ∀ j < c, t' j = t j) : slotMap t' c = slotMap t c := by
  funext k
  unfold slotMap
  rw [slotOf_congr heq]
  cases hs : slotOf t c k with
  | none => rfl
  | some j => rw [Option.bind_some, Option.bind_some, heq j (slotOf_eq_some hs).1]

/-- A binding is added in a free slot or in a new one. -/
lemma slotMap_insert (h : DistinctSlots t c) (hj : j ≤ c) (hfree : j < c → t j = none)
    (hk : slotMap t c k = none)
    (ht : ∀ i < max c (j + 1), t' i = update t j (some (k, v)) i) :
    DistinctSlots t' (max c (j + 1)) ∧
      slotMap t' (max c (j + 1)) = update (slotMap t c) k (some v) := by
  have hnone := slotOf_eq_none_iff.mp (slotMap_eq_none_iff.mp hk)
  -- What a slot holds now: the new binding, or what it held.
  have hslot : ∀ i < max c (j + 1), ∀ k' v', t' i = some (k', v') ↔
      (i = j ∧ k' = k ∧ v' = v) ∨ (i ≠ j ∧ i < c ∧ t i = some (k', v')) := by
    intro i hi k' v'
    rw [ht i hi]
    by_cases hij : i = j
    · subst hij
      simp [eq_comm]
    · have hic : i < c := by omega
      simp [hij, hic]
  have hdist : DistinctSlots t' (max c (j + 1)) := by
    intro i hi i' hi' k' w w' h1 h2
    rcases (hslot i hi k' w).mp h1 with ⟨rfl, rfl, -⟩ | ⟨-, hic, h1⟩ <;>
      rcases (hslot i' hi' _ w').mp h2 with ⟨rfl, h3, -⟩ | ⟨-, hic', h2⟩
    · rfl
    · exact absurd h2 (hnone i' hic' w')
    · exact absurd (h3 ▸ h1) (hnone i hic w)
    · exact h i hic i' hic' k' w w' h1 h2
  refine ⟨hdist, funext fun k' => Option.ext fun w => ?_⟩
  rw [slotMap_eq_some_iff hdist, update_apply]
  constructor
  · rintro ⟨i, hi, hiw⟩
    rcases (hslot i hi k' w).mp hiw with ⟨-, rfl, rfl⟩ | ⟨-, hic, hold⟩
    · rw [if_pos rfl]
    · have hkk : k' ≠ k := by
        rintro rfl
        exact hnone i hic w hold
      rw [if_neg hkk]
      exact (slotMap_eq_some_iff h).mpr ⟨i, hic, hold⟩
  · split_ifs with hkk
    · intro hw
      obtain rfl : v = w := by simpa using hw
      have hlt : j < max c (j + 1) := by omega
      exact ⟨j, hlt, (hslot j hlt k' v).mpr (.inl ⟨rfl, hkk, rfl⟩)⟩
    · intro hw
      obtain ⟨i, hic, hold⟩ := (slotMap_eq_some_iff h).mp hw
      have hij : i ≠ j := by
        rintro rfl
        rw [hfree hic] at hold
        exact absurd hold (by simp)
      have hlt : i < max c (j + 1) := by omega
      exact ⟨i, hlt, (hslot i hlt k' w).mpr (.inr ⟨hij, hic, hold⟩)⟩

/-- A binding is removed by freeing its slot. -/
lemma slotMap_erase (h : DistinctSlots t c) (hj : j < c) (hkv : t j = some (k, v))
    (ht : ∀ i < c, t' i = update t j none i) :
    DistinctSlots t' c ∧ slotMap t' c = update (slotMap t c) k none := by
  have hslot : ∀ i < c, ∀ p, t' i = some p ↔ i ≠ j ∧ t i = some p := by
    intro i hi p
    rw [ht i hi]
    by_cases hij : i = j
    · subst hij
      simp
    · simp [hij]
  have hdist : DistinctSlots t' c := by
    intro i hi i' hi' k' w w' h1 h2
    exact h i hi i' hi' k' w w' ((hslot i hi _).mp h1).2 ((hslot i' hi' _).mp h2).2
  refine ⟨hdist, funext fun k' => Option.ext fun w => ?_⟩
  rw [slotMap_eq_some_iff hdist, update_apply]
  constructor
  · rintro ⟨i, hi, hiw⟩
    obtain ⟨hij, hold⟩ := (hslot i hi _).mp hiw
    have hkk : k' ≠ k := by
      rintro rfl
      exact hij (h i hi j hj k' w v hold hkv)
    rw [if_neg hkk]
    exact (slotMap_eq_some_iff h).mpr ⟨i, hi, hold⟩
  · split_ifs with hkk
    · intro hw
      exact absurd hw (by simp)
    · intro hw
      obtain ⟨i, hi, hold⟩ := (slotMap_eq_some_iff h).mp hw
      have hij : i ≠ j := by
        rintro rfl
        rw [hkv] at hold
        exact hkk (congrArg Prod.fst (Option.some.inj hold)).symm
      exact ⟨i, hi, (hslot i hi _).mpr ⟨hij, hold⟩⟩

end Lib
