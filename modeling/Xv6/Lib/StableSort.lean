import Mathlib.Tactic
import Mathlib.Data.Fintype.EquivFin

/-!
# Stable sorting

The place of an element in the list that is stably sorted by a key is its rank: the number of
elements with a smaller key, and of earlier ones with the same key. A list is the stable sort of
another if every element stands at its rank.

Where there is an order but no key, a list is the stable sort of another if it is sorted and the
elements that are alike stand in their old order. Both say that the list is the one that
`List.mergeSort` gives.
-/

namespace Lib

open Function

variable {α : Type*} {f : α → Nat} {l out : List α} {i j : Nat}

/-- The place of an element with key `k` that has index `i`. -/
def rank (f : α → Nat) (l : List α) (i k : Nat) : Nat :=
  l.countP (fun a => f a < k) + (l.take i).countP (fun a => f a = k)

/-- `i` comes before `j` in the sorted list. -/
def Before (f : α → Nat) (l : List α) (i j : Fin l.length) : Prop :=
  f l[i] < f l[j] ∨ (f l[i] = f l[j] ∧ i < j)

lemma before_or_before {i j : Fin l.length} (h : i ≠ j) : Before f l i j ∨ Before f l j i := by
  unfold Before
  rcases Nat.lt_trichotomy (f l[i]) (f l[j]) with hlt | heq | hgt
  · exact Or.inl (Or.inl hlt)
  · rcases lt_or_gt_of_ne h with hij | hij
    · exact Or.inl (Or.inr ⟨heq, hij⟩)
    · exact Or.inr (Or.inr ⟨heq.symm, hij⟩)
  · exact Or.inr (Or.inl hgt)

/-- The elements with key `k` before `i` and the one at `i`. -/
lemma countP_take_succ (hi : i < l.length) :
    (l.take (i + 1)).countP (fun a => f a = f l[i])
      = (l.take i).countP (fun a => f a = f l[i]) + 1 := by
  rw [List.take_add_one, List.countP_append, List.getElem?_eq_getElem hi]
  simp

lemma countP_take_mono (h : i ≤ j) (k : Nat) :
    (l.take i).countP (fun a => f a = k) ≤ (l.take j).countP (fun a => f a = k) :=
  (List.take_sublist_take_left h).countP_le

/-- The elements with a key up to `k`. -/
lemma countP_le_eq (l : List α) (k : Nat) :
    l.countP (fun a => f a ≤ k)
      = l.countP (fun a => f a < k) + l.countP (fun a => f a = k) := by
  induction l with
  | nil => simp
  | cons a l ih =>
    simp only [List.countP_cons, ih, decide_eq_true_eq]
    split_ifs <;> omega

lemma rank_lt (hi : i < l.length) :
    rank f l i (f l[i]) < l.countP (fun a => f a ≤ f l[i]) := by
  have hself := countP_take_succ (f := f) hi
  have hmono := countP_take_mono (f := f) (l := l) (i := i + 1) (j := l.length) hi (f l[i])
  rw [List.take_length] at hmono
  rw [rank, countP_le_eq]
  omega

lemma rank_lt_length (hi : i < l.length) : rank f l i (f l[i]) < l.length :=
  (rank_lt hi).trans_le List.countP_le_length

/-- Ranks are in the order of the sorted list. -/
lemma rank_lt_rank {i j : Fin l.length} (h : Before f l i j) :
    rank f l i (f l[i]) < rank f l j (f l[j]) := by
  obtain hlt | ⟨heq, hij⟩ := h
  · refine (rank_lt i.2).trans_le ((List.countP_mono_left ?_).trans (Nat.le_add_right _ _))
    intro a _ ha
    simp only [decide_eq_true_eq] at ha ⊢
    exact ha.trans_lt hlt
  · have hself := countP_take_succ (f := f) i.2
    have hmono := countP_take_mono (f := f) (l := l) (i := i + 1) (j := j) hij (f l[i])
    rw [rank, rank, ← heq]
    simp only [Fin.getElem_fin] at *
    omega

lemma rank_lt_rank_iff {i j : Fin l.length} :
    rank f l i (f l[i]) < rank f l j (f l[j]) ↔ Before f l i j := by
  refine ⟨fun h => ?_, rank_lt_rank⟩
  have hne : i ≠ j := by
    rintro rfl
    exact lt_irrefl _ h
  exact (before_or_before hne).resolve_right fun hc => lt_asymm h (rank_lt_rank hc)

/-- Every place is the rank of some element. -/
lemma exists_rank_eq (p : Fin l.length) : ∃ i : Fin l.length, rank f l i (f l[i]) = p := by
  let g : Fin l.length → Fin l.length := fun i => ⟨rank f l i (f l[i]), rank_lt_length i.2⟩
  have hinj : Injective g := by
    intro i j hij
    by_contra hne
    have heq : rank f l i (f l[i]) = rank f l j (f l[j]) := congrArg Fin.val hij
    rcases before_or_before (f := f) hne with h | h
    · exact absurd heq (rank_lt_rank h).ne
    · exact absurd heq (rank_lt_rank h).ne'
  obtain ⟨i, hi⟩ := (Finite.injective_iff_surjective.mp hinj) p
  exact ⟨i, congrArg Fin.val hi⟩

/-- `out` is `l` sorted by `f`, elements with equal keys in their old order. -/
structure IsStableSort (f : α → Nat) (l out : List α) : Prop where
  length : out.length = l.length
  place : ∀ i : Fin l.length, out[rank f l i (f l[i])]? = some l[i]

/-- A relation holds along the sorted list if it holds for all that come one before the other. -/
lemma IsStableSort.pairwise_iff (h : IsStableSort f l out) {R : α → α → Prop} :
    out.Pairwise R ↔ ∀ i j : Fin l.length, Before f l i j → R l[i] l[j] := by
  have hget : ∀ (i : Fin l.length) (hi : rank f l i (f l[i]) < out.length),
      out[rank f l i (f l[i])] = l[i] := by
    intro i hi
    exact List.getElem_eq_iff hi |>.mpr (h.place i)
  rw [List.pairwise_iff_getElem]
  constructor
  · intro hR i j hij
    have hi : rank f l i (f l[i]) < out.length := by
      rw [h.length]
      exact rank_lt_length i.2
    have hj : rank f l j (f l[j]) < out.length := by
      rw [h.length]
      exact rank_lt_length j.2
    have := hR _ _ hi hj (rank_lt_rank hij)
    rwa [hget i hi, hget j hj] at this
  · intro hR p q hp hq hpq
    obtain ⟨i, hi⟩ := exists_rank_eq (f := f) (⟨p, h.length ▸ hp⟩ : Fin l.length)
    obtain ⟨j, hj⟩ := exists_rank_eq (f := f) (⟨q, h.length ▸ hq⟩ : Fin l.length)
    simp only at hi hj
    subst hi hj
    rw [hget i hp, hget j hq]
    exact hR i j (rank_lt_rank_iff.mp hpq)

/-- No element comes after one that is to follow it, exactly if the keys put all in this order. -/
lemma IsStableSort.pairwise_not_iff (h : IsStableSort f l out) {lt : α → α → Prop}
    (hirr : ∀ a, ¬ lt a a) :
    (out.Pairwise fun a b => ¬ lt b a) ↔
      ∀ i j : Fin l.length, lt l[i] l[j] → Before f l i j := by
  rw [h.pairwise_iff]
  constructor
  · intro hR i j hlt
    have hne : i ≠ j := by
      rintro rfl
      exact hirr _ hlt
    exact (before_or_before hne).resolve_right fun hb => hR j i hb hlt
  · intro hR i j hb hlt
    exact lt_asymm (rank_lt_rank hb) (rank_lt_rank (hR j i hlt))

lemma rank_congr {g : α → Nat} (h : ∀ a ∈ l, ∀ b ∈ l, f a < f b ↔ g a < g b) (i : Fin l.length) :
    rank f l i (f l[i]) = rank g l i (g l[i]) := by
  have hi : l[i] ∈ l := List.getElem_mem i.2
  unfold rank
  congr 1
  · apply List.countP_congr
    intro a ha
    simpa using h a ha l[i] hi
  · apply List.countP_congr
    intro a ha
    have ha' := List.mem_of_mem_take ha
    have hle := h a ha' l[i] hi
    have hge := h l[i] hi a ha'
    simp only [decide_eq_true_eq]
    omega

/-- Keys with the same order sort alike. -/
lemma IsStableSort.congr {g : α → Nat} (hsort : IsStableSort f l out)
    (h : ∀ a ∈ l, ∀ b ∈ l, f a < f b ↔ g a < g b) : IsStableSort g l out := by
  refine ⟨hsort.length, fun i => ?_⟩
  rw [← rank_congr h]
  exact hsort.place i

/-- The stable sort is the one that the library has. -/
lemma IsStableSort.eq_mergeSort (h : IsStableSort f l out) :
    out = l.mergeSort fun a b => decide (f a ≤ f b) := by
  let place : Fin l.length → Fin l.length := fun i => ⟨rank f l i (f l[i]), rank_lt_length i.2⟩
  have hsurj : Surjective place := by
    intro p
    obtain ⟨i, hi⟩ := exists_rank_eq (f := f) p
    exact ⟨i, Fin.ext hi⟩
  let σ : Equiv.Perm (Fin l.length) :=
    (Equiv.ofBijective place (Finite.injective_iff_bijective.mp
      (Finite.injective_iff_surjective.mpr hsurj))).symm
  have hplace : ∀ p, rank f l (σ p) (f l[σ p]) = p := by
    intro p
    have h1 : place (σ p) = p := Equiv.ofBijective_apply_symm_apply ..
    exact congrArg Fin.val h1
  -- Every element is taken with its index: the sorted list is then the only one.
  let tagged : Fin l.length → α × ℕ := fun i => (l[i], i)
  have htag : List.ofFn tagged = l.zipIdx := by
    refine List.ext_getElem (by simp) fun i h1 h2 => ?_
    simp [tagged]
  have hout : (List.ofFn (tagged ∘ σ)).map Prod.fst = out := by
    refine List.ext_getElem (by simp [h.length]) fun p h1 h2 => ?_
    have h3 := h.place (σ ⟨p, h.length ▸ h2⟩)
    rw [hplace, List.getElem?_eq_getElem h2, Option.some_inj] at h3
    simp [tagged, h3]
  have hsorted : (List.ofFn (tagged ∘ σ)).Pairwise fun a b =>
      List.zipIdxLE (fun a b => decide (f a ≤ f b)) a b = true := by
    rw [List.pairwise_ofFn]
    intro p q hpq
    have hb : Before f l (σ p) (σ q) := by
      rw [← rank_lt_rank_iff, hplace, hplace]
      exact hpq
    simp only [comp_apply, tagged, List.zipIdxLE]
    rcases hb with hlt | ⟨heq, hij⟩
    · simp only [Fin.getElem_fin] at hlt
      simp [hlt.le, hlt]
    · simp only [heq, le_refl, decide_true, if_true, decide_eq_true_eq]
      exact hij.le
  have hsort' : (l.zipIdx.mergeSort (List.zipIdxLE fun a b => decide (f a ≤ f b))).Pairwise
      fun a b => List.zipIdxLE (fun a b => decide (f a ≤ f b)) a b = true := by
    refine List.pairwise_mergeSort (List.zipIdxLE_trans ?_) (List.zipIdxLE_total ?_) _
    · intro a b c hab hbc
      simp only [decide_eq_true_eq] at hab hbc ⊢
      exact hab.trans hbc
    · intro a b
      simpa using le_total (f a) (f b)
  have hperm : (List.ofFn (tagged ∘ σ)).Perm
      (l.zipIdx.mergeSort (List.zipIdxLE fun a b => decide (f a ≤ f b))) := by
    rw [← htag]
    exact (Equiv.Perm.ofFn_comp_perm σ tagged).trans (List.mergeSort_perm ..).symm
  have heq := List.Perm.eq_of_pairwise ?_ hsorted hsort' hperm
  · rw [← hout, heq, List.mergeSort_zipIdx]
  · -- Two elements that are not to be swapped have the same index.
    intro a b ha hb hab hba
    rw [List.mem_ofFn] at ha
    obtain ⟨p, rfl⟩ := ha
    rw [← hperm.mem_iff, List.mem_ofFn] at hb
    obtain ⟨q, rfl⟩ := hb
    simp only [comp_apply, tagged, List.zipIdxLE, decide_eq_true_eq] at hab hba
    have hidx : (σ p).val = (σ q).val := by
      split_ifs at hab hba
      simp only [decide_eq_true_eq] at hab hba
      omega
    simp only [comp_apply, Fin.ext hidx]

/-! ### Sorting by an order -/

section Order

variable {le : α → α → Bool}

/-- Neither of the two has to stand before the other. -/
def alike (le : α → α → Bool) (a b : α) : Bool := le a b && le b a

/-- `out` is sorted, and elements that are alike stand as they stood in `l`. -/
structure StablySorts (le : α → α → Bool) (l out : List α) : Prop where
  sorted : out.Pairwise fun a b => le a b = true
  filter : ∀ a, out.filter (alike le a) = l.filter (alike le a)

variable (htotal : ∀ a b, (le a b || le b a) = true)
include htotal

lemma stablySorts_mergeSort (htrans : ∀ a b c, le a b = true → le b c = true → le a c = true)
    (l : List α) : StablySorts le l (l.mergeSort le) where
  sorted := List.pairwise_mergeSort htrans htotal l
  filter a := by
    have hclass : (l.filter (alike le a)).Pairwise fun b c => le b c = true := by
      refine List.pairwise_of_forall_mem_list ?_
      intro b hb c hc
      have h1 := (List.mem_filter.mp hb).2
      have h2 := (List.mem_filter.mp hc).2
      simp only [alike, Bool.and_eq_true] at h1 h2
      exact htrans b a c h1.2 h2.1
    have hsub := List.sublist_mergeSort htrans htotal hclass List.filter_sublist
    have hsub' := hsub.filter (alike le a)
    rw [List.filter_filter] at hsub'
    simp only [Bool.and_self] at hsub'
    refine (hsub'.eq_of_length ?_).symm
    exact ((List.mergeSort_perm l le).filter (alike le a)).length_eq.symm

end Order

end Lib
