import Xv6.Kernel.AddrSpace
import Xv6.Kernel.Proc

/-!
# The page table of a process

`ProcTable m r n tf` is the layout that the kernel gives to the page table of a process: pages 0
to `n - 1` of user memory, the trapframe and the trampoline, and nothing else.
-/

namespace Xv6

open Function Lib

variable {ι κ : Type} [Layout] {E : Panic → Prop} {s s' : Phys} {roots : ι → Option Nat}
  {ker : Nat → Option κ} {i : ι} {r : Nat} {n tf a b : Nat} {x : Option Nat}

structure ProcTable (m : Mem) (r n tf : Nat) : Prop where
  user : UserSpace m r n
  trapframe : leafPte m r NUSER = pa2pte tf ||| (PTE_R ||| PTE_W) ||| PTE_V
  trampoline : leafPte m r (NUSER + 1) = pa2pte trampoline ||| (PTE_R ||| PTE_X) ||| PTE_V
  rest : ∀ v, NUSER + 2 ≤ v → v < 2 ^ 27 → leafPte m r v = 0#64

omit [Layout] in
lemma trapframe_eq : TRAPFRAME = NUSER * PGSIZE := by decide

omit [Layout] in
lemma trampoline_eq : TRAMPOLINE = (NUSER + 1) * PGSIZE := by decide

omit [Layout] in
lemma NUSER_add_two : NUSER + 2 = 2 ^ 26 := by decide

/-- The user's part changes, and the rest of the table does not. -/
lemma ProcTable.setUser {n' : Nat} (h : ProcTable s.mem r n tf)
    (htop : ∀ v, NUSER ≤ v → v < 2 ^ 27 → leafPte s'.mem r v = leafPte s.mem r v)
    (huser : UserSpace s'.mem r n') : ProcTable s'.mem r n' tf := by
  have hN := NUSER_add_two
  refine ⟨huser, ?_, ?_, fun v hv hv' => ?_⟩
  · rw [htop _ (le_refl _) (by omega)]
    exact h.trapframe
  · rw [htop _ (by omega) (by omega)]
    exact h.trampoline
  · rw [htop v (by omega) hv']
    exact h.rest v hv hv'

lemma Frame.procTable {P : ι → Nat → Prop} (h : Frame s s' roots ker P) (hr : roots i = some r)
    (hP : ∀ v, ¬P i v) (ht : ProcTable s.mem r n tf) : ProcTable s'.mem r n tf :=
  ht.setUser (fun v hv hv' => h.top hr hv hv' (hP v)) (h.userSpace hr ht.user fun v _ => hP v)

variable [DecidableEq ι]

omit [Layout] in
/-- A table other than the one that is being added or dropped. -/
lemma roots_update_of_some (hi : roots i = none) {j : ι} {t : Nat} (ht : roots j = some t) :
    update roots i x j = some t := by
  rwa [update_of_ne]
  rintro rfl
  rw [hi] at ht
  cases ht

lemma Framed.of_update (hi : roots i = none)
    (h : Framed s s' (update roots i x) ker (Within i a b)) :
    Framed s s' roots ker (fun _ _ => False) := by
  apply h.mono (fun j t => roots_update_of_some hi) (fun _ hk => hk)
  rintro j v hj ⟨rfl, -, -⟩
  rw [hi] at hj
  cases hj

variable [Fintype ι] [Inhabited κ]

/-- `uvmfree` of a table without leaves, that was not there before. -/
lemma uvmfree_new_spec (hi : roots i = none) {q : Nat}
    (h : MemInv s (update roots i (some q)) ker)
    (hzero : ∀ v < 2 ^ 27, leafPte s.mem q v = 0#64) :
    wp (uvmfree q 0) E (fun _ s' => MemInv s' roots ker ∧
      Framed s s' roots ker (fun _ _ => False) ∧ s'.nomem = s.nomem) s := by
  have hspace : UserSpace s.mem q (pages 0) := by
    intro v hv
    have hnone : view s.mem q v = none := by
      rw [view_eq_none, hzero v (lt_of_lt_NUSER hv), ptePage_zero]
    rw [hnone]
    exact iff_of_false (fun hc => hc rfl) (by simp [pages, PGSIZE])
  have hroots : update (update roots i (some q)) i none = roots := by
    rw [update_idem, update_eq_self_iff, hi]
  have hspec := uvmfree_spec (E := E) h (update_self ..) hspace
    fun v _ hv => hzero v hv
  rwa [hroots] at hspec

/-- `proc_pagetable` makes a table with the trampoline and the trapframe, or nothing. -/
lemma procPagetable_spec (h : MemInv s roots ker) (hi : roots i = none) (tf : Nat) :
    wp (procPagetable tf) E (fun res s' => Framed s s' roots ker (fun _ _ => False) ∧
      ((res = none ∧ MemInv s' roots ker ∧ s.nomem < s'.nomem) ∨
        ∃ q, res = some q ∧ MemInv s' (update roots i (some q)) ker ∧
          ProcTable s'.mem q 0 tf ∧ s'.nomem = s.nomem)) s := by
  have hN := NUSER_add_two
  unfold procPagetable
  rw [wp_bind]
  refine wp_imp (uvmcreate_spec h hi) ?_
  rintro res s₁ (⟨rfl, h1, hquiet, hsame, hno⟩ | ⟨q, rfl, h1, hquiet, hsame, hzero, hno⟩)
  · exact ⟨hquiet.framed (hsame.placed _), Or.inl ⟨rfl, h1, hno⟩⟩
  have hframe1 : Framed s s₁ roots ker (fun _ _ => False) := hquiet.framed (hsame.placed _)
  have hq : update roots i (some q) i = some q := update_self ..
  simp only [wp_bind]
  rw [trampoline_eq]
  refine wp_imp (mappages_top_spec h1 hq (by omega) (by omega) (hzero _) (by decide)
    (by decide)) ?_
  rintro res s₂ ⟨h2, ⟨rfl, hquiet2, hplaced2, hno2⟩ | ⟨rfl, hframe2, hleaf2, hno2⟩⟩
  · -- no page for the trampoline's tables
    simp only [show (-1 : Int) < 0 by decide, if_true, wp_bind]
    refine wp_imp (uvmfree_new_spec hi h2 (fun v _ => ?_)) ?_
    · rw [hquiet2.leaves hq, hzero]
    · rintro - s₃ ⟨h3, hframe3, hno3⟩
      exact ⟨(hframe1.trans ((hquiet2.framed hplaced2).of_update hi)).trans hframe3,
        Or.inl ⟨rfl, h3, by omega⟩⟩
  have hother2 : ∀ v, v ≠ NUSER + 1 → v < 2 ^ 27 → leafPte s₂.mem q v = 0#64 := by
    intro v hv hv'
    rcases Nat.lt_or_ge v NUSER with hlt | hge
    · apply h2.leafPte_eq_zero hq hv'
      rw [← view_eq_none, hframe2.view hq hlt (by rintro ⟨-, h3, h4⟩; omega), view_eq_none,
        hzero, ptePage_zero]
    · rw [hframe2.top hq hge hv' (by rintro ⟨-, h3, h4⟩; omega), hzero]
  simp only [show ¬(0 : Int) < 0 by decide, if_false, wp_bind]
  rw [trapframe_eq]
  refine wp_imp (mappages_top_spec h2 hq (le_refl _) (by omega) (hother2 _ (by omega) (by omega))
    (by decide) (by decide)) ?_
  rintro res s₃ ⟨h3, ⟨rfl, hquiet3, hplaced3, hno3⟩ | ⟨rfl, hframe3, hleaf3, hno3⟩⟩
  · -- no page for the trapframe's tables
    simp only [show (-1 : Int) < 0 by decide, if_true, wp_bind]
    have hleaf2' : leafPte s₃.mem q (NUSER + 1)
        = pa2pte trampoline ||| (PTE_R ||| PTE_X) ||| PTE_V := by rw [hquiet3.leaves hq, hleaf2]
    refine wp_imp (uvmunmap_top_spec h3 hq (v := NUSER + 1) (by omega) (by omega) (by
      rw [hleaf2', getLsbD_mapped _ _ (by decide)]
      simp)) ?_
    rintro - s₄ ⟨h4, hframe4, hleaf4, hno4⟩
    refine wp_imp (uvmfree_new_spec hi h4 (fun v hv => ?_)) ?_
    · by_cases hv1 : v = NUSER + 1
      · rw [hv1, hleaf4]
      · rcases Nat.lt_or_ge v NUSER with hlt | hge
        · apply h4.leafPte_eq_zero hq hv
          rw [← view_eq_none, hframe4.view hq hlt (by rintro ⟨-, h5, h6⟩; omega),
            hquiet3.view hq hlt, view_eq_none, hother2 v hv1 hv, ptePage_zero]
        · rw [hframe4.top hq hge hv (by rintro ⟨-, h5, h6⟩; omega), hquiet3.leaves hq,
            hother2 v hv1 hv]
    · rintro - s₅ ⟨h5, hframe5, hno5⟩
      exact ⟨(((hframe1.trans (hframe2.of_update hi)).trans
        ((hquiet3.framed hplaced3).of_update hi)).trans (hframe4.of_update hi)).trans hframe5,
        Or.inl ⟨rfl, h5, by omega⟩⟩
  simp only [show ¬(0 : Int) < 0 by decide, if_false, wp_pure]
  refine ⟨(hframe1.trans (hframe2.of_update hi)).trans (hframe3.of_update hi),
    Or.inr ⟨q, rfl, h3, ⟨?_, hleaf3, ?_, ?_⟩, by omega⟩⟩
  · intro v hv
    rw [hframe3.view hq hv (by rintro ⟨-, h5, h6⟩; omega)]
    refine iff_of_false (fun hc => hc ?_) (by omega)
    rw [view_eq_none, hother2 v (by omega) (by omega), ptePage_zero]
  · rw [hframe3.top hq (by omega) (by omega) (by rintro ⟨-, h5, h6⟩; omega), hleaf2]
  · intro v hv hv'
    rw [hframe3.top hq (by omega) hv' (by rintro ⟨-, h5, h6⟩; omega), hother2 v (by omega) hv']

omit [Fintype ι] [Inhabited κ] in
/-- What an operation on table `i` leaves alone, once that table is gone. -/
lemma Frame.drop (h : Frame s s' roots ker (Within i a b)) :
    Frame s s' (update roots i none) ker (fun _ _ => False) := by
  have hne : ∀ {j t}, update roots i none j = some t → j ≠ i := by
    rintro j t ht rfl
    rw [update_self] at ht
    cases ht
  apply h.mono
  · intro j t ht
    rwa [update_of_ne (hne ht)] at ht
  · exact fun _ hk => hk
  · rintro j v hj ⟨rfl, -, -⟩
    obtain ⟨t, ht⟩ := Option.isSome_iff_exists.mp hj
    exact hne ht rfl

omit [Fintype ι] [Inhabited κ] in
lemma Framed.drop (h : Framed s s' roots ker (Within i a b)) :
    Framed s s' (update roots i none) ker (fun _ _ => False) := by
  refine h.mono (fun j t ht => (roots_of_update ht).2) (fun _ hk => hk) ?_
  rintro j v hj ⟨rfl, -, -⟩
  obtain ⟨t, ht⟩ := Option.isSome_iff_exists.mp hj
  exact (roots_of_update ht).1 rfl

/-- `proc_freepagetable` frees the user memory and the table. -/
lemma procFreepagetable_spec (h : MemInv s roots ker) (hr : roots i = some r) {sz : Nat}
    (ht : ProcTable s.mem r (pages sz) tf) :
    wp (procFreepagetable r sz) E (fun _ s' => MemInv s' (update roots i none) ker ∧
      Framed s s' (update roots i none) ker (fun _ _ => False) ∧
      s'.nomem = s.nomem) s := by
  have hN := NUSER_add_two
  have hV : ∀ pa perm, (pa2pte pa ||| perm ||| PTE_V).getLsbD 0 = true := by
    intro pa perm
    rw [getLsbD_mapped _ _ (by decide)]
    simp
  unfold procFreepagetable
  rw [wp_bind, trampoline_eq]
  refine wp_imp (uvmunmap_top_spec h hr (v := NUSER + 1) (by omega) (by omega)
    (by rw [ht.trampoline]; exact hV _ _)) ?_
  rintro - s₁ ⟨h1, hframe1, hleaf1, hno1⟩
  rw [wp_bind, trapframe_eq]
  refine wp_imp (uvmunmap_top_spec h1 hr (v := NUSER) (le_refl _) (by omega) (by
    rw [hframe1.top hr (le_refl _) (by omega) (by rintro ⟨-, h2, h3⟩; omega), ht.trapframe]
    exact hV _ _)) ?_
  rintro - s₂ ⟨h2, hframe2, hleaf2, hno2⟩
  have hspace : UserSpace s₂.mem r (pages sz) := by
    apply hframe2.userSpace hr (hframe1.userSpace hr ht.user _)
    · rintro v hv ⟨-, h3, h4⟩
      omega
    · rintro v hv ⟨-, h3, h4⟩
      omega
  refine wp_imp (uvmfree_spec h2 hr hspace ?_) ?_
  · intro v hv hv'
    by_cases hv0 : v = NUSER
    · rw [hv0, hleaf2]
    · rw [hframe2.top hr hv hv' (by rintro ⟨-, h3, h4⟩; omega)]
      by_cases hv1 : v = NUSER + 1
      · rw [hv1, hleaf1]
      · rw [hframe1.top hr hv hv' (by rintro ⟨-, h3, h4⟩; omega)]
        exact ht.rest v (by omega) hv'
  · rintro - s₃ ⟨h3, hframe3, hno3⟩
    exact ⟨h3, (hframe1.drop.trans hframe2.drop).trans hframe3, by omega⟩

end Xv6
