import Xv6.Kernel.Copyout

/-!
# `cowalloc` is atomic

In the page tables `cowalloc` changes one entry, and what this entry maps stays as it was. It does
all of this or nothing, unless it needs a page and there is none: then it panics, where its callers
are ready for -1.
-/

namespace Xv6

open Function Lib

variable {ι κ : Type} [Layout] {E : Panic → Prop} {s s₁ : Phys} {roots : ι → Option Nat}
  {ker ker₁ : Nat → Option κ} {i : ι} {r v va a q : Nat} {w : Pte}

/-- A copy of the page of `va` is needed before it can be written. -/
def NeedsCopy (s : Phys) (r va : Nat) : Prop :=
  va < MAXVA ∧ (leafPte s.mem r (va / PGSIZE)).getLsbD 0 = true ∧
    (leafPte s.mem r (va / PGSIZE)).getLsbD 4 = true ∧
    (leafPte s.mem r (va / PGSIZE)).getLsbD 8 = true ∧
    (leafPte s.mem r (va / PGSIZE)).getLsbD 2 = false ∧
    1 < s.pgRefcnt (pte2pa (leafPte s.mem r (va / PGSIZE)))

/-- The entry of `va` has both `PTE_W` and `PTE_C`. Who sets one of them clears the other. -/
def MarkedTwice (m : Mem) (r va : Nat) : Prop :=
  Writable m r va ∧ (leafPte m r (va / PGSIZE)).getLsbD 8 = true

/-- The cases in which `cowalloc` is to return -1. -/
def Refuses (s : Phys) (r va : Nat) : Prop :=
  va ≥ MAXVA ∨ (leafPte s.mem r (va / PGSIZE)).getLsbD 0 = false ∨
    (leafPte s.mem r (va / PGSIZE)).getLsbD 4 = false ∨
    ((leafPte s.mem r (va / PGSIZE)).getLsbD 2 = false ∧
      (leafPte s.mem r (va / PGSIZE)).getLsbD 8 = false) ∨
    (NeedsCopy s r va ∧ s.freelist = [])

/-- Page `v` of table `i` can be written, and nothing else has changed. -/
structure MadeWritable (s : Phys) (roots : ι → Option Nat) (ker : Nat → Option κ) (i : ι)
    (r v : Nat) (s' : Phys) : Prop where
  valid : (leafPte s'.mem r v).getLsbD 0 = true
  user : (leafPte s'.mem r v).getLsbD 4 = true
  writable : (leafPte s'.mem r v).getLsbD 2 = true
  unmarked : (leafPte s'.mem r v).getLsbD 8 = false
  flags : ∀ j < 10, j ≠ 2 → j ≠ 8 →
    (leafPte s'.mem r v).getLsbD j = (leafPte s.mem r v).getLsbD j
  bytes : ∀ o < PGSIZE,
    s'.mem (pte2pa (leafPte s'.mem r v) + o) = s.mem (pte2pa (leafPte s.mem r v) + o)
  /-- The tables are the same but for this entry. -/
  tables : LeafWrite s.mem s'.mem roots i v (leafPte s'.mem r v)
  /-- The pages of the other entries are the same. -/
  others : ∀ {j t u pg}, roots j = some t → u < NUSER → (j, u) ≠ (i, v) →
    ptePage (leafPte s.mem t u) = some pg → SamePage s.mem s'.mem pg
  held : ∀ {pg}, IsPage pg → ker pg ≠ none → SamePage s.mem s'.mem pg

/-- What `cowalloc` is to do. -/
def CowAtomic (s : Phys) (roots : ι → Option Nat) (ker : Nat → Option κ) (i : ι) (r va : Nat)
    (res : Int) (s' : Phys) : Prop :=
  (res = 0 ∧ MadeWritable s roots ker i r (va / PGSIZE) s' ∨ res = -1 ∧ s' = s) ∧
    (res = -1 ↔ Refuses s r va)

omit [Layout] in
lemma not_refuses (hmay : MayWrite s.mem r va) (h : ¬(NeedsCopy s r va ∧ s.freelist = [])) :
    ¬Refuses s r va := by
  obtain ⟨hva, hV, hU, hWC⟩ := mayWrite_iff.mp hmay
  rintro (hc | hc | hc | ⟨hW, hC⟩ | hc)
  · omega
  · rw [hV] at hc; cases hc
  · rw [hU] at hc; cases hc
  · rw [hW, hC] at hWC
    rcases hWC with hc | hc <;> cases hc
  · exact h hc

omit [Layout] in
lemma refuses_of_not_mayWrite (h : ¬MayWrite s.mem r va) : Refuses s r va := by
  by_contra hc
  simp only [Refuses, not_or, Bool.not_eq_false, not_le, ge_iff_le] at hc
  obtain ⟨hva, hV, hU, hWC, -⟩ := hc
  apply h (mayWrite_iff.mpr ⟨hva, hV, hU, ?_⟩)
  rw [not_and_or, Bool.not_eq_false, Bool.not_eq_false] at hWC
  exact hWC

/-- An entry that can be written is left as it is. -/
lemma madeWritable_self (h : Writable s.mem r va)
    (hC : (leafPte s.mem r (va / PGSIZE)).getLsbD 8 = false) (hr : roots i = some r) :
    MadeWritable s roots ker i r (va / PGSIZE) s := by
  obtain ⟨-, hV, hU, hW⟩ := h
  refine ⟨hV, hU, hW, hC, fun _ _ _ _ => rfl, fun _ _ => rfl, ⟨fun _ _ => rfl, fun _ _ _ _ _ => rfl,
    ?_, fun _ _ _ => rfl⟩, fun _ _ _ _ => SamePage.refl _ _, fun _ _ => SamePage.refl _ _⟩
  intro t ht
  rw [hr, Option.some.injEq] at ht
  rw [ht]

variable [Fintype ι]

/-- A new entry `w` is stored in a state that differs from `s` in no table and in no page that
anybody sees. -/
lemma MadeWritable.of_store (h₁ : MemInv s₁ roots ker₁) (ht : SameTables s.mem s₁.mem roots)
    (hquiet : Quiet s s₁ roots ker) (hk : ∀ pg, ker pg ≠ none → ker₁ pg ≠ none)
    (hr : roots i = some r) (hv : va / PGSIZE < NUSER) (hcow : IsCow s.mem r va a)
    (hw : ∀ j < 10, w.getLsbD j =
      (((leafPte s.mem r (va / PGSIZE)).getLsbD j && !decide (j = 8)) || decide (j = 2)))
    (hbytes : ∀ o < PGSIZE, st64 s₁.mem a w (pte2pa w + o)
      = s.mem (pte2pa (leafPte s.mem r (va / PGSIZE)) + o))
    {s' : Phys} (hs' : s'.mem = st64 s₁.mem a w) :
    MadeWritable s roots ker i r (va / PGSIZE) s' := by
  have ha₁ : leafAddr s₁.mem r (va / PGSIZE) = some a := by rw [ht.leafAddr hr, hcow.addr]
  obtain ⟨hlw, hdata, hheld⟩ := h₁.leafWrite hr (lt_of_lt_NUSER hv) ha₁ w
  have hleaf : leafPte s'.mem r (va / PGSIZE) = w := by rw [hs', hlw.leaf hr]
  constructor
  · rw [hleaf, hw 0 (by decide), hcow.V]; rfl
  · rw [hleaf, hw 4 (by decide), hcow.U]; rfl
  · rw [hleaf, hw 2 (by decide), decide_eq_true rfl, Bool.or_true]
  · rw [hleaf, hw 8 (by decide), decide_eq_true rfl, Bool.not_true, Bool.and_false]; rfl
  · intro j hj h2 h8
    rw [hleaf, hw j hj, decide_eq_false h2, decide_eq_false h8, Bool.not_false, Bool.and_true,
      Bool.or_false]
  · intro o ho
    rw [hleaf, hs', hbytes o ho]
  · rw [hleaf, hs']
    exact ht.leafWrite hlw
  · intro j t u pg htj hu _ hpg
    rw [hs']
    refine (hquiet.data htj hu hpg).trans (hdata htj hu ?_)
    rw [hquiet.leaves htj, hpg]
  · intro pg hpg hne
    rw [hs']
    exact (hquiet.held hpg hne).trans (hheld hpg (hk pg hne))

/-- A page that nobody shares gets its mark off. -/
lemma cowalloc_one_spec (h : MemInv s roots ker) (hr : roots i = some r)
    (hcow : IsCow s.mem r va a)
    (hone : s.pgRefcnt (pte2pa (leafPte s.mem r (va / PGSIZE))) = 1) :
    wp (cowalloc r va) E
      (fun res s' => res = 0 ∧ MadeWritable s roots ker i r (va / PGSIZE) s') s := by
  have hv := h.cow_lt hr hcow
  rw [wp_cowalloc_one hcow (h.user hr hv hcow.ptePage).1 hone]
  have hre : Reflagged (leafPte s.mem r (va / PGSIZE))
      ((leafPte s.mem r (va / PGSIZE) ||| PTE_W) &&& ~~~PTE_C) 2 8 :=
    reflagged_or_and_not _ (by decide) (by decide) (by decide)
  have hpa := hre.pte2pa (by decide) (by decide)
  refine ⟨rfl, .of_store h ⟨fun _ _ => rfl, fun _ _ _ _ => rfl⟩ (Quiet.refl _ _ _)
    (fun _ hne => hne) hr hv hcow ?_ ?_ rfl⟩
  · intro j _
    by_cases h2 : j = 2
    · rw [h2, hre.set]; simp
    · by_cases h8 : j = 8
      · rw [h8, hre.clear]; simp
      · rw [hre.same h2 h8, decide_eq_false h2, decide_eq_false h8, Bool.not_false, Bool.and_true,
          Bool.or_false]
  · intro o ho
    rw [hpa]
    obtain ⟨-, hdata, -⟩ := h.leafWrite hr (lt_of_lt_NUSER hv) hcow.addr _
    exact hdata hr hv hcow.ptePage o ho

omit [Layout] in
lemma st64_st64 (m : Mem) (a : Nat) (v w : Pte) : st64 (st64 m a v) a w = st64 m a w := by
  unfold st64
  funext x
  simp only [Mem.store]
  split_ifs <;> rfl

/-- `uvmunmap` of one page to which there are other references. -/
lemma wp_uvmunmap_shared (h : MemInv s roots ker) (hr : roots i = some r) (hv : v < NUSER)
    (ha : leafAddr s.mem r v = some a) (hV : (leafPte s.mem r v).getLsbD 0 = true)
    (hmany : 1 < s.pgRefcnt (pte2pa (leafPte s.mem r v))) {Q : Unit → Phys → Prop} :
    wp (uvmunmap r (v * PGSIZE) 1 true) E Q s ↔
      Q () { s.setRefcnt (pte2pa (leafPte s.mem r v)) (s.pgRefcnt (pte2pa (leafPte s.mem r v)) - 1)
        with mem := st64 s.mem a 0#64 } := by
  obtain ⟨hva, hR, -⟩ := h.mapped_leaf hr hv hV
  have hpage := (h.user hr hv (ptePage_eq_some.mpr ⟨hV, rfl⟩)).1
  have hal : ¬v * PGSIZE % PGSIZE ≠ 0 := by
    rw [not_not]
    exact Nat.mul_mod_left _ _
  have hlt : v * PGSIZE < (v * PGSIZE + 1 * PGSIZE) % 2 ^ 64 := by
    simp only [PGSIZE, MAXVA] at hva ⊢
    omega
  simp only [uvmunmap, wp_bind, wp_panicIf, hal, false_imp_iff, true_and, not_false_eq_true,
    true_imp_iff, uvmunmapFrom, if_pos hlt]
  rw [wp_uvmunmapPage_leaf hva ha hV hR, wp_kfree_shared hpage hmany]
  exact Iff.rfl

/-- A shared page is copied, if there is a page for the copy. -/
lemma cowalloc_many_spec [Inhabited κ] (h : MemInv s roots ker) (hr : roots i = some r)
    (hcow : IsCow s.mem r va a)
    (hmany : 1 < s.pgRefcnt (pte2pa (leafPte s.mem r (va / PGSIZE)))) (hne : s.freelist ≠ []) :
    wp (cowalloc r va) E
      (fun res s' => res = 0 ∧ MadeWritable s roots ker i r (va / PGSIZE) s') s := by
  have hv := h.cow_lt hr hcow
  have hispage := (h.user hr hv hcow.ptePage).1
  have hdiv : va / PGSIZE * PGSIZE / PGSIZE = va / PGSIZE := Nat.mul_div_cancel _ (by decide)
  have hva : va / PGSIZE * PGSIZE < MAXVA := (Nat.div_mul_le_self _ _).trans_lt hcow.lt
  set pte := leafPte s.mem r (va / PGSIZE) with hpte
  rw [wp_cowalloc_many hcow hispage hmany, wp_bind, pgrounddown]
  refine wp_imp (kalloc_spec h default) ?_
  rintro res s₁ (⟨-, hempty, -⟩ | ⟨q, rfl, hq, hkq, -, h1, ht1, hquiet1⟩)
  · exact absurd hempty hne
  have hk1 : update ker q (some default) q = some default := update_self ..
  have hk1' : update ker q (some default) q ≠ none := by simp
  obtain ⟨h2, ht2, hquiet2⟩ := h1.write hq hk1
    (sameOutside_memmove s₁.mem q (pte2pa pte) (le_refl PGSIZE))
  rw [ker_restore hkq] at hquiet2
  have hquiet := hquiet1.trans hquiet2
  have ht := ht1.trans ht2
  rw [wp_bind, wp_modify]
  set s₂ : Phys := { s₁ with mem := memmove s₁.mem q (pte2pa pte) PGSIZE } with hs₂
  have ha2 : leafAddr s₂.mem r (va / PGSIZE) = some a := by rw [ht.leafAddr hr, hcow.addr]
  have hleaf2 : leafPte s₂.mem r (va / PGSIZE) = pte := hquiet.leaves hr _
  have hmany2 : 1 < s₂.pgRefcnt (pte2pa (leafPte s₂.mem r (va / PGSIZE))) := by
    rw [hleaf2, (h2.refcnt hr hv (by rw [hleaf2, hcow.ptePage])).2, hquiet.leaves.mapCount,
      ← (h.refcnt hr hv hcow.ptePage).2]
    exact hmany
  have hother : pte2pa pte ≠ q := by
    intro hc
    refine h2.ne_of_held hk1' hr hv ?_
    rw [hleaf2, hcow.ptePage, hc]
  rw [wp_bind, wp_uvmunmap_shared h2 hr hv ha2 (by rw [hleaf2, hcow.V]) hmany2, wp_bind]
  obtain ⟨hlw0, -⟩ := h2.leafWrite hr (lt_of_lt_NUSER hv) ha2 0#64
  have ha3 : leafAddr (st64 s₂.mem a 0#64) r (va / PGSIZE) = some a := by
    rw [hlw0.leafAddr hr, ha2]
  rw [wp_mappages_entry (Nat.mul_mod_left _ _) hva (by rw [hdiv]; exact ha3)
    (by rw [hdiv, hlw0.leaf hr, ptePage_zero]), if_neg (by decide), wp_pure]
  have hwpage : ptePage (pa2pte q ||| ((pteFlags pte &&& ~~~PTE_C) ||| PTE_W) ||| PTE_V) = some q :=
    ptePage_mapped hq.1 hq.lt_two_pow (getLsbD_cowPerm_of_ge pte)
  refine ⟨rfl, .of_store h2 ht hquiet ?_ hr hv hcow ?_ ?_ (st64_st64 _ _ _ _)⟩
  · intro pg hpg
    by_cases hpq : pg = q
    · rwa [hpq]
    · rwa [update_of_ne hpq]
  · intro j hj
    rw [getLsbD_mapped q _ hj, getLsbD_cowPerm pte hj, ← hpte]
    by_cases h0 : j = 0
    · rw [h0, hcow.V]; rfl
    · rw [decide_eq_false h0, Bool.or_false]
  · intro o ho
    rw [(ptePage_eq_some.mp hwpage).2]
    obtain ⟨-, -, hheld⟩ := h2.leafWrite hr (lt_of_lt_NUSER hv) ha2
      (pa2pte q ||| ((pteFlags pte &&& ~~~PTE_C) ||| PTE_W) ||| PTE_V)
    rw [hheld hq hk1' o ho]
    show memmove s₁.mem q (pte2pa pte) PGSIZE (q + o) = _
    rw [memmove_apply, if_pos ⟨by omega, by omega⟩, Nat.add_sub_cancel_left]
    exact hquiet1.data hr hv hcow.ptePage o ho

variable [DecidableEq ι] [Inhabited κ]

section

variable (h : MemInv s roots ker) (hr : roots i = some r)
include h hr

omit [DecidableEq ι] in
/-- With a page for the copy, `cowalloc` keeps its promises. -/
lemma cowalloc_atomic (hneed : ¬(NeedsCopy s r va ∧ s.freelist = []))
    (htwice : ¬MarkedTwice s.mem r va) : wp (cowalloc r va) E (CowAtomic s roots ker i r va) s := by
  by_cases hmay : MayWrite s.mem r va
  swap
  · rw [wp_cowalloc_refuse hmay]
    exact ⟨Or.inr ⟨rfl, rfl⟩, iff_of_true rfl (refuses_of_not_mayWrite hmay)⟩
  have hnot := not_refuses hmay hneed
  by_cases hwr : Writable s.mem r va
  · rw [wp_cowalloc_writable hwr]
    have hC : (leafPte s.mem r (va / PGSIZE)).getLsbD 8 = false := by
      rw [← Bool.not_eq_true]
      exact fun hc => htwice ⟨hwr, hc⟩
    exact ⟨Or.inl ⟨rfl, madeWritable_self hwr hC hr⟩, iff_of_false (by decide) hnot⟩
  obtain ⟨a, hcow⟩ := hmay.isCow hwr
  have hmade : wp (cowalloc r va) E
      (fun res s' => res = 0 ∧ MadeWritable s roots ker i r (va / PGSIZE) s') s := by
    by_cases hmany : 1 < s.pgRefcnt (pte2pa (leafPte s.mem r (va / PGSIZE)))
    · refine cowalloc_many_spec h hr hcow hmany fun hempty => hneed ⟨?_, hempty⟩
      exact ⟨hcow.lt, hcow.V, hcow.U, hcow.C, hcow.W, hmany⟩
    · obtain ⟨hpos, hcnt⟩ := h.refcnt hr (h.cow_lt hr hcow) hcow.ptePage
      exact cowalloc_one_spec h hr hcow (by omega)
  refine wp_imp hmade ?_
  rintro res s' ⟨rfl, hmade⟩
  exact ⟨Or.inl ⟨rfl, hmade⟩, iff_of_false (by decide) hnot⟩

omit [DecidableEq ι] [Inhabited κ] in
/-- Without one, it panics. -/
lemma wp_cowalloc_empty (hneed : NeedsCopy s r va) (hempty : s.freelist = [])
    {Q : Int → Phys → Prop} : wp (cowalloc r va) E Q s ↔ E .cowallocKalloc := by
  obtain ⟨hva, hV, hU, hC, hW, hmany⟩ := hneed
  obtain ⟨a, hcow⟩ := (mayWrite_iff.mpr ⟨hva, hV, hU, Or.inr hC⟩ : MayWrite s.mem r va).isCow (by
    rintro ⟨-, -, -, hc⟩
    rw [hW] at hc
    cases hc)
  rw [wp_cowalloc_many hcow (h.user hr (h.cow_lt hr hcow) hcow.ptePage).1 hmany]
  simp only [kalloc, wp_bind, wp_get, hempty, wp_set, wp_pure, wp_throw]

omit [DecidableEq ι] [Inhabited κ] in
lemma cowalloc_empty_ne_ok (hneed : NeedsCopy s r va) (hempty : s.freelist = []) (res : Int)
    (s' : Phys) : (cowalloc r va).run s ≠ .ok (res, s') := by
  intro hrun
  have := (wp_cowalloc_empty (E := fun _ => True) (Q := fun _ _ => False) h hr hneed hempty).mpr
    trivial
  rwa [wp_of_run hrun] at this

end

omit [DecidableEq ι] in
/-- `cowalloc` returns, and it does what it should, unless it needs a page and there is none, or
the entry has both marks. -/
theorem cowalloc_atomic_iff (h : MemInv s roots ker) (hr : roots i = some r) (va : Nat) :
    (∃ res s', (cowalloc r va).run s = .ok (res, s') ∧ CowAtomic s roots ker i r va res s') ↔
      ¬(NeedsCopy s r va ∧ s.freelist = []) ∧ ¬MarkedTwice s.mem r va := by
  constructor
  · rintro ⟨res, s', hrun, hpost, -⟩
    constructor
    · rintro ⟨hneed, hempty⟩
      exact cowalloc_empty_ne_ok h hr hneed hempty res s' hrun
    · rintro ⟨hwr, hC⟩
      -- an entry that can be written is returned as it is, mark and all
      obtain ⟨rfl, rfl⟩ : res = 0 ∧ s' = s := by
        have := (wp_cowalloc_writable (E := fun _ => False)
          (Q := fun res s' => res = 0 ∧ s' = s) hwr).mpr ⟨rfl, rfl⟩
        rwa [wp_of_run hrun] at this
      rcases hpost with ⟨-, hmade⟩ | ⟨hc, -⟩
      · have := hmade.unmarked
        rw [hC] at this
        cases this
      · cases hc
  · rintro ⟨hneed, htwice⟩
    exact wp_run (cowalloc_atomic h hr hneed htwice)

omit [Layout] in
theorem cowalloc_atomic_iff_onePage : ∃ ker : Nat → Option Unit, ∃ res s',
    (@cowalloc builtLayout 0x80243000 5).run onePage = .ok (res, s') ∧
      @CowAtomic Unit Unit builtLayout onePage (fun _ => some 0x80243000) ker () 0x80243000 5
        res s' := by
  let := builtLayout
  obtain ⟨⟨ker, h⟩, hleaf⟩ := onePage_memInv
  refine ⟨ker, (cowalloc_atomic_iff h (i := ()) rfl 5).mpr ⟨?_, ?_⟩⟩
  · rintro ⟨⟨-, -, -, -, -, hmany⟩, -⟩
    exact absurd hmany (by decide)
  · rintro ⟨⟨-, -, -, hW⟩, -⟩
    have hdiv : 5 / PGSIZE = 0 := by decide
    rw [hdiv, hleaf, getLsbD_cow _ (by decide)] at hW
    exact absurd hW (by decide)

/-- Two page tables share a page that is marked copy-on-write, and no page is free. -/
def twoTables : Phys where
  mem := st64 (st64 (st64 onePage.mem 0x80247000 (pa2pte 0x80248000 ||| PTE_V))
    0x80248000 (pa2pte 0x80249000 ||| PTE_V))
    0x80249000 (pa2pte 0x80246000 ||| (PTE_R ||| PTE_U ||| PTE_C) ||| PTE_V)
  freelist := []
  ref := update (fun _ => 1) (0x80246000 / PGSIZE) 2
  nomem := 0

/-- The roots of the two tables. -/
def twoRoots : Bool → Option Nat
  | false => some 0x80243000
  | true  => some 0x80247000

omit [Layout] in
lemma twoTables_memInv : (∃ ker : Nat → Option Unit,
      @MemInv Bool Unit builtLayout _ twoTables twoRoots ker) ∧
    leafPte twoTables.mem 0x80247000 0
      = pa2pte 0x80246000 ||| (PTE_R ||| PTE_U ||| PTE_C) ||| PTE_V := by
  let := builtLayout
  have hzero : ∀ c, EmptyNode zeroPhys.mem c := fun c k _ => ld64_zero _
  obtain ⟨h1, -, haddr1, hfree1⟩ := (zeroPhys_memInv (ι := Bool) ()).newTable (i := false) rfl
    0x80243000 0x80244000 0x80245000 (by decide) (by decide) (by decide)
    (by decide) (by decide) (by decide) rfl rfl rfl (hzero _) (hzero _) (hzero _) rfl
  obtain ⟨h2, -, hleaf2⟩ := h1.mapFresh (i := false) rfl (v := 0) (by decide) haddr1 (hfree1 0)
    (q := 0x80246000) (by decide) rfl (ptePage_cow (by decide) (by decide))
    (leafOk_mapped _ (by simp))
  have hempty : ∀ c, 0x80247000 ≤ c → EmptyNode onePage.mem c := by
    intro c hc k hk
    unfold onePage
    rw [ld64_st64_of_ne (by omega), ld64_st64_of_ne (by omega), ld64_st64_of_ne (by omega),
      ld64_zero]
  obtain ⟨h3, hsame, haddr3, hfree3⟩ := h2.newTable (i := true) rfl
    0x80247000 0x80248000 0x80249000 (by decide) (by decide) (by decide)
    (by decide) (by decide) (by decide) rfl rfl rfl (hempty _ (by decide)) (hempty _ (by decide))
    (hempty _ (by decide)) rfl
  have hleaf3 := (hsame (i := false) rfl 0).trans hleaf2
  obtain ⟨h4, -, hlw, -⟩ := h3.mapShared (i := true) rfl (v := 0) (by decide) haddr3 (hfree3 0)
    (q := 0x80246000) (ptePage_cow (by decide) (by decide)) (leafOk_mapped _ (by simp))
    (getLsbD_cow _ (by decide)) (j := false) rfl (u := 0) (by decide)
    ((congrArg ptePage hleaf3).trans (ptePage_cow (by decide) (by decide)))
    ((congrArg (fun w : Pte => w.getLsbD 2) hleaf3).trans (getLsbD_cow _ (by decide)))
    (fun x _ hc => by rw [hfree3] at hc; cases hc)
  have hroots : update (update (fun _ : Bool => (none : Option Nat)) false
      (some 0x80243000)) true (some 0x80247000) = twoRoots := by
    funext b
    cases b <;> rfl
  rw [hroots] at h4
  exact ⟨⟨_, h4⟩, hlw.leaf rfl⟩

omit [Layout] in
/-- One process stores into the shared page, and the kernel panics. -/
theorem cowalloc_not_atomic : ∃ ker : Nat → Option Unit,
    @MemInv Bool Unit builtLayout _ twoTables twoRoots ker ∧
      ∀ res s', (@cowalloc builtLayout 0x80247000 5).run twoTables ≠ .ok (res, s') := by
  let := builtLayout
  obtain ⟨⟨ker, h⟩, hleaf⟩ := twoTables_memInv
  have hdiv : 5 / PGSIZE = 0 := by decide
  refine ⟨ker, h, cowalloc_empty_ne_ok h (i := true) rfl ?_ rfl⟩
  have hpage : ptePage (pa2pte 0x80246000 ||| (PTE_R ||| PTE_U ||| PTE_C) ||| PTE_V)
      = some 0x80246000 := ptePage_cow (by decide) (by decide)
  refine ⟨by decide, ?_⟩
  rw [hdiv, hleaf, (ptePage_eq_some.mp hpage).2]
  exact ⟨getLsbD_cow _ (by decide), getLsbD_cow _ (by decide), getLsbD_cow _ (by decide),
    getLsbD_cow _ (by decide), by decide⟩

end Xv6
