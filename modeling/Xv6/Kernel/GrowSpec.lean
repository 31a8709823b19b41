import Xv6.Kernel.MapSpec

/-!
# What growing and shrinking an address space does

Specifications of `mappages`, `uvmunmap`, `uvmdealloc` and `uvmalloc`. A failed `uvmalloc` undoes
what it did, so the address space is as before.
-/

namespace Xv6

open Function Lib

/-! ### Sizes -/

variable {sz a v va n oldsz newsz v₀ : Nat} {s' : Phys} {xperm : Pte}

/-- The number of pages that `sz` bytes need. -/
def pages (sz : Nat) : Nat := (sz + PGSIZE - 1) / PGSIZE

lemma pgroundup_eq_pages (h : sz + PGSIZE ≤ 2 ^ 64) : pgroundup sz = pages sz * PGSIZE :=
  pgroundup_eq h

lemma pages_mono {b : Nat} (h : a ≤ b) : pages a ≤ pages b :=
  Nat.div_le_div_right (by omega)

@[simp] lemma pages_mul (n : Nat) : pages (n * PGSIZE) = n := by
  simp only [pages, PGSIZE]
  omega

lemma lt_pages_iff : v < pages sz ↔ v * PGSIZE < sz := by
  simp only [pages, PGSIZE]
  omega

lemma div_lt_pages (h : va < sz) : va / PGSIZE < pages sz :=
  lt_pages_iff.mpr ((Nat.div_mul_le_self va PGSIZE).trans_lt h)

lemma throughInt_of_lt (h : n < 2 ^ 31) : throughInt n = n := by
  unfold throughInt
  have hmsb : (BitVec.ofNat 32 n).msb = false := by
    rw [BitVec.msb_eq_false_iff_two_mul_lt, BitVec.toNat_ofNat]
    omega
  rw [BitVec.signExtend_eq_setWidth_of_msb_false hmsb, BitVec.toNat_setWidth, BitVec.toNat_ofNat]
  omega

/-- The address space consists of pages 0 to `n - 1`. -/
def UserSpace (m : Mem) (r n : Nat) : Prop := ∀ v < NUSER, (view m r v ≠ none ↔ v < n)

variable {ι κ : Type} [Layout] [Fintype ι] {E : Panic → Prop} {s : Phys}
  {roots : ι → Option Nat} {ker : Nat → Option κ} {i : ι} {r : Nat}

/-- An address space is no larger than physical memory. -/
lemma MemInv.userSpace_le (h : MemInv s roots ker) (hr : roots i = some r)
    (hn : UserSpace s.mem r n) : n ≤ (PHYSTOP - KERNBASE) / PGSIZE := by
  have hmapped : ∀ v < NUSER, v < n → ptePage (leafPte s.mem r v) ≠ none :=
    fun v hv hvn hc => (hn v hv).mpr hvn (view_eq_none.mpr hc)
  by_contra hlt
  have hbig : (PHYSTOP - KERNBASE) / PGSIZE + 1 ≤ NUSER := by decide
  have := h.vpn_le hr hbig (fun v hv => hmapped v (by omega) (by omega))
  omega

omit [Layout] in
lemma npages_lt : (PHYSTOP - KERNBASE) / PGSIZE < NUSER := by decide

omit [Fintype ι] in
lemma Frame.userSpace {P : ι → Nat → Prop} (h : Frame s s' roots ker P) (hr : roots i = some r)
    (hn : UserSpace s.mem r n) (hP : ∀ v < NUSER, ¬P i v) : UserSpace s'.mem r n := by
  intro v hv
  rw [h.view hr hv (hP v hv)]
  exact hn v hv

omit [Fintype ι] in
/-- A table has got no page, only nodes. -/
lemma Frame.keeps (h : Frame s s' roots ker fun _ _ => False) (hr : roots i = some r)
    (hn : UserSpace s.mem r n) (hp : Placed s.mem s'.mem roots (Within i n NUSER)) :
    Keeps s.mem s'.mem roots := by
  refine ⟨hp.kept, ?_⟩
  intro j t v ht hv
  by_cases hin : Within i n NUSER j v
  · obtain ⟨rfl, hnv, -⟩ := hin
    rw [hr, Option.some.injEq] at ht
    subst ht
    have hnone : Xv6.view s.mem r v = none := by
      by_contra hc
      exact absurd ((hn v hv).mp hc) (by omega)
    rw [view_eq_none.mp hnone, view_eq_none.mp ((h.view hr hv id).trans hnone)]
  · rw [hp.leaf ht (hv.trans (by decide)) hin]


/-! ### `mappages` -/

/-- `mappages` of one page: `walk` fails for want of a page, or the entry it finds is written. -/
lemma mappages_spec [Inhabited κ] (h : MemInv s roots ker) (hr : roots i = some r) {pa : Nat}
    {perm : Pte} (hal : va % PGSIZE = 0) (hva : va < MAXVA)
    (hfree : ptePage (leafPte s.mem r (va / PGSIZE)) = none) {Q : Int → Phys → Prop}
    (hfail : ∀ s', MemInv s' roots ker → Quiet s s' roots ker →
      Placed s.mem s'.mem roots (Within i (va / PGSIZE) (va / PGSIZE + 1)) →
      s.nomem < s'.nomem → Q (-1) s') (hdone : ∀ s' a, MemInv s' roots ker → Quiet s s' roots ker →
      Placed s.mem s'.mem roots (Within i (va / PGSIZE) (va / PGSIZE + 1)) → s'.nomem = s.nomem →
      leafAddr s'.mem r (va / PGSIZE) = some a →
      Q 0 { s' with mem := st64 s'.mem a (pa2pte pa ||| perm ||| PTE_V) }) :
    wp (mappages r va PGSIZE pa perm) E Q s := by
  have hdown := pgrounddown_eq hal
  have hlast := pgrounddown_last hal hva
  have hsize : PGSIZE ≠ 0 := by decide
  simp only [mappages, wp_bind, wp_panicIf, hsize, false_imp_iff, true_and, not_false_eq_true,
    true_imp_iff, hdown, hlast]
  unfold mappagesFrom
  rw [wp_bind]
  refine wp_imp (walk_spec h hr hva) ?_
  rintro res s' ⟨⟨h', hquiet, ⟨rfl, hno⟩ | ⟨a, rfl, ha, hno⟩⟩, hplaced⟩
  · exact hfail s' h' hquiet hplaced hno
  · have hnot : ¬hasFlag (ld64 s'.mem a) PTE_V = true := by
      rw [← hquiet.leaves hr, leafPte_of_leafAddr ha] at hfree
      intro hV
      rw [ptePage, if_pos hV] at hfree
      cases hfree
    simp only [wp_bind, wp_ldPte, wp_panicIf, hnot, Bool.false_eq_true, false_imp_iff, true_and,
      not_false_eq_true, true_imp_iff, wp_stPte, if_true, wp_pure]
    exact hdone s' a h' hquiet hplaced hno ha

/-! ### `uvmunmap` -/

/-- One turn of `uvmunmap` with `do_free = 1`, on a leaf that is mapped. -/
lemma wp_uvmunmapPage_leaf (hva : v * PGSIZE < MAXVA) (ha : leafAddr s.mem r v = some a)
    (hV : (leafPte s.mem r v).getLsbD 0 = true) (hR : (leafPte s.mem r v).getLsbD 1 = true)
    {Q : Unit → Phys → Prop} : wp (uvmunmapPage r true (v * PGSIZE)) E Q s ↔
      wp (kfree (pte2pa (leafPte s.mem r v))) E
        (fun _ s' => Q () { s' with mem := st64 s'.mem a 0#64 }) s := by
  have hdiv := page_div v
  have hleaf : ¬pteFlags (leafPte s.mem r v) = PTE_V := by
    intro hc
    have := congrArg (fun b : Pte => b.getLsbD 1) hc
    simp only [getLsbD_pteFlags, hR, getLsbD_PTE_V] at this
    exact absurd this (by decide)
  unfold uvmunmapPage
  rw [wp_bind, wp_walk_false hva, hdiv, ha]
  rw [leafPte_of_leafAddr ha] at hV hleaf ⊢
  simp only [wp_bind, wp_ldPte, wp_panicIf, hasFlag_V, hV, hleaf, Bool.not_true,
    Bool.false_eq_true, false_imp_iff, true_and, not_false_eq_true, true_imp_iff, if_true,
    wp_stPte]

/-- A mapped page is mapped by a leaf of the last level. -/
lemma MemInv.mapped_leaf (h : MemInv s roots ker) (hr : roots i = some r) (hv : v < NUSER)
    (hV : (leafPte s.mem r v).getLsbD 0 = true) :
    v * PGSIZE < MAXVA ∧ (leafPte s.mem r v).getLsbD 1 = true ∧
      ∃ a, leafAddr s.mem r v = some a := by
  have hne : leafPte s.mem r v ≠ 0#64 := by
    intro hc
    rw [hc] at hV
    simp at hV
  have hNUSER := NUSER_lt
  refine ⟨by simp only [PGSIZE, MAXVA]; omega, ?_, exists_leafAddr hne⟩
  rcases h.leafOk hr (v := v) (by omega) with hz | ⟨-, hR⟩
  · exact absurd hz hne
  · exact hR

variable [DecidableEq ι]

/-- One turn of `uvmunmap` with `do_free = 1`, on a page that is mapped. -/
lemma uvmunmapPage_spec (h : MemInv s roots ker) (hr : roots i = some r) (hv : v < NUSER)
    (hmapped : view s.mem r v ≠ none) : wp (uvmunmapPage r true (v * PGSIZE)) E (fun _ s' =>
      MemInv s' roots ker ∧ Framed s s' roots ker (Within i v (v + 1)) ∧
      (∀ u, leafAddr s'.mem r u = leafAddr s.mem r u) ∧ view s'.mem r v = none ∧
      s'.nomem = s.nomem) s := by
  obtain ⟨q, hq⟩ := Option.ne_none_iff_exists'.mp (fun hc => hmapped (view_eq_none.mpr hc))
  obtain ⟨hV, hpa⟩ := ptePage_eq_some.mp hq
  obtain ⟨hva, hR, a, ha⟩ := h.mapped_leaf hr hv hV
  rw [wp_uvmunmapPage_leaf hva ha hV hR, hpa]
  refine wp_imp (h.unmap hr hv ha hq) ?_
  rintro - s₁ ⟨h1, hframe, haddr, hzero, hno⟩
  refine ⟨h1, hframe, haddr, ?_, hno⟩
  rw [view_eq_none, hzero, ptePage_zero]

lemma uvmunmapFrom_spec (hr : roots i = some r) {bound : Nat} : ∀ {n v : Nat} {s : Phys},
    MemInv s roots ker → v + n ≤ NUSER → (v + n) * PGSIZE ≤ bound →
    (∀ u, v ≤ u → u < v + n → view s.mem r u ≠ none) →
    wp (uvmunmapFrom r true bound n (v * PGSIZE)) E (fun _ s' =>
      MemInv s' roots ker ∧ Framed s s' roots ker (Within i v (v + n)) ∧
      (∀ u, leafAddr s'.mem r u = leafAddr s.mem r u) ∧
      (∀ u, v ≤ u → u < v + n → view s'.mem r u = none) ∧ s'.nomem = s.nomem) s := by
  intro n
  induction n with
  | zero =>
    intro v s h _ _ _
    exact ⟨h, .refl _ _ _ _, fun _ => rfl, fun u _ _ => by omega, rfl⟩
  | succ n ih =>
    intro v s h hle hbound hall
    have hlt : v * PGSIZE < bound := by
      simp only [PGSIZE] at hbound ⊢
      omega
    unfold uvmunmapFrom
    rw [if_pos hlt, wp_bind]
    refine wp_imp (uvmunmapPage_spec h hr (by omega) (hall v (le_refl v) (by omega))) ?_
    rintro - s₁ ⟨h1, hframe, haddr, hnone, hno⟩
    have hnext : v * PGSIZE + PGSIZE = (v + 1) * PGSIZE := by ring
    rw [hnext]
    have hsum : v + 1 + n = v + (n + 1) := by omega
    have hview : ∀ u, v + 1 ≤ u → u < NUSER → view s₁.mem r u = view s.mem r u := by
      intro u hu hu'
      apply hframe.view hr hu'
      rintro ⟨-, h2, h3⟩
      omega
    refine wp_imp (ih h1 (by omega) (by rw [hsum]; exact hbound) ?_) ?_
    · intro u hu hu'
      rw [hview u hu (by omega)]
      exact hall u (by omega) (by omega)
    · rintro - s₂ ⟨h2, hframe2, haddr2, hall2, hno2⟩
      have hw : ∀ {a b}, v ≤ a → b ≤ v + (n + 1) → ∀ j u, Within i a b j u →
          Within i v (v + (n + 1)) j u := by
        rintro a b hab hbc j u ⟨rfl, h3, h4⟩
        exact ⟨rfl, by omega, by omega⟩
      refine ⟨h2, (hframe.weaken (hw (by omega) (by omega))).trans
        (hframe2.weaken (hw (by omega) (by omega))), fun u => (haddr2 u).trans (haddr u), ?_,
        hno2.trans hno⟩
      intro u hu hu'
      rcases Nat.lt_or_ge v u with hvu | hvu
      · exact hall2 u hvu (by omega)
      · have huv : u = v := by omega
        subst huv
        rw [hframe2.view hr (by omega) (by rintro ⟨-, h3, -⟩; omega)]
        exact hnone

/-- `uvmunmap` with `do_free = 1` on pages that are mapped. -/
lemma uvmunmap_spec (h : MemInv s roots ker) (hr : roots i = some r) (hle : v + n ≤ NUSER)
    (hall : ∀ u, v ≤ u → u < v + n → view s.mem r u ≠ none) :
    wp (uvmunmap r (v * PGSIZE) n true) E (fun _ s' =>
      MemInv s' roots ker ∧ Framed s s' roots ker (Within i v (v + n)) ∧
      (∀ u, leafAddr s'.mem r u = leafAddr s.mem r u) ∧
      (∀ u, v ≤ u → u < v + n → view s'.mem r u = none) ∧ s'.nomem = s.nomem) s := by
  have hal : ¬v * PGSIZE % PGSIZE ≠ 0 := by
    rw [not_not]
    exact Nat.mul_mod_left _ _
  have hbound : (v * PGSIZE + n * PGSIZE) % 2 ^ 64 = (v + n) * PGSIZE := by
    have := NUSER_lt
    simp only [PGSIZE]
    omega
  simp only [uvmunmap, wp_bind, wp_panicIf, hal, false_imp_iff, true_and, not_false_eq_true,
    true_imp_iff, hbound]
  exact uvmunmapFrom_spec hr h hle (le_refl _) hall

/-! ### `uvmdealloc` -/

lemma uvmdealloc_spec (h : MemInv s roots ker) (hr : roots i = some r) (hold : pages oldsz ≤ NUSER)
    (hall : ∀ v, pages newsz ≤ v → v < pages oldsz → view s.mem r v ≠ none) :
    wp (uvmdealloc r oldsz newsz) E (fun res s' => res = min newsz oldsz ∧
      MemInv s' roots ker ∧ Framed s s' roots ker (Within i (pages newsz) (pages oldsz)) ∧
      (∀ v, pages newsz ≤ v → v < pages oldsz → view s'.mem r v = none) ∧
      s'.nomem = s.nomem) s := by
  have hsz : oldsz + PGSIZE ≤ 2 ^ 64 := by
    have := NUSER_lt
    simp only [pages, PGSIZE] at hold ⊢
    omega
  unfold uvmdealloc
  rw [wp_ite]
  constructor
  · intro hge
    have hpages := pages_mono hge
    exact ⟨(min_eq_right hge).symm, h, .refl _ _ _ _, fun v _ _ => by omega, rfl⟩
  · intro hlt
    have hmin : newsz = min newsz oldsz := (min_eq_left (by omega)).symm
    rw [pgroundup_eq_pages hsz, pgroundup_eq_pages (by omega), wp_ite]
    constructor
    · intro hpages
      have hpages' : pages newsz < pages oldsz := Nat.lt_of_mul_lt_mul_right hpages
      have hn : throughInt ((pages oldsz * PGSIZE - pages newsz * PGSIZE) / PGSIZE)
          = pages oldsz - pages newsz := by
        rw [← Nat.sub_mul, Nat.mul_div_cancel _ (by decide)]
        apply throughInt_of_lt
        have := NUSER_lt
        omega
      have hend : pages newsz + (pages oldsz - pages newsz) = pages oldsz := by omega
      rw [hn]
      simp only [wp_bind, wp_pure]
      have hspec := uvmunmap_spec (E := E) h hr (v := pages newsz)
        (n := pages oldsz - pages newsz) (by rw [hend]; exact hold)
        (fun u hu hu' => hall u hu (by omega))
      rw [hend] at hspec
      refine wp_imp hspec ?_
      rintro _ s' ⟨h', hframe, -, hnone, hno⟩
      exact ⟨hmin, h', hframe, hnone, hno⟩
    · intro hpages
      have hpages' : pages oldsz ≤ pages newsz := by
        by_contra hc
        exact hpages (Nat.mul_lt_mul_of_pos_right (by omega) (by decide))
      exact ⟨hmin, h, .refl _ _ _ _, fun v _ _ => by omega, rfl⟩

/-! ### `uvmalloc` -/

/-- The flags that `uvmalloc` is called with: `PTE_W` and `PTE_X`. -/
def XPerm (xperm : Pte) : Prop := ∀ j, xperm.getLsbD j = true → j = 2 ∨ j = 3

/-- A fresh page of `uvmalloc`. -/
def zeroPage (xperm : Pte) : UPage where
  user := true
  writable := xperm.getLsbD 2
  executable := xperm.getLsbD 3
  bytes := fun _ => 0

variable [Inhabited κ]

/-- One turn of `uvmalloc` that succeeds, with the page that `kalloc` has handed out. -/
lemma uvmalloc_map (h : MemInv s roots ker) (hr : roots i = some r) {q : Nat} (hx : XPerm xperm)
    (hv : v < NUSER) (hnone : view s.mem r v = none) (hq : IsPage q) {k : κ} (hk : ker q = some k)
    (hzero : ∀ o < PGSIZE, s.mem (q + o) = 0) :
    wp (mappages r (v * PGSIZE) PGSIZE q (PTE_R ||| PTE_U ||| xperm)) E (fun res s' =>
      (res = -1 ∧ MemInv s' roots ker ∧ Quiet s s' roots ker ∧
        Placed s.mem s'.mem roots (Within i v (v + 1)) ∧ s.nomem < s'.nomem) ∨
      (res = 0 ∧ MemInv s' roots (update ker q none) ∧
        Framed s s' roots ker (Within i v (v + 1)) ∧ ptePage (leafPte s'.mem r v) = some q ∧
        (leafPte s'.mem r v).getLsbD 8 = false ∧ view s'.mem r v = some (zeroPage xperm) ∧
        s'.nomem = s.nomem)) s := by
  have hva : v * PGSIZE < MAXVA := page_lt_MAXVA (hv.trans NUSER_lt)
  have hdiv := page_div v
  have hperm : ∀ j, 10 ≤ j → (PTE_R ||| PTE_U ||| xperm).getLsbD j = false := by
    intro j hj
    have hxj : xperm.getLsbD j = false := by
      by_contra hc
      rw [Bool.not_eq_false] at hc
      rcases hx j hc with rfl | rfl <;> omega
    have h1 : j ≠ 1 := by omega
    have h4 : j ≠ 4 := by omega
    simp [hxj, h1, h4]
  have hC : xperm.getLsbD 8 = false := by
    by_contra hc
    rw [Bool.not_eq_false] at hc
    rcases hx 8 hc with h | h <;> omega
  set w := pa2pte q ||| (PTE_R ||| PTE_U ||| xperm) ||| PTE_V with hw
  have hwpage : ptePage w = some q := ptePage_mapped hq.1 hq.lt_two_pow hperm
  have hbit : ∀ {j}, j < 10 → w.getLsbD j
      = ((PTE_R ||| PTE_U ||| xperm).getLsbD j || decide (j = 0)) :=
    fun hj => getLsbD_mapped q _ hj
  apply mappages_spec h hr (Nat.mul_mod_left _ _) hva (by rw [hdiv]; exact view_eq_none.mp hnone)
  · intro s' h' hquiet hplaced hno
    rw [hdiv] at hplaced
    exact Or.inl ⟨rfl, h', hquiet, hplaced, hno⟩
  · intro s' a h' hquiet hplaced hno ha
    rw [hdiv] at hplaced ha
    have hfree : ptePage (leafPte s'.mem r v) = none := by
      rw [hquiet.leaves hr]
      exact view_eq_none.mp hnone
    obtain ⟨h1, hframe, hleaf⟩ := h'.mapFresh hr hv ha hfree hq hk hwpage
      (leafOk_mapped q (by simp))
    have hframe' := (hquiet.framed hplaced).trans hframe
    refine Or.inr ⟨rfl, h1, hframe', (congrArg ptePage hleaf).trans hwpage, ?_, ?_, hno⟩
    · show (leafPte (st64 s'.mem a w) r v).getLsbD 8 = false
      rw [hleaf, hbit (by decide), BitVec.getLsbD_or, BitVec.getLsbD_or, getLsbD_PTE_R,
        getLsbD_PTE_U, hC]
      decide
    have hbytes := hframe'.held hq (by simp [hk])
    show viewPte (st64 s'.mem a w) (leafPte (st64 s'.mem a w) r v) = _
    rw [hleaf, viewPte_of_ptePage hwpage, zeroPage]
    simp only [hbit (show 4 < 10 by norm_num), hbit (show 2 < 10 by norm_num),
      hbit (show 8 < 10 by norm_num), hbit (show 3 < 10 by norm_num), BitVec.getLsbD_or,
      getLsbD_PTE_R, getLsbD_PTE_U, hC, Option.some.injEq, UPage.mk.injEq]
    refine ⟨by simp, by simp, by simp, ?_⟩
    funext o
    exact (hbytes o o.2).trans (hzero o o.2)

omit [Inhabited κ] in
/-- What a failing `uvmalloc` does last: back to `v₀` pages. -/
lemma uvmalloc_undo (h : MemInv s roots ker) (hr : roots i = some r) (hle : v₀ ≤ v)
    (hspace : UserSpace s.mem r v) :
    wp (uvmdealloc r (v * PGSIZE) (v₀ * PGSIZE)) E (fun _ s' => MemInv s' roots ker ∧
      Framed s s' roots ker (Within i v₀ NUSER) ∧ UserSpace s'.mem r v₀ ∧
      s'.nomem = s.nomem) s := by
  have hv : v ≤ NUSER := (h.userSpace_le hr hspace).trans npages_lt.le
  refine wp_imp (uvmdealloc_spec h hr (by rwa [pages_mul]) ?_) ?_
  · rw [pages_mul, pages_mul]
    intro u _ hu
    exact (hspace u (by omega)).mpr hu
  · rintro res s' ⟨-, h', hframe, hnone, hno⟩
    rw [pages_mul, pages_mul] at hframe hnone
    refine ⟨h', hframe.weaken ?_, ?_, hno⟩
    · rintro j u ⟨rfl, h1, h2⟩
      exact ⟨rfl, h1, by omega⟩
    · intro u hu
      by_cases hin : v₀ ≤ u ∧ u < v
      · exact iff_of_false (fun hc => hc (hnone u hin.1 hin.2)) (by omega)
      · rw [hframe.view hr hu (fun hc => hin hc.2), hspace u hu]
        omega

lemma uvmallocFrom_spec (hr : roots i = some r) (hx : XPerm xperm) :
    ∀ {n v : Nat} {s : Phys}, v₀ ≤ v → MemInv s roots ker →
    UserSpace s.mem r v →
    wp (uvmallocFrom r (v₀ * PGSIZE) newsz xperm n (v * PGSIZE)) E (fun res s' =>
      MemInv s' roots ker ∧
      ((res = newsz ∧ Framed s s' roots ker (Within i v (v + n)) ∧
          UserSpace s'.mem r (v + n) ∧
          (∀ u, v ≤ u → u < v + n → view s'.mem r u = some (zeroPage xperm)) ∧
          (Unshared s.mem roots i r → Unshared s'.mem roots i r) ∧ s'.nomem = s.nomem) ∨
        (res = 0 ∧ Framed s s' roots ker (Within i v₀ NUSER) ∧ UserSpace s'.mem r v₀ ∧
          s.nomem < s'.nomem))) s := by
  intro n
  induction n with
  | zero =>
    intro v s _ h hspace
    exact ⟨h, Or.inl ⟨rfl, .refl _ _ _ _, hspace, fun u _ _ => by omega, id, rfl⟩⟩
  | succ n ih =>
    intro v s hle h hspace
    have hv : v < NUSER := (h.userSpace_le hr hspace).trans_lt npages_lt
    unfold uvmallocFrom
    rw [wp_bind]
    refine wp_imp (kalloc_spec h default) ?_
    rintro res s₁ (⟨rfl, -, rfl⟩ | ⟨q, rfl, hq, hkq, hno, h1, ht1, hquiet⟩)
    · -- no page
      rw [wp_bind]
      refine wp_imp (uvmalloc_undo (h.setNomem _) hr hle hspace) ?_
      rintro - s' ⟨h', hframe, hspace', hno⟩
      have hquiet : Quiet s { s with nomem := s.nomem + 1 } roots ker := quiet_of_mem_eq rfl
      exact ⟨h', Or.inr ⟨rfl, (hquiet.framed (.refl _ _ _)).trans hframe, hspace',
        by rw [hno]; exact Nat.lt_succ_self _⟩⟩
    · have hk1 : update ker q (some default) q = some default := update_self ..
      obtain ⟨h2, ht2, hquiet2⟩ := h1.write hq hk1 (sameOutside_memset s₁.mem q 0)
      rw [ker_restore hkq] at hquiet2
      have hquiet' := hquiet.trans hquiet2
      have ht' := ht1.trans ht2
      have hspace2 : UserSpace (memset s₁.mem q 0 PGSIZE) r v :=
        (hquiet'.frame fun _ _ => False).userSpace hr hspace fun _ _ => id
      have hnone : view (memset s₁.mem q 0 PGSIZE) r v = none := by
        by_contra hc
        exact lt_irrefl v ((hspace2 v hv).mp hc)
      simp only [wp_bind, wp_fillPage]
      refine wp_imp (uvmalloc_map h2 hr hx hv hnone hq hk1 ?_) ?_
      · intro o ho
        show memset s₁.mem q 0 PGSIZE (q + o) = 0
        rw [memset_apply, if_pos ⟨by omega, by omega⟩]
      rintro res s₃ (⟨rfl, h3, hquiet3, hplaced3, hno3⟩ |
        ⟨rfl, h3, hframe3, hpage3, hC3, hview3, hno3⟩)
      · -- no page for a table
        have hne : (-1 : Int) ≠ 0 := by decide
        rw [if_pos hne, wp_bind]
        refine wp_imp (kfree_spec h3 hq hk1) ?_
        rintro - s₄ ⟨hno4, h4, hquiet4, ht4⟩
        rw [wp_bind]
        rw [ker_restore hkq] at h4 hquiet4
        have hquietAll := (hquiet'.trans (hquiet3.mono (ker_mono hkq _))).trans hquiet4
        have hspace4 : UserSpace s₄.mem r v :=
          (hquietAll.frame fun _ _ => False).userSpace hr hspace fun _ _ => id
        refine wp_imp (uvmalloc_undo h4 hr hle hspace4) ?_
        rintro - s' ⟨h', hframe, hspace', hno5⟩
        have hplacedAll := ((ht'.placed _).trans (hplaced3.widen hle hv)).trans (ht4.placed _)
        refine ⟨h', Or.inr ⟨rfl, (hquietAll.framed hplacedAll).trans hframe, hspace', ?_⟩⟩
        have hno3' : s₁.nomem < s₃.nomem := hno3
        omega
      · -- mapped: one page more
        rw [ker_restore hkq] at h3
        simp only [ne_eq, not_true_eq_false, if_false]
        have hframe' : Framed s s₃ roots ker (Within i v (v + 1)) :=
          (hquiet'.framed (ht'.placed _)).trans
            (hframe3.mono (fun _ _ hr => hr) (ker_mono hkq _) fun _ _ _ hP => hP)
        have hnext : v * PGSIZE + PGSIZE = (v + 1) * PGSIZE := by ring
        have hspace3 : UserSpace s₃.mem r (v + 1) := by
          intro u hu
          by_cases huv : u = v
          · subst huv
            rw [hview3]
            exact iff_of_true (by simp) (Nat.lt_succ_self u)
          · rw [hframe'.view hr hu (by rintro ⟨-, h1, h2⟩; omega), hspace u hu]
            omega
        rw [hnext]
        refine wp_imp (ih (by omega) h3 hspace3) ?_
        have hsum : v + 1 + n = v + (n + 1) := by omega
        rw [hsum]
        have hno3' : s₃.nomem = s.nomem := hno3.trans hno
        have hown3 : Unshared s.mem roots i r → Unshared s₃.mem roots i r := by
          intro hown
          have hfree : ∀ {j t u}, roots j = some t → u < NUSER →
              ptePage (leafPte s.mem t u) ≠ some q := by
            intro j t u ht hu
            rw [← hquiet'.leaves ht]
            exact h2.ne_of_held (by simp) ht hu
          exact hown.map hr hframe'.toPlaced hpage3 hC3 hfree
        rintro res s' ⟨h', ⟨rfl, hframe4, hspace4, hall, hown4, hno4⟩ |
          ⟨rfl, hframe4, hspace4, hno4⟩⟩
        · refine ⟨h', Or.inl ⟨rfl, (hframe'.weaken ?_).trans (hframe4.weaken ?_), hspace4, ?_,
            fun hown => hown4 (hown3 hown), hno4.trans hno3'⟩⟩
          · rintro j u ⟨rfl, h1, h2⟩
            exact ⟨rfl, h1, by omega⟩
          · rintro j u ⟨rfl, h1, h2⟩
            exact ⟨rfl, by omega, h2⟩
          · intro u hu hu'
            by_cases huv : u = v
            · subst huv
              rw [hframe4.view hr hv (by rintro ⟨-, h1, -⟩; omega), hview3]
            · exact hall u (by omega) hu'
        · refine ⟨h', Or.inr ⟨rfl, (hframe'.weaken ?_).trans hframe4, hspace4, ?_⟩⟩
          · rintro j u ⟨rfl, h1, h2⟩
            exact ⟨rfl, by omega, by omega⟩
          · rw [← hno3']
            exact hno4

/-- `uvmalloc` either adds pages of zeros or changes nothing. -/
lemma uvmalloc_spec (h : MemInv s roots ker) (hr : roots i = some r) (hx : XPerm xperm)
    (hspace : UserSpace s.mem r (pages oldsz)) (hsz : oldsz ≤ newsz) :
    wp (uvmalloc r oldsz newsz xperm) E (fun res s' => MemInv s' roots ker ∧
      ((res = newsz ∧ Framed s s' roots ker (Within i (pages oldsz) (pages newsz)) ∧
          UserSpace s'.mem r (pages newsz) ∧
          (∀ v, pages oldsz ≤ v → v < pages newsz → view s'.mem r v = some (zeroPage xperm)) ∧
          (Unshared s.mem roots i r → Unshared s'.mem roots i r) ∧ s'.nomem = s.nomem) ∨
        (res = 0 ∧ Frame s s' roots ker (fun _ _ => False) ∧
          Placed s.mem s'.mem roots (Within i (pages oldsz) NUSER) ∧ s.nomem < s'.nomem))) s := by
  have hle := (h.userSpace_le hr hspace).trans npages_lt.le
  have hround : pgroundup oldsz = pages oldsz * PGSIZE := by
    apply pgroundup_eq_pages
    have := NUSER_lt
    simp only [pages, PGSIZE] at hle ⊢
    omega
  have hturns : pages oldsz + (newsz - pages oldsz * PGSIZE + PGSIZE - 1) / PGSIZE
      = pages newsz := by
    simp only [pages, PGSIZE]
    omega
  unfold uvmalloc
  rw [wp_ite]
  refine ⟨fun hc => by omega, fun _ => ?_⟩
  simp only [hround]
  refine wp_imp (uvmallocFrom_spec hr hx (le_refl _) h hspace) ?_
  rw [hturns]
  rintro res s' ⟨h', hgood | ⟨hres, hframe, hspace', hno⟩⟩
  · exact ⟨h', Or.inl hgood⟩
  · -- the pages from `pages oldsz` on were not mapped before and are not mapped now
    refine ⟨h', Or.inr ⟨hres, ⟨?_, ?_, hframe.held⟩, hframe.toPlaced, hno⟩⟩
    · intro j t v ht hv _
      by_cases hin : Within i (pages oldsz) NUSER j v
      · obtain ⟨rfl, hlo, -⟩ := hin
        rw [hr, Option.some.injEq] at ht
        subst ht
        have hbefore : view s.mem r v = none := by
          by_contra hc
          have := (hspace v hv).mp hc
          omega
        have hafter : view s'.mem r v = none := by
          by_contra hc
          have := (hspace' v hv).mp hc
          omega
        rw [hbefore, hafter]
      · exact hframe.view ht hv hin
    · intro j t v ht hv hv' _
      exact hframe.top ht hv hv' (by rintro ⟨-, -, hc⟩; omega)

end Xv6
