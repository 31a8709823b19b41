import Xv6.Kernel.TeardownSpec

/-!
# What copy-on-write does

Specifications of `cowalloc` and `uvmcopy`. Seen from the processes, `cowalloc` does nothing: it
only turns a page that may be written into one that can be written at once. `uvmcopy` gives the
child what the parent sees and leaves the parent alone.
-/

namespace Xv6

open Function Lib

variable {ι κ : Type} [Layout] {E : Panic → Prop} {s : Phys} {pa f g : Nat} {m m' : Mem}
  {pte w : Pte}

/-! ### `mappages` where the table is there -/

/-- `walk` with allocation finds an entry whose table exists and allocates nothing. -/
lemma wp_walk_true {r va a : Nat} (hva : va < MAXVA)
    (ha : leafAddr s.mem r (va / PGSIZE) = some a) {Q : Option Nat → Phys → Prop} :
    wp (walk r va true) E Q s ↔ Q (some a) s := by
  have hnot : ¬va ≥ MAXVA := by omega
  simp only [walk, wp_bind, wp_panicIf, hnot, false_imp_iff, true_and, not_false_eq_true,
    true_imp_iff]
  rw [leafAddr_eq_some, vpnPath] at ha
  obtain ⟨n, hn, rfl⟩ := ha
  rw [nodeAt_cons] at hn
  obtain ⟨c, hc, hn⟩ := Option.bind_eq_some_iff.mp hn
  rw [nodeAt_cons] at hn
  obtain ⟨d, hd, hn⟩ := Option.bind_eq_some_iff.mp hn
  rw [nodeAt_nil, Option.some.injEq] at hn
  subst hn
  rw [← px_two] at hc
  rw [← px_one] at hd
  rw [← px_zero]
  have hstep : ∀ {level n c : Nat},
      ptePage (ld64 s.mem (n + 8 * px (level + 1) va)) = some c →
      (wp (walkFrom va true (level + 1) n) E Q s ↔ wp (walkFrom va true level c) E Q s) := by
    intro level n c hc
    obtain ⟨hV, rfl⟩ := ptePage_eq_some.mp hc
    rw [walkFrom, wp_bind, wp_ldPte, hasFlag_V, if_pos hV]
  rw [hstep hc, hstep hd]
  exact Iff.rfl

/-- `mappages` of one page where the table is there and the entry is empty. -/
lemma wp_mappages_entry {r va a : Nat} {perm : Pte} (hal : va % PGSIZE = 0) (hva : va < MAXVA)
    (ha : leafAddr s.mem r (va / PGSIZE) = some a)
    (hfree : ptePage (leafPte s.mem r (va / PGSIZE)) = none) {Q : Int → Phys → Prop} :
    wp (mappages r va PGSIZE pa perm) E Q s ↔
      Q 0 { s with mem := st64 s.mem a (pa2pte pa ||| perm ||| PTE_V) } := by
  have hdown := pgrounddown_eq hal
  have hlast := pgrounddown_last hal hva
  have hsize : PGSIZE ≠ 0 := by decide
  have hnot : ¬hasFlag (ld64 s.mem a) PTE_V = true := by
    rw [leafPte_of_leafAddr ha] at hfree
    intro hV
    rw [ptePage, if_pos hV] at hfree
    cases hfree
  simp only [mappages, wp_bind, wp_panicIf, hsize, false_imp_iff, true_and, not_false_eq_true,
    true_imp_iff, hdown, hlast]
  unfold mappagesFrom
  rw [wp_bind, wp_walk_true hva ha]
  simp only [wp_bind, wp_ldPte, wp_panicIf, hnot, Bool.false_eq_true, false_imp_iff, true_and,
    not_false_eq_true, true_imp_iff, wp_stPte, if_true, wp_pure]

/-! ### `cowalloc` -/

/-- A store to `va` may go ahead at once: the page is valid, the user's, and has `PTE_W`. -/
def Writable (m : Mem) (r va : Nat) : Prop :=
  va < MAXVA ∧ (leafPte m r (va / PGSIZE)).getLsbD 0 = true ∧
    (leafPte m r (va / PGSIZE)).getLsbD 4 = true ∧ (leafPte m r (va / PGSIZE)).getLsbD 2 = true

/-- The process may write to `va`. -/
def MayWrite (m : Mem) (r va : Nat) : Prop :=
  va < MAXVA ∧ ∃ pg, view m r (va / PGSIZE) = some pg ∧ pg.user = true ∧ pg.writable = true

omit [Layout] in
lemma mayWrite_iff {r va : Nat} : MayWrite m r va ↔ va < MAXVA ∧
    (leafPte m r (va / PGSIZE)).getLsbD 0 = true ∧
    (leafPte m r (va / PGSIZE)).getLsbD 4 = true ∧
    ((leafPte m r (va / PGSIZE)).getLsbD 2 = true ∨
      (leafPte m r (va / PGSIZE)).getLsbD 8 = true) := by
  unfold MayWrite view
  apply and_congr_right
  intro _
  cases hp : ptePage (leafPte m r (va / PGSIZE)) with
  | none =>
    rw [viewPte_eq_none.mpr hp]
    refine iff_of_false (fun ⟨_, hc, _⟩ => by cases hc) (fun hc => ?_)
    rw [ptePage, hasFlag_V, hc.1] at hp
    cases hp
  | some pa =>
    rw [viewPte_of_ptePage hp]
    have hV := (ptePage_eq_some.mp hp).1
    simp only [Option.some.injEq, exists_eq_left', hV, true_and, Bool.or_eq_true]

omit [Layout] in
lemma Writable.mayWrite {r va : Nat} (h : Writable m r va) : MayWrite m r va :=
  mayWrite_iff.mpr ⟨h.1, h.2.1, h.2.2.1, Or.inl h.2.2.2⟩

/-- `cowalloc` on a page that can be written does nothing. -/
lemma wp_cowalloc_writable {r va : Nat} (h : Writable s.mem r va) {Q : Int → Phys → Prop} :
    wp (cowalloc r va) E Q s ↔ Q 0 s := by
  obtain ⟨hva, hV, hU, hW⟩ := h
  have hnot : ¬va ≥ MAXVA := by omega
  obtain ⟨a, ha⟩ := exists_leafAddr (m := s.mem) (r := r) (v := va / PGSIZE) (by
    intro hc
    rw [hc] at hV
    simp at hV)
  rw [leafPte_of_leafAddr ha] at hV hU hW
  unfold cowalloc
  rw [if_neg hnot, wp_bind, wp_walk_false hva, ha]
  simp only [wp_bind, wp_ldPte, hasFlag_V, hasFlag_U, hasFlag_C, hasFlag_W, hV, hU, hW,
    Bool.not_true, Bool.or_self, Bool.false_eq_true, if_false, Bool.and_false, Bool.true_or,
    if_true, wp_pure]

/-- `cowalloc` on a page that may not be written refuses. -/
lemma wp_cowalloc_refuse {r va : Nat} (h : ¬MayWrite s.mem r va) {Q : Int → Phys → Prop} :
    wp (cowalloc r va) E Q s ↔ Q (-1) s := by
  rw [mayWrite_iff] at h
  unfold cowalloc
  by_cases hva : va ≥ MAXVA
  · rw [if_pos hva, wp_pure]
  · rw [if_neg hva, wp_bind, wp_walk_false (by omega)]
    cases ha : leafAddr s.mem r (va / PGSIZE) with
    | none => exact Iff.rfl
    | some a =>
      rw [leafPte_of_leafAddr ha] at h
      simp only [wp_bind, wp_ldPte, hasFlag_V, hasFlag_U, hasFlag_C, hasFlag_W]
      by_cases hVU : (ld64 s.mem a).getLsbD 0 = true ∧ (ld64 s.mem a).getLsbD 4 = true
      · have hWC : (ld64 s.mem a).getLsbD 8 = false ∧ (ld64 s.mem a).getLsbD 2 = false := by
          refine ⟨?_, ?_⟩ <;> rw [← Bool.not_eq_true] <;> intro hc
          · exact h ⟨by omega, hVU.1, hVU.2, Or.inr hc⟩
          · exact h ⟨by omega, hVU.1, hVU.2, Or.inl hc⟩
        simp only [hVU.1, hVU.2, hWC.1, hWC.2, Bool.not_true, Bool.or_self, Bool.false_eq_true,
          if_false, Bool.not_false, Bool.and_self, if_true, wp_pure]
      · have hor : (!(ld64 s.mem a).getLsbD 0 || !(ld64 s.mem a).getLsbD 4) = true := by
          rw [Bool.or_eq_true, Bool.not_eq_true', Bool.not_eq_true']
          by_contra hc
          rw [not_or, Bool.not_eq_false, Bool.not_eq_false] at hc
          exact hVU hc
        rw [if_pos hor, wp_pure]

/-- The page of `va` is a user page that is marked copy-on-write, and its entry is at `a`. -/
structure IsCow (m : Mem) (r va a : Nat) : Prop where
  lt : va < MAXVA
  addr : leafAddr m r (va / PGSIZE) = some a
  V : (leafPte m r (va / PGSIZE)).getLsbD 0 = true
  W : (leafPte m r (va / PGSIZE)).getLsbD 2 = false
  U : (leafPte m r (va / PGSIZE)).getLsbD 4 = true
  C : (leafPte m r (va / PGSIZE)).getLsbD 8 = true

omit [Layout] in
/-- A page that may be written, but not at once, is marked. -/
lemma MayWrite.isCow {r va : Nat} (h : MayWrite m r va) (hwr : ¬Writable m r va) :
    ∃ a, IsCow m r va a := by
  obtain ⟨hva, hV, hU, hWC⟩ := mayWrite_iff.mp h
  have hW : (leafPte m r (va / PGSIZE)).getLsbD 2 = false := by
    rw [← Bool.not_eq_true]
    exact fun hc => hwr ⟨hva, hV, hU, hc⟩
  have hC : (leafPte m r (va / PGSIZE)).getLsbD 8 = true := by
    rcases hWC with hc | hc
    · rw [hW] at hc; cases hc
    · exact hc
  obtain ⟨a, ha⟩ := exists_leafAddr (m := m) (r := r) (v := va / PGSIZE) (by
    intro hc
    rw [hc] at hV
    simp at hV)
  exact ⟨a, hva, ha, hV, hW, hU, hC⟩

omit [Layout] in
lemma IsCow.ptePage {r va a : Nat} (h : IsCow m r va a) :
    ptePage (leafPte m r (va / PGSIZE)) = some (pte2pa (leafPte m r (va / PGSIZE))) :=
  ptePage_eq_some.mpr ⟨h.V, rfl⟩

section

variable {r va a : Nat} (h : IsCow s.mem r va a)
  (hpage : IsPage (pte2pa (leafPte s.mem r (va / PGSIZE)))) {Q : Int → Phys → Prop}
include h hpage

/-- `cowalloc` on a page that nobody shares. -/
lemma wp_cowalloc_one (hone : s.pgRefcnt (pte2pa (leafPte s.mem r (va / PGSIZE))) = 1) :
    wp (cowalloc r va) E Q s ↔ Q 0 { s with
      mem := st64 s.mem a ((leafPte s.mem r (va / PGSIZE) ||| PTE_W) &&& ~~~PTE_C) } := by
  have hnot : ¬va ≥ MAXVA := Nat.not_le.mpr h.lt
  unfold cowalloc
  rw [if_neg hnot, wp_bind, wp_walk_false h.lt, h.addr]
  simp only [wp_bind, wp_ldPte, ← leafPte_of_leafAddr h.addr, hasFlag_V, hasFlag_U, hasFlag_C,
    hasFlag_W, h.V, h.U, h.C, h.W, Bool.not_true, Bool.or_self, Bool.false_eq_true, if_false,
    Bool.false_and, wp_getRefcnt hpage, hone, gt_iff_lt, lt_self_iff_false, if_true, wp_stPte,
    wp_pure]

/-- `cowalloc` on a shared page takes a new one. -/
lemma wp_cowalloc_many (hmany : s.pgRefcnt (pte2pa (leafPte s.mem r (va / PGSIZE))) > 1) :
    wp (cowalloc r va) E Q s ↔ wp (do
      match ← kalloc with
      | none => throw .cowallocKalloc
      | some newPa =>
        modify fun s' => { s' with
          mem := memmove s'.mem newPa (pte2pa (leafPte s.mem r (va / PGSIZE))) PGSIZE }
        uvmunmap r (pgrounddown va) 1 true
        if (← mappages r (pgrounddown va) PGSIZE newPa
            ((pteFlags (leafPte s.mem r (va / PGSIZE)) &&& ~~~PTE_C) ||| PTE_W)) ≠ 0 then
          kfree newPa
          return -1
        else
          return 0) E Q s := by
  have hnot : ¬va ≥ MAXVA := Nat.not_le.mpr h.lt
  unfold cowalloc
  rw [if_neg hnot, wp_bind, wp_walk_false h.lt, h.addr]
  simp only [wp_bind, wp_ldPte, ← leafPte_of_leafAddr h.addr, hasFlag_V, hasFlag_U, hasFlag_C,
    hasFlag_W, h.V, h.U, h.C, h.W, Bool.not_true, Bool.or_self, Bool.false_eq_true, if_false,
    Bool.false_and, wp_getRefcnt hpage]
  exact (iff_of_eq (congrArg (fun m => wp m E Q s) (if_pos hmany))).trans (wp_bind _ _)

end

variable [Fintype ι] {roots : ι → Option Nat} {ker : Nat → Option κ} {i : ι} {r v a : Nat}
  {Q : Int → Phys → Prop} {va : Nat}

omit [Fintype ι] in
/-- A page that is the same again. -/
lemma Frame.close {s' : Phys} (h : Frame s s' roots ker (Within i v (v + 1)))
    (hr : roots i = some r) (hv : v < NUSER) (hview : Xv6.view s'.mem r v = Xv6.view s.mem r v) :
    Frame s s' roots ker (fun _ _ => False) := by
  refine ⟨?_, ?_, h.held⟩
  · intro j t u ht hu _
    by_cases hin : Within i v (v + 1) j u
    · obtain ⟨rfl, h1, h2⟩ := hin
      have huv : u = v := by omega
      rw [hr, Option.some.injEq] at ht
      subst ht huv
      exact hview
    · exact h.view ht hu hin
  · intro j t u ht hu hu' _
    exact h.top ht hu hu' (by rintro ⟨-, -, hc⟩; omega)

/-- An entry in which bit `f` is set and bit `g` cleared. -/
structure Reflagged (pte w : Pte) (f g : Nat) : Prop where
  same : ∀ {j}, j ≠ f → j ≠ g → w.getLsbD j = pte.getLsbD j
  set : w.getLsbD f = true
  clear : w.getLsbD g = false

omit [Layout] in
lemma reflagged_or_and_not (pte : Pte) (hf : f < 64) (hg : g < 64) (hne : f ≠ g) :
    Reflagged pte ((pte ||| 1#64 <<< f) &&& ~~~(1#64 <<< g)) f g := by
  have hbit : ∀ {j}, j < 64 → ((pte ||| 1#64 <<< f) &&& ~~~(1#64 <<< g)).getLsbD j
      = ((pte.getLsbD j || decide (j = f)) && !decide (j = g)) := by
    intro j hj
    rw [BitVec.getLsbD_and, BitVec.getLsbD_or, BitVec.getLsbD_not, getLsbD_flag hf,
      getLsbD_flag hg, decide_eq_true hj, Bool.true_and]
  refine ⟨?_, ?_, ?_⟩
  · intro j hjf hjg
    rcases Nat.lt_or_ge j 64 with hj | hj
    · rw [hbit hj, decide_eq_false hjf, decide_eq_false hjg, Bool.or_false, Bool.not_false,
        Bool.and_true]
    · rw [BitVec.getLsbD_of_ge _ j hj, BitVec.getLsbD_of_ge pte j hj]
  · rw [hbit hf, decide_eq_true rfl, decide_eq_false hne, Bool.or_true, Bool.not_false,
      Bool.and_true]
  · rw [hbit hg, decide_eq_true (rfl : g = g), Bool.not_true, Bool.and_false]

omit [Layout] in
lemma Reflagged.pte2pa (h : Reflagged pte w f g) (hf : f < 10) (hg : g < 10) :
    Xv6.pte2pa w = Xv6.pte2pa pte :=
  pte2pa_congr fun _ hj => h.same (by omega) (by omega)

omit [Layout] in
/-- Trading `PTE_W` for `PTE_C`, or back, does not change the view of a page. -/
lemma viewPte_reflagged (h : Reflagged pte w f g) (hfg : (f = 2 ∧ g = 8) ∨ (f = 8 ∧ g = 2))
    (hV : pte.getLsbD 0 = true) (hWC : pte.getLsbD 2 = true ∨ pte.getLsbD 8 = true)
    (hm : SamePage m m' (Xv6.pte2pa pte)) : viewPte m' w = viewPte m pte := by
  have hsame : ∀ {j}, j ≠ 2 → j ≠ 8 → w.getLsbD j = pte.getLsbD j := by
    intro j h2 h8
    rcases hfg with ⟨rfl, rfl⟩ | ⟨rfl, rfl⟩
    · exact h.same h2 h8
    · exact h.same h8 h2
  have hwr : (w.getLsbD 2 || w.getLsbD 8) = (pte.getLsbD 2 || pte.getLsbD 8) := by
    have hpte : (pte.getLsbD 2 || pte.getLsbD 8) = true := by rwa [Bool.or_eq_true]
    rw [hpte, Bool.or_eq_true]
    rcases hfg with ⟨rfl, rfl⟩ | ⟨rfl, rfl⟩
    · exact Or.inl h.set
    · exact Or.inr h.set
  have hpa : Xv6.pte2pa w = Xv6.pte2pa pte := pte2pa_congr fun _ hj => hsame (by omega) (by omega)
  have hwpage : ptePage w = some (Xv6.pte2pa pte) :=
    ptePage_eq_some.mpr ⟨by rw [hsame (by decide) (by decide), hV], hpa⟩
  rw [viewPte_of_ptePage hwpage, viewPte_of_ptePage (ptePage_eq_some.mpr ⟨hV, rfl⟩), hwr,
    hsame (by decide) (by decide), hsame (by decide) (by decide), Option.some.injEq,
    UPage.mk.injEq]
  exact ⟨rfl, rfl, rfl, funext fun o => hm o o.2⟩

/-- A leaf trades `PTE_W` for `PTE_C` or back. -/
lemma MemInv.reflag (h : MemInv s roots ker) (hr : roots i = some r) (hv : v < NUSER)
    (ha : leafAddr s.mem r v = some a) (hV : (leafPte s.mem r v).getLsbD 0 = true)
    (hWC : (leafPte s.mem r v).getLsbD 2 = true ∨ (leafPte s.mem r v).getLsbD 8 = true)
    (hw : Reflagged (leafPte s.mem r v) w f g) (hfg : (f = 2 ∧ g = 8) ∨ (f = 8 ∧ g = 2))
    (hone : f = 2 → mapCount s.mem roots (pte2pa (leafPte s.mem r v)) = 1) :
    MemInv { s with mem := st64 s.mem a w } roots ker ∧
      Frame s { s with mem := st64 s.mem a w } roots ker (fun _ _ => False) ∧
      LeafWrite s.mem (st64 s.mem a w) roots i v w ∧
      ptePage w = ptePage (leafPte s.mem r v) := by
  have hpa : pte2pa w = pte2pa (leafPte s.mem r v) := by
    rcases hfg with ⟨rfl, rfl⟩ | ⟨rfl, rfl⟩ <;> exact hw.pte2pa (by decide) (by decide)
  have hlow : ∀ {j}, j < 2 → w.getLsbD j = (leafPte s.mem r v).getLsbD j := by
    intro j hj
    rcases hfg with ⟨rfl, rfl⟩ | ⟨rfl, rfl⟩ <;> exact hw.same (by omega) (by omega)
  have hok : LeafOk w := by
    rcases h.leafOk hr (v := v) (lt_of_lt_NUSER hv) with hz | ⟨-, hR⟩
    · rw [hz] at hV
      simp at hV
    · exact Or.inr ⟨by rw [hlow (by decide), hV], by rw [hlow (by decide), hR]⟩
  have hpage : ptePage (leafPte s.mem r v) = some (pte2pa (leafPte s.mem r v)) :=
    ptePage_eq_some.mpr ⟨hV, rfl⟩
  have hwpage : ptePage w = some (pte2pa (leafPte s.mem r v)) :=
    ptePage_eq_some.mpr ⟨by rw [hlow (by decide), hV], hpa⟩
  obtain ⟨h1, hframe, hlw, hsame⟩ := h.remark hr hv ha (w := w) (by rw [hwpage, hpage]) hok
    (by
      intro hW
      rcases hfg with ⟨rfl, rfl⟩ | ⟨rfl, rfl⟩
      · rw [hpa]; exact hone rfl
      · rw [hw.clear] at hW; cases hW)
  refine ⟨h1, hframe.close hr hv ?_, hlw, by rw [hwpage, hpage]⟩
  show viewPte (st64 s.mem a w) (leafPte (st64 s.mem a w) r v) = viewPte s.mem (leafPte s.mem r v)
  rw [hlw.leaf hr]
  exact viewPte_reflagged hw hfg hV hWC (hsame _ hwpage)

variable [DecidableEq ι] [Inhabited κ]

/-- What `cowalloc` leaves: it refuses and nothing changes, or the page can be written and no
process sees a difference. -/
def CowPost (s : Phys) (roots : ι → Option Nat) (ker : Nat → Option κ) (r va : Nat) (res : Int)
    (s' : Phys) : Prop :=
  MemInv s' roots ker ∧ s'.nomem = s.nomem ∧
    ((res = -1 ∧ s' = s ∧ ¬MayWrite s.mem r va) ∨
      (res = 0 ∧ Frame s s' roots ker (fun _ _ => False) ∧ Writable s'.mem r va))

section

omit [Layout] [Fintype ι] [DecidableEq ι] [Inhabited κ]

/-- The flags of the entry of a copy. -/
lemma getLsbD_cowPerm (pte : Pte) {j : Nat} (hj : j < 10) :
    ((pteFlags pte &&& ~~~PTE_C) ||| PTE_W).getLsbD j
      = ((pte.getLsbD j && !decide (j = 8)) || decide (j = 2)) := by
  rw [BitVec.getLsbD_or, BitVec.getLsbD_and, BitVec.getLsbD_not, getLsbD_pteFlags, getLsbD_PTE_C,
    getLsbD_PTE_W, decide_eq_true hj, decide_eq_true (show j < 64 by omega), Bool.true_and,
    Bool.and_true]

lemma getLsbD_cowPerm_of_ge (pte : Pte) (j : Nat) (hj : 10 ≤ j) :
    ((pteFlags pte &&& ~~~PTE_C) ||| PTE_W).getLsbD j = false := by
  rw [BitVec.getLsbD_or, BitVec.getLsbD_and, getLsbD_pteFlags, getLsbD_PTE_W,
    decide_eq_false (show ¬j < 10 by omega), decide_eq_false (show ¬j = 2 by omega),
    Bool.and_false, Bool.false_and, Bool.false_or]

end

section

variable (h : MemInv s roots ker) (hr : roots i = some r)
include h hr

omit [Inhabited κ] in
/-- The shared page is left to the others, and the copy in `q` mapped in its place. -/
lemma cowalloc_split (hv : v < NUSER) {q : Nat} (hV : (leafPte s.mem r v).getLsbD 0 = true)
    (hU : (leafPte s.mem r v).getLsbD 4 = true) (hC : (leafPte s.mem r v).getLsbD 8 = true)
    (hq : IsPage q) {k : κ} (hkq : ker q = some k) (hpa : pte2pa (leafPte s.mem r v) = pa)
    (hcopy : ∀ o < PGSIZE, s.mem (q + o) = s.mem (pa + o))
    (hQ : ∀ s', MemInv s' roots (update ker q none) →
      Frame s s' roots (update ker q none) (fun _ _ => False) → s'.nomem = s.nomem →
      Writable s'.mem r (v * PGSIZE) → ptePage (leafPte s'.mem r v) = some q → Q 0 s') : wp (do
      uvmunmap r (v * PGSIZE) 1 true
      if (← mappages r (v * PGSIZE) PGSIZE q
          ((pteFlags (leafPte s.mem r v) &&& ~~~PTE_C) ||| PTE_W)) ≠ 0 then
        kfree q
        return -1
      else
        return 0) E Q s := by
  set pte := leafPte s.mem r v with hpte
  have hva : v * PGSIZE < MAXVA := page_lt_MAXVA (hv.trans NUSER_lt)
  have hdiv := page_div v
  have hpage : ptePage pte = some pa := ptePage_eq_some.mpr ⟨hV, hpa⟩
  have hR : pte.getLsbD 1 = true := by
    rcases h.leafOk hr (v := v) (lt_of_lt_NUSER hv) with hz | ⟨-, hR⟩
    · rw [hpte, hz] at hV
      simp at hV
    · exact hR
  obtain ⟨a, ha⟩ := exists_leafAddr (m := s.mem) (r := r) (v := v) (by
    intro hc
    rw [hpte, hc] at hV
    simp at hV)
  -- the new entry: the old flags with `PTE_W` for `PTE_C`
  set perm := (pteFlags pte &&& ~~~PTE_C) ||| PTE_W with hperm
  set w := pa2pte q ||| perm ||| PTE_V with hw
  have hwbit : ∀ {j}, j < 10 → w.getLsbD j
      = (((pte.getLsbD j && !decide (j = 8)) || decide (j = 2)) || decide (j = 0)) := by
    intro j hj
    rw [hw, getLsbD_mapped q perm hj, getLsbD_cowPerm pte hj]
  have hwpage : ptePage w = some q :=
    ptePage_mapped hq.1 hq.lt_two_pow (getLsbD_cowPerm_of_ge pte)
  have hok : LeafOk w := leafOk_mapped q (by rw [getLsbD_cowPerm pte (by decide), hR]; rfl)
  rw [wp_bind]
  have hunmap := uvmunmap_spec (E := E) h hr (v := v) (n := 1) (by omega) (by
    intro u hu hu'
    have huv : u = v := by omega
    subst huv
    simp [view_eq_none, ← hpte, hpage])
  refine wp_imp hunmap ?_
  rintro - s₁ ⟨h1, hframe1, haddr, hnone, hno⟩
  have ha1 : leafAddr s₁.mem r v = some a := by rw [haddr, ha]
  have hfree : ptePage (leafPte s₁.mem r v) = none :=
    view_eq_none.mp (hnone v (le_refl v) (by omega))
  rw [wp_bind, wp_mappages_entry (Nat.mul_mod_left _ _) hva (by rw [hdiv]; exact ha1)
    (by rw [hdiv]; exact hfree), if_neg (by decide), wp_pure]
  obtain ⟨h2, hframe2, hleaf⟩ := h1.mapFresh hr hv ha1 hfree hq hkq hwpage hok
  have hframe : Frame s { s₁ with mem := st64 s₁.mem a w } roots ker (Within i v (v + 1)) :=
    (hframe1.trans hframe2).toFrame
  have hbytes := hframe.held hq (by simp [hkq])
  have hclosed := hframe.close hr hv (by
    show viewPte (st64 s₁.mem a w) (leafPte (st64 s₁.mem a w) r v)
      = viewPte s.mem (leafPte s.mem r v)
    rw [hleaf, ← hpte, viewPte_of_ptePage hwpage, viewPte_of_ptePage hpage, Option.some.injEq,
      hwbit (show 4 < 10 by decide), hwbit (show 2 < 10 by decide), hwbit (show 8 < 10 by decide),
      hwbit (show 3 < 10 by decide), hC, UPage.mk.injEq]
    refine ⟨by simp, by simp, by simp, funext fun o => ?_⟩
    exact (hbytes o o.2).trans (hcopy o o.2))
  apply hQ _ h2 (hclosed.mono (fun _ _ hr => hr) ?_ fun _ _ _ hP => hP) hno
  · unfold Writable
    rw [hdiv]
    refine ⟨hva, ?_, ?_, ?_⟩
    · rw [hleaf]; exact (ptePage_eq_some.mp hwpage).1
    · rw [hleaf, hwbit (by decide), hU]; rfl
    · rw [hleaf, hwbit (by decide)]; simp
  · exact (congrArg ptePage hleaf).trans hwpage
  · intro pg hne hc
    by_cases hpq : pg = q
    · rw [hpq, update_self] at hne
      exact hne rfl
    · rw [update_of_ne hpq] at hne
      exact hne hc

omit [DecidableEq ι] [Inhabited κ] in
/-- A page that is marked copy-on-write is user memory. -/
lemma MemInv.cow_lt (hcow : IsCow s.mem r va a) : va / PGSIZE < NUSER := by
  have hv26 : va / PGSIZE < 2 ^ 26 := by
    have := hcow.lt
    simp only [PGSIZE, MAXVA] at this ⊢
    omega
  by_contra hge
  obtain ⟨own, hinv, -⟩ := h
  have hnot := hinv.pages.top hr (v := va / PGSIZE) (by omega) (by omega)
  rw [hcow.U] at hnot
  cases hnot

/-- `cowalloc` on a shared page: a page is taken from the free list for the copy. -/
lemma cowalloc_copies (hcow : IsCow s.mem r va a)
    (hmany : s.pgRefcnt (pte2pa (leafPte s.mem r (va / PGSIZE))) > 1)
    (hE : s.freelist = [] → E .cowallocKalloc) :
    wp (cowalloc r va) E (fun res s' => res = 0 ∧ MemInv s' roots ker ∧ s'.nomem = s.nomem ∧
      Frame s s' roots ker (fun _ _ => False) ∧ Writable s'.mem r va ∧
      ∃ q ∈ s.freelist, ptePage (leafPte s'.mem r (va / PGSIZE)) = some q) s := by
  have hv := h.cow_lt hr hcow
  have hdiv : va / PGSIZE * PGSIZE / PGSIZE = va / PGSIZE := Nat.mul_div_cancel _ (by decide)
  have hispage := (h.user hr hv hcow.ptePage).1
  rw [wp_cowalloc_many hcow hispage hmany, wp_bind]
  set v := va / PGSIZE with hvdef
  refine wp_imp (wp_also (kalloc_spec h default) (kalloc_freelist (E := fun _ => True) h)) ?_
  rintro res s₁ ⟨⟨rfl, hempty, rfl⟩ | ⟨q, rfl, hq, hkq, hno, h1, -, hquiet⟩, hhead, -⟩
  · exact hE hempty
  · have hk1 : update ker q (some default) q = some default := update_self ..
    obtain ⟨h2, -, hquiet2⟩ := h1.write hq hk1
      (sameOutside_memmove s₁.mem q (pte2pa (leafPte s.mem r v)) (le_refl PGSIZE))
    rw [ker_restore hkq] at hquiet2
    have hquiet' := hquiet.trans hquiet2
    have hleaf : leafPte (memmove s₁.mem q (pte2pa (leafPte s.mem r v)) PGSIZE) r v
        = leafPte s.mem r v := hquiet'.leaves hr v
    have hne : pte2pa (leafPte s.mem r v) ≠ q := by
      intro hc
      have hmapped : ptePage (leafPte s₁.mem r v) = some q := by
        rw [hquiet.leaves hr, hcow.ptePage, hc]
      exact h1.ne_of_held (by simp) hr hv hmapped
    have hcopied : ∀ o < PGSIZE, memmove s₁.mem q (pte2pa (leafPte s.mem r v)) PGSIZE (q + o)
        = memmove s₁.mem q (pte2pa (leafPte s.mem r v)) PGSIZE
          (pte2pa (leafPte s.mem r v) + o) := by
      intro o ho
      rw [memmove_apply, if_pos ⟨by omega, by omega⟩,
        (sameOutside_memmove s₁.mem q _ (le_refl PGSIZE)).page hq.1 hispage.1 hne ho]
      congr 2
      omega
    rw [wp_bind, wp_modify, ← congrArg pteFlags hleaf]
    refine cowalloc_split h2 hr hv (by rw [hleaf, hcow.V]) (by rw [hleaf, hcow.U])
      (by rw [hleaf, hcow.C]) hq hk1 (congrArg pte2pa hleaf) hcopied ?_
    intro s' h' hframe hno' hwr' hpage'
    rw [ker_restore hkq] at h' hframe
    refine ⟨rfl, h', hno'.trans hno, (hquiet'.frame _).trans hframe, ?_, q,
      List.mem_of_head? hhead.symm, hpage'⟩
    unfold Writable at hwr' ⊢
    rw [hdiv] at hwr'
    exact ⟨hcow.lt, hwr'.2⟩

/-- `cowalloc` panics only if it needs a page and there is none. -/
lemma cowalloc_spec (va : Nat) (hE : s.freelist = [] → E .cowallocKalloc) :
    wp (cowalloc r va) E (CowPost s roots ker r va) s := by
  by_cases hmay : MayWrite s.mem r va
  swap
  · rw [wp_cowalloc_refuse hmay]
    exact ⟨h, rfl, Or.inl ⟨rfl, rfl, hmay⟩⟩
  by_cases hwr : Writable s.mem r va
  · rw [wp_cowalloc_writable hwr]
    exact ⟨h, rfl, Or.inr ⟨rfl, (Quiet.refl _ _ _).frame _, hwr⟩⟩
  -- a copy-on-write page
  obtain ⟨a, hcow⟩ := hmay.isCow hwr
  have hv := h.cow_lt hr hcow
  have hispage := (h.user hr hv hcow.ptePage).1
  obtain ⟨hpos, hcnt⟩ := h.refcnt hr hv hcow.ptePage
  by_cases hmany : s.pgRefcnt (pte2pa (leafPte s.mem r (va / PGSIZE))) > 1
  · refine wp_imp (cowalloc_copies h hr hcow hmany hE) ?_
    rintro res s' ⟨rfl, h', hno, hframe, hwr', -⟩
    exact ⟨h', hno, Or.inr ⟨rfl, hframe, hwr'⟩⟩
  · have hone : mapCount s.mem roots (pte2pa (leafPte s.mem r (va / PGSIZE))) = 1 := by
      rw [hcnt] at hmany
      omega
    rw [wp_cowalloc_one hcow hispage (by rw [hcnt, hone]; rfl)]
    have hre : Reflagged (leafPte s.mem r (va / PGSIZE))
        ((leafPte s.mem r (va / PGSIZE) ||| PTE_W) &&& ~~~PTE_C) 2 8 :=
      reflagged_or_and_not _ (by decide) (by decide) (by decide)
    obtain ⟨h1, hframe, hlw, -⟩ :=
      h.reflag hr hv hcow.addr hcow.V (.inr hcow.C) hre (Or.inl ⟨rfl, rfl⟩) (fun _ => hone)
    refine ⟨h1, rfl, Or.inr ⟨rfl, hframe, hcow.lt, ?_, ?_, ?_⟩⟩ <;> rw [hlw.leaf hr]
    · rw [hre.same (by decide) (by decide), hcow.V]
    · rw [hre.same (by decide) (by decide), hcow.U]
    · exact hre.set

/-! ### `uvmcopy` -/

end

section Copy

variable {j : ι} {t : Nat}

omit [Layout] [Fintype ι] [DecidableEq ι] [Inhabited κ] in
/-- Re-flagging a leaf moves no page. -/
lemma LeafWrite.samePlaces (hw : LeafWrite m m' roots i v w) (hr : roots i = some r)
    (hsame : ptePage w = ptePage (leafPte m r v)) : SamePlaces m m' roots := by
  refine ⟨hw.node, fun {j t u} ht hu => ?_⟩
  by_cases hju : (j, u) = (i, v)
  · obtain ⟨rfl, rfl⟩ := Prod.mk.inj hju
    rw [hr, Option.some.injEq] at ht
    subst ht
    rw [hw.leaf hr, hsame]
  · rw [hw.other ht (lt_of_lt_NUSER hu) hju]

omit [DecidableEq ι] [Inhabited κ] in
/-- The first half of a turn of `uvmcopy`: the parent's page becomes copy-on-write. -/
lemma uvmcopy_protect (h : MemInv s roots ker) (ht : roots j = some t) (hv : v < NUSER)
    (ha : leafAddr s.mem t v = some a) (hV : (leafPte s.mem t v).getLsbD 0 = true)
    {Q : Unit → Phys → Prop}
    (hQ : ∀ s', MemInv s' roots ker → Frame s s' roots ker (fun _ _ => False) →
      s'.nomem = s.nomem → leafAddr s'.mem t v = some a →
      SamePlaces s.mem s'.mem roots →
      (leafPte s'.mem t v).getLsbD 2 = false → Q () s') :
    wp (if hasFlag (leafPte s.mem t v) PTE_W then
      stPte a ((leafPte s.mem t v ||| PTE_C) &&& ~~~PTE_W) else pure ()) E Q s := by
  rw [wp_ite, wp_stPte, wp_pure, hasFlag_W]
  constructor
  · intro hW
    have hre : Reflagged (leafPte s.mem t v) ((leafPte s.mem t v ||| PTE_C) &&& ~~~PTE_W) 8 2 :=
      reflagged_or_and_not _ (by decide) (by decide) (by decide)
    obtain ⟨h1, hframe, hlw, hsame⟩ :=
      h.reflag ht hv ha hV (Or.inl hW) hre (Or.inr ⟨rfl, rfl⟩) (fun hc => by cases hc)
    apply hQ _ h1 hframe rfl
    · rw [hlw.leafAddr ht, ha]
    · exact hlw.samePlaces ht hsame
    · rw [hlw.leaf ht]
      exact hre.clear
  · intro hW
    exact hQ s h ((Quiet.refl _ _ _).frame _) rfl ha (.refl _ _) (Bool.not_eq_true _ ▸ hW)

/-- The second half of a turn of `uvmcopy`: the child gets the parent's page. -/
lemma uvmcopy_share (h : MemInv s roots ker) (hr : roots i = some r) (ht : roots j = some t)
    (hv : v < NUSER) (hV : (leafPte s.mem t v).getLsbD 0 = true)
    (hW : (leafPte s.mem t v).getLsbD 2 = false) (hnone : view s.mem r v = none)
    (hnot : ∀ x < NUSER, ptePage (leafPte s.mem r x) ≠ ptePage (leafPte s.mem t v))
    {fail : PhysM Int} {next : PhysM Int}
    (hfail : ∀ s', MemInv s' roots ker → Quiet s s' roots ker →
      Placed s.mem s'.mem roots (Within i v (v + 1)) → s.nomem < s'.nomem → wp fail E Q s')
    (hnext : ∀ s', MemInv s' roots ker → Framed s s' roots ker (Within i v (v + 1)) →
      s'.nomem = s.nomem → view s'.mem r v = view s.mem t v →
      ptePage (leafPte s'.mem r v) = ptePage (leafPte s.mem t v) → wp next E Q s') : wp (do
      if (← mappages r (v * PGSIZE) PGSIZE (pte2pa (leafPte s.mem t v))
          (pteFlags (leafPte s.mem t v))) ≠ 0 then
        fail
      else
        refcntInc (pte2pa (leafPte s.mem t v))
        next) E Q s := by
  set pte := leafPte s.mem t v with hpte
  have hva : v * PGSIZE < MAXVA := page_lt_MAXVA (hv.trans NUSER_lt)
  have hdiv := page_div v
  have hpage : ptePage pte = some (pte2pa pte) := ptePage_eq_some.mpr ⟨hV, rfl⟩
  have hispage : IsPage (pte2pa pte) := (h.user ht hv (hpte ▸ hpage)).1
  have hR : pte.getLsbD 1 = true := by
    rcases h.leafOk ht (v := v) (lt_of_lt_NUSER hv) with hz | ⟨-, hR⟩
    · rw [hpte, hz] at hV
      simp at hV
    · exact hR
  -- the child's entry has the parent's flags
  set w := pa2pte (pte2pa pte) ||| pteFlags pte ||| PTE_V with hw
  have hwbit : ∀ {x}, x < 10 → w.getLsbD x = (pte.getLsbD x || decide (x = 0)) := by
    intro x hx
    rw [hw, getLsbD_mapped _ _ hx, getLsbD_pteFlags, decide_eq_true hx, Bool.and_true]
  have hwpage : ptePage w = some (pte2pa pte) := by
    apply ptePage_mapped hispage.1 hispage.lt_two_pow
    intro x hx
    rw [getLsbD_pteFlags, decide_eq_false (by omega), Bool.and_false]
  have hok : LeafOk w := leafOk_mapped _ (by rw [getLsbD_pteFlags, hR]; rfl)
  have hwW : w.getLsbD 2 = false := by rw [hwbit (by decide), hW]; rfl
  rw [wp_bind]
  apply mappages_spec h hr (Nat.mul_mod_left _ _) hva (by rw [hdiv]; exact view_eq_none.mp hnone)
  · intro s' h' hquiet hplaced hno
    rw [hdiv] at hplaced
    rw [if_pos (by decide)]
    exact hfail s' h' hquiet hplaced hno
  · intro s₁ a h1 hquiet hplaced hno ha
    rw [hdiv] at hplaced ha
    rw [if_neg (by decide), wp_bind, wp_refcntInc hispage, Phys.pgRefcnt_setMem]
    have hpte1 : leafPte s₁.mem t v = pte := hquiet.leaves ht v
    obtain ⟨h2, hframe, hlw, hsame⟩ := h1.mapShared hr hv ha
      (by rw [hquiet.leaves hr]; exact view_eq_none.mp hnone) hwpage hok hwW ht hv
      (by rw [hpte1, hpage]) (by rw [hpte1, hW])
      (fun x hx => by rw [hquiet.leaves hr, ← hpage]; exact hnot x hx)
    apply hnext _ h2 ((hquiet.framed hplaced).trans hframe) hno
    · show viewPte (st64 s₁.mem a w) (leafPte (st64 s₁.mem a w) r v) = viewPte s.mem pte
      have hbytes : SamePage s.mem (st64 s₁.mem a w) (pte2pa pte) :=
        (hquiet.data ht hv (hpte ▸ hpage)).trans hsame
      rw [hlw.leaf hr, viewPte_of_ptePage hwpage, viewPte_of_ptePage hpage,
        hwbit (show 4 < 10 by decide), hwbit (show 2 < 10 by decide),
        hwbit (show 8 < 10 by decide), hwbit (show 3 < 10 by decide), Option.some.injEq,
        UPage.mk.injEq]
      refine ⟨by simp, by simp, by simp, funext fun o => hbytes o o.2⟩
    · show ptePage (leafPte (st64 s₁.mem a w) r v) = ptePage pte
      rw [hlw.leaf hr, hwpage, hpage]

lemma uvmcopyFrom_spec (hr : roots i = some r) (ht : roots j = some t) (hij : i ≠ j) :
    ∀ {n v : Nat} {s : Phys}, MemInv s roots ker → UserSpace s.mem t (v + n) →
    UserSpace s.mem r v →
    (∀ u < v, ptePage (leafPte s.mem r u) = ptePage (leafPte s.mem t u)) →
    wp (uvmcopyFrom t r n (v * PGSIZE)) E (fun res s' => MemInv s' roots ker ∧
      SamePlaces s.mem s'.mem (update roots i none) ∧
      ((res = 0 ∧ Frame s s' roots ker (Within i v (v + n)) ∧ UserSpace s'.mem r (v + n) ∧
          (∀ u, v ≤ u → u < v + n → view s'.mem r u = view s.mem t u) ∧ s'.nomem = s.nomem) ∨
        (res = -1 ∧ Frame s s' roots ker (Within i 0 NUSER) ∧ UserSpace s'.mem r 0 ∧
          s.nomem < s'.nomem))) s := by
  intro n
  induction n with
  | zero =>
    intro v s h _ hspace _
    exact ⟨h, .refl _ _, Or.inl ⟨rfl, (Quiet.refl _ _ _).frame _, hspace, fun u _ _ => by omega,
      rfl⟩⟩
  | succ n ih =>
    intro v s h hparent hchild hpages
    have hv : v < NUSER := by
      have := (h.userSpace_le ht hparent).trans_lt npages_lt
      omega
    have hva : v * PGSIZE < MAXVA := page_lt_MAXVA (hv.trans NUSER_lt)
    have hdiv := page_div v
    obtain ⟨q, hq⟩ := Option.ne_none_iff_exists'.mp fun hc =>
      (hparent v hv).mpr (by omega) (view_eq_none.mpr hc)
    obtain ⟨hV, hpa⟩ := ptePage_eq_some.mp hq
    have hpos : pte2pa (leafPte s.mem t v) ≠ 0 := by
      rw [hpa]
      exact (h.user ht hv hq).1.pos.ne'
    obtain ⟨a, ha⟩ := exists_leafAddr (m := s.mem) (r := t) (v := v) (by
      intro hc
      rw [hc] at hV
      simp at hV)
    unfold uvmcopyFrom
    rw [wp_bind, wp_walk_false hva, hdiv, ha]
    simp only [wp_bind, wp_ldPte, wp_panicIf, ← leafPte_of_leafAddr ha]
    rw [hasFlag_V, hV]
    simp only [Bool.not_true, Bool.false_eq_true, hpos, false_imp_iff, true_and,
      not_false_eq_true, true_imp_iff]
    apply uvmcopy_protect h ht hv ha hV
    intro s₁ h1 hframe1 hno1 ha1 hplaces1 hW1
    have hpages1 : ∀ {k p u}, roots k = some p → u < NUSER →
        ptePage (leafPte s₁.mem p u) = ptePage (leafPte s.mem p u) := hplaces1.page
    have hothers1 : SamePlaces s.mem s₁.mem (update roots i none) :=
      hplaces1.mono fun _ _ hp => (roots_of_update hp).2
    have hV1 : (leafPte s₁.mem t v).getLsbD 0 = true := by
      have := hpages1 ht hv
      rw [hq] at this
      exact (ptePage_eq_some.mp this).1
    have hpa1 : pte2pa (leafPte s.mem t v) = pte2pa (leafPte s₁.mem t v) := by
      have := hpages1 ht hv
      rw [hq] at this
      rw [hpa, (ptePage_eq_some.mp this).2]
    have hsame1 : ∀ {k p u}, roots k = some p → u < NUSER → view s₁.mem p u = view s.mem p u :=
      fun hp hu => hframe1.view hp hu id
    have hnone1 : view s₁.mem r v = none := by
      rw [hsame1 hr hv]
      by_contra hc
      exact lt_irrefl v ((hchild v hv).mp hc)
    rw [← leafPte_of_leafAddr ha1, hpa1, ← wp_bind]
    apply uvmcopy_share h1 hr ht hv hV1 hW1 hnone1
    · -- no page of the child is the parent's page `v`
      intro x hx hc
      rw [hpages1 hr hx, hpages1 ht hv, hq] at hc
      have hxv : x < v := (hchild x hx).mp (fun hn => by rw [view_eq_none.mp hn] at hc; cases hc)
      rw [hpages x hxv] at hc
      have := h.inj ht hx hv hc hq
      omega
    · -- no page for a table of the child: unmap what it got so far
      intro s₂ h2 hquiet hplaced2 hno2
      have hchild2 : UserSpace s₂.mem r v := by
        intro u hu
        rw [hquiet.view hr hu, hsame1 hr hu]
        exact hchild u hu
      rw [wp_bind]
      have hunmap := uvmunmap_spec (E := E) h2 hr (v := 0) (n := v) (by omega)
        (fun u _ hu => (hchild2 u (by omega)).mpr (by omega))
      simp only [Nat.zero_mul, Nat.zero_add, Nat.zero_le, true_imp_iff] at hunmap
      refine wp_imp hunmap ?_
      rintro - s' ⟨h', hframe, -, hnone, hno⟩
      have hframeAll : Frame s s' roots ker (Within i 0 NUSER) :=
        ((hframe1.weaken (fun _ _ => False.elim)).trans (hquiet.frame _)).trans
          (hframe.toFrame.weaken (by
            rintro k u ⟨rfl, h1, h2⟩
            exact ⟨rfl, h1, by omega⟩))
      refine ⟨h', (hothers1.trans hplaced2.others).trans hframe.toPlaced.others,
        Or.inr ⟨rfl, hframeAll, ?_, by omega⟩⟩
      intro u hu
      refine iff_of_false (fun hc => hc ?_) (by omega)
      by_cases huv : u < v
      · exact hnone u huv
      · rw [hframe.view hr hu (fun hc => huv hc.2.2)]
        by_contra hc
        exact huv ((hchild2 u hu).mp hc)
    · -- one page more
      intro s₂ h2 hframe2 hno2 hview2 hpage2
      have hpages2 : ∀ {k p u}, roots k = some p → u < NUSER → (k, u) ≠ (i, v) →
          ptePage (leafPte s₂.mem p u) = ptePage (leafPte s₁.mem p u) := by
        intro k p u hp hu hne
        rw [hframe2.leaf hp (lt_of_lt_NUSER hu)]
        rintro ⟨rfl, h3, h4⟩
        exact hne (by rw [show u = v by omega])
      have hothers2 := hothers1.trans hframe2.toPlaced.others
      have hnext : v * PGSIZE + PGSIZE = (v + 1) * PGSIZE := by ring
      have hframe' : Frame s s₂ roots ker (Within i v (v + 1)) :=
        (hframe1.weaken (fun _ _ => False.elim)).trans hframe2.toFrame
      have hparent' : ∀ {u}, u < NUSER → view s₂.mem t u = view s.mem t u :=
        fun hu => hframe'.view ht hu (fun hc => hij hc.1.symm)
      rw [hnext]
      have hsum : v + 1 + n = v + (n + 1) := by omega
      refine wp_imp (ih h2 ?_ ?_ ?_) ?_
      · intro u hu
        rw [hparent' hu, hsum]
        exact hparent u hu
      · intro u hu
        by_cases huv : u = v
        · subst huv
          rw [hview2]
          refine iff_of_true (fun hc => ?_) (Nat.lt_succ_self u)
          have := view_eq_none.mp hc
          rw [hpages1 ht hu, hq] at this
          cases this
        · rw [hframe'.view hr hu (by rintro ⟨-, h3, h4⟩; omega), hchild u hu]
          omega
      · intro u hu
        have hu' : u < NUSER := by omega
        have htu : ptePage (leafPte s₂.mem t u) = ptePage (leafPte s.mem t u) := by
          rw [hpages2 ht hu' (fun hc => hij (Prod.mk.inj hc).1.symm), hpages1 ht hu']
        rw [htu]
        by_cases huv : u = v
        · subst huv
          rw [hpage2, hpages1 ht hu']
        · rw [hpages2 hr hu' (fun hc => huv (Prod.mk.inj hc).2), hpages1 hr hu']
          exact hpages u (by omega)
      · rw [hsum]
        rintro res s' ⟨h', hothers3, ⟨rfl, hframe3, hspace3, hviews, hno3⟩ |
          ⟨rfl, hframe3, hspace3, hno3⟩⟩
        · refine ⟨h', hothers2.trans hothers3, Or.inl ⟨rfl,
            (hframe'.weaken ?_).trans (hframe3.weaken ?_), hspace3, ?_, by omega⟩⟩
          · rintro k u ⟨rfl, h1, h2⟩
            exact ⟨rfl, h1, by omega⟩
          · rintro k u ⟨rfl, h1, h2⟩
            exact ⟨rfl, by omega, h2⟩
          · intro u hu hu'
            by_cases huv : u = v
            · subst huv
              rw [hframe3.view hr hv (by rintro ⟨-, h3, -⟩; omega), hview2, hsame1 ht hv]
            · have huN : u < NUSER := by
                have := (h.userSpace_le ht hparent).trans_lt npages_lt
                omega
              rw [hviews u (by omega) hu', hparent' huN]
        · refine ⟨h', hothers2.trans hothers3,
            Or.inr ⟨rfl, (hframe'.weaken ?_).trans hframe3, hspace3, by omega⟩⟩
          rintro k u ⟨rfl, h1, h2⟩
          exact ⟨rfl, by omega, by omega⟩

/-- `uvmcopy` gives an empty address space what the parent sees, or leaves it empty. -/
lemma uvmcopy_spec (h : MemInv s roots ker) (hr : roots i = some r) (ht : roots j = some t)
    (hij : i ≠ j) {sz : Nat} (hparent : UserSpace s.mem t (pages sz))
    (hchild : UserSpace s.mem r 0) :
    wp (uvmcopy t r sz) E (fun res s' => MemInv s' roots ker ∧
      SamePlaces s.mem s'.mem (update roots i none) ∧
      ((res = 0 ∧ Frame s s' roots ker (Within i 0 (pages sz)) ∧ UserSpace s'.mem r (pages sz) ∧
          (∀ u < pages sz, view s'.mem r u = view s.mem t u) ∧ s'.nomem = s.nomem) ∨
        (res = -1 ∧ Frame s s' roots ker (fun _ _ => False) ∧ s.nomem < s'.nomem))) s := by
  have hspec := uvmcopyFrom_spec (E := E) hr ht hij h (n := pages sz) (v := 0)
    (by rwa [Nat.zero_add]) hchild (by simp)
  simp only [Nat.zero_mul, Nat.zero_add, Nat.zero_le, true_imp_iff] at hspec
  refine wp_imp hspec ?_
  rintro res s' ⟨h', hothers, hgood | ⟨hres, hframe, hspace, hno⟩⟩
  · exact ⟨h', hothers, Or.inl hgood⟩
  · refine ⟨h', hothers, Or.inr ⟨hres, ⟨?_, ?_, hframe.held⟩, hno⟩⟩
    · intro k p v hp hv _
      by_cases hk : k = i
      · subst hk
        rw [hr, Option.some.injEq] at hp
        subst hp
        have hempty : ∀ {m : Mem}, UserSpace m r 0 → view m r v = none := by
          intro m hm
          by_contra hc
          have := (hm v hv).mp hc
          omega
        rw [hempty hspace, hempty hchild]
      · exact hframe.view hp hv (fun hc => hk hc.1)
    · intro k p v hp hv hv' _
      exact hframe.top hp hv hv' (by rintro ⟨-, -, hc⟩; omega)

end Copy

end Xv6
