import Xv6.Kernel.AllocSpec

/-!
# What mapping and unmapping do

Specifications of `mappages` and `uvmunmap`, and of the functions that grow and shrink an
address space with them.
-/

namespace Xv6

open Function Lib

/-! ### The entry that `mappages` writes -/

lemma getLsbD_mapped (pa : Nat) (perm : Pte) {j : Nat} (hj : j < 10) :
    (pa2pte pa ||| perm ||| PTE_V).getLsbD j = (perm.getLsbD j || decide (j = 0)) := by
  rw [BitVec.getLsbD_or, BitVec.getLsbD_or, getLsbD_pa2pte_of_lt pa hj, getLsbD_PTE_V,
    Bool.false_or]

lemma ptePage_mapped {pa : Nat} {perm : Pte} (hal : pa % PGSIZE = 0) (hlt : pa < 2 ^ 56)
    (hperm : ∀ j, 10 ≤ j → perm.getLsbD j = false) :
    ptePage (pa2pte pa ||| perm ||| PTE_V) = some pa := by
  rw [ptePage_eq_some]
  refine ⟨by simp, ?_⟩
  rw [BitVec.or_assoc]
  apply pte2pa_or_flags hal hlt
  intro j hj
  rw [BitVec.getLsbD_or, hperm j hj, getLsbD_PTE_V, Bool.false_or, decide_eq_false_iff_not]
  omega

lemma leafOk_mapped (pa : Nat) {perm : Pte} (hR : perm.getLsbD 1 = true) :
    LeafOk (pa2pte pa ||| perm ||| PTE_V) :=
  Or.inr ⟨by simp, by simp [hR]⟩

variable {ι κ : Type}

lemma SameTables.leafWrite {m m₁ m₂ : Mem} {roots : ι → Option Nat} {i : ι} {v : Nat} {w : Pte}
    (ht : SameTables m m₁ roots) (hw : LeafWrite m₁ m₂ roots i v w) :
    LeafWrite m m₂ roots i v w := by
  refine ⟨?_, ?_, hw.leaf, ?_⟩
  · intro j r path hr hp
    rw [hw.node hr hp, ht.node hr hp]
  · intro j r path n k hr hp hlen hn hk
    rw [hw.word hr hp hlen (by rw [ht.node hr hp, hn]) hk, ht.word hr hp hn hk]
  · intro j r u hr hu hne
    rw [hw.other hr hu hne, ht.leafPte hr]

variable [Layout] [Fintype ι] {E : Panic → Prop} {s : Phys} {roots : ι → Option Nat}
  {ker : Nat → Option κ} {i : ι} {r v a q : Nat} {w : Pte}

/-! ### Writing one leaf -/

section

variable (h : MemInv s roots ker) (hr : roots i = some r)
include h hr

/-- What writing a leaf entry leaves alone. -/
lemma MemInv.leafWrite (hv : v < 2 ^ 27) (ha : leafAddr s.mem r v = some a) (w : Pte) :
    LeafWrite s.mem (st64 s.mem a w) roots i v w ∧
      (∀ {j t u pg}, roots j = some t → u < NUSER → ptePage (leafPte s.mem t u) = some pg →
        SamePage s.mem (st64 s.mem a w) pg) ∧
      ∀ {pg}, IsPage pg → ker pg ≠ none → SamePage s.mem (st64 s.mem a w) pg := by
  obtain ⟨own, hinv, hker⟩ := h
  refine ⟨hinv.tables.leafWrite hr hv ha w, ?_⟩
  obtain ⟨n, hn, rfl⟩ := leafAddr_eq_some.mp ha
  obtain ⟨hnpage, hnown⟩ := hinv.tables.node hr (validPath_vpnPath v) hn
  have hout : SameOutside s.mem (st64 s.mem (n + 8 * (v % 512)) w) n :=
    sameOutside_st64 w (Nat.mod_lt v (by norm_num))
  constructor
  · intro j t u pg ht hu hp
    obtain ⟨hpage, hown⟩ := hinv.pages.user ht hu hp
    apply hout.samePage hnpage.1 hpage.1
    rintro rfl
    rw [hnown] at hown
    cases hown
  · intro pg hpage hne
    apply hout.samePage hnpage.1 hpage.1
    rintro rfl
    obtain ⟨b, hb⟩ := Option.ne_none_iff_exists'.mp hne
    have := (hker pg hpage b).mpr hb
    rw [hnown] at this
    cases this

/-- A page that the kernel held is mapped into an address space. -/
lemma MemInv.mapFresh [DecidableEq ι] (hv : v < NUSER) (ha : leafAddr s.mem r v = some a)
    (hfree : ptePage (leafPte s.mem r v) = none) (hq : IsPage q) {k : κ} (hk : ker q = some k)
    (hw : ptePage w = some q) (hok : LeafOk w) :
    MemInv { s with mem := st64 s.mem a w } roots (update ker q none) ∧
      Framed s { s with mem := st64 s.mem a w } roots ker (Within i v (v + 1)) ∧
      leafPte (st64 s.mem a w) r v = w := by
  obtain ⟨hlw, hdata, hheld⟩ := h.leafWrite hr (lt_of_lt_NUSER hv) ha w
  have hunmapped : ∀ {j t u}, roots j = some t → u < NUSER → ptePage (leafPte s.mem t u) ≠ some q :=
    fun ht hu => h.ne_of_held (by simp [hk]) ht hu
  refine ⟨?_, LeafWrite.framed hlw
    (fun ht hu _ hp => hdata ht hu hp) hheld, hlw.leaf hr⟩
  have hzero : mapCount s.mem roots q = 0 := by
    rw [mapCount, refCount_eq_zero_iff]
    rintro ⟨j, u⟩ hp
    unfold userSlots at hp
    obtain ⟨t, ht, hp⟩ := Option.bind_eq_some_iff.mp hp
    exact hunmapped ht u.2 hp
  obtain ⟨own, hinv, hker⟩ := h
  have hown := (hker q hq k).mpr hk
  refine ⟨update own q .user, ⟨?_, ?_⟩, ker_update hker (by simp)⟩
  · apply hinv.tables.of_leafWrite hlw hok
    apply sameNodes_update
    · simp [hown]
    · simp
  · apply hinv.pages.attach hlw hr hv hfree hw hq
    · simp [hown]
    · rfl
    · intro pg _ _; exact Phys.pgRefcnt_setMem ..
    · rw [Phys.pgRefcnt_setMem, hinv.pages.held hq (Or.inr ⟨k, hown⟩), hzero]
      rfl
    · intro _; exact hzero
    · intro j t u ht hu hp
      exact absurd hp (hunmapped ht hu)

/-- A leaf above the user's part is set or cleared. -/
lemma MemInv.mapKernel (hv : NUSER ≤ v) (hv' : v < 2 ^ 27) (ha : leafAddr s.mem r v = some a)
    (hok : LeafOk w) (hU : w.getLsbD 4 = false) :
    MemInv { s with mem := st64 s.mem a w } roots ker ∧
      Framed s { s with mem := st64 s.mem a w } roots ker (Within i v (v + 1)) ∧
      leafPte (st64 s.mem a w) r v = w := by
  obtain ⟨hlw, hdata, hheld⟩ := h.leafWrite hr hv' ha w
  refine ⟨?_, LeafWrite.framed hlw
    (fun ht hu _ hp => hdata ht hu hp) hheld, hlw.leaf hr⟩
  obtain ⟨own, hinv, hker⟩ := h
  refine ⟨own, ⟨hinv.tables.of_leafWrite hlw hok (SameNodes.refl own), ?_⟩, hker⟩
  apply hinv.pages.remark hlw hr (fun hc => absurd hv (by omega)) (fun hc => absurd hv (by omega))
    (fun _ => hU) <;> rfl

/-- The flags of a user leaf change. -/
lemma MemInv.remark (hv : v < NUSER) (ha : leafAddr s.mem r v = some a)
    (hsame : ptePage w = ptePage (leafPte s.mem r v)) (hok : LeafOk w)
    (hW : w.getLsbD 2 = true → mapCount s.mem roots (pte2pa w) = 1) :
    MemInv { s with mem := st64 s.mem a w } roots ker ∧
      Framed s { s with mem := st64 s.mem a w } roots ker (Within i v (v + 1)) ∧
      LeafWrite s.mem (st64 s.mem a w) roots i v w ∧
      ∀ pg, ptePage w = some pg → SamePage s.mem (st64 s.mem a w) pg := by
  obtain ⟨hlw, hdata, hheld⟩ := h.leafWrite hr (lt_of_lt_NUSER hv) ha w
  refine ⟨?_, LeafWrite.framed hlw (fun ht hu _ hp => hdata ht hu hp) hheld, hlw, ?_⟩
  · obtain ⟨own, hinv, hker⟩ := h
    refine ⟨own, ⟨hinv.tables.of_leafWrite hlw hok (SameNodes.refl own), ?_⟩, hker⟩
    apply hinv.pages.remark hlw hr (fun _ => hsame) (fun _ _ hw => hW hw)
      (fun hc => absurd hc (by omega)) <;> rfl
  · intro pg hp
    exact hdata hr hv (hsame ▸ hp)

/-- A page that is already mapped elsewhere, without `PTE_W`, is mapped once more. -/
lemma MemInv.mapShared [DecidableEq ι] (hv : v < NUSER) (ha : leafAddr s.mem r v = some a)
    (hfree : ptePage (leafPte s.mem r v) = none) (hw : ptePage w = some q) (hok : LeafOk w)
    (hW : w.getLsbD 2 = false) {j : ι} {t u : Nat} (ht : roots j = some t) (hu : u < NUSER)
    (hq : ptePage (leafPte s.mem t u) = some q) (hro : (leafPte s.mem t u).getLsbD 2 = false)
    (hnot : ∀ x < NUSER, ptePage (leafPte s.mem r x) ≠ some q) :
    MemInv (({ s with mem := st64 s.mem a w } : Phys).setRefcnt q (s.pgRefcnt q + 1)) roots ker ∧
      Framed s (({ s with mem := st64 s.mem a w } : Phys).setRefcnt q (s.pgRefcnt q + 1)) roots ker
        (Within i v (v + 1)) ∧
      LeafWrite s.mem (st64 s.mem a w) roots i v w ∧ SamePage s.mem (st64 s.mem a w) q := by
  obtain ⟨hlw, hdata, hheld⟩ := h.leafWrite hr (lt_of_lt_NUSER hv) ha w
  obtain ⟨own, hinv, hker⟩ := h
  obtain ⟨hpage, hown⟩ := hinv.pages.user ht hu hq
  refine ⟨⟨update own q .user, ⟨?_, ?_⟩, ?_⟩, LeafWrite.framed hlw
    (fun ht hu _ hp => hdata ht hu hp) hheld, hlw, hdata ht hu hq⟩
  · apply hinv.tables.of_leafWrite hlw hok
    apply sameNodes_update
    · simp [hown]
    · simp
  · apply hinv.pages.attach hlw hr hv hfree hw hpage
    · simp [hown]
    · rfl
    · intro pg hpg hne
      rw [Phys.pgRefcnt_setRefcnt_of_ne _ hpage hpg hne, Phys.pgRefcnt_setMem]
    · rw [Phys.pgRefcnt_setRefcnt_self, (hinv.pages.mapped hpage hown).2]
    · intro hc
      rw [hW] at hc
      cases hc
    · -- a writable leaf would be the only one, but there is a read-only one
      intro j' t' u' ht' hu' hp'
      refine ⟨?_, ?_⟩
      · by_contra hwr
        rw [Bool.not_eq_false] at hwr
        obtain ⟨hV, hpa⟩ := ptePage_eq_some.mp hp'
        have hone := hinv.pages.writable ht' hu' hV hwr
        rw [hpa] at hone
        obtain ⟨rfl, rfl⟩ := Prod.mk.inj (eq_of_mapCount_eq_one hone ht hu ht' hu' hq hp')
        rw [ht, Option.some.injEq] at ht'
        subst ht'
        rw [hro] at hwr
        cases hwr
      · rintro rfl
        rw [hr, Option.some.injEq] at ht'
        subst ht'
        exact hnot u' hu' hp'
  · intro pg hpg k
    rw [← hker pg hpg k]
    by_cases hne : pg = q
    · rw [hne, update_self, hown]
    · rw [update_of_ne hne]

/-- A user leaf is dropped: its page is freed, or loses one reference, and the entry cleared. -/
lemma MemInv.unmap [DecidableEq ι] (hv : v < NUSER) (ha : leafAddr s.mem r v = some a)
    (hq : ptePage (leafPte s.mem r v) = some q) : wp (kfree q) E (fun _ s₁ =>
      MemInv { s₁ with mem := st64 s₁.mem a 0#64 } roots ker ∧
      Framed s { s₁ with mem := st64 s₁.mem a 0#64 } roots ker (Within i v (v + 1)) ∧
      (∀ u, leafAddr (st64 s₁.mem a 0#64) r u = leafAddr s.mem r u) ∧
      leafPte (st64 s₁.mem a 0#64) r v = 0#64 ∧
      s₁.nomem = s.nomem) s := by
  have hv' : v < 2 ^ 27 := by have := NUSER_lt; omega
  obtain ⟨hpos, hcnt⟩ := h.refcnt hr hv hq
  have hpage := (h.user hr hv hq).1
  have hkq := (h.user hr hv hq).2
  by_cases hmany : 1 < mapCount s.mem roots q
  · obtain ⟨hlw, hdata, hheld⟩ := h.leafWrite hr hv' ha 0#64
    obtain ⟨own, hinv, hker⟩ := h
    rw [wp_kfree_shared hpage (by rw [hcnt]; exact_mod_cast hmany)]
    refine ⟨⟨own, ⟨?_, ?_⟩, hker⟩, LeafWrite.framed hlw (fun ht hu _ hp => hdata ht hu hp) hheld,
      ?_, hlw.leaf hr, rfl⟩
    · exact hinv.tables.of_leafWrite hlw (Or.inl rfl) (SameNodes.refl own)
    · apply hinv.pages.detachShared hlw hr hv hq ptePage_zero hmany
      · rfl
      · intro pg hpg hne
        rw [Phys.pgRefcnt_setMem, Phys.pgRefcnt_setRefcnt_of_ne _ hpage hpg hne]
      · rw [Phys.pgRefcnt_setMem, Phys.pgRefcnt_setRefcnt_self]
    · exact hlw.leafAddr hr
  · -- the last reference: the page itself goes to the free list
    have hone : mapCount s.mem roots q = 1 := by omega
    obtain ⟨own, hinv, hker⟩ := h
    have hown := (hinv.pages.user hr hv hq).2
    have hnode : ∀ j path, own q ≠ .node j path := by
      intro j path hn
      rw [hown] at hn
      cases hn
    have hout := s.sameOutside_pushed q
    have ht := hinv.tables.sameTables hout hpage.1 (fun j _ _ path => hnode j path)
    have htab := hinv.tables.congr ht (SameNodes.refl own)
    have ha' : leafAddr (s.pushed q).mem r v = some a := by rw [ht.leafAddr hr, ha]
    have hlw' := htab.leafWrite hr hv' ha' 0#64
    have hlw := ht.leafWrite hlw'
    obtain ⟨n, hn, hna⟩ := leafAddr_eq_some.mp ha
    obtain ⟨hnpage, hnown⟩ := hinv.tables.node hr (validPath_vpnPath v) hn
    have hout' : SameOutside (s.pushed q).mem (st64 (s.pushed q).mem a 0#64) n := by
      rw [← hna]
      exact sameOutside_st64 _ (Nat.mod_lt v (by norm_num))
    have hsame : ∀ {pg}, IsPage pg → pg ≠ q → pg ≠ n →
        SamePage s.mem (st64 (s.pushed q).mem a 0#64) pg := fun hpg hne hne' =>
      (hout.samePage hpage.1 hpg.1 hne).trans (hout'.samePage hnpage.1 hpg.1 hne')
    rw [wp_kfree_last hpage (by rw [hcnt, hone]; rfl)]
    refine ⟨⟨update own q .free, ⟨?_, ?_⟩, ?_⟩, LeafWrite.framed hlw ?_ ?_, ?_,
      hlw.leaf hr, rfl⟩
    · apply hinv.tables.of_leafWrite hlw (Or.inl rfl)
      apply sameNodes_update hnode
      nofun
    · apply hinv.pages.detachLast hlw hr hv hq ptePage_zero hone <;> rfl
    · intro pg hpg k
      rw [← hker pg hpg k]
      by_cases hne : pg = q
      · subst hne
        rw [update_self, hown]
        simp
      · rw [update_of_ne hne]
    · intro j t u pg ht' hu hne hp
      obtain ⟨hpg, hu'⟩ := hinv.pages.user ht' hu hp
      apply hsame hpg
      · rintro rfl
        exact hne (eq_of_mapCount_eq_one hone hr hv ht' hu hq hp)
      · rintro rfl
        rw [hnown] at hu'
        cases hu'
    · intro pg hpg hk
      obtain ⟨b, hb⟩ := Option.ne_none_iff_exists'.mp hk
      have hb' := (hker pg hpg b).mpr hb
      apply hsame hpg
      · rintro rfl
        rw [hown] at hb'
        cases hb'
      · rintro rfl
        rw [hnown] at hb'
        cases hb'
    · exact hlw.leafAddr hr

end

end Xv6
