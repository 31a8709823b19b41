import Xv6.Kernel.Places

/-!
# What the allocator and `walk` do

Specifications of `kalloc`, `kfree` and `walk` over the invariant `MemInv`: none of them panics,
and the only failure is that no page is left. Callers never unfold them.
-/

namespace Xv6

open Function Lib

variable [Layout] {ι κ : Type} {E : Panic → Prop} {a pa r va q : Nat} {Q : Unit → Phys → Prop}
  {k : κ} {i : ι}

/-! ### Primitive commands -/

section Primitive

variable {s : Phys}

omit [Layout] in
@[simp] lemma wp_ldPte {Q : Pte → Phys → Prop} : wp (ldPte a) E Q s ↔ Q (ld64 s.mem a) s := Iff.rfl

omit [Layout] in
@[simp] lemma wp_stPte {v : Pte} :
    wp (stPte a v) E Q s ↔ Q () { s with mem := st64 s.mem a v } := Iff.rfl

omit [Layout] in
@[simp] lemma wp_fillPage {c : UInt8} :
    wp (fillPage pa c) E Q s ↔ Q () { s with mem := memset s.mem pa c PGSIZE } := Iff.rfl

lemma wp_refcntInit (h : IsPage pa) : wp (refcntInit pa) E Q s ↔ Q () (s.setRefcnt pa 1) := by
  simp [refcntInit, h]

lemma wp_refcntInc (h : IsPage pa) :
    wp (refcntInc pa) E Q s ↔ Q () (s.setRefcnt pa (s.pgRefcnt pa + 1)) := by
  simp [refcntInc, h]

lemma wp_refcntDec (h : IsPage pa) :
    wp (refcntDec pa) E Q s ↔ Q () (s.setRefcnt pa (s.pgRefcnt pa - 1)) := by
  simp [refcntDec, h]

lemma wp_getRefcnt (h : IsPage pa) {Q : Int → Phys → Prop} :
    wp (getRefcnt pa) E Q s ↔ Q (s.pgRefcnt pa) s := by
  simp [getRefcnt, h]

/-- `walk` without allocation, as a rule. -/
lemma wp_walk_false (h : va < MAXVA) {Q : Option Nat → Phys → Prop} :
    wp (walk r va false) E Q s ↔ Q (leafAddr s.mem r (va / PGSIZE)) s :=
  wp_of_run (run_walk_false h s)

end Primitive

/-! ### The allocator -/

variable [Fintype ι] {s : Phys} {roots : ι → Option Nat} {ker : Nat → Option κ}

/-- `kalloc` hands out a page that was free, unless there is none. -/
lemma kalloc_spec (h : MemInv s roots ker) (k : κ) :
    wp kalloc E (fun res s' =>
      (res = none ∧ s.freelist = [] ∧ s' = { s with nomem := s.nomem + 1 }) ∨
      ∃ q, res = some q ∧ IsPage q ∧ ker q = none ∧ s'.nomem = s.nomem ∧
        MemInv s' roots (update ker q (some k)) ∧
        SameTables s.mem s'.mem roots ∧ Quiet s s' roots ker) s := by
  obtain ⟨own, hinv, hker⟩ := h
  unfold kalloc
  simp only [wp_bind, wp_get]
  cases hf : s.freelist with
  | nil => exact Or.inl ⟨rfl, rfl, rfl⟩
  | cons q rest =>
    obtain ⟨hq, hown⟩ := hinv.pages.free.mp (by rw [hf]; exact List.mem_cons_self)
    simp only [wp_bind, wp_set, wp_refcntInit hq, wp_fillPage, wp_pure]
    set s' : Phys := { ({ s with freelist := rest } : Phys).setRefcnt q 1 with
      mem := memset s.mem q 5 PGSIZE } with hs'
    have hm : SameOutside s.mem s'.mem q := sameOutside_memset _ _ _
    have hkq : ker q = none := by
      cases hk : ker q with
      | none => rfl
      | some a =>
        have := (hker q hq a).mpr hk
        rw [hown] at this
        cases this
    have hnode : ∀ i path, own q ≠ .node i path := by simp [hown]
    have ht := hinv.tables.sameTables hm hq.1 (fun i _ _ path => hnode i path)
    refine Or.inr ⟨q, rfl, hq, hkq, rfl, ⟨_, hinv.take hf k hm rfl ?_ ?_, ker_update hker ?_⟩, ht,
      ht.leaves, ?_, ?_⟩
    · exact Phys.pgRefcnt_setRefcnt_self { s with freelist := rest } q 1
    · intro pg hpg hne
      exact Phys.pgRefcnt_setRefcnt_of_ne { s with freelist := rest } hq hpg hne 1
    · intro a
      simp
    · intro i r v pg hr hv hp
      obtain ⟨hpg, hu⟩ := hinv.pages.user hr hv hp
      apply hm.samePage hq.1 hpg.1
      rintro rfl
      rw [hown] at hu
      cases hu
    · intro pg hpg hne
      apply hm.samePage hq.1 hpg.1
      rintro rfl
      exact hne hkq

/-- The memory and the free list after `kfree` has pushed a page. -/
def Phys.pushed (s : Phys) (q : Nat) : Phys :=
  { s with
    mem := (memset s.mem q 1 PGSIZE).store q 8 (s.freelist.headD 0)
    freelist := q :: s.freelist }

omit [Layout] in
lemma Phys.sameOutside_pushed (s : Phys) (q : Nat) : SameOutside s.mem (s.pushed q).mem q :=
  (sameOutside_memset _ _ _).trans (sameOutside_store (le_refl q) (by unfold PGSIZE; omega))

/-- `kfree` on a page with more than one reference. -/
lemma wp_kfree_shared (hq : IsPage q) (hcnt : 1 < s.pgRefcnt q) :
    wp (kfree q) E Q s ↔ Q () (s.setRefcnt q (s.pgRefcnt q - 1)) := by
  simp only [kfree, wp_bind, wp_panicIf, wp_getRefcnt hq, hq, not_true_eq_false, false_imp_iff,
    true_and, not_false_eq_true, true_imp_iff, gt_iff_lt, if_pos hcnt, wp_refcntDec hq]

/-- `kfree` on a page with at most one reference. -/
lemma wp_kfree_last (hq : IsPage q) (hcnt : s.pgRefcnt q ≤ 1) :
    wp (kfree q) E Q s ↔ Q () (s.pushed q) := by
  have hlt : ¬1 < s.pgRefcnt q := by omega
  simp only [kfree, wp_bind, wp_panicIf, wp_getRefcnt hq, hq, not_true_eq_false, false_imp_iff,
    true_and, not_false_eq_true, true_imp_iff, gt_iff_lt, if_neg hlt, wp_fillPage, wp_modify]
  rfl

/-- A page that the kernel held is pushed on the free list. -/
lemma MemInv.pushed (h : MemInv s roots ker) (hq : IsPage q) (hk : ker q = some k) :
    MemInv (s.pushed q) roots (update ker q none) ∧
      SameTables s.mem (s.pushed q).mem roots ∧
      Quiet s (s.pushed q) roots (update ker q none) := by
  obtain ⟨-, ht, hquiet⟩ := h.write hq hk (s.sameOutside_pushed q)
  obtain ⟨own, hinv, hker⟩ := h
  have hown := (hker q hq k).mpr hk
  refine ⟨⟨_, hinv.give hq hown (s.sameOutside_pushed q) rfl rfl, ker_update hker ?_⟩, ht,
    hquiet.leaves, hquiet.data, hquiet.held⟩
  intro a
  simp

/-- `kalloc` hands out the first page of the free list. -/
lemma kalloc_freelist (h : MemInv s roots ker) :
    wp kalloc E (fun res s' => res = s.freelist.head? ∧ s'.freelist = s.freelist.tail) s := by
  obtain ⟨own, hinv, -⟩ := h
  unfold kalloc
  simp only [wp_bind, wp_get]
  cases hf : s.freelist with
  | nil => exact ⟨rfl, rfl⟩
  | cons q rest =>
    obtain ⟨hq, -⟩ := hinv.pages.free.mp (by rw [hf]; exact List.mem_cons_self)
    simp only [wp_bind, wp_set, wp_refcntInit hq, wp_fillPage, wp_pure]
    exact ⟨rfl, rfl⟩

/-- `kfree` on a page that the kernel holds puts it back on the free list. -/
lemma kfree_spec (h : MemInv s roots ker) (hq : IsPage q) (hk : ker q = some k) :
    wp (kfree q) E (fun _ s' => s'.nomem = s.nomem ∧
      MemInv s' roots (update ker q none) ∧
      Quiet s s' roots (update ker q none) ∧ SameTables s.mem s'.mem roots) s := by
  have hcnt : s.pgRefcnt q ≤ 1 := by
    obtain ⟨own, hinv, hker⟩ := h
    exact (hinv.pages.held hq (Or.inr ⟨k, (hker q hq k).mpr hk⟩)).le
  obtain ⟨h1, ht, h2⟩ := h.pushed hq hk
  rw [wp_kfree_last hq hcnt]
  exact ⟨rfl, h1, h2, ht⟩

/-! ### `walk` with allocation -/

omit [Layout] [Fintype ι] in
lemma ker_restore (h : ker q = none) (x : Option κ) : update (update ker q x) q none = ker := by
  rw [update_idem, update_eq_self_iff, h]

omit [Layout] [Fintype ι] in
lemma ker_mono (h : ker q = none) (x : Option κ) (pg : Nat) (hpg : ker pg ≠ none) :
    update ker q x pg ≠ none := by
  rwa [update_of_ne]
  rintro rfl
  exact hpg h

/-- A table page is linked into table `i`. -/
lemma MemInv.link (h : MemInv s roots ker) {n k : Nat} {p : List Nat} (hr : roots i = some r)
    (hp : ValidPath p) (hlen : p.length < 2) (hn : nodeAt s.mem r p = some n) (hk : k < 512)
    (hempty : ptePage (ld64 s.mem (n + 8 * k)) = none) (hq : IsPage q) {a : κ}
    (hkq : ker q = some a) (hzero : EmptyNode s.mem q) :
    MemInv { s with mem := st64 s.mem (n + 8 * k) (pa2pte q ||| PTE_V) } roots
        (update ker q none) ∧
      Quiet s { s with mem := st64 s.mem (n + 8 * k) (pa2pte q ||| PTE_V) } roots ker ∧
      nodeAt (st64 s.mem (n + 8 * k) (pa2pte q ||| PTE_V)) r (p ++ [k]) = some q ∧
      ∀ v, Placed s.mem (st64 s.mem (n + 8 * k) (pa2pte q ||| PTE_V)) roots
        (Within i v (v + 1)) := by
  obtain ⟨own, hinv, hker⟩ := h
  obtain ⟨h1, hleaves, hat⟩ :=
    hinv.link hr hp hlen hn hk hempty hq ((hker q hq a).mpr hkq) hzero
  obtain ⟨hnpage, hnown⟩ := hinv.tables.node hr hp hn
  have hout := sameOutside_st64 (m := s.mem) (n := n) (pa2pte q ||| PTE_V) hk
  -- only the place of the new node has changed
  have hcat : nodeAt s.mem r (p ++ [k]) = none := by
    rw [nodeAt_concat, hn, Option.bind_some, hempty]
  have hnode : ∀ {j t path}, roots j = some t → ValidPath path → (j, path) ≠ (i, p ++ [k]) →
      nodeAt (st64 s.mem (n + 8 * k) (pa2pte q ||| PTE_V)) t path = nodeAt s.mem t path := by
    intro j t path ht hpath
    refine (hinv.tables.nodeAt_setEntry hr hp hn hk (fun c hc => ?_) (fun c hc => ?_) ht path
      hpath).2
    · rw [hempty] at hc
      cases hc
    · rw [ptePage_pointer hq, Option.some.injEq] at hc
      subst hc
      refine ⟨hq.1, ?_, hzero⟩
      rintro rfl
      rw [(hker q hq a).mpr hkq] at hnown
      cases hnown
  refine ⟨⟨_, h1, ker_update hker (by simp)⟩, ⟨hleaves, ?_, ?_⟩, hat, fun v => ⟨?_, ?_, ?_⟩⟩
  · intro j t v pg ht hv hpg
    obtain ⟨hpage, hu⟩ := hinv.pages.user ht hv hpg
    apply hout.samePage hnpage.1 hpage.1
    rintro rfl
    rw [hnown] at hu
    cases hu
  · intro pg hpage hne
    apply hout.samePage hnpage.1 hpage.1
    rintro rfl
    obtain ⟨b, hb⟩ := Option.ne_none_iff_exists'.mp hne
    have := (hker pg hpage b).mpr hb
    rw [hnown] at this
    cases this
  · intro j t path c ht hpath hc
    rw [hnode ht hpath, hc]
    intro he
    obtain ⟨rfl, rfl⟩ := Prod.mk.inj he
    rw [hr, Option.some.injEq] at ht
    subst ht
    rw [hcat] at hc
    cases hc
  · intro j t path ht hP hpath
    refine hnode ht hpath fun he => hP v ?_
    exact ⟨(Prod.mk.inj he).1, le_refl v, Nat.lt_succ_self v⟩
  · intro j t u ht _ _
    exact hleaves ht u

/-- The indices that lead to the node at a level. -/
def walkPath (va level : Nat) : List Nat := (vpnPath (va / PGSIZE)).take (2 - level)

omit [Layout] in
lemma walkPath_concat (va : Nat) {level : Nat} (h : level < 2) :
    walkPath va level = walkPath va (level + 1) ++ [px (level + 1) va] := by
  interval_cases level
  · rw [px_one]; rfl
  · rw [px_two]; rfl

omit [Layout] in
lemma validPath_walkPath (va level : Nat) : ValidPath (walkPath va level) :=
  (validPath_vpnPath _).of_isPrefix (List.take_prefix _ _)

omit [Layout] in
lemma length_walkPath (va level : Nat) : (walkPath va level).length = 2 - level := by
  rw [walkPath, List.length_take, show (vpnPath (va / PGSIZE)).length = 2 from rfl]
  omega

/-- What `walk` with allocation leaves: the entry's address, or one more failed `kalloc`. -/
def WalkPost (s : Phys) (roots : ι → Option Nat) (ker : Nat → Option κ) (r v : Nat)
    (res : Option Nat) (s' : Phys) : Prop :=
  MemInv s' roots ker ∧ Quiet s s' roots ker ∧
    ((res = none ∧ s.nomem < s'.nomem) ∨
      ∃ a, res = some a ∧ leafAddr s'.mem r v = some a ∧ s'.nomem = s.nomem)

lemma WalkPost.mono {s' s'' : Phys} {v : Nat} {res : Option Nat}
    (h : WalkPost s' roots ker r v res s'') (hq : Quiet s s' roots ker) (hno : s'.nomem = s.nomem) :
    WalkPost s roots ker r v res s'' := by
  obtain ⟨h1, h2, h3⟩ := h
  exact ⟨h1, hq.trans h2, by rw [← hno]; exact h3⟩

variable [Inhabited κ]

lemma walkFrom_spec (hr : roots i = some r) : ∀ {level n : Nat} {s : Phys},
    level ≤ 2 → MemInv s roots ker → nodeAt s.mem r (walkPath va level) = some n →
    wp (walkFrom va true level n) E (fun res s' => WalkPost s roots ker r (va / PGSIZE) res s' ∧
      Placed s.mem s'.mem roots (Within i (va / PGSIZE) (va / PGSIZE + 1))) s := by
  intro level
  induction level with
  | zero =>
    intro n s _ h hn
    refine ⟨⟨h, Quiet.refl _ _ _, Or.inr ⟨_, rfl, ?_, rfl⟩⟩, .refl _ _ _⟩
    rw [leafAddr_eq_some]
    exact ⟨n, hn, by rw [px_zero]⟩
  | succ level ih =>
    intro n s hlevel h hn
    have hpath := walkPath_concat va (show level < 2 by omega)
    have hvalid := validPath_walkPath va (level + 1)
    have hlen : (walkPath va (level + 1)).length < 2 := by rw [length_walkPath]; omega
    have hpx := px_lt (level + 1) va
    unfold walkFrom
    simp only [wp_bind, wp_ldPte, wp_ite, reduceCtorEq, false_imp_iff, true_and,
      not_false_eq_true, true_imp_iff]
    refine ⟨fun hV => ?_, fun hV => ?_⟩
    · -- the entry is there: follow it
      apply ih (by omega) h
      rw [hpath, nodeAt_concat, hn, Option.bind_some, ptePage, if_pos hV]
    · -- a new table page is needed
      have hempty : ptePage (ld64 s.mem (n + 8 * px (level + 1) va)) = none := by
        rw [ptePage, if_neg hV]
      refine wp_imp (kalloc_spec h default) ?_
      rintro res s1 (⟨rfl, -, rfl⟩ | ⟨q, rfl, hq, hkq, hno, h1, ht, hquiet⟩)
      · exact ⟨⟨h.setNomem _, quiet_of_mem_eq rfl, Or.inl ⟨rfl, Nat.lt_succ_self _⟩⟩,
          .refl _ _ _⟩
      · simp only [wp_bind, wp_fillPage, wp_stPte]
        have hk1 : update ker q (some default) q = some default :=
          update_self ..
        obtain ⟨h2, ht2, hquiet2⟩ := h1.write hq hk1 (sameOutside_memset s1.mem q 0)
        have htab : SameTables s1.mem (memset s1.mem q 0 PGSIZE) roots := ht2
        have hn2 : nodeAt (memset s1.mem q 0 PGSIZE) r (walkPath va (level + 1)) = some n := by
          rw [htab.node hr hvalid, ht.node hr hvalid, hn]
        have hempty2 : ptePage (ld64 (memset s1.mem q 0 PGSIZE) (n + 8 * px (level + 1) va))
            = none := by
          have hn1 : nodeAt s1.mem r (walkPath va (level + 1)) = some n := by
            rw [ht.node hr hvalid, hn]
          rw [htab.word hr hvalid hn1 hpx, ht.word hr hvalid hn hpx, hempty]
        obtain ⟨h3, hquiet3, hat, hplaced3⟩ :=
          h2.link hr hvalid hlen hn2 hpx hempty2 hq hk1 (emptyNode_memset _ _)
        rw [ker_restore hkq] at h3 hquiet2
        refine wp_imp (ih (by omega) h3 (by rw [hpath]; exact hat)) ?_
        rintro res s4 ⟨hpost, hplaced⟩
        exact ⟨hpost.mono ((hquiet.trans hquiet2).trans (hquiet3.mono (ker_mono hkq _))) hno,
          (((ht.trans htab).placed _).trans (hplaced3 _)).trans hplaced⟩

lemma walk_spec (h : MemInv s roots ker) (hr : roots i = some r) (hva : va < MAXVA) :
    wp (walk r va true) E (fun res s' => WalkPost s roots ker r (va / PGSIZE) res s' ∧
      Placed s.mem s'.mem roots (Within i (va / PGSIZE) (va / PGSIZE + 1))) s := by
  have hnot : ¬va ≥ MAXVA := by omega
  simp only [walk, wp_bind, wp_panicIf, hnot, false_imp_iff, true_and, not_false_eq_true,
    true_imp_iff]
  exact walkFrom_spec hr (le_refl 2) h rfl

end Xv6
