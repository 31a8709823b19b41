import Xv6.Kernel.GrowSpec

/-!
# What creating and tearing down a table does

Specifications of `uvmcreate`, `freewalk` and `uvmfree`. `freewalk` frees a table page while the
entry above still points to it and clears the entry only afterwards; the two writes are on
different pages, so the order does not matter.
-/

namespace Xv6

open Function Lib

/-- Pushing a page and writing a word of another page commute. -/
lemma Phys.pushed_st64 (s : Phys) {c n k : Nat} (hc : c % PGSIZE = 0) (hn : n % PGSIZE = 0)
    (hne : n ≠ c) (hk : k < 512) (w : Pte) :
    { s.pushed c with mem := st64 (s.pushed c).mem (n + 8 * k) w }
      = ({ s with mem := st64 s.mem (n + 8 * k) w } : Phys).pushed c := by
  have hmem : ∀ f, st64 ((memset s.mem c 1 PGSIZE).store c 8 f) (n + 8 * k) w
      = (memset (st64 s.mem (n + 8 * k) w) c 1 PGSIZE).store c 8 f := by
    intro f
    funext x
    unfold st64
    simp only [Mem.store, memset_apply]
    unfold PGSIZE at *
    split_ifs <;> first | rfl | omega
  simp only [Phys.pushed, hmem]

/-- A pointer to a table has none of the flags of a leaf. -/
lemma hasFlag_pointer (c : Nat) :
    hasFlag (pa2pte c ||| PTE_V) (PTE_R ||| PTE_W ||| PTE_X) = false := by
  unfold hasFlag
  rw [bne_eq_false_iff_eq]
  apply BitVec.eq_of_getLsbD_eq
  intro j _
  by_cases hj : j < 10
  · have h0 : ¬(j = 0 ∧ (j = 1 ∨ j = 2 ∨ j = 3)) := by omega
    simp only [BitVec.getLsbD_and, BitVec.getLsbD_or, getLsbD_pa2pte_of_lt c hj, getLsbD_PTE_V,
      getLsbD_PTE_R, getLsbD_PTE_W, getLsbD_PTE_X, BitVec.getLsbD_zero, Bool.false_or]
    rw [← Bool.decide_or, ← Bool.decide_or, ← Bool.decide_and, decide_eq_false_iff_not]
    omega
  · have h1 : j ≠ 1 := by omega
    have h2 : j ≠ 2 := by omega
    have h3 : j ≠ 3 := by omega
    simp [h1, h2, h3]

variable {ι κ : Type} [Layout] [Fintype ι] {E : Panic → Prop} {s s' s'' : Phys}
  {roots : ι → Option Nat} {ker : Nat → Option κ} {own own' own'' : Nat → Owner ι κ} {i : ι}
  {r n : Nat} {p : List Nat} {e v : Nat}

omit [Fintype ι] in
/-- Tables whose pages keep their bytes read the same. -/
lemma NodeInv.sameTables_of_samePage {m m' : Mem} (h : NodeInv m roots own)
    {roots' : ι → Option Nat} (hroots : ∀ j t, roots' j = some t → roots j = some t)
    (hsame : ∀ {j t path pg}, roots' j = some t → IsPage pg → own pg = .node j path →
      SamePage m m' pg) : SameTables m m' roots' := by
  have hword : ∀ {j t path n k}, roots' j = some t → ValidPath path → nodeAt m t path = some n →
      k < 512 → ld64 m' (n + 8 * k) = ld64 m (n + 8 * k) := by
    intro j t path n k ht hp hn hk
    obtain ⟨hpage, hown⟩ := h.node (hroots j t ht) hp hn
    apply ld64_congr
    intro x hx hx'
    obtain ⟨o, rfl⟩ := Nat.exists_eq_add_of_le (show n ≤ x by omega)
    apply hsame ht hpage hown
    unfold PGSIZE
    omega
  refine ⟨?_, hword⟩
  intro j t path ht hp
  induction path using List.reverseRecOn with
  | nil => rfl
  | append_singleton q l ih =>
    have hq : ValidPath q := hp.of_isPrefix (List.prefix_append q [l])
    rw [nodeAt_concat, nodeAt_concat, ih hq]
    cases hc : nodeAt m t q with
    | none => rfl
    | some c => rw [Option.bind_some, Option.bind_some, hword ht hq hc (hp.2 l (by simp))]

/-- The tables below the node `n` at `p` are gone, or some of them are; nothing else changed but
entries of `n`. -/
structure Pruned (s : Phys) (own : Nat → Owner ι κ) (s' : Phys) (own' : Nat → Owner ι κ)
    (roots : ι → Option Nat) (i : ι) (p : List Nat) (n : Nat) : Prop where
  inv : PhysInv s' roots own'
  rest : ∀ {pg}, IsPage pg → (∀ q, own pg ≠ .node i (p ++ q)) →
    own' pg = own pg ∧ SamePage s.mem s'.mem pg
  kernel : ∀ {pg k}, IsPage pg → own' pg = .kernel k → own pg = .kernel k
  self : own' n = .node i p
  leaves : SameLeaves s.mem s'.mem roots
  nomem : s'.nomem = s.nomem

lemma Pruned.refl (h : PhysInv s roots own) (hn : own n = .node i p) :
    Pruned s own s own roots i p n :=
  ⟨h, fun _ _ => ⟨rfl, SamePage.refl _ _⟩, fun _ hk => hk, hn, fun _ _ _ _ => rfl, rfl⟩

lemma Pruned.trans (h : Pruned s own s' own' roots i p n)
    (h' : Pruned s' own' s'' own'' roots i p n) : Pruned s own s'' own'' roots i p n := by
  refine ⟨h'.inv, ?_, fun hpg hk => h.kernel hpg (h'.kernel hpg hk), h'.self,
    h.leaves.trans h'.leaves, h'.nomem.trans h.nomem⟩
  intro pg hpg hout
  obtain ⟨h1, h2⟩ := h.rest hpg hout
  obtain ⟨h3, h4⟩ := h'.rest hpg (by rw [h1]; exact hout)
  exact ⟨h3.trans h1, h2.trans h4⟩

omit [Layout] [Fintype ι] in
/-- A node is not below one of its entries. -/
lemma not_below (hn : own n = .node i p) (e : Nat) (q : List Nat) :
    own n ≠ .node i (p ++ [e] ++ q) := by
  rw [hn]
  intro hc
  have := congrArg List.length (Owner.node.inj hc).2
  simp at this

/-- One turn of `freewalk`: the table `c` below entry `e` has been emptied and pushed, and now
the entry is cleared. -/
lemma Pruned.turn [Inhabited κ] (hr : roots i = some r) (hp : ValidPath p) (hlen : p.length < 2)
    (hnpage : IsPage n) (hn : own n = .node i p) {c : Nat} (he : e < 512)
    (hentry : ptePage (ld64 s.mem (n + 8 * e)) = some c)
    (hpr : Pruned s own s' own' roots i (p ++ [e]) c) (hempty : EmptyNode s'.mem c) :
    ∃ own'', Pruned s own { s'.pushed c with mem := st64 (s'.pushed c).mem (n + 8 * e) 0#64 } own''
        roots i p n ∧
      ∀ k < 512, ld64 (st64 (s'.pushed c).mem (n + 8 * e) 0#64) (n + 8 * k)
        = if k = e then 0#64 else ld64 s.mem (n + 8 * k) := by
  -- the child's teardown did not touch `n`
  obtain ⟨hn', hsame⟩ := hpr.rest hnpage (not_below hn e)
  rw [hn] at hn'
  obtain ⟨-, t, ht, hat⟩ := hpr.inv.tables.covered hnpage hn'
  rw [hr, Option.some.injEq] at ht
  subst ht
  have hword : ∀ k < 512, ld64 s'.mem (n + 8 * k) = ld64 s.mem (n + 8 * k) := by
    intro k hk
    apply ld64_congr
    intro x hx hx'
    obtain ⟨o, rfl⟩ := Nat.exists_eq_add_of_le (show n ≤ x by omega)
    apply hsame
    unfold PGSIZE
    omega
  have hentry' : ptePage (ld64 s'.mem (n + 8 * e)) = some c := by rw [hword e he, hentry]
  have hcat : nodeAt s'.mem r (p ++ [e]) = some c := by
    rw [nodeAt_concat, hat, Option.bind_some, hentry']
  obtain ⟨hcpage, hcown⟩ := hpr.inv.tables.node hr (hp.concat hlen he) hcat
  have hne : n ≠ c := by
    rintro rfl
    rw [hn', Owner.node.injEq] at hcown
    have := congrArg List.length hcown.2
    simp at this
  obtain ⟨hinv1, hleaves1, -⟩ :=
    hpr.inv.unlink hr hp hlen hat he hentry' hempty (default : κ)
  have hinv2 := hinv1.give hcpage (update_self ..)
    (Phys.sameOutside_pushed { s' with mem := st64 s'.mem (n + 8 * e) 0#64 } c) rfl rfl
  rw [update_idem] at hinv2
  rw [← Phys.pushed_st64 s' hcpage.1 hnpage.1 hne he] at hinv2
  have hout1 := s'.sameOutside_pushed c
  have hout2 : SameOutside (s'.pushed c).mem (st64 (s'.pushed c).mem (n + 8 * e) 0#64) n :=
    sameOutside_st64 _ he
  refine ⟨update own' c .free, ⟨hinv2, ?_, ?_, ?_, ?_, hpr.nomem⟩, ?_⟩
  · intro pg hpg hout
    obtain ⟨h1, h2⟩ := hpr.rest hpg (fun q => by rw [List.append_assoc]; exact hout ([e] ++ q))
    have hpc : pg ≠ c := by
      rintro rfl
      exact hout [e] (by rw [← h1, hcown])
    have hpn : pg ≠ n := by
      rintro rfl
      exact hout [] (by rw [hn, List.append_nil])
    refine ⟨by rw [update_of_ne hpc, h1], h2.trans ?_⟩
    exact (hout1.samePage hcpage.1 hpg.1 hpc).trans (hout2.samePage hnpage.1 hpg.1 hpn)
  · intro pg k hpg hk
    by_cases hpc : pg = c
    · subst hpc
      rw [update_self] at hk
      cases hk
    · rw [update_of_ne hpc] at hk
      exact hpr.kernel hpg hk
  · rw [update_of_ne hne, hn']
  · apply hpr.leaves.trans
    rw [Phys.pushed_st64 s' hcpage.1 hnpage.1 hne he]
    have ht2 := hinv1.tables.sameTables
      (Phys.sameOutside_pushed { s' with mem := st64 s'.mem (n + 8 * e) 0#64 } c) hcpage.1 (by
        intro j _ _ path hc
        rw [update_self] at hc
        cases hc)
    exact hleaves1.trans ht2.leaves
  · intro k hk
    by_cases hke : k = e
    · subst hke
      rw [if_pos rfl, ld64_st64]
    · rw [if_neg hke, ld64_st64_of_ne (by omega), hout1.ld64 hcpage.1 hnpage.1 hne hk, hword k hk]

/-- A table without leaves. -/
def NoLeaves (m : Mem) (r : Nat) : Prop := ∀ v < 2 ^ 27, leafPte m r v = 0#64

/-- In a table without leaves an entry is empty or points to a table further down. -/
lemma PhysInv.entry_cases (h : PhysInv s roots own) (hr : roots i = some r) (hno : NoLeaves s.mem r)
    (hp : ValidPath p) (hn : nodeAt s.mem r p = some n) (he : e < 512) :
    ld64 s.mem (n + 8 * e) = 0#64 ∨ p.length < 2 ∧ ∃ c, IsPage c ∧
      ld64 s.mem (n + 8 * e) = pa2pte c ||| PTE_V ∧ own c = .node i (p ++ [e]) := by
  rcases Nat.lt_or_ge p.length 2 with hlen | hlen
  · rcases h.tables.entry hr hp hlen hn he with hz | ⟨c, hmod, hlt, hc⟩
    · exact Or.inl hz
    · have hpage : ptePage (ld64 s.mem (n + 8 * e)) = some c := by
        rw [hc, ptePage_eq_some]
        refine ⟨by simp, pte2pa_or_flags hmod hlt ?_⟩
        intro j hj
        rw [getLsbD_PTE_V, decide_eq_false_iff_not]
        omega
      have hcat : nodeAt s.mem r (p ++ [e]) = some c := by
        rw [nodeAt_concat, hn, Option.bind_some, hpage]
      obtain ⟨h1, h2⟩ := h.tables.node hr (hp.concat hlen he) hcat
      exact Or.inr ⟨hlen, c, h1, hc, h2⟩
  · -- an entry of a lowest table is a leaf
    left
    obtain ⟨v, hv, haddr⟩ := exists_leafAddr_eq hp hlen hn he
    rw [← leafPte_of_leafAddr haddr]
    exact hno v hv

variable [Inhabited κ]

/-- The loop of `freewalk` empties a node, given that the recursive call empties and pushes the
tables below. -/
lemma freewalkFrom_spec (hr : roots i = some r) (hp : ValidPath p) (hnpage : IsPage n)
    {free : Nat → PhysM Unit}
    (hfree : ∀ {s : Phys} {own : Nat → Owner ι κ} {c e}, PhysInv s roots own → NoLeaves s.mem r →
      p.length < 2 → e < 512 →
      IsPage c → own c = .node i (p ++ [e]) →
      wp (free c) E (fun _ s' => ∃ s₁ own₁, Pruned s own s₁ own₁ roots i (p ++ [e]) c ∧
        EmptyNode s₁.mem c ∧ s' = s₁.pushed c) s) :
    ∀ {k e : Nat} {s : Phys} {own : Nat → Owner ι κ}, e + k = 512 → PhysInv s roots own →
      NoLeaves s.mem r → own n = .node i p → (∀ l < e, ld64 s.mem (n + 8 * l) = 0#64) →
      wp (freewalkFrom free n k e) E (fun _ s' => ∃ own', Pruned s own s' own' roots i p n ∧
        EmptyNode s'.mem n) s := by
  intro k
  induction k with
  | zero =>
    intro e s own hek h _ hn hzero
    exact ⟨own, Pruned.refl h hn, fun l hl => hzero l (by omega)⟩
  | succ k ih =>
    intro e s own hek h hno hn hzero
    obtain ⟨-, t, ht, hat⟩ := h.tables.covered hnpage hn
    rw [hr, Option.some.injEq] at ht
    subst ht
    have he : e < 512 := by omega
    unfold freewalkFrom
    rw [wp_bind, wp_ldPte]
    rcases h.entry_cases hr hno hp hat he with hz | ⟨hlen, c, hcpage, hc, hcown⟩
    · rw [hz]
      simp only [hasFlag_V, BitVec.getLsbD_zero, Bool.false_and, Bool.false_eq_true, if_false]
      apply ih (by omega) h hno hn
      intro l hl
      by_cases hle : l = e
      · rw [hle, hz]
      · exact hzero l (by omega)
    · have hV : (pa2pte c ||| PTE_V).getLsbD 0 = true := by simp
      have hpage := ptePage_pointer hcpage
      rw [hc]
      simp only [hasFlag_V, hV, hasFlag_pointer, Bool.not_false, Bool.and_self, if_true, wp_bind,
        wp_stPte, (ptePage_eq_some.mp hpage).2]
      refine wp_imp (hfree h hno hlen he hcpage hcown) ?_
      rintro - s' ⟨s₁, own₁, hpr, hempty, rfl⟩
      obtain ⟨own₂, hpr2, hwords⟩ :=
        Pruned.turn hr hp hlen hnpage hn he (by rw [hc, hpage]) hpr hempty
      refine wp_imp (ih (by omega) hpr2.inv ?_ hpr2.self ?_) ?_
      · intro v hv
        rw [hpr2.leaves hr]
        exact hno v hv
      · intro l hl
        show ld64 (st64 (s₁.pushed c).mem (n + 8 * e) 0#64) (n + 8 * l) = 0#64
        rw [hwords l (by omega)]
        split_ifs with hle
        · rfl
        · exact hzero l (by omega)
      · rintro - s₃ ⟨own₃, hpr3, hempty3⟩
        exact ⟨own₃, hpr2.trans hpr3, hempty3⟩

/-- `freewalk` on the node `n` at `p`: everything below is freed, and last the node itself. -/
lemma freewalk_node_spec (hr : roots i = some r) : ∀ {depth n : Nat} {p : List Nat} {s : Phys}
    {own : Nat → Owner ι κ}, depth + p.length = 3 → ValidPath p → IsPage n →
    PhysInv s roots own → NoLeaves s.mem r → own n = .node i p →
    wp (freewalk depth n) E (fun _ s' => ∃ s₁ own₁, Pruned s own s₁ own₁ roots i p n ∧
      EmptyNode s₁.mem n ∧ s' = s₁.pushed n) s := by
  intro depth
  induction depth with
  | zero =>
    intro n p s own hd hp
    have := hp.1
    omega
  | succ depth ih =>
    intro n p s own hd hp hnpage h hno hn
    unfold freewalk
    rw [wp_bind]
    refine wp_imp (freewalkFrom_spec hr hp hnpage ?_ (by omega) h hno hn (by simp)) ?_
    · intro s own c e h hno hlen he hcpage hcown
      exact ih (by simp; omega) (hp.concat hlen he) hcpage h hno hcown
    · rintro - s₁ ⟨own₁, hpr, hempty⟩
      rw [wp_kfree_last hnpage (hpr.inv.pages.held hnpage (Or.inl ⟨i, p, hpr.self⟩)).le]
      exact ⟨s₁, own₁, hpr, hempty, rfl⟩

section

variable (h : MemInv s roots ker)
include h

/-- `freewalk` on a table without leaves frees all of its pages. -/
lemma freewalk_spec [DecidableEq ι] (hr : roots i = some r) (hno : NoLeaves s.mem r) :
    wp (freewalk 3 r) E (fun _ s' => MemInv s' (update roots i none) ker ∧
      Quiet s s' (update roots i none) ker ∧
      SameTables s.mem s'.mem (update roots i none) ∧ s'.nomem = s.nomem) s := by
  obtain ⟨own, hinv, hker⟩ := h
  obtain ⟨hrpage, hrown⟩ := hinv.tables.isPage_root hr
  refine wp_imp (freewalk_node_spec hr (by simp) validPath_nil hrpage hinv hno hrown) ?_
  rintro - s' ⟨s₁, own₁, hpr, hempty, rfl⟩
  have hinv1 := hpr.inv.dropRoot hr hempty (default : κ)
  have hinv2 := hinv1.give hrpage (update_self ..) (s₁.sameOutside_pushed r) rfl rfl
  rw [update_idem] at hinv2
  have hout := s₁.sameOutside_pushed r
  have hcases : ∀ j t, update roots i none j = some t → j ≠ i ∧ roots j = some t := by
    intro j t ht
    by_cases hj : j = i
    · subst hj
      rw [update_self] at ht
      cases ht
    · rw [update_of_ne hj] at ht
      exact ⟨hj, ht⟩
  have hroots : ∀ {j t}, update roots i none j = some t → roots j = some t :=
    fun ht => (hcases _ _ ht).2
  have ht2 := hinv1.tables.sameTables hout hrpage.1 (by
    intro j _ _ path hc
    rw [update_self] at hc
    cases hc)
  -- pages that are no nodes of the table are as before
  have hsame : ∀ {pg}, IsPage pg → (∀ q, own pg ≠ .node i q) →
      SamePage s.mem (s₁.pushed r).mem pg := by
    intro pg hpg hnode
    apply (hpr.rest hpg (fun q => by rw [List.nil_append]; exact hnode q)).2.trans
    apply hout.samePage hrpage.1 hpg.1
    rintro rfl
    exact hnode [] hrown
  have htables : SameTables s.mem (s₁.pushed r).mem (update roots i none) := by
    refine hinv.tables.sameTables_of_samePage (fun _ _ ht => hroots ht) ?_
    intro j t path pg ht hpg hown
    refine hsame hpg fun q hc => (hcases j t ht).1 ?_
    rw [hown] at hc
    exact (Owner.node.inj hc).1
  refine ⟨⟨update own₁ r .free, hinv2, ?_⟩, ⟨?_, ?_, ?_⟩, htables, hpr.nomem⟩
  · intro pg hpg k
    rw [← hker pg hpg k]
    by_cases hne : pg = r
    · subst hne
      rw [update_self, hrown]
      exact iff_of_false nofun nofun
    · rw [update_of_ne hne]
      refine ⟨hpr.kernel hpg, fun hk => ?_⟩
      rw [(hpr.rest hpg (fun q => by rw [hk]; nofun)).1, hk]
  · intro j t ht v
    rw [ht2.leaves ht, hpr.leaves (hroots ht)]
  · intro j t v pg ht hv hp
    obtain ⟨hpg, hu⟩ := hinv.pages.user (hroots ht) hv hp
    exact hsame hpg (fun q => by rw [hu]; nofun)
  · intro pg hpg hk
    obtain ⟨b, hb⟩ := Option.ne_none_iff_exists'.mp hk
    exact hsame hpg (fun q => by rw [(hker pg hpg b).mpr hb]; nofun)

/-! ### `uvmcreate` -/

omit [Inhabited κ] in
/-- An empty page that the kernel held becomes the root of a new table. -/
lemma MemInv.newRoot [DecidableEq ι] (hi : roots i = none) {q : Nat} (hq : IsPage q) {k : κ}
    (hk : ker q = some k) (hempty : EmptyNode s.mem q) :
    MemInv s (update roots i (some q)) (update ker q none) := by
  obtain ⟨own, hinv, hker⟩ := h
  exact ⟨_, hinv.newRoot hi hq ((hker q hq k).mpr hk) hempty, ker_update hker (by simp)⟩

lemma uvmcreate_spec [DecidableEq ι] (hi : roots i = none) : wp uvmcreate E (fun res s' =>
      (res = none ∧ MemInv s' roots ker ∧ Quiet s s' roots ker ∧
        SameTables s.mem s'.mem roots ∧ s.nomem < s'.nomem) ∨
      ∃ q, res = some q ∧ MemInv s' (update roots i (some q)) ker ∧
        Quiet s s' roots ker ∧ SameTables s.mem s'.mem roots ∧ (∀ v, leafPte s'.mem q v = 0#64) ∧
          s'.nomem = s.nomem) s := by
  unfold uvmcreate
  rw [wp_bind]
  refine wp_imp (kalloc_spec h default) ?_
  rintro res s₁ (⟨rfl, -, rfl⟩ | ⟨q, rfl, hq, hkq, hno, h1, ht1, hquiet⟩)
  · exact Or.inl ⟨rfl, h.setNomem _, quiet_of_mem_eq rfl, ⟨fun _ _ => rfl, fun _ _ _ _ => rfl⟩,
      Nat.lt_succ_self _⟩
  · have hk1 : update ker q (some default) q = some default := update_self ..
    obtain ⟨h2, ht2, hquiet2⟩ := h1.write hq hk1 (sameOutside_memset s₁.mem q 0)
    rw [ker_restore hkq] at hquiet2
    have hempty := emptyNode_memset s₁.mem q
    simp only [wp_bind, wp_fillPage, wp_pure]
    refine Or.inr ⟨q, rfl, ?_, hquiet.trans hquiet2, ht1.trans ht2, fun v => hempty.leafPte v, hno⟩
    have h3 := h2.newRoot hi hq hk1 hempty
    rwa [ker_restore hkq] at h3

/-! ### Leaves above the user's part -/

/-- `mappages` of a page above the user's part. -/
lemma mappages_top_spec (hr : roots i = some r) {pa : Nat} {perm : Pte} (hv : NUSER ≤ v)
    (hv' : v < 2 ^ 26) (hzero : leafPte s.mem r v = 0#64) (hR : perm.getLsbD 1 = true)
    (hU : perm.getLsbD 4 = false) :
    wp (mappages r (v * PGSIZE) PGSIZE pa perm) E (fun res s' => MemInv s' roots ker ∧
      ((res = -1 ∧ Quiet s s' roots ker ∧ Placed s.mem s'.mem roots (Within i v (v + 1)) ∧
          s.nomem < s'.nomem) ∨
        (res = 0 ∧ Framed s s' roots ker (Within i v (v + 1)) ∧
          leafPte s'.mem r v = pa2pte pa ||| perm ||| PTE_V ∧ s'.nomem = s.nomem))) s := by
  have hva : v * PGSIZE < MAXVA := page_lt_MAXVA hv'
  have hdiv := page_div v
  apply mappages_spec h hr (Nat.mul_mod_left _ _) hva (by rw [hdiv, hzero, ptePage_zero])
  · intro s' h' hquiet hplaced hno
    rw [hdiv] at hplaced
    exact ⟨h', Or.inl ⟨rfl, hquiet, hplaced, hno⟩⟩
  · intro s' a h' hquiet hplaced hno ha
    rw [hdiv] at hplaced ha
    obtain ⟨h1, hframe, hleaf⟩ := h'.mapKernel hr hv (by omega) ha (leafOk_mapped pa hR)
      (by rw [getLsbD_mapped pa perm (by norm_num), hU]; rfl)
    exact ⟨h1, Or.inr ⟨rfl, (hquiet.framed hplaced).trans hframe, hleaf, hno⟩⟩

omit [Inhabited κ] in
/-- `uvmunmap` with `do_free = 0` of a page above the user's part. -/
lemma uvmunmap_top_spec (hr : roots i = some r) (hv : NUSER ≤ v) (hv' : v < 2 ^ 26)
    (hV : (leafPte s.mem r v).getLsbD 0 = true) :
    wp (uvmunmap r (v * PGSIZE) 1 false) E (fun _ s' => MemInv s' roots ker ∧
      Framed s s' roots ker (Within i v (v + 1)) ∧ leafPte s'.mem r v = 0#64 ∧
      s'.nomem = s.nomem) s := by
  have hva : v * PGSIZE < MAXVA := page_lt_MAXVA hv'
  have hdiv := page_div v
  have hal : ¬v * PGSIZE % PGSIZE ≠ 0 := by
    rw [not_not]
    exact Nat.mul_mod_left _ _
  have hbound : v * PGSIZE < (v * PGSIZE + 1 * PGSIZE) % 2 ^ 64 := by
    simp only [PGSIZE]
    omega
  have hnz : leafPte s.mem r v ≠ 0#64 := by
    intro hc
    rw [hc] at hV
    simp at hV
  obtain ⟨a, ha⟩ := exists_leafAddr hnz
  have hR : (leafPte s.mem r v).getLsbD 1 = true := by
    rcases h.leafOk hr (v := v) (by omega) with hz | ⟨-, hR⟩
    · exact absurd hz hnz
    · exact hR
  have hleaf : ¬pteFlags (leafPte s.mem r v) = PTE_V := by
    intro hc
    have := congrArg (fun b : Pte => b.getLsbD 1) hc
    simp only [getLsbD_pteFlags, hR, getLsbD_PTE_V] at this
    exact absurd this (by decide)
  obtain ⟨h1, hframe, hzero⟩ := h.mapKernel hr hv (by omega) ha (Or.inl rfl) (w := 0#64) (by simp)
  rw [leafPte_of_leafAddr ha] at hV hleaf
  simp only [uvmunmap, wp_bind, wp_panicIf, hal, false_imp_iff, true_and, not_false_eq_true,
    true_imp_iff]
  unfold uvmunmapFrom uvmunmapPage
  rw [if_pos hbound, wp_bind, wp_bind, wp_walk_false hva, hdiv, ha]
  simp only [wp_bind, wp_ldPte, wp_panicIf, hasFlag_V, hV, hleaf, Bool.not_true,
    Bool.false_eq_true, false_imp_iff, true_and, not_false_eq_true, true_imp_iff, if_false,
    wp_pure, wp_stPte]
  exact ⟨h1, hframe, hzero, rfl⟩

/-! ### `uvmfree` -/

omit [Inhabited κ] in
/-- A leaf that is not valid is 0. -/
lemma MemInv.leafPte_eq_zero (hr : roots i = some r) (hv : v < 2 ^ 27)
    (hnone : ptePage (leafPte s.mem r v) = none) : leafPte s.mem r v = 0#64 := by
  rcases h.leafOk hr hv with hz | ⟨hV, -⟩
  · exact hz
  · rw [ptePage, hasFlag_V, hV] at hnone
    cases hnone

/-- `uvmfree` frees an address space and its table. -/
lemma uvmfree_spec [DecidableEq ι] (hr : roots i = some r) {sz : Nat}
    (hspace : UserSpace s.mem r (pages sz))
    (htop : ∀ v, NUSER ≤ v → v < 2 ^ 27 → leafPte s.mem r v = 0#64) :
    wp (uvmfree r sz) E (fun _ s' => MemInv s' (update roots i none) ker ∧
      Framed s s' (update roots i none) ker (fun _ _ => False) ∧
      s'.nomem = s.nomem) s := by
  have hle := (h.userSpace_le hr hspace).trans npages_lt.le
  -- first the pages, then the table
  have hunmap : wp (if sz > 0 then uvmunmap r 0 (pgroundup sz / PGSIZE) true else pure ()) E
      (fun _ s' => MemInv s' roots ker ∧ Framed s s' roots ker (Within i 0 NUSER) ∧
        (∀ v < NUSER, view s'.mem r v = none) ∧ s'.nomem = s.nomem) s := by
    rw [wp_ite]
    refine ⟨fun _ => ?_, fun hz => ?_⟩
    · have hsz : sz + PGSIZE ≤ 2 ^ 64 := by
        have := NUSER_lt
        simp only [pages, PGSIZE] at hle ⊢
        omega
      rw [pgroundup_eq_pages hsz, Nat.mul_div_cancel _ (show 0 < PGSIZE by decide)]
      have hspec := uvmunmap_spec (E := E) h hr (v := 0) (n := pages sz) (by omega)
        (fun u _ hu => (hspace u (by omega)).mpr (by omega))
      simp only [Nat.zero_mul, Nat.zero_add, Nat.zero_le, true_imp_iff] at hspec
      refine wp_imp hspec ?_
      rintro - s' ⟨h', hframe, -, hnone, hno⟩
      refine ⟨h', hframe.weaken ?_, ?_, hno⟩
      · rintro j u ⟨rfl, h1, h2⟩
        exact ⟨rfl, h1, by omega⟩
      · intro v hv
        by_cases hlt : v < pages sz
        · exact hnone v hlt
        · rw [hframe.view hr hv (fun hc => hlt hc.2.2)]
          by_contra hc
          exact hlt ((hspace v hv).mp hc)
    · have hsz : sz = 0 := by omega
      refine ⟨h, .refl _ _ _ _, fun v hv => ?_, rfl⟩
      by_contra hc
      have hlt := (hspace v hv).mp hc
      rw [hsz, show pages 0 = 0 from rfl] at hlt
      omega
  unfold uvmfree
  rw [wp_bind]
  refine wp_imp hunmap ?_
  rintro - s₁ ⟨h1, hframe, hnone, hno⟩
  have hnoleaves : NoLeaves s₁.mem r := by
    intro v hv
    rcases Nat.lt_or_ge v NUSER with hlt | hge
    · exact h1.leafPte_eq_zero hr hv (view_eq_none.mp (hnone v hlt))
    · rw [hframe.top hr hge hv (by rintro ⟨-, -, hc⟩; omega)]
      exact htop v hge hv
  refine wp_imp (freewalk_spec h1 hr hnoleaves) ?_
  rintro - s' ⟨h', hquiet, ht, hno'⟩
  refine ⟨h', ?_, hno'.trans hno⟩
  have hroots : ∀ j t, update roots i none j = some t → j ≠ i ∧ roots j = some t := by
    intro j t ht
    by_cases hj : j = i
    · subst hj
      rw [update_self] at ht
      cases ht
    · rw [update_of_ne hj] at ht
      exact ⟨hj, ht⟩
  refine Framed.trans (hframe.mono (fun j t ht => (hroots j t ht).2) (fun _ hk => hk) ?_)
    (hquiet.framed (ht.placed _))
  rintro j u hj ⟨rfl, -, -⟩
  obtain ⟨t, ht⟩ := Option.isSome_iff_exists.mp hj
  exact (hroots j t ht).1 rfl

end

end Xv6
