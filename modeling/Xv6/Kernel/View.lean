import Xv6.Kernel.OwnershipTables

/-!
# What a process sees of its memory

`view m r v` is page `v` of an address space as the process knows it: whether it may be used,
written and executed, and its bytes. A page that is marked copy-on-write counts as writable, so
sharing and splitting pages does not change the view.

`MemInv` hides the ownership of pages behind what callers have to know: which pages the kernel
holds. `Quiet` and `Frame` say what a function leaves alone.
-/

namespace Xv6

open Function Lib

variable {ι κ : Type} {m m' : Mem} {pg q r v : Nat} {pte : Pte} {ker' : Nat → Option κ} {i : ι}
  {P P' : ι → Nat → Prop}

/-! ### Views -/

@[ext]
structure UPage where
  user : Bool
  writable : Bool
  executable : Bool
  bytes : Fin PGSIZE → UInt8

/-- The page behind a leaf entry. -/
def viewPte (m : Mem) (pte : Pte) : Option UPage :=
  (ptePage pte).map fun pa =>
    { user := hasFlag pte PTE_U
      writable := hasFlag pte PTE_W || hasFlag pte PTE_C
      executable := hasFlag pte PTE_X
      bytes := fun o => m (pa + o) }

def view (m : Mem) (r v : Nat) : Option UPage := viewPte m (leafPte m r v)

/-- One page has the same bytes in both memories. -/
def SamePage (m m' : Mem) (pg : Nat) : Prop := ∀ o < PGSIZE, m' (pg + o) = m (pg + o)

lemma SamePage.refl (m : Mem) (pg : Nat) : SamePage m m pg := fun _ _ => rfl

lemma SamePage.trans {m'' : Mem} (h : SamePage m m' pg) (h' : SamePage m' m'' pg) :
    SamePage m m'' pg :=
  fun o ho => (h' o ho).trans (h o ho)

lemma SameOutside.samePage (h : SameOutside m m' q) (hq : q % PGSIZE = 0) (hpg : pg % PGSIZE = 0)
    (hne : pg ≠ q) : SamePage m m' pg :=
  fun _ ho => h.page hq hpg hne ho

lemma viewPte_of_ptePage {pa : Nat} (h : ptePage pte = some pa) : viewPte m pte = some
      { user := pte.getLsbD 4
        writable := pte.getLsbD 2 || pte.getLsbD 8
        executable := pte.getLsbD 3
        bytes := fun o => m (pa + o) } := by
  simp only [viewPte, h, Option.map_some, hasFlag_U, hasFlag_W, hasFlag_C, hasFlag_X]

lemma viewPte_eq_none : viewPte m pte = none ↔ ptePage pte = none := by
  simp [viewPte]

lemma viewPte_congr (h : ∀ pg, ptePage pte = some pg → SamePage m m' pg) :
    viewPte m' pte = viewPte m pte := by
  cases hp : ptePage pte with
  | none => rw [viewPte_eq_none.mpr hp, viewPte_eq_none.mpr hp]
  | some pg =>
    rw [viewPte_of_ptePage hp, viewPte_of_ptePage hp]
    have hbytes : (fun o : Fin PGSIZE => m' (pg + o)) = fun o : Fin PGSIZE => m (pg + o) :=
      funext fun o => h pg hp o o.2
    rw [hbytes]

lemma view_eq_none : view m r v = none ↔ ptePage (leafPte m r v) = none :=
  viewPte_eq_none

/-! ### What a function leaves alone -/

section

variable [Layout] {s s' s'' : Phys} {roots : ι → Option Nat} {ker : Nat → Option κ}

/-- No leaf changed, nor any byte of a user page or of a page that the kernel holds. -/
structure Quiet (s s' : Phys) (roots : ι → Option Nat) (ker : Nat → Option κ) : Prop where
  leaves : SameLeaves s.mem s'.mem roots
  data : ∀ {i r v pg}, roots i = some r → v < NUSER → ptePage (leafPte s.mem r v) = some pg →
    SamePage s.mem s'.mem pg
  held : ∀ {pg}, IsPage pg → ker pg ≠ none → SamePage s.mem s'.mem pg

/-- Outside the pages in `P` the address spaces are the same, and so are the pages that the
kernel holds. -/
structure Frame (s s' : Phys) (roots : ι → Option Nat) (ker : Nat → Option κ)
    (P : ι → Nat → Prop) : Prop where
  view : ∀ {i r v}, roots i = some r → v < NUSER → ¬P i v → view s'.mem r v = view s.mem r v
  top : ∀ {i r v}, roots i = some r → NUSER ≤ v → v < 2 ^ 27 → ¬P i v →
    leafPte s'.mem r v = leafPte s.mem r v
  held : ∀ {pg}, IsPage pg → ker pg ≠ none → SamePage s.mem s'.mem pg

lemma quiet_of_mem_eq (h : s'.mem = s.mem) : Quiet s s' roots ker := by
  refine ⟨fun _ _ _ _ => by rw [h], fun _ _ _ => ?_, fun _ _ => ?_⟩ <;>
    (rw [h]; exact SamePage.refl _ _)

lemma Quiet.refl (s : Phys) (roots : ι → Option Nat) (ker : Nat → Option κ) :
    Quiet s s roots ker :=
  quiet_of_mem_eq rfl

lemma Quiet.trans (h : Quiet s s' roots ker) (h' : Quiet s' s'' roots ker) :
    Quiet s s'' roots ker := by
  refine ⟨h.leaves.trans h'.leaves, ?_, fun hpg hk => (h.held hpg hk).trans (h'.held hpg hk)⟩
  intro i r v pg hr hv hp
  apply (h.data hr hv hp).trans
  rw [← h.leaves hr] at hp
  exact h'.data hr hv hp

lemma Quiet.mono (h : Quiet s s' roots ker) (hk : ∀ pg, ker' pg ≠ none → ker pg ≠ none) :
    Quiet s s' roots ker' :=
  ⟨h.leaves, h.data, fun hpg hne => h.held hpg (hk _ hne)⟩

lemma Quiet.frame (h : Quiet s s' roots ker) (P : ι → Nat → Prop) : Frame s s' roots ker P := by
  refine ⟨?_, fun hr _ _ _ => h.leaves hr _, h.held⟩
  intro i r v hr hv _
  rw [Xv6.view, Xv6.view, h.leaves hr]
  exact viewPte_congr fun pg hp => h.data hr hv hp

lemma Quiet.view (h : Quiet s s' roots ker) (hr : roots i = some r) (hv : v < NUSER) :
    Xv6.view s'.mem r v = Xv6.view s.mem r v :=
  (h.frame fun _ _ => False).view hr hv id

lemma Frame.trans (h : Frame s s' roots ker P) (h' : Frame s' s'' roots ker P) :
    Frame s s'' roots ker P :=
  ⟨fun hr hv hP => (h'.view hr hv hP).trans (h.view hr hv hP),
    fun hr hv hv' hP => (h'.top hr hv hv' hP).trans (h.top hr hv hv' hP),
    fun hpg hk => (h.held hpg hk).trans (h'.held hpg hk)⟩

/-- Fewer tables, fewer held pages or more pages that may change. -/
lemma Frame.mono {roots' : ι → Option Nat} (h : Frame s s' roots ker P)
    (hroots : ∀ i r, roots' i = some r → roots i = some r)
    (hk : ∀ pg, ker' pg ≠ none → ker pg ≠ none) (hP : ∀ i v, (roots' i).isSome → P i v → P' i v) :
    Frame s s' roots' ker' P' := by
  refine ⟨?_, ?_, fun hpg hne => h.held hpg (hk _ hne)⟩
  · intro i r v hr hv hn
    exact h.view (hroots i r hr) hv fun hp => hn (hP i v (by rw [hr]; rfl) hp)
  · intro i r v hr hv hv' hn
    exact h.top (hroots i r hr) hv hv' fun hp => hn (hP i v (by rw [hr]; rfl) hp)

lemma Frame.weaken (h : Frame s s' roots ker P) (hP : ∀ i v, P i v → P' i v) :
    Frame s s' roots ker P' :=
  h.mono (fun _ _ hr => hr) (fun _ hk => hk) fun i v _ => hP i v

/-- Pages `a` to `b - 1` of address space `i`. -/
def Within (i : ι) (a b : Nat) (j : ι) (u : Nat) : Prop := j = i ∧ a ≤ u ∧ u < b

/-- One leaf is written, and the pages behind the others keep their bytes. -/
lemma LeafWrite.frame {w : Pte} (hw : LeafWrite s.mem s'.mem roots i v w)
    (hdata : ∀ {j t u pg}, roots j = some t → u < NUSER → (j, u) ≠ (i, v) →
      ptePage (leafPte s.mem t u) = some pg → SamePage s.mem s'.mem pg)
    (hheld : ∀ {pg}, IsPage pg → ker pg ≠ none → SamePage s.mem s'.mem pg) :
    Frame s s' roots ker (Within i v (v + 1)) := by
  have hpair : ∀ {j u}, ¬Within i v (v + 1) j u → (j, u) ≠ (i, v) := by
    intro j u hn he
    obtain ⟨rfl, rfl⟩ := Prod.mk.inj he
    exact hn ⟨rfl, le_refl u, Nat.lt_succ_self u⟩
  refine ⟨?_, ?_, hheld⟩
  · intro j t u ht hu hn
    rw [view, view, hw.other ht (lt_of_lt_NUSER hu) (hpair hn)]
    exact viewPte_congr fun pg hp => hdata ht hu (hpair hn) hp
  · intro j t u ht _ hu hn
    exact hw.other ht hu (hpair hn)

end

/-! ### The invariant as callers see it -/

variable [Layout] [Fintype ι] {s s' : Phys} {roots : ι → Option Nat} {ker : Nat → Option κ}

/-- Every page has one owner, and those that the kernel holds are given by `ker`. -/
def MemInv (s : Phys) (roots : ι → Option Nat) (ker : Nat → Option κ) : Prop :=
  ∃ own : Nat → Owner ι κ, PhysInv s roots own ∧
    ∀ pg, IsPage pg → ∀ k, own pg = .kernel k ↔ ker pg = some k

section

variable (h : MemInv s roots ker)
include h

/-- A user leaf refers to a page of the allocator that the kernel does not hold. -/
lemma MemInv.user (hr : roots i = some r) (hv : v < NUSER)
    (hp : ptePage (leafPte s.mem r v) = some pg) : IsPage pg ∧ ker pg = none := by
  obtain ⟨own, hinv, hker⟩ := h
  obtain ⟨hpg, hown⟩ := hinv.pages.user hr hv hp
  refine ⟨hpg, ?_⟩
  cases hk : ker pg with
  | none => rfl
  | some k =>
    have := (hker pg hpg k).mpr hk
    rw [hown] at this
    cases this

lemma MemInv.leafOk (hr : roots i = some r) (hv : v < 2 ^ 27) : LeafOk (leafPte s.mem r v) := by
  obtain ⟨own, hinv, -⟩ := h
  exact hinv.tables.leaf hr hv

lemma MemInv.inj {u : Nat} (hr : roots i = some r) (hv : v < NUSER) (hu : u < NUSER)
    (h1 : ptePage (leafPte s.mem r v) = some pg) (h2 : ptePage (leafPte s.mem r u) = some pg) :
    v = u := by
  obtain ⟨own, hinv, -⟩ := h
  exact hinv.pages.inj hr hv hu h1 h2

/-- The count of a mapped page is exact. -/
lemma MemInv.refcnt (hr : roots i = some r) (hv : v < NUSER)
    (hp : ptePage (leafPte s.mem r v) = some pg) :
    0 < mapCount s.mem roots pg ∧ s.pgRefcnt pg = mapCount s.mem roots pg := by
  obtain ⟨own, hinv, -⟩ := h
  obtain ⟨hpg, hown⟩ := hinv.pages.user hr hv hp
  exact hinv.pages.mapped hpg hown

/-- A page that the kernel holds is not mapped. -/
lemma MemInv.ne_of_held (hk : ker q ≠ none) (hr : roots i = some r) (hv : v < NUSER) :
    ptePage (leafPte s.mem r v) ≠ some q :=
  fun hp => hk (h.user hr hv hp).2

lemma MemInv.setNomem (n : Nat) : MemInv { s with nomem := n } roots ker := by
  obtain ⟨own, hinv, hker⟩ := h
  exact ⟨own, ⟨hinv.tables, hinv.pages.congr (fun _ _ _ _ => rfl) rfl rfl⟩, hker⟩

lemma MemInv.rename (e : ι ≃ ι) : MemInv s (fun j => roots (e j)) ker := by
  obtain ⟨own, hinv, hker⟩ := h
  refine ⟨_, hinv.rename e, fun pg hpg k => ?_⟩
  rw [← hker pg hpg k]
  cases own pg <;> simp [Owner.rename]

/-- Writing into a page that the kernel holds. -/
lemma MemInv.write (hq : IsPage q) {k : κ} (hk : ker q = some k) (hm : SameOutside s.mem m q) :
    MemInv { s with mem := m } roots ker ∧ SameTables s.mem m roots ∧
      Quiet s { s with mem := m } roots (update ker q none) := by
  obtain ⟨own, hinv, hker⟩ := h
  have hown := (hker q hq k).mpr hk
  have hnode : ∀ i path, own q ≠ .node i path := by simp [hown]
  have ht := hinv.tables.sameTables hm hq.1 (fun i _ _ path => hnode i path)
  refine ⟨⟨own, hinv.write hq.1 hnode hm, hker⟩, ht, ht.leaves, ?_, ?_⟩
  · intro i r v pg hr hv hp
    obtain ⟨hpg, hu⟩ := hinv.pages.user hr hv hp
    apply hm.samePage hq.1 hpg.1
    rintro rfl
    rw [hown] at hu
    cases hu
  · intro pg hpg hne
    apply hm.samePage hq.1 hpg.1
    rintro rfl
    exact hne (update_self ..)

end

omit [Fintype ι] in
/-- The owner of one page changes, and with it what the kernel holds. -/
lemma ker_update {own : Nat → Owner ι κ}
    (hker : ∀ pg, IsPage pg → ∀ k, own pg = .kernel k ↔ ker pg = some k) {o : Owner ι κ}
    {x : Option κ} (hx : ∀ k, o = .kernel k ↔ x = some k) (pg : Nat) (hpg : IsPage pg) (k : κ) :
    update own q o pg = .kernel k ↔ update ker q x pg = some k := by
  by_cases hq : pg = q
  · subst hq
    rw [update_self, update_self]
    exact hx k
  · rw [update_of_ne hq, update_of_ne hq]
    exact hker pg hpg k

/-- How many leading pages of an address space can be mapped: they lie on distinct pages. -/
lemma MemInv.vpn_le (h : MemInv s roots ker) {n : Nat} (hr : roots i = some r) (hn : n ≤ NUSER)
    (hall : ∀ v < n, ptePage (leafPte s.mem r v) ≠ none) : n ≤ (PHYSTOP - KERNBASE) / PGSIZE := by
  have hpage : ∀ v < n, ∃ pg, ptePage (leafPte s.mem r v) = some pg :=
    fun v hv => Option.ne_none_iff_exists'.mp (hall v hv)
  choose! f hf using hpage
  have hmaps : Set.MapsTo (fun v => f v / PGSIZE - KERNBASE / PGSIZE) (Finset.range n)
      (Finset.range ((PHYSTOP - KERNBASE) / PGSIZE)) := by
    intro v hv
    have hv' : v < n := by simpa using hv
    obtain ⟨hpg, -⟩ := h.user hr (hv'.trans_le hn) (hf v hv')
    have h1 := hpg.2.1
    have h2 := hpg.2.2
    have h3 := Layout.kernbase_le
    simp only [Finset.coe_range, Set.mem_Iio]
    unfold PHYSTOP KERNBASE PGSIZE at *
    omega
  have hinj : Set.InjOn (fun v => f v / PGSIZE - KERNBASE / PGSIZE) (Finset.range n) := by
    intro v hv u hu heq
    have hv' : v < n := by simpa using hv
    have hu' : u < n := by simpa using hu
    obtain ⟨hpv, -⟩ := h.user hr (hv'.trans_le hn) (hf v hv')
    obtain ⟨hpu, -⟩ := h.user hr (hu'.trans_le hn) (hf u hu')
    have hsame : f v = f u := by
      have h1 := hpv.2.1
      have h2 := hpu.2.1
      have h3 := Layout.kernbase_le
      have h4 := hpv.1
      have h5 := hpu.1
      simp only at heq
      unfold PGSIZE KERNBASE at *
      omega
    exact h.inj hr (hv'.trans_le hn) (hu'.trans_le hn) (hf v hv') (hsame ▸ hf u hu')
  have := Finset.card_le_card_of_injOn _ hmaps hinj
  simpa using this

end Xv6
