import Xv6.Kernel.BootSpec

/-!
# A `fork` that fails cannot be seen

`uvmcopy` marks pages of the parent copy-on-write before it can fail, and the code that undoes the
copy does not take the marks away. The pages have their old counts again, though, so a store to
one that was not shared finds a count of 1 and needs no new page.
-/

namespace Xv6

open Lib

/-! ### Stores and the free list -/

section Stores

variable {ι κ : Type} [Layout] [Fintype ι] [DecidableEq ι] [Inhabited κ] {E : Panic → Prop}
  {s s' s₁ : Phys} {roots : ι → Option Nat} {ker : Nat → Option κ} {i : ι} {r va : Nat} {b : UInt8}

section

variable (h : MemInv s roots ker) (hr : roots i = some r) (hmay : MayWrite s.mem r va)
include h hr hmay

omit [DecidableEq ι] [Inhabited κ] in
/-- The page behind an address that may be written, and its count. -/
lemma MemInv.refcnt_of_mayWrite : va / PGSIZE < NUSER ∧
      ptePage (leafPte s.mem r (va / PGSIZE)) = some (pte2pa (leafPte s.mem r (va / PGSIZE))) ∧
      IsPage (pte2pa (leafPte s.mem r (va / PGSIZE))) ∧
      0 < s.pgRefcnt (pte2pa (leafPte s.mem r (va / PGSIZE))) := by
  obtain ⟨hva, hV, hU, -⟩ := mayWrite_iff.mp hmay
  have hv := h.vpn_lt hr hva hU
  have hp := ptePage_eq_some.mpr ⟨hV, rfl⟩
  obtain ⟨hpos, hcnt⟩ := h.refcnt hr hv hp
  exact ⟨hv, hp, (h.user hr hv hp).1, by omega⟩

/-- A store to a page with one reference takes no page. -/
lemma userStore_of_one (hone : s.pgRefcnt (pte2pa (leafPte s.mem r (va / PGSIZE))) = 1) :
    wp (userStore r va b) E (fun res s' => res = 0 ∧ s'.freelist = s.freelist) s := by
  unfold userStore
  by_cases hwr : Writable s.mem r va
  · rw [wp_userStoreFrom_writable hwr]
    exact ⟨rfl, rfl⟩
  · obtain ⟨a, hcow⟩ := hmay.isCow hwr
    obtain ⟨-, -, hpage, -⟩ := h.refcnt_of_mayWrite hr hmay
    have hspec := cowalloc_spec (E := fun _ => True) h hr va fun _ => trivial
    rw [wp_cowalloc_one hcow hpage hone] at hspec
    obtain ⟨-, -, ⟨hc, -⟩ | ⟨-, -, hwr'⟩⟩ := hspec
    · cases hc
    · rw [wp_userStoreFrom_fault hwr, wp_cowalloc_one hcow hpage hone, if_neg (by decide),
        wp_userStoreFrom_writable hwr']
      exact ⟨rfl, rfl⟩

/-- A store to a page with several references takes a page. -/
lemma userStore_of_many (hmany : s.pgRefcnt (pte2pa (leafPte s.mem r (va / PGSIZE))) > 1) :
    wp (userStore r va b) (fun _ => True) (fun _ s' => s'.freelist ≠ s.freelist) s := by
  obtain ⟨hv, hp, -, -⟩ := h.refcnt_of_mayWrite hr hmay
  have hwr : ¬Writable s.mem r va := by
    rintro ⟨-, hV, -, hW⟩
    obtain ⟨-, hcnt⟩ := h.refcnt hr hv hp
    obtain ⟨own, hinv, -⟩ := h
    have hone := hinv.pages.writable hr hv hV hW
    omega
  obtain ⟨a, hcow⟩ := hmay.isCow hwr
  unfold userStore
  rw [wp_userStoreFrom_fault hwr]
  refine wp_imp (cowalloc_copies h hr hcow hmany fun _ => trivial) ?_
  rintro res s' ⟨rfl, h', -, -, hwr', q, hq, hleaf⟩
  rw [if_neg (by decide), wp_userStoreFrom_writable hwr']
  -- the page taken from the free list is mapped now
  intro hsame
  have hfree : q ∈ s'.freelist := by
    rw [show s'.freelist = s.freelist from hsame]
    exact hq
  exact (h'.mem_freelist.mp hfree).2 (Or.inr (Or.inr ⟨i, r, _, hr, hv, hleaf⟩))

end

/-- A store that took no page takes none in a state that looks the same, where every page is in
its place, and it has the same effect there. -/
lemma userStore_again (h : MemInv s roots ker) (h' : MemInv s' roots ker) (hr : roots i = some r)
    (hspace : ∀ {j t}, roots j = some t → space s'.mem t = space s.mem t)
    (hplaces : SamePlaces s.mem s'.mem roots)
    (hrun : (userStore r va b).run s = .ok (0, s₁)) (hfree : s₁.freelist = s.freelist) :
    ∃ s₁', (userStore r va b).run s' = .ok (0, s₁') ∧ s₁'.freelist = s'.freelist ∧
      ∀ {j t}, roots j = some t → space s₁'.mem t = space s₁.mem t := by
  -- the page may be written and has one reference
  have hspec := userStore_spec (E := fun _ => True) h hr va b fun _ => trivial
  rw [wp_of_run hrun] at hspec
  obtain ⟨-, -, hframe, ⟨hc, -⟩ | ⟨-, hst⟩⟩ := hspec
  · cases hc
  have hmay := (h.mayStore_iff hr).mp (AddrSpace.mayStore_of_store hst)
  obtain ⟨hv, hp, hpage, hpos⟩ := h.refcnt_of_mayWrite hr hmay
  have hone : s.pgRefcnt (pte2pa (leafPte s.mem r (va / PGSIZE))) = 1 := by
    by_contra hne
    have hmany := userStore_of_many (b := b) h hr hmay (by omega)
    rw [wp_of_run hrun] at hmany
    exact hmany hfree
  -- and so it is in the other state
  have hmay' : MayWrite s'.mem r va := by
    rw [← h'.mayStore_iff hr, hspace hr]
    exact (h.mayStore_iff hr).mpr hmay
  have hsame : pte2pa (leafPte s'.mem r (va / PGSIZE)) = pte2pa (leafPte s.mem r (va / PGSIZE)) :=
    (ptePage_eq_some.mp ((hplaces.page hr hv).trans hp)).2
  have hused : pte2pa (leafPte s.mem r (va / PGSIZE)) ∉ s.freelist :=
    fun hc => (h.mem_freelist.mp hc).2 (Or.inr (Or.inr ⟨i, r, _, hr, hv, hp⟩))
  obtain ⟨-, hcnt⟩ := hplaces.keeps.refcnt h h' hpage hused
  have hone' : s'.pgRefcnt (pte2pa (leafPte s'.mem r (va / PGSIZE))) = 1 := by
    rw [hsame, hcnt, hone]
  obtain ⟨_, s₁', hrun', rfl, hfree'⟩ :=
    wp_run (userStore_of_one (E := fun _ => False) (b := b) h' hr hmay' hone')
  refine ⟨s₁', hrun', hfree', fun {j t} hj => ?_⟩
  have hspec' := userStore_spec (E := fun _ => True) h' hr va b fun _ => trivial
  rw [wp_of_run hrun'] at hspec'
  obtain ⟨-, -, hframe', ⟨hc, -⟩ | ⟨-, hst'⟩⟩ := hspec'
  · cases hc
  by_cases hji : j = i
  · subst hji
    rw [hr, Option.some.injEq] at hj
    subst hj
    rw [hspace hr, hst, Option.some.injEq] at hst'
    exact hst'.symm
  · have hout : ∀ v < NUSER, ¬Within i 0 NUSER j v := fun _ _ hc => hji hc.1
    rw [hframe'.space hj hout, hframe.space hj hout, hspace hj]

end Stores

/-! ### `fork` -/

variable [Layout] {E : Panic → Prop} {t t' : Sys} {p : Fin NPROC}

/-- Nobody can tell `t'` from `t`: the same pages are free, the others have the same counts, the
same slots are in use, and the memory of `p` behaves in the same way. -/
structure Invisible (t t' : Sys) (p : Fin NPROC) : Prop where
  free : ∀ pg, pg ∈ t'.phys.freelist ↔ pg ∈ t.phys.freelist
  refcnt : ∀ pg, IsPage pg → pg ∉ t.phys.freelist → t'.phys.pgRefcnt pg = t.phys.pgRefcnt pg
  slots : ∀ q, (t'.proc q).state = .unused ↔ (t.proc q).state = .unused
  table : (t'.proc p).pagetable = (t.proc p).pagetable
  load : ∀ r va, (t.proc p).pagetable = some r →
    userLoad t'.phys.mem r va = userLoad t.phys.mem r va
  store : ∀ r va b s₁, (t.proc p).pagetable = some r →
    (userStore r va b).run t.phys = .ok (0, s₁) → s₁.freelist = t.phys.freelist →
    ∃ s₁', (userStore r va b).run t'.phys = .ok (0, s₁') ∧ s₁'.freelist = t'.phys.freelist ∧
      ∀ q, (t'.proc q).image s₁'.mem = (t.proc q).image s₁.mem

omit [Layout] in
/-- Two systems with the same images and the same tables have the same address spaces. -/
lemma space_of_image (himage : t'.image = t.image) (hroots : t'.roots = t.roots) {j : TableId}
    {r : Nat} (hr : t.roots j = some r) : space t'.phys.mem r = space t.phys.mem r := by
  cases j with
  | none => cases hr
  | some q =>
    have hr' : (t'.proc q).pagetable = some r := (congrFun hroots (some q)).trans hr
    have hq := congrFun himage q
    rw [Sys.image, Sys.image, Proc.image_of_some hr', Proc.image_of_some hr, Option.some.injEq,
      UserImage.mk.injEq] at hq
    exact hq.2

lemma Undone.invisible (h : SysInv t) (hundone : Undone t t') (p : Fin NPROC) :
    Invisible t t' p := by
  obtain ⟨ker, hmem, hheld⟩ := h.mem
  obtain ⟨ker', hmem', hheld'⟩ := hundone.inv.mem
  rw [hundone.trapframes, hundone.kpages] at hheld'
  rw [hheld.unique hheld', hundone.roots] at hmem'
  have hspace : ∀ {j r}, t.roots j = some r → space t'.phys.mem r = space t.phys.mem r :=
    fun hr => space_of_image hundone.image hundone.roots hr
  refine ⟨?_, ?_, ?_, ?_, ?_, ?_⟩
  · exact fun pg => hundone.places.mem_freelist hmem hmem'
  · exact fun pg hpg hused => (hundone.places.keeps.refcnt hmem hmem' hpg hused).2
  · intro q
    rw [hundone.inv.unused_iff, h.unused_iff, hundone.image]
  · exact congrFun hundone.roots (some p)
  · intro r va hr
    rw [hmem'.userLoad_eq (i := some p) hr, hmem.userLoad_eq (i := some p) hr,
      hspace (j := some p) hr]
  · intro r va b s₁ hr hrun hfree
    obtain ⟨s₁', hrun', hfree', hsame⟩ := userStore_again hmem hmem' (i := some p) hr hspace
      hundone.places hrun hfree
    refine ⟨s₁', hrun', hfree', fun q => ?_⟩
    have hq : (t'.proc q).pagetable = (t.proc q).pagetable := congrFun hundone.roots (some q)
    cases hrq : (t.proc q).pagetable with
    | none => rw [Proc.image_of_none hrq, Proc.image_of_none (hq.trans hrq)]
    | some rq =>
      have himage := congrFun hundone.image q
      rw [Sys.image, Sys.image, Proc.image_of_some hrq, Proc.image_of_some (hq.trans hrq),
        Option.some.injEq, UserImage.mk.injEq] at himage
      rw [Proc.image_of_some hrq, Proc.image_of_some (hq.trans hrq), himage.1,
        hsame (j := some q) hrq]

/-- A `fork` that returns -1 has changed nothing that anybody could notice. -/
theorem failed_fork_invisible (h : SysInv t) (hlive : (t.proc p).state ≠ .unused)
    (hpid : 0 < t.nextpid) (hrun : (fork p).run t = .ok (-1, t')) : Invisible t t' p := by
  have hspec := h.fork_spec (E := fun _ => True) hlive
  rw [wp_of_run hrun] at hspec
  obtain ⟨hres, -⟩ | ⟨-, hundone, -⟩ := hspec
  · omega
  · exact hundone.invisible h p

/-! ### A system without a free page -/

/-- The rest of the kernel may have taken all pages. -/
lemma SysInv.exists_exhausted : ∀ {n : Nat} {t : Sys}, SysInv t → t.phys.freelist.length = n →
    ∃ t', SysInv t' ∧ t'.proc = t.proc ∧ t'.phys.freelist = [] := by
  intro n
  induction n with
  | zero =>
    intro t h hlen
    exact ⟨t, h, rfl, List.length_eq_zero_iff.mp hlen⟩
  | succ n ih =>
    intro t h hlen
    obtain ⟨ker, hmem, -⟩ := h.mem
    have hfree : wp kallocPage (fun _ => True)
        (fun _ t' => t'.phys.freelist = t.phys.freelist.tail) t := by
      unfold kallocPage
      rw [wp_bind, wp_onPhys]
      refine wp_imp (kalloc_freelist hmem) ?_
      rintro (_ | q) s' ⟨-, htail⟩
      · exact htail
      · exact htail
    obtain ⟨-, t₁, -, ⟨h1, hproc1, -⟩, hfree1⟩ :=
      wp_run (wp_also (h.kallocPage_inv (E := fun _ => False)) hfree)
    obtain ⟨t', h', hproc, hempty⟩ := ih h1 (by rw [hfree1, List.length_tail, hlen]; rfl)
    exact ⟨t', h', hproc.trans hproc1, hempty⟩

/-- Without a free page `fork` fails. -/
lemma SysInv.fork_of_empty (h : SysInv t) (hlive : (t.proc p).state ≠ .unused)
    (hempty : t.phys.freelist = []) : ∃ t', (fork p).run t = .ok (-1, t') := by
  obtain ⟨ker, hmem, -⟩ := h.mem
  have hnone : wp allocproc (fun _ => True) (fun res _ => res = none) t := by
    unfold allocproc
    rw [wp_bind, wp_get]
    cases findProc t fun x => x.state == .unused with
    | none => rfl
    | some q =>
      simp only [wp_bind, wp_allocpid, wp_setProc, wp_onPhys, Sys.setProc_phys]
      refine wp_imp (kalloc_freelist hmem) ?_
      rintro res s' ⟨hres, -⟩
      rw [hempty] at hres
      subst hres
      simp only [wp_bind, List.head?_nil]
      exact wp_imp (wp_true _) fun _ _ _ => rfl
  have hfails : wp (fork p) (fun _ => True) (fun res _ => res = -1) t := by
    unfold fork
    rw [wp_bind]
    refine wp_imp hnone ?_
    rintro res t₁ rfl
    rfl
  obtain ⟨res, t', hrun, -, rfl⟩ :=
    wp_run (wp_also (h.fork_spec (E := fun _ => False) hlive) hfails)
  exact ⟨t', hrun⟩

omit [Layout] in
theorem failed_fork_invisible_exhausted : ∃ t p t', @SysInv builtLayout t ∧
    (t.proc p).state ≠ .unused ∧ 0 < t.nextpid ∧
    (@fork builtLayout p).run t = .ok (-1, t') ∧ @Invisible builtLayout t t' p := by
  let := builtLayout
  obtain ⟨t₀, p, im, h⟩ := exists_alone
  obtain ⟨t₁, h1, hproc, hempty⟩ := h.inv.exists_exhausted rfl
  let t : Sys := { t₁ with nextpid := 1 }
  have hinv : SysInv t :=
    h1.congr rfl rfl (fun _ => rfl) (fun _ => rfl) (fun _ => rfl) fun _ => .rfl
  have hlive : (t.proc p).state ≠ .unused := by
    show (t₁.proc p).state ≠ .unused
    rw [hproc, h.state]
    nofun
  obtain ⟨t', hrun⟩ := hinv.fork_of_empty hlive hempty
  exact ⟨t, p, t', hinv, hlive, Int.one_pos, hrun,
    failed_fork_invisible hinv hlive Int.one_pos hrun⟩

end Xv6
