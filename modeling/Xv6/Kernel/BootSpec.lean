import Xv6.Kernel.SystemExec

/-!
# The first process

`userinit` does not check that it gets the pages it asks for: it is called once, when almost all
of memory is free. The bounds below say how many pages each step of it takes; with that many
free, `userinit` leaves a system that satisfies the invariant.
-/

namespace Xv6

open Function Lib

variable {t : Sys} {p : Fin NPROC} {im : UserImage}

/-- How many pages are free. -/
def Phys.free (s : Phys) : Nat := s.freelist.length

lemma Phys.free_setMem (s : Phys) (m : Mem) : ({ s with mem := m } : Phys).free = s.free := rfl

/-! ### Writing memory takes no page -/

lemma supplied_write (f : Phys → Mem) :
    Supplied Phys.free (modify fun s => { s with mem := f s } : PhysM Unit) 0 fun _ => True :=
  supplied_modify fun _ => rfl

lemma supplied_ldPte (a : Nat) : Supplied Phys.free (ldPte a) 0 fun _ => True :=
  fun _ _ => ⟨trivial, le_refl _⟩

lemma supplied_panicIf {σ : Type} {avail : σ → Nat} (c : Prop) [Decidable c] (e : Panic) :
    Supplied avail (panicIf c e) 0 fun _ => True := by
  unfold panicIf
  split_ifs
  · exact supplied_throw e
  · exact supplied_pure trivial

variable [Layout] {E : Panic → Prop}

/-! ### How many pages the steps take -/

lemma supplied_kalloc : Supplied Phys.free kalloc 1 fun res => res.isSome := by
  intro s hs
  unfold kalloc
  rw [wp_bind, wp_get]
  unfold Phys.free at hs ⊢
  cases hf : s.freelist with
  | nil =>
    rw [hf] at hs
    cases hs
  | cons q next =>
    unfold refcntInit fillPage
    simp only [wp_bind, wp_set, wp_panicIf, wp_modify, wp_pure]
    exact ⟨fun _ => trivial, fun _ => ⟨rfl, le_refl _⟩⟩

lemma supplied_walkFrom (va : Nat) : ∀ level pagetable,
    Supplied Phys.free (walkFrom va true level pagetable) level fun res => res.isSome
  | 0, _ => supplied_pure rfl
  | level + 1, pagetable => by
    unfold walkFrom
    refine (supplied_ldPte _).bind_free fun pte _ => ?_
    simp only [Bool.true_eq_false, if_false]
    split_ifs
    · exact (supplied_walkFrom va level _).mono (Nat.le_succ _)
    · refine (supplied_kalloc.bind (l := level) ?_).mono (by omega)
      rintro res hres
      obtain ⟨page, rfl⟩ := Option.isSome_iff_exists.mp hres
      exact (supplied_write _).bind_free fun _ _ => (supplied_write _).bind_free fun _ _ =>
        supplied_walkFrom va level page

lemma supplied_walk (r va : Nat) : Supplied Phys.free (walk r va false) 0 fun _ => True := by
  have hfrom : ∀ level pagetable,
      Supplied Phys.free (walkFrom va false level pagetable) 0 fun _ => True := by
    intro level
    induction level with
    | zero => exact fun _ => supplied_pure trivial
    | succ level ih =>
      intro pagetable
      unfold walkFrom
      refine (supplied_ldPte _).bind_free fun pte _ => ?_
      by_cases hV : hasFlag pte PTE_V
      · rw [if_pos hV]
        exact ih _
      · rw [if_neg hV, if_pos rfl]
        exact supplied_pure trivial
  exact (supplied_panicIf _ _).bind_free fun _ _ => hfrom 2 r

lemma supplied_mappages {r va pa : Nat} {perm : Pte} (hal : va % PGSIZE = 0) (hva : va < MAXVA) :
    Supplied Phys.free (mappages r va PGSIZE pa perm) 2 fun res => res = 0 := by
  unfold mappages
  rw [pgrounddown_eq hal, pgrounddown_last hal hva]
  refine (supplied_panicIf _ _).bind_free fun _ _ => ?_
  unfold mappagesFrom walk
  refine Supplied.bind (k := 2) (l := 0) ((supplied_panicIf _ _).bind_free fun _ _ =>
    supplied_walkFrom va 2 r) fun res hres => ?_
  obtain ⟨a, rfl⟩ := Option.isSome_iff_exists.mp hres
  refine (supplied_ldPte _).bind_free fun _ _ => (supplied_panicIf _ _).bind_free fun _ _ =>
    (supplied_write _).bind_free fun _ _ => ?_
  rw [if_pos rfl]
  exact supplied_pure rfl

lemma supplied_refcntInc (pa : Nat) : Supplied Phys.free (refcntInc pa) 0 fun _ => True := by
  unfold refcntInc
  exact (supplied_panicIf _ _).bind_free fun _ _ => supplied_modify fun _ => rfl

/-- Each page that `uvmcopy` shares takes at most two pages. -/
lemma supplied_uvmcopyFrom (old new : Nat) : ∀ n i, i % PGSIZE = 0 → i + n * PGSIZE ≤ MAXVA →
    Supplied Phys.free (uvmcopyFrom old new n i) (2 * n) fun res => res = 0 := by
  intro n
  induction n with
  | zero => exact fun _ _ _ => supplied_pure rfl
  | succ n ih =>
    intro i hal hmax
    rw [Nat.succ_mul] at hmax
    unfold uvmcopyFrom
    refine (supplied_walk old i).bind_free fun res _ => ?_
    cases res with
    | none => exact supplied_throw _
    | some a =>
      refine (supplied_ldPte a).bind_free fun pte _ => (supplied_panicIf _ _).bind_free fun _ _ =>
        (supplied_panicIf _ _).bind_free fun _ _ =>
        (show Supplied _ _ 0 fun _ => True from ?_).bind_free fun _ _ =>
        (supplied_ldPte a).bind_free fun pte _ => ?_
      · split_ifs
        · exact supplied_write _
        · exact supplied_pure trivial
      · refine Supplied.mono (k := 2 + 2 * n) ((supplied_mappages hal ?_).bind fun res hres => ?_)
          (by omega)
        · simp only [PGSIZE] at hmax
          omega
        · rw [hres, if_neg (absurd rfl)]
          refine (supplied_refcntInc _).bind_free fun _ _ => ih (i + PGSIZE) ?_ (by omega)
          rw [Nat.add_mod_right, hal]

lemma supplied_uvmcreate : Supplied Phys.free uvmcreate 1 fun res => res.isSome := by
  refine Supplied.bind (k := 1) (l := 0) supplied_kalloc fun res hres => ?_
  obtain ⟨q, rfl⟩ := Option.isSome_iff_exists.mp hres
  exact (supplied_write _).bind_free fun _ _ => supplied_pure rfl

lemma supplied_procPagetable (tf : Nat) :
    Supplied Phys.free (procPagetable tf) 5 fun res => res.isSome := by
  refine Supplied.bind (k := 1) (l := 4) supplied_uvmcreate fun res hres => ?_
  obtain ⟨q, rfl⟩ := Option.isSome_iff_exists.mp hres
  refine Supplied.bind (k := 2) (l := 2) (supplied_mappages (by decide) (by decide))
    fun res hres => ?_
  subst hres
  simp only [lt_irrefl, if_false]
  refine Supplied.bind (k := 2) (l := 0) (supplied_mappages (by decide) (by decide))
    fun res hres => ?_
  subst hres
  simp only [lt_irrefl, if_false]
  exact supplied_pure rfl

/-- `allocproc` finds its pages if there is a slot. -/
lemma supplied_allocproc (hslot : findProc t (fun x => x.state == .unused) = some p)
    (hfree : 6 ≤ t.phys.free) :
    wp allocproc (fun _ => True) (fun res t' => res.isSome ∧ t.phys.free ≤ t'.phys.free + 6) t := by
  unfold allocproc
  rw [wp_bind, wp_get, hslot]
  simp only [wp_bind, wp_allocpid, wp_setProc, wp_onPhys]
  refine wp_imp (supplied_kalloc t.phys (by omega)) ?_
  rintro res s₁ ⟨hres, h1⟩
  obtain ⟨q, rfl⟩ := Option.isSome_iff_exists.mp hres
  simp only [wp_bind, wp_setProc, wp_onPhys]
  refine wp_imp (supplied_procPagetable q s₁ (by omega)) ?_
  rintro res s₂ ⟨hres, h2⟩
  obtain ⟨r, rfl⟩ := Option.isSome_iff_exists.mp hres
  exact ⟨rfl, show t.phys.free ≤ s₂.free + 6 by omega⟩

/-! ### The first process's memory -/

section

variable {ι κ : Type} [Fintype ι] [DecidableEq ι] [Inhabited κ] {s : Phys}
  {roots : ι → Option Nat} {ker : Nat → Option κ} {i : ι} {r : Nat}

omit [Layout] in
lemma xPerm_initcode : XPerm (PTE_W ||| PTE_X) := by
  intro j hj
  rw [BitVec.getLsbD_or, getLsbD_PTE_W, getLsbD_PTE_X, Bool.or_eq_true, decide_eq_true_eq,
    decide_eq_true_eq] at hj
  exact hj

/-- `uvmfirst` maps page 0 of a table without user memory. -/
lemma uvmfirst_spec (h : MemInv s roots ker) (hr : roots i = some r)
    (hspace : UserSpace s.mem r 0) {src : List UInt8} (hsrc : src.length < PGSIZE)
    (hfree : 3 ≤ s.free) :
    wp (uvmfirst r src) E (fun _ s' => MemInv s' roots ker ∧ Shape s s' roots i ∧
      UserSpace s'.mem r 1) s := by
  unfold uvmfirst
  simp only [wp_bind, wp_panicIf, show ¬src.length ≥ PGSIZE by omega, false_imp_iff, true_and,
    not_false_eq_true, true_imp_iff]
  refine wp_imp (supplied_kalloc.wp (by omega) (kalloc_spec h default)) ?_
  rintro res s₁ ⟨⟨rfl, -, rfl⟩ | ⟨q, rfl, hq, hkq, hno, h1, -, hquiet⟩, hres, hfree1⟩
  · cases hres
  have hk1 : update ker q (some default) q = some default := update_self ..
  obtain ⟨h2, -, hquiet2⟩ := h1.write hq hk1 (sameOutside_memset s₁.mem q 0)
  rw [ker_restore hkq] at hquiet2
  have hquiet' := hquiet.trans hquiet2
  have hN : 0 < NUSER := by decide
  have hspace2 : UserSpace (memset s₁.mem q 0 PGSIZE) r 0 :=
    (hquiet'.frame fun _ _ => False).userSpace hr hspace fun _ _ => id
  have hnone : view (memset s₁.mem q 0 PGSIZE) r 0 = none := by
    by_contra hc
    exact absurd ((hspace2 0 hN).mp hc) (lt_irrefl 0)
  simp only [wp_bind, wp_fillPage]
  have hmap := uvmalloc_map (E := E) h2 hr xPerm_initcode hN hnone hq hk1 (fun o ho => by
    show memset s₁.mem q 0 PGSIZE (q + o) = 0
    rw [memset_apply, if_pos ⟨by omega, by omega⟩])
  rw [Nat.zero_mul, show PTE_R ||| PTE_U ||| (PTE_W ||| PTE_X) = PTE_W ||| PTE_R ||| PTE_X ||| PTE_U
    from by decide] at hmap
  have hfree2 : 2 ≤ ({ s₁ with mem := memset s₁.mem q 0 PGSIZE } : Phys).free := by
    rw [Phys.free_setMem]
    omega
  refine wp_imp ((supplied_mappages (by decide) (by decide)).wp hfree2 hmap) ?_
  rintro res s₃ ⟨⟨rfl, -⟩ | ⟨rfl, h3, hframe3, hpage3, -, hview3, -⟩, hres, -⟩
  · cases hres
  rw [ker_restore hkq] at h3
  have hframe : Frame s s₃ roots ker (Within i 0 1) := (hquiet'.frame _).trans
    (hframe3.toFrame.mono (fun _ _ hr => hr) (ker_mono hkq _) fun _ _ _ hP => hP)
  obtain ⟨h4, ht⟩ := h3.userWrite hr hN hpage3 (sameOutside_write s₃.mem src (le_refl q)
    (Nat.add_le_add_left hsrc.le q))
  have hleaves : SameLeaves s₃.mem ({ s₃ with mem := s₃.mem.write q src } : Phys).mem roots :=
    ht.leaves
  rw [wp_modify]
  refine ⟨h4, (hframe.shape (by decide)).trans (hleaves.shape i), ?_⟩
  intro v hv
  rw [ne_eq, view_eq_none, hleaves hr, ← view_eq_none]
  by_cases hv0 : v = 0
  · rw [hv0, hview3]
    exact iff_of_true (by simp) (by decide)
  · rw [hframe.view hr hv (by rintro ⟨-, h5, h6⟩; omega)]
    refine iff_of_false (fun hc => ?_) (by omega)
    exact absurd ((hspace v hv).mp hc) (Nat.not_lt_zero v)

end

/-! ### After `kinit` -/

/-- The system after `kinit`. -/
def Sys.boot (s : Phys) : Sys where
  phys := s
  proc := fun _ => Proc.free
  nextpid := 1
  initproc := none
  kpages := []

lemma sysInv_boot {s : Phys}
    (h : MemInv s (fun _ : TableId => none) (fun _ => (none : Option Holder))) :
      SysInv (Sys.boot s) := by
  have hroots : (Sys.boot s).roots = fun _ => none := by
    funext j
    cases j <;> rfl
  refine ⟨⟨fun _ => none, by rw [hroots]; exact h, ?_⟩, fun _ => .unused rfl rfl rfl rfl⟩
  exact ⟨iff_of_false nofun nofun, iff_of_false nofun nofun, fun hc => absurd rfl hc,
    List.nodup_nil⟩

/-! ### `userinit` -/

/-- There is no process yet. -/
def Sys.NoProc (t : Sys) : Prop := ∀ p, (t.proc p).state = .unused

instance (t : Sys) : Decidable t.NoProc := inferInstanceAs (Decidable (∀ _, _))

omit [Layout] in
lemma findProc_of_noProc (h : t.NoProc) :
    ∃ p, findProc t (fun x => x.state == .unused) = some p := by
  apply Option.isSome_iff_exists.mp
  unfold findProc
  rw [List.find?_isSome]
  exact ⟨0, List.mem_finRange _, by simp only [h _, beq_self_eq_true]⟩

/-- With nine pages free `userinit` makes the first process. -/
lemma SysInv.userinit_inv (h : SysInv t) (hno : t.NoProc) (hfree : 9 ≤ t.phys.free) :
    wp userinit E (fun _ t' => SysInv t' ∧ t'.kpages = t.kpages ∧
      ∃ p, t'.initproc = some p ∧ (t'.proc p).state = .runnable) t := by
  obtain ⟨p, hslot⟩ := findProc_of_noProc hno
  unfold userinit
  rw [wp_bind]
  refine wp_imp (wp_also h.allocproc_inv (supplied_allocproc hslot (by omega))) ?_
  rintro res t₁ ⟨⟨rfl, -⟩ | ⟨p', rfl, ha⟩, hres, hfree1⟩
  · cases hres
  obtain ⟨ker, hmem, hheld⟩ := ha.inv.mem
  obtain ⟨r, tf, hr, htf, htable⟩ := ha.inv.live (p := p') (by simp [ha.state])
  rw [ha.sz] at htable
  obtain ⟨hq, hk⟩ := hheld.isPage_trapframe htf
  have htables : update t₁.roots (some p') (some r) = t₁.roots :=
    update_eq_self_iff.mpr hr.symm
  have htfs : update t₁.trapframes p' (some tf) = t₁.trapframes :=
    update_eq_self_iff.mpr htf.symm
  simp only [wp_bind, wp_modify, wp_getProc, wp_deref_some, hr, htf, wp_onPhys]
  refine wp_imp (uvmfirst_spec (i := some p') hmem hr htable.user (by decide) (by omega)) ?_
  rintro - s₂ ⟨h2, hshape, hspace⟩
  simp only [wp_setProc, Sys.setPhys_setProc, Sys.setProc_phys, Sys.setPhys_phys,
    Sys.setPhys_setPhys, Sys.setProc_setProc, Sys.setProc_proc_self, Sys.setPhys_proc]
  refine wp_imp (storeTrapframe_spec h2 hq hk (show trapframeEpc + 8 ≤ PGSIZE by decide) _) ?_
  rintro - s₃ ⟨h3, hsame3, -⟩
  refine wp_imp (storeTrapframe_spec h3 hq hk (show trapframeSp + 8 ≤ PGSIZE by decide) _) ?_
  rintro - s₄ ⟨h4, hsame4, -⟩
  have hsame := Frame.trans hsame3 hsame4
  refine ⟨?_, ha.kpages, p', rfl, by rw [Sys.setProc_proc_self]⟩
  refine ha.inv.setProc (by rfl) (by simp only [hr, htables]; exact h4)
    (by simp only [htf, htfs]; exact hheld) (.live (by simp) hr htf ?_) ?_
  · show ProcTable s₄.mem r (pages PGSIZE) tf
    rw [show pages PGSIZE = 1 by decide]
    exact hsame.procTable (i := some p') hr (fun _ => id)
      (htable.setUser (fun v hv hv' => hshape.top (j := some p') hr hv hv') hspace)
  · exact fun hu hru ht => hsame.procTable hru (fun _ => id)
      (hshape.procTable hru (fun hc => hu (Option.some.inj hc)) ht)

/-! ### Systems with processes -/

/-- Each page of user memory takes at most three pages. -/
lemma supplied_uvmallocFrom (r oldsz newsz : Nat) (xperm : Pte) : ∀ n a, a % PGSIZE = 0 →
    a + n * PGSIZE ≤ MAXVA →
    Supplied Phys.free (uvmallocFrom r oldsz newsz xperm n a) (3 * n) fun sz => sz = newsz := by
  intro n
  induction n with
  | zero => exact fun _ _ _ => supplied_pure rfl
  | succ n ih =>
    intro a hal hmax
    rw [Nat.succ_mul] at hmax
    unfold uvmallocFrom
    refine Supplied.mono (k := 1 + (2 + 3 * n)) (supplied_kalloc.bind fun res hres => ?_) (by omega)
    obtain ⟨q, rfl⟩ := Option.isSome_iff_exists.mp hres
    refine (supplied_write _).bind_free fun _ _ => ?_
    refine (supplied_mappages hal ?_).bind fun res hres => ?_
    · simp only [PGSIZE] at hmax
      omega
    · rw [hres, if_neg (absurd rfl)]
      refine ih (a + PGSIZE) ?_ (by omega)
      rw [Nat.add_mod_right, hal]

lemma supplied_uvmalloc (r : Nat) (xperm : Pte) {oldsz newsz k : Nat} (hle : oldsz ≤ newsz)
    (hmax : newsz + PGSIZE ≤ MAXVA) (hk : newsz ≤ oldsz + k * PGSIZE) :
    Supplied Phys.free (uvmalloc r oldsz newsz xperm) (3 * k) fun sz => sz = newsz := by
  have hround : pgroundup oldsz % PGSIZE = 0 ∧ oldsz ≤ pgroundup oldsz ∧
      pgroundup oldsz < oldsz + PGSIZE := by
    simp only [pgroundup, PGSIZE, MAXVA] at hmax ⊢
    omega
  unfold uvmalloc
  rw [if_neg (by omega)]
  refine (supplied_uvmallocFrom r _ newsz xperm _ _ hround.1 ?_).mono ?_
  · simp only [PGSIZE] at hround hmax ⊢
    omega
  · simp only [PGSIZE] at hround hk ⊢
    omega

omit [Layout] in
/-- The kernel as built, after `kinit`: thirty of the pages that are free. -/
lemma exists_booted : ∃ s, @SysInv builtLayout (Sys.boot s) ∧ 30 ≤ s.free := by
  let := builtLayout
  obtain ⟨s, -, hpages, hmem⟩ := kinit_spec (ι := TableId) (κ := Holder) fun _ => 0
  have hlast : ∀ pg ∈ (List.range 30).map (fun k => PHYSTOP - PGSIZE * (k + 1)), IsPage pg := by
    decide
  have hnodup : ((List.range 30).map (fun k => PHYSTOP - PGSIZE * (k + 1))).Nodup := by decide
  exact ⟨s, sysInv_boot hmem,
    (hnodup.subperm fun pg hpg => (hpages pg).mpr (hlast pg hpg)).length_le⟩

/-- `allocproc` where there is a slot and enough memory. -/
lemma SysInv.exists_allocated (h : SysInv t) {q : Fin NPROC}
    (hslot : findProc t (fun x => x.state == .unused) = some q) (hfree : 6 ≤ t.phys.free) :
    ∃ t' p, Allocated t t' p ∧ t.phys.free ≤ t'.phys.free + 6 := by
  obtain ⟨_, t', -, ⟨rfl, -⟩ | ⟨p, -, ha⟩, hres, hfree'⟩ := wp_run
    (wp_also (h.allocproc_inv (E := fun _ => False)) (supplied_allocproc hslot hfree))
  · cases hres
  · exact ⟨t', p, ha, hfree'⟩

/-- There is a system with one process, which has one page and runs. -/
structure Alone (t : Sys) (p : Fin NPROC) (im : UserImage) : Prop where
  inv : SysInv t
  state : (t.proc p).state = .running
  parent : (t.proc p).parent = none
  killed : (t.proc p).killed = false
  image : t.image p = some im
  sz : im.sz = PGSIZE
  page : im.space.MayStore 0
  others : ∀ q, q ≠ p → t.proc q = Proc.free
  free : 21 ≤ t.phys.free

omit [Layout] in
lemma exists_alone : ∃ t p im, @Alone builtLayout t p im := by
  let := builtLayout
  obtain ⟨s, hboot, hfree⟩ := exists_booted
  obtain ⟨q, hslot⟩ := findProc_of_noProc (t := Sys.boot s) fun _ => rfl
  obtain ⟨t₁, p, ha, hfree1⟩ := hboot.exists_allocated hslot ((by decide : 6 ≤ 30).trans hfree)
  have hlive : (t₁.proc p).state ≠ .unused := by simp [ha.state]
  obtain ⟨r, tf, hr, htf, htable⟩ := ha.inv.live hlive
  obtain ⟨ker, hmem, hheld⟩ := ha.inv.mem
  -- give it a page
  have hfree1' : 24 ≤ t₁.phys.free := by
    have hb : 30 ≤ (Sys.boot s).phys.free := hfree
    omega
  have huser : UserSpace t₁.phys.mem r (pages 0) := by
    have := htable.user
    rwa [ha.sz] at this
  have hpage : Supplied Phys.free (uvmalloc r 0 PGSIZE PTE_W) 3 fun sz => sz = PGSIZE :=
    supplied_uvmalloc r PTE_W (k := 1) (Nat.zero_le _) (by decide) (by decide)
  obtain ⟨sz, s₂, -, ⟨h2, ⟨rfl, hframe, hspace, hnew, -⟩ | ⟨rfl, -⟩⟩, hsz, hfree2⟩ := wp_run
    (hpage.wp ((by decide : 3 ≤ 24).trans hfree1')
      (uvmalloc_spec (E := fun _ => False) hmem (i := some p) hr xPerm_PTE_W huser
        (Nat.zero_le _)))
  swap
  · cases hsz
  have hbound : pages PGSIZE ≤ NUSER := by decide
  obtain ⟨h3, himage⟩ := ha.inv.setUser hr htf htable hlive h2 hheld
    (hframe.widen (Nat.zero_le _) hbound).toFrame hspace
  set t₃ := (t₁.setPhys s₂).setProc p { t₁.proc p with sz := PGSIZE } with ht₃
  have hp3 : t₃.proc p = { t₁.proc p with sz := PGSIZE } := Sys.setProc_proc_self ..
  set x : Proc := { t₁.proc p with
    sz := PGSIZE, state := .running, parent := none, killed := false } with hx
  have hother : ∀ q, q ≠ p → (t₃.setProc p x).proc q = Proc.free := by
    intro q hq
    rw [Sys.setProc_proc_of_ne _ hq, ht₃, Sys.setProc_proc_of_ne _ hq, Sys.setPhys_proc,
      ha.others q hq]
    rfl
  have himage' : (t₃.setProc p x).image p
      = some { sz := PGSIZE, space := space s₂.mem r } := by
    rw [Sys.image, Sys.setProc_proc_self]
    exact Proc.image_of_some (x := x) hr _
  refine ⟨t₃.setProc p x, p, _, ⟨h3.setProc_congr ?_ ?_ ?_ ?_, ?_, ?_, ?_, himage', rfl, ?_, hother,
    ?_⟩⟩
  · rw [hp3]
  · rw [hp3]
  · rw [hp3]
  · rw [hp3]
    exact iff_of_false (by simp) hlive
  · rw [Sys.setProc_proc_self]
  · rw [Sys.setProc_proc_self]
  · rw [Sys.setProc_proc_self]
  · refine ⟨by decide, zeroPage PTE_W, ?_, rfl, by decide⟩
    show space s₂.mem r (0 / PGSIZE) = _
    rw [show 0 / PGSIZE = 0 by decide, space_of_lt (by decide), hnew 0 (by decide) (by decide)]
  · have hphys : (t₃.setProc p x).phys.free = s₂.free := rfl
    omega

/-- With that much memory `fork` makes a child. -/
lemma Alone.fork_supplied (ha : Alone t p im) :
    wp (fork p) (fun _ => True) (fun _ t' => 13 ≤ t'.phys.free ∧
      ∃ q, q ≠ p ∧ (t'.proc q).state = .runnable) t := by
  have hslot : (findProc t (fun x => x.state == .unused)).isSome := by
    have : Nontrivial (Fin NPROC) := Fin.nontrivial_iff_two_le.mpr (by decide)
    obtain ⟨q, hq⟩ := exists_ne p
    unfold findProc
    rw [List.find?_isSome]
    exact ⟨q, List.mem_finRange q, by rw [ha.others q hq]; rfl⟩
  obtain ⟨q, hslot⟩ := Option.isSome_iff_exists.mp hslot
  have hfree := ha.free
  unfold fork
  rw [wp_bind]
  refine wp_imp (wp_also (ha.inv.allocproc_inv (E := fun _ => True))
    (supplied_allocproc hslot (by omega))) ?_
  rintro res t₁ ⟨⟨rfl, -⟩ | ⟨np, rfl, hal⟩, hres, hfree1⟩
  · cases hres
  obtain ⟨r₀, -, hr₀, -⟩ := ha.inv.live (p := p) (by simp [ha.state])
  have hne : np ≠ p := by
    rintro rfl
    exact Option.some_ne_none _ (hr₀.symm.trans hal.unused)
  have hp : t₁.proc p = t.proc p := hal.others p hne.symm
  have hsz : (t₁.proc p).sz = PGSIZE := by
    have himage := ha.image
    rw [Sys.image, Proc.image_of_some hr₀, Option.some.injEq] at himage
    rw [hp, ← ha.sz, ← himage]
  obtain ⟨r, tf, hr, htf, -⟩ := hal.inv.live (p := p) (by simp [hp, ha.state])
  obtain ⟨r', tf', hr', htf', -⟩ := hal.inv.live (p := np) (by simp [hal.state])
  simp only [wp_bind, wp_getProc, hr, hr', wp_deref_some, wp_onPhys, hsz]
  refine wp_imp (supplied_uvmcopyFrom r r' 1 0 (by decide) (by decide) t₁.phys (by omega)) ?_
  rintro res s₂ ⟨rfl, hfree2⟩
  have hfree' : 13 ≤ s₂.free := by omega
  simp only [show ¬(0 : Int) < 0 by decide, if_false, wp_bind, wp_setProc, htf, htf',
    wp_deref_some, wp_onPhys, wp_modify, wp_pure, storeTrapframe]
  exact ⟨hfree', np, hne, by simp⟩

/-- `fork` succeeds there. -/
lemma Alone.fork_returns (ha : Alone t p im) :
    wp (fork p) E (fun _ t' => SysInv t' ∧ t'.phys.nomem = t.phys.nomem ∧ 13 ≤ t'.phys.free) t := by
  refine wp_imp (wp_also (ha.inv.fork_spec (by simp [ha.state])) ha.fork_supplied) ?_
  rintro res t' ⟨⟨-, h', hno, -⟩ | ⟨-, hundone, -⟩, hfree, q, hq, hstate⟩
  · exact ⟨h', hno, hfree⟩
  · -- the child would have no page table
    obtain ⟨r, -, hr, -⟩ := hundone.inv.live (p := q) (by simp [hstate])
    have hnone : t'.roots (some q) = none := by
      rw [hundone.roots, Sys.roots, ha.others q hq]
      rfl
    exact (Option.some_ne_none _ (hr.symm.trans hnone)).elim

end Xv6
