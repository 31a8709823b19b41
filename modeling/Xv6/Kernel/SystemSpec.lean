import Xv6.Kernel.System

/-!
# The functions of `proc.c` keep the invariant

Each specification says how the memory of the processes changes. An operation that ran out of
pages changes none.
-/

namespace Xv6

open Function Lib

variable [Layout] {E : Panic → Prop} {t t' : Sys} {p : Fin NPROC} {x : Proc} {s' s : Phys}
  {ker : Nat → Option Holder} {roots : TableId → Option Nat} {q r r' sz va : Nat} {k : Holder}
  {m : Mem} {t₁ : Sys} {np : Fin NPROC} {bs : List UInt8}

/-! ### Slots -/

omit [Layout] in
lemma findProc_eq_some {c : Proc → Bool} (h : findProc t c = some p) : c (t.proc p) = true := by
  unfold findProc at h
  exact List.find?_some (p := fun p => c (t.proc p)) h

lemma SysInv.unused_iff (h : SysInv t) (p : Fin NPROC) :
    (t.proc p).state = .unused ↔ t.image p = none := by
  unfold Sys.image Proc.image
  rw [Option.map_eq_none_iff]
  cases h.proc p with
  | unused h1 h2 h3 h4 => exact iff_of_true h1 h2
  | live h1 h2 h3 h4 =>
    rw [h2]
    exact iff_of_false h1 nofun

/-- A process has a page table and a trapframe. -/
lemma SysInv.live (h : SysInv t) (hp : (t.proc p).state ≠ .unused) : ∃ r tf,
    (t.proc p).pagetable = some r ∧ (t.proc p).trapframe = some tf ∧
      ProcTable t.phys.mem r (pages (t.proc p).sz) tf := by
  cases h.proc p with
  | unused h1 h2 h3 h4 => exact absurd h1 hp
  | live h1 h2 h3 h4 => exact ⟨_, _, h2, h3, h4⟩

lemma SysInv.trapframe_of_unused (h : SysInv t) (hp : t.roots (some p) = none) :
    t.trapframes p = none := by
  cases h.proc p with
  | unused h1 h2 h3 h4 => exact h3
  | live h1 h2 h3 h4 =>
    rw [show t.roots (some p) = _ from h2] at hp
    cases hp

/-- The first slot that no process uses. -/
def freeSlot (im : Fin NPROC → Option UserImage) : Option (Fin NPROC) :=
  (List.finRange NPROC).find? fun p => (im p).isNone

lemma SysInv.findProc_unused (h : SysInv t) :
    findProc t (fun x => x.state == .unused) = freeSlot t.image := by
  unfold findProc freeSlot
  congr 1
  funext p
  rw [Bool.eq_iff_iff, beq_iff_eq, h.unused_iff, Option.isNone_iff_eq_none]

/-! ### `freeproc` -/

lemma SysInv.freeproc_inv (h : SysInv t) :
    wp (freeproc p) E (fun _ t' => SysInv t' ∧ t'.image = update t.image p none ∧
      t'.phys.nomem = t.phys.nomem ∧ (∀ q, q ≠ p → t'.proc q = t.proc q) ∧
      t'.kpages = t.kpages ∧ t'.initproc = t.initproc ∧ (t'.proc p).trapframe = none ∧
      t'.roots = update t.roots (some p) none ∧
      SamePlaces t.phys.mem t'.phys.mem (update t.roots (some p) none)) t := by
  obtain ⟨ker, hmem, hheld⟩ := h.mem
  refine wp_imp (freeproc_spec hmem hheld ?_) ?_
  · intro r hr
    cases h.proc p with
    | unused h1 h2 h3 h4 =>
      rw [h2] at hr
      cases hr
    | live h1 h2 h3 h4 =>
      rw [h2, Option.some.injEq] at hr
      subst hr
      exact ⟨_, h4⟩
  · rintro - t' ⟨s', ker', rfl, h', hheld', hsame, hplaces, hno⟩
    refine ⟨h.setProc (by rfl) h' hheld' (.unused rfl rfl rfl rfl) (fun hq => hsame.tables hq), ?_,
      hno, fun q hq => Sys.setProc_proc_of_ne _ hq _, rfl, rfl, ?_, ?_, hplaces⟩
    · rw [Sys.image_setProc (t := t) (by rfl) (fun hq => hsame.spaces hq), Proc.image_of_none rfl]
    · rw [Sys.setProc_proc_self]
      rfl
    · rw [Sys.roots_setProc]
      rfl

/-- The call has given back all that it had taken. -/
structure Undone (t t' : Sys) : Prop where
  inv : SysInv t'
  image : t'.image = t.image
  roots : t'.roots = t.roots
  trapframes : t'.trapframes = t.trapframes
  kpages : t'.kpages = t.kpages
  places : SamePlaces t.phys.mem t'.phys.mem t.roots

lemma Undone.refl (h : SysInv t) : Undone t t := ⟨h, rfl, rfl, rfl, rfl, .refl _ _⟩

/-! ### `allocproc` -/

/-- What `allocproc` leaves when it finds a slot and pages for it: a process without memory. -/
structure Allocated (t t' : Sys) (p : Fin NPROC) : Prop where
  inv : SysInv t'
  slot : freeSlot t.image = some p
  unused : t.roots (some p) = none
  others : ∀ q, q ≠ p → t'.proc q = t.proc q
  sz : (t'.proc p).sz = 0
  state : (t'.proc p).state = .used
  pid : (t'.proc p).pid = t.nextpid
  same : Same t.phys t'.phys t.roots
  places : SamePlaces t.phys.mem t'.phys.mem t.roots
  nomem : t'.phys.nomem = t.phys.nomem
  kpages : t'.kpages = t.kpages

/-- `freeproc` on a slot for which `allocproc` did not find the pages. -/
lemma SysInv.freeproc_undo (h : SysInv t) {n : Int} {s₁ : Phys} {ker₁ : Nat → Option Holder}
    (hpt : t.roots (some p) = none) (htf : t.trapframes p = none) (hx : x.pagetable = none)
    (h1 : MemInv s₁ t.roots ker₁) (hheld : Held (update t.trapframes p x.trapframe) t.kpages ker₁)
    (hsame : Same t.phys s₁ t.roots) (hplaces : SamePlaces t.phys.mem s₁.mem t.roots) :
    wp (freeproc p) E (fun _ t' => Undone t t' ∧ t'.phys.nomem = s₁.nomem)
      ((({ t with nextpid := n } : Sys).setPhys s₁).setProc p x) := by
  set T := (({ t with nextpid := n } : Sys).setPhys s₁).setProc p x with hT
  have hnone : update t.roots (some p) none = t.roots :=
    update_eq_self_iff.mpr hpt.symm
  have hroots : T.roots = t.roots := by
    rw [hT, Sys.roots_setProc, hx]
    exact hnone
  have hTtf : T.trapframes = update t.trapframes p x.trapframe := by
    rw [hT, Sys.trapframes_setProc]
    rfl
  have hTp : T.proc p = x := by rw [hT, Sys.setProc_proc_self]
  rw [← hroots] at h1
  rw [← hTtf] at hheld
  refine wp_imp (freeproc_spec h1 hheld (fun hr => by rw [hTp, hx] at hr; cases hr)) ?_
  rintro - t' ⟨s', ker', rfl, h', hheld', hsame', hplaces', hno⟩
  rw [hroots, hnone] at h' hsame' hplaces'
  rw [hTtf, update_idem] at hheld'
  have hall : Same t.phys s' t.roots := Frame.trans hsame hsame'
  rw [hT, Sys.setPhys_setProc, Sys.setProc_setProc]
  refine ⟨⟨h.setProc (by rfl) ?_ hheld' (.unused rfl rfl rfl rfl)
    (fun _ hr => hall.procTable hr fun _ => id), ?_, ?_, ?_, rfl, hplaces.trans hplaces'⟩, hno⟩
  · rw [show Proc.free.pagetable = none from rfl, hnone]
    exact h'
  · rw [Sys.image_setProc (t := t) (by rfl) (fun _ hr => hall.space hr fun _ _ => id),
      update_eq_self_iff, Proc.image_of_none rfl, Sys.image, Proc.image_of_none hpt]
  · rw [Sys.roots_setProc]
    exact hnone
  · rw [Sys.trapframes_setProc]
    exact update_eq_self_iff.mpr htf.symm

lemma Allocated.image (h : Allocated t t' p) :
    t'.image = update t.image p (t'.image p) := by
  funext q
  by_cases hq : q = p
  · rw [hq, update_self]
  · rw [update_of_ne hq, Sys.image, Sys.image, h.others q hq]
    cases hr : (t.proc q).pagetable with
    | none => rw [Proc.image_of_none hr, Proc.image_of_none hr]
    | some r =>
      rw [Proc.image_of_some hr, Proc.image_of_some hr,
        h.same.space (i := some q) hr (fun _ _ => id)]

lemma SysInv.allocproc_inv (h : SysInv t) :
    wp allocproc E (fun res t' =>
      (res = none ∧ Undone t t' ∧
        ((freeSlot t.image = none ∧ t'.phys.nomem = t.phys.nomem) ∨
          t.phys.nomem < t'.phys.nomem)) ∨
      ∃ p, res = some p ∧ Allocated t t' p) t := by
  unfold allocproc
  rw [wp_bind, wp_get, h.findProc_unused]
  cases hslot : freeSlot t.image with
  | none => exact Or.inl ⟨rfl, .refl h, Or.inl ⟨rfl, rfl⟩⟩
  | some p =>
    obtain ⟨ker, hmem, hheld⟩ := h.mem
    have himage : t.image p = none :=
      Option.isNone_iff_eq_none.mp (List.find?_some (p := fun p => (t.image p).isNone) hslot)
    obtain ⟨-, hpt, htf, hsz⟩ : (t.proc p).state = .unused ∧ (t.proc p).pagetable = none ∧
        (t.proc p).trapframe = none ∧ (t.proc p).sz = 0 := by
      cases h.proc p with
      | unused h1 h2 h3 h4 => exact ⟨h1, h2, h3, h4⟩
      | live h1 h2 h3 h4 => exact absurd ((h.unused_iff p).mpr himage) h1
    simp only [wp_bind, wp_allocpid, wp_setProc, wp_onPhys, Sys.setProc_phys]
    refine wp_imp (kalloc_spec hmem (.trapframe p)) ?_
    rintro res s₁ (⟨rfl, -, rfl⟩ | ⟨q, rfl, hq, hkq, hno, h1, htables, hquiet⟩)
    · -- no page for the trapframe
      simp only [Sys.setProc_proc_self, wp_bind, Sys.setPhys_setProc, Sys.setProc_setProc]
      have hquiet : Quiet t.phys { t.phys with nomem := t.phys.nomem + 1 } t.roots ker :=
        quiet_of_mem_eq rfl
      refine wp_imp (h.freeproc_undo hpt htf hpt (hmem.setNomem _) ?_ (hquiet.frame _).same
        (.refl _ _)) ?_
      · rw [update_eq_self_iff.mpr (show none = t.trapframes p from htf.symm)]
        exact hheld
      · rintro - t' ⟨h', hno⟩
        exact Or.inl ⟨rfl, h', Or.inr (by rw [hno]; exact Nat.lt_succ_self _)⟩
    · simp only [Sys.setProc_proc_self, wp_bind, wp_setProc, wp_onPhys, Sys.setPhys_setProc,
        Sys.setProc_setProc, Sys.setProc_phys, Sys.setPhys_phys, Sys.setPhys_setPhys]
      have hheld1 := hheld.take htf hq hkq
      refine wp_imp (procPagetable_spec h1 (i := some p) hpt q) ?_
      rintro res s₂ ⟨hframe, hres⟩
      have hsame : Same t.phys s₂ t.roots := Frame.trans (hquiet.frame _).same hframe.same
      have hplaces := htables.samePlaces.trans hframe.samePlaces
      obtain ⟨rfl, h2, hno2⟩ | ⟨r, rfl, h2, htable, hno2⟩ := hres
      · -- no page for the page table
        simp only [wp_bind]
        refine wp_imp (h.freeproc_undo hpt htf rfl h2 hheld1 hsame hplaces) ?_
        rintro - t' ⟨h', hno'⟩
        exact Or.inl ⟨rfl, h', Or.inr (by rw [hno', ← hno]; exact hno2)⟩
      · rw [wp_pure]
        refine Or.inr ⟨p, rfl, ⟨h.setProc (by rfl) h2 hheld1 (.live (by simp) rfl rfl ?_) ?_, hslot,
          hpt, fun u hu => Sys.setProc_proc_of_ne _ hu _, ?_, ?_, ?_, hsame, hplaces,
          hno2.trans hno, rfl⟩⟩
        · rw [hsz]
          exact htable
        · exact fun _ hr => hsame.procTable hr fun _ => id
        · rw [Sys.setProc_proc_self]
          exact hsz
        · rw [Sys.setProc_proc_self]
        · rw [Sys.setProc_proc_self]

/-! ### Changes of memory only -/

/-- Memory changes, and the page tables of the processes keep their layout. -/
lemma SysInv.setPhys_tables (h : SysInv t) (hmem : MemInv s' t.roots ker)
    (hheld : Held t.trapframes t.kpages ker)
    (htables : ∀ {q r n tf}, t.roots (some q) = some r → ProcTable t.phys.mem r n tf →
      ProcTable s'.mem r n tf) : SysInv (t.setPhys s') :=
  ⟨⟨ker, hmem, hheld⟩, fun q => (h.proc q).keep fun hr => htables (q := q) hr⟩

/-- Memory changes, and no process sees it. -/
lemma SysInv.setPhys_same (h : SysInv t) (hmem : MemInv s' t.roots ker)
    (hheld : Held t.trapframes t.kpages ker) (hsame : Same t.phys s' t.roots) :
    SysInv (t.setPhys s') ∧ (t.setPhys s').image = t.image := by
  refine ⟨h.setPhys_tables hmem hheld fun hr => hsame.procTable hr fun _ => id, ?_⟩
  funext q
  rw [Sys.image, Sys.image, Sys.setPhys_proc]
  cases hr : (t.proc q).pagetable with
  | none => rw [Proc.image_of_none hr, Proc.image_of_none hr]
  | some r =>
    rw [Proc.image_of_some hr, Proc.image_of_some hr, Sys.setPhys_phys,
      hsame.space (i := some q) hr (fun _ _ => id)]

/-- Writing into a page that the kernel holds. -/
lemma MemInv.writeHeld (h : MemInv s roots ker) (hq : IsPage q) (hk : ker q = some k)
    (hm : SameOutside s.mem m q) :
    MemInv { s with mem := m } roots ker ∧ Same s { s with mem := m } roots := by
  obtain ⟨h1, -, hquiet⟩ := h.write hq hk hm
  exact ⟨h1, (hquiet.frame _).same⟩

lemma storeTrapframe_spec (h : MemInv s roots ker) (hq : IsPage q) (hk : ker q = some k)
    {field : Nat} (hf : field + 8 ≤ PGSIZE) (v : Nat) :
    wp (storeTrapframe q field v) E (fun _ s' => MemInv s' roots ker ∧ Same s s' roots ∧
      s'.nomem = s.nomem) s := by
  obtain ⟨h1, hsame⟩ := h.writeHeld hq hk (sameOutside_store (m := s.mem) (a := q + field) (n := 8)
    (v := v) (by omega) (by omega))
  exact ⟨h1, hsame, rfl⟩

/-! ### `fork` -/

omit [Layout] in
lemma space_eq_of_views {m' : Mem} {n : Nat} (h : UserSpace m r n) (h' : UserSpace m' r' n)
    (hviews : ∀ v < n, view m' r' v = view m r v) : space m' r' = space m r := by
  funext v
  unfold space
  split_ifs with hv
  · by_cases hn : v < n
    · exact hviews v hn
    · have hnone : ∀ {m r}, UserSpace m r n → view m r v = none := by
        intro m r h
        by_contra hc
        exact hn ((h v hv).mp hc)
      rw [hnone h, hnone h']
  · rfl

/-- The reference for `fork`: the child gets a copy of its parent's memory. -/
def forkImage (im : Fin NPROC → Option UserImage) (p : Fin NPROC) : Fin NPROC → Option UserImage :=
  match freeSlot im with
  | none => im
  | some q => update im q (im p)

/-- The last part of `fork`: the child `np` has the pages of `p`, and is completed to `x`. -/
lemma Allocated.forked (ha : Allocated t t₁ np) (hne : p ≠ np) {tf' : Nat}
    (hr : (t₁.proc p).pagetable = some r) (hr' : (t₁.proc np).pagetable = some r')
    (htf' : (t₁.proc np).trapframe = some tf') (htable' : ProcTable t₁.phys.mem r' 0 tf')
    (hmem : MemInv s' t₁.roots ker) (hheld : Held t₁.trapframes t₁.kpages ker)
    (hframe : Frame t₁.phys s' t₁.roots (fun _ => (none : Option Holder))
      (Within (some np) 0 NUSER)) (hspace : UserSpace s'.mem r' (pages (t₁.proc p).sz))
    (hcopy : space s'.mem r' = space t₁.phys.mem r) (hx : x.state ≠ .unused)
    (hsz : x.sz = (t₁.proc p).sz) (hxr : x.pagetable = some r') (hxtf : x.trapframe = some tf') :
    SysInv ((t₁.setPhys s').setProc np x) ∧
      ((t₁.setPhys s').setProc np x).image = forkImage t.image p := by
  have hroots : update t₁.roots (some np) x.pagetable = t₁.roots :=
    update_eq_self_iff.mpr (hxr.trans hr'.symm)
  have htfs : update t₁.trapframes np x.trapframe = t₁.trapframes :=
    update_eq_self_iff.mpr (hxtf.trans htf'.symm)
  constructor
  · refine ha.inv.setProc (by rfl) (by rw [hroots]; exact hmem) (by rw [htfs]; exact hheld)
      (.live hx hxr hxtf (htable'.setUser (fun v hv hv' => ?_) (by rw [hsz]; exact hspace)))
      (fun hq => hframe.drop.tables hq)
    exact hframe.top (i := some np) hr' hv hv' (by rintro ⟨-, -, hc⟩; omega)
  · rw [Sys.image_setProc (t := t₁) (by rfl) (fun hq => hframe.drop.spaces hq),
      Proc.image_of_some hxr, hsz, Sys.setPhys_phys, hcopy, ha.image, update_idem, forkImage,
      ha.slot]
    congr 1
    have hp := congrFun ha.image p
    rw [update_of_ne hne] at hp
    rw [← hp, Sys.image, Proc.image_of_some hr]

/-- The slot that `allocproc` had found is given back. -/
lemma Allocated.freeproc_undone {t₂ : Sys} (h : SysInv t) (ha : Allocated t t₁ np) (h2 : SysInv t₂)
    (hproc : t₂.proc = t₁.proc) (himage : t₂.image = t₁.image) (hk : t₂.kpages = t₁.kpages)
    (hplaces : SamePlaces t₁.phys.mem t₂.phys.mem (update t₁.roots (some np) none)) :
    wp (freeproc np) E (fun _ t' => Undone t t' ∧ t'.phys.nomem = t₂.phys.nomem) t₂ := by
  have hroots : update t₂.roots (some np) none = t.roots := by
    rw [Sys.roots_congr hproc]
    funext j
    by_cases hj : j = some np
    · rw [hj, update_self]
      exact ha.unused.symm
    · rw [update_of_ne hj]
      cases j with
      | none => rfl
      | some q => exact congrArg Proc.pagetable (ha.others q fun hc => hj (congrArg some hc))
  refine wp_imp h2.freeproc_inv ?_
  rintro - t' ⟨h', himage', hno', hother, hk', -, htf, hroots', hplaces'⟩
  rw [← Sys.roots_congr hproc, hroots] at hplaces
  rw [hroots] at hplaces' hroots'
  refine ⟨⟨h', ?_, hroots', ?_, ?_, (ha.places.trans hplaces).trans hplaces'⟩, hno'⟩
  · rw [himage', himage, ha.image, update_idem, update_eq_self_iff, Sys.image,
      Proc.image_of_none ha.unused]
  · funext q
    by_cases hq : q = np
    · rw [hq]
      exact htf.trans (h.trapframe_of_unused ha.unused).symm
    · exact congrArg Proc.trapframe ((hother q hq).trans
        ((congrFun hproc q).trans (ha.others q hq)))
  · rw [hk', hk, ha.kpages]

lemma SysInv.fork_spec (h : SysInv t) (hlive : (t.proc p).state ≠ .unused) :
    wp (fork p) E (fun res t' =>
      (res = t.nextpid ∧ SysInv t' ∧ t'.phys.nomem = t.phys.nomem ∧
        t'.image = forkImage t.image p ∧ t'.kpages = t.kpages) ∨
      (res = -1 ∧ Undone t t' ∧
        ((freeSlot t.image = none ∧ t'.phys.nomem = t.phys.nomem) ∨
          t.phys.nomem < t'.phys.nomem))) t := by
  unfold fork
  rw [wp_bind]
  refine wp_imp h.allocproc_inv ?_
  rintro res t₁ (⟨rfl, hfail⟩ | ⟨np, rfl, ha⟩)
  · exact Or.inr ⟨rfl, hfail⟩
  obtain ⟨r₀, -, hr₀, -⟩ := h.live hlive
  have hne : p ≠ np := by
    rintro rfl
    have hnone := ha.unused
    rw [show t.roots (some p) = _ from hr₀] at hnone
    cases hnone
  have hp : t₁.proc p = t.proc p := ha.others p hne
  obtain ⟨ker, hmem, hheld⟩ := ha.inv.mem
  obtain ⟨r, tf, hr, htf, htable⟩ := ha.inv.live (p := p) (by rw [hp]; exact hlive)
  obtain ⟨r', tf', hr', htf', htable'⟩ := ha.inv.live (p := np) (by simp [ha.state])
  rw [ha.sz] at htable'
  simp only [wp_bind, wp_getProc, hr, hr', wp_deref_some, wp_onPhys]
  refine wp_imp (uvmcopy_spec hmem (i := some np) (j := some p) hr' hr
    (fun hc => hne (Option.some.inj hc).symm) htable.user htable'.user) ?_
  rintro res s₂ ⟨h2, hplaces, ⟨rfl, hframe, hspace, hviews, hno⟩ | ⟨rfl, hframe, hno⟩⟩
  · obtain ⟨hq, hk⟩ := hheld.isPage_trapframe htf'
    obtain ⟨h3, hsame3⟩ := h2.writeHeld hq hk
      (sameOutside_memmove s₂.mem tf' tf (show trapframeSize ≤ PGSIZE by decide))
    have hbound := (h2.userSpace_le (i := some np) hr' hspace).trans npages_lt.le
    simp only [show ¬(0 : Int) < 0 by decide, if_false, wp_bind, wp_setProc, htf, htf',
      wp_deref_some, wp_onPhys, wp_modify, wp_pure, Sys.setPhys_setProc, Sys.setProc_setProc,
      Sys.setProc_proc_self, Sys.setPhys_phys, Sys.setPhys_setPhys, Sys.setProc_phys,
      Sys.setPhys_proc]
    refine wp_imp (storeTrapframe_spec h3 hq hk (show trapframeA0 + 8 ≤ PGSIZE by decide) 0) ?_
    rintro - s₄ ⟨h4, hsame4, hno4⟩
    have hsame := Frame.trans hsame3 hsame4
    have hframe' : Frame t₁.phys s₂ t₁.roots (fun _ => (none : Option Holder))
        (Within (some np) 0 NUSER) :=
      hframe.mono (fun _ _ hr => hr) (fun _ hc => absurd rfl hc)
        fun _ _ _ hu => ⟨hu.1, hu.2.1, hu.2.2.trans_le hbound⟩
    have hcopy := (hsame.space (i := some np) hr' (fun _ _ => id)).trans
      (space_eq_of_views htable.user hspace hviews)
    obtain ⟨h', himage⟩ := ha.forked hne hr hr' htf' htable' h4 hheld
      (hframe'.trans (hsame.weaken fun _ _ => False.elim))
      (hsame.userSpace (i := some np) hr' hspace fun _ _ => id) hcopy
      (x := { t₁.proc np with
        state := .runnable, parent := some p, sz := (t₁.proc p).sz, trapframe := some tf' })
      (by simp) rfl hr' rfl
    exact Or.inl ⟨ha.pid, h', (hno4.trans hno).trans ha.nomem, himage, ha.kpages⟩
  · -- not all pages could be mapped
    rw [if_pos (by decide), wp_bind]
    obtain ⟨h2', himage⟩ := ha.inv.setPhys_same h2 hheld hframe.same
    refine wp_imp (ha.freeproc_undone h h2' rfl himage rfl hplaces) ?_
    rintro - t' ⟨h', hno'⟩
    refine Or.inr ⟨rfl, h', Or.inr ?_⟩
    rw [hno', ← ha.nomem]
    exact hno

lemma SysInv.fork_inv (h : SysInv t) (hlive : (t.proc p).state ≠ .unused) :
    wp (fork p) E (fun _ t' => SysInv t' ∧ t'.kpages = t.kpages ∧
      ((t'.phys.nomem = t.phys.nomem ∧ t'.image = forkImage t.image p) ∨
        (t.phys.nomem < t'.phys.nomem ∧ t'.image = t.image))) t := by
  refine wp_imp (h.fork_spec hlive) ?_
  rintro res t' (⟨-, h', hno, himage, hk⟩ | ⟨-, hundone, ⟨hslot, hno⟩ | hno⟩)
  · exact ⟨h', hk, Or.inl ⟨hno, himage⟩⟩
  · refine ⟨hundone.inv, hundone.kpages, Or.inl ⟨hno, ?_⟩⟩
    rw [forkImage, hslot, hundone.image]
  · exact ⟨hundone.inv, hundone.kpages, Or.inr ⟨hno, hundone.image⟩⟩

/-! ### Growing, shrinking and writing -/

/-- The user's part of the memory of `p` changes. -/
lemma SysInv.setUser (h : SysInv t) {tf : Nat} (hr : (t.proc p).pagetable = some r)
    (htf : (t.proc p).trapframe = some tf)
    (htable : ProcTable t.phys.mem r (pages (t.proc p).sz) tf) (hlive : (t.proc p).state ≠ .unused)
    (hmem : MemInv s' t.roots ker) (hheld : Held t.trapframes t.kpages ker)
    (hframe : Frame t.phys s' t.roots ker (Within (some p) 0 NUSER))
    (hspace : UserSpace s'.mem r (pages sz)) :
    SysInv ((t.setPhys s').setProc p { t.proc p with sz := sz }) ∧
      ((t.setPhys s').setProc p { t.proc p with sz := sz }).image
        = update t.image p (some { sz := sz, space := space s'.mem r }) := by
  have hroots : update t.roots (some p) (t.proc p).pagetable = t.roots :=
    update_eq_self_iff.mpr rfl
  have htfs : update t.trapframes p (t.proc p).trapframe = t.trapframes :=
    update_eq_self_iff.mpr rfl
  constructor
  · refine h.setProc (by rfl) (by rw [hroots]; exact hmem) (by rw [htfs]; exact hheld)
      (.live hlive hr htf (htable.setUser (fun v hv hv' => ?_) hspace))
      (fun hq => hframe.drop.tables hq)
    exact hframe.top (i := some p) hr hv hv' (by rintro ⟨-, -, hc⟩; omega)
  · rw [Sys.image_setProc (t := t) (by rfl) (fun hq => hframe.drop.spaces hq),
      Proc.image_of_some (x := { t.proc p with sz := sz }) hr, Sys.setPhys_phys]

/-- The reference for `uvmalloc`. -/
def UserImage.grow (im : UserImage) (newsz : Nat) (xperm : Pte) : UserImage :=
  if newsz < im.sz then im
  else { sz := newsz, space := im.space.grow (pages im.sz) (pages newsz) xperm }

/-- The reference for `uvmdealloc`. -/
def UserImage.shrink (im : UserImage) (newsz : Nat) : UserImage :=
  if newsz ≥ im.sz then im else { sz := newsz, space := im.space.shrink (pages newsz) }

/-- The reference for stores and `copyout`. -/
def UserImage.stores (im : UserImage) (va : Nat) (bs : List UInt8) : UserImage :=
  { im with space := im.space.stores va bs }

/-- What happened to the memory of `p` alone, unless a page was missing. -/
def Changed (t t' : Sys) (p : Fin NPROC) (f : UserImage → UserImage) : Prop :=
  SysInv t' ∧
    ((t'.phys.nomem = t.phys.nomem ∧ t'.image = update t.image p ((t.image p).map f)) ∨
      (t.phys.nomem < t'.phys.nomem ∧ t'.image = t.image))

omit [Layout] in
lemma image_unchanged {f : UserImage → UserImage} {im : UserImage} (himage : t.image p = some im)
    (hf : f im = im) : update t.image p ((t.image p).map f) = t.image := by
  rw [himage, Option.map_some, hf, ← himage, update_eq_self]

/-- `p->sz` after `uvmalloc`, which returns 0 if it fails. -/
def Sys.grown (t : Sys) (p : Fin NPROC) (s' : Phys) (sz : Nat) : Sys :=
  if sz = 0 then t.setPhys s' else (t.setPhys s').setProc p { t.proc p with sz := sz }

omit [Layout] in
lemma Sys.setPhys_eq_setProc (t : Sys) (p : Fin NPROC) (s' : Phys) (hsz : sz = (t.proc p).sz) :
    t.setPhys s' = (t.setPhys s').setProc p { t.proc p with sz := sz } := by
  subst hsz
  unfold Sys.setProc
  rw [show (t.setPhys s').proc = t.proc from rfl, update_eq_self]
  rfl

lemma SysInv.uvmalloc_inv (h : SysInv t) (hlive : (t.proc p).state ≠ .unused)
    (hr : (t.proc p).pagetable = some r) {xperm : Pte} (hx : XPerm xperm) (newsz : Nat) :
    wp (uvmalloc r (t.proc p).sz newsz xperm) E (fun sz s' =>
      Changed t (t.grown p s' sz) p (fun im => im.grow newsz xperm) ∧
        (sz ≠ 0 → s'.nomem = t.phys.nomem) ∧
        (sz = 0 → 0 < newsz →
          t.phys.nomem < s'.nomem ∧ Keeps t.phys.mem s'.mem t.roots)) t.phys := by
  obtain ⟨ker, hmem, hheld⟩ := h.mem
  obtain ⟨_, tf, hr', htf, htable⟩ := h.live hlive
  rw [hr, Option.some.injEq] at hr'
  subst hr'
  have himage : t.image p = some { sz := (t.proc p).sz, space := space t.phys.mem r } :=
    Proc.image_of_some hr _
  rcases Nat.lt_or_ge newsz (t.proc p).sz with hlt | hle
  · rw [uvmalloc_lt hlt]
    have hgrown : t.grown p t.phys (t.proc p).sz = t := by
      rw [Sys.grown, if_neg (by omega), ← Sys.setPhys_eq_setProc t p t.phys rfl]
      rfl
    rw [hgrown]
    refine ⟨⟨h, Or.inl ⟨rfl, (image_unchanged himage ?_).symm⟩⟩, fun _ => rfl, by omega⟩
    rw [UserImage.grow, if_pos hlt]
  refine wp_imp (uvmalloc_spec hmem (i := some p) hr hx htable.user hle) ?_
  rintro sz s' ⟨h', ⟨rfl, hframe, hspace, hnew, -, hno⟩ | ⟨rfl, hframe, hplaced, hno⟩⟩
  · have hbound := (h'.userSpace_le (i := some p) hr hspace).trans npages_lt.le
    have hgrown : t.grown p s' sz = (t.setPhys s').setProc p { t.proc p with sz := sz } := by
      unfold Sys.grown
      split_ifs with hz
      · exact Sys.setPhys_eq_setProc t p s' (by omega)
      · rfl
    obtain ⟨hinv, himage'⟩ := h.setUser hr htf htable hlive h' hheld
      (hframe.widen (Nat.zero_le _) hbound).toFrame hspace
    rw [hgrown]
    refine ⟨⟨hinv, Or.inl ⟨hno, ?_⟩⟩, fun _ => hno, by omega⟩
    rw [himage', himage, Option.map_some, UserImage.grow, if_neg (by simp only; omega),
      hframe.space_grow (i := some p) hr hbound hnew]
  · obtain ⟨hinv, himage'⟩ := h.setPhys_same h' hheld hframe.same
    rw [Sys.grown, if_pos rfl]
    exact ⟨⟨hinv, Or.inr ⟨hno, himage'⟩⟩, absurd rfl, fun _ _ => ⟨hno,
      hframe.keeps (i := some p) hr htable.user hplaced⟩⟩

lemma SysInv.uvmdealloc_inv (h : SysInv t) (hlive : (t.proc p).state ≠ .unused)
    (hr : (t.proc p).pagetable = some r) (newsz : Nat) :
    wp (uvmdealloc r (t.proc p).sz newsz) E (fun sz s' =>
      SysInv ((t.setPhys s').setProc p { t.proc p with sz := sz }) ∧ s'.nomem = t.phys.nomem ∧
      ((t.setPhys s').setProc p { t.proc p with sz := sz }).image
        = update t.image p ((t.image p).map fun im => im.shrink newsz)) t.phys := by
  obtain ⟨ker, hmem, hheld⟩ := h.mem
  obtain ⟨_, tf, hr', htf, htable⟩ := h.live hlive
  rw [hr, Option.some.injEq] at hr'
  subst hr'
  have himage : t.image p = some { sz := (t.proc p).sz, space := space t.phys.mem r } :=
    Proc.image_of_some hr _
  have hbound := (hmem.userSpace_le (i := some p) hr htable.user).trans npages_lt.le
  have hmapped : ∀ v, pages newsz ≤ v → v < pages (t.proc p).sz → view t.phys.mem r v ≠ none :=
    fun v _ hv => (htable.user v (hv.trans_le hbound)).mpr hv
  refine wp_imp (uvmdealloc_spec hmem (i := some p) hr hbound hmapped) ?_
  rintro sz s' ⟨rfl, h', hframe, hgone, hno⟩
  have hspace : UserSpace s'.mem r (pages (min newsz (t.proc p).sz)) := by
    intro v hv
    have hmin : pages (min newsz (t.proc p).sz) = min (pages newsz) (pages (t.proc p).sz) :=
      Monotone.map_min fun _ _ => pages_mono
    by_cases hin : pages newsz ≤ v ∧ v < pages (t.proc p).sz
    · rw [hgone v hin.1 hin.2]
      exact iff_of_false (absurd rfl) (by omega)
    · rw [hframe.view (i := some p) hr hv fun hc => hin hc.2, htable.user v hv]
      omega
  obtain ⟨hinv, himage'⟩ := h.setUser hr htf htable hlive h' hheld
    (hframe.widen (Nat.zero_le _) hbound).toFrame hspace
  refine ⟨hinv, hno, ?_⟩
  rw [himage', himage, Option.map_some, UserImage.shrink]
  split_ifs with hge
  · have hmin : min newsz (t.proc p).sz = (t.proc p).sz := min_eq_right hge
    have hpages : pages (t.proc p).sz ≤ pages newsz := pages_mono hge
    rw [hmin, hframe.space (i := some p) hr fun v _ hc => by have := hc.2; omega]
  · rw [min_eq_left (by simp only at hge; omega),
      hframe.space_shrink (i := some p) hr htable.user hgone]

/-- The reference for `sbrk`. -/
def UserImage.sbrk (im : UserImage) (n : Int) : UserImage :=
  if n > 0 then im.grow (addInt im.sz n) PTE_W
  else if n < 0 then im.shrink (addInt im.sz n)
  else im

section

variable (h : SysInv t) (hlive : (t.proc p).state ≠ .unused)
include h hlive

lemma SysInv.growproc_inv (n : Int) :
    wp (growproc p n) E (fun _ t' => SysInv t' ∧ t'.kpages = t.kpages) t := by
  obtain ⟨r, tf, hr, -⟩ := h.live hlive
  unfold growproc
  rw [wp_bind, wp_getProc, wp_ite, hr]
  refine ⟨fun _ => ?_, fun _ => ?_⟩
  · rw [wp_bind, wp_deref_some, wp_bind, wp_onPhys]
    refine wp_imp (h.uvmalloc_inv hlive hr xPerm_PTE_W _) ?_
    rintro sz s' ⟨hc, -⟩
    have hinv := hc.1
    unfold Sys.grown at hinv
    split_ifs at hinv ⊢
    · exact ⟨hinv, rfl⟩
    · exact ⟨hinv, rfl⟩
  · rw [wp_ite]
    refine ⟨fun _ => ?_, fun _ => ⟨h, rfl⟩⟩
    rw [wp_bind, wp_deref_some, wp_bind, wp_onPhys]
    exact wp_imp (h.uvmdealloc_inv hlive hr _) fun _ _ hc => ⟨hc.1, rfl⟩

/-- Bytes are stored in the memory of `p`. -/
lemma SysInv.stored_image (hr : (t.proc p).pagetable = some r) (hmem : MemInv s' t.roots ker)
    (hheld : Held t.trapframes t.kpages ker)
    (hframe : Frame t.phys s' t.roots ker (Within (some p) 0 NUSER))
    (hst : space s'.mem r = (space t.phys.mem r).stores va bs) :
    SysInv (t.setPhys s') ∧ (t.setPhys s').image
      = update t.image p ((t.image p).map fun im => im.stores va bs) := by
  obtain ⟨_, tf, hr', htf, htable⟩ := h.live hlive
  rw [hr, Option.some.injEq] at hr'
  subst hr'
  have hspace : UserSpace s'.mem r (pages (t.proc p).sz) := by
    have huser := htable.user
    rw [userSpace_iff] at huser ⊢
    intro v hv
    rw [hst, AddrSpace.isSome_stores]
    exact huser v hv
  obtain ⟨hinv, himage⟩ := h.setUser hr htf htable hlive hmem hheld hframe hspace
  rw [← Sys.setPhys_eq_setProc t p s' rfl] at hinv himage
  refine ⟨hinv, ?_⟩
  rw [himage, Sys.image, Proc.image_of_some hr, Option.map_some, UserImage.stores, hst]

lemma SysInv.stored (hr : (t.proc p).pagetable = some r) (hmem : MemInv s' t.roots ker)
    (hheld : Held t.trapframes t.kpages ker)
    (hframe : Frame t.phys s' t.roots ker (Within (some p) 0 NUSER)) (hno : s'.nomem = t.phys.nomem)
    (hst : space s'.mem r = (space t.phys.mem r).stores va bs) :
    Changed t (t.setPhys s') p (fun im => im.stores va bs) :=
  have ⟨hinv, himage⟩ := h.stored_image hlive hr hmem hheld hframe hst
  ⟨hinv, Or.inl ⟨hno, himage⟩⟩

lemma SysInv.userStore_inv (hr : (t.proc p).pagetable = some r) (va : Nat) (b : UInt8)
    (hE : t.phys.freelist = [] → E .cowallocKalloc) : wp (userStore r va b) E (fun _ s' =>
      Changed t (t.setPhys s') p (fun im => im.stores va [b])) t.phys := by
  obtain ⟨ker, hmem, hheld⟩ := h.mem
  refine wp_imp (userStore_spec hmem (i := some p) hr va b hE) ?_
  rintro res s' ⟨h', hno, hframe, hres⟩
  refine h.stored hlive hr h' hheld hframe hno ?_
  unfold AddrSpace.stores
  obtain ⟨-, hst, hsame⟩ | ⟨-, hst⟩ := hres
  · rw [hst, hsame]
  · rw [hst]
    rfl

lemma SysInv.copyout_inv (hr : (t.proc p).pagetable = some r) (va : Nat) (bs : List UInt8)
    (hE : Starves r va bs t.phys → E .cowallocKalloc) : wp (copyout r va bs) E (fun _ s' =>
      Changed t (t.setPhys s') p (fun im => im.stores va bs)) t.phys := by
  obtain ⟨ker, hmem, hheld⟩ := h.mem
  refine wp_imp (copyout_spec hmem (i := some p) hr va bs hE) ?_
  rintro res s' ⟨h', hno, hframe, hst, -⟩
  exact h.stored hlive hr h' hheld hframe hno hst

end

end Xv6
