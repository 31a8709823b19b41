import Xv6.Kernel.SystemSpec

/-!
# `exec`, `exit` and `wait` keep the invariant

`exec` builds its table beside the one of the process and puts it in that one's place at the end.
-/

namespace Xv6

open Function Lib

variable [Layout] {E : Panic → Prop} {t t' : Sys} {p : Fin NPROC} {q r sz sp : Nat}
  {ker : Nat → Option Holder} {ks : List Nat}

/-! ### Replacing a page table -/

omit [Layout] in
/-- The tables once the new one, kept apart so far, is the table of `p` and the old one apart. -/
lemma roots_swap {roots : TableId → Option Nat} (hr : roots (some p) = some r) :
    (fun j => update roots none (some q) (Equiv.swap none (some p) j))
      = update (update roots (some p) (some q)) none (some r) := by
  have hnone : ∀ u : Fin NPROC, (some u : TableId) ≠ none := fun _ => nofun
  funext j
  cases j with
  | none => rw [Equiv.swap_apply_left, update_of_ne (hnone p), update_self, hr]
  | some u =>
    rw [update_of_ne (hnone u)]
    by_cases hu : u = p
    · subst hu
      rw [Equiv.swap_apply_right, update_self, update_self]
    · have hne : some u ≠ some p := fun hc => hu (Option.some.inj hc)
      rw [Equiv.swap_apply_of_ne_of_ne (hnone u) hne, update_of_ne (hnone u),
        update_of_ne hne]

/-- The end of `exec`: the new table takes the place of the old one, which is freed. -/
lemma SysInv.exec_commit (h : SysInv t) (hlive : (t.proc p).state ≠ .unused) {s : Phys} {tf : Nat}
    (hr : (t.proc p).pagetable = some r) (htf : (t.proc p).trapframe = some tf)
    (hmem : MemInv s (update t.roots none (some q)) ker) (hheld : Held t.trapframes t.kpages ker)
    (hsame : Same t.phys s t.roots) (hnew : ProcTable s.mem q (pages sz) tf) :
    wp (procFreepagetable r (t.proc p).sz) E (fun _ s' =>
      SysInv ((t.setPhys s').setProc p { t.proc p with pagetable := some q, sz := sz }) ∧
      Frame s s' (update t.roots (some p) (some q)) ker (fun _ _ => False)) s := by
  have hswap := hmem.rename (Equiv.swap none (some p))
  rw [roots_swap (show t.roots (some p) = some r from hr)] at hswap
  have hold : ProcTable s.mem r (pages (t.proc p).sz) tf := by
    obtain ⟨_, _, hr', htf', htable⟩ := h.live hlive
    rw [hr, Option.some.injEq] at hr'
    rw [htf, Option.some.injEq] at htf'
    subst hr' htf'
    exact hsame.procTable (i := some p) hr (fun _ => id) htable
  refine wp_imp (procFreepagetable_spec hswap (i := none) (update_self ..) hold) ?_
  rintro - s' ⟨h', hframe, -⟩
  have hroots : update (update (update t.roots (some p) (some q)) none
      (some r)) none none = update t.roots (some p) (some q) := by
    rw [update_idem, update_eq_self_iff, update_of_ne (by nofun)]
    rfl
  rw [hroots] at h' hframe
  have htfs : update t.trapframes p (t.proc p).trapframe = t.trapframes :=
    update_eq_self_iff.mpr rfl
  refine ⟨h.setProc (by rfl) h' (by rw [htfs]; exact hheld) (.live hlive rfl htf ?_) ?_,
    hframe.toFrame⟩
  · exact hframe.procTable (i := some p) (update_self ..) (fun _ => id) hnew
  · exact fun hu hru ht => hframe.tables hu hru (hsame.procTable hru (fun _ => id) ht)

/-! ### `exec` -/

/-- `exec` has given back all that it had taken: neither the tables nor the pages that anybody sees
or holds have changed. -/
structure Restored (t t' : Sys) : Prop where
  inv : SysInv t'
  sys : t' = t.setPhys t'.phys
  frame : ∃ ker, MemInv t.phys t.roots ker ∧ MemInv t'.phys t.roots ker ∧
    Held t.trapframes t.kpages ker ∧ Framed t.phys t'.phys t.roots ker (fun _ _ => False)

lemma Restored.refl (h : SysInv t) : Restored t t := by
  obtain ⟨ker, hmem, hheld⟩ := h.mem
  exact ⟨h, rfl, ker, hmem, hmem, hheld, .refl _ _ _ _⟩

lemma SysInv.restored (h : SysInv t) {s' : Phys} (hmem : MemInv t.phys t.roots ker)
    (hmem' : MemInv s' t.roots ker) (hheld : Held t.trapframes t.kpages ker)
    (hframe : Framed t.phys s' t.roots ker (fun _ _ => False)) : Restored t (t.setPhys s') :=
  ⟨(h.setPhys_same hmem' hheld hframe.same).1, rfl, ker, hmem, hmem', hheld, hframe⟩

/-- The header of a program file. -/
def elfOf (file : List UInt8) : Elfhdr := Elfhdr.ofBytes (readi file 0 sizeofElfhdr)

/-- The process runs a new image of the size `sz`, with its arguments at `sp`. -/
structure Execed (t t' : Sys) (p : Fin NPROC) (file : List UInt8) (argv : List (List UInt8))
    (sz sp : Nat) (A : AddrSpace) : Prop where
  inv : SysInv t'
  image : ExecImage file (elfOf file) argv sz sp A
  table : ∃ q, t'.proc p = { t.proc p with pagetable := some q, sz := sz } ∧
    space t'.phys.mem q = A
  others : ∀ u, u ≠ p → t'.proc u = t.proc u ∧ t'.image u = t.image u
  trapframe : ∀ {tf}, (t.proc p).trapframe = some tf →
    Mem.leNat t'.phys.mem (tf + trapframeA1) 8 = sp ∧
    Mem.leNat t'.phys.mem (tf + trapframeEpc) 8 = (elfOf file).entry ∧
    Mem.leNat t'.phys.mem (tf + trapframeSp) 8 = sp
  kpages : t'.kpages = t.kpages

omit [Layout] in
lemma pushSp_lt (sp n : Nat) : pushSp sp n < 2 ^ 64 := by
  unfold pushSp
  exact (Nat.sub_le _ _).trans_lt (Nat.mod_lt _ (Nat.two_pow_pos 64))

omit [Layout] in
lemma ExecImage.sp_lt {file : List UInt8} {elf : Elfhdr} {argv : List (List UInt8)} {A : AddrSpace}
    (h : ExecImage file elf argv sz sp A) : sp < 2 ^ 64 := by
  obtain ⟨phs, n, A₀, -, -, -, -, hstack⟩ := h.exists_segments
  unfold refStack at hstack
  split at hstack
  · cases hstack
  · dsimp only at hstack
    split_ifs at hstack
    rw [Option.some.injEq, Prod.mk.injEq] at hstack
    rw [← hstack.1]
    exact pushSp_lt _ _

/-- The three fields of the trapframe that `exec` sets. -/
def setTrapframe (m : Mem) (tf sp entry : Nat) : Mem :=
  ((m.store (tf + trapframeA1) 8 sp).store (tf + trapframeEpc) 8 entry).store
    (tf + trapframeSp) 8 sp

omit [Layout] in
lemma sameOutside_setTrapframe (m : Mem) (tf sp entry : Nat) :
    SameOutside m (setTrapframe m tf sp entry) tf := by
  have hone : ∀ (m : Mem) (field v : Nat), field + 8 ≤ PGSIZE →
      SameOutside m (m.store (tf + field) 8 v) tf :=
    fun m field v hf => sameOutside_store (by omega) (by omega)
  exact ((hone _ _ _ (by decide)).trans (hone _ _ _ (by decide))).trans (hone _ _ _ (by decide))

omit [Layout] in
lemma setTrapframe_words (m : Mem) (tf : Nat) {entry : Nat} (hsp : sp < 2 ^ 64)
    (hentry : entry < 2 ^ 64) : Mem.leNat (setTrapframe m tf sp entry) (tf + trapframeA1) 8 = sp ∧
      Mem.leNat (setTrapframe m tf sp entry) (tf + trapframeEpc) 8 = entry ∧
      Mem.leNat (setTrapframe m tf sp entry) (tf + trapframeSp) 8 = sp := by
  have hword : (256 : Nat) ^ 8 = 2 ^ 64 := by decide
  unfold setTrapframe trapframeA1 trapframeEpc trapframeSp
  refine ⟨?_, ?_, ?_⟩
  · rw [Mem.leNat_store_of_disjoint (by omega), Mem.leNat_store_of_disjoint (by omega),
      Mem.leNat_store, hword, Nat.mod_eq_of_lt hsp]
  · rw [Mem.leNat_store_of_disjoint (by omega), Mem.leNat_store, hword, Nat.mod_eq_of_lt hentry]
  · rw [Mem.leNat_store, hword, Nat.mod_eq_of_lt hsp]

/-- `exec` leaves everything as it was, or the process has the image that the file and the
arguments describe. It never panics. -/
lemma SysInv.exec_spec (h : SysInv t) (hlive : (t.proc p).state ≠ .unused)
    (file : Option (List UInt8)) (argv : List (List UInt8)) :
    wp (exec p file argv) E (fun res t' => (res = -1 ∧ Restored t t') ∨
      ∃ f sz sp A, file = some f ∧ res = argv.length ∧ Execed t t' p f argv sz sp A) t := by
  unfold exec
  cases file with
  | none => exact Or.inl ⟨rfl, .refl h⟩
  | some file =>
    rw [wp_ite]
    refine ⟨fun _ => Or.inl ⟨rfl, .refl h⟩, fun _ => ?_⟩
    rw [wp_ite]
    refine ⟨fun _ => Or.inl ⟨rfl, .refl h⟩, fun _ => ?_⟩
    obtain ⟨ker, hmem, hheld⟩ := h.mem
    obtain ⟨r, tf, hr, htf, htable⟩ := h.live hlive
    simp only [wp_bind, wp_getProc, htf, wp_deref_some, wp_onPhys]
    refine wp_imp (procPagetable_spec hmem (i := none) rfl tf) ?_
    rintro res s₁ ⟨hframe1, ⟨rfl, h1, -⟩ | ⟨q, rfl, h1, htable1, -⟩⟩
    · exact Or.inl ⟨rfl, h.restored hmem h1 hheld hframe1⟩
    have hq : update t.roots none (some q) none = some q := update_self ..
    have hnone : t.roots none = none := rfl
    simp only [wp_bind, wp_onPhys]
    refine wp_imp (execImage_spec h1 (i := none) hq htable1.user) ?_
    rintro ⟨sz, osp⟩ s₂ (⟨rfl, h2⟩ | ⟨sp, A, rfl, himage, h2⟩)
    · -- bad: the new table is freed
      have htable2 : ProcTable s₂.mem q (pages sz) tf :=
        htable1.setUser (fun v hv hv' => h2.frame.top (i := none) hq hv hv' (by
          rintro ⟨-, -, hc⟩
          omega)) h2.space
      simp only [wp_bind, wp_onPhys]
      refine wp_imp (procFreepagetable_spec h2.mem (i := none) hq htable2) ?_
      rintro - s₃ ⟨h3, hframe3, -⟩
      have hroots : update (update t.roots none (some q)) none none
          = t.roots := by
        rw [update_idem, update_eq_self_iff]
        rfl
      rw [hroots] at h3 hframe3
      exact Or.inl ⟨rfl, h.restored hmem h3 hheld
        ((hframe1.trans (h2.frame.of_update hnone)).trans hframe3)⟩
    · obtain ⟨htfpage, hk⟩ := hheld.isPage_trapframe htf
      have hspace2 : UserSpace s₂.mem q (pages sz) := by
        rw [userSpace_iff, h2.space]
        exact himage.mapped
      have htable2 : ProcTable s₂.mem q (pages sz) tf :=
        htable1.setUser (fun v hv hv' => h2.frame.top (i := none) hq hv hv' (by
          rintro ⟨-, -, hc⟩
          omega)) hspace2
      simp only [wp_bind, wp_onPhys, Sys.setPhys_phys, hr, wp_deref_some, wp_setProc,
        Sys.setPhys_setProc, Sys.setProc_phys, Sys.setPhys_setPhys, Sys.setPhys_proc, wp_pure]
      -- the stores to the trapframe
      set s₃ : Phys := { s₂ with mem := setTrapframe s₂.mem tf sp (elfOf file).entry } with hs₃
      obtain ⟨h3, hsame3⟩ := h2.mem.writeHeld htfpage hk
        (sameOutside_setTrapframe s₂.mem tf sp (elfOf file).entry)
      have hsame : Same t.phys s₃ t.roots :=
        ((hframe1.toFrame.trans (h2.frame.of_update hnone).toFrame).same).trans
          (hsame3.mono (fun _ _ hj => roots_update_of_some hnone hj) (fun _ hc => absurd rfl hc)
            fun _ _ _ => id)
      show wp (procFreepagetable r (t.proc p).sz) E _ s₃
      refine wp_imp (h.exec_commit hlive hr htf h3 hheld hsame
        (hsame3.procTable (i := none) hq (fun _ => id) htable2)) ?_
      rintro - s' ⟨h', hframe⟩
      have hnew : update t.roots (some p) (some q) (some p) = some q :=
        update_self ..
      refine Or.inr ⟨file, sz, sp, A, rfl, trivial, h', himage,
        ⟨q, Sys.setProc_proc_self .., ?_⟩, ?_, ?_, rfl⟩
      · show space s'.mem q = A
        rw [hframe.space (i := some p) hnew fun _ _ => id,
          hsame3.space (i := none) hq fun _ _ => id, h2.space]
      · intro u hu
        have hproc : ((t.setPhys s').setProc p
            { t.proc p with pagetable := some q, sz := sz }).proc u = t.proc u :=
          Sys.setProc_proc_of_ne _ hu _
        refine ⟨hproc, ?_⟩
        unfold Sys.image
        rw [hproc]
        cases hru : (t.proc u).pagetable with
        | none => rw [Proc.image_of_none hru, Proc.image_of_none hru]
        | some ru =>
          have hne : update t.roots (some p) (some q) (some u) = some ru := by
            rw [update_of_ne (fun hc => hu (Option.some.inj hc))]
            exact hru
          rw [Proc.image_of_some hru, Proc.image_of_some hru]
          have hspace : space s'.mem ru = space t.phys.mem ru :=
            (hframe.space (i := some u) hne fun _ _ => id).trans
              (hsame.space (i := some u) hru fun _ _ => id)
          exact congrArg (fun A => some (UserImage.mk (t.proc u).sz A)) hspace
      · intro tf' htf'
        rw [htf, Option.some.injEq] at htf'
        subst htf'
        have hpage := hframe.held htfpage (by simp [hk])
        have hword : ∀ {field}, field + 8 ≤ PGSIZE →
            Mem.leNat s'.mem (tf + field) 8 = Mem.leNat s₃.mem (tf + field) 8 := by
          intro field hfield
          apply Mem.leNat_congr
          intro x hx hx'
          have ho := hpage (x - tf) (by omega)
          rwa [Nat.add_sub_cancel' (by omega)] at ho
        obtain ⟨hA1, hEpc, hSp⟩ := setTrapframe_words s₂.mem tf himage.sp_lt
          (show (elfOf file).entry < 2 ^ 64 from field_lt _ _)
        exact ⟨(hword (by decide)).trans hA1, (hword (by decide)).trans hEpc,
          (hword (by decide)).trans hSp⟩

lemma SysInv.exec_inv (h : SysInv t) (hlive : (t.proc p).state ≠ .unused)
    (file : Option (List UInt8)) (argv : List (List UInt8)) :
    wp (exec p file argv) E (fun _ t' => SysInv t' ∧ t'.kpages = t.kpages) t := by
  refine wp_imp (h.exec_spec hlive file argv) ?_
  rintro res t' (⟨-, hback⟩ | ⟨f, sz, sp, A, -, -, hdone⟩)
  · exact ⟨hback.inv, by rw [hback.sys]; rfl⟩
  · exact ⟨hdone.inv, hdone.kpages⟩

/-! ### Pages for the rest of the kernel -/

lemma SysInv.kallocPage_inv (h : SysInv t) :
    wp kallocPage E (fun res t' => SysInv t' ∧ t'.proc = t.proc ∧
      ((res = none ∧ t'.kpages = t.kpages) ∨
        ∃ q, res = some q ∧ IsPage q ∧ t'.kpages = q :: t.kpages)) t := by
  obtain ⟨ker, hmem, hheld⟩ := h.mem
  unfold kallocPage
  rw [wp_bind, wp_onPhys]
  refine wp_imp (kalloc_spec hmem .other) ?_
  rintro res s' (⟨rfl, -, rfl⟩ | ⟨q, rfl, hq, hkq, -, h1, -, hquiet⟩)
  · have hquiet : Quiet t.phys { t.phys with nomem := t.phys.nomem + 1 } t.roots ker :=
      quiet_of_mem_eq rfl
    exact ⟨(h.setPhys_same (hmem.setNomem _) hheld (hquiet.frame _).same).1, rfl,
      Or.inl ⟨rfl, rfl⟩⟩
  · refine ⟨⟨⟨_, h1, hheld.push hq hkq⟩, fun u => ?_⟩, rfl, Or.inr ⟨q, rfl, hq, rfl⟩⟩
    exact (h.proc u).keep fun hr =>
      (hquiet.frame fun _ _ => False).procTable (i := some u) hr fun _ => id

lemma SysInv.kfreePage_inv (h : SysInv t) (hq : q ∈ t.kpages) :
    wp (kfreePage q) E (fun _ t' => SysInv t' ∧ t'.proc = t.proc ∧
      t'.kpages = t.kpages.erase q) t := by
  obtain ⟨ker, hmem, hheld⟩ := h.mem
  have hk := hheld.other.mpr hq
  unfold kfreePage
  rw [wp_bind, wp_onPhys]
  refine wp_imp (kfree_spec hmem (hheld.page (by simp [hk])) hk) ?_
  rintro - s' ⟨-, h1, hquiet, -⟩
  refine ⟨⟨⟨_, h1, hheld.erase hq⟩, fun u => ?_⟩, rfl, rfl⟩
  exact (h.proc u).keep fun hr =>
    (hquiet.frame fun _ _ => False).procTable (i := some u) hr fun _ => id

/-- The pages on top of `ks` are freed in the order in which they came. -/
lemma SysInv.kfreePages_inv : ∀ {qs : List Nat} {t : Sys}, SysInv t →
    t.kpages = qs.reverse ++ ks →
    wp (kfreePages qs) E (fun _ t' => SysInv t' ∧ t'.kpages = ks) t := by
  intro qs
  induction qs with
  | nil =>
    intro t h hk
    exact ⟨h, hk⟩
  | cons q qs ih =>
    intro t h hk
    rw [List.reverse_cons, List.append_assoc, List.singleton_append] at hk
    have hnodup : (qs.reverse ++ q :: ks).Nodup := by
      obtain ⟨ker, -, hheld⟩ := h.mem
      rw [← hk]
      exact hheld.nodup
    unfold kfreePages
    rw [wp_bind]
    refine wp_imp (h.kfreePage_inv (by simp [hk])) ?_
    rintro - t₁ ⟨h1, -, hk1⟩
    refine ih h1 ?_
    rw [hk1, hk, List.erase_append_right _ fun hq => (List.disjoint_of_nodup_append hnodup) hq
      List.mem_cons_self, List.erase_cons_head]

/-- The buffers of `sys_exec` come on top of the pages that the kernel had. -/
lemma SysInv.fetchArgs_inv : ∀ {args : List UserArg} {bufs : List Nat} {t : Sys},
    SysInv t → t.kpages = bufs.reverse ++ ks →
    wp (fetchArgs args bufs) E (fun res t' => SysInv t' ∧ t'.proc = t.proc ∧
      t'.kpages = res.1.reverse ++ ks) t := by
  intro args
  induction args with
  | nil =>
    intro bufs t h hb
    exact ⟨h, rfl, hb⟩
  | cons arg args ih =>
    intro bufs t h hb
    unfold fetchArgs
    rw [wp_ite]
    refine ⟨fun _ => ⟨h, rfl, hb⟩, fun _ => ?_⟩
    have hpush : ∀ {t' : Sys} {q}, t'.kpages = q :: t.kpages →
        t'.kpages = (bufs ++ [q]).reverse ++ ks := by
      intro t' q hk
      simp [hk, hb]
    cases arg with
    | badAddr => exact ⟨h, rfl, hb⟩
    | badStr =>
      simp only [wp_bind]
      refine wp_imp h.kallocPage_inv ?_
      rintro res t₁ ⟨h1, hproc, ⟨rfl, hk⟩ | ⟨q, rfl, -, hk⟩⟩
      · exact ⟨h1, hproc, hk.trans hb⟩
      · exact ⟨h1, hproc, hpush hk⟩
    | str bytes =>
      simp only [wp_bind]
      refine wp_imp h.kallocPage_inv ?_
      rintro res t₁ ⟨h1, hproc, ⟨rfl, hk⟩ | ⟨q, rfl, hq, hk⟩⟩
      · exact ⟨h1, hproc, hk.trans hb⟩
      obtain ⟨ker, hmem, hheld⟩ := h1.mem
      have hkq : ker q = some .other := hheld.other.mpr (by rw [hk]; exact List.mem_cons_self)
      obtain ⟨h2, hsame2⟩ := hmem.writeHeld hq hkq (sameOutside_write t₁.phys.mem
        ((bytes ++ [0]).take PGSIZE) (le_refl q)
        (Nat.add_le_add_left (List.length_take_le _ _) _))
      obtain ⟨hinv, -⟩ := h1.setPhys_same h2 hheld hsame2
      simp only [wp_bind, wp_onPhys, wp_modify]
      rw [wp_ite]
      refine ⟨fun _ => ⟨hinv, hproc, hpush hk⟩, fun _ => ?_⟩
      refine wp_imp (ih hinv (hpush hk)) ?_
      rintro res t' ⟨h', hproc', hb'⟩
      exact ⟨h', hproc'.trans hproc, hb'⟩

/-- All buffers are given back. -/
lemma SysInv.sysExec_inv (h : SysInv t) (hlive : (t.proc p).state ≠ .unused)
    (file : Option (List UInt8)) (args : List UserArg) :
    wp (sysExec p file args) E (fun _ t' => SysInv t' ∧ t'.kpages = t.kpages) t := by
  unfold sysExec
  rw [wp_bind]
  refine wp_imp (h.fetchArgs_inv (List.nil_append _).symm) ?_
  rintro ⟨bufs, ok⟩ t₁ ⟨h1, hproc, hb⟩
  cases ok with
  | false =>
    simp only [Bool.false_eq_true, if_false, wp_bind, wp_pure]
    exact h1.kfreePages_inv hb
  | true =>
    simp only [if_true, wp_bind, wp_pure]
    refine wp_imp (h1.exec_inv (by rw [hproc]; exact hlive) _ _) ?_
    rintro - t₂ ⟨h2, hk⟩
    exact h2.kfreePages_inv (hk.trans hb)

/-! ### `exit` and `wait` -/

/-- Changes to the process table that memory does not depend on. -/
lemma SysInv.congr (h : SysInv t) (hphys : t'.phys = t.phys) (hkpages : t'.kpages = t.kpages)
    (hpt : ∀ q, (t'.proc q).pagetable = (t.proc q).pagetable)
    (htf : ∀ q, (t'.proc q).trapframe = (t.proc q).trapframe)
    (hsz : ∀ q, (t'.proc q).sz = (t.proc q).sz)
    (hstate : ∀ q, (t'.proc q).state = .unused ↔ (t.proc q).state = .unused) : SysInv t' := by
  obtain ⟨ker, hmem, hheld⟩ := h.mem
  have hroots : t'.roots = t.roots := by
    funext j
    cases j with
    | none => rfl
    | some q => exact hpt q
  have htfs : t'.trapframes = t.trapframes := funext htf
  refine ⟨⟨ker, ?_, ?_⟩, fun q => ?_⟩
  · rw [hphys, hroots]
    exact hmem
  · rw [htfs, hkpages]
    exact hheld
  · rw [hphys]
    cases h.proc q with
    | unused h1 h2 h3 h4 =>
      exact .unused ((hstate q).mpr h1) ((hpt q).trans h2) ((htf q).trans h3) ((hsz q).trans h4)
    | live h1 h2 h3 h4 =>
      refine .live (fun hc => h1 ((hstate q).mp hc)) ((hpt q).trans h2) ((htf q).trans h3) ?_
      rw [hsz]
      exact h4

/-- A process changes its state, its parent, `killed` or `xstate`. -/
lemma SysInv.setProc_congr (h : SysInv t) {x : Proc} (hpt : x.pagetable = (t.proc p).pagetable)
    (htf : x.trapframe = (t.proc p).trapframe) (hsz : x.sz = (t.proc p).sz)
    (hstate : x.state = .unused ↔ (t.proc p).state = .unused) : SysInv (t.setProc p x) := by
  have hcases : ∀ q, (t.setProc p x).proc q = t.proc q ∨ (q = p ∧ (t.setProc p x).proc q = x) := by
    intro q
    by_cases hq : q = p
    · subst hq
      exact Or.inr ⟨rfl, t.setProc_proc_self q x⟩
    · exact Or.inl (t.setProc_proc_of_ne hq x)
  refine h.congr rfl rfl ?_ ?_ ?_ ?_
  all_goals
    intro q
    obtain heq | ⟨rfl, heq⟩ := hcases q
    · rw [heq]
    · rw [heq]
      assumption

lemma SysInv.exit_inv (h : SysInv t) (hlive : (t.proc p).state ≠ .unused)
    (hE : E .initExiting) (status : Int) :
    wp (exit p status) E (fun _ t' => SysInv t' ∧ t'.kpages = t.kpages) t := by
  have hreparent : wp (reparent p) E (fun _ t' => SysInv t' ∧ t'.kpages = t.kpages ∧
      (t'.proc p).state ≠ .unused) t := by
    refine ⟨?_, rfl, ?_⟩
    · refine h.congr rfl rfl ?_ ?_ ?_ ?_ <;> intro q <;> simp only <;> split_ifs <;> rfl
    · simp only
      split_ifs <;> exact hlive
  unfold exit
  rw [wp_bind, wp_get, wp_bind, wp_panicIf]
  refine ⟨fun _ => hE, fun _ => ?_⟩
  rw [wp_bind]
  refine wp_imp hreparent ?_
  rintro - t₁ ⟨h1, hk, hlive1⟩
  rw [wp_setProc]
  exact ⟨h1.setProc_congr rfl rfl rfl (iff_of_false (by simp) hlive1), hk⟩

lemma SysInv.wait_inv (h : SysInv t) (hrunning : (t.proc p).state = .running)
    (hE : E .cowallocKalloc) (addr : Nat) :
    wp (wait p addr) E (fun _ t' => SysInv t' ∧ t'.kpages = t.kpages) t := by
  have hlive : (t.proc p).state ≠ .unused := by
    simp [hrunning]
  obtain ⟨r, -, hr, -⟩ := h.live hlive
  unfold wait
  rw [wp_bind, wp_get]
  cases findProc t fun x => x.parent == some p && x.state == .zombie with
  | some q =>
    simp only [wp_bind, wp_getProc, hr]
    have hcopy : wp (if addr ≠ 0 then do
          let pagetable ← deref (some r)
          onPhys (copyout pagetable addr (intBytes (t.proc q).xstate))
        else pure 0 : SysM Int) E (fun _ t' => SysInv t' ∧ t'.kpages = t.kpages) t := by
      rw [wp_ite]
      refine ⟨fun _ => ?_, fun _ => ⟨h, rfl⟩⟩
      rw [wp_bind, wp_deref_some, wp_onPhys]
      exact wp_imp (h.copyout_inv hlive hr _ _ fun _ => hE) fun _ _ hc => ⟨hc.1, rfl⟩
    refine wp_imp hcopy ?_
    rintro res t₁ ⟨h1, hk⟩
    rw [wp_ite]
    refine ⟨fun _ => ⟨h1, hk⟩, fun _ => ?_⟩
    rw [wp_bind]
    exact wp_imp h1.freeproc_inv fun _ _ hc => ⟨hc.1, hc.2.2.2.2.1.trans hk⟩
  | none =>
    rw [wp_ite]
    refine ⟨fun _ => ⟨h, rfl⟩, fun _ => ?_⟩
    rw [wp_bind, wp_setProc]
    exact ⟨h.setProc_congr rfl rfl rfl (iff_of_false (by simp) hlive), rfl⟩

end Xv6
