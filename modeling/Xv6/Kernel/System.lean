import Xv6.Kernel.ExecSpec

/-!
# The invariant of the system

`SysInv` joins the ownership of pages to the process table: the page tables are those of the
processes, the kernel holds their trapframes and the pages in `kpages`, and every page table has
the layout that the size of its process asks for. The functions of `proc.c` keep it.

`Sys.image` is what the system is for: the memory of each process, as it sees it.
-/

namespace Xv6

open Function Lib

variable {α : Type} {x : Proc} {s s' : Phys} {u : Fin NPROC} {r : Nat} {Q : α → Sys → Prop}

/-- What the kernel has a page for. -/
inductive Holder where
  | trapframe (p : Fin NPROC)
  | other
  deriving DecidableEq, Inhabited

/-- The page table of a process, or the one that `exec` is building. -/
abbrev TableId := Option (Fin NPROC)

def Sys.roots (t : Sys) : TableId → Option Nat
  | none => none
  | some p => (t.proc p).pagetable

def Sys.trapframes (t : Sys) (p : Fin NPROC) : Option Nat := (t.proc p).trapframe

section

variable (t : Sys) (p : Fin NPROC) (x y : Proc) (s s' : Phys)

@[simp] lemma Sys.setPhys_phys : (t.setPhys s).phys = s := rfl

@[simp] lemma Sys.setPhys_proc : (t.setPhys s).proc = t.proc := rfl

@[simp] lemma Sys.setPhys_setPhys : (t.setPhys s).setPhys s' = t.setPhys s' := rfl

@[simp] lemma Sys.setPhys_setProc : (t.setProc p x).setPhys s = (t.setPhys s).setProc p x := rfl

@[simp] lemma Sys.setProc_phys : (t.setProc p x).phys = t.phys := rfl

@[simp] lemma Sys.setProc_proc_self : (t.setProc p x).proc p = x := update_self ..

@[simp] lemma Sys.setProc_setProc : (t.setProc p x).setProc p y = t.setProc p y := by
  simp [Sys.setProc, update_idem]

end

lemma Sys.setProc_proc_of_ne (t : Sys) {p q : Fin NPROC} (h : q ≠ p) (x : Proc) :
    (t.setProc p x).proc q = t.proc q := update_of_ne h ..

@[simp] lemma Sys.roots_setProc (t : Sys) (p : Fin NPROC) (x : Proc) :
    (t.setProc p x).roots = update t.roots (some p) x.pagetable := by
  funext j
  cases j with
  | none => rfl
  | some q =>
    by_cases hq : q = p
    · subst hq
      rw [update_self]
      exact congrArg Proc.pagetable (t.setProc_proc_self q x)
    · rw [update_of_ne (fun hc => hq (Option.some.inj hc))]
      exact congrArg Proc.pagetable (t.setProc_proc_of_ne hq x)

@[simp] lemma Sys.trapframes_setProc (t : Sys) (p : Fin NPROC) (x : Proc) :
    (t.setProc p x).trapframes = update t.trapframes p x.trapframe := by
  funext q
  by_cases hq : q = p
  · subst hq
    rw [update_self]
    exact congrArg Proc.trapframe (t.setProc_proc_self q x)
  · rw [update_of_ne hq]
    exact congrArg Proc.trapframe (t.setProc_proc_of_ne hq x)

/-! ### Rules for the commands -/

section Rules

variable {E : Panic → Prop} {t : Sys}

@[simp] lemma wp_onPhys {m : PhysM α} :
    wp (onPhys m) E Q t ↔ wp m E (fun a s' => Q a (t.setPhys s')) t.phys := wp_zoom

@[simp] lemma wp_setProc {p : Fin NPROC} {f : Proc → Proc} {Q : Unit → Sys → Prop} :
    wp (setProc p f) E Q t ↔ Q () (t.setProc p (f (t.proc p))) := Iff.rfl

@[simp] lemma wp_getProc {p : Fin NPROC} {Q : Proc → Sys → Prop} :
    wp (getProc p) E Q t ↔ Q (t.proc p) t := Iff.rfl

@[simp] lemma wp_deref_some {x : α} : wp (deref (some x)) E Q t ↔ Q x t := Iff.rfl

@[simp] lemma wp_allocpid {Q : Int → Sys → Prop} :
    wp allocpid E Q t ↔ Q t.nextpid { t with nextpid := t.nextpid + 1 } := Iff.rfl

end Rules

variable [Layout] {E : Panic → Prop} {t t' : Sys} {p : Fin NPROC} {roots : TableId → Option Nat}

/-! ### The pages that the kernel holds -/

/-- `ker` says what the kernel holds: these trapframes, and these other pages. -/
structure Held (tf : Fin NPROC → Option Nat) (kpages : List Nat) (ker : Nat → Option Holder) :
    Prop where
  trapframe : ∀ {pg p}, ker pg = some (.trapframe p) ↔ tf p = some pg
  other : ∀ {pg}, ker pg = some .other ↔ pg ∈ kpages
  page : ∀ {pg}, ker pg ≠ none → IsPage pg
  nodup : kpages.Nodup

variable {tf : Fin NPROC → Option Nat} {kpages : List Nat} {ker : Nat → Option Holder} {q : Nat}

section

variable (h : Held tf kpages ker)
include h

lemma Held.isPage_trapframe (hq : tf p = some q) : IsPage q ∧ ker q = some (.trapframe p) := by
  have hk := h.trapframe.mpr hq
  exact ⟨h.page (by rw [hk]; nofun), hk⟩

/-- The kernel holds the same pages. -/
lemma Held.unique {ker' : Nat → Option Holder} (h' : Held tf kpages ker') : ker' = ker := by
  funext pg
  apply Option.ext
  rintro (q | _)
  · rw [h'.trapframe, h.trapframe]
  · rw [h'.other, h.other]

/-- The page `q` comes to be held for `x`. -/
lemma Held.update {tf' : Fin NPROC → Option Nat} {kpages' : List Nat} {x : Option Holder}
    (htf : ∀ p, x = some (.trapframe p) ↔ tf' p = some q)
    (htf' : ∀ pg p, pg ≠ q → (tf p = some pg ↔ tf' p = some pg))
    (hkp : x = some .other ↔ q ∈ kpages') (hkp' : ∀ pg, pg ≠ q → (pg ∈ kpages ↔ pg ∈ kpages'))
    (hpage : x ≠ none → IsPage q) (hnodup : kpages'.Nodup) :
    Held tf' kpages' (Function.update ker q x) := by
  refine ⟨?_, ?_, ?_, hnodup⟩
  · intro pg p
    by_cases hpg : pg = q
    · rw [hpg, update_self, htf]
    · rw [update_of_ne hpg, h.trapframe, htf' pg p hpg]
  · intro pg
    by_cases hpg : pg = q
    · rw [hpg, update_self, hkp]
    · rw [update_of_ne hpg, h.other, hkp' pg hpg]
  · intro pg hne
    by_cases hpg : pg = q
    · rw [hpg, update_self] at hne
      rw [hpg]
      exact hpage hne
    · rw [update_of_ne hpg] at hne
      exact h.page hne

/-- A new page for the trapframe of `p`. -/
lemma Held.take (hp : tf p = none) (hq : IsPage q) (hk : ker q = none) :
    Held (Function.update tf p (some q)) kpages
      (Function.update ker q (some (.trapframe p))) := by
  have hother : q ∉ kpages := by
    rw [← h.other, hk]
    nofun
  refine h.update ?_ ?_ (iff_of_false nofun hother) (fun _ _ => Iff.rfl) (fun _ => hq) h.nodup
  · intro p'
    by_cases hp' : p' = p
    · rw [hp', update_self]
      exact iff_of_true rfl rfl
    · rw [update_of_ne hp', ← h.trapframe, hk]
      refine iff_of_false (fun hc => hp' ?_) nofun
      cases hc
      rfl
  · intro pg p' hpg
    by_cases hp' : p' = p
    · rw [hp', update_self, hp]
      exact iff_of_false nofun fun hc => hpg (Option.some.inj hc).symm
    · rw [update_of_ne hp']

/-- The trapframe of `p` is given back. -/
lemma Held.drop (hp : tf p = some q) :
    Held (Function.update tf p none) kpages (Function.update ker q none) := by
  have hk := h.trapframe.mpr hp
  have hother : q ∉ kpages := by
    rw [← h.other, hk]
    nofun
  refine h.update ?_ ?_ (iff_of_false nofun hother) (fun _ _ => Iff.rfl) (absurd rfl) h.nodup
  · intro p'
    refine iff_of_false nofun fun hc => ?_
    by_cases hp' : p' = p
    · rw [hp', update_self] at hc
      cases hc
    · rw [update_of_ne hp', ← h.trapframe, hk] at hc
      cases hc
      exact hp' rfl
  · intro pg p' hpg
    by_cases hp' : p' = p
    · rw [hp', update_self, hp]
      exact iff_of_false (fun hc => hpg (Option.some.inj hc).symm) nofun
    · rw [update_of_ne hp']

/-- Another page for the rest of the kernel. -/
lemma Held.push (hq : IsPage q) (hk : ker q = none) :
    Held tf (q :: kpages) (Function.update ker q (some .other)) := by
  have hother : q ∉ kpages := by
    rw [← h.other, hk]
    nofun
  refine h.update ?_ (fun _ _ _ => Iff.rfl) (iff_of_true rfl List.mem_cons_self) ?_ (fun _ => hq)
    (List.nodup_cons.mpr ⟨hother, h.nodup⟩)
  · intro p'
    rw [← h.trapframe, hk]
    exact iff_of_false nofun nofun
  · intro pg hpg
    rw [List.mem_cons]
    exact ⟨Or.inr, fun hc => hc.resolve_left hpg⟩

/-- The rest of the kernel gives a page back. -/
lemma Held.erase (hq : q ∈ kpages) : Held tf (kpages.erase q) (Function.update ker q none) := by
  refine h.update ?_ (fun _ _ _ => Iff.rfl) (iff_of_false nofun h.nodup.not_mem_erase) ?_
    (absurd rfl) (h.nodup.erase q)
  · intro p'
    rw [← h.trapframe, h.other.mpr hq]
    exact iff_of_false nofun nofun
  · intro pg hpg
    rw [h.nodup.mem_erase_iff]
    exact ⟨fun hc => ⟨hpg, hc⟩, fun hc => hc.2⟩

/-! ### The invariant -/

end

/-- A slot of the process table agrees with memory. -/
inductive ProcOk (m : Mem) (x : Proc) : Prop where
  | unused (state : x.state = .unused) (pagetable : x.pagetable = none)
      (trapframe : x.trapframe = none) (sz : x.sz = 0)
  | live {r tf : Nat} (state : x.state ≠ .unused) (pagetable : x.pagetable = some r)
      (trapframe : x.trapframe = some tf) (table : ProcTable m r (pages x.sz) tf)

/-- The slot still agrees with memory if the layout of its table is the same. -/
lemma ProcOk.keep {m m' : Mem} (h : ProcOk m x)
    (hk : ∀ {r n tf}, x.pagetable = some r → ProcTable m r n tf → ProcTable m' r n tf) :
    ProcOk m' x := by
  cases h with
  | unused h1 h2 h3 h4 => exact .unused h1 h2 h3 h4
  | live h1 h2 h3 h4 => exact .live h1 h2 h3 (hk h2 h4)

structure SysInv (t : Sys) : Prop where
  mem : ∃ ker, MemInv t.phys t.roots ker ∧ Held t.trapframes t.kpages ker
  proc : ∀ p, ProcOk t.phys.mem (t.proc p)

/-- The views of all processes are the same. -/
abbrev Same (s s' : Phys) (roots : TableId → Option Nat) : Prop :=
  Frame s s' roots (fun _ => (none : Option Holder)) (fun _ _ => False)

lemma Frame.same (h : Frame s s' roots ker (fun _ _ => False)) : Same s s' roots :=
  h.mono (fun _ _ hr => hr) (fun _ hc => absurd rfl hc) fun _ _ _ => id

omit [Layout] in
lemma Sys.roots_congr (h : t'.proc = t.proc) : t'.roots = t.roots := by
  funext j
  cases j with
  | none => rfl
  | some q => exact congrArg (fun f => (f q).pagetable) h

omit [Layout] in
lemma Sys.trapframes_congr (h : t'.proc = t.proc) : t'.trapframes = t.trapframes := by
  funext q
  exact congrArg (fun f => (f q).trapframe) h

/-- One process changes, and the tables of the others keep their layout. -/
lemma SysInv.setProc (h : SysInv t) (hproc : t'.proc = t.proc) {ker : Nat → Option Holder}
    (hmem : MemInv t'.phys (update t.roots (some p) x.pagetable) ker)
    (hheld : Held (update t.trapframes p x.trapframe) t'.kpages ker) (hx : ProcOk t'.phys.mem x)
    (htables : ∀ {q r n tf}, q ≠ p → t.roots (some q) = some r → ProcTable t.phys.mem r n tf →
      ProcTable t'.phys.mem r n tf) : SysInv (t'.setProc p x) := by
  refine ⟨⟨ker, ?_, ?_⟩, fun q => ?_⟩
  · rw [Sys.roots_setProc, Sys.roots_congr hproc]
    exact hmem
  · rw [Sys.trapframes_setProc, Sys.trapframes_congr hproc]
    exact hheld
  · by_cases hq : q = p
    · rw [hq, Sys.setProc_proc_self]
      exact hx
    · rw [Sys.setProc_proc_of_ne _ hq, hproc]
      exact (h.proc q).keep fun hr => htables hq hr

lemma Frame.tables {x : Option Nat}
    (h : Frame s s' (update roots (some p) x) ker (fun _ _ => False)) {n tf : Nat} (hu : u ≠ p)
    (hr : roots (some u) = some r) (ht : ProcTable s.mem r n tf) : ProcTable s'.mem r n tf := by
  refine h.procTable (i := some u) ?_ (fun _ => id) ht
  rwa [update_of_ne (fun hc => hu (Option.some.inj hc))]

/-! ### What the processes see -/

/-- The memory of a process. -/
structure UserImage where
  sz : Nat
  space : AddrSpace

def Proc.image (x : Proc) (m : Mem) : Option UserImage :=
  x.pagetable.map fun r => { sz := x.sz, space := space m r }

omit [Layout] in
lemma Proc.image_of_none (h : x.pagetable = none) (m : Mem) : x.image m = none := by
  rw [Proc.image, h, Option.map_none]

omit [Layout] in
lemma Proc.image_of_some (h : x.pagetable = some r) (m : Mem) :
    x.image m = some { sz := x.sz, space := space m r } := by
  rw [Proc.image, h, Option.map_some]

def Sys.image (t : Sys) (p : Fin NPROC) : Option UserImage := (t.proc p).image t.phys.mem

omit [Layout] in
/-- One process changes, and the others see what they saw before. -/
lemma Sys.image_setProc (hproc : t'.proc = t.proc)
    (hspace : ∀ {q r}, q ≠ p → t.roots (some q) = some r →
      space t'.phys.mem r = space t.phys.mem r) :
    (t'.setProc p x).image = update t.image p (x.image t'.phys.mem) := by
  funext q
  unfold Sys.image
  by_cases hq : q = p
  · rw [hq, update_self, Sys.setProc_proc_self, Sys.setProc_phys]
  · rw [update_of_ne hq, Sys.setProc_proc_of_ne _ hq, hproc, Sys.setProc_phys]
    unfold Proc.image
    cases hr : (t.proc q).pagetable with
    | none => rw [Option.map_none, Option.map_none]
    | some r => rw [Option.map_some, Option.map_some, hspace hq hr]

lemma Frame.spaces {x : Option Nat}
    (h : Frame s s' (update roots (some p) x) ker (fun _ _ => False)) (hu : u ≠ p)
    (hr : roots (some u) = some r) : Xv6.space s'.mem r = Xv6.space s.mem r := by
  refine h.space (i := some u) ?_ (fun _ _ => id)
  rwa [update_of_ne (fun hc => hu (Option.some.inj hc))]

/-! ### `freeproc` -/

/-- `freeproc` gives back the trapframe's page, if there is one. -/
lemma freeTrapframe_spec (h : MemInv t.phys t.roots ker)
    (hheld : Held t.trapframes t.kpages ker) :
    wp (match (t.proc p).trapframe with
      | some trapframe => onPhys (kfree trapframe)
      | none => pure ()) E (fun _ t₁ => ∃ s₁ ker₁, t₁ = t.setPhys s₁ ∧
        MemInv s₁ t.roots ker₁ ∧ Held (update t.trapframes p none) t.kpages ker₁ ∧
        Same t.phys s₁ t.roots ∧ SamePlaces t.phys.mem s₁.mem t.roots ∧
        s₁.nomem = t.phys.nomem) t := by
  cases htf : (t.proc p).trapframe with
  | none =>
    rw [wp_pure]
    refine ⟨t.phys, ker, rfl, h, ?_, (Quiet.refl _ _ _).frame _, .refl _ _, rfl⟩
    rw [update_eq_self_iff.mpr (show none = t.trapframes p from htf.symm)]
    exact hheld
  | some q =>
    obtain ⟨hq, hk⟩ := hheld.isPage_trapframe htf
    rw [wp_onPhys]
    refine wp_imp (kfree_spec h hq hk) ?_
    rintro - s₁ ⟨hno, h1, hquiet, htables⟩
    exact ⟨s₁, _, rfl, h1, hheld.drop htf, (hquiet.frame _).same, htables.samePlaces, hno⟩

/-- `freeproc` on a slot that may be half built. -/
lemma freeproc_spec (h : MemInv t.phys t.roots ker) (hheld : Held t.trapframes t.kpages ker)
    (hpt : ∀ {r}, (t.proc p).pagetable = some r →
      ∃ tf, ProcTable t.phys.mem r (pages (t.proc p).sz) tf) :
    wp (freeproc p) E (fun _ t' => ∃ s' ker', t' = (t.setPhys s').setProc p Proc.free ∧
      MemInv s' (update t.roots (some p) none) ker' ∧
      Held (update t.trapframes p none) t.kpages ker' ∧
      Same t.phys s' (update t.roots (some p) none) ∧
      SamePlaces t.phys.mem s'.mem (update t.roots (some p) none) ∧
      s'.nomem = t.phys.nomem) t := by
  unfold freeproc
  rw [wp_bind, wp_getProc, wp_bind]
  refine wp_imp (freeTrapframe_spec h hheld) ?_
  rintro - t₁ ⟨s₁, ker₁, rfl, h1, hheld1, hsame1, hplaces1, hno1⟩
  have hupdate : ∀ j r, update t.roots (some p) none j = some r → t.roots j = some r :=
    fun _ _ hj => (roots_of_update hj).2
  have hsame1' : Same t.phys s₁ (update t.roots (some p) none) :=
    hsame1.mono hupdate (fun _ hk => hk) fun _ _ _ => id
  rw [wp_bind]
  cases hr : (t.proc p).pagetable with
  | none =>
    have hroots : update t.roots (some p) none = t.roots :=
      update_eq_self_iff.mpr (show none = t.roots (some p) from hr.symm)
    rw [hroots, wp_pure, wp_setProc]
    exact ⟨s₁, ker₁, rfl, h1, hheld1, hsame1, hplaces1, hno1⟩
  | some r =>
    obtain ⟨tf, hpt⟩ := hpt hr
    have hpt1 := hsame1.procTable (i := some p) hr (fun _ => id) hpt
    simp only [wp_onPhys]
    refine wp_imp (procFreepagetable_spec h1 (i := some p) hr hpt1) ?_
    rintro - s₂ ⟨h2, hframe2, hno2⟩
    rw [wp_setProc]
    exact ⟨s₂, ker₁, rfl, h2, hheld1, hsame1'.trans hframe2.same,
      (hplaces1.mono hupdate).trans hframe2.samePlaces, hno2.trans hno1⟩

end Xv6
