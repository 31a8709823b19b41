import Xv6.Kernel.BootSpec

/-!
# Copy on write refines eager copying

The reference machine has a private address space for every process: `fork` copies the parent's,
and every other operation changes that of one process. `run_refines` says that the kernel, which
shares pages after `fork` and copies them at the first store, shows every process the same bytes.
-/

namespace Xv6

open Function Lib

/-- The operations on the memory of processes. -/
inductive MemOp where
  | fork (p : Fin NPROC)
  | load (p : Fin NPROC) (va : Nat)
  /-- A store in user mode, with the page fault that it may take. -/
  | store (p : Fin NPROC) (va : Nat) (b : UInt8)
  | copyout (p : Fin NPROC) (va : Nat) (bytes : List UInt8)
  /-- `uvmalloc` to `newsz` bytes, with the permissions that `exec` has for these ELF flags. -/
  | grow (p : Fin NPROC) (newsz flags : Nat)
  | shrink (p : Fin NPROC) (newsz : Nat)
  | free (p : Fin NPROC)

/-! ### The kernel -/

/-- The byte that process `p` sees at `va`. -/
def Sys.load (t : Sys) (p : Fin NPROC) (va : Nat) : Option UInt8 :=
  (t.proc p).pagetable.bind fun r => userLoad t.phys.mem r va

/-- Do `m` with the page table of `p`, if there is such a process. -/
def withTable (p : Fin NPROC) (m : Proc → Nat → SysM Unit) : SysM Unit := do
  let x ← getProc p
  if x.state = .unused then
    pure ()
  else
    let pagetable ← deref x.pagetable
    m x pagetable

variable [Layout]

def MemOp.run : MemOp → SysM Unit
  | .fork p => withTable p fun _ _ => do
    let _ ← Xv6.fork p
  | .load p va => do
    let t ← get
    let _ := t.load p va
  | .store p va b => withTable p fun _ pagetable => do
    let _ ← onPhys (userStore pagetable va b)
  | .copyout p va bytes => withTable p fun _ pagetable => do
    let _ ← onPhys (Xv6.copyout pagetable va bytes)
  | .grow p newsz flags => withTable p fun x pagetable => do
    let sz ← onPhys (uvmalloc pagetable x.sz newsz (flags2perm flags))
    if sz = 0 then pure () else setProc p fun x => { x with sz := sz }
  | .shrink p newsz => withTable p fun x pagetable => do
    let sz ← onPhys (uvmdealloc pagetable x.sz newsz)
    setProc p fun x => { x with sz := sz }
  | .free p => freeproc p

/-- A store finds no free page for a copy: a user's store at once, `copyout` after some of its
bytes. -/
def MemOp.FindsNoPage (t : Sys) : MemOp → Prop
  | .store _ _ _ => t.phys.freelist = []
  | .copyout p va bytes => ∃ k < bytes.length, wp (MemOp.copyout p va (bytes.take k)).run
      (fun _ => False) (fun _ t' => t'.phys.freelist = []) t
  | _ => False

/-! ### The reference machine -/

/-- Change the memory of one process. -/
def onImage (im : Fin NPROC → Option UserImage) (p : Fin NPROC) (f : UserImage → UserImage) :
    Fin NPROC → Option UserImage :=
  update im p ((im p).map f)

omit [Layout] in
lemma onImage_of_none {im : Fin NPROC → Option UserImage} {p : Fin NPROC} (h : im p = none)
    (f : UserImage → UserImage) : onImage im p f = im := by
  rw [onImage, update_eq_self_iff, h, Option.map_none]

def MemOp.ref (im : Fin NPROC → Option UserImage) : MemOp → Fin NPROC → Option UserImage
  | .fork p => forkImage im p
  | .load _ _ => im
  | .store p va b => onImage im p fun u => u.stores va [b]
  | .copyout p va bytes => onImage im p fun u => u.stores va bytes
  | .grow p newsz flags => onImage im p fun u => u.grow newsz (flags2perm flags)
  | .shrink p newsz => onImage im p fun u => u.shrink newsz
  | .free p => update im p none

/-- The byte that process `p` of the reference machine sees at `va`. -/
def refLoad (im : Fin NPROC → Option UserImage) (p : Fin NPROC) (va : Nat) : Option UInt8 :=
  (im p).bind fun u => u.space.load va

/-! ### Simulation -/

variable {E : Panic → Prop} {t t' : Sys} {p : Fin NPROC} {im : Fin NPROC → Option UserImage}

lemma SysInv.load_eq (h : SysInv t) (p : Fin NPROC) (va : Nat) :
    t.load p va = refLoad t.image p va := by
  obtain ⟨ker, hmem, -⟩ := h.mem
  unfold Sys.load refLoad Sys.image
  cases hr : (t.proc p).pagetable with
  | none => rw [Proc.image_of_none hr, Option.bind_none, Option.bind_none]
  | some r =>
    rw [Proc.image_of_some hr, Option.bind_some, Option.bind_some]
    exact hmem.userLoad_eq (i := some p) hr va

/-- One operation on the kernel's side and on that of the reference machine. -/
def Steps (t t' : Sys) (im' : Fin NPROC → Option UserImage) : Prop :=
  SysInv t' ∧ ((t'.phys.nomem = t.phys.nomem ∧ t'.image = im') ∨
    (t.phys.nomem < t'.phys.nomem ∧ t'.image = t.image))

lemma SysInv.wp_withTable (h : SysInv t) {m : Proc → Nat → SysM Unit} {Q : Unit → Sys → Prop}
    (hnone : t.image p = none → Q () t)
    (hm : ∀ {r}, (t.proc p).state ≠ .unused → (t.proc p).pagetable = some r →
      wp (m (t.proc p) r) E Q t) : wp (withTable p m) E Q t := by
  unfold withTable
  rw [wp_bind, wp_getProc, wp_ite]
  refine ⟨fun hu => hnone ((h.unused_iff p).mp hu), fun hu => ?_⟩
  obtain ⟨r, -, hr, -⟩ := h.live hu
  rw [hr, wp_bind, wp_deref_some]
  exact hm hu hr

/-- How an operation stops. -/
def MemOp.Stops (op : MemOp) (t : Sys) (e : Panic) : Prop := e = .cowallocKalloc ∧ op.FindsNoPage t

lemma SysInv.memStep (h : SysInv t) (op : MemOp) :
    wp op.run (op.Stops t) (fun _ t' => Steps t t' (op.ref t.image)) t := by
  have hnone : ∀ {p f}, t.image p = none → Steps t t (onImage t.image p f) := by
    intro p f hp
    exact ⟨h, Or.inl ⟨rfl, (onImage_of_none hp f).symm⟩⟩
  cases op with
  | fork p =>
    refine h.wp_withTable (fun hp => ⟨h, Or.inl ⟨rfl, ?_⟩⟩) fun hu _ => ?_
    · -- the slot that gets the copy of nothing was empty
      rw [MemOp.ref, forkImage]
      split
      · rfl
      · next q hq =>
        symm
        rw [update_eq_self_iff, hp]
        exact (Option.isNone_iff_eq_none.mp
          (List.find?_some (p := fun p => (t.image p).isNone) hq)).symm
    · rw [wp_bind]
      exact wp_imp (h.fork_inv hu) fun _ _ hc => ⟨hc.1, hc.2.2⟩
  | load p va => exact ⟨h, Or.inl ⟨rfl, rfl⟩⟩
  | store p va b =>
    refine h.wp_withTable hnone fun hu hr => ?_
    rw [wp_bind, wp_onPhys]
    exact h.userStore_inv hu hr va b fun hnil => ⟨rfl, hnil⟩
  | copyout p va bytes =>
    refine h.wp_withTable hnone fun hu hr => ?_
    rw [wp_bind, wp_onPhys]
    refine h.copyout_inv hu hr va bytes ?_
    rintro ⟨k, hk, s', hrun, hnil⟩
    refine ⟨rfl, k, hk, h.wp_withTable (fun hp => ?_) fun _ hr' => ?_⟩
    · rw [Sys.image, Proc.image_of_some hr] at hp
      cases hp
    · obtain ⟨ker, hmem, -⟩ := h.mem
      obtain rfl := Option.some.inj (hr.symm.trans hr')
      rw [run_userStores hmem (i := some p) hr] at hrun
      rw [wp_bind, wp_onPhys]
      exact (wp_of_run hrun).mpr hnil
  | grow p newsz flags =>
    refine h.wp_withTable hnone fun hu hr => ?_
    rw [wp_bind, wp_onPhys]
    refine wp_imp (h.uvmalloc_inv hu hr (xPerm_flags2perm flags) newsz) ?_
    rintro sz s' ⟨hc, -⟩
    unfold Sys.grown at hc
    split_ifs at hc ⊢ with hz
    · exact hc
    · exact hc
  | shrink p newsz =>
    refine h.wp_withTable hnone fun hu hr => ?_
    rw [wp_bind, wp_onPhys]
    exact wp_imp (h.uvmdealloc_inv hu hr newsz) fun _ _ hc => ⟨hc.1, Or.inl hc.2⟩
  | free p =>
    refine wp_imp h.freeproc_inv ?_
    rintro - t' ⟨h', himage, hno, -⟩
    exact ⟨h', Or.inl ⟨hno, himage⟩⟩

/-- What a run from `t₀` has in common with the reference machine while no page was missing. -/
def Tracks (t₀ t : Sys) (im : Fin NPROC → Option UserImage) : Prop :=
  SysInv t ∧ t₀.phys.nomem ≤ t.phys.nomem ∧ (t.phys.nomem = t₀.phys.nomem → t.image = im)

lemma Tracks.step {t₀ : Sys} (h : Tracks t₀ t im) (op : MemOp) :
    wp op.run (op.Stops t) (fun _ t' => Tracks t₀ t' (op.ref im)) t := by
  obtain ⟨hinv, hle, himage⟩ := h
  refine wp_imp (hinv.memStep op) ?_
  rintro - t' ⟨h', ⟨hno, himage'⟩ | ⟨hlt, -⟩⟩
  · refine ⟨h', by omega, fun heq => ?_⟩
    rw [himage', himage (by omega)]
  · exact ⟨h', by omega, fun heq => by omega⟩

/-- Only the memory of `p` changes. -/
lemma Steps.load_of_ne {f : UserImage → UserImage} (h : SysInv t)
    (hs : Steps t t' (onImage t.image p f)) {q : Fin NPROC} (hq : q ≠ p) (va : Nat) :
    t'.load q va = t.load q va := by
  obtain ⟨h', hcase⟩ := hs
  have himage : t'.image q = t.image q := by
    obtain ⟨-, heq⟩ | ⟨-, heq⟩ := hcase
    · rw [heq, onImage, update_of_ne hq]
    · rw [heq]
  rw [h'.load_eq, h.load_eq, refLoad, refLoad, himage]

/-- **Copy on write.** While no `kalloc` fails, every process sees the bytes that it sees in the
reference machine. The run stops only at an operation that finds no free page for a copy, and a
store or `copyout` of one process never changes a byte that another one sees. -/
theorem run_refines (h : SysInv t) (ops : List MemOp) :
    wp (runAll MemOp.run ops) (Stops MemOp.run MemOp.Stops ops t) (fun _ t' =>
      (t'.phys.nomem = t.phys.nomem →
        ∀ p va, t'.load p va = refLoad (ops.foldl MemOp.ref t.image) p va) ∧
      ∀ p va, (∀ b, wp (MemOp.store p va b).run ((MemOp.store p va b).Stops t') (fun _ t'' =>
          ∀ q, q ≠ p → ∀ va', t''.load q va' = t'.load q va') t') ∧
        ∀ bytes, wp (MemOp.copyout p va bytes).run ((MemOp.copyout p va bytes).Stops t')
          (fun _ t'' => ∀ q, q ≠ p → ∀ va', t''.load q va' = t'.load q va') t') t := by
  refine wp_imp (wp_runAll_stops (R := Tracks t) (fun op _ _ hR => hR.step op)
    ⟨h, le_refl _, fun _ => rfl⟩) ?_
  rintro - t' ⟨h', -, himage⟩
  refine ⟨fun hno p va => ?_, fun p va => ⟨fun b => ?_, fun bytes => ?_⟩⟩
  · rw [h'.load_eq, himage hno]
  · exact wp_imp (h'.memStep (.store p va b)) fun _ _ hs q hq va' => hs.load_of_ne h' hq va'
  · exact wp_imp (h'.memStep (.copyout p va bytes)) fun _ _ hs q hq va' => hs.load_of_ne h' hq va'

omit [Layout] in
/-- A process makes a copy of itself and then stores a byte. -/
theorem run_refines_fork : ∃ (t t' : Sys) (p : Fin NPROC),
    let := builtLayout
    let ops := [MemOp.fork p, .store p 0 1, .load p 0]
    (runAll MemOp.run ops).run t = .ok ((), t') ∧ t'.phys.nomem = t.phys.nomem ∧
      ∀ q va, t'.load q va = refLoad (ops.foldl MemOp.ref t.image) q va := by
  let := builtLayout
  obtain ⟨t, p, im, ha⟩ := exists_alone
  have hreturns : wp (runAll MemOp.run [.fork p, .store p 0 1, .load p 0]) (fun _ => False)
      (fun _ t' => t'.phys.nomem = t.phys.nomem) t := by
    simp only [runAll, wp_bind]
    refine ha.inv.wp_withTable (fun hp => ?_) fun _ _ => ?_
    · rw [ha.image] at hp
      cases hp
    rw [wp_bind]
    refine wp_imp ha.fork_returns ?_
    rintro - t₁ ⟨h1, hno1, hfree⟩
    refine h1.wp_withTable (fun _ => hno1) fun hlive hr => ?_
    obtain ⟨ker, hmem, -⟩ := h1.mem
    rw [wp_bind, wp_onPhys]
    refine wp_imp (userStore_spec hmem (i := some p) hr 0 1 fun hnil => ?_) ?_
    · rw [Phys.free, hnil] at hfree
      cases hfree
    · rintro - s' ⟨-, hno, -⟩
      exact hno.trans hno1
  obtain ⟨⟨⟩, t', hrun, ⟨hrefines, -⟩, hno⟩ := wp_run (wp_mono (wp_both (run_refines ha.inv _)
    hreturns) (fun _ he => he.2) fun _ _ hq => hq)
  exact ⟨t, t', p, hrun, hno, hrefines hno⟩

end Xv6
