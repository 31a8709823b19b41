import Xv6.Kernel.BootSpec

/-!
# `waitx`

`waitx` of `proc.c` and the system call around it. `waitx` reaps a child as `wait` does, and hands
out the child's waiting and running time. `sys_waitx` copies the two to user memory after the child
is gone, whatever `waitx` returned: if such a copy fails the child is lost, and if no child was
found what is copied is what the kernel stack held before.

The states in which `sleep` returns are given, as for `piperead`. The kernel stack is given by the
first values of the locals `wtime` and `rtime`.
-/

namespace Xv6

open Function Lib

/-! ### The functions -/

variable {va addr1 addr2 addr : Nat} {t t' s : Sys} {q : Fin NPROC}
  {wtime rtime w₀ r₀ w r : BitVec 32} {ret x : Int} {im₁ im₂ im' : UserImage}

/-- The fields of `struct proc` that `waitx` computes with. -/
structure Times where
  rtime : BitVec 32
  ctime : BitVec 32
  etime : BitVec 32

structure TimedSys where
  sys : Sys
  times : Fin NPROC → Times

abbrev TimedM := Prog TimedSys Panic

def TimedSys.setSys (t : TimedSys) (u : Sys) : TimedSys := { t with sys := u }

def onSys {α : Type} (m : SysM α) : TimedM α := zoom TimedSys.sys TimedSys.setSys m

/-- The bytes of a `uint`. -/
def uintBytes (x : BitVec 32) : List UInt8 := leBytes 4 x.toNat

/-- The child that the scan of `wait` and `waitx` stops at. -/
def zombieChild (t : Sys) (p : Fin NPROC) : Option (Fin NPROC) :=
  findProc t fun x => x.parent == some p && x.state == .zombie

/-- There are children, none of them has exited, and the caller is not killed. -/
def Sleeps (t : Sys) (p : Fin NPROC) : Prop :=
  zombieChild t p = none ∧ findProc t (fun x => x.parent == some p) ≠ none ∧
    (t.proc p).killed = false

instance (t : Sys) (p : Fin NPROC) : Decidable (Sleeps t p) := inferInstanceAs (Decidable (_ ∧ _))

/-- The state in which the loop of `waitx` ends, if `sleep` returns in the states `later` one after
the other. -/
def awaitChild (p : Fin NPROC) : List TimedSys → TimedSys → TimedSys
  | [], t => t
  | t' :: later, t => if Sleeps t.sys p then awaitChild p later t' else t

section

variable [Layout]

/-- `copyout` to the memory of `p`. -/
def copyToUser (p : Fin NPROC) (va : Nat) (src : List UInt8) : SysM Int := do
  let x ← getProc p
  let pagetable ← deref x.pagetable
  onPhys (copyout pagetable va src)

/-- The result, and `*wtime` and `*rtime` after it. `none` if the caller sleeps once more after
the last of the states `later`. -/
def waitx (p : Fin NPROC) (addr : Nat) (wtime rtime : BitVec 32) (later : List TimedSys) :
    TimedM (Option (Int × BitVec 32 × BitVec 32)) := do
  modify (awaitChild p later)
  let t ← get
  match zombieChild t.sys p with
  | some np =>
    let pid := (t.sys.proc np).pid
    let rtime := (t.times np).rtime
    let wtime := (t.times np).etime - (t.times np).ctime - (t.times np).rtime
    let res ← (if addr ≠ 0 then onSys (copyToUser p addr (intBytes (t.sys.proc np).xstate))
      else pure 0)
    if res < 0 then
      return some (-1, wtime, rtime)
    else
      onSys (freeproc np)
      return some (pid, wtime, rtime)
  | none =>
    if Sleeps t.sys p then
      return none
    else
      return some (-1, wtime, rtime)

def sysWaitx (p : Fin NPROC) (addr addr1 addr2 : Nat) (wtime rtime : BitVec 32)
    (later : List TimedSys) : TimedM (Option Int) := do
  match ← waitx p addr wtime rtime later with
  | none => return none
  | some (ret, wtime, rtime) =>
    if (← onSys (copyToUser p addr1 (uintBytes wtime))) < 0 then
      return some (-1)
    else if (← onSys (copyToUser p addr2 (uintBytes rtime))) < 0 then
      return some (-1)
    else
      return some ret

end

/-! ### Copies to the caller -/

lemma UserImage.accepts_stores_iff (im : UserImage) (va : Nat) (bs : List UInt8) {x n : Nat} :
    (im.stores va bs).space.Accepts x n ↔ im.space.Accepts x n :=
  AddrSpace.accepts_stores_iff bs im.space va

/-- The third argument of a `copyout` that failed at its first byte does not matter. -/
lemma UserImage.stores_of_not_mayStore {im : UserImage} (h : ¬im.space.MayStore va)
    (bs : List UInt8) : im.stores va bs = im := by
  unfold stores
  rw [AddrSpace.stores_of_not_mayStore h]

@[simp] lemma length_intBytes (x : Int) : (intBytes x).length = 4 := by
  simp [intBytes, leBytes]

@[simp] lemma length_uintBytes (x : BitVec 32) : (uintBytes x).length = 4 := by
  simp [uintBytes, leBytes]

@[simp] lemma wp_onSys {α : Type} {m : SysM α} {E : Panic → Prop} {Q : α → TimedSys → Prop}
    {t : TimedSys} :
    wp (onSys m) E Q t ↔ wp m E (fun a u => Q a (t.setSys u)) t.sys := wp_zoom

variable [Layout] {p : Fin NPROC} {im : UserImage} {E : Panic → Prop} {later : List TimedSys}
  {u : TimedSys}

/-- `im` is the memory of the process `p` in a well-formed state. -/
structure Runs (t : Sys) (p : Fin NPROC) (im : UserImage) : Prop where
  inv : SysInv t
  state : (t.proc p).state = .running
  image : t.image p = some im

lemma Runs.copyToUser_spec (h : Runs t p im) (hE : E .cowallocKalloc) (va : Nat) (bs : List UInt8) :
    wp (copyToUser p va bs) E (fun res t' => Runs t' p (im.stores va bs) ∧ t'.proc = t.proc ∧
      Answers res (im.space.Accepts va bs.length)) t := by
  have hlive : (t.proc p).state ≠ .unused := by simp [h.state]
  obtain ⟨r, tf, hr, -⟩ := h.inv.live hlive
  obtain ⟨ker, hmem, hheld⟩ := h.inv.mem
  have him : im = { sz := (t.proc p).sz, space := space t.phys.mem r } :=
    Option.some.inj (h.image.symm.trans (Proc.image_of_some hr _))
  unfold copyToUser
  rw [wp_bind, wp_getProc, hr, wp_bind, wp_deref_some, wp_onPhys]
  refine wp_imp (copyout_spec hmem (i := some p) hr va bs fun _ => hE) ?_
  rintro res s' ⟨h', -, hframe, hst, hres⟩
  obtain ⟨hinv, himage⟩ := h.inv.stored_image hlive hr h' hheld hframe hst
  refine ⟨⟨hinv, h.state, ?_⟩, rfl, ?_⟩
  · rw [himage, update_self, h.image, Option.map_some]
  · rw [him]
    exact hres

lemma Runs.freeproc_spec (h : Runs t p im) (hq : p ≠ q) :
    wp (freeproc q) E (fun _ t' => Runs t' p im ∧ (t'.proc q).state = .unused) t := by
  refine wp_imp h.inv.freeproc_inv ?_
  rintro - t' ⟨hinv, himage, -, hothers, -⟩
  refine ⟨⟨hinv, by rw [hothers p hq]; exact h.state, ?_⟩, ?_⟩
  · rw [himage, update_of_ne hq, h.image]
  · rw [hinv.unused_iff, himage, update_self]

/-! ### `waitx` -/

omit [Layout] in
lemma zombieChild_eq_some (h : zombieChild t p = some q) :
    (t.proc q).parent = some p ∧ (t.proc q).state = .zombie := by
  have hq := findProc_eq_some h
  rwa [Bool.and_eq_true, beq_iff_eq, beq_iff_eq] at hq

/-- How `waitx` ends, from the state `t` of its last scan. -/
inductive WaitxEnds (t : TimedSys) (p : Fin NPROC) (im : UserImage) (addr : Nat)
    (wtime rtime : BitVec 32) : Int → BitVec 32 → BitVec 32 → UserImage → Sys → Prop
  | nothing (found : zombieChild t.sys p = none) :
      WaitxEnds t p im addr wtime rtime (-1) wtime rtime im t.sys
  | refused {q : Fin NPROC} {u : Sys} (found : zombieChild t.sys p = some q) (ne : addr ≠ 0)
      (status : ¬im.space.Accepts addr 4) (proc : u.proc = t.sys.proc) :
      WaitxEnds t p im addr wtime rtime (-1)
        ((t.times q).etime - (t.times q).ctime - (t.times q).rtime) (t.times q).rtime
        (im.stores addr (intBytes (t.sys.proc q).xstate)) u
  | reaped {q : Fin NPROC} {u : Sys} (found : zombieChild t.sys p = some q)
      (status : addr ≠ 0 → im.space.Accepts addr 4) (gone : (u.proc q).state = .unused) :
      WaitxEnds t p im addr wtime rtime (t.sys.proc q).pid
        ((t.times q).etime - (t.times q).ctime - (t.times q).rtime) (t.times q).rtime
        (if addr ≠ 0 then im.stores addr (intBytes (t.sys.proc q).xstate) else im) u

lemma waitx_spec {t : TimedSys} (h : Runs (awaitChild p later t).sys p im) (hE : E .cowallocKalloc)
    (addr : Nat) (wtime rtime : BitVec 32) :
    wp (waitx p addr wtime rtime later) E (fun res t' => ∀ ret w r, res = some (ret, w, r) →
      ∃ im', Runs t'.sys p im' ∧
        WaitxEnds (awaitChild p later t) p im addr wtime rtime ret w r im' t'.sys) t := by
  unfold waitx
  rw [wp_bind, wp_modify, wp_bind, wp_get]
  generalize awaitChild p later t = t at h ⊢
  cases hfound : zombieChild t.sys p with
  | none =>
    rw [wp_ite, wp_pure, wp_pure]
    constructor
    · rintro - ret w r ⟨⟩
    · rintro - ret w r ⟨⟩
      exact ⟨im, h, .nothing hfound⟩
  | some q =>
    have hne : p ≠ q := by
      rintro rfl
      have := (zombieChild_eq_some hfound).2
      rw [h.state] at this
      cases this
    simp only [wp_bind]
    rw [wp_ite]
    constructor
    · intro haddr
      rw [wp_onSys]
      refine wp_imp (h.copyToUser_spec hE addr _) ?_
      rintro res u ⟨h1, hproc, hres⟩
      rw [length_intBytes] at hres
      rcases hres with ⟨rfl, hacc⟩ | ⟨rfl, hacc⟩
      · rw [if_neg (by decide), wp_bind, wp_onSys]
        refine wp_imp (h1.freeproc_spec hne) ?_
        rintro - u' ⟨h2, hgone⟩ ret w r ⟨⟩
        refine ⟨_, ?_, .reaped hfound (fun _ => hacc) hgone⟩
        rw [if_pos haddr]
        exact h2
      · rw [if_pos (by decide), wp_pure]
        rintro ret w r ⟨⟩
        exact ⟨_, h1, .refused hfound haddr hacc hproc⟩
    · intro haddr
      rw [wp_pure, if_neg (by decide), wp_bind, wp_onSys]
      refine wp_imp (h.freeproc_spec hne) ?_
      rintro - u' ⟨h2, hgone⟩ ret w r ⟨⟩
      refine ⟨_, ?_, .reaped hfound (fun hc => absurd hc haddr) hgone⟩
      rw [if_neg haddr]
      exact h2

/-! ### `sys_waitx` -/

/-- What the two copies at the end of `sys_waitx` come to. -/
inductive Handed (im : UserImage) (addr1 addr2 : Nat) (wtime rtime : BitVec 32) (ret : Int) :
    Int → UserImage → Prop
  | first (h1 : ¬im.space.Accepts addr1 4) :
      Handed im addr1 addr2 wtime rtime ret (-1) (im.stores addr1 (uintBytes wtime))
  | second (h1 : im.space.Accepts addr1 4) (h2 : ¬im.space.Accepts addr2 4) :
      Handed im addr1 addr2 wtime rtime ret (-1)
        ((im.stores addr1 (uintBytes wtime)).stores addr2 (uintBytes rtime))
  | both (h1 : im.space.Accepts addr1 4) (h2 : im.space.Accepts addr2 4) :
      Handed im addr1 addr2 wtime rtime ret ret
        ((im.stores addr1 (uintBytes wtime)).stores addr2 (uintBytes rtime))

omit [Layout] in
lemma Handed.unique {x' : Int} (h : Handed im addr1 addr2 wtime rtime ret x im₁)
    (h' : Handed im addr1 addr2 wtime rtime ret x' im₂) : x = x' ∧ im₁ = im₂ := by
  cases h with
  | first h1 =>
    cases h' with
    | first => exact ⟨rfl, rfl⟩
    | second h1' => exact absurd h1' h1
    | both h1' => exact absurd h1' h1
  | second h1 h2 =>
    cases h' with
    | first h1' => exact absurd h1 h1'
    | second => exact ⟨rfl, rfl⟩
    | both _ h2' => exact absurd h2' h2
  | both h1 h2 =>
    cases h' with
    | first h1' => exact absurd h1 h1'
    | second _ h2' => exact absurd h2 h2'
    | both => exact ⟨rfl, rfl⟩

/-- What `sys_waitx` leaves, if it returns `x`. -/
def SysWaitxEnds (t : TimedSys) (p : Fin NPROC) (im : UserImage) (addr addr1 addr2 : Nat)
    (wtime rtime : BitVec 32) (x : Int) (t' : Sys) : Prop :=
  ∃ ret w r im' u im'', WaitxEnds t p im addr wtime rtime ret w r im' u ∧ t'.proc = u.proc ∧
    Handed im' addr1 addr2 w r ret x im'' ∧ t'.image p = some im''

lemma sysWaitx_spec {t : TimedSys} (h : Runs (awaitChild p later t).sys p im)
    (hE : E .cowallocKalloc) (addr addr1 addr2 : Nat) (wtime rtime : BitVec 32) :
    wp (sysWaitx p addr addr1 addr2 wtime rtime later) E (fun res t' => ∀ x, res = some x →
      SysWaitxEnds (awaitChild p later t) p im addr addr1 addr2 wtime rtime x t'.sys) t := by
  unfold sysWaitx
  rw [wp_bind]
  refine wp_imp (waitx_spec h hE addr wtime rtime) ?_
  rintro (_ | ⟨ret, w, r⟩) t₁ h1
  · intro x hx
    cases hx
  obtain ⟨im', h1, hends⟩ := h1 ret w r rfl
  simp only [wp_bind, wp_onSys]
  refine wp_imp (h1.copyToUser_spec hE addr1 _) ?_
  rintro res u ⟨h2, hproc, hres⟩
  rw [length_uintBytes] at hres
  rcases hres with ⟨rfl, hacc⟩ | ⟨rfl, hacc⟩
  swap
  · rw [if_pos (by decide), wp_pure]
    rintro x ⟨⟩
    exact ⟨ret, w, r, im', t₁.sys, _, hends, hproc, .first hacc, h2.image⟩
  rw [if_neg (by decide), wp_bind, wp_onSys]
  refine wp_imp (h2.copyToUser_spec hE addr2 _) ?_
  rintro res u' ⟨h3, hproc', hres⟩
  rw [length_uintBytes, im'.accepts_stores_iff] at hres
  have hproc'' := hproc'.trans hproc
  rcases hres with ⟨rfl, hacc'⟩ | ⟨rfl, hacc'⟩
  · rw [if_neg (by decide), wp_pure]
    rintro x ⟨⟩
    exact ⟨ret, w, r, im', t₁.sys, _, hends, hproc'', .both hacc hacc', h3.image⟩
  · rw [if_pos (by decide), wp_pure]
    rintro x ⟨⟩
    exact ⟨ret, w, r, im', t₁.sys, _, hends, hproc'', .second hacc hacc', h3.image⟩

/-! ### A call that fails -/

/-- The children of `p` that have exited are still there to be waited for. -/
def KeepsZombies (t t' : Sys) (p : Fin NPROC) : Prop :=
  ∀ q, (t.proc q).parent = some p → (t.proc q).state = .zombie →
    (t'.proc q).parent = some p ∧ (t'.proc q).state = .zombie ∧
      (t'.proc q).pid = (t.proc q).pid ∧ (t'.proc q).xstate = (t.proc q).xstate

/-- If -1 is returned no child was reaped. -/
def FailsAtomically (t t' : Sys) (p : Fin NPROC) (x : Int) : Prop := x = -1 → KeepsZombies t t' p

omit [Layout] in
lemma keepsZombies_of_proc_eq (h : t'.proc = t.proc) : KeepsZombies t t' p := by
  intro q hq hz
  rw [h]
  exact ⟨hq, hz, rfl, rfl⟩

/-- There is no child to reap, or the status cannot be stored, or both times can be. -/
def LosesNoChild (t : Sys) (p : Fin NPROC) (im : UserImage) (addr addr1 addr2 : Nat) : Prop :=
  zombieChild t p = none ∨ (addr ≠ 0 ∧ ¬im.space.Accepts addr 4) ∨
    (im.space.Accepts addr1 4 ∧ im.space.Accepts addr2 4)

omit [Layout] in
lemma SysWaitxEnds.atomic_iff {t : TimedSys}
    (h : SysWaitxEnds t p im addr addr1 addr2 wtime rtime x t')
    (hpid : ∀ q, (t.sys.proc q).parent = some p → 0 ≤ (t.sys.proc q).pid) :
    FailsAtomically t.sys t' p x ↔ LosesNoChild t.sys p im addr addr1 addr2 := by
  obtain ⟨ret, w, r, im', u, im'', hends, hproc, hhanded, -⟩ := h
  cases hends with
  | nothing found => exact iff_of_true (fun _ => keepsZombies_of_proc_eq hproc) (Or.inl found)
  | refused found ne status hsame =>
    exact iff_of_true (fun _ => keepsZombies_of_proc_eq (hproc.trans hsame))
      (Or.inr (Or.inl ⟨ne, status⟩))
  | @reaped q _ found status gone =>
    obtain ⟨hparent, hzombie⟩ := zombieChild_eq_some found
    have hlost : ¬KeepsZombies t.sys t' p := by
      intro hk
      have hstate := (hk q hparent hzombie).2.1
      rw [hproc, gone] at hstate
      cases hstate
    have hacc : ∀ {y n}, (if addr ≠ 0 then im.stores addr (intBytes (t.sys.proc q).xstate)
        else im).space.Accepts y n ↔ im.space.Accepts y n := by
      intro y n
      split_ifs
      · exact im.accepts_stores_iff addr _
      · rfl
    have hcond : LosesNoChild t.sys p im addr addr1 addr2 ↔
        im.space.Accepts addr1 4 ∧ im.space.Accepts addr2 4 := by
      unfold LosesNoChild
      rw [found]
      refine ⟨fun hc => ?_, fun hc => Or.inr (Or.inr hc)⟩
      rcases hc with hc | ⟨hne, hc⟩ | hc
      · cases hc
      · exact absurd (status hne) hc
      · exact hc
    rw [hcond]
    cases hhanded with
    | first h1 =>
      rw [hacc] at h1
      exact iff_of_false (fun hc => hlost (hc rfl)) fun hc => h1 hc.1
    | second h1 h2 =>
      rw [hacc] at h2
      exact iff_of_false (fun hc => hlost (hc rfl)) fun hc => h2 hc.2
    | both h1 h2 =>
      rw [hacc] at h1 h2
      refine iff_of_true (fun hc => ?_) ⟨h1, h2⟩
      have := hpid q hparent
      omega

/-- `sys_waitx` reaps no child when it fails, exactly if there is none to reap, or the exit status
cannot be stored, or both times can be. It panics only for want of a page. -/
theorem sysWaitx_atomic_iff {later : List TimedSys} {t : TimedSys}
    (h : Runs (awaitChild p later t).sys p im)
    (hpid : ∀ q, ((awaitChild p later t).sys.proc q).parent = some p →
      0 ≤ ((awaitChild p later t).sys.proc q).pid)
    (addr addr1 addr2 : Nat) (wtime rtime : BitVec 32) :
    wp (sysWaitx p addr addr1 addr2 wtime rtime later) (fun e => e = .cowallocKalloc)
      (fun res t' => ∀ x, res = some x →
        (FailsAtomically (awaitChild p later t).sys t'.sys p x ↔
          LosesNoChild (awaitChild p later t).sys p im addr addr1 addr2)) t := by
  refine wp_imp (sysWaitx_spec (E := fun e => e = .cowallocKalloc) h rfl addr addr1 addr2 wtime
    rtime) ?_
  intro res t' hends x hx
  exact (hends x hx).atomic_iff hpid

omit [Layout] in
/-- A process with a child that has exited. -/
lemma exists_zombieChild : ∃ (t : Sys) (p q : Fin NPROC) (im : UserImage),
    @Runs builtLayout t p im ∧ zombieChild t p = some q ∧
      ∀ q, (t.proc q).parent = some p → 0 ≤ (t.proc q).pid := by
  let := builtLayout
  obtain ⟨t, p, im, halone⟩ := exists_alone
  obtain ⟨slot, hslot⟩ : ∃ q, findProc t (fun x => x.state == .unused) = some q := by
    apply Option.isSome_iff_exists.mp
    unfold findProc
    rw [List.find?_isSome]
    have : Nontrivial (Fin NPROC) := ⟨0, 1, by decide⟩
    obtain ⟨q, hq⟩ := exists_ne p
    exact ⟨q, List.mem_finRange _, by rw [halone.others q hq]; rfl⟩
  obtain ⟨t₁, q, ha, -⟩ := halone.inv.exists_allocated hslot (le_trans (by decide) halone.free)
  have hlive : (t₁.proc q).state ≠ .unused := by simp [ha.state]
  have hne : p ≠ q := by
    rintro rfl
    have hunused := (halone.inv.unused_iff p).mpr (Proc.image_of_none ha.unused _)
    rw [halone.state] at hunused
    cases hunused
  have hp : t₁.proc p = t.proc p := ha.others p hne
  set x : Proc := { t₁.proc q with state := .zombie, parent := some p, pid := 2 }
  have hq : (t₁.setProc q x).proc q = x := Sys.setProc_proc_self ..
  have hothers : ∀ u, u ≠ q → ((t₁.setProc q x).proc u).parent ≠ some p := by
    intro u hu
    rw [Sys.setProc_proc_of_ne _ hu, ha.others u hu]
    by_cases hup : u = p
    · rw [hup, halone.parent]
      nofun
    · rw [halone.others u hup]
      nofun
  refine ⟨t₁.setProc q x, p, q, im, ⟨?_, ?_, ?_⟩, ?_, ?_⟩
  · exact ha.inv.setProc_congr rfl rfl rfl (iff_of_false nofun hlive)
  · rw [Sys.setProc_proc_of_ne _ hne, hp]
    exact halone.state
  · rw [Sys.image, Sys.setProc_proc_of_ne _ hne, Sys.setProc_phys]
    have himage := congrFun ha.image p
    rw [update_of_ne hne, halone.image] at himage
    exact himage
  · have hsome : (zombieChild (t₁.setProc q x) p).isSome := by
      unfold zombieChild findProc
      rw [List.find?_isSome]
      refine ⟨q, List.mem_finRange _, ?_⟩
      rw [hq, Bool.and_eq_true]
      exact ⟨beq_self_eq_true _, rfl⟩
    obtain ⟨u, hu⟩ := Option.isSome_iff_exists.mp hsome
    by_cases huq : u = q
    · rw [hu, huq]
    · exact absurd (zombieChild_eq_some hu).1 (hothers u huq)
  · intro u hu
    by_cases huq : u = q
    · rw [huq, hq]
      exact (by decide : (0 : Int) ≤ 2)
    · exact absurd hu (hothers u huq)

omit [Layout] in
theorem sysWaitx_atomic_iff_child : ∃ (t : Sys) (p q : Fin NPROC) (im : UserImage),
    @Runs builtLayout t p im ∧ zombieChild t p = some q ∧ ∀ times,
      wp (@sysWaitx builtLayout p 0 0 0 0 0 []) (fun e => e = .cowallocKalloc)
        (fun res t' => ∀ x, res = some x →
          (FailsAtomically t t'.sys p x ↔ LosesNoChild t p im 0 0 0)) ⟨t, times⟩ := by
  let := builtLayout
  obtain ⟨t, p, q, im, h, hfound, hpid⟩ := exists_zombieChild
  exact ⟨t, p, q, im, h, hfound, fun times =>
    @sysWaitx_atomic_iff _ p im [] ⟨t, times⟩ h hpid 0 0 0 0 0⟩

omit [Layout] in
/-- With an address for the waiting time that is no address of the process, the call fails and
the child is gone. -/
theorem sysWaitx_loses_child : ∃ (t : Sys) (p q : Fin NPROC) (im : UserImage),
    @Runs builtLayout t p im ∧ zombieChild t p = some q ∧ ∀ times, ∃ t' : TimedSys,
      (@sysWaitx builtLayout p 0 MAXVA 0 0 0 []).run ⟨t, times⟩ = .ok (some (-1), t') ∧
        ¬KeepsZombies t t'.sys p := by
  let := builtLayout
  obtain ⟨t, p, q, im, h, hfound, hpid⟩ := exists_zombieChild
  refine ⟨t, p, q, im, h, hfound, fun times => ?_⟩
  obtain ⟨hparent, hzombie⟩ := zombieChild_eq_some hfound
  have hne : p ≠ q := by
    rintro rfl
    rw [h.state] at hzombie
    cases hzombie
  have hwp : wp (sysWaitx p 0 MAXVA 0 0 0 []) (fun _ => False)
      (fun res t' => res = some (-1) ∧ ¬KeepsZombies t t'.sys p) ⟨t, times⟩ := by
    unfold sysWaitx waitx
    simp only [wp_bind, wp_modify, wp_get, awaitChild, hfound, ne_eq, not_true_eq_false, if_false,
      wp_pure, show ¬(0 : Int) < 0 by decide, wp_onSys]
    refine wp_imp (h.freeproc_spec hne) ?_
    rintro - t₁ ⟨h1, hgone⟩
    obtain ⟨r, tf, hr, -⟩ := h1.inv.live (p := p) (by simp [h1.state])
    simp only [wp_bind, copyToUser, wp_getProc, TimedSys.setSys, hr, wp_deref_some, wp_onPhys]
    rw [wp_copyout_refuse (fun hc => absurd hc.1 (lt_irrefl _)) (by simp [← List.length_pos_iff]),
      if_pos (by decide)]
    refine ⟨rfl, fun hk => ?_⟩
    have hstate : (t₁.proc q).state = .zombie := (hk q hparent hzombie).2.1
    rw [hgone] at hstate
    cases hstate
  obtain ⟨_, t', hrun, rfl, hlost⟩ := wp_run hwp
  exact ⟨t', hrun, hlost⟩

/-! ### What the caller learns -/

/-- The process tables are the same, and so is the memory of `p`. -/
structure Alike (t u : TimedSys) (p : Fin NPROC) : Prop where
  proc : u.sys.proc = t.sys.proc
  times : u.times = t.times
  image : u.sys.image p = t.sys.image p

/-- What is returned and what is in the memory of the caller does not depend on what was on the
kernel stack before. -/
def NoLeak (p : Fin NPROC) (addr addr1 addr2 : Nat) (later : List TimedSys) (t : TimedSys) : Prop :=
  ∀ later' u wtime rtime wtime' rtime' x x' t' u',
    SysInv (awaitChild p later' u).sys → Alike (awaitChild p later t) (awaitChild p later' u) p →
    (sysWaitx p addr addr1 addr2 wtime rtime later).run t = .ok (some x, t') →
    (sysWaitx p addr addr1 addr2 wtime' rtime' later').run u = .ok (some x', u') →
    x' = x ∧ u'.sys.image p = t'.sys.image p

omit [Layout] in
lemma Alike.zombieChild_eq {t : TimedSys} (h : Alike t u p) :
    zombieChild u.sys p = zombieChild t.sys p := by
  unfold zombieChild findProc
  rw [h.proc]

omit [Layout] in
/-- If a child was found, nothing that `waitx` hands out depends on the stack. -/
lemma WaitxEnds.unique {t : TimedSys} (h : Alike t u p) (hq : zombieChild t.sys p = some q)
    {w₁ r₁ w' r' : BitVec 32} {ret' : Int} {s' : Sys}
    (ht : WaitxEnds t p im addr w₀ r₀ ret w r im₁ s)
    (hu : WaitxEnds u p im addr w₁ r₁ ret' w' r' im₂ s') :
    ret' = ret ∧ w' = w ∧ r' = r ∧ im₂ = im₁ := by
  have hq' := h.zombieChild_eq.trans hq
  have hpid := congrArg (fun f => (f q).pid) h.proc
  have hx := congrArg (fun f => (f q).xstate) h.proc
  have htimes := congrFun h.times q
  cases ht with
  | nothing found =>
    rw [found] at hq
    cases hq
  | refused found ne status =>
    obtain rfl := Option.some.inj (found.symm.trans hq)
    cases hu with
    | nothing found' =>
      rw [found'] at hq'
      cases hq'
    | refused found' =>
      obtain rfl := Option.some.inj (found'.symm.trans hq')
      rw [htimes, hx]
      exact ⟨rfl, rfl, rfl, rfl⟩
    | reaped _ status' => exact absurd (status' ne) status
  | reaped found status =>
    obtain rfl := Option.some.inj (found.symm.trans hq)
    cases hu with
    | nothing found' =>
      rw [found'] at hq'
      cases hq'
    | refused _ ne' status' => exact absurd (status ne') status'
    | reaped found' =>
      obtain rfl := Option.some.inj (found'.symm.trans hq')
      rw [htimes, hx, hpid]
      exact ⟨rfl, rfl, rfl, rfl⟩

omit [Layout] in
/-- If no child was found `waitx` hands out what was on the stack. -/
lemma WaitxEnds.of_none {t : TimedSys} (hnone : zombieChild t.sys p = none)
    (h : WaitxEnds t p im addr w₀ r₀ ret w r im' s) : ret = -1 ∧ w = w₀ ∧ r = r₀ ∧ im' = im := by
  cases h with
  | nothing => exact ⟨rfl, rfl, rfl, rfl⟩
  | refused found =>
    rw [hnone] at found
    cases found
  | reaped found =>
    rw [hnone] at found
    cases found

omit [Layout] in
/-- Nothing is copied if the first address is refused. -/
lemma Handed.of_not_mayStore (h : Handed im addr1 addr2 wtime rtime ret x im')
    (hmay : ¬im.space.MayStore addr1) : x = -1 ∧ im' = im := by
  cases h with
  | first => exact ⟨rfl, UserImage.stores_of_not_mayStore hmay _⟩
  | second h1 => exact absurd h1.1 hmay
  | both h1 => exact absurd h1.1 hmay

omit [Layout] in
/-- If both values are made of one byte, that byte is at the first address in the end. -/
lemma Handed.load {v : BitVec 32} {c : UInt8} (h : Handed im addr1 addr2 v v ret x im')
    (hc : uintBytes v = List.replicate 4 c) (hmay : im.space.MayStore addr1) :
    im'.space.load addr1 = some c := by
  have hfirst := AddrSpace.load_stores_first (c := c) hmay 3
  cases h with
  | first =>
    rw [hc]
    exact hfirst
  | second =>
    rw [hc]
    exact AddrSpace.load_stores_replicate 4 _ _ hfirst
  | both =>
    rw [hc]
    exact AddrSpace.load_stores_replicate 4 _ _ hfirst

/-- What a run of `sys_waitx` leaves that returns. -/
lemma sysWaitxEnds_of_run {t t' : TimedSys} (h : Runs (awaitChild p later t).sys p im)
    (hrun : (sysWaitx p addr addr1 addr2 wtime rtime later).run t = .ok (some x, t')) :
    SysWaitxEnds (awaitChild p later t) p im addr addr1 addr2 wtime rtime x t'.sys :=
  wp_of_run hrun |>.mp (sysWaitx_spec (E := fun e => e = .cowallocKalloc) h rfl ..) x rfl

/-- Two stacks that make a difference. -/
lemma not_noLeak {t : TimedSys} (h : Runs (awaitChild p later t).sys p im)
    (hret : ∀ wtime rtime, ∃ x t',
      (sysWaitx p addr addr1 addr2 wtime rtime later).run t = .ok (some x, t'))
    (hnone : zombieChild (awaitChild p later t).sys p = none) (hmay : im.space.MayStore addr1) :
    ¬NoLeak p addr addr1 addr2 later t := by
  intro hno
  have hload : ∀ (v : BitVec 32) (c : UInt8), uintBytes v = List.replicate 4 c → ∃ x t' im',
      (sysWaitx p addr addr1 addr2 v v later).run t = .ok (some x, t') ∧
        t'.sys.image p = some im' ∧ im'.space.load addr1 = some c := by
    intro v c hv
    obtain ⟨x, t', hrun⟩ := hret v v
    obtain ⟨ret, w, r, im₁, u, im', hends, -, hhanded, himage⟩ := sysWaitxEnds_of_run h hrun
    obtain ⟨rfl, rfl, rfl, rfl⟩ := hends.of_none hnone
    exact ⟨x, t', im', hrun, himage, hhanded.load hv hmay⟩
  obtain ⟨x, t₁, im₁, hrun, himage, hzero⟩ := hload 0 0 (by decide)
  obtain ⟨x', t₂, im₂, hrun', himage', hone⟩ := hload (BitVec.allOnes 32) 255 (by decide)
  obtain ⟨-, hsame⟩ := hno later t _ _ _ _ _ _ _ _ h.inv ⟨rfl, rfl, rfl⟩ hrun hrun'
  rw [himage, himage', Option.some.injEq] at hsame
  rw [hsame, hzero] at hone
  exact absurd hone (by decide)

/-- The result of `sys_waitx` and the caller's memory do not depend on what was on the kernel
stack, exactly if there is a child to reap or the first address cannot be written. -/
theorem sysWaitx_noLeak_iff {later : List TimedSys} {t : TimedSys}
    (h : Runs (awaitChild p later t).sys p im) {addr addr1 addr2 : Nat}
    (hret : ∀ wtime rtime, ∃ x t',
      (sysWaitx p addr addr1 addr2 wtime rtime later).run t = .ok (some x, t')) :
    NoLeak p addr addr1 addr2 later t ↔
      zombieChild (awaitChild p later t).sys p ≠ none ∨ ¬im.space.MayStore addr1 := by
  constructor
  · intro hno
    by_contra hc
    rw [not_or, not_not, not_not] at hc
    exact not_noLeak h hret hc.1 hc.2 hno
  · intro hcond later' u w r w' r' x x' t' u' hinv halike hrun hrun'
    have h' : Runs (awaitChild p later' u).sys p im :=
      ⟨hinv, by rw [halike.proc]; exact h.state, halike.image.trans h.image⟩
    obtain ⟨ret₁, w₁, r₁, im₁, s₁, im₁', hends₁, -, hhanded₁, himage₁⟩ := sysWaitxEnds_of_run h hrun
    obtain ⟨ret₂, w₂, r₂, im₂, s₂, im₂', hends₂, -, hhanded₂, himage₂⟩ :=
      sysWaitxEnds_of_run h' hrun'
    rw [himage₁, himage₂, Option.some.injEq]
    cases hfound : zombieChild (awaitChild p later t).sys p with
    | some q =>
      obtain ⟨rfl, rfl, rfl, rfl⟩ := hends₁.unique halike hfound hends₂
      exact hhanded₂.unique hhanded₁
    | none =>
      have hmay := hcond.resolve_left (not_not_intro hfound)
      obtain ⟨rfl, rfl, rfl, rfl⟩ := hends₁.of_none hfound
      obtain ⟨rfl, rfl, rfl, rfl⟩ := hends₂.of_none (halike.zombieChild_eq.trans hfound)
      obtain ⟨rfl, rfl⟩ := hhanded₁.of_not_mayStore hmay
      obtain ⟨rfl, rfl⟩ := hhanded₂.of_not_mayStore hmay
      exact ⟨rfl, rfl⟩

/-! ### A call that leaks -/

/-- `copyout` to a page that can be written needs no memory. -/
lemma Runs.copyToUser_writable (h : Runs t p im) {r : Nat} (hr : (t.proc p).pagetable = some r)
    (hwr : Writable t.phys.mem r va) {bs : List UInt8} (hfit : va % PGSIZE + bs.length ≤ PGSIZE) :
    wp (copyToUser p va bs) E (fun res t' => res = 0 ∧ Runs t' p (im.stores va bs) ∧
      t'.proc = t.proc ∧ Writable t'.phys.mem r va) t := by
  obtain ⟨ker, hmem, -⟩ := h.inv.mem
  have hv := hmem.vpn_lt (i := some p) hr hwr.1 hwr.2.2.1
  have hpage := ptePage_eq_some.mpr ⟨hwr.2.1, rfl⟩
  obtain ⟨-, ht⟩ := hmem.userWrite (i := some p) hr hv hpage (sameOutside_write t.phys.mem bs
    (q := pte2pa (leafPte t.phys.mem r (va / PGSIZE)))
    (a := pte2pa (leafPte t.phys.mem r (va / PGSIZE)) + va % PGSIZE) (by omega) (by omega))
  have hrun : wp (copyToUser p va bs) E (fun res t' => res = 0 ∧ Writable t'.phys.mem r va) t := by
    unfold copyToUser
    rw [wp_bind, wp_getProc, hr, wp_bind, wp_deref_some, wp_onPhys,
      wp_congr (run_userStores hmem (i := some p) hr va bs), ← List.append_nil bs]
    apply wp_userStores_page (i := some p) hr hmem hwr hfit
    rw [userStores, wp_pure]
    refine ⟨rfl, hwr.1, ?_⟩
    simp only [Sys.setPhys_phys]
    rw [ht.leafPte (i := some p) hr]
    exact hwr.2
  refine wp_imp (wp_also hrun (h.copyToUser_spec (E := fun _ => True) trivial va bs)) ?_
  rintro res t' ⟨⟨rfl, hwr'⟩, h', hproc, -⟩
  exact ⟨rfl, h', hproc, hwr'⟩

omit [Layout] in
/-- A process with a page that can be written, and without children. -/
lemma exists_writable : ∃ (t : Sys) (p : Fin NPROC) (im : UserImage) (r : Nat),
    @Runs builtLayout t p im ∧ (t.proc p).pagetable = some r ∧ Writable t.phys.mem r 0 ∧
      im.space.MayStore 0 ∧ ∀ q, (t.proc q).parent = none := by
  let := builtLayout
  obtain ⟨t, p, im, h⟩ := exists_alone
  obtain ⟨r, tf, hr, -⟩ := h.inv.live (p := p) (by simp [h.state])
  obtain ⟨ker, hmem, hheld⟩ := h.inv.mem
  have him : im = { sz := (t.proc p).sz, space := space t.phys.mem r } :=
    Option.some.inj (h.image.symm.trans (Proc.image_of_some hr _))
  have hmay : MayWrite t.phys.mem r 0 := by
    apply (hmem.mayStore_iff (i := some p) hr).mp
    have hpage := h.page
    rw [him] at hpage
    exact hpage
  have hfree : t.phys.freelist ≠ [] := by
    intro hc
    have hlen := h.free
    rw [Phys.free, hc, List.length_nil] at hlen
    omega
  obtain ⟨res, s', -, hpost⟩ := wp_run
    (cowalloc_spec (E := fun _ => False) hmem (i := some p) hr 0 hfree)
  obtain ⟨h1, -, hres⟩ := hpost
  obtain ⟨-, hframe, hwr⟩ := hres.resolve_left fun hc => hc.2.2 hmay
  obtain ⟨hinv, himage⟩ := h.inv.setPhys_same h1 hheld hframe.same
  refine ⟨t.setPhys s', p, im, r, ⟨hinv, h.state, by rw [himage, h.image]⟩, hr, hwr, h.page, ?_⟩
  intro q
  rw [Sys.setPhys_proc]
  by_cases hq : q = p
  · rw [hq, h.parent]
  · rw [h.others q hq]
    rfl

omit [Layout] in
/-- A process without children, and with room for the two times: the call returns -1. -/
lemma exists_returns : ∃ (t : Sys) (p : Fin NPROC) (im : UserImage), @Runs builtLayout t p im ∧
    zombieChild t p = none ∧ im.space.MayStore 0 ∧ ∀ times wtime rtime, ∃ t' : TimedSys,
      (@sysWaitx builtLayout p 0 0 0 wtime rtime []).run ⟨t, times⟩ = .ok (some (-1), t') := by
  let := builtLayout
  obtain ⟨t, p, im, r, h, hr, hwr, hmay, hparent⟩ := exists_writable
  have hnone : ∀ c : Proc → Bool, (∀ x, c x = true → x.parent = some p) → findProc t c = none := by
    intro c hc
    unfold findProc
    rw [List.find?_eq_none]
    intro q _ hq
    have := hc _ hq
    rw [hparent q] at this
    cases this
  have hchild : zombieChild t p = none := by
    apply hnone
    intro x hx
    rw [Bool.and_eq_true, beq_iff_eq] at hx
    exact hx.1
  have hkids : findProc t (fun x => x.parent == some p) = none :=
    hnone _ fun x hx => beq_iff_eq.mp hx
  have hsleep : ¬Sleeps t p := fun hc => hc.2.1 hkids
  refine ⟨t, p, im, h, hchild, hmay, fun times wtime rtime => ?_⟩
  have hfit : ∀ v : BitVec 32, 0 % PGSIZE + (uintBytes v).length ≤ PGSIZE := by
    intro v
    rw [length_uintBytes]
    decide
  have hwp : wp (sysWaitx p 0 0 0 wtime rtime []) (fun _ => False) (fun res _ => res = some (-1))
      ⟨t, times⟩ := by
    unfold sysWaitx waitx
    simp only [wp_bind, wp_modify, wp_get, awaitChild, hchild, hsleep, if_false, wp_pure, wp_onSys]
    refine wp_imp (h.copyToUser_writable hr hwr (hfit wtime)) ?_
    rintro res t₁ ⟨rfl, h1, hproc1, hwr1⟩
    simp only [lt_irrefl, if_false, wp_bind, wp_onSys]
    refine wp_imp (h1.copyToUser_writable (by rw [hproc1]; exact hr) hwr1 (hfit rtime)) ?_
    rintro res t₂ ⟨rfl, -⟩
    rw [if_neg (lt_irrefl _)]
    rfl
  obtain ⟨_, t', hrun, rfl⟩ := wp_run hwp
  exact ⟨t', hrun⟩

omit [Layout] in
theorem sysWaitx_noLeak_iff_childless : ∃ (t : Sys) (p : Fin NPROC) (im : UserImage),
    @Runs builtLayout t p im ∧ ∀ times, (@NoLeak builtLayout p 0 0 0 [] ⟨t, times⟩ ↔
      zombieChild t p ≠ none ∨ ¬im.space.MayStore 0) := by
  let := builtLayout
  obtain ⟨t, p, im, h, -, -, hret⟩ := exists_returns
  exact ⟨t, p, im, h, fun times => @sysWaitx_noLeak_iff _ p im [] ⟨t, times⟩ h 0 0 0
    fun wtime rtime => ⟨_, hret times wtime rtime⟩⟩

omit [Layout] in
/-- A process without children reads the kernel stack. -/
theorem sysWaitx_leaks : ∃ (t : Sys) (p : Fin NPROC) (im : UserImage),
    @Runs builtLayout t p im ∧ ∀ times, ¬@NoLeak builtLayout p 0 0 0 [] ⟨t, times⟩ := by
  let := builtLayout
  obtain ⟨t, p, im, h, hnone, hmay, hret⟩ := exists_returns
  exact ⟨t, p, im, h, fun times => not_noLeak (t := ⟨t, times⟩) h
    (fun wtime rtime => ⟨_, hret times wtime rtime⟩) hnone hmay⟩

end Xv6
