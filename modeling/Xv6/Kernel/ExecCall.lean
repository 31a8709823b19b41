import Xv6.Fs.Calls
import Xv6.Kernel.BootSpec

/-!
# `exec` of a path

`exec` with the file system around it: the operation of the log, the inode that `namei` finds, its
lock, and the name of the process. Whatever the file holds, a call that returns -1 has given back
all that it took.
-/

namespace Xv6

open Function Lib

variable {α : Type} {path : List Char} {argv : List (List UInt8)} {Q : Int → Sys → Prop}

inductive Fault where
  | kernel (e : Panic)
  | fs (e : Fs.Panic)
  | iunlock

structure World where
  sys : Sys
  fs : Fs.St
  /-- `log.outstanding`. -/
  outstanding : Nat
  /-- `ip->lock.locked`. -/
  locked : Nat → Bool
  /-- `p->name`. -/
  name : Fin NPROC → List Char

abbrev WorldM := Prog World Fault

namespace World

def setSys (w : World) (t : Sys) : World := { w with sys := t }

def setFs (w : World) (s : Fs.St) : World := { w with fs := s }

def setLocked (w : World) (ip : Nat) (b : Bool) : World :=
  { w with locked := update w.locked ip b }

end World

/-- A function of the process table or of memory. -/
def inSys {α : Type} (m : SysM α) : WorldM α := zoom World.sys World.setSys (raise Fault.kernel m)

/-- A function of the file system. -/
def inFs {α : Type} (m : Fs.FsM α) : WorldM α := zoom World.fs World.setFs (raise Fault.fs m)

def beginOp : WorldM Unit := modify fun w => { w with outstanding := w.outstanding + 1 }

def endOp : WorldM Unit := modify fun w => { w with outstanding := w.outstanding - 1 }

def ilock (ip : Nat) : WorldM Unit := do
  inFs (Fs.ilock ip)
  modify fun w => w.setLocked ip true

def iunlock (ip : Nat) : WorldM Unit := do
  let w ← get
  if w.locked ip = false ∨ w.fs.ref ip < 1 then throw .iunlock
  set (w.setLocked ip false)

def iunlockput (ip : Nat) : WorldM Unit := do
  iunlock ip
  inFs (Fs.iput ip)

/-- `struct dirent` as it stands in a block. -/
def direntBytes (de : Fs.Dirent) : List UInt8 :=
  leBytes 2 de.inum ++
    (de.name.map (fun c : Char => UInt8.ofNat c.toNat) ++ List.replicate Fs.DIRSIZ 0).take Fs.DIRSIZ

/-- The bytes that `readi` finds in an inode. -/
def fileBytes (d : Fs.Dinode) : List UInt8 :=
  if d.type = .dir then d.ents.flatMap direntBytes else d.data

/-- The loop that looks for the last element of the path. -/
def lastElem (last : List Char) : List Char → List Char
  | [] => last
  | c :: s => lastElem (if c = '/' then s else last) s

/-- `safestrcpy(p->name, last, sizeof(p->name))`. -/
def setName (p : Fin NPROC) (path : List Char) : WorldM Unit :=
  modify fun w => { w with name := update w.name p ((lastElem path path).take 15) }

variable [Layout]

/-- `bad:`. A null pointer is `none`. -/
def bad (pagetable : Option Nat) (sz : Nat) (ip : Option Nat) : WorldM Int := do
  match pagetable with
  | some pagetable => inSys (onPhys (procFreepagetable pagetable sz))
  | none => pure ()
  match ip with
  | some ip =>
    iunlockput ip
    endOp
  | none => pure ()
  return -1

/-- `exec` from the check of the ELF header on, with the inode locked. -/
def execInode (p : Fin NPROC) (path : List Char) (argv : List (List UInt8)) (ip : Nat) :
    WorldM Int := do
  let w ← get
  let file := fileBytes (w.fs.dinode ip)
  let b := readi file 0 sizeofElfhdr
  if b.length ≠ sizeofElfhdr then bad none 0 (some ip)
  else
    let elf := Elfhdr.ofBytes b
    if elf.magic ≠ ELF_MAGIC then bad none 0 (some ip)
    else
      let x ← inSys (getProc p)
      let trapframe ← inSys (deref x.trapframe)
      match ← inSys (onPhys (procPagetable trapframe)) with
      | none => bad none 0 (some ip)
      | some pagetable =>
        match ← inSys (onPhys (execSegments pagetable file elf.phnum (elf.phoff % 2 ^ 32) 0)) with
        | (sz, false) => bad (some pagetable) sz (some ip)
        | (sz, true) =>
          iunlockput ip
          endOp
          match ← inSys (onPhys (execStack pagetable argv sz)) with
          | (sz, none) => bad (some pagetable) sz none
          | (sz, some sp) =>
            inSys (onPhys (storeTrapframe trapframe trapframeA1 sp))
            setName p path
            let oldpagetable ← inSys (deref x.pagetable)
            inSys (setProc p fun x => { x with pagetable := some pagetable, sz := sz })
            inSys (onPhys (storeTrapframe trapframe trapframeEpc elf.entry))
            inSys (onPhys (storeTrapframe trapframe trapframeSp sp))
            inSys (onPhys (procFreepagetable oldpagetable x.sz))
            return argv.length

def execPath (p : Fin NPROC) (path : List Char) (argv : List (List UInt8)) : WorldM Int := do
  beginOp
  match ← inFs (Fs.namei p path) with
  | none =>
    endOp
    return -1
  | some ip =>
    ilock ip
    execInode p path argv ip

/-! ### The file system around `exec` -/

variable {w w' : World} {E : Fault → Prop} {p : Fin NPROC} {ip : Nat}

omit [Layout] in
@[simp] lemma wp_inSys {m : SysM α} {Q : α → World → Prop} :
    wp (inSys m) E Q w ↔ wp m (fun e => E (.kernel e)) (fun a t => Q a (w.setSys t)) w.sys := by
  rw [inSys, wp_zoom, wp_raise]

omit [Layout] in
@[simp] lemma wp_inFs {m : Fs.FsM α} {Q : α → World → Prop} :
    wp (inFs m) E Q w ↔ wp m (fun e => E (.fs e)) (fun a s => Q a (w.setFs s)) w.fs := by
  rw [inFs, wp_zoom, wp_raise]

/-- The inode is unlocked and put, and the operation ends. -/
def World.close (w : World) (ip : Nat) : World :=
  { (w.setLocked ip false).setFs (w.fs.iput ip) with outstanding := w.outstanding - 1 }

omit [Layout] in
/-- `iunlockput(ip); end_op();`. -/
lemma wp_close {Q : Unit → World → Prop} (hlock : w.locked ip = true) (href : 0 < w.fs.ref ip)
    (hQ : Q () (w.close ip)) : wp (do iunlockput ip; endOp) E Q w := by
  unfold iunlockput iunlock endOp
  simp only [wp_bind, wp_get, wp_ite, wp_throw, wp_set, wp_inFs, Fs.wp_iput, wp_modify]
  refine ⟨?_, fun _ => hQ⟩
  rintro (hc | hc)
  · rw [hlock] at hc
    cases hc
  · exact absurd (show w.fs.ref ip < 1 from hc) (by omega)

/-- `exec` with an inode does to the system what `exec` does with the bytes of the inode, and it
closes the inode once. -/
lemma wp_execInode {R : Int → World → Prop} (hlock : w.locked ip = true) (href : 0 < w.fs.ref ip)
    (h : wp (exec p (some (fileBytes (w.fs.dinode ip))) argv) (fun e => E (.kernel e)) Q w.sys)
    (hR : ∀ res t name, Q res t → (res = -1 → name = w.name) →
      R res { (w.close ip).setSys t with name }) : wp (execInode p path argv ip) E R w := by
  -- the last steps of a call that fails before the inode is put
  have hclose : ∀ t, Q (-1) t →
      wp (do iunlockput ip; endOp) E (fun _ w' => R (-1) w') (w.setSys t) :=
    fun t hq => wp_close hlock href (hR _ _ _ hq fun _ => rfl)
  have hbad : ∀ t, Q (-1) t → wp (bad none 0 (some ip)) E R (w.setSys t) := by
    intro t hq
    have hend := hclose t hq
    unfold bad
    simp only [wp_bind, wp_pure] at hend ⊢
    exact hend
  unfold exec at h
  unfold execInode
  rw [wp_bind, wp_get]
  simp only
  rw [wp_ite] at h ⊢
  refine ⟨fun hlen => hbad _ (h.1 hlen), fun hlen => ?_⟩
  replace h := h.2 hlen
  rw [wp_ite] at h ⊢
  refine ⟨fun hmagic => hbad _ (h.1 hmagic), fun hmagic => ?_⟩
  replace h := h.2 hmagic
  rw [wp_bind] at h ⊢
  rw [wp_inSys]
  refine wp_imp h fun x t₁ h => ?_
  rw [wp_bind] at h ⊢
  rw [wp_inSys]
  refine wp_imp h fun trapframe t₂ h => ?_
  rw [wp_bind] at h ⊢
  rw [wp_inSys]
  refine wp_imp h fun opt t₃ h => ?_
  cases opt with
  | none => exact hbad t₃ h
  | some pagetable =>
    simp only [execImage, wp_bind, wp_onPhys] at h
    simp only [wp_bind, wp_inSys, wp_onPhys]
    refine wp_imp h ?_
    rintro ⟨sz, ok⟩ s₄ h
    cases ok with
    | false =>
      simp only [wp_pure, wp_bind, wp_onPhys] at h
      simp only [bad, wp_bind, wp_inSys, wp_onPhys]
      refine wp_imp h fun _ s₅ h => ?_
      have hend := hclose _ h
      rw [wp_bind] at hend
      exact hend
    | true =>
      simp only at h
      have hopen : wp (do iunlockput ip; endOp) E
          (fun _ w' => w' = (w.close ip).setSys (t₃.setPhys s₄)) (w.setSys (t₃.setPhys s₄)) :=
        wp_close hlock href rfl
      rw [wp_bind] at hopen
      simp only [wp_bind, wp_inSys, wp_onPhys]
      refine wp_imp hopen fun _ w₅ hopen => wp_imp hopen ?_
      rintro - w₆ rfl
      refine wp_imp h ?_
      rintro ⟨sz, osp⟩ s₆ h
      cases osp with
      | none =>
        simp only [wp_pure, wp_bind, wp_onPhys] at h
        simp only [bad, wp_bind, wp_inSys, wp_onPhys, wp_pure]
        exact wp_imp h fun _ s₇ h => hR _ _ _ h fun _ => rfl
      | some sp =>
        simp only [wp_pure, wp_bind, wp_onPhys] at h
        simp only [setName, wp_bind, wp_inSys, wp_onPhys, wp_modify, wp_pure]
        refine wp_imp h fun _ s₇ h => wp_imp h fun _ t₈ h => wp_imp h fun _ t₉ h =>
          wp_imp h fun _ s₁₀ h => wp_imp h fun _ s₁₁ h => wp_imp h fun _ s₁₂ h => ?_
        exact hR _ _ _ h fun hc => by omega

/-- The call has ended its operation and has no inode and no lock. -/
structure Balanced (w w' : World) : Prop where
  outstanding : w'.outstanding = w.outstanding
  locked : w'.locked = w.locked
  ref : w'.fs.ref = w.fs.ref
  fs : Fs.Quiet w.fs w'.fs

omit [Layout] in
/-- Two states of the file system between calls that hold the same files. -/
lemma ref_of_quiet {s s' : Fs.St} (h : Fs.Refs [] s) (h' : Fs.Refs [] s') (hq : Fs.Quiet s s') :
    s'.ref = s.ref := by
  funext i
  rw [h'.ref i, h.ref i, hq.held]

/-- What `exec` does to the system, and that it leaves nothing open in the file system. -/
lemma wp_execPath (hfs : Fs.Refs [] w.fs) (hlock : ∀ ip, w.locked ip = false) (hE : ∀ e, E (.fs e))
    (h : ∀ file, wp (exec p file argv) (fun e => E (.kernel e)) Q w.sys) :
    wp (execPath p path argv) E (fun res w' => Q res w'.sys ∧ Balanced w w' ∧
      (res = -1 → w'.name = w.name)) w := by
  unfold execPath beginOp
  simp only [wp_bind, wp_modify, wp_inFs]
  refine Fs.wp_namei hfs ⟨⟨Or.inl (hE _), Or.inl (hE _)⟩, fun _ _ _ => hE _⟩ (Nat.zero_le _) ?_ ?_
  · intro s hq hs
    exact ⟨h none, ⟨Nat.add_sub_cancel .., rfl, ref_of_quiet hfs hs hq, hq⟩, fun _ => rfl⟩
  · intro ip _ s hq hs hlive _
    simp only [ilock, wp_bind, wp_inFs]
    refine Fs.wp_ilock_of hs List.mem_cons_self hlive fun s₁ hq₁ hs₁ _ _ => ?_
    rw [wp_modify]
    have hquiet := hq.trans hq₁
    have href : 0 < s₁.ref ip := by
      rw [hs₁.ref ip, List.count_cons_self]
      omega
    refine wp_execInode (update_self ..) href (h _) fun res t name hQ hname => ?_
    have hclosed := hquiet.trans (Fs.quiet_iput hs₁ (hfs.kept.quiet hquiet))
    refine ⟨hQ, ⟨Nat.add_sub_cancel .., ?_, ref_of_quiet hfs hs₁.iput hclosed, hclosed⟩, hname⟩
    -- the lock was free before
    show update (update w.locked ip true) ip false = w.locked
    rw [update_idem, update_eq_self_iff]
    exact (hlock ip).symm

/-! ### A call that fails -/

/-- Nothing of the process has changed, and the same pages are free. -/
structure Unchanged (w w' : World) (p : Fin NPROC) : Prop where
  proc : w'.sys.proc = w.sys.proc
  pagetable : ∀ r v, (w.sys.proc p).pagetable = some r → v < 2 ^ 27 →
    leafPte w'.sys.phys.mem r v = leafPte w.sys.phys.mem r v
  memory : w'.sys.image = w.sys.image
  trapframe : ∀ tf, (w.sys.proc p).trapframe = some tf →
    SamePage w.sys.phys.mem w'.sys.phys.mem tf
  name : w'.name = w.name
  free : ∀ pg, pg ∈ w'.sys.phys.freelist ↔ pg ∈ w.sys.phys.freelist

lemma Restored.unchanged (h : SysInv w.sys) (hback : Restored w.sys w'.sys)
    (hname : w'.name = w.name) (p : Fin NPROC) : Unchanged w w' p := by
  obtain ⟨ker, hmem, hmem', hheld, hframe⟩ := hback.frame
  refine ⟨by rw [hback.sys]; rfl, ?_, ?_, ?_, hname, ?_⟩
  · exact fun r v hr hv => hframe.leaf (i := some p) hr hv id
  · rw [hback.sys]
    exact (h.setPhys_same hmem' hheld hframe.same).2
  · intro tf htf
    obtain ⟨hpage, hk⟩ := hheld.isPage_trapframe htf
    exact hframe.held hpage (by rw [hk]; nofun)
  · exact fun pg => hframe.samePlaces.mem_freelist hmem hmem'

/-- `exec` of any file panics nowhere outside the file system, and if it returns -1 the process and
the free pages are as before. In any case it leaves no inode referenced or locked, and no operation
of the log open. -/
theorem exec_atomic {path : List Char} {argv : List (List UInt8)} (h : SysInv w.sys)
    (hlive : (w.sys.proc p).state ≠ .unused) (hfs : Fs.Refs [] w.fs)
    (hlock : ∀ ip, w.locked ip = false) :
    (∀ e, (execPath p path argv).run w = .error e → ∃ e', e = .fs e') ∧
      ∀ res w', (execPath p path argv).run w = .ok (res, w') →
        Balanced w w' ∧ (res = -1 → Unchanged w w' p) := by
  have hexec : ∀ file, wp (exec p file argv) (fun _ => False)
      (fun res t => res = -1 → Restored w.sys t) w.sys := by
    intro file
    refine wp_imp (h.exec_spec hlive file argv) ?_
    rintro res t (⟨-, hback⟩ | ⟨f, sz, sp, A, -, rfl, -⟩) hres
    · exact hback
    · omega
  have hspec : wp (execPath p path argv) (fun e => ∃ e', e = .fs e') _ w :=
    wp_execPath hfs hlock (fun e => ⟨e, rfl⟩) fun file =>
      wp_mono (hexec file) (fun _ => False.elim) fun _ _ => id
  refine ⟨fun e hrun => ?_, fun res w' hrun => ?_⟩
  · rwa [wp_of_error hrun] at hspec
  · rw [wp_of_run hrun] at hspec
    obtain ⟨hback, hbal, hname⟩ := hspec
    exact ⟨hbal, fun hres => (hback hres).unchanged h (hname hres) p⟩

/-- The system `t` after boot, with the file system that `mkfs` makes. -/
def World.booted (t : Sys) : World where
  sys := t
  fs := Fs.mkfsRoot
  outstanding := 0
  locked := fun _ => false
  name := fun _ => []

/-- The root directory is too short to be a program. -/
lemma execPath_root (t : Sys) (p : Fin NPROC) :
    ∃ w', (execPath p ['/'] []).run (World.booted t) = .ok (-1, w') :=
  ⟨_, rfl⟩

omit [Layout] in
theorem exec_atomic_root : ∃ t p w', @SysInv builtLayout t ∧ (t.proc p).state ≠ .unused ∧
    Fs.Refs [] (World.booted t).fs ∧ (∀ ip, (World.booted t).locked ip = false) ∧
    (@execPath builtLayout p ['/'] []).run (World.booted t) = .ok (-1, w') ∧
    Balanced (World.booted t) w' ∧ Unchanged (World.booted t) w' p := by
  let := builtLayout
  obtain ⟨t, p, im, h⟩ := exists_alone
  have hlive : (t.proc p).state ≠ .unused := by
    rw [h.state]
    nofun
  have hfs : Fs.Refs [] (World.booted t).fs := Fs.booted_mkfsRoot.ok.refs
  obtain ⟨w', hrun⟩ := execPath_root t p
  obtain ⟨hbal, hun⟩ := (exec_atomic (w := World.booted t) h.inv hlive hfs fun _ => rfl).2 _ _ hrun
  exact ⟨t, p, w', h.inv, hlive, hfs, fun _ => rfl, hrun, hbal, hun rfl⟩

end Xv6
