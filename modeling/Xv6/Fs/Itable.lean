import Xv6.Fs.Inode

/-!
# The inode table while calls overlap

What `open`, `mkdir` and `chdir` do with pointers to inodes, one `iget`, `idup` or `iput` at a time,
for calls of many processes in any interleaving. What a call finds on disk or in memory is left
open: a directory that is searched may hold any entry or none. A call has at most three pointers of
its own at a time, so the table does not fill up if there is room for three pointers of every call
whenever a call begins.
-/

namespace Xv6.Itable

open Function Lib Fs

/-- What a call does with pointers to inodes, from where it stands. -/
inductive Script where
  | ret
  /-- `iget`. -/
  | get (i : Nat) (next : Script)
  /-- `idup(p->cwd)`. -/
  | dupCwd (next : Nat → Script)
  /-- `iput`. -/
  | put (i : Nat) (next : Script)
  /-- It depends on what is found. -/
  | ask (next : Option Nat → Script)
  /-- `iput(p->cwd)`. -/
  | putCwd (next : Script)
  /-- The pointer becomes `p->cwd`, and the call returns. -/
  | toCwd (i : Nat)
  /-- The pointer goes to an open file, and the call returns. -/
  | toFile (i : Nat)

/-- A path: whether it is absolute, and how many elements it has. -/
structure Path where
  absolute : Bool
  elems : Nat

namespace Script

/-- `dirlookup`. -/
def dirlookup (k : Option Nat → Script) : Script :=
  .ask fun
    | none => k none
    | some i => .get i (k (some i))

/-- `dirlink`, and whether it succeeds. -/
def dirlink (k : Bool → Script) : Script :=
  dirlookup fun
    | some i => .put i (k false)
    | none => .ask fun written => k written.isSome

/-- The loop of `namex`. -/
def namexFrom (parent : Bool) (k : Option Nat → Script) : Nat → Nat → Script
  | 0, ip => if parent then .put ip (k none) else k (some ip)
  | n + 1, ip => .ask fun
    -- `ip->type != T_DIR`
    | none => .put ip (k none)
    | some _ =>
      if parent ∧ n = 0 then
        k (some ip)
      else
        dirlookup fun
          | none => .put ip (k none)
          | some next => .put ip (namexFrom parent k n next)

def namex (path : Path) (parent : Bool) (k : Option Nat → Script) : Script :=
  if path.absolute then
    .get ROOTINO (namexFrom parent k path.elems ROOTINO)
  else
    .dupCwd (namexFrom parent k path.elems)

/-- The end of `create` when `.` and `..` are there. -/
def enter (dp ip : Nat) (k : Option Nat → Script) : Script :=
  dirlink fun
    | true => .put dp (k (some ip))
    | false => .put ip (.put dp (k none))

/-- `create` of a directory or a file. -/
def create (path : Path) (dir : Bool) (k : Option Nat → Script) : Script :=
  namex path true fun
    | none => k none
    | some dp => dirlookup fun
      | some ip => .put dp <| .ask fun
        -- `type == T_FILE && (ip->type == T_FILE || ip->type == T_DEVICE)`
        | some _ => if dir then .put ip (k none) else k (some ip)
        | none => .put ip (k none)
      | none => .ask fun
        -- `ialloc`
        | none => .put dp (k none)
        | some ip => .get ip <|
          if dir then
            dirlink fun
              | false => .put ip (.put dp (k none))
              | true => dirlink fun
                | false => .put ip (.put dp (k none))
                | true => enter dp ip k
          else
            enter dp ip k

/-- `sys_open` with the inode: a check, `filealloc` or `fdalloc` may fail. -/
def thenOpen : Option Nat → Script
  | none => .ret
  | some ip => .ask fun
    | none => .put ip .ret
    | some _ => .toFile ip

def sysOpen (path : Path) (creat : Bool) : Script :=
  if creat then create path false thenOpen else namex path false thenOpen

def sysMkdir (path : Path) : Script :=
  create path true fun
    | none => .ret
    | some ip => .put ip .ret

def sysChdir (path : Path) : Script :=
  namex path false fun
    | none => .ret
    | some ip => .ask fun
      -- `ip->type != T_DIR`
      | none => .put ip .ret
      | some _ => .putCwd (.toCwd ip)

end Script

/-! ### The machine -/

structure Proc where
  cwd : Option Nat := none
  /-- The pointers of the call in progress, and what is left of the call. -/
  call : Option (List Nat × Script) := none

structure St where
  /-- The inodes of the open files, each until the `iput` of `fileclose`. -/
  files : List Nat
  proc : Fin NPROC → Proc

variable {s s' : St} {p : Fin NPROC} {h : List Nat} {a : Script} {i : Nat} {x : Proc}
  {files : List Nat} {cwd : Option Nat} {e : Option (Fin NPROC)} {tr : List (Option (Fin NPROC))}
  {parent : Bool} {path : Path}

namespace Proc

def held (x : Proc) : List Nat := x.call.elim [] Prod.fst

def calls (x : Proc) : Nat := x.call.toList.length

end Proc

namespace St

/-- `userinit`. -/
def boot : St := ⟨[], update (fun _ => {}) 0 { cwd := some ROOTINO }⟩

/-- The inodes that open files and current directories hold. -/
def kept (s : St) : Finset Nat :=
  s.files.toFinset ∪ Finset.univ.biUnion fun p => (s.proc p).cwd.toFinset

/-- The entries of the inode table that are in use. -/
def used (s : St) : Finset Nat :=
  s.kept ∪ Finset.univ.biUnion fun p => (s.proc p).held.toFinset

/-- The calls in progress. -/
def calls (s : St) : Nat := total Proc.calls s.proc

/-- `panic("iget: no inodes")`. -/
def Full (s : St) (p : Fin NPROC) : Prop :=
  ∃ h i a, (s.proc p).call = some (h, .get i a) ∧ i ∉ s.used ∧ NINODE ≤ s.used.card

end St

/-- One step of a call that has the pointers `h`. -/
inductive Moves (files : List Nat) (cwd : Option Nat) (h : List Nat) :
    Script → List Nat → Proc → Prop where
  | ret : Moves files cwd h .ret files ⟨cwd, none⟩
  | get (i : Nat) (a : Script) : Moves files cwd h (.get i a) files ⟨cwd, some (i :: h, a)⟩
  | dupCwd (i : Nat) (a : Nat → Script) (hcwd : cwd = some i) :
      Moves files cwd h (.dupCwd a) files ⟨cwd, some (i :: h, a i)⟩
  | put (i : Nat) (a : Script) : Moves files cwd h (.put i a) files ⟨cwd, some (h.erase i, a)⟩
  | ask (a : Option Nat → Script) (o : Option Nat) :
      Moves files cwd h (.ask a) files ⟨cwd, some (h, a o)⟩
  | putCwd (a : Script) : Moves files cwd h (.putCwd a) files ⟨none, some (h, a)⟩
  | toCwd (i : Nat) : Moves files cwd h (.toCwd i) files ⟨some i, none⟩
  | toFile (i : Nat) : Moves files cwd h (.toFile i) (i :: files) ⟨cwd, none⟩

/-- The event is the process that begins a call. -/
inductive Step (s : St) : Option (Fin NPROC) → St → Prop where
  | begin (p : Fin NPROC) (a : Script) (hp : (s.proc p).call = none)
      (ha : ∃ path, (∃ creat, a = .sysOpen path creat) ∨ a = .sysMkdir path ∨ a = .sysChdir path) :
      Step s (some p) ⟨s.files, update s.proc p ⟨(s.proc p).cwd, some ([], a)⟩⟩
  | move (p : Fin NPROC) (h : List Nat) (a : Script) (files : List Nat) (x : Proc)
      (hp : (s.proc p).call = some (h, a)) (hfull : ¬ s.Full p)
      (hm : Moves s.files (s.proc p).cwd h a files x) : Step s none ⟨files, update s.proc p x⟩
  | fork (p q : Fin NPROC) (hp : (s.proc p).call = none) (hq : s.proc q = {}) :
      Step s none ⟨s.files, update s.proc q ⟨(s.proc p).cwd, none⟩⟩
  /-- `iput(p->cwd)` in `exit`. -/
  | exit (p : Fin NPROC) (hp : (s.proc p).call = none) : Step s none ⟨s.files, update s.proc p {}⟩
  /-- `iput` in the `fileclose` of the last descriptor of a file. -/
  | close (i : Nat) : Step s none ⟨s.files.erase i, s.proc⟩

/-- A call begins only if there is room for three pointers of each call. -/
def RoomyStep (s : St) (e : Option (Fin NPROC)) (s' : St) : Prop :=
  (e.isSome → s.kept.card + 3 * (s.calls + 1) ≤ NINODE) ∧ Step s e s'

/-! ### Three pointers -/

namespace Script

/-- A call that has the pointers `h` never has more than three. It gives back only what it has, and
in the end everything. -/
def Fine : Script → List Nat → Prop
  | .ret, h => h = []
  | .get i a, h => h.length < 3 ∧ a.Fine (i :: h)
  | .dupCwd a, h => h.length < 3 ∧ ∀ i, (a i).Fine (i :: h)
  | .put i a, h => h.length ≤ 3 ∧ i ∈ h ∧ a.Fine (h.erase i)
  | .ask a, h => h.length ≤ 3 ∧ ∀ o, (a o).Fine h
  | .putCwd a, h => h.length ≤ 3 ∧ a.Fine h
  | .toCwd i, h | .toFile i, h => h = [i]

variable {k : Option Nat → Script}

lemma Fine.length_le (hf : a.Fine h) : h.length ≤ 3 := by
  cases a <;> simp_all [Fine] <;> omega

lemma fine_put (hlen : h.length < 3) (hf : a.Fine h) : (put i a).Fine (i :: h) := by
  refine ⟨by simpa using hlen, by simp, ?_⟩
  rwa [List.erase_cons_head]

/-- The older of two pointers is given back. -/
lemma fine_put_second {b : Nat} (hf : a.Fine [i]) : (put b a).Fine [i, b] := by
  refine ⟨by simp, by simp, ?_⟩
  have herase : [i, b].erase b = [i] := by
    by_cases hib : i = b
    · simp [hib]
    · simp [List.erase_cons_tail, hib]
  rwa [herase]

lemma fine_dirlookup (hlen : h.length < 3) (hnone : (k none).Fine h)
    (hsome : ∀ i, (k (some i)).Fine (i :: h)) : (dirlookup k).Fine h := by
  refine ⟨by omega, fun o => ?_⟩
  cases o with
  | none => exact hnone
  | some i => exact ⟨hlen, hsome i⟩

lemma fine_dirlink {k : Bool → Script} (hlen : h.length < 3) (hfail : (k false).Fine h)
    (hok : (k true).Fine h) : (dirlink k).Fine h := by
  refine fine_dirlookup hlen ⟨by omega, fun o => ?_⟩ fun _ => fine_put hlen hfail
  cases o with
  | none => exact hfail
  | some _ => exact hok

lemma fine_namexFrom (hnone : (k none).Fine []) (hsome : ∀ i, (k (some i)).Fine [i]) :
    ∀ n ip, (namexFrom parent k n ip).Fine [ip] := by
  intro n
  induction n with
  | zero =>
    intro ip
    unfold namexFrom
    split
    · exact fine_put (by simp) hnone
    · exact hsome ip
  | succ n ih =>
    intro ip
    have hput : (put ip (k none)).Fine [ip] := fine_put (by simp) hnone
    refine ⟨by simp, fun o => ?_⟩
    cases o with
    | none => exact hput
    | some _ =>
      dsimp only
      split
      · exact hsome ip
      · exact fine_dirlookup (by simp) hput fun next => fine_put_second (ih next)

lemma fine_namex (hnone : (k none).Fine []) (hsome : ∀ i, (k (some i)).Fine [i]) :
    (namex path parent k).Fine [] := by
  have hfrom : ∀ ip, (namexFrom parent k path.elems ip).Fine [ip] :=
    fine_namexFrom hnone hsome path.elems
  unfold namex
  split
  · exact ⟨by simp, hfrom ROOTINO⟩
  · exact ⟨by simp, hfrom⟩

lemma fine_create {dir : Bool} (hnone : (k none).Fine []) (hsome : ∀ i, (k (some i)).Fine [i]) :
    (create path dir k).Fine [] := by
  refine fine_namex hnone fun dp => ?_
  have hput : ∀ i, (put i (k none)).Fine [i] := fun i => fine_put (by simp) hnone
  refine fine_dirlookup (by simp) ⟨by simp, fun o => ?_⟩ fun ip => ?_
  · cases o with
    | none => exact hput dp
    | some ip =>
      have hfail : (put ip (put dp (k none))).Fine [ip, dp] := fine_put (by simp) (hput dp)
      have henter : (enter dp ip k).Fine [ip, dp] :=
        fine_dirlink (by simp) hfail (fine_put_second (hsome ip))
      refine ⟨by simp, ?_⟩
      split
      · exact fine_dirlink (by simp) hfail (fine_dirlink (by simp) hfail henter)
      · exact henter
  · refine fine_put_second ⟨by simp, fun o => ?_⟩
    cases o with
    | none => exact hput ip
    | some _ =>
      dsimp only
      split
      · exact hput ip
      · exact hsome ip

lemma fine_thenOpen (i : Nat) : (thenOpen (some i)).Fine [i] := by
  refine ⟨by simp, fun o => ?_⟩
  cases o with
  | none => exact fine_put (by simp) rfl
  | some _ => rfl

lemma fine_sysOpen {creat : Bool} : (sysOpen path creat).Fine [] := by
  cases creat with
  | true => exact fine_create rfl fine_thenOpen
  | false => exact fine_namex rfl fine_thenOpen

lemma fine_sysMkdir : (sysMkdir path).Fine [] :=
  fine_create rfl fun _ => fine_put (by simp) rfl

lemma fine_sysChdir : (sysChdir path).Fine [] := by
  refine fine_namex rfl fun ip => ⟨by simp, fun o => ?_⟩
  cases o with
  | none => exact fine_put (by simp) rfl
  | some _ => exact ⟨by simp, rfl⟩

end Script

/-- The call in progress is as it should be. -/
def Proc.Fine (x : Proc) : Prop := ∀ y ∈ x.call, y.2.Fine y.1

/-- A call that goes on keeps its three pointers; one that returns leaves at most one of them. -/
lemma Moves.spec {files' : List Nat} (hm : Moves files cwd h a files' x) (hf : a.Fine h) :
    x.Fine ∧ ∃ new : List Nat, new.length + 3 * x.calls ≤ 3 ∧
      (∀ i ∈ files', i ∈ files ∨ i ∈ new) ∧ ∀ i ∈ x.cwd, i ∈ cwd ∨ i ∈ new := by
  cases hm with
  | ret => exact ⟨nofun, [], by simp [Proc.calls]⟩
  | get i a => exact ⟨by simpa [Proc.Fine] using hf.2, [], by simp [Proc.calls]⟩
  | dupCwd i a _ => exact ⟨by simpa [Proc.Fine] using hf.2 i, [], by simp [Proc.calls]⟩
  | put i a => exact ⟨by simpa [Proc.Fine] using hf.2.2, [], by simp [Proc.calls]⟩
  | ask a o => exact ⟨by simpa [Proc.Fine] using hf.2 o, [], by simp [Proc.calls]⟩
  | putCwd a => exact ⟨by simpa [Proc.Fine] using hf.2, [], by simp [Proc.calls]⟩
  | toCwd i => exact ⟨nofun, [i], by simp [Proc.calls], fun _ => .inl, by simp [eq_comm]⟩
  | toFile i => exact ⟨nofun, [i], by simp [Proc.calls], by simp [or_comm], fun _ => .inl⟩

/-! ### Room for all of them -/

lemma mem_kept : i ∈ s.kept ↔ i ∈ s.files ∨ ∃ p, i ∈ (s.proc p).cwd := by
  simp [St.kept]

/-- There is room for three pointers of each call in progress. -/
structure Inv (s : St) : Prop where
  room : s.kept.card + 3 * s.calls ≤ NINODE
  fine : ∀ p, (s.proc p).Fine

/-- One process changes. Apart from `new` it keeps no inode that was not kept before. -/
lemma Inv.change (hinv : Inv s) {new : List Nat}
    (hfiles : ∀ i ∈ files, i ∈ s.files ∨ i ∈ new) (hcwd : ∀ i ∈ x.cwd, i ∈ s.kept ∨ i ∈ new)
    (hroom : s.kept.card + new.length + 3 * (s.calls + x.calls) ≤ NINODE + 3 * (s.proc p).calls)
    (hfine : x.Fine) : Inv ⟨files, update s.proc p x⟩ := by
  constructor
  · have hsub : St.kept ⟨files, update s.proc p x⟩ ⊆ s.kept ∪ new.toFinset := by
      intro i hi
      rw [Finset.mem_union, List.mem_toFinset]
      rcases mem_kept.mp hi with hi | ⟨q, hq⟩
      · exact (hfiles i hi).imp_left fun hi => mem_kept.mpr (.inl hi)
      · simp only [update_apply] at hq
        split at hq
        · exact hcwd i hq
        · exact .inl (mem_kept.mpr (.inr ⟨q, hq⟩))
    have hcard := (Finset.card_le_card hsub).trans (Finset.card_union_le _ _)
    have hnew := new.toFinset_card_le
    have hcalls : St.calls ⟨files, update s.proc p x⟩ + (s.proc p).calls = s.calls + x.calls :=
      total_update Proc.calls s.proc p x
    omega
  · intro q
    dsimp only
    rw [update_apply]
    split
    · exact hfine
    · exact hinv.fine q

lemma Inv.boot : Inv .boot := by
  constructor
  · decide +kernel
  · intro p
    simp only [St.boot, update_apply]
    split <;> nofun

lemma Inv.step (hinv : Inv s) (hstep : RoomyStep s e s') : Inv s' := by
  obtain ⟨hbegin, hstep⟩ := hstep
  have hroom := hinv.room
  have hfiles : ∀ i ∈ s.files, i ∈ s.files ∨ i ∈ [] := fun _ => .inl
  have hcwd : ∀ p, ∀ i ∈ (s.proc p).cwd, i ∈ s.kept ∨ i ∈ [] :=
    fun p i hi => .inl (mem_kept.mpr (.inr ⟨p, hi⟩))
  cases hstep with
  | begin p a hp ha =>
    refine hinv.change hfiles (hcwd p) ?_ ?_
    · have := hbegin rfl
      simp [Proc.calls, hp]
      omega
    · obtain ⟨path, ⟨creat, rfl⟩ | rfl | rfl⟩ := ha
      · simpa [Proc.Fine] using Script.fine_sysOpen
      · simpa [Proc.Fine] using Script.fine_sysMkdir
      · simpa [Proc.Fine] using Script.fine_sysChdir
  | move p h a files x hp hfull hm =>
    obtain ⟨hfine, new, hlen, hfiles, hcwd'⟩ := hm.spec (hinv.fine p (h, a) hp)
    refine hinv.change hfiles (fun i hi => ?_) ?_ hfine
    · exact (hcwd' i hi).imp_left fun hi => mem_kept.mpr (.inr ⟨p, hi⟩)
    · have hone : (s.proc p).calls = 1 := by simp [Proc.calls, hp]
      omega
  | fork p q hp hq =>
    exact hinv.change hfiles (hcwd p) (by simp [Proc.calls]; omega) nofun
  | exit p hp =>
    exact hinv.change hfiles nofun (by simp [Proc.calls]; omega) nofun
  | close i =>
    rw [← update_eq_self 0 s.proc]
    exact hinv.change (fun _ hi => .inl (List.mem_of_mem_erase hi)) (hcwd 0) (by simp; omega)
      (hinv.fine 0)

lemma Inv.not_full (hinv : Inv s) : ¬ s.Full p := by
  rintro ⟨h, i, a, hp, -, hfull⟩
  have hle : ∀ q, (s.proc q).held.length ≤ 3 * (s.proc q).calls := by
    intro q
    cases hq : (s.proc q).call with
    | none => simp [Proc.held, hq]
    | some y => simpa [Proc.held, Proc.calls, hq] using (hinv.fine q y hq).length_le
  have hlt : (s.proc p).held.length < 3 * (s.proc p).calls := by
    simpa [Proc.held, Proc.calls, hp] using (hinv.fine p _ hp).1
  have hheld := calc (Finset.univ.biUnion fun q => (s.proc q).held.toFinset).card
    _ ≤ ∑ q, (s.proc q).held.toFinset.card := Finset.card_biUnion_le
    _ ≤ ∑ q, (s.proc q).held.length := Finset.sum_le_sum fun q _ => List.toFinset_card_le _
    _ < ∑ q, 3 * (s.proc q).calls :=
      Finset.sum_lt_sum (fun q _ => hle q) ⟨p, Finset.mem_univ p, hlt⟩
    _ = 3 * s.calls := (Finset.mul_sum ..).symm
  have hused : s.used.card ≤ _ := Finset.card_union_le _ _
  have hroom := hinv.room
  omega

lemma inv_run (hrun : Run RoomyStep .boot tr s) : Inv s :=
  hrun.invariant (I := fun _ => Inv) .boot fun _ _ _ _ hinv hstep => hinv.step hstep

/-- **The inode table does not fill up** as long as every call begins with room for three pointers
of each call in progress. -/
theorem iget_never_full (hrun : Run RoomyStep .boot tr s) (p : Fin NPROC) : ¬ s.Full p :=
  (inv_run hrun).not_full

/-- A run goes on with a step of a call. -/
lemma run_moves (hrun : Run RoomyStep .boot tr s) (p : Fin NPROC)
    (hp : (s.proc p).call = some (h, a)) (hm : Moves s.files (s.proc p).cwd h a files x) :
    Run RoomyStep .boot (none :: tr) ⟨files, update s.proc p x⟩ :=
  hrun.snoc ⟨nofun, .move p h a files x hp (inv_run hrun).not_full hm⟩

/-- Two processes are in the middle of `mkdir`: each has the root directory and a new inode. -/
theorem iget_never_full_mkdirs : ∃ tr s, Run RoomyStep .boot tr s ∧ s.calls = 2 ∧
    s.used = {1, 2, 3} ∧ ∀ p, ¬ s.Full p := by
  have hfork : Run RoomyStep .boot [none] _ := .single ⟨nofun, .fork 0 1 rfl rfl⟩
  have hfirst := hfork.snoc (e := some 0)
    ⟨fun _ => by decide +kernel, .begin 0 (.sysMkdir ⟨true, 1⟩) rfl ⟨_, .inr (.inl rfl)⟩⟩
  have hboth := hfirst.snoc (e := some 1)
    ⟨fun _ => by decide +kernel, .begin 1 (.sysMkdir ⟨false, 1⟩) rfl ⟨_, .inr (.inl rfl)⟩⟩
  -- The root directory is found, and it does not hold the name.
  have h₁ := run_moves hboth 0 rfl (.get _ _)
  have h₂ := run_moves h₁ 1 rfl (.dupCwd _ _ rfl)
  have h₃ := run_moves (run_moves h₂ 0 rfl (.ask _ (some 0))) 1 rfl (.ask _ (some 0))
  have h₄ := run_moves (run_moves h₃ 0 rfl (.ask _ none)) 1 rfl (.ask _ none)
  -- `ialloc`
  have h₅ := run_moves (run_moves h₄ 0 rfl (.ask _ (some 2))) 1 rfl (.ask _ (some 3))
  have h₆ := run_moves (run_moves h₅ 0 rfl (.get _ _)) 1 rfl (.get _ _)
  exact ⟨_, _, h₆, by decide +kernel, by decide +kernel, fun p => iget_never_full h₆ p⟩

end Xv6.Itable
