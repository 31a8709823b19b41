import Xv6.Fs.Inode

/-!
# File-system calls

The calls of `sysfile.c` with the file table of `file.c` and `pipealloc`, and what `fork` and `exit`
do with files. A path that `argstr` cannot fetch is `none`. The memory of pipes is left out.
-/

namespace Xv6.Fs

open Lib

/-! ### The file table -/

def filealloc : FsM (Option (Fin NFILE)) := do
  let s ← get
  match (List.finRange NFILE).find? fun f => (s.file f).ref = 0 with
  | none => return none
  | some f =>
    set (s.setFile f { s.file f with ref := 1 })
    return some f

def filedup (f : Fin NFILE) : FsM Unit := do
  let s ← get
  if (s.file f).ref < 1 then throw .filedup
  set (s.setFile f { s.file f with ref := (s.file f).ref + 1 })

def fileclose (f : Fin NFILE) : FsM Unit := do
  let s ← get
  let ff := s.file f
  if ff.ref < 1 then throw .fileclose
  if 1 < ff.ref then
    set (s.setFile f { ff with ref := ff.ref - 1 })
  else
    set (s.setFile f { ff with ref := 0, type := .none })
    if ff.type = .inode ∨ ff.type = .device then iput ff.ip

/-! ### Descriptors -/

/-- The file that a descriptor stands for. -/
def argfd (p : Fin NPROC) (fd : Int) : FsM (Option (Fin NOFILE × Fin NFILE)) := do
  let s ← get
  if h : 0 ≤ fd ∧ fd.toNat < NOFILE then
    return ((s.proc p).ofile ⟨fd.toNat, h.2⟩).map fun f => (⟨fd.toNat, h.2⟩, f)
  else return none

/-- `p->ofile[fd] = f`. -/
def setOfile (p : Fin NPROC) (fd : Fin NOFILE) (f : Option (Fin NFILE)) : FsM Unit :=
  modify fun s =>
    s.setProc p { s.proc p with ofile := Function.update (s.proc p).ofile fd f }

def fdalloc (p : Fin NPROC) (f : Fin NFILE) : FsM (Option (Fin NOFILE)) := do
  let s ← get
  match (List.finRange NOFILE).find? fun fd => (s.proc p).ofile fd = none with
  | none => return none
  | some fd =>
    setOfile p fd (some f)
    return some fd

def sysDup (p : Fin NPROC) (fd : Int) : FsM Int := do
  match ← argfd p fd with
  | none => return -1
  | some (_, f) =>
    match ← fdalloc p f with
    | none => return -1
    | some fd =>
      filedup f
      return fd

def sysClose (p : Fin NPROC) (fd : Int) : FsM Int := do
  match ← argfd p fd with
  | none => return -1
  | some (fd, f) =>
    setOfile p fd none
    fileclose f
    return 0

/-! ### Names -/

/-- The part of `sys_link` that adds the new name. -/
def linkName (p : Fin NPROC) (new : List Char) (ip : Nat) : FsM Bool := do
  match ← nameiparent p new with
  | none => return false
  | some (dp, name) =>
    ilock dp
    let linked ← dirlink dp name ip
    iput dp
    return linked

def sysLink (p : Fin NPROC) (old new : Option (List Char)) : FsM Int := do
  match old, new with
  | some old, some new =>
    match ← namei p old with
    | none => return -1
    | some ip =>
      ilock ip
      let d ← getInode ip
      if d.type = .dir then
        iput ip
        return -1
      setInode ip fun d => d.setNlink (d.nlink + 1)
      if ← linkName p new ip then
        iput ip
        return 0
      else
        ilock ip
        setInode ip fun d => d.setNlink (d.nlink - 1)
        iput ip
        return -1
  | _, _ => return -1

def sysUnlink (p : Fin NPROC) (path : Option (List Char)) : FsM Int := do
  match path with
  | none => return -1
  | some path =>
    match ← nameiparent p path with
    | none => return -1
    | some (dp, name) =>
      ilock dp
      if name = ['.'] ∨ name = ['.', '.'] then
        iput dp
        return -1
      match ← dirlookup dp name with
      | none =>
        iput dp
        return -1
      | some (ip, off) =>
        ilock ip
        let d ← getInode ip
        if short d.nlink < 1 then throw .nlink
        if d.type = .dir ∧ isdirempty d = false then
          iput ip
          iput dp
          return -1
        setInode dp fun d => { d with ents := d.ents.set off ⟨0, []⟩ }
        if d.type = .dir then
          setInode dp fun d => d.setNlink (d.nlink - 1)
        iput dp
        setInode ip fun d => d.setNlink (d.nlink - 1)
        iput ip
        return 0

/-- The entries of a new inode, and its entry in the directory. -/
def linkNew (dp ip : Nat) (name : Name) (type : FileType) : FsM Bool := do
  if type = .dir then
    if ¬ (← dirlink ip ['.'] ip) then return false
    if ¬ (← dirlink ip ['.', '.'] dp) then return false
  dirlink dp name ip

/-- The part of `create` for a name that the directory does not have. -/
def createNew (dp : Nat) (name : Name) (type : FileType) (major minor : Int) :
    FsM (Option Nat) := do
  match ← ialloc type with
  | none =>
    iput dp
    return none
  | some ip =>
    ilock ip
    setInode ip fun d => { d with major, minor, nlink := 1 }
    if ← linkNew dp ip name type then
      if type = .dir then
        setInode dp fun d => { d with nlink := d.nlink + 1 }
      iput dp
      return some ip
    else
      setInode ip fun d => { d with nlink := 0 }
      iput ip
      iput dp
      return none

def create (p : Fin NPROC) (path : List Char) (type : FileType) (major minor : Int) :
    FsM (Option Nat) := do
  match ← nameiparent p path with
  | none => return none
  | some (dp, name) =>
    ilock dp
    match ← dirlookup dp name with
    | some (ip, _) =>
      iput dp
      ilock ip
      let d ← getInode ip
      if type = .file ∧ (d.type = .file ∨ d.type = .device) then return some ip
      iput ip
      return none
    | none => createNew dp name type major minor

def O_WRONLY : Nat := 0x001
def O_RDWR : Nat := 0x002
def O_CREATE : Nat := 0x200
def O_TRUNC : Nat := 0x400

/-- The inode that `sys_open` opens, if it may be opened in this mode. -/
def openInode (p : Fin NPROC) (path : List Char) (omode : Nat) : FsM (Option Nat) := do
  if omode &&& O_CREATE ≠ 0 then create p path .file 0 0
  else
    match ← namei p path with
    | none => return none
    | some ip =>
      ilock ip
      let d ← getInode ip
      if d.type = .dir ∧ omode ≠ 0 then
        iput ip
        return none
      return some ip

/-- A free file and a free descriptor for it. -/
def openFile (p : Fin NPROC) : FsM (Option (Fin NFILE × Fin NOFILE)) := do
  match ← filealloc with
  | none => return none
  | some f =>
    match ← fdalloc p f with
    | none =>
      fileclose f
      return none
    | some fd => return some (f, fd)

/-- The file is opened for an inode. -/
def File.opened (x : File) (d : Dinode) (ip : Nat) (readable writable : Bool) : File :=
  if d.type = .device then { x with type := .device, major := d.major, ip, readable, writable }
  else { x with type := .inode, off := 0, ip, readable, writable }

def sysOpen (p : Fin NPROC) (path : Option (List Char)) (omode : Nat) : FsM Int := do
  match path with
  | none => return -1
  | some path =>
    match ← openInode p path omode with
    | none => return -1
    | some ip =>
      let d ← getInode ip
      if d.type = .device ∧ (d.major < 0 ∨ (NDEV : Int) ≤ d.major) then
        iput ip
        return -1
      match ← openFile p with
      | none =>
        iput ip
        return -1
      | some (f, fd) =>
        let readable := decide (omode &&& O_WRONLY = 0)
        let writable := decide (omode &&& O_WRONLY ≠ 0 ∨ omode &&& O_RDWR ≠ 0)
        modify fun s => s.setFile f ((s.file f).opened d ip readable writable)
        if omode &&& O_TRUNC ≠ 0 ∧ d.type = .file then itrunc ip
        return fd

/-- `sys_mkdir` and `sys_mknod`. -/
def sysCreate (p : Fin NPROC) (path : Option (List Char)) (type : FileType) (major minor : Int) :
    FsM Int := do
  match path with
  | none => return -1
  | some path =>
    match ← create p path type major minor with
    | none => return -1
    | some ip =>
      iput ip
      return 0

def sysMkdir (p : Fin NPROC) (path : Option (List Char)) : FsM Int := sysCreate p path .dir 0 0

def sysMknod (p : Fin NPROC) (path : Option (List Char)) (major minor : Int) : FsM Int :=
  sysCreate p path .device (major.bmod 65536) (minor.bmod 65536)

def sysChdir (p : Fin NPROC) (path : Option (List Char)) : FsM Int := do
  match path with
  | none => return -1
  | some path =>
    match ← namei p path with
    | none => return -1
    | some ip =>
      ilock ip
      let d ← getInode ip
      if d.type ≠ .dir then
        iput ip
        return -1
      iput (← cwd p)
      modify fun s => s.setProc p { s.proc p with cwd := some ip }
      return 0

/-! ### Pipes -/

/-- The file is made an end of a pipe. -/
def File.asPipe (x : File) (readable writable : Bool) : File :=
  { x with type := .pipe, readable, writable }

def pipealloc : FsM (Option (Fin NFILE × Fin NFILE)) := do
  match ← filealloc with
  | none => return none
  | some rf =>
    match ← filealloc with
    | none =>
      fileclose rf
      return none
    | some wf =>
      if ← ask then
        modify fun s => s.setFile rf ((s.file rf).asPipe true false)
        modify fun s => s.setFile wf ((s.file wf).asPipe false true)
        return some (rf, wf)
      else
        fileclose rf
        fileclose wf
        return none

def sysPipe (p : Fin NPROC) : FsM Int := do
  match ← pipealloc with
  | none => return -1
  | some (rf, wf) =>
    match ← fdalloc p rf with
    | none =>
      fileclose rf
      fileclose wf
      return -1
    | some fd0 =>
      match ← fdalloc p wf with
      | none =>
        setOfile p fd0 none
        fileclose rf
        fileclose wf
        return -1
      | some fd1 =>
        -- The two calls of `copyout`.
        if ← ask then
          return 0
        else
          setOfile p fd0 none
          setOfile p fd1 none
          fileclose rf
          fileclose wf
          return -1

/-! ### Processes -/

/-- The body of the loop of `fork`. -/
def forkFile (p np : Fin NPROC) (fd : Fin NOFILE) : FsM Unit := do
  let s ← get
  match (s.proc p).ofile fd with
  | none => return ()
  | some f =>
    filedup f
    setOfile np fd (some f)

/-- What `fork` does with files, for a child in the slot `np`. -/
def forkFiles (p np : Fin NPROC) : FsM Unit := do
  (List.finRange NOFILE).forM (forkFile p np)
  let ip ← cwd p
  idup ip
  modify fun s => s.setProc np { s.proc np with cwd := some ip }

/-- The body of the loop of `exit`. -/
def exitFile (p : Fin NPROC) (fd : Fin NOFILE) : FsM Unit := do
  let s ← get
  match (s.proc p).ofile fd with
  | none => return ()
  | some f =>
    fileclose f
    setOfile p fd none

/-- What `exit` does with files. -/
def exitFiles (p : Fin NPROC) : FsM Unit := do
  (List.finRange NOFILE).forM (exitFile p)
  iput (← cwd p)
  modify fun s => s.setProc p { s.proc p with cwd := none }

/-- The calls that a process makes. -/
inductive Call where
  | open (path : Option (List Char)) (omode : Nat)
  | mkdir (path : Option (List Char))
  | mknod (path : Option (List Char)) (major minor : Int)
  | link (old new : Option (List Char))
  | unlink (path : Option (List Char))
  | chdir (path : Option (List Char))
  | dup (fd : Int)
  | close (fd : Int)
  | pipe
  /-- The child takes the slot `np`. -/
  | fork (np : Fin NPROC)
  | exit

/-- A slot of the process table that no process uses. -/
def Proc.unused (x : Proc) : Prop := x.cwd = none ∧ ∀ fd, x.ofile fd = none

instance (x : Proc) : Decidable x.unused := inferInstanceAs (Decidable (_ ∧ _))

/-- The call of a process, with its result. -/
def Call.run (p : Fin NPROC) : Call → FsM Int
  | .open path omode => sysOpen p path omode
  | .mkdir path => sysMkdir p path
  | .mknod path major minor => sysMknod p path major minor
  | .link old new => sysLink p old new
  | .unlink path => sysUnlink p path
  | .chdir path => sysChdir p path
  | .dup fd => sysDup p fd
  | .close fd => sysClose p fd
  | .pipe => sysPipe p
  | .fork np => do
    let s ← get
    if (s.proc np).unused then
      forkFiles p np
      return 0
    else return -1
  | .exit => do
    exitFiles p
    return 0

end Xv6.Fs
