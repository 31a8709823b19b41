import Xv6.Lib.Transition
import Xv6.Kernel.Proc

/-!
# Inodes

The part of `fs.c` that finds, locks, frees and reads inodes, for one system call at a time: no
lock is ever waited for. An in-memory inode agrees with its inode on disk whenever it is valid, so
there is one copy of the fields, and a pointer to it is its inode number.

Where a block has to be allocated, both outcomes are possible: the state holds the answers.
-/

namespace Xv6.Fs

open Function Lib

def NOFILE : Nat := 16
def NFILE : Nat := 100
def NINODE : Nat := 50
def NDEV : Nat := 10
def ROOTINO : Nat := 1
def DIRSIZ : Nat := 14

/-- Directory entries in a block. -/
def DPB : Nat := 64

/-- Blocks in a file. -/
def MAXFILE : Nat := 12 + 256

abbrev Name := List Char

structure Dirent where
  inum : Nat
  name : Name
  deriving DecidableEq, Repr

/-- The types of an inode; `free` is 0. -/
inductive FileType where
  | free
  | dir
  | file
  | device
  deriving DecidableEq, Repr

/-- `struct dinode`, with the content in place of the size and the block addresses. -/
structure Dinode where
  type : FileType := .free
  major : Int := 0
  minor : Int := 0
  /-- A `short`, as an unsigned number. -/
  nlink : UInt16 := 0
  /-- The content of a directory. -/
  ents : List Dirent := []
  /-- The content of a file. -/
  data : List UInt8 := []
  deriving DecidableEq, Repr

/-- The link count is set. -/
def Dinode.setNlink (d : Dinode) (n : UInt16) : Dinode := { d with nlink := n }

/-- The number that a `short` holds. -/
def short (n : UInt16) : Int := n.toInt16.toInt

inductive FdType where
  | none
  | pipe
  | inode
  | device
  deriving DecidableEq, Repr

/-- `struct file`. -/
structure File where
  type : FdType := .none
  ref : Nat := 0
  readable : Bool := false
  writable : Bool := false
  ip : Nat := 0
  off : Nat := 0
  major : Int := 0
  deriving DecidableEq, Repr

/-- The files of a process; a process that does not exist has none and no directory. -/
structure Proc where
  ofile : Fin NOFILE → Option (Fin NFILE) := fun _ => none
  cwd : Option Nat := none

inductive Panic where
  /-- `iget: no inodes`. -/
  | noInodes
  /-- `ilock`. -/
  | ilock
  /-- `ilock: no type`. -/
  | noType
  /-- `dirlookup not DIR`. -/
  | notDir
  /-- `unlink: nlink < 1`. -/
  | nlink
  | filedup
  | fileclose
  /-- A null pointer is used. -/
  | kerneltrap
  deriving DecidableEq, Repr

structure St where
  /-- `sb.ninodes`. -/
  ninodes : Nat
  dinode : Nat → Dinode
  /-- The entry of the inode table for an inode number: `ip->ref`, 0 if there is none. -/
  ref : Nat → Nat
  /-- `ip->valid`. -/
  valid : Nat → Bool
  /-- The entries of the inode table with `ref > 0`. -/
  used : Nat
  file : Fin NFILE → File
  proc : Fin NPROC → Proc
  /-- What the next requests for a block or a page, and the next copies to user memory, return. -/
  answers : Nat → Bool

abbrev FsM := Prog St Panic

namespace St

def setInode (s : St) (i : Nat) (d : Dinode) : St :=
  { s with dinode := update s.dinode i d }

def setRef (s : St) (i n : Nat) : St := { s with ref := update s.ref i n }

def setValid (s : St) (i : Nat) (b : Bool) : St :=
  { s with valid := update s.valid i b }

def setFile (s : St) (f : Fin NFILE) (x : File) : St :=
  { s with file := update s.file f x }

def setProc (s : St) (p : Fin NPROC) (x : Proc) : St :=
  { s with proc := update s.proc p x }

end St

/-- The next answer. -/
def ask : FsM Bool := do
  let s ← get
  set { s with answers := fun k => s.answers (k + 1) }
  return s.answers 0

/-- Assign to fields of `*ip`, and `iupdate`. -/
def setInode (ip : Nat) (f : Dinode → Dinode) : FsM Unit :=
  modify fun s => s.setInode ip (f (s.dinode ip))

/-- `*ip`. -/
def getInode (ip : Nat) : FsM Dinode := do
  let s ← get
  return s.dinode ip

/-! ### The inode table -/

def iget (inum : Nat) : FsM Unit := do
  let s ← get
  if 0 < s.ref inum then
    set (s.setRef inum (s.ref inum + 1))
  else if s.used < NINODE then
    set { (s.setRef inum 1).setValid inum false with used := s.used + 1 }
  else throw .noInodes

def idup (ip : Nat) : FsM Unit := modify fun s => s.setRef ip (s.ref ip + 1)

def ilock (ip : Nat) : FsM Unit := do
  let s ← get
  if s.ref ip < 1 then throw .ilock
  if s.valid ip = false then
    set (s.setValid ip true)
    if (s.dinode ip).type = .free then throw .noType

def itrunc (ip : Nat) : FsM Unit := setInode ip fun d => { d with ents := [], data := [] }

/-- `ip->ref--`. -/
def St.drop (s : St) (ip : Nat) : St :=
  { s.setRef ip (s.ref ip - 1) with used := if s.ref ip = 1 then s.used - 1 else s.used }

def iput (ip : Nat) : FsM Unit := do
  let s ← get
  if s.ref ip = 1 ∧ s.valid ip = true ∧ (s.dinode ip).nlink = 0 then
    itrunc ip
    setInode ip fun d => { d with type := .free }
    modify fun s => s.setValid ip false
  modify fun s => s.drop ip

/-- The first free inode, from number 1. -/
def freeInode (s : St) : Option Nat :=
  (List.range' 1 (s.ninodes - 1)).find? fun inum => (s.dinode inum).type = .free

def ialloc (type : FileType) : FsM (Option Nat) := do
  let s ← get
  match freeInode s with
  | none => return none
  | some inum =>
    setInode inum fun _ => { type }
    iget inum
    return some inum

/-! ### Directories -/

/-- The entry that `dirlookup` finds, with its place. -/
def findEnt (name : Name) : List Dirent → Option (Nat × Nat)
  | [] => none
  | e :: ents =>
    if e.inum ≠ 0 ∧ e.name = name then some (e.inum, 0)
    else (findEnt name ents).map fun r => (r.1, r.2 + 1)

def dirlookup (dp : Nat) (name : Name) : FsM (Option (Nat × Nat)) := do
  let d ← getInode dp
  if d.type ≠ .dir then throw .notDir
  match findEnt name d.ents with
  | none => return none
  | some (inum, off) =>
    iget inum
    return some (inum, off)

/-- The first empty entry, or the end. -/
def emptyEnt : List Dirent → Nat
  | [] => 0
  | e :: ents => if e.inum = 0 then 0 else emptyEnt ents + 1

/-- `writei` of one entry. At the end of the last block another one is needed. -/
def writeEnt (dp off : Nat) (de : Dirent) : FsM Bool := do
  let d ← getInode dp
  if off < d.ents.length then
    setInode dp fun d => { d with ents := d.ents.set off de }
    return true
  else if MAXFILE * DPB ≤ off then return false
  else
    let space ← if off % DPB = 0 then ask else pure true
    if space then
      setInode dp fun d => { d with ents := d.ents ++ [de] }
    return space

def dirlink (dp : Nat) (name : Name) (inum : Nat) : FsM Bool := do
  match ← dirlookup dp name with
  | some (ip, _) =>
    iput ip
    return false
  | none =>
    let d ← getInode dp
    writeEnt dp (emptyEnt d.ents) ⟨inum % 65536, name⟩

/-- Is the directory empty except for `.` and `..`? -/
def isdirempty (d : Dinode) : Bool := (d.ents.drop 2).all fun e => e.inum = 0

/-! ### Paths -/

def skipelem (path : List Char) : Option (Name × List Char) :=
  let path := path.dropWhile (· = '/')
  if path = [] then none
  else
    some ((path.takeWhile (· ≠ '/')).take DIRSIZ,
      (path.dropWhile (· ≠ '/')).dropWhile (· = '/'))

lemma length_skipelem {path rest : List Char} {name : Name}
    (h : skipelem path = some (name, rest)) :
    rest.length < path.length := by
  unfold skipelem at h
  simp only at h
  split at h
  · contradiction
  · rename_i hne
    obtain ⟨-, rfl⟩ := Prod.mk.inj (Option.some.inj h)
    obtain ⟨c, tail, hc⟩ := List.exists_cons_of_ne_nil hne
    have hhead : c ≠ '/' := by
      have hnot := List.head_dropWhile_not (fun c => decide (c = '/')) hne
      simpa [hc] using hnot
    have hdrop := fun (q : Char → Bool) (l : List Char) =>
      (List.dropWhile_sublist q (l := l)).length_le
    have h₁ := hdrop (fun c => decide (c = '/'))
      ((path.dropWhile (· = '/')).dropWhile (· ≠ '/'))
    have h₂ := hdrop (fun c => decide (c ≠ '/')) tail
    have h₃ := hdrop (fun c => decide (c = '/')) path
    rw [hc, List.length_cons] at h₃
    rw [hc, List.dropWhile_cons_of_pos (by simp [hhead])] at h₁ ⊢
    omega

/-- The elements that `skipelem` takes off a path in turn, at most `fuel` of them. -/
def elementsFrom : Nat → List Char → List Name
  | 0, _ => []
  | fuel + 1, path =>
    match skipelem path with
    | none => []
    | some (name, rest) => name :: elementsFrom fuel rest

/-- The elements of a path. -/
def elements (path : List Char) : List Name := elementsFrom path.length path

/-- The fuel is enough. -/
lemma elementsFrom_eq {fuel fuel' : Nat} {path : List Char} (h : path.length ≤ fuel)
    (h' : path.length ≤ fuel') : elementsFrom fuel path = elementsFrom fuel' path := by
  induction fuel generalizing fuel' path with
  | zero =>
    obtain rfl : path = [] := List.length_eq_zero_iff.mp (by omega)
    cases fuel' <;> simp [elementsFrom, skipelem]
  | succ fuel ih =>
    cases fuel' with
    | zero =>
      obtain rfl : path = [] := List.length_eq_zero_iff.mp (by omega)
      simp [elementsFrom, skipelem]
    | succ fuel' =>
      unfold elementsFrom
      split
      · rfl
      · rename_i name rest hskip
        have hlt := length_skipelem hskip
        have heq : elementsFrom fuel rest = elementsFrom fuel' rest := ih (by omega) (by omega)
        rw [heq]

lemma elements_eq (path : List Char) : elements path =
    match skipelem path with
    | none => []
    | some (name, rest) => name :: elements rest := by
  cases path with
  | nil => simp [elements, elementsFrom, skipelem]
  | cons c path =>
    unfold elements
    simp only [List.length_cons, elementsFrom]
    split
    · rfl
    · rename_i name rest hskip
      have hlt := length_skipelem hskip
      rw [List.length_cons] at hlt
      rw [elementsFrom_eq (by omega) le_rfl]

/-- The loop of `namex`. -/
def namexFrom (nameiparent : Bool) (ip : Nat) : List Name → FsM (Option (Nat × Name))
  | [] => do
    if nameiparent then
      iput ip
      return none
    return some (ip, [])
  | name :: rest => do
    ilock ip
    let d ← getInode ip
    if d.type ≠ .dir then
      iput ip
      return none
    if nameiparent ∧ rest = [] then return some (ip, name)
    match ← dirlookup ip name with
    | none =>
      iput ip
      return none
    | some (next, _) =>
      iput ip
      namexFrom nameiparent next rest

/-- `p->cwd`. -/
def cwd (p : Fin NPROC) : FsM Nat := do
  let s ← get
  match (s.proc p).cwd with
  | some ip => return ip
  | none => throw .kerneltrap

def namex (p : Fin NPROC) (path : List Char) (nameiparent : Bool) :
    FsM (Option (Nat × Name)) := do
  if path.head? = some '/' then
    iget ROOTINO
    namexFrom nameiparent ROOTINO (elements path)
  else
    let ip ← cwd p
    idup ip
    namexFrom nameiparent ip (elements path)

def namei (p : Fin NPROC) (path : List Char) : FsM (Option Nat) := do
  let r ← namex p path false
  return r.map (·.1)

def nameiparent (p : Fin NPROC) (path : List Char) : FsM (Option (Nat × Name)) :=
  namex p path true

end Xv6.Fs
