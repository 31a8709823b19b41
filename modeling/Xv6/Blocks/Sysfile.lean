import Xv6.Blocks.Dir

/-!
# System calls on blocks

The system calls of `sysfile.c` that change the disk, from where the path has been looked up: they
start from the numbers of the inodes that `namei` and `nameiparent` have returned. Each is one
transaction. `last k` says that no one else refers to inode `k`, so that `iput` drops the last
reference.
-/

namespace Xv6.Blocks

open Lib

variable (sb : Superblock) (last : Nat → Bool)

def iput (ip : Inode) : BlockM Unit :=
  if last ip.inum = true ∧ ip.nlink = 0 then iputFree sb ip else pure ()

/-- `ip->nlink++`, for a `short`. -/
def Inode.incNlink (ip : Inode) : Inode := ip.setNlink ((ip.nlink + 1) % 2 ^ 16)

/-- `ip->nlink--`. -/
def Inode.decNlink (ip : Inode) : Inode := ip.setNlink ((ip.nlink + (2 ^ 16 - 1)) % 2 ^ 16)

def dot : Mem := Mem.ofList [46]

def dotdot : Mem := Mem.ofList [46, 46]

/-! ### `create` -/

/-- The entries `.` and `..` of a new directory. -/
def createDots (ip : Inode) (parent : Nat) : BlockM (Bool × Inode) := do
  let (r, ip) ← dirlink sb ip dot ip.inum
  if r < 0 then return (false, ip)
  else do
    let (r, ip) ← dirlink sb ip dotdot parent
    return (decide (0 ≤ r), ip)

def createFail (ip dp : Inode) : BlockM (Option Inode) := do
  let ip := ip.setNlink 0
  iupdate sb ip
  iput sb last ip
  iput sb last dp
  return none

/-- The name is linked to the new inode. -/
def createLink (type : Nat) (name : Mem) (ip dp : Inode) : BlockM (Option Inode) := do
  let (r, dp) ← dirlink sb dp name ip.inum
  if r < 0 then createFail sb last ip dp
  else if type = T_DIR then do
    let dp := dp.incNlink
    iupdate sb dp
    iput sb last dp
    return some ip
  else do
    iput sb last dp
    return some ip

def create (dpnum : Nat) (name : Mem) (type major minor : Nat) : BlockM (Option Inode) := do
  let dp ← ilock sb dpnum
  let (r, dp) ← dirlookup sb dp name
  match r with
  | some (inum, _) =>
    iput sb last dp
    let ip ← ilock sb inum
    if type = T_FILE ∧ (ip.type = T_FILE ∨ ip.type = T_DEVICE) then return some ip
    else do
      iput sb last ip
      return none
  | none =>
    match ← ialloc sb type with
    | none =>
      iput sb last dp
      return none
    | some inum =>
      let ip ← ilock sb inum
      let ip : Inode := { ip with major, minor, nlink := 1 }
      iupdate sb ip
      if type = T_DIR then do
        let (ok, ip) ← createDots sb ip dp.inum
        if ok then createLink sb last type name ip dp else createFail sb last ip dp
      else createLink sb last type name ip dp

/-! ### The system calls -/

/-- The end of `sys_open`. `fail` says that there is no descriptor, or that the device has a bad
number. -/
def openEnd (fail trunc : Bool) (ip : Inode) : BlockM Unit :=
  if fail = true then iput sb last ip
  else if trunc = true ∧ ip.type = T_FILE then do
    let _ ← itrunc sb ip
    return
  else pure ()

def sysOpen (inum : Nat) (rdonly fail trunc : Bool) : BlockM Unit := do
  let ip ← ilock sb inum
  if ip.type = T_DIR ∧ rdonly = false then iput sb last ip else openEnd sb last fail trunc ip

/-- `sys_open` with `O_CREATE`. -/
def sysOpenCreate (dpnum : Nat) (name : Mem) (fail trunc : Bool) : BlockM Unit := do
  match ← create sb last dpnum name T_FILE 0 0 with
  | none => return
  | some ip => openEnd sb last fail trunc ip

def sysMkdir (dpnum : Nat) (name : Mem) : BlockM Unit := do
  match ← create sb last dpnum name T_DIR 0 0 with
  | none => return
  | some ip => iput sb last ip

/-- `sys_mknod`; the numbers are cut to a `short`. -/
def sysMknod (dpnum : Nat) (name : Mem) (major minor : Nat) : BlockM Unit := do
  match ← create sb last dpnum name T_DEVICE (major % 2 ^ 16) (minor % 2 ^ 16) with
  | none => return
  | some ip => iput sb last ip

def linkBad (inum : Nat) : BlockM Unit := do
  let ip ← ilock sb inum
  let ip := ip.decNlink
  iupdate sb ip
  iput sb last ip

/-- `sys_link`; `dpnum` is `none` if `nameiparent` fails. -/
def sysLink (inum : Nat) (dpnum : Option Nat) (name : Mem) : BlockM Unit := do
  let ip ← ilock sb inum
  if ip.type = T_DIR then iput sb last ip
  else do
    let ip := ip.incNlink
    iupdate sb ip
    match dpnum with
    | none => linkBad sb last inum
    | some dpnum =>
      let dp ← ilock sb dpnum
      let (r, dp) ← dirlink sb dp name ip.inum
      if r < 0 then do
        iput sb last dp
        linkBad sb last inum
      else do
        iput sb last dp
        let ip ← ilock sb inum
        iput sb last ip

/-- The loop of `isdirempty`, with `k` turns left. -/
def isdiremptyFrom : Nat → Inode → Nat → BlockM (Bool × Inode)
  | 0, dp, _ => return (true, dp)
  | k + 1, dp, off =>
    if off < dp.size then do
      let (r, dp) ← readi sb dp toKernel off DIRENT
      match r with
      | some bs =>
        if bs.length ≠ DIRENT then throw .isdiremptyReadi
        else if (Dirent.load (Mem.ofList bs) 0).inum ≠ 0 then return (false, dp)
        else isdiremptyFrom k dp (off + DIRENT)
      | none => throw .isdiremptyReadi
    else return (true, dp)

def isdirempty (dp : Inode) : BlockM (Bool × Inode) :=
  isdiremptyFrom sb (dp.size + 1) dp (2 * DIRENT)

/-- `memset(&de, 0, sizeof(de))`. -/
def Dirent.zero : Dirent := ⟨0, List.replicate DIRSIZ 0⟩

/-- The end of `sys_unlink`: the entry at `off` of the directory is erased. -/
def unlinkEntry (dp ip : Inode) (off : Nat) : BlockM Unit := do
  let (n, dp) ← writei sb dp (.kernel (Mem.ofList Dirent.zero.bytes)) off DIRENT
  if n ≠ some DIRENT then throw .unlinkWritei
  else do
    if ip.type = T_DIR then do
      let dp := dp.decNlink
      iupdate sb dp
      iput sb last dp
    else iput sb last dp
    let ip := ip.decNlink
    iupdate sb ip
    iput sb last ip

def sysUnlink (dpnum : Nat) (name : Mem) : BlockM Unit := do
  let dp ← ilock sb dpnum
  if namecmp name dot = 0 ∨ namecmp name dotdot = 0 then iput sb last dp
  else do
    let (r, dp) ← dirlookup sb dp name
    match r with
    | none => iput sb last dp
    | some (inum, off) =>
      if inum = dp.inum then throw .deadlock
      else do
        let ip ← ilock sb inum
        if ip.nlink = 0 ∨ 2 ^ 15 ≤ ip.nlink then throw .nlink
        else if ip.type = T_DIR then do
          let (empty, ip) ← isdirempty sb ip
          if empty then unlinkEntry sb last dp ip off
          else do
            iput sb last ip
            iput sb last dp
        else unlinkEntry sb last dp ip off

/-- One transaction of `filewrite`. A descriptor that can be written is one of a file. -/
def filewrite (inum : Nat) (src : Source) (off n : Nat) : BlockM Unit := do
  let ip ← ilock sb inum
  if ip.type = T_FILE then do
    let _ ← writei sb ip src off n
    return
  else pure ()

/-- A reference is dropped, by `close`, `chdir` or `exit`. -/
def dropRef (inum : Nat) : BlockM Unit := do
  let ip ← ilock sb inum
  iput sb last ip

/-- The operations. -/
inductive Op where
  | open (inum : Nat) (rdonly fail trunc : Bool)
  | openCreate (dpnum : Nat) (name : Mem) (fail trunc : Bool)
  | mkdir (dpnum : Nat) (name : Mem)
  | mknod (dpnum : Nat) (name : Mem) (major minor : Nat)
  | link (inum : Nat) (dpnum : Option Nat) (name : Mem)
  | unlink (dpnum : Nat) (name : Mem)
  | write (inum : Nat) (src : Source) (off n : Nat)
  | drop (inum : Nat)

def Op.exec : Op → BlockM Unit
  | .open inum rdonly fail trunc => sysOpen sb last inum rdonly fail trunc
  | .openCreate dpnum name fail trunc => sysOpenCreate sb last dpnum name fail trunc
  | .mkdir dpnum name => sysMkdir sb last dpnum name
  | .mknod dpnum name major minor => sysMknod sb last dpnum name major minor
  | .link inum dpnum name => sysLink sb last inum dpnum name
  | .unlink dpnum name => sysUnlink sb last dpnum name
  | .write inum src off n => filewrite sb inum src off n
  | .drop inum => dropRef sb last inum

end Xv6.Blocks
