import Xv6.Log.Machine
import Xv6.Blocks.Dir

/-!
# `mkfs`

The host program that builds the first image of the disk, on a little-endian host. Blocks are
handed out in order, and never given back.
-/

namespace Xv6.Blocks.Mkfs

open Function Lib

def FSSIZE : Nat := 2000
def NINODES : Nat := 200

def nbitmap : Nat := FSSIZE / (BSIZE * 8) + 1
def ninodeblocks : Nat := NINODES / IPB + 1
def nlog : Nat := Log.LOGSIZE
def nmeta : Nat := 2 + nlog + ninodeblocks + nbitmap
def nblocks : Nat := FSSIZE - nmeta

/-- `xshort`: the bytes of `y` are set one by one. -/
def xshort (x : Nat) : Nat := Mem.leNat (fun k => UInt8.ofNat (x >>> (8 * k))) 0 2

def xint (x : Nat) : Nat := Mem.leNat (fun k => UInt8.ofNat (x >>> (8 * k))) 0 4

def sb : Superblock where
  magic := FSMAGIC
  size := xint FSSIZE
  nblocks := xint nblocks
  ninodes := xint NINODES
  nlog := xint nlog
  logstart := xint 2
  inodestart := xint (2 + nlog)
  bmapstart := xint (2 + nlog + ninodeblocks)

inductive Abort where
  /-- A read behind the end of the image. -/
  | read
  /-- `assert(rootino == ROOTINO)`. -/
  | rootino
  /-- `assert(index(shortname, '/') == 0)`. -/
  | slash
  /-- `assert(fbn < MAXFILE)`. -/
  | maxfile
  /-- `assert(used < BSIZE*8)`. -/
  | used
  deriving DecidableEq, Repr

structure St where
  disk : Disk
  freeinode : Nat
  freeblock : Nat

abbrev MkM := Prog St Abort

/-- `rsect`: the image has `FSSIZE` blocks. -/
def rsect (sec : Nat) : MkM Mem := do
  let s ← get
  if sec < FSSIZE then return s.disk sec else throw .read

def wsect (sec : Nat) (buf : Mem) : MkM Unit :=
  modify fun s => { s with disk := update s.disk sec buf }

def rinode (inum : Nat) : MkM Dinode := do
  let buf ← rsect (sb.IBLOCK inum)
  return .load buf (inum % IPB * DINODE)

def winode (inum : Nat) (din : Dinode) : MkM Unit := do
  let buf ← rsect (sb.IBLOCK inum)
  wsect (sb.IBLOCK inum) (din.store buf (inum % IPB * DINODE))

def ialloc (type : Nat) : MkM Nat := do
  let s ← get
  set { s with freeinode := s.freeinode + 1 }
  winode s.freeinode ⟨xshort type, 0, 0, xshort 1, xint 0, fun _ => 0⟩
  return s.freeinode

/-- `freeblock++`. -/
def nextBlock : MkM Nat := do
  let s ← get
  set { s with freeblock := s.freeblock + 1 }
  return s.freeblock

/-- The same lines of `iappend` for a direct block and for the indirect block. -/
def addrFor (din : Dinode) (i : Fin (NDIRECT + 1)) : MkM Dinode :=
  if xint (din.addrs i) = 0 then do
    let b ← nextBlock
    return din.setAddr i (xint b)
  else return din

/-- `x` in `iappend`: the block for block `fbn` of the file. -/
def blockFor (din : Dinode) (fbn : Nat) : MkM (Nat × Dinode) :=
  if h : fbn < NDIRECT then do
    let din ← addrFor din (Fin.castSucc ⟨fbn, h⟩)
    return (xint (din.addrs (Fin.castSucc ⟨fbn, h⟩)), din)
  else do
    let din ← addrFor din (Fin.last NDIRECT)
    let indirect ← rsect (xint (din.addrs (Fin.last NDIRECT)))
    if word indirect (fbn - NDIRECT) = 0 then do
      let b ← nextBlock
      let indirect := indirect.store (4 * (fbn - NDIRECT)) 4 (xint b)
      wsect (xint (din.addrs (Fin.last NDIRECT))) indirect
      return (xint (word indirect (fbn - NDIRECT)), din)
    else return (xint (word indirect (fbn - NDIRECT)), din)

/-- The loop of `iappend`; `p` are the `n` bytes left. Every turn takes one of them. -/
def iappendFrom : Nat → Dinode → Nat → List UInt8 → MkM (Dinode × Nat)
  | 0, din, off, _ => return (din, off)
  | k + 1, din, off, p =>
    if 0 < p.length then do
      let fbn := off / BSIZE
      if MAXFILE ≤ fbn then throw .maxfile
      else do
        let (x, din) ← blockFor din fbn
        let n1 := min p.length ((fbn + 1) * BSIZE - off)
        let buf ← rsect x
        wsect x (buf.write (off - fbn * BSIZE) (p.take n1))
        iappendFrom k din (off + n1) (p.drop n1)
    else return (din, off)

def iappend (inum : Nat) (p : List UInt8) : MkM Unit := do
  let din ← rinode inum
  let (din, off) ← iappendFrom p.length din (xint din.size) p
  winode inum { din with size := xint off }

/-- The loop of `balloc`. -/
def bits : Nat → Mem
  | 0     => fun _ => 0
  | i + 1 => update (bits i) (i / 8) (bits i (i / 8) ||| mask i)

def balloc (used : Nat) : MkM Unit :=
  if BSIZE * 8 ≤ used then throw .used else wsect sb.bmapstart (bits used)

/-! ### `main` -/

/-- A file on the command line, with what the calls of `read` return until one returns 0. -/
structure HostFile where
  path : List UInt8
  reads : List (List UInt8)
  path_ne_zero : 0 ∉ path
  reads_pos : ∀ c ∈ reads, c ≠ []
  reads_le : ∀ c ∈ reads, c.length ≤ BSIZE

/-- The content of the file. -/
def HostFile.content (f : HostFile) : List UInt8 := f.reads.flatten

/-- The bytes of `user/`. -/
def userDir : List UInt8 := [117, 115, 101, 114, 47]

def slash : UInt8 := 47
def underscore : UInt8 := 95
def dot : UInt8 := 46

/-- The path without `user/`. -/
def dropUser (path : List UInt8) : List UInt8 :=
  if userDir.isPrefixOf path then path.drop 5 else path

/-- A name without a leading underscore. -/
def dropUnderscore (name : List UInt8) : List UInt8 :=
  if name.head? = some underscore then name.tail else name

/-- An entry of the root directory; `de` is zeroed before its name is copied. -/
def dirent (inum : Nat) (name : List UInt8) : List UInt8 :=
  (Dirent.mkName (xshort inum) (Mem.ofList name)).bytes

/-- The files that `read` brings block by block. -/
def appendReads (inum : Nat) : List (List UInt8) → MkM Unit
  | []         => pure ()
  | buf :: bufs => do
    iappend inum buf
    appendReads inum bufs

def addFile (rootino : Nat) (f : HostFile) : MkM Unit := do
  let shortname := dropUser f.path
  if slash ∈ shortname then throw .slash
  else do
    let shortname := dropUnderscore shortname
    let inum ← ialloc T_FILE
    iappend rootino (dirent inum shortname)
    appendReads inum f.reads

def addFiles (rootino : Nat) : List HostFile → MkM Unit
  | []      => pure ()
  | f :: fs => do
    addFile rootino f
    addFiles rootino fs

/-- The last lines of `main` that touch the root directory. -/
def fixSize (rootino : Nat) : MkM Unit := do
  let din ← rinode rootino
  let off := (xint din.size / BSIZE + 1) * BSIZE
  winode rootino { din with size := xint off }

/-- The state when the blocks have been zeroed. -/
def zeroed : St where
  disk _ _ := 0
  freeinode := 1
  freeblock := nmeta

def main (files : List HostFile) : MkM Unit := do
  let zeroes : Mem := fun _ => 0
  wsect 1 (zeroes.storeWords 0 4 [sb.magic, sb.size, sb.nblocks, sb.ninodes, sb.nlog, sb.logstart,
    sb.inodestart, sb.bmapstart])
  let rootino ← ialloc T_DIR
  if rootino ≠ ROOTINO then throw .rootino
  else do
    iappend rootino (dirent rootino [dot])
    iappend rootino (dirent rootino [dot, dot])
    addFiles rootino files
    fixSize rootino
    let s ← get
    balloc s.freeblock

/-- The image that `mkfs` leaves. -/
def mkfs (files : List HostFile) : Except Abort St :=
  ((main files).run zeroed).map Prod.snd

end Xv6.Blocks.Mkfs
