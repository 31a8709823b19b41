import Xv6.Lib.Program
import Xv6.Blocks.Layout

/-!
# Blocks and inodes in the kernel

The part of `fs.c` below path names: the block allocator, the blocks of an inode, and reading and
writing its content. The state is the disk as the buffer cache and the log present it. An inode in
memory is passed along and returned.

The inode functions run with the inode locked, so nothing else changes it.
-/

namespace Xv6.Blocks

open Function Lib

inductive Panic where
  /-- `freeing free block`. -/
  | freeingFreeBlock
  /-- `bmap: out of range`. -/
  | bmap
  /-- `ilock: no type`. -/
  | noType
  /-- `dirlookup not DIR`. -/
  | notDir
  /-- `dirlookup read`. -/
  | dirlookupRead
  /-- `dirlink read`. -/
  | dirlinkRead
  /-- `isdirempty: readi`. -/
  | isdiremptyReadi
  /-- `unlink: nlink < 1`. -/
  | nlink
  /-- `unlink: writei`. -/
  | unlinkWritei
  /-- The process waits for a lock that it holds: the call does not return. -/
  | deadlock
  deriving DecidableEq, Repr

structure Buffers where
  /-- The blocks as `bread` returns them. -/
  data : Disk
  /-- The blocks as `bread` returns them when their buffers have been recycled: with the content
  that was last given to the log. -/
  home : Disk
  /-- The blocks that are recorded in the log; their buffers are not recycled. -/
  logged : Nat → Bool

namespace Buffers

/-- A buffer is changed and given to the log. -/
def write (s : Buffers) (b : Nat) (m : Mem) : Buffers where
  data := update s.data b m
  home := update s.home b m
  logged := update s.logged b true

/-- A buffer is changed and released without being given to the log. If the log has it already, the
change goes to the disk with it. -/
def touch (s : Buffers) (b : Nat) (m : Mem) : Buffers where
  data := update s.data b m
  home := if s.logged b then update s.home b m else s.home
  logged := s.logged

@[simp] lemma data_write (s : Buffers) (b : Nat) (m : Mem) :
    (s.write b m).data = update s.data b m := rfl

@[simp] lemma data_touch (s : Buffers) (b : Nat) (m : Mem) :
    (s.touch b m).data = update s.data b m := rfl

end Buffers

abbrev BlockM := Prog Buffers Panic

def bread (b : Nat) : BlockM Mem := do
  let s ← get
  return s.data b

def logWrite (b : Nat) (data : Mem) : BlockM Unit := modify fun s => s.write b data

def bzero (b : Nat) : BlockM Unit := do
  let bp ← bread b
  logWrite b (memset bp 0 0 BSIZE)

/-! ### The block allocator -/

/-- `1 << (bi % 8)`. -/
def mask (bi : Nat) : UInt8 := 1 <<< UInt8.ofNat (bi % 8)

/-- The two loops of `balloc`, from block `b` on with `k` blocks left. -/
def ballocFrom (sb : Superblock) (b : Nat) : Nat → BlockM Nat
  | 0     => pure 0
  | k + 1 => do
    let bp ← bread (sb.BBLOCK b)
    let bi := b % BPB
    if bp (bi / 8) &&& mask bi = 0 then do
      logWrite (sb.BBLOCK b) (update bp (bi / 8) (bp (bi / 8) ||| mask bi))
      bzero b
      return b
    else ballocFrom sb (b + 1) k

/-- A zeroed block, 0 if there is none. -/
def balloc (sb : Superblock) : BlockM Nat := ballocFrom sb 0 sb.size

def bfree (sb : Superblock) (b : Nat) : BlockM Unit := do
  let bp ← bread (sb.BBLOCK b)
  let bi := b % BPB
  if bp (bi / 8) &&& mask bi = 0 then throw .freeingFreeBlock
  else logWrite (sb.BBLOCK b) (update bp (bi / 8) (bp (bi / 8) &&& ~~~mask bi))

/-! ### Inodes -/

/-- `struct inode`. -/
structure Inode extends Dinode where
  inum : Nat

namespace Inode

def setAddr (ip : Inode) (i : Fin (NDIRECT + 1)) (b : Nat) : Inode :=
  { ip with toDinode := ip.toDinode.setAddr i b }

def setSize (ip : Inode) (n : Nat) : Inode := { ip with size := n }

def setNlink (ip : Inode) (n : Nat) : Inode := { ip with nlink := n }

end Inode

/-- The inode as `ilock` reads it. -/
def inode (sb : Superblock) (disk : Disk) (inum : Nat) : Inode :=
  { dinode sb disk inum with inum }

def ilock (sb : Superblock) (inum : Nat) : BlockM Inode := do
  let s ← get
  let ip := inode sb s.data inum
  if ip.type = 0 then throw .noType else return ip

def iupdate (sb : Superblock) (ip : Inode) : BlockM Unit := do
  let bp ← bread (sb.IBLOCK ip.inum)
  logWrite (sb.IBLOCK ip.inum) (ip.store bp (ip.inum % IPB * DINODE))

/-- The loop of `ialloc`, from inode `inum` on with `k` inodes left. -/
def iallocFrom (sb : Superblock) (type inum : Nat) : Nat → BlockM (Option Nat)
  | 0     => pure none
  | k + 1 => do
    let bp ← bread (sb.IBLOCK inum)
    if (Dinode.load bp (inum % IPB * DINODE)).type = 0 then do
      logWrite (sb.IBLOCK inum)
        (Dinode.store ⟨type, 0, 0, 0, 0, fun _ => 0⟩ bp (inum % IPB * DINODE))
      return some inum
    else iallocFrom sb type (inum + 1) k

def ialloc (sb : Superblock) (type : Nat) : BlockM (Option Nat) :=
  iallocFrom sb type 1 (sb.ninodes - 1)

/-- `ip->addrs[i]`, allocated if it is 0: the same lines of `bmap` for a direct block and for the
indirect block. -/
def bmapAddr (sb : Superblock) (ip : Inode) (i : Fin (NDIRECT + 1)) : BlockM (Nat × Inode) :=
  if ip.addrs i = 0 then do
    let addr ← balloc sb
    if addr = 0 then return (0, ip) else return (addr, ip.setAddr i addr)
  else return (ip.addrs i, ip)

def bmap (sb : Superblock) (ip : Inode) (bn : Nat) : BlockM (Nat × Inode) :=
  if h : bn < NDIRECT then bmapAddr sb ip (Fin.castSucc ⟨bn, h⟩)
  else if bn - NDIRECT < NINDIRECT then do
    let (addr, ip) ← bmapAddr sb ip (Fin.last NDIRECT)
    if addr = 0 then return (0, ip)
    else do
      let bp ← bread addr
      if word bp (bn - NDIRECT) = 0 then do
        let b ← balloc sb
        if b ≠ 0 then logWrite addr (bp.store (4 * (bn - NDIRECT)) 4 b)
        return (b, ip)
      else return (word bp (bn - NDIRECT), ip)
  else throw .bmap

/-- The first loop of `itrunc`. -/
def itruncDirect (sb : Superblock) : List (Fin NDIRECT) → Inode → BlockM Inode
  | [], ip => pure ip
  | i :: is, ip =>
    if ip.addrs i.castSucc = 0 then itruncDirect sb is ip
    else do
      bfree sb (ip.addrs i.castSucc)
      itruncDirect sb is (ip.setAddr i.castSucc 0)

/-- The second loop of `itrunc`, over the buffer of the indirect block. -/
def itruncEntries (sb : Superblock) (bp : Mem) : List (Fin NINDIRECT) → BlockM Unit
  | [] => pure ()
  | j :: js => do
    if word bp j ≠ 0 then bfree sb (word bp j)
    itruncEntries sb bp js

def itruncIndirect (sb : Superblock) (ip : Inode) : BlockM Inode :=
  let addr := ip.addrs (Fin.last NDIRECT)
  if addr = 0 then return ip
  else do
    let bp ← bread addr
    itruncEntries sb bp (List.finRange NINDIRECT)
    bfree sb addr
    return ip.setAddr (Fin.last NDIRECT) 0

def itrunc (sb : Superblock) (ip : Inode) : BlockM Inode := do
  let ip ← itruncDirect sb (List.finRange NDIRECT) ip
  let ip ← itruncIndirect sb ip
  let ip := ip.setSize 0
  iupdate sb ip
  return ip

/-- What `iput` does to the disk when it drops the last reference of an inode without links. -/
def iputFree (sb : Superblock) (ip : Inode) : BlockM Unit := do
  let ip ← itrunc sb ip
  iupdate sb { ip with type := 0 }

/-! ### Reading and writing -/

/-- The loop of `readi`; `copyout` says whether the bytes for `dst + tot` reach it. `done` holds
the bytes read so far, `tot` of them; `none` is -1. -/
def readiFrom (sb : Superblock) (copyout : Nat → List UInt8 → Bool) (n : Nat) :
    Nat → Inode → Nat → List UInt8 → BlockM (Option (List UInt8) × Inode)
  | 0, ip, _, done => return (some done, ip)
  | k + 1, ip, off, done =>
    if done.length < n then do
      let (addr, ip) ← bmap sb ip (off / BSIZE)
      if addr = 0 then return (some done, ip)
      else do
        let bp ← bread addr
        let m := min (n - done.length) (BSIZE - off % BSIZE)
        let bs := bp.read (off % BSIZE) m
        if copyout done.length bs then readiFrom sb copyout n k ip (off + m) (done ++ bs)
        else return (none, ip)
    else return (some done, ip)

/-- `readi`: the bytes that were read, `none` for -1. Every turn of the loop reads a byte. -/
def readi (sb : Superblock) (ip : Inode) (copyout : Nat → List UInt8 → Bool) (off n : Nat) :
    BlockM (Option (List UInt8) × Inode) :=
  if ip.size < off ∨ (off + n) % 2 ^ 32 < off then return (some [], ip)
  else
    let n := if ip.size < (off + n) % 2 ^ 32 then ip.size - off else n
    readiFrom sb copyout n n ip off []

/-- `either_copyout` to a kernel address. -/
def toKernel : Nat → List UInt8 → Bool := fun _ _ => true

/-- The source of `writei`: the bytes from `src` on, and how many of `m` bytes from `src + tot` on
`either_copyin` brings into the buffer before it stops; it succeeds if it brings all. -/
structure Source where
  bytes : Mem
  copied : Nat → Nat → Nat
  copied_le : ∀ tot m, copied tot m ≤ m

/-- A kernel address. -/
def Source.kernel (data : Mem) : Source where
  bytes := data
  copied _ m := m
  copied_le _ m := le_refl m

/-- The loop of `writei`; it returns `tot`, `off` and the inode. -/
def writeiFrom (sb : Superblock) (src : Source) (n : Nat) :
    Nat → Inode → Nat → Nat → BlockM (Nat × Nat × Inode)
  | 0, ip, off, tot => return (tot, off, ip)
  | k + 1, ip, off, tot =>
    if tot < n then do
      let (addr, ip) ← bmap sb ip (off / BSIZE)
      if addr = 0 then return (tot, off, ip)
      else do
        let bp ← bread addr
        let m := min (n - tot) (BSIZE - off % BSIZE)
        let data := bp.write (off % BSIZE) (src.bytes.read tot (src.copied tot m))
        if src.copied tot m = m then do
          logWrite addr data
          writeiFrom sb src n k ip (off + m) (tot + m)
        else do
          modify fun s => s.touch addr data
          return (tot, off, ip)
    else return (tot, off, ip)

/-- `writei`: the number of bytes written, `none` for -1. -/
def writei (sb : Superblock) (ip : Inode) (src : Source) (off n : Nat) :
    BlockM (Option Nat × Inode) :=
  if ip.size < off ∨ (off + n) % 2 ^ 32 < off then return (none, ip)
  else if MAXFILE * BSIZE < (off + n) % 2 ^ 32 then return (none, ip)
  else do
    let (tot, off, ip) ← writeiFrom sb src n n ip off 0
    let ip := if ip.size < off then ip.setSize off else ip
    iupdate sb ip
    return (some tot, ip)

end Xv6.Blocks
