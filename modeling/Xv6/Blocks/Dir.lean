import Xv6.Blocks.Inode

/-!
# Directories

A directory is a file that holds a sequence of entries. The entries are read and written through
`readi` and `writei`.
-/

namespace Xv6.Blocks

open Lib

def DIRSIZ : Nat := 14

/-- `sizeof(struct dirent)`. -/
def DIRENT : Nat := 16

structure Dirent where
  inum : Nat
  name : List UInt8
  deriving DecidableEq, Repr

namespace Dirent

def load (m : Mem) (o : Nat) : Dirent where
  inum := m.leNat o 2
  name := m.read (o + 2) DIRSIZ

def bytes (de : Dirent) : List UInt8 :=
  [UInt8.ofNat de.inum, UInt8.ofNat (de.inum / 256)] ++ de.name

/-- The name of an entry, up to its end. -/
def key (de : Dirent) : List UInt8 := de.name.takeWhile (· ≠ 0)

/-- An entry with the name that `strncpy` puts there. -/
def mkName (inum : Nat) (name : Mem) : Dirent where
  inum := inum
  name := (strncpy (fun _ => 0) name DIRSIZ).read 0 DIRSIZ

end Dirent

def namecmp (s t : Mem) : Int := strncmp s t DIRSIZ

/-- The loop of `dirlookup`, with `k` turns left. -/
def dirlookupFrom (sb : Superblock) (name : Mem) :
    Nat → Inode → Nat → BlockM (Option (Nat × Nat) × Inode)
  | 0, dp, _ => return (none, dp)
  | k + 1, dp, off =>
    if off < dp.size then do
      let (r, dp) ← readi sb dp toKernel off DIRENT
      match r with
      | some bs =>
        if bs.length ≠ DIRENT then throw .dirlookupRead
        else
          let de := Dirent.load (Mem.ofList bs) 0
          if de.inum = 0 then dirlookupFrom sb name k dp (off + DIRENT)
          else if namecmp name (Mem.ofList de.name) = 0 then return (some (de.inum, off), dp)
          else dirlookupFrom sb name k dp (off + DIRENT)
      | none => throw .dirlookupRead
    else return (none, dp)

/-- `dirlookup`: the inode number and the offset of the entry. -/
def dirlookup (sb : Superblock) (dp : Inode) (name : Mem) :
    BlockM (Option (Nat × Nat) × Inode) :=
  if dp.type ≠ T_DIR then throw .notDir else dirlookupFrom sb name (dp.size + 1) dp 0

/-- The loop of `dirlink`: the offset of the first free entry, the size if there is none. -/
def findFree (sb : Superblock) : Nat → Inode → Nat → BlockM (Nat × Inode)
  | 0, dp, off => return (off, dp)
  | k + 1, dp, off =>
    if off < dp.size then do
      let (r, dp) ← readi sb dp toKernel off DIRENT
      match r with
      | some bs =>
        if bs.length ≠ DIRENT then throw .dirlinkRead
        else if (Dirent.load (Mem.ofList bs) 0).inum = 0 then return (off, dp)
        else findFree sb k dp (off + DIRENT)
      | none => throw .dirlinkRead
    else return (off, dp)

/-- `dirlink`. The reference that `dirlookup` takes is dropped before -1 is returned; the disk is
not changed by that, since the inode has a link. -/
def dirlink (sb : Superblock) (dp : Inode) (name : Mem) (inum : Nat) : BlockM (Int × Inode) := do
  let (r, dp) ← dirlookup sb dp name
  match r with
  | some _ => return (-1, dp)
  | none =>
    let (off, dp) ← findFree sb (dp.size + 1) dp 0
    let de := Dirent.mkName (inum % 2 ^ 16) name
    let (n, dp) ← writei sb dp (.kernel (Mem.ofList de.bytes)) off DIRENT
    return (if n = some DIRENT then 0 else -1, dp)

/-! ### Entries -/

namespace Dirent

lemma length_bytes {de : Dirent} (h : de.name.length = DIRSIZ) : de.bytes.length = DIRENT := by
  simp [bytes, h, DIRSIZ, DIRENT]

@[simp] lemma length_mkName (inum : Nat) (name : Mem) :
    (mkName inum name).name.length = DIRSIZ := by
  simp [mkName]

lemma key_mkName (inum : Nat) (name : Mem) : (mkName inum name).key = cstring name DIRSIZ := by
  rw [← cstring_strncpy (fun _ => 0) name DIRSIZ]
  rfl

/-- An entry is that of its 16 bytes. -/
lemma load_congr {m m' : Mem} {o o' : Nat} (h : ∀ i < DIRENT, m' (o' + i) = m (o + i)) :
    load m' o' = load m o := by
  have h0 := h 0 (by decide)
  have h1 := h 1 (by decide)
  unfold load
  congr 1
  · simp only [Mem.leNat]
    rw [Nat.add_zero, Nat.add_zero] at h0
    rw [h0, h1]
  · refine Mem.read_congr fun i hi => ?_
    simp only [DIRSIZ] at hi
    have h2 := h (2 + i) (by simp only [DIRENT]; omega)
    rwa [← Nat.add_assoc, ← Nat.add_assoc] at h2

lemma load_ofList_read (m : Mem) (o : Nat) : load (Mem.ofList (m.read o DIRENT)) 0 = load m o :=
  load_congr fun i hi => by
    rw [Nat.zero_add]
    exact Mem.getD_read hi 0

lemma load_ofList_bytes {de : Dirent} (hi : de.inum < 2 ^ 16) (hn : de.name.length = DIRSIZ) :
    load (Mem.ofList de.bytes) 0 = de := by
  cases de with
  | mk inum name =>
    unfold load
    congr 1
    · simp only [Mem.leNat, Mem.ofList, bytes, List.cons_append, List.getD_cons_zero,
        List.getD_cons_succ, UInt8.toNat_ofNat', Nat.zero_add]
      simp only at hi
      omega
    · simp only at hn
      have hread : (Mem.ofList (bytes ⟨inum, name⟩)).read (0 + 2) DIRSIZ
          = (Mem.ofList name).read 0 DIRSIZ := by
        refine Mem.read_congr fun i _ => ?_
        simp [Mem.ofList, bytes, Nat.add_comm 2 i]
      rw [hread, ← hn, Mem.read_ofList]

/-- An entry that is written is read back. -/
lemma load_write {de : Dirent} (hi : de.inum < 2 ^ 16) (hn : de.name.length = DIRSIZ) (m : Mem)
    (o : Nat) : load (m.write o de.bytes) o = de := by
  have hlen := length_bytes hn
  have hload : load (m.write o de.bytes) o = load (Mem.ofList de.bytes) 0 := by
    refine load_congr fun k hk => ?_
    rw [Nat.zero_add, ← Mem.getD_read (m := m.write o de.bytes) hk 0, ← hlen, Mem.read_write]
    rfl
  rw [hload, load_ofList_bytes hi hn]

end Dirent

/-- Names compare equal if they agree on their first `DIRSIZ` bytes. -/
lemma namecmp_eq_zero_iff {name : Mem} {de : Dirent} (h : de.name.length = DIRSIZ) :
    namecmp name (Mem.ofList de.name) = 0 ↔ cstring name DIRSIZ = de.key := by
  unfold namecmp
  rw [strncmp_eq_zero_iff]
  have hkey : cstring (Mem.ofList de.name) DIRSIZ = de.key := by
    unfold cstring
    rw [← h, Mem.read_ofList]
    rfl
  rw [hkey]

end Xv6.Blocks
