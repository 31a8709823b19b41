import Xv6.Kernel.String

/-!
# The disk

The on-disk format of `fs.h`. A disk is a sequence of blocks of `BSIZE` bytes:

  `boot block | super block | log | inode blocks | free bit map | data blocks`

Both `mkfs` and the kernel read and write it. Numbers are little endian.
-/

namespace Xv6.Blocks

open Function Lib

def BSIZE : Nat := 1024
def NDIRECT : Nat := 12
def NINDIRECT : Nat := BSIZE / 4
def MAXFILE : Nat := NDIRECT + NINDIRECT
def ROOTINO : Nat := 1
def FSMAGIC : Nat := 0x10203040
def T_DIR : Nat := 1
def T_FILE : Nat := 2
def T_DEVICE : Nat := 3

/-- `sizeof(struct dinode)`. -/
def DINODE : Nat := 64

/-- Inodes in a block. -/
def IPB : Nat := BSIZE / DINODE

/-- Bits of the map in a block. -/
def BPB : Nat := BSIZE * 8

abbrev Disk := Nat → Mem

/-! ### The super block -/

structure Superblock where
  magic : Nat
  size : Nat
  nblocks : Nat
  ninodes : Nat
  nlog : Nat
  logstart : Nat
  inodestart : Nat
  bmapstart : Nat
  deriving DecidableEq, Repr

namespace Superblock

def load (m : Mem) : Superblock where
  magic := m.leNat 0 4
  size := m.leNat 4 4
  nblocks := m.leNat 8 4
  ninodes := m.leNat 12 4
  nlog := m.leNat 16 4
  logstart := m.leNat 20 4
  inodestart := m.leNat 24 4
  bmapstart := m.leNat 28 4

/-- The block of an inode. -/
def IBLOCK (sb : Superblock) (i : Nat) : Nat := i / IPB + sb.inodestart

/-- The block of the map that holds the bit of block `b`. -/
def BBLOCK (sb : Superblock) (b : Nat) : Nat := b / BPB + sb.bmapstart

/-- The first data block. -/
def datastart (sb : Superblock) : Nat := sb.size - sb.nblocks

/-- The inode blocks, the map and the data blocks follow each other. -/
structure Ok (sb : Superblock) : Prop where
  boot : 0 < sb.inodestart
  inodes : sb.inodestart + sb.ninodes / IPB < sb.bmapstart
  bitmap : sb.bmapstart + sb.size / BPB < sb.datastart
  size_lt : sb.size < 2 ^ 32

variable {sb : Superblock} {i b : Nat}

lemma Ok.iblock_lt (h : sb.Ok) (hi : i < sb.ninodes) : sb.IBLOCK i < sb.bmapstart := by
  have h1 := h.inodes
  have h2 : i / IPB ≤ sb.ninodes / IPB := Nat.div_le_div_right (Nat.le_of_lt hi)
  unfold IBLOCK
  omega

lemma bmapstart_le_bblock (sb : Superblock) (b : Nat) : sb.bmapstart ≤ sb.BBLOCK b :=
  Nat.le_add_left ..

lemma Ok.bblock_lt (h : sb.Ok) (hb : b < sb.size) : sb.BBLOCK b < sb.datastart := by
  have h1 := h.bitmap
  have h2 : b / BPB ≤ sb.size / BPB := Nat.div_le_div_right (Nat.le_of_lt hb)
  unfold BBLOCK
  omega

lemma Ok.bmapstart_lt (h : sb.Ok) : sb.bmapstart < sb.datastart :=
  Nat.lt_of_le_of_lt (Nat.le_add_right ..) h.bitmap

end Superblock

/-! ### Inodes -/

/-- `struct dinode`; the fields that are `short` are unsigned here. -/
@[ext] structure Dinode where
  type : Nat
  major : Nat
  minor : Nat
  nlink : Nat
  size : Nat
  addrs : Fin (NDIRECT + 1) → Nat

namespace Dinode

def load (m : Mem) (o : Nat) : Dinode where
  type := m.leNat o 2
  major := m.leNat (o + 2) 2
  minor := m.leNat (o + 4) 2
  nlink := m.leNat (o + 6) 2
  size := m.leNat (o + 8) 4
  addrs i := m.leNat (o + 12 + 4 * i) 4

def store (d : Dinode) (m : Mem) (o : Nat) : Mem :=
  let m := m.store o 2 d.type
  let m := m.store (o + 2) 2 d.major
  let m := m.store (o + 4) 2 d.minor
  let m := m.store (o + 6) 2 d.nlink
  let m := m.store (o + 8) 4 d.size
  m.storeWords (o + 12) 4 (List.ofFn d.addrs)

/-- Every field has its width. -/
structure Fits (d : Dinode) : Prop where
  type : d.type < 2 ^ 16
  major : d.major < 2 ^ 16
  minor : d.minor < 2 ^ 16
  nlink : d.nlink < 2 ^ 16
  size : d.size < 2 ^ 32
  addrs : ∀ i, d.addrs i < 2 ^ 32

lemma load_fits (m : Mem) (o : Nat) : (load m o).Fits where
  type := m.leNat_lt 2 _
  major := m.leNat_lt 2 _
  minor := m.leNat_lt 2 _
  nlink := m.leNat_lt 2 _
  size := m.leNat_lt 4 _
  addrs _ := m.leNat_lt 4 _

lemma store_apply_of_lt {d : Dinode} {m : Mem} {o x : Nat} (h : x < o) : d.store m o x = m x := by
  unfold store
  rw [Mem.storeWords_apply_of_lt (by omega)]
  iterate 5 rw [Mem.store_apply_of_lt (by omega)]

lemma store_apply_of_le {d : Dinode} {m : Mem} {o x : Nat} (h : o + DINODE ≤ x) :
    d.store m o x = m x := by
  have hlen : (List.ofFn d.addrs).length = 13 := List.length_ofFn
  have h64 : o + 64 ≤ x := h
  unfold store
  rw [Mem.storeWords_apply_of_le (by omega)]
  iterate 5 rw [Mem.store_apply_of_le (by omega)]

lemma load_congr {m m' : Mem} {o : Nat} (h : ∀ x, o ≤ x → x < o + DINODE → m' x = m x) :
    load m' o = load m o := by
  have h64 : ∀ x, o ≤ x → x < o + 64 → m' x = m x := h
  have hword : ∀ k n, k + n ≤ 64 → m'.leNat (o + k) n = m.leNat (o + k) n :=
    fun k n hk => Mem.leNat_congr fun x hx hx' => h64 x (by omega) (by omega)
  ext i
  · exact hword 0 2 (by omega)
  · exact hword 2 2 (by omega)
  · exact hword 4 2 (by omega)
  · exact hword 6 2 (by omega)
  · exact hword 8 4 (by omega)
  · have hi : i.val < 13 := i.isLt
    have h1 := hword (12 + 4 * i) 4 (by omega)
    rwa [← Nat.add_assoc] at h1

/-- An inode that is stored is read back. -/
lemma load_store {d : Dinode} (h : d.Fits) (m : Mem) (o : Nat) : load (d.store m o) o = d := by
  have hwords : ∀ {m : Mem} {a n}, a + n ≤ o + 12 →
      (m.storeWords (o + 12) 4 (List.ofFn d.addrs)).leNat a n = m.leNat a n :=
    fun ha => Mem.leNat_storeWords_of_disjoint (.inl ha)
  have hlater : ∀ {m : Mem} {a n b k v}, b + k ≤ a →
      (m.store a n v).leNat b k = m.leNat b k :=
    fun hb => Mem.leNat_store_of_disjoint (.inl hb)
  ext i
  · simp (disch := omega) only [load, store, hwords, hlater, Mem.leNat_store]
    exact Nat.mod_eq_of_lt h.type
  · simp (disch := omega) only [load, store, hwords, hlater, Mem.leNat_store]
    exact Nat.mod_eq_of_lt h.major
  · simp (disch := omega) only [load, store, hwords, hlater, Mem.leNat_store]
    exact Nat.mod_eq_of_lt h.minor
  · simp (disch := omega) only [load, store, hwords, hlater, Mem.leNat_store]
    exact Nat.mod_eq_of_lt h.nlink
  · simp (disch := omega) only [load, store, hwords, Mem.leNat_store]
    exact Nat.mod_eq_of_lt h.size
  · have hi : i.val < (List.ofFn d.addrs).length := by
      rw [List.length_ofFn]
      exact i.isLt
    simp only [load, store]
    rw [Mem.leNat_storeWords hi, List.get_ofFn]
    exact Nat.mod_eq_of_lt (h.addrs i)

def setAddr (d : Dinode) (i : Fin (NDIRECT + 1)) (b : Nat) : Dinode :=
  { d with addrs := update d.addrs i b }

end Dinode

section Dinodes

variable (sb : Superblock) (disk : Disk) {i : Nat} {d : Dinode}

/-- The inode with number `i` on disk. -/
def dinode (i : Nat) : Dinode := .load (disk (sb.IBLOCK i)) (i % IPB * DINODE)

/-- The inode with number `i` is written into its block. -/
def putDinode (i : Nat) (d : Dinode) : Disk :=
  update disk (sb.IBLOCK i) (d.store (disk (sb.IBLOCK i)) (i % IPB * DINODE))

variable {sb disk}

lemma dinode_congr {disk' : Disk} (h : disk' (sb.IBLOCK i) = disk (sb.IBLOCK i)) :
    dinode sb disk' i = dinode sb disk i := by
  unfold dinode
  rw [h]

lemma dinode_putDinode (h : d.Fits) : dinode sb (putDinode sb disk i d) i = d := by
  unfold dinode putDinode
  rw [update_self]
  exact Dinode.load_store h ..

lemma dinode_putDinode_of_ne {k : Nat} (h : k ≠ i) :
    dinode sb (putDinode sb disk i d) k = dinode sb disk k := by
  unfold dinode putDinode
  by_cases hb : sb.IBLOCK k = sb.IBLOCK i
  · -- Two inodes of one block are in different places.
    have hmod : k % IPB ≠ i % IPB := by
      intro hmod
      have hdiv : k / IPB = i / IPB := Nat.add_right_cancel hb
      exact h (by rw [← Nat.div_add_mod k IPB, hdiv, hmod, Nat.div_add_mod])
    rw [hb, update_self]
    refine Dinode.load_congr fun x hx hx' => ?_
    simp only [DINODE] at hx hx'
    rcases Nat.lt_or_gt_of_ne hmod with hlt | hgt
    · exact Dinode.store_apply_of_lt (by simp only [DINODE]; omega)
    · exact Dinode.store_apply_of_le (by simp only [DINODE]; omega)
  · rw [update_of_ne hb]

lemma putDinode_apply_of_ne {b : Nat} (h : b ≠ sb.IBLOCK i) : putDinode sb disk i d b = disk b :=
  update_of_ne h ..

end Dinodes

/-! ### The blocks of a file -/

/-- The places where an inode records a block. -/
inductive Slot where
  | direct (i : Fin NDIRECT)
  | indirect
  | entry (j : Fin NINDIRECT)
  deriving DecidableEq

/-- Word `j` of an indirect block. -/
def word (m : Mem) (j : Nat) : Nat := m.leNat (4 * j) 4

/-- The block recorded at a place, 0 if there is none. -/
def slot (disk : Disk) (d : Dinode) : Slot → Nat
  | .direct i => d.addrs i.castSucc
  | .indirect => d.addrs (Fin.last NDIRECT)
  | .entry j  =>
    if d.addrs (Fin.last NDIRECT) = 0 then 0 else word (disk (d.addrs (Fin.last NDIRECT))) j

instance : NeZero NDIRECT := ⟨by decide⟩

instance : NeZero NINDIRECT := ⟨by decide⟩

/-- The place of block `bn` of a file. -/
def fileSlot (bn : Nat) : Slot :=
  if h : bn < NDIRECT then .direct ⟨bn, h⟩ else .entry (Fin.ofNat NINDIRECT (bn - NDIRECT))

/-- The content of a file, as a memory. -/
def byte (disk : Disk) (d : Dinode) : Mem := fun x =>
  disk (slot disk d (fileSlot (x / BSIZE))) (x % BSIZE)

section Slots

variable {disk disk' : Disk} {d : Dinode} {bn a b : Nat}

lemma slot_congr (h : d.addrs (Fin.last NDIRECT) ≠ 0 →
    disk' (d.addrs (Fin.last NDIRECT)) = disk (d.addrs (Fin.last NDIRECT))) :
    slot disk' d = slot disk d := by
  funext s
  cases s with
  | direct i => rfl
  | indirect => rfl
  | entry j =>
    simp only [slot]
    split_ifs with h0
    · rfl
    · rw [h h0]

/-- The places depend on the addresses only. -/
lemma slot_eq_of_addrs {d' : Dinode} (h : d'.addrs = d.addrs) : slot disk d' = slot disk d := by
  funext s
  cases s <;> simp only [slot, h]

lemma slot_of_addrs_zero (h : ∀ j, d.addrs j = 0) : slot disk d = fun _ => 0 := by
  funext t
  cases t with
  | direct j => exact h _
  | indirect => exact h _
  | entry j => simp [slot, h]

lemma fileSlot_ne_indirect (bn : Nat) : fileSlot bn ≠ .indirect := by
  unfold fileSlot
  split_ifs <;> simp

lemma fileSlot_of_lt (h : bn < NDIRECT) : fileSlot bn = .direct ⟨bn, h⟩ := dif_pos h

lemma fileSlot_of_le (h : NDIRECT ≤ bn) (h' : bn - NDIRECT < NINDIRECT) :
    fileSlot bn = .entry ⟨bn - NDIRECT, h'⟩ := by
  unfold fileSlot
  rw [dif_neg (Nat.not_lt.mpr h)]
  congr 1
  exact Fin.ext (Nat.mod_eq_of_lt h')

lemma fileSlot_injective (ha : a < MAXFILE) (hb : b < MAXFILE) (h : fileSlot a = fileSlot b) :
    a = b := by
  simp only [MAXFILE] at ha hb
  rcases Nat.lt_or_ge a NDIRECT with h1 | h1 <;> rcases Nat.lt_or_ge b NDIRECT with h2 | h2
  · rw [fileSlot_of_lt h1, fileSlot_of_lt h2] at h
    simpa using h
  · rw [fileSlot_of_lt h1, fileSlot_of_le h2 (by omega)] at h
    exact absurd h (by simp)
  · rw [fileSlot_of_le h1 (by omega), fileSlot_of_lt h2] at h
    exact absurd h (by simp)
  · rw [fileSlot_of_le h1 (by omega), fileSlot_of_le h2 (by omega)] at h
    simp only [Slot.entry.injEq, Fin.mk.injEq] at h
    omega

/-! ### Recording a block -/

lemma slot_setDirect (i : Fin NDIRECT) (b : Nat) :
    slot disk (d.setAddr i.castSucc b) = update (slot disk d) (.direct i) b := by
  have hlast : Fin.last NDIRECT ≠ i.castSucc := (Fin.castSucc_lt_last i).ne'
  funext s
  cases s with
  | direct j =>
    simp only [slot, Dinode.setAddr, update_apply, Fin.castSucc_inj, Slot.direct.injEq]
  | indirect => simp [slot, Dinode.setAddr, update_of_ne hlast]
  | entry j => simp [slot, Dinode.setAddr, update_of_ne hlast]

/-- An indirect block that is new has no entries. -/
lemma slot_setIndirect (h0 : d.addrs (Fin.last NDIRECT) = 0) (hz : ∀ x < BSIZE, disk b x = 0) :
    slot disk (d.setAddr (Fin.last NDIRECT) b) = update (slot disk d) .indirect b := by
  funext s
  cases s with
  | direct j =>
    simp [slot, Dinode.setAddr]
  | indirect => simp [slot, Dinode.setAddr]
  | entry j =>
    have hj : j.val < 256 := j.isLt
    have hword : word (disk b) j = 0 :=
      Mem.leNat_eq_zero fun x _ hx => hz x (by simp only [BSIZE]; omega)
    simp [slot, Dinode.setAddr, h0, hword]

/-- A block is recorded in the indirect block. -/
lemma slot_setEntry (j : Fin NINDIRECT) (ha : d.addrs (Fin.last NDIRECT) = a) (h0 : a ≠ 0)
    (hb : b < 2 ^ 32) (hd : disk' a = (disk a).store (4 * j) 4 b) :
    slot disk' d = update (slot disk d) (.entry j) b := by
  funext s
  cases s with
  | direct i => simp [slot]
  | indirect => simp [slot]
  | entry k =>
    simp only [slot, ha, if_neg h0, hd, word, update_apply, Slot.entry.injEq]
    split_ifs with hk
    · rw [hk, Mem.leNat_store]
      exact Nat.mod_eq_of_lt hb
    · have hne : k.val ≠ j.val := fun heq => hk (Fin.ext heq)
      rw [Mem.leNat_store_of_disjoint (by omega)]

end Slots

end Xv6.Blocks
