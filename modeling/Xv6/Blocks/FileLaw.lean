import Xv6.Blocks.Write

/-!
# What a file is

The content of an inode is a list of bytes, as long as its size says. `readi` returns a part of it
and `writei` overwrites a part of it, and no other inode is affected.
-/

namespace Xv6.Blocks

open Function Lib

variable {sb : Superblock} {s s' : Buffers} {ip ip' : Inode} {disk : Disk} {i off n tot : Nat}
  {E : Panic → Prop}

def content (disk : Disk) (d : Dinode) : List UInt8 := (byte disk d).read 0 d.size

@[simp] lemma length_content (d : Dinode) : (content disk d).length = d.size :=
  Mem.length_read ..

/-- The accounts of the disk are right, and the blocks before the data are not free. -/
structure Accounted (sb : Superblock) (disk : Disk) : Prop where
  layout : sb.Ok
  booked : Booked sb (used sb disk) disk
  marked : MetaMarked sb disk

/-- `readi` with a destination that can be written. -/
lemma readi_content {copyout : Nat → List UInt8 → Bool} (hok : ∀ tot bs, copyout tot bs = true)
    (hlt : off + n < 2 ^ 32) (hno : NoHoles s.data ip.toDinode) :
    (readi sb ip copyout off n).run s =
      .ok ((some (((content s.data ip.toDinode).take (off + n)).drop off), ip), s) := by
  have hwp : wp (readi sb ip copyout off n) (fun _ => False) (fun p s' => p =
      (some (((content s.data ip.toDinode).take (off + n)).drop off), ip) ∧ s' = s) s := by
    refine readi_spec hok hlt (fun x _ _ hx => hno.backed x hx) ⟨?_, rfl⟩
    rw [content, Mem.take_read, Mem.drop_read, Nat.zero_add]
    rfl
  obtain ⟨p, s', hrun, rfl, rfl⟩ := wp_run hwp
  exact hrun

lemma Accounted.loaded (h : Accounted sb s.data) (hi : Allocated sb s.data i) :
    Loaded sb s (inode sb s.data i) where
  held := h.booked.held_slot hi
  marked := h.marked
  inum := ⟨hi.1, hi.2.1⟩
  fields := Dinode.load_fits ..
  type := hi.2.2

section Written

variable {bs : List UInt8}

section

variable (h : Written sb s ip off tot bs s' ip')
include h

lemma Written.accounted (hsb : sb.Ok) : Accounted sb s'.data :=
  ⟨hsb, h.booked, h.marked⟩

lemma Written.size_eq : ip'.size = max ip.size (off + tot) := by
  rw [h.rest]

/-- The inode that is returned is the one on disk. -/
lemma Written.eq_inode : ip' = inode sb s'.data ip.inum := by
  have hinum : ip'.inum = ip.inum := by rw [h.rest]
  unfold inode
  rw [h.inode_eq, ← hinum]

lemma Written.content_eq : content s'.data ip'.toDinode =
      ((byte s.data ip.toDinode).write off bs).read 0 (max ip.size (off + tot)) := by
  rw [content, h.size_eq]
  refine Mem.read_congr fun x hx => ?_
  rw [Nat.zero_add]
  exact h.bytes x hx

/-- If nothing but what was counted has been written, the content is overwritten. -/
lemma Written.content_overwrite (hlen : bs.length = tot) (hoff : off ≤ ip.size) :
    content s'.data ip'.toDinode = Mem.overwrite (content s.data ip.toDinode) off bs := by
  subst hlen
  rw [h.content_eq, Mem.read_write_max hoff]
  rfl

end

end Written

/-! ### A disk with one inode -/

def smallSb : Superblock where
  magic := FSMAGIC
  size := 8
  nblocks := 4
  ninodes := 4
  nlog := 0
  logstart := 2
  inodestart := 2
  bmapstart := 3

lemma smallSb_ok : smallSb.Ok := ⟨by decide, by decide, by decide, by decide⟩

/-- The blocks of the disk but for the inode: the map says that block 4 is in use. -/
def smallBlocks (bs : List UInt8) : Disk := fun b =>
  if b = 3 then Mem.ofList [31] else if b = 4 then Mem.ofList bs else fun _ => 0

def smallInode (type : Nat) (bs : List UInt8) : Dinode where
  type := type
  major := 0
  minor := 0
  nlink := 1
  size := bs.length
  addrs i := if i = 0 then 4 else 0

/-- The disk has an inode 1, with block 4 for its content. -/
def smallDisk (type : Nat) (bs : List UInt8) : Disk :=
  putDinode smallSb (smallBlocks bs) 1 (smallInode type bs)

def buffers (disk : Disk) : Buffers := ⟨disk, disk, fun _ => false⟩

lemma smallBlocks_free (bs : List UInt8) (k : Nat) : ¬Allocated smallSb (smallBlocks bs) k := by
  rintro ⟨-, hk, htype⟩
  have h2 : smallSb.IBLOCK k = 2 := by
    have h0 : k / IPB = 0 := Nat.div_eq_of_lt (Nat.lt_trans hk (by decide))
    simp [Superblock.IBLOCK, h0, smallSb]
  rw [dinode, h2] at htype
  exact htype (Mem.leNat_eq_zero fun _ _ _ => rfl)

section Small

variable {type : Nat} {bs : List UInt8} (htype : 0 < type ∧ type < 2 ^ 16)
  (hbs : bs.length ≤ BSIZE)

lemma slot_smallInode : slot disk (smallInode type bs) =
    update (fun _ => 0) (.direct 0) 4 := by
  funext s
  cases s with
  | direct j =>
    simp only [slot, smallInode, update_apply, Slot.direct.injEq, Fin.castSucc_eq_zero_iff]
  | indirect => rfl
  | entry j => rfl

lemma smallDisk_apply {b : Nat} (h : b ≠ 2) : smallDisk type bs b = smallBlocks bs b :=
  putDinode_apply_of_ne h

include hbs in
lemma smallInode_fits (h : type < 2 ^ 16) : (smallInode type bs).Fits where
  type := h
  major := Nat.two_pow_pos 16
  minor := Nat.two_pow_pos 16
  nlink := Nat.one_lt_two_pow (by decide)
  size := Nat.lt_of_le_of_lt hbs (by decide)
  addrs i := by
    simp only [smallInode]
    split_ifs <;> decide

include htype hbs

lemma dinode_smallDisk : dinode smallSb (smallDisk type bs) 1 = smallInode type bs :=
  dinode_putDinode (smallInode_fits hbs htype.2)

lemma smallDisk_allocated : Allocated smallSb (smallDisk type bs) 1 := by
  refine ⟨by decide, by decide, ?_⟩
  rw [dinode_smallDisk htype hbs]
  exact htype.1.ne'

lemma smallDisk_accounted : Accounted smallSb (smallDisk type bs) := by
  have hbit : ∀ b < 8, bit smallSb (smallDisk type bs) b = decide (b < 5) := by
    intro b hb
    have hblock : smallDisk type bs 3 = Mem.ofList [31] := smallDisk_apply (by decide)
    have hall : ∀ b : Fin 8, byteBit (Mem.ofList [31] (b.val % BPB / 8)) (b.val % BPB)
        = decide (b.val < 5) := by decide
    have h3 : smallSb.BBLOCK b = 3 := by
      have h0 : b / BPB = 0 := Nat.div_eq_of_lt (Nat.lt_trans hb (by decide))
      simp [Superblock.BBLOCK, h0, smallSb]
    rw [bit, h3, hblock]
    exact hall ⟨b, hb⟩
  have hused : used smallSb (smallDisk type bs) = {4} := by
    ext b
    have hd : smallSb.datastart = 4 := rfl
    have hs : smallSb.size = 8 := rfl
    simp only [used, Set.mem_ofPred_eq, Set.mem_singleton_iff, hd, hs]
    constructor
    · rintro ⟨h1, h2, h3⟩
      rw [hbit b h2, decide_eq_true_eq] at h3
      omega
    · rintro rfl
      exact ⟨le_refl 4, by decide, by rw [hbit 4 (by decide)]; rfl⟩
  refine ⟨smallSb_ok, ?_, ?_⟩
  · rw [hused]
    have hheld := (Held.empty (smallBlocks_free bs) 1).attach smallSb_ok (s := .direct 0) rfl
      (Set.notMem_empty 4)
      ⟨by decide, by decide⟩
    rw [insert_empty_eq] at hheld
    refine hheld.putDinode smallSb_ok ⟨by decide, by decide⟩ (smallInode_fits hbs htype.2) ?_
    have h0 : (smallInode type bs).type ≠ 0 := htype.1.ne'
    rw [if_pos h0, slot_smallInode]
  · intro b hb
    have hlt : b < 4 := hb
    rw [hbit b (by omega), decide_eq_true_eq]
    omega

lemma smallDisk_noHoles :
    NoHoles (smallDisk type bs) (dinode smallSb (smallDisk type bs) 1) := by
  rw [dinode_smallDisk htype hbs]
  refine ⟨Nat.le_trans hbs (by decide), fun x hx => ?_⟩
  have h0 : x / BSIZE = 0 := Nat.div_eq_of_lt (Nat.lt_of_lt_of_le hx hbs)
  rw [Backed, h0, slot_smallInode]
  exact ⟨by decide, by decide⟩

end Small

/-! ### The law -/

/-- Nothing is written if the range is not one of a file. -/
lemma writei_refused {src : Source} (hoff : off < 2 ^ 32) (hn : n < 2 ^ 32)
    (h : ip.size < off ∨ 2 ^ 32 ≤ off + n ∨ MAXFILE * BSIZE < off + n) :
    (writei sb ip src off n).run s = .ok ((none, ip), s) := by
  unfold writei
  split_ifs with h1 h2
  · rfl
  · rfl
  · have hmax : MAXFILE * BSIZE = 274432 := rfl
    omega

/-- The law of files: what was written is read. -/
theorem writei_readi (s : Buffers) (src : Source) (i off n : Nat) (h : Accounted sb s.data)
    (hi : Allocated sb s.data i) (hno : NoHoles s.data (dinode sb s.data i)) (hoff : off < 2 ^ 32)
    (hn : n < 2 ^ 32)
    (hsrc : ∀ t m, t + m ≤ n → src.copied t m = m) :
    let ip := inode sb s.data i
    (off ≤ ip.size → off + n ≤ MAXFILE * BSIZE →
      ∃ tot s', (writei sb ip src off n).run s = .ok ((some tot, inode sb s'.data i), s') ∧
        tot ≤ n ∧ (tot < n → DiskFull sb s'.data) ∧
        (∀ copyout off' n', (∀ t bs, copyout t bs = true) → off' + n' < 2 ^ 32 →
          (readi sb (inode sb s'.data i) copyout off' n').run s' =
            .ok ((some (((Mem.overwrite (content s.data ip.toDinode) off
              (src.bytes.read 0 tot)).take (off' + n')).drop off'), inode sb s'.data i), s')) ∧
        ∀ k ≠ i, Allocated sb s.data k → dinode sb s'.data k = dinode sb s.data k ∧
          content s'.data (dinode sb s'.data k) = content s.data (dinode sb s.data k)) ∧
    (ip.size < off ∨ 2 ^ 32 ≤ off + n ∨ MAXFILE * BSIZE < off + n →
      (writei sb ip src off n).run s = .ok ((none, ip), s)) := by
  intro ip
  refine ⟨fun hle hmax => ?_, writei_refused hoff hn⟩
  have hspec : wp (writei sb ip src off n) (fun _ => False) (fun p s' => ∃ tot e s0,
      p.1 = some tot ∧ WriteResult sb s ip src off n tot s' p.2 e s0) s :=
    writei_spec h.layout (h.loaded hi) hno hle hmax
  obtain ⟨⟨r, ip'⟩, s', hrun, tot, e, s0, rfl, hres⟩ := wp_run hspec
  -- The source does not fail, so nothing but what is counted is written.
  obtain ⟨rfl, hfull⟩ : e = 0 ∧ (tot < n → DiskFull sb s'.data) := by
    cases hres.stopped with
    | all h1 h2 => exact ⟨h2, fun hlt => absurd h1 hlt.ne⟩
    | full h1 h2 hfull _ => exact ⟨h2, fun _ => hfull⟩
    | fault h1 h2 h3 =>
      have h4 : turn off n tot ≤ n - tot := Nat.min_le_left ..
      rw [hsrc tot _ (by omega)] at h2
      omega
  have hw := hres.written
  have hcontent := hw.content_overwrite (by simp) hle
  have hip' : ip' = inode sb s'.data i := hw.eq_inode
  have hnoHoles := hw.noHoles
  rw [hip'] at hrun hcontent hnoHoles
  refine ⟨tot, s', hrun, hres.le, hfull, fun copyout off' n' hok hlt => ?_, fun k hk ha => ?_⟩
  · rw [readi_content hok hlt hnoHoles, hcontent]
    rfl
  · have hsame := hw.others k hk
    refine ⟨hsame.inode_eq ha.2.1, ?_⟩
    rw [content, content, hsame.byte_eq ha, hsame.inode_eq ha.2.1]

theorem writei_readi_two : ∃ tot s',
    (writei smallSb (inode smallSb (smallDisk T_FILE [1, 2, 3]) 1) (.kernel (Mem.ofList [7, 8])) 2
      2).run (buffers (smallDisk T_FILE [1, 2, 3])) =
        .ok ((some tot, inode smallSb s'.data 1), s') ∧ tot ≤ 2 := by
  have htype : 0 < T_FILE ∧ T_FILE < 2 ^ 16 := by decide
  have hlen : [(1 : UInt8), 2, 3].length ≤ BSIZE := by decide
  have hsize : (inode smallSb (smallDisk T_FILE [1, 2, 3]) 1).size = 3 :=
    congrArg Dinode.size (dinode_smallDisk htype hlen)
  obtain ⟨tot, s', hrun, hle, -⟩ := (writei_readi (buffers (smallDisk T_FILE [1, 2, 3]))
    (.kernel (Mem.ofList [7, 8])) 1 2 2 (smallDisk_accounted htype hlen)
    (smallDisk_allocated htype hlen) (smallDisk_noHoles htype hlen) (by decide) (by decide)
    fun _ _ _ => rfl).1 (hsize ▸ by decide) (by decide)
  exact ⟨tot, s', hrun, hle⟩

end Xv6.Blocks
