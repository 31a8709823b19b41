import Xv6.Blocks.MkfsImage

/-!
# What `mkfs` leaves

The size of the root directory is rounded up to blocks at the end, and the map of the blocks in use
is written. If the entries fill their last block, the size is rounded up to a block that is not
there.
-/

namespace Xv6.Blocks.Mkfs

open Function Lib

variable {s s' : St} {E : Abort → Prop} {cs : List (Nat × List UInt8)} {i k t : Nat}
  {root bs : List UInt8} {files : List HostFile} {b n j : Nat} {used : Set Nat} {disk disk' : Disk}
  {x : Slot} {name : List UInt8}

/-! ### The map of the blocks -/

lemma byteBit_bits (n b : Nat) : byteBit (bits n (b / 8)) b = decide (b < n) := by
  induction n with
  | zero => simp [bits, byteBit]
  | succ n ih =>
    rw [bits]
    by_cases hbyte : b / 8 = n / 8
    · rw [hbyte, update_self, byteBit_or_mask, ← hbyte, ih]
      have hiff : n % 8 = b % 8 ↔ b = n := by omega
      rw [decide_eq_decide.mpr hiff, ← Bool.decide_or, decide_eq_decide]
      omega
    · rw [update_of_ne hbyte, ih, decide_eq_decide]
      omega

/-! ### The image -/

lemma disk_put_self (sec : Nat) (buf : Mem) : (put s sec buf).disk sec = buf := by
  simp [put]

lemma disk_put_of_ne {sec : Nat} {buf : Mem} (hb : b ≠ sec) :
    (put s sec buf).disk b = s.disk b := by
  simp [put, hb]

/-- The image at the end, with the entries of the root directory and the other files. -/
structure Final (s : St) (root : List UInt8) (cs : List (Nat × List UInt8)) : Prop where
  booked : Booked sb (taken s) s.disk
  super : s.disk 1 = superBlock
  freeblock : s.freeblock = nmeta + total ((T_DIR, root) :: cs)
  root_type : (dinode sb s.disk 1).type = T_DIR
  root_size : (dinode sb s.disk 1).size = (root.length / BSIZE + 1) * BSIZE
  root_holds : Holds s.disk (dinode sb s.disk 1) root
  files : ∀ k t bs, cs[k]? = some (t, bs) → IsFile s.disk (k + 2) t bs
  free : ∀ k, cs.length + 1 < k → k < sb.ninodes → (dinode sb s.disk k).type = 0
  bits : ∀ b < BPB, bit sb s.disk b = decide (b < s.freeblock)

/-- What touches neither inodes nor the blocks of files leaves the files alone. -/
lemma sameFile_of_booked (h : Booked sb used disk) (hlow : ∀ b < sb.bmapstart, disk' b = disk b)
    (hsame : ∀ b ∈ used, disk' b = disk b) (k : Nat) : SameFile sb disk disk' k :=
  (h.held (i := k + 1)).sameFile sb_ok hlow (fun b hb _ => hsame b hb) (Nat.lt_succ_self k).ne

lemma booked_congr (h : Booked sb used disk) (hlow : ∀ b < sb.bmapstart, disk' b = disk b)
    (hsame : ∀ b ∈ used, disk' b = disk b) : Booked sb used disk' := by
  have hrow := (sameFile_of_booked h hlow hsame 0).row_eq
  have hheld := (h.held (i := 0)).congr sb_ok hlow fun b hb _ => hsame b hb
  rw [← hrow] at hheld
  exact hheld.booked

/-- The inode of the root directory with its size rounded up. -/
def rounded (s : St) : Dinode :=
  { dinode sb s.disk 1 with size := ((dinode sb s.disk 1).size / BSIZE + 1) * BSIZE }

/-- The disk at the end. -/
def finish (s : St) : St :=
  put { s with disk := putDinode sb s.disk 1 (rounded s) } sb.bmapstart (bits s.freeblock)

lemma bit_finish (hb : b < BPB) : bit sb (finish s).disk b = decide (b < s.freeblock) := by
  have hblock : sb.BBLOCK b = sb.bmapstart := by
    rw [Superblock.BBLOCK, Nat.div_eq_of_lt hb, Nat.zero_add]
  unfold bit
  rw [hblock, Nat.mod_eq_of_lt hb, finish, disk_put_self]
  exact byteBit_bits ..

lemma Image.finish (h : Image s ((T_DIR, root) :: cs)) (hroot : root.length < 12 * BSIZE) :
    Final (finish s) root cs := by
  have hfile := h.files 0 T_DIR root rfl
  have hheld := h.booked.held_slot hfile.allocated
  have hsize : (rounded s).size = (root.length / BSIZE + 1) * BSIZE := by
    simp only [rounded]
    rw [hfile.size]
  have hfits : (rounded s).Fits := by
    have hd : (dinode sb s.disk 1).Fits := Dinode.load_fits ..
    refine ⟨hd.type, hd.major, hd.minor, hd.nlink, ?_, hd.addrs⟩
    rw [hsize]
    simp only [BSIZE] at hroot ⊢
    omega
  -- First the inode is written, then the map.
  set disk1 := putDinode sb s.disk 1 (rounded s) with hdisk1
  have hput : dinode sb disk1 1 = rounded s := dinode_putDinode hfits
  have hbooked1 : Booked sb (taken s) disk1 := by
    refine hheld.putDinode sb_ok hfile.range hfits ?_
    rw [if_pos (show (rounded s).type ≠ 0 from hfile.allocated.2.2)]
    exact slot_eq_of_addrs rfl
  have hholds1 : Holds disk1 (rounded s) root :=
    hfile.holds.putDinode hheld hfile.range.2 rfl hfile.le
  have hother : ∀ b, b ≠ sb.bmapstart → (Mkfs.finish s).disk b = disk1 b := fun b hb =>
    disk_put_of_ne hb
  have hlow : ∀ b < sb.bmapstart, (Mkfs.finish s).disk b = disk1 b := fun b hb => hother b hb.ne
  have hblocks : ∀ b ∈ taken s, (Mkfs.finish s).disk b = disk1 b := by
    intro b hb
    refine hother b (Nat.ne_of_gt ?_)
    rw [sb_bmapstart]
    exact hb.1
  have hsame := sameFile_of_booked hbooked1 hlow hblocks
  have hdinode1 : dinode sb (Mkfs.finish s).disk 1 = rounded s :=
    ((hsame 1).inode_eq hfile.range.2).trans hput
  refine ⟨booked_congr hbooked1 hlow hblocks, ?_, h.freeblock, ?_, ?_, ?_, fun k t bs hk => ?_,
    fun k hk hlt => ?_, fun b hb => bit_finish hb⟩
  · rw [hlow 1 (by rw [sb_bmapstart]; decide), ← h.super]
    have h32 : 32 ≤ sb.IBLOCK 1 := (iblock_bounds hfile.range.2).1
    exact putDinode_apply_of_ne (by omega)
  · rw [hdinode1]
    exact hfile.type
  · rw [hdinode1, hsize]
  · refine Holds.of_sameFile (i := 1) ?_ (hsame 1) ?_
    · rw [hput]
      exact hholds1
    · exact ⟨hfile.range.1, hfile.range.2, by rw [hput]; exact hfile.allocated.2.2⟩
  · refine ((h.files (k + 1) t bs hk).of_sameFile ?_).of_sameFile (hsame _)
    exact hheld.sameFile_putDinode sb_ok hfile.range.2 (by omega)
  · rw [(hsame k).inode_eq hlt, dinode_putDinode_of_ne (by omega)]
    exact h.free k hk hlt

/-- The last lines of `main`. -/
lemma finish_spec (h : Image s ((T_DIR, root) :: cs)) (hroot : root.length < 12 * BSIZE)
    (hroom : s.freeblock ≤ FSSIZE) :
    wp (do
      fixSize 1
      let s ← get
      balloc s.freeblock) E (fun _ s' => Final s' root cs) s := by
  have hfile := h.files 0 T_DIR root rfl
  have hsize : (dinode sb s.disk 1).size = root.length := hfile.size
  have h1 : xint (dinode sb s.disk 1).size = (dinode sb s.disk 1).size :=
    xint_eq (Nat.lt_of_le_of_lt (hsize ▸ hfile.le) (by decide))
  have h2 : xint (((dinode sb s.disk 1).size / BSIZE + 1) * BSIZE) =
      ((dinode sb s.disk 1).size / BSIZE + 1) * BSIZE := by
    refine xint_eq ?_
    rw [hsize]
    simp only [BSIZE] at hroot ⊢
    omega
  unfold fixSize
  simp only [wp_bind]
  refine wp_rinode hfile.range.2 (wp_winode hfile.range.2 ?_)
  simp only [wp_get, Mkfs.balloc, wp_ite, wp_throw, wp_wsect, h1, h2]
  refine ⟨fun hge => ?_, fun _ => h.finish hroot⟩
  exact absurd (Nat.le_trans hge hroom) (by decide)

/-! ### `main` -/

lemma image_zeroed : Image (put zeroed 1 superBlock) [] := by
  have hzero : ∀ b, b ≠ 1 → (put zeroed 1 superBlock).disk b = fun _ => 0 := fun b hb =>
    disk_put_of_ne hb
  have hfree : ∀ k < sb.ninodes, (dinode sb (put zeroed 1 superBlock).disk k).type = 0 := by
    intro k hk
    have h32 := (iblock_bounds hk).1
    unfold dinode
    rw [hzero _ (by omega)]
    exact Mem.leNat_eq_zero fun _ _ _ => rfl
  have hnone : ∀ k, ¬Allocated sb (put zeroed 1 superBlock).disk k :=
    fun k hk => hk.2.2 (hfree k hk.2.1)
  have htaken : taken (put zeroed 1 superBlock) = ∅ := Set.Ico_self _
  refine ⟨?_, fun b hb => ?_, disk_put_self .., rfl, rfl, by simp, fun k _ hk => hfree k hk⟩
  · have hheld := Held.empty hnone 0
    rw [← row_of_not_allocated (hnone 0)] at hheld
    rw [htaken]
    exact hheld.booked
  · have hb' : 46 ≤ b := hb
    exact hzero b (by omega)

/-- The entries of the root directory. -/
def rootEntries (files : List HostFile) : List UInt8 :=
  dirent 1 [dot] ++ dirent 1 [dot, dot] ++ fileEntries 2 files

lemma length_rootEntries (files : List HostFile) :
    (rootEntries files).length = DIRENT * (files.length + 2) := by
  rw [rootEntries, List.length_append, List.length_append, length_dirent, length_dirent,
    length_fileEntries]
  ring

/-- The files in the image, without the root directory. -/
def imageFiles (files : List HostFile) : List (Nat × List UInt8) :=
  files.map fun f => (T_FILE, f.content)

/-- The files that there is room for. -/
structure Fit (files : List HostFile) : Prop where
  number : files.length < NINODES - 1
  content : ∀ f ∈ files, f.content.length ≤ MAXFILE * BSIZE
  room : nmeta + total ((T_DIR, rootEntries files) :: imageFiles files) ≤ FSSIZE

lemma main_spec (h : Fit files) (hslash : ∀ f ∈ files, slash ∈ dropUser f.path → E .slash) :
    wp (main files) E (fun _ s' => Final s' (rootEntries files) (imageFiles files)) zeroed := by
  have hnumber : files.length < 199 := h.number
  have hroot : withFiles (dirent 1 [dot] ++ dirent 1 [dot, dot]) [] files =
      (T_DIR, rootEntries files) :: imageFiles files := rfl
  have hle : (rootEntries files).length < 12 * BSIZE := by
    rw [length_rootEntries]
    simp only [DIRENT, BSIZE]
    omega
  unfold main
  simp only [wp_bind, wp_wsect]
  refine wp_imp (ialloc_spec image_zeroed (by rw [sb_ninodes]; decide) (by decide)) ?_
  rintro rootino s1 ⟨rfl, h1⟩
  rw [if_neg (by decide), wp_bind]
  refine wp_imp (iappend_spec h1 (k := 0) rfl ?_ ?_) fun _ s2 h2 => ?_
  · rw [length_dirent]
    decide
  · rw [length_dirent, h1.freeblock]
    decide
  have h2 : Image s2 [(T_DIR, dirent 1 [dot])] := h2
  rw [wp_bind]
  refine wp_imp (iappend_spec h2 (k := 0) rfl ?_ ?_) fun _ s3 h3 => ?_
  · rw [length_dirent, length_dirent]
    decide
  · rw [h2.freeblock, total_cons]
    simp only [length_dirent]
    decide
  rw [wp_bind]
  refine wp_imp (addFiles_spec files (l := []) h3 hslash h.content ?_ ?_ (hroot ▸ h.room))
    fun _ s4 h4 => ?_
  · rw [sb_ninodes, List.length_nil]
    omega
  · rw [List.length_append, length_dirent, length_dirent]
    simp only [DIRENT, MAXFILE, NDIRECT, NINDIRECT, BSIZE]
    omega
  have h4 : Image s4 ((T_DIR, rootEntries files) :: imageFiles files) := h4
  exact finish_spec h4 hle (h4.freeblock ▸ h.room)

lemma mkfs_spec (h : Fit files) (hok : mkfs files = .ok s) :
    Final s (rootEntries files) (imageFiles files) := by
  have hwp := main_spec (E := fun _ => True) h fun _ _ _ => trivial
  unfold mkfs at hok
  match hrun : (main files).run zeroed with
  | .ok (_, s') =>
    rw [hrun] at hok
    obtain rfl : s' = s := by simpa [Except.map] using hok
    exact (wp_of_run hrun).mp hwp
  | .error e =>
    rw [hrun] at hok
    simp [Except.map] at hok

/-- The files are accepted if no name has a slash left. -/
lemma mkfs_accepts (h : Fit files) (hslash : ∀ f ∈ files, slash ∉ dropUser f.path) :
    ∃ s, mkfs files = .ok s := by
  obtain ⟨_, s, hrun, _⟩ := wp_run (main_spec h fun f hf hs => hslash f hf hs)
  exact ⟨s, by rw [mkfs, hrun]; rfl⟩

/-! ### The kernel's invariants -/

/-- The super block as the kernel reads it. -/
def kernelSb (s : St) : Superblock := .load (s.disk 1)

/-- An image as the kernel expects it. -/
structure KernelReady (s : St) : Prop where
  backed : ∀ i, Allocated sb s.disk i → ∀ bn < nblk (dinode sb s.disk i).size,
    bn < MAXFILE ∧ slot s.disk (dinode sb s.disk i) (fileSlot bn) ≠ 0
  distinct : ∀ i j x y, Allocated sb s.disk i → Allocated sb s.disk j →
    slot s.disk (dinode sb s.disk i) x ≠ 0 →
    slot s.disk (dinode sb s.disk i) x = slot s.disk (dinode sb s.disk j) y → i = j ∧ x = y
  range : ∀ i x, Allocated sb s.disk i → slot s.disk (dinode sb s.disk i) x ≠ 0 →
    nmeta ≤ slot s.disk (dinode sb s.disk i) x ∧ slot s.disk (dinode sb s.disk i) x < FSSIZE
  bitmap : ∀ b < nbitmap * BPB, bit sb s.disk b = true ↔ b < s.freeblock
  reads : ∀ (b : Buffers) (i off n : Nat) (copyout : Nat → List UInt8 → Bool), b.data = s.disk →
    Allocated sb s.disk i → off < (dinode sb s.disk i).size → n < 2 ^ 32 →
    ∃ r, (readi (kernelSb s) (inode sb s.disk i) copyout off n).run b =
      .ok ((r, inode sb s.disk i), b)

lemma nblk_rounded (n : Nat) : nblk ((n / BSIZE + 1) * BSIZE) = n / BSIZE + 1 := by
  simp only [nblk, BSIZE]
  omega

lemma lt_nblk_iff : n / BSIZE < nblk n ↔ n % BSIZE ≠ 0 := by
  simp only [nblk, BSIZE]
  omega

lemma noHoles_of_backed {d : Dinode} (hle : d.size ≤ MAXFILE * BSIZE)
    (h : ∀ bn < nblk d.size, bn < MAXFILE ∧ slot disk d (fileSlot bn) ≠ 0) : NoHoles disk d :=
  ⟨hle, fun x hx => h (x / BSIZE) (div_lt_nblk hx)⟩

lemma IsFile.backed (h : IsFile disk i t bs) : ∀ bn < nblk (dinode sb disk i).size,
      bn < MAXFILE ∧ slot disk (dinode sb disk i) (fileSlot bn) ≠ 0 := by
  intro bn hbn
  rw [h.size] at hbn
  have hle := h.le
  have hmax : bn < MAXFILE := by
    simp only [nblk, BSIZE] at hbn hle
    omega
  exact ⟨hmax, (h.holds.exact.blocks bn hmax).mpr hbn⟩

lemma IsFile.content_eq (h : IsFile disk i t bs) : content disk (dinode sb disk i) = bs := by
  rw [content, h.size]
  refine (Mem.read_congr fun x hx => ?_).trans (Mem.read_ofList bs)
  rw [Nat.zero_add]
  exact h.holds.bytes x hx

namespace Final

variable (h : Final s root cs)
include h

lemma allocated_cases (hi : Allocated sb s.disk i) :
    i = 1 ∨ ∃ k t bs, i = k + 2 ∧ cs[k]? = some (t, bs) := by
  by_contra hnot
  rw [not_or] at hnot
  refine hi.2.2 (h.free i ?_ hi.2.1)
  by_contra hle
  have h1 := hi.1
  have hlt : i - 2 < cs.length := by omega
  refine hnot.2 ⟨i - 2, (cs[i - 2]).1, (cs[i - 2]).2, by omega, ?_⟩
  rw [List.getElem?_eq_getElem hlt]

lemma root_allocated : Allocated sb s.disk 1 :=
  ⟨Nat.one_pos, by rw [sb_ninodes]; decide, by rw [h.root_type]; decide⟩

/-- The root directory has a block for its entries, but not always for its size. -/
lemma root_backed_iff (hroot : root.length < 12 * BSIZE) :
    (∀ bn < nblk (dinode sb s.disk 1).size,
      bn < MAXFILE ∧ slot s.disk (dinode sb s.disk 1) (fileSlot bn) ≠ 0) ↔
      root.length % BSIZE ≠ 0 := by
  have hmax : root.length / BSIZE < MAXFILE :=
    div_lt_maxfile (Nat.lt_trans hroot (by decide))
  rw [h.root_size, nblk_rounded, ← lt_nblk_iff, ← h.root_holds.exact.blocks _ hmax]
  refine ⟨fun hall => (hall _ (Nat.lt_succ_self _)).2, fun hlast bn hbn => ?_⟩
  have hbn' : bn < MAXFILE := by omega
  have hlt := (h.root_holds.exact.blocks _ hmax).mp hlast
  exact ⟨hbn', (h.root_holds.exact.blocks bn hbn').mpr (by omega)⟩

lemma le_maxfile (hroot : root.length < 12 * BSIZE) (hi : Allocated sb s.disk i) :
    (dinode sb s.disk i).size ≤ MAXFILE * BSIZE := by
  obtain rfl | ⟨k, t, bs, rfl, hk⟩ := h.allocated_cases hi
  · rw [h.root_size]
    simp only [BSIZE, MAXFILE, NDIRECT, NINDIRECT] at hroot ⊢
    omega
  · have hf := h.files k t bs hk
    rw [hf.size]
    exact hf.le

lemma distinct {y : Slot} (hi : Allocated sb s.disk i) (hj : Allocated sb s.disk j)
    (h0 : slot s.disk (dinode sb s.disk i) x ≠ 0)
    (heq : slot s.disk (dinode sb s.disk i) x = slot s.disk (dinode sb s.disk j) y) :
    i = j ∧ x = y := by
  rw [← row_of_allocated hi, ← row_of_allocated hj] at heq
  rw [← row_of_allocated hi] at h0
  have h1 := h.booked.accounts.unique (i := (i, x)) (j := (j, y)) h0 heq
  exact Prod.ext_iff.mp h1

lemma mem_taken (hi : Allocated sb s.disk i) (h0 : slot s.disk (dinode sb s.disk i) x ≠ 0) :
    slot s.disk (dinode sb s.disk i) x ∈ taken s :=
  (h.booked.held_slot hi).mem h0

end Final

/-- The kernel reads the super block that was written. -/
lemma load_superBlock : Superblock.load superBlock = sb := rfl

lemma Final.kernelSb_eq (h : Final s root cs) : kernelSb s = sb := by
  rw [kernelSb, h.super, load_superBlock]

lemma Final.kernelReady_iff (h : Final s root cs) (hroot : root.length < 12 * BSIZE)
    (hroom : s.freeblock ≤ FSSIZE) : KernelReady s ↔ root.length % BSIZE ≠ 0 := by
  refine ⟨fun hr => (h.root_backed_iff hroot).mp (hr.backed 1 h.root_allocated), fun hne => ?_⟩
  have hbacked : ∀ i, Allocated sb s.disk i → ∀ bn < nblk (dinode sb s.disk i).size,
      bn < MAXFILE ∧ slot s.disk (dinode sb s.disk i) (fileSlot bn) ≠ 0 := by
    intro i hi
    obtain rfl | ⟨k, t, bs, rfl, hk⟩ := h.allocated_cases hi
    · exact (h.root_backed_iff hroot).mpr hne
    · exact (h.files k t bs hk).backed
  refine ⟨hbacked, fun i j x y hi hj h0 heq => h.distinct hi hj h0 heq, fun i x hi h0 => ?_,
    fun b hb => ?_, fun b i off n copyout hb hi _ hn => ?_⟩
  · have hmem := h.mem_taken hi h0
    exact ⟨hmem.1, Nat.lt_of_lt_of_le hmem.2 hroom⟩
  · rw [h.bits b hb, decide_eq_true_iff]
  · have hno : NoHoles s.disk (inode sb s.disk i).toDinode :=
      noHoles_of_backed (h.le_maxfile hroot hi) (hbacked i hi)
    rw [← hb] at hno ⊢
    obtain ⟨⟨r, ip⟩, b', hrun, rfl, rfl⟩ := wp_run (readi_same hno hn)
    exact ⟨r, hrun⟩

lemma Fit.root_lt (h : Fit files) : (rootEntries files).length < 12 * BSIZE := by
  have hnumber : files.length < 199 := h.number
  rw [length_rootEntries]
  simp only [DIRENT, BSIZE]
  omega

lemma mod_rootEntries (files : List HostFile) :
    (rootEntries files).length % BSIZE ≠ 0 ↔ (files.length + 2) % (BSIZE / DIRENT) ≠ 0 := by
  rw [length_rootEntries]
  simp only [DIRENT, BSIZE]
  omega

/-- The image is as the kernel expects it unless the entries fill the last block of the root
directory. -/
theorem mkfs_kernelReady_iff (files : List HostFile) (s : St) (h : Fit files)
    (hok : mkfs files = .ok s) :
    KernelReady s ↔ (files.length + 2) % (BSIZE / DIRENT) ≠ 0 := by
  have hfinal := mkfs_spec h hok
  rw [← mod_rootEntries]
  exact hfinal.kernelReady_iff h.root_lt (hfinal.freeblock ▸ h.room)

/-- An empty file. -/
def emptyFile : HostFile := ⟨[97], [], by decide, by simp, by simp⟩

lemma fit_empty (hn : n ≤ 62) : Fit (List.replicate n emptyFile) where
  number := by
    rw [List.length_replicate]
    exact Nat.lt_of_le_of_lt hn (by decide)
  content f hf := by
    rw [List.eq_of_mem_replicate hf]
    exact Nat.zero_le _
  room := by
    have hfiles : total (imageFiles (List.replicate n emptyFile)) = 0 := by
      simp [total, imageFiles, emptyFile, HostFile.content, cost, nblk, BSIZE]
    rw [total_cons, hfiles, length_rootEntries, List.length_replicate]
    have hmono := cost_mono (nblk_mono (Nat.mul_le_mul_left DIRENT (by omega : n + 2 ≤ 64)))
    exact Nat.le_trans (Nat.add_le_add_left hmono nmeta) (by decide)

lemma slash_notMem_empty : ∀ f ∈ List.replicate n emptyFile, slash ∉ dropUser f.path := by
  intro f hf
  rw [List.eq_of_mem_replicate hf]
  decide

theorem mkfs_kernelReady_iff_one : ∃ s, mkfs (List.replicate 1 emptyFile) = .ok s ∧
    KernelReady s := by
  have hfit := fit_empty (n := 1) (by decide)
  obtain ⟨s, hs⟩ := mkfs_accepts hfit slash_notMem_empty
  exact ⟨s, hs, (mkfs_kernelReady_iff _ s hfit hs).mpr (by decide)⟩

/-- With 62 files the root directory has two blocks by its size, and one. -/
theorem mkfs_not_kernelReady : ∃ s, mkfs (List.replicate 62 emptyFile) = .ok s ∧
    (dinode sb s.disk 1).size = 2 * BSIZE ∧
    slot s.disk (dinode sb s.disk 1) (fileSlot 1) = 0 ∧ ¬KernelReady s := by
  have hfit := fit_empty (n := 62) (by decide)
  obtain ⟨s, hs⟩ := mkfs_accepts hfit slash_notMem_empty
  have hfinal := mkfs_spec hfit hs
  have hlen : (rootEntries (List.replicate 62 emptyFile)).length = BSIZE := by
    rw [length_rootEntries, List.length_replicate]
    rfl
  refine ⟨s, hs, ?_, ?_, fun hr => ?_⟩
  · rw [hfinal.root_size, hlen]
    rfl
  · have hblocks := hfinal.root_holds.exact.blocks 1 (by decide)
    rw [hlen] at hblocks
    by_contra h0
    exact absurd (hblocks.mp h0) (by decide)
  · have hne := (hfinal.kernelReady_iff hfit.root_lt (hfinal.freeblock ▸ hfit.room)).mp hr
    rw [hlen] at hne
    exact hne (Nat.mod_self _)

/-! ### Reading the files back -/

/-- The entries of the root directory: inode numbers and names. -/
def rootSlots (files : List HostFile) : List (Nat × List UInt8) :=
  (1, [dot]) :: (1, [dot, dot]) :: (files.zipIdx 2).map fun p => (p.2, p.1.storedName)

lemma fileEntries_eq (fs : List HostFile) : ∀ n, fileEntries n fs =
    ((fs.zipIdx n).map fun p => (p.2, p.1.storedName)).flatMap fun e => dirent e.1 e.2 := by
  induction fs with
  | nil => intro n; rfl
  | cons f fs ih =>
    intro n
    rw [fileEntries, ih, List.zipIdx_cons, List.map_cons, List.flatMap_cons]

lemma rootEntries_eq (files : List HostFile) :
    rootEntries files = (rootSlots files).flatMap fun e => dirent e.1 e.2 := by
  rw [rootEntries, fileEntries_eq, rootSlots, List.flatMap_cons, List.flatMap_cons,
    List.append_assoc]

/-- An entry of 16 bytes in a sequence of them. -/
lemma load_flatMap_dirent {l : List (Nat × List UInt8)} :
    ∀ {j : Nat}, l[j]? = some (n, name) → n < 2 ^ 16 →
      Dirent.load (Mem.ofList (l.flatMap fun e => dirent e.1 e.2)) (DIRENT * j) =
        .mkName n (Mem.ofList name) := by
  induction l with
  | nil => intro j h; simp at h
  | cons e l ih =>
    intro j h hn
    have hlen : (dirent e.1 e.2).length = DIRENT := length_dirent ..
    rw [List.flatMap_cons]
    cases j with
    | zero =>
      obtain rfl : e = (n, name) := by simpa using h
      have hload : Dirent.load (Mem.ofList (Dirent.mkName n (Mem.ofList name)).bytes) 0 =
          .mkName n (Mem.ofList name) := Dirent.load_ofList_bytes hn (Dirent.length_mkName ..)
      rw [← hload]
      refine Dirent.load_congr fun i hi => ?_
      rw [Nat.mul_zero, Nat.zero_add, dirent, xshort_eq hn]
      refine List.getD_append _ _ _ _ ?_
      rw [Dirent.length_bytes (Dirent.length_mkName ..)]
      exact hi
    | succ j =>
      rw [← ih (j := j) (by simpa using h) hn]
      refine Dirent.load_congr fun i _ => ?_
      have hidx : DIRENT * (j + 1) + i = DIRENT + (DIRENT * j + i) := by ring
      refine (List.getD_append_right _ _ _ _ (by omega)).trans ?_
      rw [hlen, hidx, Nat.add_sub_cancel_left]
      rfl

/-- The name that the kernel finds a file under. -/
def HostFile.key (f : HostFile) : List UInt8 := f.storedName.take DIRSIZ

lemma storedName_ne_zero (f : HostFile) : 0 ∉ f.storedName := by
  have huser : ∀ x ∈ dropUser f.path, x ∈ f.path := by
    intro x hx
    unfold dropUser at hx
    split_ifs at hx
    · exact List.mem_of_mem_drop hx
    · exact hx
  intro h0
  unfold HostFile.storedName dropUnderscore at h0
  split_ifs at h0
  · exact f.path_ne_zero (huser 0 (List.mem_of_mem_tail h0))
  · exact f.path_ne_zero (huser 0 h0)

/-- A name without zeros ends where it ends, or after `n` bytes. -/
lemma cstring_ofList (n : Nat) : ∀ {name : List UInt8}, 0 ∉ name →
    cstring (Mem.ofList name) n = name.take n := by
  induction n with
  | zero => intro name _; rfl
  | succ n ih =>
    intro name h
    unfold cstring
    rw [Mem.read_succ]
    cases name with
    | nil => rfl
    | cons a name =>
      rw [List.mem_cons, not_or] at h
      have hread : (Mem.ofList (a :: name)).read (0 + 1) n = (Mem.ofList name).read 0 n :=
        Mem.read_congr fun i _ => by simp [Mem.ofList, Nat.add_comm 1 i]
      rw [hread, List.take_succ_cons, ← ih h.2]
      exact List.takeWhile_cons_of_pos (by simpa [Mem.ofList] using Ne.symm h.1)

lemma length_rootSlots (files : List HostFile) : (rootSlots files).length = files.length + 2 := by
  simp [rootSlots]

lemma rootSlots_getElem {f : HostFile} (hi : files[i]? = some f) :
    (rootSlots files)[i + 2]? = some (i + 2, f.storedName) := by
  simp [rootSlots, hi, Nat.add_comm]

/-- The entries have numbers of inodes, and names without zeros. -/
lemma rootSlots_bounds (hj : (rootSlots files)[j]? = some (n, name)) :
    0 < n ∧ n ≤ files.length + 1 ∧ 0 ∉ name := by
  match j with
  | 0 =>
    obtain ⟨rfl, rfl⟩ : 1 = n ∧ [dot] = name := by simpa [rootSlots] using hj
    exact ⟨Nat.one_pos, Nat.le_add_left .., by decide⟩
  | 1 =>
    obtain ⟨rfl, rfl⟩ : 1 = n ∧ [dot, dot] = name := by simpa [rootSlots] using hj
    exact ⟨Nat.one_pos, Nat.le_add_left .., by decide⟩
  | j + 2 =>
    have hlt := (List.getElem?_eq_some_iff.mp hj).1
    rw [length_rootSlots] at hlt
    have hf : files[j]? = some files[j] := List.getElem?_eq_getElem (by omega)
    rw [rootSlots_getElem hf, Option.some.injEq, Prod.mk.injEq] at hj
    obtain ⟨rfl, rfl⟩ := hj
    exact ⟨by omega, by omega, storedName_ne_zero _⟩

/-- The names of the entries. -/
def rootKeys (files : List HostFile) : List (List UInt8) :=
  [dot] :: [dot, dot] :: files.map HostFile.key

lemma rootKeys_eq (files : List HostFile) :
    rootKeys files = (rootSlots files).map fun e => e.2.take DIRSIZ := by
  have hfst : (files.zipIdx 2).map Prod.fst = files := List.zipIdx_map_fst ..
  rw [rootKeys, rootSlots, List.map_cons, List.map_cons, List.map_map]
  congr 2
  conv_lhs => rw [← hfst]
  rw [List.map_map]
  rfl

section Lookup

variable (h : Final s (rootEntries files) cs) (hfit : Fit files)
include h hfit

lemma Final.entry_eq (hj : (rootSlots files)[j]? = some (n, name)) :
    dirSlots s.disk (dinode sb s.disk 1) j = some (name.take DIRSIZ, n) := by
  have hnumber : files.length < 199 := hfit.number
  obtain ⟨hpos, hle, hname⟩ := rootSlots_bounds hj
  have hlt : j < files.length + 2 := by
    rw [← length_rootSlots]
    exact (List.getElem?_eq_some_iff.mp hj).1
  have hentry : entry s.disk (dinode sb s.disk 1) j = .mkName n (Mem.ofList name) := by
    rw [← load_flatMap_dirent hj (by omega), ← rootEntries_eq]
    refine Dirent.load_congr fun i hi => h.root_holds.bytes _ ?_
    rw [length_rootEntries]
    simp only [DIRENT] at hi ⊢
    omega
  refine Dirent.slot_eq_some_iff.mpr ?_
  rw [hentry, Dirent.key_mkName, cstring_ofList _ hname]
  exact ⟨hpos.ne', rfl, rfl⟩

lemma Final.entryBacked (hj : j < files.length + 2) :
    EntryBacked s.disk (dinode sb s.disk 1) j := by
  intro x hx
  have hroot := hfit.root_lt
  have hlt : DIRENT * j + x < (rootEntries files).length := by
    rw [length_rootEntries]
    simp only [DIRENT] at hx ⊢
    omega
  exact h.root_holds.exact.backed (div_lt_nblk hlt)
    (div_lt_maxfile (Nat.lt_trans (Nat.lt_trans hlt hroot) (by decide)))

/-- The kernel finds the entry of a name that no other entry has. -/
lemma Final.dirlookup_run {b : Buffers} {query : Mem} (hb : b.data = s.disk)
    (hnodup : (rootKeys files).Nodup) (hj : (rootSlots files)[j]? = some (n, name))
    (hq : cstring query DIRSIZ = name.take DIRSIZ) :
    (dirlookup (kernelSb s) (inode sb s.disk 1) query).run b =
      .ok ((some (n, DIRENT * j), inode sb s.disk 1), b) := by
  have hlt : j < files.length + 2 := by
    rw [← length_rootSlots]
    exact (List.getElem?_eq_some_iff.mp hj).1
  have hsize : (inode sb s.disk 1).size = ((rootEntries files).length / BSIZE + 1) * BSIZE :=
    h.root_size
  have hroot := hfit.root_lt
  have hentries : files.length + 2 ≤ entries (dinode sb s.disk 1) := by
    rw [entries, h.root_size, length_rootEntries]
    simp only [DIRENT, BSIZE]
    omega
  have hslot := h.entry_eq hfit hj
  -- No entry before has the name.
  have hfirst : ∀ i < j, ∀ m, dirSlots s.disk (dinode sb s.disk 1) i ≠
      some (cstring query DIRSIZ, m) := by
    intro i hi m heq
    have hi' : i < (rootSlots files).length := by
      rw [length_rootSlots]
      omega
    rw [h.entry_eq hfit (List.getElem?_eq_getElem hi'), hq, Option.some.injEq, Prod.mk.injEq] at heq
    obtain ⟨hj', hname⟩ := List.getElem?_eq_some_iff.mp hj
    rw [rootKeys_eq] at hnodup
    have hinj := List.nodup_iff_injective_get.mp hnodup
    have hidx := @hinj ⟨i, by simpa using hi'⟩ ⟨j, by simpa using hj'⟩
    simp only [List.get_eq_getElem, List.getElem_map, hname, Fin.mk.injEq] at hidx
    exact hi.ne (hidx heq.1)
  have hwp : wp (dirlookup (kernelSb s) (inode sb s.disk 1) query) (fun _ => False)
      (fun r b' => r = (some (n, DIRENT * j), inode sb s.disk 1) ∧ b' = b) b := by
    have hfound : found s.disk (dinode sb s.disk 1) (cstring query DIRSIZ) =
        some (n, DIRENT * j) := by
      rw [← hq] at hslot
      rw [found, slotOf_of_first (by omega) hslot hfirst, Option.map_some,
        (Dirent.slot_eq_some_iff.mp hslot).2.2]
    have htype : ¬(inode sb s.disk 1).type ≠ T_DIR := not_not_intro h.root_type
    unfold dirlookup
    rw [if_neg htype]
    refine dirlookupFrom_spec (j := 0) ?_ ?_ (fun i hi hbefore => ?_) ⟨?_, rfl⟩ _ ?_
      (Nat.zero_le _) fun i hi => absurd hi (Nat.not_lt_zero i)
    · rw [hsize]
      simp only [BSIZE] at hroot ⊢
      omega
    · rw [hsize]
      exact Dvd.dvd.mul_left (by decide) _
    · rw [hb] at hbefore ⊢
      refine h.entryBacked hfit ?_
      by_contra hge
      exact hbefore j (by omega) n (hq ▸ hslot)
    · have hle : entries (inode sb s.disk 1).toDinode ≤ (inode sb s.disk 1).size :=
        Nat.div_le_self ..
      omega
    · rw [hb]
      exact congrArg (·, inode sb s.disk 1) hfound
  obtain ⟨_, _, hrun, rfl, rfl⟩ := wp_run hwp
  exact hrun

end Lookup

/-- The kernel finds every file, and reads what was in it. -/
theorem mkfs_readBack (files : List HostFile) (hfit : Fit files)
    (hslash : ∀ f ∈ files, slash ∉ dropUser f.path)
    (hdistinct : (files.map HostFile.key).Nodup)
    (hspecial : ∀ f ∈ files, f.key ≠ [] ∧ f.key ≠ [dot] ∧ f.key ≠ [dot, dot]) :
    ∃ s, mkfs files = .ok s ∧ ∀ (b : Buffers) (i : Nat) (f : HostFile), b.data = s.disk →
      files[i]? = some f →
      (∀ query : Mem, cstring query DIRSIZ = f.key →
        (dirlookup (kernelSb s) (inode (kernelSb s) s.disk ROOTINO) query).run b =
          .ok ((some (i + 2, DIRENT * (i + 2)), inode (kernelSb s) s.disk ROOTINO), b)) ∧
      (inode (kernelSb s) s.disk (i + 2)).size = f.content.length ∧
      (readi (kernelSb s) (inode (kernelSb s) s.disk (i + 2)) toKernel 0 f.content.length).run b =
        .ok ((some f.content, inode (kernelSb s) s.disk (i + 2)), b) := by
  obtain ⟨s, hs⟩ := mkfs_accepts hfit hslash
  have h := mkfs_spec hfit hs
  have hnodup : (rootKeys files).Nodup := by
    simp only [rootKeys, List.nodup_cons, List.mem_cons, List.mem_map, not_or]
    refine ⟨⟨by decide, ?_⟩, ?_, hdistinct⟩
    · rintro ⟨f, hf, hkey⟩
      exact (hspecial f hf).2.1 hkey
    · rintro ⟨f, hf, hkey⟩
      exact (hspecial f hf).2.2 hkey
  refine ⟨s, hs, fun b i f hb hi => ?_⟩
  rw [h.kernelSb_eq]
  have hfile : IsFile s.disk (i + 2) T_FILE f.content := h.files i T_FILE f.content (by
    simp [imageFiles, hi])
  have hdata : IsFile b.data (i + 2) T_FILE f.content := hb ▸ hfile
  refine ⟨fun query hq => ?_, hfile.size, ?_⟩
  · have hrun := h.dirlookup_run hfit hb hnodup (rootSlots_getElem hi) hq
    rw [h.kernelSb_eq] at hrun
    exact hrun
  · have hno : NoHoles b.data (inode sb b.data (i + 2)).toDinode :=
      noHoles_of_backed (hdata.size ▸ hdata.le) hdata.backed
    have hlt : 0 + f.content.length < 2 ^ 32 := by
      rw [Nat.zero_add]
      exact Nat.lt_of_le_of_lt hfile.le (by decide)
    have hcontent : content b.data (inode sb b.data (i + 2)).toDinode = f.content :=
      hdata.content_eq
    have hok : ∀ tot bs, toKernel tot bs = true := fun _ _ => rfl
    rw [← hb, readi_content hok hlt hno, hcontent, Nat.zero_add, List.take_length,
      List.drop_zero]

/-- A file `user/_a` of three bytes, in two reads. -/
def threeBytes : HostFile :=
  ⟨userDir ++ [underscore, 97], [[1, 2], [3]], by decide, by decide, by decide⟩

theorem mkfs_readBack_three : ∃ s, mkfs [threeBytes] = .ok s ∧
    (dirlookup (kernelSb s) (inode (kernelSb s) s.disk ROOTINO) (Mem.ofList [97])).run
      (buffers s.disk) = .ok ((some (2, DIRENT * 2), inode (kernelSb s) s.disk ROOTINO),
        buffers s.disk) ∧
    (readi (kernelSb s) (inode (kernelSb s) s.disk 2) toKernel 0 3).run (buffers s.disk) =
      .ok ((some [1, 2, 3], inode (kernelSb s) s.disk 2), buffers s.disk) := by
  have hfit : Fit [threeBytes] := by
    refine ⟨by decide, by decide, ?_⟩
    rw [total_cons, length_rootEntries]
    decide
  obtain ⟨s, hs, h⟩ := mkfs_readBack [threeBytes] hfit (by decide) (by decide) (by decide)
  obtain ⟨hlookup, -, hread⟩ := h (buffers s.disk) 0 threeBytes rfl rfl
  exact ⟨s, hs, hlookup (Mem.ofList [97]) rfl, hread⟩

end Xv6.Blocks.Mkfs
