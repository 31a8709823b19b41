import Xv6.Blocks.Entries
import Xv6.Blocks.MkfsAppend

/-!
# The image that `mkfs` builds

While it runs, `mkfs` has a list of files: inode `k + 1` holds the bytes of file `k`. Appending to
one of them leaves the others alone. At the end the size of the root directory is rounded up, and
the map of the blocks in use is written.
-/

namespace Xv6.Blocks.Mkfs

open Lib

variable {s s' : St} {E : Abort → Prop} {cs : List (Nat × List UInt8)} {i k t : Nat}
  {bs p : List UInt8} {disk disk' : Disk} {d : Dinode}

/-- Inode `i` is a file of type `t` that holds `bs`. -/
structure IsFile (disk : Disk) (i t : Nat) (bs : List UInt8) : Prop where
  range : 0 < i ∧ i < sb.ninodes
  type : (dinode sb disk i).type = t
  type_ne : t ≠ 0
  size : (dinode sb disk i).size = bs.length
  le : bs.length ≤ MAXFILE * BSIZE
  holds : Holds disk (dinode sb disk i) bs

lemma IsFile.allocated (h : IsFile disk i t bs) : Allocated sb disk i :=
  ⟨h.range.1, h.range.2, by rw [h.type]; exact h.type_ne⟩

lemma Holds.of_sameFile (h : Holds disk (dinode sb disk i) bs) (hsame : SameFile sb disk disk' i)
    (hi : Allocated sb disk i) : Holds disk' (dinode sb disk' i) bs := by
  refine ⟨?_, fun x hx => ?_⟩
  · rw [hsame.slot_eq hi]
    exact h.exact
  · rw [hsame.byte_eq hi]
    exact h.bytes x hx

lemma IsFile.of_sameFile (h : IsFile disk i t bs) (hsame : SameFile sb disk disk' i) :
    IsFile disk' i t bs := by
  have hd := hsame.inode_eq h.range.2
  exact ⟨h.range, by rw [hd, h.type], h.type_ne, by rw [hd, h.size], h.le,
    h.holds.of_sameFile hsame h.allocated⟩

/-- The blocks that the files take. -/
def total (cs : List (Nat × List UInt8)) : Nat := (cs.map fun f => cost (nblk f.2.length)).sum

lemma total_set {f g : Nat × List UInt8} : ∀ {cs : List (Nat × List UInt8)} {k : Nat},
    cs[k]? = some f →
    total (cs.set k g) + cost (nblk f.2.length) = total cs + cost (nblk g.2.length) := by
  intro cs
  induction cs with
  | nil => intro k h; simp at h
  | cons a cs ih =>
    intro k h
    cases k with
    | zero =>
      obtain rfl : a = f := by simpa using h
      simp only [total, List.set_cons_zero, List.map_cons, List.sum_cons]
      omega
    | succ k =>
      have := ih (by simpa using h)
      simp only [total, List.set_cons_succ, List.map_cons, List.sum_cons] at this ⊢
      omega

/-- The super block as it is on disk. -/
def superBlock : Mem := Mem.storeWords (fun _ => 0) 0 4 [sb.magic, sb.size, sb.nblocks, sb.ninodes,
  sb.nlog, sb.logstart, sb.inodestart, sb.bmapstart]

structure Image (s : St) (cs : List (Nat × List UInt8)) : Prop where
  booked : Booked sb (taken s) s.disk
  zero : ∀ b, s.freeblock ≤ b → s.disk b = fun _ => 0
  super : s.disk 1 = superBlock
  freeinode : s.freeinode = cs.length + 1
  freeblock : s.freeblock = nmeta + total cs
  files : ∀ k t bs, cs[k]? = some (t, bs) → IsFile s.disk (k + 1) t bs
  free : ∀ k, cs.length < k → k < sb.ninodes → (dinode sb s.disk k).type = 0

lemma Image.le (h : Image s cs) : nmeta ≤ s.freeblock := by
  rw [h.freeblock]
  exact Nat.le_add_right ..

lemma iblock_bounds (hi : i < sb.ninodes) : 32 ≤ sb.IBLOCK i ∧ sb.IBLOCK i < 45 := by
  have h1 := sb_ok.iblock_lt hi
  rw [sb_bmapstart] at h1
  refine ⟨?_, h1⟩
  rw [Superblock.IBLOCK, sb_inodestart]
  exact Nat.le_add_left ..

lemma wp_rinode {Q : Dinode → St → Prop} (hi : i < sb.ninodes) (hQ : Q (dinode sb s.disk i) s) :
    wp (rinode i) E Q s := by
  have h1 := (iblock_bounds hi).2
  unfold rinode
  rw [wp_bind]
  refine wp_rsect ?_ hQ
  exact Nat.lt_trans h1 (by decide)

lemma wp_winode {Q : Unit → St → Prop} (hi : i < sb.ninodes)
    (hQ : Q () { s with disk := putDinode sb s.disk i d }) : wp (winode i d) E Q s := by
  have h1 := (iblock_bounds hi).2
  unfold winode
  rw [wp_bind]
  refine wp_rsect ?_ hQ
  exact Nat.lt_trans h1 (by decide)

/-- An inode is written: the image is that of the new list of files. -/
lemma Image.put {cs' : List (Nat × List UInt8)} {r : Slot → Nat} (s1 : St) (h : Image s cs)
    (hheld : Held sb (taken s1) s1.disk i r) (hsame : ∀ k, k ≠ i → SameFile sb s.disk s1.disk k)
    (hlow : ∀ b < sb.bmapstart, s1.disk b = s.disk b)
    (hzero : ∀ b, s1.freeblock ≤ b → s1.disk b = fun _ => 0) (hi : 0 < i ∧ i < sb.ninodes)
    (hd : d.Fits) (hr : r = if d.type ≠ 0 then slot s1.disk d else fun _ => 0)
    (hfreeinode : s1.freeinode = cs'.length + 1) (hfreeblock : s1.freeblock = nmeta + total cs')
    (hold : ∀ k t bs, cs'[k]? = some (t, bs) → k + 1 ≠ i → cs[k]? = some (t, bs))
    (hnew : ∀ t bs, cs'[i - 1]? = some (t, bs) → IsFile (putDinode sb s1.disk i d) i t bs)
    (hlen : i ≤ cs'.length ∧ cs.length ≤ cs'.length) :
    Image { s1 with disk := putDinode sb s1.disk i d } cs' := by
  obtain ⟨h32, h45⟩ := iblock_bounds hi.2
  have hle : nmeta ≤ s1.freeblock := by
    rw [hfreeblock]
    exact Nat.le_add_right ..
  have hmeta : nmeta = 46 := rfl
  refine ⟨hheld.putDinode sb_ok hi hd hr, fun b hb => ?_, ?_, hfreeinode, hfreeblock, ?_, ?_⟩
  · have hb' : s1.freeblock ≤ b := hb
    have h1 : putDinode sb s1.disk i d b = s1.disk b := putDinode_apply_of_ne (by omega)
    exact h1.trans (hzero b hb')
  · have h1 : putDinode sb s1.disk i d 1 = s1.disk 1 := putDinode_apply_of_ne (by omega)
    exact (h1.trans (hlow 1 (by rw [sb_bmapstart]; decide))).trans h.super
  · intro k t bs hk
    by_cases hki : k + 1 = i
    · subst hki
      exact hnew t bs hk
    · exact ((h.files k t bs (hold k t bs hk hki)).of_sameFile (hsame _ hki)).of_sameFile
        (hheld.sameFile_putDinode sb_ok hi.2 hki)
  · intro k hk hlt
    have hki : k ≠ i := by
      rintro rfl
      omega
    rw [dinode_putDinode_of_ne hki, (hsame k hki).inode_eq hlt]
    exact h.free k (by omega) hlt

/-- The file is the same when its inode has been written back. -/
lemma Holds.putDinode {d' : Dinode} (h : Holds s.disk d bs)
    (hheld : Held sb (taken s) s.disk i (slot s.disk d)) (hi : i < sb.ninodes)
    (haddrs : d'.addrs = d.addrs) (hle : bs.length ≤ MAXFILE * BSIZE) :
    Holds (putDinode sb s.disk i d') d' bs := by
  have hslot : slot s.disk d' = slot s.disk d := slot_eq_of_addrs haddrs
  have hblocks : ∀ b ∈ taken s, Blocks.putDinode sb s.disk i d' b = s.disk b := by
    intro b hb
    have h1 := (iblock_bounds hi).2
    have h2 : 46 ≤ b := hb.1
    exact putDinode_apply_of_ne (by omega)
  obtain ⟨hslot', hown⟩ := Held.own_congr (hslot ▸ hheld) hblocks
  refine ⟨?_, fun x hx => ?_⟩
  · rw [hslot', hslot]
    exact h.exact
  · have hback := h.exact.backed (div_lt_nblk hx) (div_lt_maxfile (by omega))
    have hback' : Backed s.disk d' x := ⟨hback.1, by rw [hslot]; exact hback.2⟩
    rw [(hown x hback').2, ← h.bytes x hx]
    unfold byte
    rw [hslot]

/-- The file after an append, with its inode written back. -/
lemma Appended.isFile {s1 : St} {ip1 : Inode} {cur cur' : List UInt8} {n : Nat}
    (h : Appended s (inode sb s.disk i) cur s1 ip1 cur') (hf : IsFile s.disk i t cur)
    (hn : n = cur'.length) (hle : cur'.length ≤ MAXFILE * BSIZE)
    (hfree : s1.freeblock ≤ FSSIZE) :
    let d : Dinode := { ip1.toDinode with size := n }
    d.Fits ∧ d.type ≠ 0 ∧ IsFile (putDinode sb s1.disk i d) i t cur' := by
  intro d
  have hrest := h.evolves.rest
  have htype : ip1.type = t := by
    rw [hrest]
    exact hf.type
  have hfits : d.Fits := by
    have hd : (dinode sb s.disk i).Fits := Dinode.load_fits ..
    refine ⟨?_, ?_, ?_, ?_, ?_, fun j => ?_⟩
    · change ip1.type < _
      rw [hrest]
      exact hd.type
    · change ip1.major < _
      rw [hrest]
      exact hd.major
    · change ip1.minor < _
      rw [hrest]
      exact hd.minor
    · change ip1.nlink < _
      rw [hrest]
      exact hd.nlink
    · change n < _
      rw [hn]
      exact Nat.lt_of_le_of_lt hle (by decide)
    · have hlt := slot_lt h.work hfree (place j)
      rw [slot_place] at hlt
      exact Nat.lt_trans hlt (by decide)
  have hdi : dinode sb (putDinode sb s1.disk i d) i = d := dinode_putDinode hfits
  have hheld := h.work.held
  rw [h.evolves.inum_eq] at hheld
  have hholds : Holds (putDinode sb s1.disk i d) d cur' :=
    h.holds.putDinode hheld hf.range.2 rfl hle
  exact ⟨hfits, by rw [htype]; exact hf.type_ne, hf.range, by rw [hdi, htype], hf.type_ne,
    by rw [hdi, ← hn], hle, by rw [hdi]; exact hholds⟩

lemma iappend_spec (h : Image s cs) (hk : cs[k]? = some (t, bs))
    (hmax : bs.length + p.length ≤ MAXFILE * BSIZE)
    (hroom : s.freeblock + cost (nblk (bs.length + p.length)) ≤ FSSIZE + cost (nblk bs.length)) :
    wp (iappend (k + 1) p) E (fun _ s' => Image s' (cs.set k (t, bs ++ p))) s := by
  have hf := h.files k t bs hk
  have hheld := h.booked.held_slot hf.allocated
  have hstart : Appended s (inode sb s.disk (k + 1)) bs s (inode sb s.disk (k + 1)) bs :=
    ⟨.refl hheld, ⟨hheld, h.le, h.zero⟩, hf.holds, rfl, rfl⟩
  have hsize : xint (dinode sb s.disk (k + 1)).size = bs.length := by
    rw [hf.size]
    exact xint_eq (Nat.lt_of_le_of_lt hf.le (by decide))
  unfold iappend
  rw [wp_bind]
  refine wp_rinode hf.range.2 ?_
  rw [wp_bind, hsize]
  refine wp_imp (iappendFrom_spec p.length (le_refl _) hstart hmax hroom) ?_
  rintro ⟨d, off⟩ s1 ⟨hoff, ip1, hd, h1⟩
  simp only at hoff hd
  subst hoff hd
  refine wp_winode hf.range.2 ?_
  have hlt : bs.length + p.length < 2 ^ 32 := Nat.lt_of_le_of_lt hmax (by decide)
  rw [xint_eq hlt]
  have hlen : bs.length + p.length = (bs ++ p).length := (List.length_append ..).symm
  have hfree1 := h1.freeblock
  obtain ⟨hfits, htype, hnew⟩ := h1.isFile hf hlen (by rw [← hlen]; exact hmax)
    (by rw [← hlen] at hfree1; omega)
  have hklt : k < cs.length := by
    by_contra hge
    rw [List.getElem?_eq_none (by omega)] at hk
    exact absurd hk (by simp)
  have hheld1 := h1.evolves.held
  rw [h1.evolves.inum_eq] at hheld1
  refine h.put s1 hheld1 ?_ h1.evolves.low h1.work.zero
    hf.range hfits (by rw [if_pos htype]; rfl) ?_ ?_ ?_ ?_ ?_
  · intro k' hk'
    exact hheld.sameFile sb_ok h1.evolves.low h1.evolves.foreign hk'
  · rw [h1.freeinode, h.freeinode, List.length_set]
  · have htot := total_set (g := (t, bs ++ p)) hk
    have hfb := h.freeblock
    simp only at htot
    omega
  · intro k' t' bs' hk' hne
    rwa [List.getElem?_set_ne (by omega)] at hk'
  · intro t' bs' hk'
    rw [Nat.add_sub_cancel, List.getElem?_set_self hklt] at hk'
    obtain ⟨rfl, rfl⟩ : t = t' ∧ bs ++ p = bs' := by simpa using hk'
    exact hnew
  · rw [List.length_set]
    exact ⟨hklt, le_refl _⟩

lemma ialloc_spec (h : Image s cs) (hlt : cs.length + 1 < sb.ninodes) (ht : 0 < t ∧ t < 2 ^ 16) :
    wp (ialloc t) E (fun r s' => r = cs.length + 1 ∧ Image s' (cs ++ [(t, [])])) s := by
  unfold ialloc
  simp only [wp_bind, wp_get, wp_set, wp_pure]
  have hnot : ¬Allocated sb s.disk (cs.length + 1) :=
    fun ha => ha.2.2 (h.free _ (Nat.lt_succ_self _) hlt)
  have hheld : Held sb (taken s) s.disk (cs.length + 1) fun _ => 0 := by
    rw [← row_of_not_allocated hnot]
    exact h.booked.held
  rw [h.freeinode, xshort_eq ht.2, xshort_eq (by decide), xint_eq (by decide)]
  refine wp_winode hlt ⟨rfl, ?_⟩
  set d : Dinode := ⟨t, 0, 0, 1, 0, fun _ => 0⟩ with hd
  have hfits : d.Fits :=
    ⟨ht.2, Nat.two_pow_pos 16, Nat.two_pow_pos 16, Nat.one_lt_two_pow (by decide),
      Nat.two_pow_pos 32, fun _ => Nat.two_pow_pos 32⟩
  have hdi : dinode sb (putDinode sb s.disk (cs.length + 1) d) (cs.length + 1) = d :=
    dinode_putDinode hfits
  have hslot : ∀ disk : Disk, slot disk d = fun _ => 0 := fun disk =>
    slot_of_addrs_zero fun _ => rfl
  refine h.put { s with freeinode := cs.length + 1 + 1 } hheld
    (fun k _ => .refl sb s.disk k) (fun _ _ => rfl) h.zero ⟨Nat.succ_pos _, hlt⟩ hfits
    (by rw [if_pos ht.1.ne', hslot]) (by simp) ?_ ?_ ?_ ?_
  · rw [h.freeblock]
    simp [total, cost, nblk, BSIZE]
  · intro k t' bs' hk hne
    have hklt : k < cs.length := by
      have := (List.getElem?_eq_some_iff.mp hk).1
      rw [List.length_append, List.length_singleton] at this
      omega
    rwa [List.getElem?_append_left hklt] at hk
  · intro t' bs' hk
    simp only [Nat.add_sub_cancel, List.getElem?_concat_length, Option.some.injEq,
      Prod.mk.injEq] at hk
    obtain ⟨rfl, rfl⟩ := hk
    refine ⟨⟨Nat.succ_pos _, hlt⟩, by rw [hdi], ht.1.ne', by rw [hdi]; rfl, Nat.zero_le _,
      ⟨⟨fun bn _ => ?_, ?_⟩, fun x hx => absurd hx (Nat.not_lt_zero x)⟩⟩
    · rw [hdi, hslot]
      simp [nblk, BSIZE]
    · rw [hdi, hslot]
      simp [nblk, BSIZE]
  · simp

/-! ### The files of the command line -/

lemma appendReads_spec (bufs : List (List UInt8)) :
    ∀ {s : St} {cs : List (Nat × List UInt8)} {bs : List UInt8}, Image s cs →
      cs[k]? = some (t, bs) → bs.length + bufs.flatten.length ≤ MAXFILE * BSIZE →
      s.freeblock + cost (nblk (bs.length + bufs.flatten.length)) ≤
        FSSIZE + cost (nblk bs.length) →
      wp (appendReads (k + 1) bufs) E
        (fun _ s' => Image s' (cs.set k (t, bs ++ bufs.flatten))) s := by
  induction bufs with
  | nil =>
    intro s cs bs h hk _ _
    obtain ⟨hlt, hget⟩ := List.getElem?_eq_some_iff.mp hk
    rw [List.flatten_nil, List.append_nil, ← hget, List.set_getElem_self]
    exact h
  | cons buf bufs ih =>
    intro s cs bs h hk hmax hroom
    rw [List.flatten_cons, List.length_append] at hmax hroom
    have hmono := cost_mono (nblk_mono (by omega :
      bs.length + buf.length ≤ bs.length + (buf.length + bufs.flatten.length)))
    have hklt := (List.getElem?_eq_some_iff.mp hk).1
    unfold appendReads
    rw [wp_bind]
    refine wp_imp (iappend_spec h hk (by omega) (by omega)) fun _ s1 h1 => ?_
    have htot := total_set (g := (t, bs ++ buf)) hk
    have hfb := h.freeblock
    have hfb1 := h1.freeblock
    simp only at htot
    have hk1 : (cs.set k (t, bs ++ buf))[k]? = some (t, bs ++ buf) := List.getElem?_set_self hklt
    refine wp_imp (ih h1 hk1 ?_ ?_) fun _ s2 h2 => ?_
    · rw [List.length_append]
      omega
    · rw [List.length_append] at htot ⊢
      rw [Nat.add_assoc bs.length]
      omega
    · rwa [List.set_set, List.append_assoc, ← List.flatten_cons] at h2

/-- The name that is stored for a file. -/
def HostFile.storedName (f : HostFile) : List UInt8 := dropUnderscore (dropUser f.path)

/-- The entries of the root directory for the files, the first of which has inode `n`. -/
def fileEntries : Nat → List HostFile → List UInt8
  | _, []      => []
  | n, f :: fs => dirent n f.storedName ++ fileEntries (n + 1) fs

/-- The files when all have been added. -/
def withFiles (root : List UInt8) (cs : List (Nat × List UInt8)) (fs : List HostFile) :
    List (Nat × List UInt8) :=
  (T_DIR, root ++ fileEntries (cs.length + 2) fs) :: (cs ++ fs.map fun f => (T_FILE, f.content))

lemma length_dirent (n : Nat) (name : List UInt8) : (dirent n name).length = DIRENT :=
  Dirent.length_bytes (Dirent.length_mkName ..)

lemma length_fileEntries (fs : List HostFile) : ∀ n,
    (fileEntries n fs).length = DIRENT * fs.length := by
  induction fs with
  | nil => intro n; rfl
  | cons f fs ih =>
    intro n
    rw [fileEntries, List.length_append, length_dirent, ih, List.length_cons, Nat.mul_succ]
    exact Nat.add_comm ..

lemma total_cons (f : Nat × List UInt8) (cs : List (Nat × List UInt8)) :
    total (f :: cs) = cost (nblk f.2.length) + total cs := by
  simp [total]

lemma total_append (cs cs' : List (Nat × List UInt8)) :
    total (cs ++ cs') = total cs + total cs' := by
  simp [total]

/-- The first entry and the second name a new file, whose content comes after. -/
lemma addFile_spec {root : List UInt8} {f : HostFile} (h : Image s ((T_DIR, root) :: cs))
    (hslash : slash ∈ dropUser f.path → E .slash) (hlt : cs.length + 2 < sb.ninodes)
    (hroot : root.length + DIRENT ≤ MAXFILE * BSIZE) (hf : f.content.length ≤ MAXFILE * BSIZE)
    (hroom : nmeta + cost (nblk (root.length + DIRENT)) + total cs + cost (nblk f.content.length) ≤
      FSSIZE) :
    wp (addFile 1 f) E (fun _ s' => Image s'
      ((T_DIR, root ++ dirent (cs.length + 2) f.storedName) ::
        (cs ++ [(T_FILE, f.content)]))) s := by
  have hfb := h.freeblock
  rw [total_cons] at hfb
  unfold addFile
  simp only [wp_ite, wp_throw, wp_bind]
  refine ⟨hslash, fun _ => wp_imp (ialloc_spec h hlt (by decide)) ?_⟩
  rintro inum s1 ⟨rfl, h1⟩
  have hfb1 := h1.freeblock
  rw [List.cons_append, total_cons, total_append] at hfb1
  have hempty : total [(T_FILE, [])] = 0 := rfl
  refine wp_imp (iappend_spec h1 (k := 0) rfl (by rw [length_dirent]; exact hroot) ?_)
    fun _ s2 h2 => ?_
  · rw [length_dirent]
    dsimp only at hfb1
    omega
  · have hfb2 := h2.freeblock
    have hlast : ((T_DIR, root ++ dirent (cs.length + 2) f.storedName) ::
        (cs ++ [(T_FILE, [])]))[cs.length + 1]? = some (T_FILE, []) := by simp
    refine wp_imp (appendReads_spec f.reads h2 hlast ?_ ?_) fun _ s3 h3 => ?_
    · rw [List.length_nil, Nat.zero_add]
      exact hf
    · rw [List.cons_append, List.set_cons_zero, total_cons, total_append] at hfb2
      simp only [List.length_append, length_dirent] at hfb2
      simp only [HostFile.content] at hroom
      rw [List.length_nil, Nat.zero_add]
      omega
    · have hset : (cs ++ [(T_FILE, [])]).set cs.length (T_FILE, [] ++ f.reads.flatten) =
          cs ++ [(T_FILE, f.content)] := by simp [HostFile.content]
      rw [← hset]
      exact h3

lemma addFiles_spec (fs : List HostFile) :
    ∀ {s : St} {root : List UInt8} {l : List (Nat × List UInt8)},
      Image s ((T_DIR, root) :: l) →
      (∀ f ∈ fs, slash ∈ dropUser f.path → E .slash) →
      (∀ f ∈ fs, f.content.length ≤ MAXFILE * BSIZE) →
      l.length + fs.length + 1 < sb.ninodes →
      root.length + DIRENT * fs.length ≤ MAXFILE * BSIZE →
      nmeta + total (withFiles root l fs) ≤ FSSIZE →
      wp (addFiles 1 fs) E (fun _ s' => Image s' (withFiles root l fs)) s := by
  induction fs with
  | nil =>
    intro s root cs h _ _ _ _ _
    simp only [withFiles, fileEntries, List.append_nil, List.map_nil]
    exact h
  | cons f fs ih =>
    intro s root cs h hslash hfiles hlt hmax hroom
    rw [List.length_cons] at hlt hmax
    -- The list is the same when this file has been added.
    have hwith : withFiles root cs (f :: fs) =
        withFiles (root ++ dirent (cs.length + 2) f.storedName)
          (cs ++ [(T_FILE, f.content)]) fs := by
      simp [withFiles, fileEntries]
    have htotal : total (withFiles root cs (f :: fs)) =
        cost (nblk (root.length + DIRENT * (fs.length + 1))) + total cs +
          cost (nblk f.content.length) + total (fs.map fun f => (T_FILE, f.content)) := by
      rw [withFiles, total_cons, total_append, List.map_cons, total_cons]
      simp only [List.length_append, length_fileEntries, List.length_cons]
      omega
    have hmono := cost_mono (nblk_mono (by rw [Nat.mul_succ]; omega :
      root.length + DIRENT ≤ root.length + DIRENT * (fs.length + 1)))
    have hlen : (dirent (cs.length + 2) f.storedName).length = DIRENT := length_dirent ..
    unfold addFiles
    rw [wp_bind]
    refine wp_imp (addFile_spec h (hslash f (List.mem_cons_self ..)) (by omega)
      (by rw [Nat.mul_succ] at hmax; omega) (hfiles f (List.mem_cons_self ..)) (by omega))
      fun _ s1 h1 => ?_
    rw [hwith] at hroom ⊢
    refine ih h1 (fun g hg => hslash g (List.mem_cons_of_mem _ hg))
      (fun g hg => hfiles g (List.mem_cons_of_mem _ hg)) ?_ ?_ hroom
    · rw [List.length_append, List.length_singleton]
      omega
    · rw [List.length_append, hlen]
      rw [Nat.mul_succ] at hmax
      omega

end Xv6.Blocks.Mkfs
