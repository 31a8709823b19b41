import Xv6.Blocks.Bitmap

/-!
# The content of a file

`bmap` finds the block of a part of the file, allocating it if need be; `readi` and `writei` go
through the file block by block. The content of a file is the memory `byte`, up to its size. As
long as there is no hole below the size, `readi` returns a part of it and changes nothing, and
`writei` writes into it.
-/

namespace Xv6.Blocks

open Function Lib

variable {sb : Superblock} {s : Buffers} {ip : Inode} {d : Dinode} {disk : Disk}
  {E : Panic → Prop} {bn n off : Nat} {copyout : Nat → List UInt8 → Bool}
  {Q : Option (List UInt8) × Inode → Buffers → Prop}

/-- No block is missing below the size. -/
structure NoHoles (disk : Disk) (d : Dinode) : Prop where
  le : d.size ≤ MAXFILE * BSIZE
  backed : ∀ x < d.size, Backed disk d x

lemma NoHoles.size_lt (h : NoHoles disk d) : d.size < 2 ^ 32 :=
  Nat.lt_of_le_of_lt h.le (by decide)

lemma SameFile.noHoles {disk' : Disk} {k : Nat} (h : SameFile sb disk disk' k)
    (hk : Allocated sb disk k) (hno : NoHoles disk (dinode sb disk k)) :
    NoHoles disk' (dinode sb disk' k) := by
  have hd := h.inode_eq hk.2.1
  refine ⟨hd ▸ hno.le, fun x hx => ?_⟩
  rw [hd] at hx
  obtain ⟨h1, h2⟩ := hno.backed x hx
  exact ⟨h1, by rw [h.slot_eq hk]; exact h2⟩

/-- The accounts are right with the inode as it is in memory. -/
structure Open (sb : Superblock) (s : Buffers) (ip : Inode) : Prop where
  held : Held sb (used sb s.data) s.data ip.inum (slot s.data ip.toDinode)
  marked : MetaMarked sb s.data

/-- Every block is in use. -/
def DiskFull (sb : Superblock) (disk : Disk) : Prop := ∀ b < sb.size, bit sb disk b = true

lemma div_lt_maxfile {x : Nat} (h : x < MAXFILE * BSIZE) : x / BSIZE < MAXFILE :=
  (Nat.div_lt_iff_lt_mul (by decide)).mpr h

/-! ### `bmap` -/

/-- A block that is there is found. -/
lemma wp_bmap_of_ne_zero {Q : Nat × Inode → Buffers → Prop} (hbn : bn < MAXFILE)
    (h0 : slot s.data ip.toDinode (fileSlot bn) ≠ 0)
    (hQ : Q (slot s.data ip.toDinode (fileSlot bn), ip) s) : wp (bmap sb ip bn) E Q s := by
  unfold bmap
  split_ifs with h h'
  · rw [fileSlot_of_lt h] at h0 hQ
    have ha : ip.addrs (Fin.castSucc ⟨bn, h⟩) ≠ 0 := h0
    rw [bmapAddr, if_neg ha]
    exact hQ
  · rw [fileSlot_of_le (by omega) h'] at h0 hQ
    simp only [slot] at h0 hQ
    have ha : ip.addrs (Fin.last NDIRECT) ≠ 0 := by
      intro ha
      simp [ha] at h0
    rw [if_neg ha] at h0 hQ
    rw [bmapAddr, if_neg ha]
    simp only [bread, wp_bind, wp_pure, wp_ite, wp_get]
    refine ⟨fun h1 => absurd h1 ha, fun _ => ⟨fun h1 => absurd h1 h0, fun _ => ?_⟩⟩
    simpa using hQ
  · simp only [MAXFILE] at hbn
    omega

lemma bmapAddr_spec (hsb : sb.Ok) (h : Open sb s ip) (i : Fin (NDIRECT + 1)) :
    wp (bmapAddr sb ip i) E (fun p s' =>
      Grows sb (used sb s.data) s.data ip (used sb s'.data) s'.data p.2 ∧
        MetaMarked sb s'.data ∧ p.1 = p.2.addrs i ∧ (p.1 = 0 → DiskFull sb s'.data) ∧
        ∃ W, Given sb s W s' ∧ ∀ c ∈ W, c ∉ used sb s.data) s := by
  unfold bmapAddr
  split_ifs with h0
  · simp only [wp_bind]
    refine wp_imp (balloc_spec hsb h.marked) ?_
    rintro r s' (⟨rfl, rfl, hfull⟩ | ⟨hr, ha, hu, hm, hgiven⟩)
    · rw [if_pos rfl]
      exact ⟨.refl h.held, h.marked, h0.symm, fun _ => hfull, ∅, .refl _, by simp⟩
    · rw [if_neg hr]
      refine ⟨?_, hm, ?_, fun h1 => absurd h1 hr, hgiven⟩
      · rw [hu]
        cases i using Fin.lastCases with
        | last => exact ha.indirect hsb h.held h0
        | cast j => exact ha.direct hsb h.held h0
      · simp [Inode.setAddr, Dinode.setAddr]
  · exact ⟨.refl h.held, h.marked, rfl, fun h1 => absurd h1 h0, ∅, .refl _, by simp⟩

/-- `bmap` returns the block, or the disk is full. Of the blocks in use only the indirect one is
written. -/
lemma bmap_spec (hsb : sb.Ok) (h : Open sb s ip) (hbn : bn < MAXFILE) :
    wp (bmap sb ip bn) E (fun p s' =>
      Grows sb (used sb s.data) s.data ip (used sb s'.data) s'.data p.2 ∧
        MetaMarked sb s'.data ∧ p.1 = slot s'.data p.2.toDinode (fileSlot bn) ∧
        (p.1 = 0 → DiskFull sb s'.data) ∧ ∃ W, Given sb s W s' ∧
          ∀ c ∈ W, c ∈ used sb s.data → c = slot s.data ip.toDinode .indirect) s := by
  unfold bmap
  split_ifs with hd hi
  · refine wp_imp (bmapAddr_spec hsb h _) fun p s' hp => ?_
    rw [fileSlot_of_lt hd]
    obtain ⟨hg, hm, ha, hfull, W, hgiven, hW⟩ := hp
    exact ⟨hg, hm, ha, hfull, W, hgiven, fun c hc hmem => absurd hmem (hW c hc)⟩
  · simp only [wp_bind]
    refine wp_imp (bmapAddr_spec hsb h _) ?_
    rintro ⟨a, ip1⟩ s1 ⟨hg, hm, ha, hfull, W, hgiven, hW⟩
    simp only at ha hfull hg
    have hW' : ∀ c ∈ W, c ∈ used sb s.data → c = slot s.data ip.toDinode .indirect :=
      fun c hc hmem => absurd hmem (hW c hc)
    rw [fileSlot_of_le (by omega) hi]
    simp only [bread, logWrite, wp_ite, wp_pure, wp_bind, wp_get]
    refine ⟨fun h0 => ⟨hg, hm, ?_, fun _ => hfull h0, W, hgiven, hW'⟩,
      fun h0 => ⟨fun hw => ?_, fun hw => ?_⟩⟩
    · simp only [slot, ← ha, h0, if_true]
    · -- The entry is 0: a block is allocated for it.
      refine wp_imp (balloc_spec hsb hm) ?_
      rintro r s2 (⟨rfl, rfl, hfull2⟩ | ⟨hr, hal, hu, hm2, W2, hgiven2, hW2⟩)
      · refine ⟨fun h1 => absurd rfl h1, fun _ => ⟨hg, hm, ?_, fun _ => hfull2, W, hgiven, hW'⟩⟩
        simp only [slot, ← ha, if_neg h0]
        exact hw.symm
      · refine ⟨fun _ => ?_, fun h1 => absurd hr h1⟩
        rw [wp_modify]
        have hentry := hal.entry hsb hg.held (j := ⟨bn - NDIRECT, hi⟩) ha.symm h0 hw
        have hmem := hg.held.mem (s := .indirect) (by rw [slot, ← ha]; exact h0)
        rw [slot, ← ha] at hmem
        have hmap : ∀ c, sb.bmapstart ≤ c → c < sb.datastart →
            (s2.write a ((s1.data a).store (4 * (bn - NDIRECT)) 4 r)).data c = s2.data c := by
          intro c _ hc
          have h1 := (hg.held.data a hmem).1
          exact update_of_ne (by omega) ..
        refine ⟨?_, hm2.congr hsb hmap, ?_, fun h1 => absurd h1 hr, _,
          (hgiven.trans hgiven2).write (used_congr hsb hmap), ?_⟩
        · rw [used_congr hsb hmap, hu]
          exact hg.trans hentry
        · simp only [slot, ← ha, if_neg h0, Buffers.data_write, update_self, word,
            Mem.leNat_store]
          have hlt := Nat.lt_trans hal.range.2 hsb.size_lt
          exact (Nat.mod_eq_of_lt hlt).symm
        · rintro c ((hc | hc) | rfl) hmem'
          · exact hW' c hc hmem'
          · exact absurd (hg.mono hmem') (hW2 c hc)
          · have hind : slot s1.data ip1.toDinode .indirect = c := ha.symm
            rw [← hind] at hmem'
            rw [← hg.slot_of_mem hmem', hind]
    · refine ⟨hg, hm, ?_, fun h1 => absurd h1 hw, W, hgiven, hW'⟩
      simp only [slot, ← ha, if_neg h0]
  · simp only [MAXFILE] at hbn
    omega

/-! ### `readi` -/

/-- The loop of `readi` goes over blocks that are there. -/
lemma readiFrom_spec (hok : ∀ tot bs, copyout tot bs = true) (k : Nat) :
    ∀ {off : Nat} {done : List UInt8}, n ≤ done.length + k → done.length ≤ n →
      (∀ x, off ≤ x → x < off + (n - done.length) → Backed s.data ip.toDinode x) →
      Q (some (done ++ (byte s.data ip.toDinode).read off (n - done.length)), ip) s →
      wp (readiFrom sb copyout n k ip off done) E Q s := by
  induction k with
  | zero =>
    intro off done hk hle _ hQ
    have h0 : n - done.length = 0 := by omega
    rw [h0, Mem.read_zero, List.append_nil] at hQ
    exact hQ
  | succ k ih =>
    intro off done hk hle hbacked hQ
    rw [readiFrom]
    split_ifs with hlt
    · have hx := hbacked off (le_refl off) (by omega)
      have hmod : off % BSIZE < BSIZE := Nat.mod_lt off (by decide)
      set m := min (n - done.length) (BSIZE - off % BSIZE) with hm
      simp only [wp_bind]
      refine wp_bmap_of_ne_zero hx.1 hx.2 ?_
      simp only [wp_ite]
      refine ⟨fun h0 => absurd h0 hx.2, fun _ => ?_⟩
      simp only [bread, wp_bind, wp_get, wp_pure, hok, if_true]
      -- What is read from the block is the content from `off` on.
      have hread : (s.data (slot s.data ip.toDinode (fileSlot (off / BSIZE)))).read
          (off % BSIZE) m = (byte s.data ip.toDinode).read off m := by
        refine Mem.read_congr fun i hi => ?_
        have hdiv : (off + i) / BSIZE = off / BSIZE := by
          simp only [BSIZE] at hm hmod ⊢
          omega
        have hmodi : (off + i) % BSIZE = off % BSIZE + i := by
          simp only [BSIZE] at hm hmod ⊢
          omega
        simp only [byte, hdiv, hmodi]
      rw [hread]
      have hlen : (done ++ (byte s.data ip.toDinode).read off m).length = done.length + m := by
        simp
      refine ih ?_ ?_ ?_ ?_
      · rw [hlen]
        simp only [BSIZE] at hm hmod
        omega
      · rw [hlen]
        omega
      · intro x h1 h2
        rw [hlen] at h2
        exact hbacked x (by omega) (by omega)
      · have hsplit : n - done.length = m + (n - (done.length + m)) := by omega
        rw [hlen, List.append_assoc, ← Mem.read_append, ← hsplit]
        exact hQ
    · have h0 : n - done.length = 0 := by omega
      rw [h0, Mem.read_zero, List.append_nil] at hQ
      exact hQ

/-- Whatever becomes of the bytes, no block is allocated. -/
lemma readiFrom_same (k : Nat) : ∀ {off : Nat} {done : List UInt8},
      (∀ x, off ≤ x → x < off + (n - done.length) → Backed s.data ip.toDinode x) →
      wp (readiFrom sb copyout n k ip off done) E (fun r s' => r.2 = ip ∧ s' = s) s := by
  induction k with
  | zero =>
    intro off done _
    exact ⟨rfl, rfl⟩
  | succ k ih =>
    intro off done hbacked
    rw [readiFrom]
    split_ifs with hlt
    · have hx := hbacked off (le_refl off) (by omega)
      simp only [wp_bind]
      refine wp_bmap_of_ne_zero hx.1 hx.2 ?_
      simp only [wp_ite]
      refine ⟨fun h0 => absurd h0 hx.2, fun _ => ?_⟩
      simp only [bread, wp_bind, wp_get, wp_pure, wp_ite]
      refine ⟨fun _ => ih fun x h1 h2 => ?_, fun _ => ⟨trivial, trivial⟩⟩
      rw [List.length_append, Mem.length_read] at h2
      exact hbacked x (by omega) (by omega)
    · exact ⟨rfl, rfl⟩

lemma readi_same (hno : NoHoles s.data ip.toDinode) (hn : n < 2 ^ 32) :
    wp (readi sb ip copyout off n) E (fun r s' => r.2 = ip ∧ s' = s) s := by
  have hlt := hno.size_lt
  unfold readi
  split_ifs with h h'
  · exact ⟨rfl, rfl⟩
  · refine readiFrom_same _ fun x h1 h2 => hno.backed x ?_
    rw [List.length_nil] at h2
    omega
  · refine readiFrom_same _ fun x h1 h2 => hno.backed x ?_
    rw [List.length_nil] at h2
    rw [not_or, Nat.not_lt, Nat.not_lt] at h
    rw [Nat.not_lt] at h'
    omega

/-- The number of bytes that `readi` returns. -/
def readLength (size off n : Nat) : Nat := min (off + n) size - off

/-- `readi` returns the part of the content that was asked for. -/
lemma readi_spec (hok : ∀ tot bs, copyout tot bs = true) (hlt : off + n < 2 ^ 32)
    (hbacked : ∀ x, off ≤ x → x < off + n → x < ip.size → Backed s.data ip.toDinode x)
    (hQ : Q (some ((byte s.data ip.toDinode).read off (readLength ip.size off n)), ip) s) :
    wp (readi sb ip copyout off n) E Q s := by
  unfold readi
  rw [Nat.mod_eq_of_lt hlt]
  split_ifs with h h'
  · have h0 : readLength ip.size off n = 0 := by
      unfold readLength
      omega
    rw [h0, Mem.read_zero] at hQ
    exact hQ
  · have hlen : readLength ip.size off n = ip.size - off := by
      unfold readLength
      omega
    rw [hlen] at hQ
    refine readiFrom_spec hok _ (by simp) (by simp) ?_ (by simpa using hQ)
    intro x h1 h2
    rw [List.length_nil] at h2
    exact hbacked x h1 (by omega) (by omega)
  · have hlen : readLength ip.size off n = n := by
      unfold readLength
      omega
    rw [hlen] at hQ
    refine readiFrom_spec hok _ (by simp) (by simp) ?_ (by simpa using hQ)
    intro x h1 h2
    rw [List.length_nil] at h2
    exact hbacked x h1 (by omega) (by omega)

end Xv6.Blocks
