import Xv6.Blocks.Release

/-!
# The accounts of the disk

Between two operations the blocks that the inodes record are those that the map says are in use,
each recorded once, and no block is missing below the size of an inode. Every operation keeps that,
whether it succeeds, finds the disk full or has a bad pointer for a source; so `bfree` never finds
a block free.

Directories name inodes that exist. This is needed too, because the calls work on the inodes that
they find there.
-/

namespace Xv6.Blocks

open Function Lib

variable {sb : Superblock} {s s' : Buffers} {ip ip' dp dp' : Inode} {disk disk' : Disk}
  {i k inum : Nat} {name : Mem} {last : Nat → Bool} {E : Panic → Prop}
  {major minor j off n type : Nat} {src : Source} {fail trunc : Bool}

/-- The entries of a directory are whole, and name inodes that exist. -/
structure EntriesInRange (sb : Superblock) (disk : Disk) (d : Dinode) : Prop where
  size : DIRENT ∣ d.size
  inum : ∀ j < entries d, (entry disk d j).inum < sb.ninodes

structure Sound (sb : Superblock) (disk : Disk) : Prop extends Accounted sb disk where
  noHoles : ∀ k, Allocated sb disk k → NoHoles disk (dinode sb disk k)
  dirs : ∀ k, Allocated sb disk k → (dinode sb disk k).type = T_DIR →
    EntriesInRange sb disk (dinode sb disk k)

/-- An inode that is locked: it is in use, and memory and disk agree. -/
structure Locked (sb : Superblock) (s : Buffers) (ip : Inode) : Prop where
  allocated : Allocated sb s.data ip.inum
  current : ip = inode sb s.data ip.inum

lemma Locked.dinode_eq (h : Locked sb s ip) : dinode sb s.data ip.inum = ip.toDinode :=
  (congrArg Inode.toDinode h.current).symm

/-- Nothing but inode `i` has changed. -/
def OthersKept (sb : Superblock) (s s' : Buffers) (i : Nat) : Prop :=
  ∀ k ≠ i, SameFile sb s.data s'.data k

lemma SameFile.allocated_iff (h : SameFile sb disk disk' k) :
    Allocated sb disk' k ↔ Allocated sb disk k := by
  unfold Allocated
  refine and_congr_right fun _ => and_congr_right fun hk => ?_
  rw [h.inode_eq hk]

lemma SameFile.entriesInRange (h : SameFile sb disk disk' k) (hk : Allocated sb disk k)
    (he : EntriesInRange sb disk (dinode sb disk k)) :
    EntriesInRange sb disk' (dinode sb disk' k) := by
  have hd := h.inode_eq hk.2.1
  refine ⟨hd ▸ he.size, fun j hj => ?_⟩
  have hentry : entry disk' (dinode sb disk' k) j = entry disk (dinode sb disk k) j := by
    unfold entry
    rw [h.byte_eq hk]
  rw [hentry]
  exact he.inum j (hd ▸ hj)

lemma Locked.of_others (h : Locked sb s ip) (ho : OthersKept sb s s' i) (hne : ip.inum ≠ i) :
    Locked sb s' ip := by
  have hsame := ho ip.inum hne
  refine ⟨hsame.allocated h.allocated, ?_⟩
  rw [inode, hsame.inode_eq h.allocated.2.1]
  exact h.current

lemma Sound.isDir (h : Sound sb s.data) (hl : Locked sb s dp) (htype : dp.type = T_DIR) :
    IsDir sb s.data dp.inum := by
  have ht : (dinode sb s.data dp.inum).type = T_DIR := by rw [hl.dinode_eq, htype]
  exact ⟨hl.allocated, ht, h.noHoles _ hl.allocated, (h.dirs _ hl.allocated ht).size⟩

/-- Nothing but inode `i` has changed, and it is in order. -/
lemma Sound.of_others (h : Sound sb s.data) (hacc : Accounted sb s'.data)
    (ho : OthersKept sb s s' i)
    (hi : Allocated sb s'.data i → NoHoles s'.data (dinode sb s'.data i) ∧
      ((dinode sb s'.data i).type = T_DIR → EntriesInRange sb s'.data (dinode sb s'.data i))) :
    Sound sb s'.data where
  toAccounted := hacc
  noHoles k hk := by
    by_cases hki : k = i
    · subst hki
      exact (hi hk).1
    · have hk' := (ho k hki).allocated_iff.mp hk
      exact (ho k hki).noHoles hk' (h.noHoles k hk')
  dirs k hk ht := by
    by_cases hki : k = i
    · subst hki
      exact (hi hk).2 ht
    · have hk' := (ho k hki).allocated_iff.mp hk
      exact (ho k hki).entriesInRange hk' (h.dirs k hk' ((ho k hki).inode_eq hk'.2.1 ▸ ht))

lemma Sound.of_kept (h : Sound sb s.data) (hkept : Kept sb s i s' ip')
    (hdir : (dinode sb s'.data i).type = T_DIR →
      EntriesInRange sb s'.data (dinode sb s'.data i)) : Sound sb s'.data :=
  h.of_others hkept.accounted hkept.others fun _ => ⟨hkept.noHoles, hdir⟩

lemma Kept.locked (h : Kept sb s i s' ip') : Locked sb s' ip' := by
  have hinum : ip'.inum = i := by rw [h.current]; rfl
  exact ⟨hinum ▸ h.allocated, hinum ▸ h.current⟩

/-! ### The functions of `fs.c` -/

lemma ilock_spec {Q : Inode → Buffers → Prop} (hpanic : E .noType)
    (hi : 0 < i ∧ i < sb.ninodes)
    (hQ : Locked sb s (inode sb s.data i) → Q (inode sb s.data i) s) : wp (ilock sb i) E Q s := by
  unfold ilock
  simp only [wp_bind, wp_get, wp_ite, wp_throw, wp_pure]
  exact ⟨fun _ => hpanic, fun h0 => hQ ⟨⟨hi.1, hi.2, h0⟩, rfl⟩⟩

/-- What a call that may free inode `i` leaves. -/
structure Dropped (sb : Superblock) (s : Buffers) (i : Nat) (s' : Buffers) : Prop where
  sound : Sound sb s'.data
  others : OthersKept sb s s' i

lemma iput_spec (h : Sound sb s.data) (hl : Locked sb s ip) :
    wp (iput sb last ip) E (fun _ s' => Dropped sb s ip.inum s') s := by
  unfold iput
  rw [wp_ite, wp_pure]
  refine ⟨fun _ => ?_, fun _ => ⟨h, fun k _ => .refl ..⟩⟩
  rw [hl.current]
  refine wp_imp (iputFree_spec h.toAccounted hl.allocated) ?_
  rintro - s' ⟨hacc, hnot, ho⟩
  exact ⟨h.of_others hacc ho fun hi => absurd hi hnot, ho⟩

/-- What a call that changes the locked inode leaves. -/
structure Changed (sb : Superblock) (s : Buffers) (ip : Inode) (s' : Buffers) (ip' : Inode) :
    Prop where
  sound : Sound sb s'.data
  locked : Locked sb s' ip'
  inum : ip'.inum = ip.inum
  type : ip'.type = ip.type
  others : OthersKept sb s s' ip.inum

lemma Changed.trans {ip'' : Inode} {s'' : Buffers} (h : Changed sb s ip s' ip')
    (h' : Changed sb s' ip' s'' ip'') : Changed sb s ip s'' ip'' where
  sound := h'.sound
  locked := h'.locked
  inum := h'.inum.trans h.inum
  type := h'.type.trans h.type
  others k hk := (h.others k hk).trans (h'.others k (h.inum ▸ hk))

lemma Kept.changed (hkept : Kept sb s ip.inum s' ip') (h : Sound sb s.data) (hl : Locked sb s ip)
    (hdir : (dinode sb s'.data ip.inum).type = T_DIR →
      EntriesInRange sb s'.data (dinode sb s'.data ip.inum)) : Changed sb s ip s' ip' where
  sound := h.of_kept hkept hdir
  locked := hkept.locked
  inum := by rw [hkept.current]; rfl
  type := by
    have h1 : ip'.type = (dinode sb s'.data ip.inum).type := by rw [hkept.current]; rfl
    rw [h1, hkept.type, hl.dinode_eq]
  others := hkept.others

/-- `iupdate` after the fields that are not about the content have changed. -/
lemma Locked.iupdate (h : Sound sb s.data) (hl : Locked sb s ip) {nlink : Nat}
    (hmajor : major < 2 ^ 16) (hminor : minor < 2 ^ 16) (hnlink : nlink < 2 ^ 16) :
    Changed sb s ip (s.putInode sb { ip with major, minor, nlink })
      { ip with major, minor, nlink } := by
  have hdi : ip.toDinode = dinode sb s.data ip.inum := congrArg Inode.toDinode hl.current
  have hf : (dinode sb s.data ip.inum).Fits := Dinode.load_fits ..
  rw [← hdi] at hf
  have hfits : Dinode.Fits { ip.toDinode with major, minor, nlink } :=
    ⟨hf.type, hmajor, hminor, hnlink, hf.size, hf.addrs⟩
  let ip1 : Inode := { ip with major, minor, nlink }
  obtain ⟨hkept, hbyte⟩ : Kept sb s ip.inum (s.putInode sb ip1) ip1 ∧
      byte (s.putInode sb ip1).data ip1.toDinode = byte s.data (dinode sb s.data ip.inum) :=
    h.toAccounted.iupdate hl.allocated (h.noHoles _ hl.allocated) rfl hfits (by rw [← hdi])
      (by rw [← hdi]) (by rw [← hdi])
  refine hkept.changed h hl fun ht => ?_
  have hdi' := (congrArg Inode.toDinode hkept.current).symm
  have hdir := h.dirs _ hl.allocated (hkept.type ▸ ht)
  change dinode sb _ ip.inum = _ at hdi'
  rw [hdi']
  rw [← hdi] at hdir hbyte
  refine ⟨hdir.size, fun j hj => ?_⟩
  have hentry := hdir.inum j hj
  unfold entry at hentry ⊢
  rw [hbyte]
  exact hentry

lemma dirlookup_locked (h : Sound sb s.data) (hl : Locked sb s dp) (hpanic : E .notDir) :
    wp (dirlookup sb dp name) E (fun p s' => s' = s ∧ p.2 = dp ∧ dp.type = T_DIR ∧
      ∀ inum off, p.1 = some (inum, off) → (0 < inum ∧ inum < sb.ninodes) ∧
        ∃ j < entries (dinode sb s.data dp.inum), off = DIRENT * j) s := by
  by_cases htype : dp.type = T_DIR
  · have hd := h.isDir hl htype
    have hno := hd.noHoles
    have hsize := hd.size
    rw [hl.dinode_eq] at hno hsize
    refine dirlookup_spec htype hno hsize ⟨rfl, rfl, htype, fun inum off hf => ?_⟩
    obtain ⟨j, hj, hoff, hslot⟩ := found_eq_some hf
    obtain ⟨h0, -, hinum⟩ := Dirent.slot_eq_some_iff.mp hslot
    rw [← hl.dinode_eq] at hj hinum h0
    have hlt := (h.dirs _ hl.allocated hd.type).inum j hj
    rw [hinum] at hlt h0
    exact ⟨⟨Nat.pos_of_ne_zero h0, hlt⟩, j, hj, hoff⟩
  · unfold dirlookup
    rw [if_pos htype]
    exact hpanic

lemma EntriesInRange.of_set {d d' : Dinode} {de : Dirent} (h : EntriesInRange sb disk d)
    (hset : EntrySet disk d disk' d' j de) (hde : de.inum < sb.ninodes) (hj : j ≤ entries d) :
    EntriesInRange sb disk' d' := by
  refine ⟨hset.dvd_size h.size, fun k hk => ?_⟩
  rw [hset.entries_eq] at hk
  rw [hset.entry k hk, update_apply]
  split_ifs with hkj
  · exact hde
  · exact h.inum k (by omega)

lemma dirlink_locked (h : Sound sb s.data) (hl : Locked sb s dp) (hinum : inum < sb.ninodes)
    (hpanic : E .notDir) :
    wp (dirlink sb dp name inum) E (fun p s' => Changed sb s dp s' p.2) s := by
  by_cases htype : dp.type = T_DIR
  · have hd := h.isDir hl htype
    have hrange := h.dirs _ hl.allocated hd.type
    have hspec := dirlink_spec (E := E) name inum h.toAccounted hd
    rw [← hl.current] at hspec
    refine wp_imp hspec ?_
    rintro ⟨r, dp'⟩ s' ⟨hkept, hlinked⟩
    refine hkept.changed h hl fun _ => ?_
    cases hlinked with
    | present hr hs hname =>
      subst hs
      exact hrange
    | noSpace hr hname hsize hentry hfull =>
      refine ⟨hsize ▸ hrange.size, fun j hj => ?_⟩
      unfold entries at hj
      rw [hsize] at hj
      rw [hentry j hj]
      exact hrange.inum j hj
    | added hr j hname hj hfree hset =>
      exact hrange.of_set hset (Nat.lt_of_le_of_lt (Nat.mod_le ..) hinum) hj
  · unfold dirlink dirlookup
    rw [if_pos htype]
    exact hpanic

lemma writei_locked (h : Sound sb s.data) (hl : Locked sb s ip) (htype : ip.type ≠ T_DIR)
    (hoff : off < 2 ^ 32) (hn : n < 2 ^ 32) :
    wp (writei sb ip src off n) E (fun _ s' => Sound sb s'.data) s := by
  by_cases hok : off ≤ ip.size ∧ off + n ≤ MAXFILE * BSIZE
  · have hl' := h.loaded hl.allocated
    have hno := h.noHoles _ hl.allocated
    rw [← hl.current] at hl'
    rw [hl.dinode_eq] at hno
    refine wp_imp (writei_spec h.layout hl' hno hok.1 hok.2) ?_
    rintro ⟨r, ip'⟩ s' ⟨tot, e, s0, -, hres⟩
    have hw := hres.written
    rw [hl.current] at hw
    have hkept := hw.kept h.layout hl.allocated
    refine h.of_kept hkept fun ht => absurd ?_ htype
    rw [hl.current]
    exact hkept.type.symm.trans ht
  · rw [wp_of_run (writei_refused hoff hn (by omega))]
    exact h

lemma itrunc_locked (h : Sound sb s.data) (hl : Locked sb s ip) (htype : ip.type ≠ T_DIR) :
    wp (itrunc sb ip) E (fun _ s' => Sound sb s'.data) s := by
  rw [hl.current]
  refine wp_imp (itrunc_spec h.toAccounted hl.allocated) ?_
  rintro ip' s' ⟨hkept, -⟩
  refine h.of_kept hkept fun ht => absurd ?_ htype
  rw [hl.current]
  exact hkept.type.symm.trans ht

lemma ialloc_locked (h : Sound sb s.data) (htype : 0 < type ∧ type < 2 ^ 16) :
    wp (ialloc sb type) E (fun r s' => Sound sb s'.data ∧ (r = none → s' = s) ∧
      ∀ k, r = some k → ¬Allocated sb s.data k ∧ Locked sb s' (inode sb s'.data k) ∧
        OthersKept sb s s' k) s := by
  refine wp_imp (ialloc_spec h.toAccounted htype) ?_
  rintro r s' (⟨rfl, rfl⟩ | ⟨k, rfl, hnot, hk, hdi, hacc, ho⟩)
  · exact ⟨h, fun _ => rfl, fun k hk => absurd hk (by simp)⟩
  · have hkept : Kept sb s' k s' (inode sb s'.data k) := by
      refine .refl hacc hk ⟨?_, fun x hx => ?_⟩
      · rw [hdi]
        exact Nat.zero_le _
      · rw [hdi] at hx
        exact absurd hx (Nat.not_lt_zero x)
    have hsound : Sound sb s'.data := by
      refine h.of_others hacc ho fun _ => ⟨hkept.noHoles, fun _ => ?_⟩
      rw [hdi]
      exact ⟨dvd_zero _, fun j hj => absurd hj (by simp [entries, Dinode.fresh])⟩
    refine ⟨hsound, fun hr => absurd hr (by simp), fun k' hk' => ?_⟩
    obtain rfl : k = k' := by simpa using hk'
    exact ⟨hnot, hkept.locked, ho⟩

lemma isdiremptyFrom_locked {dp : Inode} (hno : NoHoles s.data dp.toDinode)
    (hsize : DIRENT ∣ dp.size) (m : Nat) : ∀ {j : Nat},
      wp (isdiremptyFrom sb m dp (DIRENT * j)) E (fun p s' => s' = s ∧ p.2 = dp) s := by
  induction m with
  | zero =>
    intro j
    exact ⟨rfl, rfl⟩
  | succ m ih =>
    intro j
    rw [isdiremptyFrom]
    split_ifs with hlt
    · have hj : j < entries dp.toDinode := by
        rw [← mul_entries hsize] at hlt
        exact Nat.lt_of_mul_lt_mul_left hlt
      simp only [wp_bind]
      refine wp_readEntry hno.size_lt hj (hno.entryBacked hj) ?_
      simp only [Mem.length_read, ne_eq, not_true_eq_false, if_false]
      rw [wp_ite]
      refine ⟨fun _ => ⟨rfl, rfl⟩, fun _ => ?_⟩
      have hnext : DIRENT * j + DIRENT = DIRENT * (j + 1) := by ring
      rw [hnext]
      exact ih
    · exact ⟨rfl, rfl⟩

lemma isdirempty_locked (h : Sound sb s.data) (hl : Locked sb s dp) (htype : dp.type = T_DIR) :
    wp (isdirempty sb dp) E (fun p s' => s' = s ∧ p.2 = dp) s := by
  have hd := h.isDir hl htype
  have hno := hd.noHoles
  have hsize := hd.size
  rw [hl.dinode_eq] at hno hsize
  unfold isdirempty
  rw [Nat.mul_comm]
  exact isdiremptyFrom_locked hno hsize _

/-! ### The system calls -/

section Calls

/-- The panics that are allowed. -/
def NotFreeing (e : Panic) : Prop := e ≠ .freeingFreeBlock

lemma iupdate_nlink (h : Sound sb s.data) (hl : Locked sb s ip) (hn : n < 2 ^ 16) :
    Changed sb s ip (s.putInode sb (ip.setNlink n)) (ip.setNlink n) := by
  have hf : (dinode sb s.data ip.inum).Fits := Dinode.load_fits ..
  rw [hl.dinode_eq] at hf
  exact hl.iupdate h hf.major hf.minor hn

lemma iupdate_inc (h : Sound sb s.data) (hl : Locked sb s ip) :
    Changed sb s ip (s.putInode sb ip.incNlink) ip.incNlink :=
  iupdate_nlink h hl (Nat.mod_lt _ (Nat.two_pow_pos 16))

lemma iupdate_dec (h : Sound sb s.data) (hl : Locked sb s ip) :
    Changed sb s ip (s.putInode sb ip.decNlink) ip.decNlink :=
  iupdate_nlink h hl (Nat.mod_lt _ (Nat.two_pow_pos 16))

lemma createFail_sound (h : Sound sb s.data) (hip : Locked sb s ip) (hdp : Locked sb s dp)
    (hne : dp.inum ≠ ip.inum) :
    wp (createFail sb last ip dp) E (fun r s' => r = none ∧ Sound sb s'.data) s := by
  unfold createFail
  simp only [wp_bind, wp_iupdate, wp_pure]
  have h1 := iupdate_nlink h hip (Nat.two_pow_pos 16)
  refine wp_imp (iput_spec h1.sound h1.locked) fun _ s2 h2 => ?_
  have hdp2 := (hdp.of_others h1.others hne).of_others h2.others hne
  exact wp_imp (iput_spec h2.sound hdp2) fun _ s3 h3 => ⟨trivial, h3.sound⟩

/-- What `create` returns. -/
def Created (sb : Superblock) (r : Option Inode) (s' : Buffers) : Prop :=
  Sound sb s'.data ∧ ∀ ip, r = some ip → Locked sb s' ip

section

variable (h : Sound sb s.data)
include h

lemma createLink_sound (hip : Locked sb s ip) (hdp : Locked sb s dp) (hne : dp.inum ≠ ip.inum)
    (hpanic : E .notDir) : wp (createLink sb last type name ip dp) E (Created sb) s := by
  unfold createLink
  simp only [wp_bind]
  refine wp_imp (dirlink_locked h hdp hip.allocated.2.1 hpanic) ?_
  rintro ⟨r, dp1⟩ s1 h1
  have hip1 := hip.of_others h1.others hne.symm
  have hne1 : dp1.inum ≠ ip.inum := h1.inum ▸ hne
  -- The directory is released, and the new inode stays locked.
  have hend : ∀ {dp2 : Inode} {s2 : Buffers}, Changed sb s1 dp1 s2 dp2 ∨ (dp2 = dp1 ∧ s2 = s1) →
      wp (iput sb last dp2) E (fun _ s3 => Created sb (some ip) s3) s2 := by
    intro dp2 s2 h2
    obtain ⟨hs2, hdp2, hinum, hip2⟩ : Sound sb s2.data ∧ Locked sb s2 dp2 ∧
        dp2.inum = dp1.inum ∧ Locked sb s2 ip := by
      rcases h2 with h2 | ⟨rfl, rfl⟩
      · exact ⟨h2.sound, h2.locked, h2.inum, hip1.of_others h2.others hne1.symm⟩
      · exact ⟨h1.sound, h1.locked, rfl, hip1⟩
    refine wp_imp (iput_spec hs2 hdp2) fun _ s3 h3 => ⟨h3.sound, fun ip' hip' => ?_⟩
    obtain rfl : ip = ip' := by simpa using hip'
    exact hip2.of_others h3.others (hinum ▸ hne1.symm)
  simp only [wp_ite, wp_bind, wp_iupdate, wp_pure]
  refine ⟨fun _ => ?_, fun _ => ⟨fun _ => ?_, fun _ => hend (.inr ⟨rfl, rfl⟩)⟩⟩
  · refine wp_imp (createFail_sound h1.sound hip1 h1.locked hne1) ?_
    rintro r s' ⟨rfl, hs'⟩
    exact ⟨hs', fun ip' hip' => absurd hip' (by simp)⟩
  · exact hend (.inl (iupdate_inc h1.sound h1.locked))

lemma createDots_sound {parent : Nat} (hip : Locked sb s ip) (hparent : parent < sb.ninodes)
    (hpanic : E .notDir) :
    wp (createDots sb ip parent) E (fun p s' => Changed sb s ip s' p.2) s := by
  unfold createDots
  simp only [wp_bind]
  refine wp_imp (dirlink_locked h hip hip.allocated.2.1 hpanic) ?_
  rintro ⟨r, ip1⟩ s1 h1
  simp only [wp_ite, wp_pure, wp_bind]
  refine ⟨fun _ => h1, fun _ => ?_⟩
  refine wp_imp (dirlink_locked h1.sound h1.locked hparent hpanic) fun p s2 h2 => ?_
  exact h1.trans h2

lemma create_sound (hi : 0 < i ∧ i < sb.ninodes) (htype : 0 < type ∧ type < 2 ^ 16)
    (hmajor : major < 2 ^ 16) (hminor : minor < 2 ^ 16) :
    wp (create sb last i name type major minor) NotFreeing (Created sb) s := by
  have hnotDir : NotFreeing .notDir := by simp [NotFreeing]
  have hnoType : NotFreeing .noType := by simp [NotFreeing]
  unfold create
  simp only [wp_bind]
  refine ilock_spec hnoType hi fun hdp => ?_
  refine wp_imp (dirlookup_locked h hdp hnotDir) ?_
  rintro ⟨r, dp⟩ s1 ⟨hs1, hdp1, htd, hfound⟩
  simp only at hdp1 hfound
  subst hs1 hdp1
  cases r with
  | some p =>
    obtain ⟨hinum, -⟩ := hfound p.1 p.2 rfl
    simp only [wp_bind]
    refine wp_imp (iput_spec h hdp) fun _ s2 h2 => ?_
    refine ilock_spec hnoType hinum fun hip => ?_
    rw [wp_ite, wp_bind]
    refine ⟨fun _ => ⟨h2.sound, fun ip hip' => ?_⟩, fun _ => ?_⟩
    · obtain rfl : inode sb s2.data p.1 = ip := by simpa using hip'
      exact hip
    · exact wp_imp (iput_spec h2.sound hip) fun _ s3 h3 =>
        ⟨h3.sound, fun ip hip' => absurd hip' (by simp)⟩
  | none =>
    simp only [wp_bind]
    refine wp_imp (ialloc_locked h htype) ?_
    rintro r s2 ⟨hs2, hnone, hsome⟩
    cases r with
    | none =>
      obtain rfl := hnone rfl
      rw [wp_bind]
      exact wp_imp (iput_spec h hdp) fun _ s3 h3 =>
        ⟨h3.sound, fun ip hip' => absurd hip' (by simp)⟩
    | some k =>
      obtain ⟨hnot, hk, ho⟩ := hsome k rfl
      -- The new inode is not the directory.
      have hne : i ≠ k := fun hik => hnot (hik ▸ hdp.allocated)
      have hdp2 := hdp.of_others ho hne
      rw [wp_bind]
      refine ilock_spec hnoType ⟨hk.allocated.1, hk.allocated.2.1⟩ fun _ => ?_
      rw [wp_bind, wp_iupdate]
      have h3 := hk.iupdate hs2 hmajor hminor (Nat.one_lt_two_pow (by decide : 16 ≠ 0))
      have hdp3 := hdp2.of_others h3.others hne
      simp only [wp_ite, wp_bind]
      refine ⟨fun _ => ?_, fun _ => ?_⟩
      · refine wp_imp (createDots_sound h3.sound h3.locked hdp.allocated.2.1 hnotDir) ?_
        rintro ⟨ok, ip4⟩ s4 h4
        have hne4 : i ≠ ip4.inum := by
          rw [h4.inum]
          exact hne
        have hdp4 := hdp3.of_others h4.others hne
        refine ⟨fun _ => createLink_sound h4.sound h4.locked hdp4 hne4 hnotDir, fun _ => ?_⟩
        refine wp_imp (createFail_sound h4.sound h4.locked hdp4 hne4) ?_
        rintro r s' ⟨rfl, hs'⟩
        exact ⟨hs', fun ip' hip' => absurd hip' (by simp)⟩
      · exact createLink_sound h3.sound h3.locked hdp3 hne hnotDir

lemma openEnd_sound (hip : Locked sb s ip) :
    wp (openEnd sb last fail trunc ip) E (fun _ s' => Sound sb s'.data) s := by
  unfold openEnd
  simp only [wp_ite, wp_bind, wp_pure]
  refine ⟨fun _ => wp_imp (iput_spec h hip) fun _ _ h' => h'.sound, fun _ =>
    ⟨fun ht => ?_, fun _ => h⟩⟩
  refine itrunc_locked h hip ?_
  rw [ht.2]
  decide

lemma sysOpen_sound {rdonly : Bool} (hi : 0 < i ∧ i < sb.ninodes) :
    wp (sysOpen sb last i rdonly fail trunc) NotFreeing (fun _ s' => Sound sb s'.data) s := by
  unfold sysOpen
  rw [wp_bind]
  refine ilock_spec (by simp [NotFreeing]) hi fun hip => ?_
  rw [wp_ite]
  exact ⟨fun _ => wp_imp (iput_spec h hip) fun _ _ h' => h'.sound, fun _ => openEnd_sound h hip⟩

/-- What follows `create`. -/
lemma create_then {f : Inode → BlockM Unit} (hi : 0 < i ∧ i < sb.ninodes)
    (htype : 0 < type ∧ type < 2 ^ 16) (hmajor : major < 2 ^ 16) (hminor : minor < 2 ^ 16)
    (hf : ∀ {ip s}, Sound sb s.data → Locked sb s ip →
      wp (f ip) NotFreeing (fun _ s' => Sound sb s'.data) s) : wp (do
      match ← create sb last i name type major minor with
      | none => return
      | some ip => f ip) NotFreeing (fun _ s' => Sound sb s'.data) s := by
  rw [wp_bind]
  refine wp_imp (create_sound h hi htype hmajor hminor) fun r s1 h1 => ?_
  cases r with
  | none => exact h1.1
  | some ip => exact hf h1.1 (h1.2 ip rfl)

lemma linkBad_sound (hi : 0 < i ∧ i < sb.ninodes) :
    wp (linkBad sb last i) NotFreeing (fun _ s' => Sound sb s'.data) s := by
  unfold linkBad
  rw [wp_bind]
  refine ilock_spec (by simp [NotFreeing]) hi fun hip => ?_
  rw [wp_bind, wp_iupdate]
  have h1 := iupdate_dec h hip
  exact wp_imp (iput_spec h1.sound h1.locked) fun _ _ h' => h'.sound

lemma dropRef_sound (hi : 0 < i ∧ i < sb.ninodes) :
    wp (dropRef sb last i) NotFreeing (fun _ s' => Sound sb s'.data) s := by
  unfold dropRef
  rw [wp_bind]
  refine ilock_spec (by simp [NotFreeing]) hi fun hip => ?_
  exact wp_imp (iput_spec h hip) fun _ _ h' => h'.sound

lemma sysLink_sound {dpnum : Option Nat} (hi : 0 < i ∧ i < sb.ninodes)
    (hd : ∀ k ∈ dpnum, 0 < k ∧ k < sb.ninodes) :
    wp (sysLink sb last i dpnum name) NotFreeing (fun _ s' => Sound sb s'.data) s := by
  unfold sysLink
  rw [wp_bind]
  refine ilock_spec (by simp [NotFreeing]) hi fun hip => ?_
  rw [wp_ite, wp_bind, wp_iupdate]
  refine ⟨fun _ => wp_imp (iput_spec h hip) fun _ _ h' => h'.sound, fun _ => ?_⟩
  have h1 := iupdate_inc h hip
  cases dpnum with
  | none => exact linkBad_sound h1.sound hi
  | some k =>
    rw [wp_bind]
    refine ilock_spec (by simp [NotFreeing]) (hd k rfl) fun hdp => ?_
    rw [wp_bind]
    refine wp_imp (dirlink_locked h1.sound hdp hi.2 (by simp [NotFreeing])) ?_
    rintro ⟨r, dp⟩ s2 h2
    simp only [wp_ite, wp_bind]
    refine ⟨fun _ => wp_imp (iput_spec h2.sound h2.locked) fun _ _ h3 => ?_,
      fun _ => wp_imp (iput_spec h2.sound h2.locked) fun _ _ h3 => ?_⟩
    · exact linkBad_sound h3.sound hi
    · refine ilock_spec (by simp [NotFreeing]) hi fun hip3 => ?_
      exact wp_imp (iput_spec h3.sound hip3) fun _ _ h' => h'.sound

lemma unlinkEntry_sound (hdp : Locked sb s dp) (htd : dp.type = T_DIR) (hip : Locked sb s ip)
    (hne : ip.inum ≠ dp.inum) (hj : j < entries (dinode sb s.data dp.inum)) :
    wp (unlinkEntry sb last dp ip (DIRENT * j)) E (fun _ s' => Sound sb s'.data) s := by
  have hd := h.isDir hdp htd
  unfold unlinkEntry
  rw [wp_bind, hdp.current]
  refine writeZero_spec h.toAccounted hd hj fun dp1 s1 hkept hset => ?_
  have h1 : Changed sb s dp s1 dp1 := by
    refine hkept.changed h hdp fun _ => ?_
    exact (h.dirs _ hdp.allocated hd.type).of_set hset (Nat.zero_lt_of_lt hdp.allocated.2.1) hj.le
  have hip1 := hip.of_others h1.others hne
  have hne1 : ip.inum ≠ dp1.inum := h1.inum ▸ hne
  -- The directory has been released.
  have hend : ∀ {s2 : Buffers}, Sound sb s2.data → Locked sb s2 ip →
      wp (do iupdate sb ip.decNlink; iput sb last ip.decNlink) E
        (fun _ s' => Sound sb s'.data) s2 := by
    intro s2 hs2 hip2
    rw [wp_bind, wp_iupdate]
    have h3 := iupdate_dec hs2 hip2
    exact wp_imp (iput_spec h3.sound h3.locked) fun _ _ h' => h'.sound
  simp only [ne_eq, not_true_eq_false, if_false, wp_bind, wp_ite, wp_iupdate] at hend ⊢
  refine ⟨fun _ => ?_, fun _ => ?_⟩
  · have h2 := iupdate_dec h1.sound h1.locked
    refine wp_imp (iput_spec h2.sound h2.locked) fun _ s3 h3 => hend h3.sound ?_
    have hne2 : ip.inum ≠ dp1.decNlink.inum := by
      rw [h2.inum]
      exact hne1
    exact (hip1.of_others h2.others hne1).of_others h3.others hne2
  · refine wp_imp (iput_spec h1.sound h1.locked) fun _ s3 h3 => hend h3.sound ?_
    exact hip1.of_others h3.others hne1

lemma sysUnlink_sound (hi : 0 < i ∧ i < sb.ninodes) :
    wp (sysUnlink sb last i name) NotFreeing (fun _ s' => Sound sb s'.data) s := by
  unfold sysUnlink
  rw [wp_bind]
  refine ilock_spec (by simp [NotFreeing]) hi fun hdp => ?_
  rw [wp_ite, wp_bind]
  refine ⟨fun _ => wp_imp (iput_spec h hdp) fun _ _ h' => h'.sound, fun _ => ?_⟩
  refine wp_imp (dirlookup_locked h hdp (by simp [NotFreeing])) ?_
  rintro ⟨r, dp⟩ s1 ⟨hs1, hdp1, htd, hfound⟩
  simp only at hdp1 hfound
  subst hs1 hdp1
  cases r with
  | none => exact wp_imp (iput_spec h hdp) fun _ _ h' => h'.sound
  | some p =>
    obtain ⟨inum, off⟩ := p
    obtain ⟨hinum, j, hj, rfl⟩ := hfound inum off rfl
    simp only [wp_ite, wp_throw, wp_bind]
    refine ⟨fun _ => by simp [NotFreeing], fun hne => ?_⟩
    refine ilock_spec (by simp [NotFreeing]) hinum fun hip => ?_
    refine ⟨fun _ => by simp [NotFreeing], fun _ => ⟨fun ht => ?_, fun _ => ?_⟩⟩
    · refine wp_imp (isdirempty_locked h hip ht) ?_
      rintro ⟨empty, ip⟩ s2 ⟨hs2, hip2⟩
      simp only at hip2
      subst hs2 hip2
      refine ⟨fun _ => unlinkEntry_sound h hdp htd hip hne hj, fun _ => ?_⟩
      refine wp_imp (iput_spec h hip) fun _ s3 h3 => ?_
      have hdp3 := hdp.of_others h3.others (Ne.symm hne)
      exact wp_imp (iput_spec h3.sound hdp3) fun _ _ h' => h'.sound
    · exact unlinkEntry_sound h hdp htd hip hne hj

lemma filewrite_sound (hi : 0 < i ∧ i < sb.ninodes) (hoff : off < 2 ^ 32) (hn : n < 2 ^ 32) :
    wp (filewrite sb i src off n) NotFreeing (fun _ s' => Sound sb s'.data) s := by
  unfold filewrite
  rw [wp_bind]
  refine ilock_spec (by simp [NotFreeing]) hi fun hip => ?_
  simp only [wp_ite, wp_bind, wp_pure]
  refine ⟨fun ht => writei_locked h hip ?_ hoff hn, fun _ => h⟩
  rw [ht]
  decide

end

end Calls

/-! ### Sequences of operations -/

/-- The arguments are those that a call can have: inodes that exist, and words of 32 bits. -/
def Op.InRange (sb : Superblock) : Op → Prop
  | .open inum _ _ _ => 0 < inum ∧ inum < sb.ninodes
  | .openCreate dpnum _ _ _ => 0 < dpnum ∧ dpnum < sb.ninodes
  | .mkdir dpnum _ => 0 < dpnum ∧ dpnum < sb.ninodes
  | .mknod dpnum _ _ _ => 0 < dpnum ∧ dpnum < sb.ninodes
  | .link inum dpnum _ => (0 < inum ∧ inum < sb.ninodes) ∧ ∀ k ∈ dpnum, 0 < k ∧ k < sb.ninodes
  | .unlink dpnum _ => 0 < dpnum ∧ dpnum < sb.ninodes
  | .write inum _ off n => (0 < inum ∧ inum < sb.ninodes) ∧ off < 2 ^ 32 ∧ n < 2 ^ 32
  | .drop inum => 0 < inum ∧ inum < sb.ninodes

/-- An operation, and who else refers to an inode while it runs. -/
structure Call (sb : Superblock) where
  op : Op
  last : Nat → Bool
  inRange : op.InRange sb

lemma exec_sound (c : Call sb) (h : Sound sb s.data) :
    wp (c.op.exec sb c.last) NotFreeing (fun _ s' => Sound sb s'.data) s := by
  obtain ⟨op, last, hr⟩ := c
  cases op with
  | «open» inum rdonly fail trunc => exact sysOpen_sound h hr
  | openCreate dpnum name fail trunc =>
    exact create_then h hr (by decide) (by decide) (by decide) openEnd_sound
  | mkdir dpnum name =>
    exact create_then h hr (by decide) (by decide) (by decide) fun hs hip =>
      wp_imp (iput_spec hs hip) fun _ _ h' => h'.sound
  | mknod dpnum name major minor =>
    exact create_then h hr (by decide) (Nat.mod_lt _ (Nat.two_pow_pos 16))
      (Nat.mod_lt _ (Nat.two_pow_pos 16)) fun hs hip =>
        wp_imp (iput_spec hs hip) fun _ _ h' => h'.sound
  | link inum dpnum name => exact sysLink_sound h hr.1 hr.2
  | unlink dpnum name => exact sysUnlink_sound h hr
  | write inum src off n => exact filewrite_sound h hr.1 hr.2.1 hr.2.2
  | drop inum => exact dropRef_sound h hr

/-- Block accounting: after every sequence of operations the accounts are right, and no operation
frees a block that is free. -/
theorem accounts_right (s : Buffers) (calls : List (Call sb)) (h : Sound sb s.data) :
    wp (runAll (fun c : Call sb => c.op.exec sb c.last) calls) (· ≠ .freeingFreeBlock)
      (fun _ s' =>
        (∀ k k' t t', Allocated sb s'.data k → Allocated sb s'.data k' →
          slot s'.data (dinode sb s'.data k) t ≠ 0 →
          slot s'.data (dinode sb s'.data k) t = slot s'.data (dinode sb s'.data k') t' →
          k = k' ∧ t = t') ∧
        (∀ k t, Allocated sb s'.data k → slot s'.data (dinode sb s'.data k) t ≠ 0 →
          sb.datastart ≤ slot s'.data (dinode sb s'.data k) t ∧
            slot s'.data (dinode sb s'.data k) t < sb.size) ∧
        (∀ b, sb.datastart ≤ b → b < sb.size → (bit sb s'.data b = true ↔
          ∃ k t, Allocated sb s'.data k ∧ slot s'.data (dinode sb s'.data k) t = b)) ∧
        ∀ k bn, Allocated sb s'.data k → bn * BSIZE < (dinode sb s'.data k).size →
          bn < MAXFILE ∧ slot s'.data (dinode sb s'.data k) (fileSlot bn) ≠ 0) s := by
  have hrun : wp (runAll (fun c : Call sb => c.op.exec sb c.last) calls) NotFreeing
      (fun _ s' => Sound sb s'.data) s :=
    wp_runAll (fun c s hs => exec_sound c hs) h
  refine wp_imp hrun fun _ s' hs => ⟨?_, ?_, ?_, ?_⟩
  · intro k k' t t' hk hk' h0 heq
    have h1 := hs.booked.accounts.unique (i := (k, t)) (j := (k', t'))
    simp only [uncurry_apply_pair, row_of_allocated hk, row_of_allocated hk',
      Prod.mk.injEq] at h1
    exact h1 h0 heq
  · intro k t hk h0
    exact hs.booked.data _ ((hs.booked.held_slot hk).mem h0)
  · intro b h1 h2
    have hb : b ≠ 0 := by
      have := hs.layout.bmapstart_lt
      omega
    have hmem : bit sb s'.data b = true ↔ b ∈ used sb s'.data := by
      simp [used, h1, h2]
    rw [hmem, hs.booked.accounts.mem_iff]
    constructor
    · rintro ⟨-, ⟨k, t⟩, hkt⟩
      by_cases hk : Allocated sb s'.data k
      · exact ⟨k, t, hk, by rw [← row_of_allocated hk]; exact hkt⟩
      · simp only [uncurry_apply_pair, row_of_not_allocated hk] at hkt
        exact absurd hkt.symm hb
    · rintro ⟨k, t, hk, hkt⟩
      exact ⟨hb, (k, t), by rw [← hkt, ← row_of_allocated hk]; rfl⟩
  · intro k bn hk hbn
    have hback := (hs.noHoles k hk).backed _ hbn
    rwa [Backed, Nat.mul_div_cancel _ (by decide)] at hback

lemma smallDisk_sound {bs : List UInt8} (hlen : bs.length ≤ BSIZE) :
    Sound smallSb (smallDisk T_FILE bs) := by
  have htype : 0 < T_FILE ∧ T_FILE < 2 ^ 16 := by decide
  have hone : ∀ k, Allocated smallSb (smallDisk T_FILE bs) k → k = 1 := by
    intro k hk
    by_contra hne
    have hdi : dinode smallSb (smallDisk T_FILE bs) k = dinode smallSb (smallBlocks bs) k :=
      dinode_putDinode_of_ne hne
    exact smallBlocks_free bs k ⟨hk.1, hk.2.1, hdi ▸ hk.2.2⟩
  refine ⟨smallDisk_accounted htype hlen, fun k hk => ?_, fun k hk ht => ?_⟩
  · obtain rfl := hone k hk
    exact smallDisk_noHoles htype hlen
  · obtain rfl := hone k hk
    rw [dinode_smallDisk htype hlen] at ht
    exact absurd ht (by simp [smallInode, T_FILE, T_DIR])

theorem accounts_right_write :
    wp (runAll (fun c : Call smallSb => c.op.exec smallSb c.last)
      [⟨.write 1 (.kernel (Mem.ofList [9])) 3 1, fun _ => true, by simp [Op.InRange, smallSb]⟩])
      (· ≠ .freeingFreeBlock) (fun _ s' => ∀ k bn, Allocated smallSb s'.data k →
        bn * BSIZE < (dinode smallSb s'.data k).size →
          bn < MAXFILE ∧ slot s'.data (dinode smallSb s'.data k) (fileSlot bn) ≠ 0)
      (buffers (smallDisk T_FILE [1, 2, 3])) :=
  wp_imp (accounts_right _ _ (smallDisk_sound (by decide))) fun _ _ h => h.2.2.2

end Xv6.Blocks
