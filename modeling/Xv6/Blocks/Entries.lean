import Xv6.Lib.SlotMap
import Xv6.Lib.Transition
import Xv6.Blocks.FileLaw
import Xv6.Blocks.Sysfile

/-!
# A directory is a finite map

The entries of a directory are slots; one with inode number 0 is free. `dirlookup` finds the slot
of a name, `dirlink` fills the first free slot or a new one, and `sys_unlink` clears a slot.
-/

namespace Xv6.Blocks

open Function Lib

variable {sb : Superblock} {s s' : Buffers} {dp dp' : Inode} {disk disk' : Disk} {d d' : Dinode}
  {i j : Nat} {name : Mem} {E : Panic → Prop} {key : List UInt8} {inum off tot : Nat}
  {Q : Option (Nat × Nat) × Inode → Buffers → Prop}

/-- Entry `j` of a directory. -/
def entry (disk : Disk) (d : Dinode) (j : Nat) : Dirent := .load (byte disk d) (DIRENT * j)

/-- The slot of an entry. -/
def Dirent.slot (de : Dirent) : Option (List UInt8 × Nat) :=
  if de.inum = 0 then none else some (de.key, de.inum)

/-- The number of entries. -/
def entries (d : Dinode) : Nat := d.size / DIRENT

def dirSlots (disk : Disk) (d : Dinode) (j : Nat) : Option (List UInt8 × Nat) :=
  (entry disk d j).slot

/-- The map from names to inode numbers. -/
def names (disk : Disk) (d : Dinode) : List UInt8 → Option Nat :=
  slotMap (dirSlots disk d) (entries d)

/-- An inode that holds entries. -/
structure IsDir (sb : Superblock) (disk : Disk) (i : Nat) : Prop where
  allocated : Allocated sb disk i
  type : (dinode sb disk i).type = T_DIR
  noHoles : NoHoles disk (dinode sb disk i)
  size : DIRENT ∣ (dinode sb disk i).size

structure Directory (sb : Superblock) (disk : Disk) (i : Nat) : Prop extends IsDir sb disk i where
  distinct : DistinctSlots (dirSlots disk (dinode sb disk i)) (entries (dinode sb disk i))

lemma Dirent.slot_eq_some_iff {de : Dirent} :
    de.slot = some (key, inum) ↔ de.inum ≠ 0 ∧ de.key = key ∧ de.inum = inum := by
  unfold Dirent.slot
  split_ifs with h
  · simp [h]
  · simp [h]

lemma Dirent.slot_eq_none_iff {de : Dirent} : de.slot = none ↔ de.inum = 0 := by
  unfold Dirent.slot
  split_ifs with h <;> simp [h]

lemma mul_entries (h : DIRENT ∣ d.size) : DIRENT * entries d = d.size := Nat.mul_div_cancel' h

/-! ### Looking up -/

/-- The block of entry `j` is there. -/
def EntryBacked (disk : Disk) (d : Dinode) (j : Nat) : Prop :=
  ∀ x < DIRENT, Backed disk d (DIRENT * j + x)

lemma lt_size_of_lt_entries {x : Nat} (hj : j < entries d) (hx : x < DIRENT) :
    DIRENT * j + x < d.size := by
  simp only [entries, DIRENT] at hj hx ⊢
  omega

lemma NoHoles.entryBacked (h : NoHoles disk d) (hj : j < entries d) : EntryBacked disk d j :=
  fun _ hx => h.backed _ (lt_size_of_lt_entries hj hx)

/-- An entry is read as a whole. -/
lemma wp_readEntry {Q : Option (List UInt8) × Inode → Buffers → Prop} (hlt : dp.size < 2 ^ 32)
    (hj : j < entries dp.toDinode) (hback : EntryBacked s.data dp.toDinode j)
    (hQ : Q (some ((byte s.data dp.toDinode).read (DIRENT * j) DIRENT), dp) s) :
    wp (readi sb dp toKernel (DIRENT * j) DIRENT) E Q s := by
  have hin : DIRENT * j + DIRENT ≤ dp.size := by
    have h15 := lt_size_of_lt_entries hj (x := 15) (by decide)
    simp only [DIRENT] at h15 ⊢
    omega
  refine readi_spec (fun _ _ => rfl) (by omega) (fun x h1 h2 _ => ?_) ?_
  · have hx := hback (x - DIRENT * j) (by omega)
    rwa [Nat.add_sub_cancel' h1] at hx
  · have hlen : readLength dp.size (DIRENT * j) DIRENT = DIRENT := by
      unfold readLength
      omega
    rw [hlen]
    exact hQ

/-- What `dirlookup` returns. -/
def found (disk : Disk) (d : Dinode) (key : List UInt8) : Option (Nat × Nat) :=
  (slotOf (dirSlots disk d) (entries d) key).map fun j => ((entry disk d j).inum, DIRENT * j)

lemma found_eq_none_iff : found disk d key = none ↔ names disk d key = none := by
  rw [names, slotMap_eq_none_iff, found, Option.map_eq_none_iff]

lemma found_eq_some (h : found disk d key = some (inum, off)) :
    ∃ j < entries d, off = DIRENT * j ∧ dirSlots disk d j = some (key, inum) := by
  obtain ⟨j, hj, heq⟩ := Option.map_eq_some_iff.mp h
  obtain ⟨hlt, n, hn⟩ := slotOf_eq_some hj
  obtain ⟨h0, -, hinum⟩ := Dirent.slot_eq_some_iff.mp hn
  simp only [Prod.mk.injEq] at heq
  refine ⟨j, hlt, heq.2.symm, ?_⟩
  rw [hn, ← heq.1, hinum]

lemma found_map_fst : (found disk d key).map Prod.fst = names disk d key := by
  unfold found names slotMap
  cases hs : slotOf (dirSlots disk d) (entries d) key with
  | none => rfl
  | some j =>
    obtain ⟨-, n, hn⟩ := slotOf_eq_some hs
    obtain ⟨-, -, hinum⟩ := Dirent.slot_eq_some_iff.mp hn
    simp [hn, hinum]

/-- The loop of `dirlookup`, if the entries that it comes to are there. -/
lemma dirlookupFrom_spec (hlt : dp.size < 2 ^ 32) (hsize : DIRENT ∣ dp.size)
    (hback : ∀ j < entries dp.toDinode,
      (∀ i < j, ∀ n, dirSlots s.data dp.toDinode i ≠ some (cstring name DIRSIZ, n)) →
      EntryBacked s.data dp.toDinode j)
    (hQ : Q (found s.data dp.toDinode (cstring name DIRSIZ), dp) s) (k : Nat) :
    ∀ {j : Nat}, entries dp.toDinode < j + k → j ≤ entries dp.toDinode →
      (∀ i < j, ∀ n, dirSlots s.data dp.toDinode i ≠ some (cstring name DIRSIZ, n)) →
      wp (dirlookupFrom sb name k dp (DIRENT * j)) E Q s := by
  induction k with
  | zero =>
    intro j hk hj _
    omega
  | succ k ih =>
    intro j hk hj hbefore
    have hmul := mul_entries hsize
    rw [dirlookupFrom]
    split_ifs with hoff
    · have hj' : j < entries dp.toDinode := by
        rw [← hmul] at hoff
        exact Nat.lt_of_mul_lt_mul_left hoff
      have hlen : (entry s.data dp.toDinode j).name.length = DIRSIZ := Mem.length_read ..
      simp only [wp_bind]
      refine wp_readEntry hlt hj' (hback j hj' hbefore) ?_
      simp only [Mem.length_read, ne_eq, not_true_eq_false, if_false, Dirent.load_ofList_read]
      have hnext : DIRENT * j + DIRENT = DIRENT * (j + 1) := by ring
      rw [hnext]
      -- The entry is not the one that is looked for.
      have hskip : (∀ n, dirSlots s.data dp.toDinode j ≠ some (cstring name DIRSIZ, n)) →
          wp (dirlookupFrom sb name k dp (DIRENT * (j + 1))) E Q s := by
        intro hne
        refine ih (by omega) hj' fun i hi n => ?_
        rcases Nat.lt_or_eq_of_le (Nat.le_of_lt_succ hi) with h | rfl
        · exact hbefore i h n
        · exact hne n
      simp only [wp_ite, wp_pure]
      refine ⟨fun h0 => hskip fun n hn => ?_, fun h0 => ⟨fun hcmp => ?_, fun hcmp => ?_⟩⟩
      · exact (Dirent.slot_eq_some_iff.mp hn).1 h0
      · have hslot : dirSlots s.data dp.toDinode j =
            some (cstring name DIRSIZ, (entry s.data dp.toDinode j).inum) :=
          Dirent.slot_eq_some_iff.mpr ⟨h0, ((namecmp_eq_zero_iff hlen).mp hcmp).symm, rfl⟩
        have hof := slotOf_of_first hj' hslot hbefore
        rw [found, hof] at hQ
        exact hQ
      · refine hskip fun n hn => hcmp ((namecmp_eq_zero_iff hlen).mpr ?_)
        exact (Dirent.slot_eq_some_iff.mp hn).2.1.symm
    · have hj' : j = entries dp.toDinode := by
        by_contra hne
        rw [← hmul] at hoff
        exact hoff (Nat.mul_lt_mul_of_pos_left (by omega) (by decide))
      have hnone : slotOf (dirSlots s.data dp.toDinode) (entries dp.toDinode)
          (cstring name DIRSIZ) = none := by
        rw [slotOf_eq_none_iff, ← hj']
        exact hbefore
      rw [found, hnone] at hQ
      exact hQ

lemma dirlookup_spec (htype : dp.type = T_DIR) (hno : NoHoles s.data dp.toDinode)
    (hsize : DIRENT ∣ dp.size) (hQ : Q (found s.data dp.toDinode (cstring name DIRSIZ), dp) s) :
    wp (dirlookup sb dp name) E Q s := by
  unfold dirlookup
  rw [if_neg (by simp [htype])]
  have hle : entries dp.toDinode ≤ dp.size := Nat.div_le_self ..
  have hloop : wp (dirlookupFrom sb name (dp.size + 1) dp (DIRENT * 0)) E Q s :=
    dirlookupFrom_spec hno.size_lt hsize (fun j hj _ => hno.entryBacked hj) hQ _ (by omega)
      (Nat.zero_le _)
      fun i hi => absurd hi (Nat.not_lt_zero i)
  exact hloop

lemma findFree_spec (hno : NoHoles s.data dp.toDinode) (hsize : DIRENT ∣ dp.size) (k : Nat) :
    ∀ {j : Nat}, entries dp.toDinode < j + k → j ≤ entries dp.toDinode →
      wp (findFree sb k dp (DIRENT * j)) E (fun p s' => s' = s ∧ p.2 = dp ∧
        ∃ j, p.1 = DIRENT * j ∧ j ≤ entries dp.toDinode ∧
          (j < entries dp.toDinode → dirSlots s.data dp.toDinode j = none)) s := by
  induction k with
  | zero =>
    intro j hk hj
    omega
  | succ k ih =>
    intro j hk hj
    have hmul := mul_entries hsize
    rw [findFree]
    split_ifs with hlt
    · have hj' : j < entries dp.toDinode := by
        rw [← hmul] at hlt
        exact Nat.lt_of_mul_lt_mul_left hlt
      simp only [wp_bind]
      refine wp_readEntry hno.size_lt hj' (hno.entryBacked hj') ?_
      simp only [Mem.length_read, ne_eq, not_true_eq_false, if_false, Dirent.load_ofList_read,
        wp_ite, wp_pure]
      refine ⟨fun h0 => ⟨trivial, trivial, j, rfl, hj, fun _ => Dirent.slot_eq_none_iff.mpr h0⟩,
        fun _ => ?_⟩
      have hnext : DIRENT * j + DIRENT = DIRENT * (j + 1) := by ring
      rw [hnext]
      exact ih (by omega) hj'
    · refine ⟨rfl, rfl, j, rfl, hj, fun hj' => absurd ?_ hlt⟩
      rw [← hmul]
      exact Nat.mul_lt_mul_of_pos_left hj' (by decide)

/-! ### Writing an entry -/

/-- Inode `i` has been worked on: it is still in use, and no other inode has changed. -/
structure Kept (sb : Superblock) (s : Buffers) (i : Nat) (s' : Buffers) (ip' : Inode) : Prop where
  accounted : Accounted sb s'.data
  current : ip' = inode sb s'.data i
  allocated : Allocated sb s'.data i
  type : (dinode sb s'.data i).type = (dinode sb s.data i).type
  noHoles : NoHoles s'.data (dinode sb s'.data i)
  others : ∀ k ≠ i, SameFile sb s.data s'.data k

lemma Kept.refl (h : Accounted sb s.data) (hi : Allocated sb s.data i)
    (hno : NoHoles s.data (dinode sb s.data i)) : Kept sb s i s (inode sb s.data i) :=
  ⟨h, rfl, hi, rfl, hno, fun k _ => .refl sb s.data k⟩

lemma Written.kept {ip' : Inode} {bs : List UInt8}
    (h : Written sb s (inode sb s.data i) off tot bs s' ip') (hsb : sb.Ok)
    (hi : Allocated sb s.data i) : Kept sb s i s' ip' := by
  have hip' : ip' = inode sb s'.data i := h.eq_inode
  have htype : (dinode sb s'.data i).type = (dinode sb s.data i).type := by
    have h1 : dinode sb s'.data i = ip'.toDinode := h.inode_eq
    rw [h1, h.rest]
    rfl
  have hno : NoHoles s'.data ip'.toDinode := h.noHoles
  rw [hip'] at hno
  exact ⟨h.accounted hsb, hip', ⟨hi.1, hi.2.1, htype ▸ hi.2.2⟩, htype, hno, h.others⟩

/-- Entry `j` is now `de`, and the others are what they were. -/
structure EntrySet (disk : Disk) (d : Dinode) (disk' : Disk) (d' : Dinode) (j : Nat) (de : Dirent) :
    Prop where
  size : d'.size = max d.size (DIRENT * (j + 1))
  entry : ∀ i < max (entries d) (j + 1), entry disk' d' i = update (entry disk d) j de i

lemma Written.entrySet {de : Dirent} (h : Written sb s dp (DIRENT * j) DIRENT de.bytes s' dp')
    (hinum : de.inum < 2 ^ 16) (hname : de.name.length = DIRSIZ) :
    EntrySet s.data dp.toDinode s'.data dp'.toDinode j de where
  size := by rw [h.size_eq, Nat.mul_succ]
  entry i hi := by
    have hlen := Dirent.length_bytes hname
    have hbyte : ∀ x < DIRENT, byte s'.data dp'.toDinode (DIRENT * i + x) =
        (byte s.data dp.toDinode).write (DIRENT * j) de.bytes (DIRENT * i + x) := by
      intro x hx
      refine h.bytes _ ?_
      simp only [entries, DIRENT] at hi hx ⊢
      omega
    unfold entry
    rw [Dirent.load_congr hbyte]
    by_cases hij : i = j
    · subst hij
      rw [Dirent.load_write hinum hname, update_self]
    · rw [update_of_ne hij]
      refine Dirent.load_congr fun x hx => ?_
      rcases Nat.lt_or_gt_of_ne hij with hlt | hgt
      · exact Mem.write_apply_of_lt (by simp only [DIRENT] at hx ⊢; omega)
      · exact Mem.write_apply_of_le (by rw [hlen]; simp only [DIRENT] at hx ⊢; omega)

/-- Nothing is written. -/
lemma Written.entry_eq (h : Written sb s dp off 0 [] s' dp') (hoff : off ≤ dp.size)
    (hj : j < entries dp.toDinode) : entry s'.data dp'.toDinode j = entry s.data dp.toDinode j := by
  refine Dirent.load_congr fun x hx => ?_
  have hlt : DIRENT * j + x < max dp.size (off + 0) := by
    simp only [entries, DIRENT] at hj hx ⊢
    omega
  rw [h.bytes _ hlt, Mem.write_nil]

namespace EntrySet

variable {de : Dirent}

lemma entries_eq (h : EntrySet disk d disk' d' j de) : entries d' = max (entries d) (j + 1) := by
  have hsize := h.size
  simp only [entries, DIRENT] at hsize ⊢
  omega

lemma dvd_size (h : EntrySet disk d disk' d' j de) (hd : DIRENT ∣ d.size) : DIRENT ∣ d'.size := by
  rw [h.size]
  rcases Nat.le_total d.size (DIRENT * (j + 1)) with hle | hle
  · rw [max_eq_right hle]
    exact Nat.dvd_mul_right ..
  · rw [max_eq_left hle]
    exact hd

lemma slots (h : EntrySet disk d disk' d' j de) (i : Nat) (hi : i < max (entries d) (j + 1)) :
    dirSlots disk' d' i = update (dirSlots disk d) j de.slot i := by
  unfold dirSlots
  rw [h.entry i hi, update_apply, update_apply]
  split_ifs <;> rfl

end EntrySet

/-! ### Linking -/

/-- The write of an entry is not cut short. -/
lemma Reached.eq_zero_of_lt {src : Source} (h : Reached src (DIRENT * j) DIRENT tot)
    (hlt : tot < DIRENT) : tot = 0 := by
  have hal := h.aligned
  simp only [DIRENT, BSIZE] at hal hlt
  omega

/-- The write of an entry succeeds, or there is no room for it. -/
lemma writeEntry_spec {de : Dirent} (h : Accounted sb s.data) (hd : IsDir sb s.data i)
    (hj : j ≤ entries (dinode sb s.data i)) (hinum : de.inum < 2 ^ 16)
    (hname : de.name.length = DIRSIZ) :
    wp (writei sb (inode sb s.data i) (.kernel (Mem.ofList de.bytes)) (DIRENT * j) DIRENT) E
      (fun p s' => Kept sb s i s' p.2 ∧
        ((p.1 = some DIRENT ∧
            EntrySet s.data (dinode sb s.data i) s'.data (dinode sb s'.data i) j de) ∨
          (p.1 ≠ some DIRENT ∧ j = entries (dinode sb s.data i) ∧
            (dinode sb s'.data i).size = (dinode sb s.data i).size ∧
            (∀ k < entries (dinode sb s.data i),
              entry s'.data (dinode sb s'.data i) k = entry s.data (dinode sb s.data i) k) ∧
            (DiskFull sb s'.data ∨ (dinode sb s.data i).size = MAXFILE * BSIZE)))) s := by
  have hmul := mul_entries hd.size
  have hle := hd.noHoles.le
  have hoff : DIRENT * j ≤ (inode sb s.data i).size := by
    change DIRENT * j ≤ (dinode sb s.data i).size
    rw [← hmul]
    exact Nat.mul_le_mul_left _ hj
  have hmax : MAXFILE * BSIZE = DIRENT * 17152 := rfl
  by_cases hfit : DIRENT * j + DIRENT ≤ MAXFILE * BSIZE
  · refine wp_imp (writei_spec h.layout (h.loaded hd.allocated) hd.noHoles hoff hfit) ?_
    rintro ⟨r, dp'⟩ s' ⟨tot, e, s0, rfl, hres⟩
    have hw := hres.written
    have hkept := hw.kept h.layout hd.allocated
    have hdp' : dp'.toDinode = dinode sb s'.data i := congrArg Inode.toDinode hkept.current
    refine ⟨hkept, ?_⟩
    cases hres.stopped with
    | all htot he =>
      subst htot he
      refine .inl ⟨rfl, ?_⟩
      have hread : (Mem.ofList de.bytes).read 0 (DIRENT + 0) = de.bytes := by
        rw [Nat.add_zero, ← Dirent.length_bytes hname, Mem.read_ofList]
      simp only [Source.kernel, hread] at hw
      rw [← hdp']
      exact hw.entrySet hinum hname
    | full htot he hfull hhole =>
      obtain rfl := hres.reached.eq_zero_of_lt htot
      subst he
      refine .inr ⟨fun heq => absurd heq (by simp [DIRENT]), ?_, ?_, fun k hk => ?_, .inl hfull⟩
      · by_contra hne
        refine hhole (hd.noHoles.backed _ ?_)
        rw [← hmul, Nat.add_zero]
        exact Nat.mul_lt_mul_of_pos_left (by omega) (by decide)
      · rw [← hdp', hw.size_eq, Nat.add_zero, max_eq_left hoff]
        rfl
      · rw [← hdp']
        exact hw.entry_eq hoff hk
    | fault htot he hlt =>
      simp only [Source.kernel] at he
      omega
  · have hrun : (writei sb (inode sb s.data i) (.kernel (Mem.ofList de.bytes)) (DIRENT * j)
        DIRENT).run s = .ok ((none, inode sb s.data i), s) := by
      refine writei_refused ?_ (by decide) (.inr (.inr (by omega)))
      exact Nat.lt_of_le_of_lt (Nat.le_trans hoff hle) (by decide)
    rw [wp_of_run hrun]
    have hsize : (dinode sb s.data i).size = MAXFILE * BSIZE ∧
        j = entries (dinode sb s.data i) := by
      have hoff' : DIRENT * j ≤ (dinode sb s.data i).size := hoff
      simp only [DIRENT] at hmul hmax hfit hoff' hj
      omega
    exact ⟨.refl h hd.allocated hd.noHoles, .inr ⟨by simp, hsize.2, rfl, fun _ _ => rfl,
      .inr hsize.1⟩⟩

/-- What `dirlink` has done. -/
inductive Linked (sb : Superblock) (s : Buffers) (i : Nat) (name : Mem) (inum : Nat) (r : Int)
    (s' : Buffers) : Prop where
  | present (hr : r = -1) (hs : s' = s)
      (hname : names s.data (dinode sb s.data i) (cstring name DIRSIZ) ≠ none)
  | noSpace (hr : r = -1)
      (hname : names s.data (dinode sb s.data i) (cstring name DIRSIZ) = none)
      (hsize : (dinode sb s'.data i).size = (dinode sb s.data i).size)
      (hentry : ∀ k < entries (dinode sb s.data i),
        entry s'.data (dinode sb s'.data i) k = entry s.data (dinode sb s.data i) k)
      (hfull : DiskFull sb s'.data ∨ (dinode sb s.data i).size = MAXFILE * BSIZE)
  | added (hr : r = 0) (j : Nat)
      (hname : names s.data (dinode sb s.data i) (cstring name DIRSIZ) = none)
      (hj : j ≤ entries (dinode sb s.data i))
      (hfree : j < entries (dinode sb s.data i) → dirSlots s.data (dinode sb s.data i) j = none)
      (hset : EntrySet s.data (dinode sb s.data i) s'.data (dinode sb s'.data i) j
        (.mkName (inum % 2 ^ 16) name))

lemma dirlink_spec (name : Mem) (inum : Nat) (h : Accounted sb s.data) (hd : IsDir sb s.data i) :
    wp (dirlink sb (inode sb s.data i) name inum) E (fun p s' =>
      Kept sb s i s' p.2 ∧ Linked sb s i name inum p.1 s') s := by
  unfold dirlink
  simp only [wp_bind]
  refine dirlookup_spec hd.type hd.noHoles hd.size ?_
  cases hf : found s.data (inode sb s.data i).toDinode (cstring name DIRSIZ) with
  | some p =>
    have hname : names s.data (dinode sb s.data i) (cstring name DIRSIZ) ≠ none := by
      rw [ne_eq, ← found_eq_none_iff]
      exact fun hnone => absurd (hf.symm.trans hnone) (by simp)
    exact ⟨.refl h hd.allocated hd.noHoles, .present rfl rfl hname⟩
  | none =>
    have hname := found_eq_none_iff.mp hf
    have hle : entries (inode sb s.data i).toDinode ≤ (inode sb s.data i).size :=
      Nat.div_le_self ..
    simp only [wp_bind]
    refine wp_imp (findFree_spec (j := 0) hd.noHoles hd.size ((inode sb s.data i).size + 1)
      (by omega) (Nat.zero_le _)) ?_
    rintro ⟨off, dp⟩ s1 ⟨hs1, hdp, j, hoff, hj, hfree⟩
    simp only at hdp hoff
    subst hs1 hdp hoff
    have hmod : inum % 2 ^ 16 < 2 ^ 16 := Nat.mod_lt _ (by decide)
    refine wp_imp (writeEntry_spec h hd hj hmod (Dirent.length_mkName ..)) ?_
    rintro ⟨r, dp'⟩ s' ⟨hkept, ⟨hr, hset⟩ | ⟨hr, hje, hsize, hentry, hfull⟩⟩
    · simp only at hr
      subst hr
      exact ⟨hkept, .added (by simp) j hname hj hfree hset⟩
    · exact ⟨hkept, .noSpace (if_neg hr) hname hsize hentry hfull⟩

/-! ### Erasing -/

/-- What `sys_unlink` does to the directory. -/
def eraseEntry (sb : Superblock) (dp : Inode) (name : Mem) : BlockM (Int × Inode) := do
  let (r, dp) ← dirlookup sb dp name
  match r with
  | none => return (-1, dp)
  | some (_, off) =>
    let (n, dp) ← writei sb dp (.kernel (Mem.ofList Dirent.zero.bytes)) off DIRENT
    if n ≠ some DIRENT then throw .unlinkWritei else return (0, dp)

/-- An entry that is there can be written over. -/
lemma writeZero_spec {Q : Option Nat × Inode → Buffers → Prop} (h : Accounted sb s.data)
    (hd : IsDir sb s.data i) (hj : j < entries (dinode sb s.data i))
    (hQ : ∀ dp' s', Kept sb s i s' dp' →
      EntrySet s.data (dinode sb s.data i) s'.data (dinode sb s'.data i) j Dirent.zero →
      Q (some DIRENT, dp') s') :
    wp (writei sb (inode sb s.data i) (.kernel (Mem.ofList Dirent.zero.bytes)) (DIRENT * j)
      DIRENT) E Q s := by
  refine wp_imp (writeEntry_spec h hd hj.le (by decide) rfl) ?_
  rintro ⟨r, dp'⟩ s' ⟨hkept, ⟨hr, hset⟩ | ⟨-, hje, -⟩⟩
  · simp only at hr
    subst hr
    exact hQ dp' s' hkept hset
  · omega

/-- What the erasure has done. -/
inductive Erased (sb : Superblock) (s : Buffers) (i : Nat) (name : Mem) (r : Int)
    (s' : Buffers) : Prop where
  | absent (hr : r = -1) (hs : s' = s)
      (hname : names s.data (dinode sb s.data i) (cstring name DIRSIZ) = none)
  | removed (hr : r = 0) (j inum : Nat) (hj : j < entries (dinode sb s.data i))
      (hslot : dirSlots s.data (dinode sb s.data i) j = some (cstring name DIRSIZ, inum))
      (hset : EntrySet s.data (dinode sb s.data i) s'.data (dinode sb s'.data i) j .zero)

lemma eraseEntry_spec (name : Mem) (h : Accounted sb s.data) (hd : IsDir sb s.data i) :
    wp (eraseEntry sb (inode sb s.data i) name) E (fun p s' =>
      Kept sb s i s' p.2 ∧ Erased sb s i name p.1 s') s := by
  unfold eraseEntry
  simp only [wp_bind]
  refine dirlookup_spec hd.type hd.noHoles hd.size ?_
  cases hf : found s.data (inode sb s.data i).toDinode (cstring name DIRSIZ) with
  | none =>
    exact ⟨.refl h hd.allocated hd.noHoles, .absent rfl rfl (found_eq_none_iff.mp hf)⟩
  | some p =>
    obtain ⟨inum, off⟩ := p
    obtain ⟨j, hj, rfl, hslot⟩ := found_eq_some hf
    simp only [wp_bind]
    refine writeZero_spec h hd hj fun dp' s' hkept hset => ?_
    simp only [ne_eq, not_true_eq_false, if_false]
    exact ⟨hkept, .removed rfl j inum hj hslot hset⟩

/-! ### The map -/

section Map

variable {r : Int}

lemma IsDir.of_kept (hd : IsDir sb s.data i) (hkept : Kept sb s i s' dp')
    (hsize : DIRENT ∣ (dinode sb s'.data i).size) : IsDir sb s'.data i :=
  ⟨hkept.allocated, hkept.type.trans hd.type, hkept.noHoles, hsize⟩

/-- `dirlink` keeps the directory a map, and adds the binding if it says so. -/
lemma Linked.map (hl : Linked sb s i name inum r s') (hd : Directory sb s.data i)
    (hkept : Kept sb s i s' dp') (hinum : 1 ≤ inum) (hlt : inum < 2 ^ 16) :
    let M := names s.data (dinode sb s.data i)
    let M' := names s'.data (dinode sb s'.data i)
    Directory sb s'.data i ∧
      ((M (cstring name DIRSIZ) = none ∧ r = 0 ∧
          M' = update M (cstring name DIRSIZ) (some inum)) ∨
        (r = -1 ∧ M' = M ∧ (M (cstring name DIRSIZ) = none →
          DiskFull sb s'.data ∨ (dinode sb s.data i).size = MAXFILE * BSIZE))) := by
  intro M M'
  cases hl with
  | present hr hs hname =>
    subst hs
    exact ⟨hd, .inr ⟨hr, rfl, fun hnone => absurd hnone hname⟩⟩
  | noSpace hr hname hsize hentry hfull =>
    have hcount : entries (dinode sb s'.data i) = entries (dinode sb s.data i) := by
      unfold entries
      rw [hsize]
    have hslots : ∀ k < entries (dinode sb s.data i), dirSlots s'.data (dinode sb s'.data i) k =
        dirSlots s.data (dinode sb s.data i) k := by
      intro k hk
      unfold dirSlots
      rw [hentry k hk]
    refine ⟨⟨hd.toIsDir.of_kept hkept (hsize ▸ hd.size), ?_⟩, .inr ⟨hr, ?_, fun _ => hfull⟩⟩
    · rw [hcount]
      exact hd.distinct.congr hslots
    · simp only [M', M, names, hcount]
      exact slotMap_congr hslots
  | added hr j hname hj hfree hset =>
    rw [Nat.mod_eq_of_lt hlt] at hset
    have hslot : (Dirent.mkName inum name).slot = some (cstring name DIRSIZ, inum) :=
      Dirent.slot_eq_some_iff.mpr ⟨Nat.ne_of_gt hinum, Dirent.key_mkName inum name, rfl⟩
    obtain ⟨hdist, hmap⟩ := slotMap_insert hd.distinct hj hfree hname
      (fun k hk => hslot ▸ hset.slots k hk)
    rw [← hset.entries_eq] at hdist hmap
    exact ⟨⟨hd.toIsDir.of_kept hkept (hset.dvd_size hd.size), hdist⟩, .inl ⟨hname, hr, hmap⟩⟩

/-- The erasure keeps the directory a map, and removes the binding. -/
lemma Erased.map (he : Erased sb s i name r s') (hd : Directory sb s.data i)
    (hkept : Kept sb s i s' dp') :
    let M := names s.data (dinode sb s.data i)
    let M' := names s'.data (dinode sb s'.data i)
    Directory sb s'.data i ∧
      (M (cstring name DIRSIZ) = none → r = -1 ∧ s' = s) ∧
      (M (cstring name DIRSIZ) ≠ none →
        r = 0 ∧ M' = update M (cstring name DIRSIZ) none) := by
  intro M M'
  cases he with
  | absent hr hs hname =>
    subst hs
    exact ⟨hd, fun _ => ⟨hr, rfl⟩, fun hne => absurd hname hne⟩
  | removed hr j inum hj hslot hset =>
    have hmax : max (entries (dinode sb s.data i)) (j + 1) = entries (dinode sb s.data i) := by
      omega
    have hzero : Dirent.zero.slot = none := rfl
    have hslots := hset.slots
    rw [hmax, hzero] at hslots
    obtain ⟨hdist, hmap⟩ := slotMap_erase hd.distinct hj hslot hslots
    have hcount := hset.entries_eq
    rw [hmax] at hcount
    rw [← hcount] at hdist
    refine ⟨⟨hd.toIsDir.of_kept hkept (hset.dvd_size hd.size), hdist⟩, fun hnone => ?_,
      fun _ => ⟨hr, ?_⟩⟩
    · have hsome : M (cstring name DIRSIZ) = some inum :=
        (slotMap_eq_some_iff hd.distinct).mpr ⟨j, hj, hslot⟩
      exact absurd (hsome.symm.trans hnone) (by simp)
    · simp only [M', names, hcount]
      exact hmap

/-- What happens elsewhere on the disk leaves the directory alone. -/
lemma Directory.of_sameFile (hd : Directory sb s.data i) (h : SameFile sb s.data s'.data i) :
    Directory sb s'.data i := by
  have hdi := h.inode_eq hd.allocated.2.1
  have hbyte := h.byte_eq hd.allocated
  have hslots : dirSlots s'.data (dinode sb s'.data i) = dirSlots s.data (dinode sb s.data i) := by
    funext k
    unfold dirSlots entry
    rw [hbyte]
  refine ⟨⟨h.allocated hd.allocated, hdi ▸ hd.type, ?_, hdi ▸ hd.size⟩, ?_⟩
  · exact h.noHoles hd.allocated hd.noHoles
  · rw [hslots, hdi]
    exact hd.distinct

end Map

/-! ### Runs -/

inductive DirEvent where
  | link (name : Mem) (inum : Nat) (r : Int)
  | erase (name : Mem) (r : Int)
  | elsewhere

/-- One step of a system that links and unlinks names in directory `i`. Other files may come, go
and change in between, so that the disk may be full at any time. -/
inductive DirStep (sb : Superblock) (i : Nat) : Buffers → DirEvent → Buffers → Prop where
  | link {s s' : Buffers} {name : Mem} {inum : Nat} {r : Int} {dp' : Inode}
      (hinum : 1 ≤ inum ∧ inum < 2 ^ 16)
      (hrun : (dirlink sb (inode sb s.data i) name inum).run s = .ok ((r, dp'), s')) :
      DirStep sb i s (.link name inum r) s'
  | erase {s s' : Buffers} {name : Mem} {r : Int} {dp' : Inode}
      (hrun : (eraseEntry sb (inode sb s.data i) name).run s = .ok ((r, dp'), s')) :
      DirStep sb i s (.erase name r) s'
  | elsewhere {s s' : Buffers} (hacc : Accounted sb s'.data)
      (hsame : SameFile sb s.data s'.data i) : DirStep sb i s .elsewhere s'

lemma DirStep.directory {e : DirEvent} (hstep : DirStep sb i s e s')
    (h : Accounted sb s.data ∧ Directory sb s.data i) :
    Accounted sb s'.data ∧ Directory sb s'.data i := by
  cases hstep with
  | link hinum hrun =>
    obtain ⟨hkept, hl⟩ := (wp_of_run hrun).mp
      (dirlink_spec (E := fun _ => False) _ _ h.1 h.2.toIsDir)
    exact ⟨hkept.accounted, (hl.map h.2 hkept hinum.1 hinum.2).1⟩
  | erase hrun =>
    obtain ⟨hkept, he⟩ := (wp_of_run hrun).mp
      (eraseEntry_spec (E := fun _ => False) _ h.1 h.2.toIsDir)
    exact ⟨hkept.accounted, (he.map h.2 hkept).1⟩
  | elsewhere hacc hsame => exact ⟨hacc, h.2.of_sameFile hsame⟩

/-- A directory refines a finite map: at any time the calls do to it what they say. -/
theorem directory_refines_map {tr : List DirEvent} (s0 s : Buffers) (i : Nat)
    (hacc : Accounted sb s0.data) (hdir : Directory sb s0.data i)
    (hrun : Run (DirStep sb i) s0 tr s) :
    let dp := inode sb s.data i
    let M := names s.data (dinode sb s.data i)
    (DIRENT ∣ dp.size ∧ DistinctSlots (dirSlots s.data dp.toDinode) (entries dp.toDinode)) ∧
    (∀ name, ∃ r, (dirlookup sb dp name).run s = .ok ((r, dp), s) ∧
      r.map Prod.fst = M (cstring name DIRSIZ) ∧
      ∀ inum off, r = some (inum, off) → off < dp.size ∧ DIRENT ∣ off ∧
        (Dirent.load (byte s.data dp.toDinode) off).inum = inum ∧
        (Dirent.load (byte s.data dp.toDinode) off).key = cstring name DIRSIZ) ∧
    (∀ name inum, 1 ≤ inum → inum < 2 ^ 16 →
      ∃ r s', (dirlink sb dp name inum).run s = .ok ((r, inode sb s'.data i), s') ∧
        ((M (cstring name DIRSIZ) = none ∧ r = 0 ∧ names s'.data (dinode sb s'.data i) =
            update M (cstring name DIRSIZ) (some inum)) ∨
          (r = -1 ∧ names s'.data (dinode sb s'.data i) = M ∧
            (M (cstring name DIRSIZ) = none →
              DiskFull sb s'.data ∨ dp.size = MAXFILE * BSIZE)))) ∧
    ∀ name, ∃ r s', (eraseEntry sb dp name).run s = .ok ((r, inode sb s'.data i), s') ∧
      (M (cstring name DIRSIZ) = none → r = -1 ∧ s' = s) ∧
      (M (cstring name DIRSIZ) ≠ none → r = 0 ∧ names s'.data (dinode sb s'.data i) =
        update M (cstring name DIRSIZ) none) := by
  intro dp M
  obtain ⟨hacc, hdir⟩ := hrun.invariant (I := fun _ s => Accounted sb s.data ∧
    Directory sb s.data i) ⟨hacc, hdir⟩ fun _ _ _ _ h hstep => hstep.directory h
  refine ⟨⟨hdir.size, hdir.distinct⟩, fun name => ?_, fun name inum h1 h2 => ?_, fun name => ?_⟩
  · have hwp : wp (dirlookup sb dp name) (fun _ => False) (fun p s' =>
        p = (found s.data (dinode sb s.data i) (cstring name DIRSIZ), dp) ∧ s' = s) s :=
      dirlookup_spec hdir.type hdir.noHoles hdir.size ⟨rfl, rfl⟩
    obtain ⟨p, s', hlook, rfl, rfl⟩ := wp_run hwp
    refine ⟨_, hlook, found_map_fst, fun inum off hfound => ?_⟩
    obtain ⟨j, hj, rfl, hslot⟩ := found_eq_some hfound
    obtain ⟨-, hkey, hinum⟩ := Dirent.slot_eq_some_iff.mp hslot
    refine ⟨?_, Nat.dvd_mul_right .., hinum, hkey⟩
    change DIRENT * j < (dinode sb s'.data i).size
    rw [← mul_entries hdir.size]
    exact Nat.mul_lt_mul_of_pos_left hj (by decide)
  · obtain ⟨⟨r, dp'⟩, s', hrun', hkept, hl⟩ := wp_run (dirlink_spec name inum hacc hdir.toIsDir)
    obtain rfl : dp' = inode sb s'.data i := hkept.current
    exact ⟨r, s', hrun', (hl.map hdir hkept h1 h2).2⟩
  · obtain ⟨⟨r, dp'⟩, s', hrun', hkept, he⟩ := wp_run (eraseEntry_spec name hacc hdir.toIsDir)
    obtain rfl : dp' = inode sb s'.data i := hkept.current
    exact ⟨r, s', hrun', (he.map hdir hkept).2⟩

/-- The bytes of a directory with one entry, `a` for inode 2. -/
def oneEntry : List UInt8 := Dirent.bytes ⟨2, 97 :: List.replicate 13 0⟩

lemma smallDisk_directory : Directory smallSb (smallDisk T_DIR oneEntry) 1 := by
  have htype : 0 < T_DIR ∧ T_DIR < 2 ^ 16 := by decide
  have hlen : oneEntry.length ≤ BSIZE := by decide
  have hd := dinode_smallDisk htype hlen
  refine ⟨⟨smallDisk_allocated htype hlen, by rw [hd]; rfl, smallDisk_noHoles htype hlen,
    by rw [hd]; decide⟩, ?_⟩
  rw [hd]
  intro j hj j' hj' _ _ _ _ _
  have hcount : entries (smallInode T_DIR oneEntry) = 1 := by decide
  rw [hcount] at hj hj'
  omega

theorem directory_refines_map_one :
    let s := buffers (smallDisk T_DIR oneEntry)
    ∃ r, (dirlookup smallSb (inode smallSb s.data 1) (Mem.ofList [97])).run s =
        .ok ((r, inode smallSb s.data 1), s) ∧
      r.map Prod.fst = names s.data (dinode smallSb s.data 1)
        (cstring (Mem.ofList [97]) DIRSIZ) := by
  have htype : 0 < T_DIR ∧ T_DIR < 2 ^ 16 := by decide
  have hlen : oneEntry.length ≤ BSIZE := by decide
  obtain ⟨r, hrun, hr, -⟩ := (directory_refines_map (buffers (smallDisk T_DIR oneEntry))
    (buffers (smallDisk T_DIR oneEntry)) 1 (smallDisk_accounted htype hlen) smallDisk_directory
    .nil).2.1 (Mem.ofList [97])
  exact ⟨r, hrun, hr⟩

end Xv6.Blocks
