import Xv6.Fs.Names

/-!
# The directory tree

An invariant of the inodes on disk: directories have `.` and `..`, a directory is named only in its
parent and at most once, and link counts are those of the tree. Each change that a call makes to the
inodes keeps it. A directory that is unlinked but still in use hangs off the tree by its `..`.
-/

namespace Xv6.Fs

open Function Lib

variable {n : Nat} {D D' : Nat → Dinode} {x y : Dinode} {d i ip dp : Nat} {name : Name}

/-! ### Directories -/

namespace Dinode

/-- The inode number of `..`. -/
def parent (x : Dinode) : Nat := (x.ents[1]?).elim 0 (·.inum)

/-- The entries after `.` and `..`. -/
def subs (x : Dinode) : List Dirent := x.ents.drop 2

/-- The entries of a directory other than `.` and `..` that name the inode. -/
def kids (x : Dinode) (i : Nat) : Nat :=
  if x.type = .dir then x.subs.countP (fun e => e.inum = i ∧ i ≠ 0) else 0

/-- One for a linked directory whose `..` is the inode. -/
def up (x : Dinode) (i : Nat) : Nat :=
  if x.type = .dir ∧ x.parent = i ∧ x.nlink ≠ 0 then 1 else 0

/-- The links that the inode makes. -/
def names (i : Nat) (x : Dinode) : Nat := x.kids i + x.up i

end Dinode

/-- The content of the directory `d`. -/
structure IsDir (d : Nat) (x : Dinode) : Prop where
  ents : x.ents = ⟨d, ['.']⟩ :: ⟨x.parent, ['.', '.']⟩ :: x.subs
  parent : x.parent ≠ 0
  plain : ∀ e ∈ x.subs, e.inum ≠ 0 → e.name ≠ ['.'] ∧ e.name ≠ ['.', '.']

lemma kids_of_ne (h : x.type ≠ .dir) (i : Nat) : x.kids i = 0 := if_neg h

lemma up_of_ne (h : x.type ≠ .dir) (i : Nat) : x.up i = 0 := if_neg fun hx => h hx.1

/-- Two inodes that make the same links: only the data may differ. -/
structure Like (x y : Dinode) : Prop where
  type : x.type = y.type
  nlink : x.nlink = y.nlink
  ents : y.type = .dir → x.ents = y.ents

lemma Like.refl (x : Dinode) : Like x x := ⟨rfl, rfl, fun _ => rfl⟩

lemma Like.parent (h : Like x y) (hdir : y.type = .dir) : x.parent = y.parent := by
  unfold Dinode.parent
  rw [h.ents hdir]

lemma Like.subs (h : Like x y) (hdir : y.type = .dir) : x.subs = y.subs := by
  unfold Dinode.subs
  rw [h.ents hdir]

lemma Like.kids (h : Like x y) (i : Nat) : x.kids i = y.kids i := by
  unfold Dinode.kids
  rw [h.type]
  split
  · rename_i hdir
    rw [h.subs hdir]
  · rfl

lemma Like.up (h : Like x y) (i : Nat) : x.up i = y.up i := by
  by_cases hdir : y.type = .dir
  · unfold Dinode.up
    rw [h.type, h.nlink, h.parent hdir]
  · rw [up_of_ne hdir, up_of_ne (by rwa [h.type])]

lemma IsDir.congr (h : IsDir d y) (hents : x.ents = y.ents) : IsDir d x where
  ents := by
    rw [Dinode.parent, Dinode.subs, hents]
    exact h.ents
  parent := by
    rw [Dinode.parent, hents]
    exact h.parent
  plain := by
    rw [Dinode.subs, hents]
    exact h.plain

/-! ### The tree -/

/-- The links to an inode. -/
def links (n : Nat) (D : Nat → Dinode) (i : Nat) : Nat := ∑ d ∈ Finset.range n, (D d).names i

/-- The inodes form a tree, and their link counts are right. -/
structure Tree (n : Nat) (D : Nat → Dinode) : Prop where
  bound : n ≤ 65536
  range : ∀ i, (D i).type ≠ .free → 1 ≤ i ∧ i < n
  dir : ∀ d, (D d).type = .dir → IsDir d (D d)
  root : (D ROOTINO).type = .dir
  rootParent : (D ROOTINO).parent = ROOTINO
  rootLinked : (D ROOTINO).nlink ≠ 0
  child : ∀ d i, 0 < (D d).kids i → (D i).type ≠ .free
  childDir : ∀ d i, 0 < (D d).kids i → (D i).type = .dir →
    (D i).parent = d ∧ i ≠ d ∧ i ≠ ROOTINO ∧ (D d).kids i = 1
  linked : ∀ d, (D d).type = .dir → (D d).nlink ≠ 0 → d ≠ ROOTINO → 0 < (D (D d).parent).kids d
  empty : ∀ d i, (D d).nlink = 0 → (D d).kids i = 0
  count : ∀ i, (D i).type ≠ .free → (D i).nlink.toNat = links n D i

/-- A directory that is unlinked has its parent still linked. -/
def Hung (D : Nat → Dinode) : Prop := ∀ d, (D d).type = .dir → (D d).nlink = 0 →
  (D (D d).parent).type = .dir ∧ (D (D d).parent).nlink ≠ 0

lemma dir_of_kids (h : 0 < x.kids i) : x.type = .dir := by
  by_contra hne
  rw [kids_of_ne hne] at h
  contradiction

lemma names_le (hd : d < n) (D : Nat → Dinode) (i : Nat) : (D d).names i ≤ links n D i :=
  Finset.single_le_sum (f := fun d => (D d).names i) (fun _ _ => Nat.zero_le _)
    (Finset.mem_range.mpr hd)

namespace Tree

lemma lt_of_dir (h : Tree n D) (hdir : (D d).type = .dir) : d < n :=
  (h.range d (by simp [hdir])).2

/-- An inode that is named is linked. -/
lemma nlink_of_kids (h : Tree n D) (hkids : 0 < (D d).kids i) : (D i).nlink ≠ 0 := by
  intro hzero
  have hcount := h.count i (h.child d i hkids)
  have hle := names_le (h.lt_of_dir (dir_of_kids hkids)) D i
  rw [hzero] at hcount
  unfold Dinode.names at hle
  have : (0 : UInt16).toNat = 0 := rfl
  omega

/-- The parent of a linked directory is linked. -/
lemma nlink_parent (h : Tree n D) (hdir : (D d).type = .dir) (hn : (D d).nlink ≠ 0) :
    (D (D d).parent).nlink ≠ 0 := by
  by_cases hroot : d = ROOTINO
  · rw [hroot, h.rootParent]
    exact h.rootLinked
  · intro hzero
    have := h.linked d hdir hn hroot
    rw [h.empty _ d hzero] at this
    contradiction

lemma dir_parent (h : Tree n D) (hdir : (D d).type = .dir) (hn : (D d).nlink ≠ 0) :
    (D (D d).parent).type = .dir := by
  by_cases hroot : d = ROOTINO
  · rw [hroot, h.rootParent]
    exact h.root
  · exact dir_of_kids (h.linked d hdir hn hroot)

/-- Nothing links to an inode that is free. -/
lemma links_free (h : Tree n D) (hfree : (D i).type = .free) : links n D i = 0 := by
  refine Finset.sum_eq_zero fun d _ => ?_
  have hkids : (D d).kids i = 0 := by
    by_contra hne
    exact h.child d i (Nat.pos_of_ne_zero hne) hfree
  have hup : (D d).up i = 0 := by
    unfold Dinode.up
    rw [if_neg]
    rintro ⟨hdir, rfl, hn⟩
    have := h.dir_parent hdir hn
    rw [hfree] at this
    contradiction
  rw [Dinode.names, hkids, hup, Nat.add_zero]

end Tree

lemma links_update (hd : d < n) (D : Nat → Dinode) (y : Dinode) (i : Nat) :
    links n (update D d y) i + (D d).names i = links n D i + y.names i :=
  sum_update (Finset.mem_range.mpr hd) (Dinode.names i) D y

/-! ### Inodes that are freed, and data that changes -/

/-- Inodes change only in their data, but unlinked ones may be freed. -/
def Shrinks (D D' : Nat → Dinode) : Prop :=
  ∀ i, Like (D' i) (D i) ∨ ((D i).type = .free ∨ (D i).nlink = 0) ∧ (D' i).type = .free

namespace Shrinks

/-- A directory that is left was there before. -/
lemma like_dir (h : Shrinks D D') (hdir : (D' d).type = .dir) : Like (D' d) (D d) := by
  rcases h d with hlike | ⟨-, hfree⟩
  · exact hlike
  · rw [hfree] at hdir
    contradiction

lemma like_linked (h : Shrinks D D') (hlive : (D i).type ≠ .free) (hn : (D i).nlink ≠ 0) :
    Like (D' i) (D i) := by
  rcases h i with hlike | ⟨hfree | hzero, -⟩
  · exact hlike
  · exact absurd hfree hlive
  · exact absurd hzero hn

lemma kids (h : Shrinks D D') (ht : Tree n D) (d i : Nat) : (D' d).kids i = (D d).kids i := by
  rcases h d with hlike | ⟨hgone, hfree⟩
  · exact hlike.kids i
  · rw [kids_of_ne (by simp [hfree])]
    rcases hgone with hgone | hzero
    · rw [kids_of_ne (by simp [hgone])]
    · rw [ht.empty d i hzero]

lemma up (h : Shrinks D D') (d i : Nat) : (D' d).up i = (D d).up i := by
  rcases h d with hlike | ⟨hgone, hfree⟩
  · exact hlike.up i
  · rw [up_of_ne (by simp [hfree])]
    rcases hgone with hgone | hzero
    · rw [up_of_ne (by simp [hgone])]
    · simp [Dinode.up, hzero]

lemma links (h : Shrinks D D') (ht : Tree n D) (i : Nat) : Fs.links n D' i = Fs.links n D i := by
  refine Finset.sum_congr rfl fun d _ => ?_
  rw [Dinode.names, Dinode.names, h.kids ht, h.up]

end Shrinks

lemma Tree.shrink (ht : Tree n D) (h : Shrinks D D') : Tree n D' := by
  have hroot : Like (D' ROOTINO) (D ROOTINO) := h.like_linked (by simp [ht.root]) ht.rootLinked
  have hold : ∀ i, (D' i).type ≠ .free → Like (D' i) (D i) := by
    intro i hi
    rcases h i with hlike | ⟨-, hfree⟩
    · exact hlike
    · exact absurd hfree hi
  exact {
    bound := ht.bound
    range := by
      intro i hi
      exact ht.range i (by rwa [← (hold i hi).type])
    dir := by
      intro d hdir
      have hlike := h.like_dir hdir
      rw [hlike.type] at hdir
      exact (ht.dir d hdir).congr (hlike.ents hdir)
    root := hroot.type.trans ht.root
    rootParent := (hroot.parent ht.root).trans ht.rootParent
    rootLinked := by
      rw [hroot.nlink]
      exact ht.rootLinked
    child := by
      intro d i hkids
      rw [h.kids ht] at hkids
      have hlive := ht.child d i hkids
      rw [(h.like_linked hlive (ht.nlink_of_kids hkids)).type]
      exact hlive
    childDir := by
      intro d i hkids hdir
      have hlike := h.like_dir hdir
      rw [h.kids ht] at hkids ⊢
      rw [hlike.type] at hdir
      rw [hlike.parent hdir]
      exact ht.childDir d i hkids hdir
    linked := by
      intro d hdir hn hne
      have hlike := h.like_dir hdir
      rw [hlike.type] at hdir
      rw [hlike.nlink] at hn
      rw [hlike.parent hdir, h.kids ht]
      exact ht.linked d hdir hn hne
    empty := by
      intro d i hn
      rw [h.kids ht]
      rcases h d with hlike | ⟨hfree | hzero, -⟩
      · exact ht.empty d i (by rwa [← hlike.nlink])
      · exact kids_of_ne (by simp [hfree]) i
      · exact ht.empty d i hzero
    count := by
      intro i hi
      have hlike := hold i hi
      rw [hlike.nlink, h.links ht]
      exact ht.count i (by rwa [← hlike.type]) }

lemma Hung.shrink (hh : Hung D) (h : Shrinks D D') : Hung D' := by
  intro d hdir hn
  have hlike := h.like_dir hdir
  rw [hlike.type] at hdir
  rw [hlike.nlink] at hn
  obtain ⟨hpdir, hlinked⟩ := hh d hdir hn
  have hparent := h.like_linked (by simp [hpdir]) hlinked
  rw [hlike.parent hdir, hparent.type, hparent.nlink]
  exact ⟨hpdir, hlinked⟩

/-! ### Entries that are added -/

lemma addEnt_cons (e : Dirent) (ents : List Dirent) (de : Dirent) :
    addEnt (e :: ents) de = if e.inum = 0 then de :: ents else e :: addEnt ents de := by
  by_cases hzero : e.inum = 0
  · simp [addEnt, emptyEnt, hzero]
  · have hempty : emptyEnt (e :: ents) = emptyEnt ents + 1 := by simp [emptyEnt, hzero]
    rw [if_neg hzero, addEnt, addEnt, hempty, List.length_cons]
    simp only [Nat.add_lt_add_iff_right, List.set_cons_succ, List.cons_append]
    split <;> rfl

lemma countP_addEnt (p : Dirent → Bool) (hp : ∀ e, e.inum = 0 → p e = false) (ents : List Dirent)
    (de : Dirent) : (addEnt ents de).countP p = ents.countP p + if p de then 1 else 0 := by
  induction ents with
  | nil => simp [addEnt_nil, List.countP_cons]
  | cons e ents ih =>
    rw [addEnt_cons]
    split
    · rename_i hzero
      simp [List.countP_cons, hp e hzero]
    · rw [List.countP_cons, List.countP_cons, ih]
      omega

section

variable {type : FileType}

section

variable (hx : IsDir d x) (hd : d ≠ 0)
include hx hd

lemma withEnt_ents : (withEnt x type name ip).ents =
    ⟨d, ['.']⟩ :: ⟨x.parent, ['.', '.']⟩ :: addEnt x.subs ⟨ip % 65536, name⟩ := by
  unfold withEnt
  rw [hx.ents, addEnt_cons, if_neg hd, addEnt_cons, if_neg hx.parent]

lemma withEnt_parent : (withEnt x type name ip).parent = x.parent := by
  rw [Dinode.parent, withEnt_ents hx hd]
  rfl

lemma withEnt_subs : (withEnt x type name ip).subs = addEnt x.subs ⟨ip % 65536, name⟩ := by
  rw [Dinode.subs, withEnt_ents hx hd]
  rfl

lemma withEnt_kids (hdir : x.type = .dir) (hip : ip ≠ 0) (hlt : ip < 65536) (i : Nat) :
    (withEnt x type name ip).kids i = x.kids i + if i = ip then 1 else 0 := by
  have htype : (withEnt x type name ip).type = .dir := hdir
  rw [Dinode.kids, if_pos htype, Dinode.kids, if_pos hdir, withEnt_subs hx hd,
    countP_addEnt _ (fun e he => by simp [he, eq_comm]), Nat.mod_eq_of_lt hlt]
  congr 1
  by_cases hi : i = ip
  · simp [hi, hip]
  · simp [hi, Ne.symm hi]

/-- A name that the directory does not have is neither `.` nor `..`. -/
lemma IsDir.absent (h : findEnt name x.ents = none) : name ≠ ['.'] ∧ name ≠ ['.', '.'] := by
  rw [findEnt_eq_none, hx.ents] at h
  constructor
  · rintro rfl
    exact h ⟨d, ['.']⟩ (by simp) hd rfl
  · rintro rfl
    exact h ⟨x.parent, ['.', '.']⟩ (by simp) hx.parent rfl

lemma withEnt_isDir (h : findEnt name x.ents = none) : IsDir d (withEnt x type name ip) where
  ents := by
    rw [withEnt_parent hx hd, withEnt_subs hx hd, withEnt_ents hx hd]
  parent := by
    rw [withEnt_parent hx hd]
    exact hx.parent
  plain := by
    rw [withEnt_subs hx hd]
    intro e he hne
    rcases mem_addEnt he with rfl | he
    · exact hx.absent hd h
    · exact hx.plain e he hne

end

end

/-- The entries of the linked directory `dp` change, and the inode `ip`. -/
structure Touches (D D' : Nat → Dinode) (dp ip : Nat) : Prop where
  same : ∀ d, d ≠ dp → d ≠ ip → D' d = D d
  type : (D' dp).type = .dir
  isDir : IsDir dp (D' dp)
  parent : (D' dp).parent = (D dp).parent
  linked : (D' dp).nlink ≠ 0

/-- The directory `dp` gets an entry for `ip`, which is not a directory of the tree so far. -/
structure Adds (D D' : Nat → Dinode) (dp ip : Nat) : Prop extends Touches D D' dp ip where
  kids : ∀ i, (D' dp).kids i = (D dp).kids i + if i = ip then 1 else 0
  live : (D' ip).type ≠ .free
  linkedNew : (D' ip).nlink ≠ 0
  kidsNew : ∀ i, (D' ip).kids i = 0
  dirNew : (D' ip).type = .dir → IsDir ip (D' ip) ∧ (D' ip).parent = dp ∧ (D ip).type = .free

lemma Tree.add (h : Tree n D) (ha : Adds D D' dp ip) (hdp : (D dp).type = .dir)
    (hn : (D dp).nlink ≠ 0) (hip : (D ip).type ≠ .dir) (hpos : 1 ≤ ip) (hlt : ip < n)
    (hcount : ∀ i, (D' i).type ≠ .free → (D' i).nlink.toNat = links n D' i) : Tree n D' := by
  have hne : ip ≠ dp := by
    rintro rfl
    exact hip hdp
  have hkids : ∀ d i, (D' d).kids i = (D d).kids i + if d = dp ∧ i = ip then 1 else 0 := by
    intro d i
    by_cases hd : d = dp
    · rw [hd, ha.kids]
      simp
    · rw [if_neg fun hc => hd hc.1]
      by_cases hd' : d = ip
      · rw [hd', ha.kidsNew, kids_of_ne hip]
      · rw [ha.same d hd hd', Nat.add_zero]
  -- A directory other than the new one was there before.
  have hold : ∀ d, (D' d).type = .dir → d ≠ ip →
      (D d).type = .dir ∧ (D' d).parent = (D d).parent := by
    intro d hdir hd
    by_cases hd' : d = dp
    · rw [hd']
      exact ⟨hdp, ha.parent⟩
    · rw [ha.same d hd' hd] at hdir ⊢
      exact ⟨hdir, rfl⟩
  have hroot : ip ≠ ROOTINO := by
    rintro rfl
    exact hip h.root
  have hrootdir : (D' ROOTINO).type = .dir := by
    by_cases hd : ROOTINO = dp
    · rw [hd]
      exact ha.type
    · rw [ha.same _ hd hroot.symm]
      exact h.root
  exact {
    bound := h.bound
    range := by
      intro i hi
      by_cases hi' : i = ip
      · omega
      · by_cases hi'' : i = dp
        · rw [hi'']
          exact h.range dp (by simp [hdp])
        · rw [ha.same i hi'' hi'] at hi
          exact h.range i hi
    dir := by
      intro d hdir
      by_cases hd : d = ip
      · rw [hd] at hdir ⊢
        exact (ha.dirNew hdir).1
      · by_cases hd' : d = dp
        · rw [hd']
          exact ha.isDir
        · rw [ha.same d hd' hd] at hdir ⊢
          exact h.dir d hdir
    root := hrootdir
    rootParent := (hold _ hrootdir hroot.symm).2.trans h.rootParent
    rootLinked := by
      by_cases hd : ROOTINO = dp
      · rw [hd]
        exact ha.linked
      · rw [ha.same _ hd hroot.symm]
        exact h.rootLinked
    child := by
      intro d i hk
      by_cases hi : i = ip
      · rw [hi]
        exact ha.live
      · rw [hkids, if_neg fun hc => hi hc.2] at hk
        have hlive := h.child d i hk
        by_cases hi' : i = dp
        · rw [hi', ha.type]
          decide
        · rwa [ha.same i hi' hi]
    childDir := by
      intro d i hk hdir
      by_cases hi : i = ip
      · -- The new directory is named only where it was added.
        subst hi
        obtain ⟨-, hparent, hfree⟩ := ha.dirNew hdir
        have hzero : (D d).kids i = 0 := by
          by_contra hnz
          exact h.child d i (Nat.pos_of_ne_zero hnz) hfree
        rw [hkids, hzero] at hk ⊢
        have hd : d = dp := by
          by_contra hd
          simp [hd] at hk
        subst hd
        exact ⟨hparent, hne, hroot, by simp⟩
      · rw [hkids, if_neg fun hc => hi hc.2] at hk ⊢
        obtain ⟨hdir', hparent⟩ := hold i hdir hi
        rw [hparent]
        exact h.childDir d i hk hdir'
    linked := by
      intro d hdir hnl hd
      by_cases hd' : d = ip
      · rw [hd'] at hdir ⊢
        rw [(ha.dirNew hdir).2.1, hkids]
        simp
      · obtain ⟨hdir', hparent⟩ := hold d hdir hd'
        rw [hparent, hkids]
        have hnl' : (D d).nlink ≠ 0 := by
          by_cases hd'' : d = dp
          · rwa [hd'']
          · rwa [ha.same d hd'' hd'] at hnl
        have := h.linked d hdir' hnl' hd
        omega
    empty := by
      intro d i hz
      have hd : d ≠ dp := by
        rintro rfl
        exact ha.linked hz
      have hd' : d ≠ ip := by
        rintro rfl
        exact ha.linkedNew hz
      rw [ha.same d hd hd'] at hz ⊢
      exact h.empty d i hz
    count := hcount }

section

variable {type : FileType} (h : Tree n D) (hdp : (D dp).type = .dir) (hn : (D dp).nlink ≠ 0)
  (hnone : findEnt name (D dp).ents = none) (hpos : 1 ≤ ip) (hlt : ip < n)
  (hip : (D ip).type ≠ .dir) (hy : (withEnt (D dp) type name ip).nlink ≠ 0)

include h hdp hpos hlt

lemma Tree.withEnt_kids (i : Nat) : (withEnt (D dp) type name ip).kids i =
    (D dp).kids i + if i = ip then 1 else 0 := by
  have hd := h.range dp (by simp [hdp])
  have := h.bound
  exact Fs.withEnt_kids (h.dir dp hdp) (by omega) hdp (by omega) (by omega) i

include hip

omit hpos hlt h in
lemma ne_of_dir : ip ≠ dp := by
  rintro rfl
  exact hip hdp

include hnone hy in
lemma adds_withEnt (hx : x.type ≠ .free) (hxn : x.nlink ≠ 0) (hxk : ∀ i, x.kids i = 0)
    (hxd : x.type = .dir → IsDir ip x ∧ x.parent = dp ∧ (D ip).type = .free) :
    Adds D (update (update D ip x) dp (withEnt (D dp) type name ip)) dp ip := by
  have hne := ne_of_dir hdp hip
  have hd : dp ≠ 0 := by
    have := h.range dp (by simp [hdp])
    omega
  have hatip : update (update D ip x) dp (withEnt (D dp) type name ip) ip = x := by
    rw [update_of_ne hne, update_self]
  have hatdp : update (update D ip x) dp (withEnt (D dp) type name ip) dp =
      withEnt (D dp) type name ip := update_self ..
  refine ⟨⟨?_, ?_, ?_, ?_, ?_⟩, ?_, ?_, ?_, ?_, ?_⟩
  · intro d h₁ h₂
    rw [update_of_ne h₁, update_of_ne h₂]
  · rw [hatdp]
    exact hdp
  · rw [hatdp]
    exact withEnt_isDir (h.dir dp hdp) hd hnone
  · rw [hatdp]
    exact withEnt_parent (h.dir dp hdp) hd
  · rwa [hatdp]
  · rw [hatdp]
    exact h.withEnt_kids hdp hpos hlt
  · rwa [hatip]
  · rwa [hatip]
  · rwa [hatip]
  · rwa [hatip]

include hn hy in
/-- The links after an entry has been added. -/
lemma links_withEnt (hxk : ∀ i, x.kids i = 0) (i : Nat) :
    links n (update (update D ip x) dp (withEnt (D dp) type name ip)) i =
      links n D i + (if i = ip then 1 else 0) + x.up i := by
  have hd := h.range dp (by simp [hdp])
  have h₁ := links_update hd.2 (update D ip x) (withEnt (D dp) type name ip) i
  have h₂ := links_update hlt D x i
  rw [update_of_ne (ne_of_dir hdp hip).symm] at h₁
  have hup : (withEnt (D dp) type name ip).up i = (D dp).up i := by
    have hparent : (withEnt (D dp) type name ip).parent = _ :=
      withEnt_parent (h.dir dp hdp) (by omega)
    have htype : (withEnt (D dp) type name ip).type = .dir := hdp
    simp [Dinode.up, hparent, htype, hdp, hn, hy]
  simp only [Dinode.names, h.withEnt_kids hdp hpos hlt, hup, kids_of_ne hip, up_of_ne hip,
    hxk] at h₁ h₂
  omega

end

/-- An entry for a file or device is added, and its link count is increased. -/
lemma Tree.enter (h : Tree n D) (hdp : (D dp).type = .dir) (hn : (D dp).nlink ≠ 0)
    (hnone : findEnt name (D dp).ents = none) (hpos : 1 ≤ ip) (hlt : ip < n)
    (hip : (D ip).type ≠ .dir) (hfree : x.type ≠ .free) (hdir : x.type ≠ .dir)
    (hcount : x.nlink.toNat = links n D ip + 1) :
    Adds D (update (update D ip x) dp (withEnt (D dp) .file name ip)) dp ip ∧
    Tree n (update (update D ip x) dp (withEnt (D dp) .file name ip)) := by
  have hne := ne_of_dir hdp hip
  have hxk := kids_of_ne hdir
  have hxn : x.nlink ≠ 0 := by
    intro hzero
    rw [hzero] at hcount
    exact absurd hcount (Nat.succ_ne_zero _).symm
  have hyn : (withEnt (D dp) .file name ip).nlink ≠ 0 := hn
  have ha := adds_withEnt h hdp hnone hpos hlt hip hyn hfree hxn hxk fun hd => absurd hd hdir
  refine ⟨ha, h.add ha hdp hn hip hpos hlt fun i hi => ?_⟩
  rw [links_withEnt h hdp hn hpos hlt hip hyn hxk, up_of_ne hdir]
  by_cases hi' : i = ip
  · rw [hi', update_of_ne hne, update_self, if_pos rfl]
    exact hcount
  · rw [if_neg hi']
    by_cases hi'' : i = dp
    · rw [hi'', update_self]
      exact h.count dp (by simp [hdp])
    · rw [ha.same i hi'' hi'] at hi ⊢
      exact h.count i hi

lemma toNat_add_one {m : UInt16} (h : m ≠ 65535) : (m + 1).toNat = m.toNat + 1 := by
  have hlt := m.toNat_lt
  have hne : m.toNat ≠ 65535 := fun heq => h (UInt16.toNat_inj.mp heq)
  rw [UInt16.toNat_add]
  show (m.toNat + 1) % 65536 = _
  omega

lemma toNat_sub_one {m : UInt16} (h : m ≠ 0) : (m - 1).toNat + 1 = m.toNat := by
  have hlt := m.toNat_lt
  have hne : m.toNat ≠ 0 := fun heq => h (UInt16.toNat_inj.mp heq)
  rw [UInt16.toNat_sub]
  show (65536 - 1 + m.toNat) % 65536 + 1 = _
  omega

/-- A directory is made. -/
lemma Tree.mkdir {major minor : Int} (h : Tree n D) (hdp : (D dp).type = .dir)
    (hn : (D dp).nlink ≠ 0) (hmax : (D dp).nlink ≠ 65535) (hnone : findEnt name (D dp).ents = none)
    (hpos : 1 ≤ ip) (hlt : ip < n) (hip : (D ip).type = .free) :
    Adds D (update (update D ip (newInode .dir major minor ip dp)) dp
      (withEnt (D dp) .dir name ip)) dp ip ∧
    Tree n (update (update D ip (newInode .dir major minor ip dp)) dp
      (withEnt (D dp) .dir name ip)) := by
  have hdp' := h.range dp (by simp [hdp])
  have hbound := h.bound
  have hnotdir : (D ip).type ≠ .dir := by simp [hip]
  have hne := ne_of_dir hdp hnotdir
  have hynlink : (withEnt (D dp) .dir name ip).nlink = (D dp).nlink + 1 := rfl
  have hyn : (withEnt (D dp) .dir name ip).nlink ≠ 0 := by
    intro hzero
    have hnat := toNat_add_one hmax
    rw [← hynlink, hzero] at hnat
    exact absurd hnat (Nat.succ_ne_zero _).symm
  have hxents : (newInode .dir major minor ip dp).ents =
      [⟨ip, ['.']⟩, ⟨dp, ['.', '.']⟩] := by
    simp [newInode, newEnts, Nat.mod_eq_of_lt (show ip < 65536 by omega),
      Nat.mod_eq_of_lt (show dp < 65536 by omega)]
  have hxparent : (newInode .dir major minor ip dp).parent = dp := by
    rw [Dinode.parent, hxents]
    rfl
  have hxsubs : (newInode .dir major minor ip dp).subs = [] := by
    rw [Dinode.subs, hxents]
    rfl
  have hxk : ∀ i, (newInode .dir major minor ip dp).kids i = 0 := by
    intro i
    rw [Dinode.kids, hxsubs]
    simp
  have hxup : ∀ i, (newInode .dir major minor ip dp).up i = if i = dp then 1 else 0 := by
    intro i
    rw [Dinode.up, hxparent]
    simp [newInode, eq_comm]
  have hxdir : IsDir ip (newInode .dir major minor ip dp) := by
    refine ⟨?_, ?_, ?_⟩
    · rw [hxparent, hxsubs, hxents]
    · rw [hxparent]
      omega
    · rw [hxsubs]
      simp
  have ha := adds_withEnt h hdp hnone hpos hlt hnotdir hyn (x := newInode .dir major minor ip dp)
    (by simp [newInode]) (by simp [newInode]) hxk fun _ => ⟨hxdir, hxparent, hip⟩
  refine ⟨ha, h.add ha hdp hn hnotdir hpos hlt fun i hi => ?_⟩
  rw [links_withEnt h hdp hn hpos hlt hnotdir hyn hxk, hxup]
  by_cases hi' : i = ip
  · rw [hi', update_of_ne hne, update_self, if_pos rfl, if_neg hne,
      h.links_free hip]
    rfl
  · rw [if_neg hi']
    by_cases hi'' : i = dp
    · rw [hi'', update_self, if_pos rfl, hynlink, toNat_add_one hmax]
      have := h.count dp (by simp [hdp])
      omega
    · rw [ha.same i hi'' hi'] at hi ⊢
      rw [if_neg hi'']
      exact h.count i hi

/-- Adding an entry does not change what the unlinked directories hang off. -/
lemma Hung.add (hh : Hung D) (ha : Adds D D' dp ip) (hdp : (D dp).type = .dir)
    (hip : (D ip).type ≠ .dir) : Hung D' := by
  have hne := ne_of_dir hdp hip
  intro d hdir hn
  have hd : d ≠ dp := by
    rintro rfl
    exact ha.linked hn
  have hd' : d ≠ ip := by
    rintro rfl
    exact ha.linkedNew hn
  rw [ha.same d hd hd'] at hdir hn ⊢
  have hparent := hh d hdir hn
  by_cases hp : (D d).parent = dp
  · rw [hp]
    exact ⟨ha.type, ha.linked⟩
  · have hp' : (D d).parent ≠ ip := by
      intro heq
      rw [heq] at hparent
      exact hip hparent.1
    rw [ha.same _ hp hp']
    exact hparent

/-! ### Entries that are removed -/

lemma countP_set (p : Dirent → Bool) {ents : List Dirent} {k : Nat} {e : Dirent} (e' : Dirent)
    (h : ents[k]? = some e) :
    (ents.set k e').countP p + (if p e then 1 else 0) =
      ents.countP p + if p e' then 1 else 0 := by
  induction ents generalizing k with
  | nil => simp at h
  | cons a ents ih =>
    cases k with
    | zero =>
      obtain rfl : a = e := by simpa using h
      rw [List.set_cons_zero, List.countP_cons, List.countP_cons]
      omega
    | succ k =>
      have := ih (k := k) (by simpa using h)
      rw [List.set_cons_succ, List.countP_cons, List.countP_cons]
      omega

section

variable {type : FileType} {off : Nat}

/-- An entry with another name than `.` and `..` comes after them. -/
lemma IsDir.found (hx : IsDir d x) (hdot : name ≠ ['.']) (hdots : name ≠ ['.', '.'])
    (h : findEnt name x.ents = some (ip, off)) :
    ip ≠ 0 ∧ ∃ k, off = k + 2 ∧ x.subs[k]? = some ⟨ip, name⟩ := by
  obtain ⟨hne, hent⟩ := findEnt_some h
  refine ⟨hne, ?_⟩
  rw [hx.ents] at hent
  match off with
  | 0 =>
    have heq : (⟨d, ['.']⟩ : Dirent) = ⟨ip, name⟩ := by simpa using hent
    exact absurd (congrArg Dirent.name heq).symm hdot
  | 1 =>
    have heq : (⟨x.parent, ['.', '.']⟩ : Dirent) = ⟨ip, name⟩ := by simpa using hent
    exact absurd (congrArg Dirent.name heq).symm hdots
  | k + 2 => exact ⟨k, rfl, by simpa using hent⟩

lemma withoutEnt_ents (hx : IsDir d x) (k : Nat) : (withoutEnt x (k + 2) type).ents =
    ⟨d, ['.']⟩ :: ⟨x.parent, ['.', '.']⟩ :: x.subs.set k ⟨0, []⟩ := by
  unfold withoutEnt
  rw [hx.ents]
  rfl

lemma withoutEnt_parent (hx : IsDir d x) (k : Nat) :
    (withoutEnt x (k + 2) type).parent = x.parent := by
  rw [Dinode.parent, withoutEnt_ents hx]
  rfl

lemma withoutEnt_subs (hx : IsDir d x) (k : Nat) :
    (withoutEnt x (k + 2) type).subs = x.subs.set k ⟨0, []⟩ := by
  rw [Dinode.subs, withoutEnt_ents hx]
  rfl

lemma withoutEnt_isDir (hx : IsDir d x) (k : Nat) : IsDir d (withoutEnt x (k + 2) type) where
  ents := by
    rw [withoutEnt_parent hx, withoutEnt_subs hx, withoutEnt_ents hx]
  parent := by
    rw [withoutEnt_parent hx]
    exact hx.parent
  plain := by
    rw [withoutEnt_subs hx]
    intro e he hne
    rcases List.mem_or_eq_of_mem_set he with he | rfl
    · exact hx.plain e he hne
    · exact absurd rfl hne

lemma withoutEnt_kids {k : Nat} (hx : IsDir d x) (hdir : x.type = .dir) (hip : ip ≠ 0)
    (hent : x.subs[k]? = some ⟨ip, name⟩) (i : Nat) :
    (withoutEnt x (k + 2) type).kids i + (if i = ip then 1 else 0) = x.kids i := by
  have htype : (withoutEnt x (k + 2) type).type = .dir := hdir
  have hset := countP_set (fun e => decide (e.inum = i ∧ i ≠ 0)) ⟨0, []⟩ hent
  rw [Dinode.kids, if_pos htype, Dinode.kids, if_pos hdir, withoutEnt_subs hx]
  have hzero : ¬ (0 = i ∧ i ≠ 0) := fun hc => hc.2 hc.1.symm
  have hone : (ip = i ∧ i ≠ 0) ↔ i = ip := by
    constructor
    · exact fun hc => hc.1.symm
    · rintro rfl
      exact ⟨rfl, hip⟩
  simpa only [decide_eq_true_eq, if_neg hzero, hone, Nat.add_zero] using hset

end

/-- The entry for `ip` is removed from the directory `dp`. A directory `ip` is empty and not linked
any more. -/
structure Removes (D D' : Nat → Dinode) (dp ip : Nat) : Prop extends Touches D D' dp ip where
  kids : ∀ i, (D' dp).kids i + (if i = ip then 1 else 0) = (D dp).kids i
  typeOld : (D' ip).type = (D ip).type
  entsOld : (D' ip).ents = (D ip).ents
  dirOld : (D ip).type = .dir → (D' ip).nlink = 0 ∧ ∀ i, (D ip).kids i = 0

lemma Tree.remove (h : Tree n D) (hr : Removes D D' dp ip) (hdp : (D dp).type = .dir)
    (hn : (D dp).nlink ≠ 0) (hne : ip ≠ dp)
    (hcount : ∀ i, (D' i).type ≠ .free → (D' i).nlink.toNat = links n D' i) : Tree n D' := by
  have htype : ∀ d, (D' d).type = (D d).type := by
    intro d
    by_cases hd : d = dp
    · rw [hd, hr.type, hdp]
    · by_cases hd' : d = ip
      · rw [hd', hr.typeOld]
      · rw [hr.same d hd hd']
  have hparent : ∀ d, (D' d).parent = (D d).parent := by
    intro d
    by_cases hd : d = dp
    · rw [hd, hr.parent]
    · by_cases hd' : d = ip
      · rw [hd', Dinode.parent, hr.entsOld, Dinode.parent]
      · rw [hr.same d hd hd']
  have hkidsip : ∀ i, (D' ip).kids i = (D ip).kids i := by
    intro i
    rw [Dinode.kids, hr.typeOld, Dinode.subs, hr.entsOld, Dinode.kids, Dinode.subs]
  have hkids : ∀ d i, (D' d).kids i + (if d = dp ∧ i = ip then 1 else 0) = (D d).kids i := by
    intro d i
    by_cases hd : d = dp
    · rw [hd, ← hr.kids]
      simp
    · rw [if_neg fun hc => hd hc.1, Nat.add_zero]
      by_cases hd' : d = ip
      · rw [hd', hkidsip]
      · rw [hr.same d hd hd']
  have hnamed : 0 < (D dp).kids ip := by
    have := hr.kids ip
    rw [if_pos rfl] at this
    omega
  have hroot : (D ip).type = .dir → ip ≠ ROOTINO := fun hd => (h.childDir dp ip hnamed hd).2.2.1
  exact {
    bound := h.bound
    range := by
      intro i hi
      rw [htype] at hi
      exact h.range i hi
    dir := by
      intro d hdir
      rw [htype] at hdir
      by_cases hd : d = dp
      · rw [hd]
        exact hr.isDir
      · by_cases hd' : d = ip
        · rw [hd'] at hdir ⊢
          exact (h.dir ip hdir).congr hr.entsOld
        · rw [hr.same d hd hd']
          exact h.dir d hdir
    root := by
      rw [htype]
      exact h.root
    rootParent := by
      rw [hparent]
      exact h.rootParent
    rootLinked := by
      by_cases hd : ROOTINO = dp
      · rw [hd]
        exact hr.linked
      · have hd' : ROOTINO ≠ ip := by
          intro heq
          exact hroot (by rw [← heq]; exact h.root) heq.symm
        rw [hr.same _ hd hd']
        exact h.rootLinked
    child := by
      intro d i hk
      rw [htype]
      exact h.child d i (by rw [← hkids]; omega)
    childDir := by
      intro d i hk hdir
      rw [htype] at hdir
      have hle := hkids d i
      obtain ⟨hp, hself, hrooti, hone⟩ := h.childDir d i (by omega) hdir
      rw [hparent]
      exact ⟨hp, hself, hrooti, by omega⟩
    linked := by
      intro d hdir hnl hd
      rw [htype] at hdir
      rw [hparent]
      have hdip : d ≠ ip := by
        rintro rfl
        exact hnl (hr.dirOld hdir).1
      have hnl' : (D d).nlink ≠ 0 := by
        by_cases hd' : d = dp
        · rwa [hd']
        · rwa [hr.same d hd' hdip] at hnl
      have hold := h.linked d hdir hnl' hd
      have hle := hkids (D d).parent d
      rw [if_neg fun hc => hdip hc.2] at hle
      omega
    empty := by
      intro d i hz
      have hd : d ≠ dp := by
        rintro rfl
        exact hr.linked hz
      by_cases hd' : d = ip
      · rw [hd', hkidsip]
        by_cases hdir : (D ip).type = .dir
        · exact (hr.dirOld hdir).2 i
        · exact kids_of_ne hdir i
      · rw [hr.same d hd hd'] at hz ⊢
        exact h.empty d i hz
    count := hcount }

/-- Unlinking keeps what the unlinked directories hang off, unless one hangs off the directory that
is unlinked. -/
lemma Hung.remove (hh : Hung D) (hr : Removes D D' dp ip) (hparent : (D ip).type = .dir →
    (D ip).parent = dp ∧ ∀ d, (D d).type = .dir → (D d).nlink = 0 → (D d).parent ≠ ip) :
    Hung D' := by
  intro d hdir hn
  have hd : d ≠ dp := by
    rintro rfl
    exact hr.linked hn
  by_cases hd' : d = ip
  · rw [hd', hr.typeOld] at hdir
    have hp : (D' ip).parent = dp := by
      rw [Dinode.parent, hr.entsOld]
      exact (hparent hdir).1
    rw [hd', hp]
    exact ⟨hr.type, hr.linked⟩
  · rw [hr.same d hd hd'] at hdir hn ⊢
    have hold := hh d hdir hn
    by_cases hp : (D d).parent = dp
    · rw [hp]
      exact ⟨hr.type, hr.linked⟩
    · have hp' : (D d).parent ≠ ip := by
        intro heq
        rw [heq] at hold
        exact (hparent hold.1).2 d hdir hn heq
      rw [hr.same _ hp hp']
      exact hold

/-- The inodes after `unlink`. -/
def unlinked (D : Nat → Dinode) (dp ip k : Nat) : Nat → Dinode :=
  update (update D dp (withoutEnt (D dp) (k + 2) (D ip).type)) ip
    ((D ip).setNlink ((D ip).nlink - 1))

section

variable {k : Nat} (h : Tree n D) (hdp : (D dp).type = .dir) (hip : ip ≠ 0)
  (hent : (D dp).subs[k]? = some ⟨ip, name⟩)

include hdp hip hent in
lemma kids_of_ent : 0 < (D dp).kids ip := by
  rw [Dinode.kids, if_pos hdp, List.countP_pos_iff]
  exact ⟨⟨ip, name⟩, List.mem_of_getElem? hent, by simpa using hip⟩

include h hdp hip hent

lemma Tree.ne_of_ent : ip ≠ dp := by
  rintro rfl
  exact (h.childDir ip ip (kids_of_ent hdp hip hent) hdp).2.1 rfl

lemma Tree.nlink_of_ent : (D dp).nlink ≠ 0 := by
  intro hzero
  have hnamed := kids_of_ent hdp hip hent
  rw [h.empty dp ip hzero] at hnamed
  contradiction

lemma removes_unlinked (hy : (withoutEnt (D dp) (k + 2) (D ip).type).nlink ≠ 0)
    (hdirOld : (D ip).type = .dir → (D ip).nlink - 1 = 0 ∧ ∀ i, (D ip).kids i = 0) :
    Removes D (unlinked D dp ip k) dp ip := by
  have hne := h.ne_of_ent hdp hip hent
  have hatip : unlinked D dp ip k ip = (D ip).setNlink ((D ip).nlink - 1) := update_self ..
  have hatdp : unlinked D dp ip k dp = withoutEnt (D dp) (k + 2) (D ip).type := by
    rw [unlinked, update_of_ne hne.symm, update_self]
  refine ⟨⟨?_, ?_, ?_, ?_, ?_⟩, ?_, ?_, ?_, ?_⟩
  · intro d h₁ h₂
    rw [unlinked, update_of_ne h₂, update_of_ne h₁]
  · rw [hatdp]
    exact hdp
  · rw [hatdp]
    exact withoutEnt_isDir (h.dir dp hdp) k
  · rw [hatdp]
    exact withoutEnt_parent (h.dir dp hdp) k
  · rwa [hatdp]
  · rw [hatdp]
    exact withoutEnt_kids (h.dir dp hdp) hdp hip hent
  · rw [hatip]
    rfl
  · rw [hatip]
    rfl
  · rwa [hatip]

/-- The links after an entry has been removed. -/
lemma links_unlinked (hy : (withoutEnt (D dp) (k + 2) (D ip).type).nlink ≠ 0) (i : Nat) :
    links n (unlinked D dp ip k) i + (if i = ip then 1 else 0) + (D ip).up i =
      links n D i + ((D ip).setNlink ((D ip).nlink - 1)).up i := by
  have hne := h.ne_of_ent hdp hip hent
  have hn := h.nlink_of_ent hdp hip hent
  have hd := h.range dp (by simp [hdp])
  have hlive := h.range ip (h.child dp ip (kids_of_ent hdp hip hent))
  have h₁ := links_update hlive.2 (update D dp (withoutEnt (D dp) (k + 2) (D ip).type))
    ((D ip).setNlink ((D ip).nlink - 1)) i
  have h₂ := links_update hd.2 D (withoutEnt (D dp) (k + 2) (D ip).type) i
  rw [update_of_ne hne] at h₁
  have hup : (withoutEnt (D dp) (k + 2) (D ip).type).up i = (D dp).up i := by
    have htype : (withoutEnt (D dp) (k + 2) (D ip).type).type = .dir := hdp
    simp [Dinode.up, withoutEnt_parent (h.dir dp hdp), htype, hdp, hn, hy]
  have hk : (withoutEnt (D dp) (k + 2) (D ip).type).kids i + _ = _ :=
    withoutEnt_kids (h.dir dp hdp) hdp hip hent i
  have hkids : ((D ip).setNlink ((D ip).nlink - 1)).kids i = (D ip).kids i := rfl
  simp only [Dinode.names, hup, hkids] at h₁ h₂
  unfold unlinked
  omega

/-- Only the entry in its parent links to an empty directory. -/
lemma Tree.links_empty (hdir : (D ip).type = .dir) (hempty : ∀ i, (D ip).kids i = 0) :
    links n D ip = 1 := by
  obtain ⟨hparent, hne, hroot, hone⟩ := h.childDir dp ip (kids_of_ent hdp hip hent) hdir
  have hup : ∀ d, (D d).up ip = 0 := by
    intro d
    rw [Dinode.up, if_neg]
    rintro ⟨hd, hp, hn⟩
    have hdroot : d ≠ ROOTINO := by
      rintro rfl
      rw [h.rootParent] at hp
      exact hroot hp.symm
    have hkid := h.linked d hd hn hdroot
    rw [hp, hempty] at hkid
    contradiction
  have hother : ∀ d, d ≠ dp → (D d).kids ip = 0 := by
    intro d hd
    by_contra hk
    exact hd ((h.childDir d ip (Nat.pos_of_ne_zero hk) hdir).1.symm.trans hparent)
  unfold links
  rw [Finset.sum_eq_single dp]
  · rw [Dinode.names, hone, hup]
  · intro d _ hd
    rw [Dinode.names, hother d hd, hup, Nat.add_zero]
  · exact fun hnot => absurd (Finset.mem_range.mpr (h.lt_of_dir hdp)) hnot

/-- A directory with a subdirectory has at least two links. -/
lemma Tree.two_le_links (hdir : (D ip).type = .dir) (hempty : ∀ i, (D ip).kids i = 0) :
    2 ≤ links n D dp := by
  have hnamed := kids_of_ent hdp hip hent
  obtain ⟨hparent, hne, hroot, -⟩ := h.childDir dp ip hnamed hdir
  have hn := h.nlink_of_ent hdp hip hent
  have hup : 1 ≤ (D ip).names dp := by
    rw [Dinode.names, Dinode.up, if_pos ⟨hdir, hparent, h.nlink_of_kids hnamed⟩]
    omega
  -- The other link is the entry for the directory, or `..` of the root.
  obtain ⟨d, hd, hdn, hd1⟩ : ∃ d, d ≠ ip ∧ d < n ∧ 1 ≤ (D d).names dp := by
    by_cases hr : dp = ROOTINO
    · refine ⟨dp, Ne.symm hne, h.lt_of_dir hdp, ?_⟩
      rw [Dinode.names, Dinode.up, if_pos ⟨hdp, by rw [hr, h.rootParent], hn⟩]
      omega
    · have hkid := h.linked dp hdp hn hr
      refine ⟨(D dp).parent, ?_, h.lt_of_dir (dir_of_kids hkid), ?_⟩
      · intro heq
        rw [heq, hempty] at hkid
        contradiction
      · rw [Dinode.names]
        omega
  have hsub : ({d, ip} : Finset Nat) ⊆ Finset.range n := by
    intro j hj
    rw [Finset.mem_insert, Finset.mem_singleton] at hj
    rcases hj with rfl | rfl
    · exact Finset.mem_range.mpr hdn
    · exact Finset.mem_range.mpr (h.lt_of_dir hdir)
  have hle := Finset.sum_le_sum_of_subset (f := fun d => (D d).names dp) hsub
  rw [Finset.sum_pair hd] at hle
  unfold links
  omega

/-- A file, a device or an empty directory is unlinked. -/
lemma Tree.unlink (hempty : (D ip).type = .dir → ∀ i, (D ip).kids i = 0) :
    Removes D (unlinked D dp ip k) dp ip ∧ Tree n (unlinked D dp ip k) := by
  have hne := h.ne_of_ent hdp hip hent
  have hnamed := kids_of_ent hdp hip hent
  have hn := h.nlink_of_ent hdp hip hent
  have hnip := h.nlink_of_kids hnamed
  have hcountdp := h.count dp (by simp [hdp])
  have hcountip := h.count ip (h.child dp ip hnamed)
  have hsubip := toNat_sub_one hnip
  have hsubdp := toNat_sub_one hn
  have hynlink : (withoutEnt (D dp) (k + 2) (D ip).type).nlink.toNat +
      (if (D ip).type = .dir then 1 else 0) = (D dp).nlink.toNat := by
    unfold withoutEnt
    dsimp only
    split
    · exact hsubdp
    · rfl
  have hy : (withoutEnt (D dp) (k + 2) (D ip).type).nlink ≠ 0 := by
    intro hzero
    rw [hzero] at hynlink
    have h0 : (0 : UInt16).toNat = 0 := rfl
    split at hynlink
    · rename_i hdir
      have htwo := h.two_le_links hdp hip hent hdir (hempty hdir)
      omega
    · omega
  have hx : (D ip).type = .dir → (D ip).nlink - 1 = 0 := by
    intro hdir
    have hone := h.links_empty hdp hip hent hdir (hempty hdir)
    refine UInt16.toNat_inj.mp ?_
    show ((D ip).nlink - 1).toNat = 0
    omega
  have hr := removes_unlinked h hdp hip hent hy fun hdir => ⟨hx hdir, hempty hdir⟩
  refine ⟨hr, h.remove hr hdp hn hne fun i hi => ?_⟩
  have hlinks := links_unlinked h hdp hip hent hy i
  have hxup : ((D ip).setNlink ((D ip).nlink - 1)).up i = 0 := if_neg fun hc => hc.2.2 (hx hc.1)
  have hup : (D ip).up i = if (D ip).type = .dir ∧ i = dp then 1 else 0 := by
    by_cases hdir : (D ip).type = .dir
    · rw [Dinode.up, (h.childDir dp ip hnamed hdir).1]
      simp [hdir, hnip, eq_comm]
    · rw [up_of_ne hdir, if_neg fun hc => hdir hc.1]
  rw [hxup, hup] at hlinks
  by_cases hi' : i = ip
  · rw [hi', if_pos rfl, if_neg fun hc => hne hc.2] at hlinks
    rw [hi', unlinked, update_self]
    show ((D ip).nlink - 1).toNat = links n (unlinked D dp ip k) ip
    omega
  · rw [if_neg hi'] at hlinks
    by_cases hi'' : i = dp
    · simp only [hi'', and_true] at hlinks
      rw [hi'', unlinked, update_of_ne hne.symm, update_self]
      show _ = links n (unlinked D dp ip k) dp
      omega
    · rw [if_neg fun hc => hi'' hc.2] at hlinks
      rw [hr.same i hi'' hi'] at hi ⊢
      have hcount := h.count i hi
      omega

end

end Xv6.Fs
