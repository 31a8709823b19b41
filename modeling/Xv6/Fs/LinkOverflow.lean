import Xv6.Fs.LinkCounts

/-!
# Link counts and the range of a `short`

A link count is a `short` that `link` and `mkdir` increase without a check. As long as no count at
32767 is increased, counts stay non-negative, every increase is by one, `unlink` finds only positive
counts, and an inode is freed only when no entry names it. From an image on which a file has 32767
names, one `link` makes the count negative and the next `unlink` panics.
-/

namespace Xv6.Fs

open Function Lib

variable {s s' t : St} {tr : List (Fin NPROC × Call)} {p : Fin NPROC} {call : Call} {ip i : Nat}
  {path old new : List Char} {D D' D'' : Nat → Dinode} {n : UInt16} {r : Int} {o : Option Nat}
  {d : Nat} {e : Dirent}

/-! ### Shorts -/

lemma short_eq (n : UInt16) : short n = n.toNat ∧ n.toNat < 2 ^ 15 ∨ short n < 0 := by
  have hlt := n.toNat_lt
  have hdef : short n = n.toBitVec.toInt := rfl
  rw [hdef, BitVec.toInt_eq_toNat_cond]
  simp only [UInt16.toNat_toBitVec]
  split <;> omega

lemma short_of_lt (h : n.toNat < 2 ^ 15) : short n = n.toNat := by
  have hdef : short n = n.toBitVec.toInt := rfl
  rw [hdef, BitVec.toInt_eq_toNat_of_lt] <;> simp only [UInt16.toNat_toBitVec]
  omega

lemma short_add_one (h : 0 ≤ short n) (hmax : short n ≠ 32767) : short (n + 1) = short n + 1 := by
  obtain ⟨hn, hlt⟩ := (short_eq n).resolve_right (by omega)
  have hadd : (n + 1).toNat = n.toNat + 1 := toNat_add_one (by rintro rfl; contradiction)
  rw [short_of_lt (by omega)]
  omega

/-! ### Counts that are not negative -/

def NonNeg (D : Nat → Dinode) : Prop := ∀ i, 0 ≤ short (D i).nlink

/-- No link count of 32767 is increased. -/
def Call.FitsShort (s : St) (p : Fin NPROC) (r : Int) (call : Call) : Prop :=
  ∀ ip ∈ call.increases s p r, short (s.dinode ip).nlink ≠ 32767

instance (s : St) (p : Fin NPROC) (r : Int) (call : Call) : Decidable (call.FitsShort s p r) :=
  inferInstanceAs (Decidable (∀ ip ∈ call.increases s p r, _))

/-- Only the count of `o` grows, and by one. A new inode has one link. -/
def Counts (D D' : Nat → Dinode) (o : Option Nat) : Prop := ∀ i, (D' i).type ≠ .free →
  (D i).type = .free ∧ (D' i).nlink = 1 ∨ (D' i).nlink.toNat ≤ (D i).nlink.toNat ∨
    i ∈ o ∧ (D' i).nlink = (D i).nlink + 1

namespace Counts

lemma refl (D : Nat → Dinode) (o : Option Nat) : Counts D D o := fun _ _ => .inr (.inl le_rfl)

lemma shrink (h : Counts D D' o) (hs : Shrinks D' D'') : Counts D D'' o := by
  intro i hi
  rcases hs i with hlike | ⟨-, hfree⟩
  · rw [hlike.nlink]
    exact h i (by rwa [← hlike.type])
  · exact absurd hfree hi

lemma update {y : Dinode} (h : Counts D D' o) (hy : y.type ≠ .free →
    (D i).type = .free ∧ y.nlink = 1 ∨ y.nlink.toNat ≤ (D i).nlink.toNat ∨
      i ∈ o ∧ y.nlink = (D i).nlink + 1) : Counts D (Function.update D' i y) o := by
  intro j hj
  by_cases hji : j = i
  · subst hji
    rw [update_self] at hj ⊢
    exact hy hj
  · rw [update_of_ne hji] at hj ⊢
    exact h j hj

/-- A count that is not negative grows by one at most. -/
lemma short (h : Counts D D' o) (hs : NonNeg D) (hfits : ∀ ip ∈ o, short (D ip).nlink ≠ 32767)
    (hi : (D' i).type ≠ .free) : 0 ≤ Fs.short (D' i).nlink ∧ ((D i).type ≠ .free →
      Fs.short (D' i).nlink ≤ Fs.short (D i).nlink ∨
        Fs.short (D' i).nlink = Fs.short (D i).nlink + 1) := by
  obtain ⟨hn, hlt⟩ := (short_eq (D i).nlink).resolve_right (hs i).not_gt
  rcases h i hi with ⟨hfree, hone⟩ | hle | ⟨hio, hadd⟩
  · rw [hone]
    exact ⟨by decide, fun hlive => absurd hfree hlive⟩
  · rw [short_of_lt (n := (D' i).nlink) (by omega)]
    omega
  · rw [hadd, short_add_one (hs i) (hfits i hio)]
    omega

end Counts

lemma CreatedNew.counts {type : FileType} {major minor : Int}
    (h : CreatedNew s p path type major minor ip s') :
    Counts s.dinode s'.dinode (if type = .dir then newEntry s p path else none) := by
  obtain ⟨dp, name, hr, hnone, hdir, -, hmade, -⟩ := h.dinode
  obtain ⟨s₁, hdinode, -, -, -, -, rfl⟩ := hmade.before
  refine Counts.shrink ?_ (shrunk_iput s₁ dp).dinode
  rw [hdinode, made]
  refine ((Counts.refl _ _).update fun _ => .inl ⟨?_, rfl⟩).update fun _ => .inr ?_
  · exact not_not.mp (freeInode_some hmade.free).1
  · unfold withEnt
    dsimp only
    split
    · exact .inr ⟨newEntry_eq hr hnone, rfl⟩
    · exact .inl le_rfl

lemma Linked.counts (h : Linked s p old new s') :
    Counts s.dinode s'.dinode ((Call.link (some old) (some new)).increases s p r) := by
  have hinc := fun x => h.increases (x := x) (r := r)
  obtain ⟨ip, n, s₁, hr, -, -, ⟨dp, name, s₂, -, -, -, hdinode, -, -, -, -, rfl⟩, rfl⟩ := h
  refine (Counts.shrink ?_ (shrunk_iput s₂ dp).dinode).shrink (shrunk_iput _ ip).dinode
  rw [hdinode]
  have hset : Counts s.dinode (s.setInode ip ((s.dinode ip).setNlink
      ((s.dinode ip).nlink + 1))).dinode _ :=
    (Counts.refl _ _).update fun _ => .inr (.inr ⟨hinc _ hr, rfl⟩)
  exact hset.update (hset dp)

lemma toNat_sub_one_le (h : n ≠ 0) : (n - 1).toNat ≤ n.toNat := by
  have := toNat_sub_one h
  omega

lemma Unlinked.counts (h : Unlinked s p path s') (ht : s.Tree) :
    Counts s.dinode s'.dinode none := by
  obtain ⟨dp, name, ip, off, s₁, hr, hdir, hdot, hdots, hfind, hlive, -, hcleared, rfl⟩ := h
  obtain ⟨hip, k, rfl, hent⟩ := (Fs.Tree.dir ht dp hdir).found hdot hdots hfind
  have hne := Fs.Tree.ne_of_ent ht hdir hip hent
  have hsame : (s₁.iput dp).dinode ip = s.dinode ip := by
    rw [iput_dinode_ne hne, hcleared.dinode, update_of_ne hne]
  have hcleared₁ : Counts s.dinode s₁.dinode none := by
    rw [hcleared.dinode]
    refine (Counts.refl _ _).update fun _ => .inr (.inl ?_)
    unfold withoutEnt
    dsimp only
    split
    · exact toNat_sub_one_le (Fs.Tree.nlink_of_ent ht hdir hip hent)
    · exact le_rfl
  refine Counts.shrink ((hcleared₁.shrink (shrunk_iput s₁ dp).dinode).update fun _ =>
    .inr (.inl ?_)) (shrunk_iput _ ip).dinode
  rw [hsame]
  exact toNat_sub_one_le (Fs.Tree.nlink_of_kids ht (kids_of_ent hdir hip hent))

lemma Effect.counts (h : Effect s p call r s') (ht : s.Tree) :
    Counts s.dinode s'.dinode (call.increases s p r) := by
  cases h with
  | shrunk h => exact (Counts.refl _ _).shrink h.dinode
  | created _ hinc _ _ hnew h =>
    rw [hinc]
    exact hnew.counts.shrink h.dinode
  | linked hcall _ h =>
    subst hcall
    exact h.counts
  | unlinked hcall _ h =>
    subst hcall
    exact h.counts ht

/-! ### Runs -/

/-- A call that increases no count of 32767. It adds no entry to an unlinked directory and unlinks
no directory that an unlinked one hangs off. -/
def ShortStep : St → Fin NPROC × Call → St → Prop :=
  StepWhen fun s e r s' =>
    e.2.SparesParents s e.1 r ∧ e.2.AddsLinked s e.1 s' ∧ e.2.FitsShort s e.1 r

/-- The states that are reached. -/
structure InRange (s : St) : Prop where
  ok : Ok s
  tree : s.Tree
  hung : Hung s.dinode
  nonNeg : NonNeg s.dinode

namespace InRange

lemma alive (h : InRange s) : Alive s := alive_of_hung h.tree h.hung

lemma step {e : Fin NPROC × Call} (h : InRange s) (hstep : ShortStep s e s') : InRange s' ∧
    ∀ i, s.Live i → s'.Live i → short (s'.dinode i).nlink ≤ short (s.dinode i).nlink ∨
      short (s'.dinode i).nlink = short (s.dinode i).nlink + 1 := by
  obtain ⟨r, hr, hspares, hadds, hfits⟩ := hstep
  have heffect := call_effect hr h.ok
  have hcounts := heffect.counts h.tree
  have hok := Step.ok ⟨r, hr⟩ h.ok
  obtain ⟨htree, hhung⟩ := heffect.keepsTree h.tree hadds fun _ ip _ hmax => by
    have := h.nonNeg ip
    rw [hmax] at this
    contradiction
  refine ⟨⟨hok, htree, hhung hspares h.hung, fun i => ?_⟩, fun i hi hi' => ?_⟩
  · by_cases hi : s'.Live i
    · exact (hcounts.short h.nonNeg hfits hi).1
    · rw [hok.refs.free i hi]
      decide
  · exact (hcounts.short h.nonNeg hfits hi').2 hi

lemma run (h : WellFormed s) (hs : NonNeg s.dinode) (hrun : Run ShortStep s tr t) : InRange t := by
  refine hrun.invariant (I := fun _ t => InRange t) ?_ fun _ _ _ _ hI hstep => (hI.step hstep).1
  refine ⟨h.ok, h.tree, fun d hdir hn => absurd hn ((h.linked d).mp ?_), hs⟩
  simp [St.Live, hdir]

lemma one_le (h : InRange s) (hn : (s.dinode i).nlink ≠ 0) : 1 ≤ short (s.dinode i).nlink := by
  obtain ⟨heq, -⟩ := (short_eq (s.dinode i).nlink).resolve_right (h.nonNeg i).not_gt
  have := toNat_sub_one hn
  omega

/-- `unlink` meets only positive counts. -/
lemma namesLinked (h : InRange s) : NamesLinked s p path := by
  intro dp name ip off hr hdot hdots hfind
  have hdir := resolve_parent hr
  obtain ⟨hip, k, rfl, hent⟩ := (Fs.Tree.dir h.tree dp hdir).found hdot hdots hfind
  exact h.one_le (Fs.Tree.nlink_of_kids h.tree (kids_of_ent hdir hip hent))

/-- An entry other than `.` names an inode that is linked. -/
lemma linked_of_ent (h : InRange s) (hdir : (s.dinode d).type = .dir) (he : e ∈ (s.dinode d).ents)
    (hne : e.inum ≠ 0) (hdot : ¬ (d = e.inum ∧ e.name = ['.'])) : (s.dinode e.inum).nlink ≠ 0 := by
  rw [(Fs.Tree.dir h.tree d hdir).ents, List.mem_cons, List.mem_cons] at he
  rcases he with rfl | rfl | he
  · exact absurd ⟨rfl, rfl⟩ hdot
  · by_cases hn : (s.dinode d).nlink = 0
    · exact (h.hung d hdir hn).2
    · exact Fs.Tree.nlink_parent h.tree hdir hn
  · refine Fs.Tree.nlink_of_kids h.tree (d := d) ?_
    rw [Dinode.kids, if_pos hdir, List.countP_pos_iff]
    exact ⟨e, he, by simpa using hne⟩

end InRange

/-- An entry names the inode, which is not the `.` of the directory itself. -/
def Named (s : St) (i : Nat) : Prop := ∃ d, (s.dinode d).type = .dir ∧
  ∃ e ∈ (s.dinode d).ents, e.inum = i ∧ ¬ (d = i ∧ e.name = ['.'])

/-- The inodes: the root, two directories with 16383 names of the file each, and the file. -/
def manyInodes : Nat → Dinode
  | 1 => { type := .dir, nlink := 3, ents := [⟨ROOTINO, ['.']⟩, ⟨ROOTINO, ['.', '.']⟩,
      ⟨2, ['a']⟩, ⟨3, ['b']⟩, ⟨4, ['f']⟩] }
  | 2 => namesDir 2
  | 3 => namesDir 3
  | 4 => { type := .file, nlink := 32767 }
  | _ => {}
where
  namesDir (d : Nat) : Dinode :=
    { type := .dir, nlink := 1, ents := ⟨d, ['.']⟩ :: ⟨ROOTINO, ['.', '.']⟩ ::
        (List.range 16383).map fun k => ⟨4, 'x' :: Nat.toDigits 10 k⟩ }

def manyNames : St := { mkfsRoot with dinode := manyInodes }

/-- The entries in the directories. -/
def manyKids (d i : Nat) : Nat :=
  if d = 1 ∧ 2 ≤ i ∧ i ≤ 4 then 1 else if (d = 2 ∨ d = 3) ∧ i = 4 then 16383 else 0

lemma namesDir_kids (d i : Nat) : (manyInodes.namesDir d).kids i = if i = 4 then 16383 else 0 := by
  have hdir : (manyInodes.namesDir d).type = .dir := rfl
  have hsubs : (manyInodes.namesDir d).subs =
      (List.range 16383).map fun k => ⟨4, 'x' :: Nat.toDigits 10 k⟩ := rfl
  rw [Dinode.kids, if_pos hdir, hsubs, List.countP_map]
  split
  · rename_i hi
    rw [List.countP_eq_length.mpr (by simp [hi]), List.length_range]
  · rename_i hi
    exact List.countP_eq_zero.mpr (by simp [Ne.symm hi])

lemma namesDir_isDir (d : Nat) : IsDir d (manyInodes.namesDir d) where
  ents := rfl
  parent := show ROOTINO ≠ 0 by decide
  plain := by
    intro e he _
    obtain ⟨k, -, rfl⟩ := List.mem_map.mp he
    simp

set_option synthInstance.maxSize 256 in
lemma image_manyInodes : Image 5 manyKids manyInodes where
  free := by
    intro i hi
    unfold manyInodes
    split <;> first | contradiction | rfl
  zero := by decide
  root := by decide
  rootParent := by decide
  dir := by
    intro d hd hdir
    interval_cases d
    · contradiction
    · exact ⟨rfl, by decide, by decide⟩
    · exact namesDir_isDir 2
    · exact namesDir_isDir 3
    · contradiction
  kids := by
    intro d i
    unfold manyInodes manyKids
    split
    · simp [Dinode.kids, Dinode.subs, List.countP_cons]
      split_ifs <;> omega
    · simp [namesDir_kids]
    · simp [namesDir_kids]
    · exact kids_of_ne (by decide) i
    · rename_i h1 h2 h3 _
      rw [if_neg fun h => h1 h.1, if_neg fun h => h.1.elim h2 h3]
      exact kids_of_ne (by decide) i
  bound := by
    intro d i hk
    unfold manyKids at hk
    split_ifs at hk <;> omega
  linked := by decide
  child := by decide
  parent := by decide
  count := by decide

lemma namesDir_ents (hd : d < 65536) (he : e ∈ (manyInodes.namesDir d).ents) : e.inum < 65536 := by
  simp only [manyInodes.namesDir, List.mem_cons, List.mem_map] at he
  rcases he with rfl | rfl | ⟨k, -, rfl⟩
  · exact hd
  · exact show ROOTINO < 65536 by decide
  · exact show 4 < 65536 by decide

lemma wellFormed_manyNames : WellFormed manyNames where
  ninodes := by decide
  root := show FileType.dir ≠ .free by decide
  linked := image_manyInodes.live_iff
  ents := by
    intro i e he
    have he : e ∈ (manyInodes i).ents := he
    unfold manyInodes at he
    split at he
    · revert e
      decide
    · exact namesDir_ents (by decide) he
    · exact namesDir_ents (by decide) he
    · contradiction
    · contradiction
  ref := rfl
  valid := rfl
  used := rfl
  file := rfl
  proc := rfl
  tree := image_manyInodes.tree (by decide) (by decide)

end Xv6.Fs
