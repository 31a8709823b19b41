import Xv6.Fs.Create

/-!
# Open files

Between calls the reference count of a file is the number of descriptors for it. During a call the
list `φ` holds the files that the call has in its variables.
-/

namespace Xv6.Fs

open Function Lib

variable {s s' : St} {τ τ' : List Nat} {φ : List (Fin NFILE)} {i : Nat} {f : Fin NFILE}
  {fd : Fin NOFILE} {p np : Fin NPROC} {E : Panic → Prop} {φ' : List (Fin NFILE)} {x : File}

/-- The counts of the file table are those of the descriptors, and a closed file has no type. -/
structure Files (φ : List (Fin NFILE)) (s : St) : Prop where
  count : ∀ f, (s.file f).ref = s.opens f + φ.count f
  closed : ∀ f, (s.file f).ref = 0 → (s.file f).type = .none

lemma Files.congr (h : Files φ s) (hfile : s'.file = s.file) (hproc : s'.proc = s.proc) :
    Files φ s' where
  count := by
    intro f
    unfold St.opens
    rw [hfile, hproc]
    exact h.count f
  closed := by
    rw [hfile]
    exact h.closed

lemma Files.perm (h : Files φ s) (hp : φ'.Perm φ) : Files φ' s :=
  ⟨fun f => (h.count f).trans (by rw [hp.count_eq]), h.closed⟩

lemma Files.pos (h : Files (f :: φ) s) : 0 < (s.file f).ref := by
  rw [h.count, List.count_cons_self]
  omega

/-! ### Changing a file or a process -/

/-- `ofile[fd] = o`. -/
def Proc.setOfile (x : Proc) (fd : Fin NOFILE) (o : Option (Fin NFILE)) : Proc :=
  { x with ofile := update x.ofile fd o }

/-- `p->ofile[fd] = o`. -/
def St.setOfile (s : St) (p : Fin NPROC) (fd : Fin NOFILE) (o : Option (Fin NFILE)) : St :=
  s.setProc p ((s.proc p).setOfile fd o)

lemma held_setFile (s : St) (f : Fin NFILE) (x : File) (i : Nat) :
    (s.setFile f x).held i + (s.file f).holds i = s.held i + x.holds i := by
  have htotal := total_update (File.holds i) s.file f x
  show total (File.holds i) (update s.file f x) + total (Proc.holds i) s.proc + _ = _
  unfold St.held
  omega

lemma held_setProc (s : St) (p : Fin NPROC) (x : Proc) (i : Nat) :
    (s.setProc p x).held i + (s.proc p).holds i = s.held i + x.holds i := by
  have htotal := total_update (Proc.holds i) s.proc p x
  show total (File.holds i) s.file + total (Proc.holds i) (update s.proc p x) + _ = _
  unfold St.held
  omega

lemma held_setOfile (s : St) (p : Fin NPROC) (fd : Fin NOFILE) (o : Option (Fin NFILE)) (i : Nat) :
    (s.setOfile p fd o).held i = s.held i :=
  Nat.add_right_cancel (held_setProc s p _ i)

lemma opens_setOfile (s : St) (p : Fin NPROC) (fd : Fin NOFILE) (o : Option (Fin NFILE))
    (f : Fin NFILE) :
    (s.setOfile p fd o).opens f + (if (s.proc p).ofile fd = some f then 1 else 0) =
      s.opens f + (if o = some f then 1 else 0) := by
  have htotal := total_update (Proc.uses f) s.proc p ((s.proc p).setOfile fd o)
  have huses := total_update (fun o => if o = some f then 1 else 0) (s.proc p).ofile fd o
  have heq : ((s.proc p).setOfile fd o).uses f =
      total (fun o => if o = some f then 1 else 0) (update (s.proc p).ofile fd o) := rfl
  have hold : (s.proc p).uses f =
      total (fun o => if o = some f then 1 else 0) (s.proc p).ofile := rfl
  show total (Proc.uses f) (update s.proc p _) + _ = total (Proc.uses f) s.proc + _
  omega

/-- Files and processes change, and the pointers of the call with them. -/
lemma Refs.move (h : Refs τ s) (hdinode : s'.dinode = s.dinode) (href : s'.ref = s.ref)
    (hvalid : s'.valid = s.valid) (hused : s'.used = s.used) (hninodes : s'.ninodes = s.ninodes)
    (hheld : ∀ i, s'.held i + τ'.count i = s.held i + τ.count i)
    (hlive : ∀ i, 0 < s'.held i → s.Live i) : Refs τ' s' where
  ref := by
    intro i
    rw [href, h.ref i, hheld i]
  used := by rw [hused, href, h.used]
  bound := by
    rw [href]
    exact h.bound
  valid := by
    unfold St.Live
    rw [href, hvalid, hdinode]
    exact h.valid
  held := by
    unfold St.Live
    rw [hdinode]
    exact hlive
  orphan := by
    unfold St.Live
    rw [href, hvalid, hdinode]
    exact h.orphan
  free := by
    unfold St.Live
    rw [hdinode]
    exact h.free
  ents := by
    rw [hdinode]
    exact h.ents
  ninodes := by
    rw [hninodes]
    exact h.ninodes

lemma Refs.setOfile (h : Refs τ s) (p : Fin NPROC) (fd : Fin NOFILE) (o : Option (Fin NFILE)) :
    Refs τ (s.setOfile p fd o) := by
  refine h.move rfl rfl rfl rfl rfl (fun i => ?_) fun i hi => ?_
  · rw [held_setOfile]
  · rw [held_setOfile] at hi
    exact h.held i hi

/-- A file changes but refers to the same inode as before. -/
lemma Refs.setFile (h : Refs τ s) (hx : ∀ i, x.holds i = (s.file f).holds i) :
    Refs τ (s.setFile f x) := by
  have heq : ∀ i, (s.setFile f x).held i = s.held i := by
    intro i
    have := held_setFile s f x i
    rw [hx] at this
    omega
  refine h.move rfl rfl rfl rfl rfl (fun i => ?_) fun i hi => ?_
  · rw [heq]
  · rw [heq] at hi
    exact h.held i hi

lemma Files.setFile (h : Files φ s) (hx : x.ref = s.opens f + φ'.count f)
    (hother : ∀ g, g ≠ f → φ'.count g = φ.count g) (hclosed : x.ref = 0 → x.type = .none) :
    Files φ' (s.setFile f x) where
  count := by
    intro g
    show (update s.file f x g).ref = s.opens g + φ'.count g
    by_cases hg : g = f
    · subst hg
      rw [update_self]
      exact hx
    · rw [update_of_ne hg, hother g hg]
      exact h.count g
  closed := by
    intro g
    show (update s.file f x g).ref = 0 → (update s.file f x g).type = .none
    by_cases hg : g = f
    · subst hg
      rw [update_self]
      exact hclosed
    · rw [update_of_ne hg]
      exact h.closed g

/-- A descriptor is given a file that the call has. -/
lemma Files.give (h : Files (f :: φ) s) (hfd : (s.proc p).ofile fd = none) :
    Files φ (s.setOfile p fd (some f)) where
  count := by
    intro g
    have hcount : (s.file g).ref = _ := h.count g
    have hopens := opens_setOfile s p fd (some f) g
    rw [hfd, if_neg (by simp)] at hopens
    rw [List.count_cons] at hcount
    show (s.file g).ref = _
    simp only [Option.some.injEq] at hopens
    simp only [beq_iff_eq] at hcount
    omega
  closed := h.closed

/-- A file is taken from a descriptor. -/
lemma Files.take (h : Files φ s) (hfd : (s.proc p).ofile fd = some f) :
    Files (f :: φ) (s.setOfile p fd none) where
  count := by
    intro g
    have hcount : (s.file g).ref = _ := h.count g
    have hopens := opens_setOfile s p fd none g
    rw [List.count_cons]
    show (s.file g).ref = _
    simp only [hfd, Option.some.injEq, reduceCtorEq, if_false] at hopens
    simp only [beq_iff_eq]
    omega
  closed := h.closed

/-! ### Closing a file -/

/-- The file with one reference less. -/
def File.less (x : File) : File :=
  if 1 < x.ref then { x with ref := x.ref - 1 } else { x with ref := 0, type := .none }

/-- The state after `fileclose`. -/
def St.fclose (s : St) (f : Fin NFILE) : St :=
  if (s.file f).ref = 1 ∧ ((s.file f).type = .inode ∨ (s.file f).type = .device) then
    (s.setFile f (s.file f).less).iput (s.file f).ip
  else s.setFile f (s.file f).less

lemma wp_fileclose {Q : Unit → St → Prop} (h : 0 < (s.file f).ref) :
    wp (fileclose f) E Q s ↔ Q ⟨⟩ (s.fclose f) := by
  have hne : (s.file f).ref ≠ 0 := by omega
  simp only [fileclose, wp_bind, wp_get, wp_pure, wp_ite, wp_set, wp_iput, wp_throw]
  unfold St.fclose File.less
  by_cases hlt : 1 < (s.file f).ref
  · have hone : (s.file f).ref ≠ 1 := by omega
    simp [hlt, hne, hone]
  · have hone : (s.file f).ref = 1 := by omega
    by_cases htype : (s.file f).type = .inode ∨ (s.file f).type = .device <;> simp [hone, htype]

lemma fclose_file (s : St) (f : Fin NFILE) :
    (s.fclose f).file = update s.file f (s.file f).less := by
  unfold St.fclose
  split
  · rw [iput_file]
    rfl
  · rfl

lemma fclose_proc (s : St) (f : Fin NFILE) : (s.fclose f).proc = s.proc := by
  unfold St.fclose
  split
  · rw [iput_proc]
    rfl
  · rfl

lemma Files.fclose (h : Files (f :: φ) s) : Files φ (s.fclose f) := by
  have hcount := h.count f
  rw [List.count_cons_self] at hcount
  have hset : Files φ (s.setFile f (s.file f).less) := by
    refine h.setFile ?_ (fun g hg => ?_) ?_
    · unfold File.less
      split
      · show (s.file f).ref - 1 = _
        omega
      · show 0 = _
        omega
    · rw [List.count_cons_of_ne (Ne.symm hg)]
    · unfold File.less
      split
      · intro hz
        have hz : (s.file f).ref - 1 = 0 := hz
        omega
      · exact fun _ => rfl
  exact hset.congr (fclose_file s f) (fclose_proc s f)

/-- Closing a file gives up its reference to the inode, if it was the last. -/
lemma Refs.fclose (h : Refs τ s) (hpos : 0 < (s.file f).ref) : Refs τ (s.fclose f) := by
  unfold St.fclose
  split
  · rename_i hlast
    have hless : ∀ i, (s.file f).less.holds i = 0 := by
      simp [File.less, File.holds, hlast.1]
    have hholds : ∀ i, (s.file f).holds i = if (s.file f).ip = i then 1 else 0 := by
      simp [File.holds, hlast.1, hlast.2]
    refine Refs.iput (h.move rfl rfl rfl rfl rfl (fun i => ?_) fun i hi => ?_)
    · have := held_setFile s f (s.file f).less i
      rw [hless, hholds] at this
      rw [List.count_cons]
      simp only [beq_iff_eq]
      omega
    · have := held_setFile s f (s.file f).less i
      rw [hless] at this
      exact h.held i (by omega)
  · rename_i hmore
    refine h.setFile fun i => ?_
    by_cases hlt : 1 < (s.file f).ref
    · simp [File.less, File.holds, hlt, hpos]
    · have hone : (s.file f).ref = 1 := by omega
      simp only [hone, true_and] at hmore
      simp [File.less, File.holds, hone, hmore]

/-! ### Freed inodes -/

/-- Some inodes without links have been freed. -/
structure Freed (s s' : St) : Prop where
  dinode : ∀ i, s'.dinode i = s.dinode i ∨ (s.dinode i).nlink = 0 ∧
    s'.dinode i = { s.dinode i with type := .free, ents := [], data := [] }
  ninodes : s'.ninodes = s.ninodes

lemma Freed.of_eq (h : s'.dinode = s.dinode) (hn : s'.ninodes = s.ninodes) : Freed s s' :=
  ⟨fun i => .inl (by rw [h]), hn⟩

lemma Freed.trans {s'' : St} (h : Freed s s') (h' : Freed s' s'') : Freed s s'' where
  dinode := by
    intro i
    rcases h.dinode i with heq | ⟨hn, heq⟩ <;> rcases h'.dinode i with heq' | ⟨hn', heq'⟩
    · exact .inl (heq'.trans heq)
    · rw [heq] at hn' heq'
      exact .inr ⟨hn', heq'⟩
    · exact .inr ⟨hn, heq'.trans heq⟩
    · exact .inr ⟨hn, by rw [heq', heq]⟩
  ninodes := h'.ninodes.trans h.ninodes

lemma freed_iput (s : St) (i : Nat) : Freed s (s.iput i) where
  dinode := by
    intro j
    by_cases hj : j = i
    · subst hj
      unfold St.iput
      split
      · rename_i hfree
        refine .inr ⟨hfree.2.2, ?_⟩
        rw [(quiet_drop _ _).dinode, ifree_dinode, if_pos rfl]
      · exact .inl rfl
    · exact .inl (iput_dinode_ne hj)
  ninodes := iput_ninodes s i

lemma freed_fclose (s : St) (f : Fin NFILE) : Freed s (s.fclose f) := by
  have hset : Freed s (s.setFile f (s.file f).less) := .of_eq rfl rfl
  unfold St.fclose
  split
  · exact hset.trans (freed_iput _ _)
  · exact hset

/-! ### States between calls -/

/-- The counts are right and no call is in progress. -/
structure Ok (s : St) : Prop where
  refs : Refs [] s
  files : Files [] s

end Xv6.Fs
