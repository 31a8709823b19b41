import Xv6.Fs.Sysfile

/-!
# References to inodes

Between calls the reference count of an inode is the number of open files and current directories
that refer to it. During a call the list `τ` holds the pointers that the call has in its variables.
-/

namespace Xv6.Fs

open Function Lib

variable {s s' s'' : St} {τ : List Nat} {i : Nat} {E : Panic → Prop} {p : Fin NPROC}
  {Q : Unit → St → Prop}

/-! ### Who holds an inode -/

/-- One for an open file that refers to the inode. -/
def File.holds (i : Nat) (x : File) : Nat :=
  if 0 < x.ref ∧ (x.type = .inode ∨ x.type = .device) ∧ x.ip = i then 1 else 0

/-- One for a process in the directory. -/
def Proc.holds (i : Nat) (x : Proc) : Nat := if x.cwd = some i then 1 else 0

/-- The descriptors of a process for the file. -/
def Proc.uses (f : Fin NFILE) (x : Proc) : Nat :=
  total (fun o => if o = some f then 1 else 0) x.ofile

namespace St

/-- The references that files and processes have. -/
def held (s : St) (i : Nat) : Nat := total (File.holds i) s.file + total (Proc.holds i) s.proc

/-- The descriptors for a file. -/
def opens (s : St) (f : Fin NFILE) : Nat := total (Proc.uses f) s.proc

/-- The inode is allocated. -/
def Live (s : St) (i : Nat) : Prop := (s.dinode i).type ≠ .free

/-- The number of inodes that are held. -/
def distinct (s : St) : Nat := ∑ i ∈ Finset.range 65536, min 1 (s.held i)

end St

lemma held_cwd (h : (s.proc p).cwd = some i) : 0 < s.held i := by
  have hle := le_total (Proc.holds i) s.proc p
  simp only [Proc.holds, h, if_true] at hle
  unfold St.held
  omega

/-! ### The inode table -/

/-- The inode table agrees with the references, and an inode that is not linked is referred to. -/
structure Refs (τ : List Nat) (s : St) : Prop where
  ref : ∀ i, s.ref i = s.held i + τ.count i
  used : s.used = ∑ i ∈ Finset.range 65536, min 1 (s.ref i)
  bound : ∀ i, 0 < s.ref i → i < 65536
  valid : ∀ i, 0 < s.ref i → s.valid i = true → s.Live i
  held : ∀ i, 0 < s.held i → s.Live i
  orphan : ∀ i, s.Live i → (s.dinode i).nlink = 0 → s.valid i = true ∧ 0 < s.ref i
  free : ∀ i, ¬ s.Live i → (s.dinode i).nlink = 0
  ents : ∀ i, ∀ e ∈ (s.dinode i).ents, e.inum < 65536
  ninodes : s.ninodes ≤ 65536

/-- Nothing changes but the inode table and the answers. -/
structure Steady (s s' : St) : Prop where
  dinode : s'.dinode = s.dinode
  file : s'.file = s.file
  proc : s'.proc = s.proc
  ninodes : s'.ninodes = s.ninodes

/-- Nothing changes but the inode table. -/
structure Quiet (s s' : St) : Prop extends Steady s s' where
  answers : s'.answers = s.answers

lemma Steady.trans (h : Steady s s') (h' : Steady s' s'') : Steady s s'' :=
  ⟨h'.dinode.trans h.dinode, h'.file.trans h.file, h'.proc.trans h.proc,
    h'.ninodes.trans h.ninodes⟩

lemma Steady.held (h : Steady s s') (i : Nat) : s'.held i = s.held i := by
  unfold St.held
  rw [h.file, h.proc]

lemma Steady.live (h : Steady s s') (i : Nat) : s'.Live i ↔ s.Live i := by
  unfold St.Live
  rw [h.dinode]

lemma Quiet.refl (s : St) : Quiet s s := ⟨⟨rfl, rfl, rfl, rfl⟩, rfl⟩

lemma Quiet.trans (h : Quiet s s') (h' : Quiet s' s'') : Quiet s s'' :=
  ⟨h.toSteady.trans h'.toSteady, h'.answers.trans h.answers⟩

/-! ### Operations on the table -/

/-- The state after `iget`. -/
def St.iget (s : St) (i : Nat) : St :=
  { s.setRef i (s.ref i + 1) with
    valid := if 0 < s.ref i then s.valid else update s.valid i false,
    used := if 0 < s.ref i then s.used else s.used + 1 }

/-- The inode is freed, with its content. -/
def St.ifree (s : St) (i : Nat) : St :=
  (s.setInode i { s.dinode i with type := .free, ents := [], data := [] }).setValid i false

/-- The state after `iput`. -/
def St.iput (s : St) (i : Nat) : St :=
  if s.ref i = 1 ∧ s.valid i = true ∧ (s.dinode i).nlink = 0 then (s.ifree i).drop i
  else s.drop i

lemma wp_iget (h : Q ⟨⟩ (s.iget i)) (hfull : E .noInodes ∨ 0 < s.ref i ∨ s.used < NINODE) :
    wp (iget i) E Q s := by
  simp only [Fs.iget, wp_bind, wp_get, wp_ite, wp_set, wp_throw]
  refine ⟨fun href => ?_, fun href => ⟨fun hused => ?_, fun hused => ?_⟩⟩
  · simpa [St.iget, href, St.setRef] using h
  · have hzero : s.ref i = 0 := by omega
    simpa [St.iget, hzero, St.setValid, St.setRef] using h
  · tauto

lemma wp_idup : wp (idup i) E Q s ↔ Q ⟨⟩ (s.setRef i (s.ref i + 1)) := Iff.rfl

lemma wp_iput : wp (iput i) E Q s ↔ Q ⟨⟩ (s.iput i) := by
  simp only [Fs.iput, Fs.itrunc, Fs.setInode, wp_bind, wp_get, wp_ite, wp_modify]
  unfold St.iput
  split
  · rename_i h
    simp [h, St.ifree, St.setInode, St.setValid]
  · rename_i h
    simp [h]

/-- `ilock` reads an inode that is in the table but not yet valid. -/
lemma wp_ilock (href : 0 < s.ref i) (h : s.valid i = true → Q ⟨⟩ s)
    (h' : s.valid i = false → s.Live i → Q ⟨⟩ (s.setValid i true))
    (hfree : s.valid i = false → ¬ s.Live i → E .noType) : wp (ilock i) E Q s := by
  simp only [Fs.ilock, wp_bind, wp_get, wp_ite, wp_set, wp_throw, wp_pure]
  refine ⟨fun hlt => by omega, fun _ => ⟨fun hv => ⟨fun ht => ?_, fun ht => h' hv ht⟩,
    fun hv => ?_⟩⟩
  · exact hfree hv (fun hl => hl ht)
  · exact h (by simpa using hv)

/-! ### What they do to the references -/

lemma Refs.perm {τ' : List Nat} (h : Refs τ s) (hp : τ'.Perm τ) : Refs τ' s :=
  { h with ref := fun i => (h.ref i).trans (by rw [hp.count_eq]) }

lemma Refs.lock (h : Refs τ s) (hl : s.Live i) : Refs τ (s.setValid i true) where
  ref := h.ref
  used := h.used
  bound := h.bound
  valid := by
    intro j hj hv
    by_cases hji : j = i
    · rw [hji]
      exact hl
    · exact h.valid j hj (by simpa [St.setValid, hji] using hv)
  held := h.held
  orphan := by
    intro j hj hn
    obtain ⟨hv, hr⟩ := h.orphan j hj hn
    refine ⟨?_, hr⟩
    by_cases hji : j = i <;> simp [St.setValid, hji, hv]
  free := h.free
  ents := h.ents
  ninodes := h.ninodes

lemma quiet_iget (s : St) (i : Nat) : Quiet s (s.iget i) := ⟨⟨rfl, rfl, rfl, rfl⟩, rfl⟩

lemma quiet_drop (s : St) (i : Nat) : Quiet s (s.drop i) := ⟨⟨rfl, rfl, rfl, rfl⟩, rfl⟩

lemma quiet_setValid (s : St) (i : Nat) (b : Bool) : Quiet s (s.setValid i b) :=
  ⟨⟨rfl, rfl, rfl, rfl⟩, rfl⟩

lemma iget_ref (s : St) (i j : Nat) :
    (s.iget i).ref j = if j = i then s.ref i + 1 else s.ref j :=
  update_apply ..

lemma iget_valid (s : St) (i j : Nat) :
    (s.iget i).valid j = if j = i ∧ s.ref i = 0 then false else s.valid j := by
  by_cases h : 0 < s.ref i
  · have hne : s.ref i ≠ 0 := by omega
    simp [St.iget, h, hne]
  · have hzero : s.ref i = 0 := by omega
    simp [St.iget, hzero, update_apply]

lemma drop_ref (s : St) (i j : Nat) :
    (s.drop i).ref j = if j = i then s.ref i - 1 else s.ref j :=
  update_apply ..

/-- A reference is added. -/
lemma Refs.iget (h : Refs τ s) (hi : i < 65536) : Refs (i :: τ) (s.iget i) where
  ref := by
    intro j
    have hj := h.ref j
    rw [iget_ref, (quiet_iget s i).held, List.count_cons]
    by_cases hji : j = i
    · subst hji
      simp only [if_true, beq_self_eq_true]
      omega
    · have hne : (i == j) = false := by simpa using Ne.symm hji
      simpa [hji, hne] using hj
  used := by
    have hsum : _ = _ := sum_update (Finset.mem_range.mpr hi) (min 1) s.ref (s.ref i + 1)
    have hused := h.used
    show (if 0 < s.ref i then s.used else s.used + 1) =
      ∑ u ∈ Finset.range 65536, min 1 (update s.ref i (s.ref i + 1) u)
    split <;> omega
  bound := by
    intro j hj
    rw [iget_ref] at hj
    split at hj
    · rename_i hji
      rw [hji]
      exact hi
    · exact h.bound j hj
  valid := by
    intro j hj hv
    rw [iget_ref] at hj
    rw [iget_valid] at hv
    by_cases hji : j = i ∧ s.ref i = 0
    · simp [hji] at hv
    · rw [if_neg hji] at hv
      refine h.valid j ?_ hv
      split at hj
      · rename_i heq
        subst heq
        simp only [true_and] at hji
        omega
      · exact hj
  held := h.held
  orphan := by
    intro j hj hn
    obtain ⟨hv, hr⟩ := h.orphan j hj hn
    rw [iget_ref, iget_valid]
    constructor
    · rw [if_neg]
      · exact hv
      · rintro ⟨rfl, hzero⟩
        omega
    · split <;> omega
  free := h.free
  ents := h.ents
  ninodes := h.ninodes

lemma iget_of_pos (h : 0 < s.ref i) : s.iget i = s.setRef i (s.ref i + 1) := by
  simp [St.iget, h, St.setRef]

/-- The reference is not the last, or the inode is linked, or it is not known to be valid. -/
lemma Refs.drop (h : Refs (i :: τ) s)
    (hkeep : s.ref i = 1 → s.Live i → (s.dinode i).nlink ≠ 0) : Refs τ (s.drop i) := by
  have hi := h.ref i
  rw [List.count_cons_self] at hi
  exact {
    ref := by
      intro j
      have hj := h.ref j
      rw [drop_ref, (quiet_drop s i).held]
      rw [List.count_cons] at hj
      by_cases hji : j = i
      · subst hji
        simp only [if_true, beq_self_eq_true] at hj ⊢
        omega
      · have hne : (i == j) = false := by simpa using Ne.symm hji
        simpa [hji, hne] using hj
    used := by
      have hlt := h.bound i (by omega)
      have hsum : _ = _ := sum_update (Finset.mem_range.mpr hlt) (min 1) s.ref (s.ref i - 1)
      have hused := h.used
      show (if s.ref i = 1 then s.used - 1 else s.used) =
        ∑ u ∈ Finset.range 65536, min 1 (update s.ref i (s.ref i - 1) u)
      split <;> omega
    bound := by
      intro j hj
      rw [drop_ref] at hj
      split at hj
      · rename_i hji
        exact hji ▸ h.bound i (by omega)
      · exact h.bound j hj
    valid := by
      intro j hj hv
      rw [drop_ref] at hj
      split at hj
      · rename_i hji
        exact h.valid j (by rw [hji]; omega) hv
      · exact h.valid j hj hv
    held := h.held
    orphan := by
      intro j hj hn
      obtain ⟨hv, hr⟩ := h.orphan j hj hn
      refine ⟨hv, ?_⟩
      rw [drop_ref]
      split
      · rename_i hji
        rw [hji] at hj hn
        have hne : s.ref i ≠ 1 := fun heq => hkeep heq hj hn
        omega
      · exact hr
    free := h.free
    ents := h.ents
    ninodes := h.ninodes }

lemma ifree_dinode (s : St) (i j : Nat) : (s.ifree i).dinode j =
    if j = i then { s.dinode i with type := .free, ents := [], data := [] } else s.dinode j :=
  update_apply ..

lemma ifree_valid (s : St) (i j : Nat) :
    (s.ifree i).valid j = if j = i then false else s.valid j :=
  update_apply ..

lemma ifree_live (s : St) (i j : Nat) : (s.ifree i).Live j ↔ j ≠ i ∧ s.Live j := by
  unfold St.Live
  rw [ifree_dinode]
  split <;> simp [*]

/-- Only the call itself has a reference to the inode that it frees. -/
lemma Refs.ifree (h : Refs (i :: τ) s) (href : s.ref i = 1) (hn : (s.dinode i).nlink = 0) :
    Refs (i :: τ) (s.ifree i) where
  ref := h.ref
  used := h.used
  bound := h.bound
  valid := by
    intro j hj hv
    rw [ifree_valid] at hv
    split at hv
    · contradiction
    · rename_i hji
      exact (ifree_live s i j).mpr ⟨hji, h.valid j hj hv⟩
  held := by
    intro j hj
    have hji : j ≠ i := by
      rintro rfl
      have hi := h.ref j
      have hheld : 0 < s.held j := hj
      rw [List.count_cons_self] at hi
      omega
    exact (ifree_live s i j).mpr ⟨hji, h.held j hj⟩
  orphan := by
    intro j hj hz
    obtain ⟨hji, hl⟩ := (ifree_live s i j).mp hj
    rw [ifree_dinode, if_neg hji] at hz
    obtain ⟨hv, hr⟩ := h.orphan j hl hz
    rw [ifree_valid, if_neg hji]
    exact ⟨hv, hr⟩
  free := by
    intro j hj
    rw [ifree_live] at hj
    rw [ifree_dinode]
    split
    · exact hn
    · rename_i hji
      exact h.free j fun hl => hj ⟨hji, hl⟩
  ents := by
    intro j
    rw [ifree_dinode]
    split
    · simp
    · exact h.ents j
  ninodes := h.ninodes

/-- `iput` gives up a reference. -/
lemma Refs.iput (h : Refs (i :: τ) s) : Refs τ (s.iput i) := by
  unfold St.iput
  split
  · rename_i hfree
    exact (h.ifree hfree.1 hfree.2.2).drop fun _ hl => absurd rfl ((ifree_live s i i).mp hl).1
  · rename_i hkeep
    exact h.drop fun href hl hn => hkeep ⟨href, (h.orphan i hl hn).1, hn⟩

@[simp] lemma iput_file (s : St) (i : Nat) : (s.iput i).file = s.file := by
  unfold St.iput
  split <;> rfl

@[simp] lemma iput_proc (s : St) (i : Nat) : (s.iput i).proc = s.proc := by
  unfold St.iput
  split <;> rfl

@[simp] lemma iput_ninodes (s : St) (i : Nat) : (s.iput i).ninodes = s.ninodes := by
  unfold St.iput
  split <;> rfl

/-- Only the inode itself can change. -/
lemma iput_dinode_ne {j : Nat} (h : j ≠ i) : (s.iput i).dinode j = s.dinode j := by
  unfold St.iput
  split
  · rw [(quiet_drop _ _).dinode, ifree_dinode, if_neg h]
  · rfl

/-! ### Calls in progress -/

/-- An inode without links is held by a file or a process, or by one of the pointers `τ`. -/
def Kept (τ : List Nat) (s : St) : Prop :=
  ∀ i, s.Live i → (s.dinode i).nlink = 0 → 0 < s.held i ∨ i ∈ τ

/-- Every entry of a directory names an allocated inode. -/
def Alive (s : St) : Prop := ∀ d, (s.dinode d).type = .dir →
  ∀ e ∈ (s.dinode d).ents, e.inum ≠ 0 → s.Live e.inum

/-- The panics that a lookup may meet from a state. It stops at an inode that has been freed, or
when the inode table is full; if neither may happen the state must exclude it. -/
structure Lookups (E : Panic → Prop) (s : St) : Prop where
  alive : E .noType ∨ (s.Live ROOTINO ∧ Alive s)
  room : E .noInodes ∨ s.distinct + 3 ≤ NINODE

/-- The panics that a call may meet from a state. -/
structure Tolerates (E : Panic → Prop) (s : St) : Prop extends Lookups E s where
  other : ∀ e, e ≠ .noType → e ≠ .noInodes → E e

lemma Tolerates.cwd (h : Tolerates E s) : E .kerneltrap ∨ (s.proc p).cwd ≠ none :=
  .inl (h.other _ (by decide) (by decide))

lemma Refs.kept (h : Refs τ s) : Kept τ s := by
  intro i hl hn
  have href := (h.orphan i hl hn).2
  rw [h.ref i] at href
  rw [← List.count_pos_iff]
  omega

lemma Kept.cons (h : Kept τ s) (i : Nat) : Kept (i :: τ) s :=
  fun j hl hn => (h j hl hn).imp id (List.mem_cons_of_mem i)

lemma Kept.steady (h : Kept τ s) (hs : Steady s s') : Kept τ s' := by
  intro i hl hn
  rw [hs.live] at hl
  rw [hs.dinode] at hn
  rw [hs.held]
  exact h i hl hn

lemma Kept.quiet (h : Kept τ s) (hq : Quiet s s') : Kept τ s' := h.steady hq.toSteady

lemma Lookups.quiet (h : Lookups E s) (hq : Quiet s s') : Lookups E s' := by
  refine ⟨h.alive.imp id fun ha => ⟨(hq.live _).mpr ha.1, ?_⟩, h.room.imp id ?_⟩
  · intro d hd e he hne
    rw [hq.dinode] at hd he
    exact (hq.live _).mpr (ha.2 d hd e he hne)
  · intro hroom
    unfold St.distinct at hroom ⊢
    simpa only [hq.held] using hroom

lemma Tolerates.quiet (h : Tolerates E s) (hq : Quiet s s') : Tolerates E s' :=
  ⟨h.toLookups.quiet hq, h.other⟩

/-- A call that gives up a pointer to an inode that it has not unlinked does not free it. -/
lemma iput_eq_drop (h : Refs (i :: τ) s) (hk : Kept τ s) : s.iput i = s.drop i := by
  unfold St.iput
  rw [if_neg]
  rintro ⟨href, hv, hn⟩
  have hkept := hk i (h.valid i (by omega) hv) hn
  rw [← List.count_pos_iff] at hkept
  have hi := h.ref i
  rw [List.count_cons_self] at hi
  omega

lemma quiet_iput (h : Refs (i :: τ) s) (hk : Kept τ s) : Quiet s (s.iput i) := by
  rw [iput_eq_drop h hk]
  exact quiet_drop s i

/-- There is room for a few pointers more than are held. -/
lemma Refs.room (h : Refs τ s) (hroom : s.distinct + 3 ≤ NINODE) (hτ : τ.length ≤ 2) :
    s.used < NINODE := by
  have hle : ∀ i ∈ Finset.range 65536, min 1 (s.ref i) ≤ min 1 (s.held i) + τ.count i := by
    intro i _
    have := h.ref i
    omega
  have hsum := Finset.sum_le_sum hle
  rw [Finset.sum_add_distrib, ← h.used] at hsum
  have hcount : ∑ i ∈ Finset.range 65536, (τ : Multiset Nat).count i = (τ : Multiset Nat).card := by
    apply Multiset.sum_count_eq_card
    intro i hi
    have hpos := List.count_pos_iff.mpr (Multiset.mem_coe.mp hi)
    have href := h.ref i
    exact Finset.mem_range.mpr (h.bound i (by omega))
  simp only [Multiset.coe_count, Multiset.coe_card] at hcount
  unfold St.distinct at hroom
  omega

lemma wp_iget_of (h : Refs τ s) (hE : Lookups E s) (hτ : τ.length ≤ 2) (hQ : Q ⟨⟩ (s.iget i)) :
    wp (iget i) E Q s := by
  refine wp_iget hQ (hE.room.imp id fun hroom => .inr ?_)
  exact h.room hroom hτ

end Xv6.Fs
