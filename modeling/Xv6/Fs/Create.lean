import Xv6.Fs.Lookup

/-!
# Creating inodes

`create` either finds the name, makes an inode and an entry for it, or leaves everything as it was.
-/

namespace Xv6.Fs

open Function Lib

variable {s s' s'' : St} {τ : List Nat} {i ip dp : Nat} {E : Panic → Prop} {name : Name}
  {type : FileType} {major minor : Int}

/-- Allocated inodes, files and processes are as before; free inodes are still free. -/
structure Unchanged (s s' : St) : Prop where
  live : ∀ i, s.Live i → s'.dinode i = s.dinode i
  free : ∀ i, ¬ s.Live i → ¬ s'.Live i
  file : s'.file = s.file
  proc : s'.proc = s.proc
  ninodes : s'.ninodes = s.ninodes

lemma Steady.unchanged (h : Steady s s') : Unchanged s s' where
  live := fun i _ => by rw [h.dinode]
  free := fun i hi => by rwa [h.live]
  file := h.file
  proc := h.proc
  ninodes := h.ninodes

lemma Unchanged.trans (h : Unchanged s s') (h' : Unchanged s' s'') : Unchanged s s'' where
  live := by
    intro i hi
    have heq := h.live i hi
    rw [h'.live i (by rw [St.Live, heq]; exact hi), heq]
  free := fun i hi => h'.free i (h.free i hi)
  file := h'.file.trans h.file
  proc := h'.proc.trans h.proc
  ninodes := h'.ninodes.trans h.ninodes

/-! ### The new inode -/

/-- The entries of a new directory. -/
def newEnts (type : FileType) (ip dp : Nat) : List Dirent :=
  if type = .dir then [⟨ip % 65536, ['.']⟩, ⟨dp % 65536, ['.', '.']⟩] else []

/-- The inode that `create` makes in the directory `dp`. -/
def newInode (type : FileType) (major minor : Int) (ip dp : Nat) : Dinode :=
  { type, major, minor, nlink := 1, ents := newEnts type ip dp }

/-- The directory with the entry of the new inode. -/
def withEnt (d : Dinode) (type : FileType) (name : Name) (ip : Nat) : Dinode :=
  { d with
    ents := addEnt d.ents ⟨ip % 65536, name⟩
    nlink := if type = .dir then d.nlink + 1 else d.nlink }

/-- The inodes after `create` has made a new one. -/
def made (D : Nat → Dinode) (type : FileType) (major minor : Int) (ip dp : Nat) (name : Name) :
    Nat → Dinode :=
  update (update D ip (newInode type major minor ip dp)) dp
    (withEnt (D dp) type name ip)

lemma freeInode_some (h : freeInode s = some ip) : ¬ s.Live ip ∧ 1 ≤ ip ∧ ip < s.ninodes := by
  unfold freeInode at h
  have hmem := List.mem_of_find?_eq_some h
  have hfree := List.find?_some h
  rw [List.mem_range'_1] at hmem
  refine ⟨?_, hmem.1, by omega⟩
  simpa [St.Live] using hfree

/-- The state after `ialloc` and the assignments to the new inode. -/
def St.ialloc (s : St) (ip : Nat) (d : Dinode) : St :=
  ((s.iget ip).setInode ip d).setValid ip true

/-- A free inode is not referred to. -/
lemma Refs.ref_free (h : Refs τ s) (hfree : ¬ s.Live ip) (hτ : ip ∉ τ) : s.ref ip = 0 := by
  have hheld : s.held ip = 0 := by
    by_contra hne
    exact hfree (h.held ip (by omega))
  rw [h.ref ip, hheld, List.count_eq_zero_of_not_mem hτ]

lemma Refs.ialloc {d : Dinode} (h : Refs τ s) (hip : ip < 65536) (hd : d.type ≠ .free)
    (hn : d.nlink ≠ 0) (hents : ∀ e ∈ d.ents, e.inum < 65536) : Refs (ip :: τ) (s.ialloc ip d) := by
  have h₁ := (h.iget hip).setInode (i := ip) hd (fun hz => absurd hz hn) hents
  exact h₁.lock ((setInode_live ..).mpr (by simpa using hd))

lemma setInode_setInode (s : St) (i : Nat) (d d' : Dinode) :
    (s.setInode i d).setInode i d' = s.setInode i d' := by
  simp [St.setInode]

lemma setInode_self (s : St) (i : Nat) : s.setInode i (s.dinode i) = s := by
  simp [St.setInode]

/-- `ialloc`, `ilock` and the assignments that follow. -/
lemma wp_ialloc {Q : St → Prop} (h : Refs τ s) (hE : Tolerates E s) (hτ : τ.length ≤ 2)
    (hfree : freeInode s = some ip) (hip : ip ∉ τ) (htype : type ≠ .free)
    (hQ : Q (s.ialloc ip { type, major, minor, nlink := 1 })) :
    wp (iget ip) E (fun _ s₁ => wp (ilock ip) E (fun _ s₂ =>
      Q (s₂.setInode ip { s₂.dinode ip with major, minor, nlink := 1 })) s₁)
      (s.setInode ip { type }) := by
  have href := h.ref_free (freeInode_some hfree).1 hip
  refine wp_iget ?_ (hE.room.imp id fun hroom => .inr (h.room hroom hτ))
  have hvalid : ((s.setInode ip { type }).iget ip).valid ip = false := by
    simp [St.iget, St.setInode, St.setRef, href]
  have hlive : ((s.setInode ip { type }).iget ip).Live ip := by
    simpa [St.Live, St.iget, St.setInode, St.setRef] using htype
  refine wp_ilock ?_ (fun hv => ?_) (fun _ _ => ?_) (fun _ hl => absurd hlive hl)
  · simp [St.iget, St.setRef]
  · rw [hvalid] at hv
    contradiction
  · simpa [St.ialloc, St.iget, St.setInode, St.setRef, St.setValid, href] using hQ

lemma addEnt_nil (de : Dirent) : addEnt [] de = [de] := by
  simp [addEnt, emptyEnt]

lemma wp_linkNew {Q : Bool → St → Prop} (hdir : (s.dinode dp).type = .dir)
    (hnone : findEnt name (s.dinode dp).ents = none) (hne : dp ≠ ip)
    (htype : (s.dinode ip).type = type) (hents : (s.dinode ip).ents = []) (hip : ip % 65536 ≠ 0)
    (hfail : (type ≠ .dir → ¬ s.Space dp) → ∀ a ents, (∀ e ∈ ents, e.inum < 65536) →
      Q false (St.setInode { s with answers := a } ip { s.dinode ip with ents }))
    (hok : (type ≠ .dir → s.Space dp) → ∀ a, Q true ((St.setInode { s with answers := a } ip
      { s.dinode ip with ents := newEnts type ip dp }).setInode dp
      { s.dinode dp with ents := addEnt (s.dinode dp).ents ⟨ip % 65536, name⟩ })) :
    wp (linkNew dp ip name type) E Q s := by
  -- The entry in the directory is the last step, whatever the inode contains by then.
  have hlast : ∀ a ents, (∀ e ∈ ents, e.inum < 65536) → ents = newEnts type ip dp →
      (type ≠ .dir → a = s.answers) → wp (dirlink dp name ip) E Q
        (St.setInode { s with answers := a } ip
        { s.dinode ip with ents }) := by
    intro a ents hlt heq ha
    have hdp : (St.setInode { s with answers := a } ip { s.dinode ip with ents }).dinode dp =
        s.dinode dp := by
      simp [St.setInode, hne]
    have hspace : type ≠ .dir → ((St.setInode { s with answers := a } ip
        { s.dinode ip with ents }).Space dp ↔ s.Space dp) := by
      intro hd
      unfold St.Space
      rw [hdp, ha hd]
      rfl
    refine wp_dirlink_absent (by rwa [hdp]) (by rwa [hdp]) (fun hno a' => ?_) fun hyes a' => ?_
    · exact hfail (fun hd => mt (hspace hd).mpr hno) a' ents hlt
    · rw [hdp, heq]
      exact hok (fun hd => (hspace hd).mp hyes) a'
  have hsame : ∀ a, St.setInode { s with answers := a } ip { s.dinode ip with ents := [] } =
      { s with answers := a } := by
    intro a
    have heq : ({ s.dinode ip with ents := [] } : Dinode) = s.dinode ip := by rw [← hents]
    rw [heq]
    exact setInode_self { s with answers := a } ip
  simp only [linkNew, wp_bind, wp_ite, wp_pure]
  refine ⟨fun hd => ?_, fun hd => ?_⟩
  · subst hd
    have hdot : addEnt [⟨ip % 65536, ['.']⟩] ⟨dp % 65536, ['.', '.']⟩ = newEnts .dir ip dp := by
      simp [addEnt, emptyEnt, hip, newEnts]
    have hlt : ∀ x : Nat, x % 65536 < 65536 := fun x => Nat.mod_lt _ (by decide)
    refine wp_dirlink_absent htype (by rw [hents]; rfl) (fun _ a => ?_) fun _ a => ?_
    · refine ⟨fun _ => ?_, fun hf => (hf (by simp)).elim⟩
      have := hfail (absurd rfl) a [] (by simp)
      rwa [hsame] at this
    · rw [hents, addEnt_nil]
      refine ⟨fun hf => (hf rfl).elim, fun _ => ?_⟩
      refine wp_dirlink_absent (by simpa [St.setInode] using htype)
        (by simp [St.setInode, findEnt]) (fun _ a' => ?_) fun _ a' => ?_
      · refine ⟨fun _ => ?_, fun hf => (hf (by simp)).elim⟩
        exact hfail (absurd rfl) a' _ (by simpa using hlt ip)
      · refine ⟨fun hf => (hf rfl).elim, fun _ => ?_⟩
        have := hlast a' (newEnts .dir ip dp) (by simp [newEnts, hlt]) rfl (absurd rfl)
        simpa [St.setInode, hdot] using this
  · have := hlast s.answers [] (by simp) (by simp [newEnts, hd]) fun _ => rfl
    rwa [hsame] at this

/-! ### What `create` does -/

/-- `create` has found a file or device of that name. -/
def CreatedOld (s : St) (p : Fin NPROC) (path : List Char) (ip : Nat) (s' : St) : Prop :=
  ∃ dp name k, resolve s p true path = some (dp, name) ∧
    findEnt name (s.dinode dp).ents = some (ip, k) ∧
    ((s.dinode ip).type = .file ∨ (s.dinode ip).type = .device) ∧ Quiet s s'

/-- The name is new, and there are a free inode and room for an entry in the directory. -/
def CanMake (s : St) (p : Fin NPROC) (path : List Char) : Prop :=
  ∃ r ∈ resolve s p true path, findEnt r.2 (s.dinode r.1).ents = none ∧
    (freeInode s).isSome ∧ s.Space r.1

/-- An inode has been made, and the pointer to the directory has been given up. -/
structure Made (s : St) (dp : Nat) (name : Name) (type : FileType) (major minor : Int) (ip : Nat)
    (s' : St) : Prop where
  free : freeInode s = some ip
  space : type ≠ .dir → s.Space dp
  before : ∃ s₁, s₁.dinode = made s.dinode type major minor ip dp name ∧ s₁.file = s.file ∧
    s₁.proc = s.proc ∧ s₁.ninodes = s.ninodes ∧ Refs [dp, ip] s₁ ∧ s' = s₁.iput dp

/-- `create` has made an inode. -/
def CreatedNew (s : St) (p : Fin NPROC) (path : List Char) (type : FileType) (major minor : Int)
    (ip : Nat) (s' : St) : Prop :=
  ∃ dp name, resolve s p true path = some (dp, name) ∧
    findEnt name (s.dinode dp).ents = none ∧ Made s dp name type major minor ip s'

lemma Quiet.freeInode (h : Quiet s s') : Fs.freeInode s' = Fs.freeInode s := by
  unfold Fs.freeInode
  rw [h.dinode, h.ninodes]

lemma Quiet.space (h : Quiet s s') : s'.Space dp ↔ s.Space dp := by
  unfold St.Space
  rw [h.dinode, h.answers]

lemma Quiet.made (h : Quiet s s') (hm : Made s' dp name type major minor ip s'') :
    Made s dp name type major minor ip s'' where
  free := h.freeInode.symm.trans hm.free
  space := fun hd => h.space.mp (hm.space hd)
  before := by
    obtain ⟨s₁, hdinode, hfile, hproc, hninodes, hrefs⟩ := hm.before
    rw [h.dinode] at hdinode
    exact ⟨s₁, hdinode, hfile.trans h.file, hproc.trans h.proc, hninodes.trans h.ninodes, hrefs⟩

lemma Made.live (h : Made s dp name type major minor ip s') (hne : dp ≠ ip) (htype : type ≠ .free) :
    s'.Live ip := by
  obtain ⟨s₁, hdinode, -, -, -, -, rfl⟩ := h.before
  rw [St.Live, iput_dinode_ne hne.symm, hdinode, made, update_of_ne hne.symm,
    update_self]
  exact htype

lemma Made.refs (h : Made s dp name type major minor ip s') : Refs [ip] s' := by
  obtain ⟨s₁, -, -, -, -, hrefs, rfl⟩ := h.before
  exact hrefs.iput

section

variable {ents : List Dirent} {a : Nat → Bool}

variable (major minor) in
/-- A new inode that cannot be linked is freed again. -/
lemma unlinkNew (h : Refs [dp] s) (hk : Kept [] s) (hfree : ¬ s.Live ip) (hip : ip < 65536)
    (hne : dp ≠ ip) (htype : type ≠ .free) (hents : ∀ e ∈ ents, e.inum < 65536)
    (hs' : s' = St.setInode { s.ialloc ip { type, major, minor, nlink := 1 } with answers := a } ip
      { type, major, minor, nlink := 0, ents }) :
    Unchanged s ((s'.iput ip).iput dp) ∧ Refs [] ((s'.iput ip).iput dp) := by
  have href : s.ref ip = 0 := h.ref_free hfree (by simpa using Ne.symm hne)
  have h₁ : Refs [ip, dp] s' := by
    have := (h.ialloc hip (d := { type, major, minor, nlink := 1 }) htype (by simp)
      (by simp)).answered a
    rw [hs']
    refine this.setInode htype (fun _ => ⟨?_, ?_⟩) hents
    · simp [St.ialloc, St.setValid]
    · simp [St.ialloc, St.setValid, St.setInode, St.iget, St.setRef]
  have hiput : s'.iput ip = (s'.ifree ip).drop ip := by
    unfold St.iput
    rw [if_pos]
    rw [hs']
    simp [St.ialloc, St.setValid, St.setInode, St.iget, St.setRef, href]
  have hdinode : ∀ j, j ≠ ip → (s'.iput ip).dinode j = s.dinode j := by
    intro j hj
    rw [hiput, (quiet_drop _ _).dinode, ifree_dinode, if_neg hj, hs']
    simp [St.ialloc, St.setValid, St.setInode, St.iget, St.setRef, hj]
  have hlive : ∀ j, (s'.iput ip).Live j ↔ s.Live j := by
    intro j
    by_cases hj : j = ip
    · subst hj
      rw [hiput, (quiet_drop _ _).live, ifree_live]
      simp [hfree]
    · unfold St.Live
      rw [hdinode j hj]
  have hheld : ∀ j, (s'.iput ip).held j = s.held j := by
    intro j
    rw [hiput, hs']
    rfl
  have hk' : Kept [] (s'.iput ip) := by
    intro j hj hn
    rw [hlive] at hj
    rw [hdinode j (fun hji => hfree (hji ▸ hj))] at hn
    rw [hheld]
    exact hk j hj hn
  have hq := quiet_iput h₁.iput hk'
  refine ⟨Unchanged.trans ⟨?_, ?_, ?_, ?_, ?_⟩ hq.unchanged, h₁.iput.iput⟩
  · exact fun j hj => hdinode j fun hji => hfree (hji ▸ hj)
  · exact fun j hj => by rwa [hlive]
  · rw [hiput, hs']
    rfl
  · rw [hiput, hs']
    rfl
  · rw [hiput, hs']
    rfl

/-- A new inode is linked. -/
lemma linkedNew (h : Refs [dp] s) (hip : ip < 65536) (hne : dp ≠ ip)
    (htype : type ≠ .free) (hdir : (s.dinode dp).type = .dir) (hvalid : s.valid dp = true)
    (hs' : s' = (St.setInode { s.ialloc ip { type, major, minor, nlink := 1 } with answers := a } ip
      (newInode type major minor ip dp)).setInode dp (withEnt (s.dinode dp) type name ip)) :
    s'.dinode = made s.dinode type major minor ip dp name ∧ Refs [dp, ip] s' := by
  have hlt : ∀ x : Nat, x % 65536 < 65536 := fun x => Nat.mod_lt _ (by decide)
  subst hs'
  constructor
  · simp only [made, St.setInode, St.ialloc, St.setValid, St.iget, St.setRef, update_idem]
  · have h₁ := (h.ialloc hip (d := { type, major, minor, nlink := 1 }) htype (by simp)
      (by simp)).answered a
    have h₂ := h₁.setInode (i := ip) (d := newInode type major minor ip dp) htype
      (by simp [newInode])
      (by
        intro e he
        simp only [newInode, newEnts] at he
        split at he
        · simp only [List.mem_cons, List.not_mem_nil, or_false] at he
          rcases he with rfl | rfl <;> exact hlt _
        · simp at he)
    refine (h₂.setInode (i := dp) (d := withEnt (s.dinode dp) type name ip) ?_ ?_ ?_).perm
      (List.Perm.swap ..)
    · simp [withEnt, hdir]
    · intro _
      have href := h.ref dp
      rw [List.count_cons_self] at href
      constructor
      · show update (s.iget ip).valid ip true dp = true
        rw [update_of_ne hne, iget_valid, if_neg fun hf => hne hf.1]
        exact hvalid
      · show 0 < (s.iget ip).ref dp
        rw [iget_ref, if_neg hne]
        omega
    · intro e he
      rcases mem_addEnt he with rfl | he
      · exact hlt _
      · exact h.ents dp e he

end

lemma createNew_spec (h : Refs [dp] s) (hk : Kept [] s) (hE : Tolerates E s) (htype : type ≠ .free)
    (hdir : (s.dinode dp).type = .dir) (hvalid : s.valid dp = true)
    (hnone : findEnt name (s.dinode dp).ents = none) :
    wp (createNew dp name type major minor) E (fun r s' =>
      match r with
      | none => Unchanged s s' ∧ Refs [] s' ∧ (type ≠ .dir → freeInode s ≠ none → ¬ s.Space dp)
      | some ip => dp ≠ ip ∧ Made s dp name type major minor ip s') s := by
  simp only [createNew, ialloc, wp_bind, wp_get]
  split
  · rename_i hfull
    simp only [wp_pure, wp_bind, wp_iput]
    exact ⟨(quiet_iput h hk).unchanged, h.iput, fun _ hne => absurd hfull hne⟩
  · rename_i ip hfree
    obtain ⟨hdead, hpos, hlt⟩ := freeInode_some hfree
    have hne : dp ≠ ip := by
      rintro rfl
      exact hdead (by simp [St.Live, hdir])
    have hip : ip < 65536 := by
      have := h.ninodes
      omega
    simp only [wp_bind, wp_setInode, wp_pure, wp_ite, wp_iput]
    refine wp_ialloc h hE (by simp) hfree (by simpa using Ne.symm hne) htype ?_
    have hdp : (s.ialloc ip { type, major, minor, nlink := 1 }).dinode dp = s.dinode dp := by
      simp [St.ialloc, St.setValid, St.setInode, St.iget, St.setRef, hne]
    have hnew : (s.ialloc ip { type, major, minor, nlink := 1 }).dinode ip =
        { type, major, minor, nlink := 1 } := by
      simp [St.ialloc, St.setValid, St.setInode, St.iget, St.setRef]
    have hspace : (s.ialloc ip { type, major, minor, nlink := 1 }).Space dp ↔ s.Space dp := by
      unfold St.Space
      rw [hdp]
      rfl
    refine wp_linkNew (by rwa [hdp]) (by rwa [hdp]) hne (by rw [hnew]) (by rw [hnew])
      (by rw [Nat.mod_eq_of_lt hip]; omega) (fun hno a ents hents => ?_) fun hyes a => ?_
    · refine ⟨fun hf => absurd hf (by simp), fun _ => ?_⟩
      rw [hnew, setInode_setInode, setInode_dinode, if_pos rfl]
      obtain ⟨hsame, hrefs⟩ := unlinkNew major minor h hk hdead hip hne htype hents (a := a) rfl
      exact ⟨hsame, hrefs, fun hd _ => mt hspace.mpr (hno hd)⟩
    · refine ⟨fun _ => ?_, fun hf => absurd rfl hf⟩
      rw [hnew, hdp]
      have hdone : ∀ s₃, s₃ = (St.setInode
          { s.ialloc ip { type, major, minor, nlink := 1 } with answers := a } ip
          (newInode type major minor ip dp)).setInode dp (withEnt (s.dinode dp) type name ip) →
          dp ≠ ip ∧ Made s dp name type major minor ip (s₃.iput dp) := by
        intro s₃ hs₃
        obtain ⟨hmade, h₃⟩ := linkedNew h hip hne htype hdir hvalid hs₃
        refine ⟨hne, hfree, fun hd => hspace.mp (hyes hd), s₃, hmade, ?_, ?_, ?_, h₃, rfl⟩ <;>
        · rw [hs₃]
          rfl
      refine ⟨fun hd => hdone _ ?_, fun hd => hdone _ ?_⟩
      · rw [setInode_setInode, setInode_dinode, if_pos rfl]
        simp only [withEnt, newInode, if_pos hd]
      · simp only [withEnt, newInode, if_neg hd]

/-- **What `create` does.** It finds a file or device that it may open, makes an inode, or changes
nothing. -/
lemma create_spec {p : Fin NPROC} {path : List Char} (h : Refs [] s) (hE : Tolerates E s)
    (htype : type ≠ .free) :
    wp (create p path type major minor) E (fun r s' =>
      match r with
      | none => Unchanged s s' ∧ Refs [] s' ∧ (type ≠ .dir → ¬ CanMake s p path)
      | some ip => Refs [ip] s' ∧ s'.Live ip ∧
        ((type = .file ∧ CreatedOld s p path ip s') ∨
          CreatedNew s p path type major minor ip s')) s := by
  have hk := h.kept
  simp only [create, wp_bind]
  refine wp_nameiparent h hE.toLookups hE.cwd (by simp) (fun hr s₁ hq₁ h₁ => ?_)
    fun dp name s₁ hq₁ h₁ hdir hr => ?_
  · refine ⟨hq₁.unchanged, h₁, ?_⟩
    rintro - ⟨r, hmem, -⟩
    rw [hr] at hmem
    contradiction
  · simp only [wp_bind]
    refine wp_ilock_of h₁ (by simp) (.inr (by simp [St.Live, hdir]))
      fun s₂ hq₂ h₂ hlive₂ hvalid₂ => ?_
    have hq := hq₁.trans hq₂
    have hk₂ := hk.quiet hq
    have hE₂ := hE.quiet hq
    rw [← hq₂.dinode] at hdir
    have hcan : CanMake s p path → findEnt name (s₂.dinode dp).ents = none ∧
        freeInode s₂ ≠ none ∧ s₂.Space dp := by
      rintro ⟨r, hmem, hnone, hsome, hspace⟩
      obtain rfl : r = (dp, name) := Option.some.inj (hmem.symm.trans hr)
      rw [hq.dinode, hq.freeInode, hq.space]
      exact ⟨hnone, Option.isSome_iff_ne_none.mp hsome, hspace⟩
    refine wp_dirlookup h₂ hE₂.toLookups (by simp) hdir (fun hfind => ?_) fun ip k hfind => ?_
    · refine wp_imp (createNew_spec h₂ hk₂ hE₂ htype hdir hvalid₂ hfind) ?_
      intro r s₃ hr₃
      cases r with
      | none =>
        obtain ⟨hsame, hrefs, hno⟩ := hr₃
        exact ⟨hq.unchanged.trans hsame, hrefs, fun hd hc => hno hd (hcan hc).2.1 (hcan hc).2.2⟩
      | some ip =>
        obtain ⟨hne, hmade⟩ := hr₃
        rw [hq.dinode] at hfind
        exact ⟨hmade.refs, hmade.live hne htype, .inr ⟨dp, name, hr, hfind, hq.made hmade⟩⟩
    · -- The name exists.
      have h₃ : Refs [dp, ip] (s₂.iget ip) :=
        (h₂.iget (h₂.findEnt hfind)).perm (List.Perm.swap ..)
      have hq₃ := quiet_iget s₂ ip
      have hq₄ := quiet_iput h₃ ((hk₂.quiet hq₃).cons ip)
      have hq₂₄ := hq₃.trans hq₄
      have h₄ : Refs [ip] ((s₂.iget ip).iput dp) := h₃.iput
      simp only [wp_bind, wp_iput]
      have hlive : E .noType ∨ ((s₂.iget ip).iput dp).Live ip := hE₂.alive.imp id fun ha =>
        (hq₂₄.live ip).mpr (ha.2.findEnt hdir hfind)
      refine wp_ilock_of h₄ (by simp) hlive fun s₅ hq₅ h₅ hlive₅ _ => ?_
      have hq₂₅ := hq₂₄.trans hq₅
      have hq₀₅ := hq.trans hq₂₅
      simp only [wp_getInode, wp_ite, wp_pure, wp_bind, wp_iput]
      refine ⟨fun hok => ⟨h₅, hlive₅, .inl ⟨hok.1, dp, name, k, hr, ?_, ?_, hq₀₅⟩⟩, fun _ => ?_⟩
      · rw [← hq.dinode]
        exact hfind
      · rw [← hq₀₅.dinode]
        exact hok.2
      · refine ⟨(hq₀₅.trans (quiet_iput h₅ (hk.quiet hq₀₅))).unchanged, h₅.iput, fun _ hc => ?_⟩
        rw [(hcan hc).1] at hfind
        contradiction

section

variable {p : Fin NPROC} {path : List Char}

lemma CreatedNew.canMake (h : CreatedNew s p path type major minor ip s') (htype : type ≠ .dir) :
    CanMake s p path := by
  obtain ⟨dp, name, hr, hnone, hmade⟩ := h
  exact ⟨(dp, name), hr, hnone, by rw [hmade.free]; rfl, hmade.space htype⟩

/-- The directory is not the new inode. -/
lemma CreatedNew.dinode (h : CreatedNew s p path type major minor ip s') :
    ∃ dp name, resolve s p true path = some (dp, name) ∧
      findEnt name (s.dinode dp).ents = none ∧ (s.dinode dp).type = .dir ∧ dp ≠ ip ∧
      Made s dp name type major minor ip s' ∧ s'.dinode ip = newInode type major minor ip dp := by
  obtain ⟨dp, name, hr, hnone, hmade⟩ := h
  have hdir : (s.dinode dp).type = .dir := by
    obtain ⟨start, -, hw⟩ := Option.bind_eq_some_iff.mp hr
    exact walk_parent hw
  have hne : dp ≠ ip := by
    rintro rfl
    exact (freeInode_some hmade.free).1 (by simp [St.Live, hdir])
  refine ⟨dp, name, hr, hnone, hdir, hne, hmade, ?_⟩
  obtain ⟨s₁, hdinode, -, -, -, -, rfl⟩ := hmade.before
  rw [iput_dinode_ne hne.symm, hdinode, made, update_of_ne hne.symm, update_self]

end

end Xv6.Fs
