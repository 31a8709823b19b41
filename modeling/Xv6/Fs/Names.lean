import Xv6.Fs.Descriptors

/-!
# Calls on path names

What `link`, `unlink`, `open`, `mkdir`, `mknod` and `chdir` do to the inodes when they succeed, and
that a failure leaves everything as it was, but for a new file that `open` cannot open.
-/

namespace Xv6.Fs

open Function Lib

variable {s s' : St} {τ : List Nat} {i ip dp : Nat} {p : Fin NPROC} {E : Panic → Prop} {name : Name}
  {path : List Char} {s₀ : St} {new : List Char} {n : UInt16} {omode : Nat} {x : File}
  {f : Fin NFILE} {d : Dinode} {r w : Bool}

/-! ### What lookups see -/

lemma walk_congr {D D' : Nat → Dinode} (htype : ∀ i, (D' i).type = (D i).type)
    (hents : ∀ i, (D' i).ents = (D i).ents) (par : Bool) (ip : Nat) (names : List Name) :
    walk D' par ip names = walk D par ip names := by
  induction names generalizing ip with
  | nil => rfl
  | cons name rest ih =>
    unfold walk
    rw [htype, hents]
    simp only [ih]

lemma setNlink_type (s : St) (i j : Nat) (n : UInt16) :
    ((s.setInode i ((s.dinode i).setNlink n)).dinode j).type = (s.dinode j).type := by
  rw [setInode_dinode]
  split
  · rename_i h
    rw [h]
    rfl
  · rfl

lemma setNlink_ents (s : St) (i j : Nat) (n : UInt16) :
    ((s.setInode i ((s.dinode i).setNlink n)).dinode j).ents = (s.dinode j).ents := by
  rw [setInode_dinode]
  split
  · rename_i h
    rw [h]
    rfl
  · rfl

lemma resolve_setNlink (s : St) (i : Nat) (n : UInt16) (p : Fin NPROC) (par : Bool)
    (path : List Char) :
    resolve (s.setInode i ((s.dinode i).setNlink n)) p par path = resolve s p par path := by
  unfold resolve
  have hwalk := fun ip => walk_congr (fun j => setNlink_type s i j n)
    (fun j => setNlink_ents s i j n) par ip (elements path)
  simp only [hwalk]
  rfl

lemma Steady.resolve (h : Steady s s') (p : Fin NPROC) (par : Bool) (path : List Char) :
    Fs.resolve s' p par path = Fs.resolve s p par path := by
  unfold Fs.resolve startInode
  rw [h.dinode, h.proc]

lemma Steady.setInode (h : Steady s s') (i : Nat) (d : Dinode) :
    Steady (s.setInode i d) (s'.setInode i d) := by
  refine ⟨?_, h.file, h.proc, h.ninodes⟩
  unfold St.setInode
  rw [h.dinode]

lemma Tolerates.setNlink (h : Tolerates E s) (i : Nat) (n : UInt16) :
    Tolerates E (s.setInode i ((s.dinode i).setNlink n)) := by
  refine ⟨⟨h.alive.imp id fun ha => ⟨?_, ?_⟩, h.room⟩, h.other⟩
  · rw [St.Live, setNlink_type]
    exact ha.1
  · intro d hd e he hne
    rw [setNlink_type] at hd
    rw [setNlink_ents] at he
    rw [St.Live, setNlink_type]
    exact ha.2 d hd e he hne

/-! ### `link` -/

/-- An entry for an inode that is not a directory has been added, and the pointer to the directory
has been given up. -/
def Entered (s : St) (p : Fin NPROC) (new : List Char) (ip : Nat) (s' : St) : Prop :=
  ∃ dp name s₁, resolve s p true new = some (dp, name) ∧ (s.dinode dp).type = .dir ∧
    findEnt name (s.dinode dp).ents = none ∧
    s₁.dinode = update s.dinode dp (withEnt (s.dinode dp) .file name ip) ∧
    s₁.file = s.file ∧ s₁.proc = s.proc ∧ s₁.ninodes = s.ninodes ∧ Refs [dp, ip] s₁ ∧
    s' = s₁.iput dp

lemma Entered.steady (h : Entered s p new ip s') (hs : Steady s₀ s) : Entered s₀ p new ip s' := by
  obtain ⟨dp, name, s₁, hr, hdir, hnone, hdinode, hfile, hproc, hninodes, hrefs⟩ := h
  rw [hs.resolve] at hr
  rw [hs.dinode] at hdir hnone hdinode
  exact ⟨dp, name, s₁, hr, hdir, hnone, hdinode, hfile.trans hs.file, hproc.trans hs.proc,
    hninodes.trans hs.ninodes, hrefs⟩

lemma linkName_spec (h : Refs [ip] s) (hE : Tolerates E s) : wp (linkName p new ip) E (fun r s' =>
      if r then Entered s p new ip s' else Steady s s' ∧ Refs [ip] s') s := by
  have hk := h.kept
  simp only [linkName, wp_bind]
  refine wp_nameiparent h hE.toLookups hE.cwd (by simp) (fun _ s₁ hq₁ h₁ => ?_)
    fun dp name s₁ hq₁ h₁ hdir hr => ?_
  · exact ⟨hq₁.toSteady, h₁⟩
  · simp only [wp_bind]
    refine wp_ilock_of h₁ (by simp) (.inr (by simp [St.Live, hdir])) fun s₂ hq₂ h₂ _ hvalid => ?_
    have hq := hq₁.trans hq₂
    rw [← hq₂.dinode] at hdir
    refine wp_dirlink h₂ (hE.quiet hq) (by simp) hdir (fun s₃ hs h₃ => ?_) fun hnone a => ?_
    · simp only [wp_iput, wp_pure]
      have hs₃ := hq.toSteady.trans hs
      exact ⟨hs₃.trans (quiet_iput h₃ (hk.steady hs₃)).toSteady, h₃.iput⟩
    · simp only [wp_iput, wp_pure]
      rw [hq.dinode] at hdir hnone
      refine ⟨dp, name, _, hr, hdir, hnone, ?_, ?_, ?_, ?_, ?_, rfl⟩
      · simp [St.setInode, hq.dinode, withEnt]
      · exact hq.file
      · exact hq.proc
      · exact hq.ninodes
      · have hlt : ip % 65536 < 65536 := Nat.mod_lt _ (by decide)
        refine (h₂.answered a).setInode (by simp [hq.dinode, hdir]) (fun hz => ?_) fun e he => ?_
        · have hpos := h₂.ref dp
          rw [List.count_cons_self] at hpos
          exact ⟨hvalid, show 0 < s₂.ref dp by omega⟩
        · rcases mem_addEnt he with rfl | he
          · exact hlt
          · exact h₂.ents dp e he

/-- `link` has succeeded: the count has been increased and the entry added. -/
def Linked (s : St) (p : Fin NPROC) (old new : List Char) (s' : St) : Prop :=
  ∃ ip n s₁, resolve s p false old = some (ip, n) ∧ (s.dinode ip).type ≠ .dir ∧ s.Live ip ∧
    Entered (s.setInode ip ((s.dinode ip).setNlink ((s.dinode ip).nlink + 1))) p new ip s₁ ∧
    s' = s₁.iput ip

/-- The call has failed and changed nothing. -/
def Failed (s s' : St) (r : Int) : Prop := r = -1 ∧ Unchanged s s' ∧ Refs [] s'

lemma setNlink_restored (h : Steady (s.setInode ip ((s.dinode ip).setNlink n)) s') :
    Steady s (s'.setInode ip ((s'.dinode ip).setNlink (s.dinode ip).nlink)) := by
  refine ⟨?_, h.file, h.proc, h.ninodes⟩
  funext j
  rw [setInode_dinode, h.dinode]
  split
  · rename_i hj
    rw [hj, setInode_dinode, if_pos rfl]
    rfl
  · rename_i hj
    rw [setInode_dinode, if_neg hj]

lemma Refs.setNlink (h : Refs τ s) (hlive : s.Live i) (hvalid : s.valid i = true) (hmem : i ∈ τ) :
    Refs τ (s.setInode i ((s.dinode i).setNlink n)) := by
  refine h.setInode hlive (fun _ => ⟨hvalid, ?_⟩) fun e he => h.ents i e he
  have href := h.ref i
  have := List.count_pos_iff.mpr hmem
  omega

lemma sysLink_spec {old new : Option (List Char)} (h : Refs [] s) (hE : Tolerates E s) :
    wp (sysLink p old new) E (fun r s' => Failed s s' r ∨
      (r = 0 ∧ Refs [] s' ∧ ∃ old' ∈ old, ∃ new' ∈ new, Linked s p old' new' s')) s := by
  have hk := h.kept
  have hnothing : Failed s s (-1) := ⟨rfl, (Quiet.refl s).unchanged, h⟩
  unfold sysLink
  split
  · rename_i old new
    simp only [wp_bind]
    refine wp_namei h hE (by simp) (fun s₁ hq₁ h₁ => ?_) fun ip n s₁ hq₁ h₁ hlive₁ hr => ?_
    · exact .inl ⟨rfl, hq₁.unchanged, h₁⟩
    · simp only [wp_bind]
      refine wp_ilock_of h₁ (by simp) hlive₁ fun s₂ hq₂ h₂ hlive₂ hvalid₂ => ?_
      have hq := hq₁.trans hq₂
      simp only [wp_getInode, wp_ite, wp_bind, wp_iput, wp_pure, wp_setInode]
      refine ⟨fun _ => .inl ⟨rfl, (hq.trans (quiet_iput h₂ (hk.quiet hq))).unchanged, h₂.iput⟩,
        fun hdir => ?_⟩
      have h₃ := h₂.setNlink (n := (s₂.dinode ip).nlink + 1) hlive₂ hvalid₂ (by simp)
      refine wp_imp (linkName_spec h₃ ((hE.quiet hq).setNlink ip _)) ?_
      intro linked s₄ hlinked
      cases linked with
      | false =>
        obtain ⟨hs₄, h₄⟩ := hlinked
        refine ⟨fun hf => absurd hf (by simp), fun _ => ?_⟩
        have hlive₄ : s₄.Live ip := by
          rw [hs₄.live, St.Live, setNlink_type]
          exact hlive₂
        refine wp_ilock_of h₄ (by simp) (.inr hlive₄) fun s₅ hq₅ h₅ hlive₅ hvalid₅ => ?_
        have hs₅ := hs₄.trans hq₅.toSteady
        have hnlink : (s₅.dinode ip).nlink - 1 = (s₂.dinode ip).nlink := by
          rw [hs₅.dinode, setInode_dinode, if_pos rfl]
          exact UInt16.add_sub_cancel ..
        rw [hnlink]
        have hs₆ := hq.toSteady.trans (setNlink_restored hs₅)
        have h₆ := h₅.setNlink (n := (s₂.dinode ip).nlink) hlive₅ hvalid₅ (by simp)
        exact .inl ⟨rfl, (hs₆.trans (quiet_iput h₆ (hk.steady hs₆)).toSteady).unchanged, h₆.iput⟩
      | true =>
        refine ⟨fun _ => .inr ⟨trivial, ?_, old, rfl, new, rfl, ip, n, s₄, hr, ?_, ?_, ?_, rfl⟩,
          fun hf => absurd rfl hf⟩
        · obtain ⟨dp, name, s₃, -, -, -, -, -, -, -, hrefs, rfl⟩ := hlinked
          exact hrefs.iput.iput
        · rw [← hq.dinode]
          exact hdir
        · exact (hq.live ip).mp hlive₂
        · rw [hq.dinode] at hlinked
          exact hlinked.steady (hq.toSteady.setInode ip _)
  · exact .inl hnothing

/-! ### `unlink` -/

/-- The directory without the entry. -/
def withoutEnt (d : Dinode) (off : Nat) (type : FileType) : Dinode :=
  { d with
    ents := d.ents.set off ⟨0, []⟩
    nlink := if type = .dir then d.nlink - 1 else d.nlink }

/-- The state in which `unlink` gives up its pointers. -/
structure Cleared (s : St) (dp off ip : Nat) (s₁ : St) : Prop where
  dinode : s₁.dinode = update s.dinode dp
    (withoutEnt (s.dinode dp) off (s.dinode ip).type)
  file : s₁.file = s.file
  proc : s₁.proc = s.proc
  ninodes : s₁.ninodes = s.ninodes
  refs : Refs [dp, ip] s₁
  valid : s₁.valid ip = true

/-- The end of `unlink`. -/
def St.unlinked (s : St) (dp ip : Nat) : St :=
  ((s.iput dp).setInode ip (((s.iput dp).dinode ip).setNlink
    (((s.iput dp).dinode ip).nlink - 1))).iput ip

/-- `unlink` has succeeded. -/
def Unlinked (s : St) (p : Fin NPROC) (path : List Char) (s' : St) : Prop :=
  ∃ dp name ip off s₁, resolve s p true path = some (dp, name) ∧ (s.dinode dp).type = .dir ∧
    name ≠ ['.'] ∧ name ≠ ['.', '.'] ∧ findEnt name (s.dinode dp).ents = some (ip, off) ∧
    s.Live ip ∧ ((s.dinode ip).type = .dir → isdirempty (s.dinode ip) = true) ∧
    Cleared s dp off ip s₁ ∧ s' = s₁.unlinked dp ip

/-- An inode that is still referred to stays valid. -/
lemma iput_valid (h : Refs (i :: τ) s) (hmem : ip ∈ τ) (hvalid : s.valid ip = true) :
    (s.iput i).valid ip = true := by
  unfold St.iput
  split
  · rename_i hfree
    have hne : ip ≠ i := by
      rintro rfl
      have href := h.ref ip
      have := List.count_pos_iff.mpr hmem
      rw [List.count_cons_self] at href
      omega
    show (s.ifree i).valid ip = true
    rw [ifree_valid, if_neg hne]
    exact hvalid
  · exact hvalid

lemma Refs.unlinked (h : Refs [dp, ip] s) (hvalid : s.valid ip = true) :
    Refs [] (s.unlinked dp ip) := by
  have hvalid₁ := iput_valid h (by simp) hvalid
  have h₁ := h.iput
  have href : 0 < (s.iput dp).ref ip := by
    rw [h₁.ref, List.count_cons_self]
    omega
  exact (h₁.setNlink (h₁.valid ip href hvalid₁) hvalid₁ (by simp)).iput

lemma Cleared.steady {off : Nat} (h : Cleared s dp off ip s') (hs : Steady s₀ s) :
    Cleared s₀ dp off ip s' where
  dinode := by
    rw [h.dinode, hs.dinode]
  file := h.file.trans hs.file
  proc := h.proc.trans hs.proc
  ninodes := h.ninodes.trans hs.ninodes
  refs := h.refs
  valid := h.valid

/-- The entry is cleared. -/
lemma cleared_setInode (off : Nat) (h : Refs [dp, ip] s) (hdir : (s.dinode dp).type = .dir)
    (hdp : s.valid dp = true) (hip : s.valid ip = true) :
    Cleared s dp off ip (s.setInode dp (withoutEnt (s.dinode dp) off (s.dinode ip).type)) where
  dinode := rfl
  file := rfl
  proc := rfl
  ninodes := rfl
  refs := by
    refine h.setInode (by simp [withoutEnt, hdir]) (fun _ => ⟨hdp, ?_⟩) fun e he => ?_
    · have href := h.ref dp
      rw [List.count_cons_self] at href
      omega
    · rcases List.mem_or_eq_of_mem_set he with he | rfl
      · exact h.ents dp e he
      · exact Nat.zero_lt_succ _
  valid := hip

/-- The entry that the path names, if it may be cleared, is of an inode with a positive count. -/
def NamesLinked (s : St) (p : Fin NPROC) (path : List Char) : Prop :=
  ∀ dp name ip off, resolve s p true path = some (dp, name) → name ≠ ['.'] → name ≠ ['.', '.'] →
    findEnt name (s.dinode dp).ents = some (ip, off) → 1 ≤ short (s.dinode ip).nlink

/-- `unlink` panics only at a count that is not positive. -/
lemma sysUnlink_of {path : Option (List Char)} (h : Refs [] s) (hE : Lookups E s)
    (hcwd : E .kerneltrap ∨ (s.proc p).cwd ≠ none)
    (hcount : E .nlink ∨ ∀ path' ∈ path, NamesLinked s p path') :
    wp (sysUnlink p path) E (fun r s' => Failed s s' r ∨
      (r = 0 ∧ Refs [] s' ∧ ∃ path' ∈ path, Unlinked s p path' s')) s := by
  have hk := h.kept
  unfold sysUnlink
  split
  · exact .inl ⟨rfl, (Quiet.refl s).unchanged, h⟩
  · rename_i path
    simp only [wp_bind]
    refine wp_nameiparent h hE hcwd (by simp) (fun _ s₁ hq₁ h₁ => ?_)
      fun dp name s₁ hq₁ h₁ hdir hr => ?_
    · exact .inl ⟨rfl, hq₁.unchanged, h₁⟩
    · simp only [wp_bind]
      refine wp_ilock_of h₁ (by simp) (.inr (by simp [St.Live, hdir])) fun s₂ hq₂ h₂ _ hvalid₂ => ?_
      have hq := hq₁.trans hq₂
      rw [← hq₂.dinode] at hdir
      have hgive : Failed s (s₂.iput dp) (-1) :=
        ⟨rfl, (hq.trans (quiet_iput h₂ (hk.quiet hq))).unchanged, h₂.iput⟩
      simp only [wp_ite, wp_bind, wp_iput, wp_pure]
      refine ⟨fun _ => .inl hgive, fun hname => ?_⟩
      refine wp_dirlookup h₂ (hE.quiet hq) (by simp) hdir (fun _ => ?_) fun ip off hfind => ?_
      · simp only [wp_bind, wp_iput, wp_pure]
        exact .inl hgive
      have hq₃ := hq.trans (quiet_iget s₂ ip)
      have h₃ : Refs [ip, dp] (s₂.iget ip) := h₂.iget (h₂.findEnt hfind)
      have hvalid₃ : (s₂.iget ip).valid dp = true := by
        rw [iget_valid, if_neg]
        · exact hvalid₂
        · rintro ⟨rfl, hzero⟩
          have href := h₂.ref dp
          rw [List.count_cons_self] at href
          omega
      have hlive₃ : E .noType ∨ (s₂.iget ip).Live ip :=
        (hE.quiet hq).alive.imp id fun ha => ha.2.findEnt hdir hfind
      simp only [wp_bind]
      refine wp_ilock_keep h₃ (by simp) hlive₃ fun s₄ hq₄ h₄ hlive₄ hvalid₄ hkeep => ?_
      have hq' := hq₃.trans hq₄
      rw [← (quiet_iget s₂ ip).dinode, ← hq₄.dinode] at hdir hfind
      simp only [wp_getInode, wp_ite, wp_throw, wp_bind, wp_iput, wp_pure, wp_setInode]
      refine ⟨fun hlow => ?_, fun hlink => ⟨fun _ => ?_, fun hempty => ?_⟩⟩
      · refine hcount.resolve_right fun hall => ?_
        rw [hq'.dinode] at hfind hlow
        have := hall path rfl dp name ip off hr (fun hdot => hname (.inl hdot))
          (fun hdots => hname (.inr hdots)) hfind
        omega
      · have hq₅ := hq'.trans (quiet_iput h₄ ((hk.quiet hq').cons dp))
        exact .inl ⟨rfl, (hq₅.trans (quiet_iput h₄.iput (hk.quiet hq₅))).unchanged, h₄.iput.iput⟩
      · have hcleared := (cleared_setInode off (h₄.perm (List.Perm.swap ..)) hdir
          (hkeep dp hvalid₃) hvalid₄).steady hq'.toSteady
        have hdone : ∀ s₅, s₅ = s₄.setInode dp (withoutEnt (s₄.dinode dp) off (s₄.dinode ip).type) →
            Failed s (s₅.unlinked dp ip) 0 ∨ True ∧ Refs [] (s₅.unlinked dp ip) ∧
              ∃ path' ∈ some path, Unlinked s p path' (s₅.unlinked dp ip) := by
          rintro s₅ rfl
          rw [hq'.dinode] at hdir hfind
          refine .inr ⟨trivial, hcleared.refs.unlinked hcleared.valid, path, rfl, dp, name, ip, off,
            _, hr, hdir, fun hdot => hname (.inl hdot), fun hdots => hname (.inr hdots), hfind,
            (hq'.live ip).mp hlive₄, fun hd => ?_, hcleared, rfl⟩
          rw [← hq'.dinode] at hd ⊢
          simpa [hd] using hempty
        refine ⟨fun hd => hdone _ ?_, fun hd => hdone _ ?_⟩
        · rw [setInode_setInode, setInode_dinode, if_pos rfl]
          simp only [withoutEnt, if_pos hd, Dinode.setNlink]
        · simp only [withoutEnt, if_neg hd]

lemma sysUnlink_spec {path : Option (List Char)} (h : Refs [] s) (hE : Tolerates E s) :
    wp (sysUnlink p path) E (fun r s' => Failed s s' r ∨
      (r = 0 ∧ Refs [] s' ∧ ∃ path' ∈ path, Unlinked s p path' s')) s :=
  sysUnlink_of h hE.toLookups hE.cwd (.inl (hE.other _ (by decide) (by decide)))

/-! ### `mkdir`, `mknod` and `chdir` -/

lemma sysCreate_spec {path : Option (List Char)} {type : FileType} {major minor : Int}
    (h : Refs [] s) (hE : Tolerates E s) (htype : type ≠ .free) (hfile : type ≠ .file) :
    wp (sysCreate p path type major minor) E (fun r s' => Failed s s' r ∨
      (r = 0 ∧ Refs [] s' ∧ ∃ path' ∈ path, ∃ ip s₁,
        CreatedNew s p path' type major minor ip s₁ ∧ s' = s₁.iput ip)) s := by
  unfold sysCreate
  split
  · exact .inl ⟨rfl, (Quiet.refl s).unchanged, h⟩
  · rename_i path
    rw [wp_bind]
    refine wp_imp (create_spec h hE htype) ?_
    intro r s₁ hr
    match r with
    | none => exact .inl ⟨rfl, hr.1, hr.2.1⟩
    | some ip =>
      obtain ⟨hrefs, -, ⟨hold, -⟩ | hnew⟩ := hr
      · exact absurd hold hfile
      · simp only [wp_bind, wp_iput, wp_pure]
        exact .inr ⟨trivial, hrefs.iput, path, rfl, ip, s₁, hnew, rfl⟩

lemma sysChdir_spec {path : Option (List Char)} (h : Ok s) (hE : Tolerates E s) :
    wp (sysChdir p path) E (fun r s' => Failed s s' r ∨ (r = 0 ∧ Ok s' ∧ Freed s s')) s := by
  have hk := h.refs.kept
  unfold sysChdir
  split
  · exact .inl ⟨rfl, (Quiet.refl s).unchanged, h.refs⟩
  · rename_i path
    rw [wp_bind]
    refine wp_namei h.refs hE (by simp) (fun s₁ hq₁ h₁ => ?_) fun ip n s₁ hq₁ h₁ hlive₁ hr => ?_
    · exact .inl ⟨rfl, hq₁.unchanged, h₁⟩
    · simp only [wp_bind]
      refine wp_ilock_of h₁ (by simp) hlive₁ fun s₂ hq₂ h₂ hlive₂ _ => ?_
      have hq := hq₁.trans hq₂
      simp only [wp_getInode, wp_ite, wp_bind, wp_iput, wp_pure]
      refine ⟨fun _ => .inl ⟨rfl, (hq.trans (quiet_iput h₂ (hk.quiet hq))).unchanged, h₂.iput⟩,
        fun _ => ?_⟩
      simp only [cwd, wp_bind, wp_get]
      split
      · rename_i old hold
        simp only [wp_pure, wp_modify, iput_proc, iput_setProc]
        have hset := Refs.setCwd (o := some ip) (p := p) (τ := []) h₂ fun i hi => by
          obtain rfl := Option.some.inj hi
          exact hlive₂
        rw [hold] at hset
        have hfiles : Files [] s₂ := h.files.congr hq.file hq.proc
        have hfreed : Freed s (s₂.setProc p ((s₂.proc p).setCwd (some ip))) :=
          .of_eq hq.dinode hq.ninodes
        refine .inr ⟨trivial, ⟨hset.iput, ?_⟩, hfreed.trans (freed_iput _ old)⟩
        exact (hfiles.setCwd p (some ip)).congr (iput_file ..) (iput_proc ..)
      · exact hE.other _ (by decide) (by decide)

/-! ### `open` -/

/-- There is no free file or no free descriptor. -/
def FilesFull (s : St) (p : Fin NPROC) : Prop :=
  (∀ f, (s.file f).ref ≠ 0) ∨ ∀ fd, (s.proc p).ofile fd ≠ none

/-- The inode that is to be opened has been found or made. -/
def Found (s : St) (p : Fin NPROC) (path : List Char) (omode : Nat) (ip : Nat) (s' : St) : Prop :=
  (Quiet s s' ∧ (omode &&& O_CREATE ≠ 0 → ¬ CanMake s p path)) ∨
    (omode &&& O_CREATE ≠ 0 ∧ CreatedNew s p path .file 0 0 ip s')

lemma openInode_spec (h : Refs [] s) (hE : Tolerates E s) :
    wp (openInode p path omode) E (fun r s' =>
      match r with
      | none => Unchanged s s' ∧ Refs [] s' ∧ (omode &&& O_CREATE ≠ 0 → ¬ CanMake s p path)
      | some ip => Refs [ip] s' ∧ s'.Live ip ∧ Found s p path omode ip s') s := by
  have hk := h.kept
  simp only [openInode, wp_ite, wp_bind]
  refine ⟨fun hcreate => ?_, fun hcreate => ?_⟩
  · refine wp_imp (create_spec h hE (by decide)) ?_
    intro r s₁ hr
    cases r with
    | none => exact ⟨hr.1, hr.2.1, fun _ => hr.2.2 (by decide)⟩
    | some ip =>
      obtain ⟨hrefs, hlive, ⟨-, dp, name, k, hr, hfind, -, hq⟩ | hnew⟩ := hr
      · refine ⟨hrefs, hlive, .inl ⟨hq, fun _ hcan => ?_⟩⟩
        obtain ⟨r, hmem, hnone, -⟩ := hcan
        obtain rfl : r = (dp, name) := Option.some.inj (hmem.symm.trans hr)
        rw [hfind] at hnone
        contradiction
      · exact ⟨hrefs, hlive, .inr ⟨hcreate, hnew⟩⟩
  · refine wp_namei h hE (by simp) (fun s₁ hq₁ h₁ => ?_) fun ip n s₁ hq₁ h₁ hlive₁ hr => ?_
    · exact ⟨hq₁.unchanged, h₁, fun hc => absurd hc hcreate⟩
    · simp only [wp_bind]
      refine wp_ilock_of h₁ (by simp) hlive₁ fun s₂ hq₂ h₂ hlive₂ _ => ?_
      have hq := hq₁.trans hq₂
      simp only [wp_getInode, wp_ite, wp_bind, wp_iput, wp_pure]
      refine ⟨fun _ => ⟨(hq.trans (quiet_iput h₂ (hk.quiet hq))).unchanged, h₂.iput, ?_⟩,
        fun _ => ⟨h₂, hlive₂, .inl ⟨hq, ?_⟩⟩⟩
      · exact fun hc => absurd hc hcreate
      · exact fun hc => absurd hc hcreate

/-- `openFile` either takes a file and a descriptor or changes nothing. -/
lemma wp_openFile {Q : Option (Fin NFILE × Fin NOFILE) → St → Prop} (h : Files [] s)
    (hfull : FilesFull s p → Q none s)
    (hok : ∀ f fd, (s.file f).ref = 0 → (s.proc p).ofile fd = none →
      Q (some (f, fd)) ((s.setFile f (s.file f).more).setOfile p fd (some f))) :
    wp (openFile p) E Q s := by
  simp only [openFile, wp_bind]
  refine wp_filealloc (fun hall => hfull (.inl hall)) fun f hf => ?_
  rw [wp_bind]
  refine wp_fdalloc (fun hall => ?_) fun fd hfd => hok f fd hf hfd
  have hfiles := h.more f
  rw [wp_bind, wp_fileclose hfiles.pos, wp_pure]
  -- The file is closed again and is then as it was.
  have hfile : (s.setFile f (s.file f).more).file f = (s.file f).more := by
    rw [setFile_file, if_pos rfl]
  have hplain : ((s.setFile f (s.file f).more).file f).Plain := by
    rw [hfile]
    simp [File.Plain, File.more, h.closed f hf]
  have hless : (s.file f).more.less = s.file f := by
    have hclosed := h.closed f hf
    cases hx : s.file f with
    | mk type ref readable writable ip off major =>
      rw [hx] at hf hclosed
      subst hf
      subst hclosed
      rfl
  have hback : (s.setFile f (s.file f).more).fclose f = s := by
    rw [fclose_plain hplain, hfile, hless]
    simp [St.setFile]
  rw [hback]
  exact hfull (.inr hall)

/-- A file takes over a pointer of the call. -/
lemma Refs.hold (h : Refs (ip :: τ) s) (hlive : s.Live ip) (hplain : (s.file f).Plain)
    (hx : ∀ i, x.holds i = if ip = i then 1 else 0) : Refs τ (s.setFile f x) := by
  have hheld : ∀ i, (s.setFile f x).held i = s.held i + if ip = i then 1 else 0 := by
    intro i
    have := held_setFile s f x i
    rw [hplain.holds, hx] at this
    omega
  refine h.move rfl rfl rfl rfl rfl (fun i => ?_) fun i hi => ?_
  · rw [hheld, List.count_cons]
    simp only [beq_iff_eq]
    omega
  · rw [hheld] at hi
    by_cases heq : ip = i
    · subst heq
      exact hlive
    · rw [if_neg heq] at hi
      exact h.held i (by omega)

lemma opened_holds (h : 0 < x.ref) (i : Nat) :
    (x.opened d ip r w).holds i = if ip = i then 1 else 0 := by
  unfold File.opened
  split <;> simp [File.holds, h]

lemma opened_ref : (x.opened d ip r w).ref = x.ref := by
  unfold File.opened
  split <;> rfl

lemma Found.file (h : Found s p path omode ip s') : s'.file = s.file := by
  rcases h with ⟨hq, -⟩ | ⟨-, dp, name, -, -, hmade⟩
  · exact hq.file
  · obtain ⟨s₁, -, hfile, -, -, -, rfl⟩ := hmade.before
    rw [iput_file, hfile]

lemma Found.proc (h : Found s p path omode ip s') : s'.proc = s.proc := by
  rcases h with ⟨hq, -⟩ | ⟨-, dp, name, -, -, hmade⟩
  · exact hq.proc
  · obtain ⟨s₁, -, -, hproc, -, -, rfl⟩ := hmade.before
    rw [iput_proc, hproc]

/-- What `open` does to the inodes once it has the inode: it may truncate it. -/
def Opened (s : St) (ip : Nat) (s' : St) : Prop :=
  s'.ninodes = s.ninodes ∧ (s'.dinode = s.dinode ∨ (s.dinode ip).type = .file ∧
    s'.dinode = update s.dinode ip { s.dinode ip with ents := [], data := [] })

/-- The call makes a new file but cannot open it. -/
def NameLeft (s : St) (p : Fin NPROC) (path : List Char) (omode : Nat) : Prop :=
  omode &&& O_CREATE ≠ 0 ∧ CanMake s p path ∧ FilesFull s p

/-- The inode is given a file and a descriptor. -/
lemma open_done {fd : Fin NOFILE} (hrefs : Refs [ip] s) (hfiles : Files [] s) (hlive : s.Live ip)
    (hf : (s.file f).ref = 0) (hfd : (s.proc p).ofile fd = none)
    (hs' : s' = (s.setFile f (s.file f).more).setOfile p fd (some f)) :
    Ok (s'.setFile f ((s'.file f).opened d ip r w)) := by
  have hfile : s'.file f = (s.file f).more := by
    rw [hs']
    exact (setFile_file s f f _).trans (if_pos rfl)
  have hpos : 0 < (s'.file f).ref := by
    rw [hfile]
    exact Nat.succ_pos _
  have hplain : (s'.file f).Plain := by
    rw [hfile]
    simp [File.Plain, File.more, hfiles.closed f hf]
  have hrefs' : Refs [ip] s' := by
    rw [hs']
    exact (hrefs.more hfiles f).setOfile p fd (some f)
  have hlive' : s'.Live ip := by
    rw [hs']
    exact hlive
  have hfiles' : Files [] s' := by
    rw [hs']
    exact (hfiles.more f).give hfd
  exact ⟨hrefs'.hold hlive' hplain (opened_holds hpos), hfiles'.sameRef opened_ref hpos⟩

/-- Truncation keeps the counts. -/
lemma Ok.trunc (h : Ok s) (hlive : s.Live ip) :
    Ok (s.setInode ip { s.dinode ip with ents := [], data := [] }) :=
  ⟨h.refs.setInode hlive (h.refs.orphan ip hlive) (by simp), h.files.congr rfl rfl⟩

lemma sysOpen_spec {path : Option (List Char)} (h : Ok s) (hE : Tolerates E s) :
    wp (sysOpen p path omode) E (fun r s' => Ok s' ∧
      ((r = -1 ∧ Unchanged s s' ∧ ∀ path' ∈ path, ¬ NameLeft s p path' omode) ∨
      (∃ path' ∈ path, ∃ ip s₁, r = -1 ∧ NameLeft s p path' omode ∧
        CreatedNew s p path' .file 0 0 ip s₁ ∧ s' = s₁.iput ip) ∨
      (0 ≤ r ∧ ∃ path' ∈ path, ∃ ip s₁, Found s p path' omode ip s₁ ∧ Opened s₁ ip s'))) s := by
  have hk := h.refs.kept
  unfold sysOpen
  split
  · exact ⟨h, .inl ⟨rfl, (Quiet.refl s).unchanged, by simp⟩⟩
  · rename_i path
    rw [wp_bind]
    refine wp_imp (openInode_spec h.refs hE) ?_
    intro r s₁ hr
    match r with
    | none =>
      obtain ⟨hsame, hrefs, hcan⟩ := hr
      refine ⟨⟨hrefs, h.files.congr hsame.file hsame.proc⟩, .inl ⟨rfl, hsame, ?_⟩⟩
      rintro path' hpath ⟨hcreate, hmake, -⟩
      obtain rfl := Option.some.inj hpath
      exact hcan hcreate hmake
    | some ip =>
      obtain ⟨hrefs, hlive, hfound⟩ := hr
      have hfiles : Files [] s₁ := h.files.congr hfound.file hfound.proc
      have hok : Ok (s₁.iput ip) := ⟨hrefs.iput, hfiles.congr (iput_file ..) (iput_proc ..)⟩
      -- An existing file that cannot be opened is as it was.
      have hold : Quiet s s₁ → Unchanged s (s₁.iput ip) := fun hq =>
        (hq.trans (quiet_iput hrefs (hk.quiet hq))).unchanged
      simp only [wp_bind, wp_getInode, wp_ite, wp_iput, wp_pure]
      refine ⟨fun hdevice => ⟨hok, .inl ⟨trivial, ?_⟩⟩, fun _ => ?_⟩
      · rcases hfound with ⟨hq, hcan⟩ | ⟨-, hnew⟩
        · refine ⟨hold hq, ?_⟩
          rintro path' hpath ⟨hcreate, hmake, -⟩
          obtain rfl := Option.some.inj hpath
          exact hcan hcreate hmake
        · -- A new inode is not a device.
          obtain ⟨dp, name, -, -, -, -, -, hdinode⟩ := hnew.dinode
          rw [hdinode] at hdevice
          exact absurd hdevice.1 (by simp [newInode])
      · refine wp_openFile hfiles (fun hfull => ?_) fun f fd hf hfd => ?_
        · simp only [wp_bind, wp_iput, wp_pure]
          refine ⟨hok, ?_⟩
          unfold FilesFull at hfull
          rw [hfound.file, hfound.proc] at hfull
          rcases hfound with ⟨hq, hcan⟩ | ⟨hcreate, hnew⟩
          · refine .inl ⟨trivial, hold hq, ?_⟩
            rintro path' hpath ⟨hcreate, hmake, -⟩
            obtain rfl := Option.some.inj hpath
            exact hcan hcreate hmake
          · exact .inr (.inl ⟨path, rfl, ip, s₁, trivial,
              ⟨hcreate, hnew.canMake (by decide), hfull⟩, hnew, rfl⟩)
        · simp only [wp_bind, wp_modify, wp_ite, itrunc, wp_setInode, wp_pure]
          have hopen := open_done (d := s₁.dinode ip) (r := decide (omode &&& O_WRONLY = 0))
            (w := decide (omode &&& O_WRONLY ≠ 0 ∨ omode &&& O_RDWR ≠ 0))
            hrefs hfiles hlive hf hfd rfl
          have hfd : (0 : Int) ≤ fd := Int.natCast_nonneg fd.val
          refine ⟨fun htrunc => ⟨hopen.trunc hlive, .inr (.inr ⟨hfd, path, rfl, ip, s₁, hfound, rfl,
            .inr ⟨htrunc.2, rfl⟩⟩)⟩, fun _ => ⟨hopen,
              .inr (.inr ⟨hfd, path, rfl, ip, s₁, hfound, rfl,
            .inl rfl⟩)⟩⟩

end Xv6.Fs
