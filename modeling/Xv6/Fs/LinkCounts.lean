import Xv6.Fs.Calls
import Xv6.Fs.Tree

/-!
# Link counts and lookups over whole runs

Every call keeps the tree if it adds no entry to a directory that has been unlinked and no link
count overflows. If besides no directory is unlinked while an unlinked directory hangs off it, every
entry names an allocated inode and no lookup meets a free one.
-/

namespace Xv6.Fs

open Function Lib

variable {s s' t : St} {tr : List (Fin NPROC × Call)} {p : Fin NPROC} {call : Call} {ip : Nat}
  {path : List Char} {dp d i : Nat} {name : Name} {type : FileType} {major minor r : Int}
  {old new : List Char} {x : Dinode}

/-- The tree of a state. -/
def St.Tree (s : St) : Prop := Fs.Tree s.ninodes s.dinode

/-- The change keeps the tree, and what unlinked directories hang off. -/
structure KeepsTree (s s' : St) : Prop where
  tree : s'.Tree
  hung : Hung s.dinode → Hung s'.dinode

lemma KeepsTree.trans {s'' : St} (h : KeepsTree s s') (h' : KeepsTree s' s'') : KeepsTree s s'' :=
  ⟨h'.tree, fun hh => h'.hung (h.hung hh)⟩

/-! ### Changes that only free inodes -/

/-- Some inodes are freed, and the data of files may change. -/
structure Shrunk (s s' : St) : Prop where
  dinode : Shrinks s.dinode s'.dinode
  ninodes : s'.ninodes = s.ninodes

lemma Shrunk.keepsTree (h : Shrunk s s') (ht : s.Tree) : KeepsTree s s' where
  tree := by
    unfold St.Tree
    rw [h.ninodes]
    exact Fs.Tree.shrink ht h.dinode
  hung := fun hh => hh.shrink h.dinode

lemma Freed.shrunk (h : Freed s s') : Shrunk s s' := by
  refine ⟨fun i => ?_, h.ninodes⟩
  rcases h.dinode i with heq | ⟨hn, heq⟩
  · rw [heq]
    exact .inl (.refl _)
  · rw [heq]
    exact .inr ⟨.inr hn, rfl⟩

lemma Unchanged.shrunk (h : Unchanged s s') : Shrunk s s' := by
  refine ⟨fun i => ?_, h.ninodes⟩
  by_cases hlive : s.Live i
  · rw [h.live i hlive]
    exact .inl (.refl _)
  · exact .inr ⟨.inl (not_not.mp hlive), not_not.mp (h.free i hlive)⟩

lemma Opened.shrunk (h : Opened s ip s') : Shrunk s s' := by
  obtain ⟨hn, heq | ⟨hfile, heq⟩⟩ := h
  · exact (Freed.of_eq heq hn).shrunk
  · refine ⟨fun i => .inl ?_, hn⟩
    rw [heq]
    by_cases hi : i = ip
    · rw [hi, update_self]
      exact ⟨rfl, rfl, fun hd => by simp [hfile] at hd⟩
    · rw [update_of_ne hi]
      exact .refl _

lemma shrunk_iput (s : St) (i : Nat) : Shrunk s (s.iput i) := (freed_iput s i).shrunk

/-! ### Conditions on calls -/

/-- The directory in which the path would be entered, if it does not have the name. -/
def newEntry (s : St) (p : Fin NPROC) (path : List Char) : Option Nat :=
  (resolve s p true path).bind fun r =>
    if findEnt r.2 (s.dinode r.1).ents = none then some r.1 else none

/-- The inode that the path names in its directory. -/
def oldEntry (s : St) (p : Fin NPROC) (path : List Char) : Option Nat :=
  (resolve s p true path).bind fun r => (findEnt r.2 (s.dinode r.1).ents).map (·.1)

/-- The directory in which the call is to add an entry. -/
def Call.addsIn (s : St) (p : Fin NPROC) : Call → Option Nat
  | .open path omode => if omode &&& O_CREATE ≠ 0 then path.bind (newEntry s p) else none
  | .mkdir path => path.bind (newEntry s p)
  | .mknod path _ _ => path.bind (newEntry s p)
  | .link _ new => new.bind (newEntry s p)
  | _ => none

/-- The inode whose count a call that returns `r` increases, besides that of a new inode. `mkdir`
does so at the end; `link` before it looks at the new path, so also where it fails there. -/
def Call.increases (s : St) (p : Fin NPROC) (r : Int) : Call → Option Nat
  | .mkdir path => if r = -1 then none else path.bind (newEntry s p)
  | .link (some old) (some _) =>
    ((resolve s p false old).map (·.1)).filter fun ip => (s.dinode ip).type ≠ .dir
  | _ => none

/-- The inode that loses its entry in a call that returns `r`. -/
def Call.unlinks (s : St) (p : Fin NPROC) (r : Int) : Call → Option Nat
  | .unlink path => if r = -1 then none else path.bind (oldEntry s p)
  | _ => none

/-- No entry is added to a directory that is not linked. Where the call ends before it adds the
entry, the directory is what it was. -/
def Call.AddsLinked (s : St) (p : Fin NPROC) (s' : St) (call : Call) : Prop :=
  ∀ dp ∈ call.addsIn s p, s'.dinode dp ≠ s.dinode dp → (s.dinode dp).nlink ≠ 0

/-- No link count overflows, unless the call undoes it. -/
def Call.Fits (s : St) (p : Fin NPROC) (r : Int) (call : Call) : Prop :=
  r ≠ -1 → ∀ ip ∈ call.increases s p r, (s.dinode ip).nlink ≠ 65535

/-- No unlinked directory has what is unlinked as its parent. -/
def Call.SparesParents (s : St) (p : Fin NPROC) (r : Int) (call : Call) : Prop :=
  ∀ ip ∈ call.unlinks s p r, ∀ d < s.ninodes, (s.dinode d).type = .dir → (s.dinode d).nlink = 0 →
    (s.dinode d).parent ≠ ip

instance (s s' : St) (p : Fin NPROC) (call : Call) : Decidable (call.AddsLinked s p s') :=
  inferInstanceAs (Decidable (∀ dp ∈ call.addsIn s p, _ → _))

instance (s : St) (p : Fin NPROC) (r : Int) (call : Call) : Decidable (call.Fits s p r) :=
  inferInstanceAs (Decidable (_ → ∀ ip ∈ call.increases s p r, _))

instance (s : St) (p : Fin NPROC) (r : Int) (call : Call) : Decidable (call.SparesParents s p r) :=
  inferInstanceAs (Decidable (∀ ip ∈ call.unlinks s p r, ∀ d < s.ninodes, _ → _ → _))

/-! ### Calls that add an entry -/

lemma newEntry_eq (hr : resolve s p true path = some (dp, name))
    (hnone : findEnt name (s.dinode dp).ents = none) : newEntry s p path = some dp := by
  rw [newEntry, hr, Option.bind_some, if_pos hnone]

lemma resolve_parent (hr : resolve s p true path = some (dp, name)) :
    (s.dinode dp).type = .dir := by
  obtain ⟨start, -, hw⟩ := Option.bind_eq_some_iff.mp hr
  exact walk_parent hw

lemma newEntry_dir (h : newEntry s p path = some dp) : (s.dinode dp).type = .dir := by
  obtain ⟨r, hr, hdp⟩ := Option.bind_eq_some_iff.mp h
  split at hdp
  · obtain rfl := Option.some.inj hdp
    exact resolve_parent hr
  · contradiction

lemma withEnt_ents_ne (x : Dinode) (type : FileType) (name : Name) (hip : ip % 65536 ≠ 0) :
    (withEnt x type name ip).ents ≠ x.ents := by
  intro heq
  have hcount := countP_addEnt (fun e => e.inum ≠ 0) (by simp) x.ents ⟨ip % 65536, name⟩
  have hents : addEnt x.ents ⟨ip % 65536, name⟩ = x.ents := heq
  rw [hents, if_pos (by simpa using hip)] at hcount
  omega

/-- A directory that has got an entry still has it if it is still there. -/
lemma Shrunk.ents_ne {ents : List Dirent} (h : Shrunk s s')
    (hd : (s.dinode d).type = .dir → (s.dinode d).ents ≠ ents) :
    (s'.dinode d).type = .dir → (s'.dinode d).ents ≠ ents := by
  intro hdir
  have hlike := h.dinode.like_dir hdir
  have htype := hlike.type.symm.trans hdir
  rw [hlike.ents htype]
  exact hd htype

lemma CreatedNew.ents_ne (h : CreatedNew s p path type major minor ip s') (ht : s.Tree) :
    ∀ dp ∈ newEntry s p path, (s'.dinode dp).type = .dir →
      (s'.dinode dp).ents ≠ (s.dinode dp).ents := by
  intro dp hdp
  obtain ⟨dp', name, hr, hnone, -, -, hmade, -⟩ := h.dinode
  obtain rfl : dp' = dp := Option.some.inj ((newEntry_eq hr hnone).symm.trans hdp)
  obtain ⟨s₁, hdinode, -, -, -, -, rfl⟩ := hmade.before
  obtain ⟨-, hpos, hlt⟩ := freeInode_some hmade.free
  refine (shrunk_iput s₁ dp').ents_ne fun _ => ?_
  rw [hdinode, made, update_self]
  have := Fs.Tree.bound ht
  exact withEnt_ents_ne _ _ _ (by omega)

lemma Linked.ents_ne (h : Linked s p old new s') (ht : s.Tree) :
    ∀ dp ∈ newEntry s p new, (s'.dinode dp).type = .dir →
      (s'.dinode dp).ents ≠ (s.dinode dp).ents := by
  intro dp hdp
  obtain ⟨ip, n, s₁, hr, hnotdir, hlive, ⟨dp', name, s₂, hrnew, hdir, hnone, hdinode, -, -, -, -,
    rfl⟩, rfl⟩ := h
  rw [resolve_setNlink] at hrnew
  have hne : dp' ≠ ip := by
    rintro rfl
    rw [setNlink_type] at hdir
    exact hnotdir hdir
  rw [setInode_dinode, if_neg hne] at hnone hdinode
  obtain rfl : dp' = dp := Option.some.inj ((newEntry_eq hrnew hnone).symm.trans hdp)
  refine (shrunk_iput _ ip).ents_ne ((shrunk_iput s₂ dp').ents_ne fun _ => ?_)
  rw [hdinode, update_self]
  have hrange := Fs.Tree.range ht ip hlive
  have := Fs.Tree.bound ht
  exact withEnt_ents_ne _ _ _ (by omega)

/-- The directory that gets an entry is not what it was. -/
lemma newEntry_changed (hdp : newEntry s p path = some dp)
    (h : (s'.dinode dp).type = .dir → (s'.dinode dp).ents ≠ (s.dinode dp).ents) :
    s'.dinode dp ≠ s.dinode dp := by
  intro heq
  rw [heq] at h
  exact h (newEntry_dir hdp) rfl

lemma Made.keepsTree (h : Made s dp name type major minor ip s') (ht : s.Tree)
    (hdp : (s.dinode dp).type = .dir) (hnone : findEnt name (s.dinode dp).ents = none)
    (htype : type ≠ .free) (hn : (s.dinode dp).nlink ≠ 0)
    (hmax : type = .dir → (s.dinode dp).nlink ≠ 65535) : KeepsTree s s' := by
  obtain ⟨s₁, hdinode, -, -, hninodes, -, rfl⟩ := h.before
  obtain ⟨hfree, hpos, hlt⟩ := freeInode_some h.free
  have hfree : (s.dinode ip).type = .free := not_not.mp hfree
  have hnotdir : (s.dinode ip).type ≠ .dir := by simp [hfree]
  have hadd : Adds s.dinode s₁.dinode dp ip ∧ Fs.Tree s.ninodes s₁.dinode := by
    rw [hdinode, made]
    by_cases hd : type = .dir
    · subst hd
      exact Fs.Tree.mkdir ht hdp hn (hmax rfl) hnone hpos hlt hfree
    · have heq : withEnt (s.dinode dp) type name ip = withEnt (s.dinode dp) .file name ip := by
        simp [withEnt, hd]
      rw [heq]
      refine Fs.Tree.enter ht hdp hn hnone hpos hlt hnotdir htype hd ?_
      rw [Fs.Tree.links_free ht hfree]
      rfl
  have hkeeps : KeepsTree s s₁ := by
    refine ⟨?_, fun hh => hh.add hadd.1 hdp hnotdir⟩
    unfold St.Tree
    rw [hninodes]
    exact hadd.2
  exact hkeeps.trans ((shrunk_iput s₁ dp).keepsTree hkeeps.tree)

lemma CreatedNew.keepsTree (h : CreatedNew s p path type major minor ip s') (ht : s.Tree)
    (htype : type ≠ .free) (hn : ∀ dp ∈ newEntry s p path, (s.dinode dp).nlink ≠ 0)
    (hmax : type = .dir → ∀ dp ∈ newEntry s p path, (s.dinode dp).nlink ≠ 65535) :
    KeepsTree s s' := by
  obtain ⟨dp, name, hr, hnone, hdir, -, hmade, -⟩ := h.dinode
  have hentry := newEntry_eq hr hnone
  exact hmade.keepsTree ht hdir hnone htype (hn dp hentry) fun hd => hmax hd dp hentry

lemma Linked.keepsTree (h : Linked s p old new s') (ht : s.Tree)
    (hn : ∀ dp ∈ newEntry s p new, (s.dinode dp).nlink ≠ 0)
    (hmax : ∀ r ∈ resolve s p false old, (s.dinode r.1).nlink ≠ 65535) : KeepsTree s s' := by
  obtain ⟨ip, n, s₁, hr, hnotdir, hlive, ⟨dp, name, s₂, hrnew, hdir, hnone, hdinode, -, -, hninodes,
    -, rfl⟩, rfl⟩ := h
  rw [resolve_setNlink] at hrnew
  have hne : dp ≠ ip := by
    rintro rfl
    rw [setNlink_type] at hdir
    exact hnotdir hdir
  rw [setInode_dinode, if_neg hne] at hdir hnone hdinode
  have hrange := Fs.Tree.range ht ip hlive
  have hcount := Fs.Tree.count ht ip hlive
  have hadd := Fs.Tree.enter ht hdir (hn dp (newEntry_eq hrnew hnone)) hnone hrange.1 hrange.2
    hnotdir (x := (s.dinode ip).setNlink ((s.dinode ip).nlink + 1)) hlive hnotdir
    (by rw [← hcount]; exact toNat_add_one (hmax (ip, n) hr))
  have heq : s₂.dinode = update (update s.dinode ip
      ((s.dinode ip).setNlink ((s.dinode ip).nlink + 1))) dp
        (withEnt (s.dinode dp) .file name ip) := hdinode
  rw [← heq] at hadd
  have hkeeps : KeepsTree s s₂ := by
    refine ⟨?_, fun hh => hh.add hadd.1 hdir hnotdir⟩
    unfold St.Tree
    rw [hninodes]
    exact hadd.2
  have hkeeps₁ := hkeeps.trans ((shrunk_iput s₂ dp).keepsTree hkeeps.tree)
  exact hkeeps₁.trans ((shrunk_iput _ ip).keepsTree hkeeps₁.tree)

/-- It is the file's count that `link` increases. -/
lemma Linked.increases {x : Nat × Name} (h : Linked s p old new s')
    (hx : resolve s p false old = some x) :
    x.1 ∈ (Call.link (some old) (some new)).increases s p r := by
  obtain ⟨ip, n, s₁, hr, hnotdir, -⟩ := h
  obtain rfl : (ip, n) = x := Option.some.inj (hr.symm.trans hx)
  rw [Call.increases, hx]
  exact Option.filter_some_pos (by simpa using hnotdir)

/-! ### Calls that remove an entry -/

lemma kids_of_isdirempty (h : isdirempty x = true) (i : Nat) : x.kids i = 0 := by
  rw [Dinode.kids]
  split
  · rw [List.countP_eq_zero]
    intro e he
    have hzero := List.all_eq_true.mp h e he
    rw [decide_eq_true_eq] at hzero ⊢
    rintro ⟨hi, hne⟩
    exact hne (hi.symm.trans hzero)
  · rfl

/-- A linked inode is not freed. -/
lemma iput_dinode_linked (h : (s.dinode i).nlink ≠ 0) : (s.iput i).dinode = s.dinode := by
  rw [St.iput, if_neg fun hc => h hc.2.2]
  rfl

lemma Unlinked.keepsTree (h : Unlinked s p path s') (ht : s.Tree) :
    s'.Tree ∧ ((∀ ip ∈ oldEntry s p path, ∀ d, (s.dinode d).type = .dir →
      (s.dinode d).nlink = 0 → (s.dinode d).parent ≠ ip) → Hung s.dinode → Hung s'.dinode) := by
  obtain ⟨dp, name, ip, off, s₁, hr, hdir, hdot, hdots, hfind, hlive, hempty, hcleared, rfl⟩ := h
  obtain ⟨hip, k, rfl, hent⟩ := (Fs.Tree.dir ht dp hdir).found hdot hdots hfind
  have hentry : oldEntry s p path = some ip := by
    rw [oldEntry, hr, Option.bind_some, hfind]
    rfl
  have hne := Fs.Tree.ne_of_ent ht hdir hip hent
  obtain ⟨hremoves, htree⟩ := Fs.Tree.unlink ht hdir hip hent fun hd =>
    kids_of_isdirempty (hempty hd)
  -- The directory is still linked, so giving up the pointer to it frees nothing.
  have hdp : (s₁.dinode dp).nlink ≠ 0 := by
    have hlinked := hremoves.linked
    rw [unlinked, update_of_ne hne.symm] at hlinked
    rw [hcleared.dinode]
    exact hlinked
  have hip₁ : s₁.dinode ip = s.dinode ip := by
    rw [hcleared.dinode, update_of_ne hne]
  let s₂ := (s₁.iput dp).setInode ip (((s₁.iput dp).dinode ip).setNlink
    (((s₁.iput dp).dinode ip).nlink - 1))
  have hs₂ : s₂.dinode = unlinked s.dinode dp ip k := by
    show update (s₁.iput dp).dinode ip _ = _
    rw [iput_dinode_linked hdp, hip₁, hcleared.dinode, unlinked]
  have htree₂ : s₂.Tree := by
    have hn : s₂.ninodes = s.ninodes := (iput_ninodes s₁ dp).trans hcleared.ninodes
    unfold St.Tree
    rw [hn, hs₂]
    exact htree
  have hkeeps := (shrunk_iput s₂ ip).keepsTree htree₂
  refine ⟨hkeeps.tree, fun hspare hh => hkeeps.hung ?_⟩
  rw [hs₂]
  refine hh.remove hremoves fun hd => ⟨?_, hspare ip hentry⟩
  exact (Fs.Tree.childDir ht dp ip (kids_of_ent hdir hip hent) hd).1

/-! ### Every call -/

/-- What a call does to the inodes: it frees some and no more, or besides it makes an inode, enters
a name or clears one. -/
inductive Effect (s : St) (p : Fin NPROC) (call : Call) (r : Int) (s' : St) : Prop
  | shrunk (h : Shrunk s s') (hr : call.increases s p r = none ∨ r = -1)
  | created {path : List Char} {type : FileType} {major minor : Int} {ip : Nat} {s₁ : St}
      (hadds : call.addsIn s p = newEntry s p path)
      (hinc : call.increases s p r = if type = .dir then newEntry s p path else none)
      (hr : type = .dir → r ≠ -1) (htype : type ≠ .free)
      (hnew : CreatedNew s p path type major minor ip s₁) (h : Shrunk s₁ s')
  | linked {old new : List Char} (hcall : call = .link (some old) (some new)) (hr : r = 0)
      (h : Linked s p old new s')
  | unlinked {path : List Char} (hcall : call = .unlink (some path)) (hr : r = 0)
      (h : Unlinked s p path s')

lemma sysCreate_effect {path : Option (List Char)}
    (hrun : (sysCreate p path type major minor).run s = .ok (r, s')) (h : Ok s)
    (htype : type ≠ .free) (hfile : type ≠ .file)
    (hadds : call.addsIn s p = path.bind (newEntry s p))
    (hinc : call.increases s p 0 = if type = .dir then path.bind (newEntry s p) else none) :
    Effect s p call r s' := by
  rcases (wp_of_run hrun).mp (sysCreate_spec h.refs (tolerates_all s) htype hfile) with
    hfail | ⟨rfl, -, path', rfl, ip, s₁, hnew, rfl⟩
  · exact .shrunk hfail.2.1.shrunk (.inr hfail.1)
  · exact .created hadds hinc (by simp) htype hnew (shrunk_iput s₁ ip)

lemma sysOpen_effect {path : Option (List Char)} {omode : Nat}
    (hrun : (sysOpen p path omode).run s = .ok (r, s')) (h : Ok s) :
    Effect s p (.open path omode) r s' := by
  have hadds : omode &&& O_CREATE ≠ 0 → ∀ path' ∈ path,
      (Call.open path omode).addsIn s p = newEntry s p path' := by
    rintro hc path' rfl
    rw [Call.addsIn, if_pos hc, Option.bind_some]
  obtain ⟨-, ⟨-, hsame, -⟩ | ⟨path', hpath, ip, s₁, -, hleft, hnew, rfl⟩ |
    ⟨-, path', hpath, ip, s₁, hfound, hopened⟩⟩ :=
      (wp_of_run hrun).mp (sysOpen_spec h (tolerates_all s))
  · exact .shrunk hsame.shrunk (.inl rfl)
  · exact .created (hadds hleft.1 path' hpath) rfl (by simp) (by decide) hnew (shrunk_iput s₁ ip)
  · rcases hfound with ⟨hq, -⟩ | ⟨hc, hnew⟩
    · have hopened' : Opened s ip s' := by
        obtain ⟨hn, hd⟩ := hopened
        rw [hq.dinode] at hd
        exact ⟨hn.trans hq.ninodes, hd⟩
      exact .shrunk hopened'.shrunk (.inl rfl)
    · exact .created (hadds hc path' hpath) rfl (by simp) (by decide) hnew hopened.shrunk

/-- **Every call has one of the four effects.** -/
lemma call_effect (hrun : (Call.run p call).run s = .ok (r, s')) (h : Ok s) :
    Effect s p call r s' := by
  have hall := tolerates_all s
  cases call with
  | «open» path omode => exact sysOpen_effect hrun h
  | mkdir path => exact sysCreate_effect hrun h (by decide) (by decide) rfl rfl
  | mknod path major minor => exact sysCreate_effect hrun h (by decide) (by decide) rfl rfl
  | link old new =>
    rcases (wp_of_run hrun).mp (sysLink_spec h.refs hall) with
      hfail | ⟨hr, -, old', rfl, new', rfl, hlinked⟩
    · exact .shrunk hfail.2.1.shrunk (.inr hfail.1)
    · exact .linked rfl hr hlinked
  | unlink path =>
    rcases (wp_of_run hrun).mp (sysUnlink_spec h.refs hall) with
      hfail | ⟨hr, -, path', rfl, hunlinked⟩
    · exact .shrunk hfail.2.1.shrunk (.inl rfl)
    · exact .unlinked rfl hr hunlinked
  | chdir path =>
    rcases (wp_of_run hrun).mp (sysChdir_spec h hall) with hfail | ⟨-, -, hfreed⟩
    · exact .shrunk hfail.2.1.shrunk (.inl rfl)
    · exact .shrunk hfreed.shrunk (.inl rfl)
  | dup fd =>
    have hdisk := ((wp_of_run (E := fun _ => True) hrun).mp (sysDup_spec h)).2.1
    exact .shrunk (Freed.of_eq hdisk.dinode hdisk.ninodes).shrunk (.inl rfl)
  | close fd =>
    have hfreed := ((wp_of_run (E := fun _ => True) hrun).mp (sysClose_spec h)).2.1
    exact .shrunk hfreed.shrunk (.inl rfl)
  | pipe =>
    have hdisk := ((wp_of_run (E := fun _ => True) hrun).mp (sysPipe_spec h)).2.1
    exact .shrunk (Freed.of_eq hdisk.dinode hdisk.ninodes).shrunk (.inl rfl)
  | fork np =>
    have hfork : wp (Call.run p (.fork np)) (fun _ => True) (fun _ => SameDisk s) s := by
      simp only [Call.run, wp_bind, wp_get, wp_ite, wp_pure]
      exact ⟨fun hnp => wp_imp (forkFiles_spec h trivial hnp) fun _ _ hok => hok.2,
        fun _ => .refl s⟩
    have hdisk := (wp_of_run hrun).mp hfork
    exact .shrunk (Freed.of_eq hdisk.dinode hdisk.ninodes).shrunk (.inl rfl)
  | exit =>
    have hexit : wp (Call.run p .exit) (fun _ => True) (fun _ => Freed s) s := by
      simp only [Call.run, wp_bind, wp_pure]
      exact wp_imp (exitFiles_spec h trivial) fun _ _ hok => hok.2
    exact .shrunk ((wp_of_run hrun).mp hexit).shrunk (.inl rfl)

/-- **One call keeps the tree** if it adds no entry to an unlinked directory and no link count
overflows. -/
lemma Effect.keepsTree (h : Effect s p call r s') (ht : s.Tree) (hadds : call.AddsLinked s p s')
    (hfits : call.Fits s p r) :
    s'.Tree ∧ (call.SparesParents s p r → Hung s.dinode → Hung s'.dinode) := by
  have hplain : KeepsTree s s' → s'.Tree ∧
      (call.SparesParents s p r → Hung s.dinode → Hung s'.dinode) :=
    fun hk => ⟨hk.tree, fun _ => hk.hung⟩
  cases h with
  | shrunk h => exact hplain (h.keepsTree ht)
  | created hin hinc hr htype hnew h =>
    unfold Call.AddsLinked at hadds
    unfold Call.Fits at hfits
    rw [hin] at hadds
    rw [hinc] at hfits
    have hkeeps := hnew.keepsTree ht htype
      (fun dp hdp => hadds dp hdp (newEntry_changed hdp (h.ents_ne (hnew.ents_ne ht dp hdp))))
      fun hd => by simpa only [if_pos hd] using hfits (hr hd)
    exact hplain (hkeeps.trans (h.keepsTree hkeeps.tree))
  | linked hcall hr h =>
    subst hcall
    refine hplain (h.keepsTree ht
      (fun dp hdp => hadds dp hdp (newEntry_changed hdp (h.ents_ne ht dp hdp))) fun x hx => ?_)
    exact hfits (by simp [hr]) x.1 (h.increases hx)
  | unlinked hcall hr h =>
    subst hcall
    refine ⟨(h.keepsTree ht).1, fun hspare => (h.keepsTree ht).2 fun ip hip d hdir => ?_⟩
    refine hspare ip ?_ d (Fs.Tree.lt_of_dir ht hdir) hdir
    rw [Call.unlinks, if_neg (by simp [hr])]
    exact hip

/-! ### Runs -/

/-- A call that adds no entry to an unlinked directory and overflows no link count. -/
def LinkStep : St → Fin NPROC × Call → St → Prop :=
  StepWhen fun s e r s' => e.2.AddsLinked s e.1 s' ∧ e.2.Fits s e.1 r

/-- Besides, it unlinks no directory that an unlinked one hangs off. -/
def TreeStep : St → Fin NPROC × Call → St → Prop :=
  StepWhen fun s e r s' => e.2.SparesParents s e.1 r ∧ e.2.AddsLinked s e.1 s' ∧ e.2.Fits s e.1 r

/-- The first process has been started on a well-formed image. -/
structure WellFormed (s : St) : Prop extends Booted s where
  tree : s.Tree

lemma tree_run (h : WellFormed s) (hrun : Run LinkStep s tr t) : Ok t ∧ t.Tree := by
  refine hrun.invariant (I := fun _ t => Ok t ∧ t.Tree) ⟨h.ok, h.tree⟩ fun _ _ _ _ hI hstep => ?_
  obtain ⟨r, hr, hadds, hfits⟩ := hstep
  exact ⟨Step.ok ⟨r, hr⟩ hI.1, ((call_effect hr hI.1).keepsTree hI.2 hadds hfits).1⟩

lemma hung_run (h : WellFormed s) (hrun : Run TreeStep s tr t) :
    Ok t ∧ t.Tree ∧ Hung t.dinode := by
  refine hrun.invariant (I := fun _ t => Ok t ∧ t.Tree ∧ Hung t.dinode) ?_
    fun _ _ _ _ hI hstep => ?_
  · refine ⟨h.ok, h.tree, fun d hdir hn => absurd hn ((h.linked d).mp ?_)⟩
    simp [St.Live, hdir]
  · obtain ⟨r, hr, hspares, hadds, hfits⟩ := hstep
    obtain ⟨ht, hh⟩ := (call_effect hr hI.1).keepsTree hI.2.1 hadds hfits
    exact ⟨Step.ok ⟨r, hr⟩ hI.1, ht, hh hspares hI.2.2⟩

/-! ### Images -/

/-- An image with `k` inodes, all linked, on which the directory `d` has `K d i` entries for `i`. -/
structure Image (k : Nat) (K : Nat → Nat → Nat) (D : Nat → Dinode) : Prop where
  free : ∀ i, k ≤ i → D i = {}
  zero : (D 0).type = .free
  root : (D ROOTINO).type = .dir
  rootParent : (D ROOTINO).parent = ROOTINO
  dir : ∀ d < k, (D d).type = .dir → IsDir d (D d)
  kids : ∀ d i, (D d).kids i = K d i
  bound : ∀ d i, 0 < K d i → i < k
  linked : ∀ i < k, (D i).type ≠ .free ↔ (D i).nlink ≠ 0
  child : ∀ d < k, ∀ i < k, 0 < K d i → (D i).type ≠ .free ∧
    ((D i).type = .dir → (D i).parent = d ∧ i ≠ d ∧ i ≠ ROOTINO ∧ K d i = 1)
  parent : ∀ d < k, (D d).type = .dir → d ≠ ROOTINO → 0 < K (D d).parent d
  count : ∀ i < k, (D i).type ≠ .free → (D i).nlink.toNat =
    ∑ d ∈ Finset.range k, (K d i + (D d).up i)

namespace Image

variable {k n : Nat} {K : Nat → Nat → Nat} {D : Nat → Dinode}

lemma lt (h : Image k K D) (hi : (D i).type ≠ .free) : i < k := by
  by_contra hlt
  rw [h.free i (Nat.le_of_not_lt hlt)] at hi
  exact hi rfl

lemma live_iff (h : Image k K D) (i : Nat) : (D i).type ≠ .free ↔ (D i).nlink ≠ 0 := by
  by_cases hi : i < k
  · exact h.linked i hi
  · rw [h.free i (Nat.le_of_not_lt hi)]
    decide

lemma named (h : Image k K D) (hk : 0 < (D d).kids i) : (D i).type ≠ .free ∧
    ((D i).type = .dir → (D i).parent = d ∧ i ≠ d ∧ i ≠ ROOTINO ∧ (D d).kids i = 1) := by
  have hd : d < k := h.lt (by simp [dir_of_kids hk])
  rw [h.kids] at hk ⊢
  exact h.child d hd i (h.bound d i hk) hk

lemma tree (h : Image k K D) (hk : k ≤ n) (hn : n ≤ 65536) : Tree n D where
  bound := hn
  range := by
    intro i hi
    have hlt := h.lt hi
    have hpos : i ≠ 0 := by
      rintro rfl
      exact hi h.zero
    omega
  dir := fun d hd => h.dir d (h.lt (by simp [hd])) hd
  root := h.root
  rootParent := h.rootParent
  rootLinked := (h.live_iff ROOTINO).mp (by simp [h.root])
  child := fun _ _ hd => (h.named hd).1
  childDir := fun _ _ hd => (h.named hd).2
  linked := by
    intro d hd _ hroot
    rw [h.kids]
    exact h.parent d (h.lt (by simp [hd])) hd hroot
  empty := fun d i hz => kids_of_ne (fun hd => (h.live_iff d).mp (by simp [hd]) hz) i
  count := by
    intro i hi
    have hsub : Finset.range k ⊆ Finset.range n := Finset.range_subset_range.mpr hk
    rw [h.count i (h.lt hi) hi, links, ← Finset.sum_subset hsub]
    · simp only [Dinode.names, h.kids]
    · intro d _ hd
      rw [h.free d (by simpa using hd)]
      rfl

end Image

lemma image_mkfsRoot : Image 2 (fun _ _ => 0) mkfsRoot.dinode where
  free := by
    intro i hi
    rw [mkfsRoot_dinode, if_neg (by rintro rfl; contradiction)]
  zero := by decide
  root := by decide
  rootParent := by decide
  dir := by
    intro d hd hdir
    obtain rfl : d = ROOTINO := by
      by_contra hne
      simp [mkfsRoot_dinode, hne] at hdir
    exact ⟨rfl, by decide, by decide⟩
  kids := by
    intro d i
    rw [mkfsRoot_dinode]
    split
    · simp [Dinode.kids, Dinode.subs]
    · exact kids_of_ne (by decide) i
  bound := by simp
  linked := by decide
  child := by simp
  parent := by decide
  count := by decide

lemma wellFormed_mkfsRoot : WellFormed mkfsRoot :=
  { booted_mkfsRoot with tree := image_mkfsRoot.tree (by decide) (by decide) }

/-- A file gets a second name and loses the first. Then a directory is unlinked while the process is
in it, and a call that would add an entry there fails. -/
def linkCalls : List (Fin NPROC × Call) :=
  List.map (fun call => (0, call))
    [.mkdir (some ['a']), .open (some ['a', '/', 'f']) O_CREATE,
      .link (some ['a', '/', 'f']) (some ['g']), .unlink (some ['a', '/', 'f']),
      .mkdir (some ['d']), .chdir (some ['d']), .unlink (some ['/', 'd']),
      .link (some ['x']) (some ['y']), .chdir (some ['/'])]

/-! ### Lookups -/

lemma alive_of_hung (ht : s.Tree) (hh : Hung s.dinode) : Alive s := by
  intro d hdir e he hne
  have hd := Fs.Tree.dir ht d hdir
  rw [hd.ents, List.mem_cons, List.mem_cons] at he
  rcases he with rfl | rfl | he
  · simp [St.Live, hdir]
  · have hparent : (s.dinode (s.dinode d).parent).type = .dir := by
      by_cases hn : (s.dinode d).nlink = 0
      · exact (hh d hdir hn).1
      · exact Fs.Tree.dir_parent ht hdir hn
    simp [St.Live, hparent]
  · refine Fs.Tree.child ht d e.inum ?_
    rw [Dinode.kids, if_pos hdir, List.countP_pos_iff]
    exact ⟨e, he, by simpa using hne⟩

/-- **A lookup never meets a free inode**: every entry of every directory names an allocated inode,
and no call panics because an inode has no type. -/
theorem lookup_meets_no_free_inode (h : WellFormed s) (hrun : Run TreeStep s tr t) :
    Alive t ∧ ∀ p call, (Call.run p call).run t ≠ .error .noType := by
  obtain ⟨hok, ht, hh⟩ := hung_run h hrun
  have halive := alive_of_hung ht hh
  refine ⟨halive, fun p call herr => ?_⟩
  have hE : Tolerates (fun e => e ≠ .noType) t := by
    refine ⟨⟨.inr ⟨?_, halive⟩, .inl (by decide)⟩, fun e hne _ => hne⟩
    simp [St.Live, Fs.Tree.root ht]
  exact (wp_of_error herr).mp (call_ok hok hE) rfl

theorem lookup_meets_no_free_inode_links : ∃ t, Run TreeStep mkfsRoot linkCalls.reverse t ∧
    findEnt ['g'] (t.dinode ROOTINO).ents = some (3, 3) ∧ Alive t ∧
    ∀ p call, (Call.run p call).run t ≠ .error .noType := by
  obtain ⟨t, hrun, hseen⟩ : ∃ t, Run TreeStep mkfsRoot linkCalls.reverse t ∧ _ :=
    run_of_after (fun t => findEnt ['g'] (t.dinode ROOTINO).ents = some (3, 3)) (by decide +kernel)
  exact ⟨t, hrun, of_decide_eq_true hseen, lookup_meets_no_free_inode wellFormed_mkfsRoot hrun⟩

/-- Inside a directory that has been unlinked, `..` names the parent after it too is unlinked. -/
theorem open_dotdot_no_type : ∃ tr t p call, Run Step mkfsRoot tr t ∧
    (Call.run p call).run t = .error .noType := by
  obtain ⟨t, hrun, hfails⟩ := run_of_calls (s := mkfsRoot)
    [(0, .mkdir (some ['a'])), (0, .mkdir (some ['a', '/', 'b'])),
      (0, .chdir (some ['a', '/', 'b'])), (0, .unlink (some ['/', 'a', '/', 'b'])),
      (0, .unlink (some ['/', 'a']))]
    (fun t => fails (Call.run 0 (.open (some ['.', '.']) 0)) t .noType) (by decide +kernel)
  exact ⟨_, t, _, _, hrun, error_of_fails hfails⟩

/-! ### Link counts -/

/-- The entry counts as a link to the inode: it is not `.`, and `..` only in a linked directory. -/
def Dinode.isLink (x : Dinode) (i : Nat) (e : Dirent) : Bool :=
  e.inum = i ∧ e.name ≠ ['.'] ∧ (e.name = ['.', '.'] → x.nlink ≠ 0)

/-- The entries of allocated directories that count as links to the inode. -/
def linkEntries (s : St) (i : Nat) : Nat :=
  ∑ d ∈ Finset.range s.ninodes, if (s.dinode d).type = .dir then
    (s.dinode d).ents.countP ((s.dinode d).isLink i) else 0

/-- The entries `..` for the root in linked directories other than the root. -/
def rootEntries (s : St) : Nat :=
  ∑ d ∈ (Finset.range s.ninodes).erase ROOTINO, if (s.dinode d).type = .dir then
    (s.dinode d).ents.countP fun e =>
      e.inum = ROOTINO ∧ e.name = ['.', '.'] ∧ (s.dinode d).nlink ≠ 0
  else 0

lemma IsDir.countP_isLink (h : IsDir d x) (hdir : x.type = .dir) (hi : i ≠ 0) :
    x.ents.countP (x.isLink i) = x.names i := by
  have hsubs : x.subs.countP (x.isLink i) = x.kids i := by
    rw [Dinode.kids, if_pos hdir]
    refine List.countP_congr fun e he => ?_
    by_cases hei : e.inum = i
    · have hplain := h.plain e he (by rwa [hei])
      simp [Dinode.isLink, hei, hi, hplain.1, hplain.2]
    · simp [Dinode.isLink, hei]
  have hup : (if x.isLink i ⟨x.parent, ['.', '.']⟩ = true then 1 else 0) = x.up i := by
    simp [Dinode.up, Dinode.isLink, hdir]
  have hdot : x.isLink i ⟨d, ['.']⟩ = false := by simp [Dinode.isLink]
  rw [h.ents, List.countP_cons, List.countP_cons, hsubs, hup, hdot, Dinode.names]
  simp

lemma linkEntries_eq (ht : s.Tree) (hi : i ≠ 0) : linkEntries s i = links s.ninodes s.dinode i := by
  refine Finset.sum_congr rfl fun d _ => ?_
  split
  · rename_i hdir
    exact (Fs.Tree.dir ht d hdir).countP_isLink hdir hi
  · rename_i hdir
    rw [Dinode.names, kids_of_ne hdir, up_of_ne hdir]

lemma IsDir.countP_dots (h : IsDir d x) (hdir : x.type = .dir) :
    (x.ents.countP fun e => e.inum = ROOTINO ∧ e.name = ['.', '.'] ∧ x.nlink ≠ 0) =
      x.up ROOTINO := by
  have hsubs : (x.subs.countP fun e => e.inum = ROOTINO ∧ e.name = ['.', '.'] ∧ x.nlink ≠ 0)
      = 0 := by
    rw [List.countP_eq_zero]
    intro e he
    rw [decide_eq_true_eq]
    rintro ⟨hroot, hname, -⟩
    exact (h.plain e he (by rw [hroot]; decide)).2 hname
  rw [h.ents, List.countP_cons, List.countP_cons, hsubs]
  simp [Dinode.up, hdir]

lemma links_root (ht : s.Tree) : links s.ninodes s.dinode ROOTINO = 1 + rootEntries s := by
  have hkids : ∀ d, (s.dinode d).kids ROOTINO = 0 := by
    intro d
    by_contra hk
    exact (Fs.Tree.childDir ht d ROOTINO (Nat.pos_of_ne_zero hk) (Fs.Tree.root ht)).2.2.1 rfl
  have hroot : (s.dinode ROOTINO).names ROOTINO = 1 := by
    rw [Dinode.names, hkids, Dinode.up,
      if_pos ⟨Fs.Tree.root ht, Fs.Tree.rootParent ht, Fs.Tree.rootLinked ht⟩]
  have hmem : ROOTINO ∈ Finset.range s.ninodes :=
    Finset.mem_range.mpr (Fs.Tree.lt_of_dir ht (Fs.Tree.root ht))
  unfold links
  rw [← Finset.add_sum_erase _ _ hmem, hroot]
  congr 1
  refine Finset.sum_congr rfl fun d _ => ?_
  rw [Dinode.names, hkids, Nat.zero_add]
  split
  · rename_i hdir
    exact ((Fs.Tree.dir ht d hdir).countP_dots hdir).symm
  · rename_i hdir
    exact up_of_ne hdir _

/-- **Link counts match the directory tree**, and an inode that no entry names and nobody holds is
free. -/
theorem link_counts_match (h : WellFormed s) (hrun : Run LinkStep s tr t) :
    (∀ i, t.Live i → i ≠ ROOTINO → (t.dinode i).nlink.toNat ≡ linkEntries t i [MOD 2 ^ 16]) ∧
    (t.Live ROOTINO → (t.dinode ROOTINO).nlink.toNat ≡ 1 + rootEntries t [MOD 2 ^ 16]) ∧
    ∀ i, i ≠ ROOTINO → linkEntries t i = 0 → t.held i = 0 → ¬ t.Live i := by
  obtain ⟨hok, ht⟩ := tree_run h hrun
  have hcount : ∀ i, t.Live i → (t.dinode i).nlink.toNat = linkEntries t i := by
    intro i hi
    have hpos := (Fs.Tree.range ht i hi).1
    rw [linkEntries_eq ht (by omega)]
    exact Fs.Tree.count ht i hi
  refine ⟨fun i hi _ => ?_, fun hlive => ?_, fun i _ hzero hheld hlive => ?_⟩
  · rw [hcount i hi]
  · rw [Fs.Tree.count ht ROOTINO hlive, links_root ht]
  · have hn : (t.dinode i).nlink = 0 := by
      refine UInt16.toNat_inj.mp ?_
      rw [hcount i hlive, hzero]
      rfl
    have href := (hok.refs.orphan i hlive hn).2
    rw [hok.refs.ref i, hheld] at href
    exact absurd href (by simp)

theorem link_counts_match_links : ∃ t, Run LinkStep mkfsRoot linkCalls.reverse t ∧
    linkEntries t 3 = 1 ∧ (t.dinode 3).nlink.toNat ≡ 1 [MOD 2 ^ 16] ∧
    rootEntries t = 1 ∧ (t.dinode ROOTINO).nlink.toNat ≡ 2 [MOD 2 ^ 16] := by
  obtain ⟨t, hrun, hseen⟩ : ∃ t, Run LinkStep mkfsRoot linkCalls.reverse t ∧ _ :=
    run_of_after (fun t => ((t.dinode 3).type ≠ .free ∧ linkEntries t 3 = 1) ∧
      (t.dinode ROOTINO).type ≠ .free ∧ rootEntries t = 1) (by decide +kernel)
  obtain ⟨⟨hlive, hentries⟩, hroot, hdots⟩ := of_decide_eq_true hseen
  obtain ⟨hcount, hrootCount, -⟩ := link_counts_match wellFormed_mkfsRoot hrun
  have hfile := hcount 3 hlive (by decide)
  have hdir := hrootCount hroot
  rw [hentries] at hfile
  rw [hdots] at hdir
  exact ⟨t, hrun, hentries, hfile, hdots, hdir⟩

/-- A file made in a directory that has been unlinked outlives the directory. -/
theorem create_in_unlinked_leaks : ∃ tr t, Run Step mkfsRoot tr t ∧
    t.Live 3 ∧ (t.dinode 3).nlink = 1 ∧ linkEntries t 3 = 0 ∧ t.held 3 = 0 := by
  obtain ⟨t, hrun, hseen⟩ := run_of_calls (s := mkfsRoot)
    [(0, .mkdir (some ['d'])), (0, .chdir (some ['d'])), (0, .unlink (some ['/', 'd'])),
      (0, .open (some ['x']) O_CREATE), (0, .close 0), (0, .chdir (some ['/']))]
    (fun t => (t.dinode 3).type ≠ .free ∧ (t.dinode 3).nlink = 1 ∧ linkEntries t 3 = 0 ∧
      t.held 3 = 0) (by decide +kernel)
  have hleak := of_decide_eq_true hseen
  exact ⟨_, t, hrun, hleak⟩

end Xv6.Fs
