import Xv6.Fs.Calls

/-!
# Calls that fail

What can be seen of a state: the contents of the inodes by path, the link counts, the files and the
directory of the caller, and the counts of the file table. A call that returns -1 leaves all of this
as it was, unless it is an `open` that makes a file and then finds no file structure or descriptor.
-/

namespace Xv6.Fs

open Lib

variable {s s' : St} {p : Fin NPROC} {call : Call} {r : Int} {type : FileType} {major minor : Int}

/-- The content of the inode that a path leads to. -/
def content (s : St) (p : Fin NPROC) (path : List Char) : Option Dinode :=
  (resolve s p false path).bind fun r =>
    if (s.dinode r.1).type = .free then none else some (s.dinode r.1)

/-- Names and descriptors are as before. -/
structure Same (p : Fin NPROC) (s s' : St) : Prop where
  content : ∀ q path, content s' q path = content s q path
  nlink : ∀ i, (s'.dinode i).nlink = (s.dinode i).nlink
  ofile : (s'.proc p).ofile = (s.proc p).ofile
  cwd : (s'.proc p).cwd = (s.proc p).cwd
  ref : ∀ f, (s'.file f).ref = (s.file f).ref

/-! ### Nothing has changed -/

lemma Unchanged.walk (h : Unchanged s s') (par : Bool) (ip : Nat) (names : List Name) :
    Fs.walk s'.dinode par ip names = Fs.walk s.dinode par ip names := by
  induction names generalizing ip with
  | nil => rfl
  | cons name rest ih =>
    unfold Fs.walk
    by_cases hlive : s.Live ip
    · rw [h.live ip hlive]
      simp only [ih]
    · have hdead := h.free ip hlive
      simp only [St.Live, ne_eq, not_not] at hlive hdead
      rw [hlive, hdead]
      rfl

lemma Unchanged.content (h : Unchanged s s') (q : Fin NPROC) (path : List Char) :
    Fs.content s' q path = Fs.content s q path := by
  have hresolve : resolve s' q false path = resolve s q false path := by
    unfold resolve startInode
    rw [h.proc]
    simp only [h.walk]
  unfold Fs.content
  rw [hresolve]
  congr 1
  funext r
  by_cases hlive : s.Live r.1
  · rw [h.live r.1 hlive]
  · have hdead := h.free r.1 hlive
    simp only [St.Live, ne_eq, not_not] at hlive hdead
    rw [if_pos hlive, if_pos hdead]

lemma Unchanged.same (h : Unchanged s s') (hs : Refs [] s) (hs' : Refs [] s') : Same p s s' where
  content := h.content
  nlink := by
    intro i
    by_cases hlive : s.Live i
    · rw [h.live i hlive]
    · rw [hs.free i hlive, hs'.free i (h.free i hlive)]
  ofile := by rw [h.proc]
  cwd := by rw [h.proc]
  ref := by
    intro f
    rw [h.file]

lemma Failed.same (h : Failed s s' r) (hs : Refs [] s) : Same p s s' := h.2.1.same hs h.2.2

/-- The counts of the file table are determined by the descriptors. -/
lemma SameDisk.same (h : SameDisk s s') (hs : Ok s) (hs' : Ok s') (hproc : s'.proc = s.proc) :
    Same p s s' where
  content := by
    intro q path
    unfold content resolve startInode
    rw [h.dinode, hproc]
  nlink := by
    intro i
    rw [h.dinode]
  ofile := by rw [hproc]
  cwd := by rw [hproc]
  ref := by
    intro f
    have hopens : s'.opens f = s.opens f := by rw [St.opens, hproc, St.opens]
    rw [hs.files.count, hs'.files.count, hopens]

/-! ### Something has changed -/

/-- A new inode is linked, whoever gives up a pointer to it. -/
lemma CreatedNew.not_same {path : List Char} {ip : Nat} {s₁ : St}
    (h : CreatedNew s p path type major minor ip s₁) (hs : Refs [] s) :
    ¬ Same p s (s₁.iput ip) := by
  intro hsame
  obtain ⟨dp, name, -, -, -, -, hmade, hdinode⟩ := h.dinode
  have hnew : ((s₁.iput ip).dinode ip).nlink = 1 := by
    rcases (freed_iput s₁ ip).dinode ip with heq | ⟨-, heq⟩
    · rw [heq, hdinode]
      rfl
    · rw [heq, hdinode]
      rfl
  have hold := hs.free ip (freeInode_some hmade.free).1
  rw [hsame.nlink ip, hold] at hnew
  contradiction

/-! ### The calls -/

/-- The call makes a file that it cannot open. -/
def LeavesName (s : St) (p : Fin NPROC) : Call → Prop
  | .open (some path) omode => NameLeft s p path omode
  | _ => False

lemma sysCreate_failed {path : Option (List Char)} (h : Ok s) (htype : type ≠ .free)
    (hfile : type ≠ .file) (hrun : (sysCreate p path type major minor).run s = .ok (-1, s')) :
    Same p s s' := by
  rcases (wp_of_run hrun).mp (sysCreate_spec h.refs (tolerates_all s) htype hfile) with
    hfail | ⟨hr, -⟩
  · exact hfail.same h.refs
  · contradiction

/-- **A call that fails leaves names and descriptors alone**, exactly if it is not an `open` that
makes a file for which there is no file structure or no descriptor. -/
theorem failed_call_same_iff (h : Ok s) (hrun : (Call.run p call).run s = .ok (-1, s')) :
    Same p s s' ↔ ¬ LeavesName s p call := by
  have hall := tolerates_all s
  -- Only `open` leaves a name behind.
  have hother : Same p s s' → ¬ LeavesName s p call → (Same p s s' ↔ ¬ LeavesName s p call) :=
    fun hsame hleaves => ⟨fun _ => hleaves, fun _ => hsame⟩
  cases call with
  | «open» path omode =>
    obtain ⟨hok, hfail | hleft | ⟨hr, -⟩⟩ := (wp_of_run hrun).mp (sysOpen_spec h hall)
    · refine hother (hfail.2.1.same h.refs hok.refs) ?_
      cases path with
      | none => exact id
      | some path => exact hfail.2.2 path rfl
    · obtain ⟨path', hpath, ip, s₁, -, hname, hnew, rfl⟩ := hleft
      obtain rfl := Option.mem_def.mp hpath
      exact ⟨fun hsame => absurd hsame (hnew.not_same h.refs), fun hno => absurd hname hno⟩
    · contradiction
  | mkdir path => exact hother (sysCreate_failed h (by decide) (by decide) hrun) id
  | mknod path major minor => exact hother (sysCreate_failed h (by decide) (by decide) hrun) id
  | link old new =>
    rcases (wp_of_run hrun).mp (sysLink_spec h.refs hall) with hfail | ⟨hr, -⟩
    · exact hother (hfail.same h.refs) id
    · contradiction
  | unlink path =>
    rcases (wp_of_run hrun).mp (sysUnlink_spec h.refs hall) with hfail | ⟨hr, -⟩
    · exact hother (hfail.same h.refs) id
    · contradiction
  | chdir path =>
    rcases (wp_of_run hrun).mp (sysChdir_spec h hall) with hfail | ⟨hr, -⟩
    · exact hother (hfail.same h.refs) id
    · contradiction
  | dup fd =>
    obtain ⟨hok, hdisk, hsame⟩ := (wp_of_run (E := fun _ => True) hrun).mp (sysDup_spec h)
    exact hother (hdisk.same h hok (by rw [hsame rfl])) id
  | close fd =>
    obtain ⟨hok, -, hsame⟩ := (wp_of_run (E := fun _ => True) hrun).mp (sysClose_spec h)
    obtain rfl := hsame rfl
    exact hother ((SameDisk.refl s').same hok hok rfl) id
  | pipe =>
    obtain ⟨hok, hdisk, hproc⟩ := (wp_of_run (E := fun _ => True) hrun).mp (sysPipe_spec h)
    exact hother (hdisk.same h hok (hproc rfl)) id
  | fork np =>
    have hfork : wp (Call.run p (.fork np)) (fun _ => True)
        (fun r s' => r = -1 → s' = s) s := by
      simp only [Call.run, wp_bind, wp_get, wp_ite, wp_pure]
      refine ⟨fun hnp => wp_imp (forkFiles_spec h trivial hnp) fun _ _ _ hr => ?_,
        fun _ _ => trivial⟩
      contradiction
    obtain rfl := (wp_of_run hrun).mp hfork rfl
    exact hother ((SameDisk.refl s').same h h rfl) id
  | exit =>
    have hexit : wp (Call.run p .exit) (fun _ => True) (fun r _ => r = 0) s := by
      simp only [Call.run, wp_bind, wp_pure]
      exact wp_imp (exitFiles_spec h trivial) fun _ _ _ => trivial
    have hzero := (wp_of_run hrun).mp hexit
    contradiction

/-- `link` has increased the count of the file when it finds that the directory of the new name does
not exist. -/
theorem failed_call_same_iff_link : ∃ tr t t', Run Step mkfsRoot tr t ∧ (t.dinode 2).nlink = 1 ∧
    (Call.run 0 (.link (some ['f']) (some ['d', '/', 'g']))).run t = .ok (-1, t') ∧
    Same 0 t t' := by
  obtain ⟨t, hrun, hseen⟩ := run_of_calls (s := mkfsRoot) [(0, .open (some ['f']) O_CREATE)]
    (fun t => (t.dinode 2).nlink = 1 ∧
      returns (Call.run 0 (.link (some ['f']) (some ['d', '/', 'g']))) t fun r _ => r = -1)
    (by decide +kernel)
  obtain ⟨hnlink, hreturns⟩ := of_decide_eq_true hseen
  obtain ⟨r, t', hcall, hr⟩ := exists_of_returns _ hreturns
  obtain rfl := of_decide_eq_true hr
  have hok := ok_run booted_mkfsRoot hrun
  exact ⟨_, t, t', hrun, hnlink, hcall, (failed_call_same_iff hok hcall).mpr id⟩

/-- A process opens pipes until it has no descriptors left, and then makes a file. -/
theorem open_leaves_name : ∃ tr t t', Run Step mkfsRoot tr t ∧
    (Call.run 0 (.open (some ['x']) (O_CREATE ||| O_RDWR))).run t = .ok (-1, t') ∧
    ¬ Same 0 t t' := by
  obtain ⟨t, hrun, hreturns⟩ := run_of_calls (s := mkfsRoot) (List.replicate 8 (0, .pipe))
    (fun t => returns (Call.run 0 (.open (some ['x']) (O_CREATE ||| O_RDWR))) t fun r t' =>
      r = -1 ∧ (t.dinode 2).nlink = 0 ∧ (t'.dinode 2).nlink = 1) (by decide +kernel)
  obtain ⟨r, t', hcall, hseen⟩ := exists_of_returns _ hreturns
  obtain ⟨rfl, hbefore, hafter⟩ := of_decide_eq_true hseen
  refine ⟨_, t, t', hrun, hcall, fun hsame => ?_⟩
  rw [hsame.nlink 2, hbefore] at hafter
  contradiction

end Xv6.Fs
