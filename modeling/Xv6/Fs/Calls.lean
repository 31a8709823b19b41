import Xv6.Fs.Names

/-!
# Runs of calls

Any number of processes make calls, one after the other: each returns before the next one is made.
The counts are right in every state that is reached, and user programs can fill the inode table.
-/

namespace Xv6.Fs

open Function Lib

variable {s s' t : St} {tr : List (Fin NPROC × Call)} {p : Fin NPROC} {call : Call}
  {E : Panic → Prop} {old new path : List Char} {type : FileType} {major minor : Int} {ip : Nat}
  {C : St → Fin NPROC × Call → Int → St → Prop} {es : List (Fin NPROC × Call)}

/-! ### The counts -/

lemma Failed.ok {r : Int} (h : Failed s s' r) (hs : Ok s) : Ok s' :=
  ⟨h.2.2, hs.files.congr h.2.1.file h.2.1.proc⟩

lemma Linked.files (h : Linked s p old new s') (hs : Files [] s) : Files [] s' := by
  obtain ⟨ip, n, s₁, -, -, -, ⟨dp, name, s₂, -, -, -, -, hfile, hproc, -, -, rfl⟩, rfl⟩ := h
  refine hs.congr ?_ ?_
  · rw [iput_file, iput_file, hfile]
    rfl
  · rw [iput_proc, iput_proc, hproc]
    rfl

lemma Unlinked.files (h : Unlinked s p path s') (hs : Files [] s) : Files [] s' := by
  obtain ⟨dp, name, ip, off, s₁, -, -, -, -, -, -, -, hcleared, rfl⟩ := h
  refine hs.congr ?_ ?_
  · rw [← hcleared.file]
    exact (iput_file ..).trans (iput_file s₁ dp)
  · rw [← hcleared.proc]
    exact (iput_proc ..).trans (iput_proc s₁ dp)

lemma CreatedNew.files (h : CreatedNew s p path type major minor ip s') (hs : Files [] s) :
    Files [] s' := by
  obtain ⟨dp, name, -, -, hmade⟩ := h
  obtain ⟨s₁, -, hfile, hproc, -, -, rfl⟩ := hmade.before
  exact hs.congr (by rw [iput_file, hfile]) (by rw [iput_proc, hproc])

lemma sysCreate_ok {path : Option (List Char)} (h : Ok s) (hE : Tolerates E s)
    (htype : type ≠ .free) (hfile : type ≠ .file) :
    wp (sysCreate p path type major minor) E (fun _ => Ok) s := by
  refine wp_imp (sysCreate_spec h.refs hE htype hfile) ?_
  rintro r s' (hfail | ⟨-, hrefs, path', -, ip, s₁, hnew, rfl⟩)
  · exact hfail.ok h
  · exact ⟨hrefs, (hnew.files h.files).congr (iput_file ..) (iput_proc ..)⟩

/-- Every call keeps the counts right. -/
lemma call_ok (h : Ok s) (hE : Tolerates E s) : wp (call.run p) E (fun _ => Ok) s := by
  have htrap := hE.other .kerneltrap (by decide) (by decide)
  cases call with
  | «open» path omode => exact wp_imp (sysOpen_spec h hE) fun _ _ hok => hok.1
  | mkdir path => exact sysCreate_ok h hE (by decide) (by decide)
  | mknod path major minor => exact sysCreate_ok h hE (by decide) (by decide)
  | link old new =>
    refine wp_imp (sysLink_spec h.refs hE) ?_
    rintro r s' (hfail | ⟨-, hrefs, old', -, new', -, hlinked⟩)
    · exact hfail.ok h
    · exact ⟨hrefs, hlinked.files h.files⟩
  | unlink path =>
    refine wp_imp (sysUnlink_spec h.refs hE) ?_
    rintro r s' (hfail | ⟨-, hrefs, path', -, hunlinked⟩)
    · exact hfail.ok h
    · exact ⟨hrefs, hunlinked.files h.files⟩
  | chdir path =>
    refine wp_imp (sysChdir_spec h hE) ?_
    rintro r s' (hfail | ⟨-, hok, -⟩)
    · exact hfail.ok h
    · exact hok
  | dup fd => exact wp_imp (sysDup_spec h) fun _ _ hok => hok.1
  | close fd => exact wp_imp (sysClose_spec h) fun _ _ hok => hok.1
  | pipe => exact wp_imp (sysPipe_spec h) fun _ _ hok => hok.1
  | fork np =>
    simp only [Call.run, wp_bind, wp_get, wp_ite, wp_pure]
    exact ⟨fun hnp => wp_imp (forkFiles_spec h htrap hnp) fun _ _ hok => hok.1, fun _ => h⟩
  | exit =>
    simp only [Call.run, wp_bind, wp_pure]
    exact wp_imp (exitFiles_spec h htrap) fun _ _ hok => hok.1

/-! ### Runs -/

/-- A process makes a call, which returns before the next one is made. -/
def Step (s : St) (e : Fin NPROC × Call) (s' : St) : Prop :=
  ∃ r, (e.2.run e.1).run s = .ok (r, s')

/-- Anything may be met. -/
lemma tolerates_all (s : St) : Tolerates (fun _ => True) s :=
  ⟨⟨.inl trivial, .inl trivial⟩, fun _ _ _ => trivial⟩

lemma Step.ok {e : Fin NPROC × Call} (h : Step s e s') (hs : Ok s) : Ok s' := by
  obtain ⟨r, hr⟩ := h
  exact (wp_of_run hr).mp (call_ok hs (tolerates_all s))

/-- A state after the kernel has started the first process on an image: nothing is open, and the
process is in the root directory. Every allocated inode of the image is linked. -/
structure Booted (s : St) : Prop where
  ninodes : s.ninodes ≤ 65536
  root : s.Live ROOTINO
  linked : ∀ i, s.Live i ↔ (s.dinode i).nlink ≠ 0
  ents : ∀ i, ∀ e ∈ (s.dinode i).ents, e.inum < 65536
  ref : s.ref = update (fun _ => 0) ROOTINO 1
  valid : s.valid = fun _ => false
  used : s.used = 1
  file : s.file = fun _ => {}
  proc : s.proc = update (fun _ => {}) 0 { cwd := some ROOTINO }

lemma Booted.held (h : Booted s) (i : Nat) : s.held i = if i = ROOTINO then 1 else 0 := by
  have hproc := total_update (Proc.holds i) (fun _ : Fin NPROC => ({} : Proc)) 0
    { cwd := some ROOTINO }
  have hfile : total (File.holds i) (fun _ : Fin NFILE => ({} : File)) = 0 := by
    rw [total_eq_zero]
    simp [File.holds]
  have hempty : Proc.holds i {} = 0 := by simp [Proc.holds]
  have hnone : total (Proc.holds i) (fun _ : Fin NPROC => ({} : Proc)) = 0 := by
    rw [total_eq_zero]
    exact fun _ => hempty
  have hroot : Proc.holds i { cwd := some ROOTINO } = if i = ROOTINO then 1 else 0 := by
    simp only [Proc.holds, Option.some.injEq]
    exact if_congr eq_comm rfl rfl
  unfold St.held
  rw [h.file, h.proc, hfile, ← hroot]
  omega

lemma Booted.ok (h : Booted s) : Ok s where
  refs := {
    ref := by
      intro i
      rw [h.held, h.ref, update_apply, List.count_nil, Nat.add_zero]
    used := by
      rw [h.used, h.ref, Finset.sum_eq_single ROOTINO]
      · rw [update_self]
        rfl
      · intro i _ hne
        rw [update_of_ne hne]
        rfl
      · intro hnot
        exact absurd (Finset.mem_range.mpr (by decide)) hnot
    bound := by
      intro i hi
      rw [h.ref, update_apply] at hi
      split at hi
      · rename_i hroot
        rw [hroot]
        decide
      · contradiction
    valid := by
      intro i _ hv
      rw [h.valid] at hv
      contradiction
    held := by
      intro i hi
      rw [h.held] at hi
      split at hi
      · rename_i hroot
        rw [hroot]
        exact h.root
      · contradiction
    orphan := fun i hl hn => absurd hn ((h.linked i).mp hl)
    free := fun i hl => not_not.mp fun hn => hl ((h.linked i).mpr hn)
    ents := h.ents
    ninodes := h.ninodes }
  files := {
    count := by
      intro f
      have huses : ∀ p, (s.proc p).uses f = 0 := by
        intro p
        refine total_eq_zero.mpr fun fd => ?_
        rw [h.proc, update_apply]
        split <;> rfl
      rw [h.file, St.opens, total_eq_zero.mpr huses, List.count_nil]
    closed := by
      intro f _
      rw [h.file] }

/-- The counts are right in every state that is reached. -/
lemma ok_run (h : Booted s) (hrun : Run Step s tr t) : Ok t :=
  hrun.invariant (I := fun _ => Ok) h.ok fun _ _ _ _ hok hstep => hstep.ok hok

/-! ### Calls in turn -/

/-- A call that returns as `C` allows. -/
def StepWhen (C : St → Fin NPROC × Call → Int → St → Prop) (s : St) (e : Fin NPROC × Call)
    (s' : St) : Prop :=
  ∃ r, (e.2.run e.1).run s = .ok (r, s') ∧ C s e r s'

/-- The state after calls made in turn, if each of them returns as `C` allows. -/
def after (C : St → Fin NPROC × Call → Int → St → Prop) [∀ s e r s', Decidable (C s e r s')] :
    List (Fin NPROC × Call) → St → Option St
  | [], s => some s
  | e :: es, s =>
    match (e.2.run e.1).run s with
    | .ok (r, s') => if C s e r s' then after C es s' else none
    | .error _ => none

lemma run_after [∀ s e r s', Decidable (C s e r s')] (h : after C es s = some t) :
    Run (StepWhen C) s es.reverse t := by
  -- The first call comes first in `es`, and the last one in the trace of the run.
  induction es generalizing s with
  | nil =>
    obtain rfl := Option.some.inj h
    exact .nil
  | cons e es ih =>
    unfold after at h
    split at h
    · rename_i r s' hcall
      split at h
      · rename_i hC
        rw [List.reverse_cons]
        exact (Run.single ⟨r, hcall, hC⟩).trans (ih h)
      · contradiction
    · contradiction

lemma run_of_after [∀ s e r s', Decidable (C s e r s')] (f : St → Bool)
    (h : (after C es s).any f = true) : ∃ t, Run (StepWhen C) s es.reverse t ∧ f t = true := by
  obtain ⟨t, ht, hf⟩ := (Option.any_eq_true f _).mp h
  exact ⟨t, run_after ht, hf⟩

lemma run_of_calls (es : List (Fin NPROC × Call)) (f : St → Bool)
    (h : (after (fun _ _ _ _ => True) es s).any f = true) :
    ∃ t, Run Step s es.reverse t ∧ f t = true := by
  obtain ⟨t, hrun, hf⟩ := run_of_after f h
  exact ⟨t, hrun.mono fun _ _ _ ⟨r, hr, _⟩ => ⟨r, hr⟩, hf⟩

/-- An image with only the root directory. -/
def mkfsRoot : St where
  ninodes := 200
  dinode := update (fun _ => {}) ROOTINO
    { type := .dir, nlink := 1, ents := [⟨ROOTINO, ['.']⟩, ⟨ROOTINO, ['.', '.']⟩] }
  ref := update (fun _ => 0) ROOTINO 1
  valid := fun _ => false
  used := 1
  file := fun _ => {}
  proc := update (fun _ => {}) 0 { cwd := some ROOTINO }
  answers := fun _ => true

lemma mkfsRoot_dinode (i : Nat) : mkfsRoot.dinode i = if i = ROOTINO then
    { type := .dir, nlink := 1, ents := [⟨ROOTINO, ['.']⟩, ⟨ROOTINO, ['.', '.']⟩] } else {} := by
  simp only [mkfsRoot, update_apply]

lemma booted_mkfsRoot : Booted mkfsRoot where
  ninodes := by decide
  root := by simp [St.Live, mkfsRoot_dinode]
  linked := by
    intro i
    rw [St.Live, mkfsRoot_dinode]
    split <;> decide
  ents := by
    intro i e he
    rw [mkfsRoot_dinode] at he
    split at he
    · simp only [List.mem_cons, List.not_mem_nil, or_false] at he
      rcases he with rfl | rfl <;> decide
    · contradiction
  ref := rfl
  valid := rfl
  used := rfl
  file := rfl
  proc := rfl

/-! ### The inode table -/

/-- Between calls the entries in use are the inodes that are held. -/
lemma Refs.distinct (h : Refs [] s) : s.distinct = s.used := by
  have href : ∀ i, s.ref i = s.held i := by
    intro i
    rw [h.ref i, List.count_nil, Nat.add_zero]
  rw [h.used]
  simp only [href, St.distinct]

/-- Process `k / 16` makes and opens a file of its own. -/
def openOne (k : Nat) : Fin NPROC × Call :=
  (Fin.ofNat NPROC (k / 16), .open (some [Char.ofNat (65 + k)]) (O_CREATE ||| O_RDWR))

/-- Four processes open `n` files. -/
def openMany (n : Nat) : List (Fin NPROC × Call) :=
  [(0, .fork 1), (0, .fork 2), (0, .fork 3)] ++ (List.range n).map openOne

/-- The inode table is smaller than the file table. -/
theorem openMany_no_inodes : ∃ tr t p call, Run Step mkfsRoot tr t ∧
    (Call.run p call).run t = .error .noInodes := by
  obtain ⟨t, hrun, hfails⟩ := run_of_calls (s := mkfsRoot) (openMany 49)
    (fun t => fails ((openOne 49).2.run 3) t .noInodes) (by decide +kernel)
  exact ⟨_, t, _, _, hrun, error_of_fails hfails⟩

end Xv6.Fs
