import Xv6.Fs.Files

/-!
# Calls that only change descriptors

`dup`, `close`, `pipe`, and the files of `fork` and `exit`. Each keeps the counts right; the inodes
change only where `iput` frees one.
-/

namespace Xv6.Fs

open Function Lib

variable {s s' : St} {τ : List Nat} {φ : List (Fin NFILE)} {i ip : Nat} {f rf wf : Fin NFILE}
  {fd : Fin NOFILE} {p np : Fin NPROC} {E : Panic → Prop} {Q : Unit → St → Prop}
  {o : Option (Fin NFILE)} {n : Int} {x : File} {l : List (Fin NOFILE)}

/-- The inodes on disk are the same. -/
structure SameDisk (s s' : St) : Prop where
  dinode : s'.dinode = s.dinode
  ninodes : s'.ninodes = s.ninodes

lemma SameDisk.refl (s : St) : SameDisk s s := ⟨rfl, rfl⟩

lemma SameDisk.trans {s'' : St} (h : SameDisk s s') (h' : SameDisk s' s'') : SameDisk s s'' :=
  ⟨h'.dinode.trans h.dinode, h'.ninodes.trans h.ninodes⟩

lemma Files.open_pos (h : Files φ s) (hfd : (s.proc p).ofile fd = some f) : 0 < (s.file f).ref :=
  (h.take hfd).pos

lemma wp_setOfile : wp (setOfile p fd o) E Q s ↔ Q ⟨⟩ (s.setOfile p fd o) := Iff.rfl

/-! ### Allocation -/

/-- The file with another reference. -/
def File.more (x : File) : File := { x with ref := x.ref + 1 }

lemma wp_filealloc {Q : Option (Fin NFILE) → St → Prop}
    (hnone : (∀ f, (s.file f).ref ≠ 0) → Q none s)
    (hsome : ∀ f, (s.file f).ref = 0 → Q (some f) (s.setFile f (s.file f).more)) :
    wp filealloc E Q s := by
  simp only [filealloc, wp_bind, wp_get]
  split
  · rename_i hfind
    rw [List.find?_eq_none] at hfind
    exact hnone fun f => by simpa using hfind f (List.mem_finRange f)
  · rename_i f hfind
    have hzero : (s.file f).ref = 0 := by simpa using List.find?_some hfind
    have hq := hsome f hzero
    rw [File.more, hzero] at hq
    exact hq

lemma wp_filedup (h : 0 < (s.file f).ref) :
    wp (filedup f) E Q s ↔ Q ⟨⟩ (s.setFile f (s.file f).more) := by
  have hnot : (s.file f).ref ≠ 0 := by omega
  simp [filedup, wp_ite, hnot, File.more]

lemma wp_fdalloc {Q : Option (Fin NOFILE) → St → Prop}
    (hnone : (∀ fd, (s.proc p).ofile fd ≠ none) → Q none s)
    (hsome : ∀ fd, (s.proc p).ofile fd = none → Q (some fd) (s.setOfile p fd (some f))) :
    wp (fdalloc p f) E Q s := by
  simp only [fdalloc, wp_bind, wp_get]
  split
  · rename_i hfind
    rw [List.find?_eq_none] at hfind
    exact hnone fun fd => by simpa using hfind fd (List.mem_finRange fd)
  · rename_i fd hfind
    exact hsome fd (by simpa using List.find?_some hfind)

/-- The call has another pointer to the file. -/
lemma Files.more (h : Files φ s) (f : Fin NFILE) :
    Files (f :: φ) (s.setFile f (s.file f).more) := by
  have hcount := h.count f
  refine h.setFile ?_ (fun g hg => ?_) fun hz => ?_
  · rw [List.count_cons_self]
    show (s.file f).ref + 1 = _
    omega
  · rw [List.count_cons_of_ne (Ne.symm hg)]
  · exact absurd hz (Nat.succ_ne_zero _)

lemma Refs.more (h : Refs τ s) (hf : Files φ s) (f : Fin NFILE) :
    Refs τ (s.setFile f (s.file f).more) := by
  refine h.setFile fun i => ?_
  by_cases hz : (s.file f).ref = 0
  · simp [File.holds, File.more, hz, hf.closed f hz]
  · have hpos : 0 < (s.file f).ref := by omega
    simp [File.holds, File.more, hpos]

/-! ### `dup` and `close` -/

lemma wp_argfd {Q : Option (Fin NOFILE × Fin NFILE) → St → Prop} (hnone : Q none s)
    (hsome : ∀ fd f, (s.proc p).ofile fd = some f → Q (some (fd, f)) s) : wp (argfd p n) E Q s := by
  simp only [argfd, wp_bind, wp_get]
  split
  · rename_i h
    rw [wp_pure]
    cases hfd : (s.proc p).ofile ⟨n.toNat, h.2⟩ with
    | none => exact hnone
    | some f => exact hsome _ f hfd
  · exact hnone

lemma sysDup_spec (h : Ok s) :
    wp (sysDup p n) E (fun r s' => Ok s' ∧ SameDisk s s' ∧ (r = -1 → s' = s)) s := by
  have hkept : Ok s ∧ SameDisk s s ∧ ((-1 : Int) = -1 → s = s) := ⟨h, .refl s, fun _ => rfl⟩
  simp only [sysDup, wp_bind]
  refine wp_argfd hkept fun fd f hfd => ?_
  rw [wp_bind]
  refine wp_fdalloc (fun _ => hkept) fun fd' hfd' => ?_
  have hpos := h.files.open_pos hfd
  rw [wp_bind, wp_filedup (show 0 < ((s.setOfile p fd' (some f)).file f).ref from hpos), wp_pure]
  refine ⟨⟨?_, ?_⟩, ⟨rfl, rfl⟩, fun hr => ?_⟩
  · exact (h.refs.more h.files f).setOfile p fd' (some f)
  · exact (h.files.more f).give hfd'
  · have := Int.natCast_nonneg fd'.val
    omega

lemma sysClose_spec (h : Ok s) :
    wp (sysClose p n) E (fun r s' => Ok s' ∧ Freed s s' ∧ (r = -1 → s' = s)) s := by
  simp only [sysClose, wp_bind]
  refine wp_argfd ⟨h, .of_eq rfl rfl, fun _ => rfl⟩ fun fd f hfd => ?_
  have hfiles := h.files.take hfd
  simp only [wp_bind, wp_setOfile, wp_fileclose hfiles.pos, wp_pure]
  refine ⟨⟨(h.refs.setOfile p fd none).fclose hfiles.pos, hfiles.fclose⟩, ?_, fun hr => ?_⟩
  · have hset : Freed s (s.setOfile p fd none) := .of_eq rfl rfl
    exact hset.trans (freed_fclose _ f)
  · contradiction

/-! ### `pipe` -/

lemma setFile_file (s : St) (f g : Fin NFILE) (x : File) :
    (s.setFile f x).file g = if g = f then x else s.file g :=
  update_apply ..

/-- The file does not refer to an inode. -/
def File.Plain (x : File) : Prop := ¬ (x.type = .inode ∨ x.type = .device)

lemma File.Plain.holds (h : x.Plain) (i : Nat) : File.holds i x = 0 := by
  rw [File.holds, if_neg]
  rintro ⟨-, htype, -⟩
  exact h htype

lemma fclose_plain (h : (s.file f).Plain) : s.fclose f = s.setFile f (s.file f).less := by
  rw [St.fclose, if_neg]
  rintro ⟨-, htype⟩
  exact h htype

lemma File.Plain.less (h : x.Plain) : x.less.Plain := by
  unfold File.less
  split
  · exact h
  · simp [File.Plain]

/-- The file is changed or not, and is still plain. -/
lemma plain_setFile {g : Fin NFILE} (h : (s.file g).Plain) (hx : x.Plain) :
    ((s.setFile f x).file g).Plain := by
  rw [setFile_file]
  split
  · exact hx
  · exact h

/-- Two files that are in nobody else's hands are closed. -/
lemma wp_closeBoth (hrefs : Refs [] s) (hfiles : Files [rf, wf] s) (hr : (s.file rf).Plain)
    (hw : (s.file wf).Plain) (hQ : ∀ s', Ok s' → SameDisk s s' → s'.proc = s.proc → Q ⟨⟩ s') :
    wp (fileclose rf) E (fun _ => wp (fileclose wf) E Q) s := by
  rw [wp_fileclose hfiles.pos]
  have hfiles₁ := hfiles.fclose
  have hrefs₁ := hrefs.fclose hfiles.pos
  have hw₁ : ((s.fclose rf).file wf).Plain := by
    rw [fclose_plain hr]
    exact plain_setFile hw hr.less
  rw [wp_fileclose hfiles₁.pos]
  refine hQ _ ⟨hrefs₁.fclose hfiles₁.pos, hfiles₁.fclose⟩ ?_ (by rw [fclose_proc, fclose_proc])
  rw [fclose_plain hw₁, fclose_plain hr]
  exact ⟨rfl, rfl⟩

/-- A file that refers to no inode changes. -/
lemma Refs.setPlain (h : Refs τ s) (hf : (s.file f).Plain) (hx : x.Plain) :
    Refs τ (s.setFile f x) :=
  h.setFile fun i => by rw [hx.holds, hf.holds]

lemma Files.sameRef (h : Files φ s) (href : x.ref = (s.file f).ref) (hpos : 0 < (s.file f).ref) :
    Files φ (s.setFile f x) :=
  h.setFile (href.trans (h.count f)) (fun _ _ => rfl) fun hz => by omega

/-- Both files become ends of a pipe. -/
lemma pipe_opened (hrefs : Refs [] s) (hfiles : Files [rf, wf] s) (hr : (s.file rf).Plain)
    (hw : (s.file wf).Plain) (hs' : s' = s.setFile rf ((s.file rf).asPipe true false)) :
    Refs [] (s'.setFile wf ((s'.file wf).asPipe false true)) ∧
      Files [rf, wf] (s'.setFile wf ((s'.file wf).asPipe false true)) ∧
      ((s'.setFile wf ((s'.file wf).asPipe false true)).file rf).Plain ∧
      ((s'.setFile wf ((s'.file wf).asPipe false true)).file wf).Plain := by
  have hpipe : ∀ (x : File) (r w : Bool), (x.asPipe r w).Plain := by
    simp [File.Plain, File.asPipe]
  have hfiles₁ : Files [rf, wf] s' := by
    rw [hs']
    exact hfiles.sameRef rfl hfiles.pos
  have hr₁ : (s'.file rf).Plain := by
    rw [hs']
    exact plain_setFile hr (hpipe _ _ _)
  have hw₁ : (s'.file wf).Plain := by
    rw [hs']
    exact plain_setFile hw (hpipe _ _ _)
  have hrefs₁ : Refs [] s' := by
    rw [hs']
    exact hrefs.setPlain hr (hpipe _ _ _)
  have hpos := (hfiles₁.perm (List.Perm.swap rf wf [])).pos
  exact ⟨hrefs₁.setPlain hw₁ (hpipe _ _ _), hfiles₁.sameRef rfl hpos,
    plain_setFile hr₁ (hpipe _ _ _),
    plain_setFile hw₁ (hpipe _ _ _)⟩

lemma pipealloc_spec (h : Ok s) :
    wp pipealloc E (fun r s' => SameDisk s s' ∧ s'.proc = s.proc ∧
      match r with
      | none => Ok s'
      | some (rf, wf) => Refs [] s' ∧ Files [rf, wf] s' ∧ (s'.file rf).Plain ∧
        (s'.file wf).Plain) s := by
  simp only [pipealloc, wp_bind]
  refine wp_filealloc (fun _ => ⟨.refl s, rfl, h⟩) fun rf hrf => ?_
  rw [wp_bind]
  have hplain : ∀ f, (s.file f).ref = 0 → (s.file f).Plain := by
    intro f hz
    simp [File.Plain, h.files.closed f hz]
  have hrefs₁ := h.refs.more h.files rf
  have hfiles₁ := h.files.more rf
  have hplain₁ : ((s.setFile rf (s.file rf).more).file rf).Plain := by
    rw [setFile_file, if_pos rfl]
    exact hplain rf hrf
  refine wp_filealloc (fun _ => ?_) fun wf hwf => ?_
  · rw [wp_bind, wp_fileclose hfiles₁.pos, wp_pure]
    refine ⟨?_, fclose_proc .., hrefs₁.fclose hfiles₁.pos, hfiles₁.fclose⟩
    rw [fclose_plain hplain₁]
    exact ⟨rfl, rfl⟩
  · have hne : wf ≠ rf := by
      rintro rfl
      simp [St.setFile, File.more] at hwf
    have hplain₂ : (s.file wf).Plain := hplain wf (by simpa [St.setFile, hne] using hwf)
    have hw : ((s.setFile rf (s.file rf).more).file wf) = s.file wf := update_of_ne hne ..
    rw [hw]
    have hrefs₂ := hrefs₁.more hfiles₁ wf
    have hfiles₂ := (hfiles₁.more wf).perm (List.Perm.swap wf rf [])
    have hr₂ := plain_setFile (f := wf) hplain₁ (x := (s.file wf).more) hplain₂
    have hw₂ : (((s.setFile rf (s.file rf).more).setFile wf (s.file wf).more).file wf).Plain := by
      rw [setFile_file, if_pos rfl]
      exact hplain₂
    rw [hw] at hrefs₂ hfiles₂
    have hdisk : SameDisk s ((s.setFile rf (s.file rf).more).setFile wf (s.file wf).more) :=
      ⟨rfl, rfl⟩
    have hproc : ((s.setFile rf (s.file rf).more).setFile wf (s.file wf).more).proc = s.proc := rfl
    generalize (s.setFile rf (s.file rf).more).setFile wf (s.file wf).more = s₂ at *
    simp only [ask, wp_bind, wp_get, wp_set, wp_ite, wp_pure, wp_modify]
    refine ⟨fun _ => ?_, fun _ => ?_⟩
    · refine ⟨⟨hdisk.dinode, hdisk.ninodes⟩, hproc, ?_⟩
      exact pipe_opened (hrefs₂.answered fun k => s₂.answers (k + 1)) (hfiles₂.congr rfl rfl)
        hr₂ hw₂ rfl
    · refine wp_closeBoth (hrefs₂.answered fun k => s₂.answers (k + 1)) (hfiles₂.congr rfl rfl)
        hr₂ hw₂ fun s' hok hdisk' hproc' => ⟨?_, hproc'.trans hproc, hok⟩
      exact hdisk.trans ⟨hdisk'.dinode, hdisk'.ninodes⟩

lemma setOfile_ofile (s : St) (p : Fin NPROC) (fd fd' : Fin NOFILE) (o : Option (Fin NFILE)) :
    ((s.setOfile p fd o).proc p).ofile fd' = if fd' = fd then o else (s.proc p).ofile fd' := by
  simp [St.setOfile, St.setProc, Proc.setOfile, update_apply]

lemma setOfile_setOfile (s : St) (p : Fin NPROC) (fd : Fin NOFILE) (o o' : Option (Fin NFILE)) :
    (s.setOfile p fd o).setOfile p fd o' = s.setOfile p fd o' := by
  simp [St.setOfile, St.setProc, Proc.setOfile]

lemma setOfile_comm {fd fd' : Fin NOFILE} (hne : fd ≠ fd') (s : St) (p : Fin NPROC)
    (o o' : Option (Fin NFILE)) :
    (s.setOfile p fd o).setOfile p fd' o' = (s.setOfile p fd' o').setOfile p fd o := by
  simp [St.setOfile, St.setProc, Proc.setOfile, update_comm hne]

lemma setOfile_self (h : (s.proc p).ofile fd = o) : s.setOfile p fd o = s := by
  subst h
  simp [St.setOfile, St.setProc, Proc.setOfile]

lemma sysPipe_spec (h : Ok s) :
    wp (sysPipe p) E (fun r s' => Ok s' ∧ SameDisk s s' ∧ (r = -1 → s'.proc = s.proc)) s := by
  simp only [sysPipe, wp_bind]
  refine wp_imp (pipealloc_spec h) ?_
  rintro (_ | ⟨rf, wf⟩) s₁ ⟨hdisk, hproc, hr⟩
  · exact ⟨hr, hdisk, fun _ => hproc⟩
  · obtain ⟨hrefs, hfiles, hrf, hwf⟩ := hr
    simp only [wp_bind]
    -- Whatever has been done to the descriptors, the files are closed in the end.
    have hclose : ∀ s₂, Refs [] s₂ → Files [rf, wf] s₂ → s₂.file = s₁.file → SameDisk s₁ s₂ →
        s₂.proc = s₁.proc → wp (fileclose rf) E (fun _ => wp (fileclose wf) E fun _ s' =>
          Ok s' ∧ SameDisk s s' ∧ s'.proc = s.proc) s₂ := by
      intro s₂ hrefs₂ hfiles₂ hfile₂ hdisk₂ hproc₂
      refine wp_closeBoth hrefs₂ hfiles₂ (by rwa [hfile₂]) (by rwa [hfile₂]) ?_
      intro s' hok hdisk' hproc'
      exact ⟨hok, hdisk.trans (hdisk₂.trans hdisk'), hproc'.trans (hproc₂.trans hproc)⟩
    refine wp_fdalloc (fun _ => ?_) fun fd₀ hfd₀ => ?_
    · simp only [wp_bind, wp_pure, true_imp_iff]
      exact hclose s₁ hrefs hfiles rfl (.refl s₁) rfl
    · have hfiles₁ := hfiles.give hfd₀
      have hrefs₁ := hrefs.setOfile p fd₀ (some rf)
      simp only [wp_bind]
      refine wp_fdalloc (fun _ => ?_) fun fd₁ hfd₁ => ?_
      · simp only [wp_bind, wp_setOfile, wp_pure, true_imp_iff]
        rw [setOfile_setOfile, setOfile_self hfd₀]
        exact hclose s₁ hrefs hfiles rfl (.refl s₁) rfl
      · have hne : fd₀ ≠ fd₁ := by
          rintro rfl
          rw [setOfile_ofile, if_pos rfl] at hfd₁
          contradiction
        rw [setOfile_ofile, if_neg hne.symm] at hfd₁
        have hrefs₂ := hrefs₁.setOfile p fd₁ (some wf)
        simp only [ask, wp_bind, wp_get, wp_set, wp_ite, wp_pure, wp_setOfile, true_imp_iff]
        refine ⟨fun _ => ⟨⟨hrefs₂.answered _, ?_⟩, ?_, fun hr => ?_⟩, fun _ => ?_⟩
        · refine (hfiles₁.give ?_).congr rfl rfl
          rw [setOfile_ofile, if_neg hne.symm]
          exact hfd₁
        · exact hdisk.trans ⟨rfl, rfl⟩
        · contradiction
        · have hback : (((s₁.setOfile p fd₀ (some rf)).setOfile p fd₁ (some wf)).setOfile p fd₀
              none).setOfile p fd₁ none = s₁ := by
            rw [setOfile_comm hne.symm, setOfile_setOfile, setOfile_setOfile, setOfile_self hfd₀,
              setOfile_self hfd₁]
          have hend := fun a => hclose { s₁ with answers := a } (hrefs.answered a)
            (hfiles.congr rfl rfl) rfl ⟨rfl, rfl⟩ rfl
          rw [← hback] at hend
          exact hend _

/-! ### Current directories -/

/-- `cwd = o`. -/
def Proc.setCwd (x : Proc) (o : Option Nat) : Proc := { x with cwd := o }

/-- The current directory changes: the call has a pointer to the new one, then to the old one. -/
lemma Refs.setCwd {o : Option Nat} (h : Refs (o.toList ++ τ) s) (hlive : ∀ i ∈ o, s.Live i) :
    Refs ((s.proc p).cwd.toList ++ τ) (s.setProc p ((s.proc p).setCwd o)) := by
  have hcount : ∀ (x : Proc) (i : Nat), x.holds i = x.cwd.toList.count i := by
    intro x i
    cases hx : x.cwd <;> simp [Proc.holds, hx, List.count_singleton]
  have hheld := fun i => held_setProc s p ((s.proc p).setCwd o) i
  simp only [hcount] at hheld
  refine h.move rfl rfl rfl rfl rfl (fun i => ?_) fun i hi => ?_
  · rw [List.count_append, List.count_append, ← Nat.add_assoc, ← Nat.add_assoc, hheld i]
    rfl
  · by_cases ho : i ∈ o
    · exact hlive i ho
    · have hzero : ((s.proc p).setCwd o).cwd.toList.count i = 0 :=
        List.count_eq_zero_of_not_mem fun hmem => ho (Option.mem_toList.mp hmem)
      have := hheld i
      exact h.held i (by omega)

lemma Files.setCwd (h : Files φ s) (p : Fin NPROC) (o : Option Nat) :
    Files φ (s.setProc p ((s.proc p).setCwd o)) where
  count := by
    intro f
    have htotal := total_update (Proc.uses f) s.proc p ((s.proc p).setCwd o)
    have hsame : ((s.proc p).setCwd o).uses f = (s.proc p).uses f := rfl
    have hcount := h.count f
    show (s.file f).ref = total (Proc.uses f) (update s.proc p _) + _
    unfold St.opens at hcount
    omega
  closed := h.closed

/-! ### `fork` -/

lemma forkFile_spec (h : Ok s) (hfd : (s.proc np).ofile fd = none) :
    wp (forkFile p np fd) E (fun _ s' => Ok s' ∧ SameDisk s s' ∧
      (s'.proc np).cwd = (s.proc np).cwd ∧
      ∀ fd', fd' ≠ fd → (s'.proc np).ofile fd' = (s.proc np).ofile fd') s := by
  simp only [forkFile, wp_bind, wp_get]
  split
  · exact ⟨h, .refl s, rfl, fun _ _ => rfl⟩
  · rename_i f hf
    simp only [wp_bind, wp_filedup (h.files.open_pos hf), wp_setOfile]
    refine ⟨⟨(h.refs.more h.files f).setOfile np fd (some f), (h.files.more f).give hfd⟩,
      ⟨rfl, rfl⟩, ?_, fun fd' hne => ?_⟩
    · simp [St.setOfile, St.setProc, Proc.setOfile, St.setFile]
    · rw [setOfile_ofile, if_neg hne]
      rfl

/-- The loop of `fork`. -/
lemma forkLoop_spec (hl : l.Nodup) : ∀ {s : St}, Ok s → (∀ fd ∈ l, (s.proc np).ofile fd = none) →
      wp (l.forM (forkFile p np)) E (fun _ s' => Ok s' ∧ SameDisk s s' ∧
        (s'.proc np).cwd = (s.proc np).cwd) s := by
  induction l with
  | nil => exact fun h _ => ⟨h, .refl _, rfl⟩
  | cons fd l ih =>
    intro s h hnone
    show wp (forkFile p np fd >>= fun _ => l.forM (forkFile p np)) E _ s
    rw [wp_bind]
    refine wp_imp (forkFile_spec h (hnone fd (by simp))) ?_
    rintro _ s₁ ⟨h₁, hdisk₁, hcwd₁, hother₁⟩
    rw [List.nodup_cons] at hl
    refine wp_imp (ih hl.2 h₁ fun fd' hmem => ?_) ?_
    · rw [hother₁ fd' (fun heq => hl.1 (heq ▸ hmem))]
      exact hnone fd' (List.mem_cons_of_mem fd hmem)
    · rintro _ s₂ ⟨h₂, hdisk₂, hcwd₂⟩
      exact ⟨h₂, hdisk₁.trans hdisk₂, hcwd₂.trans hcwd₁⟩

lemma forkFiles_spec (h : Ok s) (hE : E .kerneltrap) (hnp : (s.proc np).unused) :
    wp (forkFiles p np) E (fun _ s' => Ok s' ∧ SameDisk s s') s := by
  simp only [forkFiles, wp_bind]
  refine wp_imp (forkLoop_spec (List.nodup_finRange _) h fun fd _ => hnp.2 fd) ?_
  rintro _ s₁ ⟨h₁, hdisk₁, hcwd₁⟩
  simp only [cwd, wp_bind, wp_get]
  split
  · rename_i ip hip
    simp only [wp_pure, wp_idup, wp_modify]
    have href : 0 < s₁.ref ip := by
      have := held_cwd hip
      rw [h₁.refs.ref ip]
      omega
    rw [← iget_of_pos href]
    have hrefs := h₁.refs.iget (h₁.refs.bound ip href)
    have hset := Refs.setCwd (o := some ip) (p := np) (τ := []) hrefs fun i hi => by
      obtain rfl := Option.some.inj hi
      exact h₁.refs.held ip (held_cwd hip)
    rw [show ((s₁.iget ip).proc np).cwd = none from hcwd₁.trans hnp.1] at hset
    have hfiles : Files [] (s₁.iget ip) := h₁.files.congr rfl rfl
    exact ⟨⟨hset, hfiles.setCwd np (some ip)⟩, hdisk₁.trans ⟨rfl, rfl⟩⟩
  · exact hE

/-! ### `exit` -/

lemma iput_setProc (s : St) (i : Nat) (p : Fin NPROC) (x : Proc) :
    (s.iput i).setProc p x = (s.setProc p x).iput i := by
  by_cases hcond : s.ref i = 1 ∧ s.valid i = true ∧ (s.dinode i).nlink = 0
  · have hleft : s.iput i = _ := if_pos hcond
    have hright : (s.setProc p x).iput i = _ := if_pos hcond
    rw [hleft, hright]
    rfl
  · have hleft : s.iput i = _ := if_neg hcond
    have hright : (s.setProc p x).iput i = _ := if_neg hcond
    rw [hleft, hright]
    rfl

lemma fclose_setOfile (s : St) (f : Fin NFILE) (p : Fin NPROC) (fd : Fin NOFILE)
    (o : Option (Fin NFILE)) : (s.fclose f).setOfile p fd o = (s.setOfile p fd o).fclose f := by
  unfold St.setOfile
  rw [fclose_proc]
  by_cases hcond : (s.file f).ref = 1 ∧ ((s.file f).type = .inode ∨ (s.file f).type = .device)
  · have hleft : s.fclose f = _ := if_pos hcond
    have hright : (s.setProc p ((s.proc p).setOfile fd o)).fclose f = _ := if_pos hcond
    rw [hleft, hright, iput_setProc]
    rfl
  · have hleft : s.fclose f = _ := if_neg hcond
    have hright : (s.setProc p ((s.proc p).setOfile fd o)).fclose f = _ := if_neg hcond
    rw [hleft, hright]
    rfl

lemma exitFile_spec (h : Ok s) :
    wp (exitFile p fd) E (fun _ s' => Ok s' ∧ Freed s s') s := by
  simp only [exitFile, wp_bind, wp_get]
  split
  · exact ⟨h, .of_eq rfl rfl⟩
  · rename_i f hf
    have hfiles := h.files.take hf
    simp only [wp_bind, wp_fileclose (h.files.open_pos hf), wp_setOfile, fclose_setOfile]
    refine ⟨⟨(h.refs.setOfile p fd none).fclose hfiles.pos, hfiles.fclose⟩, ?_⟩
    have hset : Freed s (s.setOfile p fd none) := .of_eq rfl rfl
    exact hset.trans (freed_fclose _ f)

/-- The loop of `exit`. -/
lemma exitLoop_spec :
    ∀ {s : St}, Ok s → wp (l.forM (exitFile p)) E (fun _ s' => Ok s' ∧ Freed s s') s := by
  induction l with
  | nil => exact fun h => ⟨h, .of_eq rfl rfl⟩
  | cons fd l ih =>
    intro s h
    show wp (exitFile p fd >>= fun _ => l.forM (exitFile p)) E _ s
    rw [wp_bind]
    refine wp_imp (exitFile_spec h) ?_
    rintro _ s₁ ⟨h₁, hfreed₁⟩
    refine wp_imp (ih h₁) ?_
    rintro _ s₂ ⟨h₂, hfreed₂⟩
    exact ⟨h₂, hfreed₁.trans hfreed₂⟩

lemma exitFiles_spec (h : Ok s) (hE : E .kerneltrap) :
    wp (exitFiles p) E (fun _ s' => Ok s' ∧ Freed s s') s := by
  simp only [exitFiles, wp_bind]
  refine wp_imp (exitLoop_spec h) ?_
  rintro _ s₁ ⟨h₁, hfreed₁⟩
  simp only [cwd, wp_bind, wp_get]
  split
  · rename_i ip hip
    simp only [wp_pure, wp_iput, wp_modify, iput_proc, iput_setProc]
    have hset := Refs.setCwd (o := none) (p := p) (τ := []) h₁.refs (by simp)
    rw [hip] at hset
    have hdrop : Freed s₁ (s₁.setProc p ((s₁.proc p).setCwd none)) := .of_eq rfl rfl
    refine ⟨⟨hset.iput, ?_⟩, hfreed₁.trans (hdrop.trans (freed_iput _ ip))⟩
    exact (h₁.files.setCwd p none).congr (iput_file ..) (iput_proc ..)
  · exact hE

end Xv6.Fs
