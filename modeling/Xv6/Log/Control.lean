import Xv6.Log.Machine

/-!
# Who may use the log

Operations and commits exclude each other: `log.outstanding` counts the operations, one thread at
most commits, and it does so while `log.committing` is set and no operation is outstanding.
-/

namespace Xv6.Log

open Function Lib

variable {n : Nat} {g : Geometry} {s s' : St n} {e : Event n} {t : Fin n} {d : Nat → Block}
  {tr : List (Event n)} {l : Pc}

/-- The operations that a thread contributes to `log.outstanding`. -/
@[simp] def Pc.ops : Pc → Nat
  | .inOp _ => 1
  | _ => 0

/-- The recovery at boot has not returned. -/
@[simp] def Phase.Boots : Phase → Prop
  | .up | .panicked _ => False
  | _ => True

structure Control (s : St n) : Prop where
  boots : s.phase.Boots → s.committing = false ∧ ∀ t, s.pc t = .idle
  excl : Excl (fun _ l => l.Commits) s.pc
  commits : ∀ t, (s.pc t).Commits → s.committing = true
  alone : s.committing = true → ∀ t, ¬ (s.pc t).InOp
  outstanding : s.outstanding = total Pc.ops s.pc
  logged : ∀ t, ∀ b ∈ (s.pc t).logged, b ∈ s.lh

lemma Pc.InOp.ops (h : l.InOp) : l.ops = 1 := by
  cases l <;> simp_all

lemma Pc.ops_eq_zero (h : ¬ l.InOp) : l.ops = 0 := by
  cases l <;> simp_all

lemma Pc.Commits.not_inOp (h : l.Commits) : ¬ l.InOp := by
  cases l <;> simp_all

lemma Pc.logged_of_not_inOp (h : ¬ l.InOp) : l.logged = ∅ := by
  cases l <;> simp_all

/-- Nobody commits while an operation is under way. -/
lemma Control.not_committing (h : Control s) (ht : (s.pc t).InOp) : s.committing = false := by
  rw [← Bool.not_eq_true]
  intro hc
  exact h.alone hc t ht

lemma Control.not_commits (h : Control s) (ht : (s.pc t).InOp) (u : Fin n) :
    ¬ (s.pc u).Commits := by
  intro hu
  have hc := h.commits u hu
  rw [h.not_committing ht] at hc
  contradiction

lemma Control.boot : Control (St.boot d : St n) where
  boots := fun _ => ⟨rfl, fun _ => rfl⟩
  excl := fun _ _ hu => hu.elim
  commits := fun _ ht => ht.elim
  alone := fun h => by simp [St.boot] at h
  outstanding := by simp [St.boot, total]
  logged := fun _ _ hb => by simp [St.boot] at hb

/-- Nothing changes but buffers, blocks and the phase. -/
lemma Control.congr (h : Control s) (hpc : s'.pc = s.pc) (hcommit : s'.committing = s.committing)
    (hout : s'.outstanding = s.outstanding) (hlh : s'.lh = s.lh)
    (hphase : s'.phase.Boots → s.phase.Boots) : Control s' where
  boots := fun hb => by
    rw [hpc, hcommit]
    exact h.boots (hphase hb)
  excl := hpc ▸ h.excl
  commits := by
    rw [hpc, hcommit]
    exact h.commits
  alone := by
    rw [hpc, hcommit]
    exact h.alone
  outstanding := by
    rw [hpc, hout]
    exact h.outstanding
  logged := by
    rw [hpc, hlh]
    exact h.logged

/-- The recovery reads or clears the header. -/
lemma Control.reload (h : Control s) (hboot : s.phase.Boots) (hpc : s'.pc = s.pc)
    (hcommit : s'.committing = s.committing) (hout : s'.outstanding = s.outstanding) :
    Control s' where
  boots := fun _ => by
    rw [hpc, hcommit]
    exact h.boots hboot
  excl := hpc ▸ h.excl
  commits := by
    rw [hpc, hcommit]
    exact h.commits
  alone := by
    rw [hpc, hcommit]
    exact h.alone
  outstanding := by
    rw [hpc, hout]
    exact h.outstanding
  logged := by
    intro t b hb
    rw [hpc, (h.boots hboot).2 t] at hb
    simp at hb

/-- The thread that commits moves on, and may clear the header. -/
lemma Control.move (h : Control s) (hup : s'.phase = .up) (ht : (s.pc t).Commits) (hl : l.Commits)
    (hpc : s'.pc = update s.pc t l) (hcommit : s'.committing = s.committing)
    (hout : s'.outstanding = s.outstanding) : Control s' where
  boots := by simp [hup]
  excl := hpc ▸ h.excl.update fun _ => .inl ht
  commits := fun _ _ => hcommit.trans (h.commits t ht)
  alone := by
    intro _ u
    rw [hpc, update_apply]
    split
    · exact hl.not_inOp
    · exact h.alone (h.commits t ht) u
  outstanding := by
    have htotal := total_update Pc.ops s.pc t l
    rw [Pc.ops_eq_zero ht.not_inOp, Pc.ops_eq_zero hl.not_inOp] at htotal
    rw [hout, hpc, h.outstanding]
    omega
  logged := by
    intro u b hb
    have hnone : ¬ (s'.pc u).InOp := by
      rw [hpc, update_apply]
      split
      · exact hl.not_inOp
      · exact h.alone (h.commits t ht) u
    rw [Pc.logged_of_not_inOp hnone] at hb
    simp at hb

lemma Control.beginOp (h : Control s) (hup : s.phase = .up) (hpc : s.pc t = .idle)
    (hcommit : s.committing = false) :
    Control { s.setPc t (.inOp ∅) with outstanding := s.outstanding + 1 } where
  boots := by simp [hup]
  excl := h.excl.update fun hl => hl.elim
  commits := by
    intro u hu
    by_cases hut : u = t
    · simp [hut, St.setPc] at hu
    · simp only [St.setPc, update_of_ne hut] at hu
      exact h.commits u hu
  alone := by simp [hcommit]
  outstanding := by
    have htotal := total_update Pc.ops s.pc t (.inOp ∅)
    simp only [hpc, Pc.ops, Nat.add_zero] at htotal
    simp [St.setPc, htotal, h.outstanding]
  logged := by
    intro u b hb
    by_cases hut : u = t
    · simp [hut, St.setPc] at hb
    · simp only [St.setPc, update_of_ne hut] at hb
      exact h.logged u b hb

section

variable {logged : Finset Nat} {b : Nat}

@[simp] lemma logWrite_disk : (s.logWrite t logged b).disk = s.disk := by
  unfold St.logWrite
  split <;> rfl

@[simp] lemma logWrite_phase : (s.logWrite t logged b).phase = s.phase := by
  unfold St.logWrite
  split <;> rfl

@[simp] lemma logWrite_committing : (s.logWrite t logged b).committing = s.committing := by
  unfold St.logWrite
  split <;> rfl

@[simp] lemma logWrite_outstanding : (s.logWrite t logged b).outstanding = s.outstanding := by
  unfold St.logWrite
  split <;> rfl

lemma logWrite_pc :
    (s.logWrite t logged b).pc = update s.pc t (.inOp (insert b logged)) := by
  unfold St.logWrite
  split <;> rfl

lemma logWrite_lh : (s.logWrite t logged b).lh = if b ∈ s.lh then s.lh else s.lh ++ [b] := by
  unfold St.logWrite
  split <;> rfl

end

lemma Control.logWrite {logged : Finset Nat} {b : Nat} (h : Control s) (hup : s.phase = .up)
    (hpc : s.pc t = .inOp logged) : Control (s.logWrite t logged b) := by
  have hlh : ∀ c, c = b ∨ c ∈ s.lh → c ∈ (s.logWrite t logged b).lh := by
    intro c hc
    rw [logWrite_lh]
    split
    · rename_i hb
      exact hc.elim (fun h => h ▸ hb) id
    · exact List.mem_append.mpr (hc.symm.imp id (by simp))
  have hcommit := h.not_committing (t := t) (by simp [hpc])
  exact {
    boots := by simp [hup]
    excl := logWrite_pc (s := s) ▸ h.excl.update fun hl => hl.elim
    commits := by
      intro u hu
      by_cases hut : u = t
      · simp [logWrite_pc, hut] at hu
      · rw [logWrite_pc, update_of_ne hut] at hu
        rw [logWrite_committing]
        exact h.commits u hu
    alone := by simp [hcommit]
    outstanding := by
      have htotal := total_update Pc.ops s.pc t (.inOp (insert b logged))
      simp only [hpc, Pc.ops, Nat.add_right_cancel_iff] at htotal
      rw [logWrite_outstanding, logWrite_pc, htotal, h.outstanding]
    logged := by
      intro u c hc
      by_cases hut : u = t
      · simp only [logWrite_pc, hut, update_self, Pc.logged, Finset.mem_insert] at hc
        refine hlh c (hc.imp id fun hc => h.logged t c ?_)
        simpa [hpc] using hc
      · rw [logWrite_pc, update_of_ne hut] at hc
        exact hlh c (.inr (h.logged u c hc)) }

/-- An operation ends, with or without a commit. -/
lemma Control.endOp {c : Bool} (h : Control s) (hup : s.phase = .up) (hpc : (s.pc t).InOp)
    (hl : ¬ l.InOp) (hc : l.Commits ↔ c = true) (hlast : c = true → s.outstanding - 1 = 0) :
    Control { s.setPc t l with outstanding := s.outstanding - 1, committing := c } := by
  have htotal := total_update Pc.ops s.pc t l
  rw [hpc.ops, Pc.ops_eq_zero hl] at htotal
  have hout : s.outstanding - 1 = total Pc.ops (update s.pc t l) := by
    rw [h.outstanding]
    omega
  exact {
    boots := by simp [hup]
    excl := h.excl.update fun _ => .inr fun u _ => h.not_commits hpc u
    commits := by
      intro u hu
      by_cases hut : u = t
      · exact hc.mp (by simpa [hut, St.setPc] using hu)
      · simp only [St.setPc, update_of_ne hut] at hu
        exact (h.not_commits hpc u hu).elim
    alone := by
      intro hcommit u hu
      have hzero := total_eq_zero.mp (hout.symm.trans (hlast hcommit)) u
      exact absurd (hu.ops.symm.trans hzero) (by decide)
    outstanding := hout
    logged := by
      intro u b hb
      by_cases hut : u = t
      · simp only [hut, St.setPc, update_self] at hb
        rw [Pc.logged_of_not_inOp hl] at hb
        simp at hb
      · simp only [St.setPc, update_of_ne hut] at hb
        exact h.logged u b hb }

lemma Control.finish (h : Control s) (hup : s.phase = .up) (hpc : s.pc t = .finish) :
    Control { s.setPc t .idle with committing := false } := by
  have ht : (s.pc t).Commits := by simp [hpc]
  exact {
    boots := by simp [hup]
    excl := h.excl.update fun hl => hl.elim
    commits := by
      intro u hu
      by_cases hut : u = t
      · simp [hut, St.setPc] at hu
      · simp only [St.setPc, update_of_ne hut] at hu
        exact (hut (h.excl u t hu ht)).elim
    alone := by simp
    outstanding := by
      have htotal := total_update Pc.ops s.pc t .idle
      simp only [hpc, Pc.ops, Nat.add_zero] at htotal
      simp [St.setPc, htotal, h.outstanding]
    logged := by
      intro u b hb
      by_cases hut : u = t
      · simp [hut, St.setPc] at hb
      · simp only [St.setPc, update_of_ne hut] at hb
        exact h.logged u b hb }

/-- The counters and positions stay consistent. -/
lemma Control.step (h : Control s) (hstep : Step g s e s') : Control s' := by
  cases hstep with
  | readHead hp => exact h.reload (by simp [hp]) rfl rfl rfl
  | recoverInstall _ _ hp => exact h.congr rfl rfl rfl rfl (by simp [hp])
  | recoverInstalled hp => exact h.reload (by simp [hp]) rfl rfl rfl
  | recoverClear hp => exact h.congr rfl rfl rfl rfl (by simp [hp])
  | recovered hp => exact h.congr rfl rfl rfl rfl (by simp)
  | crash => exact .boot
  | recycle | bread | brelse | modify => exact h.congr rfl rfl rfl rfl id
  | beginOp t hp hpc hcommit => exact h.beginOp hp hpc hcommit
  | logWrite t logged b hp hpc => exact h.logWrite hp hpc
  | logWriteTooBig | logWriteOutside | endOpPanic =>
    exact h.congr rfl rfl rfl rfl (by simp)
  | endOp t hp hpc _ hcommit =>
    have hend := h.endOp (l := .idle) (c := false) hp hpc (by simp) (by simp) (by simp)
    rwa [← hcommit] at hend
  | endOpCommit t hp hpc _ _ hout =>
    exact h.endOp hp hpc (by simp) (by simp) fun _ => hout
  | commitEmpty t hp hpc | commitStart t hp hpc | writeLog t _ _ hp hpc | writeLogDone t hp hpc
  | writeHead t hp hpc | install t _ _ hp hpc | installed t hp hpc | clear t hp hpc =>
    exact h.move hp (by simp [hpc]) (by simp) rfl rfl rfl
  | finish t hp hpc => exact h.finish hp hpc

lemma control_run (h : Run (Step g) (St.boot d) tr s) : Control s :=
  h.invariant (I := fun _ s => Control s) .boot fun _ _ _ _ hs hstep => hs.step hstep

end Xv6.Log
