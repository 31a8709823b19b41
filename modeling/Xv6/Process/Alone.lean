import Xv6.Process.Machine

/-!
# Calls that run alone

When no lock is held, a process can run through `fork`, `exit`, `waitx` or `kill`
without interference. What each of them does is the sequence of its steps.
-/

namespace Xv6.Process

open Function Lib

variable {s : St} {t i : Fin NPROC} {l l' : Pc}

/-- No lock is held. -/
def St.Quiet (s : St) : Prop := (∀ i, s.Free i) ∧ s.WaitFree

namespace St

lemma setPc_self (h : s.pc t = l) : s.setPc t l = s := by
  unfold setPc
  rw [← h, update_eq_self]

/-- A lock is free while only a thread moves that does not hold it. -/
lemma Quiet.free (h : s.Quiet) (hl : ¬ l.Holds t i) : (s.setPc t l).Free i := by
  intro u
  rw [setPc_pc]
  split_ifs with hu
  · rwa [hu]
  · exact h.1 i u

lemma Quiet.waitFree (h : s.Quiet) (hl : ¬ l.HoldsWait) : (s.setPc t l).WaitFree := by
  intro u
  rw [setPc_pc]
  split_ifs with hu
  · exact hl
  · exact h.2 u

end St

/-- The thread moves, and nothing else changes. -/
lemma Move.step (hrun : s.Running t) (hm : Move (s.setPc t l) t l l') :
    Step (s.setPc t l) .silent (s.setPc t l') := by
  have h := Step.move (s := s.setPc t l) (l := l') t hrun (by simpa [St.setPc_pc] using hm)
  rwa [St.setPc_setPc] at h

def slotOne : Fin NPROC := 1

/-- A process has been made in slot 1. -/
def St.forked (s : St) : St :=
  { s.setSlot slotOne { s.slot slotOne with pid := int32 s.nextpid, state := .used } with
    nextpid := s.nextpid + 1 }

/-- The child in slot 1 runs. -/
def St.begun (s : St) : St :=
  s.setSlot slotOne { (s.slot slotOne).clearTimes s.ticks with
    parent := some initproc, chan := none, state := .running }

section

variable (hq : s.Quiet) (hrun : s.Running initproc) (hpc : s.pc initproc = .user)

include hq hrun hpc

/-- `initproc` makes a process. -/
lemma fork_run (hone : (s.slot slotOne).state = .unused) :
    Run Step s [.created slotOne (int32 s.nextpid), .numbered, .silent, .silent, .silent]
      (s.forked.setPc initproc (.used slotOne)) := by
  have hused : (s.slot initproc).state ≠ .unused := by
    rw [hrun]
    decide
  have h₁ := Move.step hrun .fork
  rw [St.setPc_self hpc] at h₁
  have h₂ := Move.step hrun (.scanNext initproc (hq.free (l := .scan 0) id) hused)
  have h₃ := Move.step hrun (.scanFound slotOne (hq.free (l := .scan 1) id) hone)
  have h₄ := Step.allocpid (s := s.setPc initproc (.found slotOne)) initproc slotOne hrun
    (by simp [St.setPc_pc])
  have h₅ := Step.setUsed (s := { s.setPc initproc (.numbered slotOne (int32 s.nextpid)) with
    nextpid := s.nextpid + 1 }) initproc slotOne (int32 s.nextpid) hrun (by simp [St.setPc_pc])
  rw [St.setPc_setPc] at h₄
  have h := ((((Run.single h₁).snoc h₂).snoc h₃).snoc h₄).snoc h₅
  simpa [St.setPc, St.setSlot, St.forked] using h

/-- The rest of `fork`, after which the child runs. -/
lemma begun_run (hone : s.pc slotOne = .user) :
    Run Step (s.setPc initproc (.used slotOne)) [.silent, .silent, .silent, .silent, .silent]
      s.begun := by
  let s₁ := s.setSlot slotOne ((s.slot slotOne).clearTimes s.ticks)
  let s₂ := s₁.setSlot slotOne { s₁.slot slotOne with parent := some initproc }
  let s₃ := s₂.setSlot slotOne { s₂.slot slotOne with state := .runnable }
  have hrun₁ : s₁.Running initproc := hrun
  have h₁ := Step.allocDone (s := s.setPc initproc (.used slotOne)) initproc slotOne hrun
    (by simp [St.setPc_pc])
  have h₂ := Move.step hrun₁ (.copied slotOne)
  have h₃ := Step.link (s := s₁.setPc initproc (.linking slotOne)) initproc slotOne hrun
    (by simp [St.setPc_pc]) (St.Quiet.waitFree (s := s₁) hq id)
  have h₄ := Step.start (s := s₂.setPc initproc (.starting slotOne)) initproc slotOne hrun
    (by simp [St.setPc_pc]) (St.Quiet.free (s := s₂) hq id)
  have h₅ := Step.schedule (s := s₃) slotOne (by simp [s₃]) (hq.1 slotOne)
  have hself : (s.setPc initproc (.copying slotOne)).setPc slotOne .user
      = s.setPc initproc (.copying slotOne) := by
    refine St.setPc_self ?_
    rwa [St.setPc_pc, if_neg (by decide)]
  rw [St.setPc_setPc, hself] at h₁
  rw [St.setPc_setPc] at h₃
  rw [St.setPc_setPc, St.setPc_self (s := s₂) hpc] at h₄
  have h := ((((Run.single h₁).snoc h₂).snoc h₃).snoc h₄).snoc h₅
  simpa [s₃, s₂, s₁, St.setSlot, St.begun] using h

end

/-- Nobody who sleeps is met in `wakeup`. -/
lemma wakeParent_step (hq : s.Quiet) (hrun : s.Running t)
    (hawake : ∀ i, (s.slot i).state ≠ .sleeping) (q : Option (Fin NPROC)) (k : Nat)
    (hk : k < NPROC) :
    Step (s.setPc t (.wakingParent 0 q k)) .silent (s.setPc t (.wakingParent 0 q (k + 1))) := by
  by_cases hkt : (⟨k, hk⟩ : Fin NPROC) = t
  · subst hkt
    exact Move.step hrun (.wakeParentSelf 0 q)
  · have h := Step.wakeParent (s := s.setPc t (.wakingParent 0 q k)) t ⟨k, hk⟩ 0 q hrun
      (by simp [St.setPc_pc]) hkt (hq.free id)
    have hsame : (s.slot ⟨k, hk⟩).wakeup (q.map .proc) = s.slot ⟨k, hk⟩ :=
      if_neg fun hc => hawake _ hc.1
    simpa [hsame, St.setSlot, St.setPc] using h

/-- A process without children exits while nobody sleeps. -/
lemma exit_run (hq : s.Quiet) (hrun : s.Running t) (hpc : s.pc t = .user) (ht : t ≠ initproc)
    (hchild : ∀ i, (s.slot i).parent ≠ some t) (hawake : ∀ i, (s.slot i).state ≠ .sleeping) :
    Run Step s (.silent :: .silent :: .exited t (s.slot t).pid 0 ::
        (List.replicate NPROC .silent ++ .silent ::
          (List.replicate NPROC .silent ++ [.silent, .silent])))
      ((s.setPc t .gone).setSlot t ((s.slot t).exit 0 s.ticks)) := by
  have h₁ := Move.step hrun (.exit 0 ht)
  rw [St.setPc_self hpc] at h₁
  have h₂ := Move.step hrun (.exitLock 0 (hq.waitFree (l := .closing 0) id))
  have h₃ := Run.iterate (g := fun j => s.setPc t (.reparenting 0 j)) NPROC fun j hj =>
    Move.step hrun (.reparentSkip 0 ⟨j, hj⟩ (hchild _))
  have h₄ := Move.step hrun (.reparentDone 0)
  have h₅ := Run.iterate (g := fun k => s.setPc t (.wakingParent 0 (s.slot t).parent k)) NPROC
    (wakeParent_step hq hrun hawake _)
  have h₆ := Step.die (s := s.setPc t (.wakingParent 0 (s.slot t).parent NPROC)) t 0
    (s.slot t).parent hrun (by simp [St.setPc_pc]) (hq.free id)
  let dead := s.setSlot t ((s.slot t).exit 0 s.ticks)
  have h₇ := Step.deadRelease (s := dead.setPc t .dead) t (by simp [St.setPc_pc])
  have h₈ := Step.deadSwitch (s := dead.setPc t .switching) t (by simp [St.setPc_pc])
  rw [St.setPc_setPc] at h₆ h₇ h₈
  exact ((((((Run.single h₁).snoc h₂).trans h₃).snoc h₄).trans h₅).snoc h₆).snoc h₇ |>.snoc h₈

/-- `initproc` finds the zombie in `waitx`. -/
lemma waitx_run (hq : s.Quiet) (hrun : s.Running initproc) (hpc : s.pc initproc = .user)
    (hroot : (s.slot initproc).parent ≠ some initproc) (hone : (s.slot slotOne).state = .zombie)
    (hparent : (s.slot slotOne).parent = some initproc) :
    Run Step s [.silent, .silent, .silent, .silent]
      (s.setPc initproc (.reaping true slotOne)) := by
  have h₁ := Move.step hrun (.wait true)
  rw [St.setPc_self hpc] at h₁
  have h₂ := Move.step hrun (.waitLock true (hq.waitFree (l := .waiting true) id))
  have h₃ := Move.step hrun (.lookOther true false initproc hroot)
  have h₄ := Move.step hrun (.lookZombie true false slotOne hparent
    (hq.free (l := .looking true 1 false) id) hone)
  exact (((Run.single h₁).snoc h₂).snoc h₃).snoc h₄

/-- The child in slot 1 has exited, and `initproc` has found it in `waitx`. -/
def St.found (s : St) : St :=
  ((s.setPc slotOne .gone).setSlot slotOne ((s.slot slotOne).exit 0 s.ticks)).setPc initproc
    (.reaping true slotOne)

lemma found_run (hq : s.Quiet) (hinit : s.Running initproc) (hone : s.Running slotOne)
    (hpc : ∀ t, s.pc t = .user) (hparent : (s.slot slotOne).parent = some initproc)
    (hroot : (s.slot initproc).parent ≠ some initproc)
    (hchild : ∀ i, (s.slot i).parent ≠ some slotOne)
    (hawake : ∀ i, (s.slot i).state ≠ .sleeping) :
    Run Step s (List.replicate 6 .silent ++ .exited slotOne (s.slot slotOne).pid 0 ::
      List.replicate (2 * NPROC + 3) .silent) s.found := by
  have hexit := exit_run hq hone (hpc slotOne) (by decide) hchild hawake
  have hgone : (s.setPc slotOne .gone).Quiet := ⟨fun _ => hq.free id, hq.waitFree id⟩
  exact hexit.trans (waitx_run (s := (s.setPc slotOne .gone).setSlot slotOne _) hgone hinit
    (hpc initproc) hroot rfl hparent)

/-- `initproc` runs. -/
def started : St := boot.setSlot initproc { Slot.first with state := .running }

lemma quiet_boot : boot.Quiet := ⟨fun _ _ => id, fun _ => id⟩

lemma started_run : Run Step boot [.silent] started :=
  Run.single (Step.schedule initproc rfl (quiet_boot.1 initproc))

end Xv6.Process
