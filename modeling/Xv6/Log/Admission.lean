import Xv6.Log.Control

/-!
# Space for the operations in the log

`begin_op` reserves `MAXOPBLOCKS` entries for each operation, up to `LOGSIZE` entries in all. The
log that `mkfs` makes has `LOGSIZE` blocks, one of them the header, and `log_write` refuses the last
one even to a block that it would absorb.
-/

namespace Xv6.Log

open Function Lib

variable {n : Nat} {g : Geometry} {s s' : St n} {e : Event n} {t : Fin n} {d : Nat → Block}
  {tr : List (Event n)} {K : Nat}

/-- The log of the image that `mkfs` writes. -/
def mkfs : Geometry := ⟨2, LOGSIZE, by decide⟩

/-- An operation logs at most `K` distinct blocks. -/
def Small (K : Nat) (s : St n) (e : Event n) : Prop :=
  ∀ t b, e = .logWrite t b → (insert b (s.pc t).logged).card ≤ K

/-- With `K` entries for each operation two of `LOGSIZE` are left when `begin_op` admits one. -/
def Spare (K : Nat) (s : St n) (e : Event n) : Prop :=
  ∀ t, e = .beginOp t → s.lh.length + (s.outstanding + 1) * K + 2 ≤ LOGSIZE

def SmallStep (K : Nat) (g : Geometry) (s : St n) (e : Event n) (s' : St n) : Prop :=
  Step g s e s' ∧ Small K s e

def SpareStep (K : Nat) (g : Geometry) (s : St n) (e : Event n) (s' : St n) : Prop :=
  SmallStep K g s e s' ∧ Spare K s e

/-! ### Reservations -/

/-- The entries that the operation of a thread may still need. -/
@[simp] def Pc.reserved (K : Nat) : Pc → Nat
  | .inOp logged => K - logged.card
  | _ => 0

lemma Pc.reserved_le (l : Pc) : l.reserved K ≤ l.ops * K := by
  cases l <;> simp

lemma Pc.reserved_of_not_inOp {l : Pc} (h : ¬ l.InOp) : l.reserved K = 0 := by
  cases l <;> simp_all

/-- The entries in use and those reserved. -/
def St.claimed (K : Nat) (s : St n) : Nat := s.lh.length + total (Pc.reserved K) s.pc

def Room (K : Nat) (s : St n) : Prop :=
  match s.phase with
  | .booting | .recovering _ => True
  | .clearing | .recovered | .up => s.claimed K + 2 ≤ LOGSIZE
  | .panicked p => p ≠ .tooBig

/-- Without operations only the entries in use count. -/
lemma claimed_idle (h : ∀ t, ¬ (s.pc t).InOp) : s.claimed K = s.lh.length := by
  have hzero : total (Pc.reserved K) s.pc = 0 :=
    total_eq_zero.mpr fun t => Pc.reserved_of_not_inOp (h t)
  rw [St.claimed, hzero, Nat.add_zero]

lemma Control.no_ops (h : Control s) (hboot : s.phase.Boots) (t : Fin n) : ¬ (s.pc t).InOp := by
  simp [(h.boots hboot).2 t]

lemma claimed_update {l : Pc} (hlh : s'.lh = s.lh) (hpc : s'.pc = update s.pc t l) :
    s'.claimed K + (s.pc t).reserved K = s.claimed K + l.reserved K := by
  have htotal := total_update (Pc.reserved K) s.pc t l
  unfold St.claimed
  rw [hlh, hpc]
  omega

/-- An entry is added only for a block that is new to the operation as well. -/
lemma claimed_logWrite {logged : Finset Nat} {b : Nat} (hs : Control s)
    (hpc : s.pc t = .inOp logged) (hsmall : (insert b logged).card ≤ K) :
    (s.logWrite t logged b).claimed K ≤ s.claimed K := by
  have htotal := total_update (Pc.reserved K) s.pc t (.inOp (insert b logged))
  rw [hpc] at htotal
  simp only [Pc.reserved] at htotal
  have hcard : logged.card ≤ (insert b logged).card :=
    Finset.card_le_card (Finset.subset_insert b logged)
  unfold St.claimed
  rw [logWrite_lh, logWrite_pc]
  split
  · omega
  · rename_i hb
    have hnew : b ∉ logged := by
      intro hmem
      exact hb (hs.logged t b (by simpa [hpc] using hmem))
    rw [Finset.card_insert_of_notMem hnew] at hsmall htotal
    rw [List.length_append, List.length_singleton]
    omega

/-- A thread leaves its operation, or was in none. -/
lemma claimed_leave {l : Pc} (hlh : s'.lh.length ≤ s.lh.length)
    (hpc : s'.pc = update s.pc t l) (hl : l.reserved K = 0) : s'.claimed K ≤ s.claimed K := by
  have htotal := total_update (Pc.reserved K) s.pc t l
  unfold St.claimed
  rw [hpc]
  omega

/-- No more entries are claimed than before. -/
lemma Room.of_le (h : Room K s) (hp : s.phase = .up) (hp' : s'.phase = .up)
    (hle : s'.claimed K ≤ s.claimed K) : Room K s' := by
  unfold Room at h ⊢
  rw [hp] at h
  rw [hp']
  exact (Nat.add_le_add_right hle 2).trans h

lemma Room.step (hg : g.size = LOGSIZE) (hs : Control s) (h : Room K s)
    (hstep : SpareStep K g s e s') : Room K s' := by
  obtain ⟨⟨hstep, hsmall⟩, hspare⟩ := hstep
  have hs' := hs.step hstep
  cases hstep with
  | readHead | recoverInstall | crash => trivial
  | recoverInstalled hp =>
    have hclaimed : St.claimed K { s with lh := [], phase := .clearing } = 0 :=
      claimed_idle (hs'.no_ops (by simp))
    show St.claimed K { s with lh := [], phase := .clearing } + 2 ≤ LOGSIZE
    rw [hclaimed]
    decide
  | recoverClear hp | recovered hp =>
    unfold Room at h
    rw [hp] at h
    exact h
  | recycle _ hp | bread _ _ hp | brelse _ _ hp | modify _ _ _ hp =>
    exact h.of_le hp hp le_rfl
  | beginOp t hp hpc =>
    have hspare := hspare t rfl
    rw [Nat.add_mul, Nat.one_mul] at hspare
    have hle := total_le_mul (Pc.reserved_le (K := K)) s.pc
    rw [← hs.outstanding] at hle
    have hclaimed : (s.setPc t (.inOp ∅)).claimed K + _ = s.claimed K + _ := claimed_update rfl rfl
    rw [hpc, St.claimed, St.claimed] at hclaimed
    simp only [Pc.reserved, Finset.card_empty, Nat.sub_zero] at hclaimed
    have hup : Room K (s.setPc t (.inOp ∅)) := by
      unfold Room
      simp only [St.setPc_phase, hp, St.claimed]
      omega
    exact hup.of_le hp hp le_rfl
  | logWrite t logged b hp hpc =>
    have hsmall := hsmall t b rfl
    rw [hpc] at hsmall
    exact h.of_le hp (logWrite_phase.trans hp) (claimed_logWrite hs hpc hsmall)
  | logWriteTooBig t b hp hpc hown hhome hsize =>
    unfold Room at h
    rw [hp] at h
    unfold St.claimed at h
    unfold St.TooBig at hsize
    omega
  | logWriteOutside | endOpPanic => simp [Room]
  | endOp t hp hpc | endOpCommit t hp hpc | commitEmpty t hp hpc | commitStart t hp hpc
  | writeLogDone t hp hpc | installed t hp hpc | finish t hp hpc | writeLog t _ _ hp hpc
  | writeHead t hp hpc | install t _ _ hp hpc =>
    exact h.of_le hp hp (claimed_leave le_rfl rfl rfl)
  | clear t hp hpc => exact h.of_le hp hp (claimed_leave (Nat.zero_le _) rfl rfl)

/-- **Space in the log.** With the log of `mkfs`, if every operation logs at most `K` distinct
blocks and `begin_op` admits an operation only if two entries of `LOGSIZE` are left over, with `K`
for each operation, then no `log_write` finds the transaction too big. -/
theorem log_has_room (d : Nat → Block) (tr : List (Event n)) (s : St n)
    (h : Run (SpareStep K mkfs) (St.boot d) tr s) : s.phase ≠ .panicked .tooBig := by
  have hroom := h.invariant (I := fun _ s => Control s ∧ Room K s) ⟨.boot, trivial⟩
    fun _ _ _ _ hI hstep => ⟨hI.1.step hstep.1.1, hI.2.step rfl hI.1 hstep⟩
  intro hp
  have hne := hroom.2
  unfold Room at hne
  rw [hp] at hne
  exact hne rfl

lemma SpareStep.of_other (h : Step g s e s') (hw : ∀ t b, e ≠ .logWrite t b)
    (hb : ∀ t, e ≠ .beginOp t) : SpareStep K g s e s' :=
  ⟨⟨h, fun t b he => (hw t b he).elim⟩, fun t he => (hb t he).elim⟩

lemma SpareStep.beginOp (h : Step g s (.beginOp t) s')
    (hK : s.lh.length + (s.outstanding + 1) * K + 2 ≤ LOGSIZE) :
    SpareStep K g s (.beginOp t) s' :=
  ⟨⟨h, by simp [Small]⟩, fun _ _ => hK⟩

lemma SpareStep.logWrite {b : Nat} (h : Step g s (.logWrite t b) s')
    (hK : (insert b (s.pc t).logged).card ≤ K) : SpareStep K g s (.logWrite t b) s' := by
  refine ⟨⟨h, fun u c he => ?_⟩, by simp [Spare]⟩
  obtain ⟨rfl, rfl⟩ := Event.logWrite.inj he
  exact hK

/-- Three operations at once, two of which have logged the same block. -/
theorem log_has_room_three : ∃ (tr : List (Event 3)) (s : St 3),
    Run (SpareStep 9 mkfs) (St.boot fun _ _ => 0) tr s ∧ s.outstanding = 3 ∧ s.lh = [40, 41] ∧
      s.phase ≠ .panicked .tooBig := by
  have hinit : Run (SpareStep 9 mkfs) (St.boot fun _ _ => 0 : St 3) [] _ := .nil
  have hrun := hinit
    |>.snoc (.of_other (.readHead rfl) (by simp) (by simp))
    |>.snoc (.of_other (.recoverInstalled rfl) (by simp) (by simp))
    |>.snoc (.of_other (.recoverClear rfl) (by simp) (by simp))
    |>.snoc (.of_other (.recovered rfl) (by simp) (by simp))
    |>.snoc (.beginOp (.beginOp 0 rfl rfl rfl (by decide)) (by decide))
    |>.snoc (.beginOp (.beginOp 1 rfl rfl rfl (by decide)) (by decide))
    |>.snoc (.beginOp (.beginOp 2 rfl rfl rfl (by decide)) (by decide))
    |>.snoc (.of_other (.bread 0 40 rfl (fun h => h) rfl) (by simp) (by simp))
    |>.snoc (.logWrite (.logWrite 0 ∅ 40 rfl rfl rfl (.inr (by decide))
      (not_or.mpr ⟨by decide, by decide⟩) (by decide)) (by decide))
    |>.snoc (.of_other (.brelse 0 40 rfl rfl rfl) (by simp) (by simp))
    |>.snoc (.of_other (.bread 1 40 rfl (fun h => h) rfl) (by simp) (by simp))
    |>.snoc (.logWrite (.logWrite 1 ∅ 40 rfl rfl rfl (.inr (by decide))
      (not_or.mpr ⟨by decide, by decide⟩) (by decide)) (by decide))
    |>.snoc (.of_other (.bread 2 41 rfl (fun h => h) rfl) (by simp) (by simp))
    |>.snoc (.logWrite (.logWrite 2 ∅ 41 rfl rfl rfl (.inr (by decide))
      (not_or.mpr ⟨by decide, by decide⟩) (by decide)) (by decide))
  exact ⟨_, _, hrun, rfl, rfl, log_has_room _ _ _ hrun⟩

/-! ### Three operations that fill the log -/

/-- Thread `t` reads block `b` and logs it. -/
def St.log (s : St n) (t : Fin n) (b : Nat) : St n :=
  (s.setBuf b { s.bread b with owner := some t }).logWrite t (s.pc t).logged b

/-- Thread `t` is in an operation that may log block `b`, which nobody uses. -/
def Ready (s : St n) (t : Fin n) (b : Nat) : Prop :=
  s.phase = .up ∧ (s.pc t).InOp ∧ (s.bread b).owner = none ∧ mkfs.Home b ∧
    (insert b (s.pc t).logged).card ≤ MAXOPBLOCKS

instance (l : Pc) : Decidable l.InOp := by
  cases l <;> unfold Pc.InOp <;> infer_instance

instance (s : St n) (t : Fin n) (b : Nat) : Decidable (Ready s t b) := by
  unfold Ready Geometry.Home
  infer_instance

instance (s : St n) : Decidable (s.TooBig g) := inferInstanceAs (Decidable (_ ∨ _))

section

variable {b : Nat} (h : Ready s t b)

include h

lemma read_run : Run (SmallStep MAXOPBLOCKS mkfs) s [.silent]
    (s.setBuf b { s.bread b with owner := some t }) := by
  obtain ⟨hup, hop, hfree, -⟩ := h
  refine Run.single ⟨.bread t b hup (fun hc => ?_) hfree, by simp [Small]⟩
  cases hpc : s.pc t <;> simp_all

lemma small_logWrite : Small MAXOPBLOCKS (s.setBuf b { s.bread b with owner := some t })
    (.logWrite t b) := by
  intro u c he
  obtain ⟨rfl, rfl⟩ := Event.logWrite.inj he
  exact h.2.2.2.2

lemma log_run (hsize : ¬ s.TooBig mkfs) (hout : 1 ≤ s.outstanding) :
    Run (SmallStep MAXOPBLOCKS mkfs) s [.logWrite t b, .silent] (s.log t b) := by
  have hpc : s.pc t = .inOp (s.pc t).logged := by
    have hop := h.2.1
    cases hpc : s.pc t <;> simp_all
  exact (read_run h).snoc ⟨.logWrite t _ b h.1 hpc (by simp [St.setBuf_bread]) h.2.2.2.1 hsize hout,
    small_logWrite h⟩

lemma tooBig_run {s₀ : St n} (hsize : s.TooBig mkfs)
    (hrun : Run (SmallStep MAXOPBLOCKS mkfs) s₀ tr s) :
    ∃ tr s', Run (SmallStep MAXOPBLOCKS mkfs) s₀ tr s' ∧ s'.phase = .panicked .tooBig := by
  have hpanic := Step.logWriteTooBig (g := mkfs)
    (s := s.setBuf b { s.bread b with owner := some t })
    t b h.1 h.2.1 (by simp [St.setBuf_bread]) h.2.2.2.1 hsize
  exact ⟨_, _, (hrun.trans (read_run h)).snoc ⟨hpanic, small_logWrite h⟩, rfl⟩

end

/-- The operations of the three threads log blocks, ten for each in turn. -/
def fill (s : St 3) : Nat → St 3
  | 0 => s
  | k + 1 => (fill s k).log (Fin.ofNat 3 (k / 10)) (32 + k)

lemma fill_run {s₀ s : St 3} {tr : List (Event 3)} (h : Run (SmallStep MAXOPBLOCKS mkfs) s₀ tr s)
    (m : Nat) (hready : ∀ k < m, Ready (fill s k) (Fin.ofNat 3 (k / 10)) (32 + k) ∧
      ¬ (fill s k).TooBig mkfs ∧ 1 ≤ (fill s k).outstanding) :
    ∃ tr', Run (SmallStep MAXOPBLOCKS mkfs) s₀ tr' (fill s m) := by
  induction m with
  | zero => exact ⟨tr, h⟩
  | succ m ih =>
    obtain ⟨tr', hrun⟩ := ih fun k hk => hready k (by omega)
    obtain ⟨hlast, hsize, hout⟩ := hready m m.lt_succ_self
    exact ⟨_, hrun.trans (log_run hlast hsize hout)⟩

/-- Three operations may begin together, and the last of their thirty blocks does not fit. -/
theorem three_operations_too_big : ∃ (tr : List (Event 3)) (s : St 3),
    Run (SmallStep MAXOPBLOCKS mkfs) (St.boot fun _ _ => 0) tr s ∧ s.phase = .panicked .tooBig := by
  have hinit : Run (SmallStep MAXOPBLOCKS mkfs) (St.boot fun _ _ => 0 : St 3) [] _ := .nil
  have hbegun := hinit
    |>.snoc ⟨.readHead rfl, by simp [Small]⟩
    |>.snoc ⟨.recoverInstalled rfl, by simp [Small]⟩
    |>.snoc ⟨.recoverClear rfl, by simp [Small]⟩
    |>.snoc ⟨.recovered rfl, by simp [Small]⟩
    |>.snoc ⟨.beginOp 0 rfl rfl rfl (by decide), by simp [Small]⟩
    |>.snoc ⟨.beginOp 1 rfl rfl rfl (by decide), by simp [Small]⟩
    |>.snoc ⟨.beginOp 2 rfl rfl rfl (by decide), by simp [Small]⟩
  obtain ⟨tr, hfilled⟩ := fill_run hbegun 29 (by decide +kernel)
  exact tooBig_run (t := 2) (b := 61) (by decide +kernel) (by decide +kernel) hfilled

end Xv6.Log
