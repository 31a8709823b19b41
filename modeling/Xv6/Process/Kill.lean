import Xv6.Process.Reaping

/-!
# `kill`

`kill` looks for the pid in every slot, used or not, and a slot that is not used has the pid 0.
-/

namespace Xv6.Process

open Function Lib

/-- The loop of `kill` from slot `j` on, without interference: the table after it and the result. -/
def killFrom (pid : Int) (slot : Fin NPROC → Slot) (j : Nat) : (Fin NPROC → Slot) × Int :=
  if h : j < NPROC then
    if (slot ⟨j, h⟩).pid = pid then
      (update slot ⟨j, h⟩ (slot ⟨j, h⟩).kill, 0)
    else
      killFrom pid slot (j + 1)
  else
    (slot, -1)
termination_by NPROC - j

def kill (pid : Int) (slot : Fin NPROC → Slot) : (Fin NPROC → Slot) × Int := killFrom pid slot 0

variable {s s' : St} {t i : Fin NPROC} {pid : Int} {slot : Fin NPROC → Slot} {tr : List Event}
  {e : Event} {p q : Slot}

/-! ### The call as steps of a thread -/

/-- A thread that is alone runs the loop as `killFrom` says. -/
lemma killFrom_run (hq : s.Quiet) (hrun : s.Running t) (pid : Int) (j : Nat) (hle : j ≤ NPROC) :
    ∃ tr, Run Step (s.setPc t (.killing pid j)) tr
      { s.setPc t .user with slot := (killFrom pid s.slot j).1 } := by
  fun_induction killFrom pid s.slot j with
  | case1 j hj hpid =>
    have h := Step.killHit (s := s.setPc t (.killing pid j)) t ⟨j, hj⟩ pid hrun
      (by simp [St.setPc_pc]) (hq.free id) hpid
    rw [St.setPc_setPc] at h
    exact ⟨_, Run.single h⟩
  | case2 j hj hpid ih =>
    obtain ⟨tr, hrest⟩ := ih hj
    exact ⟨_, (Run.single (Move.step hrun (.killMiss pid ⟨j, hj⟩ (hq.free id) hpid))).trans hrest⟩
  | case3 j hlt =>
    obtain rfl : j = NPROC := by omega
    exact ⟨_, Run.single (Move.step hrun (.killNone pid))⟩

lemma kill_run (hq : s.Quiet) (hrun : s.Running t) (hpc : s.pc t = .user) (pid : Int) :
    ∃ tr, Run Step s tr { s with slot := (kill pid s.slot).1 } := by
  obtain ⟨tr, hloop⟩ := killFrom_run hq hrun pid 0 (Nat.zero_le _)
  have hmove := Move.step hrun (.kill pid)
  rw [St.setPc_self hpc] at hmove hloop
  exact ⟨_, (Run.single hmove).trans hloop⟩

/-! ### Which slot is found -/

/-- The first slot with the pid, if there is one, is changed. -/
lemma killFrom_spec (pid : Int) (slot : Fin NPROC → Slot) (j : Nat) :
    (∃ i, (slot i).pid = pid ∧
      killFrom pid slot j = (update slot i (slot i).kill, 0)) ∨
    ((∀ i : Fin NPROC, j ≤ i → (slot i).pid ≠ pid) ∧ killFrom pid slot j = (slot, -1)) := by
  fun_induction killFrom pid slot j with
  | case1 j hj hpid => exact Or.inl ⟨_, hpid, rfl⟩
  | case2 j hj hpid ih =>
    refine ih.imp_right fun ⟨hnone, heq⟩ => ⟨fun i hi => ?_, heq⟩
    rcases Nat.eq_or_lt_of_le hi with hij | hij
    · have : i = ⟨j, hj⟩ := Fin.ext hij.symm
      rwa [this]
    · exact hnone i hij
  | case3 j hj => exact Or.inr ⟨fun i hi => absurd i.2 (by omega), rfl⟩

/-- What `kill(pid)` should do: it returns 0 exactly if a process has the pid, and changes no slot
but that of a process with the pid. -/
def KillOk (slot : Fin NPROC → Slot) (pid : Int) : Prop :=
  ((kill pid slot).2 = 0 ↔ ∃ i, (slot i).state ≠ .unused ∧ (slot i).pid = pid) ∧
    ∀ i, (kill pid slot).1 i ≠ slot i → (slot i).state ≠ .unused ∧ (slot i).pid = pid

lemma killOk_of_used (h : ∀ i, (slot i).pid = pid → (slot i).state ≠ .unused) :
    KillOk slot pid := by
  unfold KillOk kill
  rcases killFrom_spec pid slot 0 with ⟨i, hpid, heq⟩ | ⟨hnone, heq⟩
  · rw [heq]
    refine ⟨iff_of_true rfl ⟨i, h i hpid, hpid⟩, fun j hj => ?_⟩
    have hji : j = i := by
      by_contra hne
      exact hj (update_of_ne hne _ _)
    rw [hji]
    exact ⟨h i hpid, hpid⟩
  · rw [heq]
    refine ⟨iff_of_false (by simp) ?_, fun j hj => absurd rfl hj⟩
    rintro ⟨i, -, hpid⟩
    exact hnone i (Nat.zero_le _) hpid

/-- A slot is found, although no process has its pid. -/
lemma not_killOk (hpid : (slot i).pid = pid)
    (hnone : ∀ j, (slot j).state ≠ .unused → (slot j).pid ≠ pid) : ¬ KillOk slot pid := by
  rintro ⟨hret, -⟩
  have hzero : (kill pid slot).2 = 0 := by
    rcases killFrom_spec pid slot 0 with ⟨j, -, heq⟩ | ⟨hmiss, -⟩
    · rw [kill, heq]
    · exact (hmiss i (Nat.zero_le _) hpid).elim
  obtain ⟨j, hj, hp⟩ := hret.mp hzero
  exact hnone j hj hp

/-! ### The flag of a new process -/

/-- The events since a process was last created in slot `i`. -/
def since (i : Fin NPROC) (tr : List Event) : List Event :=
  tr.takeWhile fun
    | .created j _ => j ≠ i
    | _ => true

/-- The flag stays, and no process comes or goes. -/
structure KeepsKilled (p q : Slot) : Prop where
  killed : q.killed = p.killed
  unused : q.state = .unused → p.state = .unused
  used : q.state = .used → p.state = .used ∧ q.pid = p.pid

/-- The ways in which a step can change `killed`. -/
inductive KillStep (s : St) : Event → St → Prop where
  | keep {e : Event} {s' : St} : (∀ i, KeepsKilled (s.slot i) (s'.slot i)) →
      (∀ i pid, e ≠ .created i pid) → KillStep s e s'
  | create {s' : St} (i : Fin NPROC) (pid : Int) : (s.slot i).state = .unused →
      s'.slot = update s.slot i { s.slot i with pid := pid, state := .used } →
      KillStep s (.created i pid) s'
  | free {e : Event} {s' : St} (i : Fin NPROC) :
      s'.slot = update s.slot i (s.slot i).freeproc → (∀ j pid, e ≠ .created j pid) →
      KillStep s e s'
  | hit {s' : St} (i : Fin NPROC) : s'.slot = update s.slot i (s.slot i).kill →
      KillStep s (.killed (s.slot i).pid i) s'
  | self {s' : St} (i : Fin NPROC) : (s.slot i).state = .running →
      s'.slot = update s.slot i { s.slot i with killed := true } →
      KillStep s (.setkilled i) s'

lemma KeepsKilled.rfl : KeepsKilled p p := ⟨Eq.refl _, fun h => h, fun h => ⟨h, Eq.refl _⟩⟩

lemma keepsKilled_update (h : KeepsKilled (slot i) p) (j : Fin NPROC) :
    KeepsKilled (slot j) (update slot i p j) := by
  by_cases hj : j = i
  · subst hj
    rwa [update_self]
  · rw [update_of_ne hj]
    exact KeepsKilled.rfl

lemma keepsKilled_of_alive (hk : q.killed = p.killed) (hq : q.Alive) : KeepsKilled p q :=
  ⟨hk, fun hc => (Slot.not_alive (Or.inl hc) hq).elim,
    fun hc => (Slot.not_alive (Or.inr (Or.inl hc)) hq).elim⟩

lemma keepsKilled_of_state (hk : q.killed = p.killed) (hs : q.state = p.state)
    (hp : q.pid = p.pid) : KeepsKilled p q :=
  ⟨hk, fun h => hs.symm.trans h, fun h => ⟨hs.symm.trans h, hp⟩⟩

lemma keepsKilled_wakeup (chan : Option Chan) (p : Slot) : KeepsKilled p (p.wakeup chan) := by
  unfold Slot.wakeup
  split_ifs
  · exact keepsKilled_of_alive rfl (Or.inr (Or.inl rfl))
  · exact KeepsKilled.rfl

lemma keepsKilled_updateTime (p : Slot) : KeepsKilled p p.updateTime := by
  unfold Slot.updateTime
  split_ifs
  · exact keepsKilled_of_state rfl rfl rfl
  · exact KeepsKilled.rfl

lemma Step.killStep (hi : Inv s) (h : Step s e s') : KillStep s e s' := by
  cases h with
  | move t hrun hm => exact .keep (fun _ => .rfl) (by simp)
  | allocpid t np hrun hpc => exact .keep (fun _ => .rfl) (by simp)
  | setUsed t np pid hrun hpc => exact .create np pid ((hi.thread t).fresh np (by simp [hpc])) rfl
  | allocFail t np hrun hpc => exact .free np rfl (by simp)
  | allocDone t np hrun hpc =>
    exact .keep (keepsKilled_update (keepsKilled_of_state rfl rfl rfl)) (by simp)
  | copyFail t np hrun hpc => exact .free np rfl (by simp)
  | link t np hrun hpc hwait =>
    exact .keep (keepsKilled_update (keepsKilled_of_state rfl rfl rfl)) (by simp)
  | start t np hrun hpc hfree =>
    exact .keep (keepsKilled_update (keepsKilled_of_alive rfl (Or.inr (Or.inl rfl)))) (by simp)
  | reparent t j status hrun hpc hparent =>
    exact .keep (keepsKilled_update (keepsKilled_of_state rfl rfl rfl)) (by simp)
  | wakeInit t k status j hrun hpc hne hfree =>
    exact .keep (keepsKilled_update (keepsKilled_wakeup _ _)) (by simp)
  | wakeParent t k status q hrun hpc hne hfree =>
    exact .keep (keepsKilled_update (keepsKilled_wakeup _ _)) (by simp)
  | die t status q hrun hpc hfree =>
    exact .keep (keepsKilled_update ⟨rfl, nofun, nofun⟩) (by simp)
  | deadRelease t hpc => exact .keep (fun _ => .rfl) (by simp)
  | deadSwitch t hpc => exact .keep (fun _ => .rfl) (by simp)
  | reap t j x hrun hpc => exact .free j rfl (by simp)
  | sleepWait t x hrun hpc =>
    exact .keep (keepsKilled_update (keepsKilled_of_alive rfl (Or.inl rfl))) (by simp)
  | killHit t j pid hrun hpc hfree hpid =>
    rw [← hpid]
    exact .hit j rfl
  | setkilled t hrun hpc hfree => exact .self t hrun rfl
  | yield t hrun hpre hfree =>
    exact .keep (keepsKilled_update (keepsKilled_of_alive rfl (Or.inr (Or.inl rfl)))) (by simp)
  | sleep t chan hrun hpc hfree =>
    exact .keep (keepsKilled_update (keepsKilled_of_alive rfl (Or.inl rfl))) (by simp)
  | wakeup k chan hfree => exact .keep (keepsKilled_update (keepsKilled_wakeup _ _)) (by simp)
  | schedule i hrun hfree =>
    exact .keep (keepsKilled_update (keepsKilled_of_alive rfl (Or.inr (Or.inr rfl)))) (by simp)
  | tick hclock => exact .keep (fun _ => .rfl) (by simp)
  | charge k hclock hfree => exact .keep (keepsKilled_update (keepsKilled_updateTime _)) (by simp)
  | chargeDone hclock => exact .keep (fun _ => .rfl) (by simp)
  | wakeTicks k hclock hfree => exact .keep (keepsKilled_update (keepsKilled_wakeup _ _)) (by simp)
  | tickDone hclock => exact .keep (fun _ => .rfl) (by simp)

/-- A slot that is not used is not marked, and one that has just been given to a process is marked
only by a `kill` with its pid. -/
structure Clean (tr : List Event) (s : St) : Prop where
  unused : ∀ i, (s.slot i).state = .unused → (s.slot i).killed = false
  used : ∀ i, (s.slot i).state = .used → (s.slot i).killed = true →
    .killed (s.slot i).pid i ∈ since i tr

lemma mem_since_cons (he : ∀ pid, e ≠ .created i pid) {e' : Event} (h : e' ∈ since i tr) :
    e' ∈ since i (e :: tr) := by
  unfold since at h ⊢
  rw [List.takeWhile_cons_of_pos]
  · exact List.mem_cons_of_mem e h
  · cases e <;> simp_all

lemma Clean.step (h : Clean tr s) (hinv : Inv s) (hstep : KillStep s e s')
    (hzero : ∀ i, e ≠ .killed 0 i) : Clean (e :: tr) s' := by
  cases hstep with
  | keep hkeep hcreated =>
    constructor
    · intro i hi
      rw [(hkeep i).killed]
      exact h.unused i ((hkeep i).unused hi)
    · intro i hi hk
      obtain ⟨hi', hpid⟩ := (hkeep i).used hi
      rw [(hkeep i).killed] at hk
      rw [hpid]
      exact mem_since_cons (hcreated i) (h.used i hi' hk)
  | create j pid hun hslot =>
    constructor
    · intro i hi
      rw [hslot, update_apply] at hi ⊢
      split_ifs at hi ⊢
      exact h.unused i hi
    · intro i hi hk
      rw [hslot, update_apply] at hi hk ⊢
      split_ifs at hi hk ⊢ with hij
      · have := h.unused j hun
        simp_all
      · exact mem_since_cons (by simp [Ne.symm hij]) (h.used i hi hk)
  | free j hslot hcreated =>
    constructor
    · intro i hi
      rw [hslot, update_apply] at hi ⊢
      split_ifs at hi ⊢
      · rfl
      · exact h.unused i hi
    · intro i hi hk
      rw [hslot, update_apply] at hi hk ⊢
      split_ifs at hi hk ⊢
      · cases hi
      · exact mem_since_cons (hcreated i) (h.used i hi hk)
  | hit j hslot =>
    have hused : (s.slot j).state ≠ .unused := by
      intro hun
      refine hzero j ?_
      rw [(hinv.table.unused j hun).1]
    constructor
    · intro i hi
      rw [hslot, update_apply] at hi ⊢
      split_ifs at hi ⊢ with hij
      · have := ((similar_kill (s.slot j)).state_iff (by simp)).mp hi
        exact (hused this).elim
      · exact h.unused i hi
    · intro i hi hk
      rw [hslot, update_apply] at hi hk ⊢
      split_ifs at hi hk ⊢ with hij
      · rw [hij]
        exact List.mem_cons_self
      · exact mem_since_cons (by simp) (h.used i hi hk)
  | self j hrun hslot =>
    constructor
    · intro i hi
      rw [hslot, update_apply] at hi ⊢
      split_ifs at hi ⊢
      · simp [hrun] at hi
      · exact h.unused i hi
    · intro i hi hk
      rw [hslot, update_apply] at hi hk ⊢
      split_ifs at hi hk ⊢
      · simp [hrun] at hi
      · exact mem_since_cons (by simp) (h.used i hi hk)

lemma clean_boot : Clean [] boot := by
  have hflag : ∀ i, (boot.slot i).killed = false := by
    intro i
    by_cases hinit : i = initproc
    · rw [hinit, boot_slot_init]
      rfl
    · rw [boot_slot_of_ne hinit]
      rfl
  exact ⟨fun i _ => hflag i, fun i _ hk => by simp [hflag i] at hk⟩

lemma clean_run (h : Run Step boot tr s) (hzero : ∀ i, Event.killed 0 i ∉ tr) : Clean tr s := by
  induction h with
  | nil => exact clean_boot
  | snoc hrun hlast ih =>
    refine (ih fun i hi => hzero i (List.mem_cons_of_mem _ hi)).step (inv_run hrun)
      (hlast.killStep (inv_run hrun)) fun i hi => hzero i ?_
    rw [hi]
    exact List.mem_cons_self

/-- In every reachable state `kill(pid)` does what it should if the pid is not 0 or if every slot is
used, and (while pids have not come round) only then. In a run in which no `kill(0)` finds a slot, a
process that has just been created is marked as killed only if a `kill` with its pid has run
since. -/
theorem kill_affects_only_named (tr : List Event) (s : St) (h : Run Step boot tr s) :
    (∀ pid, (pid ≠ 0 ∨ ∀ i, (s.slot i).state ≠ .unused) → KillOk s.slot pid) ∧
    (tr.count .numbered < 2 ^ 31 →
      ∀ pid, KillOk s.slot pid → pid ≠ 0 ∨ ∀ i, (s.slot i).state ≠ .unused) ∧
    ((∀ i, Event.killed 0 i ∉ tr) → ∀ i, (s.slot i).state = .used → (s.slot i).killed = true →
      Event.killed (s.slot i).pid i ∈ since i tr) := by
  have hinv := inv_run h
  refine ⟨fun pid hpid => killOk_of_used fun i hi hun => ?_, fun hforks pid hok => ?_,
    fun hzero => (clean_run h hzero).used⟩
  · rcases hpid with hpid | hall
    · exact hpid (hi.symm.trans (hinv.table.unused i hun).1)
    · exact hall i hun
  · by_contra hnot
    push Not at hnot
    obtain ⟨hpid, i, hun⟩ := hnot
    have hhist : Hist tr s := hist_run h (by rw [nextpid_run h]; omega)
    refine not_killOk (i := i) ?_ (fun j hj => ?_) hok
    · rw [(hinv.table.unused i hun).1, hpid]
    · rw [hpid]
      exact (hhist.issued j hj).2

/-- The pid of `initproc`. -/
theorem kill_affects_only_named_init :
    Run Step boot [.silent] started ∧ KillOk started.slot 1 :=
  ⟨started_run, (kill_affects_only_named _ _ started_run).1 1 (Or.inl (by decide))⟩

/-- `initproc` calls `kill(0)`, which returns 0 and marks the first slot that is not used; the next
`fork` makes a process there that is marked from the beginning. -/
theorem kill_zero_marks_next_child :
    (kill 0 boot.slot).2 = 0 ∧ (∀ i, (boot.slot i).state ≠ .unused → (boot.slot i).pid ≠ 0) ∧
      ∃ tr s, Run Step boot tr s ∧ (s.slot slotOne).state = .used ∧ (s.slot slotOne).pid = 2 ∧
        (s.slot slotOne).killed = true ∧ ∀ i, Event.killed 2 i ∉ tr := by
  refine ⟨?_, fun i hi => (hist_boot.issued i hi).2, ?_⟩
  · unfold kill killFrom
    rw [dif_pos (by decide), if_neg (by decide)]
    unfold killFrom
    rw [dif_pos (by decide), if_pos (by decide)]
  · let s := started.setSlot slotOne (started.slot slotOne).kill
    have h₁ := Move.step (s := started) (t := initproc) rfl (.kill 0)
    have h₂ := Move.step (s := started) (t := initproc) rfl
      (.killMiss 0 initproc (St.Quiet.free quiet_boot (l := .killing 0 0) id) (by decide))
    have h₃ := Step.killHit (s := started.setPc initproc (.killing 0 1)) initproc slotOne 0 rfl rfl
      (St.Quiet.free quiet_boot id) rfl
    rw [St.setPc_setPc] at h₃
    rw [St.setPc_self (s := started) (l := .user) rfl] at h₁ h₃
    have hfork := fork_run (s := s) quiet_boot rfl rfl rfl
    exact ⟨_, _, (((started_run.snoc h₁).snoc h₂).snoc h₃).trans hfork, rfl, by decide, rfl,
      by simp⟩

end Xv6.Process
