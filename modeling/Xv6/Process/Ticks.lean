import Xv6.Process.Kill

/-!
# The times that `waitx` reports

`clockintr` counts the tick first and then charges the running processes one after the other. A
process that is created in between is charged for a tick before it existed.
-/

namespace Xv6.Process

open Function Lib

variable {s s' : St} {t i np : Fin NPROC} {l : Pc} {slot : Fin NPROC → Slot} {tr : List Event}
  {e : Event} {p q : Slot}

/-- The tick has been counted, and slot `i` is still to be charged for it. -/
def Clock.Pending (c : Clock) (i : Fin NPROC) : Prop := ∃ k, c = .scanning k ∧ k ≤ i

/-- A process that is charged for a tick was not created after the tick had been counted. -/
def OnTime (s : St) (e : Event) : Prop :=
  ∀ i, e = .charged i → (s.slot i).state = .running → (s.slot i).ctime ≠ s.ticks

/-! ### What a step does to the times -/

/-- The slot has been given its times. -/
def Pc.Made : Pc → Fin NPROC → Prop
  | .copying np, i | .linking np, i | .starting np, i => i = np
  | _, _ => False

/-- No process appears in the slot, and its times stay. -/
structure SameTimes (p q : Slot) : Prop where
  rtime : q.rtime = p.rtime
  ctime : q.ctime = p.ctime
  etime : q.etime = p.etime
  alive : q.Alive → p.Alive
  zombie : q.state = .zombie → p.state = .zombie

/-- Threads have made no slot that they had not. -/
def KeepsMade (s s' : St) : Prop := ∀ t i, (s'.pc t).Made i → (s.pc t).Made i

/-- The ways in which a step can change times. -/
inductive TimeStep (s : St) : Event → St → Prop where
  | keep {e : Event} {s' : St} : e ≠ .tick → (∀ i, SameTimes (s.slot i) (s'.slot i)) →
      KeepsMade s s' → s'.ticks = s.ticks →
      (∀ i, s'.clock.Pending i → s.clock.Pending i) → TimeStep s e s'
  | tick {s' : St} : s.clock = .idle → s'.slot = s.slot → s'.pc = s.pc →
      s'.ticks = uint32 (s.ticks + 1) → TimeStep s .tick s'
  | charge {s' : St} (k : Fin NPROC) : s.clock = .scanning k → s'.clock = .scanning (k + 1) →
      s'.slot = update s.slot k (s.slot k).updateTime → s'.pc = s.pc →
      s'.ticks = s.ticks → TimeStep s (.charged k) s'
  | stamp {s' : St} (np : Fin NPROC) : (s.slot np).state = .used →
      s'.slot = update s.slot np ((s.slot np).clearTimes s.ticks) →
      (∀ t i, (s'.pc t).Made i → (s.pc t).Made i ∨ i = np) → s'.ticks = s.ticks →
      s'.clock = s.clock → TimeStep s .silent s'
  | start {s' : St} (t np : Fin NPROC) : (s.pc t).Made np →
      s'.slot = update s.slot np { s.slot np with state := .runnable } →
      KeepsMade s s' → s'.ticks = s.ticks → s'.clock = s.clock → TimeStep s .silent s'
  | die {s' : St} (i : Fin NPROC) (status : Int) : (s.slot i).Alive →
      s'.slot = update s.slot i ((s.slot i).exit status s.ticks) → KeepsMade s s' →
      s'.ticks = s.ticks → s'.clock = s.clock →
      TimeStep s (.exited i (s.slot i).pid status) s'

lemma SameTimes.rfl : SameTimes p p :=
  ⟨Eq.refl _, Eq.refl _, Eq.refl _, fun h => h, fun h => h⟩

lemma sameTimes_update (h : SameTimes (slot i) p) (j : Fin NPROC) :
    SameTimes (slot j) (update slot i p j) := by
  by_cases hj : j = i
  · subst hj
    rwa [update_self]
  · rw [update_of_ne hj]
    exact SameTimes.rfl

lemma sameTimes_wakeup (chan : Option Chan) (p : Slot) : SameTimes p (p.wakeup chan) := by
  refine ⟨?_, ?_, ?_, (similar_wakeup chan p).alive.mp,
    ((similar_wakeup chan p).state_iff (by simp)).mp⟩ <;>
    unfold Slot.wakeup <;> split_ifs <;> rfl

lemma keepsMade_setPc (hl : ∀ i, l.Made i → (s.pc t).Made i) : KeepsMade s (s.setPc t l) := by
  intro u i hu
  rw [St.setPc_pc] at hu
  split_ifs at hu with hut
  · rw [hut]
    exact hl i hu
  · exact hu

lemma Move.made {l' : Pc} (hm : Move s t l l') (h : l'.Made i) : l.Made i := by
  cases hm <;> simp_all [Pc.Made]

/-- A slot that no process runs in. -/
lemma sameTimes_free (hr : q.rtime = p.rtime) (hc : q.ctime = p.ctime) (he : q.etime = p.etime)
    (hq : q.state = .unused ∨ q.state = .used) : SameTimes p q := by
  refine ⟨hr, hc, he, fun ha => (Slot.not_alive (by tauto) ha).elim, fun hz => ?_⟩
  rcases hq with hq | hq <;> rw [hq] at hz <;> cases hz

/-- A process that stays alive. -/
lemma sameTimes_alive (hr : q.rtime = p.rtime) (hc : q.ctime = p.ctime) (he : q.etime = p.etime)
    (hp : p.Alive) (hq : q.Alive) : SameTimes p q :=
  ⟨hr, hc, he, fun _ => hp, fun hz => (Slot.not_alive (Or.inr (Or.inr hz)) hq).elim⟩

lemma Step.timeStep (hi : Inv s) (h : Step s e s') : TimeStep s e s' := by
  cases h with
  | move t hrun hm =>
    exact .keep (by simp) (fun _ => .rfl) (keepsMade_setPc fun _ => hm.made) rfl fun _ => id
  | allocpid t np hrun hpc =>
    exact .keep (by simp) (fun _ => .rfl) (keepsMade_setPc (s := s) nofun) rfl fun _ => id
  | setUsed t np pid hrun hpc =>
    exact .keep (by simp) (sameTimes_update (sameTimes_free rfl rfl rfl (Or.inr rfl)))
      (keepsMade_setPc (s := s) nofun) rfl fun _ => id
  | allocFail t np hrun hpc =>
    exact .keep (by simp) (sameTimes_update (sameTimes_free rfl rfl rfl (Or.inl rfl)))
      (keepsMade_setPc (s := s) nofun) rfl fun _ => id
  | allocDone t np hrun hpc =>
    refine .stamp np ((hi.thread t).making np (by simp [hpc])) rfl (fun u i hu => ?_) rfl rfl
    rw [St.setSlot_pc, St.setPc_pc, St.setPc_pc] at hu
    split_ifs at hu
    · exact hu.elim
    · exact Or.inr hu
    · exact Or.inl hu
  | copyFail t np hrun hpc =>
    exact .keep (by simp) (sameTimes_update (sameTimes_free rfl rfl rfl (Or.inl rfl)))
      (keepsMade_setPc (s := s) nofun) rfl fun _ => id
  | link t np hrun hpc hwait =>
    refine .keep (by simp) (sameTimes_update ⟨rfl, rfl, rfl, fun h => h, fun h => h⟩)
      (keepsMade_setPc (s := s) fun i hi => ?_) rfl fun _ => id
    rw [hpc]
    exact hi
  | start t np hrun hpc hfree =>
    exact .start t np (by rw [hpc]; rfl) rfl (keepsMade_setPc (s := s) nofun) rfl rfl
  | reparent t j status hrun hpc hparent =>
    exact .keep (by simp) (sameTimes_update ⟨rfl, rfl, rfl, fun h => h, fun h => h⟩)
      (keepsMade_setPc (s := s) nofun) rfl fun _ => id
  | wakeInit t k status j hrun hpc hne hfree =>
    exact .keep (by simp) (sameTimes_update (sameTimes_wakeup _ _))
      (keepsMade_setPc (s := s) nofun) rfl fun _ => id
  | wakeParent t k status q hrun hpc hne hfree =>
    exact .keep (by simp) (sameTimes_update (sameTimes_wakeup _ _))
      (keepsMade_setPc (s := s) nofun) rfl fun _ => id
  | die t status q hrun hpc hfree =>
    exact .die t status (Or.inr (Or.inr hrun)) rfl (keepsMade_setPc (s := s) nofun) rfl rfl
  | deadRelease t hpc =>
    exact .keep (by simp) (fun _ => .rfl) (keepsMade_setPc (s := s) nofun) rfl fun _ => id
  | deadSwitch t hpc =>
    exact .keep (by simp) (fun _ => .rfl) (keepsMade_setPc (s := s) nofun) rfl fun _ => id
  | reap t j x hrun hpc =>
    exact .keep (by simp) (sameTimes_update (sameTimes_free rfl rfl rfl (Or.inl rfl)))
      (keepsMade_setPc (s := s) nofun) rfl fun _ => id
  | sleepWait t x hrun hpc =>
    exact .keep (by simp) (sameTimes_update (sameTimes_alive rfl rfl rfl (Or.inr (Or.inr hrun))
      (Or.inl rfl))) (keepsMade_setPc (s := s) nofun) rfl fun _ => id
  | killHit t j pid hrun hpc hfree hpid =>
    have hs := similar_kill (s.slot j)
    exact .keep (by simp) (sameTimes_update ⟨rfl, rfl, rfl, hs.alive.mp,
      (hs.state_iff (by simp)).mp⟩) (keepsMade_setPc (s := s) nofun) rfl fun _ => id
  | setkilled t hrun hpc hfree =>
    exact .keep (by simp) (sameTimes_update ⟨rfl, rfl, rfl, fun h => h, fun h => h⟩)
      (fun _ _ h => h) rfl fun _ => id
  | yield t hrun hpre hfree =>
    exact .keep (by simp) (sameTimes_update (sameTimes_alive rfl rfl rfl (Or.inr (Or.inr hrun))
      (Or.inr (Or.inl rfl)))) (fun _ _ h => h) rfl fun _ => id
  | sleep t chan hrun hpc hfree =>
    exact .keep (by simp) (sameTimes_update (sameTimes_alive rfl rfl rfl (Or.inr (Or.inr hrun))
      (Or.inl rfl))) (fun _ _ h => h) rfl fun _ => id
  | wakeup k chan hfree =>
    exact .keep (by simp) (sameTimes_update (sameTimes_wakeup _ _)) (fun _ _ h => h) rfl fun _ => id
  | schedule i hrun hfree =>
    exact .keep (by simp) (sameTimes_update (sameTimes_alive rfl rfl rfl (Or.inr (Or.inl hrun))
      (Or.inr (Or.inr rfl)))) (fun _ _ h => h) rfl fun _ => id
  | tick hclock => exact .tick hclock rfl rfl rfl
  | charge k hclock hfree => exact .charge k hclock rfl rfl rfl rfl
  | chargeDone hclock =>
    refine .keep (by simp) (fun _ => .rfl) (fun _ _ h => h) rfl ?_
    rintro i ⟨k, hk, -⟩
    cases hk
  | wakeTicks k hclock hfree =>
    refine .keep (by simp) (sameTimes_update (sameTimes_wakeup _ _)) (fun _ _ h => h) rfl ?_
    rintro i ⟨k, hk, -⟩
    cases hk
  | tickDone hclock =>
    refine .keep (by simp) (fun _ => .rfl) (fun _ _ h => h) rfl ?_
    rintro i ⟨k, hk, -⟩
    cases hk

/-! ### Charges and ticks -/

/-- A process has not been charged for more ticks than there were since it was created, the one that
it is still to be charged for included. -/
def Slot.Timely (ticks : Nat) (pending : Prop) (p : Slot) : Prop :=
  p.ctime + p.rtime ≤ ticks ∧ (pending → p.ctime ≠ ticks → p.ctime + p.rtime < ticks)

/-- A process that has exited was not charged for more ticks than it lived. -/
def Slot.Lived (ticks : Nat) (p : Slot) : Prop :=
  p.state = .zombie → p.ctime + p.rtime ≤ p.etime ∧ p.etime ≤ ticks

structure Times (tr : List Event) (s : St) : Prop where
  ticks : s.ticks = tr.count .tick
  alive : ∀ i, (s.slot i).Alive ∨ (∃ t, (s.pc t).Made i) →
    (s.slot i).Timely s.ticks (s.clock.Pending i)
  zombie : ∀ i, (s.slot i).Lived s.ticks

lemma uint32_of_lt {n : Nat} (h : n < 2 ^ 32) : uint32 n = n := by
  unfold uint32
  omega

/-- One slot changes. -/
lemma Times.update {j : Fin NPROC} (h : Times tr s) (he : e ≠ .tick) (hnext : s'.ticks = s.ticks)
    (hslot : s'.slot = Function.update s.slot j q)
    (hmade : ∀ t i, (s'.pc t).Made i → (s.pc t).Made i ∨ i = j)
    (hclock : ∀ i, s'.clock.Pending i → s.clock.Pending i)
    (halive : q.Alive ∨ (∃ t, (s'.pc t).Made j) → q.Timely s.ticks (s'.clock.Pending j))
    (hzombie : q.Lived s.ticks) : Times (e :: tr) s' := by
  have hself : s'.slot j = q := by rw [hslot, update_self]
  have hother : ∀ i, i ≠ j → s'.slot i = s.slot i := by
    intro i hi
    rw [hslot, update_of_ne hi]
  refine ⟨?_, fun i hi => ?_, fun i => ?_⟩
  · rw [hnext, List.count_cons_of_ne he]
    exact h.ticks
  · rw [hnext]
    by_cases hij : i = j
    · rw [hij, hself] at hi ⊢
      exact halive hi
    · rw [hother i hij] at hi ⊢
      obtain ⟨hle, hdue⟩ := h.alive i
        (hi.imp_right fun ⟨t, ht⟩ => ⟨t, (hmade t i ht).resolve_right hij⟩)
      exact ⟨hle, fun hp => hdue (hclock i hp)⟩
  · rw [hnext]
    by_cases hij : i = j
    · rw [hij, hself]
      exact hzombie
    · rw [hother i hij]
      exact h.zombie i

/-- A process that is charged on time. -/
lemma Slot.Timely.charge {n : Nat} (h : p.Timely n True) (hn : n < 2 ^ 32)
    (htime : p.state = .running → p.ctime ≠ n) (pending : Prop) (hp : ¬ pending) :
    p.updateTime.Timely n pending := by
  refine ⟨?_, fun hc => absurd hc hp⟩
  obtain ⟨hle, hdue⟩ := h
  unfold Slot.updateTime
  split_ifs with hrun
  · have hlt := hdue trivial (htime hrun)
    show p.ctime + uint32 (p.rtime + 1) ≤ n
    have hone : uint32 (p.rtime + 1) = p.rtime + 1 := uint32_of_lt (n := p.rtime + 1) (by omega)
    omega
  · exact hle

lemma Times.step (h : Times tr s) (hstep : TimeStep s e s') (htime : OnTime s e)
    (hlt : (e :: tr).count .tick < 2 ^ 32) : Times (e :: tr) s' := by
  have hticks := h.ticks
  cases hstep with
  | keep he hslot hmade hnext hclock =>
    refine ⟨?_, fun i hi => ?_, fun i hi => ?_⟩
    · rw [hnext, List.count_cons_of_ne he]
      exact h.ticks
    · obtain ⟨hle, hdue⟩ := h.alive i (hi.imp (hslot i).alive fun ⟨t, ht⟩ => ⟨t, hmade t i ht⟩)
      unfold Slot.Timely
      rw [(hslot i).ctime, (hslot i).rtime, hnext]
      exact ⟨hle, fun hp => hdue (hclock i hp)⟩
    · rw [(hslot i).ctime, (hslot i).rtime, (hslot i).etime, hnext]
      exact h.zombie i ((hslot i).zombie hi)
  | tick hclock hslot hpc hnext =>
    rw [List.count_cons_self] at hlt
    have hone : s'.ticks = s.ticks + 1 := by
      rw [hnext]
      exact_mod_cast uint32_of_lt (by omega)
    refine ⟨?_, fun i hi => ?_, fun i hi => ?_⟩
    · rw [hone, List.count_cons_self, h.ticks]
    · rw [hslot] at hi ⊢
      rw [hpc] at hi
      have hle := (h.alive i hi).1
      exact ⟨by omega, by omega⟩
    · rw [hslot] at hi ⊢
      have := h.zombie i hi
      omega
  | charge k hclock hclock' hslot hpc hnext =>
    rw [List.count_cons_of_ne (by simp)] at hlt
    have hpending : ∀ i, s.clock.Pending i ↔ k ≤ i := by
      intro i
      simp [Clock.Pending, hclock]
    have hpending' : ∀ i, s'.clock.Pending i ↔ k < i := by
      intro i
      simp [Clock.Pending, hclock']
    refine h.update (by simp) hnext hslot (fun t i hm => .inl (hpc ▸ hm)) (fun i hp => ?_)
      (fun hi => ?_) fun hz => ?_
    · exact (hpending i).mpr ((hpending' i).mp hp).le
    · rw [(similar_updateTime _).alive, hpc] at hi
      obtain ⟨hle, hdue⟩ := h.alive k hi
      exact Slot.Timely.charge ⟨hle, fun _ => hdue ((hpending k).mpr le_rfl)⟩ (by omega)
        (htime k rfl) _ fun hc => lt_irrefl k ((hpending' k).mp hc)
    · rw [(similar_updateTime _).state_iff (by simp)] at hz
      rw [Slot.updateTime, if_neg (by rw [hz]; decide)]
      exact h.zombie k hz
  | stamp np hused hslot hmade hnext hclock =>
    refine h.update (by simp) hnext hslot hmade (fun i hp => by rwa [hclock] at hp)
      (fun _ => ⟨le_rfl, fun _ hne => absurd rfl hne⟩) fun hz => ?_
    rw [Slot.clearTimes, hused] at hz
    cases hz
  | start t np ht hslot hmade hnext hclock =>
    refine h.update (by simp) hnext hslot (fun t i hm => .inl (hmade t i hm))
      (fun i hp => by rwa [hclock] at hp) (fun _ => ?_) nofun
    rw [hclock]
    exact h.alive np (Or.inr ⟨t, ht⟩)
  | die j status hj hslot hmade hnext hclock =>
    have hold := h.alive j (Or.inl hj)
    refine h.update (by simp) hnext hslot (fun t i hm => .inl (hmade t i hm))
      (fun i hp => by rwa [hclock] at hp) (fun _ => ?_) fun _ => ⟨hold.1, le_rfl⟩
    rw [hclock]
    exact hold

lemma times_boot : Times [] boot := by
  have hzero : ∀ i, (boot.slot i).ctime = 0 ∧ (boot.slot i).rtime = 0 := by
    intro i
    by_cases hinit : i = initproc
    · rw [hinit, boot_slot_init]
      exact ⟨rfl, rfl⟩
    · rw [boot_slot_of_ne hinit]
      exact ⟨rfl, rfl⟩
  refine ⟨rfl, fun i _ => ⟨?_, ?_⟩, fun i hz => (boot_not_zombie i hz).elim⟩
  · rw [(hzero i).1, (hzero i).2]
    exact Nat.zero_le _
  · rintro ⟨k, hk, -⟩
    cases hk

/-- A step in which no process is charged for a tick that was counted before it was created. -/
def OnTimeStep (s : St) (e : Event) (s' : St) : Prop := Step s e s' ∧ OnTime s e

lemma times_run (h : Run OnTimeStep boot tr s) (hlt : tr.count .tick < 2 ^ 32) : Times tr s := by
  induction h with
  | nil => exact times_boot
  | @snoc tr t u e hrun hlast ih =>
    have hinv := inv_run (hrun.mono fun _ _ _ hs => hs.1)
    refine (ih ?_).step (hlast.1.timeStep hinv) hlast.2 hlt
    rw [List.count_cons] at hlt
    omega

/-- In every run with fewer than `2 ^ 32` ticks in which no process is charged for a tick that was
counted before it was created: when a child is reaped, the ticks that it was charged for are at most
those from its creation to its exit, and the time reported as waiting is the difference. -/
theorem waitx_times (tr : List Event) (s : St) (h : Run OnTimeStep boot tr s)
    (hticks : tr.count .tick < 2 ^ 32) (s' : St) (x : Bool) (q i : Fin NPROC) (pid status : Int)
    (w r : Nat) (hreap : Step s (.reaped x q i pid status w r) s') :
    r = (s.slot i).rtime ∧ (s.slot i).ctime ≤ (s.slot i).etime ∧
      r ≤ (s.slot i).etime - (s.slot i).ctime ∧
      w = (s.slot i).etime - (s.slot i).ctime - r := by
  have htimes := times_run h hticks
  have hinv := inv_run (h.mono fun _ _ _ hs => hs.1)
  cases hreap with
  | reap t j x hrun hpc =>
    obtain ⟨hle, hbound⟩ := htimes.zombie i ((hinv.thread q).reaping x i hpc).1
    have hlt : (s.slot i).etime < 2 ^ 32 := by
      have := htimes.ticks
      omega
    refine ⟨rfl, by omega, by omega, ?_⟩
    unfold Slot.wtime uint32
    omega

/-! ### A process that is charged too early -/

/-- A run in which nobody is charged. -/
lemma onTime_of_run (h : Run Step s tr s') (hno : ∀ i, Event.charged i ∉ tr) :
    Run OnTimeStep s tr s' := by
  induction h with
  | nil => exact .nil
  | snoc _ hlast ih =>
    refine (ih fun i hi => hno i (List.mem_cons_of_mem _ hi)).snoc ⟨hlast, ?_⟩
    rintro i rfl
    exact absurd List.mem_cons_self (hno i)

/-- The clock interrupts. -/
def St.ticked (s : St) : St := { s with ticks := uint32 (s.ticks + 1), clock := .scanning 0 }

def St.charge (s : St) (k : Fin NPROC) : St :=
  { s.setSlot k (s.slot k).updateTime with clock := .scanning (k + 1) }

/-- `initproc` and its child have been charged for a tick. -/
def St.charged (s : St) : St := (s.charge initproc).charge slotOne

lemma onTime_charge (hq : s.Quiet) {k : Fin NPROC} (hclock : s.clock = .scanning k)
    (hlate : (s.slot k).ctime ≠ s.ticks) : OnTimeStep s (.charged k) (s.charge k) := by
  refine ⟨Step.charge k hclock (hq.1 k), ?_⟩
  rintro i hi -
  cases hi
  exact hlate

/-- A child that is created after the count of a tick and before the charge for it, and that exits
before the next tick: it existed for 0 ticks and is charged for 1, and `waitx` reports that it
waited for `2 ^ 32 - 1`. -/
theorem waitx_underflow :
    ∃ tr s s', Run Step boot tr s ∧ tr.count .tick = 1 ∧
      Step s (.reaped true initproc slotOne 2 0 4294967295 1) s' ∧
      (s.slot slotOne).ctime = 1 ∧ (s.slot slotOne).etime = 1 := by
  let s₁ := started.forked.ticked
  have hfork := fork_run (s := started) quiet_boot rfl rfl rfl
  have htick := Step.tick (s := started.forked.setPc initproc (.used slotOne)) rfl
  have hbegin := begun_run (s := s₁) quiet_boot rfl rfl rfl
  have hinit := Step.charge (s := s₁.begun) initproc rfl (quiet_boot.1 _)
  have hone := Step.charge (s := s₁.begun.charge initproc) slotOne rfl (quiet_boot.1 _)
  have hfound := found_run (s := s₁.begun.charged) quiet_boot rfl rfl (fun _ => rfl) rfl (by decide)
    (by decide) (by decide)
  have hreap := Step.reap (s := s₁.begun.charged.found) initproc slotOne true rfl rfl
  have hslot : s₁.begun.charged.found.slot slotOne = { Slot.empty with
      state := .zombie, pid := 2, parent := some initproc, ctime := 1, rtime := 1,
      etime := 1 } := by
    decide
  rw [hslot] at hreap
  have hbegun := ((started_run.trans hfork).snoc htick).trans hbegin
  have hrun := ((hbegun.snoc hinit).snoc hone).trans hfound
  exact ⟨_, _, _, hrun, by decide, hreap, rfl, rfl⟩

/-- A child that is created, charged for a tick, exits and is reaped. -/
theorem waitx_times_child :
    ∃ tr s s', Run OnTimeStep boot tr s ∧ tr.count .tick = 1 ∧
      Step s (.reaped true initproc slotOne 2 0 0 1) s' ∧
      0 = (s.slot slotOne).etime - (s.slot slotOne).ctime - 1 := by
  let s₁ := started.forked.begun
  have hfork := fork_run (s := started) quiet_boot rfl rfl rfl
  have hbegin := begun_run (s := started.forked) quiet_boot rfl rfl rfl
  have htick := Step.tick (s := s₁) rfl
  have hcounted := onTime_of_run (((started_run.trans hfork).trans hbegin).snoc htick) (by decide)
  have hfound := found_run (s := s₁.ticked.charged) quiet_boot rfl rfl (fun _ => rfl) rfl
    (by decide) (by decide) (by decide)
  have hinit := onTime_charge (s := s₁.ticked) (k := initproc) quiet_boot rfl (by decide)
  have hone := onTime_charge (s := s₁.ticked.charge initproc) (k := slotOne) quiet_boot rfl
    (by decide)
  have hreap := Step.reap (s := s₁.ticked.charged.found) initproc slotOne true rfl rfl
  have hslot : s₁.ticked.charged.found.slot slotOne = { Slot.empty with
      state := .zombie, pid := 2, parent := some initproc, rtime := 1, etime := 1 } := by
    decide
  rw [hslot] at hreap
  have hrun := ((hcounted.snoc hinit).snoc hone).trans (onTime_of_run hfound (by simp))
  exact ⟨_, _, _, hrun, by decide, hreap,
    (waitx_times _ _ hrun (by decide) _ _ _ _ _ _ _ _ hreap).2.2.2⟩

end Xv6.Process
