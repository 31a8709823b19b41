import Xv6.Process.Alone
import Xv6.Process.Tree

/-!
# Pids and reaping

A pid is given out by `allocpid`, belongs to one slot at a time, is exited once and is returned by
`wait` or `waitx` at most once, with the status that was passed to `exit`.
-/

namespace Xv6.Process

open Function Lib

/-- The calls of `exit`, with pid and status. -/
def exits (tr : List Event) : List (Int × Int) :=
  tr.filterMap fun
    | .exited _ pid status => some (pid, status)
    | _ => none

/-- The children that `wait` and `waitx` have returned, with pid and status. -/
def reaps (tr : List Event) : List (Int × Int) :=
  tr.filterMap fun
    | .reaped _ _ _ pid status _ _ => some (pid, status)
    | _ => none

/-! ### What a step does to the processes -/

/-- The slot has the same process or none, as before. -/
structure SameId (p q : Slot) : Prop where
  pid : q.pid = p.pid
  xstate : q.xstate = p.xstate
  unused : q.state = .unused ↔ p.state = .unused
  zombie : q.state = .zombie ↔ p.state = .zombie

/-- No exit and no reaping. -/
def Event.Quiet : Event → Prop
  | .numbered | .exited .. | .reaped .. => False
  | _ => True

/-- Threads have no pids at hand that they did not have. -/
def KeepsPending (s s' : St) : Prop :=
  ∀ t np q, s'.pc t = .numbered np q → s.pc t = .numbered np q

/-- The ways in which a step can create, end or free a process. -/
inductive IdStep (s : St) : Event → St → Prop where
  | quiet {e : Event} {s' : St} : e.Quiet → (∀ i, SameId (s.slot i) (s'.slot i)) →
      KeepsPending s s' → s'.nextpid = s.nextpid → IdStep s e s'
  | issue {s' : St} (t np : Fin NPROC) : s'.slot = s.slot → s'.nextpid = s.nextpid + 1 →
      s'.pc = update s.pc t (.numbered np (int32 s.nextpid)) → IdStep s .numbered s'
  | create {s' : St} (t np : Fin NPROC) (q : Int) : s.pc t = .numbered np q →
      (s.slot np).state = .unused →
      s'.slot = update s.slot np { s.slot np with pid := q, state := .used } →
      s'.pc = update s.pc t (.used np) → s'.nextpid = s.nextpid →
      IdStep s (.created np q) s'
  | drop {s' : St} (i : Fin NPROC) : (s.slot i).state = .used →
      s'.slot = update s.slot i (s.slot i).freeproc → KeepsPending s s' →
      s'.nextpid = s.nextpid → IdStep s .silent s'
  | die {s' : St} (i : Fin NPROC) (status : Int) : (s.slot i).Alive →
      s'.slot = update s.slot i ((s.slot i).exit status s.ticks) → KeepsPending s s' →
      s'.nextpid = s.nextpid → IdStep s (.exited i (s.slot i).pid status) s'
  | reap {s' : St} (x : Bool) (p i : Fin NPROC) (w r : Nat) : (s.slot i).state = .zombie →
      (s.slot i).parent = some p → s'.slot = update s.slot i (s.slot i).freeproc →
      KeepsPending s s' → s'.nextpid = s.nextpid →
      IdStep s (.reaped x p i (s.slot i).pid (s.slot i).xstate w r) s'

variable {s s' : St} {t i np : Fin NPROC} {l : Pc} {p q : Slot} {e : Event} {tr : List Event}

lemma SameId.rfl : SameId p p := ⟨Eq.refl _, Eq.refl _, Iff.rfl, Iff.rfl⟩

lemma Similar.sameId (h : Similar p q) (hx : q.xstate = p.xstate) : SameId p q :=
  ⟨h.pid, hx, h.state_iff (by simp), h.state_iff (by simp)⟩

lemma sameId_update {slot : Fin NPROC → Slot} (h : SameId (slot i) p) (j : Fin NPROC) :
    SameId (slot j) (update slot i p j) := by
  by_cases hj : j = i
  · subst hj
    rwa [update_self]
  · rw [update_of_ne hj]
    exact SameId.rfl

lemma sameId_wakeup (chan : Option Chan) (p : Slot) : SameId p (p.wakeup chan) := by
  refine (similar_wakeup chan p).sameId ?_
  unfold Slot.wakeup
  split_ifs <;> rfl

lemma sameId_updateTime (p : Slot) : SameId p p.updateTime := by
  refine (similar_updateTime p).sameId ?_
  unfold Slot.updateTime
  split_ifs <;> rfl

lemma keepsPending_setPc (hl : ∀ np q, l ≠ .numbered np q) : KeepsPending s (s.setPc t l) := by
  intro u np q hu
  rw [St.setPc_pc] at hu
  split_ifs at hu with hut
  · exact (hl np q hu).elim
  · exact hu

lemma Move.not_numbered {l' : Pc} (hm : Move s t l l') (np : Fin NPROC) (q : Int) :
    l' ≠ .numbered np q := by
  cases hm <;> simp

/-- A thread moves and a slot keeps its process. -/
lemma IdStep.of_sameId (he : e.Quiet) (hl : ∀ np q, l ≠ .numbered np q)
    (hp : SameId (s.slot i) p) : IdStep s e ((s.setPc t l).setSlot i p) :=
  .quiet he (sameId_update hp) (keepsPending_setPc (s := s) hl) rfl

lemma IdStep.of_slot (he : e.Quiet) (hp : SameId (s.slot i) p) : IdStep s e (s.setSlot i p) :=
  .quiet he (sameId_update hp) (fun _ _ _ h => h) rfl

lemma Step.idStep (hi : Inv s) (h : Step s e s') : IdStep s e s' := by
  cases h with
  | move t hrun hm =>
    exact .quiet trivial (fun _ => SameId.rfl) (keepsPending_setPc hm.not_numbered) rfl
  | allocpid t np hrun hpc => exact .issue t np rfl rfl rfl
  | setUsed t np pid hrun hpc =>
    refine .create t np pid hpc ?_ rfl rfl rfl
    exact (hi.thread t).fresh np (by simp [hpc])
  | allocFail t np hrun hpc =>
    exact .drop np ((hi.thread t).making np (by simp [hpc])) rfl (keepsPending_setPc (by simp)) rfl
  | allocDone t np hrun hpc =>
    refine .quiet trivial (sameId_update ⟨rfl, rfl, Iff.rfl, Iff.rfl⟩) ?_ rfl
    intro u np' q hu
    exact keepsPending_setPc (by simp) u np' q (keepsPending_setPc (by simp) u np' q hu)
  | copyFail t np hrun hpc =>
    exact .drop np ((hi.thread t).making np (by simp [hpc])) rfl (keepsPending_setPc (by simp)) rfl
  | link t np hrun hpc hwait =>
    exact .of_sameId trivial (by simp) ⟨rfl, rfl, Iff.rfl, Iff.rfl⟩
  | start t np hrun hpc hfree =>
    refine .of_sameId trivial (by simp) ⟨rfl, rfl, ?_, ?_⟩ <;>
      simp [(hi.thread t).making np (by simp [hpc])]
  | reparent t j status hrun hpc hparent =>
    exact .of_sameId trivial (by simp) ⟨rfl, rfl, Iff.rfl, Iff.rfl⟩
  | wakeInit t k status j hrun hpc hne hfree =>
    exact .of_sameId trivial (by simp) (sameId_wakeup _ _)
  | wakeParent t k status q hrun hpc hne hfree =>
    exact .of_sameId trivial (by simp) (sameId_wakeup _ _)
  | die t status q hrun hpc hfree =>
    exact .die t status (Or.inr (Or.inr hrun)) rfl (keepsPending_setPc (by simp)) rfl
  | deadRelease t hpc =>
    exact .quiet trivial (fun _ => SameId.rfl) (keepsPending_setPc (by simp)) rfl
  | deadSwitch t hpc =>
    exact .quiet trivial (fun _ => SameId.rfl) (keepsPending_setPc (by simp)) rfl
  | reap t j x hrun hpc =>
    obtain ⟨hz, hparent⟩ := (hi.thread t).reaping x j hpc
    exact .reap x t j _ _ hz hparent rfl (keepsPending_setPc (by simp)) rfl
  | sleepWait t x hrun hpc =>
    refine .of_sameId trivial (by simp) ⟨rfl, rfl, ?_, ?_⟩ <;> simp [show _ = _ from hrun]
  | killHit t j pid hrun hpc hfree hpid =>
    exact .of_sameId trivial (by simp) ((similar_kill _).sameId rfl)
  | setkilled t hrun hpc hfree => exact .of_slot trivial ⟨rfl, rfl, Iff.rfl, Iff.rfl⟩
  | yield t hrun hpre hfree =>
    refine .of_slot trivial ⟨rfl, rfl, ?_, ?_⟩ <;> simp [show _ = _ from hrun]
  | sleep t chan hrun hpc hfree =>
    refine .of_slot trivial ⟨rfl, rfl, ?_, ?_⟩ <;> simp [show _ = _ from hrun]
  | wakeup k chan hfree => exact .of_slot trivial (sameId_wakeup _ _)
  | schedule i hrun hfree =>
    refine .of_slot trivial ⟨rfl, rfl, ?_, ?_⟩ <;> simp [hrun]
  | tick hclock => exact .quiet trivial (fun _ => SameId.rfl) (fun _ _ _ h => h) rfl
  | charge k hclock hfree =>
    exact .quiet trivial (sameId_update (sameId_updateTime _)) (fun _ _ _ h => h) rfl
  | chargeDone hclock => exact .quiet trivial (fun _ => SameId.rfl) (fun _ _ _ h => h) rfl
  | wakeTicks k hclock hfree =>
    exact .quiet trivial (sameId_update (sameId_wakeup _ _)) (fun _ _ _ h => h) rfl
  | tickDone hclock => exact .quiet trivial (fun _ => SameId.rfl) (fun _ _ _ h => h) rfl

/-! ### The life of a pid -/

def exitedPids (tr : List Event) : List Int := (exits tr).map Prod.fst

def reapedPids (tr : List Event) : List Int := (reaps tr).map Prod.fst

/-- Pids in use, pids at hand and pids in the past, while `nextpid` has not come round. -/
structure Hist (tr : List Event) (s : St) : Prop where
  pos : 0 < s.nextpid
  issued : ∀ i, (s.slot i).state ≠ .unused →
    uint32 (s.slot i).pid < s.nextpid ∧ (s.slot i).pid ≠ 0
  distinct : ∀ i j, (s.slot i).state ≠ .unused → (s.slot j).state ≠ .unused →
    (s.slot i).pid = (s.slot j).pid → i = j
  pending : ∀ t np q, s.pc t = .numbered np q → uint32 q < s.nextpid ∧ q ≠ 0 ∧
    q ∉ exitedPids tr ∧ ∀ i, (s.slot i).state ≠ .unused → (s.slot i).pid ≠ q
  pendingDistinct : ∀ t u np np' q, s.pc t = .numbered np q → s.pc u = .numbered np' q → t = u
  exited : ∀ q ∈ exitedPids tr, uint32 q < s.nextpid
  running : ∀ i, (s.slot i).state ≠ .unused → (s.slot i).state ≠ .zombie →
    (s.slot i).pid ∉ exitedPids tr
  zombie : ∀ i, (s.slot i).state = .zombie →
    ((s.slot i).pid, (s.slot i).xstate) ∈ exits tr ∧ (s.slot i).pid ∉ reapedPids tr
  exits_nodup : (exitedPids tr).Nodup
  reaps_nodup : (reapedPids tr).Nodup
  reaps_sub : reaps tr ⊆ exits tr

lemma Event.Quiet.exits (he : e.Quiet) : exits (e :: tr) = exits tr := by
  cases e <;> simp_all [Process.exits, Event.Quiet]

lemma Event.Quiet.reaps (he : e.Quiet) : reaps (e :: tr) = reaps tr := by
  cases e <;> simp_all [Process.reaps, Event.Quiet]

lemma uint32_int32 {n : Nat} (h : n < 2 ^ 32) : uint32 (int32 n) = n := by
  unfold uint32 int32
  rw [show (2 : Int) ^ 32 = ((2 ^ 32 : Nat) : Int) by norm_num, Int.bmod_emod]
  omega

lemma Hist.quiet (h : Hist tr s) (he : exits (e :: tr) = exits tr) (hr : reaps (e :: tr) = reaps tr)
    (hslot : ∀ i, SameId (s.slot i) (s'.slot i)) (hpc : KeepsPending s s')
    (hnext : s'.nextpid = s.nextpid) : Hist (e :: tr) s' := by
  have hun : ∀ i, (s'.slot i).state ≠ .unused ↔ (s.slot i).state ≠ .unused :=
    fun i => not_congr (hslot i).unused
  have hpid : ∀ i, (s'.slot i).pid = (s.slot i).pid := fun i => (hslot i).pid
  constructor
  · rw [hnext]
    exact h.pos
  · intro i hi
    rw [hpid, hnext]
    exact h.issued i ((hun i).mp hi)
  · intro i j hi hj hij
    rw [hpid, hpid] at hij
    exact h.distinct i j ((hun i).mp hi) ((hun j).mp hj) hij
  · intro t np q ht
    obtain ⟨h1, h2, h3, h4⟩ := h.pending t np q (hpc t np q ht)
    rw [hnext, exitedPids, he]
    refine ⟨h1, h2, h3, fun i hi => ?_⟩
    rw [hpid]
    exact h4 i ((hun i).mp hi)
  · intro t u np np' q ht hu
    exact h.pendingDistinct t u np np' q (hpc t np q ht) (hpc u np' q hu)
  · rw [hnext, exitedPids, he]
    exact h.exited
  · intro i hi hz
    rw [hpid, exitedPids, he]
    exact h.running i ((hun i).mp hi) (fun hz' => hz ((hslot i).zombie.mpr hz'))
  · intro i hz
    rw [hpid, (hslot i).xstate, he, reapedPids, hr]
    exact h.zombie i ((hslot i).zombie.mp hz)
  · rw [exitedPids, he]
    exact h.exits_nodup
  · rw [reapedPids, hr]
    exact h.reaps_nodup
  · rw [he, hr]
    exact h.reaps_sub

/-- `allocpid` gives out a pid that nobody has had. -/
lemma Hist.issue (h : Hist tr s) (hslot : s'.slot = s.slot) (hnext : s'.nextpid = s.nextpid + 1)
    (hpc : s'.pc = update s.pc t (.numbered np (int32 s.nextpid)))
    (hlt : s.nextpid < 2 ^ 32) : Hist (.numbered :: tr) s' := by
  have hnew : uint32 (int32 s.nextpid) = s.nextpid := uint32_int32 hlt
  have hfresh : ∀ q, uint32 q < s.nextpid → q ≠ int32 s.nextpid := by
    intro q hq heq
    rw [heq, hnew] at hq
    exact lt_irrefl _ hq
  have hpend : ∀ u np' q, s'.pc u = .numbered np' q →
      (u = t ∧ q = int32 s.nextpid) ∨ (u ≠ t ∧ s.pc u = .numbered np' q) := by
    intro u np' q hu
    rw [hpc] at hu
    by_cases hut : u = t
    · rw [hut, update_self] at hu
      cases hu
      exact Or.inl ⟨hut, rfl⟩
    · rw [update_of_ne hut] at hu
      exact Or.inr ⟨hut, hu⟩
  have hexits : exitedPids (.numbered :: tr) = exitedPids tr := rfl
  constructor
  · omega
  · intro i hi
    rw [hslot] at hi ⊢
    exact ⟨by have := (h.issued i hi).1; omega, (h.issued i hi).2⟩
  · rw [hslot]
    exact h.distinct
  · intro u np' q hu
    rw [hexits, hslot, hnext]
    rcases hpend u np' q hu with ⟨-, hq⟩ | ⟨-, hu⟩
    · rw [hq]
      refine ⟨by omega, fun h0 => ?_, fun hq => hfresh _ (h.exited _ hq) rfl,
        fun i hi => hfresh _ (h.issued i hi).1⟩
      have hpos := h.pos
      rw [h0] at hnew
      simp only [uint32] at hnew
      omega
    · obtain ⟨h1, h2, h3, h4⟩ := h.pending u np' q hu
      exact ⟨by omega, h2, h3, h4⟩
  · intro u v np₁ np₂ q hu hv
    rcases hpend u np₁ q hu with ⟨rfl, hq⟩ | ⟨-, hu⟩ <;>
      rcases hpend v np₂ q hv with ⟨rfl, hq'⟩ | ⟨-, hv⟩
    · rfl
    · exact (hfresh q (h.pending v np₂ q hv).1 hq).elim
    · exact (hfresh q (h.pending u np₁ q hu).1 hq').elim
    · exact h.pendingDistinct u v np₁ np₂ q hu hv
  · intro q hq
    have := h.exited q hq
    omega
  · rw [hslot]
    exact h.running
  · rw [hslot]
    exact h.zombie
  · exact h.exits_nodup
  · exact h.reaps_nodup
  · exact h.reaps_sub

/-- A slot gets the pid at hand. -/
lemma Hist.create {pid : Int} (h : Hist tr s) (hpc : s.pc t = .numbered np pid)
    (hslot : s'.slot = update s.slot np { s.slot np with pid := pid, state := .used })
    (hpc' : s'.pc = update s.pc t (.used np)) (hnext : s'.nextpid = s.nextpid) :
    Hist (.created np pid :: tr) s' := by
  obtain ⟨hlt, h0, hexit, hlive⟩ := h.pending t np pid hpc
  have hself : s'.slot np = { s.slot np with pid := pid, state := .used } := by
    rw [hslot, update_self]
  have hother : ∀ i, i ≠ np → s'.slot i = s.slot i := by
    intro i hi
    rw [hslot, update_of_ne hi]
  have hpend : ∀ u np' q, s'.pc u = .numbered np' q → u ≠ t ∧ s.pc u = .numbered np' q := by
    intro u np' q hu
    rw [hpc'] at hu
    by_cases hut : u = t
    · rw [hut, update_self] at hu
      cases hu
    · rw [update_of_ne hut] at hu
      exact ⟨hut, hu⟩
  constructor
  · rw [hnext]
    exact h.pos
  · intro i hi
    rw [hnext]
    by_cases hin : i = np
    · rw [hin, hself]
      exact ⟨hlt, h0⟩
    · rw [hother i hin] at hi ⊢
      exact h.issued i hi
  · intro i j hi hj hij
    by_cases hin : i = np <;> by_cases hjn : j = np
    · rw [hin, hjn]
    · rw [hin, hself, hother j hjn] at hij
      rw [hother j hjn] at hj
      exact (hlive j hj hij.symm).elim
    · rw [hjn, hself, hother i hin] at hij
      rw [hother i hin] at hi
      exact (hlive i hi hij).elim
    · rw [hother i hin, hother j hjn] at hij
      rw [hother i hin] at hi
      rw [hother j hjn] at hj
      exact h.distinct i j hi hj hij
  · intro u np' q hu
    obtain ⟨hut, hu⟩ := hpend u np' q hu
    obtain ⟨h1, h2, h3, h4⟩ := h.pending u np' q hu
    rw [hnext]
    refine ⟨h1, h2, h3, fun i hi => ?_⟩
    by_cases hin : i = np
    · rw [hin, hself]
      rintro rfl
      exact hut (h.pendingDistinct u t np' np pid hu hpc)
    · rw [hother i hin] at hi ⊢
      exact h4 i hi
  · intro u v np₁ np₂ q hu hv
    exact h.pendingDistinct u v np₁ np₂ q (hpend u np₁ q hu).2 (hpend v np₂ q hv).2
  · rw [hnext]
    exact h.exited
  · intro i hi hz
    by_cases hin : i = np
    · rw [hin, hself]
      exact hexit
    · rw [hother i hin] at hi hz ⊢
      exact h.running i hi hz
  · intro i hz
    by_cases hin : i = np
    · rw [hin, hself] at hz
      cases hz
    · rw [hother i hin] at hz ⊢
      exact h.zombie i hz
  · exact h.exits_nodup
  · exact h.reaps_nodup
  · exact h.reaps_sub

/-- A slot becomes free; if it was a zombie's, the pid has been returned. -/
lemma Hist.free (h : Hist tr s) (hslot : s'.slot = update s.slot i (s.slot i).freeproc)
    (hpc : KeepsPending s s') (hnext : s'.nextpid = s.nextpid) (hexits : exits (e :: tr) = exits tr)
    (hreaps : reaps (e :: tr) = reaps tr ∨ ((s.slot i).state = .zombie ∧
      reaps (e :: tr) = ((s.slot i).pid, (s.slot i).xstate) :: reaps tr)) :
    Hist (e :: tr) s' := by
  have hlive : ∀ j, (s'.slot j).state ≠ .unused → j ≠ i ∧ s'.slot j = s.slot j := by
    intro j hj
    by_cases hji : j = i
    · rw [hji, hslot, update_self] at hj
      exact absurd rfl hj
    · exact ⟨hji, by rw [hslot, update_of_ne hji]⟩
  have hE : exitedPids (e :: tr) = exitedPids tr := by rw [exitedPids, hexits, exitedPids]
  constructor
  · rw [hnext]
    exact h.pos
  · intro j hj
    obtain ⟨-, heq⟩ := hlive j hj
    rw [heq] at hj ⊢
    rw [hnext]
    exact h.issued j hj
  · intro j k hj hk hjk
    obtain ⟨-, hj'⟩ := hlive j hj
    obtain ⟨-, hk'⟩ := hlive k hk
    rw [hj', hk'] at hjk
    rw [hj'] at hj
    rw [hk'] at hk
    exact h.distinct j k hj hk hjk
  · intro u np q hu
    obtain ⟨h1, h2, h3, h4⟩ := h.pending u np q (hpc u np q hu)
    rw [hnext, hE]
    refine ⟨h1, h2, h3, fun j hj => ?_⟩
    obtain ⟨-, heq⟩ := hlive j hj
    rw [heq] at hj ⊢
    exact h4 j hj
  · intro u v np₁ np₂ q hu hv
    exact h.pendingDistinct u v np₁ np₂ q (hpc u np₁ q hu) (hpc v np₂ q hv)
  · rw [hnext, hE]
    exact h.exited
  · intro j hj hz
    obtain ⟨-, heq⟩ := hlive j hj
    rw [heq] at hj hz ⊢
    rw [hE]
    exact h.running j hj hz
  · intro j hz
    obtain ⟨hji, heq⟩ := hlive j (by rw [hz]; decide)
    rw [heq] at hz ⊢
    obtain ⟨hin, hnot⟩ := h.zombie j hz
    refine ⟨by rwa [hexits], ?_⟩
    rcases hreaps with hr | ⟨hzi, hr⟩
    · rwa [reapedPids, hr]
    · rw [reapedPids, hr, List.map_cons, List.mem_cons, not_or]
      refine ⟨fun hpid => hji (h.distinct j i ?_ ?_ hpid), hnot⟩
      · rw [hz]
        decide
      · rw [hzi]
        decide
  · rw [hE]
    exact h.exits_nodup
  · rcases hreaps with hr | ⟨hzi, hr⟩
    · rw [reapedPids, hr]
      exact h.reaps_nodup
    · rw [reapedPids, hr, List.map_cons, List.nodup_cons]
      exact ⟨(h.zombie i hzi).2, h.reaps_nodup⟩
  · rw [hexits]
    rcases hreaps with hr | ⟨hzi, hr⟩
    · rw [hr]
      exact h.reaps_sub
    · rw [hr, List.cons_subset]
      exact ⟨(h.zombie i hzi).1, h.reaps_sub⟩

/-- A process exits. -/
lemma Hist.die {status : Int} (h : Hist tr s) (hi : (s.slot i).Alive)
    (hslot : s'.slot = update s.slot i ((s.slot i).exit status s.ticks))
    (hpc : KeepsPending s s') (hnext : s'.nextpid = s.nextpid) :
    Hist (.exited i (s.slot i).pid status :: tr) s' := by
  have hun : (s.slot i).state ≠ .unused := fun hc => Slot.not_alive (Or.inl hc) hi
  have hz : (s.slot i).state ≠ .zombie := fun hc => Slot.not_alive (Or.inr (Or.inr hc)) hi
  have hself : s'.slot i = (s.slot i).exit status s.ticks := by rw [hslot, update_self]
  have hother : ∀ j, j ≠ i → s'.slot j = s.slot j := by
    intro j hj
    rw [hslot, update_of_ne hj]
  have hlive : ∀ j, (s'.slot j).state ≠ .unused →
      (s.slot j).state ≠ .unused ∧ (s'.slot j).pid = (s.slot j).pid := by
    intro j hj
    by_cases hji : j = i
    · rw [hji, hself]
      exact ⟨hun, rfl⟩
    · rw [hother j hji] at hj ⊢
      exact ⟨hj, rfl⟩
  have hE : exitedPids (.exited i (s.slot i).pid status :: tr) = (s.slot i).pid :: exitedPids tr :=
    rfl
  constructor
  · rw [hnext]
    exact h.pos
  · intro j hj
    obtain ⟨hj', hp⟩ := hlive j hj
    rw [hp, hnext]
    exact h.issued j hj'
  · intro j k hj hk hjk
    rw [(hlive j hj).2, (hlive k hk).2] at hjk
    exact h.distinct j k (hlive j hj).1 (hlive k hk).1 hjk
  · intro u np q hu
    obtain ⟨h1, h2, h3, h4⟩ := h.pending u np q (hpc u np q hu)
    rw [hnext, hE, List.mem_cons, not_or]
    refine ⟨h1, h2, ⟨fun hq => h4 i hun hq.symm, h3⟩, fun j hj => ?_⟩
    rw [(hlive j hj).2]
    exact h4 j (hlive j hj).1
  · intro u v np₁ np₂ q hu hv
    exact h.pendingDistinct u v np₁ np₂ q (hpc u np₁ q hu) (hpc v np₂ q hv)
  · rw [hnext, hE]
    simp only [List.mem_cons, forall_eq_or_imp]
    exact ⟨(h.issued i hun).1, h.exited⟩
  · intro j hj hzj
    have hji : j ≠ i := by
      rintro rfl
      rw [hself] at hzj
      exact hzj rfl
    rw [hother j hji] at hj hzj ⊢
    rw [hE, List.mem_cons, not_or]
    exact ⟨fun hp => hji (h.distinct j i hj hun hp), h.running j hj hzj⟩
  · intro j hzj
    by_cases hji : j = i
    · rw [hji, hself]
      refine ⟨List.mem_cons_self, fun hr => h.running i hun hz ?_⟩
      exact List.map_subset _ h.reaps_sub hr
    · rw [hother j hji] at hzj ⊢
      exact ⟨List.mem_cons_of_mem _ (h.zombie j hzj).1, (h.zombie j hzj).2⟩
  · rw [hE, List.nodup_cons]
    exact ⟨h.running i hun hz, h.exits_nodup⟩
  · exact h.reaps_nodup
  · exact fun q hq => List.mem_cons_of_mem _ (h.reaps_sub hq)

lemma Hist.step (h : Hist tr s) (hstep : IdStep s e s') (hlt : s'.nextpid ≤ 2 ^ 32) :
    Hist (e :: tr) s' := by
  cases hstep with
  | quiet he hslot hpc hnext => exact h.quiet he.exits he.reaps hslot hpc hnext
  | issue t np hslot hnext hpc => exact h.issue hslot hnext hpc (by omega)
  | create t np q hpc _ hslot hpc' hnext => exact h.create hpc hslot hpc' hnext
  | drop i _ hslot hpc hnext => exact h.free hslot hpc hnext rfl (Or.inl rfl)
  | die i status hi hslot hpc hnext => exact h.die hi hslot hpc hnext
  | reap x p i w r hz _ hslot hpc hnext => exact h.free hslot hpc hnext rfl (Or.inr ⟨hz, rfl⟩)

lemma hist_boot : Hist [] boot := by
  have hinit : ∀ i, (boot.slot i).state ≠ .unused → i = initproc := by
    intro i hi
    by_contra hne
    rw [boot_slot_of_ne hne] at hi
    exact hi rfl
  refine ⟨by decide, fun i hi => ?_, fun i j hi hj _ => (hinit i hi).trans (hinit j hj).symm,
    fun _ _ _ h => (nomatch h), fun _ _ _ _ _ h => (nomatch h), fun _ h => (nomatch h),
    fun _ _ _ h => (nomatch h), fun i hz => (boot_not_zombie i hz).elim, List.nodup_nil,
    List.nodup_nil, fun _ h => h⟩
  rw [hinit i hi, boot_slot_init]
  decide

lemma nextpid_run (h : Run Step boot tr s) : s.nextpid = 2 + tr.count .numbered := by
  refine h.invariant (I := fun tr s => s.nextpid = 2 + tr.count .numbered) rfl ?_
  intro tr t e u ih hstep
  cases hstep <;> simp [ih]
  rfl

lemma hist_run (h : Run Step boot tr s) (hn : s.nextpid ≤ 2 ^ 32) : Hist tr s := by
  induction h with
  | nil => exact hist_boot
  | snoc hrun hlast ih =>
    have hid := hlast.idStep (inv_run hrun)
    refine (ih ?_).step hid hn
    cases hid <;> omega

/-! ### The tree -/

/-- In every run with fewer than `2 ^ 31` forks: a process that can run, or that waits to be reaped,
has a parent that is alive; no two processes have the same pid; a zombie's slot is freed only by
`wait` or `waitx` of its parent; and no pid is returned twice, nor with another status than the one
passed to `exit`. -/
theorem processTree (tr : List Event) (s : St) (h : Run Step boot tr s)
    (hforks : tr.count .numbered < 2 ^ 31) :
    (∀ i, (s.slot i).state ≠ .unused → (s.slot i).state ≠ .used → i ≠ initproc →
      ∃ q, (s.slot i).parent = some q ∧ (s.slot q).state ≠ .unused ∧
        (s.slot q).state ≠ .zombie) ∧
    (∀ i j, (s.slot i).state ≠ .unused → (s.slot j).state ≠ .unused →
      (s.slot i).pid = (s.slot j).pid → i = j) ∧
    (∀ e s' i, Step s e s' → (s.slot i).state = .zombie → (s'.slot i).state = .unused →
      ∃ x p w r, (s.slot i).parent = some p ∧
        e = .reaped x p i (s.slot i).pid (s.slot i).xstate w r) ∧
    (reapedPids tr).Nodup ∧ (exitedPids tr).Nodup ∧ reaps tr ⊆ exits tr := by
  have hinv := inv_run h
  have hhist : Hist tr s := hist_run h (by rw [nextpid_run h]; omega)
  refine ⟨fun i hun hused hne => ?_, hhist.distinct, fun e s' i hstep hz hfree => ?_,
    hhist.reaps_nodup, hhist.exits_nodup, hhist.reaps_sub⟩
  · have hstate : (s.slot i).Alive ∨ (s.slot i).state = .zombie := by
      unfold Slot.Alive
      cases hst : (s.slot i).state <;> simp_all
    obtain ⟨q, hq⟩ := Option.ne_none_iff_exists'.mp (hinv.table.hasParent i hstate hne)
    have halive := hinv.table.parentAlive i q hq
    exact ⟨q, hq, fun hc => Slot.not_alive (Or.inl hc) halive,
      fun hc => Slot.not_alive (Or.inr (Or.inr hc)) halive⟩
  · cases hstep.idStep hinv with
    | quiet _ hslot _ _ =>
      rw [(hslot i).unused, hz] at hfree
      cases hfree
    | issue t np hslot _ _ =>
      rw [hslot, hz] at hfree
      cases hfree
    | create t np q _ hun hslot _ _ =>
      rw [hslot, update_apply] at hfree
      split_ifs at hfree
      rw [hz] at hfree
      cases hfree
    | drop j hused hslot _ _ =>
      rw [hslot, update_apply] at hfree
      split_ifs at hfree with hij
      · rw [← hij, hz] at hused
        cases hused
      · rw [hz] at hfree
        cases hfree
    | die j status _ hslot _ _ =>
      rw [hslot, update_apply] at hfree
      split_ifs at hfree with hij
      · cases hfree
      · rw [hz] at hfree
        cases hfree
    | reap x p j w r _ hparent hslot _ _ =>
      rw [hslot, update_apply] at hfree
      split_ifs at hfree with hij
      · rw [hij]
        exact ⟨x, p, w, r, hparent, rfl⟩
      · rw [hz] at hfree
        cases hfree

/-- `initproc` makes a child, which exits with status 0, and reaps it. -/
theorem processTree_child :
    ∃ tr s, Run Step boot tr s ∧ tr.count .numbered < 2 ^ 31 ∧ exits tr = [(2, 0)] ∧
      reaps tr = [(2, 0)] ∧ (reapedPids tr).Nodup ∧ reaps tr ⊆ exits tr := by
  have hfork := fork_run (s := started) quiet_boot rfl rfl rfl
  have hbegin := begun_run (s := started.forked) quiet_boot rfl rfl rfl
  have hfound := found_run (s := started.forked.begun) quiet_boot rfl rfl (fun _ => rfl) rfl
    (by decide) (by decide) (by decide)
  have hreap := Step.reap (s := started.forked.begun.found) initproc slotOne true rfl rfl
  have hrun := (((started_run.trans hfork).trans hbegin).trans hfound).snoc hreap
  obtain ⟨-, -, -, hnodup, -, hsub⟩ := processTree _ _ hrun (by decide)
  exact ⟨_, _, hrun, by decide, by decide, by decide, hnodup, hsub⟩

end Xv6.Process
