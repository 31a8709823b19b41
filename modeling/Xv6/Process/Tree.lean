import Xv6.Process.Machine

/-!
# The process tree

Every process has a parent that is alive, whatever the order of `fork`, `exit` and `wait` on the
CPUs.
-/

namespace Xv6.Process

open Function Lib

/-- A process that can run. -/
def Slot.Alive (p : Slot) : Prop :=
  p.state = .sleeping ∨ p.state = .runnable ∨ p.state = .running

namespace Pc

/-- A slot that `allocproc` has found is not yet in use. -/
@[simp] def Fresh : Pc → Fin NPROC → Prop
  | .found np, i | .numbered np _, i => i = np
  | _, _ => False

/-- The slot is being made a child. -/
@[simp] def Making : Pc → Fin NPROC → Prop
  | .used np, i | .copying np, i | .linking np, i | .starting np, i => i = np
  | _, _ => False

/-- The child that is being made has its parent. -/
@[simp] def Linked : Pc → Prop
  | .starting _ => True
  | _ => False

/-- The thread has given slot `i` away if it was its child. -/
@[simp] def Clear : Pc → Fin NPROC → Prop
  | .reparenting _ j, i => i < j
  | .wakingInit _ j _, i => i ≤ j
  | .wakingParent .., _ | .dead, _ | .switching, _ | .gone, _ => True
  | _, _ => False

@[simp] def Exiting : Pc → Prop
  | .closing _ | .reparenting .. | .wakingInit .. | .wakingParent .. | .dead | .switching
  | .gone => True
  | _ => False

/-- The thread of a zombie, which holds its own lock. -/
@[simp] def Dying : Pc → Prop
  | .dead | .switching => True
  | _ => False

/-- The thread may belong to a slot that no process runs in. -/
@[simp] def Idle : Pc → Prop
  | .user | .gone => True
  | _ => False

lemma Clear.exiting {l : Pc} {i : Fin NPROC} (h : l.Clear i) : l.Exiting := by
  cases l <;> simp_all [Clear, Exiting]

end Pc

/-- What the position of a thread says about the table. -/
structure Local (slot : Fin NPROC → Slot) (t : Fin NPROC) (l : Pc) : Prop where
  fresh : ∀ i, l.Fresh i → (slot i).state = .unused
  making : ∀ i, l.Making i → (slot i).state = .used
  linked : ∀ i, l.Making i → l.Linked → (slot i).parent = some t
  unlinked : ∀ i, l.Making i → ¬ l.Linked → (slot i).parent = none
  active : ¬ l.Idle → ¬ l.Dying → (slot t).Alive
  dying : l.Dying → (slot t).state = .zombie
  zombie : (slot t).state = .zombie → l.Dying ∨ l = .gone
  clear : ∀ i, l.Clear i → (slot i).parent ≠ some t
  exiting : l.Exiting → t ≠ initproc
  reaping : ∀ x i, l = .reaping x i → (slot i).state = .zombie ∧ (slot i).parent = some t

/-- What holds of the table by itself. -/
structure Table (slot : Fin NPROC → Slot) : Prop where
  unused : ∀ i, (slot i).state = .unused → (slot i).pid = 0 ∧ (slot i).parent = none
  parentAlive : ∀ i q, (slot i).parent = some q → (slot q).Alive
  hasParent : ∀ i, (slot i).Alive ∨ (slot i).state = .zombie → i ≠ initproc →
    (slot i).parent ≠ none
  init : (slot initproc).Alive

structure Inv (s : St) : Prop where
  table : Table s.slot
  thread : ∀ t, Local s.slot t (s.pc t)
  /-- A lock has one holder. -/
  excl : ∀ i, Excl (fun t l => l.Holds t i) s.pc
  exclWait : Excl (fun _ l => l.HoldsWait) s.pc
  /-- A slot is made a child by one thread. -/
  maker : ∀ i, Excl (fun _ l => l.Fresh i ∨ l.Making i) s.pc

variable {s : St} {slot slot' : Fin NPROC → Slot} {t u i np : Fin NPROC} {l l' : Pc} {p : Slot}
  {status : Int} {q : Option (Fin NPROC)} {s' : St} {x : Bool}

/-! ### Rules for the parts of the invariant -/

/-- The slot has the same process, and one that is as alive. -/
structure Similar (p q : Slot) : Prop where
  parent : q.parent = p.parent
  pid : q.pid = p.pid
  state : q.state = p.state ∨ (p.Alive ∧ q.Alive)

lemma Similar.rfl : Similar p p := ⟨Eq.refl _, Eq.refl _, Or.inl (Eq.refl _)⟩

lemma Similar.alive {q : Slot} (h : Similar p q) : q.Alive ↔ p.Alive := by
  rcases h.state with heq | ⟨hp, hq⟩
  · rw [Slot.Alive, Slot.Alive, heq]
  · exact iff_of_true hq hp

/-- A state in which a process cannot run does not change. -/
lemma Similar.state_iff {q : Slot} (h : Similar p q) {st : ProcState}
    (hst : st = .unused ∨ st = .used ∨ st = .zombie) : q.state = st ↔ p.state = st := by
  rcases h.state with heq | ⟨hp, hq⟩
  · rw [heq]
  · unfold Slot.Alive at hp hq
    rcases hst with rfl | rfl | rfl <;> constructor <;> intro <;> simp_all

lemma Local.similar (h : Local slot u l) (hs : ∀ i, Similar (slot i) (slot' i)) :
    Local slot' u l where
  fresh i hi := ((hs i).state_iff (by simp)).mpr (h.fresh i hi)
  making i hi := ((hs i).state_iff (by simp)).mpr (h.making i hi)
  linked i hi hl := (hs i).parent.trans (h.linked i hi hl)
  unlinked i hi hl := (hs i).parent.trans (h.unlinked i hi hl)
  active hi hd := (hs u).alive.mpr (h.active hi hd)
  dying hd := ((hs u).state_iff (by simp)).mpr (h.dying hd)
  zombie hz := h.zombie (((hs u).state_iff (by simp)).mp hz)
  clear i hi hp := h.clear i hi ((hs i).parent.symm.trans hp)
  exiting := h.exiting
  reaping x i hl := by
    obtain ⟨hz, hp⟩ := h.reaping x i hl
    exact ⟨((hs i).state_iff (by simp)).mpr hz, (hs i).parent.trans hp⟩

lemma Table.similar (h : Table slot) (hs : ∀ i, Similar (slot i) (slot' i)) : Table slot' where
  unused i hi := by
    obtain ⟨hpid, hparent⟩ := h.unused i (((hs i).state_iff (by simp)).mp hi)
    exact ⟨(hs i).pid.trans hpid, (hs i).parent.trans hparent⟩
  parentAlive i q hq := (hs q).alive.mpr (h.parentAlive i q ((hs i).parent.symm.trans hq))
  hasParent i hi hne := by
    rw [(hs i).parent]
    refine h.hasParent i ?_ hne
    rwa [(hs i).alive, (hs i).state_iff (by simp)] at hi
  init := (hs initproc).alive.mpr h.init

lemma similar_update (h : Similar (slot i) p) (j : Fin NPROC) :
    Similar (slot j) (update slot i p j) := by
  by_cases hj : j = i
  · subst hj
    rwa [update_self]
  · rw [update_of_ne hj]
    exact Similar.rfl

/-- One slot changes, and the thread looks at nothing that changes. -/
lemma Local.update (h : Local slot u l) (hf : ¬ l.Fresh i) (hm : ¬ l.Making i)
    (hr : ∀ x, l ≠ .reaping x i) (hc : l.Clear i → p.parent ≠ some u)
    (hself : u = i → (¬ l.Idle → ¬ l.Dying → p.Alive) ∧ (l.Dying → p.state = .zombie) ∧
      (p.state = .zombie → l.Dying ∨ l = .gone)) :
    Local (Function.update slot i p) u l := by
  have hslot : ∀ j, j ≠ i → Function.update slot i p j = slot j :=
    fun j hj => update_of_ne hj _ _
  have hne : ∀ {P : Fin NPROC → Prop}, ¬ P i → ∀ j, P j → j ≠ i := by
    rintro P hP j hj rfl
    exact hP hj
  constructor
  case fresh => exact fun j hj => by rw [hslot j (hne hf j hj)]; exact h.fresh j hj
  case making => exact fun j hj => by rw [hslot j (hne hm j hj)]; exact h.making j hj
  case linked => exact fun j hj hl => by rw [hslot j (hne hm j hj)]; exact h.linked j hj hl
  case unlinked => exact fun j hj hl => by rw [hslot j (hne hm j hj)]; exact h.unlinked j hj hl
  case exiting => exact h.exiting
  case clear =>
    intro j hj
    by_cases hji : j = i
    · subst hji
      rw [update_self]
      exact hc hj
    · rw [hslot j hji]
      exact h.clear j hj
  case reaping =>
    rintro x j rfl
    have hji : j ≠ i := fun hji => hr x (hji ▸ rfl)
    rw [hslot j hji]
    exact h.reaping x j rfl
  all_goals
    by_cases hui : u = i
    · obtain ⟨h1, h2, h3⟩ := hself hui
      subst hui
      rw [update_self]
      assumption
    · rw [hslot u hui]
      first | exact h.active | exact h.dying | exact h.zombie

/-- Thread `t` moves to `l` and the table changes. -/
lemma Inv.step (h : Inv s) (hpc : s'.pc = update s.pc t l) (htable : Table s'.slot)
    (ht : Local s'.slot t l) (hothers : ∀ u, u ≠ t → Local s'.slot u (s.pc u))
    (hholds : ∀ i, l.Holds t i → (s.pc t).Holds t i ∨ s.Free i)
    (hwait : l.HoldsWait → (s.pc t).HoldsWait ∨ s.WaitFree)
    (hmaker : ∀ i, l.Fresh i ∨ l.Making i → ((s.pc t).Fresh i ∨ (s.pc t).Making i) ∨
      ∀ u, u ≠ t → ¬ ((s.pc u).Fresh i ∨ (s.pc u).Making i)) : Inv s' := by
  refine ⟨htable, ?_, ?_, ?_, ?_⟩
  · intro u
    rw [hpc]
    by_cases hu : u = t
    · subst hu
      rw [update_self]
      exact ht
    · rw [update_of_ne hu]
      exact hothers u hu
  · intro i
    rw [hpc]
    exact (h.excl i).update fun hl => (hholds i hl).imp_right fun hfree u _ => hfree u
  · rw [hpc]
    exact h.exclWait.update fun hl => (hwait hl).imp_right fun hfree u _ => hfree u
  · intro i
    rw [hpc]
    exact (h.maker i).update (hmaker i)

/-! ### Moves -/

namespace Move

section

variable (hm : Move s t l l')
include hm

lemma fresh (h : l'.Fresh i) : s.Free i ∧ (s.slot i).state = .unused := by
  cases hm <;> simp_all

lemma making (h : l'.Making i) : l.Making i ∧ ¬ l.Linked ∧ ¬ l'.Linked := by
  cases hm <;> simp_all

lemma clear (h : l'.Clear i) : l.Clear i ∨ (s.slot i).parent ≠ some t := by
  cases hm <;> simp_all
  case reparentSkip j hj =>
    rcases lt_or_eq_of_le h with hlt | rfl
    · exact Or.inl hlt
    · exact Or.inr hj

lemma exiting (h : l'.Exiting) : l.Exiting ∨ t ≠ initproc := by
  cases hm <;> simp_all

lemma reaping (h : l' = .reaping x i) :
    s.Free i ∧ (s.slot i).state = .zombie ∧ (s.slot i).parent = some t := by
  cases hm <;> simp_all

lemma holds (h : l'.Holds t i) : l.Holds t i ∨ s.Free i := by
  cases hm <;> simp_all

lemma holdsWait (h : l'.HoldsWait) : l.HoldsWait ∨ s.WaitFree := by
  cases hm <;> simp_all

lemma not_dying : ¬ l'.Dying := by
  cases hm <;> simp

lemma keeps (hl : Local s.slot t l) (hrun : s.Running t) : Local s.slot t l' where
  fresh i h := (hm.fresh h).2
  making i h := hl.making i (hm.making h).1
  linked i h hlink := ((hm.making h).2.2 hlink).elim
  unlinked i h _ := hl.unlinked i (hm.making h).1 (hm.making h).2.1
  active _ _ := Or.inr (Or.inr hrun)
  dying h := (hm.not_dying h).elim
  zombie h := by
    rw [hrun] at h
    cases h
  clear i h := by
    rcases hm.clear h with h | h
    · exact hl.clear i h
    · exact h
  exiting h := by
    rcases hm.exiting h with h | h
    · exact hl.exiting h
    · exact h
  reaping x i h := (hm.reaping h).2

end

end Move

/-- A slot that is not used and not locked is nobody's future child. -/
lemma Inv.no_maker (h : Inv s) (hfree : s.Free i) (hun : (s.slot i).state = .unused)
    (u : Fin NPROC) : ¬ ((s.pc u).Fresh i ∨ (s.pc u).Making i) := by
  rintro (hf | hm)
  · apply hfree u
    cases hpc : s.pc u <;> simp_all
  · have := (h.thread u).making i hm
    rw [hun] at this
    cases this

lemma Inv.move (h : Inv s) (hrun : s.Running t) (hm : Move s t (s.pc t) l) :
    Inv (s.setPc t l) := by
  refine h.step rfl h.table (hm.keeps (h.thread t) hrun) (fun u _ => h.thread u)
    (fun i hi => hm.holds hi) hm.holdsWait ?_
  rintro i (hf | hmk)
  · obtain ⟨hfree, hun⟩ := hm.fresh hf
    exact Or.inr fun u _ => h.no_maker hfree hun u
  · exact Or.inl (Or.inr (hm.making hmk).1)

/-! ### Steps on one slot -/

/-- A slot changes, but its process stays as alive as it was. -/
lemma Inv.setSlot_similar (h : Inv s) (hs : Similar (s.slot i) p) : Inv (s.setSlot i p) :=
  ⟨h.table.similar (similar_update hs), fun u => (h.thread u).similar (similar_update hs), h.excl,
    h.exclWait, h.maker⟩

lemma similar_wakeup (chan : Option Chan) (p : Slot) : Similar p (p.wakeup chan) := by
  unfold Slot.wakeup
  split_ifs with h
  · exact ⟨rfl, rfl, Or.inr ⟨Or.inl h.1, Or.inr (Or.inl rfl)⟩⟩
  · exact Similar.rfl

lemma similar_kill (p : Slot) : Similar p p.kill := by
  unfold Slot.kill
  split_ifs with h
  · exact ⟨rfl, rfl, Or.inr ⟨Or.inl h, Or.inr (Or.inl rfl)⟩⟩
  · exact ⟨rfl, rfl, Or.inl rfl⟩

lemma similar_updateTime (p : Slot) : Similar p p.updateTime := by
  unfold Slot.updateTime
  split_ifs
  · exact ⟨rfl, rfl, Or.inl rfl⟩
  · exact Similar.rfl

/-- A thread leaves the section in which it made a slot a child. -/
lemma Inv.maker_eq (h : Inv s) (ht : (s.pc t).Fresh i ∨ (s.pc t).Making i)
    (hu : (s.pc u).Fresh i ∨ (s.pc u).Making i) : u = t := h.maker i u t hu ht

/-- The thread of a slot that no process runs in has no lock. -/
lemma Inv.idle (h : Inv s) (hi : (s.slot i).state = .unused ∨ (s.slot i).state = .used) :
    (s.pc i).Idle ∧ ¬ (s.pc i).Dying := by
  have hd : ¬ (s.pc i).Dying := by
    intro hd
    have := (h.thread i).dying hd
    rcases hi with hi | hi <;> rw [hi] at this <;> cases this
  refine ⟨?_, hd⟩
  by_contra hidle
  have := (h.thread i).active hidle hd
  unfold Slot.Alive at this
  rcases hi with hi | hi <;> simp [hi] at this

lemma Slot.not_alive (hp : p.state = .unused ∨ p.state = .used ∨ p.state = .zombie) :
    ¬ p.Alive := by
  unfold Slot.Alive
  rcases hp with hp | hp | hp <;> simp [hp]

/-- Slot `i` changes to `p`: the process in it stays alive if it was, or it had no children. -/
lemma Table.update (h : Table slot)
    (hi : ((slot i).Alive → p.Alive) ∨
      (i ≠ initproc ∧ p.parent ≠ some i ∧ ∀ j, (slot j).parent ≠ some i))
    (hun : p.state = .unused → p.pid = 0 ∧ p.parent = none)
    (hparent : ∀ q, p.parent = some q → (slot q).Alive)
    (hhas : p.Alive ∨ p.state = .zombie → i ≠ initproc → p.parent ≠ none) :
    Table (Function.update slot i p) := by
  have hslot : ∀ j, j ≠ i → Function.update slot i p j = slot j :=
    fun j hj => update_of_ne hj _ _
  have halive : ∀ q, (slot q).Alive → (q = i → p.Alive) → (Function.update slot i p q).Alive := by
    intro q hq hself
    by_cases hqi : q = i
    · subst hqi
      rw [update_self]
      exact hself rfl
    · rwa [hslot q hqi]
  constructor
  · intro j hj
    by_cases hji : j = i
    · subst hji
      rw [update_self] at hj ⊢
      exact hun hj
    · rw [hslot j hji] at hj ⊢
      exact h.unused j hj
  · intro j q hq
    by_cases hji : j = i
    · subst hji
      rw [update_self] at hq
      refine halive q (hparent q hq) ?_
      rintro rfl
      rcases hi with hi | ⟨-, hp, -⟩
      · exact hi (hparent q hq)
      · exact (hp hq).elim
    · rw [hslot j hji] at hq
      refine halive q (h.parentAlive j q hq) ?_
      rintro rfl
      rcases hi with hi | ⟨-, -, hp⟩
      · exact hi (h.parentAlive j q hq)
      · exact (hp j hq).elim
  · intro j hj hne
    by_cases hji : j = i
    · subst hji
      rw [update_self] at hj ⊢
      exact hhas hj hne
    · rw [hslot j hji] at hj ⊢
      exact h.hasParent j hj hne
  · refine halive initproc h.init ?_
    rintro rfl
    rcases hi with hi | ⟨hne, -⟩
    · exact hi h.init
    · exact absurd rfl hne

/-- A thread that is not about to end. -/
lemma Local.of_alive (ht : (slot t).Alive) (hex : ¬ l.Exiting) (hf : ∀ i, ¬ l.Fresh i)
    (hr : ∀ x i, l ≠ .reaping x i)
    (hm : ∀ i, l.Making i → (slot i).state = .used ∧ (l.Linked → (slot i).parent = some t) ∧
      (¬ l.Linked → (slot i).parent = none)) : Local slot t l where
  fresh i hi := (hf i hi).elim
  making i hi := (hm i hi).1
  linked i hi := (hm i hi).2.1
  unlinked i hi := (hm i hi).2.2
  active _ _ := ht
  dying hd := by cases l <;> simp_all
  zombie hz := (Slot.not_alive (Or.inr (Or.inr hz)) ht).elim
  clear i hi := (hex hi.exiting).elim
  exiting hi := (hex hi).elim
  reaping x i hi := (hr x i hi).elim

/-- Thread `t` makes slot `np` a child: it changes the slot to `p` and moves to `l`. -/
lemma Inv.make (h : Inv s) (hrun : s.Running t) (ht : (s.pc t).Fresh np ∨ (s.pc t).Making np)
    (hstate : (s.slot np).state = .unused ∨ (s.slot np).state = .used) (hz : p.state ≠ .zombie)
    (hparent : p.parent = none ∨ p.parent = some t)
    (hun : p.state = .unused → p.pid = 0 ∧ p.parent = none) (hhas : p.Alive → p.parent = some t)
    (hex : ¬ l.Exiting) (hf : ∀ i, ¬ l.Fresh i) (hr : ∀ x i, l ≠ .reaping x i)
    (hm : ∀ i, l.Making i → i = np ∧ p.state = .used ∧ (l.Linked → p.parent = some t) ∧
      (¬ l.Linked → p.parent = none))
    (hholds : ∀ i, l.Holds t i → (s.pc t).Holds t i) (hwait : ¬ l.HoldsWait) :
    Inv ((s.setPc t l).setSlot np p) := by
  have halive : (s.slot t).Alive := Or.inr (Or.inr hrun)
  have hnp : ¬ (s.slot np).Alive := Slot.not_alive (by tauto)
  have hne : t ≠ np := by
    rintro rfl
    exact hnp halive
  apply h.step (t := t) (l := l) rfl
  · apply h.table.update (Or.inl fun ha => (hnp ha).elim) hun
    · intro q hq
      rcases hparent with hp | hp <;> rw [hp] at hq <;> cases hq
      exact halive
    · rintro (ha | hc) _
      · rw [hhas ha]
        simp
      · exact (hz hc).elim
  · refine Local.of_alive ?_ hex hf hr ?_
    · change (update s.slot np p t).Alive
      rwa [update_of_ne hne]
    · intro i hi
      obtain ⟨rfl, hp⟩ := hm i hi
      rwa [St.setSlot_slot_self]
  · intro u hu
    have hmk : ¬ ((s.pc u).Fresh np ∨ (s.pc u).Making np) := fun hmk => hu (h.maker_eq ht hmk)
    apply (h.thread u).update (fun hf => hmk (Or.inl hf)) (fun hm => hmk (Or.inr hm))
    · intro x hx
      have := ((h.thread u).reaping x np hx).1
      rcases hstate with hs | hs <;> rw [hs] at this <;> cases this
    · intro _ hpu
      rcases hparent with hp | hp <;> rw [hp] at hpu <;> cases hpu
      exact hu rfl
    · rintro rfl
      obtain ⟨hidle, hdying⟩ := h.idle hstate
      exact ⟨fun hn => (hn hidle).elim, fun hd => (hdying hd).elim, fun hc => (hz hc).elim⟩
  · exact fun i hi => Or.inl (hholds i hi)
  · exact fun hw => (hwait hw).elim
  · rintro i (hi | hi)
    · exact (hf i hi).elim
    · rw [(hm i hi).1]
      exact Or.inl ht

/-- Thread `t` moves to `l` without taking a lock. -/
lemma Inv.setPc (h : Inv s) (ht : Local s.slot t l)
    (hholds : ∀ i, l.Holds t i → (s.pc t).Holds t i) (hwait : l.HoldsWait → (s.pc t).HoldsWait)
    (hmaker : ∀ i, l.Fresh i ∨ l.Making i → (s.pc t).Fresh i ∨ (s.pc t).Making i) :
    Inv (s.setPc t l) :=
  h.step rfl h.table ht (fun u _ => h.thread u) (fun i hi => Or.inl (hholds i hi))
    (fun hw => Or.inl (hwait hw)) fun i hi => Or.inl (hmaker i hi)

/-- Position `l'` of thread `t` claims no more than `l` does. -/
structure Weaker (t : Fin NPROC) (l l' : Pc) : Prop where
  fresh : ∀ i, l'.Fresh i → l.Fresh i
  making : ∀ i, l'.Making i → l.Making i
  linked : l'.Linked ↔ l.Linked
  dying : ¬ l'.Dying
  clear : ∀ i, l'.Clear i → l.Clear i
  exiting : l'.Exiting → l.Exiting
  reaping : ∀ x i, l' ≠ .reaping x i
  holds : ∀ i, l'.Holds t i → l.Holds t i
  holdsWait : l'.HoldsWait → l.HoldsWait

/-- A running thread moves on inside a part of the code. -/
lemma Inv.weaken (h : Inv s) (hrun : s.Running t) (hpc : s.pc t = l) (hw : Weaker t l l') :
    Inv (s.setPc t l') := by
  have hl := h.thread t
  rw [hpc] at hl
  refine h.setPc ?_ ?_ ?_ ?_
  · refine ⟨fun i hi => hl.fresh i (hw.fresh i hi), fun i hi => hl.making i (hw.making i hi),
      fun i hi hk => hl.linked i (hw.making i hi) (hw.linked.mp hk), fun i hi hk =>
      hl.unlinked i (hw.making i hi) fun hk' => hk (hw.linked.mpr hk'), fun _ _ =>
      Or.inr (Or.inr hrun), fun hd => (hw.dying hd).elim, fun hz => ?_, fun i hi =>
      hl.clear i (hw.clear i hi), fun hi => hl.exiting (hw.exiting hi), fun x i hi =>
      (hw.reaping x i hi).elim⟩
    rw [hrun] at hz
    cases hz
  · rw [hpc]
    exact hw.holds
  · rw [hpc]
    exact hw.holdsWait
  · rw [hpc]
    exact fun i hi => hi.imp (hw.fresh i) (hw.making i)

/-- A process ends: it has given all its children away. -/
lemma Inv.die (h : Inv s) (hrun : s.Running t) (hpc : s.pc t = .wakingParent status q NPROC)
    (hfree : s.Free t) :
    Inv ((s.setPc t .dead).setSlot t ((s.slot t).exit status s.ticks)) := by
  have hlocal := h.thread t
  rw [hpc] at hlocal
  have hinit : t ≠ initproc := hlocal.exiting trivial
  have hclear : ∀ i, (s.slot i).parent ≠ some t := fun i => hlocal.clear i trivial
  have halive : (s.slot t).Alive := Or.inr (Or.inr hrun)
  have hnot : ∀ {st : ProcState}, (s.slot t).state = st → st ≠ .running → False := by
    rintro st rfl hne
    exact hne hrun
  apply h.step (t := t) (l := .dead) rfl
  · apply h.table.update (p := (s.slot t).exit status s.ticks)
      (Or.inr ⟨hinit, hclear t, hclear⟩)
    · intro hc
      cases hc
    · exact fun q hq => h.table.parentAlive t q hq
    · exact fun _ hne => h.table.hasParent t (Or.inl halive) hne
  · refine ⟨fun _ hf => hf.elim, fun _ hm => hm.elim, fun _ hm => hm.elim, fun _ hm => hm.elim,
      fun _ hd => (hd trivial).elim, fun _ => ?_, fun _ => Or.inl trivial, fun i _ => ?_,
      fun _ => hinit, fun _ _ hr => nomatch hr⟩
    · rw [St.setSlot_slot_self]
      rfl
    · rw [St.setSlot_slot, St.setPc_slot]
      split_ifs
      · exact hclear t
      · exact hclear i
  · intro u hu
    apply (h.thread u).update
    · exact fun hf => hnot ((h.thread u).fresh t hf) (by decide)
    · exact fun hm => hnot ((h.thread u).making t hm) (by decide)
    · exact fun x hx => hnot ((h.thread u).reaping x t hx).1 (by decide)
    · exact fun hc => (h.thread u).clear t hc
    · exact fun hut => (hu hut).elim
  · intro i hi
    exact Or.inr (hi ▸ hfree)
  · intro _
    rw [hpc]
    exact Or.inl trivial
  · rintro i (hi | hi) <;> exact hi.elim

/-- A zombie is reaped by its parent. -/
lemma Inv.reap (h : Inv s) (hrun : s.Running t) (hpc : s.pc t = .reaping x i) :
    Inv ((s.setPc t .leaving).setSlot i (s.slot i).freeproc) := by
  have halive : (s.slot t).Alive := Or.inr (Or.inr hrun)
  obtain ⟨hz, hparent⟩ := (h.thread t).reaping x i hpc
  have hne : t ≠ i := by
    rintro rfl
    rw [hrun] at hz
    cases hz
  have hholds : (s.pc t).Holds t i := by
    rw [hpc]
    rfl
  have hnot : ∀ {st : ProcState}, (s.slot i).state = st → st ≠ .zombie → False := by
    rintro st rfl hst
    exact hst hz
  apply h.step (t := t) (l := .leaving) rfl
  · apply h.table.update (Or.inl fun ha => (Slot.not_alive (Or.inr (Or.inr hz)) ha).elim)
    · exact fun _ => ⟨rfl, rfl⟩
    · intro q hq
      cases hq
    · rintro (ha | hc)
      · exact (Slot.not_alive (Or.inl rfl) ha).elim
      · cases hc
  · refine Local.of_alive ?_ id (fun _ => id) (fun _ _ hr => nomatch hr) (fun _ hm => hm.elim)
    rw [St.setSlot_slot, if_neg hne]
    exact halive
  · intro u hu
    apply (h.thread u).update
    · exact fun hf => hnot ((h.thread u).fresh i hf) (by decide)
    · exact fun hm => hnot ((h.thread u).making i hm) (by decide)
    · intro y hy
      refine hu (h.excl i u t ?_ hholds)
      simp [hy]
    · intro _ hp
      cases hp
    · -- the thread of the zombie has released its lock
      rintro rfl
      have hnd : ¬ (s.pc u).Dying := by
        intro hd
        refine hu (h.excl u u t ?_ hholds)
        cases hpcu : s.pc u <;> simp_all
      have hgone : s.pc u = .gone := ((h.thread u).zombie hz).resolve_left hnd
      rw [hgone]
      exact ⟨fun hi => (hi trivial).elim, fun hd => hd.elim, fun _ => Or.inr rfl⟩
  · exact fun i hi => hi.elim
  · intro _
    rw [hpc]
    exact Or.inl trivial
  · rintro i (hi | hi) <;> exact hi.elim

/-- A child is given to `initproc`. -/
lemma Inv.reparent (h : Inv s) (hrun : s.Running t) (hpc : s.pc t = .reparenting status i)
    (hparent : (s.slot i).parent = some t) :
    Inv ((s.setPc t (.wakingInit status i 0)).setSlot i
      { s.slot i with parent := some initproc }) := by
  have hlocal := h.thread t
  rw [hpc] at hlocal
  have hinit : t ≠ initproc := hlocal.exiting trivial
  apply h.step (t := t) (l := .wakingInit status i 0) rfl
  · apply h.table.update (p := { s.slot i with parent := some initproc }) (Or.inl id)
    · intro hun
      rw [(h.table.unused i hun).2] at hparent
      cases hparent
    · intro q hq
      cases hq
      exact h.table.init
    · intro _ _ hp
      cases hp
  · have hslot : ∀ j, (((s.setPc t (.wakingInit status i 0)).setSlot i
        { s.slot i with parent := some initproc }).slot j).state = (s.slot j).state := by
      intro j
      rw [St.setSlot_slot]
      split_ifs with hj
      · rw [hj]
      · rfl
    refine ⟨fun _ hf => hf.elim, fun _ hm => hm.elim, fun _ hm => hm.elim, fun _ hm => hm.elim,
      fun _ _ => ?_, fun hd => hd.elim, fun hz => ?_, fun j hj => ?_, fun _ => hinit,
      fun _ _ hr => nomatch hr⟩
    · exact Or.inr (Or.inr ((hslot t).trans hrun))
    · rw [hslot t, hrun] at hz
      cases hz
    · rw [St.setSlot_slot, St.setPc_slot]
      split_ifs with hji
      · exact fun hp => hinit (Option.some.inj hp).symm
      · refine hlocal.clear j ?_
        have hle : (j : Nat) ≤ i := hj
        have hne : (j : Nat) ≠ i := fun hv => hji (Fin.ext hv)
        exact lt_of_le_of_ne hle hne
  · intro u hu
    have hne : some t ≠ some u := fun htu => hu (Option.some.inj htu).symm
    apply (h.thread u).update
    · intro hf
      rw [(h.table.unused i ((h.thread u).fresh i hf)).2] at hparent
      cases hparent
    · intro hm
      by_cases hl : (s.pc u).Linked
      · rw [(h.thread u).linked i hm hl] at hparent
        exact hne hparent.symm
      · rw [(h.thread u).unlinked i hm hl] at hparent
        cases hparent
    · intro x hx
      rw [((h.thread u).reaping x i hx).2] at hparent
      exact hne hparent.symm
    · exact fun hc hp => (h.thread u).exiting hc.exiting (Option.some.inj hp).symm
    · rintro rfl
      exact ⟨(h.thread u).active, (h.thread u).dying, (h.thread u).zombie⟩
  · exact fun i hi => hi.elim
  · intro _
    rw [hpc]
    exact Or.inl trivial
  · rintro i (hi | hi) <;> exact hi.elim

lemma Inv.of_step {e : Event} (h : Inv s) (hstep : Step s e s') : Inv s' := by
  cases hstep with
  | move t hrun hm => exact h.move hrun hm
  | allocpid t np hrun hpc =>
    have hk : Inv (s.setPc t (.numbered np (int32 s.nextpid))) :=
      h.weaken hrun hpc (by constructor <;> simp)
    exact ⟨hk.table, hk.thread, hk.excl, hk.exclWait, hk.maker⟩
  | setUsed t np pid hrun hpc =>
    have hl := h.thread t
    rw [hpc] at hl
    refine h.make hrun (by simp [hpc]) (Or.inl (hl.fresh np rfl)) (by simp)
      (Or.inl (h.table.unused np (hl.fresh np rfl)).2) (by simp) (by simp [Slot.Alive])
      (by simp) (by simp) (by simp) ?_ (by simp [hpc])
      (by simp)
    intro i hi
    exact ⟨hi, rfl, by simp, fun _ => (h.table.unused np (hl.fresh np rfl)).2⟩
  | allocFail t np hrun hpc =>
    have hl := h.thread t
    rw [hpc] at hl
    exact h.make hrun (by simp [hpc]) (Or.inr (hl.making np rfl)) (by simp [Slot.freeproc])
      (Or.inl rfl) (fun _ => ⟨rfl, rfl⟩) (by simp [Slot.Alive, Slot.freeproc])
      (by simp) (by simp) (by simp) (by simp) (by simp)
      (by simp)
  | allocDone t np hrun hpc =>
    have hl := h.thread t
    rw [hpc] at hl
    have hused := hl.making np rfl
    have hk : Inv (s.setPc t (.copying np)) := h.weaken hrun hpc (by constructor <;> simp)
    -- the thread of the new process starts afresh
    have hnew : Inv ((s.setPc t (.copying np)).setPc np .user) := by
      refine hk.setPc ?_ (by simp) (by simp) (by simp)
      constructor <;> simp [hused]
    exact hnew.setSlot_similar ⟨rfl, rfl, Or.inl rfl⟩
  | copyFail t np hrun hpc =>
    have hl := h.thread t
    rw [hpc] at hl
    exact h.make hrun (by simp [hpc]) (Or.inr (hl.making np rfl)) (by simp [Slot.freeproc])
      (Or.inl rfl) (fun _ => ⟨rfl, rfl⟩) (by simp [Slot.Alive, Slot.freeproc])
      (by simp) (by simp) (by simp) (by simp) (by simp)
      (by simp)
  | link t np hrun hpc hwait =>
    have hl := h.thread t
    rw [hpc] at hl
    have hused := hl.making np rfl
    refine h.make hrun (by simp [hpc]) (Or.inr hused) (by simp [hused])
      (Or.inr rfl) (by simp [hused]) (by simp) (by simp) (by simp) (by simp)
      ?_ (by simp) (by simp)
    intro i hi
    exact ⟨hi, hused, fun _ => rfl, by simp⟩
  | start t np hrun hpc hfree =>
    have hl := h.thread t
    rw [hpc] at hl
    have hparent := hl.linked np rfl trivial
    exact h.make hrun (by simp [hpc]) (Or.inr (hl.making np rfl)) (by simp)
      (Or.inr hparent) (by simp) (fun _ => hparent) (by simp) (by simp)
      (by simp) (by simp) (by simp) (by simp)
  | reparent t j status hrun hpc hparent => exact h.reparent hrun hpc hparent
  | wakeInit t k status j hrun hpc hne hfree =>
    have hk : Inv (s.setPc t (.wakingInit status j (k + 1))) :=
      h.weaken hrun hpc (by constructor <;> simp)
    exact hk.setSlot_similar (similar_wakeup _ _)
  | wakeParent t k status q hrun hpc hne hfree =>
    have hk : Inv (s.setPc t (.wakingParent status q (k + 1))) :=
      h.weaken hrun hpc (by constructor <;> simp)
    exact hk.setSlot_similar (similar_wakeup _ _)
  | die t status q hrun hpc hfree => exact h.die hrun hpc hfree
  | deadRelease t hpc =>
    have hl := h.thread t
    rw [hpc] at hl
    refine h.setPc ?_ (by simp [hpc]) (by simp) (by simp)
    exact ⟨hl.fresh, hl.making, hl.linked, hl.unlinked, hl.active, hl.dying,
      fun _ => Or.inl trivial, hl.clear, hl.exiting, by simp⟩
  | deadSwitch t hpc =>
    have hl := h.thread t
    rw [hpc] at hl
    refine h.setPc ?_ (by simp) (by simp) (by simp)
    exact ⟨hl.fresh, hl.making, hl.linked, hl.unlinked, fun hi _ => (hi trivial).elim,
      fun hd => hd.elim, fun _ => Or.inr rfl, hl.clear, hl.exiting, by simp⟩
  | reap t j x hrun hpc => exact h.reap hrun hpc
  | sleepWait t x hrun hpc =>
    have hk : Inv (s.setPc t (.waiting x)) := h.weaken hrun hpc (by constructor <;> simp)
    exact hk.setSlot_similar ⟨rfl, rfl, Or.inr ⟨Or.inr (Or.inr hrun), Or.inl rfl⟩⟩
  | killHit t j pid hrun hpc hfree hpid =>
    have hk : Inv (s.setPc t .user) := h.weaken hrun hpc (by constructor <;> simp)
    exact hk.setSlot_similar (similar_kill _)
  | setkilled t hrun hpc hfree =>
    exact h.setSlot_similar ⟨rfl, rfl, Or.inl rfl⟩
  | yield t hrun hpre hfree =>
    exact h.setSlot_similar ⟨rfl, rfl, Or.inr ⟨Or.inr (Or.inr hrun), Or.inr (Or.inl rfl)⟩⟩
  | sleep t chan hrun hpc hfree =>
    exact h.setSlot_similar ⟨rfl, rfl, Or.inr ⟨Or.inr (Or.inr hrun), Or.inl rfl⟩⟩
  | wakeup k chan hfree => exact h.setSlot_similar (similar_wakeup _ _)
  | schedule i hrun hfree =>
    exact h.setSlot_similar ⟨rfl, rfl, Or.inr ⟨Or.inr (Or.inl hrun), Or.inr (Or.inr rfl)⟩⟩
  | tick hclock => exact ⟨h.table, h.thread, h.excl, h.exclWait, h.maker⟩
  | charge k hclock hfree =>
    have hk := h.setSlot_similar (similar_updateTime (s.slot k))
    exact ⟨hk.table, hk.thread, hk.excl, hk.exclWait, hk.maker⟩
  | chargeDone hclock => exact ⟨h.table, h.thread, h.excl, h.exclWait, h.maker⟩
  | wakeTicks k hclock hfree =>
    have hk := h.setSlot_similar (similar_wakeup (some .ticks) (s.slot k))
    exact ⟨hk.table, hk.thread, hk.excl, hk.exclWait, hk.maker⟩
  | tickDone hclock => exact ⟨h.table, h.thread, h.excl, h.exclWait, h.maker⟩

lemma boot_slot_of_ne (hi : i ≠ initproc) : boot.slot i = .empty := by
  simp [boot, hi]

lemma boot_slot_init : boot.slot initproc = .first := by
  simp [boot]

lemma boot_parent (i : Fin NPROC) : (boot.slot i).parent = none := by
  by_cases hi : i = initproc
  · rw [hi, boot_slot_init]
    rfl
  · rw [boot_slot_of_ne hi]
    rfl

lemma boot_not_zombie (i : Fin NPROC) : (boot.slot i).state ≠ .zombie := by
  by_cases hi : i = initproc
  · rw [hi, boot_slot_init]
    decide
  · rw [boot_slot_of_ne hi]
    decide

lemma inv_boot : Inv boot := by
  refine ⟨⟨fun i hi => ?_, fun i q hq => ?_, fun i hi hne => ?_, ?_⟩, fun t => ?_,
    fun _ _ _ h => h.elim, fun _ _ h => h.elim, fun _ _ _ h => (h.elim id id).elim⟩
  · refine ⟨?_, boot_parent i⟩
    by_cases hinit : i = initproc
    · rw [hinit, boot_slot_init] at hi
      cases hi
    · rw [boot_slot_of_ne hinit]
      rfl
  · rw [boot_parent] at hq
    cases hq
  · rw [boot_slot_of_ne hne] at hi
    rcases hi with hi | hi
    · exact (Slot.not_alive (Or.inl rfl) hi).elim
    · cases hi
  · rw [boot_slot_init]
    exact Or.inr (Or.inl rfl)
  · exact ⟨fun _ h => h.elim, fun _ h => h.elim, fun _ h => h.elim, fun _ h => h.elim,
      fun h _ => (h trivial).elim, fun h => h.elim, fun h => (boot_not_zombie t h).elim,
      fun _ h => h.elim, fun h => h.elim, fun _ _ h => nomatch h⟩

lemma inv_run {tr : List Event} (h : Run Step boot tr s) : Inv s :=
  h.invariant (I := fun _ s => Inv s) inv_boot fun _ _ _ _ hi hstep => hi.of_step hstep

end Xv6.Process
