import Xv6.Lib.Monitor

/-!
# Sleep locks

`acquiresleep`, `releasesleep` and `holdingsleep` of `sleeplock.c` on one lock, called by any number
of processes. Only a process that has the lock releases it.
-/

namespace Xv6.Sleep

open Lib Function

structure Sleeplock where
  locked : Bool
  pid : Int

inductive Place where
  | out
  /-- The loop of `acquiresleep`. -/
  | acquire
  | has
  | release
  /-- `holdingsleep`, called with the lock or without it. -/
  | holding (has : Bool)

def Place.Has : Place → Prop
  | .has | .release | .holding true => True
  | _ => False

def Place.Wants : Place → Prop
  | .acquire | .release | .holding _ => True
  | _ => False

variable {n : Nat} {pid : Fin n → Int}

inductive Free (t : Fin n) (d : Sleeplock) :
    Place → Option (Fin n × Bool) → Sleeplock → Place → Prop where
  | acquiresleep : Free t d .out none d .acquire
  | releasesleep : Free t d .has none d .release
  | holdingsleep : Free t d .out none d (.holding false)
  | holdingsleepHas : Free t d .has none d (.holding true)

/-- The event is the answer of `holdingsleep`. -/
inductive Locked (pid : Fin n → Int) (t : Fin n) (d : Sleeplock) :
    Place → Option (Fin n × Bool) → Sleeplock → Pos Place Unit → Prop where
  | sleep (h : d.locked = true) : Locked pid t d .acquire none d (.falling () .acquire)
  | take (h : d.locked = false) : Locked pid t d .acquire none ⟨true, pid t⟩ (.free .has)
  | release : Locked pid t d .release none ⟨false, 0⟩ (.waking () 0 .out)
  /-- `releasesleep` after `wakeup`. -/
  | released : Locked pid t d .out none d (.free .out)
  | holding (b : Bool) : Locked pid t d (.holding b) (some (t, d.locked && d.pid == pid t)) d
      (.free (if b then .has else .out))

def code (pid : Fin n → Int) : Code n Sleeplock Place Unit (Fin n × Bool) :=
  ⟨Place.Wants, Free, Locked pid, fun _ _ _ => False⟩

variable {d d' : Sleeplock} {p : Fin n → Place} {s : MSt n Sleeplock Place Unit}
  {e : Option (Fin n × Bool)} {tr : List (Option (Fin n × Bool))} {t : Fin n} {l' : Place}

/-- The words of the lock name the process that has it. -/
structure Inv (pid : Fin n → Int) (d : Sleeplock) (p : Fin n → Place) : Prop where
  named : ∀ t, (p t).Has ↔ d.locked = true ∧ d.pid = pid t
  taken : d.locked = true → ∃ t, (p t).Has

lemma Inv.move (hI : Inv pid d p) (h : l'.Has ↔ (p t).Has) : Inv pid d (update p t l') := by
  have hhas : ∀ u, (update p t l' u).Has ↔ (p u).Has := by
    intro u
    by_cases hut : u = t
    · rw [hut, update_self, h]
    · rw [update_of_ne hut]
  exact ⟨fun u => (hhas u).trans (hI.named u), fun hl => (hI.taken hl).imp fun u => (hhas u).mpr⟩

lemma Inv.locked (hpid : Injective pid) (hI : Inv pid d p) {x : Pos Place Unit}
    (h : Locked pid t d (p t) e d' x) : Inv pid d' (update p t x.place) := by
  have hother : ∀ u, u ≠ t → (d.locked = true → d.pid = pid t) → ¬ (p u).Has := fun u hut hd hu =>
    have hu := (hI.named u).mp hu
    hut (hpid (hu.2.symm.trans (hd hu.1)))
  generalize hl : p t = l at h
  cases h with
  | take h =>
    refine ⟨fun u => ?_, fun _ => ⟨t, by simp [Place.Has]⟩⟩
    by_cases hut : u = t
    · simp [hut, Place.Has]
    · simp [update_of_ne hut, hother u hut (by simp [h]), hpid.ne (Ne.symm hut)]
  | release =>
    have hold := (hI.named t).mp (by simp [hl, Place.Has])
    refine ⟨fun u => ?_, by simp⟩
    by_cases hut : u = t
    · simp [hut, Place.Has]
    · simp [update_of_ne hut, hother u hut fun _ => hold.2]
  | holding b => exact hI.move (by cases b <;> simp [hl, Place.Has])
  | _ => exact hI.move (by simp [hl, Place.Has])

lemma keeps (hpid : Injective pid) : (code pid).Keeps fun _ d _ p => Inv pid d p where
  silent h := h
  free {tr d o p t e d' l} h _ hstep := by
    generalize hl : p t = m at hstep
    cases hstep <;> exact h.move (by simp [hl, Place.Has])
  env _ hstep := hstep.elim
  acquire h _ := h
  locked h hstep := h.locked hpid hstep

def duty (n : Nat) : Duty n Sleeplock Place Unit where
  ready d _ _ := d.locked = false

lemma wakes (pid : Fin n → Int) : (code pid).Wakes (duty n) where
  free h := by cases h <;> exact .refl _ _
  acquire _ := trivial
  known _ _ _ := trivial
  sleeps h _ hx := by
    cases h with
    | sleep h => simp [duty, h]
    | _ => simp [Pos.Waits] at hx
  owes h hbefore hready u := by
    cases h with
    | take => simp [duty] at hready
    | release => exact ⟨rfl, Nat.zero_le _⟩
    | _ => exact (hbefore hready).elim

/-- **Sleep locks exclude.** At most one process has the lock, `holdingsleep` tells whether it is
the caller, and while `lk->lk` is free nobody sleeps unless some process has the lock. -/
theorem sleeplock_excludes (hpid : Injective pid)
    (h : Run (code pid).Step (.init ⟨false, 0⟩ .out) tr s) :
    (∀ t u, (s.places t).Has → (s.places u).Has → t = u) ∧
    (∀ t b s', (code pid).Step s (some (t, b)) s' → (b = true ↔ (s.places t).Has)) ∧
    (∀ t c l, s.lock = none → (s.pc t).Waits c l → ∃ u, (s.places u).Has) := by
  have hI := (keeps hpid).run h (by constructor <;> simp [Place.Has])
  refine ⟨fun t u ht hu => ?_, fun t b s' hstep => ?_, fun t c l hlock hw => ?_⟩
  · exact hpid (((hI.named t).mp ht).2.symm.trans ((hI.named u).mp hu).2)
  · cases hstep with
    | free t l l' e d hpc h => cases h
    | env e d h => exact h.elim
    | locked t l e d x hpc h =>
      cases h
      simp [hI.named]
  · by_contra hnone
    have hready : s.data.locked = false := Bool.eq_false_iff.mpr fun hl => hnone (hI.taken hl)
    exact ((wakes pid).run id (fun _ h => h.elim) h).quiet (Code.run_locked h) hlock hw hready

/-- The second of two processes falls asleep. -/
theorem sleeplock_excludes_two : ∃ tr s,
    Run (code fun t : Fin 2 => (t : Int) + 1).Step (.init ⟨false, 0⟩ .out) tr s ∧
      s.lock = none ∧ (s.pc 1).Waits () .acquire ∧ ∃ u, (s.places u).Has := by
  have hpid : Injective fun t : Fin 2 => (t : Int) + 1 := by decide
  have hinit : Run (code fun t : Fin 2 => (t : Int) + 1).Step (.init ⟨false, 0⟩ .out) [] _ := .nil
  have hrun := hinit
    |>.snoc (.free 0 _ _ _ _ rfl .acquiresleep)
    |>.snoc (.acquire 0 _ rfl rfl trivial)
    |>.snoc (.locked 0 _ _ _ _ rfl (.take rfl))
    |>.snoc (.free 1 _ _ _ _ rfl .acquiresleep)
    |>.snoc (.acquire 1 _ rfl rfl trivial)
    |>.snoc (.locked 1 _ _ _ _ rfl (.sleep rfl))
  have hw : Pos.Waits () Place.acquire (.falling () .acquire) := .inl rfl
  exact ⟨_, _, hrun, rfl, hw, (sleeplock_excludes hpid hrun).2.2 1 _ _ rfl hw⟩

end Xv6.Sleep
