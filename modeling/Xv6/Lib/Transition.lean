import Mathlib.Tactic

/-!
# Runs of a step relation

A step relation `step s e t` takes a state `s` to `t` with the event `e`. A run is a finite
sequence of steps; its trace has the newest event first. An invariant may speak about the trace
as well as about the state.
-/

namespace Lib

open Function

variable {σ ε : Type*} {step : σ → ε → σ → Prop} {s t : σ} {tr : List ε}

inductive Run (step : σ → ε → σ → Prop) (s : σ) : List ε → σ → Prop where
  | nil : Run step s [] s
  | snoc {tr : List ε} {t u : σ} {e : ε} :
      Run step s tr t → step t e u → Run step s (e :: tr) u

/-- What holds at the start and is kept by every step holds at the end of every run. -/
lemma Run.invariant {I : List ε → σ → Prop} (h : Run step s tr t) (h0 : I [] s)
    (hstep : ∀ tr t e u, I tr t → step t e u → I (e :: tr) u) : I tr t := by
  induction h with
  | nil => exact h0
  | snoc _ hlast ih => exact hstep _ _ _ _ ih hlast

/-- A run with fewer steps allowed is a run. -/
lemma Run.mono {step' : σ → ε → σ → Prop} (h : Run step s tr t)
    (hsub : ∀ s e t, step s e t → step' s e t) : Run step' s tr t := by
  induction h with
  | nil => exact .nil
  | snoc _ hlast ih => exact ih.snoc (hsub _ _ _ hlast)

lemma Run.trans {tr' : List ε} {u : σ} (h : Run step s tr t) (h' : Run step t tr' u) :
    Run step s (tr' ++ tr) u := by
  induction h' with
  | nil => exact h
  | snoc _ hlast ih => exact ih.snoc hlast

lemma Run.single {e : ε} (h : step s e t) : Run step s [e] t := Run.nil.snoc h

/-- The same event again and again. -/
lemma Run.iterate {g : Nat → σ} {e : ε} (n : Nat) (h : ∀ j < n, step (g j) e (g (j + 1))) :
    Run step (g 0) (List.replicate n e) (g n) := by
  induction n with
  | zero => exact .nil
  | succ n ih => exact (ih fun j hj => h j (by omega)).snoc (h n n.lt_succ_self)

/-! ### Exclusion

Threads stand at positions, and `H t l` says that thread `t` at position `l` has a resource that
only one of them may have. -/

section

variable {ι π : Type*} {H : ι → π → Prop} {pc : ι → π}

/-- At most one thread has the resource. -/
def Excl (H : ι → π → Prop) (pc : ι → π) : Prop := ∀ t u, H t (pc t) → H u (pc u) → t = u

/-- One thread moves, and if it now has the resource then nobody else had it. -/
lemma Excl.update [DecidableEq ι] {t : ι} {l : π} (h : Excl H pc)
    (ht : H t l → H t (pc t) ∨ ∀ u, u ≠ t → ¬ H u (pc u)) :
    Excl H (Function.update pc t l) := by
  have hother : ∀ u, u ≠ t → H t l → ¬ H u (pc u) := by
    intro u hu hl hH
    rcases ht hl with hold | hnone
    · exact hu (h u t hH hold)
    · exact hnone u hu hH
  intro u v hu hv
  by_cases hut : u = t <;> by_cases hvt : v = t
  · rw [hut, hvt]
  · rw [hut, update_self] at hu
    rw [update_of_ne hvt] at hv
    exact (hother v hvt hu hv).elim
  · rw [hvt, update_self] at hv
    rw [update_of_ne hut] at hu
    exact (hother u hut hv hu).elim
  · rw [update_of_ne hut] at hu
    rw [update_of_ne hvt] at hv
    exact h u v hu hv

end

/-! ### Locks

The word of a lock names its holder, and `H l` says that a thread at position `l` has the lock. -/

section

variable {ι π : Type*} {H : π → Prop} {pc : ι → π} {owner : Option ι} {t u : ι} {l : π}

/-- The lock names the thread that has it. -/
def Owner (H : π → Prop) (owner : Option ι) (pc : ι → π) : Prop := ∀ t, owner = some t ↔ H (pc t)

lemma Owner.eq (h : Owner H owner pc) (ht : H (pc t)) (hu : H (pc u)) : t = u :=
  Option.some.inj (((h t).mpr ht).symm.trans ((h u).mpr hu))

variable [DecidableEq ι]

lemma Owner.update {o : Option ι} (h : Owner H owner pc) (ht : o = some t ↔ H l)
    (hother : ∀ u, u ≠ t → (o = some u ↔ owner = some u)) :
    Owner H o (Function.update pc t l) := by
  intro u
  by_cases hut : u = t
  · rw [hut, update_self, ht]
  · rw [update_of_ne hut, hother u hut, h u]

/-- A thread moves and has the lock if it had it. -/
lemma Owner.move (h : Owner H owner pc) (hl : H l ↔ H (pc t)) :
    Owner H owner (Function.update pc t l) :=
  h.update ((h t).trans hl.symm) fun _ _ => Iff.rfl

lemma Owner.acquire (h : Owner H none pc) (hl : H l) :
    Owner H (some t) (Function.update pc t l) :=
  h.update (iff_of_true rfl hl) fun u hut => by simp [hut.symm]

lemma Owner.release (h : Owner H owner pc) (ht : H (pc t)) (hl : ¬ H l) :
    Owner H none (Function.update pc t l) :=
  h.update (iff_of_false (by simp) hl) fun u hut => by simp [(h t).mpr ht, hut.symm]

end

/-! ### Totals

A counter that is changed where threads enter and leave a section is the total of the weights of
their positions. -/

section

variable {ι π : Type*} {w : π → Nat} {pc : ι → π}

/-- One element of a sum changes. -/
lemma sum_update [DecidableEq ι] {S : Finset ι} {t : ι} (h : t ∈ S) (w : π → Nat) (pc : ι → π)
    (l : π) :
    ∑ u ∈ S, w (update pc t l u) + w (pc t) = ∑ u ∈ S, w (pc u) + w l := by
  rw [← Finset.add_sum_erase _ (fun u => w (update pc t l u)) h,
    ← Finset.add_sum_erase _ (fun u => w (pc u)) h]
  have hrest : ∑ u ∈ S.erase t, w (update pc t l u) = ∑ u ∈ S.erase t, w (pc u) := by
    apply Finset.sum_congr rfl
    intro u hu
    rw [update_of_ne (Finset.ne_of_mem_erase hu)]
  rw [hrest, update_self]
  ring

variable [Fintype ι]

/-- The total weight of the positions of all threads. -/
def total (w : π → Nat) (pc : ι → π) : Nat := ∑ t, w (pc t)

/-- One thread moves. -/
lemma total_update [DecidableEq ι] (w : π → Nat) (pc : ι → π) (t : ι) (l : π) :
    total w (update pc t l) + w (pc t) = total w pc + w l :=
  sum_update (Finset.mem_univ t) w pc l

lemma le_total (w : π → Nat) (pc : ι → π) (t : ι) : w (pc t) ≤ total w pc :=
  Finset.single_le_sum (f := fun u => w (pc u)) (fun _ _ => Nat.zero_le _) (Finset.mem_univ t)

/-- Totals compare as the weights do. -/
lemma total_le_mul {w' : π → Nat} {k : Nat} (h : ∀ l, w l ≤ w' l * k) (pc : ι → π) :
    total w pc ≤ total w' pc * k := by
  unfold total
  rw [Finset.sum_mul]
  exact Finset.sum_le_sum fun t _ => h (pc t)

lemma total_eq_zero : total w pc = 0 ↔ ∀ t, w (pc t) = 0 := by
  simp [total]

end

end Lib
