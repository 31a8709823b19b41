import Xv6.Blocks.Inode

/-!
# Recycled buffers

A buffer may be recycled whenever it is not in use and not in the log; its block is then read from
the disk again. Nothing is lost as long as every change of a buffer is given to the log. `writei`
keeps to that, except where `either_copyin` fails: then one buffer has changed that the log need
not know of.
-/

namespace Xv6.Blocks

open Function Lib

variable {sb : Superblock} {s s' s'' : Buffers} {b : Nat} {m : Mem} {W W' : Set Nat}

namespace Buffers

/-- Some buffers have been recycled. -/
def recycle (s : Buffers) (R : Nat → Bool) : Buffers :=
  { s with data := fun b => if R b then s.home b else s.data b }

/-- Every buffer holds what the log or the disk has. -/
def Clean (s : Buffers) : Prop := s.home = s.data

lemma Clean.data_recycle (h : s.Clean) (R : Nat → Bool) : (s.recycle R).data = s.data := by
  funext b
  simp only [recycle, h.symm, ite_self]

/-- Every buffer that is not in the log holds what the disk has. -/
def Synced (s : Buffers) : Prop := ∀ b, s.logged b = false → s.data b = s.home b

lemma Clean.synced (h : s.Clean) : s.Synced := fun b _ => congrFun h.symm b

lemma Clean.synced_touch (h : s.Clean) :
    (s.touch b m).Synced ↔ s.logged b = true ∨ m = s.data b := by
  have hhome : s.home = s.data := h
  constructor
  · intro hs
    rw [or_iff_not_imp_left, Bool.not_eq_true]
    intro hb
    have hsame := hs b hb
    simpa [touch, hb, hhome] using hsame
  · intro hb c hc
    by_cases hcb : c = b
    · subst hcb
      rcases hb with hb | rfl
      · rw [show s.logged c = false from hc] at hb
        contradiction
      · simp [touch, hhome]
    · simp only [touch, update_of_ne hcb, hhome]
      split
      · rw [update_of_ne hcb]
      · rfl

lemma synced_write (h : s.data b = s.home b) : (s.write b m).Synced ↔ s.Synced := by
  refine forall_congr' fun c => ?_
  by_cases hc : c = b
  · simp [write, hc, h]
  · simp [write, hc]

/-- What has changed has been given to the log, and the buffers of `W` are those that were. -/
structure Gives (s : Buffers) (W : Set Nat) (s' : Buffers) : Prop where
  clean : s.Clean → s'.Clean
  logged : ∀ b, s'.logged b = true ↔ s.logged b = true ∨ b ∈ W

lemma Gives.refl (s : Buffers) : s.Gives ∅ s := ⟨id, by simp⟩

lemma Gives.trans (h : s.Gives W s') (h' : s'.Gives W' s'') : s.Gives (W ∪ W') s'' :=
  ⟨h'.clean ∘ h.clean, fun b => by rw [h'.logged, h.logged, or_assoc]; rfl⟩

lemma gives_write (s : Buffers) (b : Nat) (m : Mem) : s.Gives {b} (s.write b m) where
  clean h := by
    unfold Clean at h ⊢
    simp only [Buffers.write, h]
  logged c := by
    by_cases hc : c = b <;> simp [write, hc]

end Buffers

/-- The state is `s0`, or it differs from it by the change of one data block that was not given to
the log. -/
def Touched (sb : Superblock) (s s0 : Buffers) : Prop :=
  s0.Clean ∧ (s = s0 ∨ ∃ b m, sb.datastart ≤ b ∧ s = s0.touch b m)

/-- However buffers are recycled, the change is there or it is not. -/
lemma Touched.data_recycle {s0 : Buffers} (h : Touched sb s s0) (R : Nat → Bool) :
    (s.recycle R).data = s.data ∨ (s.recycle R).data = s0.data := by
  obtain ⟨hclean, rfl | ⟨b, m, -, rfl⟩⟩ := h
  · exact .inl (hclean.data_recycle R)
  · have hother : ∀ c, c ≠ b → ((s0.touch b m).recycle R).data c = s0.data c := by
      intro c hc
      have hhome : s0.home = s0.data := hclean
      simp only [Buffers.recycle, Buffers.touch, hhome]
      split_ifs <;> simp [update_of_ne hc]
    by_cases hcut : R b = true ∧ s0.logged b = false
    · refine .inr (funext fun c => ?_)
      by_cases hc : c = b
      · subst hc
        have hhome : s0.home = s0.data := hclean
        simp [Buffers.recycle, Buffers.touch, hcut, hhome]
      · exact hother c hc
    · refine .inl (funext fun c => ?_)
      by_cases hc : c = b
      · subst hc
        simp only [Buffers.recycle, Buffers.touch]
        split_ifs with h1 h2
        · simp
        · exact absurd ⟨h1, by simpa using h2⟩ hcut
        · rfl
      · rw [hother c hc, Buffers.data_touch, update_of_ne hc]

end Xv6.Blocks
