import Mathlib.Data.BitVec
import Mathlib.Tactic

/-!
# Rings with free-running counters

A ring of `n` slots is read at one counter and written at another. The counters are words of `w`
bits that wrap around, and the slot of a counter is its remainder by `n`, a divisor of `2 ^ w`.
What is queued is in the slots from the one counter up to the other.
-/

namespace Lib

open Function

variable {α : Type*} {w n : Nat} {r t : BitVec w}

/-! ### Counters -/

lemma toNat_succ_sub (h : (t - r).toNat + 1 < 2 ^ w) :
    (t + 1 - r).toNat = (t - r).toNat + 1 := by
  have heq : t + 1 - r = (t - r) + BitVec.ofNat w 1 := by
    rw [add_sub_right_comm]
    rfl
  rw [heq, BitVec.toNat_add, BitVec.toNat_ofNat, Nat.add_mod_mod, Nat.mod_eq_of_lt h]

lemma toNat_sub_succ (h : r ≠ t) : (t - (r + 1)).toNat + 1 = (t - r).toNat := by
  have hpos : (t - r).toNat ≠ 0 := by
    intro hzero
    have hsub : t - r = 0 := BitVec.eq_of_toNat_eq (by simpa using hzero)
    exact h (sub_eq_zero.mp hsub).symm
  have hlt := (t - r).isLt
  have heq : t - r = BitVec.ofNat w ((t - r).toNat - 1) + 1 := by
    refine BitVec.eq_of_toNat_eq ?_
    have hone : (BitVec.ofNat w ((t - r).toNat - 1) + 1).toNat =
        ((t - r).toNat - 1 + 1) % 2 ^ w := by
      rw [← BitVec.toNat_ofNat, BitVec.ofNat_add]
      rfl
    rw [hone, Nat.sub_add_cancel (by omega), Nat.mod_eq_of_lt hlt]
  have hsub : t - (r + 1) = BitVec.ofNat w ((t - r).toNat - 1) := by
    rw [sub_add_eq_sub_sub, heq, add_sub_cancel_right, ← heq]
  rw [hsub, BitVec.toNat_ofNat, Nat.mod_eq_of_lt (by omega), Nat.sub_add_cancel (by omega)]

lemma toNat_pred_sub (h : r ≠ t) : (t - 1 - r).toNat + 1 = (t - r).toNat := by
  rw [sub_right_comm, ← sub_add_eq_sub_sub]
  exact toNat_sub_succ h

/-- A counter in between divides the distance. -/
lemma toNat_sub_add {m : BitVec w} (h : (m - r).toNat ≤ (t - r).toNat) :
    (m - r).toNat + (t - m).toNat = (t - r).toNat := by
  have heq : t - m = (t - r) - (m - r) := (sub_sub_sub_cancel_right t m r).symm
  rw [heq, BitVec.toNat_sub_of_le (BitVec.le_def.mpr h), Nat.add_sub_cancel' h]

/-- The ring is full when the counters are `n` apart. -/
lemma eq_add_iff (hn : n < 2 ^ w) : t = r + BitVec.ofNat w n ↔ (t - r).toNat = n := by
  constructor
  · rintro rfl
    rw [add_sub_cancel_left, BitVec.toNat_ofNat, Nat.mod_eq_of_lt hn]
  · intro h
    have hsub : t - r = BitVec.ofNat w n := BitVec.eq_of_toNat_eq (by simp [h, Nat.mod_eq_of_lt hn])
    rw [← hsub, add_sub_cancel]

/-! ### Slots -/

variable [NeZero n]

/-- The slot of a counter. -/
def slot (n : Nat) [NeZero n] (i : BitVec w) : Fin n := Fin.ofNat n i.toNat

/-- What is in the slots from the counter `r` up to the counter `t`. -/
def queued (data : Fin n → α) (r t : BitVec w) : List α :=
  (List.range (t - r).toNat).map fun k => data (slot n (r + BitVec.ofNat w k))

@[simp]
lemma length_queued (data : Fin n → α) (r t : BitVec w) :
    (queued data r t).length = (t - r).toNat := by
  simp [queued]

@[simp]
lemma queued_self (data : Fin n → α) (r : BitVec w) : queued data r r = [] := by
  simp [queued]

lemma slot_add (hdvd : n ∣ 2 ^ w) (r : BitVec w) (k : Nat) :
    slot n (r + BitVec.ofNat w k) = Fin.ofNat n (r.toNat + k) := by
  ext
  simp only [slot, Fin.val_ofNat, BitVec.toNat_add, BitVec.toNat_ofNat]
  rw [Nat.add_mod_mod, Nat.mod_mod_of_dvd _ hdvd]

/-- Within one round no two counters have the same slot. -/
lemma slot_ne (hdvd : n ∣ 2 ^ w) (r : BitVec w) {j k : Nat} (hjk : j < k) (hk : k < n + j) :
    slot n (r + BitVec.ofNat w j) ≠ slot n (r + BitVec.ofNat w k) := by
  rw [slot_add hdvd, slot_add hdvd]
  intro heq
  have hmod : (r.toNat + j) % n = (r.toNat + k) % n := congrArg Fin.val heq
  have hdiff : (k - j) % n = 0 := by
    have hsub := Nat.sub_mod_eq_zero_of_mod_eq hmod.symm
    rwa [Nat.add_sub_add_left] at hsub
  rw [Nat.mod_eq_of_lt (by omega)] at hdiff
  omega

/-! ### Taking and putting -/

/-- The oldest item is in the slot of the read counter. -/
lemma queued_eq_cons (data : Fin n → α) (h : r ≠ t) :
    queued data r t = data (slot n r) :: queued data (r + 1) t := by
  have hnum : ∀ k, BitVec.ofNat w (k + 1) = 1 + BitVec.ofNat w k := by
    intro k
    rw [BitVec.ofNat_add, add_comm]
    rfl
  simp only [queued]
  rw [← toNat_sub_succ h, List.range_succ_eq_map, List.map_cons, List.map_map]
  congr 1
  · simp
  · refine List.map_congr_left fun k _ => ?_
    simp only [comp_apply, Nat.succ_eq_add_one, hnum, add_assoc]

lemma eq_add_toNat_sub (r t : BitVec w) : t = r + BitVec.ofNat w (t - r).toNat := by
  rw [BitVec.ofNat_toNat, BitVec.setWidth_eq, add_sub_cancel]

/-- When the write counter goes on, what is in its slot comes last. -/
lemma queued_succ (data : Fin n → α) (h : (t - r).toNat + 1 < 2 ^ w) :
    queued data r (t + 1) = queued data r t ++ [data (slot n t)] := by
  simp only [queued]
  rw [toNat_succ_sub h, List.range_succ, List.map_append, List.map_singleton,
    ← eq_add_toNat_sub r t]

/-- The newest item is in the slot before the write counter. -/
lemma queued_eq_concat (data : Fin n → α) (h : r ≠ t) :
    queued data r t = queued data r (t - 1) ++ [data (slot n (t - 1))] := by
  have hlt := (t - r).isLt
  rw [← toNat_pred_sub h] at hlt
  rw [← queued_succ data hlt, sub_add_cancel]

lemma queued_append (data : Fin n → α) {m : BitVec w} (h : (m - r).toNat ≤ (t - r).toNat) :
    queued data r t = queued data r m ++ queued data m t := by
  simp only [queued]
  rw [← toNat_sub_add h, List.range_add, List.map_append, List.map_map]
  congr 1
  refine List.map_congr_left fun k _ => ?_
  simp only [comp_apply]
  rw [BitVec.ofNat_add, ← add_assoc, ← eq_add_toNat_sub r m]

/-- Nothing that is queued is in the slot of the write counter. -/
lemma queued_update_slot (hdvd : n ∣ 2 ^ w) (data : Fin n → α) (x : α)
    (hroom : (t - r).toNat < n) :
    queued (update data (slot n t) x) r t = queued data r t := by
  refine List.map_congr_left fun k hk => ?_
  have hk : k < (t - r).toNat := List.mem_range.mp hk
  refine update_of_ne ?_ x data
  rw [eq_add_toNat_sub r t]
  simpa using slot_ne hdvd r hk (by omega)

/-- An item that is put into the slot of the write counter comes last. -/
lemma queued_update (hdvd : n ∣ 2 ^ w) (hn : n < 2 ^ w) (data : Fin n → α) (x : α)
    (hroom : (t - r).toNat < n) :
    queued (update data (slot n t) x) r (t + 1) = queued data r t ++ [x] := by
  rw [queued_succ _ (by omega), queued_update_slot hdvd data x hroom, update_self]

end Lib
