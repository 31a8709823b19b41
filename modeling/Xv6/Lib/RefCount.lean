import Mathlib.Data.Fintype.Card
import Mathlib.Tactic

/-!
# Counting references

A finite family of slots, each of which may hold a reference to an object. `refCount f p` is the
number of slots of `f` that refer to `p`. The lemmas say how the count moves when one slot
changes.
-/

namespace Lib

variable {H P : Type*} [Fintype H] [DecidableEq P] {f f' : H → Option P} {p : P} {h : H}

/-- The number of slots that refer to `p`. -/
def refCount (f : H → Option P) (p : P) : Nat :=
  (Finset.univ.filter fun h => f h = some p).card

lemma refCount_pos_iff : 0 < refCount f p ↔ ∃ h, f h = some p := by
  simp [refCount, Finset.card_pos, Finset.filter_nonempty_iff]

lemma refCount_eq_zero_iff : refCount f p = 0 ↔ ∀ h, f h ≠ some p := by
  simp [refCount, Finset.filter_eq_empty_iff]

/-- An object with a single reference is found in one slot only. -/
lemma eq_of_refCount_eq_one (h1 : refCount f p = 1) {h' : H} (hh : f h = some p)
    (hh' : f h' = some p) : h = h' := by
  obtain ⟨a, ha⟩ := Finset.card_eq_one.mp h1
  have hmem : ∀ x, f x = some p → x = a := by
    intro x hx
    have : x ∈ Finset.univ.filter fun h => f h = some p := by simp [hx]
    rw [ha] at this
    simpa using this
  rw [hmem h hh, hmem h' hh']

variable [DecidableEq H]

/-- Changing one slot moves the counts of its old and its new referent, and no others. -/
lemma refCount_change (hne : ∀ x, x ≠ h → f' x = f x) (p : P) :
    refCount f' p + (if f h = some p then 1 else 0)
      = refCount f p + (if f' h = some p then 1 else 0) := by
  have key : ∀ g : H → Option P, refCount g p
      = ((Finset.univ.erase h).filter fun x => g x = some p).card
        + (if g h = some p then 1 else 0) := by
    intro g
    unfold refCount
    rw [← Finset.insert_erase (Finset.mem_univ h), Finset.filter_insert]
    split_ifs with hg
    · rw [Finset.card_insert_of_notMem (by simp)]
      simp
    · simp
  have hrest : (Finset.univ.erase h).filter (fun x => f' x = some p)
      = (Finset.univ.erase h).filter (fun x => f x = some p) := by
    apply Finset.filter_congr
    intro x hx
    rw [hne x (Finset.ne_of_mem_erase hx)]
  rw [key f, key f', hrest]
  omega

/-- A slot that comes to refer to `p`. -/
lemma refCount_attach (hne : ∀ x, x ≠ h → f' x = f x) (hold : f h = none) (hnew : f' h = some p)
    (q : P) : refCount f' q = refCount f q + if q = p then 1 else 0 := by
  have hc := refCount_change hne q
  rw [hold, hnew] at hc
  simp only [reduceCtorEq, if_false, Option.some.injEq, eq_comm (a := p)] at hc
  omega

/-- A slot that no longer refers to `p`. -/
lemma refCount_detach (hne : ∀ x, x ≠ h → f' x = f x) (hold : f h = some p) (hnew : f' h = none)
    (q : P) : refCount f' q + (if q = p then 1 else 0) = refCount f q := by
  have hc := refCount_change hne q
  rw [hold, hnew] at hc
  simp only [reduceCtorEq, if_false, Option.some.injEq, eq_comm (a := p)] at hc
  omega

omit [DecidableEq H] in
/-- Renaming the holders moves no count. -/
lemma refCount_equiv {H' : Type*} [Fintype H'] (e : H' ≃ H) (f : H → Option P) (p : P) :
    refCount (fun x => f (e x)) p = refCount f p := by
  unfold refCount
  apply Finset.card_equiv e
  intro x
  simp

end Lib
