import Xv6.Sorting.SortFiles

/-!
# The range of the keys

`range` and the index of an entry are `int`s that hold the difference of two `uint64_t`s. The key
of an id is the id widened to 64 bits, so that a negative id has a very large key.
-/

namespace Xv6.Sorting

open Lib

variable {time : List UInt8 → Int} {files : List FileEntry} {f : FileEntry}

/-- `range` holds that number, and every index is one of the `range` cells. -/
structure RangeExact (files : List FileEntry) : Prop where
  range : keyRange (minVal files) (maxVal files) = width files
  pos : 0 < keyRange (minVal files) (maxVal files)
  index : ∀ f ∈ files, 0 ≤ keyIndex (minVal files) f ∧
    keyIndex (minVal files) f < keyRange (minVal files) (maxVal files)

/-- The entry has an `int` for its id. -/
def IntId (f : FileEntry) : Prop := -2 ^ 31 ≤ f.id ∧ f.id < 2 ^ 31

instance (f : FileEntry) : Decidable (IntId f) := inferInstanceAs (Decidable (_ ∧ _))

lemma toInt_lt (x : Nat) : toInt x < 2 ^ 31 := by
  unfold toInt
  simpa using BitVec.toInt_lt (x := BitVec.ofNat 32 x)

/-- The range is exact if the keys are close together, and only then. -/
lemma rangeExact_iff_close (hne : files ≠ []) : RangeExact files ↔ Close files := by
  rw [close_iff_width_lt hne]
  constructor
  · intro h
    rw [← h.range]
    exact toInt_lt _
  · intro h
    have hclose := (close_iff_width_lt hne).mpr h
    obtain ⟨g, fs, rfl⟩ := List.exists_cons_of_ne_nil hne
    have hfits := hclose.fits
    have hrange := hclose.keyRange_eq
    have hle := (minKey_spec fs g.sortKey).2 _ (maxKey_spec fs g.sortKey).1
    refine ⟨hrange, ?_, fun f hf => ?_⟩
    · rw [minVal, maxVal, hrange]
      omega
    · have hcell := hfits.cell f hf
      rw [cells, hrange] at hcell
      rw [minVal, maxVal, hfits.keyIndex hf, hrange]
      omega

/-- The key of an id that is negative, or not. -/
lemma toULong_id (h : IntId f) :
    (toULong f.id : Int) = if f.id < 0 then f.id + 2 ^ 64 else f.id := by
  obtain ⟨h1, h2⟩ := h
  rw [toULong_cast]
  split_ifs <;> omega

lemma close_ids_iff (hid : ∀ f ∈ files, IntId f) :
    Close (preprocessSortKeys time files .id) ↔
      ∀ f ∈ files, ∀ g ∈ files, (f.id < 0 ↔ g.id < 0) ∧ f.id - g.id + 1 < 2 ^ 31 := by
  unfold Close preprocessSortKeys
  simp only [List.forall_mem_map, sortKeyOf]
  constructor
  · intro h f hf g hg
    have h1 := h f hf g hg
    have h2 := h g hg f hf
    have hf' := toULong_id (hid f hf)
    have hg' := toULong_id (hid g hg)
    obtain ⟨hf1, hf2⟩ := hid f hf
    obtain ⟨hg1, hg2⟩ := hid g hg
    split_ifs at hf' hg' <;> omega
  · intro h f hf g hg
    obtain ⟨hsign, hdiff⟩ := h f hf g hg
    have hf' := toULong_id (hid f hf)
    have hg' := toULong_id (hid g hg)
    split_ifs at hf' hg' <;> omega

/-- For a list that `main` can read, `range` is exact for names and timestamps, and for ids exactly
if all have the same sign and the largest and the smallest are less than `2 ^ 31 - 1` apart. -/
theorem range_exact_iff (time : List UInt8 → Int) (files : List FileEntry) (column : Column)
    (hpos : 1 ≤ files.length) (hid : ∀ f ∈ files, IntId f) :
    RangeExact (preprocessSortKeys time files column) ↔
      (column = .id →
        ∀ f ∈ files, ∀ g ∈ files, (f.id < 0 ↔ g.id < 0) ∧ f.id - g.id + 1 < 2 ^ 31) := by
  have hne : preprocessSortKeys time files column ≠ [] := by
    intro h
    have hzero := congrArg List.length h
    simp only [preprocessSortKeys, List.length_map, List.length_nil] at hzero
    omega
  rw [rangeExact_iff_close hne]
  by_cases hcol : column = .id
  · subst hcol
    simp only [forall_const]
    exact close_ids_iff hid
  · simp only [hcol, false_implies, iff_true]
    exact close_preprocessSortKeys hcol

def withId (id : Int) : FileEntry := { name := [], id := id, timestamp := [], sortKey := 0 }

/-- The ids 0 and -1: the keys are 0 and `2 ^ 64 - 1`, and `range` is 0. -/
theorem range_not_exact :
    [withId 0, withId (-1)].length ≤ LAZY_THRESHOLD ∧
      (let keyed := preprocessSortKeys (fun _ => 0) [withId 0, withId (-1)] .id
       minVal keyed = 0 ∧ maxVal keyed = 2 ^ 64 - 1 ∧
        keyRange (minVal keyed) (maxVal keyed) = 0 ∧ width keyed = 2 ^ 64 ∧
        ¬RangeExact keyed) := by
  refine ⟨by decide, by decide, by decide, by decide, by decide, fun h => ?_⟩
  exact absurd h.pos (by decide)

/-- The ids -5 and -3. -/
theorem range_exact_iff_negative :
    RangeExact (preprocessSortKeys (fun _ => 0) [withId (-5), withId (-3)] .id) :=
  (range_exact_iff (fun _ => 0) [withId (-5), withId (-3)] .id (by decide)
    (by decide)).mpr (by decide)

end Xv6.Sorting
