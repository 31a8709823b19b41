import Mathlib.Data.Set.List
import Xv6.Lib.Table
import Xv6.Sorting.Entries

/-!
# `parallel_counting_sort`

The threads count their parts of the array each for itself and then add their counts to the common
array, one cell at a time with an atomic addition; a schedule says whose turn it is. An access
outside of an array gives `none`.
-/

namespace Xv6.Sorting

open Function Lib

/-! ### The source -/

/-- A 64-bit number as an `int`. -/
def toInt (x : Nat) : Int := (BitVec.ofNat 32 x).toInt

/-- The loop that finds `min_val`. -/
def minKey : Nat → List FileEntry → Nat
  | m, [] => m
  | m, f :: fs => minKey (if f.sortKey < m then f.sortKey else m) fs

/-- The loop that finds `max_val`. -/
def maxKey : Nat → List FileEntry → Nat
  | m, [] => m
  | m, f :: fs => maxKey (if f.sortKey > m then f.sortKey else m) fs

/-- `files[i].sort_key - min_val`, as an `int`. -/
def keyIndex (min : Nat) (f : FileEntry) : Int := toInt (toULong (f.sortKey - min))

/-- `range`. -/
def keyRange (min max : Nat) : Int := toInt (toULong (max - min + 1))

/-- The first loop of `count_thread`, over its part of the array. -/
def countFiles (min : Nat) : List FileEntry → List Int → Option (List Int)
  | [], localCount => some localCount
  | f :: fs, localCount =>
    let index := keyIndex min f
    if 0 ≤ index ∧ index.toNat < localCount.length then
      countFiles min fs (localCount.modify index.toNat (· + 1))
    else
      none

def threadStart (n i : Nat) : Nat := i * (n / THREAD_COUNT)

def threadEnd (n i : Nat) : Nat :=
  if i = THREAD_COUNT - 1 then n else (i + 1) * (n / THREAD_COUNT)

/-- The part of the array that thread `i` counts. -/
def threadPart (files : List FileEntry) (i : Fin THREAD_COUNT) : List FileEntry :=
  (files.take (threadEnd files.length i)).drop (threadStart files.length i)

/-- The common array, and how far each thread is in adding to it. -/
structure Adding where
  count : List Int
  next : Fin THREAD_COUNT → Nat

/-- One atomic addition of thread `t`, which adds the array `locals t`. -/
def addStep (locals : Fin THREAD_COUNT → List Int) (st : Adding) (t : Fin THREAD_COUNT) : Adding :=
  match (locals t)[st.next t]? with
  | some c =>
    { count := st.count.modify (st.next t) (· + c)
      next := update st.next t (st.next t + 1) }
  | none => st

/-- `for(i = 1; i < range; i++) count[i] += count[i - 1]`, after a cell that holds `acc`. -/
def prefixSums (acc : Int) : List Int → List Int
  | [] => []
  | c :: cs => (acc + c) :: prefixSums (acc + c) cs

/-- The last loop, from the last entry to the first. Cells of `output` not yet written are
`none`. -/
def place (min : Nat) : List FileEntry → List Int → List (Option FileEntry) →
    Option (List (Option FileEntry))
  | [], _, output => some output
  | f :: fs, count, output =>
    let index := keyIndex min f
    if 0 ≤ index ∧ index.toNat < count.length then
      let pos := count.getD index.toNat 0 - 1
      if 0 ≤ pos ∧ pos.toNat < output.length then
        place min fs (count.modify index.toNat (· - 1)) (output.set pos.toNat (some f))
      else
        none
    else
      none

/-- The array after `parallel_counting_sort`, if the threads run as in `sched`. -/
def parallelCountingSort (files : List FileEntry) (sched : List (Fin THREAD_COUNT)) :
    Option (List FileEntry) := do
  let f ← files.head?
  let min := minKey f.sortKey files.tail
  let max := maxKey f.sortKey files.tail
  let range := keyRange min max
  let locals ← (List.finRange THREAD_COUNT).mapM fun i =>
    countFiles min (threadPart files i) (List.replicate range.toNat 0)
  let st := sched.foldl (addStep fun t => locals.getD t [])
    { count := List.replicate range.toNat 0, next := fun _ => 0 }
  let output ← place min files.reverse (prefixSums 0 st.count) (List.replicate files.length none)
  output.mapM id

/-! ### Keys -/

lemma toInt_of_lt {x : Nat} (h : x < 2 ^ 31) : toInt x = x := by
  unfold toInt
  rw [BitVec.toInt_eq_toNat_of_lt] <;> simp <;> omega

lemma toULong_of_lt {x : Int} (h0 : 0 ≤ x) (h : x < 2 ^ 64) : (toULong x : Int) = x := by
  rw [toULong_cast, Int.emod_eq_of_lt h0 h]

/-- The first loop finds the smallest of the keys. -/
lemma minKey_spec (fs : List FileEntry) : ∀ m, minKey m fs ∈ m :: fs.map FileEntry.sortKey ∧
    ∀ k ∈ m :: fs.map FileEntry.sortKey, minKey m fs ≤ k := by
  induction fs with
  | nil => simp [minKey]
  | cons f fs ih =>
    intro m
    obtain ⟨hmem, hle⟩ := ih (if f.sortKey < m then f.sortKey else m)
    simp only [List.mem_cons, List.map_cons, forall_eq_or_imp] at hmem hle ⊢
    rw [minKey]
    refine ⟨?_, hle.1.trans ?_, hle.1.trans ?_, hle.2⟩
    · rcases hmem with hmem | hmem
      · rw [hmem]
        split_ifs <;> simp
      · exact Or.inr (Or.inr hmem)
    all_goals split_ifs <;> omega

/-- The second loop finds the largest of the keys. -/
lemma maxKey_spec (fs : List FileEntry) : ∀ m, maxKey m fs ∈ m :: fs.map FileEntry.sortKey ∧
    ∀ k ∈ m :: fs.map FileEntry.sortKey, k ≤ maxKey m fs := by
  induction fs with
  | nil => simp [maxKey]
  | cons f fs ih =>
    intro m
    obtain ⟨hmem, hle⟩ := ih (if f.sortKey > m then f.sortKey else m)
    simp only [List.mem_cons, List.map_cons, forall_eq_or_imp] at hmem hle ⊢
    rw [maxKey]
    refine ⟨?_, le_trans ?_ hle.1, le_trans ?_ hle.1, hle.2⟩
    · rcases hmem with hmem | hmem
      · rw [hmem]
        split_ifs <;> simp
      · exact Or.inr (Or.inr hmem)
    all_goals split_ifs <;> omega

/-- The cell of an entry. -/
def cell (min : Nat) (f : FileEntry) : Nat := f.sortKey - min

/-- The keys of the entries lie in an array of `n` cells for the keys from `min` on. -/
structure Fits (min n : Nat) (files : List FileEntry) : Prop where
  lt : n < 2 ^ 31
  le : ∀ f ∈ files, min ≤ f.sortKey
  cell : ∀ f ∈ files, cell min f < n

variable {min n i : Nat} {files fs : List FileEntry} {f : FileEntry}

lemma Fits.sublist (h : Fits min n files) (hsub : fs ⊆ files) : Fits min n fs :=
  ⟨h.lt, fun f hf => h.le f (hsub hf), fun f hf => h.cell f (hsub hf)⟩

lemma Fits.keyIndex (h : Fits min n files) (hf : f ∈ files) :
    keyIndex min f = Sorting.cell min f := by
  have hle := h.le f hf
  have hcell := h.cell f hf
  have hlt := h.lt
  unfold Sorting.cell at hcell ⊢
  unfold Sorting.keyIndex
  have hu : toULong (f.sortKey - min) = f.sortKey - min := by
    zify [hle]
    exact toULong_of_lt (by omega) (by omega)
  rw [hu, toInt_of_lt (by omega)]

/-! ### Counting -/

lemma countFiles_table (h : Fits min n fs) : ∀ g : Nat → Int,
    countFiles min fs (table n g)
      = some (table n fun k => g k + fs.countP (fun f => cell min f = k)) := by
  induction fs with
  | nil => simp [countFiles]
  | cons f fs ih =>
    intro g
    have hcell := h.cell f List.mem_cons_self
    rw [countFiles, h.keyIndex List.mem_cons_self]
    simp only [Int.toNat_natCast, length_table, hcell, Int.natCast_nonneg, and_self, if_true]
    rw [modify_table, ih (h.sublist (List.subset_cons_self f fs))]
    congr 1
    apply table_congr
    intro k _
    rw [List.countP_cons]
    by_cases hk : cell min f = k
    · subst hk
      simp only [update_self, decide_true, if_true]
      push_cast
      ring
    · simp [hk, update_of_ne (Ne.symm hk)]

/-- What the threads have added so far. -/
def added (g : Fin THREAD_COUNT → Nat → Int) (next : Fin THREAD_COUNT → Nat) (k : Nat) : Int :=
  ∑ t, if k < next t then g t k else 0

lemma added_step (g : Fin THREAD_COUNT → Nat → Int) (next : Fin THREAD_COUNT → Nat)
    (t : Fin THREAD_COUNT) :
    added g (update next t (next t + 1))
      = update (added g next) (next t) (added g next (next t) + g t (next t)) := by
  funext k
  unfold added
  have hterm : ∀ t', (if k < update next t (next t + 1) t' then g t' k else 0)
      = (if k < next t' then g t' k else 0) + if t' = t ∧ k = next t then g t k else 0 := by
    intro t'
    by_cases ht : t' = t
    · subst ht
      rw [update_self]
      split_ifs <;> omega
    · simp [ht]
  simp only [hterm, Finset.sum_add_distrib]
  by_cases hk : k = next t
  · subst hk
    simp
  · simp [hk]

lemma addSteps (g : Fin THREAD_COUNT → Nat → Int) (sched : List (Fin THREAD_COUNT)) :
    ∀ next : Fin THREAD_COUNT → Nat, (∀ t, next t ≤ n) →
      sched.foldl (addStep fun t => table n (g t)) ⟨table n (added g next), next⟩
        = ⟨table n (added g fun t => Nat.min n (next t + sched.count t)),
            fun t => Nat.min n (next t + sched.count t)⟩ := by
  induction sched with
  | nil =>
    intro next hle
    have hmin : (fun t => Nat.min n (next t + List.count t [])) = next := by
      funext t
      exact Nat.min_eq_right (hle t)
    rw [List.foldl_nil, hmin]
  | cons t sched ih =>
    intro next hle
    rw [List.foldl_cons]
    by_cases hlt : next t < n
    · have hstep : addStep (fun t => table n (g t)) ⟨table n (added g next), next⟩ t
          = ⟨table n (added g (update next t (next t + 1))),
              update next t (next t + 1)⟩ := by
        simp only [addStep, getElem?_table hlt, modify_table, added_step]
      have hle' : ∀ t', update next t (next t + 1) t' ≤ n := by
        intro t'
        by_cases ht : t' = t
        · subst ht
          rw [update_self]
          exact hlt
        · rw [update_of_ne ht]
          exact hle t'
      have hmin : (fun t' => Nat.min n (update next t (next t + 1) t' + sched.count t'))
          = fun t' => Nat.min n (next t' + (t :: sched).count t') := by
        funext t'
        by_cases ht : t' = t
        · subst ht
          rw [update_self, List.count_cons_self]
          congr 1
          omega
        · rw [update_of_ne ht, List.count_cons_of_ne (Ne.symm ht)]
      rw [hstep, ih _ hle', hmin]
    · -- the thread has added all its counts
      have hstep : addStep (fun t => table n (g t)) ⟨table n (added g next), next⟩ t
          = ⟨table n (added g next), next⟩ := by
        have hnone : (table n (g t))[next t]? = none := by
          rw [List.getElem?_eq_none_iff, length_table]
          omega
        simp only [addStep, hnone]
      have hmin : (fun t' => Nat.min n (next t' + sched.count t'))
          = fun t' => Nat.min n (next t' + (t :: sched).count t') := by
        funext t'
        by_cases ht : t' = t
        · subst ht
          rw [List.count_cons_self]
          exact (Nat.min_eq_left (by omega)).trans (Nat.min_eq_left (by omega)).symm
        · rw [List.count_cons_of_ne (Ne.symm ht)]
      rw [hstep, ih _ hle, hmin]

/-! ### The parts of the threads -/

lemma take_drop_append {α : Type*} (l : List α) {a b c : Nat} (hab : a ≤ b) (hbc : b ≤ c) :
    (l.take b).drop a ++ (l.take c).drop b = (l.take c).drop a := by
  have hb : l.take b = (l.take c).take b := by rw [List.take_take, Nat.min_eq_left hbc]
  rw [hb, List.drop_take]
  have := List.take_append_drop (b - a) ((l.take c).drop a)
  rwa [List.drop_drop, Nat.add_sub_cancel' hab] at this

/-- Together the threads count every entry once. -/
lemma countP_threadParts (files : List FileEntry) (p : FileEntry → Bool) :
    ∑ t, ((threadPart files t).countP p : Int) = files.countP p := by
  let part : Fin 4 → List FileEntry := threadPart files
  let c := files.length / 4
  have hle : 3 * c ≤ files.length := by omega
  have h0 : part 0 = (files.take (1 * c)).drop (0 * c) := rfl
  have h1 : part 1 = (files.take (2 * c)).drop (1 * c) := rfl
  have h2 : part 2 = (files.take (3 * c)).drop (2 * c) := rfl
  have h3 : part 3 = (files.take files.length).drop (3 * c) := rfl
  have hall : part 0 ++ part 1 ++ part 2 ++ part 3 = files := by
    rw [h0, h1, h2, h3, take_drop_append _ (by omega) (by omega),
      take_drop_append _ (by omega) (by omega), take_drop_append _ (by omega) hle]
    simp
  have hcount : (∑ t, ((part t).countP p : Int)) = files.countP p := by
    rw [Fin.sum_univ_four, ← hall]
    simp [List.countP_append, add_assoc]
  exact hcount

/-! ### Sums -/

lemma prefixSums_table (g : Nat → Int) : ∀ n acc, prefixSums acc (table n g)
    = table n fun k => acc + ∑ j ∈ Finset.range (k + 1), g j := by
  have happend : ∀ (cs : List Int) (c acc : Int),
      prefixSums acc (cs ++ [c]) = prefixSums acc cs ++ [acc + cs.sum + c] := by
    intro cs c
    induction cs with
    | nil => simp [prefixSums]
    | cons b cs ih =>
      intro acc
      simp [prefixSums, ih, add_assoc]
  have hsum : ∀ n, (table n g).sum = ∑ j ∈ Finset.range n, g j := by
    intro n
    induction n with
    | zero => simp [table]
    | succ n ih => rw [table_succ, List.sum_append, ih, Finset.sum_range_succ, List.sum_singleton]
  intro n
  induction n with
  | zero => exact fun _ => rfl
  | succ n ih =>
    intro acc
    rw [table_succ, table_succ, happend, ih, hsum, Finset.sum_range_succ, add_assoc]

lemma sum_countP_cell (files : List FileEntry) (k : Nat) :
    ∑ j ∈ Finset.range (k + 1), (files.countP (fun f => cell min f = j) : Int)
      = files.countP (fun f => cell min f ≤ k) := by
  induction k with
  | zero => simp
  | succ k ih =>
    rw [Finset.sum_range_succ, ih, countP_le_eq files (k + 1)]
    push_cast
    congr 3
    funext f
    simp

/-! ### Placing -/

/-- The number of entries with a smaller cell than `k`, and of those with cell `k` among the first
`i`: what `count[k]` holds when the entries from `i` on have been placed. -/
def placed (min : Nat) (files : List FileEntry) (i k : Nat) : Int := rank (cell min) files i k

lemma placed_sub_one (hi : i < files.length) :
    placed min files (i + 1) (cell min files[i]) - 1 = placed min files i (cell min files[i]) := by
  unfold placed rank
  rw [countP_take_succ hi]
  push_cast
  ring

lemma update_placed (hi : i < files.length) :
    update (placed min files (i + 1)) (cell min files[i])
      (placed min files i (cell min files[i])) = placed min files i := by
  funext k
  by_cases hk : k = cell min files[i]
  · subst hk
    rw [update_self]
  · unfold placed rank
    rw [update_of_ne hk, List.take_add_one, List.countP_append,
      List.getElem?_eq_getElem hi]
    simp [Ne.symm hk]

lemma place_eq (h : Fits min n files) (i : Nat) (hi : i ≤ files.length) :
    ∀ output : List (Option FileEntry), output.length = files.length →
      (∀ j : Fin files.length, i ≤ j →
        output[rank (cell min) files j (cell min files[j])]? = some (some files[j])) →
      ∃ out, place min (files.take i).reverse (table n (placed min files i)) output = some out ∧
        out.length = files.length ∧ ∀ j : Fin files.length,
          out[rank (cell min) files j (cell min files[j])]? = some (some files[j]) := by
  induction i with
  | zero => exact fun output hlen hout => ⟨output, rfl, hlen, fun j => hout j (Nat.zero_le _)⟩
  | succ i ih =>
    intro output hlen hout
    have hmem : files[i] ∈ files := List.getElem_mem hi
    have hlt : rank (cell min) files i (cell min files[i]) < files.length := rank_lt_length hi
    have hrev : (files.take (i + 1)).reverse = files[i] :: (files.take i).reverse := by
      rw [List.take_add_one, List.getElem?_eq_getElem hi]
      simp
    have hstep : place min (files.take (i + 1)).reverse (table n (placed min files (i + 1))) output
        = place min (files.take i).reverse (table n (placed min files i))
            (output.set (rank (cell min) files i (cell min files[i])) (some files[i])) := by
      rw [hrev, place, h.keyIndex hmem]
      simp only [Int.toNat_natCast, length_table, h.cell _ hmem, Int.natCast_nonneg, and_self,
        if_true, List.getD_eq_getElem?_getD, getElem?_table (h.cell _ hmem), Option.getD_some,
        modify_table, placed_sub_one hi, update_placed hi]
      simp only [placed, Int.natCast_nonneg, Int.toNat_natCast, hlen, hlt, and_self, if_true]
    rw [hstep]
    apply ih (by omega)
    · simpa using hlen
    · intro j hij
      rcases Nat.eq_or_lt_of_le hij with hij | hij
      · subst hij
        exact List.getElem?_set_self (by omega)
      · have hne : (⟨i, hi⟩ : Fin files.length) ≠ j := Fin.ne_of_val_ne hij.ne
        have hrank : rank (cell min) files i (cell min files[i])
            ≠ rank (cell min) files j (cell min files[j]) := by
          rcases before_or_before (f := cell min) hne with hb | hb
          · exact (rank_lt_rank hb).ne
          · exact (rank_lt_rank hb).ne'
        rw [List.getElem?_set_ne hrank]
        exact hout j hij

/-- The array that has an entry in every place is read back. -/
lemma mapM_id_of_places {out : List (Option FileEntry)} (hlen : out.length = files.length)
    (hout : ∀ j : Fin files.length,
      out[rank (cell min) files j (cell min files[j])]? = some (some files[j])) :
    ∃ sorted, out.mapM id = some sorted ∧ IsStableSort (cell min) files sorted := by
  have hsome : ∀ o ∈ out, o ∈ Set.range (some (α := FileEntry)) := by
    intro o ho
    obtain ⟨p, hp, rfl⟩ := List.getElem_of_mem ho
    obtain ⟨j, hj⟩ := exists_rank_eq (f := cell min) (⟨p, hlen ▸ hp⟩ : Fin files.length)
    have := hout j
    rw [hj, List.getElem?_eq_getElem hp, Option.some_inj] at this
    exact ⟨files[j], this.symm⟩
  have hmap : out ∈ Set.range (List.map (some (α := FileEntry))) := by
    rw [Set.range_list_map]
    exact hsome
  obtain ⟨sorted, rfl⟩ := hmap
  refine ⟨sorted, ?_, by simpa using hlen, fun j => ?_⟩
  · rw [List.mapM_map]
    have := List.mapM_pure (m := Option) (f := id) (l := sorted)
    rwa [List.map_id] at this
  · have := hout j
    rw [List.getElem?_map] at this
    simpa using this

/-! ### The whole sort -/

/-- The number of cells of the arrays of `parallel_counting_sort`. -/
def cells : List FileEntry → Nat
  | [] => 0
  | f :: fs => (keyRange (minKey f.sortKey fs) (maxKey f.sortKey fs)).toNat

/-- The keys are so close together that the number of cells is an `int`. -/
def Close (files : List FileEntry) : Prop :=
  ∀ f ∈ files, ∀ g ∈ files, f.sortKey + 1 < g.sortKey + 2 ^ 31

/-- `min_val` after the first loop of `parallel_counting_sort`. -/
def minVal : List FileEntry → Nat
  | []      => 0
  | f :: fs => minKey f.sortKey fs

/-- `max_val` after the first loop of `parallel_counting_sort`. -/
def maxVal : List FileEntry → Nat
  | []      => 0
  | f :: fs => maxKey f.sortKey fs

/-- The number that `range` is to hold. -/
def width (files : List FileEntry) : Int := maxVal files - minVal files + 1

lemma Close.max_lt (h : Close (f :: fs)) :
    maxKey f.sortKey fs + 1 < minKey f.sortKey fs + 2 ^ 31 := by
  obtain ⟨hmin, -⟩ := minKey_spec fs f.sortKey
  obtain ⟨hmax, -⟩ := maxKey_spec fs f.sortKey
  rw [← List.map_cons, List.mem_map] at hmax hmin
  obtain ⟨g, hg, hgmax⟩ := hmax
  obtain ⟨g', hg', hgmin⟩ := hmin
  rw [← hgmax, ← hgmin]
  exact h g hg g' hg'

lemma close_iff_width_lt (hne : files ≠ []) : Close files ↔ width files < 2 ^ 31 := by
  obtain ⟨f, fs, rfl⟩ := List.exists_cons_of_ne_nil hne
  constructor
  · intro h
    have hlast := h.max_lt
    rw [width, minVal, maxVal]
    omega
  · intro h g hg g' hg'
    have h1 := (maxKey_spec fs f.sortKey).2 _ (List.mem_map_of_mem hg)
    have h2 := (minKey_spec fs f.sortKey).2 _ (List.mem_map_of_mem hg')
    rw [width, minVal, maxVal] at h
    omega

lemma Close.keyRange_eq (h : Close (f :: fs)) :
    keyRange (minKey f.sortKey fs) (maxKey f.sortKey fs)
      = maxKey f.sortKey fs - minKey f.sortKey fs + 1 := by
  have hlast := h.max_lt
  have hle := (minKey_spec fs f.sortKey).2 _ (maxKey_spec fs f.sortKey).1
  have hu : (toULong (maxKey f.sortKey fs - minKey f.sortKey fs + 1) : Int)
      = maxKey f.sortKey fs - minKey f.sortKey fs + 1 := toULong_of_lt (by omega) (by omega)
  rw [keyRange, toInt_of_lt (by omega), hu]

lemma Close.fits (h : Close (f :: fs)) :
    Fits (minKey f.sortKey fs) (cells (f :: fs)) (f :: fs) := by
  obtain ⟨-, hle⟩ := minKey_spec fs f.sortKey
  obtain ⟨hmax, hge⟩ := maxKey_spec fs f.sortKey
  have hlast := h.max_lt
  have hle' := hle _ hmax
  have hcells : cells (f :: fs) = maxKey f.sortKey fs + 1 - minKey f.sortKey fs := by
    rw [cells, h.keyRange_eq]
    omega
  refine ⟨by omega, fun g hg => hle _ (List.mem_map_of_mem hg), fun g hg => ?_⟩
  have := hge _ (List.mem_map_of_mem hg)
  have := hle _ (List.mem_map_of_mem hg)
  rw [hcells, cell]
  omega

/-- What thread `t` counts in cell `k`. -/
def counts (min : Nat) (files : List FileEntry) (t : Fin THREAD_COUNT) (k : Nat) : Int :=
  (threadPart files t).countP (fun f => cell min f = k)

/-- The arrays of the threads: each counts its part. -/
lemma locals_eq (h : Fits min n files) :
    ((List.finRange THREAD_COUNT).mapM fun i =>
        countFiles min (threadPart files i) (List.replicate n 0))
      = some ((List.finRange THREAD_COUNT).map fun t => table n (counts min files t)) := by
  have heach : ∀ t, countFiles min (threadPart files t) (List.replicate n 0)
      = some (table n (counts min files t)) := by
    intro t
    have hsub : threadPart files t ⊆ files :=
      ((List.drop_sublist _ _).trans (List.take_sublist _ _)).subset
    rw [replicate_eq_table, countFiles_table (h.sublist hsub)]
    simp only [zero_add]
    rfl
  simp only [heach]
  exact List.mapM_pure

/-- The common array when every thread has added all its counts. -/
lemma added_all (files : List FileEntry) {next : Fin THREAD_COUNT → Nat} (hnext : ∀ t, next t = n) :
    table n (added (counts min files) next)
      = table n fun k => (files.countP (fun f => cell min f = k) : Int) := by
  apply table_congr
  intro k hk
  rw [added, ← countP_threadParts]
  simp [hnext, hk, counts]

/-- The common array after its sums have been formed: nothing has been placed. -/
lemma prefixSums_placed (files : List FileEntry) :
    prefixSums 0 (table n fun k => (files.countP (fun f => cell min f = k) : Int))
      = table n (placed min files files.length) := by
  rw [prefixSums_table]
  apply table_congr
  intro k _
  rw [sum_countP_cell, countP_le_eq, placed, rank, List.take_length, zero_add]

/-- Once all threads have been joined, the array is sorted by the keys, and the sort is stable. -/
lemma parallelCountingSort_spec {sched : List (Fin THREAD_COUNT)} (hne : files ≠ [])
    (hclose : Close files) (hjoin : ∀ t, cells files ≤ sched.count t) :
    ∃ out, parallelCountingSort files sched = some out ∧
      IsStableSort FileEntry.sortKey files out := by
  obtain ⟨f, fs, rfl⟩ := List.exists_cons_of_ne_nil hne
  have hfits := hclose.fits
  set n := cells (f :: fs) with hn
  set m := minKey f.sortKey fs with hm
  obtain ⟨out, hplace, hlen, hout⟩ := place_eq hfits (f :: fs).length le_rfl
    (List.replicate (f :: fs).length none) (by simp) (fun j hj => absurd j.2 (by omega))
  obtain ⟨sorted, hsorted, hstable⟩ := mapM_id_of_places hlen hout
  refine ⟨sorted, ?_, hstable.congr ?_⟩
  swap
  · intro g hg g' hg'
    have := hfits.le g hg
    have := hfits.le g' hg'
    unfold cell
    omega
  rw [List.take_length] at hplace
  have hget : (fun t : Fin THREAD_COUNT => ((List.finRange THREAD_COUNT).map fun t =>
      table n (counts m (f :: fs) t)).getD t []) = fun t => table n (counts m (f :: fs) t) := by
    funext t
    simp
  have hzero : List.replicate n (0 : Int) = table n (added (counts m (f :: fs)) fun _ => 0) := by
    rw [replicate_eq_table]
    apply table_congr
    simp [added]
  unfold parallelCountingSort
  simp only [List.head?_cons, List.tail_cons, Option.bind_eq_bind, Option.bind_some]
  rw [← hm]
  change ((List.finRange THREAD_COUNT).mapM fun i =>
        countFiles m (threadPart (f :: fs) i) (List.replicate n 0)).bind (fun locals =>
      (place m (f :: fs).reverse (prefixSums 0 (sched.foldl (addStep fun t => locals.getD t [])
        { count := List.replicate n 0, next := fun _ => 0 }).count)
        (List.replicate (f :: fs).length none)).bind fun output => output.mapM id) = some sorted
  rw [locals_eq hfits, Option.bind_some, hget, hzero, addSteps _ _ _ fun _ => Nat.zero_le _,
    added_all _ fun t => Nat.min_eq_left ((hjoin t).trans (Nat.le_add_left _ _)),
    prefixSums_placed, hplace, Option.bind_some, hsorted]

/-- If the number of cells is an `int`, all accesses are inside of the arrays, and the array is left
sorted by the keys, with entries of equal keys as they stood, for every order in which the threads
add their counts. -/
theorem counting_sort_stable (files : List FileEntry) (sched : List (Fin THREAD_COUNT))
    (hne : files ≠ []) (hwidth : width files < 2 ^ 31)
    (hjoin : ∀ t, cells files ≤ sched.count t) :
    ∃ out, parallelCountingSort files sched = some out ∧ out.Perm files ∧
      (out.Pairwise fun a b => a.sortKey ≤ b.sortKey) ∧
      ∀ k, (out.filter fun f => f.sortKey = k) = files.filter fun f => f.sortKey = k := by
  obtain ⟨out, hrun, hsort⟩ :=
    parallelCountingSort_spec hne ((close_iff_width_lt hne).mpr hwidth) hjoin
  have htotal : ∀ a b : FileEntry,
      (decide (a.sortKey ≤ b.sortKey) || decide (b.sortKey ≤ a.sortKey)) = true := by
    intro a b
    simpa using Nat.le_total a.sortKey b.sortKey
  have htrans : ∀ a b c : FileEntry, decide (a.sortKey ≤ b.sortKey) = true →
      decide (b.sortKey ≤ c.sortKey) = true → decide (a.sortKey ≤ c.sortKey) = true := by
    intro a b c hab hbc
    simp only [decide_eq_true_eq] at hab hbc ⊢
    exact hab.trans hbc
  have hstable := stablySorts_mergeSort htotal htrans files
  rw [← hsort.eq_mergeSort] at hstable
  refine ⟨out, hrun, ?_, ?_, fun k => ?_⟩
  · rw [hsort.eq_mergeSort]
    exact List.mergeSort_perm ..
  · simpa using hstable.sorted
  · have hk := hstable.filter { name := [], id := 0, timestamp := [], sortKey := k }
    have halike : (fun f : FileEntry => decide (f.sortKey = k))
        = alike (fun a b : FileEntry => decide (a.sortKey ≤ b.sortKey))
          { name := [], id := 0, timestamp := [], sortKey := k } := by
      funext f
      simp only [alike, ← Bool.decide_and, Nat.le_antisymm_iff, and_comm]
    rw [halike]
    exact hk

/-- Three entries with keys 5, 4 and 5, each thread adding its two cells in turn. -/
theorem counting_sort_stable_three :
    ∃ out, parallelCountingSort
        [⟨[97], 0, [], 5⟩, ⟨[98], 0, [], 4⟩, ⟨[99], 0, [], 5⟩]
        (List.finRange THREAD_COUNT ++ (List.finRange THREAD_COUNT).reverse) = some out ∧
      out.Perm [⟨[97], 0, [], 5⟩, ⟨[98], 0, [], 4⟩, ⟨[99], 0, [], 5⟩] :=
  let ⟨out, hrun, hperm, _⟩ := counting_sort_stable
    [⟨[97], 0, [], 5⟩, ⟨[98], 0, [], 4⟩, ⟨[99], 0, [], 5⟩]
    (List.finRange THREAD_COUNT ++ (List.finRange THREAD_COUNT).reverse)
    (by decide) (by decide) (by decide)
  ⟨out, hrun, hperm⟩

end Xv6.Sorting
