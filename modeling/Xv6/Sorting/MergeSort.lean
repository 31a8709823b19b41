import Xv6.Sorting.Entries

/-!
# `parallel_merge_sort`

An access outside of the array, and a loop that never ends, give `none`. The child threads of a
call sort disjoint parts of the array; `order` says in which order those of the call for a part
run.
-/

namespace Xv6.Sorting

def entryAt (files : List FileEntry) (i : Int) : Option FileEntry :=
  if 0 ≤ i then files[i.toNat]? else none

def setEntry (files : List FileEntry) (i : Int) (f : FileEntry) : Option (List FileEntry) :=
  if 0 ≤ i ∧ i.toNat < files.length then some (files.set i.toNat f) else none

/-- A queue is the part of the array from `index` to `last`. -/
structure MergeQueue where
  index : Int
  last : Int

/-- The loop of `get_min_entry` from queue `i` on; `best` is `min_entry` with `min_idx`, and `none`
for the index `-1`. -/
def getMinEntryFrom (files : List FileEntry) (column : Column) :
    Nat → List MergeQueue → Option (FileEntry × Nat) → Option (Option (FileEntry × Nat))
  | _, [], best => some best
  | i, q :: qs, best =>
    if q.index ≤ q.last then do
      let f ← entryAt files q.index
      match best with
      | none => getMinEntryFrom files column (i + 1) qs (some (f, i))
      | some (m, j) =>
        getMinEntryFrom files column (i + 1) qs
          (some (if compareEntries f m column < 0 then (f, i) else (m, j)))
    else
      getMinEntryFrom files column (i + 1) qs best

def getMinEntry (files : List FileEntry) (queues : List MergeQueue) (column : Column) :
    Option (Option (FileEntry × Nat)) :=
  getMinEntryFrom files column 0 queues none

/-- The loop of `k_way_merge`, with `n` entries of the output still to come. -/
def mergeQueues (files : List FileEntry) (column : Column) :
    Nat → List MergeQueue → Option (List FileEntry)
  | 0, _ => some []
  | n + 1, queues => do
    match ← getMinEntry files queues column with
    | some (m, i) =>
      let output ← mergeQueues files column n
        (queues.modify i fun q => { q with index := q.index + 1 })
      some (m :: output)
    -- without a queue the loop goes on as it is
    | none => none

/-- The part of the array for child or queue `i` of `k`. -/
def chunk (start last : Int) (k i : Nat) : MergeQueue :=
  let chunkSize := (last - start + 1) / k
  { index := start + i * chunkSize
    last := if i = k - 1 then last else start + (i + 1) * chunkSize - 1 }

def kWayMerge (files : List FileEntry) (start last : Int) (k : Nat) (column : Column) :
    Option (List FileEntry) := do
  let queues := (List.range k).map (chunk start last k)
  let output ← mergeQueues files column (last - start + 1).toNat queues
  some (files.take start.toNat ++ output ++ files.drop (last + 1).toNat)

/-- `while (j >= start && compare_entries(&args->files[j], &key, column_type) > 0)` and the
assignment after it, for `j = start + d - 1`. -/
def insertEntry (start : Int) (key : FileEntry) (column : Column) :
    Nat → List FileEntry → Option (List FileEntry)
  | 0, files => setEntry files start key
  | d + 1, files => do
    let f ← entryAt files (start + d)
    if compareEntries f key column > 0 then
      insertEntry start key column d (← setEntry files (start + d + 1) f)
    else
      setEntry files (start + d + 1) key

/-- The insertion sort of a short part, with `n` entries from `start + i` on still to insert. -/
def insertEntries (start : Int) (column : Column) :
    Nat → Nat → List FileEntry → Option (List FileEntry)
  | _, 0, files => some files
  | i, n + 1, files => do
    let key ← entryAt files (start + i)
    insertEntries start column (i + 1) n (← insertEntry start key column i files)

lemma chunk_smaller {start last : Int} (h : ¬ last - start ≤ K_WAY) (i : Fin K_WAY) :
    ((chunk start last K_WAY i).last - (chunk start last K_WAY i).index).toNat
      < (last - start).toNat := by
  simp only [chunk, K_WAY] at *
  have hsize : 1 ≤ (last - start + 1) / (4 : Nat) := by omega
  generalize hc : (last - start + 1) / ((4 : Nat) : Int) = c at *
  split_ifs with hi
  · rw [hi]
    push_cast
    omega
  · have hmul : ((i : Nat) + 1 : Int) * c = (i : Nat) * c + c := by ring
    rw [hmul]
    omega

def parallelMergeSort (order : Int → Int → List (Fin K_WAY)) (column : Column)
    (files : List FileEntry) (start last : Int) : Option (List FileEntry) :=
  if start ≥ last then
    some files
  else if last - start ≤ K_WAY then
    insertEntries start column 1 (last - start).toNat files
  else do
    let files ← (order start last).foldlM (fun files (i : Fin K_WAY) =>
      parallelMergeSort order column files (chunk start last K_WAY i).index
        (chunk start last K_WAY i).last) files
    kWayMerge files start last K_WAY column
termination_by (last - start).toNat
decreasing_by exact chunk_smaller ‹_› i

end Xv6.Sorting
