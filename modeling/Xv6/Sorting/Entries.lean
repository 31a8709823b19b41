import Xv6.Lib.StableSort

/-!
# File entries and their sort keys

The records of `concurrency/Distributed-Sorting/finaltry.c`, the keys that the counting sort uses
and the comparison that the merge sort uses. A C string is the list of its bytes before the
terminating zero. `strptime` and `mktime` belong to the C library: `time` stands for the two of
them, and gives the Unix time of a timestamp.
-/

namespace Xv6.Sorting

def THREAD_COUNT : Nat := 4
def LAZY_THRESHOLD : Nat := 42
def HASH_BASE : Int := 27
def K_WAY : Nat := 4

structure FileEntry where
  name : List UInt8
  id : Int
  timestamp : List UInt8
  /-- A `uint64_t`. -/
  sortKey : Nat
  deriving DecidableEq, Repr

/-- `column_type`: 0, 1 and 2. -/
inductive Column where
  | id | name | timestamp
  deriving DecidableEq, Repr

/-- A number as an `unsigned long`. -/
def toULong (x : Int) : Nat := (x % 2 ^ 64).toNat

/-- The loop of `hash_string`, from the value `hash` on. -/
def hashStringFrom (hash : Nat) : List UInt8 → Nat
  | [] => hash
  | c :: cs => hashStringFrom (toULong (hash * HASH_BASE + (c.toInt8.toInt - 97 + 1))) cs

def hashString (str : List UInt8) : Nat := hashStringFrom 0 str % 9999999

def hashTimestamp (time : List UInt8 → Int) (timestamp : List UInt8) : Nat :=
  toULong (time timestamp) % 9999999

/-- The key of one entry. -/
def sortKeyOf (time : List UInt8 → Int) (column : Column) (f : FileEntry) : Nat :=
  match column with
  | .id => toULong f.id
  | .name => hashString f.name
  | .timestamp => hashTimestamp time f.timestamp

def preprocessSortKeys (time : List UInt8 → Int) (files : List FileEntry) (column : Column) :
    List FileEntry :=
  files.map fun f => { f with sortKey := sortKeyOf time column f }

/-- The C library's comparison of strings, byte by byte as `unsigned char`. -/
def strcmp : List UInt8 → List UInt8 → Int
  | [], [] => 0
  | [], b :: _ => -b.toNat
  | a :: _, [] => a.toNat
  | a :: as, b :: bs => if a = b then strcmp as bs else a.toNat - b.toNat

def compareEntries (a b : FileEntry) (column : Column) : Int :=
  match column with
  | .id => (if a.id > b.id then 1 else 0) - (if a.id < b.id then 1 else 0)
  | .name => strcmp a.name b.name
  | .timestamp => strcmp a.timestamp b.timestamp

/-! ### The value of a name -/

/-- The value of a name in base 27, with the digit `c - 96` for the character `c`. -/
def nameValueFrom (v : Int) : List UInt8 → Int
  | [] => v
  | c :: cs => nameValueFrom (v * 27 + (c.toInt8.toInt - 96)) cs

def nameValue (name : List UInt8) : Int := nameValueFrom 0 name

lemma toULong_cast (x : Int) : (toULong x : Int) = x % 2 ^ 64 :=
  Int.toNat_of_nonneg (Int.emod_nonneg x (by norm_num))

/-- The wrap-around of the loop does not matter: only the last value is reduced. -/
lemma hashStringFrom_eq (cs : List UInt8) :
    ∀ v : Int, hashStringFrom (toULong v) cs = toULong (nameValueFrom v cs) := by
  induction cs with
  | nil => exact fun _ => rfl
  | cons c cs ih =>
    intro v
    rw [hashStringFrom, nameValueFrom, ← ih]
    congr 1
    unfold toULong
    congr 1
    rw [Int.toNat_of_nonneg (Int.emod_nonneg v (by norm_num)), HASH_BASE,
      show c.toInt8.toInt - 97 + 1 = c.toInt8.toInt - 96 by ring]
    simp [Int.add_emod, Int.mul_emod]

lemma hashString_eq (name : List UInt8) :
    hashString name = toULong (nameValue name) % 9999999 := by
  rw [hashString, nameValue, ← hashStringFrom_eq]
  rfl

end Xv6.Sorting
