import Xv6.Kernel.Proc
import Xv6.Lib.Cycle
import Xv6.User.Ulib

/-!
# `umalloc.c`

The allocator of user programs, over the bytes of the process. A block starts with a header of 16
bytes: the link of the free list, and the size of the block in units of a header. Pointers have 64
bits and sizes have 32. The two loops run on fuel.

What the process gets from the kernel is kept with the heap: its size, the bytes that the allocator
has obtained and not given back, and the calls of `sbrk` that the allocator has made.
-/

namespace Xv6.Umalloc

open Lib Ptr

/-! ### Headers -/

/-- `sizeof(Header)`. -/
def HEADER : Nat := 16

/-- `p->s.ptr` -/
def ptr (m : Mem) (p : Nat) : Nat := m.leNat p 8

/-- `p->s.size` -/
def size (m : Mem) (p : Nat) : Nat := m.leNat (p + 8) 4

/-- `p->s.ptr = v` -/
def setPtr (m : Mem) (p v : Nat) : Mem := m.store p 8 v

/-- `p->s.size = v` -/
def setSize (m : Mem) (p v : Nat) : Mem := m.store (p + 8) 4 v

/-- `p + n` for a pointer to a header. -/
def plus (p : Nat) (n : Int) : Nat := ptrAdd p (HEADER * n)

/-! ### The kernel's side -/

/-- A call of `sbrk`: what `morecore` asks for, what that is as an `int`, and the result. -/
structure Call where
  asked : Nat
  amount : Int
  result : Option Nat

/-- The bytes of the process, the variable `freep`, and what the process has from the kernel. -/
structure Heap where
  mem : Mem
  freep : Nat
  sz : Nat
  obtained : Set Nat
  calls : List Call

/-- The address of `base`, and whether the kernel has pages for the process when it asks for the
`n`th time. -/
structure Env where
  base : Nat
  grants : Nat → Bool

/-- The size of a process after a `growproc` that does not fail. -/
def newSize (sz : Nat) (n : Int) : Nat :=
  if n > 0 then addInt sz n
  else if n < 0 then if addInt sz n ≥ sz then sz else addInt sz n
  else sz

/-- `sbrk(n)`. It fails only if it is to grow the process, and it does so if the process would be
larger than the memory of the machine. -/
def sbrk (env : Env) (n : Int) (h : Heap) : Option Nat × Heap :=
  let sz := newSize h.sz n
  if n > 0 then
    if env.grants h.calls.length ∧ sz ≤ PHYSTOP - KERNBASE then
      (some h.sz, { h with sz, obtained := {x | x ∈ h.obtained ∨ h.sz ≤ x ∧ x < sz} })
    else (none, h)
  else (some h.sz, { h with sz, obtained := {x | x ∈ h.obtained ∧ x < sz} })

/-! ### `free` -/

/-- The loop of `free` ends at `p`: the block at `bp` belongs between `p` and the next, or `p` is
the last and the block belongs at the end or at the start. -/
def belongs (m : Mem) (bp p : Nat) : Bool :=
  decide (bp > p ∧ bp < ptr m p) || decide (p ≥ ptr m p ∧ (bp > p ∨ bp < ptr m p))

/-- The block at `bp` takes in the one after `p`, if it ends there, and is linked to the next. -/
def joinUpper (m : Mem) (bp p : Nat) : Mem :=
  if plus bp (size m bp) = ptr m p then
    let m := setSize m bp (size m bp + size m (ptr m p))
    setPtr m bp (ptr m (ptr m p))
  else setPtr m bp (ptr m p)

/-- The block at `p` takes in the one at `bp`, if it ends there, or is linked to it. -/
def joinLower (m : Mem) (bp p : Nat) : Mem :=
  if plus p (size m p) = bp then
    let m := setSize m p (size m p + size m bp)
    setPtr m p (ptr m bp)
  else setPtr m p bp

def free (fuel ap : Nat) (h : Heap) : Option Heap := do
  let bp := plus ap (-1)
  let p ← search (ptr h.mem) (belongs h.mem bp) fuel h.freep
  return { h with mem := joinLower (joinUpper h.mem bp p) bp p, freep := p }

/-! ### `malloc` -/

/-- `if(nu < 4096) nu = 4096;` -/
def coreUnits (nu : Nat) : Nat := if nu < 4096 then 4096 else nu

/-- The argument of `sbrk`: an `unsigned long` that becomes an `int`. -/
def coreAmount (nu : Nat) : Int := Int.bmod (coreUnits nu * HEADER) (2 ^ 32)

/-- The memory that `sbrk` returns becomes a block of `nu` units, and that is freed. -/
def addCore (env : Env) (fuel nu : Nat) (amount : Int) (h : Heap) : Option (Nat × Heap) :=
  match sbrk env amount h with
  | (none, h) => some (0, { h with calls := ⟨nu * HEADER, amount, none⟩ :: h.calls })
  | (some hp, h) => do
    let h ← free fuel (plus hp 1)
      { h with
        mem := setSize h.mem hp nu
        calls := ⟨nu * HEADER, amount, some hp⟩ :: h.calls }
    return (h.freep, h)

/-- The result is the new `freep`, or 0. -/
def morecore (env : Env) (fuel nu : Nat) (h : Heap) : Option (Nat × Heap) :=
  addCore env fuel (coreUnits nu) (coreAmount nu) h

/-- The block at `p`, or the end of it, is taken off the free list. -/
def takeBlock (m : Mem) (nunits prevp p : Nat) : Nat × Mem :=
  if size m p = nunits then (p, setPtr m prevp (ptr m p))
  else
    let m := setSize m p (size m p - nunits)
    let p := plus p (size m p)
    (p, setSize m p nunits)

/-- The loop of `malloc`. -/
def mallocFrom (env : Env) (fuel nunits : Nat) : Nat → Nat → Nat → Heap → Option (Nat × Heap)
  | 0, _, _, _ => none
  | k + 1, prevp, p, h =>
    if size h.mem p ≥ nunits then
      let (p, m) := takeBlock h.mem nunits prevp p
      some (plus p 1, { h with mem := m, freep := prevp })
    else if p = h.freep then do
      let (p, h) ← morecore env fuel nunits h
      if p = 0 then return (0, h)
      else mallocFrom env fuel nunits k p (ptr h.mem p) h
    else mallocFrom env fuel nunits k p (ptr h.mem p) h

/-- The free list before the first call is the block `base`, of no units. -/
def initBase (env : Env) (h : Heap) : Heap :=
  if h.freep = 0 then
    { h with mem := setSize (setPtr h.mem env.base env.base) env.base 0, freep := env.base }
  else h

/-- The units for `nbytes` bytes and a header. -/
def unitsFor (nbytes : Nat) : Nat := ((nbytes + HEADER - 1) / HEADER + 1) % 2 ^ 32

def malloc (env : Env) (fuel nbytes : Nat) (h : Heap) : Option (Nat × Heap) :=
  let h := initBase env h
  mallocFrom env fuel (unitsFor nbytes) fuel h.freep (ptr h.mem h.freep) h

/-! ### Headers that are far apart -/

variable {m m' : Mem} {p q v : Nat}

/-- The two headers do not overlap. -/
def Far (p q : Nat) : Prop := p + HEADER ≤ q ∨ q + HEADER ≤ p

lemma ptr_lt (m : Mem) (p : Nat) : ptr m p < 2 ^ 64 := Mem.leNat_lt m 8 p

lemma size_lt (m : Mem) (p : Nat) : size m p < 2 ^ 32 := Mem.leNat_lt m 4 (p + 8)

lemma ptr_setPtr_self (hv : v < 2 ^ 64) : ptr (setPtr m p v) p = v :=
  (Mem.leNat_store 8 m p v).trans (Nat.mod_eq_of_lt hv)

@[simp] lemma size_setPtr_self : size (setPtr m p v) p = size m p :=
  Mem.leNat_store_of_disjoint (Or.inr (le_refl _))

lemma size_setSize (m : Mem) (p v : Nat) : size (setSize m p v) p = v % 2 ^ 32 :=
  Mem.leNat_store 4 m (p + 8) v

lemma size_setSize_self (hv : v < 2 ^ 32) : size (setSize m p v) p = v :=
  (size_setSize m p v).trans (Nat.mod_eq_of_lt hv)

@[simp] lemma ptr_setSize_self : ptr (setSize m p v) p = ptr m p :=
  Mem.leNat_store_of_disjoint (Or.inl (le_refl _))

/-- Only the header at `p` has changed. -/
def Only (m m' : Mem) (p : Nat) : Prop := ∀ x, x < p ∨ p + HEADER ≤ x → m' x = m x

lemma only_setPtr : Only m (setPtr m p v) p := by
  intro x hx
  rcases hx with hx | hx
  · exact Mem.store_apply_of_lt hx
  · exact Mem.store_apply_of_le (by unfold HEADER at hx; omega)

lemma only_setSize : Only m (setSize m p v) p := by
  intro x hx
  rcases hx with hx | hx
  · exact Mem.store_apply_of_lt (by omega)
  · exact Mem.store_apply_of_le (by unfold HEADER at hx; omega)

lemma Only.trans {m'' : Mem} (h : Only m m' p) (h' : Only m' m'' p) : Only m m'' p :=
  fun x hx => (h' x hx).trans (h x hx)

lemma ptr_congr (h : ∀ x, p ≤ x → x < p + HEADER → m' x = m x) : ptr m' p = ptr m p :=
  Mem.leNat_congr fun x hx hx' => h x hx (by unfold HEADER; omega)

lemma size_congr (h : ∀ x, p ≤ x → x < p + HEADER → m' x = m x) : size m' p = size m p :=
  Mem.leNat_congr fun x hx hx' => h x (by omega) (by unfold HEADER; omega)

lemma Only.ptr (h : Only m m' p) (hq : Far p q) : ptr m' q = ptr m q :=
  ptr_congr fun x hx hx' => h x (by unfold Far at hq; omega)

lemma Only.size (h : Only m m' p) (hq : Far p q) : size m' q = size m q :=
  size_congr fun x hx hx' => h x (by unfold Far at hq; omega)

lemma plus_natCast {n : Nat} (h : p + HEADER * n < 2 ^ 64) : plus p n = p + HEADER * n := by
  unfold plus
  rw [← Nat.cast_mul, ptrAdd_natCast, Nat.mod_eq_of_lt h]

lemma plus_one (h : p + HEADER < 2 ^ 64) : plus p 1 = p + HEADER :=
  plus_natCast (n := 1) h

lemma plus_neg_one (h : p + HEADER < 2 ^ 64) : plus (p + HEADER) (-1) = p := by
  unfold plus ptrAdd
  omega

lemma unitsFor_eq {nbytes : Nat} (h : nbytes < 2 ^ 32) :
    unitsFor nbytes = (nbytes + 15) / 16 + 1 := by
  unfold unitsFor HEADER
  omega

-- memories are not compared byte by byte, and amounts are not computed
attribute [irreducible] ptr size coreAmount

end Xv6.Umalloc
