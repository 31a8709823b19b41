import Xv6.Kernel.Kalloc

/-!
# User page tables

The functions of `vm.c` that build, share, split and tear down user page tables. A page-table
page is 512 words of physical memory, so a pointer to an entry is the address of that word. C's
`for` loops are recursions on the number of turns left.
-/

namespace Xv6

open Lib

/-! ### Words of memory -/

@[irreducible]
def ld64 (m : Mem) (a : Nat) : Pte := BitVec.ofNat 64 (m.leNat a 8)

@[irreducible]
def st64 (m : Mem) (a : Nat) (v : Pte) : Mem := m.store a 8 v.toNat

/-- `*pte`. -/
def ldPte (a : Nat) : PhysM Pte := do
  let s ← get
  return ld64 s.mem a

/-- `*pte = v`. -/
def stPte (a : Nat) (v : Pte) : PhysM Unit :=
  modify fun s => { s with mem := st64 s.mem a v }

variable [Layout]

/-! ### Walking a table -/

/-- The loop of `walk`, from a level down to 1. -/
def walkFrom (va : Nat) (alloc : Bool) : Nat → Nat → PhysM (Option Nat)
  | 0, pagetable => return some (pagetable + 8 * px 0 va)
  | level + 1, pagetable => do
    let a := pagetable + 8 * px (level + 1) va
    let pte ← ldPte a
    if hasFlag pte PTE_V then
      walkFrom va alloc level (pte2pa pte)
    else if alloc = false then
      return none
    else
      match ← kalloc with
      | none => return none
      | some page =>
        fillPage page 0
        stPte a (pa2pte page ||| PTE_V)
        walkFrom va alloc level page

/-- The address of the entry for `va`, creating page-table pages if `alloc`. -/
def walk (pagetable va : Nat) (alloc : Bool) : PhysM (Option Nat) := do
  panicIf (va ≥ MAXVA) .walk
  walkFrom va alloc 2 pagetable

/-- The physical address of the user page that `va` lies on, or 0. -/
def walkaddr (pagetable va : Nat) : PhysM Nat := do
  if va ≥ MAXVA then return 0
  match ← walk pagetable va false with
  | none => return 0
  | some p =>
    let pte ← ldPte p
    if !hasFlag pte PTE_V then return 0
    if !hasFlag pte PTE_U then return 0
    return pte2pa pte

/-! ### Mapping and unmapping -/

/-- The loop of `mappages`. At `MAXVA` the call of `walk` panics, so `MAXVA / PGSIZE + 1` turns
are enough. -/
def mappagesFrom (pagetable : Nat) (perm : Pte) (last : Nat) : Nat → Nat → Nat → PhysM Int
  | 0, _, _ => throw .walk
  | n + 1, a, pa => do
    match ← walk pagetable a true with
    | none => return -1
    | some p =>
      let pte ← ldPte p
      panicIf (hasFlag pte PTE_V) .mappagesRemap
      stPte p (pa2pte pa ||| perm ||| PTE_V)
      if a = last then
        return 0
      else
        mappagesFrom pagetable perm last n (a + PGSIZE) (pa + PGSIZE)

def mappages (pagetable va size pa : Nat) (perm : Pte) : PhysM Int := do
  panicIf (size = 0) .mappagesSize
  mappagesFrom pagetable perm (pgrounddown ((va + size - 1) % 2 ^ 64)) (MAXVA / PGSIZE + 1)
    (pgrounddown va) pa

/-- One turn of `uvmunmap`. -/
def uvmunmapPage (pagetable : Nat) (doFree : Bool) (a : Nat) : PhysM Unit := do
  match ← walk pagetable a false with
  | none => throw .uvmunmapWalk
  | some p =>
    let pte ← ldPte p
    panicIf (!hasFlag pte PTE_V) .uvmunmapNotMapped
    panicIf (pteFlags pte = PTE_V) .uvmunmapNotALeaf
    (if doFree then kfree (pte2pa pte) else pure ())
    stPte p 0#64

/-- The loop of `uvmunmap` over the addresses below `bound`. -/
def uvmunmapFrom (pagetable : Nat) (doFree : Bool) (bound : Nat) : Nat → Nat → PhysM Unit
  | 0, _ => pure ()
  | n + 1, a =>
    if a < bound then do
      uvmunmapPage pagetable doFree a
      uvmunmapFrom pagetable doFree bound n (a + PGSIZE)
    else
      pure ()

def uvmunmap (pagetable va npages : Nat) (doFree : Bool) : PhysM Unit := do
  panicIf (va % PGSIZE ≠ 0) .uvmunmapNotAligned
  uvmunmapFrom pagetable doFree ((va + npages * PGSIZE) % 2 ^ 64) npages va

def uvmcreate : PhysM (Option Nat) := do
  match ← kalloc with
  | none => return none
  | some pagetable =>
    fillPage pagetable 0
    return some pagetable

/-- Load the first process's code `src` into page 0. `kalloc` is not checked: with no page
left the `memset` would write through a null pointer. -/
def uvmfirst (pagetable : Nat) (src : List UInt8) : PhysM Unit := do
  panicIf (src.length ≥ PGSIZE) .uvmfirst
  match ← kalloc with
  | none => throw .kerneltrap
  | some mem =>
    fillPage mem 0
    let _ ← mappages pagetable 0 PGSIZE mem (PTE_W ||| PTE_R ||| PTE_X ||| PTE_U)
    modify fun s => { s with mem := s.mem.write mem src }

/-! ### Growing and shrinking -/

/-- The value of a 64-bit word stored in an `int` and used as a 64-bit word again. -/
def throughInt (n : Nat) : Nat := ((BitVec.ofNat 32 n).signExtend 64).toNat

def uvmdealloc (pagetable oldsz newsz : Nat) : PhysM Nat := do
  if newsz ≥ oldsz then return oldsz
  if pgroundup newsz < pgroundup oldsz then
    let npages := throughInt ((pgroundup oldsz - pgroundup newsz) / PGSIZE)
    uvmunmap pagetable (pgroundup newsz) npages true
    return newsz
  else
    return newsz

/-- The loop of `uvmalloc`; `oldsz` is already rounded up. -/
def uvmallocFrom (pagetable oldsz newsz : Nat) (xperm : Pte) : Nat → Nat → PhysM Nat
  | 0, _ => return newsz
  | n + 1, a => do
    match ← kalloc with
    | none =>
      let _ ← uvmdealloc pagetable a oldsz
      return 0
    | some mem =>
      fillPage mem 0
      if (← mappages pagetable a PGSIZE mem (PTE_R ||| PTE_U ||| xperm)) ≠ 0 then
        kfree mem
        let _ ← uvmdealloc pagetable a oldsz
        return 0
      else
        uvmallocFrom pagetable oldsz newsz xperm n (a + PGSIZE)

/-- Grow a process from `oldsz` to `newsz`; the new size, or 0 on error. The loop makes one turn
for each `a = oldsz, oldsz + PGSIZE, ...` below `newsz`. -/
def uvmalloc (pagetable oldsz newsz : Nat) (xperm : Pte) : PhysM Nat := do
  if newsz < oldsz then return oldsz
  let oldsz := pgroundup oldsz
  uvmallocFrom pagetable oldsz newsz xperm ((newsz - oldsz + PGSIZE - 1) / PGSIZE) oldsz

/-! ### Tearing down -/

/-- The loop of `freewalk` over `n` entries from entry `i` on; `free` is the recursive call. -/
def freewalkFrom (free : Nat → PhysM Unit) (pagetable : Nat) : Nat → Nat → PhysM Unit
  | 0, _ => pure ()
  | n + 1, i => do
    let pte ← ldPte (pagetable + 8 * i)
    if hasFlag pte PTE_V && !hasFlag pte (PTE_R ||| PTE_W ||| PTE_X) then
      -- this PTE points to a lower-level page table.
      free (pte2pa pte)
      stPte (pagetable + 8 * i) 0#64
      freewalkFrom free pagetable n (i + 1)
    else if hasFlag pte PTE_V then
      throw .freewalkLeaf
    else
      freewalkFrom free pagetable n (i + 1)

/-- `freewalk`, following at most `depth` levels of tables. -/
def freewalk : Nat → Nat → PhysM Unit
  | 0, _ => throw .freewalkDepth
  | depth + 1, pagetable => do
    freewalkFrom (freewalk depth) pagetable 512 0
    kfree pagetable

def uvmfree (pagetable sz : Nat) : PhysM Unit := do
  (if sz > 0 then uvmunmap pagetable 0 (pgroundup sz / PGSIZE) true else pure ())
  freewalk 3 pagetable

/-! ### Copy on write -/

/-- `int cowalloc(pagetable, va)`: make the page of `va` writable, giving it a copy of its own
if it is shared. -/
def cowalloc (pagetable va : Nat) : PhysM Int := do
  if va ≥ MAXVA then return -1
  match ← walk pagetable va false with
  | none => return -1
  | some p =>
    let pte ← ldPte p
    if !hasFlag pte PTE_V || !hasFlag pte PTE_U then return -1
    let flags := pteFlags pte
    let pa := pte2pa pte
    let vaRounded := pgrounddown va
    if !hasFlag pte PTE_C && !hasFlag pte PTE_W then return -1
    if hasFlag pte PTE_W || !hasFlag pte PTE_C then return 0
    if (← getRefcnt pa) > 1 then
      match ← kalloc with
      | none => throw .cowallocKalloc
      | some newPa =>
        modify fun s => { s with mem := memmove s.mem newPa pa PGSIZE }
        uvmunmap pagetable vaRounded 1 true
        if (← mappages pagetable vaRounded PGSIZE newPa ((flags &&& ~~~PTE_C) ||| PTE_W)) ≠ 0 then
          kfree newPa
          return -1
        else
          return 0
    else if (← getRefcnt pa) = 1 then
      stPte p ((pte ||| PTE_W) &&& ~~~PTE_C)
      return 0
    else
      return -1

/-- The loop of `uvmcopy`, from address `i` on. -/
def uvmcopyFrom (old new : Nat) : Nat → Nat → PhysM Int
  | 0, _ => return 0
  | n + 1, i => do
    match ← walk old i false with
    | none => throw .uvmcopyPte
    | some p =>
      let pte ← ldPte p
      panicIf (!hasFlag pte PTE_V) .uvmcopyNotPresent
      let pa := pte2pa pte
      panicIf (pa = 0) .uvmcopyAddress
      (if hasFlag pte PTE_W then stPte p ((pte ||| PTE_C) &&& ~~~PTE_W) else pure ())
      let pte ← ldPte p
      let flags := pteFlags pte
      if (← mappages new i PGSIZE pa flags) ≠ 0 then
        -- err: unmap and free the pages mapped so far
        uvmunmap new 0 (i / PGSIZE) true
        return -1
      else
        refcntInc pa
        uvmcopyFrom old new n (i + PGSIZE)

/-- Share the pages below `sz` of the parent's table `old` with the child's table `new`. -/
def uvmcopy (old new sz : Nat) : PhysM Int :=
  uvmcopyFrom old new ((sz + PGSIZE - 1) / PGSIZE) 0

/-- Take user access away from a page: the stack guard of `exec`. -/
def uvmclear (pagetable va : Nat) : PhysM Unit := do
  match ← walk pagetable va false with
  | none => throw .uvmclear
  | some p =>
    let pte ← ldPte p
    stPte p (pte &&& ~~~PTE_U)

/-! ### Copying to user memory -/

/-- The loop of `copyout`. The kernel buffer is given by its bytes `src`, whose number is `len`;
each turn copies at least one, so `src.length` turns are enough. -/
def copyoutFrom (pagetable : Nat) : Nat → Nat → List UInt8 → PhysM Int
  | 0, _, _ => return 0
  | fuel + 1, dstva, src => do
    if src.length = 0 then return 0
    let va0 := pgrounddown dstva
    if (← cowalloc pagetable va0) < 0 then return -1
    let pa0 ← walkaddr pagetable va0
    if pa0 = 0 then return -1
    let n := min (PGSIZE - (dstva - va0)) src.length
    modify fun s => { s with mem := s.mem.write (pa0 + (dstva - va0)) (src.take n) }
    copyoutFrom pagetable fuel (va0 + PGSIZE) (src.drop n)

def copyout (pagetable dstva : Nat) (src : List UInt8) : PhysM Int :=
  copyoutFrom pagetable src.length dstva src

end Xv6
