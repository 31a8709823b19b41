import Xv6.Kernel.Riscv
import Xv6.Kernel.String
import Xv6.Lib.Program

/-!
# The physical page allocator

`kalloc.c`: the free list `kmem.freelist` and the reference counts `pageref.ref`, over the bytes
of physical memory. Each function runs as one atomic step; `Xv6.Kernel.KfreeRace` takes the
critical sections of `kfree` apart.
-/

namespace Xv6

open Lib

/-- What the kernel's linker script settles: where the kernel image ends, and where in it the
trampoline page lies. -/
class Layout where
  /-- `end`, the first address after the kernel. -/
  kend : Nat
  trampoline : Nat
  kernbase_le : KERNBASE ≤ kend
  kend_le : kend ≤ PHYSTOP
  trampoline_mod : trampoline % PGSIZE = 0
  kernbase_le_trampoline : KERNBASE ≤ trampoline
  trampoline_le : trampoline + PGSIZE ≤ kend

export Layout (kend trampoline)

/-- The layout of the kernel as built, from `kernel.sym`. -/
@[reducible]
def builtLayout : Layout where
  kend := 0x80242228
  trampoline := 0x80007000
  kernbase_le := by decide
  kend_le := by decide
  trampoline_mod := by decide
  kernbase_le_trampoline := by decide
  trampoline_le := by decide

/-- The calls of `panic` in `kalloc.c`, `vm.c`, `exec.c` and `proc.c`. -/
inductive Panic where
  | kfree | refcntInit | refcntInc | refcntDec | getRefcnt
  | walk | mappagesSize | mappagesRemap
  | uvmunmapNotAligned | uvmunmapWalk | uvmunmapNotMapped | uvmunmapNotALeaf
  | uvmfirst | freewalkLeaf
  /-- Not in the source: `freewalk` followed more than three levels of tables. -/
  | freewalkDepth
  | cowallocKalloc
  | uvmcopyPte | uvmcopyNotPresent | uvmcopyAddress
  | uvmclear | loadseg | initExiting
  /-- The kernel itself faulted, here by writing through a null pointer. -/
  | kerneltrap
  /-- Not in the source: a user's store keeps faulting after it was handled. -/
  | storeFaultLoop
  deriving DecidableEq, Repr

/-- Physical memory with its allocator. -/
structure Phys where
  mem : Mem
  /-- `kmem.freelist`, the links followed. -/
  freelist : List Nat
  /-- `pageref.ref`, indexed by page number. -/
  ref : Nat → Int
  /-- How many calls of `kalloc` found the free list empty. No function reads it. -/
  nomem : Nat

abbrev PhysM := Prog Phys Panic

/-- `if(c) panic(e)`. -/
def panicIf {σ : Type} (c : Prop) [Decidable c] (e : Panic) : Prog σ Panic Unit :=
  if c then throw e else pure ()

@[simp] lemma wp_panicIf {σ : Type} {c : Prop} [Decidable c] {e : Panic} {E : Panic → Prop}
    {Q : Unit → σ → Prop} {s : σ} :
    wp (panicIf c e) E Q s ↔ (c → E e) ∧ (¬c → Q () s) := by
  unfold panicIf
  rw [wp_ite]
  exact Iff.rfl

section

variable [Layout]

/-- A page that the allocator may hand out: the check at the head of every function below. -/
def IsPage (pa : Nat) : Prop := pa % PGSIZE = 0 ∧ kend ≤ pa ∧ pa < PHYSTOP

instance (pa : Nat) : Decidable (IsPage pa) := inferInstanceAs (Decidable (_ ∧ _ ∧ _))

lemma IsPage.lt_two_pow {pa : Nat} (h : IsPage pa) : pa < 2 ^ 56 := by
  have h2 := h.2.2
  unfold PHYSTOP KERNBASE at h2
  omega

lemma IsPage.pos {pa : Nat} (h : IsPage pa) : 0 < pa := by
  have h1 := Layout.kernbase_le
  have h2 := h.2.1
  unfold KERNBASE at h1
  omega

/-- `PG_REFCNT(pa)`. -/
def Phys.pgRefcnt (s : Phys) (pa : Nat) : Int := s.ref (pa / PGSIZE)

def Phys.setRefcnt (s : Phys) (pa : Nat) (n : Int) : Phys :=
  { s with ref := Function.update s.ref (pa / PGSIZE) n }

def refcntInit (pa : Nat) : PhysM Unit := do
  panicIf (¬IsPage pa) .refcntInit
  modify fun s => s.setRefcnt pa 1

def refcntInc (pa : Nat) : PhysM Unit := do
  panicIf (¬IsPage pa) .refcntInc
  modify fun s => s.setRefcnt pa (s.pgRefcnt pa + 1)

def refcntDec (pa : Nat) : PhysM Unit := do
  panicIf (¬IsPage pa) .refcntDec
  modify fun s => s.setRefcnt pa (s.pgRefcnt pa - 1)

def getRefcnt (pa : Nat) : PhysM Int := do
  panicIf (¬IsPage pa) .getRefcnt
  let s ← get
  return s.pgRefcnt pa

/-- Fill a page with one byte, as `memset(pa, c, PGSIZE)`. -/
def fillPage (pa : Nat) (c : UInt8) : PhysM Unit :=
  modify fun s => { s with mem := memset s.mem pa c PGSIZE }

def kfree (pa : Nat) : PhysM Unit := do
  panicIf (¬IsPage pa) .kfree
  if (← getRefcnt pa) > 1 then
    refcntDec pa
  else
    fillPage pa 1
    modify fun s =>
      -- r->next = kmem.freelist; kmem.freelist = r
      { s with mem := s.mem.store pa 8 (s.freelist.headD 0), freelist := pa :: s.freelist }

def kalloc : PhysM (Option Nat) := do
  let s ← get
  match s.freelist with
  | [] =>
    set { s with nomem := s.nomem + 1 }
    return none
  | r :: next =>
    set { s with freelist := next }
    refcntInit r
    fillPage r 5
    return some r

/-- The loop of `freerange`: `n` pages from `p` on. -/
def freerangeFrom (p : Nat) : Nat → PhysM Unit
  | 0     => pure ()
  | n + 1 => do
    kfree p
    freerangeFrom (p + PGSIZE) n

/-- `for(; p + PGSIZE <= pa_end; p += PGSIZE) kfree(p)`. -/
def freerange (paStart paEnd : Nat) : PhysM Unit :=
  let p := pgroundup paStart
  freerangeFrom p ((paEnd - p) / PGSIZE)

/-- `kinit` on a machine whose memory holds `m`. -/
def kinit (m : Mem) : Except Panic (Unit × Phys) :=
  (freerange kend PHYSTOP).run { mem := m, freelist := [], ref := fun _ => 0, nomem := 0 }

end

end Xv6
