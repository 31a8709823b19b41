import Xv6.Kernel.Vm

/-!
# Processes

The process table of `proc.c` and the functions that create, grow, reap and free processes. The
state joins the table to physical memory. A pointer that may be null is an `Option`, and using a
null pointer stops the kernel with `Panic.kerneltrap`.

Scheduling is left to the caller: `wait` returns `none` where the process goes to sleep, and the
channel it sleeps on is not modelled.
-/

namespace Xv6

open Lib

def NPROC : Nat := 64

instance : NeZero NPROC := ⟨by decide⟩

inductive ProcState where
  | unused | used | sleeping | runnable | running | zombie
  deriving DecidableEq, Repr

structure Proc where
  state : ProcState
  pid : Int
  parent : Option (Fin NPROC)
  killed : Bool
  xstate : Int
  sz : Nat
  pagetable : Option Nat
  trapframe : Option Nat

/-- A slot of the table that no process uses, as `freeproc` leaves it. -/
def Proc.free : Proc where
  state := .unused
  pid := 0
  parent := none
  killed := false
  xstate := 0
  sz := 0
  pagetable := none
  trapframe := none

structure Sys where
  phys : Phys
  proc : Fin NPROC → Proc
  nextpid : Int
  initproc : Option (Fin NPROC)
  /-- The pages that the rest of the kernel has from `kalloc`: kernel stacks, pipes, the kernel's
  page table, argument buffers. -/
  kpages : List Nat

abbrev SysM := Prog Sys Panic

def Sys.setPhys (t : Sys) (s : Phys) : Sys := { t with phys := s }

/-- A function of `kalloc.c` or `vm.c`. -/
def onPhys {α : Type} (m : PhysM α) : SysM α := zoom Sys.phys Sys.setPhys m

def Sys.setProc (t : Sys) (p : Fin NPROC) (x : Proc) : Sys :=
  { t with proc := Function.update t.proc p x }

/-- Assign to fields of `*p`. -/
def setProc (p : Fin NPROC) (f : Proc → Proc) : SysM Unit :=
  modify fun t => t.setProc p (f (t.proc p))

/-- `*p`. -/
def getProc (p : Fin NPROC) : SysM Proc := do
  let t ← get
  return t.proc p

/-- Use a pointer. -/
def deref {α : Type} : Option α → SysM α
  | some x => return x
  | none => throw .kerneltrap

/-- The low `n` bytes of `v`, least significant first. -/
def leBytes (n v : Nat) : List UInt8 := (List.range n).map fun k => UInt8.ofNat (v / 256 ^ k)

/-- The bytes of an `int`. -/
def intBytes (x : Int) : List UInt8 := leBytes 4 (BitVec.ofInt 32 x).toNat

/-! ### The trapframe -/

def trapframeSize : Nat := 288
def trapframeEpc : Nat := 24
def trapframeSp : Nat := 48
def trapframeA0 : Nat := 112
def trapframeA1 : Nat := 120

/-- `p->trapframe->field = v`. -/
def storeTrapframe (trapframe field v : Nat) : PhysM Unit :=
  modify fun s => { s with mem := s.mem.store (trapframe + field) 8 v }

variable [Layout]

/-! ### Page tables of processes -/

/-- A page table with the trampoline and the trapframe, and no user memory. -/
def procPagetable (trapframe : Nat) : PhysM (Option Nat) := do
  match ← uvmcreate with
  | none => return none
  | some pagetable =>
    if (← mappages pagetable TRAMPOLINE PGSIZE trampoline (PTE_R ||| PTE_X)) < 0 then
      uvmfree pagetable 0
      return none
    else if (← mappages pagetable TRAPFRAME PGSIZE trapframe (PTE_R ||| PTE_W)) < 0 then
      uvmunmap pagetable TRAMPOLINE 1 false
      uvmfree pagetable 0
      return none
    else
      return some pagetable

def procFreepagetable (pagetable sz : Nat) : PhysM Unit := do
  uvmunmap pagetable TRAMPOLINE 1 false
  uvmunmap pagetable TRAPFRAME 1 false
  uvmfree pagetable sz

/-! ### The process table -/

def allocpid : SysM Int := do
  let t ← get
  set { t with nextpid := t.nextpid + 1 }
  return t.nextpid

/-- Free the memory of a process, and its slot. -/
def freeproc (p : Fin NPROC) : SysM Unit := do
  let x ← getProc p
  (match x.trapframe with
    | some trapframe => onPhys (kfree trapframe)
    | none => pure ())
  (match x.pagetable with
    | some pagetable => onPhys (procFreepagetable pagetable x.sz)
    | none => pure ())
  setProc p fun _ => Proc.free

/-- The first slot of the table for which `c` holds. -/
def findProc (t : Sys) (c : Proc → Bool) : Option (Fin NPROC) :=
  (List.finRange NPROC).find? fun p => c (t.proc p)

def allocproc : SysM (Option (Fin NPROC)) := do
  let t ← get
  match findProc t fun x => x.state == .unused with
  | none => return none
  | some p =>
    let pid ← allocpid
    setProc p fun x => { x with pid := pid, state := .used }
    let trapframe ← onPhys kalloc
    setProc p fun x => { x with trapframe := trapframe }
    match trapframe with
    | none =>
      freeproc p
      return none
    | some tf =>
      let pagetable ← onPhys (procPagetable tf)
      setProc p fun x => { x with pagetable := pagetable }
      match pagetable with
      | none =>
        freeproc p
        return none
      | some _ => return some p

/-- The first program: `exec("/init")`. -/
def initcode : List UInt8 :=
  [0x17, 0x05, 0x00, 0x00, 0x13, 0x05, 0x45, 0x02,
   0x97, 0x05, 0x00, 0x00, 0x93, 0x85, 0x35, 0x02,
   0x93, 0x08, 0x70, 0x00, 0x73, 0x00, 0x00, 0x00,
   0x93, 0x08, 0x20, 0x00, 0x73, 0x00, 0x00, 0x00,
   0xef, 0xf0, 0x9f, 0xff, 0x2f, 0x69, 0x6e, 0x69,
   0x74, 0x00, 0x00, 0x24, 0x00, 0x00, 0x00, 0x00,
   0x00, 0x00, 0x00, 0x00]

def userinit : SysM Unit := do
  let p ← allocproc
  modify fun t => { t with initproc := p }
  let p ← deref p
  let x ← getProc p
  let pagetable ← deref x.pagetable
  onPhys (uvmfirst pagetable initcode)
  setProc p fun x => { x with sz := PGSIZE }
  let trapframe ← deref x.trapframe
  onPhys (storeTrapframe trapframe trapframeEpc 0)
  onPhys (storeTrapframe trapframe trapframeSp PGSIZE)
  setProc p fun x => { x with state := .runnable }

/-- `sz + n` for a 64-bit `sz` and an `int` `n`. -/
def addInt (sz : Nat) (n : Int) : Nat := ((sz + n) % 2 ^ 64).toNat

/-- `sbrk`: grow or shrink user memory by `n` bytes. -/
def growproc (p : Fin NPROC) (n : Int) : SysM Int := do
  let x ← getProc p
  if n > 0 then
    let pagetable ← deref x.pagetable
    let sz ← onPhys (uvmalloc pagetable x.sz (addInt x.sz n) PTE_W)
    if sz = 0 then
      return -1
    else
      setProc p fun x => { x with sz := sz }
      return 0
  else if n < 0 then
    let pagetable ← deref x.pagetable
    let sz ← onPhys (uvmdealloc pagetable x.sz (addInt x.sz n))
    setProc p fun x => { x with sz := sz }
    return 0
  else
    return 0

def fork (p : Fin NPROC) : SysM Int := do
  match ← allocproc with
  | none => return -1
  | some np =>
    let x ← getProc p
    let y ← getProc np
    let old ← deref x.pagetable
    let new ← deref y.pagetable
    if (← onPhys (uvmcopy old new x.sz)) < 0 then
      freeproc np
      return -1
    else
      setProc np fun y => { y with sz := x.sz }
      let src ← deref x.trapframe
      let dst ← deref y.trapframe
      -- *(np->trapframe) = *(p->trapframe)
      onPhys (modify fun s => { s with mem := memmove s.mem dst src trapframeSize })
      onPhys (storeTrapframe dst trapframeA0 0)
      setProc np fun y => { y with parent := some p }
      setProc np fun y => { y with state := .runnable }
      return y.pid

/-- Pass the children of `p` to init. -/
def reparent (p : Fin NPROC) : SysM Unit :=
  modify fun t => { t with
    proc := fun q =>
      if (t.proc q).parent = some p then { t.proc q with parent := t.initproc } else t.proc q }

def exit (p : Fin NPROC) (status : Int) : SysM Unit := do
  let t ← get
  panicIf (t.initproc = some p) .initExiting
  reparent p
  setProc p fun x => { x with xstate := status, state := .zombie }

/-- Reap a child that has exited. `none` if the process has to sleep until one does. -/
def wait (p : Fin NPROC) (addr : Nat) : SysM (Option Int) := do
  let t ← get
  match findProc t fun x => x.parent == some p && x.state == .zombie with
  | some q =>
    let x ← getProc q
    let res ← (if addr ≠ 0 then do
        let pagetable ← deref (t.proc p).pagetable
        onPhys (copyout pagetable addr (intBytes x.xstate))
      else
        pure 0)
    if res < 0 then
      return some (-1)
    else
      freeproc q
      return some x.pid
  | none =>
    if findProc t (fun x => x.parent == some p) = none ∨ (t.proc p).killed then
      return some (-1)
    else
      setProc p fun x => { x with state := .sleeping }
      return none

end Xv6
