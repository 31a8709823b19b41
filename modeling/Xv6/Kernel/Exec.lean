import Xv6.Kernel.Proc

/-!
# `exec`

`exec.c` and `sys_exec`. A program file is a list of bytes, read as `readi` reads it, with its
arithmetic in 32 bits. `goto bad` is a result that carries the size reached so far, since the
code at `bad` frees the new page table with it.
-/

namespace Xv6

open Lib

def MAXARG : Nat := 32

def ELF_MAGIC : Nat := 0x464C457F
def ELF_PROG_LOAD : Nat := 1

/-- The bytes that `readi` copies, for 32-bit `off` and `n`. -/
def readi (file : List UInt8) (off n : Nat) : List UInt8 :=
  if off > file.length ∨ (off + n) % 2 ^ 32 < off then [] else (file.drop off).take n

/-- The little-endian number in `n` bytes of a record from `off` on. -/
def field (record : List UInt8) (off n : Nat) : Nat :=
  Mem.leNat (Mem.write (fun _ => 0) 0 record) off n

/-- The fields of `struct elfhdr` that `exec` uses. -/
structure Elfhdr where
  magic : Nat
  entry : Nat
  phoff : Nat
  phnum : Nat

def sizeofElfhdr : Nat := 64

def Elfhdr.ofBytes (b : List UInt8) : Elfhdr where
  magic := field b 0 4
  entry := field b 24 8
  phoff := field b 32 8
  phnum := field b 56 2

/-- The fields of `struct proghdr` that `exec` uses. -/
structure Proghdr where
  type : Nat
  flags : Nat
  off : Nat
  vaddr : Nat
  filesz : Nat
  memsz : Nat

def sizeofProghdr : Nat := 56

def Proghdr.ofBytes (b : List UInt8) : Proghdr where
  type := field b 0 4
  flags := field b 4 4
  off := field b 8 8
  vaddr := field b 16 8
  filesz := field b 32 8
  memsz := field b 40 8

def flags2perm (flags : Nat) : Pte :=
  let perm := if flags % 2 = 1 then PTE_X else 0#64
  if flags / 2 % 2 = 1 then perm ||| PTE_W else perm

variable [Layout]

/-- The loop of `loadseg`: `n` turns from offset `i` on. -/
def loadsegFrom (pagetable va : Nat) (file : List UInt8) (offset sz : Nat) : Nat → Nat → PhysM Int
  | 0, _ => return 0
  | n + 1, i => do
    let pa ← walkaddr pagetable ((va + i) % 2 ^ 64)
    panicIf (pa = 0) .loadseg
    let m := if sz - i < PGSIZE then sz - i else PGSIZE
    let bytes := readi file ((offset + i) % 2 ^ 32) m
    modify fun s => { s with mem := s.mem.write pa bytes }
    if bytes.length ≠ m then
      return -1
    else
      loadsegFrom pagetable va file offset sz n (i + PGSIZE)

/-- Load a program segment into pages that are already mapped; `offset` and `sz` are 32-bit. -/
def loadseg (pagetable va : Nat) (file : List UInt8) (offset sz : Nat) : PhysM Int :=
  loadsegFrom pagetable va file offset sz ((sz + PGSIZE - 1) / PGSIZE) 0

/-- One program header: the size after it, and whether to go on. -/
def execSegment (pagetable : Nat) (file : List UInt8) (ph : Proghdr) (sz : Nat) :
    PhysM (Nat × Bool) := do
  if ph.type ≠ ELF_PROG_LOAD then return (sz, true)
  if ph.memsz < ph.filesz then return (sz, false)
  if (ph.vaddr + ph.memsz) % 2 ^ 64 < ph.vaddr then return (sz, false)
  if ph.vaddr % PGSIZE ≠ 0 then return (sz, false)
  let sz1 ← uvmalloc pagetable sz ((ph.vaddr + ph.memsz) % 2 ^ 64) (flags2perm ph.flags)
  if sz1 = 0 then return (sz, false)
  let res ← loadseg pagetable ph.vaddr file (ph.off % 2 ^ 32) (ph.filesz % 2 ^ 32)
  return (sz1, decide (0 ≤ res))

/-- The loop over the program headers, `n` of them from file offset `off` on. -/
def execSegments (pagetable : Nat) (file : List UInt8) : Nat → Nat → Nat → PhysM (Nat × Bool)
  | 0, _, sz => return (sz, true)
  | n + 1, off, sz => do
    let b := readi file off sizeofProghdr
    if b.length ≠ sizeofProghdr then
      return (sz, false)
    else
      match ← execSegment pagetable file (Proghdr.ofBytes b) sz with
      | (sz, false) => return (sz, false)
      | (sz, true) => execSegments pagetable file n ((off + sizeofProghdr) % 2 ^ 32) sz

/-- `sp -= n; sp -= sp % 16`, in 64 bits. -/
def pushSp (sp n : Nat) : Nat :=
  let sp := (sp + 2 ^ 64 - n % 2 ^ 64) % 2 ^ 64
  sp - sp % 16

/-- Push the argument strings: the stack pointer, and `ustack` up to `argc`. -/
def pushArgs (pagetable stackbase : Nat) : List (List UInt8) → Nat → List Nat →
    PhysM (Option (Nat × List Nat))
  | [], sp, ustack => return some (sp, ustack)
  | arg :: argv, sp, ustack => do
    if ustack.length ≥ MAXARG then return none
    let sp := pushSp sp (arg.length + 1)
    if sp < stackbase then return none
    if (← copyout pagetable sp (arg ++ [0])) < 0 then return none
    pushArgs pagetable stackbase argv sp (ustack ++ [sp])

/-- The user stack: a guard page, a stack page and the arguments on it. The size after it, and
the stack pointer unless it goes to `bad`. -/
def execStack (pagetable : Nat) (argv : List (List UInt8)) (sz : Nat) :
    PhysM (Nat × Option Nat) := do
  let sz := pgroundup sz
  let sz1 ← uvmalloc pagetable sz ((sz + 2 * PGSIZE) % 2 ^ 64) PTE_W
  if sz1 = 0 then return (sz, none)
  let sz := sz1
  uvmclear pagetable (sz - 2 * PGSIZE)
  let stackbase := sz - PGSIZE
  match ← pushArgs pagetable stackbase argv sz [] with
  | none => return (sz, none)
  | some (sp, ustack) =>
    let ustack := ustack ++ [0]
    let sp := pushSp sp (ustack.length * 8)
    if sp < stackbase then return (sz, none)
    if (← copyout pagetable sp (ustack.flatMap (leBytes 8))) < 0 then return (sz, none)
    return (sz, some sp)

/-- The new image of a process: its size, and the stack pointer unless it goes to `bad`. -/
def execImage (pagetable : Nat) (file : List UInt8) (elf : Elfhdr) (argv : List (List UInt8)) :
    PhysM (Nat × Option Nat) := do
  match ← execSegments pagetable file elf.phnum (elf.phoff % 2 ^ 32) 0 with
  | (sz, false) => return (sz, none)
  | (sz, true) => execStack pagetable argv sz

/-- `exec` of a file, or of a path that `namei` does not find. -/
def exec (p : Fin NPROC) (file : Option (List UInt8)) (argv : List (List UInt8)) : SysM Int := do
  match file with
  | none => return -1
  | some file =>
    let b := readi file 0 sizeofElfhdr
    if b.length ≠ sizeofElfhdr then return -1
    let elf := Elfhdr.ofBytes b
    if elf.magic ≠ ELF_MAGIC then return -1
    let x ← getProc p
    let trapframe ← deref x.trapframe
    match ← onPhys (procPagetable trapframe) with
    | none => return -1
    | some pagetable =>
      match ← onPhys (execImage pagetable file elf argv) with
      | (sz, none) =>
        onPhys (procFreepagetable pagetable sz)
        return -1
      | (sz, some sp) =>
        onPhys (storeTrapframe trapframe trapframeA1 sp)
        let oldpagetable ← deref x.pagetable
        setProc p fun x => { x with pagetable := some pagetable, sz := sz }
        onPhys (storeTrapframe trapframe trapframeEpc elf.entry)
        onPhys (storeTrapframe trapframe trapframeSp sp)
        onPhys (procFreepagetable oldpagetable x.sz)
        return argv.length

/-! ### Pages for the rest of the kernel -/

/-- `kalloc` by another part of the kernel. -/
def kallocPage : SysM (Option Nat) := do
  match ← onPhys kalloc with
  | none => return none
  | some pg =>
    modify fun t => { t with kpages := pg :: t.kpages }
    return some pg

/-- `kfree` of a page that another part of the kernel has. -/
def kfreePage (pg : Nat) : SysM Unit := do
  onPhys (kfree pg)
  modify fun t => { t with kpages := t.kpages.erase pg }

def kfreePages : List Nat → SysM Unit
  | [] => pure ()
  | pg :: pgs => do
    kfreePage pg
    kfreePages pgs

/-- What `sys_exec` finds for one element of the user's `argv`. -/
inductive UserArg where
  /-- `fetchaddr` fails. -/
  | badAddr
  /-- `fetchstr` fails. -/
  | badStr
  | str (bytes : List UInt8)

/-- The loop of `sys_exec` over the argument pointers: the buffers, and whether all is well. -/
def fetchArgs : List UserArg → List Nat → SysM (List Nat × Bool)
  | [], bufs => return (bufs, decide (bufs.length < MAXARG))
  | arg :: args, bufs => do
    if bufs.length ≥ MAXARG then return (bufs, false)
    match arg with
    | .badAddr => return (bufs, false)
    | .badStr =>
      match ← kallocPage with
      | none => return (bufs, false)
      | some buf => return (bufs ++ [buf], false)
    | .str bytes =>
      match ← kallocPage with
      | none => return (bufs, false)
      | some buf =>
        onPhys (modify fun s => { s with mem := s.mem.write buf ((bytes ++ [0]).take PGSIZE) })
        -- fetchstr finds no end of the string in PGSIZE bytes
        if bytes.length ≥ PGSIZE then return (bufs ++ [buf], false)
        fetchArgs args (bufs ++ [buf])

def UserArg.bytes : UserArg → List UInt8
  | .str bytes => bytes
  | _ => []

/-- The `exec` system call. -/
def sysExec (p : Fin NPROC) (file : Option (List UInt8)) (args : List UserArg) : SysM Int := do
  let (bufs, ok) ← fetchArgs args []
  if ok then
    let ret ← exec p file (args.map UserArg.bytes)
    kfreePages bufs
    return ret
  else
    kfreePages bufs
    return -1

end Xv6
