import Xv6.Lib.Monitor
import Xv6.Lib.Ring

/-!
# Pipes

`pipewrite`, `piperead` and `pipeclose` of `pipe.c` on one pipe, called by any number of processes:
a monitor with the lock `pi->lock`. One iteration of a loop is a step. What `copyin` and `copyout`
say about the addresses of the caller is left open, and `kill` may come at any time. The counters
are words of 32 bits.
-/

namespace Xv6.Pipes

open Lib

def PIPESIZE : Nat := 512

instance : NeZero PIPESIZE := ⟨by decide⟩

structure Pipe where
  data : Fin PIPESIZE → UInt8
  nread : BitVec 32
  nwrite : BitVec 32
  readopen : Bool
  writeopen : Bool

namespace Pipe

def Empty (pi : Pipe) : Prop := pi.nread = pi.nwrite

def Full (pi : Pipe) : Prop := pi.nwrite = pi.nread + BitVec.ofNat 32 PIPESIZE

instance (pi : Pipe) : Decidable pi.Empty := inferInstanceAs (Decidable (_ = _))

instance (pi : Pipe) : Decidable pi.Full := inferInstanceAs (Decidable (_ = _))

/-- `pi->data[pi->nwrite++ % PIPESIZE] = ch`. -/
def put (pi : Pipe) (ch : UInt8) : Pipe :=
  { pi with data := Function.update pi.data (slot PIPESIZE pi.nwrite) ch, nwrite := pi.nwrite + 1 }

/-- `pi->data[pi->nread % PIPESIZE]`. -/
def next (pi : Pipe) : UInt8 := pi.data (slot PIPESIZE pi.nread)

/-- `pi->nread++`. -/
def drop (pi : Pipe) : Pipe := { pi with nread := pi.nread + 1 }

/-- One end is closed. -/
def close (pi : Pipe) (writable : Bool) : Pipe :=
  if writable then { pi with writeopen := false } else { pi with readopen := false }

/-- What is in the pipe, the oldest byte first. -/
def contents (pi : Pipe) : List UInt8 := queued pi.data pi.nread pi.nwrite

end Pipe

/-- `&pi->nread`, on which readers sleep, and `&pi->nwrite`, on which writers sleep. -/
inductive Chan where
  | nread
  | nwrite
  deriving DecidableEq, Repr

/-- Where a process stands. -/
inductive Place where
  /-- In none of the three functions. -/
  | out
  /-- The loop of `pipewrite`, with `i` bytes written. -/
  | write (i : Nat) (n : Int)
  /-- `sleep(&pi->nwrite, &pi->lock)`, after `wakeup`. -/
  | doze (i : Nat) (n : Int)
  /-- The first loop of `piperead`. -/
  | await (n : Int)
  /-- The second loop of `piperead`, with `i` bytes copied. -/
  | copy (i : Nat) (n : Int)
  /-- The body of `pipeclose`. -/
  | close (writable : Bool)
  /-- The end of a call, after `wakeup`. -/
  | ret (r : Int)

/-- Where a call starts. -/
def Place.Start : Place → Prop
  | .write i _ => i = 0
  | .await _ | .close _ => True
  | _ => False

/-- Before `acquire(&pi->lock)`, at the start of a call or the end of `sleep`. -/
def Place.Wants : Place → Prop
  | .write _ _ | .await _ | .close _ => True
  | _ => False

variable {n : Nat}

structure Data (n : Nat) where
  pipe : Pipe
  killed : Fin n → Bool

def Data.setPipe (d : Data n) (pi : Pipe) : Data n := { d with pipe := pi }

inductive Event (n : Nat) where
  /-- `pipewrite` puts a byte into the pipe. -/
  | accept (ch : UInt8)
  /-- `piperead` takes a byte out of it. -/
  | remove (ch : UInt8)
  | returned (p : Fin n) (r : Int)
  | kill (p : Fin n)

inductive Free (p : Fin n) (d : Data n) : Place → Option (Event n) → Data n → Place → Prop where
  | call (l : Place) (h : l.Start) : Free p d .out none d l

inductive Locked (p : Fin n) (d : Data n) :
    Place → Option (Event n) → Data n → Pos Place Chan → Prop where
  /-- `pi->readopen == 0 || killed(pr)`. -/
  | writeGone (i : Nat) (m : Int) (hi : i < m)
      (hgone : d.pipe.readopen = false ∨ d.killed p = true) :
      Locked p d (.write i m) (some (.returned p (-1))) d (.free .out)
  | writeFull (i : Nat) (m : Int) (hi : i < m) (hopen : d.pipe.readopen = true)
      (hkill : d.killed p = false) (hfull : d.pipe.Full) :
      Locked p d (.write i m) none d (.waking .nread 0 (.doze i m))
  | writeSleep (i : Nat) (m : Int) :
      Locked p d (.doze i m) none d (.falling .nwrite (.write i m))
  | writeByte (i : Nat) (m : Int) (ch : UInt8) (hi : i < m) (hopen : d.pipe.readopen = true)
      (hkill : d.killed p = false) (hfull : ¬ d.pipe.Full) :
      Locked p d (.write i m) (some (.accept ch)) (d.setPipe (d.pipe.put ch))
        (.locked (.write (i + 1) m))
  /-- `copyin` fails. -/
  | writeFault (i : Nat) (m : Int) (hi : i < m) (hopen : d.pipe.readopen = true)
      (hkill : d.killed p = false) (hfull : ¬ d.pipe.Full) :
      Locked p d (.write i m) none d (.waking .nread 0 (.ret i))
  | writeDone (i : Nat) (m : Int) (hi : ¬ i < m) :
      Locked p d (.write i m) none d (.waking .nread 0 (.ret i))
  | readKilled (m : Int) (hempty : d.pipe.Empty) (hopen : d.pipe.writeopen = true)
      (hkill : d.killed p = true) :
      Locked p d (.await m) (some (.returned p (-1))) d (.free .out)
  | readSleep (m : Int) (hempty : d.pipe.Empty) (hopen : d.pipe.writeopen = true)
      (hkill : d.killed p = false) :
      Locked p d (.await m) none d (.falling .nread (.await m))
  | readReady (m : Int) (hready : ¬ (d.pipe.Empty ∧ d.pipe.writeopen = true)) :
      Locked p d (.await m) none d (.locked (.copy 0 m))
  | readByte (i : Nat) (m : Int) (hi : i < m) (hempty : ¬ d.pipe.Empty) :
      Locked p d (.copy i m) (some (.remove d.pipe.next)) (d.setPipe d.pipe.drop)
        (.locked (.copy (i + 1) m))
  /-- `copyout` fails after the byte has been taken out. -/
  | readFault (i : Nat) (m : Int) (hi : i < m) (hempty : ¬ d.pipe.Empty) :
      Locked p d (.copy i m) (some (.remove d.pipe.next)) (d.setPipe d.pipe.drop)
        (.waking .nwrite 0 (.ret i))
  | readDone (i : Nat) (m : Int) (hi : ¬ i < m ∨ d.pipe.Empty) :
      Locked p d (.copy i m) none d (.waking .nwrite 0 (.ret i))
  | close (writable : Bool) :
      Locked p d (.close writable) none (d.setPipe (d.pipe.close writable))
        (.waking (if writable then .nread else .nwrite) 0 (.ret 0))
  | ret (r : Int) : Locked p d (.ret r) (some (.returned p r)) d (.free .out)

/-- `kill` sets `p->killed`; a process that sleeps is made `RUNNABLE`. -/
inductive Env (d : Data n) : Option (Event n) → Data n → Prop where
  | kill (p : Fin n) :
      Env d (some (.kill p)) { d with killed := Function.update d.killed p true }

def code (n : Nat) : Code n (Data n) Place Chan (Event n) := ⟨Place.Wants, Free, Locked, Env⟩

/-- What `pipealloc` leaves. -/
structure Fresh (pi : Pipe) : Prop where
  nread : pi.nread = 0
  nwrite : pi.nwrite = 0
  readopen : pi.readopen = true
  writeopen : pi.writeopen = true

end Xv6.Pipes
