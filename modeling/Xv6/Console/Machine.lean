import Xv6.Lib.Monitor
import Xv6.Lib.Ring

/-!
# The console

`consoleintr` and `consoleread` of `console.c`, called by any number of threads: a monitor with the
lock `cons.lock`. `consoleintr` is one step up to its `wakeup`, and one iteration of the outer loop
of `consoleread` is a step. What `either_copyout` says about the addresses of the caller is left
open, and `kill` may come at any time. Echo and `procdump` go to the screen and are left out. The
indices are words of 32 bits.
-/

namespace Xv6.Console

open Function Lib

def INPUT_BUF_SIZE : Nat := 128

instance : NeZero INPUT_BUF_SIZE := ⟨by decide⟩

/-- `C(x)`, the character that control and `x` give. -/
def ctrl (x : Char) : UInt8 := x.toUInt8 - '@'.toUInt8

def newline : UInt8 := '\n'.toUInt8

structure Cons where
  buf : Fin INPUT_BUF_SIZE → UInt8
  /-- Read index. -/
  r : BitVec 32
  /-- Write index. -/
  w : BitVec 32
  /-- Edit index. -/
  e : BitVec 32

namespace Cons

/-- `cons.e--`. -/
def erase (s : Cons) : Cons := { s with e := s.e - 1 }

/-- `cons.buf[cons.e++ % INPUT_BUF_SIZE] = c`. -/
def put (s : Cons) (c : UInt8) : Cons :=
  { s with buf := update s.buf (slot INPUT_BUF_SIZE s.e) c, e := s.e + 1 }

/-- `cons.w = cons.e`. -/
def commit (s : Cons) : Cons := { s with w := s.e }

/-- The loop of `C('U')`. -/
def killLine (s : Cons) : Cons :=
  if s.e ≠ s.w ∧ s.buf (slot INPUT_BUF_SIZE (s.e - 1)) ≠ newline then s.erase.killLine else s
termination_by (s.e - s.w).toNat
decreasing_by
  rename_i h
  exact Nat.lt_of_succ_le (toNat_pred_sub h.1.symm).le

/-- `c` is stored, and a whole line, an end of file or a full buffer committed. -/
def store (s : Cons) (c : UInt8) : Cons × Bool :=
  let s := s.put c
  if c = newline ∨ c = ctrl 'D' ∨ (s.e - s.r).toNat = INPUT_BUF_SIZE then
    (s.commit, true)
  else
    (s, false)

end Cons

/-- `(c == '\r') ? '\n' : c`. -/
def cook (c : UInt8) : UInt8 := if c = '\r'.toUInt8 then newline else c

/-- `consoleintr(c)`, and whether it calls `wakeup(&cons.r)`. A character of the UART is a byte. -/
def consoleintr (c : UInt8) (s : Cons) : Cons × Bool :=
  if c = ctrl 'P' then
    (s, false)
  else if c = ctrl 'U' then
    (s.killLine, false)
  else if c = ctrl 'H' ∨ c = 0x7f then
    (if s.e ≠ s.w then s.erase else s, false)
  else if c ≠ 0 ∧ (s.e - s.r).toNat < INPUT_BUF_SIZE then
    s.store (cook c)
  else
    (s, false)

/-- The variables of a call of `consoleread`. -/
structure Call where
  target : BitVec 32
  dst : BitVec 64
  n : Int

/-- The variables when `consoleread(user_dst, dst, n)` begins. -/
def Call.start (dst : BitVec 64) (n : Int) : Call := ⟨BitVec.ofInt 32 n, dst, n⟩

/-- `target - n`. -/
def Call.ret (call : Call) : Int := (call.target - BitVec.ofInt 32 call.n).toInt

/-- One iteration of the loop of `consoleread` when there is input, and whether the loop goes on.
`copied` says whether `either_copyout` works. -/
def Call.turn (call : Call) (copied : Bool) (s : Cons) : Cons × Call × Bool :=
  let c := s.buf (slot INPUT_BUF_SIZE s.r)
  let s := { s with r := s.r + 1 }
  if c = ctrl 'D' then
    (if BitVec.ofInt 32 call.n < call.target then { s with r := s.r - 1 } else s, call, false)
  else if copied = false then
    (s, call, false)
  else
    (s, { call with dst := call.dst + 1, n := call.n - 1 }, decide (c ≠ newline))

/-- Where a thread stands. -/
inductive Place where
  | out
  /-- The loop of `consoleread`. -/
  | read (call : Call)
  /-- After the loop of `consoleread`. -/
  | leaving (call : Call)
  /-- `consoleintr`. -/
  | intr (c : UInt8)

/-- Before `acquire(&cons.lock)`, at the start of a call or the end of `sleep`. -/
def Place.Wants : Place → Prop
  | .read _ | .intr _ => True
  | _ => False

variable {k : Nat}

structure Data (k : Nat) where
  cons : Cons
  killed : Fin k → Bool

def Data.setCons (d : Data k) (s : Cons) : Data k := { d with cons := s }

inductive Event (k : Nat) where
  /-- A character comes in and commits some bytes. -/
  | input (c : UInt8) (committed : List UInt8)
  /-- A reader consumes some bytes. -/
  | read (p : Fin k) (consumed : List UInt8)
  | returned (p : Fin k) (ret : Int)

/-- The bytes over which an index goes when it moves from `i` to `j`. -/
def Cons.passed (s : Cons) (i j : BitVec 32) : List UInt8 := queued s.buf i j

inductive Free (p : Fin k) (d : Data k) : Place → Option (Event k) → Data k → Place → Prop where
  | consoleread (dst : BitVec 64) (n : Int) : Free p d .out none d (.read (.start dst n))
  | consoleintr (c : UInt8) : Free p d .out none d (.intr c)

inductive Locked (p : Fin k) (d : Data k) :
    Place → Option (Event k) → Data k → Pos Place Unit → Prop where
  | input (c : UInt8) {t : Cons} {wake : Bool} (h : consoleintr c d.cons = (t, wake)) :
      Locked p d (.intr c) (some (.input c (t.passed d.cons.w t.w))) (d.setCons t)
        (if wake then .waking () 0 .out else .free .out)
  /-- `consoleintr` after `wakeup`. -/
  | woken : Locked p d .out none d (.free .out)
  | killed (call : Call) (hn : call.n > 0) (hempty : d.cons.r = d.cons.w)
      (hkill : d.killed p = true) :
      Locked p d (.read call) (some (.returned p (-1))) d (.free .out)
  | sleep (call : Call) (hn : call.n > 0) (hempty : d.cons.r = d.cons.w)
      (hkill : d.killed p = false) :
      Locked p d (.read call) none d (.falling () (.read call))
  | turn (call : Call) (hn : call.n > 0) (hready : d.cons.r ≠ d.cons.w) (copied : Bool) {t : Cons}
      {call' : Call} {again : Bool} (ht : call.turn copied d.cons = (t, call', again)) :
      Locked p d (.read call) (some (.read p (d.cons.passed d.cons.r t.r))) (d.setCons t)
        (.locked (if again then .read call' else .leaving call'))
  | done (call : Call) (hn : ¬ call.n > 0) :
      Locked p d (.read call) none d (.locked (.leaving call))
  | leave (call : Call) :
      Locked p d (.leaving call) (some (.returned p call.ret)) d (.free .out)

/-- `kill` sets `p->killed`; a process that sleeps is made `RUNNABLE`. -/
inductive Env (d : Data k) : Option (Event k) → Data k → Prop where
  | kill (p : Fin k) : Env d none { d with killed := update d.killed p true }

def code (k : Nat) : Code k (Data k) Place Unit (Event k) := ⟨Place.Wants, Free, Locked, Env⟩

/-- Nothing has come in. -/
structure Fresh (s : Cons) : Prop where
  r : s.r = 0
  w : s.w = 0
  e : s.e = 0

end Xv6.Console
