import Xv6.Lib.Transition
import Xv6.Kernel.Proc

/-!
# Processes on several CPUs

The functions of `proc.c` that create, end, reap and kill processes, with the scheduler and the
clock interrupt, as threads that interleave. A step is the code from one lock operation to the
next, or less. The position of a thread says which locks it holds: a lock is free if no thread is
at a position inside a section that it protects. Memory and files are left out; where an
allocation or a copy to user memory can fail, both outcomes are steps.
-/

namespace Xv6.Process

open Function

/-- What a process sleeps on: a process, the clock, or anything else. -/
inductive Chan where
  | proc (i : Fin NPROC)
  | ticks
  | other (n : Nat)
  deriving DecidableEq, Repr

/-- The fields of `struct proc` that the scheduler, `wait`, `kill` and the clock use. -/
structure Slot where
  state : ProcState
  chan : Option Chan
  killed : Bool
  xstate : Int
  pid : Int
  parent : Option (Fin NPROC)
  /-- The times are of type `uint`. -/
  rtime : Nat
  ctime : Nat
  etime : Nat
  deriving DecidableEq, Repr

/-- `userinit` takes the first slot. -/
def initproc : Fin NPROC := 0

/-- A number as an `int`. -/
def int32 (x : Int) : Int := x.bmod (2 ^ 32)

def uint32 (x : Int) : Nat := (x % 2 ^ 32).toNat

/-! ### Code inside one section -/

namespace Slot

def freeproc (p : Slot) : Slot :=
  { p with pid := 0, parent := none, chan := none, killed := false, xstate := 0, state := .unused }

/-- The end of `allocproc`. -/
def clearTimes (ticks : Nat) (p : Slot) : Slot := { p with rtime := 0, etime := 0, ctime := ticks }

/-- `exit`, with `p->lock` held. -/
def exit (status : Int) (ticks : Nat) (p : Slot) : Slot :=
  { p with xstate := status, state := .zombie, etime := ticks }

/-- The body of the loop of `wakeup`. -/
def wakeup (chan : Option Chan) (p : Slot) : Slot :=
  if p.state = .sleeping ∧ p.chan = chan then { p with state := .runnable } else p

/-- The body of the loop of `kill`, for the slot with the pid. -/
def kill (p : Slot) : Slot :=
  { p with killed := true, state := if p.state = .sleeping then .runnable else p.state }

/-- The body of the loop of `update_time`. -/
def updateTime (p : Slot) : Slot :=
  if p.state = .running then { p with rtime := uint32 (p.rtime + 1) } else p

/-- `*wtime` in `waitx`. -/
def wtime (p : Slot) : Nat := uint32 (p.etime - p.ctime - p.rtime)

end Slot

/-! ### Threads -/

/-- Where the kernel thread of a process stands. -/
inductive Pc where
  /-- In user mode, or in kernel code that is not modelled. -/
  | user
  /-- In the loop of `allocproc`. -/
  | scan (i : Nat)
  /-- `allocproc` has found the slot and holds its lock. -/
  | found (np : Fin NPROC)
  /-- `allocpid` has returned. -/
  | numbered (np : Fin NPROC) (pid : Int)
  /-- The slot is `USED`, and memory for it is being allocated. -/
  | used (np : Fin NPROC)
  /-- `allocproc` has returned, and `fork` copies the memory and the files. -/
  | copying (np : Fin NPROC)
  /-- Before `np->parent = p`. -/
  | linking (np : Fin NPROC)
  /-- Before `np->state = RUNNABLE`. -/
  | starting (np : Fin NPROC)
  /-- `exit` closes files and has not taken `wait_lock`. -/
  | closing (status : Int)
  /-- In the loop of `reparent`. -/
  | reparenting (status : Int) (j : Nat)
  /-- In `wakeup(initproc)`, for the child `j`. -/
  | wakingInit (status : Int) (j k : Nat)
  /-- In `wakeup(p->parent)`. -/
  | wakingParent (status : Int) (parent : Option (Fin NPROC)) (k : Nat)
  /-- A zombie that holds `wait_lock` and its own lock. -/
  | dead
  /-- A zombie that holds its own lock until the scheduler releases it. -/
  | switching
  | gone
  /-- `wait`, or `waitx`, before `wait_lock` is taken. -/
  | waiting (x : Bool)
  /-- In the loop of `wait`. -/
  | looking (x : Bool) (j : Nat) (havekids : Bool)
  /-- A zombie has been found, and its lock is held. -/
  | reaping (x : Bool) (j : Fin NPROC)
  /-- Before `wait_lock` is released and `wait` returns. -/
  | leaving
  | deciding (x : Bool) (havekids : Bool)
  /-- In `sleep`, before `p->lock` is taken. -/
  | sleeping (x : Bool)
  /-- In `sleep`, with `p->lock` and `wait_lock`. -/
  | dozing (x : Bool)
  /-- In the loop of `kill`. -/
  | killing (pid : Int) (j : Nat)
  deriving DecidableEq, Repr

/-- Thread `t`, if it stands here, holds the lock of slot `i`. -/
@[simp] def Pc.Holds (t : Fin NPROC) : Pc → Fin NPROC → Prop
  | .found np, i | .numbered np _, i | .used np, i | .copying np, i => i = np
  | .reaping _ j, i => i = j
  | .dead, i | .switching, i | .dozing _, i => i = t
  | _, _ => False

/-- `wait_lock` is held here. -/
@[simp] def Pc.HoldsWait : Pc → Prop
  | .reparenting .. | .wakingInit .. | .wakingParent .. | .dead | .looking .. | .reaping ..
  | .leaving | .deciding .. | .sleeping _ | .dozing _ => True
  | _ => False

/-- No lock is held here, so the clock can take the CPU away. -/
@[simp] def Pc.Preemptible : Pc → Prop
  | .user | .scan _ | .linking _ | .starting _ | .closing _ | .waiting _ | .killing .. => True
  | _ => False

/-- Where `clockintr` stands. -/
inductive Clock where
  | idle
  /-- In the loop of `update_time`. -/
  | scanning (k : Nat)
  /-- In `wakeup(&ticks)`. -/
  | waking (k : Nat)
  deriving DecidableEq, Repr

structure St where
  slot : Fin NPROC → Slot
  pc : Fin NPROC → Pc
  /-- The number of the next process; `nextpid` is this number as an `int`. -/
  nextpid : Nat
  ticks : Nat
  clock : Clock

namespace St

def setPc (s : St) (t : Fin NPROC) (l : Pc) : St := { s with pc := update s.pc t l }

def setSlot (s : St) (i : Fin NPROC) (p : Slot) : St :=
  { s with slot := update s.slot i p }

/-- The lock of slot `i` is free. -/
def Free (s : St) (i : Fin NPROC) : Prop := ∀ t, ¬ (s.pc t).Holds t i

def WaitFree (s : St) : Prop := ∀ t, ¬ (s.pc t).HoldsWait

def Running (s : St) (t : Fin NPROC) : Prop := (s.slot t).state = .running

variable (s : St) (t i j : Fin NPROC) (l : Pc) (p : Slot)

@[simp] lemma setPc_slot : (s.setPc t l).slot = s.slot := rfl
@[simp] lemma setPc_nextpid : (s.setPc t l).nextpid = s.nextpid := rfl
@[simp] lemma setPc_ticks : (s.setPc t l).ticks = s.ticks := rfl
@[simp] lemma setPc_clock : (s.setPc t l).clock = s.clock := rfl
@[simp] lemma setSlot_pc : (s.setSlot i p).pc = s.pc := rfl
@[simp] lemma setSlot_nextpid : (s.setSlot i p).nextpid = s.nextpid := rfl
@[simp] lemma setSlot_ticks : (s.setSlot i p).ticks = s.ticks := rfl
@[simp] lemma setSlot_clock : (s.setSlot i p).clock = s.clock := rfl

@[simp] lemma setSlot_slot_self : (s.setSlot i p).slot i = p := update_self _ _ _

@[simp] lemma setPc_setPc (l' : Pc) : (s.setPc t l).setPc t l' = s.setPc t l' := by
  simp [setPc]

lemma setPc_pc : (s.setPc t l).pc j = if j = t then l else s.pc j := by
  simp [setPc, update_apply]

lemma setSlot_slot : (s.setSlot i p).slot j = if j = i then p else s.slot j := by
  simp [setSlot, update_apply]

end St

/-! ### Steps -/

/-- Steps of thread `t` that change nothing but its position. -/
inductive Move (s : St) (t : Fin NPROC) : Pc → Pc → Prop where
  -- `fork`
  | fork : Move s t .user (.scan 0)
  | scanNext (i : Fin NPROC) : s.Free i → (s.slot i).state ≠ .unused →
      Move s t (.scan i) (.scan (i + 1))
  | scanFound (i : Fin NPROC) : s.Free i → (s.slot i).state = .unused →
      Move s t (.scan i) (.found i)
  | scanNone : Move s t (.scan NPROC) .user
  | copied (np : Fin NPROC) : Move s t (.copying np) (.linking np)
  -- `exit`, which panics if the process is `initproc`
  | exit (status : Int) : t ≠ initproc → Move s t .user (.closing status)
  | exitLock (status : Int) : s.WaitFree → Move s t (.closing status) (.reparenting status 0)
  | reparentSkip (status : Int) (j : Fin NPROC) : (s.slot j).parent ≠ some t →
      Move s t (.reparenting status j) (.reparenting status (j + 1))
  | reparentDone (status : Int) :
      Move s t (.reparenting status NPROC) (.wakingParent status (s.slot t).parent 0)
  | wakeInitSelf (status : Int) (j : Nat) :
      Move s t (.wakingInit status j t) (.wakingInit status j (t + 1))
  | wakeInitDone (status : Int) (j : Nat) :
      Move s t (.wakingInit status j NPROC) (.reparenting status (j + 1))
  | wakeParentSelf (status : Int) (p : Option (Fin NPROC)) :
      Move s t (.wakingParent status p t) (.wakingParent status p (t + 1))
  -- `wait` and `waitx`
  | wait (x : Bool) : Move s t .user (.waiting x)
  | waitLock (x : Bool) : s.WaitFree → Move s t (.waiting x) (.looking x 0 false)
  | lookOther (x h : Bool) (j : Fin NPROC) : (s.slot j).parent ≠ some t →
      Move s t (.looking x j h) (.looking x (j + 1) h)
  | lookAlive (x h : Bool) (j : Fin NPROC) : (s.slot j).parent = some t → s.Free j →
      (s.slot j).state ≠ .zombie → Move s t (.looking x j h) (.looking x (j + 1) true)
  | lookZombie (x h : Bool) (j : Fin NPROC) : (s.slot j).parent = some t → s.Free j →
      (s.slot j).state = .zombie → Move s t (.looking x j h) (.reaping x j)
  | copyoutFail (x : Bool) (j : Fin NPROC) : Move s t (.reaping x j) .leaving
  | leave : Move s t .leaving .user
  | lookDone (x h : Bool) : Move s t (.looking x NPROC h) (.deciding x h)
  | noKids (x : Bool) : Move s t (.deciding x false) .leaving
  -- `wait` takes the lock to look at `killed`, `waitx` does not
  | isKilled (x : Bool) : (x = false → s.Free t) → (s.slot t).killed →
      Move s t (.deciding x true) .leaving
  | notKilled (x : Bool) : (x = false → s.Free t) → ¬ (s.slot t).killed →
      Move s t (.deciding x true) (.sleeping x)
  | sleepLock (x : Bool) : s.Free t → Move s t (.sleeping x) (.dozing x)
  -- `kill`
  | kill (pid : Int) : Move s t .user (.killing pid 0)
  | killMiss (pid : Int) (j : Fin NPROC) : s.Free j → (s.slot j).pid ≠ pid →
      Move s t (.killing pid j) (.killing pid (j + 1))
  | killNone (pid : Int) : Move s t (.killing pid NPROC) .user

/-- What is remembered of a step. -/
inductive Event where
  /-- Nothing. -/
  | silent
  /-- `allocpid` has given out a number. -/
  | numbered
  /-- `allocproc` has made the slot `USED`. -/
  | created (i : Fin NPROC) (pid : Int)
  /-- `kill(pid)` has set `killed` in the slot. -/
  | killed (pid : Int) (i : Fin NPROC)
  /-- The process has set `killed` for itself. -/
  | setkilled (i : Fin NPROC)
  /-- The process has run `exit(status)`. -/
  | exited (i : Fin NPROC) (pid : Int) (status : Int)
  /-- `wait`, or `waitx`, of process `p` returns the pid of the child in slot `i`, with the status
  that is copied out and the two times that `waitx` reports. -/
  | reaped (x : Bool) (p i : Fin NPROC) (pid : Int) (status : Int) (wtime rtime : Nat)
  | tick
  /-- `update_time` has visited the slot. -/
  | charged (i : Fin NPROC)
  deriving DecidableEq, Repr

inductive Step : St → Event → St → Prop where
  | move {s : St} {l : Pc} (t : Fin NPROC) : s.Running t → Move s t (s.pc t) l →
      Step s .silent (s.setPc t l)
  -- `allocproc` and `fork`
  | allocpid {s : St} (t np : Fin NPROC) : s.Running t → s.pc t = .found np →
      Step s .numbered
        { s.setPc t (.numbered np (int32 s.nextpid)) with nextpid := s.nextpid + 1 }
  | setUsed {s : St} (t np : Fin NPROC) (pid : Int) : s.Running t → s.pc t = .numbered np pid →
      Step s (.created np pid)
        ((s.setPc t (.used np)).setSlot np { s.slot np with pid := pid, state := .used })
  | allocFail {s : St} (t np : Fin NPROC) : s.Running t → s.pc t = .used np →
      Step s .silent ((s.setPc t .user).setSlot np (s.slot np).freeproc)
  -- the new context starts in `forkret`
  | allocDone {s : St} (t np : Fin NPROC) : s.Running t → s.pc t = .used np →
      Step s .silent
        (((s.setPc t (.copying np)).setPc np .user).setSlot np ((s.slot np).clearTimes s.ticks))
  | copyFail {s : St} (t np : Fin NPROC) : s.Running t → s.pc t = .copying np →
      Step s .silent ((s.setPc t .user).setSlot np (s.slot np).freeproc)
  | link {s : St} (t np : Fin NPROC) : s.Running t → s.pc t = .linking np → s.WaitFree →
      Step s .silent
        ((s.setPc t (.starting np)).setSlot np { s.slot np with parent := some t })
  | start {s : St} (t np : Fin NPROC) : s.Running t → s.pc t = .starting np → s.Free np →
      Step s .silent ((s.setPc t .user).setSlot np { s.slot np with state := .runnable })
  -- `exit`
  | reparent {s : St} (t j : Fin NPROC) (status : Int) : s.Running t →
      s.pc t = .reparenting status j → (s.slot j).parent = some t →
      Step s .silent
        ((s.setPc t (.wakingInit status j 0)).setSlot j { s.slot j with parent := some initproc })
  | wakeInit {s : St} (t k : Fin NPROC) (status : Int) (j : Nat) : s.Running t →
      s.pc t = .wakingInit status j k → k ≠ t → s.Free k →
      Step s .silent
        ((s.setPc t (.wakingInit status j (k + 1))).setSlot k
          ((s.slot k).wakeup (some (.proc initproc))))
  | wakeParent {s : St} (t k : Fin NPROC) (status : Int) (p : Option (Fin NPROC)) : s.Running t →
      s.pc t = .wakingParent status p k → k ≠ t → s.Free k →
      Step s .silent
        ((s.setPc t (.wakingParent status p (k + 1))).setSlot k
          ((s.slot k).wakeup (p.map .proc)))
  | die {s : St} (t : Fin NPROC) (status : Int) (p : Option (Fin NPROC)) : s.Running t →
      s.pc t = .wakingParent status p NPROC → s.Free t →
      Step s (.exited t (s.slot t).pid status)
        ((s.setPc t .dead).setSlot t ((s.slot t).exit status s.ticks))
  | deadRelease {s : St} (t : Fin NPROC) : s.pc t = .dead → Step s .silent (s.setPc t .switching)
  | deadSwitch {s : St} (t : Fin NPROC) : s.pc t = .switching → Step s .silent (s.setPc t .gone)
  -- `wait` and `waitx`
  | reap {s : St} (t j : Fin NPROC) (x : Bool) : s.Running t → s.pc t = .reaping x j →
      Step s
        (.reaped x t j (s.slot j).pid (s.slot j).xstate (s.slot j).wtime (s.slot j).rtime)
        ((s.setPc t .leaving).setSlot j (s.slot j).freeproc)
  | sleepWait {s : St} (t : Fin NPROC) (x : Bool) : s.Running t → s.pc t = .dozing x →
      Step s .silent
        ((s.setPc t (.waiting x)).setSlot t
          { s.slot t with chan := some (.proc t), state := .sleeping })
  -- `kill`, and `setkilled` for the process itself
  | killHit {s : St} (t j : Fin NPROC) (pid : Int) : s.Running t → s.pc t = .killing pid j →
      s.Free j → (s.slot j).pid = pid →
      Step s (.killed pid j) ((s.setPc t .user).setSlot j (s.slot j).kill)
  | setkilled {s : St} (t : Fin NPROC) : s.Running t → s.pc t = .user → s.Free t →
      Step s (.setkilled t) (s.setSlot t { s.slot t with killed := true })
  -- the scheduler, and sleeping and waking in the rest of the kernel
  | yield {s : St} (t : Fin NPROC) : s.Running t → (s.pc t).Preemptible → s.Free t →
      Step s .silent (s.setSlot t { s.slot t with state := .runnable })
  | sleep {s : St} (t : Fin NPROC) (chan : Chan) : s.Running t →
      (s.pc t = .user ∨ ∃ status, s.pc t = .closing status) → s.Free t →
      Step s .silent (s.setSlot t { s.slot t with chan := some chan, state := .sleeping })
  | wakeup {s : St} (k : Fin NPROC) (chan : Chan) : s.Free k →
      Step s .silent (s.setSlot k ((s.slot k).wakeup (some chan)))
  -- a process that comes back from `sleep` clears `chan`; after `yield` there is none
  | schedule {s : St} (i : Fin NPROC) : (s.slot i).state = .runnable → s.Free i →
      Step s .silent (s.setSlot i { s.slot i with state := .running, chan := none })
  -- `clockintr`
  | tick {s : St} : s.clock = .idle →
      Step s .tick { s with ticks := uint32 (s.ticks + 1), clock := .scanning 0 }
  | charge {s : St} (k : Fin NPROC) : s.clock = .scanning k → s.Free k →
      Step s (.charged k) { s.setSlot k (s.slot k).updateTime with clock := .scanning (k + 1) }
  | chargeDone {s : St} : s.clock = .scanning NPROC → Step s .silent { s with clock := .waking 0 }
  | wakeTicks {s : St} (k : Fin NPROC) : s.clock = .waking k → s.Free k →
      Step s .silent
        { s.setSlot k ((s.slot k).wakeup (some .ticks)) with clock := .waking (k + 1) }
  | tickDone {s : St} : s.clock = .waking NPROC → Step s .silent { s with clock := .idle }

/-- An unused slot before any process has had it. -/
def Slot.empty : Slot where
  state := .unused
  chan := none
  killed := false
  xstate := 0
  pid := 0
  parent := none
  rtime := 0
  ctime := 0
  etime := 0

/-- The slot of `initproc`. -/
def Slot.first : Slot := { Slot.empty with state := .runnable, pid := 1 }

/-- After `userinit`. -/
def boot : St where
  slot := update (fun _ => .empty) initproc .first
  pc := fun _ => .user
  nextpid := 2
  ticks := 0
  clock := .idle

end Xv6.Process
