import Xv6.Lib.Transition

/-!
# The LAZY file manager

`handle_request` of `finaltry.c`: one thread for each request, which waits on the condition of its
file until the request can be taken up, the time is over, or the file is deleted. The code between
`pthread_mutex_lock` and the unlock or wait that follows is one step. What a thread reads from the
clock is left open, so the time of a request may be over whenever it looks.
-/

namespace Xv6.Lazy

open Function Lib

inductive Operation where
  | read
  | write
  | delete
  deriving DecidableEq, Repr

structure Filenode where
  deletionStatus : Bool := false
  numberOfReaders : Int := 0
  numberOfWriters : Int := 0
  totalOccupants : Int := 0
  deriving DecidableEq, Repr

def canProcessRequest (file : Filenode) (operation : Operation) (c : Int) : Bool :=
  if file.deletionStatus then false
  else match operation with
    | .read => decide (file.totalOccupants < c)
    | .write => decide (file.numberOfWriters = 0 ∧ file.totalOccupants = 0)
    | .delete => decide (file.totalOccupants = 0)

namespace Filenode

/-- The counters when a request is taken up. -/
def takeUp (file : Filenode) : Operation → Filenode
  | .read => { file with
      numberOfReaders := file.numberOfReaders + 1, totalOccupants := file.totalOccupants + 1 }
  | .write => { file with
      numberOfWriters := file.numberOfWriters + 1, totalOccupants := file.totalOccupants + 1 }
  | .delete => { file with deletionStatus := true }

/-- The counters when a request is completed. -/
def complete (file : Filenode) : Operation → Filenode
  | .read => { file with
      numberOfReaders := file.numberOfReaders - 1, totalOccupants := file.totalOccupants - 1 }
  | .write => { file with
      numberOfWriters := file.numberOfWriters - 1, totalOccupants := file.totalOccupants - 1 }
  | .delete => file

end Filenode

inductive Outcome where
  | completed
  | cancelled
  | declined
  deriving DecidableEq, Repr

/-- Where the thread of a request stands. -/
inductive Pc where
  /-- Asleep before the loop. -/
  | arriving
  /-- At the head of the loop. -/
  | looping
  /-- Before `pthread_mutex_lock`. -/
  | locking
  /-- The request has been taken up. -/
  | taken
  /-- In `pthread_cond_timedwait`, not signalled and not timed out. -/
  | blocked
  /-- To return from `pthread_cond_timedwait`, signalled or not. -/
  | woken
  /-- To return from it with `ETIMEDOUT`. -/
  | timedOut
  | returned (outcome : Outcome)
  deriving DecidableEq, Repr

structure Thread where
  file : Nat
  operation : Operation
  pc : Pc
  deriving DecidableEq, Repr

/-- `pthread_cond_broadcast` on the condition of a file. -/
def Thread.broadcast (file : Nat) (th : Thread) : Thread :=
  if th.file = file ∧ th.pc = .blocked then { th with pc := .woken } else th

variable {n : Nat}

structure St (n : Nat) where
  file : Nat → Filenode
  thread : Fin n → Thread

namespace St

def setPc (s : St n) (t : Fin n) (l : Pc) : St n :=
  { s with thread := update s.thread t { s.thread t with pc := l } }

/-- The file of the request of a thread. -/
def fileOf (s : St n) (t : Fin n) : Filenode := s.file (s.thread t).file

def setFileOf (s : St n) (t : Fin n) (file : Filenode) : St n :=
  { s with file := update s.file (s.thread t).file file }

def broadcast (s : St n) (file : Nat) : St n :=
  { s with thread := fun t => (s.thread t).broadcast file }

/-- `can_process_request` for the request of a thread. -/
def canProcess (c : Int) (s : St n) (t : Fin n) : Bool :=
  canProcessRequest (s.fileOf t) (s.thread t).operation c

end St

/-- All requests are given and no file is in use. -/
def initial (request : Fin n → Nat × Operation) : St n where
  file := fun _ => {}
  thread := fun t => ⟨(request t).1, (request t).2, .arriving⟩

inductive Event (n : Nat) where
  | takeUp (t : Fin n)
  /-- The thread reports the outcome and returns. -/
  | returned (t : Fin n) (outcome : Outcome)
  | silent
  deriving DecidableEq

inductive Step (c : Int) : St n → Event n → St n → Prop where
  | arrive {s : St n} (t : Fin n) (h : (s.thread t).pc = .arriving) :
      Step c s .silent (s.setPc t .looping)
  /-- `current_time >= req->send_time + data->t`. -/
  | expire {s : St n} (t : Fin n) (h : (s.thread t).pc = .looping) :
      Step c s (.returned t .cancelled) (s.setPc t (.returned .cancelled))
  | goOn {s : St n} (t : Fin n) (h : (s.thread t).pc = .looping) :
      Step c s .silent (s.setPc t .locking)
  | decline {s : St n} (t : Fin n) (h : (s.thread t).pc = .locking)
      (hdel : (s.fileOf t).deletionStatus = true) :
      Step c s (.returned t .declined) (s.setPc t (.returned .declined))
  | takeUp {s : St n} (t : Fin n) (h : (s.thread t).pc = .locking)
      (hdel : (s.fileOf t).deletionStatus = false) (hcan : s.canProcess c t = true) :
      Step c s (.takeUp t)
        ((s.setFileOf t ((s.fileOf t).takeUp (s.thread t).operation)).setPc t .taken)
  /-- `pthread_cond_timedwait` releases the lock and blocks. -/
  | wait {s : St n} (t : Fin n) (h : (s.thread t).pc = .locking)
      (hdel : (s.fileOf t).deletionStatus = false) (hcan : s.canProcess c t = false) :
      Step c s .silent (s.setPc t .blocked)
  | complete {s : St n} (t : Fin n) (h : (s.thread t).pc = .taken) :
      Step c s (.returned t .completed)
        (((s.setFileOf t ((s.fileOf t).complete (s.thread t).operation)).setPc t
          (.returned .completed)).broadcast (s.thread t).file)
  | spurious {s : St n} (t : Fin n) (h : (s.thread t).pc = .blocked) :
      Step c s .silent (s.setPc t .woken)
  | timeout {s : St n} (t : Fin n) (h : (s.thread t).pc = .blocked) :
      Step c s .silent (s.setPc t .timedOut)
  /-- `pthread_cond_timedwait` returns 0. -/
  | wake {s : St n} (t : Fin n) (h : (s.thread t).pc = .woken) :
      Step c s .silent (s.setPc t .looping)
  | cancel {s : St n} (t : Fin n) (h : (s.thread t).pc = .timedOut) :
      Step c s (.returned t .cancelled) (s.setPc t (.returned .cancelled))

end Xv6.Lazy
