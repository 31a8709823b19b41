import Xv6.Lib.Transition

/-!
# The log

`log.c` over the buffer cache of `bio.c`: operations of several threads that modify cached blocks
between `begin_op` and `end_op`, the commit that the last of them makes, crashes, and the recovery
at boot. The code under `log.lock` is one step. The sleep lock of a buffer is held from `bread` to
`brelse`, so the body of a loop of `write_log` or `install_trans` is one step, with one block write.
-/

namespace Xv6.Log

open Function Lib

def MAXOPBLOCKS : Nat := 10
def LOGSIZE : Nat := MAXOPBLOCKS * 3

/-- A block as the sequence of its words. -/
abbrev Block := Nat → Nat

/-- Where the log is: `log.start` and `log.size`. The first block is the header. -/
structure Geometry where
  start : Nat
  size : Nat
  pos : 0 < size

namespace Geometry

variable (g : Geometry)

/-- The block that the log keeps for entry `tail` of the header. -/
def slot (tail : Nat) : Nat := g.start + tail + 1

/-- A block outside the log area. -/
def Home (b : Nat) : Prop := b < g.start ∨ g.start + g.size ≤ b

variable {g} {b tail : Nat}

lemma Home.ne_start (h : g.Home b) : b ≠ g.start := by
  have hpos := g.pos
  unfold Home at h
  omega

lemma Home.ne_slot (h : g.Home b) (htail : tail + 1 < g.size) : b ≠ g.slot tail := by
  unfold Home slot at *
  omega

lemma slot_ne_start : g.slot tail ≠ g.start := by
  unfold slot
  omega

lemma slot_inj {i : Nat} : g.slot i = g.slot tail ↔ i = tail := by
  simp [slot]

end Geometry

/-- `struct logheader` at the start of a block: `n`, and the first `n` of `block`. -/
def readHead (v : Block) : List Nat := (List.range (v 0)).map fun i => v (i + 1)

/-- `write_head` leaves the words after the entries alone. -/
def writeHead (v : Block) (blocks : List Nat) : Block := fun i =>
  if i = 0 then blocks.length else blocks.getD (i - 1) (v i)

@[simp] lemma readHead_writeHead (v : Block) (blocks : List Nat) :
    readHead (writeHead v blocks) = blocks := by
  apply List.ext_getElem
  · simp [readHead, writeHead]
  · intro i h₁ h₂
    simp [readHead, writeHead, h₂]

/-! ### States -/

variable {n : Nat}

/-- A cached block. The reference count is that of its owner, of the threads that wait for it, and
the pins of the log. -/
structure Buf (n : Nat) where
  data : Block
  /-- The thread that holds the sleep lock. -/
  owner : Option (Fin n) := none
  pins : Nat := 0
  /-- The data has been modified and `log_write` has not been called since. -/
  modified : Bool := false

/-- Where a thread stands. -/
inductive Pc where
  | idle
  /-- Between `begin_op` and `end_op`, with the blocks that the operation has logged. -/
  | inOp (logged : Finset Nat)
  /-- At the start of `commit`. -/
  | committing
  /-- In the loop of `write_log`. -/
  | writeLog (tail : Nat)
  | writeHead
  /-- In the loop of `install_trans`. -/
  | install (tail : Nat)
  /-- Before `log.lh.n = 0`. -/
  | clear
  /-- `commit` has returned. -/
  | finish

/-- The thread has set `log.committing`. -/
@[simp] def Pc.Commits : Pc → Prop
  | .idle | .inOp _ => False
  | _ => True

@[simp] def Pc.InOp : Pc → Prop
  | .inOp _ => True
  | _ => False

/-- The transaction is in the log and not yet erased from it. -/
@[simp] def Pc.Installs : Pc → Prop
  | .install _ | .clear => True
  | _ => False

/-- The blocks that the operation of the thread has logged. -/
@[simp] def Pc.logged : Pc → Finset Nat
  | .inOp logged => logged
  | _ => ∅

inductive Panic where
  /-- `too big a transaction`. -/
  | tooBig
  /-- `log.committing`. -/
  | committing
  /-- `log_write outside of trans`. -/
  | outside
  deriving DecidableEq

/-- What the system as a whole does. -/
inductive Phase where
  /-- Before `read_head`. -/
  | booting
  /-- In `install_trans(1)`. -/
  | recovering (tail : Nat)
  /-- Before the `write_head` of `recover_from_log`. -/
  | clearing
  /-- At the end of `recover_from_log`. -/
  | recovered
  | up
  | panicked (p : Panic)
  deriving DecidableEq

structure St (n : Nat) where
  disk : Nat → Block
  cache : Nat → Option (Buf n)
  /-- The first `log.lh.n` entries of `log.lh.block`. -/
  lh : List Nat
  outstanding : Nat
  committing : Bool
  pc : Fin n → Pc
  phase : Phase

namespace St

/-- After a crash only the disk is left. -/
def boot (disk : Nat → Block) : St n where
  disk := disk
  cache := fun _ => none
  lh := []
  outstanding := 0
  committing := false
  pc := fun _ => .idle
  phase := .booting

/-- The buffer that `bread` returns. -/
def bread (s : St n) (b : Nat) : Buf n := (s.cache b).getD { data := s.disk b }

def setBuf (s : St n) (b : Nat) (x : Buf n) : St n :=
  { s with cache := update s.cache b (some x) }

def bwrite (s : St n) (b : Nat) (x : Buf n) : St n :=
  { s.setBuf b x with disk := update s.disk b x.data }

def setPc (s : St n) (t : Fin n) (l : Pc) : St n := { s with pc := update s.pc t l }

section

variable (s : St n) (b c : Nat) (x : Buf n) (t : Fin n) (l : Pc)

@[simp] lemma setBuf_disk : (s.setBuf b x).disk = s.disk := rfl
@[simp] lemma setBuf_lh : (s.setBuf b x).lh = s.lh := rfl
@[simp] lemma setBuf_outstanding : (s.setBuf b x).outstanding = s.outstanding := rfl
@[simp] lemma setBuf_committing : (s.setBuf b x).committing = s.committing := rfl
@[simp] lemma setBuf_pc : (s.setBuf b x).pc = s.pc := rfl
@[simp] lemma setBuf_phase : (s.setBuf b x).phase = s.phase := rfl
@[simp] lemma bwrite_lh : (s.bwrite b x).lh = s.lh := rfl
@[simp] lemma bwrite_outstanding : (s.bwrite b x).outstanding = s.outstanding := rfl
@[simp] lemma bwrite_committing : (s.bwrite b x).committing = s.committing := rfl
@[simp] lemma bwrite_pc : (s.bwrite b x).pc = s.pc := rfl
@[simp] lemma bwrite_phase : (s.bwrite b x).phase = s.phase := rfl
@[simp] lemma setPc_disk : (s.setPc t l).disk = s.disk := rfl
@[simp] lemma setPc_cache : (s.setPc t l).cache = s.cache := rfl
@[simp] lemma setPc_lh : (s.setPc t l).lh = s.lh := rfl
@[simp] lemma setPc_outstanding : (s.setPc t l).outstanding = s.outstanding := rfl
@[simp] lemma setPc_committing : (s.setPc t l).committing = s.committing := rfl
@[simp] lemma setPc_phase : (s.setPc t l).phase = s.phase := rfl
@[simp] lemma setPc_bread : (s.setPc t l).bread b = s.bread b := rfl

lemma setPc_pc (u : Fin n) : (s.setPc t l).pc u = if u = t then l else s.pc u := by
  simp [setPc, update_apply]

lemma setBuf_bread : (s.setBuf b x).bread c = if c = b then x else s.bread c := by
  by_cases h : c = b <;> simp [bread, setBuf, h]

lemma bwrite_bread : (s.bwrite b x).bread c = if c = b then x else s.bread c := by
  by_cases h : c = b <;> simp [bread, bwrite, setBuf, h]

lemma bwrite_disk : (s.bwrite b x).disk c = if c = b then x.data else s.disk c := by
  simp [bwrite, update_apply]

end

/-- Nobody holds the sleep lock of the block. -/
def Unlocked (s : St n) (b : Nat) : Prop := (s.bread b).owner = none

/-- The first test of `log_write`. -/
def TooBig (g : Geometry) (s : St n) : Prop :=
  LOGSIZE ≤ s.lh.length ∨ g.size ≤ s.lh.length + 1

/-- The buffer of the header, as `write_head` leaves it. -/
def headBuf (g : Geometry) (s : St n) (blocks : List Nat) : Buf n :=
  { s.bread g.start with data := Log.writeHead (s.bread g.start).data blocks }

/-- The buffer of a log block, as the body of the loop of `write_log` leaves it. -/
def logBuf (g : Geometry) (s : St n) (tail b : Nat) : Buf n :=
  { s.bread (g.slot tail) with data := (s.bread b).data }

/-- The buffer of a home block, as the body of the loop of `install_trans` leaves it. -/
def homeBuf (g : Geometry) (s : St n) (tail b : Nat) : Buf n :=
  { s.bread b with data := (s.bread (g.slot tail)).data }

/-- `log_write`, after its tests, by an operation that has logged `logged`. -/
def logWrite (s : St n) (t : Fin n) (logged : Finset Nat) (b : Nat) : St n :=
  if b ∈ s.lh then
    (s.setBuf b { s.bread b with modified := false }).setPc t (.inOp (insert b logged))
  else
    { (s.setBuf b { s.bread b with modified := false, pins := (s.bread b).pins + 1 }).setPc t
        (.inOp (insert b logged)) with lh := s.lh ++ [b] }

end St

/-! ### Steps -/

inductive Event (n : Nat) where
  | beginOp (t : Fin n)
  /-- The operation of a thread modifies the buffer of a block. -/
  | modify (t : Fin n) (b : Nat) (v : Block)
  | logWrite (t : Fin n) (b : Nat)
  | endOp (t : Fin n)
  /-- A block write. -/
  | bwrite (b : Nat) (v : Block)
  | crash
  /-- `recover_from_log` returns. -/
  | recovered
  | silent

section

open St

/-- One step of the system. Steps of operations and of commits need the file system to be up. -/
inductive Step (g : Geometry) : St n → Event n → St n → Prop where
  /-- `read_head`. -/
  | readHead {s : St n} (h : s.phase = .booting) :
      Step g s .silent { s.setBuf g.start (s.bread g.start) with
        lh := Log.readHead (s.bread g.start).data, phase := .recovering 0 }
  | recoverInstall {s : St n} (tail b : Nat) (h : s.phase = .recovering tail)
      (hb : s.lh[tail]? = some b) :
      Step g s (.bwrite b (s.homeBuf g tail b).data)
        { (s.setBuf (g.slot tail) (s.bread (g.slot tail))).bwrite b (s.homeBuf g tail b) with
          phase := .recovering (tail + 1) }
  | recoverInstalled {s : St n} (h : s.phase = .recovering s.lh.length) :
      Step g s .silent { s with lh := [], phase := .clearing }
  | recoverClear {s : St n} (h : s.phase = .clearing) :
      Step g s (.bwrite g.start (s.headBuf g s.lh).data)
        { s.bwrite g.start (s.headBuf g s.lh) with phase := .recovered }
  | recovered {s : St n} (h : s.phase = .recovered) :
      Step g s .recovered { s with phase := .up }
  | crash {s : St n} : Step g s .crash (boot s.disk)
  /-- A buffer that nobody uses is recycled. -/
  | recycle {s : St n} (b : Nat) (h : s.phase = .up) (hown : (s.bread b).owner = none)
      (hpins : (s.bread b).pins = 0) :
      Step g s .silent { s with cache := update s.cache b none }
  /-- A thread reads a block, in an operation or outside one. -/
  | bread {s : St n} (t : Fin n) (b : Nat) (h : s.phase = .up) (hpc : ¬ (s.pc t).Commits)
      (hfree : s.Unlocked b) : Step g s .silent (s.setBuf b { s.bread b with owner := some t })
  /-- A modified block is not released before `log_write`. -/
  | brelse {s : St n} (t : Fin n) (b : Nat) (h : s.phase = .up)
      (hown : (s.bread b).owner = some t) (hmod : (s.bread b).modified = false) :
      Step g s .silent (s.setBuf b { s.bread b with owner := none })
  /-- `begin_op` sleeps until it can go on. -/
  | beginOp {s : St n} (t : Fin n) (h : s.phase = .up) (hpc : s.pc t = .idle)
      (hcommit : s.committing = false)
      (hspace : s.lh.length + (s.outstanding + 1) * MAXOPBLOCKS ≤ LOGSIZE) :
      Step g s (.beginOp t) { s.setPc t (.inOp ∅) with outstanding := s.outstanding + 1 }
  | modify {s : St n} (t : Fin n) (b : Nat) (v : Block) (h : s.phase = .up)
      (hpc : (s.pc t).InOp) (hown : (s.bread b).owner = some t) (hhome : g.Home b) :
      Step g s (.modify t b v) (s.setBuf b { s.bread b with data := v, modified := true })
  | logWrite {s : St n} (t : Fin n) (logged : Finset Nat) (b : Nat) (h : s.phase = .up)
      (hpc : s.pc t = .inOp logged) (hown : (s.bread b).owner = some t) (hhome : g.Home b)
      (hsize : ¬ s.TooBig g) (hout : 1 ≤ s.outstanding) :
      Step g s (.logWrite t b) (s.logWrite t logged b)
  | logWriteTooBig {s : St n} (t : Fin n) (b : Nat) (h : s.phase = .up)
      (hpc : (s.pc t).InOp) (hown : (s.bread b).owner = some t) (hhome : g.Home b)
      (hsize : s.TooBig g) :
      Step g s (.logWrite t b) { s with phase := .panicked .tooBig }
  | logWriteOutside {s : St n} (t : Fin n) (b : Nat) (h : s.phase = .up)
      (hpc : (s.pc t).InOp) (hown : (s.bread b).owner = some t) (hhome : g.Home b)
      (hsize : ¬ s.TooBig g) (hout : s.outstanding < 1) :
      Step g s (.logWrite t b) { s with phase := .panicked .outside }
  /-- An operation ends with all the blocks that it has modified logged. -/
  | endOp {s : St n} (t : Fin n) (h : s.phase = .up) (hpc : (s.pc t).InOp)
      (hmod : ∀ b, (s.bread b).owner = some t → (s.bread b).modified = false)
      (hcommit : s.committing = false) (hout : s.outstanding - 1 ≠ 0) :
      Step g s (.endOp t) { s.setPc t .idle with outstanding := s.outstanding - 1 }
  | endOpCommit {s : St n} (t : Fin n) (h : s.phase = .up) (hpc : (s.pc t).InOp)
      (hmod : ∀ b, (s.bread b).owner = some t → (s.bread b).modified = false)
      (hcommit : s.committing = false) (hout : s.outstanding - 1 = 0) :
      Step g s (.endOp t)
        { s.setPc t .committing with outstanding := s.outstanding - 1, committing := true }
  | endOpPanic {s : St n} (t : Fin n) (h : s.phase = .up) (hpc : (s.pc t).InOp)
      (hcommit : s.committing = true) :
      Step g s (.endOp t) { s with phase := .panicked .committing }
  | commitEmpty {s : St n} (t : Fin n) (h : s.phase = .up) (hpc : s.pc t = .committing)
      (hlh : s.lh = []) : Step g s .silent (s.setPc t .finish)
  | commitStart {s : St n} (t : Fin n) (h : s.phase = .up) (hpc : s.pc t = .committing)
      (hlh : s.lh ≠ []) : Step g s .silent (s.setPc t (.writeLog 0))
  | writeLog {s : St n} (t : Fin n) (tail b : Nat) (h : s.phase = .up)
      (hpc : s.pc t = .writeLog tail) (hb : s.lh[tail]? = some b)
      (hto : s.Unlocked (g.slot tail)) (hfrom : s.Unlocked b) :
      Step g s (.bwrite (g.slot tail) (s.logBuf g tail b).data)
        (((s.setBuf b (s.bread b)).bwrite (g.slot tail) (s.logBuf g tail b)).setPc t
          (.writeLog (tail + 1)))
  | writeLogDone {s : St n} (t : Fin n) (h : s.phase = .up)
      (hpc : s.pc t = .writeLog s.lh.length) : Step g s .silent (s.setPc t .writeHead)
  | writeHead {s : St n} (t : Fin n) (h : s.phase = .up) (hpc : s.pc t = .writeHead)
      (hfree : s.Unlocked g.start) :
      Step g s (.bwrite g.start (s.headBuf g s.lh).data)
        ((s.bwrite g.start (s.headBuf g s.lh)).setPc t (.install 0))
  | install {s : St n} (t : Fin n) (tail b : Nat) (h : s.phase = .up)
      (hpc : s.pc t = .install tail) (hb : s.lh[tail]? = some b)
      (hlog : s.Unlocked (g.slot tail)) (hdst : s.Unlocked b) :
      Step g s (.bwrite b (s.homeBuf g tail b).data)
        (((s.setBuf (g.slot tail) (s.bread (g.slot tail))).bwrite b
          { s.homeBuf g tail b with pins := (s.bread b).pins - 1 }).setPc t (.install (tail + 1)))
  | installed {s : St n} (t : Fin n) (h : s.phase = .up)
      (hpc : s.pc t = .install s.lh.length) : Step g s .silent (s.setPc t .clear)
  /-- `log.lh.n = 0` and the second `write_head` of `commit`. -/
  | clear {s : St n} (t : Fin n) (h : s.phase = .up) (hpc : s.pc t = .clear)
      (hfree : s.Unlocked g.start) :
      Step g s (.bwrite g.start (s.headBuf g []).data)
        { (s.bwrite g.start (s.headBuf g [])).setPc t .finish with lh := [] }
  /-- The end of `end_op`. -/
  | finish {s : St n} (t : Fin n) (h : s.phase = .up) (hpc : s.pc t = .finish) :
      Step g s .silent { s.setPc t .idle with committing := false }

end

/-! ### Transactions -/

/-- The modifications of the transactions that have been committed, oldest first, and those made
since the last commit, with the blocks logged since. A transaction is committed by the write of a
non-empty header; a crash forgets what has not been committed. -/
structure Ledger where
  committed : List (List (Nat × Block)) := []
  pending : List (Nat × Block) := []
  logged : List Nat := []

/-- A block write that commits a transaction. -/
def Commits (g : Geometry) (b : Nat) (v : Block) : Prop := b = g.start ∧ readHead v ≠ []

instance (g : Geometry) (b : Nat) (v : Block) : Decidable (Commits g b v) :=
  inferInstanceAs (Decidable (_ ∧ _))

def Ledger.record (g : Geometry) (l : Ledger) : Event n → Ledger
  | .modify _ b v => { l with pending := l.pending ++ [(b, v)] }
  | .logWrite _ b => { l with logged := b :: l.logged }
  | .bwrite b v =>
    if Commits g b v then { committed := l.committed ++ [l.pending], pending := [] } else l
  | .crash => { l with pending := [], logged := [] }
  | _ => l

/-- The ledger of a trace. -/
def ledger (g : Geometry) (tr : List (Event n)) : Ledger :=
  tr.foldr (fun e l => l.record g e) {}

/-- All transactions of a trace, the last of which may not be committed. -/
def transactions (g : Geometry) (tr : List (Event n)) : List (List (Nat × Block)) :=
  (ledger g tr).committed ++ [(ledger g tr).pending]

/-- The number of writes of a non-empty header. -/
def headWrites (g : Geometry) (tr : List (Event n)) : Nat :=
  tr.countP fun e =>
    match e with
    | .bwrite b v => decide (Commits g b v)
    | _ => false

/-- A disk after modifications of its blocks. -/
def replay (d : Nat → Block) (ws : List (Nat × Block)) : Nat → Block :=
  ws.foldl (fun d w => update d w.1 w.2) d

end Xv6.Log
