import Xv6.Lazy.Manager

/-!
# Safety of the LAZY file manager

The counters of a file are the numbers of its requests that have been taken up and are not yet
completed, and a thread that waits unsignalled could not go on if it looked again.
-/

namespace Xv6.Lazy

open Function Lib

variable {n : Nat} {c : Int} {s s' : St n} {e : Event n} {t : Fin n} {f : Nat}
  {tr : List (Event n)} {request : Fin n → Nat × Operation} {l : Pc}

/-! ### Counting requests -/

/-- One for a thread whose request for the operation on the file is taken up. -/
def Thread.count (f : Nat) (op : Operation) (th : Thread) : Nat :=
  if th.file = f ∧ th.operation = op ∧ th.pc = .taken then 1 else 0

/-- The requests for the operation on the file that are taken up and not completed. -/
def St.active (s : St n) (f : Nat) (op : Operation) : Nat := total (Thread.count f op) s.thread

lemma Thread.count_broadcast (f g : Nat) (op : Operation) (th : Thread) :
    (th.broadcast g).count f op = th.count f op := by
  unfold Thread.broadcast
  split
  · rename_i h
    simp [Thread.count, h]
  · rfl

lemma active_broadcast (s : St n) (f g : Nat) (op : Operation) :
    (s.broadcast g).active f op = s.active f op := by
  simp [St.active, St.broadcast, total, Thread.count_broadcast]

/-- A thread moves between positions at which its request is not taken up. -/
lemma active_setPc (op : Operation) (hl : l ≠ .taken) (ht : (s.thread t).pc ≠ .taken) :
    (s.setPc t l).active f op = s.active f op := by
  have htotal := total_update (Thread.count f op) s.thread t { s.thread t with pc := l }
  simp only [Thread.count, hl, ht, and_false, if_false, Nat.add_zero] at htotal
  exact htotal

/-- One for the request of the thread, if it is for this operation on this file. -/
def St.wants (s : St n) (t : Fin n) (f : Nat) (op : Operation) : Nat :=
  if (s.thread t).file = f ∧ (s.thread t).operation = op then 1 else 0

lemma active_taken (op : Operation) (ht : (s.thread t).pc ≠ .taken) :
    (s.setPc t .taken).active f op = s.active f op + s.wants t f op := by
  have htotal := total_update (Thread.count f op) s.thread t { s.thread t with pc := .taken }
  simp only [Thread.count, ht, and_false, if_false, Nat.add_zero, and_true] at htotal
  exact htotal

lemma active_done (op : Operation) (hl : l ≠ .taken) (ht : (s.thread t).pc = .taken) :
    (s.setPc t l).active f op + s.wants t f op = s.active f op := by
  have htotal := total_update (Thread.count f op) s.thread t { s.thread t with pc := l }
  simp only [Thread.count, ht, hl, and_false, if_false, Nat.add_zero, and_true] at htotal
  exact htotal

/-! ### The invariant -/

/-- The counters of a file that `readers` and `writers` requests use. -/
structure Filenode.Ok (file : Filenode) (c : Int) (readers writers : Nat) : Prop where
  readers : file.numberOfReaders = readers
  writers : file.numberOfWriters = writers
  occupants : file.totalOccupants = file.numberOfReaders + file.numberOfWriters
  bound : file.totalOccupants ≤ c
  oneWriter : file.numberOfWriters ≤ 1
  deleted : file.deletionStatus = true → file.totalOccupants = 0

section

variable {file : Filenode} {op : Operation} {r w r' w' : Nat}

/-- An unused file that is not deleted refuses nobody. -/
lemma Filenode.Ok.can_process (h : file.Ok c r w) (hc : 1 ≤ c)
    (hdel : file.deletionStatus = false) (hzero : file.totalOccupants = 0) (op : Operation) :
    canProcessRequest file op c = true := by
  obtain ⟨hr, hw, hsum, -, -, -⟩ := h
  have hwriters : file.numberOfWriters = 0 := by omega
  cases op with
  | read =>
    have hlt : 0 < c := by omega
    simp [canProcessRequest, hdel, hzero, hlt]
  | write => simp [canProcessRequest, hdel, hzero, hwriters]
  | delete => simp [canProcessRequest, hdel, hzero]

/-- Only a `READ` is taken up while others use the file. -/
lemma occupants_eq_zero (hop : op ≠ .read) (hcan : canProcessRequest file op c = true) :
    file.totalOccupants = 0 := by
  cases op with
  | read => contradiction
  | write =>
    simp only [canProcessRequest, Bool.if_false_left, Bool.and_eq_true, decide_eq_true_eq] at hcan
    exact hcan.2.2
  | delete =>
    simp only [canProcessRequest, Bool.if_false_left, Bool.and_eq_true, decide_eq_true_eq] at hcan
    exact hcan.2

lemma Filenode.Ok.takeUp (h : file.Ok c r w) (hc : 1 ≤ c) (hdel : file.deletionStatus = false)
    (hcan : canProcessRequest file op c = true) (hr : r' = r + if op = .read then 1 else 0)
    (hw : w' = w + if op = .write then 1 else 0) : (file.takeUp op).Ok c r' w' := by
  obtain ⟨h₁, h₂, h₃, h₄, h₅, -⟩ := id h
  cases op with
  | read =>
    simp only [canProcessRequest, hdel, decide_eq_true_eq, Bool.false_eq_true, if_false] at hcan
    simp only [if_true, reduceCtorEq, if_false] at hr hw
    constructor <;> simp only [Filenode.takeUp, hdel] <;> first | omega | simp
  | write =>
    have hzero := occupants_eq_zero (by simp) hcan
    simp only [if_true, reduceCtorEq, if_false] at hr hw
    constructor <;> simp only [Filenode.takeUp, hdel] <;> first | omega | simp
  | delete =>
    have hzero := occupants_eq_zero (by simp) hcan
    simp only [reduceCtorEq, if_false] at hr hw
    constructor <;> simp only [Filenode.takeUp] <;> omega

lemma Filenode.Ok.complete (h : file.Ok c r w) (hr : r' + (if op = .read then 1 else 0) = r)
    (hw : w' + (if op = .write then 1 else 0) = w) : (file.complete op).Ok c r' w' := by
  obtain ⟨h₁, h₂, h₃, h₄, h₅, h₆⟩ := h
  cases op with
  | read =>
    simp only [if_true, reduceCtorEq, if_false] at hr hw
    constructor <;> simp only [Filenode.complete] <;> first | omega | skip
    intro hdel
    have := h₆ hdel
    omega
  | write =>
    simp only [if_true, reduceCtorEq, if_false] at hr hw
    constructor <;> simp only [Filenode.complete] <;> first | omega | skip
    intro hdel
    have := h₆ hdel
    omega
  | delete =>
    simp only [reduceCtorEq, if_false, Nat.add_zero] at hr hw
    exact ⟨hr ▸ h₁, hw ▸ h₂, h₃, h₄, h₅, h₆⟩

/-- Who cannot go on cannot go on after another request has been taken up. -/
lemma Filenode.Ok.still_refused (h : file.Ok c r w) (op' : Operation) (hc : 1 ≤ c)
    (hdel : file.deletionStatus = false) (hcan : canProcessRequest file op c = true)
    (hcan' : canProcessRequest file op' c = false) :
    (file.takeUp op).deletionStatus = false ∧
      canProcessRequest (file.takeUp op) op' c = false := by
  have hne : file.totalOccupants ≠ 0 := by
    intro hzero
    rw [h.can_process hc hdel hzero op'] at hcan'
    contradiction
  obtain ⟨h₁, h₂, h₃, -, -, -⟩ := id h
  cases op with
  | read =>
    refine ⟨hdel, ?_⟩
    cases op' <;> simp [canProcessRequest, Filenode.takeUp, hdel] at hcan' ⊢ <;> omega
  | write => exact (hne (occupants_eq_zero (by simp) hcan)).elim
  | delete => exact (hne (occupants_eq_zero (by simp) hcan)).elim

end

structure Inv (c : Int) (s : St n) : Prop where
  files : ∀ f, (s.file f).Ok c (s.active f .read) (s.active f .write)
  blocked : ∀ t, (s.thread t).pc = .blocked →
    (s.fileOf t).deletionStatus = false ∧ s.canProcess c t = false

lemma Inv.initial (hc : 1 ≤ c) (request : Fin n → Nat × Operation) : Inv c (initial request) := by
  constructor
  · intro f
    have hzero : ∀ op, (Lazy.initial request).active f op = 0 :=
      fun op => total_eq_zero.mpr fun t => by simp [Thread.count, Lazy.initial]
    rw [hzero, hzero]
    exact ⟨rfl, rfl, rfl, by simp [Lazy.initial]; omega, by simp [Lazy.initial], fun _ => rfl⟩
  · intro t ht
    simp [Lazy.initial] at ht

/-- A thread moves on without a change of a file; it may block if it cannot go on. -/
lemma Inv.setPc (h : Inv c s) (hl : l ≠ .taken) (ht : (s.thread t).pc ≠ .taken)
    (hblock : l = .blocked → (s.fileOf t).deletionStatus = false ∧ s.canProcess c t = false) :
    Inv c (s.setPc t l) := by
  constructor
  · intro f
    rw [active_setPc _ hl ht, active_setPc _ hl ht]
    exact h.files f
  · intro u hu
    by_cases hut : u = t
    · subst hut
      have hl : l = .blocked := by simpa [St.setPc] using hu
      simpa [St.setPc, St.fileOf, St.canProcess] using hblock hl
    · have hold : (s.thread u).pc = .blocked := by simpa [St.setPc, hut] using hu
      simpa [St.setPc, St.fileOf, St.canProcess, hut] using h.blocked u hold

lemma wants_eq (op : Operation) : s.wants t (s.thread t).file op =
    if (s.thread t).operation = op then 1 else 0 := by
  simp [St.wants]

lemma wants_other {op : Operation} (hf : f ≠ (s.thread t).file) : s.wants t f op = 0 := by
  simp [St.wants, hf.symm]

lemma Inv.takeUp (h : Inv c s) (hc : 1 ≤ c) (ht : (s.thread t).pc = .locking)
    (hdel : (s.fileOf t).deletionStatus = false) (hcan : s.canProcess c t = true) :
    Inv c ((s.setFileOf t ((s.fileOf t).takeUp (s.thread t).operation)).setPc t .taken) := by
  have hne : (s.thread t).pc ≠ .taken := by simp [ht]
  have hactive : ∀ f op, ((s.setFileOf t ((s.fileOf t).takeUp (s.thread t).operation)).setPc t
      .taken).active f op = s.active f op + s.wants t f op := fun f op => active_taken op hne
  constructor
  · intro f
    rw [hactive, hactive]
    by_cases hf : f = (s.thread t).file
    · subst hf
      rw [wants_eq, wants_eq]
      simpa [St.setPc, St.setFileOf, St.fileOf] using (h.files _).takeUp hc hdel hcan rfl rfl
    · rw [wants_other hf, wants_other hf]
      simpa [St.setPc, St.setFileOf, hf] using h.files f
  · intro u hu
    have hut : u ≠ t := by
      rintro rfl
      simp [St.setPc, St.setFileOf] at hu
    have hold : (s.thread u).pc = .blocked := by simpa [St.setPc, St.setFileOf, hut] using hu
    obtain ⟨hdel', hcan'⟩ := h.blocked u hold
    by_cases hf : (s.thread u).file = (s.thread t).file
    · have hstill := (h.files (s.thread t).file).still_refused
        (s.thread u).operation hc hdel hcan
        (by simpa [St.canProcess, St.fileOf, hf] using hcan')
      simpa [St.setPc, St.setFileOf, St.fileOf, St.canProcess, hut, hf] using hstill
    · simpa [St.setPc, St.setFileOf, St.fileOf, St.canProcess, hut, hf] using ⟨hdel', hcan'⟩

lemma Inv.complete (h : Inv c s) (ht : (s.thread t).pc = .taken) :
    Inv c (((s.setFileOf t ((s.fileOf t).complete (s.thread t).operation)).setPc t
      (.returned .completed)).broadcast (s.thread t).file) := by
  have hactive : ∀ f op, (((s.setFileOf t ((s.fileOf t).complete (s.thread t).operation)).setPc t
      (.returned .completed)).broadcast (s.thread t).file).active f op + s.wants t f op =
        s.active f op := by
    intro f op
    rw [active_broadcast]
    exact active_done op (by simp) ht
  constructor
  · intro f
    have hread := hactive f .read
    have hwrite := hactive f .write
    by_cases hf : f = (s.thread t).file
    · subst hf
      rw [wants_eq] at hread hwrite
      simpa [St.setPc, St.setFileOf, St.broadcast, St.fileOf] using
        (h.files _).complete hread hwrite
    · rw [wants_other hf, Nat.add_zero] at hread hwrite
      rw [hread, hwrite]
      simpa [St.setPc, St.setFileOf, St.broadcast, hf] using h.files f
  · -- Nobody is blocked on the file after the broadcast.
    intro u hu
    have hut : u ≠ t := by
      rintro rfl
      simp [St.setPc, St.setFileOf, St.broadcast, Thread.broadcast] at hu
    by_cases hf : (s.thread u).file = (s.thread t).file
    · exfalso
      simp only [St.broadcast, St.setPc, St.setFileOf, update_of_ne hut,
        Thread.broadcast, hf, true_and] at hu
      split at hu
      · simp at hu
      · contradiction
    · have hold : (s.thread u).pc = .blocked := by
        simpa [St.setPc, St.setFileOf, St.broadcast, Thread.broadcast, hut, hf] using hu
      simpa [St.setPc, St.setFileOf, St.broadcast, Thread.broadcast, St.fileOf, St.canProcess, hut,
        hf] using h.blocked u hold

lemma Inv.step (hc : 1 ≤ c) (h : Inv c s) (hstep : Step c s e s') : Inv c s' := by
  cases hstep with
  | arrive t ht | goOn t ht | expire t ht | decline t ht | spurious t ht | timeout t ht
  | wake t ht | cancel t ht => exact h.setPc (by simp) (by simp [ht]) (by simp)
  | wait t ht hdel hcan => exact h.setPc (by simp) (by simp [ht]) fun _ => ⟨hdel, hcan⟩
  | takeUp t ht hdel hcan => exact h.takeUp hc ht hdel hcan
  | complete t ht => exact h.complete ht

lemma inv_run (hc : 1 ≤ c) (h : Run (Step c) (initial request) tr s) : Inv c s :=
  h.invariant (I := fun _ s => Inv c s) (.initial hc request)
    fun _ _ _ _ hs hstep => hs.step hc hstep

/-! ### Outcomes -/

/-- The event ends the thread. -/
def Event.ends (t : Fin n) : Event n → Bool
  | .returned u _ => u = t
  | _ => false

/-- The outcome that the position of a thread stands for. -/
def Pc.reported (t : Fin n) : Pc → List (Event n)
  | .returned o => [.returned t o]
  | _ => []

/-- The outcomes that a run has reported are those of the threads that have returned. -/
def Reported (tr : List (Event n)) (s : St n) : Prop :=
  ∀ t, tr.filter (Event.ends t) = (s.thread t).pc.reported t

lemma Reported.setPc (h : Reported tr s)
    (hs' : ∀ u, (s'.thread u).pc.reported u = ((s.setPc t l).thread u).pc.reported u)
    (he : ∀ u, u ≠ t → e.ends u = false) (ht : (e :: tr).filter (Event.ends t) = l.reported t) :
    Reported (e :: tr) s' := by
  intro u
  rw [hs']
  by_cases hut : u = t
  · rw [hut, ht]
    simp [St.setPc]
  · rw [List.filter_cons_of_neg (by simp [he u hut]), h u]
    simp [St.setPc, hut]

lemma Reported.step (h : Reported tr s) (hstep : Step c s e s') : Reported (e :: tr) s' := by
  have hnone : ∀ t, (s.thread t).pc.reported t = [] → tr.filter (Event.ends t) = [] :=
    fun t ht => (h t).trans ht
  cases hstep with
  | arrive t ht | goOn t ht | wait t ht | spurious t ht | timeout t ht | wake t ht =>
    exact h.setPc (fun _ => rfl) (fun _ _ => rfl) (hnone t (by rw [ht]; rfl))
  | takeUp t ht =>
    exact h.setPc (t := t) (l := .taken) (fun _ => rfl) (fun _ _ => rfl)
      (hnone t (by rw [ht]; rfl))
  | expire t ht | decline t ht | cancel t ht =>
    refine h.setPc (fun _ => rfl) (fun u hu => by simp [Event.ends, hu.symm]) ?_
    rw [List.filter_cons_of_pos (by simp [Event.ends]), hnone t (by rw [ht]; rfl)]
    rfl
  | complete t ht =>
    refine h.setPc (t := t) (l := .returned .completed) (fun u => ?_)
      (fun u hu => by simp [Event.ends, hu.symm]) ?_
    · -- A thread that the broadcast wakes has not returned.
      simp only [St.broadcast, Thread.broadcast]
      split
      · rename_i hu
        have hpc : ((s.setPc t (.returned .completed)).thread u).pc = .blocked := hu.2
        rw [hpc]
        rfl
      · rfl
    · rw [List.filter_cons_of_pos (by simp [Event.ends]), hnone t (by rw [ht]; rfl)]
      rfl

lemma reported_run (h : Run (Step c) (initial request) tr s) : Reported tr s :=
  h.invariant (I := Reported) (fun _ => rfl) fun _ _ _ _ hs hstep => hs.step hstep

/-! ### Deletion -/

/-- After a file is deleted nobody uses it. -/
lemma deleted_step (hdel : (s.file f).deletionStatus = true)
    (hstep : Step c s e s') : (s'.file f).deletionStatus = true ∧
      (∀ t, (s'.thread t).file = (s.thread t).file) ∧
      ∀ t, e = .takeUp t → (s.thread t).file ≠ f := by
  have hfile : ∀ t l u, ((s.setPc t l).thread u).file = (s.thread u).file := by
    intro t l u
    by_cases hut : u = t <;> simp [St.setPc, hut]
  cases hstep with
  | arrive t | goOn t | expire t | decline t | wait t | spurious t | timeout t | wake t
  | cancel t => exact ⟨hdel, hfile t _, by simp⟩
  | takeUp t ht hdel' =>
    have hne : f ≠ (s.thread t).file := by
      rintro rfl
      exact absurd (hdel.symm.trans hdel') (by simp)
    refine ⟨?_, hfile t _, fun t' he => ?_⟩
    · simpa [St.setPc, St.setFileOf, hne] using hdel
    · obtain rfl := Event.takeUp.inj he
      exact hne.symm
  | complete t ht =>
    refine ⟨?_, fun u => ?_, by simp⟩
    · by_cases hf : f = (s.thread t).file
      · subst hf
        simp only [St.broadcast, St.setPc, St.setFileOf, update_self, St.fileOf]
        cases (s.thread t).operation <;> exact hdel
      · simpa [St.setPc, St.setFileOf, St.broadcast, hf] using hdel
    · simp only [St.broadcast, Thread.broadcast]
      split
      · exact hfile t _ u
      · exact hfile t _ u

lemma deleted_run (hc : 1 ≤ c) (hinv : Inv c s) (hdel : (s.file f).deletionStatus = true)
    (h : Run (Step c) s tr s') : (s'.file f).deletionStatus = true ∧
      (s'.file f).totalOccupants = 0 ∧ ∀ t, .takeUp t ∈ tr → (s.thread t).file ≠ f := by
  have hrun := h.invariant (I := fun tr s' => Inv c s' ∧ (s'.file f).deletionStatus = true ∧
      (∀ t, (s'.thread t).file = (s.thread t).file) ∧
      ∀ t, .takeUp t ∈ tr → (s.thread t).file ≠ f)
    ⟨hinv, hdel, fun _ => rfl, by simp⟩ (by
      rintro tr s₁ e s₂ ⟨hinv, hdel, hfile, hno⟩ hstep
      obtain ⟨hdel', hfile', hno'⟩ := deleted_step hdel hstep
      refine ⟨hinv.step hc hstep, hdel', fun t => (hfile' t).trans (hfile t), fun t ht => ?_⟩
      rcases List.mem_cons.mp ht with ht | ht
      · exact hfile t ▸ hno' t ht.symm
      · exact hno t ht)
  exact ⟨hrun.2.1, (hrun.1.files f).deleted hrun.2.1, hrun.2.2.2⟩

/-! ### Results -/

/-- Two users write the same file. -/
def twoWriters : Fin 2 → Nat × Operation := fun _ => (1, .write)

/-- The first is taken up and the second has to wait. -/
lemma twoWriters_run : ∃ tr s, Run (Step 2) (initial twoWriters) tr s ∧
    (s.thread 1).pc = .blocked :=
  ⟨_, _, (((((Run.nil.snoc (.arrive 0 rfl)).snoc (.goOn 0 rfl)).snoc (.takeUp 0 rfl rfl rfl)).snoc
    (.arrive 1 rfl)).snoc (.goOn 1 rfl)).snoc (.wait 1 rfl rfl rfl), rfl⟩

/-- **Safety of the file manager.** For every set of requests and every interleaving: the
counters of a file are the numbers of requests that use it, at most `c` and at most one of them a
writer; a `WRITE` or `DELETE` is taken up only if nobody uses the file; a deleted file stays deleted
and unused; a thread that has returned has reported one outcome, and when all have, the counters
are zero. -/
theorem lazy_safety (c : Int) (hc : 1 ≤ c) (request : Fin n → Nat × Operation)
    (tr : List (Event n)) (s : St n) (h : Run (Step c) (initial request) tr s) :
    (∀ f, (s.file f).totalOccupants = (s.file f).numberOfReaders + (s.file f).numberOfWriters ∧
      (s.file f).totalOccupants = s.active f .read + s.active f .write ∧
      (s.file f).totalOccupants ≤ c ∧ (s.file f).numberOfWriters ≤ 1) ∧
    (∀ t s', Step c s (.takeUp t) s' → (s.thread t).operation ≠ .read →
      (s.fileOf t).totalOccupants = 0) ∧
    (∀ f, (s.file f).deletionStatus = true → ∀ tr' s', Run (Step c) s tr' s' →
      (s'.file f).deletionStatus = true ∧ (s'.file f).totalOccupants = 0 ∧
      ∀ t, .takeUp t ∈ tr' → (s.thread t).file ≠ f) ∧
    (∀ t o, (s.thread t).pc = .returned o → tr.filter (Event.ends t) = [.returned t o]) ∧
    ((∀ t, ∃ o, (s.thread t).pc = .returned o) → ∀ f, (s.file f).numberOfReaders = 0 ∧
      (s.file f).numberOfWriters = 0 ∧ (s.file f).totalOccupants = 0) := by
  have hinv := inv_run hc h
  refine ⟨fun f => ?_, ?_, fun f hdel tr' s' hrun => deleted_run hc hinv hdel hrun, ?_, ?_⟩
  · obtain ⟨hr, hw, hsum, hbound, hone, -⟩ := hinv.files f
    exact ⟨hsum, by rw [hsum, hr, hw], hbound, hone⟩
  · intro t s' hstep hop
    cases hstep with
    | takeUp _ _ _ hcan => exact occupants_eq_zero hop hcan
  · intro t o ht
    rw [reported_run h t, ht]
    rfl
  · intro hall f
    have hzero : ∀ op, s.active f op = 0 := by
      intro op
      refine total_eq_zero.mpr fun t => ?_
      obtain ⟨o, ho⟩ := hall t
      simp [Thread.count, ho]
    obtain ⟨hr, hw, hsum, -, -, -⟩ := hinv.files f
    rw [hzero] at hr hw
    refine ⟨hr, hw, ?_⟩
    rw [hsum, hr, hw]
    rfl

theorem lazy_safety_twoWriters : ∃ tr s, Run (Step 2) (initial twoWriters) tr s ∧
    (s.file 1).numberOfWriters ≤ 1 := by
  obtain ⟨tr, s, h, -⟩ := twoWriters_run
  exact ⟨tr, s, h, ((lazy_safety 2 (by decide) twoWriters tr s h).1 1).2.2.2⟩

/-- **No missed wake-up.** A thread that is blocked, not signalled and not timed out, has a request
that could not be taken up, on a file that is not deleted. -/
theorem lazy_no_missed_wakeup (c : Int) (hc : 1 ≤ c) (request : Fin n → Nat × Operation)
    (tr : List (Event n)) (s : St n) (h : Run (Step c) (initial request) tr s) (t : Fin n)
    (ht : (s.thread t).pc = .blocked) :
    s.canProcess c t = false ∧ (s.fileOf t).deletionStatus = false :=
  ((inv_run hc h).blocked t ht).symm

theorem lazy_no_missed_wakeup_twoWriters : ∃ tr s, Run (Step 2) (initial twoWriters) tr s ∧
    s.canProcess 2 1 = false := by
  obtain ⟨tr, s, h, ht⟩ := twoWriters_run
  exact ⟨tr, s, h, (lazy_no_missed_wakeup 2 (by decide) twoWriters tr s h 1 ht).1⟩

end Xv6.Lazy
