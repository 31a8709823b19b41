import Xv6.Lib.Monitor
import Xv6.Lib.Ring

/-!
# Output to the UART

`uartputc`, `uartputc_sync`, `uartstart` and `uartintr` of `uart.c`, called by any number of
threads. The device has room for one byte; when it has sent it, it raises an interrupt.
`uartputc_sync` looks at the device and writes to it without the lock.
-/

namespace Xv6.Uart

open Lib Function

def UART_TX_BUF_SIZE : Nat := 32

instance : NeZero UART_TX_BUF_SIZE := ⟨by decide⟩

structure Port where
  buf : Fin UART_TX_BUF_SIZE → UInt8
  w : BitVec 64
  r : BitVec 64
  /-- `LSR_TX_IDLE` is clear. -/
  busy : Bool
  /-- An interrupt has been raised and not been taken. -/
  irq : Bool
  panicked : Bool

namespace Port

def boot : Port := ⟨fun _ => 0, 0, 0, false, false, false⟩

def Full (d : Port) : Prop := d.w = d.r + BitVec.ofNat 64 UART_TX_BUF_SIZE

instance (d : Port) : Decidable d.Full := inferInstanceAs (Decidable (_ = _))

/-- What is in the buffer, the oldest byte first. -/
def contents (d : Port) : List UInt8 := queued d.buf d.r d.w

def put (d : Port) (c : UInt8) : Port :=
  { d with buf := update d.buf (slot UART_TX_BUF_SIZE d.w) c, w := d.w + 1 }

def next (d : Port) : UInt8 := d.buf (slot UART_TX_BUF_SIZE d.r)

def drop (d : Port) : Port := { d with r := d.r + 1 }

end Port

inductive Place where
  | out
  /-- `uartputc`, before `panicked` is looked at. -/
  | enter (c : UInt8)
  /-- The loop of `uartputc`. -/
  | loop (c : UInt8)
  /-- The loop of `uartstart`. -/
  | start
  /-- Before `WriteReg(THR, c)` in `uartstart`. -/
  | send (c : UInt8)
  /-- The loop of `uartputc_sync`. -/
  | poll (c : UInt8)
  /-- Before `WriteReg(THR, c)` in `uartputc_sync`. -/
  | store (c : UInt8)

inductive Event where
  | put (c : UInt8)
  | sent (c : UInt8)
  | sync (c : UInt8)

def Place.Wants : Place → Prop
  | .enter _ | .loop _ | .start => True
  | _ => False

inductive Free {n : Nat} (t : Fin n) (d : Port) : Place → Option Event → Port → Place → Prop where
  | uartputc (c : UInt8) : Free t d .out none d (.enter c)
  | uartintr : Free t d .out none { d with irq := false } .start
  | uartputcSync (c : UInt8) (h : d.panicked = false) : Free t d .out none d (.poll c)
  | idle (c : UInt8) (h : d.busy = false) : Free t d (.poll c) none d (.store c)
  | store (c : UInt8) : Free t d (.store c) (some (.sync c)) { d with busy := true } .out

inductive Locked {n : Nat} (t : Fin n) (d : Port) :
    Place → Option Event → Port → Pos Place Unit → Prop where
  | enter (c : UInt8) (h : d.panicked = false) : Locked t d (.enter c) none d (.locked (.loop c))
  | full (c : UInt8) (h : d.Full) : Locked t d (.loop c) none d (.falling () (.loop c))
  | put (c : UInt8) (h : ¬ d.Full) :
      Locked t d (.loop c) (some (.put c)) (d.put c) (.locked .start)
  | empty (h : d.w = d.r) : Locked t d .start none d (.free .out)
  | busy (h : d.w ≠ d.r) (hbusy : d.busy = true) : Locked t d .start none d (.free .out)
  | take (h : d.w ≠ d.r) (hbusy : d.busy = false) :
      Locked t d .start none d.drop (.waking () 0 (.send d.next))
  | send (c : UInt8) :
      Locked t d (.send c) (some (.sent c)) { d with busy := true } (.locked .start)

inductive Env (d : Port) : Option Event → Port → Prop where
  | ready (h : d.busy = true) : Env d none { d with busy := false, irq := true }
  | panic : Env d none { d with panicked := true }

def code (n : Nat) : Code n Port Place Unit Event := ⟨Place.Wants, Free, Locked, Env⟩

variable {n : Nat} {s : MSt n Port Place Unit} {e : Option Event} {tr : List (Option Event)}

/-- The bytes given to `uartputc`, in the order in which they came into the buffer. -/
def puts : List (Option Event) → List UInt8
  | [] => []
  | some (.put c) :: tr => puts tr ++ [c]
  | _ :: tr => puts tr

/-- The bytes that `uartstart` has given to the device. -/
def sents : List (Option Event) → List UInt8
  | [] => []
  | some (.sent c) :: tr => sents tr ++ [c]
  | _ :: tr => sents tr

/-- `uartputc_sync` has not written. -/
def NoSync : List (Option Event) → Prop
  | [] => True
  | some (.sync _) :: _ => False
  | _ :: tr => NoSync tr

/-- The byte that has left the buffer and has not been given to the device. -/
@[simp] def Place.hand : Place → List UInt8
  | .send c => [c]
  | _ => []

/-- What the thread with the lock has in its hand. -/
def hand (o : Option (Fin n)) (p : Fin n → Place) : List UInt8 :=
  (o.map fun t => (p t).hand).getD []

/-- The buffer `d`, with the bytes `H` in the hand of a thread and the threads at the places `p`. -/
structure Inv (tr : List (Option Event)) (d : Port) (H : List UInt8) (p : Fin n → Place) :
    Prop where
  count : (d.w - d.r).toNat ≤ UART_TX_BUF_SIZE
  bytes : puts tr = sents tr ++ H ++ d.contents
  /-- As long as something is in the buffer, somebody will look at it. -/
  attended : d.w ≠ d.r → d.busy = true ∨ d.irq = true ∨ H ≠ [] ∨ ∃ t, p t = .start
  idle : NoSync tr → H ≠ [] → d.busy = false

variable {d d' : Port} {H : List UInt8} {p : Fin n → Place} {t : Fin n} {l l' : Place}
  {x : Pos Place Unit}

lemma start_update (ht : p t ≠ .start) (h : ∃ u, p u = .start) : ∃ u, update p t l u = .start := by
  obtain ⟨u, hu⟩ := h
  have hut : u ≠ t := fun heq => ht (heq ▸ hu)
  exact ⟨u, by rw [update_of_ne hut, hu]⟩

lemma Inv.free (hI : Inv tr d H p) (h : Free t d (p t) e d' l') :
    Inv (e :: tr) d' H (update p t l') := by
  obtain ⟨hcount, hbytes, hatt, hidle⟩ := hI
  generalize hl : p t = l at h
  cases h with
  | uartintr => exact ⟨hcount, hbytes, fun _ => .inr (.inr (.inr ⟨t, by simp⟩)), hidle⟩
  | store c => exact ⟨hcount, hbytes, fun _ => .inl rfl, fun hno => hno.elim⟩
  | _ =>
    refine ⟨hcount, hbytes, fun hw => ?_, hidle⟩
    exact (hatt hw).imp_right (.imp_right (.imp_right (start_update (by simp [hl]))))

lemma Inv.locked (hI : Inv tr d l.hand p) (hl : p t = l) (h : Locked t d l e d' x) :
    Inv (e :: tr) d' (if x.Holds then x.place.hand else []) (update p t x.place) := by
  obtain ⟨hcount, hbytes, hatt, hidle⟩ := hI
  have hstart : ∃ u, update p t .start u = .start := ⟨t, by simp⟩
  cases h with
  | put c h =>
    have hroom : (d.w - d.r).toNat < UART_TX_BUF_SIZE :=
      lt_of_le_of_ne hcount fun heq => h ((eq_add_iff (by decide)).mpr heq)
    refine ⟨?_, ?_, fun _ => .inr (.inr (.inr hstart)), by simp⟩
    · simp only [Port.put]
      rw [toNat_succ_sub (by simp only [UART_TX_BUF_SIZE] at hroom; omega)]
      exact hroom
    · have hqueued : (d.put c).contents = d.contents ++ [c] :=
        queued_update (by decide) (by decide) d.buf c hroom
      simp [puts, sents, hbytes, hqueued]
  | take h hbusy =>
    have hcons : d.contents = d.next :: d.drop.contents := queued_eq_cons d.buf h.symm
    have hless := toNat_sub_succ h.symm
    refine ⟨?_, by simpa [puts, sents, hcons] using hbytes, fun _ => by simp, fun _ _ => hbusy⟩
    simp only [Port.drop]
    omega
  | send c =>
    have hsent : puts tr = sents tr ++ [c] ++ [] ++ d.contents := by simpa using hbytes
    exact ⟨hcount, hsent, fun _ => .inl rfl, by simp⟩
  | empty h => exact ⟨hcount, hbytes, fun hne => absurd h hne, by simp⟩
  | busy h hbusy => exact ⟨hcount, hbytes, fun _ => .inl hbusy, by simp⟩
  | enter | full =>
    refine ⟨hcount, hbytes, fun hw => ?_, by simp⟩
    exact (hatt hw).imp_right (Or.imp_right (Or.imp (by simp) (start_update (by simp [hl]))))

lemma hand_free {o : Option (Fin n)} (ho : o ≠ some t) : hand o (update p t l) = hand o p := by
  cases o with
  | none => rfl
  | some u => simp [hand, update_of_ne fun heq : u = t => ho (by rw [heq])]

lemma keeps (n : Nat) : (code n).Keeps fun tr d o p => Inv tr d (hand o p) p where
  silent h := ⟨h.count, h.bytes, h.attended, h.idle⟩
  free h ho hstep := by
    rw [hand_free ho]
    exact h.free hstep
  env h hstep := by
    cases hstep with
    | ready => exact ⟨h.count, h.bytes, fun _ => .inr (.inl rfl), fun _ _ => rfl⟩
    | panic => exact ⟨h.count, h.bytes, h.attended, h.idle⟩
  acquire {tr d p t} h hw := by
    have hhand : hand (some t) p = [] := by
      cases hl : p t <;> simp_all [hand, code, Place.Wants]
    rw [hhand]
    exact ⟨h.count, h.bytes, h.attended, by simp⟩
  locked {tr d p t e d' x} h hstep := by
    have hhand : hand (if x.Holds then some t else none) (update p t x.place)
        = if x.Holds then x.place.hand else [] := by
      split_ifs <;> simp [hand]
    rw [hhand]
    exact Inv.locked h rfl hstep

lemma inv_of_run (h : Run (code n).Step (.init .boot .out) tr s) :
    Inv tr s.data (hand s.lock s.places) s.places :=
  (keeps n).run h (by constructor <;> simp [hand, Port.boot, Port.contents, puts, sents])

/-- `uartputc` puts a byte into the buffer and takes it out again, to give it to the device. -/
lemma run_taken : ∃ s, s.pc 0 = .locked (.send 65) ∧ s.data.w = s.data.r ∧
    Run (code 1).Step (.init .boot .out) [none, none, none, some (.put 65), none, none, none] s :=
  ⟨_, rfl, rfl, Run.nil
    |>.snoc (.free 0 _ _ _ _ rfl (.uartputc 65))
    |>.snoc (.acquire 0 _ rfl rfl trivial)
    |>.snoc (.locked 0 _ _ _ _ rfl (.enter 65 rfl))
    |>.snoc (.locked 0 _ _ _ _ rfl (.put 65 (by decide)))
    |>.snoc (.locked 0 _ _ _ _ rfl (.take (by decide) rfl))
    |>.snoc (.pass 0 0 () _ rfl (by simp) (by simp))
    |>.snoc (.go 0 _ (Pos.Goes.woken () (Place.send 65)))⟩

/-- **Output is in order.** Every byte given to `uartputc` comes to the device once, in the order in
which the buffer took it, and the buffer never holds more than it has room for. As long as
`uartputc_sync` has not written, `uartstart` writes only to an idle device. -/
theorem uart_fifo (hrun : Run (code n).Step (.init .boot .out) tr s) :
    (s.data.w - s.data.r).toNat ≤ UART_TX_BUF_SIZE ∧
      puts tr = sents tr ++ hand s.lock s.places ++ s.data.contents ∧
      (NoSync tr → ∀ c s', (code n).Step s (some (.sent c)) s' → s.data.busy = false) := by
  have hI := inv_of_run hrun
  refine ⟨hI.count, hI.bytes, fun hsync c s' hstep => hI.idle hsync ?_⟩
  cases hstep with
  | free t l l' e d hpc h => cases h
  | env e d h => cases h
  | locked t l e d x hpc h =>
    cases h
    simp [hand, (Code.run_locked hrun t).mpr (by simp [hpc]), MSt.places, hpc]

theorem uart_fifo_byte : ∃ tr s, Run (code 1).Step (.init .boot .out) tr s ∧ puts tr = [65] ∧
    s.data.busy = false ∧ [65] = sents tr ++ hand s.lock s.places ++ s.data.contents := by
  obtain ⟨s, hpc, -, hrun⟩ := run_taken
  obtain ⟨-, hbytes, hidle⟩ := uart_fifo hrun
  exact ⟨_, s, hrun, rfl, hidle trivial 65 _ (.locked 0 _ _ _ _ hpc (.send 65)), hbytes⟩

def duty (n : Nat) : Duty n Port Place Unit where
  ready d _ _ := ¬ d.Full

lemma wakes (n : Nat) : (code n).Wakes (duty n) where
  free h := by cases h <;> exact ⟨id, id, id⟩
  acquire _ := trivial
  known _ _ _ := trivial
  sleeps h _ hx := by
    cases h with
    | full _ h => exact not_not_intro h
    | _ => simp [Pos.Waits] at hx
  owes h hbefore hready u := by
    cases h with
    | take => exact ⟨rfl, Nat.zero_le _⟩
    | put _ h => exact (hbefore h).elim
    | _ => exact (hbefore hready).elim

/-- **Output does not get stuck.** When the device is idle, no interrupt is pending and every thread
is outside the driver or waits for room, then everything has been given to the device and nobody
waits. -/
theorem uart_drains (h : Run (code n).Step (.init .boot .out) tr s) (hbusy : s.data.busy = false)
    (hirq : s.data.irq = false)
    (hout : ∀ t, s.pc t = .free .out ∨ ∃ c, (s.pc t).Waits () (.loop c)) :
    puts tr = sents tr ∧ ∀ t, s.pc t = .free .out := by
  have hI := inv_of_run h
  have hplace : ∀ t, ¬ (s.pc t).Holds ∧ s.places t ≠ .start := by
    intro t
    rcases hout t with ht | ⟨c, ht | ht⟩ <;> simp [ht, MSt.places]
  have hhand : hand s.lock s.places = [] := by
    cases hlock : s.lock with
    | none => rfl
    | some t => exact absurd ((Code.run_locked h t).mp hlock) (hplace t).1
  have hempty : s.data.w = s.data.r := by
    by_contra hne
    simpa [hbusy, hirq, hhand, fun t => (hplace t).2] using hI.attended hne
  have hfull : ¬ s.data.Full := by simp [Port.Full, hempty, UART_TX_BUF_SIZE]
  refine ⟨by simpa [hhand, Port.contents, hempty] using hI.bytes, fun t => ?_⟩
  refine (hout t).resolve_right fun ⟨c, ht⟩ => ?_
  have htended := (wakes n).run id (fun _ h ht => ?_) h
  · obtain ⟨u, hu⟩ := htended.owed t () (.loop c) ht hfull
    exact (hplace u).1 hu.holds
  · cases h <;> exact ⟨ht.known, ht.owed⟩

/-- The device sends the byte, and the interrupt finds an empty buffer. -/
theorem uart_drains_byte : ∃ tr s, Run (code 1).Step (.init .boot .out) tr s ∧ puts tr = [65] ∧
    puts tr = sents tr ∧ ∀ t, s.pc t = .free .out := by
  obtain ⟨s, hpc, hw, hrun⟩ := run_taken
  have hrun' := hrun
    |>.snoc (.locked 0 _ _ _ _ hpc (.send 65))
    |>.snoc (.locked 0 _ _ _ _ rfl (.empty hw))
    |>.snoc (.env _ _ (.ready rfl))
    |>.snoc (.free 0 _ _ _ _ rfl .uartintr)
    |>.snoc (.acquire 0 _ rfl rfl trivial)
    |>.snoc (.locked 0 _ _ _ _ rfl (.empty hw))
  obtain ⟨hsent, hout⟩ := uart_drains hrun' rfl rfl fun t => .inl (by simp [Subsingleton.elim t 0])
  exact ⟨_, _, hrun', rfl, hsent, hout⟩

end Xv6.Uart
