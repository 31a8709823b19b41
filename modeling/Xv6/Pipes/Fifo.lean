import Xv6.Pipes.Machine

/-!
# A pipe is a queue

The bytes that `pipewrite` has accepted are those that `piperead` has removed, followed by what is
in the pipe, in this order. The counters may have wrapped around.
-/

namespace Xv6.Pipes

open Lib

variable {n : Nat} {d : Data n} {s : MSt n (Data n) Place Chan} {tr : List (Option (Event n))}
  {pi : Pipe}

/-- The bytes that have been accepted, the first one first. -/
def accepted : List (Option (Event n)) → List UInt8
  | [] => []
  | some (.accept ch) :: tr => accepted tr ++ [ch]
  | _ :: tr => accepted tr

/-- The bytes that have been removed. -/
def removed : List (Option (Event n)) → List UInt8
  | [] => []
  | some (.remove ch) :: tr => removed tr ++ [ch]
  | _ :: tr => removed tr

/-- No more is in the pipe than it has room for, and what has been accepted and not removed is. -/
structure Fifo (tr : List (Option (Event n))) (pi : Pipe) : Prop where
  count : (pi.nwrite - pi.nread).toNat ≤ PIPESIZE
  bytes : accepted tr = removed tr ++ pi.contents

lemma dvd_counter : PIPESIZE ∣ 2 ^ 32 := by decide

lemma lt_counter : PIPESIZE < 2 ^ 32 := by decide

lemma Fifo.put (h : Fifo tr pi) (ch : UInt8) (hfull : ¬ pi.Full) :
    Fifo (some (.accept ch) :: tr) (pi.put ch) := by
  have hroom : (pi.nwrite - pi.nread).toNat < PIPESIZE := by
    refine lt_of_le_of_ne h.count fun heq => ?_
    exact hfull ((eq_add_iff lt_counter).mpr heq)
  constructor
  · simp only [Pipe.put]
    rw [toNat_succ_sub (lt_of_le_of_lt hroom lt_counter)]
    exact hroom
  · simp only [accepted, removed, Pipe.contents, Pipe.put]
    rw [queued_update dvd_counter lt_counter pi.data ch hroom, h.bytes, List.append_assoc]
    rfl

lemma Fifo.drop (h : Fifo tr pi) (hempty : ¬ pi.Empty) :
    Fifo (some (.remove pi.next) :: tr) pi.drop := by
  have hcount := h.count
  have hless := toNat_sub_succ hempty
  constructor
  · simp only [Pipe.drop]
    omega
  · have hcontents : pi.contents = pi.next :: pi.drop.contents := queued_eq_cons pi.data hempty
    simp only [accepted, removed]
    rw [h.bytes, hcontents, List.append_assoc]
    rfl

lemma Fifo.close (h : Fifo tr pi) (writable : Bool) : Fifo (none :: tr) (pi.close writable) := by
  cases writable <;> exact ⟨h.count, h.bytes⟩

lemma keeps (n : Nat) : (code n).Keeps fun tr d _ _ => Fifo tr d.pipe where
  silent h := ⟨h.count, h.bytes⟩
  free {tr d o p t e d' l} h _ hstep := by
    generalize p t = m at hstep
    cases hstep
    exact ⟨h.count, h.bytes⟩
  env h hstep := by
    cases hstep
    exact ⟨h.count, h.bytes⟩
  acquire h _ := ⟨h.count, h.bytes⟩
  locked {tr d p t e d' x} h hstep := by
    generalize p t = l at hstep
    cases hstep with
    | writeByte i m ch hi hopen hkill hfull => exact h.put ch hfull
    | readByte i m hi hempty => exact h.drop hempty
    | readFault i m hi hempty => exact h.drop hempty
    | close writable => exact h.close writable
    | _ => exact ⟨h.count, h.bytes⟩

/-- **A pipe is a queue** of at most `PIPESIZE` bytes: no byte is overwritten before it is removed,
removed twice or out of order. -/
theorem pipe_fifo (h : Fresh d.pipe) (hrun : Run (code n).Step (.init d .out) tr s) :
    (s.data.pipe.nwrite - s.data.pipe.nread).toNat ≤ PIPESIZE ∧
      accepted tr = removed tr ++ s.data.pipe.contents := by
  have hfifo : Fifo tr s.data.pipe := by
    refine (keeps n).run hrun ⟨?_, ?_⟩
    · simp [h.nread, h.nwrite]
    · simp [accepted, removed, Pipe.contents, h.nread, h.nwrite]
  exact ⟨hfifo.count, hfifo.bytes⟩

/-- A pipe that has just been made. -/
def fresh (n : Nat) : Data n where
  pipe := { data := fun _ => 0, nread := 0, nwrite := 0, readopen := true, writeopen := true }
  killed := fun _ => false

/-- One process writes two bytes, and another reads the first of them. -/
theorem pipe_fifo_two : ∃ tr s, Run (code 2).Step (.init (fresh 2) .out) tr s ∧
    accepted tr = [7, 8] ∧ removed tr = [7] ∧ s.data.pipe.contents = [8] := by
  have hinit : Run (code 2).Step (.init (fresh 2) .out) [] _ := .nil
  have hrun := hinit
    |>.snoc (.free 0 _ _ _ _ rfl (.call (.write 0 2) rfl))
    |>.snoc (.acquire 0 _ rfl rfl trivial)
    |>.snoc (.locked 0 _ _ _ _ rfl (.writeByte 0 2 7 (by decide) rfl rfl (by decide)))
    |>.snoc (.locked 0 _ _ _ _ rfl (.writeByte 1 2 8 (by decide) rfl rfl (by decide)))
    |>.snoc (.locked 0 _ _ _ _ rfl (.writeDone 2 2 (by decide)))
    |>.snoc (.pass 0 0 _ _ rfl (by simp) (by simp))
    |>.snoc (.pass 0 1 _ _ rfl (by simp [MSt.init]) (by simp [MSt.init]))
    |>.snoc (.go 0 _ (Pos.Goes.woken Chan.nread (Place.ret 2)))
    |>.snoc (.locked 0 _ _ _ _ rfl (.ret 2))
    |>.snoc (.free 1 _ _ _ _ rfl (.call (.await 1) trivial))
    |>.snoc (.acquire 1 _ rfl rfl trivial)
    |>.snoc (.locked 1 _ _ _ _ rfl (.readReady 1 (by decide)))
    |>.snoc (.locked 1 _ _ _ _ rfl (.readByte 0 1 (by decide) (by decide)))
  have hbytes := (pipe_fifo ⟨rfl, rfl, rfl, rfl⟩ hrun).2
  exact ⟨_, _, hrun, rfl, rfl, (List.cons_inj_right _).mp hbytes.symm⟩

end Xv6.Pipes
