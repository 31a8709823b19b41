import Xv6.Pipes.Fifo

/-!
# Sleepers of a pipe

Nobody sleeps on a channel that is ready, unless the holder of `pi->lock` is still to call `wakeup`
on it. One exit of `pipewrite` has no `wakeup`: a process that is killed after it has put bytes
into the pipe leaves the readers asleep.
-/

namespace Xv6.Pipes

open Lib

variable {n : Nat} {d : Data n} {s s' : MSt n (Data n) Place Chan} {e : Option (Event n)}
  {tr : List (Option (Event n))} {p : Fin n} {c : Chan} {l : Place}

/-- A reader has something to read or nothing to wait for; a writer likewise. -/
def Pipe.Ready (pi : Pipe) : Chan → Prop
  | .nread => ¬ pi.Empty ∨ pi.writeopen = false
  | .nwrite => ¬ pi.Full ∨ pi.readopen = false

/-- `pipewrite` is to return `-1`, without a `wakeup`. -/
def Gone (p : Fin n) (d : Data n) (i : Nat) (m : Int) : Prop :=
  i < m ∧ (d.pipe.readopen = false ∨ d.killed p = true)

/-- The loops of `pipewrite` and `piperead` call `wakeup` when they are done. -/
def Place.Owes (p : Fin n) (d : Data n) : Place → Chan → Prop
  | .write i m, .nread => ¬ Gone p d i m
  | .copy _ _, .nwrite => True
  | _, _ => False

/-- `pipewrite` sleeps when the pipe is full. -/
def Place.Known (d : Data n) : Place → Prop
  | .doze _ _ => d.pipe.Full ∧ d.pipe.readopen = true
  | _ => True

def duty (n : Nat) : Duty n (Data n) Place Chan where
  ready d c _ := d.pipe.Ready c
  owes := Place.Owes
  known := Place.Known

lemma Locked.owes {d' : Data n} {x : Pos Place Chan} (h : Locked p d l e d' x)
    (hbefore : d.pipe.Ready c → l.Owes p d c) (hready : d'.pipe.Ready c) (q : Fin n) :
    x.Owes (duty n) p d' q c := by
  cases h with
  | writeGone i m hi hgone =>
    have howes := hbefore hready
    cases c with
    | nread => exact howes ⟨hi, hgone⟩
    | nwrite => exact howes
  | writeByte i m ch hi hopen hkill hfull =>
    cases c with
    | nread =>
      rintro ⟨-, hgone⟩
      simp [Data.setPipe, Pipe.put, hopen, hkill] at hgone
    | nwrite => exact hbefore (.inl hfull)
  | readByte i m hi hempty =>
    cases c with
    | nread => exact hbefore (.inl hempty)
    | nwrite => exact trivial
  | readFault i m hi hempty =>
    cases c with
    | nread => exact (hbefore (.inl hempty)).elim
    | nwrite => exact ⟨rfl, Nat.zero_le _⟩
  | close writable =>
    -- Closing one end makes only its own channel ready.
    cases writable <;> cases c <;>
      first | exact ⟨rfl, Nat.zero_le _⟩ | exact (hbefore hready).elim
  | writeFull | writeFault | writeDone | readDone =>
    have howes := hbefore hready
    cases c <;> first | exact ⟨rfl, Nat.zero_le _⟩ | exact howes.elim
  | _ =>
    have howes := hbefore hready
    cases c <;> exact howes.elim

lemma wakes (n : Nat) : (code n).Wakes (duty n) where
  free h := by
    cases h
    exact .refl _ _
  acquire {d l} h := by cases l <;> trivial
  known h _ hx := by
    cases h with
    | writeFull i m hi hopen hkill hfull => exact ⟨hfull, hopen⟩
    | _ => trivial
  sleeps h hknown hx := by
    cases h with
    | writeSleep =>
      obtain ⟨rfl, -⟩ : _ ∧ _ := by simpa [Pos.Waits] using hx
      simp [duty, Pipe.Ready, hknown.1, hknown.2]
    | readSleep m hempty hopen =>
      obtain ⟨rfl, -⟩ : _ ∧ _ := by simpa [Pos.Waits] using hx
      simp [duty, Pipe.Ready, hempty, hopen]
    | _ => simp [Pos.Waits] at hx
  owes h hbefore hready u := h.owes hbefore hready u

/-- A process in the loop of `pipewrite` that has bytes left to write is not killed while somebody
sleeps on `&pi->nread` and is to be woken up. -/
def KillSafe (s : MSt n (Data n) Place Chan) (p : Fin n) : Prop :=
  ∀ i m, s.pc p = .locked (.write i m) → i < m →
    ∀ q l, (s.pc q).Waits .nread l → ¬ s.data.pipe.Ready .nread

/-- A step in which a kill is of this kind. -/
def SafeStep (s : MSt n (Data n) Place Chan) (e : Option (Event n))
    (s' : MSt n (Data n) Place Chan) : Prop :=
  (∀ p, e = some (.kill p) → KillSafe s p) ∧ (code n).Step s e s'

lemma KillSafe.tended (h : KillSafe s p) (ht : s.Tended (duty n)) :
    MSt.Tended (duty n)
      ⟨{ s.data with killed := Function.update s.data.killed p true }, s.lock, s.pc⟩ where
  known q hq := ht.known q hq
  owed q c l hq hready := by
    obtain ⟨u, hu⟩ := ht.owed q c l hq hready
    refine ⟨u, ?_⟩
    generalize hpc : s.pc u = x at hu ⊢
    cases x with
    | locked l =>
      cases l with
      | write i m =>
        cases c with
        | nread =>
          rintro ⟨hi, hgone⟩
          by_cases hup : u = p
          · subst hup
            exact h i m hpc hi q _ hq hready
          · exact hu ⟨hi, by simpa [Function.update_of_ne hup] using hgone⟩
        | nwrite => exact hu
      | _ => cases c <;> exact hu
    | _ => exact hu

/-- **Nobody sleeps on a pipe that is ready.** -/
theorem no_sleeper_on_ready_pipe (hrun : Run SafeStep (.init d .out) tr s) (hlock : s.lock = none)
    (hp : s.pc p = .asleep c l) : ¬ s.data.pipe.Ready c := by
  intro hready
  have htended : s.Tended (duty n) := by
    refine (wakes n).run (fun h => h.2) (fun hstep henv ht => ?_) hrun
    cases henv with
    | kill p => exact (hstep.1 p rfl).tended ht
  exact htended.quiet (Code.run_locked (hrun.mono fun _ _ _ h => h.2)) hlock (.inr hp) hready

/-- A reader waits for a byte. -/
theorem no_sleeper_on_ready_pipe_reader : ∃ tr s, Run SafeStep (.init (fresh 2) .out) tr s ∧
    s.pc 0 = .asleep .nread (.await 1) ∧ ¬ s.data.pipe.Ready .nread := by
  have hinit : Run SafeStep (.init (fresh 2) .out) [] _ := .nil
  have hrun := hinit
    |>.snoc ⟨by simp, .free 0 _ _ _ _ rfl (.call (.await 1) trivial)⟩
    |>.snoc ⟨by simp, .acquire 0 _ rfl rfl trivial⟩
    |>.snoc ⟨by simp, .locked 0 _ _ _ _ rfl (.readSleep 1 rfl rfl rfl)⟩
    |>.snoc ⟨by simp, .go 0 _ (Pos.Goes.doze Chan.nread (Place.await 1))⟩
  refine ⟨_, _, hrun, rfl, ?_⟩
  exact no_sleeper_on_ready_pipe (p := 0) (l := .await 1) hrun rfl rfl

/-- A writer is killed after it has put a byte into the pipe that a reader waits for. -/
theorem killed_writer_leaves_sleeper : ∃ tr s, Run (code 2).Step (.init (fresh 2) .out) tr s ∧
    s.lock = none ∧ s.pc 0 = .asleep .nread (.await 1) ∧ s.data.pipe.contents = [7] := by
  have hinit : Run (code 2).Step (.init (fresh 2) .out) [] _ := .nil
  have hrun := hinit
    |>.snoc (.free 0 _ _ _ _ rfl (.call (.await 1) trivial))
    |>.snoc (.acquire 0 _ rfl rfl trivial)
    |>.snoc (.locked 0 _ _ _ _ rfl (.readSleep 1 rfl rfl rfl))
    |>.snoc (.go 0 _ (Pos.Goes.doze Chan.nread (Place.await 1)))
    |>.snoc (.free 1 _ _ _ _ rfl (.call (.write 0 2) rfl))
    |>.snoc (.acquire 1 _ rfl rfl trivial)
    |>.snoc (.locked 1 _ _ _ _ rfl (.writeByte 0 2 7 (by decide) rfl rfl (by decide)))
    |>.snoc (.env _ _ (.kill 1))
    |>.snoc (.locked 1 _ _ _ _ rfl (.writeGone 1 2 (by decide) (.inr rfl)))
  exact ⟨_, _, hrun, rfl, rfl, rfl⟩

end Xv6.Pipes
