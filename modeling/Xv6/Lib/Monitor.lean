import Xv6.Lib.Transition

/-!
# Monitors

Data under a spin lock, and threads that sleep on channels until the data let them go on. `sleep`
releases the lock with the lock of its own process held and is not asleep yet; `wakeup` looks at
the threads one after the other, each under the lock of its process. A thread may also be woken for
other reasons.
-/

namespace Lib

open Function

variable {σ π χ ε : Type} {n : Nat}

/-- Where a thread stands; `l` is its place in the code of the monitor. -/
inductive Pos (π χ : Type) where
  | free (l : π)
  | locked (l : π)
  /-- In `wakeup`, with the lock; the threads below `k` have been seen. -/
  | waking (c : χ) (k : Nat) (l : π)
  /-- In `sleep`, without the lock and not asleep yet. -/
  | falling (c : χ) (l : π)
  | asleep (c : χ) (l : π)

namespace Pos

@[simp] def place : Pos π χ → π
  | free l | locked l | waking _ _ l | falling _ l | asleep _ l => l

/-- The thread has the lock. -/
@[simp] def Holds : Pos π χ → Prop
  | locked _ | waking _ _ _ => True
  | _ => False

instance : DecidablePred (Holds : Pos π χ → Prop)
  | locked _ | waking _ _ _ => .isTrue trivial
  | free _ | falling _ _ | asleep _ _ => .isFalse id

/-- The thread sleeps on `c`, or is about to, and goes on at `l`. -/
def Waits (c : χ) (l : π) (x : Pos π χ) : Prop := x = falling c l ∨ x = asleep c l

/-- What a thread does by itself. -/
inductive Goes (n : Nat) : Pos π χ → Pos π χ → Prop where
  | woken (c : χ) (l : π) : Goes n (waking c n l) (locked l)
  | doze (c : χ) (l : π) : Goes n (falling c l) (asleep c l)
  | rouse (c : χ) (l : π) : Goes n (asleep c l) (free l)

end Pos

/-- The code that runs on the data, with an event for each step that is to be seen. -/
structure Code (n : Nat) (σ π χ ε : Type) where
  /-- The places at which a thread takes the lock. -/
  wants : π → Prop
  free : Fin n → σ → π → Option ε → σ → π → Prop
  locked : Fin n → σ → π → Option ε → σ → Pos π χ → Prop
  /-- What happens to the data from outside. -/
  env : σ → Option ε → σ → Prop

structure MSt (n : Nat) (σ π χ : Type) where
  data : σ
  lock : Option (Fin n)
  pc : Fin n → Pos π χ

namespace MSt

/-- All threads are outside. -/
def init (d : σ) (l : π) : MSt n σ π χ := ⟨d, none, fun _ => .free l⟩

/-- Where the threads are in the code. -/
def places (s : MSt n σ π χ) (t : Fin n) : π := (s.pc t).place

lemma places_update (d : σ) (o : Option (Fin n)) (f : Fin n → Pos π χ) (t : Fin n) (x : Pos π χ) :
    places ⟨d, o, update f t x⟩ = update (fun u => (f u).place) t x.place :=
  funext fun u => apply_update (fun _ => Pos.place) f t x u

/-- A thread stays at its place. -/
lemma places_eq {d : σ} {o : Option (Fin n)} {f : Fin n → Pos π χ} {t : Fin n} {x : Pos π χ}
    (h : x.place = (f t).place) : places ⟨d, o, update f t x⟩ = fun u => (f u).place := by
  rw [places_update, h, update_eq_self t fun u => (f u).place]

/-- The lock names its holder. -/
def Locked (s : MSt n σ π χ) : Prop := Owner Pos.Holds s.lock s.pc

end MSt

inductive Code.Step (M : Code n σ π χ ε) (s : MSt n σ π χ) : Option ε → MSt n σ π χ → Prop where
  | free (t : Fin n) (l l' : π) (e : Option ε) (d : σ) (hpc : s.pc t = .free l)
      (h : M.free t s.data l e d l') : M.Step s e ⟨d, s.lock, update s.pc t (.free l')⟩
  | env (e : Option ε) (d : σ) (h : M.env s.data e d) : M.Step s e ⟨d, s.lock, s.pc⟩
  | acquire (t : Fin n) (l : π) (hlock : s.lock = none) (hpc : s.pc t = .free l) (h : M.wants l) :
      M.Step s none ⟨s.data, some t, update s.pc t (.locked l)⟩
  | locked (t : Fin n) (l : π) (e : Option ε) (d : σ) (x : Pos π χ) (hpc : s.pc t = .locked l)
      (h : M.locked t s.data l e d x) :
      M.Step s e ⟨d, if x.Holds then s.lock else none, update s.pc t x⟩
  | wake (t k : Fin n) (c : χ) (l m : π) (hpc : s.pc t = .waking c k l)
      (hk : s.pc k = .asleep c m) :
      M.Step s none ⟨s.data, s.lock, update (update s.pc k (.free m)) t (.waking c (k + 1) l)⟩
  /-- `wakeup` has taken the lock of process `k`, which does not sleep on the channel. -/
  | pass (t k : Fin n) (c : χ) (l : π) (hpc : s.pc t = .waking c k l)
      (hk : ∀ c' m, s.pc k ≠ .falling c' m) (hk' : ∀ m, s.pc k ≠ .asleep c m) :
      M.Step s none ⟨s.data, s.lock, update s.pc t (.waking c (k + 1) l)⟩
  | go (t : Fin n) (x : Pos π χ) (h : (s.pc t).Goes n x) :
      M.Step s none ⟨s.data, s.lock, update s.pc t x⟩

variable {M : Code n σ π χ ε} {s s' : MSt n σ π χ} {e : Option ε} {tr : List (Option ε)}
  {t k : Fin n} {c : χ} {l : π} {x : Pos π χ}

lemma Code.Step.owner (h : M.Step s e s') (hs : s.Locked) : s'.Locked := by
  cases h with
  | free t l l' e d hpc h => exact hs.move (by simp [hpc])
  | env => exact hs
  | acquire t l hlock hpc h =>
    unfold MSt.Locked at hs
    rw [hlock] at hs
    exact hs.acquire trivial
  | locked t l e d x hpc h =>
    by_cases hx : x.Holds
    · rw [if_pos hx]
      exact hs.move (iff_of_true hx (by simp [hpc]))
    · rw [if_neg hx]
      exact hs.release (by simp [hpc]) hx
  | wake t k c l m hpc hk =>
    have htk : t ≠ k := fun heq => by simp [heq, hk] at hpc
    exact Owner.move (hs.move (by simp [hk])) (by simp [update_of_ne htk, hpc])
  | pass t k c l hpc hk hk' => exact hs.move (by simp [hpc])
  | go t x h => exact hs.move (by cases hpc : s.pc t <;> rw [hpc] at h <;> cases h <;> simp)

lemma Code.run_locked {d : σ} (h : Run M.Step (.init d l) tr s) : s.Locked :=
  h.invariant (I := fun _ s => s.Locked) (fun _ => iff_of_false (by simp [MSt.init]) id)
    fun _ _ _ _ hs hstep => hstep.owner hs

/-! ### Invariants -/

/-- An invariant of the trace, the data, the lock and the places of the threads. -/
structure Code.Keeps (M : Code n σ π χ ε)
    (I : List (Option ε) → σ → Option (Fin n) → (Fin n → π) → Prop) : Prop where
  silent : ∀ {tr d o p}, I tr d o p → I (none :: tr) d o p
  free : ∀ {tr d o p t e d' l}, I tr d o p → o ≠ some t → M.free t d (p t) e d' l →
    I (e :: tr) d' o (update p t l)
  env : ∀ {tr d o p e d'}, I tr d o p → M.env d e d' → I (e :: tr) d' o p
  acquire : ∀ {tr d p t}, I tr d none p → M.wants (p t) → I (none :: tr) d (some t) p
  locked : ∀ {tr d p t e d' x}, I tr d (some t) p → M.locked t d (p t) e d' x →
    I (e :: tr) d' (if x.Holds then some t else none) (update p t x.place)

variable {I : List (Option ε) → σ → Option (Fin n) → (Fin n → π) → Prop}

lemma Code.Keeps.step (hM : M.Keeps I) (hstep : M.Step s e s') (hs : s.Locked)
    (hI : I tr s.data s.lock s.places) : I (e :: tr) s'.data s'.lock s'.places := by
  cases hstep with
  | free t l l' e d hpc h =>
    rw [MSt.places_update]
    refine hM.free hI (fun hlock => ?_) (by simpa [hpc] using h)
    simpa [hpc] using (hs t).mp hlock
  | env e d h => exact hM.env hI h
  | acquire t l hlock hpc h =>
    rw [MSt.places_eq (by rw [hpc]; rfl)]
    exact hM.acquire (hlock ▸ hI) (by simpa [hpc] using h)
  | locked t l e d x hpc h =>
    have hlock : s.lock = some t := (hs t).mpr (by simp [hpc])
    rw [MSt.places_update, hlock]
    exact hM.locked (hlock ▸ hI) (by simpa [hpc] using h)
  | wake t k c l m hpc hk =>
    have htk : t ≠ k := fun heq => by simp [heq, hk] at hpc
    have hwake : (fun u => (update s.pc k (.free m) u).place) = s.places :=
      MSt.places_eq (d := s.data) (o := s.lock) (by rw [hk]; rfl)
    rw [MSt.places_eq (by rw [update_of_ne htk, hpc]; rfl), hwake]
    exact hM.silent hI
  | pass t k c l hpc hk hk' =>
    rw [MSt.places_eq (by rw [hpc]; rfl)]
    exact hM.silent hI
  | go t x h =>
    rw [MSt.places_eq (by cases hpc : s.pc t <;> rw [hpc] at h <;> cases h <;> rfl)]
    exact hM.silent hI

lemma Code.Keeps.run {d : σ} (hM : M.Keeps I) (h : Run M.Step (.init d l) tr s)
    (h0 : I [] d none fun _ => l) : I tr s.data s.lock s.places :=
  (h.invariant (I := fun tr s => s.Locked ∧ I tr s.data s.lock s.places)
    ⟨Code.run_locked (M := M) .nil, h0⟩
    fun _ _ _ _ hI hstep => ⟨hstep.owner hI.1, hM.step hstep hI.1 hI.2⟩).2

/-! ### Sleepers -/

/-- What the threads with the lock are to do for those who sleep. -/
structure Duty (n : Nat) (σ π χ : Type) where
  /-- A thread that sleeps on the channel can go on at the place. -/
  ready : σ → χ → π → Prop
  /-- A thread at the place is still to call `wakeup` on the channel. -/
  owes : Fin n → σ → π → χ → Prop := fun _ _ _ _ => False
  /-- What a thread knows at the place. -/
  known : σ → π → Prop := fun _ _ => True

variable {D : Duty n σ π χ} {d d' : σ} {o : Option (Fin n)} {f : Fin n → Pos π χ} {u : Fin n}

/-- Nobody can go on who could not before, and no duty is forgotten. -/
structure Duty.Keeps (D : Duty n σ π χ) (d d' : σ) : Prop where
  ready : ∀ {c m}, D.ready d' c m → D.ready d c m
  owes : ∀ {t l c}, D.owes t d l c → D.owes t d' l c
  known : ∀ {l}, D.known d l → D.known d' l

lemma Duty.Keeps.refl (D : Duty n σ π χ) (d : σ) : D.Keeps d d := ⟨id, id, id⟩

/-- Thread `u` is to wake thread `t` if it sleeps on `c`. -/
@[simp] def Pos.Owes (D : Duty n σ π χ) (u : Fin n) (d : σ) (t : Fin n) (c : χ) : Pos π χ → Prop
  | locked l => D.owes u d l c
  | waking c' k _ => c' = c ∧ k ≤ t
  | _ => False

lemma Pos.Owes.holds (h : x.Owes D u d t c) : x.Holds := by
  cases x <;> simp_all

lemma Pos.Owes.keeps (h : x.Owes D u d t c) (hD : D.Keeps d d') : x.Owes D u d' t c := by
  cases x with
  | locked l => exact hD.owes h
  | _ => exact h

/-- Nobody lets a thread go on without having to call `wakeup`, and nobody sleeps who can go on.
The holder of the lock may take it that nobody could go on but those it is to wake. -/
structure Code.Wakes (M : Code n σ π χ ε) (D : Duty n σ π χ) : Prop where
  free : ∀ {t d l e d' l'}, M.free t d l e d' l' → D.Keeps d d'
  acquire : ∀ {d l}, M.wants l → D.known d l
  known : ∀ {t d l e d' x}, M.locked t d l e d' x → D.known d l → x.Holds → D.known d' x.place
  sleeps : ∀ {t d l e d' x c m}, M.locked t d l e d' x → D.known d l → x.Waits c m →
    ¬ D.ready d' c m
  owes : ∀ {t d l e d' x c m}, M.locked t d l e d' x → (D.ready d c m → D.owes t d l c) →
    D.ready d' c m → ∀ u, x.Owes D t d' u c

/-- A thread that sleeps and can go on will be woken by the holder of the lock. -/
structure MSt.Tended (D : Duty n σ π χ) (s : MSt n σ π χ) : Prop where
  known : ∀ t, (s.pc t).Holds → D.known s.data (s.pc t).place
  owed : ∀ t c l, (s.pc t).Waits c l → D.ready s.data c l → ∃ u, (s.pc u).Owes D u s.data t c

/-- Nobody is to be woken while the lock is free. -/
lemma MSt.Tended.quiet (h : s.Tended D) (hs : s.Locked) (hlock : s.lock = none)
    (ht : (s.pc t).Waits c l) : ¬ D.ready s.data c l := by
  intro hready
  obtain ⟨u, hu⟩ := h.owed t c l ht hready
  have howner := (hs u).mpr hu.holds
  simp [hlock] at howner

/-- One thread moves; it does not come to wait, and wakes who is still to be woken. -/
lemma MSt.Tended.move (h : s.Tended D) (hD : D.Keeps s.data d)
    (hknown : x.Holds → D.known d x.place) (hx : ∀ c m, x.Waits c m → (s.pc t).Waits c m)
    (howes : ∀ u c m, (update s.pc t x u).Waits c m → (s.pc t).Owes D t s.data u c →
      x.Owes D t d u c) : MSt.Tended D ⟨d, o, update s.pc t x⟩ where
  known u hu := by
    by_cases hut : u = t
    · subst hut
      simpa using hknown (by simpa using hu)
    · simpa [update_of_ne hut] using hD.known (h.known u (by simpa [update_of_ne hut] using hu))
  owed u c m hu hready := by
    have hold : (s.pc u).Waits c m := by
      by_cases hut : u = t
      · subst hut
        exact hx c m (by simpa using hu)
      · simpa [update_of_ne hut] using hu
    obtain ⟨v, hv⟩ := h.owed u c m hold (hD.ready hready)
    refine ⟨v, ?_⟩
    by_cases hvt : v = t
    · subst hvt
      simpa using howes u c m hu hv
    · simp only [update_of_ne hvt]
      exact hv.keeps hD

/-- `wakeup` goes on to the next thread. -/
lemma MSt.Tended.next (h : s.Tended D) (hpc : s.pc t = .waking c k l)
    (hk : ∀ m, k ≠ t → ¬ (s.pc k).Waits c m) :
    MSt.Tended D ⟨s.data, o, update s.pc t (.waking c (k + 1) l)⟩ := by
  refine h.move (.refl D _) ?_ (by simp [Pos.Waits]) fun u c' m hu howes => ?_
  · simpa [hpc] using h.known t
  · have hut : u ≠ t := by
      rintro rfl
      simp [Pos.Waits] at hu
    rw [update_of_ne hut] at hu
    rw [hpc] at howes
    obtain ⟨hc, hle⟩ := howes
    refine ⟨hc, Nat.lt_of_le_of_ne hle fun heq => ?_⟩
    obtain rfl : k = u := Fin.ext heq
    exact hk m hut (hc ▸ hu)

lemma Code.Wakes.tended (hM : M.Wakes D) (h : M.Step s e s') (hs : s.Locked) (ht : s.Tended D)
    (henv : ∀ d, M.env s.data e d → MSt.Tended D ⟨d, s.lock, s.pc⟩) : s'.Tended D := by
  cases h with
  | free t l l' e d hpc h =>
    exact ht.move (hM.free h) (by simp) (by simp [Pos.Waits]) (by simp [hpc])
  | env e d h => exact henv d h
  | acquire t l hlock hpc h =>
    exact ht.move (.refl D _) (fun _ => hM.acquire h) (by simp [Pos.Waits]) (by simp [hpc])
  | locked t l e d x hpc h =>
    have hknown : D.known s.data l := by simpa [hpc] using ht.known t
    have heq : ∀ u, (s.pc u).Holds → u = t := fun u hu => hs.eq hu (by simp [hpc])
    refine ⟨fun u hu => ?_, fun u c m hu hready => ?_⟩
    · by_cases hut : u = t
      · subst hut
        simpa using hM.known h hknown (by simpa using hu)
      · exact absurd (heq u (by simpa [update_of_ne hut] using hu)) hut
    · by_cases hut : u = t
      · subst hut
        exact absurd hready (hM.sleeps h hknown (by simpa using hu))
      · -- Whoever could go on before was to be woken by the holder.
        have hbefore : D.ready s.data c m → D.owes t s.data l c := by
          intro hR
          obtain ⟨v, hv⟩ := ht.owed u c m (by simpa [update_of_ne hut] using hu) hR
          obtain rfl := heq v hv.holds
          simpa [hpc] using hv
        refine ⟨t, ?_⟩
        simp only [update_self]
        exact hM.owes h hbefore hready u
  | wake t k c l m hpc hk =>
    have htk : t ≠ k := fun heq => by simp [heq, hk] at hpc
    have hroused : MSt.Tended D ⟨s.data, s.lock, update s.pc k (.free m)⟩ :=
      ht.move (.refl D _) (by simp) (by simp [Pos.Waits]) (by simp [hk])
    exact hroused.next (by simp [update_of_ne htk, hpc]) (by simp [Pos.Waits])
  | pass t k c l hpc hk hk' => exact ht.next hpc (by simp [Pos.Waits, hk, hk'])
  | go t x h =>
    have hknown := ht.known t
    generalize hpc : s.pc t = y at h hknown
    cases h with
    | woken c l =>
      refine ht.move (.refl D _) hknown (by simp [Pos.Waits]) fun u c' m _ howes => ?_
      rw [hpc] at howes
      exact absurd howes.2 (by omega)
    | doze | rouse => exact ht.move (.refl D _) (by simp) (by simp [hpc, Pos.Waits]) (by simp [hpc])

/-- **No lost wake-up.** -/
lemma Code.Wakes.run {S : MSt n σ π χ → Option ε → MSt n σ π χ → Prop} (hM : M.Wakes D)
    (hS : ∀ {s e s'}, S s e s' → M.Step s e s')
    (henv : ∀ {s e s' d}, S s e s' → M.env s.data e d → s.Tended D →
      MSt.Tended D ⟨d, s.lock, s.pc⟩)
    (h : Run S (.init d l) tr s) : s.Tended D := by
  refine (h.invariant (I := fun _ s => s.Locked ∧ s.Tended D) ⟨Code.run_locked (M := M) .nil, ?_⟩
    fun _ _ _ _ hI hstep => ⟨(hS hstep).owner hI.1,
      hM.tended (hS hstep) hI.1 hI.2 fun _ h => henv hstep h hI.2⟩).2
  constructor <;> simp [MSt.init, Pos.Waits]

end Lib
