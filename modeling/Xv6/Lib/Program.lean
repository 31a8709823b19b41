import Mathlib.Tactic

/-!
# Programs that may stop with an error

`Prog σ ε α` is a computation over a state `σ` that returns a value of type `α` or stops with
an error of type `ε`. `wp m E Q s` says that running `m` from `s` either returns a value and a
state satisfying `Q`, or stops with an error satisfying `E`: with `E` empty it is total
correctness. The rules below take a program apart one command at a time.
-/

namespace Lib

universe u

variable {σ ε α β τ : Type u} {a : α} {e : ε} {R : β → σ → Prop} {E' : ε → Prop} {Q' : α → σ → Prop}
  {ρ : Type*} {ok' : β → Prop}

abbrev Prog (σ ε α : Type u) := StateT σ (Except ε) α

/-- Running `m` from `s` ends in `Q`, or stops with an error that `E` allows. -/
def wp (m : Prog σ ε α) (E : ε → Prop) (Q : α → σ → Prop) (s : σ) : Prop :=
  match m.run s with
  | .ok (a, s') => Q a s'
  | .error e    => E e

variable {E : ε → Prop} {Q : α → σ → Prop} {s : σ}

lemma wp_of_run {m : Prog σ ε α} {s' : σ} (h : m.run s = .ok (a, s')) : wp m E Q s ↔ Q a s' := by
  simp only [wp, h]

lemma wp_of_error {m : Prog σ ε α} (h : m.run s = .error e) : wp m E Q s ↔ E e := by
  simp only [wp, h]

/-- The program returns, and `f` holds of what it does. -/
def returns (m : Prog σ ε α) (s : σ) (f : α → σ → Bool) : Bool :=
  match m.run s with
  | .ok (a, s') => f a s'
  | .error _ => false

lemma exists_of_returns {m : Prog σ ε α} (f : α → σ → Bool) (h : returns m s f = true) :
    ∃ a s', m.run s = .ok (a, s') ∧ f a s' = true := by
  unfold returns at h
  split at h
  · rename_i a s' hrun
    exact ⟨a, s', hrun, h⟩
  · contradiction

/-- The program stops with the error. -/
def fails [DecidableEq ε] (m : Prog σ ε α) (s : σ) (e : ε) : Bool :=
  match m.run s with
  | .ok _ => false
  | .error e' => e' = e

lemma error_of_fails [DecidableEq ε] {m : Prog σ ε α} (h : fails m s e = true) :
    m.run s = .error e := by
  unfold fails at h
  split at h
  · contradiction
  · rename_i e' herr
    rw [herr, of_decide_eq_true h]

/-- A program that meets a specification without errors returns. -/
lemma wp_run {m : Prog σ ε α} (h : wp m (fun _ => False) Q s) :
    ∃ a s', m.run s = .ok (a, s') ∧ Q a s' := by
  unfold wp at h
  match hm : m.run s with
  | .ok (a, s') =>
    rw [hm] at h
    exact ⟨a, s', rfl, h⟩
  | .error e =>
    rw [hm] at h
    exact h.elim

@[simp] lemma wp_pure (a : α) : wp (pure a : Prog σ ε α) E Q s ↔ Q a s := Iff.rfl

@[simp] lemma wp_bind (m : Prog σ ε α) (f : α → Prog σ ε β) :
    wp (m >>= f) E R s ↔ wp m E (fun a s' => wp (f a) E R s') s := by
  unfold wp
  rw [StateT.run_bind]
  cases m.run s with
  | ok p => rfl
  | error e => rfl

@[simp] lemma wp_map (g : α → β) (m : Prog σ ε α) :
    wp (g <$> m) E R s ↔ wp m E (fun a s' => R (g a) s') s := by
  rw [← bind_pure_comp, wp_bind]
  rfl

@[simp] lemma wp_throw (e : ε) : wp (throw e : Prog σ ε α) E Q s ↔ E e := Iff.rfl

@[simp] lemma wp_get {R : σ → σ → Prop} : wp (get : Prog σ ε σ) E R s ↔ R s s := Iff.rfl

@[simp] lemma wp_set {R : PUnit → σ → Prop} (s' : σ) :
    wp (set s' : Prog σ ε PUnit) E R s ↔ R ⟨⟩ s' := Iff.rfl

@[simp] lemma wp_modify {R : PUnit → σ → Prop} (f : σ → σ) :
    wp (modify f : Prog σ ε PUnit) E R s ↔ R ⟨⟩ (f s) := Iff.rfl

lemma wp_ite {c : Prop} [Decidable c] (m m' : Prog σ ε α) :
    wp (if c then m else m') E Q s ↔ (c → wp m E Q s) ∧ (¬c → wp m' E Q s) := by
  split_ifs with hc <;> simp [hc]

/-- Consequence: the postconditions may be weakened. -/
lemma wp_mono {m : Prog σ ε α} (h : wp m E Q s) (hE : ∀ e, E e → E' e)
    (hQ : ∀ a s', Q a s' → Q' a s') : wp m E' Q' s := by
  unfold wp at h ⊢
  split at h
  · exact hQ _ _ h
  · exact hE _ h

lemma wp_imp {m : Prog σ ε α} (h : wp m E Q s) (hQ : ∀ a s', Q a s' → Q' a s') : wp m E Q' s :=
  wp_mono h (fun _ he => he) hQ

/-- Two specifications of one program hold together. -/
lemma wp_both {m : Prog σ ε α} (h : wp m E Q s) (h' : wp m E' Q' s) :
    wp m (fun e => E e ∧ E' e) (fun a s' => Q a s' ∧ Q' a s') s := by
  unfold wp at h h' ⊢
  split at h
  · next heq =>
      rw [heq] at h'
      exact ⟨h, h'⟩
  · next heq =>
      rw [heq] at h'
      exact ⟨h, h'⟩

/-- A second specification says more of how the program returns. -/
lemma wp_also {m : Prog σ ε α} (h : wp m E Q s) (h' : wp m E' Q' s) :
    wp m E (fun a s' => Q a s' ∧ Q' a s') s :=
  wp_mono (wp_both h h') (fun _ he => he.1) fun _ _ hq => hq

lemma wp_true (m : Prog σ ε α) : wp m (fun _ => True) (fun _ _ => True) s := by
  unfold wp
  split <;> trivial

lemma wp_self (m : Prog σ ε α) :
    wp m (fun e => m.run s = .error e) (fun a s' => m.run s = .ok (a, s')) s := by
  unfold wp
  cases m.run s with
  | ok p => rfl
  | error e => rfl

/-- Programs that meet the same specifications from a state have the same run from it. -/
lemma run_eq_of_wp {m m' : Prog σ ε α}
    (h : ∀ (E : ε → Prop) (Q : α → σ → Prop), wp m E Q s → wp m' E Q s) :
    m'.run s = m.run s := by
  have hm' := h _ _ (wp_self m)
  unfold wp at hm'
  cases hrun : m'.run s with
  | ok p =>
    rw [hrun] at hm'
    exact hm'.symm
  | error e =>
    rw [hrun] at hm'
    exact hm'.symm

lemma wp_congr {m m' : Prog σ ε α} (h : m'.run s = m.run s) : wp m E Q s ↔ wp m' E Q s := by
  unfold wp
  rw [h]

/-! ### Sequences of operations -/

section RunAll

variable {Op : Type} {f : Op → Prog σ ε PUnit} {g : ρ → Op → ρ} {ops : List Op}

/-- Run the operations one after the other. -/
def runAll (f : Op → Prog σ ε PUnit) : List Op → Prog σ ε PUnit
  | [] => pure ⟨⟩
  | op :: ops => do
    f op
    runAll f ops

/-- Some operation stops with an error that `Err` allows, after those before it have returned. -/
def Stops (f : Op → Prog σ ε PUnit) (Err : Op → σ → ε → Prop) (ops : List Op) (s : σ) (e : ε) :
    Prop :=
  ∃ done op s₁, done ++ [op] <+: ops ∧ (runAll f done).run s = .ok (⟨⟩, s₁) ∧ Err op s₁ e

/-- Simulation: if `R` relates the state to that of a reference machine and every operation keeps
them related, so does every run. -/
lemma wp_runAll_stops {R : σ → ρ → Prop} {F : Op → σ → ε → Prop}
    (hstep : ∀ op s x, R s x → wp (f op) (F op s) (fun _ s' => R s' (g x op)) s) :
    ∀ {ops : List Op} {s : σ} {x : ρ}, R s x →
      wp (runAll f ops) (Stops f F ops s) (fun _ s' => R s' (ops.foldl g x)) s := by
  intro ops
  induction ops with
  | nil =>
    intro s x h
    exact h
  | cons op ops ih =>
    intro s x h
    unfold runAll
    rw [wp_bind]
    refine wp_mono (wp_both (hstep op s x h) (wp_self _)) (fun e he => ?_) fun _ s₁ h1 => ?_
    · exact ⟨[], op, s, by simp, rfl, he.1⟩
    · refine wp_mono (ih h1.1) (fun e => ?_) fun _ _ h2 => h2
      rintro ⟨done, op', s₂, hpre, hrun, herr⟩
      refine ⟨op :: done, op', s₂, (List.prefix_cons_inj op).mpr hpre, ?_, herr⟩
      rw [runAll, StateT.run_bind, h1.2]
      exact hrun

lemma wp_runAll_sim {R : σ → ρ → Prop}
    (hstep : ∀ op s x, R s x → wp (f op) E (fun _ s' => R s' (g x op)) s) {x : ρ} (h : R s x) :
    wp (runAll f ops) E (fun _ s' => R s' (ops.foldl g x)) s := by
  refine wp_mono (wp_runAll_stops (F := fun _ _ => E) hstep h) (fun e => ?_) fun _ _ h1 => h1
  rintro ⟨-, -, -, -, -, he⟩
  exact he

/-- An invariant of every operation holds after every run. -/
lemma wp_runAll {I : σ → Prop} (hstep : ∀ op s, I s → wp (f op) E (fun _ => I) s) (h : I s) :
    wp (runAll f ops) E (fun _ => I) s :=
  wp_runAll_sim (R := fun s (_ : Unit) => I s) (g := fun x _ => x) (fun op s _ => hstep op s)
    (x := ()) h

/-- An invariant that refers to the operations done so far. -/
lemma wp_runAll_done {R : List Op → σ → Prop}
    (hstep : ∀ op done s, R done s → wp (f op) E (fun _ => R (done ++ [op])) s) (h : R [] s) :
    wp (runAll f ops) E (fun _ => R ops) s := by
  have hfold : ∀ (ops done : List Op),
      ops.foldl (fun done op => done ++ [op]) done = done ++ ops := by
    intro ops
    induction ops with
    | nil => simp
    | cons op ops ih => simp [ih]
  have hrun : wp (runAll f ops) E (fun _ => R (ops.foldl (fun done op => done ++ [op]) [])) s :=
    wp_runAll_sim (R := fun s done => R done s) (fun op s done => hstep op done s) h
  rwa [hfold, List.nil_append] at hrun

end RunAll

/-! ### Running with enough of a resource -/

/-- If the state has `k` units of a resource, `m` takes no more than those, and its result is one
that `ok` accepts. Nothing is said about a run that stops with an error. -/
def Supplied (avail : σ → Nat) (m : Prog σ ε α) (k : Nat) (ok : α → Prop) : Prop :=
  ∀ s, k ≤ avail s → wp m (fun _ => True) (fun a s' => ok a ∧ avail s ≤ avail s' + k) s

section Supplied

variable {avail : σ → Nat} {m : Prog σ ε α} {k l : Nat} {ok : α → Prop} {f : α → Prog σ ε β}

lemma supplied_pure (h : ok a) : Supplied avail (pure a : Prog σ ε α) k ok :=
  fun _ _ => ⟨h, Nat.le_add_right ..⟩

lemma supplied_throw (e : ε) : Supplied avail (throw e : Prog σ ε α) k ok := fun _ _ => trivial

lemma Supplied.mono (h : Supplied avail m k ok) (hle : k ≤ l) : Supplied avail m l ok :=
  fun s hs => wp_imp (h s (hle.trans hs)) fun _ _ h1 => ⟨h1.1, by omega⟩

lemma Supplied.bind (h : Supplied avail m k ok) (hf : ∀ a, ok a → Supplied avail (f a) l ok') :
    Supplied avail (m >>= f) (k + l) ok' := by
  intro s hs
  rw [wp_bind]
  refine wp_imp (h s (by omega)) ?_
  rintro a s₁ ⟨ha, h1⟩
  refine wp_imp (hf a ha s₁ (by omega)) ?_
  rintro b s₂ ⟨hb, h2⟩
  exact ⟨hb, by omega⟩

/-- A first command that takes nothing. -/
lemma Supplied.bind_free (h : Supplied avail m 0 ok) (hf : ∀ a, ok a → Supplied avail (f a) l ok') :
    Supplied avail (m >>= f) l ok' := by
  have h1 := h.bind hf
  rwa [Nat.zero_add] at h1

/-- What is known of `m` otherwise holds together with what it takes. -/
lemma Supplied.wp {Q : α → σ → Prop} (h : Supplied avail m k ok) (hs : k ≤ avail s)
    (hm : Lib.wp m E Q s) :
    Lib.wp m E (fun a s' => Q a s' ∧ ok a ∧ avail s ≤ avail s' + k) s :=
  wp_mono (wp_both hm (h s hs)) (fun _ he => he.1) fun _ _ hq => hq

lemma supplied_modify {f : σ → σ} (h : ∀ s, avail (f s) = avail s) :
    Supplied avail (modify f : Prog σ ε PUnit) 0 fun _ => True :=
  fun s _ => ⟨trivial, (h s).ge⟩

end Supplied

/-! ### Running a program on a part of the state -/

/-- Run `m` on the part of the state that `get` reads and `put` writes back. -/
def zoom (get : τ → σ) (put : τ → σ → τ) (m : Prog σ ε α) : Prog τ ε α :=
  fun t => (m.run (get t)).map fun p => (p.1, put t p.2)

@[simp] lemma wp_zoom {get : τ → σ} {put : τ → σ → τ} {m : Prog σ ε α} {R : α → τ → Prop}
    {t : τ} : wp (zoom get put m) E R t ↔ wp m E (fun a s' => R a (put t s')) (get t) := by
  simp only [wp, zoom, StateT.run]
  cases m (get t) with
  | ok p => rfl
  | error e => rfl

/-- Run `m` in a program with other errors. -/
def raise {δ : Type u} (f : ε → δ) (m : Prog σ ε α) : Prog σ δ α := fun s => (m.run s).mapError f

@[simp] lemma wp_raise {δ : Type u} {f : ε → δ} {m : Prog σ ε α} {E : δ → Prop} :
    wp (raise f m) E Q s ↔ wp m (fun e => E (f e)) Q s := by
  simp only [wp, raise, StateT.run]
  cases m s with
  | ok p => rfl
  | error e => rfl

end Lib
