import Mathlib.Tactic

/-!
# Byte memory

A memory is a function from addresses to bytes. Words are little endian: `leNat m a n` is the
number that the `n` bytes from `a` on spell, and `store m a n v` writes the low `n` bytes of `v`
there. Everything below is stated pointwise, so that a frame condition is an inequality of
addresses.
-/

namespace Lib

open Function

variable {n a v x a' n' i : Nat} {ws : List Nat} {bs : List UInt8}

abbrev Mem := Nat → UInt8

namespace Mem

/-- The number spelled by the `n` bytes from address `a` on, least significant byte first. -/
def leNat (m : Mem) (a : Nat) : Nat → Nat
  | 0     => 0
  | n + 1 => (m a).toNat + 256 * leNat m (a + 1) n

/-- Write the low `n` bytes of `v` from address `a` on, least significant byte first. -/
def store (m : Mem) (a n v : Nat) : Mem := fun x =>
  if a ≤ x ∧ x < a + n then UInt8.ofNat (v / 256 ^ (x - a)) else m x

/-- Write words of `n` bytes one after the other, from address `a` on. -/
def storeWords (m : Mem) (a n : Nat) : List Nat → Mem
  | []      => m
  | w :: ws => storeWords (store m a n w) (a + n) n ws

/-- Write the bytes of a buffer from address `a` on. -/
def write (m : Mem) (a : Nat) (bs : List UInt8) : Mem := fun x =>
  if a ≤ x then bs.getD (x - a) (m x) else m x

/-- The `n` bytes from address `a` on. -/
def read (m : Mem) (a n : Nat) : List UInt8 := (List.range n).map fun i => m (a + i)

/-- The list with `bs` in place of what stands from position `a` on. -/
def overwrite (l : List UInt8) (a : Nat) (bs : List UInt8) : List UInt8 :=
  l.take a ++ bs ++ l.drop (a + bs.length)

/-- A buffer at address 0, followed by zeros. -/
def ofList (bs : List UInt8) : Mem := fun i => bs.getD i 0

/-! ### Words -/

lemma leNat_congr {m m' : Mem} : ∀ {a : Nat}, (∀ x, a ≤ x → x < a + n → m' x = m x) →
    leNat m' a n = leNat m a n := by
  induction n with
  | zero => intro a _; rfl
  | succ n ih =>
    intro a h
    simp only [leNat]
    rw [h a (le_refl a) (by omega), ih]
    intro x hx hx'
    exact h x (by omega) (by omega)

lemma leNat_lt (m : Mem) (n : Nat) : ∀ a, leNat m a n < 256 ^ n := by
  induction n with
  | zero => intro a; simp [leNat]
  | succ n ih =>
    intro a
    have hb := (m a).toNat_lt
    have hr := ih (a + 1)
    simp only [leNat, pow_succ]
    omega

lemma leNat_eq_zero {m : Mem} : ∀ {a : Nat}, (∀ x, a ≤ x → x < a + n → m x = 0) →
    leNat m a n = 0 := by
  induction n with
  | zero => intro a _; rfl
  | succ n ih =>
    intro a h
    simp only [leNat]
    rw [h a (le_refl a) (by omega), ih fun x hx hx' => h x (by omega) (by omega)]
    rfl

lemma store_apply_of_lt {m : Mem} (h : x < a) : store m a n v x = m x := by
  simp only [store, if_neg (show ¬(a ≤ x ∧ x < a + n) by omega)]

lemma store_apply_of_le {m : Mem} (h : a + n ≤ x) : store m a n v x = m x := by
  simp only [store, if_neg (show ¬(a ≤ x ∧ x < a + n) by omega)]

/-- A word that is stored is read back, modulo its width. -/
lemma leNat_store (n : Nat) : ∀ (m : Mem) (a v : Nat),
    leNat (store m a n v) a n = v % 256 ^ n := by
  induction n with
  | zero => intro m a v; simp [leNat, Nat.mod_one]
  | succ n ih =>
    intro m a v
    have htail : leNat (store m a (n + 1) v) (a + 1) n
        = leNat (store m (a + 1) n (v / 256)) (a + 1) n := by
      apply leNat_congr
      intro x hx hx'
      have hk : x - a = (x - (a + 1)) + 1 := by omega
      simp only [store, if_pos (show a ≤ x ∧ x < a + (n + 1) by omega),
        if_pos (show a + 1 ≤ x ∧ x < a + 1 + n by omega)]
      rw [hk, pow_succ', Nat.div_div_eq_div_mul]
    have hhead : (store m a (n + 1) v a).toNat = v % 256 := by
      simp [store]
    simp only [leNat]
    rw [htail, ih, hhead, pow_succ', Nat.mod_mul]

lemma leNat_store_of_disjoint {m : Mem} (h : a' + n' ≤ a ∨ a + n ≤ a') :
    leNat (store m a n v) a' n' = leNat m a' n' := by
  refine leNat_congr fun x hx hx' => ?_
  rcases h with h | h
  · exact store_apply_of_lt (by omega)
  · exact store_apply_of_le (by omega)

lemma storeWords_apply_of_lt : ∀ {m : Mem} {a : Nat}, x < a →
    storeWords m a n ws x = m x := by
  induction ws with
  | nil => intro m a _; rfl
  | cons w ws ih =>
    intro m a h
    rw [storeWords, ih (by omega), store_apply_of_lt h]

lemma storeWords_apply_of_le : ∀ {m : Mem} {a : Nat},
    a + n * ws.length ≤ x → storeWords m a n ws x = m x := by
  induction ws with
  | nil => intro m a _; rfl
  | cons w ws ih =>
    intro m a h
    rw [List.length_cons, Nat.mul_succ] at h
    have hle : a + n ≤ x := by
      have := Nat.zero_le (n * ws.length)
      omega
    rw [storeWords, ih (by omega), store_apply_of_le hle]

lemma leNat_storeWords_of_disjoint {m : Mem} (h : a' + n' ≤ a ∨ a + n * ws.length ≤ a') :
    leNat (storeWords m a n ws) a' n' = leNat m a' n' := by
  refine leNat_congr fun x hx hx' => ?_
  rcases h with h | h
  · exact storeWords_apply_of_lt (by omega)
  · exact storeWords_apply_of_le (by omega)

/-- A word of a stored array is read back, modulo its width. -/
lemma leNat_storeWords : ∀ {m : Mem} {a i : Nat} (hi : i < ws.length),
    leNat (storeWords m a n ws) (a + n * i) n = ws.get ⟨i, hi⟩ % 256 ^ n := by
  induction ws with
  | nil => intro m a i hi; exact absurd hi (Nat.not_lt_zero i)
  | cons w ws ih =>
    intro m a i hi
    cases i with
    | zero =>
      rw [Nat.mul_zero, Nat.add_zero, storeWords, leNat_storeWords_of_disjoint (.inl (le_refl _)),
        leNat_store]
      rfl
    | succ i =>
      rw [storeWords, Nat.mul_succ, Nat.add_comm (n * i) n, ← Nat.add_assoc]
      exact ih (Nat.lt_of_succ_lt_succ hi)

/-! ### Buffers -/

lemma write_apply_of_lt {m : Mem} (h : x < a) : write m a bs x = m x := by
  simp only [write, if_neg (show ¬a ≤ x by omega)]

lemma write_apply_of_le {m : Mem} (h : a + bs.length ≤ x) : write m a bs x = m x := by
  have hlen : bs.length ≤ x - a := by omega
  simp [write, List.getD_eq_getElem?_getD, hlen]

@[simp] lemma write_nil (m : Mem) (a : Nat) : write m a [] = m := by
  funext x
  simp [write]

lemma write_apply_congr {m m' : Mem} (h : m x = m' x) (a : Nat) (bs : List UInt8) :
    write m a bs x = write m' a bs x := by
  simp only [write, h]

/-- A buffer is written byte after byte. -/
lemma write_cons (m : Mem) (a : Nat) (b : UInt8) (bs : List UInt8) :
    write m a (b :: bs) = write (update m a b) (a + 1) bs := by
  funext x
  rcases Nat.lt_trichotomy x a with h | h | h
  · rw [write_apply_of_lt h, write_apply_of_lt (by omega), update_of_ne (by omega)]
  · subst h
    rw [write_apply_of_lt (Nat.lt_succ_self x), update_self]
    simp [write]
  · have hk : x - a = (x - (a + 1)) + 1 := by omega
    simp only [write, if_pos (show a ≤ x by omega), if_pos (show a + 1 ≤ x by omega), hk,
      List.getD_cons_succ, update_of_ne (show x ≠ a by omega)]

lemma write_append (m : Mem) (a : Nat) (bs cs : List UInt8) :
    write m a (bs ++ cs) = write (write m a bs) (a + bs.length) cs := by
  induction bs generalizing m a with
  | nil => simp
  | cons b bs ih =>
    rw [List.cons_append, write_cons, write_cons, ih, List.length_cons]
    congr 1
    omega

@[simp] lemma length_read (m : Mem) (a n : Nat) : (read m a n).length = n := by simp [read]

@[simp] lemma read_zero (m : Mem) (a : Nat) : read m a 0 = [] := rfl

lemma read_succ (m : Mem) (a n : Nat) : read m a (n + 1) = m a :: read m (a + 1) n := by
  simp only [read, List.range_succ_eq_map, List.map_cons, List.map_map, comp_def,
    Nat.add_zero, Nat.succ_eq_add_one, Nat.add_assoc, Nat.add_comm 1]

lemma getElem_read {m : Mem} (h : i < (read m a n).length) : (read m a n)[i] = m (a + i) := by
  simp [read]

lemma getD_read {m : Mem} (h : i < n) (b : UInt8) : (read m a n).getD i b = m (a + i) := by
  simp [read, List.getD_eq_getElem?_getD, h]

lemma read_append (m : Mem) (a n k : Nat) :
    read m a (n + k) = read m a n ++ read m (a + n) k := by
  simp only [read, List.range_add, List.map_append, List.map_map, comp_def, Nat.add_assoc]

lemma read_congr {m m' : Mem} (h : ∀ i < n, m' (a' + i) = m (a + i)) :
    read m' a' n = read m a n := by
  unfold read
  exact List.map_congr_left fun i hi => h i (List.mem_range.mp hi)

/-- The bytes that were written are read. -/
lemma read_write (m : Mem) (a : Nat) (bs : List UInt8) : read (write m a bs) a bs.length = bs := by
  refine List.ext_getElem (by simp) fun i h1 h2 => ?_
  rw [getElem_read]
  simp [write, h2]

lemma take_read (m : Mem) (a n k : Nat) : (read m a n).take k = read m a (min k n) := by
  simp only [read, ← List.map_take, List.take_range]

lemma drop_read (m : Mem) (a n k : Nat) : (read m a n).drop k = read m (a + k) (n - k) := by
  refine List.ext_getElem (by simp) fun i h1 h2 => ?_
  rw [List.getElem_drop, getElem_read, getElem_read, Nat.add_assoc]

lemma read_eq_read_iff {m m' : Mem} :
    read m' a' n = read m a n ↔ ∀ i < n, m' (a' + i) = m (a + i) := by
  refine ⟨fun h i hi => ?_, read_congr⟩
  have h1 := congrArg (fun l => l.getD i 0) h
  simpa only [getD_read hi] using h1

lemma write_read_apply (m m' : Mem) (a b n x : Nat) : write m a (read m' b n) x =
    if a ≤ x ∧ x < a + n then m' (b + (x - a)) else m x := by
  split_ifs with h
  · rw [write, if_pos h.1, getD_read (by omega)]
  · by_cases hle : a ≤ x
    · exact write_apply_of_le (by rw [length_read]; omega)
    · exact write_apply_of_lt (by omega)

lemma write_read_eq_iff {m m' : Mem} {b : Nat} :
    write m a (read m' b n) = m ↔ ∀ i < n, m' (b + i) = m (a + i) := by
  refine ⟨fun h i hi => ?_, fun h => funext fun x => ?_⟩
  · have hx := congrFun h (a + i)
    rwa [write_read_apply, if_pos (by omega), Nat.add_sub_cancel_left] at hx
  · rw [write_read_apply]
    split_ifs with hx
    · rw [h (x - a) (by omega), Nat.add_sub_cancel' hx.1]
    · rfl

/-- Writing from `a` on, at most at the end, is overwriting and appending. -/
lemma read_write_max {m : Mem} (h : a ≤ n) :
    read (write m a bs) 0 (max n (a + bs.length)) = overwrite (read m 0 n) a bs := by
  have hsplit : max n (a + bs.length) = a + (bs.length + (n - (a + bs.length))) := by omega
  have hlow : read (write m a bs) 0 a = read m 0 a :=
    read_congr fun i hi => write_apply_of_lt (by omega)
  have hhigh : read (write m a bs) (a + bs.length) (n - (a + bs.length))
      = read m (a + bs.length) (n - (a + bs.length)) :=
    read_congr fun i hi => write_apply_of_le (by omega)
  rw [hsplit, read_append, read_append, Nat.zero_add, hlow, hhigh, read_write]
  simp only [overwrite, take_read, drop_read, Nat.zero_add, min_eq_left h, List.append_assoc]

lemma read_ofList (bs : List UInt8) : read (ofList bs) 0 bs.length = bs := by
  refine List.ext_getElem (by simp) fun i h1 h2 => ?_
  rw [getElem_read]
  simp [ofList, h2]

end Mem
end Lib
