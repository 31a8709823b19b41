import Xv6.Lib.Memory

/-!
# Bytes and strings

The loops of `string.c`, over a byte memory. A `char*` is the memory from that address on.
-/

namespace Xv6

open Function Lib

/-- `memset(dst, c, n)`: the loop over `cdst[i]`, from the last turn backwards. -/
def memset (m : Mem) (dst : Nat) (c : UInt8) : Nat → Mem
  | 0     => m
  | n + 1 => update (memset m dst c n) (dst + n) c

/-- The backward loop of `memmove`; `d` and `s` point one past the byte moved next. -/
def memmoveDown (m : Mem) (d s : Nat) : Nat → Mem
  | 0     => m
  | n + 1 => memmoveDown (update m (d - 1) (m (s - 1))) (d - 1) (s - 1) n

/-- The forward loop of `memmove`. -/
def memmoveUp (m : Mem) (d s : Nat) : Nat → Mem
  | 0     => m
  | n + 1 => memmoveUp (update m d (m s)) (d + 1) (s + 1) n

def memmove (m : Mem) (dst src n : Nat) : Mem :=
  if n = 0 then m
  else if src < dst ∧ src + n > dst then memmoveDown m (dst + n) (src + n) n
  else memmoveUp m dst src n

/-- `strncmp(p, q, n)`, from byte `i` on. -/
def strncmpFrom (p q : Mem) (i : Nat) : Nat → Int
  | 0     => 0
  | n + 1 => if p i ≠ 0 ∧ p i = q i then strncmpFrom p q (i + 1) n else (p i).toNat - (q i).toNat

def strncmp (p q : Mem) (n : Nat) : Int := strncmpFrom p q 0 n

/-- `strncpy(s, t, n)`, from byte `i` on; after the end of `t` the second loop pads. -/
def strncpyFrom (s t : Mem) (i : Nat) : Nat → Mem
  | 0     => s
  | n + 1 =>
    if t i ≠ 0 then strncpyFrom (update s i (t i)) t (i + 1) n
    else memset (update s i 0) (i + 1) 0 n

def strncpy (s t : Mem) (n : Nat) : Mem := strncpyFrom s t 0 n

lemma memset_apply (m : Mem) (dst : Nat) (c : UInt8) (n x : Nat) :
    memset m dst c n x = if dst ≤ x ∧ x < dst + n then c else m x := by
  induction n with
  | zero => simp [memset]
  | succ n ih =>
    rw [memset]
    by_cases h : x = dst + n
    · subst h
      rw [update_self, if_pos (by omega)]
    · rw [update_of_ne h, ih]
      congr 1
      exact propext (by omega)

lemma memmoveUp_apply (n : Nat) : ∀ (m : Mem) (d s x : Nat), d ≤ s ∨ s + n ≤ d →
    memmoveUp m d s n x = if d ≤ x ∧ x < d + n then m (s + (x - d)) else m x := by
  induction n with
  | zero => intro m d s x _; rw [memmoveUp, if_neg (by omega)]
  | succ n ih =>
    intro m d s x h
    rw [memmoveUp, ih _ _ _ _ (by omega)]
    by_cases hx : d + 1 ≤ x ∧ x < d + 1 + n
    · rw [if_pos hx, if_pos (by omega), update_of_ne (by omega)]
      congr 1
      omega
    · rw [if_neg hx]
      by_cases hxd : x = d
      · subst hxd
        rw [update_self, if_pos (by omega), Nat.sub_self, Nat.add_zero]
      · rw [update_of_ne hxd, if_neg (by omega)]

lemma memmoveDown_apply (n : Nat) : ∀ (m : Mem) (d s x : Nat), n ≤ s → s ≤ d →
    memmoveDown m d s n x = if d - n ≤ x ∧ x < d then m (s - n + (x - (d - n))) else m x := by
  induction n with
  | zero => intro m d s x _ _; rw [memmoveDown, if_neg (by omega)]
  | succ n ih =>
    intro m d s x hn h
    rw [memmoveDown, ih _ _ _ _ (by omega) (by omega)]
    by_cases hx : d - 1 - n ≤ x ∧ x < d - 1
    · rw [if_pos hx, if_pos (by omega), update_of_ne (by omega)]
      congr 1
      omega
    · rw [if_neg hx]
      by_cases hxd : x = d - 1
      · subst hxd
        rw [update_self, if_pos (by omega)]
        congr 1
        omega
      · rw [update_of_ne hxd, if_neg (by omega)]

/-- `memmove` copies the original source bytes, however the two ranges overlap. -/
lemma memmove_apply (m : Mem) (dst src n x : Nat) :
    memmove m dst src n x = if dst ≤ x ∧ x < dst + n then m (src + (x - dst)) else m x := by
  unfold memmove
  split_ifs with h0 hov
  · omega
  · rfl
  · rw [memmoveDown_apply n m _ _ x (by omega) (by omega), if_pos (by omega)]
    congr 1
    omega
  · rw [memmoveDown_apply n m _ _ x (by omega) (by omega), if_neg (by omega)]
  · rw [memmoveUp_apply n m _ _ x (by omega), if_pos (by omega)]
  · rw [memmoveUp_apply n m _ _ x (by omega), if_neg (by omega)]

/-! ### Strings -/

/-- The string in a buffer of `n` bytes, which ends at the first zero if there is one. -/
def cstring (p : Mem) (n : Nat) : List UInt8 := (p.read 0 n).takeWhile (· ≠ 0)

lemma strncmpFrom_eq_zero_iff {p q : Mem} {n : Nat} : ∀ {i : Nat}, strncmpFrom p q i n = 0 ↔
    (p.read i n).takeWhile (· ≠ 0) = (q.read i n).takeWhile (· ≠ 0) := by
  induction n with
  | zero => intro i; simp [strncmpFrom]
  | succ n ih =>
    intro i
    rw [strncmpFrom, Mem.read_succ, Mem.read_succ]
    by_cases hp : p i = 0
    · -- The first string ends here, so the second has to.
      have hq : (p i).toNat - ((q i).toNat : Int) = 0 ↔ q i = 0 := by
        rw [← UInt8.toNat_inj, hp]
        simp [eq_comm]
      rw [if_neg (fun h => h.1 hp), hq]
      simp [hp, List.takeWhile_cons]
    · by_cases heq : p i = q i
      · have hq : q i ≠ 0 := heq ▸ hp
        simp [hq, heq, ih]
      · have hne : (p i).toNat - ((q i).toNat : Int) ≠ 0 := by
          have h1 : (p i).toNat ≠ (q i).toNat := fun h => heq (UInt8.toNat_inj.mp h)
          omega
        rw [if_neg (fun h => heq h.2)]
        refine iff_of_false hne ?_
        by_cases hq : q i = 0
        · simp [hp, hq]
        · simp [hp, heq, hq]

/-- Two buffers compare equal if they hold the same string. -/
lemma strncmp_eq_zero_iff {p q : Mem} {n : Nat} :
    strncmp p q n = 0 ↔ cstring p n = cstring q n :=
  strncmpFrom_eq_zero_iff

lemma strncpyFrom_apply_of_lt {t : Mem} {n x : Nat} : ∀ {s : Mem} {i : Nat}, x < i →
    strncpyFrom s t i n x = s x := by
  induction n with
  | zero => intro s i _; rfl
  | succ n ih =>
    intro s i hx
    rw [strncpyFrom]
    split_ifs
    · rw [ih (by omega), update_of_ne (by omega)]
    · rw [memset_apply, if_neg (by omega), update_of_ne (by omega)]

/-- The copy holds the string of the source, also where there is no room for its end. -/
lemma takeWhile_strncpyFrom {t : Mem} {n : Nat} : ∀ {s : Mem} {i : Nat},
    ((strncpyFrom s t i n).read i n).takeWhile (· ≠ 0) = (t.read i n).takeWhile (· ≠ 0) := by
  induction n with
  | zero => intro s i; rfl
  | succ n ih =>
    intro s i
    rw [Mem.read_succ, Mem.read_succ, strncpyFrom]
    split_ifs with ht
    · rw [strncpyFrom_apply_of_lt (Nat.lt_succ_self i), update_self]
      rw [List.takeWhile_cons_of_pos (by simpa using ht),
        List.takeWhile_cons_of_pos (by simpa using ht), ih]
    · rw [memset_apply, if_neg (by omega), update_self]
      simp only [ne_eq, not_not] at ht
      simp [ht]

lemma cstring_strncpy (s t : Mem) (n : Nat) : cstring (strncpy s t n) n = cstring t n :=
  takeWhile_strncpyFrom

end Xv6
