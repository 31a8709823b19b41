import Xv6.Kernel.String

/-!
# Strings and `memmove` in the user library

The string at an address and the functions of `ulib.c` on strings.

The user library and the kernel have each a `memmove`; the two choose the direction of the copy by
different tests. Here both are stated with 64-bit pointers; on ranges that do not wrap around the
address space, the kernel's version is the one that the kernel models use.
-/

namespace Xv6

open Function Lib

variable {m m' : Mem} {d s n dst src : Nat}

/-! ### Strings -/

/-- The string at an address. -/
def StringAt (m : Mem) : Nat → List UInt8 → Prop
  | a, [] => m a = 0
  | a, c :: s => m a = c ∧ c ≠ 0 ∧ StringAt m (a + 1) s

/-- `strchr(s, c)`, in at most `fuel` turns. -/
def strchr (m : Mem) (c : UInt8) (s : Nat) : Nat → Option (Option Nat)
  | 0 => none
  | fuel + 1 =>
    if m s = 0 then some none
    else if m s = c then some (some s)
    else strchr m c (s + 1) fuel

section Strings

variable {a fuel : Nat} {c : UInt8} {s w r : List UInt8}

lemma stringAt_head (h : StringAt m a s) : (m a = 0 ∧ s = []) ∨
    ∃ c s', s = c :: s' ∧ m a = c ∧ c ≠ 0 ∧ StringAt m (a + 1) s' := by
  cases s with
  | nil => exact Or.inl ⟨h, rfl⟩
  | cons c s => exact Or.inr ⟨c, s, rfl, h⟩

/-- A string is a sequence of bytes that are not zero, and a zero. -/
lemma stringAt_iff : StringAt m a s ↔ m.read a s.length = s ∧ m (a + s.length) = 0 ∧ 0 ∉ s := by
  induction s generalizing a with
  | nil => simp [StringAt]
  | cons c s ih =>
    rw [StringAt, ih, List.length_cons, Mem.read_succ, List.cons.injEq, List.mem_cons, not_or,
      Nat.add_right_comm, ne_comm (a := c)]
    tauto

lemma StringAt.congr (h : StringAt m a s) (heq : ∀ x, a ≤ x → x ≤ a + s.length → m' x = m x) :
    StringAt m' a s := by
  rw [stringAt_iff] at h ⊢
  refine ⟨?_, ?_, h.2.2⟩
  · rw [Mem.read_congr fun i hi => heq (a + i) (by omega) (by omega), h.1]
  · rw [heq _ (by omega) (by omega), h.2.1]

/-- The end of a string. -/
lemma StringAt.drop (h : StringAt m a (w ++ s)) : StringAt m (a + w.length) s := by
  induction w generalizing a with
  | nil => exact h
  | cons c w ih =>
    rw [List.length_cons, ← Nat.add_assoc, Nat.add_right_comm]
    exact ih h.2.2

/-- The beginning of a string, when it is ended by a zero. -/
lemma StringAt.cut (h : StringAt m a (w ++ s)) :
    StringAt (update m (a + w.length) 0) a w := by
  rw [stringAt_iff] at h ⊢
  obtain ⟨hread, -, hzero⟩ := h
  refine ⟨?_, update_self .., fun hc => hzero (List.mem_append_left s hc)⟩
  rw [Mem.read_congr (m := m) fun i hi => update_of_ne (by omega) ..]
  have := congrArg (List.take w.length) hread
  rwa [Mem.take_read, List.length_append, min_eq_left (Nat.le_add_right _ _),
    List.take_left] at this

lemma strchr_of_not_mem (h : StringAt m a s) (hc : c ∉ s) (hfuel : s.length < fuel) :
    strchr m c a fuel = some none := by
  induction s generalizing a fuel with
  | nil =>
    obtain ⟨fuel, rfl⟩ : ∃ k, fuel = k + 1 := ⟨fuel - 1, by omega⟩
    exact if_pos h
  | cons x s ih =>
    obtain ⟨fuel, rfl⟩ : ∃ k, fuel = k + 1 := ⟨fuel - 1, by omega⟩
    obtain ⟨rfl, hx, hs⟩ := h
    rw [List.mem_cons, not_or] at hc
    rw [List.length_cons] at hfuel
    rw [strchr, if_neg hx, if_neg (Ne.symm hc.1)]
    exact ih hs hc.2 (by omega)

lemma strchr_of_mem (h : StringAt m a (w ++ c :: r)) (hc : c ∉ w) (hfuel : w.length < fuel) :
    strchr m c a fuel = some (some (a + w.length)) := by
  induction w generalizing a fuel with
  | nil =>
    obtain ⟨fuel, rfl⟩ : ∃ k, fuel = k + 1 := ⟨fuel - 1, by omega⟩
    obtain ⟨hx, hne, -⟩ := h
    rw [strchr, hx, if_neg hne, if_pos rfl]
    rfl
  | cons x w ih =>
    obtain ⟨fuel, rfl⟩ : ∃ k, fuel = k + 1 := ⟨fuel - 1, by omega⟩
    obtain ⟨rfl, hx, hs⟩ := h
    rw [List.mem_cons, not_or] at hc
    rw [List.length_cons] at hfuel ⊢
    rw [strchr, if_neg hx, if_neg (Ne.symm hc.1), ih hs hc.2 (by omega), Nat.add_right_comm,
      Nat.add_assoc]

end Strings

/-! ### `memmove` -/

/-- Pointer arithmetic on `char*`. -/
def ptrAdd (p : Nat) (n : Int) : Nat := ((p + n) % 2 ^ 64).toNat

namespace Ptr

/-- `while(n-- > 0) *--d = *--s;` -/
def memmoveDown (m : Mem) (d s : Nat) : Nat → Mem
  | 0     => m
  | n + 1 =>
    let d := ptrAdd d (-1)
    let s := ptrAdd s (-1)
    memmoveDown (update m d (m s)) d s n

/-- `while(n-- > 0) *d++ = *s++;` -/
def memmoveUp (m : Mem) (d s : Nat) : Nat → Mem
  | 0     => m
  | n + 1 => memmoveUp (update m d (m s)) (ptrAdd d 1) (ptrAdd s 1) n

/-- `memmove` of `string.c`. -/
def memmove (m : Mem) (dst src n : Nat) : Mem :=
  if n = 0 then m
  else if src < dst ∧ ptrAdd src n > dst then memmoveDown m (ptrAdd dst n) (ptrAdd src n) n
  else memmoveUp m dst src n

lemma memmoveUp_eq (hd : d + n ≤ 2 ^ 64) (hs : s + n ≤ 2 ^ 64) :
    memmoveUp m d s n = Xv6.memmoveUp m d s n := by
  induction n generalizing m d s with
  | zero => rfl
  | succ n ih =>
    rw [memmoveUp, Xv6.memmoveUp]
    -- the pointers may wrap to 0 after the last byte
    cases n with
    | zero => rfl
    | succ n =>
      have hd1 : ptrAdd d 1 = d + 1 := by unfold ptrAdd; omega
      have hs1 : ptrAdd s 1 = s + 1 := by unfold ptrAdd; omega
      rw [hd1, hs1]
      exact ih (by omega) (by omega)

/-- The pointers start after the last byte, so they may start at 0. -/
lemma memmoveDown_eq (hd : n ≤ d) (hd' : d ≤ 2 ^ 64) (hs : n ≤ s) (hs' : s ≤ 2 ^ 64) :
    memmoveDown m (d % 2 ^ 64) (s % 2 ^ 64) n = Xv6.memmoveDown m d s n := by
  induction n generalizing m d s with
  | zero => rfl
  | succ n ih =>
    have hd1 : ptrAdd (d % 2 ^ 64) (-1) = (d - 1) % 2 ^ 64 := by unfold ptrAdd; omega
    have hs1 : ptrAdd (s % 2 ^ 64) (-1) = (s - 1) % 2 ^ 64 := by unfold ptrAdd; omega
    rw [memmoveDown, Xv6.memmoveDown]
    rw [hd1, hs1, ih (by omega) (by omega) (by omega) (by omega),
      Nat.mod_eq_of_lt (show d - 1 < 2 ^ 64 by omega),
      Nat.mod_eq_of_lt (show s - 1 < 2 ^ 64 by omega)]

lemma ptrAdd_natCast (p n : Nat) : ptrAdd p n = (p + n) % 2 ^ 64 := by
  unfold ptrAdd
  omega

/-- On ranges that do not wrap, `memmove` is the one of the kernel models. -/
lemma memmove_eq (hd : dst + n ≤ 2 ^ 64) (hs : src + n ≤ 2 ^ 64) :
    memmove m dst src n = Xv6.memmove m dst src n := by
  unfold memmove Xv6.memmove
  simp only [ptrAdd_natCast]
  by_cases h0 : n = 0
  · rw [if_pos h0, if_pos h0]
  rw [if_neg h0, if_neg h0]
  -- the end of a source below the destination does not wrap
  have htest : src < dst ∧ (src + n) % 2 ^ 64 > dst ↔ src < dst ∧ src + n > dst := by omega
  rw [if_congr htest rfl rfl]
  split_ifs
  · exact memmoveDown_eq (by omega) hd (by omega) hs
  · exact memmoveUp_eq hd hs

end Ptr

/-- `memmove` of `ulib.c`; `n` is an `int`. -/
def Ulib.memmove (m : Mem) (vdst vsrc : Nat) (n : Int) : Mem :=
  if vsrc > vdst then Ptr.memmoveUp m vdst vsrc n.toNat
  else Ptr.memmoveDown m (ptrAdd vdst n) (ptrAdd vsrc n) n.toNat

/-- The `n` bytes from `src` on have been moved to `dst`. -/
structure Moved (m m' : Mem) (dst src n : Nat) : Prop where
  copied : ∀ i < n, m' (dst + i) = m (src + i)
  unchanged : ∀ x, ¬(dst ≤ x ∧ x < dst + n) → m' x = m x

lemma Moved.of_apply
    (h : ∀ x, m' x = if dst ≤ x ∧ x < dst + n then m (src + (x - dst)) else m x) :
    Moved m m' dst src n where
  copied i hi := by
    rw [h, if_pos ⟨Nat.le_add_right _ _, by omega⟩, Nat.add_sub_cancel_left]
  unchanged x hx := by
    rw [h, if_neg hx]

lemma Ptr.moved_memmove (hd : dst + n ≤ 2 ^ 64) (hs : src + n ≤ 2 ^ 64) :
    Moved m (memmove m dst src n) dst src n := by
  rw [memmove_eq hd hs]
  exact .of_apply (memmove_apply m dst src n)

lemma Ulib.moved_memmove (hd : dst + n ≤ 2 ^ 64) (hs : src + n ≤ 2 ^ 64) :
    Moved m (memmove m dst src n) dst src n := by
  refine .of_apply fun x => ?_
  unfold memmove
  rw [Int.toNat_natCast]
  split_ifs with hdir hx hx
  · rw [Ptr.memmoveUp_eq hd hs, memmoveUp_apply n m _ _ x (Or.inl hdir.le), if_pos hx]
  · rw [Ptr.memmoveUp_eq hd hs, memmoveUp_apply n m _ _ x (Or.inl hdir.le), if_neg hx]
  all_goals
    rw [Ptr.ptrAdd_natCast, Ptr.ptrAdd_natCast,
      Ptr.memmoveDown_eq (by omega) hd (by omega) hs,
      memmoveDown_apply n m _ _ x (by omega) (by omega), Nat.add_sub_cancel, Nat.add_sub_cancel]
  · rw [if_pos hx]
  · rw [if_neg hx]

/-- Both versions of `memmove` move the bytes, however the two ranges overlap. -/
theorem memmove_moves (m : Mem) {dst src n : Nat} (hd : dst + n ≤ 2 ^ 64) (hs : src + n ≤ 2 ^ 64) :
    Moved m (Ptr.memmove m dst src n) dst src n ∧ Moved m (Ulib.memmove m dst src n) dst src n :=
  ⟨Ptr.moved_memmove hd hs, Ulib.moved_memmove hd hs⟩

/-- Two bytes moved up by one, to the end of the address space. -/
theorem memmove_moves_top :
    Ptr.memmove UInt8.ofNat (2 ^ 64 - 2) (2 ^ 64 - 3) 2 (2 ^ 64 - 1) = 254 ∧
    Ulib.memmove UInt8.ofNat (2 ^ 64 - 2) (2 ^ 64 - 3) 2 (2 ^ 64 - 1) = 254 := by
  obtain ⟨hkernel, huser⟩ := @memmove_moves UInt8.ofNat (2 ^ 64 - 2) (2 ^ 64 - 3) 2 (by decide)
    (by decide)
  exact ⟨hkernel.copied 1 (by decide), huser.copied 1 (by decide)⟩

end Xv6
