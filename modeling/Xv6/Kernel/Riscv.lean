import Mathlib.Tactic

/-!
# Pages, addresses and page-table entries

The macros of `riscv.h` and `memlayout.h`. Addresses are natural numbers below `2 ^ 64`, and an
operation that wraps in the C code wraps here as well; a page-table entry is a 64-bit word.
-/

namespace Xv6

def PGSIZE : Nat := 4096

/-- One beyond the highest virtual address, `1L << (9 + 9 + 9 + 12 - 1)`. -/
def MAXVA : Nat := 2 ^ 38

def TRAMPOLINE : Nat := MAXVA - PGSIZE

def TRAPFRAME : Nat := TRAMPOLINE - PGSIZE

def KERNBASE : Nat := 0x80000000

def PHYSTOP : Nat := KERNBASE + 128 * 1024 * 1024

/-- `((sz)+PGSIZE-1) & ~(PGSIZE-1)`, in 64 bits. -/
def pgroundup (sz : Nat) : Nat := (sz + PGSIZE - 1) % 2 ^ 64 / PGSIZE * PGSIZE

/-- `(a) & ~(PGSIZE-1)`. -/
def pgrounddown (a : Nat) : Nat := a / PGSIZE * PGSIZE

/-- The 9-bit page-table index of `va` at a level. -/
def px (level va : Nat) : Nat := va / 2 ^ (12 + 9 * level) % 512

/-! ### Page-table entries -/

abbrev Pte := BitVec 64

def PTE_V : Pte := 1#64 <<< 0
def PTE_R : Pte := 1#64 <<< 1
def PTE_W : Pte := 1#64 <<< 2
def PTE_X : Pte := 1#64 <<< 3
def PTE_U : Pte := 1#64 <<< 4
/-- The copy-on-write mark, in a bit that the hardware leaves to software. -/
def PTE_C : Pte := 1#64 <<< 8

/-- `pte & flag`, as a condition. -/
def hasFlag (pte flag : Pte) : Bool := pte &&& flag != 0#64

def pa2pte (pa : Nat) : Pte := (BitVec.ofNat 64 pa >>> 12) <<< 10

def pte2pa (pte : Pte) : Nat := ((pte >>> 10) <<< 12).toNat

def pteFlags (pte : Pte) : Pte := pte &&& 0x3FF#64

/-- The physical page that an entry refers to, if it is valid. -/
def ptePage (pte : Pte) : Option Nat := if hasFlag pte PTE_V then some (pte2pa pte) else none

/-! ### Flags are bits -/

lemma getLsbD_flag {k : Nat} (hk : k < 64) (i : Nat) :
    (1#64 <<< k).getLsbD i = decide (i = k) := by
  rw [← BitVec.twoPow_eq, BitVec.getLsbD_twoPow]
  by_cases h : i = k
  · subst h; simp [hk]
  · simp [h, Ne.symm h]

lemma hasFlag_shift {k : Nat} (hk : k < 64) (pte : Pte) :
    hasFlag pte (1#64 <<< k) = pte.getLsbD k := by
  unfold hasFlag
  rw [Bool.eq_iff_iff, bne_iff_ne, ne_eq, BitVec.eq_of_getLsbD_eq_iff]
  constructor
  · intro h
    by_contra hf
    apply h
    intro i hi
    rw [BitVec.getLsbD_and, getLsbD_flag hk, BitVec.getLsbD_zero]
    by_cases hik : i = k
    · subst hik; simpa using hf
    · simp [hik]
  · intro h hall
    have := hall k hk
    rw [BitVec.getLsbD_and, getLsbD_flag hk, BitVec.getLsbD_zero, h] at this
    simp at this

@[simp] lemma hasFlag_V (pte : Pte) : hasFlag pte PTE_V = pte.getLsbD 0 :=
  hasFlag_shift (by decide) pte

@[simp] lemma hasFlag_R (pte : Pte) : hasFlag pte PTE_R = pte.getLsbD 1 :=
  hasFlag_shift (by decide) pte

@[simp] lemma hasFlag_W (pte : Pte) : hasFlag pte PTE_W = pte.getLsbD 2 :=
  hasFlag_shift (by decide) pte

@[simp] lemma hasFlag_X (pte : Pte) : hasFlag pte PTE_X = pte.getLsbD 3 :=
  hasFlag_shift (by decide) pte

@[simp] lemma hasFlag_U (pte : Pte) : hasFlag pte PTE_U = pte.getLsbD 4 :=
  hasFlag_shift (by decide) pte

@[simp] lemma hasFlag_C (pte : Pte) : hasFlag pte PTE_C = pte.getLsbD 8 :=
  hasFlag_shift (by decide) pte

@[simp] lemma getLsbD_PTE_V (i : Nat) : PTE_V.getLsbD i = decide (i = 0) :=
  getLsbD_flag (by decide) i

@[simp] lemma getLsbD_PTE_R (i : Nat) : PTE_R.getLsbD i = decide (i = 1) :=
  getLsbD_flag (by decide) i

@[simp] lemma getLsbD_PTE_W (i : Nat) : PTE_W.getLsbD i = decide (i = 2) :=
  getLsbD_flag (by decide) i

@[simp] lemma getLsbD_PTE_X (i : Nat) : PTE_X.getLsbD i = decide (i = 3) :=
  getLsbD_flag (by decide) i

@[simp] lemma getLsbD_PTE_U (i : Nat) : PTE_U.getLsbD i = decide (i = 4) :=
  getLsbD_flag (by decide) i

@[simp] lemma getLsbD_PTE_C (i : Nat) : PTE_C.getLsbD i = decide (i = 8) :=
  getLsbD_flag (by decide) i

lemma getLsbD_0x3FF (i : Nat) : (0x3FF#64).getLsbD i = decide (i < 10) := by
  have h : (0x3FF : Nat) = 2 ^ 10 - 1 := by norm_num
  rw [BitVec.getLsbD_ofNat, h, Nat.testBit_two_pow_sub_one]
  by_cases hi : i < 10
  · simp [hi, show i < 64 by omega]
  · simp [hi]

@[simp] lemma getLsbD_pteFlags (pte : Pte) (i : Nat) :
    (pteFlags pte).getLsbD i = (pte.getLsbD i && decide (i < 10)) := by
  rw [pteFlags, BitVec.getLsbD_and, getLsbD_0x3FF]

@[simp] lemma getLsbD_pa2pte_of_lt (pa : Nat) {i : Nat} (hi : i < 10) :
    (pa2pte pa).getLsbD i = false := by
  simp [pa2pte, hi]

/-! ### The page of an entry -/

/-- Only the bits from 10 on say which page an entry refers to. -/
lemma pte2pa_congr {p q : Pte} (h : ∀ i, 10 ≤ i → p.getLsbD i = q.getLsbD i) :
    pte2pa p = pte2pa q := by
  have hs : p >>> 10 = q >>> 10 := by
    apply BitVec.eq_of_getLsbD_eq
    intro i _
    rw [BitVec.getLsbD_ushiftRight, BitVec.getLsbD_ushiftRight, h _ (by omega)]
  rw [pte2pa, pte2pa, hs]

lemma pte2pa_pa2pte {pa : Nat} (hal : pa % PGSIZE = 0) (hlt : pa < 2 ^ 56) :
    pte2pa (pa2pte pa) = pa := by
  simp only [PGSIZE] at hal
  simp only [pte2pa, pa2pte, BitVec.toNat_shiftLeft, BitVec.toNat_ushiftRight,
    BitVec.toNat_ofNat, Nat.shiftLeft_eq, Nat.shiftRight_eq_div_pow]
  omega

/-- An entry made of a page address and flags below bit 10 refers to that page. -/
lemma pte2pa_or_flags {pa : Nat} {f : Pte} (hal : pa % PGSIZE = 0) (hlt : pa < 2 ^ 56)
    (hf : ∀ i, 10 ≤ i → f.getLsbD i = false) : pte2pa (pa2pte pa ||| f) = pa := by
  rw [pte2pa_congr (q := pa2pte pa), pte2pa_pa2pte hal hlt]
  intro i hi
  rw [BitVec.getLsbD_or, hf i hi, Bool.or_false]

lemma pte2pa_mod (pte : Pte) : pte2pa pte % PGSIZE = 0 := by
  simp only [pte2pa, PGSIZE, BitVec.toNat_shiftLeft, Nat.shiftLeft_eq]
  omega

lemma ptePage_eq_some {pte : Pte} {pa : Nat} :
    ptePage pte = some pa ↔ pte.getLsbD 0 = true ∧ pte2pa pte = pa := by
  simp [ptePage]

@[simp] lemma ptePage_zero : ptePage 0#64 = none := by
  simp [ptePage]

/-! ### Rounding -/

lemma pgrounddown_le (a : Nat) : pgrounddown a ≤ a := Nat.div_mul_le_self a PGSIZE

lemma pgrounddown_eq {a : Nat} (h : a % PGSIZE = 0) : pgrounddown a = a :=
  Nat.div_mul_cancel (Nat.dvd_of_mod_eq_zero h)

/-- One page has the same first and last page. -/
lemma pgrounddown_last {a : Nat} (h : a % PGSIZE = 0) (ha : a < MAXVA) :
    pgrounddown ((a + PGSIZE - 1) % 2 ^ 64) = a := by
  simp only [pgrounddown, PGSIZE, MAXVA] at h ha ⊢
  omega

lemma pgroundup_mod (a : Nat) : pgroundup a % PGSIZE = 0 := Nat.mul_mod_left _ _

lemma pgroundup_eq {sz : Nat} (h : sz + PGSIZE ≤ 2 ^ 64) :
    pgroundup sz = (sz + PGSIZE - 1) / PGSIZE * PGSIZE := by
  simp only [PGSIZE] at h
  simp only [pgroundup, PGSIZE]
  rw [Nat.mod_eq_of_lt (by omega)]

lemma px_lt (level va : Nat) : px level va < 512 := Nat.mod_lt _ (by norm_num)

end Xv6
