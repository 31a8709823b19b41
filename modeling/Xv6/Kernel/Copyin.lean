import Xv6.Kernel.BootSpec

/-!
# Copying from user memory

`copyin` and `copyinstr` of `vm.c` go page by page. `readBytes` and `readStr` read the same
addresses one by one; the two have the same result and leave the same bytes in the kernel's
buffer, also where they fail.

The kernel's buffer is given by the bytes written to it so far; it does not overlap user memory or
page tables.
-/

namespace Xv6

open Lib

/-! ### The functions -/

section

variable [Layout]

/-- The loop of `copyin`: the result, and what was written to `dst`. Each turn copies at least one
byte, so `len` turns are enough. -/
def copyinFrom (pagetable : Nat) : Nat → Nat → Nat → PhysM (Int × List UInt8)
  | 0, _, _ => return (0, [])
  | fuel + 1, srcva, len => do
    if len = 0 then return (0, [])
    let va0 := pgrounddown srcva
    let pa0 ← walkaddr pagetable va0
    if pa0 = 0 then return (-1, [])
    let n := min (PGSIZE - (srcva - va0)) len
    let s ← get
    let (res, rest) ← copyinFrom pagetable fuel ((va0 + PGSIZE) % 2 ^ 64) (len - n)
    return (res, s.mem.read (pa0 + (srcva - va0)) n ++ rest)

def copyin (pagetable srcva len : Nat) : PhysM (Int × List UInt8) :=
  copyinFrom pagetable len srcva len

/-- The inner loop of `copyinstr`: whether it came to a NUL, and what it wrote. -/
def copyUntilNul (m : Mem) (p : Nat) : Nat → Bool × List UInt8
  | 0 => (false, [])
  | n + 1 =>
    if m p = 0 then (true, [0])
    else ((copyUntilNul m (p + 1) n).1, m p :: (copyUntilNul m (p + 1) n).2)

/-- The outer loop of `copyinstr`. -/
def copyinstrFrom (pagetable : Nat) : Nat → Nat → Nat → PhysM (Int × List UInt8)
  | 0, _, _ => return (-1, [])
  | fuel + 1, srcva, max => do
    if max = 0 then return (-1, [])
    let va0 := pgrounddown srcva
    let pa0 ← walkaddr pagetable va0
    if pa0 = 0 then return (-1, [])
    let n := min (PGSIZE - (srcva - va0)) max
    let s ← get
    let (gotNull, bytes) := copyUntilNul s.mem (pa0 + (srcva - va0)) n
    if gotNull then
      return (0, bytes)
    else
      let (res, rest) ← copyinstrFrom pagetable fuel ((va0 + PGSIZE) % 2 ^ 64) (max - n)
      return (res, bytes ++ rest)

def copyinstr (pagetable srcva max : Nat) : PhysM (Int × List UInt8) :=
  copyinstrFrom pagetable max srcva max

end

/-! ### Reading byte by byte -/

section

variable {load load' : Nat → Option UInt8} {m : Mem} {va a n k : Nat}

/-- `n` bytes from `va` on, up to the first that cannot be read. -/
def readBytes (load : Nat → Option UInt8) : Nat → Nat → Int × List UInt8
  | _, 0 => (0, [])
  | va, n + 1 =>
    match load va with
    | none => (-1, [])
    | some b => ((readBytes load (va + 1) n).1, b :: (readBytes load (va + 1) n).2)

/-- The bytes from `va` on up to the first NUL among `max` bytes, or up to the first that cannot
be read. -/
def readStr (load : Nat → Option UInt8) : Nat → Nat → Int × List UInt8
  | _, 0 => (-1, [])
  | va, max + 1 =>
    match load va with
    | none => (-1, [])
    | some b =>
      if b = 0 then (0, [0])
      else ((readStr load (va + 1) max).1, b :: (readStr load (va + 1) max).2)

/-- The first NUL from `va` on is `k` bytes further, and all bytes up to it can be read. -/
structure FirstNul (load : Nat → Option UInt8) (va k : Nat) : Prop where
  nul : load (va + k) = some 0
  before : ∀ j < k, ∃ b, load (va + j) = some b ∧ b ≠ 0

lemma readBytes_of_none (h : load va = none) (hn : 0 < n) : readBytes load va n = (-1, []) := by
  obtain ⟨n, rfl⟩ := Nat.exists_eq_succ_of_ne_zero hn.ne'
  rw [readBytes, h]

lemma readStr_of_none (h : load va = none) (n : Nat) : readStr load va n = (-1, []) := by
  cases n with
  | zero => rfl
  | succ n => rw [readStr, h]

/-- The first `n` bytes are in memory one after the other. -/
lemma readBytes_add : ∀ {va a : Nat}, (∀ j < n, load (va + j) = some (m (a + j))) →
    readBytes load va (n + k) = ((readBytes load (va + n) k).1,
      m.read a n ++ (readBytes load (va + n) k).2) := by
  induction n with
  | zero => intro va a _; simp
  | succ n ih =>
    intro va a h
    have hrest : ∀ j < n, load (va + 1 + j) = some (m (a + 1 + j)) := by
      intro j hj
      have := h (j + 1) (by omega)
      rwa [← Nat.add_assoc, ← Nat.add_assoc, Nat.add_right_comm, Nat.add_right_comm a] at this
    have hnext : va + 1 + n = va + (n + 1) := by omega
    have hfirst : load va = some (m a) := h 0 (Nat.succ_pos n)
    rw [Nat.add_right_comm, readBytes, hfirst]
    simp only [ih hrest, Mem.read_succ, List.cons_append, hnext]

/-- The first `n` bytes are in memory one after the other: up to the NUL there, or all of them. -/
lemma readStr_add : ∀ {va a : Nat}, (∀ j < n, load (va + j) = some (m (a + j))) →
    readStr load va (n + k) = if (copyUntilNul m a n).1 then (0, (copyUntilNul m a n).2)
      else ((readStr load (va + n) k).1,
        (copyUntilNul m a n).2 ++ (readStr load (va + n) k).2) := by
  induction n with
  | zero => intro va a _; simp [copyUntilNul]
  | succ n ih =>
    intro va a h
    have hrest : ∀ j < n, load (va + 1 + j) = some (m (a + 1 + j)) := by
      intro j hj
      have := h (j + 1) (by omega)
      rwa [← Nat.add_assoc, ← Nat.add_assoc, Nat.add_right_comm, Nat.add_right_comm a] at this
    have hnext : va + 1 + n = va + (n + 1) := by omega
    have hfirst : load va = some (m a) := h 0 (Nat.succ_pos n)
    rw [Nat.add_right_comm, readStr, hfirst, copyUntilNul]
    by_cases hnul : m a = 0
    · simp [hnul]
    · simp only [hnul, if_false, ih hrest, hnext]
      split_ifs <;> rfl

/-- Reading succeeds exactly if every byte can be read, and then gives these bytes. -/
lemma readBytes_spec (load : Nat → Option UInt8) (n : Nat) : ∀ va,
    ((readBytes load va n).1 = 0 ∨ (readBytes load va n).1 = -1) ∧
    ((readBytes load va n).1 = 0 ↔ ∀ k < n, (load (va + k)).isSome) ∧
    ((readBytes load va n).1 = 0 →
      (readBytes load va n).2.map some = (List.range n).map fun k => load (va + k)) := by
  induction n with
  | zero => intro va; simp [readBytes]
  | succ n ih =>
    intro va
    obtain ⟨hres, hiff, hbytes⟩ := ih (va + 1)
    have hnext : ∀ k, va + 1 + k = va + (k + 1) := fun k => by omega
    simp only [hnext] at hiff hbytes
    cases hload : load va with
    | none =>
      rw [readBytes_of_none hload (Nat.succ_pos n)]
      refine ⟨Or.inr rfl, iff_of_false (by decide) fun hall => ?_, fun hc => absurd hc (by decide)⟩
      have := hall 0 (Nat.succ_pos n)
      rw [Nat.add_zero, hload] at this
      cases this
    | some b =>
      have hfirst : load (va + 0) = some b := hload
      rw [readBytes, hload]
      refine ⟨hres, ?_, fun h0 => ?_⟩
      · rw [Nat.forall_lt_succ_left, hfirst]
        exact hiff.trans (and_iff_right rfl).symm
      · rw [List.range_succ_eq_map, List.map_cons, List.map_cons, List.map_map, hfirst, hbytes h0]
        rfl

lemma readStr_res (load : Nat → Option UInt8) (n : Nat) : ∀ va,
    ((readStr load va n).1 = 0 ∨ (readStr load va n).1 = -1) ∧
      (readStr load va n).2.length ≤ n := by
  induction n with
  | zero => intro va; exact ⟨Or.inr rfl, le_refl _⟩
  | succ n ih =>
    intro va
    unfold readStr
    cases load va with
    | none => exact ⟨Or.inr rfl, Nat.zero_le _⟩
    | some b =>
      simp only
      split_ifs
      · exact ⟨Or.inl rfl, Nat.succ_le_succ (Nat.zero_le n)⟩
      · exact ⟨(ih _).1, Nat.succ_le_succ (ih _).2⟩

lemma firstNul_succ_iff : FirstNul load va (k + 1) ↔
    (∃ b, load va = some b ∧ b ≠ 0) ∧ FirstNul load (va + 1) k := by
  have hnext : ∀ j, va + 1 + j = va + (j + 1) := fun j => by omega
  constructor
  · intro h
    refine ⟨h.before 0 (Nat.succ_pos k), by rw [hnext]; exact h.nul, fun j hj => ?_⟩
    rw [hnext]
    exact h.before (j + 1) (Nat.succ_lt_succ hj)
  · rintro ⟨hfirst, h⟩
    refine ⟨by rw [← hnext]; exact h.nul, ?_⟩
    rintro (_ | j) hj
    · exact hfirst
    · rw [← hnext]
      exact h.before j (Nat.lt_of_succ_lt_succ hj)

/-- A string is read up to its NUL. -/
lemma FirstNul.readStr_eq : ∀ {n va : Nat}, k < n → FirstNul load va k →
    (readStr load va n).1 = 0 ∧
      (readStr load va n).2.map some = (List.range (k + 1)).map fun j => load (va + j) := by
  induction k with
  | zero =>
    intro n va hk h
    obtain ⟨n, rfl⟩ := Nat.exists_eq_succ_of_ne_zero hk.ne'
    have hnul : load va = some 0 := h.nul
    simp [readStr, hnul]
  | succ k ih =>
    intro n va hk h
    obtain ⟨n, rfl⟩ := Nat.exists_eq_succ_of_ne_zero (Nat.ne_of_gt (Nat.zero_lt_of_lt hk))
    obtain ⟨⟨b, hb, hne⟩, hrest⟩ := firstNul_succ_iff.mp h
    obtain ⟨hres, hbytes⟩ := ih (Nat.lt_of_succ_lt_succ hk) hrest
    have hnext : ∀ j, va + 1 + j = va + (j + 1) := fun j => by omega
    simp only [hnext] at hbytes
    have hfirst : load (va + 0) = some b := hb
    rw [readStr, hb]
    simp only [hne, if_false]
    refine ⟨hres, ?_⟩
    rw [List.range_succ_eq_map, List.map_cons, List.map_cons, List.map_map, hfirst, hbytes]
    rfl

/-- Reading a string succeeds only if there is one. -/
lemma exists_firstNul : ∀ {n va : Nat}, (readStr load va n).1 = 0 →
    ∃ k < n, FirstNul load va k := by
  intro n
  induction n with
  | zero =>
    intro va h
    cases h
  | succ n ih =>
    intro va h
    cases hload : load va with
    | none =>
      rw [readStr_of_none hload] at h
      exact absurd h (by decide)
    | some b =>
      by_cases hb : b = 0
      · exact ⟨0, Nat.succ_pos n, by rw [Nat.add_zero, hload, hb], fun j hj => by omega⟩
      · rw [readStr, hload] at h
        simp only [hb, if_false] at h
        obtain ⟨k, hk, hnul⟩ := ih h
        exact ⟨k + 1, Nat.succ_lt_succ hk, firstNul_succ_iff.mpr ⟨⟨b, hload, hb⟩, hnul⟩⟩

/-- What comes after the NUL does not matter. -/
lemma FirstNul.readStr_congr (h : FirstNul load va k) (hk : k < n)
    (hsame : ∀ j ≤ k, load' (va + j) = load (va + j)) : readStr load' va n = readStr load va n := by
  have h' : FirstNul load' va k := by
    refine ⟨by rw [hsame k (le_refl k)]; exact h.nul, fun j hj => ?_⟩
    rw [hsame j hj.le]
    exact h.before j hj
  obtain ⟨hres, hbytes⟩ := h.readStr_eq hk
  obtain ⟨hres', hbytes'⟩ := h'.readStr_eq hk
  apply Prod.ext
  · rw [hres, hres']
  · have hmap : (List.range (k + 1)).map (fun j => load' (va + j))
        = (List.range (k + 1)).map fun j => load (va + j) := by
      apply List.map_congr_left
      intro j hj
      exact hsame j (Nat.lt_succ_iff.mp (List.mem_range.mp hj))
    rw [hmap, ← hbytes] at hbytes'
    exact List.map_injective_iff.mpr (Option.some_injective _) hbytes'

end

/-! ### The pages of a table -/

/-- `va` lies on a page that `walkaddr` finds. -/
def Readable (m : Mem) (r va : Nat) : Prop :=
  va < MAXVA ∧ hasFlag (leafPte m r (va / PGSIZE)) PTE_V = true ∧
    hasFlag (leafPte m r (va / PGSIZE)) PTE_U = true ∧ pte2pa (leafPte m r (va / PGSIZE)) ≠ 0

instance (m : Mem) (r va : Nat) : Decidable (Readable m r va) :=
  inferInstanceAs (Decidable (_ ∧ _))

/-- The byte in memory that `va` stands for. -/
def physByte (m : Mem) (r va : Nat) : UInt8 := m (pte2pa (leafPte m r (va / PGSIZE)) + va % PGSIZE)

def loadByte (m : Mem) (r va : Nat) : Option UInt8 :=
  if Readable m r va then some (physByte m r va) else none

lemma isSome_loadByte {m : Mem} {r va : Nat} : (loadByte m r va).isSome ↔ Readable m r va := by
  unfold loadByte
  split_ifs with h <;> simp [h]

variable [Layout] {E : Panic → Prop} {s : Phys} {r va : Nat} {Q : Nat → Phys → Prop}
  {fuel srcva : Nat}

/-- `walkaddr` on the page that `va` lies on. -/
lemma wp_walkaddr_readable (h : Readable s.mem r va) :
    wp (walkaddr r (pgrounddown va)) E Q s ↔ Q (pte2pa (leafPte s.mem r (va / PGSIZE))) s := by
  obtain ⟨hva, hV, hU, -⟩ := h
  rw [hasFlag_V] at hV
  rw [hasFlag_U] at hU
  rw [wp_walkaddr_user (pgrounddown_lt_MAXVA.mpr hva) (by rw [pgrounddown_div]; exact hV)
    (by rw [pgrounddown_div]; exact hU), pgrounddown_div]

lemma wp_walkaddr_unreadable (h : ¬Readable s.mem r va) :
    wp (walkaddr r (pgrounddown va)) E Q s ↔ Q 0 s := by
  unfold walkaddr
  by_cases hva : va < MAXVA
  swap
  · rw [if_pos (not_lt.mp (mt pgrounddown_lt_MAXVA.mp hva)), wp_pure]
  have hva' := pgrounddown_lt_MAXVA.mpr hva
  rw [if_neg (not_le.mpr hva'), wp_bind, wp_walk_false hva', pgrounddown_div]
  cases ha : leafAddr s.mem r (va / PGSIZE) with
  | none => exact Iff.rfl
  | some a =>
    have hleaf := leafPte_of_leafAddr ha
    simp only [wp_bind, wp_ldPte]
    cases hV : hasFlag (ld64 s.mem a) PTE_V with
    | false => exact Iff.rfl
    | true =>
      cases hU : hasFlag (ld64 s.mem a) PTE_U with
      | false => exact Iff.rfl
      | true =>
        have hpa : pte2pa (ld64 s.mem a) = 0 := by
          by_contra hpa
          rw [← hleaf] at hV hU hpa
          exact h ⟨hva, hV, hU, hpa⟩
        simp only [Bool.not_true, Bool.false_eq_true, if_false, wp_pure, hpa]

omit [Layout] in
/-- Within a page the bytes lie one after the other. -/
lemma loadByte_page (h : Readable s.mem r va) {j : Nat} (hj : va % PGSIZE + j < PGSIZE) :
    loadByte s.mem r (va + j) =
      some (s.mem (pte2pa (leafPte s.mem r (va / PGSIZE)) + va % PGSIZE + j)) := by
  have hdiv : (va + j) / PGSIZE = va / PGSIZE := by
    simp only [PGSIZE] at hj ⊢
    omega
  have hmod : (va + j) % PGSIZE = va % PGSIZE + j := by
    simp only [PGSIZE] at hj ⊢
    omega
  have hlt : va + j < MAXVA := by
    have := h.1
    simp only [PGSIZE, MAXVA] at hj this ⊢
    omega
  have hread : Readable s.mem r (va + j) := ⟨hlt, by rw [hdiv]; exact h.2⟩
  rw [loadByte, if_pos hread, physByte, hdiv, hmod, Nat.add_assoc]

omit [Layout] in
/-- Where a turn of the loops starts and where it ends. -/
lemma page_chunk (h : Readable s.mem r va) (len : Nat) :
    va - pgrounddown va = va % PGSIZE ∧
    (∀ j < min (PGSIZE - va % PGSIZE) len, loadByte s.mem r (va + j) =
      some (s.mem (pte2pa (leafPte s.mem r (va / PGSIZE)) + va % PGSIZE + j))) ∧
    (min (PGSIZE - va % PGSIZE) len < len →
      (pgrounddown va + PGSIZE) % 2 ^ 64 = va + min (PGSIZE - va % PGSIZE) len) := by
  have hlt : va % PGSIZE < PGSIZE := Nat.mod_lt _ (by decide)
  refine ⟨?_, fun j hj => loadByte_page h (by omega), fun hn => ?_⟩
  · simp only [pgrounddown, PGSIZE]
    omega
  · have := h.1
    simp only [pgrounddown, PGSIZE, MAXVA] at hlt this hn ⊢
    omega

lemma wp_copyinFrom : ∀ {va len : Nat}, len ≤ fuel →
    ∀ {Q : Int × List UInt8 → Phys → Prop},
    wp (copyinFrom r fuel va len) E Q s ↔ Q (readBytes (loadByte s.mem r) va len) s := by
  induction fuel with
  | zero =>
    intro va len hlen Q
    rw [Nat.le_zero.mp hlen]
    rfl
  | succ fuel ih =>
    intro va len hlen Q
    unfold copyinFrom
    by_cases h0 : len = 0
    · rw [h0]
      rfl
    rw [if_neg h0, wp_bind]
    by_cases hread : Readable s.mem r va
    swap
    · have hnone : loadByte s.mem r va = none := if_neg hread
      rw [wp_walkaddr_unreadable hread, if_pos rfl, wp_pure,
        readBytes_of_none hnone (Nat.pos_of_ne_zero h0)]
    obtain ⟨hoff, hchunk, hnext⟩ := page_chunk hread len
    have hn : 0 < min (PGSIZE - va % PGSIZE) len := by
      have : va % PGSIZE < PGSIZE := Nat.mod_lt _ (by decide)
      omega
    have hle : min (PGSIZE - va % PGSIZE) len ≤ len := Nat.min_le_right _ _
    rw [wp_walkaddr_readable hread, if_neg hread.2.2.2, hoff]
    simp only [wp_bind, wp_get]
    generalize min (PGSIZE - va % PGSIZE) len = n at hchunk hnext hn hle ⊢
    rw [ih (by omega)]
    have hadd := readBytes_add (k := len - n) hchunk
    rw [Nat.add_sub_cancel' hle] at hadd
    rw [hadd]
    by_cases hall : n < len
    · rw [hnext hall]
      rfl
    · have hzero : len - n = 0 := by omega
      simp only [hzero, readBytes, wp_pure]

lemma wp_copyinstrFrom : ∀ {va max : Nat}, max ≤ fuel →
    ∀ {Q : Int × List UInt8 → Phys → Prop},
    wp (copyinstrFrom r fuel va max) E Q s ↔ Q (readStr (loadByte s.mem r) va max) s := by
  induction fuel with
  | zero =>
    intro va max hmax Q
    rw [Nat.le_zero.mp hmax]
    rfl
  | succ fuel ih =>
    intro va max hmax Q
    unfold copyinstrFrom
    by_cases h0 : max = 0
    · rw [h0]
      rfl
    rw [if_neg h0, wp_bind]
    by_cases hread : Readable s.mem r va
    swap
    · have hnone : loadByte s.mem r va = none := if_neg hread
      rw [wp_walkaddr_unreadable hread, if_pos rfl, wp_pure, readStr_of_none hnone]
    obtain ⟨hoff, hchunk, hnext⟩ := page_chunk hread max
    have hn : 0 < min (PGSIZE - va % PGSIZE) max := by
      have : va % PGSIZE < PGSIZE := Nat.mod_lt _ (by decide)
      omega
    have hle : min (PGSIZE - va % PGSIZE) max ≤ max := Nat.min_le_right _ _
    rw [wp_walkaddr_readable hread, if_neg hread.2.2.2, hoff]
    simp only [wp_bind, wp_get]
    generalize min (PGSIZE - va % PGSIZE) max = n at hchunk hnext hn hle ⊢
    have hadd := readStr_add (k := max - n) hchunk
    rw [Nat.add_sub_cancel' hle] at hadd
    rw [hadd]
    split_ifs
    · rfl
    · rw [wp_bind, ih (by omega)]
      by_cases hall : n < max
      · rw [hnext hall]
        rfl
      · have hzero : max - n = 0 := by omega
        simp only [hzero, readStr, wp_pure]

/-! ### The two functions -/

lemma run_copyin (r srcva len : Nat) (s : Phys) :
    (copyin r srcva len).run s = .ok (readBytes (loadByte s.mem r) srcva len, s) := by
  obtain ⟨a, s', hrun, rfl, rfl⟩ := wp_run
    ((wp_copyinFrom (E := fun _ => False) (r := r) (s := s) (le_refl len)
      (Q := fun a s' => a = readBytes (loadByte s.mem r) srcva len ∧ s' = s)).mpr ⟨rfl, rfl⟩)
  exact hrun

lemma run_copyinstr (r srcva max : Nat) (s : Phys) :
    (copyinstr r srcva max).run s = .ok (readStr (loadByte s.mem r) srcva max, s) := by
  obtain ⟨a, s', hrun, rfl, rfl⟩ := wp_run
    ((wp_copyinstrFrom (E := fun _ => False) (r := r) (s := s) (le_refl max)
      (Q := fun a s' => a = readStr (loadByte s.mem r) srcva max ∧ s' = s)).mpr ⟨rfl, rfl⟩)
  exact hrun

/-- `va` lies on a valid user page below `MAXVA`. -/
def OnUserPage (m : Mem) (r va : Nat) : Prop :=
  va < MAXVA ∧ hasFlag (leafPte m r (va / PGSIZE)) PTE_V = true ∧
    hasFlag (leafPte m r (va / PGSIZE)) PTE_U = true

instance (m : Mem) (r va : Nat) : Decidable (OnUserPage m r va) :=
  inferInstanceAs (Decidable (_ ∧ _))

/-- `len` bytes at `srcva` as `copyin` should read them. -/
structure CopiesIn (s : Phys) (r srcva len : Nat) (res : Int) (dst : List UInt8) : Prop where
  answer : res = 0 ∨ res = -1
  ok : res = 0 ↔ ∀ k < len, OnUserPage s.mem r (srcva + k)
  bytes : res = 0 → dst = (List.range len).map fun k => physByte s.mem r (srcva + k)

/-- The string at `srcva` ends with its byte `k`, and all of it is on user pages. -/
structure StrEnds (s : Phys) (r srcva k : Nat) : Prop where
  pages : ∀ j ≤ k, OnUserPage s.mem r (srcva + j)
  nul : physByte s.mem r (srcva + k) = 0
  before : ∀ j < k, physByte s.mem r (srcva + j) ≠ 0

/-- The string at `srcva` as `copyinstr` should read it. -/
structure CopiesStr (s : Phys) (r srcva max : Nat) (res : Int) (dst : List UInt8) : Prop where
  answer : res = 0 ∨ res = -1
  ok : res = 0 ↔ ∃ k < max, StrEnds s r srcva k
  bytes : ∀ k < max, StrEnds s r srcva k →
    dst = (List.range (k + 1)).map fun j => physByte s.mem r (srcva + j)
  room : dst.length ≤ max
  /-- Another memory with the same bytes up to the NUL gives the same result. -/
  below : ∀ k < max, StrEnds s r srcva k → ∀ s', (∀ j ≤ k, Readable s'.mem r (srcva + j) ∧
    physByte s'.mem r (srcva + j) = physByte s.mem r (srcva + j)) →
    (copyinstr r srcva max).run s' = .ok ((res, dst), s')

omit [Layout] in
/-- A list of bytes that were all read. -/
lemma eq_physBytes {l : List UInt8} {n : Nat}
    (hl : l.map some = (List.range n).map fun k => loadByte s.mem r (srcva + k))
    (hr : ∀ k < n, Readable s.mem r (srcva + k)) :
    l = (List.range n).map fun k => physByte s.mem r (srcva + k) := by
  apply List.map_injective_iff.mpr (Option.some_injective _)
  rw [hl, List.map_map]
  apply List.map_congr_left
  intro k hk
  exact if_pos (hr k (List.mem_range.mp hk))

section

variable {ι κ : Type} [Fintype ι] {roots : ι → Option Nat} {ker : Nat → Option κ} {i : ι}

/-- In the tables that the kernel builds `walkaddr` finds every user page. -/
lemma MemInv.readable_iff (h : MemInv s roots ker) (hr : roots i = some r) :
    Readable s.mem r va ↔ OnUserPage s.mem r va := by
  refine ⟨fun hread => ⟨hread.1, hread.2.1, hread.2.2.1⟩, fun ⟨hva, hV, hU⟩ => ⟨hva, hV, hU, ?_⟩⟩
  rw [hasFlag_V] at hV
  rw [hasFlag_U] at hU
  exact (h.user hr (h.vpn_lt hr hva hU) (ptePage_eq_some.mpr ⟨hV, rfl⟩)).1.pos.ne'

lemma MemInv.strEnds_iff {k : Nat} (h : MemInv s roots ker) (hr : roots i = some r) :
    StrEnds s r srcva k ↔ FirstNul (loadByte s.mem r) srcva k := by
  have hload : ∀ {x b}, loadByte s.mem r x = some b ↔
      OnUserPage s.mem r x ∧ physByte s.mem r x = b := by
    intro x b
    rw [← h.readable_iff hr]
    unfold loadByte
    split_ifs with hx
    · rw [Option.some.injEq, and_iff_right hx]
    · exact iff_of_false nofun fun hc => hx hc.1
  constructor
  · intro h
    exact ⟨hload.mpr ⟨h.pages k (le_refl k), h.nul⟩,
      fun j hj => ⟨_, hload.mpr ⟨h.pages j hj.le, rfl⟩, h.before j hj⟩⟩
  · intro h
    have hbefore : ∀ j < k, OnUserPage s.mem r (srcva + j) ∧ physByte s.mem r (srcva + j) ≠ 0 := by
      intro j hj
      obtain ⟨b, hb, hne⟩ := h.before j hj
      obtain ⟨hr, rfl⟩ := hload.mp hb
      exact ⟨hr, hne⟩
    obtain ⟨hr, hnul⟩ := hload.mp h.nul
    refine ⟨fun j hj => ?_, hnul, fun j hj => (hbefore j hj).2⟩
    rcases Nat.lt_or_eq_of_le hj with hj | rfl
    · exact (hbefore j hj).1
    · exact hr

/-- **Copying in.** `copyin` and `copyinstr` read what reading byte by byte reads, for every table
of the kernel and every address. -/
theorem copyin_copyinstr_bytes (h : MemInv s roots ker) (hr : roots i = some r) (srcva : Nat) :
    (∀ len, ∃ res dst, (copyin r srcva len).run s = .ok ((res, dst), s) ∧
      CopiesIn s r srcva len res dst) ∧
    ∀ max, ∃ res dst, (copyinstr r srcva max).run s = .ok ((res, dst), s) ∧
      CopiesStr s r srcva max res dst := by
  constructor
  · intro len
    refine ⟨_, _, run_copyin r srcva len s, ?_⟩
    obtain ⟨hanswer, hiff, hbytes⟩ := readBytes_spec (loadByte s.mem r) len srcva
    simp only [isSome_loadByte] at hiff
    exact ⟨hanswer, by simpa only [h.readable_iff hr] using hiff,
      fun h0 => eq_physBytes (hbytes h0) (hiff.mp h0)⟩
  · intro max
    refine ⟨_, _, run_copyinstr r srcva max s, ?_⟩
    obtain ⟨hanswer, hroom⟩ := readStr_res (loadByte s.mem r) max srcva
    refine ⟨hanswer, ?_, ?_, hroom, ?_⟩
    · simp only [h.strEnds_iff hr]
      exact ⟨exists_firstNul, fun ⟨k, hk, hnul⟩ => (hnul.readStr_eq hk).1⟩
    · intro k hk hends
      exact eq_physBytes (((h.strEnds_iff hr).mp hends).readStr_eq hk).2
        fun j hj => (h.readable_iff hr).mpr (hends.pages j (Nat.lt_succ_iff.mp hj))
    · intro k hk hends s' hsame
      rw [run_copyinstr, ((h.strEnds_iff hr).mp hends).readStr_congr hk]
      intro j hj
      obtain ⟨hr', hb⟩ := hsame j hj
      rw [loadByte, loadByte, if_pos hr', if_pos ((h.readable_iff hr).mpr (hends.pages j hj)), hb]

end

omit [Layout] in
/-- The first byte of a process. -/
theorem copyin_copyinstr_bytes_first : ∃ (t : Sys) (p : Fin NPROC) (r : Nat) (dst : List UInt8),
    t.roots (some p) = some r ∧ (@copyin builtLayout r 0 1).run t.phys = .ok ((0, dst), t.phys) ∧
      dst = [physByte t.phys.mem r 0] := by
  let := builtLayout
  obtain ⟨t, p, im, ha⟩ := exists_alone
  obtain ⟨ker, hmem, -⟩ := ha.inv.mem
  obtain ⟨r, -, hr, -⟩ := ha.inv.live (p := p) (by simp [ha.state])
  have himage := ha.image
  rw [Sys.image, Proc.image_of_some hr, Option.some.injEq] at himage
  have hpage := ha.page
  rw [← himage, hmem.mayStore_iff (i := some p) hr, mayWrite_iff] at hpage
  obtain ⟨hmax, hV, hU, -⟩ := hpage
  obtain ⟨res, dst, hrun, hcopies⟩ := (copyin_copyinstr_bytes hmem (i := some p) hr 0).1 1
  obtain rfl : res = 0 := hcopies.ok.mpr fun k hk => by
    rw [Nat.lt_one_iff.mp hk]
    exact ⟨hmax, (hasFlag_V _).trans hV, (hasFlag_U _).trans hU⟩
  exact ⟨t, p, r, dst, hr, hrun, hcopies.bytes rfl⟩

end Xv6
