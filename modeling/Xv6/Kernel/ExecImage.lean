import Xv6.Kernel.Exec
import Xv6.Kernel.AddrSpace

/-!
# The image that `exec` builds

What `exec` does to the new address space, as functions of that address space alone: the program
headers as the loop reads them, the segments, and the arguments on the stack. They fail where the
code goes to `bad` for a reason other than memory.
-/

namespace Xv6

open Function Lib

namespace AddrSpace

variable {A A' : AddrSpace}

/-- The bytes `bs` stand from address `a` on, whatever the process may do with the pages. -/
def put (A : AddrSpace) (a : Nat) (bs : List UInt8) : AddrSpace := fun v =>
  (A v).map fun pg =>
    { pg with bytes := fun o => Mem.write (fun _ => pg.bytes o) a bs (v * PGSIZE + o) }

/-- The process may no longer use page `v`. -/
def hide (A : AddrSpace) (v : Nat) : AddrSpace :=
  update A v ((A v).map fun pg => { pg with user := false })

lemma byte_put (A : AddrSpace) (a : Nat) (bs : List UInt8) (x : Nat) :
    (A.put a bs).byte x = (A.byte x).map fun b => Mem.write (fun _ => b) a bs x := by
  unfold byte put
  cases A (x / PGSIZE) with
  | none => rfl
  | some pg =>
    simp only [Option.map_some]
    rw [Nat.div_add_mod']

lemma put_nil (A : AddrSpace) (a : Nat) : A.put a [] = A := by
  funext v
  unfold put
  simp only [Mem.write_nil]
  exact Option.map_id'

lemma put_append (A : AddrSpace) (a : Nat) (bs cs : List UInt8) :
    A.put a (bs ++ cs) = (A.put a bs).put (a + bs.length) cs := by
  funext v
  unfold put
  rw [Option.map_map]
  congr 1
  funext pg
  simp only [comp, UPage.mk.injEq, true_and]
  funext o
  rw [Mem.write_append]
  exact Mem.write_apply_congr rfl _ _

lemma isSome_put (A : AddrSpace) (a : Nat) (bs : List UInt8) (v : Nat) :
    (A.put a bs v).isSome = (A v).isSome := by
  unfold put
  rw [Option.isSome_map]

lemma isSome_hide (A : AddrSpace) (u v : Nat) : (A.hide u v).isSome = (A v).isSome := by
  unfold hide
  by_cases hv : v = u
  · rw [hv, update_self, Option.isSome_map]
  · rw [update_of_ne hv]

lemma grow_self (A : AddrSpace) (a : Nat) (xperm : Pte) : A.grow a a xperm = A := by
  funext v
  exact if_neg (by omega)

/-- Stores leave the pages alone that they do not reach. -/
lemma stores_of_ne {u : Nat} (bs : List UInt8) : ∀ (A : AddrSpace) (va : Nat),
    va + bs.length ≤ 2 ^ 64 → (∀ k < bs.length, (va + k) / PGSIZE ≠ u) →
      A.stores va bs u = A u := by
  induction bs with
  | nil =>
    intro A va _ _
    rfl
  | cons b bs ih =>
    intro A va hva hne
    rw [List.length_cons] at hva hne
    unfold stores
    cases hst : A.store va b with
    | none => rfl
    | some A' =>
      have hsame : A' u = A u := by
        obtain ⟨-, pg, -, -, -, rfl⟩ := store_eq_some hst
        exact update_of_ne (hne 0 (Nat.succ_pos _)).symm _ _
      cases bs with
      | nil => exact hsame
      | cons b' bs =>
        rw [List.length_cons] at hva
        simp only
        rw [Nat.mod_eq_of_lt (by omega)]
        refine (ih A' (va + 1) (by rw [List.length_cons]; omega) fun k hk => ?_).trans hsame
        have := hne (k + 1) (by omega)
        rwa [Nat.add_comm k 1, ← Nat.add_assoc] at this

/-- What is read after stores that were all accepted. -/
lemma load_stores (bs : List UInt8) : ∀ {A : AddrSpace} {va : Nat}, va + bs.length ≤ 2 ^ 64 →
    A.Accepts va bs.length → ∀ x, (A.stores va bs).load x
      = if va ≤ x ∧ x < va + bs.length then bs[x - va]? else A.load x := by
  induction bs with
  | nil =>
    intro A va _ _ x
    rw [if_neg (by rw [List.length_nil]; omega)]
    rfl
  | cons b bs ih =>
    intro A va hva hacc x
    rw [List.length_cons] at hva hacc ⊢
    obtain ⟨A', hst⟩ := Option.ne_none_iff_exists'.mp
      (mt (store_eq_none_iff (b := b)).mp (not_not_intro hacc.1))
    unfold stores
    rw [hst]
    simp only
    cases bs with
    | nil =>
      show A'.load x = _
      rw [load_store hst]
      by_cases hx : x = va
      · rw [if_pos hx, if_pos (by simp only [List.length_nil]; omega), hx, Nat.sub_self]
        rfl
      · rw [if_neg hx, if_neg (by simp only [List.length_nil]; omega)]
    | cons b' bs =>
      rw [List.length_cons] at hva
      have hacc' := (accepts_store_iff hst).mpr hacc.2
      rw [Nat.mod_eq_of_lt (by omega)] at hacc' ⊢
      rw [ih (by rw [List.length_cons]; omega) hacc', load_store hst]
      simp only [List.length_cons]
      by_cases hx : x = va
      · rw [if_neg (by omega), if_pos hx, if_pos (by omega), hx, Nat.sub_self]
        rfl
      · rw [if_neg hx]
        by_cases hin : va + 1 ≤ x ∧ x < va + 1 + (bs.length + 1)
        · rw [if_pos hin, if_pos (by omega), show x - va = x - (va + 1) + 1 by omega]
          rfl
        · rw [if_neg hin, if_neg (by omega)]

/-- A page that the process may write takes what fits in it. -/
lemma accepts_of_page {pg : UPage} {v va n : Nat} (hpg : A v = some pg) (hU : pg.user = true)
    (hW : pg.writable = true) (hlo : v * PGSIZE ≤ va) (hhi : va + n ≤ (v + 1) * PGSIZE)
    (hmax : (v + 1) * PGSIZE ≤ MAXVA) (hn : 0 < n) : A.Accepts va n := by
  have hlt : va + n ≤ 2 ^ 64 := by
    simp only [MAXVA] at hmax
    omega
  rw [accepts_iff (by omega)]
  intro k hk
  rw [Nat.mod_eq_of_lt (by omega)]
  have hdiv : (va + k) / PGSIZE = v := by
    simp only [PGSIZE] at hlo hhi ⊢
    omega
  exact ⟨by omega, pg, by rw [hdiv]; exact hpg, hU, hW⟩

end AddrSpace

/-! ### Reading the file -/

/-- The program headers, `n` of them from offset `off` on, as the loop of `exec` reads them. -/
def readHeaders (file : List UInt8) : Nat → Nat → Option (List Proghdr)
  | 0, _ => some []
  | n + 1, off =>
    let b := readi file off sizeofProghdr
    if b.length ≠ sizeofProghdr then none
    else (readHeaders file n ((off + sizeofProghdr) % 2 ^ 32)).map (Proghdr.ofBytes b :: ·)

/-- What the loop of `loadseg` reads, if every turn reads as much as it asks for. -/
def readSegment (file : List UInt8) (offset sz : Nat) : Nat → Nat → Option (List UInt8)
  | 0, _ => some []
  | n + 1, i =>
    let m := if sz - i < PGSIZE then sz - i else PGSIZE
    let bytes := readi file ((offset + i) % 2 ^ 32) m
    if bytes.length ≠ m then none
    else (readSegment file offset sz n (i + PGSIZE)).map (bytes ++ ·)

/-- One program header: the size and the memory after it. -/
def refSegment (file : List UInt8) (ph : Proghdr) (sz : Nat) (A : AddrSpace) :
    Option (Nat × AddrSpace) :=
  if ph.type ≠ ELF_PROG_LOAD then some (sz, A)
  else if ph.memsz < ph.filesz then none
  else if (ph.vaddr + ph.memsz) % 2 ^ 64 < ph.vaddr then none
  else if ph.vaddr % PGSIZE ≠ 0 then none
  else
    let sz1 := max ((ph.vaddr + ph.memsz) % 2 ^ 64) sz
    if sz1 = 0 then none
    else
      (readSegment file (ph.off % 2 ^ 32) (ph.filesz % 2 ^ 32)
        ((ph.filesz % 2 ^ 32 + PGSIZE - 1) / PGSIZE) 0).map fun bytes =>
          (sz1, (A.grow (pages sz) (pages sz1) (flags2perm ph.flags)).put ph.vaddr bytes)

/-- The program headers one after the other. -/
def refSegments (file : List UInt8) : List Proghdr → Nat → AddrSpace → Option (Nat × AddrSpace)
  | [], sz, A => some (sz, A)
  | ph :: phs, sz, A => (refSegment file ph sz A).bind fun x => refSegments file phs x.1 x.2

/-! ### The stack -/

open Classical in
/-- Push the argument strings: the stack pointer, `ustack` and the memory. -/
noncomputable def refPush (stackbase : Nat) : List (List UInt8) → Nat → List Nat → AddrSpace →
    Option (Nat × List Nat × AddrSpace)
  | [], sp, ustack, A => some (sp, ustack, A)
  | arg :: argv, sp, ustack, A =>
    if ustack.length ≥ MAXARG then none
    else
      let sp := pushSp sp (arg.length + 1)
      if sp < stackbase then none
      else if A.Accepts sp (arg.length + 1) then
        refPush stackbase argv sp (ustack ++ [sp]) (A.stores sp (arg ++ [0]))
      else none

open Classical in
/-- The arguments on a stack that ends at `sz`: the stack pointer and the memory. -/
noncomputable def refStack (argv : List (List UInt8)) (sz : Nat) (A : AddrSpace) :
    Option (Nat × AddrSpace) :=
  match refPush (sz - PGSIZE) argv sz [] A with
  | none => none
  | some (sp, ustack, A) =>
    let ustack := ustack ++ [0]
    let sp := pushSp sp (ustack.length * 8)
    if sp < sz - PGSIZE then none
    else if A.Accepts sp (ustack.flatMap (leBytes 8)).length then
      some (sp, A.stores sp (ustack.flatMap (leBytes 8)))
    else none

end Xv6
