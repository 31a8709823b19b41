import Xv6.Kernel.Vm

/-!
# Page tables as trees

A page table is read off memory: `nodeAt m r path` is the page-table page reached from the page
`r` along a list of indices, and `leafPte m r v` is the leaf entry of virtual page number `v`.
The lemmas below say which of these a write to one page of memory can change.
-/

namespace Xv6

open Lib

/-! ### Words -/

variable {m m' : Mem} {a r v k n q pg : Nat} {p path : List Nat}

@[simp] lemma ld64_st64 (m : Mem) (a : Nat) (v : Pte) : ld64 (st64 m a v) a = v := by
  unfold ld64 st64
  rw [Mem.leNat_store]
  have h := v.isLt
  rw [Nat.mod_eq_of_lt (by omega), BitVec.ofNat_toNat, BitVec.setWidth_eq]

lemma ld64_congr (h : ∀ x, a ≤ x → x < a + 8 → m' x = m x) : ld64 m' a = ld64 m a := by
  unfold ld64
  rw [Mem.leNat_congr h]

lemma ld64_st64_of_ne {b : Nat} {v : Pte} (h : a + 8 ≤ b ∨ b + 8 ≤ a) :
    ld64 (st64 m b v) a = ld64 m a := by
  apply ld64_congr
  intro x hx hx'
  unfold st64
  rcases h with h | h
  · exact Mem.store_apply_of_lt (by omega)
  · exact Mem.store_apply_of_le (by omega)

/-! ### Nodes and leaves -/

/-- The page-table page reached from the page `n` along a list of indices. -/
def nodeAt (m : Mem) (n : Nat) : List Nat → Option Nat
  | []        => some n
  | i :: path => (ptePage (ld64 m (n + 8 * i))).bind fun c => nodeAt m c path

@[simp] lemma nodeAt_nil (m : Mem) (n : Nat) : nodeAt m n [] = some n := rfl

lemma nodeAt_cons (m : Mem) (n i : Nat) (path : List Nat) :
    nodeAt m n (i :: path) = (ptePage (ld64 m (n + 8 * i))).bind fun c => nodeAt m c path := rfl

lemma nodeAt_append (m : Mem) (p q : List Nat) : ∀ n,
    nodeAt m n (p ++ q) = (nodeAt m n p).bind fun c => nodeAt m c q := by
  induction p with
  | nil => intro n; rfl
  | cons i p ih =>
    intro n
    rw [List.cons_append, nodeAt_cons, nodeAt_cons]
    cases ptePage (ld64 m (n + 8 * i)) with
    | none => rfl
    | some c => exact ih c

lemma nodeAt_concat (m : Mem) (p : List Nat) (i n : Nat) :
    nodeAt m n (p ++ [i]) = (nodeAt m n p).bind fun c => ptePage (ld64 m (c + 8 * i)) := by
  rw [nodeAt_append]
  congr 1
  funext c
  rw [nodeAt_cons]
  cases ptePage (ld64 m (c + 8 * i)) <;> rfl

/-- The two upper indices of a virtual page number. -/
def vpnPath (v : Nat) : List Nat := [v / 2 ^ 18 % 512, v / 2 ^ 9 % 512]

/-- The address of the leaf entry of a virtual page number, if its table page exists. -/
def leafAddr (m : Mem) (r v : Nat) : Option Nat :=
  (nodeAt m r (vpnPath v)).map fun n => n + 8 * (v % 512)

/-- The leaf entry of a virtual page number; 0 where there is none. -/
def leafPte (m : Mem) (r v : Nat) : Pte := (leafAddr m r v).elim 0#64 (ld64 m)

lemma leafAddr_eq_some :
    leafAddr m r v = some a ↔ ∃ n, nodeAt m r (vpnPath v) = some n ∧ n + 8 * (v % 512) = a := by
  simp [leafAddr]

lemma leafPte_of_leafAddr (h : leafAddr m r v = some a) : leafPte m r v = ld64 m a := by
  simp [leafPte, h]

lemma leafPte_of_none (h : leafAddr m r v = none) : leafPte m r v = 0#64 := by
  simp [leafPte, h]

/-- An entry that is not 0 lies in a table page that exists. -/
lemma exists_leafAddr (h : leafPte m r v ≠ 0#64) : ∃ a, leafAddr m r v = some a := by
  cases ha : leafAddr m r v with
  | none => exact absurd (leafPte_of_none ha) h
  | some a => exact ⟨a, rfl⟩

/-- A path that `walk` can follow: at most two indices below the root, each below 512. -/
def ValidPath (path : List Nat) : Prop := path.length ≤ 2 ∧ ∀ i ∈ path, i < 512

lemma validPath_nil : ValidPath [] := ⟨by simp, by simp⟩

lemma validPath_vpnPath (v : Nat) : ValidPath (vpnPath v) := by
  refine ⟨by simp [vpnPath], ?_⟩
  intro i hi
  simp only [vpnPath, List.mem_cons, List.not_mem_nil, or_false] at hi
  omega

lemma ValidPath.of_isPrefix (h : ValidPath path) (hp : p <+: path) : ValidPath p :=
  ⟨hp.length_le.trans h.1, fun i hi => h.2 i (hp.subset hi)⟩

lemma ValidPath.concat (h : ValidPath p) (hlen : p.length < 2) (hk : k < 512) :
    ValidPath (p ++ [k]) := by
  refine ⟨by simp; omega, ?_⟩
  intro i hi
  rcases List.mem_append.mp hi with hi | hi
  · exact h.2 i hi
  · rw [List.mem_singleton.mp hi]; exact hk

/-- A virtual page number is determined by its three indices. -/
lemma vpn_ext {w : Nat} (hv : v < 2 ^ 27) (hw : w < 2 ^ 27) (hp : vpnPath v = vpnPath w)
    (hi : v % 512 = w % 512) : v = w := by
  simp only [vpnPath, List.cons.injEq, and_true] at hp
  omega

/-- A word of a lowest table is a leaf entry. -/
lemma exists_leafAddr_eq {e : Nat} (hp : ValidPath p) (hlen : 2 ≤ p.length)
    (hn : nodeAt m r p = some n) (he : e < 512) :
    ∃ v < 2 ^ 27, leafAddr m r v = some (n + 8 * e) := by
  obtain ⟨a, b, rfl⟩ : ∃ a b, p = [a, b] := by
    match p, hp.1, hlen with
    | [a, b], _, _ => exact ⟨a, b, rfl⟩
  have ha : a < 512 := hp.2 a (by simp)
  have hb : b < 512 := hp.2 b (by simp)
  have hpath : vpnPath (a * 2 ^ 18 + b * 2 ^ 9 + e) = [a, b] := by
    simp only [vpnPath, List.cons.injEq, and_true]
    omega
  have hidx : (a * 2 ^ 18 + b * 2 ^ 9 + e) % 512 = e := by omega
  refine ⟨a * 2 ^ 18 + b * 2 ^ 9 + e, by omega, ?_⟩
  rw [leafAddr_eq_some]
  exact ⟨n, by rw [hpath, hn], by rw [hidx]⟩

/-! ### Walking without allocation -/

lemma run_ldPte (a : Nat) (s : Phys) : (ldPte a).run s = .ok (ld64 s.mem a, s) := rfl

lemma px_two (va : Nat) : px 2 va = va / PGSIZE / 2 ^ 18 % 512 := by
  simp only [px, PGSIZE]
  omega

lemma px_one (va : Nat) : px 1 va = va / PGSIZE / 2 ^ 9 % 512 := by
  simp only [px, PGSIZE]
  omega

lemma px_zero (va : Nat) : px 0 va = va / PGSIZE % 512 := by
  simp only [px, PGSIZE]
  omega

lemma run_walkFrom_false [Layout] (va level n : Nat) (s : Phys) :
    (walkFrom va false (level + 1) n).run s
      = match ptePage (ld64 s.mem (n + 8 * px (level + 1) va)) with
        | none => .ok (none, s)
        | some c => (walkFrom va false level c).run s := by
  rw [walkFrom]
  simp only [StateT.run_bind, run_ldPte, ptePage]
  show StateT.run (if _ then _ else _) s = _
  split_ifs <;> rfl

/-- `walk` without allocation is the lookup of the leaf entry's address. -/
lemma run_walk_false [Layout] {va : Nat} (h : va < MAXVA) (s : Phys) :
    (walk r va false).run s = .ok (leafAddr s.mem r (va / PGSIZE), s) := by
  have hwalk : (walk r va false).run s = (walkFrom va false 2 r).run s := by
    rw [walk, panicIf, if_neg (by omega)]
    rfl
  rw [hwalk, run_walkFrom_false, px_two, leafAddr, vpnPath, nodeAt_cons]
  cases ptePage (ld64 s.mem (r + 8 * (va / PGSIZE / 2 ^ 18 % 512))) with
  | none => rfl
  | some c =>
    simp only [Option.bind_some]
    rw [run_walkFrom_false, px_one, nodeAt_cons]
    cases ptePage (ld64 s.mem (c + 8 * (va / PGSIZE / 2 ^ 9 % 512))) with
    | none => rfl
    | some d =>
      simp only [walkFrom, px_zero]
      rfl

/-! ### Writes to one page -/

/-- The two memories agree outside the page at `q`. -/
def SameOutside (m m' : Mem) (q : Nat) : Prop := ∀ x, ¬(q ≤ x ∧ x < q + PGSIZE) → m' x = m x

lemma SameOutside.trans {m'' : Mem} (h : SameOutside m m' q) (h' : SameOutside m' m'' q) :
    SameOutside m m'' q :=
  fun x hx => (h' x hx).trans (h x hx)

lemma SameOutside.page (h : SameOutside m m' q) (hq : q % PGSIZE = 0) (hpg : pg % PGSIZE = 0)
    (hne : pg ≠ q) {o : Nat} (ho : o < PGSIZE) : m' (pg + o) = m (pg + o) := by
  apply h
  simp only [PGSIZE] at hq hpg ho ⊢
  omega

lemma SameOutside.ld64 {i : Nat} (h : SameOutside m m' q) (hq : q % PGSIZE = 0)
    (hn : n % PGSIZE = 0) (hne : n ≠ q) (hi : i < 512) :
    ld64 m' (n + 8 * i) = ld64 m (n + 8 * i) := by
  apply ld64_congr
  intro x hx hx'
  apply h
  simp only [PGSIZE] at hq hn ⊢
  omega

lemma sameOutside_memset (m : Mem) (q : Nat) (c : UInt8) :
    SameOutside m (memset m q c PGSIZE) q := by
  intro x hx
  rw [memset_apply, if_neg hx]

lemma sameOutside_store (ha : q ≤ a) (hn : a + n ≤ q + PGSIZE) :
    SameOutside m (m.store a n v) q := by
  intro x hx
  rcases Nat.lt_or_ge x a with h | h
  · exact Mem.store_apply_of_lt h
  · exact Mem.store_apply_of_le (by omega)

lemma sameOutside_st64 (v : Pte) (hk : k < 512) : SameOutside m (st64 m (n + 8 * k) v) n := by
  unfold st64
  exact sameOutside_store (by omega) (by simp only [PGSIZE]; omega)

lemma sameOutside_write (m : Mem) (bs : List UInt8) (ha : q ≤ a) (hn : a + bs.length ≤ q + PGSIZE) :
    SameOutside m (m.write a bs) q := by
  intro x hx
  rcases Nat.lt_or_ge x a with h | h
  · exact Mem.write_apply_of_lt h
  · exact Mem.write_apply_of_le (by omega)

lemma sameOutside_memmove (m : Mem) (q src : Nat) (hn : n ≤ PGSIZE) :
    SameOutside m (memmove m q src n) q := by
  intro x hx
  rw [memmove_apply, if_neg (by omega)]

/-- A write to a page that is not on the way leaves the node where it is. -/
lemma SameOutside.nodeAt (h : SameOutside m m' q) (hq : q % PGSIZE = 0) :
    ∀ {path : List Nat} {n : Nat}, n % PGSIZE = 0 → (∀ i ∈ path, i < 512) →
      (∀ p, p <+: path → p ≠ path → Xv6.nodeAt m n p ≠ some q) →
      Xv6.nodeAt m' n path = Xv6.nodeAt m n path := by
  intro path
  induction path with
  | nil => intro n _ _ _; rfl
  | cons i path ih =>
    intro n hn hlt hway
    have hne : n ≠ q := by
      have := hway [] (List.nil_prefix) (by simp)
      simpa using this
    rw [nodeAt_cons, nodeAt_cons, h.ld64 hq hn hne (hlt i List.mem_cons_self)]
    cases hc : ptePage (Xv6.ld64 m (n + 8 * i)) with
    | none => rfl
    | some c =>
      have hcmod : c % PGSIZE = 0 := by
        rw [← (ptePage_eq_some.mp hc).2]
        exact pte2pa_mod _
      apply ih hcmod (fun j hj => hlt j (List.mem_cons_of_mem i hj))
      intro p hp hne' hnode
      apply hway (i :: p) (by rw [List.cons_prefix_cons]; exact ⟨rfl, hp⟩) (by simpa using hne')
      rw [nodeAt_cons, hc]
      exact hnode

/-! ### A page of zeros -/

/-- A table page without entries. -/
def EmptyNode (m : Mem) (c : Nat) : Prop := ∀ k < 512, ld64 m (c + 8 * k) = 0#64

lemma emptyNode_of_zero (hzero : ∀ x, pg ≤ x → x < pg + PGSIZE → m x = 0) : EmptyNode m pg := by
  intro k hk
  unfold ld64
  rw [Mem.leNat_eq_zero]
  intro x hx hx'
  simp only [PGSIZE] at hzero
  exact hzero x (by omega) (by omega)

lemma emptyNode_memset (m : Mem) (pg : Nat) : EmptyNode (memset m pg 0 PGSIZE) pg := by
  apply emptyNode_of_zero
  intro x hx hx'
  rw [memset_apply, if_pos ⟨hx, hx'⟩]

lemma EmptyNode.nodeAt (h : EmptyNode m pg) {l : Nat} (hl : l < 512) :
    Xv6.nodeAt m pg (l :: path) = none := by
  rw [nodeAt_cons, h l hl, ptePage_zero]
  rfl

lemma EmptyNode.leafPte (h : EmptyNode m pg) (v : Nat) : Xv6.leafPte m pg v = 0#64 := by
  apply leafPte_of_none
  rw [leafAddr, vpnPath, h.nodeAt (Nat.mod_lt _ (by norm_num))]
  rfl

end Xv6
