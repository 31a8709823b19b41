import Xv6.Kernel.PageTable
import Xv6.Lib.RefCount

/-!
# Who owns a physical page

Every page that the allocator manages has one owner: it is on the free list, it is mapped by
user page tables, it is a node of one page table, or the kernel holds it for some purpose. The
assignment `own` is a ghost: since it is a function, two owners of one page cannot be stated,
and the separation of tables, data and free pages needs no further side conditions.

A family of page tables is given by their roots, `roots : ι → Option Nat`.
-/

namespace Xv6

open Function Lib

variable {m'' : Mem} {r q v t n pg k : Nat} {w : Pte} {p : List Nat}

inductive Owner (ι κ : Type) where
  | free
  | user
  | node (i : ι) (path : List Nat)
  | kernel (k : κ)

/-- A page that one party holds for itself: a node, or a page of the kernel. -/
def Owner.Pinned {ι κ : Type} (o : Owner ι κ) : Prop :=
  (∃ i path, o = .node i path) ∨ ∃ k, o = .kernel k

/-- The number of virtual pages below `TRAPFRAME`. -/
def NUSER : Nat := TRAPFRAME / PGSIZE

variable {ι κ : Type} {i j : ι} {o : Owner ι κ} {own' : Nat → Owner ι κ}

/-- The physical page that a user leaf of one of the tables refers to. -/
def userSlots (m : Mem) (roots : ι → Option Nat) (h : ι × Fin NUSER) : Option Nat :=
  (roots h.1).bind fun r => ptePage (leafPte m r h.2)

/-- The number of user leaves, over all tables, that refer to a page. -/
def mapCount [Fintype ι] (m : Mem) (roots : ι → Option Nat) (pg : Nat) : Nat :=
  refCount (userSlots m roots) pg

/-- An entry of an upper table: empty, or a pointer to a page with no flag but `PTE_V`. -/
def EntryOk (w : Pte) : Prop := w = 0#64 ∨ ∃ c, c % PGSIZE = 0 ∧ c < 2 ^ 56 ∧ w = pa2pte c ||| PTE_V

/-- An entry of a lowest table: empty, or valid and readable. -/
def LeafOk (w : Pte) : Prop := w = 0#64 ∨ w.getLsbD 0 = true ∧ w.getLsbD 1 = true

/-! ### Memories in which the tables read the same -/

section Same

variable {m m' : Mem} {roots : ι → Option Nat} {own : Nat → Owner ι κ}

/-- The tables read the same in both memories. -/
structure SameTables (m m' : Mem) (roots : ι → Option Nat) : Prop where
  node : ∀ {i r path}, roots i = some r → ValidPath path → nodeAt m' r path = nodeAt m r path
  word : ∀ {i r path n k}, roots i = some r → ValidPath path → nodeAt m r path = some n →
    k < 512 → ld64 m' (n + 8 * k) = ld64 m (n + 8 * k)

lemma SameTables.trans (h : SameTables m m' roots) (h' : SameTables m' m'' roots) :
    SameTables m m'' roots := by
  refine ⟨fun hr hp => (h'.node hr hp).trans (h.node hr hp), ?_⟩
  intro i r path n k hr hp hn hk
  rw [h'.word hr hp (by rw [h.node hr hp, hn]) hk, h.word hr hp hn hk]

lemma SameTables.leafAddr (h : SameTables m m' roots) (hr : roots i = some r) (v : Nat) :
    Xv6.leafAddr m' r v = Xv6.leafAddr m r v := by
  rw [Xv6.leafAddr, Xv6.leafAddr, h.node hr (validPath_vpnPath v)]

lemma SameTables.leafPte (h : SameTables m m' roots) (hr : roots i = some r) (v : Nat) :
    Xv6.leafPte m' r v = Xv6.leafPte m r v := by
  cases ha : Xv6.leafAddr m r v with
  | none => rw [leafPte_of_none ha, leafPte_of_none ((h.leafAddr hr v).trans ha)]
  | some a =>
    rw [leafPte_of_leafAddr ha, leafPte_of_leafAddr ((h.leafAddr hr v).trans ha)]
    obtain ⟨n, hn, rfl⟩ := leafAddr_eq_some.mp ha
    exact h.word hr (validPath_vpnPath v) hn (Nat.mod_lt v (by norm_num))

/-- The leaves read the same in both memories. -/
def SameLeaves (m m' : Mem) (roots : ι → Option Nat) : Prop :=
  ∀ ⦃i r⦄, roots i = some r → ∀ v, Xv6.leafPte m' r v = Xv6.leafPte m r v

lemma SameTables.leaves (h : SameTables m m' roots) : SameLeaves m m' roots :=
  fun _ _ hr v => h.leafPte hr v

lemma SameLeaves.trans (h : SameLeaves m m' roots) (h' : SameLeaves m' m'' roots) :
    SameLeaves m m'' roots :=
  fun _ _ hr v => (h' hr v).trans (h hr v)

lemma SameLeaves.userSlots (h : SameLeaves m m' roots) :
    Xv6.userSlots m' roots = Xv6.userSlots m roots :=
  funext fun _ => Option.bind_congr fun _ hr => by rw [h hr]

lemma SameLeaves.mapCount [Fintype ι] (h : SameLeaves m m' roots) :
    Xv6.mapCount m' roots = Xv6.mapCount m roots := by
  funext pg
  rw [Xv6.mapCount, Xv6.mapCount, h.userSlots]

/-- The same assignment of nodes, whatever becomes of the other pages. -/
def SameNodes (own own' : Nat → Owner ι κ) : Prop :=
  ∀ pg i path, own' pg = .node i path ↔ own pg = .node i path

lemma SameNodes.refl (own : Nat → Owner ι κ) : SameNodes own own := fun _ _ _ => Iff.rfl

lemma sameNodes_update (h : ∀ i path, own q ≠ .node i path) (h' : ∀ i path, o ≠ .node i path) :
    SameNodes own (update own q o) := by
  intro pg i path
  by_cases hpg : pg = q
  · subst hpg
    rw [update_self]
    exact iff_of_false (h' i path) (h i path)
  · rw [update_of_ne hpg]

/-- The tables read the same in both memories but for one leaf, which is now `w`. -/
structure LeafWrite (m m' : Mem) (roots : ι → Option Nat) (i : ι) (v : Nat) (w : Pte) :
    Prop where
  node : ∀ {j r path}, roots j = some r → ValidPath path → nodeAt m' r path = nodeAt m r path
  word : ∀ {j r path n k}, roots j = some r → ValidPath path → path.length < 2 →
    nodeAt m r path = some n → k < 512 → ld64 m' (n + 8 * k) = ld64 m (n + 8 * k)
  leaf : ∀ {r}, roots i = some r → leafPte m' r v = w
  other : ∀ {j r u}, roots j = some r → u < 2 ^ 27 → (j, u) ≠ (i, v) →
    leafPte m' r u = leafPte m r u

lemma LeafWrite.leafAddr (h : LeafWrite m m' roots i v w) (hr : roots j = some r) (u : Nat) :
    Xv6.leafAddr m' r u = Xv6.leafAddr m r u := by
  rw [Xv6.leafAddr, Xv6.leafAddr, h.node hr (validPath_vpnPath u)]

end Same

section

variable [Layout]

/-- The nodes of the tables are where `own` says, each at one place of one table; nothing is said
about the leaves. -/
structure NodeInv (m : Mem) (roots : ι → Option Nat) (own : Nat → Owner ι κ) : Prop where
  node : ∀ {i r path pg}, roots i = some r → ValidPath path → nodeAt m r path = some pg →
    IsPage pg ∧ own pg = .node i path
  covered : ∀ {pg i path}, IsPage pg → own pg = .node i path →
    ValidPath path ∧ ∃ r, roots i = some r ∧ nodeAt m r path = some pg
  entry : ∀ {i r path n k}, roots i = some r → ValidPath path → path.length < 2 →
    nodeAt m r path = some n → k < 512 → EntryOk (ld64 m (n + 8 * k))

/-- The nodes are where `own` says, and the leaves are readable. -/
structure TableInv (m : Mem) (roots : ι → Option Nat) (own : Nat → Owner ι κ) : Prop
    extends NodeInv m roots own where
  leaf : ∀ {i r v}, roots i = some r → v < 2 ^ 27 → LeafOk (leafPte m r v)

/-- The free list, the reference counts and the user leaves agree with `own`. -/
structure PageInv [Fintype ι] (s : Phys) (roots : ι → Option Nat) (own : Nat → Owner ι κ) :
    Prop where
  nodup : s.freelist.Nodup
  free : ∀ {pg}, pg ∈ s.freelist ↔ IsPage pg ∧ own pg = .free
  user : ∀ {i r v pg}, roots i = some r → v < NUSER → ptePage (leafPte s.mem r v) = some pg →
    IsPage pg ∧ own pg = .user
  mapped : ∀ {pg}, IsPage pg → own pg = .user →
    0 < mapCount s.mem roots pg ∧ s.pgRefcnt pg = mapCount s.mem roots pg
  held : ∀ {pg}, IsPage pg → (own pg).Pinned → s.pgRefcnt pg = 1
  /-- A page with a writable leaf is mapped once. -/
  writable : ∀ {i r v}, roots i = some r → v < NUSER → (leafPte s.mem r v).getLsbD 0 = true →
    (leafPte s.mem r v).getLsbD 2 = true → mapCount s.mem roots (pte2pa (leafPte s.mem r v)) = 1
  /-- One table maps a page at most once. -/
  inj : ∀ {i r v u pg}, roots i = some r → v < NUSER → u < NUSER →
    ptePage (leafPte s.mem r v) = some pg → ptePage (leafPte s.mem r u) = some pg → v = u
  /-- From `TRAPFRAME` up nothing is user memory. -/
  top : ∀ {i r v}, roots i = some r → NUSER ≤ v → v < 2 ^ 27 →
    (leafPte s.mem r v).getLsbD 4 = false

structure PhysInv [Fintype ι] (s : Phys) (roots : ι → Option Nat) (own : Nat → Owner ι κ) :
    Prop where
  tables : TableInv s.mem roots own
  pages : PageInv s roots own

/-! ### Nodes -/

section Tables

variable {m m' : Mem} {roots : ι → Option Nat} {own : Nat → Owner ι κ}

section

variable (h : NodeInv m roots own)
include h

lemma NodeInv.isPage_root (hr : roots i = some r) : IsPage r ∧ own r = .node i [] :=
  h.node hr validPath_nil (nodeAt_nil m r)

/-- A page is a node at one place only. -/
lemma NodeInv.node_unique {q : List Nat} (hr : roots i = some r) (ht : roots j = some t)
    (hp : ValidPath p) (hq : ValidPath q) (hn : nodeAt m r p = some n) (hn' : nodeAt m t q = some n) :
    i = j ∧ p = q := by
  have h1 := (h.node hr hp hn).2
  have h2 := (h.node ht hq hn').2
  rw [h1] at h2
  simpa using h2

/-- A write to a page that is no node of the tables is not seen by them. -/
lemma NodeInv.sameTables (hm : SameOutside m m' q) (hq : q % PGSIZE = 0)
    (hown : ∀ i r, roots i = some r → ∀ path, own q ≠ .node i path) : SameTables m m' roots := by
  constructor
  · intro i r path hr hp
    apply hm.nodeAt hq (h.isPage_root hr).1.1 hp.2
    intro p hpre _ hn
    exact hown i r hr p (h.node hr (hp.of_isPrefix hpre) hn).2
  · intro i r path n k hr hp hn hk
    obtain ⟨hpage, ho⟩ := h.node hr hp hn
    apply hm.ld64 hq hpage.1 _ hk
    rintro rfl
    exact hown i r hr path ho

/-- The nodes are at the same places and the upper tables have the same entries. -/
lemma NodeInv.congr (ho : SameNodes own own')
    (hnode : ∀ {i r path}, roots i = some r → ValidPath path → nodeAt m' r path = nodeAt m r path)
    (hword : ∀ {i r path n k}, roots i = some r → ValidPath path → path.length < 2 →
      nodeAt m r path = some n → k < 512 → ld64 m' (n + 8 * k) = ld64 m (n + 8 * k)) :
    NodeInv m' roots own' := by
  constructor
  · intro i r path pg hr hp hn
    rw [hnode hr hp] at hn
    obtain ⟨h1, h2⟩ := h.node hr hp hn
    exact ⟨h1, (ho pg i path).mpr h2⟩
  · intro pg i path hpg hown
    obtain ⟨hp, r, hr, hn⟩ := h.covered hpg ((ho pg i path).mp hown)
    exact ⟨hp, r, hr, (hnode hr hp).trans hn⟩
  · intro i r path n k hr hp hlen hn hk
    rw [hnode hr hp] at hn
    rw [hword hr hp hlen hn hk]
    exact h.entry hr hp hlen hn hk

/-! ### Writing a leaf -/

lemma NodeInv.leafWrite {a : Nat} (hr : roots i = some r) (hv : v < 2 ^ 27)
    (ha : leafAddr m r v = some a) (w : Pte) : LeafWrite m (st64 m a w) roots i v w := by
  obtain ⟨n, hn, rfl⟩ := leafAddr_eq_some.mp ha
  have hidx : v % 512 < 512 := Nat.mod_lt v (by norm_num)
  have hpv := validPath_vpnPath v
  obtain ⟨hpage, hown⟩ := h.node hr hpv hn
  have hout : SameOutside m (st64 m (n + 8 * (v % 512)) w) n := sameOutside_st64 w hidx
  -- a node above the lowest level is not the page written to
  have hnode : ∀ {j t path}, roots j = some t → ValidPath path →
      nodeAt (st64 m (n + 8 * (v % 512)) w) t path = nodeAt m t path := by
    intro j t path ht hp
    apply hout.nodeAt hpage.1 (h.isPage_root ht).1.1 hp.2
    intro p hpre hne hpn
    have heq := (h.node_unique ht hr (hp.of_isPrefix hpre) hpv hpn hn).2
    have hlt : p.length < path.length := by
      rcases Nat.lt_or_ge p.length path.length with hlt | hge
      · exact hlt
      · exact absurd (hpre.eq_of_length_le hge) hne
    have : p.length = 2 := by rw [heq]; rfl
    have := hp.1
    omega
  refine ⟨hnode, ?_, ?_, ?_⟩
  · intro j t path c k ht hp hlen hc hk
    apply hout.ld64 hpage.1 (h.node ht hp hc).1.1 _ hk
    rintro rfl
    have heq := (h.node_unique ht hr hp hpv hc hn).2
    rw [heq] at hlen
    simp [vpnPath] at hlen
  · intro t ht
    rw [hr, Option.some.injEq] at ht
    subst ht
    have haddr : leafAddr (st64 m (n + 8 * (v % 512)) w) r v = some (n + 8 * (v % 512)) := by
      rw [leafAddr, hnode hr hpv, hn]
      rfl
    rw [leafPte_of_leafAddr haddr, ld64_st64]
  · intro j t u ht hu hne
    have hpu := validPath_vpnPath u
    have haddr : leafAddr (st64 m (n + 8 * (v % 512)) w) t u = leafAddr m t u := by
      rw [leafAddr, leafAddr, hnode ht hpu]
    cases hau : leafAddr m t u with
    | none => rw [leafPte_of_none hau, leafPte_of_none (haddr.trans hau)]
    | some b =>
      rw [leafPte_of_leafAddr hau, leafPte_of_leafAddr (haddr.trans hau)]
      obtain ⟨c, hc, rfl⟩ := leafAddr_eq_some.mp hau
      by_cases hcn : c = n
      · subst hcn
        obtain ⟨rfl, hpath⟩ := h.node_unique ht hr hpu hpv hc hn
        have hmod : u % 512 ≠ v % 512 := by
          intro hmod
          exact hne (by rw [vpn_ext hu hv hpath hmod])
        apply ld64_st64_of_ne
        omega
      · exact hout.ld64 hpage.1 (h.node ht hpu hc).1.1 hcn (Nat.mod_lt u (by norm_num))

/-! ### Adding and removing nodes -/

end

lemma ptePage_pointer (hpg : IsPage pg) : ptePage (pa2pte pg ||| PTE_V) = some pg := by
  rw [ptePage_eq_some]
  refine ⟨by simp, pte2pa_or_flags hpg.1 hpg.lt_two_pow ?_⟩
  intro i hi
  rw [getLsbD_PTE_V, decide_eq_false_iff_not]
  omega

section

variable (h : NodeInv m roots own) (hr : roots i = some r) (hp : ValidPath p)
include h hr hp

/-- Where the nodes are after entry `k` of the node at `p` is overwritten, if what it referred to
and what it refers to now are empty tables. -/
lemma NodeInv.nodeAt_setEntry (hn : nodeAt m r p = some n) (hk : k < 512)
    (hold : ∀ c, ptePage (ld64 m (n + 8 * k)) = some c → EmptyNode m c)
    (hnew : ∀ c, ptePage w = some c → c % PGSIZE = 0 ∧ c ≠ n ∧ EmptyNode m c)
    (ht : roots j = some t) (path : List Nat) (hpath : ValidPath path) :
    ((j, path) = (i, p ++ [k]) → nodeAt (st64 m (n + 8 * k) w) t path = ptePage w) ∧
    ((j, path) ≠ (i, p ++ [k]) → nodeAt (st64 m (n + 8 * k) w) t path = nodeAt m t path) := by
  obtain ⟨hnpage, hnown⟩ := h.node hr hp hn
  have hout : SameOutside m (st64 m (n + 8 * k) w) n := sameOutside_st64 _ hk
  induction path using List.reverseRecOn with
  | nil => exact ⟨fun he => by simp at he, fun _ => rfl⟩
  | append_singleton q l ih =>
    have hq : ValidPath q := hpath.of_isPrefix (List.prefix_append q [l])
    have hl : l < 512 := hpath.2 l (by simp)
    obtain ⟨ih1, ih2⟩ := ih hq
    by_cases hbelow : (j, q) = (i, p ++ [k])
    · -- below the entry there is nothing, before and after
      obtain ⟨rfl, rfl⟩ := Prod.mk.inj hbelow
      rw [hr, Option.some.injEq] at ht
      subst ht
      refine ⟨fun he => ?_, fun _ => ?_⟩
      · have := congrArg (fun x => x.2.length) he
        simp at this
      · have h1 : nodeAt m r (p ++ [k] ++ [l]) = none := by
          rw [nodeAt_concat, nodeAt_concat, hn, Option.bind_some]
          cases hc : ptePage (ld64 m (n + 8 * k)) with
          | none => rw [Option.bind_none]
          | some c => rw [Option.bind_some, hold c hc l hl, ptePage_zero]
        rw [h1, nodeAt_concat, ih1 rfl]
        cases hc : ptePage w with
        | none => rw [Option.bind_none]
        | some c =>
          obtain ⟨hmod, hne, hzero⟩ := hnew c hc
          rw [Option.bind_some, hout.ld64 hnpage.1 hmod hne hl, hzero l hl, ptePage_zero]
    · rw [nodeAt_concat, nodeAt_concat, ih2 hbelow]
      cases hc : nodeAt m t q with
      | none =>
        rw [Option.bind_none, Option.bind_none]
        refine ⟨fun he => ?_, fun _ => rfl⟩
        obtain ⟨rfl, hqk⟩ := Prod.mk.inj he
        obtain ⟨rfl, -⟩ := List.append_inj' hqk rfl
        rw [hr, Option.some.injEq] at ht
        subst ht
        rw [hn] at hc
        exact absurd hc (by simp)
      | some c =>
        rw [Option.bind_some, Option.bind_some]
        by_cases hcn : c = n
        · subst hcn
          obtain ⟨rfl, rfl⟩ := h.node_unique ht hr hq hp hc hn
          by_cases hlk : l = k
          · subst hlk
            exact ⟨fun _ => by rw [ld64_st64], fun he => absurd rfl he⟩
          · refine ⟨fun he => by simp [hlk] at he, fun _ => ?_⟩
            rw [ld64_st64_of_ne (by omega)]
        · rw [hout.ld64 hnpage.1 (h.node ht hq hc).1.1 hcn hl]
          refine ⟨fun he => ?_, fun _ => rfl⟩
          obtain ⟨rfl, hqk⟩ := Prod.mk.inj he
          obtain ⟨rfl, -⟩ := List.append_inj' hqk rfl
          rw [hr, Option.some.injEq] at ht
          subst ht
          rw [hn, Option.some.injEq] at hc
          exact absurd hc.symm hcn

/-- Linking or unlinking an empty table changes no leaf. -/
lemma NodeInv.leafPte_setEntry (hlen : p.length < 2) (hn : nodeAt m r p = some n) (hk : k < 512)
    (hold : ∀ c, ptePage (ld64 m (n + 8 * k)) = some c → EmptyNode m c)
    (hnew : ∀ c, ptePage w = some c → c % PGSIZE = 0 ∧ c ≠ n ∧ EmptyNode m c) :
    SameLeaves m (st64 m (n + 8 * k) w) roots := by
  intro j t ht v
  obtain ⟨hnpage, hnown⟩ := h.node hr hp hn
  have hout : SameOutside m (st64 m (n + 8 * k) w) n := sameOutside_st64 _ hk
  have hidx : v % 512 < 512 := Nat.mod_lt v (by norm_num)
  obtain ⟨hthis, hother⟩ := h.nodeAt_setEntry hr hp hn hk hold hnew ht (vpnPath v)
    (validPath_vpnPath v)
  by_cases he : (j, vpnPath v) = (i, p ++ [k])
  · -- the leaf lies in the table that the entry refers to
    have hbefore : leafPte m t v = 0#64 := by
      obtain ⟨rfl, hpv⟩ := Prod.mk.inj he
      rw [hr, Option.some.injEq] at ht
      subst ht
      cases hc : ptePage (ld64 m (n + 8 * k)) with
      | none =>
        apply leafPte_of_none
        rw [leafAddr, hpv, nodeAt_concat, hn, Option.bind_some, hc]
        rfl
      | some c =>
        have haddr : leafAddr m r v = some (c + 8 * (v % 512)) := by
          rw [leafAddr, hpv, nodeAt_concat, hn, Option.bind_some, hc]
          rfl
        rw [leafPte_of_leafAddr haddr, hold c hc _ hidx]
    rw [hbefore]
    cases hc : ptePage w with
    | none =>
      apply leafPte_of_none
      rw [leafAddr, hthis he, hc]
      rfl
    | some c =>
      obtain ⟨hmod, hne, hzero⟩ := hnew c hc
      have haddr : leafAddr (st64 m (n + 8 * k) w) t v = some (c + 8 * (v % 512)) := by
        rw [leafAddr, hthis he, hc]
        rfl
      rw [leafPte_of_leafAddr haddr, hout.ld64 hnpage.1 hmod hne hidx, hzero _ hidx]
  · have haddr : leafAddr (st64 m (n + 8 * k) w) t v = leafAddr m t v := by
      rw [leafAddr, leafAddr, hother he]
    cases ha : leafAddr m t v with
    | none => rw [leafPte_of_none ha, leafPte_of_none (haddr.trans ha)]
    | some a =>
      rw [leafPte_of_leafAddr ha, leafPte_of_leafAddr (haddr.trans ha)]
      obtain ⟨c, hc, rfl⟩ := leafAddr_eq_some.mp ha
      apply hout.ld64 hnpage.1 (h.node ht (validPath_vpnPath v) hc).1.1 _ hidx
      rintro rfl
      have hpv := (h.node_unique ht hr (validPath_vpnPath v) hp hc hn).2
      rw [← hpv] at hlen
      simp [vpnPath] at hlen

/-- An entry comes to refer to the empty table `x`, or no longer refers to it, and `x` alone gets
another owner. -/
lemma NodeInv.setEntry {x : Nat} (hlen : p.length < 2) (hn : nodeAt m r p = some n) (hk : k < 512)
    (hzero : EmptyNode m x) (hold : ∀ c, ptePage (ld64 m (n + 8 * k)) = some c → c = x)
    (hnew : ∀ c, ptePage w = some c → c = x ∧ IsPage x ∧ x ≠ n) (hok : EntryOk w)
    (hown : ∀ {j path}, own x = .node j path → (j, path) = (i, p ++ [k]))
    (ho : ∀ {j path}, o = .node j path ↔ (j, path) = (i, p ++ [k]) ∧ ptePage w = some x) :
    NodeInv (st64 m (n + 8 * k) w) roots (update own x o) ∧
      SameLeaves m (st64 m (n + 8 * k) w) roots ∧
      ∀ {j t path}, roots j = some t → ValidPath path →
        ((j, path) = (i, p ++ [k]) → nodeAt (st64 m (n + 8 * k) w) t path = ptePage w) ∧
        ((j, path) ≠ (i, p ++ [k]) → nodeAt (st64 m (n + 8 * k) w) t path = nodeAt m t path) := by
  obtain ⟨hnpage, hnown⟩ := h.node hr hp hn
  have hout : SameOutside m (st64 m (n + 8 * k) w) n := sameOutside_st64 _ hk
  have hvalid : ValidPath (p ++ [k]) := hp.concat hlen hk
  have hold' : ∀ c, ptePage (ld64 m (n + 8 * k)) = some c → EmptyNode m c :=
    fun c hc => hold c hc ▸ hzero
  have hnew' : ∀ c, ptePage w = some c → c % PGSIZE = 0 ∧ c ≠ n ∧ EmptyNode m c := by
    intro c hc
    obtain ⟨rfl, hpage, hne⟩ := hnew c hc
    exact ⟨hpage.1, hne, hzero⟩
  have hnode : ∀ {j t path}, roots j = some t → ValidPath path → _ ∧ _ :=
    fun {j t path} (ht : roots j = some t) (hpath : ValidPath path) =>
      h.nodeAt_setEntry hr hp hn hk hold' hnew' ht path hpath
  refine ⟨⟨?_, ?_, ?_⟩, h.leafPte_setEntry hr hp hlen hn hk hold' hnew', hnode⟩
  · intro j t path q ht hpath hq
    by_cases he : (j, path) = (i, p ++ [k])
    · rw [(hnode ht hpath).1 he] at hq
      obtain ⟨rfl, hpage, -⟩ := hnew q hq
      exact ⟨hpage, by rw [update_self]; exact ho.mpr ⟨he, hq⟩⟩
    · rw [(hnode ht hpath).2 he] at hq
      obtain ⟨h1, h2⟩ := h.node ht hpath hq
      have hne : q ≠ x := by rintro rfl; exact he (hown h2)
      exact ⟨h1, by rw [update_of_ne hne, h2]⟩
  · intro q j path hq ho'
    by_cases hqx : q = x
    · subst hqx
      rw [update_self] at ho'
      obtain ⟨he, hw⟩ := ho.mp ho'
      obtain ⟨rfl, rfl⟩ := Prod.mk.inj he
      exact ⟨hvalid, r, hr, ((hnode hr hvalid).1 rfl).trans hw⟩
    · rw [update_of_ne hqx] at ho'
      obtain ⟨hpath, t, ht, hat⟩ := h.covered hq ho'
      refine ⟨hpath, t, ht, ?_⟩
      rw [(hnode ht hpath).2 _, hat]
      intro he
      obtain ⟨rfl, rfl⟩ := Prod.mk.inj he
      obtain rfl : r = t := Option.some.inj (hr.symm.trans ht)
      rw [nodeAt_concat, hn, Option.bind_some] at hat
      exact hqx (hold q hat)
  · intro j t path c l ht hpath hlen' hc hl
    by_cases he : (j, path) = (i, p ++ [k])
    · rw [(hnode ht hpath).1 he] at hc
      obtain ⟨rfl, hpage, hne⟩ := hnew c hc
      rw [hout.ld64 hnpage.1 hpage.1 hne hl, hzero l hl]
      exact Or.inl rfl
    · rw [(hnode ht hpath).2 he] at hc
      by_cases hcn : c = n
      · subst hcn
        by_cases hlk : l = k
        · subst hlk
          rwa [ld64_st64]
        · rw [ld64_st64_of_ne (by omega)]
          exact h.entry ht hpath hlen' hc hl
      · rw [hout.ld64 hnpage.1 (h.node ht hpath hc).1.1 hcn hl]
        exact h.entry ht hpath hlen' hc hl

/-! ### A new table -/

end

lemma NodeInv.newRoot [DecidableEq ι] (h : NodeInv m roots own) (hi : roots i = none)
    (hpg : IsPage pg) (hown : ∀ j q, own pg ≠ .node j q) (hzero : EmptyNode m pg) :
    NodeInv m (update roots i (some pg)) (update own pg (.node i [])) := by
  have hcases : ∀ {j t}, update roots i (some pg) j = some t →
      (j = i ∧ t = pg) ∨ (j ≠ i ∧ roots j = some t) := by
    intro j t ht
    by_cases hj : j = i
    · subst hj
      rw [update_self, Option.some.injEq] at ht
      exact Or.inl ⟨rfl, ht.symm⟩
    · rw [update_of_ne hj] at ht
      exact Or.inr ⟨hj, ht⟩
  constructor
  · intro j t path q ht hp hn
    rcases hcases ht with ⟨rfl, rfl⟩ | ⟨hj, ht⟩
    · cases path with
      | nil =>
        rw [nodeAt_nil, Option.some.injEq] at hn
        subst hn
        exact ⟨hpg, update_self ..⟩
      | cons l path =>
        rw [hzero.nodeAt (hp.2 l (by simp))] at hn
        exact absurd hn (by simp)
    · obtain ⟨h1, h2⟩ := h.node ht hp hn
      have hq : q ≠ pg := by rintro rfl; exact hown j path h2
      exact ⟨h1, by rw [update_of_ne hq, h2]⟩
  · intro q j path hq ho
    by_cases hqpg : q = pg
    · subst hqpg
      rw [update_self, Owner.node.injEq] at ho
      obtain ⟨rfl, rfl⟩ := ho
      exact ⟨validPath_nil, q, update_self .., rfl⟩
    · rw [update_of_ne hqpg] at ho
      obtain ⟨hp, t, ht, hn⟩ := h.covered hq ho
      have hj : j ≠ i := by rintro rfl; rw [hi] at ht; exact absurd ht (by simp)
      exact ⟨hp, t, by rw [update_of_ne hj, ht], hn⟩
  · intro j t path n k ht hp hlen hn hk
    rcases hcases ht with ⟨rfl, rfl⟩ | ⟨hj, ht⟩
    · cases path with
      | nil =>
        rw [nodeAt_nil, Option.some.injEq] at hn
        subst hn
        rw [hzero k hk]
        exact Or.inl rfl
      | cons l path =>
        rw [hzero.nodeAt (hp.2 l (by simp))] at hn
        exact absurd hn (by simp)
    · exact h.entry ht hp hlen hn hk

/-! ### Nodes and leaves together -/

section

variable (h : TableInv m roots own)
include h

lemma TableInv.congr (ht : SameTables m m' roots) (ho : SameNodes own own') :
    TableInv m' roots own' := by
  refine ⟨h.toNodeInv.congr ho ht.node fun hr hp _ => ht.word hr hp, ?_⟩
  intro i r v hr hv
  rw [ht.leafPte hr]
  exact h.leaf hr hv

lemma TableInv.of_leafWrite (hw : LeafWrite m m' roots i v w) (hok : LeafOk w)
    (ho : SameNodes own own') : TableInv m' roots own' := by
  refine ⟨h.toNodeInv.congr ho hw.node hw.word, ?_⟩
  intro j r u hr hu
  by_cases hju : (j, u) = (i, v)
  · obtain ⟨rfl, rfl⟩ := Prod.mk.inj hju
    rw [hw.leaf hr]
    exact hok
  · rw [hw.other hr hu hju]
    exact h.leaf hr hu

lemma TableInv.of_sameLeaves (hnodes : NodeInv m' roots own') (hleaves : SameLeaves m m' roots) :
    TableInv m' roots own' := by
  refine ⟨hnodes, ?_⟩
  intro j t v ht hv
  rw [hleaves ht]
  exact h.leaf ht hv

lemma TableInv.link (hr : roots i = some r) (hp : ValidPath p) (hlen : p.length < 2)
    (hn : nodeAt m r p = some n) (hk : k < 512) (hempty : ptePage (ld64 m (n + 8 * k)) = none)
    (hpg : IsPage pg) (hown : ∀ j q, own pg ≠ .node j q) (hzero : EmptyNode m pg) :
    TableInv (st64 m (n + 8 * k) (pa2pte pg ||| PTE_V)) roots
        (update own pg (.node i (p ++ [k]))) ∧
      SameLeaves m (st64 m (n + 8 * k) (pa2pte pg ||| PTE_V)) roots ∧
      nodeAt (st64 m (n + 8 * k) (pa2pte pg ||| PTE_V)) r (p ++ [k]) = some pg := by
  have hpage := ptePage_pointer hpg
  have hne : pg ≠ n := by rintro rfl; exact hown i p (h.node hr hp hn).2
  obtain ⟨hnodes, hleaves, hnode⟩ := h.setEntry (w := pa2pte pg ||| PTE_V)
    (o := .node i (p ++ [k])) hr hp hlen hn hk hzero (by simp [hempty])
    (fun c hc => ⟨Option.some.inj (hc.symm.trans hpage), hpg, hne⟩)
    (Or.inr ⟨pg, hpg.1, hpg.lt_two_pow, rfl⟩) (fun hc => absurd hc (hown _ _))
    (by simp [hpage, eq_comm])
  exact ⟨h.of_sameLeaves hnodes hleaves, hleaves,
    ((hnode hr (hp.concat hlen hk)).1 rfl).trans hpage⟩

lemma TableInv.newRoot [DecidableEq ι] (hi : roots i = none) (hpg : IsPage pg)
    (hown : ∀ j q, own pg ≠ .node j q) (hzero : EmptyNode m pg) :
    TableInv m (update roots i (some pg)) (update own pg (.node i [])) := by
  refine ⟨h.toNodeInv.newRoot hi hpg hown hzero, ?_⟩
  intro j t v ht hv
  by_cases hj : j = i
  · subst hj
    rw [update_self, Option.some.injEq] at ht
    rw [← ht, hzero.leafPte]
    exact Or.inl rfl
  · rw [update_of_ne hj] at ht
    exact h.leaf ht hv

end

end Tables

end

end Xv6
