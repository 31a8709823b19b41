import Xv6.Kernel.Ownership

/-!
# Steps that keep the ownership of pages exact

Each lemma takes one change that the allocator or a page-table function makes (a page leaves or
joins the free list, a leaf is set, dropped or re-flagged, a node is added) and says under which
new assignment of owners the invariant holds again.
-/

namespace Xv6

open Function Lib

section Refcnt

variable [Layout]

lemma IsPage.div_ne {pa pb : Nat} (ha : IsPage pa) (hb : IsPage pb) (hne : pa ≠ pb) :
    pa / PGSIZE ≠ pb / PGSIZE := by
  have h1 := ha.1
  have h2 := hb.1
  unfold PGSIZE at *
  omega

omit [Layout] in
lemma Phys.pgRefcnt_setRefcnt_self (s : Phys) (pa : Nat) (n : Int) :
    (s.setRefcnt pa n).pgRefcnt pa = n :=
  update_self ..

omit [Layout] in
@[simp] lemma Phys.pgRefcnt_setMem (s : Phys) (m : Mem) (pa : Nat) :
    ({ s with mem := m } : Phys).pgRefcnt pa = s.pgRefcnt pa := rfl

lemma Phys.pgRefcnt_setRefcnt_of_ne (s : Phys) {pa pb : Nat} (ha : IsPage pa) (hb : IsPage pb)
    (hne : pb ≠ pa) (n : Int) : (s.setRefcnt pa n).pgRefcnt pb = s.pgRefcnt pb :=
  update_of_ne (hb.div_ne ha hne) ..

end Refcnt

/-! ### Counts after a leaf is written -/

section Counts

variable {ι : Type} {m m' : Mem} {roots : ι → Option Nat} {i : ι} {v : Nat} {w : Pte}
  {x : ι × Fin NUSER} {r q : Nat}

lemma NUSER_lt : NUSER < 2 ^ 26 := by decide

lemma lt_of_lt_NUSER {v : Nat} (hv : v < NUSER) : v < 2 ^ 27 := hv.trans (by decide)

lemma page_lt_MAXVA {v : Nat} (hv : v < 2 ^ 26) : v * PGSIZE < MAXVA := by
  simp only [PGSIZE, MAXVA]
  omega

lemma page_div (v : Nat) : v * PGSIZE / PGSIZE = v := Nat.mul_div_cancel v (by decide)

lemma LeafWrite.userSlots_of_ne (hw : LeafWrite m m' roots i v w) (hx : (x.1, x.2.val) ≠ (i, v)) :
    userSlots m' roots x = userSlots m roots x :=
  Option.bind_congr fun _ hr => by rw [hw.other hr (lt_of_lt_NUSER x.2.isLt) hx]

lemma slot_ne (hv : v < NUSER) (hx : x ≠ (i, ⟨v, hv⟩)) : (x.1, x.2.val) ≠ (i, v) := by
  obtain ⟨j, u, hu⟩ := x
  rintro he
  obtain ⟨rfl, rfl⟩ := Prod.mk.inj he
  exact hx rfl

lemma userSlots_of_root (hr : roots i = some r) (hv : v < NUSER) :
    userSlots m roots (i, ⟨v, hv⟩) = ptePage (leafPte m r v) := by
  unfold userSlots
  rw [hr, Option.bind_some]

/-- A page that is mapped once is behind one leaf only. -/
lemma eq_of_mapCount_eq_one [Fintype ι] {j : ι} {t u pg : Nat} (hone : mapCount m roots pg = 1)
    (hr : roots i = some r) (hv : v < NUSER) (ht : roots j = some t) (hu : u < NUSER)
    (hp : ptePage (leafPte m r v) = some pg) (hp' : ptePage (leafPte m t u) = some pg) :
    (j, u) = (i, v) := by
  have h1 : userSlots m roots (j, ⟨u, hu⟩) = some pg := by rw [userSlots_of_root ht, hp']
  have h2 : userSlots m roots (i, ⟨v, hv⟩) = some pg := by rw [userSlots_of_root hr, hp]
  obtain ⟨hji, huv⟩ := Prod.mk.inj (eq_of_refCount_eq_one hone h1 h2)
  rw [hji, Fin.mk.inj huv]

variable [Fintype ι] [DecidableEq ι]

lemma LeafWrite.mapCount_attach (hw : LeafWrite m m' roots i v w) (hv : v < NUSER)
    (hr : roots i = some r) (hold : ptePage (leafPte m r v) = none) (hnew : ptePage w = some q)
    (pg : Nat) : mapCount m' roots pg = mapCount m roots pg + if pg = q then 1 else 0 := by
  apply refCount_attach (h := (i, ⟨v, hv⟩)) fun x hx => hw.userSlots_of_ne (slot_ne hv hx)
  · rw [userSlots_of_root hr, hold]
  · rw [userSlots_of_root hr, hw.leaf hr, hnew]

lemma LeafWrite.mapCount_detach (hw : LeafWrite m m' roots i v w) (hv : v < NUSER)
    (hr : roots i = some r) (hold : ptePage (leafPte m r v) = some q) (hnew : ptePage w = none)
    (pg : Nat) : mapCount m' roots pg + (if pg = q then 1 else 0) = mapCount m roots pg := by
  apply refCount_detach (h := (i, ⟨v, hv⟩)) fun x hx => hw.userSlots_of_ne (slot_ne hv hx)
  · rw [userSlots_of_root hr, hold]
  · rw [userSlots_of_root hr, hw.leaf hr, hnew]

omit [DecidableEq ι] in
/-- Re-flagging a leaf moves no count, and leaves from `TRAPFRAME` up are not user leaves. -/
lemma LeafWrite.mapCount_same (hw : LeafWrite m m' roots i v w) (hr : roots i = some r)
    (hsame : v < NUSER → ptePage w = ptePage (leafPte m r v)) :
    mapCount m' roots = mapCount m roots := by
  have hslots : userSlots m' roots = userSlots m roots := by
    funext ⟨j, u, hu⟩
    by_cases hx : (j, u) = (i, v)
    · obtain ⟨rfl, rfl⟩ := Prod.mk.inj hx
      rw [userSlots_of_root hr, userSlots_of_root hr, hw.leaf hr, hsame hu]
    · exact hw.userSlots_of_ne hx
  funext pg
  rw [mapCount, mapCount, hslots]

end Counts

section Steps

variable {ι κ : Type} [Fintype ι] [Layout] {s s' : Phys} {roots : ι → Option Nat}
  {own : Nat → Owner ι κ} {o : Owner ι κ}

/-! ### Writes that the tables do not see -/

lemma PageInv.congr (h : PageInv s roots own) (ht : SameLeaves s.mem s'.mem roots)
    (hf : s'.freelist = s.freelist) (href : s'.ref = s.ref) : PageInv s' roots own := by
  have hcnt : ∀ pg, s'.pgRefcnt pg = s.pgRefcnt pg := fun pg => congrFun href _
  constructor
  · rw [hf]; exact h.nodup
  · intro pg; rw [hf]; exact h.free
  · intro i r v pg hr hv hp
    rw [ht hr] at hp
    exact h.user hr hv hp
  · intro pg hpg ho
    rw [ht.mapCount, hcnt]
    exact h.mapped hpg ho
  · intro pg hpg ho
    rw [hcnt]
    exact h.held hpg ho
  · intro i r v hr hv hV hW
    rw [ht hr] at hV hW
    rw [ht.mapCount, ht hr]
    exact h.writable hr hv hV hW
  · intro i r v u pg hr hv hu h1 h2
    rw [ht hr] at h1 h2
    exact h.inj hr hv hu h1 h2
  · intro i r v hr hv hv'
    rw [ht hr]
    exact h.top hr hv hv'

/-- Writing into a page that is no node. -/
lemma PhysInv.write (h : PhysInv s roots own) {q : Nat} (hq : q % PGSIZE = 0)
    (hown : ∀ i path, own q ≠ .node i path) {m : Mem} (hm : SameOutside s.mem m q) :
    PhysInv { s with mem := m } roots own := by
  have ht := h.tables.sameTables hm hq (fun i _ _ path => hown i path)
  exact ⟨h.tables.congr ht (SameNodes.refl own), h.pages.congr ht.leaves rfl rfl⟩

/-! ### Pages that join or leave the free list -/

/-- The owner of one page that is not mapped changes. -/
lemma PageInv.reown (h : PageInv s roots own) (ht : SameLeaves s.mem s'.mem roots) {q : Nat}
    (hold : own q ≠ .user) (hnew : o ≠ .user) (hnodup : s'.freelist.Nodup)
    (hfree : ∀ pg, pg ∈ s'.freelist ↔ IsPage pg ∧ update own q o pg = .free)
    (href : ∀ pg, IsPage pg → pg ≠ q → s'.pgRefcnt pg = s.pgRefcnt pg)
    (hheld : o ≠ .free → s'.pgRefcnt q = 1) : PageInv s' roots (update own q o) := by
  constructor
  · exact hnodup
  · intro pg; exact hfree pg
  · intro i r v pg hr hv hp
    rw [ht hr] at hp
    obtain ⟨h1, h2⟩ := h.user hr hv hp
    have hne : pg ≠ q := by rintro rfl; exact hold h2
    exact ⟨h1, by rw [update_of_ne hne, h2]⟩
  · intro pg hpg ho
    have hne : pg ≠ q := by
      rintro rfl
      rw [update_self] at ho
      exact hnew ho
    rw [update_of_ne hne] at ho
    rw [ht.mapCount, href pg hpg hne]
    exact h.mapped hpg ho
  · intro pg hpg ho
    by_cases hne : pg = q
    · subst hne
      rw [update_self] at ho
      apply hheld
      rintro rfl
      rcases ho with ⟨i, path, ho⟩ | ⟨k, ho⟩ <;> cases ho
    · rw [update_of_ne hne] at ho
      rw [href pg hpg hne]
      exact h.held hpg ho
  · intro i r v hr hv hV hW
    rw [ht hr] at hV hW
    rw [ht.mapCount, ht hr]
    exact h.writable hr hv hV hW
  · intro i r v u pg hr hv hu h1 h2
    rw [ht hr] at h1 h2
    exact h.inj hr hv hu h1 h2
  · intro i r v hr hv hv'
    rw [ht hr]
    exact h.top hr hv hv'

/-- A held page changes hands. -/
lemma PageInv.rehold (h : PageInv s roots own) (ht : SameLeaves s.mem s'.mem roots)
    (hf : s'.freelist = s.freelist) (href : s'.ref = s.ref) {q : Nat} (hq : IsPage q)
    (hold : (own q).Pinned) (hnew : o.Pinned) : PageInv s' roots (update own q o) := by
  have hcnt : ∀ pg, s'.pgRefcnt pg = s.pgRefcnt pg := fun pg => congrFun href _
  have hpinned : ∀ {o : Owner ι κ}, o.Pinned → o ≠ .user ∧ o ≠ .free := by
    rintro o (⟨i, path, rfl⟩ | ⟨k, rfl⟩) <;> exact ⟨nofun, nofun⟩
  refine h.reown ht (hpinned hold).1 (hpinned hnew).1 (by rw [hf]; exact h.nodup) (fun pg => ?_)
    (fun pg _ _ => hcnt pg) (fun _ => by rw [hcnt]; exact h.held hq hold)
  rw [hf, h.free]
  by_cases hpg : pg = q
  · subst hpg
    rw [update_self]
    exact iff_of_false (fun hc => (hpinned hold).2 hc.2) (fun hc => (hpinned hnew).2 hc.2)
  · rw [update_of_ne hpg]

/-- The first page of the free list goes to the kernel. -/
lemma PhysInv.take (h : PhysInv s roots own) {q : Nat} {rest : List Nat}
    (hf : s.freelist = q :: rest) (k : κ) (hm : SameOutside s.mem s'.mem q)
    (hf' : s'.freelist = rest) (hone : s'.pgRefcnt q = 1)
    (href : ∀ pg, IsPage pg → pg ≠ q → s'.pgRefcnt pg = s.pgRefcnt pg) :
    PhysInv s' roots (update own q (.kernel k)) := by
  obtain ⟨hq, hown⟩ := h.pages.free.mp (by rw [hf]; exact List.mem_cons_self)
  have hnode : ∀ i path, own q ≠ .node i path := by simp [hown]
  have ht := h.tables.sameTables hm hq.1 (fun i _ _ path => hnode i path)
  have hnd := h.pages.nodup
  rw [hf, List.nodup_cons] at hnd
  refine ⟨h.tables.congr ht (sameNodes_update hnode (fun i path => nofun)), ?_⟩
  refine h.pages.reown ht.leaves ?_ ?_ (by rw [hf']; exact hnd.2) (fun pg => ?_) href
    (fun _ => hone)
  · rw [hown]; nofun
  · nofun
  rw [hf']
  by_cases hpg : pg = q
  · subst hpg
    rw [update_self]
    exact iff_of_false hnd.1 (fun hc => by cases hc.2)
  · rw [update_of_ne hpg, ← h.pages.free, hf, List.mem_cons]
    exact ⟨Or.inr, fun hc => hc.resolve_left hpg⟩

/-- A page that the kernel held goes back to the free list. -/
lemma PhysInv.give (h : PhysInv s roots own) {q : Nat} (hq : IsPage q) {k : κ}
    (hown : own q = .kernel k) (hm : SameOutside s.mem s'.mem q)
    (hf' : s'.freelist = q :: s.freelist) (href : s'.ref = s.ref) :
    PhysInv s' roots (update own q .free) := by
  have hnode : ∀ i path, own q ≠ .node i path := by simp [hown]
  have hnot : q ∉ s.freelist := by
    intro hc
    have := (h.pages.free.mp hc).2
    rw [hown] at this
    cases this
  have ht := h.tables.sameTables hm hq.1 (fun i _ _ path => hnode i path)
  refine ⟨h.tables.congr ht (sameNodes_update hnode (fun i path => nofun)), ?_⟩
  refine h.pages.reown ht.leaves ?_ ?_ ?_ (fun pg => ?_) (fun pg _ _ => congrFun href _)
    (fun hc => absurd rfl hc)
  · rw [hown]; nofun
  · nofun
  · rw [hf']; exact List.nodup_cons.mpr ⟨hnot, h.pages.nodup⟩
  rw [hf', List.mem_cons]
  by_cases hpg : pg = q
  · subst hpg
    rw [update_self]
    exact iff_of_true (Or.inl rfl) ⟨hq, rfl⟩
  · rw [update_of_ne hpg, h.pages.free]
    exact ⟨fun hc => hc.resolve_left hpg, Or.inr⟩

/-! ### Pages that become nodes -/

/-- A page of zeros that the kernel held becomes a node of table `i`. -/
lemma PhysInv.link (h : PhysInv s roots own) {i : ι} {r n k q : Nat} {p : List Nat}
    (hr : roots i = some r) (hp : ValidPath p) (hlen : p.length < 2)
    (hn : nodeAt s.mem r p = some n) (hk : k < 512)
    (hempty : ptePage (ld64 s.mem (n + 8 * k)) = none) (hq : IsPage q) {a : κ}
    (hown : own q = .kernel a) (hzero : EmptyNode s.mem q) :
    PhysInv { s with mem := st64 s.mem (n + 8 * k) (pa2pte q ||| PTE_V) } roots
        (update own q (.node i (p ++ [k]))) ∧
      SameLeaves s.mem (st64 s.mem (n + 8 * k) (pa2pte q ||| PTE_V)) roots ∧
      nodeAt (st64 s.mem (n + 8 * k) (pa2pte q ||| PTE_V)) r (p ++ [k]) = some q := by
  have hnode : ∀ j path, own q ≠ .node j path := by
    intro j path hn
    rw [hown] at hn
    cases hn
  obtain ⟨htab, hleaves, hat⟩ := h.tables.link hr hp hlen hn hk hempty hq hnode hzero
  refine ⟨⟨htab, ?_⟩, hleaves, hat⟩
  refine h.pages.rehold hleaves ?_ ?_ hq (Or.inr ⟨a, hown⟩) (Or.inl ⟨i, p ++ [k], rfl⟩) <;> rfl

/-! ### Leaves that are set, dropped or re-flagged -/

variable [DecidableEq ι] {i : ι} {v r q : Nat} {w : Pte}

section

variable (h : PageInv s roots own) (hw : LeafWrite s.mem s'.mem roots i v w)
include h hw

omit [DecidableEq ι] in
lemma PageInv.top_of_user (hU : NUSER ≤ v → w.getLsbD 4 = false) {j : ι} {t u : Nat}
    (ht : roots j = some t) (hu : NUSER ≤ u) (hu' : u < 2 ^ 27) :
    (leafPte s'.mem t u).getLsbD 4 = false := by
  by_cases hju : (j, u) = (i, v)
  · obtain ⟨rfl, rfl⟩ := Prod.mk.inj hju
    rw [hw.leaf ht]
    exact hU hu
  · rw [hw.other ht hu' hju]
    exact h.top ht hu hu'

omit [DecidableEq ι] in
/-- One leaf is written and one page gets another owner. What the counts and the leaves of other
pages say stays true; the rest is about the page and the leaf. -/
lemma PageInv.rewrite (hr : roots i = some r) (hnodup : s'.freelist.Nodup)
    (hfree : ∀ pg, pg ∈ s'.freelist ↔ IsPage pg ∧ update own q o pg = .free)
    (hmap : ∀ pg, pg ≠ q → mapCount s'.mem roots pg = mapCount s.mem roots pg)
    (href : ∀ pg, IsPage pg → pg ≠ q → s'.pgRefcnt pg = s.pgRefcnt pg)
    (hmapped : IsPage q → o = .user →
      0 < mapCount s'.mem roots q ∧ s'.pgRefcnt q = mapCount s'.mem roots q)
    (hheld : IsPage q → o.Pinned → s'.pgRefcnt q = 1)
    (hnew : v < NUSER → ∀ pg, ptePage w = some pg → IsPage pg ∧ update own q o pg = .user ∧
      (w.getLsbD 2 = true → mapCount s'.mem roots pg = 1) ∧
      ∀ u < NUSER, u ≠ v → ptePage (leafPte s.mem r u) ≠ some pg)
    (hold : ∀ {j t u}, roots j = some t → u < NUSER → (j, u) ≠ (i, v) →
      ptePage (leafPte s.mem t u) = some q →
      o = .user ∧ ((leafPte s.mem t u).getLsbD 2 = true → mapCount s'.mem roots q = 1))
    (hU : NUSER ≤ v → w.getLsbD 4 = false) : PageInv s' roots (update own q o) := by
  have hother : ∀ {j t u}, roots j = some t → u < NUSER → (j, u) ≠ (i, v) →
      leafPte s'.mem t u = leafPte s.mem t u := fun ht hu => hw.other ht (lt_of_lt_NUSER hu)
  constructor
  · exact hnodup
  · exact fun {pg} => hfree pg
  · intro j t u pg ht hu hp
    by_cases hju : (j, u) = (i, v)
    · obtain ⟨rfl, rfl⟩ := Prod.mk.inj hju
      rw [hw.leaf ht] at hp
      exact ⟨(hnew hu pg hp).1, (hnew hu pg hp).2.1⟩
    · rw [hother ht hu hju] at hp
      obtain ⟨h1, h2⟩ := h.user ht hu hp
      refine ⟨h1, ?_⟩
      by_cases hpg : pg = q
      · subst hpg
        rw [update_self, (hold ht hu hju hp).1]
      · rw [update_of_ne hpg, h2]
  · intro pg hpg ho
    by_cases hne : pg = q
    · subst hne
      exact hmapped hpg (by rwa [update_self] at ho)
    · rw [update_of_ne hne] at ho
      rw [hmap pg hne, href pg hpg hne]
      exact h.mapped hpg ho
  · intro pg hpg ho
    by_cases hne : pg = q
    · subst hne
      exact hheld hpg (by rwa [update_self] at ho)
    · rw [update_of_ne hne] at ho
      rw [href pg hpg hne]
      exact h.held hpg ho
  · intro j t u ht hu hV hW
    by_cases hju : (j, u) = (i, v)
    · obtain ⟨rfl, rfl⟩ := Prod.mk.inj hju
      rw [hw.leaf ht] at hV hW ⊢
      exact (hnew hu _ (ptePage_eq_some.mpr ⟨hV, rfl⟩)).2.2.1 hW
    · rw [hother ht hu hju] at hV hW ⊢
      by_cases hpg : pte2pa (leafPte s.mem t u) = q
      · rw [hpg]
        exact (hold ht hu hju (ptePage_eq_some.mpr ⟨hV, hpg⟩)).2 hW
      · rw [hmap _ hpg]
        exact h.writable ht hu hV hW
  · -- the new leaf and an old one of the same table do not meet
    intro j t u u' pg ht hu hu' h1 h2
    have hmeet : ∀ {x y}, x < NUSER → y < NUSER → (j, x) = (i, v) → (j, y) ≠ (i, v) →
        ptePage (leafPte s'.mem t x) = some pg → ptePage (leafPte s'.mem t y) ≠ some pg := by
      intro x y hx hy hjx hjy h1 h2
      obtain ⟨rfl, rfl⟩ := Prod.mk.inj hjx
      obtain rfl : t = r := Option.some.inj (ht.symm.trans hr)
      rw [hw.leaf ht] at h1
      rw [hother ht hy hjy] at h2
      exact (hnew hx pg h1).2.2.2 y hy (fun hc => hjy (by rw [hc])) h2
    by_cases hju : (j, u) = (i, v) <;> by_cases hju' : (j, u') = (i, v)
    · exact (Prod.mk.inj (hju.trans hju'.symm)).2
    · exact (hmeet hu hu' hju hju' h1 h2).elim
    · exact (hmeet hu' hu hju' hju h2 h1).elim
    · rw [hother ht hu hju] at h1
      rw [hother ht hu' hju'] at h2
      exact h.inj ht hu hu' h1 h2
  · intro j t u ht hu hu'
    exact h.top_of_user hw hU ht hu hu'

/-- A user leaf comes to refer to `q`, whose count rises by one. If `q` was mapped before, none
of its leaves is writable, the new one included. -/
lemma PageInv.attach (hr : roots i = some r) (hv : v < NUSER)
    (hold : ptePage (leafPte s.mem r v) = none) (hnew : ptePage w = some q) (hq : IsPage q)
    (hheld : own q ≠ .free) (hf : s'.freelist = s.freelist)
    (href : ∀ pg, IsPage pg → pg ≠ q → s'.pgRefcnt pg = s.pgRefcnt pg)
    (hcnt : s'.pgRefcnt q = mapCount s.mem roots q + 1)
    (hW : w.getLsbD 2 = true → mapCount s.mem roots q = 0)
    (hshared : ∀ {j t u}, roots j = some t → u < NUSER → ptePage (leafPte s.mem t u) = some q →
      (leafPte s.mem t u).getLsbD 2 = false ∧ j ≠ i) : PageInv s' roots (update own q .user) := by
  have hmap := hw.mapCount_attach hv hr hold hnew
  have hmapq := hmap q
  rw [if_pos rfl] at hmapq
  refine h.rewrite hw hr (by rw [hf]; exact h.nodup) (fun pg => ?_)
    (fun pg hne => by rw [hmap, if_neg hne, Nat.add_zero]) href
    (fun _ _ => ⟨by omega, by rw [hcnt, hmapq]; push_cast; rfl⟩) nofun (fun _ pg hp => ?_)
    (fun ht hu _ hp => ⟨rfl, fun hc => ?_⟩) (fun hc => absurd hc (by omega))
  · rw [hf, h.free]
    by_cases hpg : pg = q
    · subst hpg
      rw [update_self]
      exact iff_of_false (fun hc => hheld hc.2) (fun hc => by cases hc.2)
    · rw [update_of_ne hpg]
  · obtain rfl : q = pg := Option.some.inj (hnew.symm.trans hp)
    exact ⟨hq, update_self .., fun hw => by rw [hmapq, hW hw],
      fun u hu _ hp => (hshared hr hu hp).2 rfl⟩
  · rw [(hshared ht hu hp).1] at hc
    cases hc

end

section

variable (h : PageInv s roots own) (hw : LeafWrite s.mem s'.mem roots i v w)
  (hr : roots i = some r) (hv : v < NUSER) (hold : ptePage (leafPte s.mem r v) = some q)
  (hnew : ptePage w = none)

include h hw hr hv hold hnew

/-- A user leaf stops referring to a page that other leaves still refer to. -/
lemma PageInv.detachShared (hmany : 1 < mapCount s.mem roots q) (hf : s'.freelist = s.freelist)
    (href : ∀ pg, IsPage pg → pg ≠ q → s'.pgRefcnt pg = s.pgRefcnt pg)
    (hcnt : s'.pgRefcnt q = s.pgRefcnt q - 1) : PageInv s' roots own := by
  have hmap := hw.mapCount_detach hv hr hold hnew
  have hmapq := hmap q
  rw [if_pos rfl] at hmapq
  obtain ⟨hq, hown⟩ := h.user hr hv hold
  obtain ⟨-, hcount⟩ := h.mapped hq hown
  rw [← update_eq_self q own, hown]
  refine h.rewrite hw hr (by rw [hf]; exact h.nodup) (fun pg => ?_)
    (fun pg hne => by rw [← hmap pg, if_neg hne, Nat.add_zero]) href
    (fun _ _ => ⟨by omega, by rw [hcnt, hcount]; omega⟩) nofun
    (fun _ pg hp => by rw [hnew] at hp; cases hp) (fun ht hu _ hp => ⟨rfl, fun hW => ?_⟩)
    (fun hc => absurd hc (by omega))
  · rw [hf, h.free, ← hown, update_eq_self]
  · -- a writable leaf would be the only one
    obtain ⟨hV, rfl⟩ := ptePage_eq_some.mp hp
    have := h.writable ht hu hV hW
    omega

/-- The last user leaf that refers to a page is dropped, and the page is freed. -/
lemma PageInv.detachLast (hone : mapCount s.mem roots q = 1)
    (hf : s'.freelist = q :: s.freelist) (href : s'.ref = s.ref) :
    PageInv s' roots (update own q .free) := by
  obtain ⟨hq, hown⟩ := h.user hr hv hold
  have hnot : q ∉ s.freelist := by
    intro hc
    have := (h.free.mp hc).2
    rw [hown] at this
    cases this
  refine h.rewrite hw hr (by rw [hf]; exact List.nodup_cons.mpr ⟨hnot, h.nodup⟩) (fun pg => ?_)
    (fun pg hne => ?_) (fun pg _ _ => congrFun href _) nofun nofun
    (fun _ pg hp => by rw [hnew] at hp; cases hp) (fun ht hu hne hp => ?_)
    (fun hc => absurd hc (by omega))
  · rw [hf, List.mem_cons]
    by_cases hpg : pg = q
    · subst hpg
      rw [update_self]
      exact iff_of_true (Or.inl rfl) ⟨hq, rfl⟩
    · rw [update_of_ne hpg, h.free]
      exact ⟨fun hc => hc.resolve_left hpg, Or.inr⟩
  · rw [← hw.mapCount_detach hv hr hold hnew pg, if_neg hne, Nat.add_zero]
  · -- no other leaf refers to `q`
    exact absurd (eq_of_mapCount_eq_one hone hr hv ht hu hold hp) hne

end

omit [DecidableEq ι] in
/-- The flags of a leaf change, or a leaf from `TRAPFRAME` up. A user leaf may become writable only
if its page is mapped once. -/
lemma PageInv.remark (h : PageInv s roots own) (hw : LeafWrite s.mem s'.mem roots i v w)
    (hr : roots i = some r) (hsame : v < NUSER → ptePage w = ptePage (leafPte s.mem r v))
    (hW : v < NUSER → w.getLsbD 0 = true → w.getLsbD 2 = true →
      mapCount s.mem roots (pte2pa w) = 1)
    (hU : NUSER ≤ v → w.getLsbD 4 = false)
    (hf : s'.freelist = s.freelist) (href : s'.ref = s.ref) : PageInv s' roots own := by
  have hmap := hw.mapCount_same hr hsame
  have hcnt : ∀ pg, s'.pgRefcnt pg = s.pgRefcnt pg := fun pg => congrFun href _
  rw [← update_eq_self (pte2pa w) own]
  refine h.rewrite hw hr (by rw [hf]; exact h.nodup) (fun pg => ?_) (fun pg _ => by rw [hmap])
    (fun pg _ _ => hcnt pg) (fun hq ho => ?_) (fun hq ho => ?_) (fun hv pg hp => ?_)
    (fun ht hu _ hp => ⟨(h.user ht hu hp).2, fun hc => ?_⟩) hU
  · rw [hf, h.free, update_eq_self]
  · rw [hmap, hcnt]
    exact h.mapped hq ho
  · rw [hcnt]
    exact h.held hq ho
  · rw [hsame hv] at hp
    obtain ⟨hpage, hown⟩ := h.user hr hv hp
    refine ⟨hpage, by rwa [update_eq_self], fun hc => ?_, fun u hu hne hp' => ?_⟩
    · obtain ⟨hV, rfl⟩ := ptePage_eq_some.mp ((hsame hv).trans hp)
      rw [hmap]
      exact hW hv hV hc
    · exact hne (h.inj hr hu hv hp' hp)
  · obtain ⟨hV, hpa⟩ := ptePage_eq_some.mp hp
    rw [hmap, ← hpa]
    exact h.writable ht hu hV hc

end Steps

end Xv6
