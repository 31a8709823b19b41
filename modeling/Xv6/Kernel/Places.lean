import Xv6.Kernel.View

/-!
# Where tables and pages are

`Frame` says what the processes see. `Placed` says where it is: which pages are the nodes of the
tables and which pages the leaves refer to. If an operation that failed has left everything in its
place, the same pages are free as before, and the others have the same reference counts.
-/

namespace Xv6

open Function Lib

variable {ι κ : Type} {roots' : ι → Option Nat} {P' : ι → Nat → Prop} {a b c d : Nat} {w : Pte}

/-- The tables have their nodes and leaves where they were, but for the leaves in `P`; only a table
with such leaves may have got nodes. -/
structure Placed (m m' : Mem) (roots : ι → Option Nat) (P : ι → Nat → Prop) : Prop where
  kept : ∀ {i r path n}, roots i = some r → ValidPath path → nodeAt m r path = some n →
    nodeAt m' r path = some n
  node : ∀ {i r path}, roots i = some r → (∀ v, ¬P i v) → ValidPath path →
    nodeAt m' r path = nodeAt m r path
  leaf : ∀ {i r v}, roots i = some r → v < 2 ^ 27 → ¬P i v → leafPte m' r v = leafPte m r v

section Placed

variable {m m' m'' : Mem} {roots : ι → Option Nat} {P : ι → Nat → Prop}

lemma SameTables.placed (h : SameTables m m' roots) (P : ι → Nat → Prop) : Placed m m' roots P :=
  ⟨fun hr hp hn => (h.node hr hp).trans hn, fun hr _ hp => h.node hr hp,
    fun hr _ _ => h.leafPte hr _⟩

lemma Placed.refl (m : Mem) (roots : ι → Option Nat) (P : ι → Nat → Prop) : Placed m m roots P :=
  ⟨fun _ _ hn => hn, fun _ _ _ => rfl, fun _ _ _ => rfl⟩

lemma Placed.trans (h : Placed m m' roots P) (h' : Placed m' m'' roots P) : Placed m m'' roots P :=
  ⟨fun hr hp hn => h'.kept hr hp (h.kept hr hp hn),
    fun hr hP hp => (h'.node hr hP hp).trans (h.node hr hP hp),
    fun hr hv hP => (h'.leaf hr hv hP).trans (h.leaf hr hv hP)⟩

lemma Placed.mono (h : Placed m m' roots P) (hroots : ∀ i r, roots' i = some r → roots i = some r)
    (hP : ∀ i v, (roots' i).isSome → P i v → P' i v) : Placed m m' roots' P' := by
  have hsome : ∀ {i r}, roots' i = some r → (roots' i).isSome := by
    intro i r hr
    rw [hr]
    rfl
  refine ⟨fun hr => h.kept (hroots _ _ hr), ?_, ?_⟩
  · intro i r path hr hn hp
    exact h.node (hroots i r hr) (fun v hv => hn v (hP i v (hsome hr) hv)) hp
  · intro i r v hr hv hn
    exact h.leaf (hroots i r hr) hv fun hp => hn (hP i v (hsome hr) hp)

lemma Placed.weaken (h : Placed m m' roots P) (hP : ∀ i v, P i v → P' i v) : Placed m m' roots P' :=
  h.mono (fun _ _ hr => hr) fun i v _ => hP i v

lemma Placed.widen {i : ι} (h : Placed m m' roots (Within i a b)) (hc : c ≤ a) (hd : b ≤ d) :
    Placed m m' roots (Within i c d) :=
  h.weaken fun _ _ hu => ⟨hu.1, hc.trans hu.2.1, hu.2.2.trans_le hd⟩

lemma LeafWrite.placed {i : ι} {v : Nat} (hw : LeafWrite m m' roots i v w) :
    Placed m m' roots (Within i v (v + 1)) := by
  refine ⟨fun hr hp hn => (hw.node hr hp).trans hn, fun hr _ hp => hw.node hr hp, ?_⟩
  intro j t u ht hu hn
  apply hw.other ht hu
  intro he
  obtain ⟨rfl, rfl⟩ := Prod.mk.inj he
  exact hn ⟨rfl, le_refl u, Nat.lt_succ_self u⟩

/-- The tables have the same nodes and refer to the same user pages, whatever their flags. -/
structure SamePlaces (m m' : Mem) (roots : ι → Option Nat) : Prop where
  node : ∀ {i r path}, roots i = some r → ValidPath path → nodeAt m' r path = nodeAt m r path
  page : ∀ {i r v}, roots i = some r → v < NUSER →
    ptePage (leafPte m' r v) = ptePage (leafPte m r v)

lemma SamePlaces.refl (m : Mem) (roots : ι → Option Nat) : SamePlaces m m roots :=
  ⟨fun _ _ => rfl, fun _ _ => rfl⟩

lemma SamePlaces.trans (h : SamePlaces m m' roots) (h' : SamePlaces m' m'' roots) :
    SamePlaces m m'' roots :=
  ⟨fun hr hp => (h'.node hr hp).trans (h.node hr hp),
    fun hr hv => (h'.page hr hv).trans (h.page hr hv)⟩

lemma SamePlaces.mono (h : SamePlaces m m' roots)
    (hroots : ∀ i r, roots' i = some r → roots i = some r) : SamePlaces m m' roots' :=
  ⟨fun hr => h.node (hroots _ _ hr), fun hr => h.page (hroots _ _ hr)⟩

lemma SameTables.samePlaces (h : SameTables m m' roots) : SamePlaces m m' roots :=
  ⟨h.node, fun hr _ => congrArg ptePage (h.leafPte hr _)⟩

/-- The tables of which no leaf may change. -/
lemma Placed.samePlaces_of (h : Placed m m' roots P)
    (hroots : ∀ i r, roots' i = some r → roots i = some r ∧ ∀ v, ¬P i v) :
    SamePlaces m m' roots' := by
  refine ⟨fun hr => h.node (hroots _ _ hr).1 (hroots _ _ hr).2, fun {i r v} hr hv => ?_⟩
  have hlt : v < 2 ^ 27 := by
    have := NUSER_lt
    omega
  rw [h.leaf (hroots i r hr).1 hlt ((hroots i r hr).2 v)]

lemma Placed.samePlaces (h : Placed m m' roots fun _ _ => False) : SamePlaces m m' roots :=
  h.samePlaces_of fun _ _ hr => ⟨hr, fun _ => id⟩

lemma roots_of_update [DecidableEq ι] {i j : ι} {r : Nat}
    (hr : update roots i none j = some r) : j ≠ i ∧ roots j = some r := by
  by_cases hj : j = i
  · subst hj
    rw [update_self] at hr
    cases hr
  · rw [update_of_ne hj] at hr
    exact ⟨hj, hr⟩

/-- What happens in one table is not seen by the others. -/
lemma Placed.others [DecidableEq ι] {i : ι} (h : Placed m m' roots (Within i a b)) :
    SamePlaces m m' (update roots i none) := by
  refine h.samePlaces_of fun j r hr => ?_
  obtain ⟨hj, hr⟩ := roots_of_update hr
  exact ⟨hr, fun _ hv => hj hv.1⟩

end Placed

/-- The user pages of the table `r` are its own: no other leaf refers to them, and none of them is
marked copy-on-write. -/
structure Unshared (m : Mem) (roots : ι → Option Nat) (i : ι) (r : Nat) : Prop where
  sole : ∀ {v pg j t u}, v < NUSER → ptePage (leafPte m r v) = some pg → roots j = some t →
    u < NUSER → ptePage (leafPte m t u) = some pg → j = i ∧ u = v
  notCow : ∀ {v}, v < NUSER → (leafPte m r v).getLsbD 8 = false

section Unshared

variable {m m' : Mem} {roots : ι → Option Nat} {i : ι} {r v q : Nat}

lemma Unshared.of_leaves (h : Unshared m roots i r) (hl : SameLeaves m m' roots)
    (hr : roots i = some r) : Unshared m' roots i r := by
  refine ⟨?_, fun hv => ?_⟩
  · intro v pg j t u hv hp ht hu hq
    rw [hl hr] at hp
    rw [hl ht] at hq
    exact h.sole hv hp ht hu hq
  · rw [hl hr]
    exact h.notCow hv

/-- A page that no leaf refers to is mapped. -/
lemma Unshared.map (h : Unshared m roots i r) (hr : roots i = some r)
    (hp : Placed m m' roots (Within i v (v + 1))) (hq : ptePage (leafPte m' r v) = some q)
    (hC : (leafPte m' r v).getLsbD 8 = false)
    (hfree : ∀ {j t u}, roots j = some t → u < NUSER → ptePage (leafPte m t u) ≠ some q) :
    Unshared m' roots i r := by
  -- every other leaf is as before
  have hother : ∀ {j t u}, roots j = some t → u < NUSER →
      (j = i ∧ u = v) ∨ leafPte m' t u = leafPte m t u := by
    intro j t u ht hu
    by_cases hin : Within i v (v + 1) j u
    · exact Or.inl ⟨hin.1, Nat.le_antisymm (Nat.lt_succ_iff.mp hin.2.2) hin.2.1⟩
    · exact Or.inr (hp.leaf ht (hu.trans (by decide)) hin)
  refine ⟨?_, fun {u} hu => ?_⟩
  · intro x pg j t u hx hpx ht hu hpu
    obtain ⟨-, rfl⟩ | hx' := hother hr hx
    · rw [hq, Option.some.injEq] at hpx
      obtain heq | hu' := hother ht hu
      · exact heq
      · rw [hu', ← hpx] at hpu
        exact absurd hpu (hfree ht hu)
    · rw [hx'] at hpx
      obtain ⟨rfl, rfl⟩ | hu' := hother ht hu
      · rw [hr, Option.some.injEq] at ht
        subst ht
        rw [hq, Option.some.injEq] at hpu
        rw [← hpu] at hpx
        exact absurd hpx (hfree hr hx)
      · rw [hu'] at hpu
        exact h.sole hx hpx ht hu hpu
  · obtain ⟨-, rfl⟩ | hu' := hother hr hu
    · exact hC
    · rw [hu']
      exact h.notCow hu

end Unshared

/-! ### Frames -/

section

variable [Layout] {s s' s'' : Phys} {roots : ι → Option Nat} {ker : Nat → Option κ}
  {P : ι → Nat → Prop}

/-- Outside `P` neither what the processes see nor where it is has changed. -/
structure Framed (s s' : Phys) (roots : ι → Option Nat) (ker : Nat → Option κ)
    (P : ι → Nat → Prop) : Prop extends Frame s s' roots ker P, Placed s.mem s'.mem roots P

lemma Framed.refl (s : Phys) (roots : ι → Option Nat) (ker : Nat → Option κ)
    (P : ι → Nat → Prop) : Framed s s roots ker P :=
  ⟨(Quiet.refl s roots ker).frame P, .refl s.mem roots P⟩

lemma Quiet.framed (h : Quiet s s' roots ker) (hp : Placed s.mem s'.mem roots P) :
    Framed s s' roots ker P :=
  ⟨h.frame P, hp⟩

lemma Framed.trans (h : Framed s s' roots ker P) (h' : Framed s' s'' roots ker P) :
    Framed s s'' roots ker P :=
  ⟨h.toFrame.trans h'.toFrame, h.toPlaced.trans h'.toPlaced⟩

lemma Framed.mono {ker' : Nat → Option κ} (h : Framed s s' roots ker P)
    (hroots : ∀ i r, roots' i = some r → roots i = some r)
    (hk : ∀ pg, ker' pg ≠ none → ker pg ≠ none) (hP : ∀ i v, (roots' i).isSome → P i v → P' i v) :
    Framed s s' roots' ker' P' :=
  ⟨h.toFrame.mono hroots hk hP, h.toPlaced.mono hroots hP⟩

lemma Framed.weaken (h : Framed s s' roots ker P) (hP : ∀ i v, P i v → P' i v) :
    Framed s s' roots ker P' :=
  h.mono (fun _ _ hr => hr) (fun _ hk => hk) fun i v _ => hP i v

lemma Framed.widen {i : ι} (h : Framed s s' roots ker (Within i a b)) (hc : c ≤ a) (hd : b ≤ d) :
    Framed s s' roots ker (Within i c d) :=
  h.weaken fun _ _ hu => ⟨hu.1, hc.trans hu.2.1, hu.2.2.trans_le hd⟩

/-- One leaf is written, and the pages behind the others keep their bytes. -/
lemma LeafWrite.framed {i : ι} {v : Nat} (hw : LeafWrite s.mem s'.mem roots i v w)
    (hdata : ∀ {j t u pg}, roots j = some t → u < NUSER → (j, u) ≠ (i, v) →
      ptePage (leafPte s.mem t u) = some pg → SamePage s.mem s'.mem pg)
    (hheld : ∀ {pg}, IsPage pg → ker pg ≠ none → SamePage s.mem s'.mem pg) :
    Framed s s' roots ker (Within i v (v + 1)) :=
  ⟨hw.frame hdata hheld, hw.placed⟩

end

/-! ### Pages in use -/

variable [Layout] [Fintype ι] {s s' : Phys} {roots : ι → Option Nat} {ker : Nat → Option κ}
  {pg : Nat} {m m' : Mem}

/-- The kernel holds the page, a table has it for a node, or a user leaf refers to it. -/
def InUse (m : Mem) (roots : ι → Option Nat) (ker : Nat → Option κ) (pg : Nat) : Prop :=
  ker pg ≠ none ∨
    (∃ i r path, roots i = some r ∧ ValidPath path ∧ nodeAt m r path = some pg) ∨
    ∃ i r v, roots i = some r ∧ v < NUSER ∧ ptePage (leafPte m r v) = some pg

/-- A page is free unless it is in use. -/
lemma MemInv.mem_freelist (h : MemInv s roots ker) :
    pg ∈ s.freelist ↔ IsPage pg ∧ ¬InUse s.mem roots ker pg := by
  obtain ⟨own, hinv, hker⟩ := h
  rw [hinv.pages.free]
  refine and_congr_right fun hpg => ⟨fun hown => ?_, fun huse => ?_⟩
  · rintro (hk | ⟨i, r, path, hr, hp, hn⟩ | ⟨i, r, v, hr, hv, hp⟩)
    · obtain ⟨k, hk⟩ := Option.ne_none_iff_exists'.mp hk
      rw [(hker pg hpg k).mpr hk] at hown
      cases hown
    · rw [(hinv.tables.node hr hp hn).2] at hown
      cases hown
    · rw [(hinv.pages.user hr hv hp).2] at hown
      cases hown
  · cases hown : own pg with
    | free => rfl
    | user =>
      obtain ⟨hpos, -⟩ := hinv.pages.mapped hpg hown
      obtain ⟨⟨i, v⟩, hslot⟩ := refCount_pos_iff.mp hpos
      obtain ⟨r, hr, hp⟩ := Option.bind_eq_some_iff.mp hslot
      exact absurd (Or.inr (Or.inr ⟨i, r, v, hr, v.2, hp⟩)) huse
    | node i path =>
      obtain ⟨hp, r, hr, hn⟩ := hinv.tables.covered hpg hown
      exact absurd (Or.inr (Or.inl ⟨i, r, path, hr, hp, hn⟩)) huse
    | kernel k =>
      refine absurd (Or.inl ?_) huse
      rw [(hker pg hpg k).mp hown]
      nofun

/-- The count of a page in use: its user leaves, or one for the kernel or the table that has it. -/
lemma MemInv.pgRefcnt_of_inUse (h : MemInv s roots ker) (hpg : IsPage pg)
    (huse : InUse s.mem roots ker pg) :
    s.pgRefcnt pg = if mapCount s.mem roots pg = 0 then 1 else (mapCount s.mem roots pg : Int) := by
  obtain ⟨own, hinv, hker⟩ := h
  have hpinned : (own pg).Pinned → mapCount s.mem roots pg = 0 ∧ s.pgRefcnt pg = 1 := by
    intro hpin
    refine ⟨?_, hinv.pages.held hpg hpin⟩
    rw [mapCount, refCount_eq_zero_iff]
    rintro ⟨i, v⟩ hslot
    obtain ⟨r, hr, hp⟩ := Option.bind_eq_some_iff.mp hslot
    rw [(hinv.pages.user hr v.2 hp).2] at hpin
    rcases hpin with ⟨i, path, hc⟩ | ⟨k, hc⟩ <;> cases hc
  rcases huse with hk | ⟨i, r, path, hr, hp, hn⟩ | ⟨i, r, v, hr, hv, hp⟩
  · obtain ⟨k, hk⟩ := Option.ne_none_iff_exists'.mp hk
    obtain ⟨hzero, hone⟩ := hpinned (Or.inr ⟨k, (hker pg hpg k).mpr hk⟩)
    rw [if_pos hzero, hone]
  · obtain ⟨hzero, hone⟩ := hpinned (Or.inl ⟨i, path, (hinv.tables.node hr hp hn).2⟩)
    rw [if_pos hzero, hone]
  · obtain ⟨hpos, hcnt⟩ := hinv.pages.mapped hpg (hinv.pages.user hr hv hp).2
    rw [if_neg (by omega), hcnt]

/-- The tables keep their nodes, though they may have got more, and refer to the same pages. -/
structure Keeps (m m' : Mem) (roots : ι → Option Nat) : Prop where
  node : ∀ {i r path n}, roots i = some r → ValidPath path → nodeAt m r path = some n →
    nodeAt m' r path = some n
  page : ∀ {i r v}, roots i = some r → v < NUSER →
    ptePage (leafPte m' r v) = ptePage (leafPte m r v)

omit [Layout] [Fintype ι] in
lemma SamePlaces.keeps (h : SamePlaces m m' roots) : Keeps m m' roots :=
  ⟨fun hr hp hn => (h.node hr hp).trans hn, h.page⟩

omit [Layout] [Fintype ι] in
lemma SamePlaces.symm (h : SamePlaces m m' roots) : SamePlaces m' m roots :=
  ⟨fun hr hp => (h.node hr hp).symm, fun hr hv => (h.page hr hv).symm⟩

omit [Layout] [Fintype ι] in
lemma Keeps.inUse (h : Keeps m m' roots) (huse : InUse m roots ker pg) : InUse m' roots ker pg := by
  rcases huse with hk | ⟨i, r, path, hr, hp, hn⟩ | ⟨i, r, v, hr, hv, hp⟩
  · exact Or.inl hk
  · exact Or.inr (Or.inl ⟨i, r, path, hr, hp, h.node hr hp hn⟩)
  · exact Or.inr (Or.inr ⟨i, r, v, hr, hv, (h.page hr hv).trans hp⟩)

omit [Layout] in
lemma Keeps.mapCount (h : Keeps m m' roots) : Xv6.mapCount m' roots = Xv6.mapCount m roots := by
  have hslots : userSlots m' roots = userSlots m roots := by
    funext x
    unfold userSlots
    cases hr : roots x.1 with
    | none => rfl
    | some r => exact h.page hr x.2.2
  funext pg
  rw [Xv6.mapCount, Xv6.mapCount, hslots]

/-- Pages that are not free stay so and keep their counts. -/
lemma Keeps.refcnt (hk : Keeps s.mem s'.mem roots) (h : MemInv s roots ker)
    (h' : MemInv s' roots ker) (hpg : IsPage pg) (hfree : pg ∉ s.freelist) :
    pg ∉ s'.freelist ∧ s'.pgRefcnt pg = s.pgRefcnt pg := by
  have huse : InUse s.mem roots ker pg := by
    by_contra hc
    exact hfree (h.mem_freelist.mpr ⟨hpg, hc⟩)
  refine ⟨fun hc => (h'.mem_freelist.mp hc).2 (hk.inUse huse), ?_⟩
  rw [h.pgRefcnt_of_inUse hpg huse, h'.pgRefcnt_of_inUse hpg (hk.inUse huse), hk.mapCount]

/-- The same pages are free. -/
lemma SamePlaces.mem_freelist (hs : SamePlaces s.mem s'.mem roots) (h : MemInv s roots ker)
    (h' : MemInv s' roots ker) : pg ∈ s'.freelist ↔ pg ∈ s.freelist := by
  rw [h.mem_freelist, h'.mem_freelist]
  exact and_congr_right fun _ => not_congr ⟨hs.symm.keeps.inUse, hs.keeps.inUse⟩

end Xv6
