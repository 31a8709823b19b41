import Xv6.Kernel.OwnershipSteps

/-!
# Tables that come and go

What creating, emptying, dropping and renaming a page table does to the ownership of pages.
-/

namespace Xv6

open Function Lib

variable {ι κ : Type} [Layout] {i : ι} {r n k c : Nat} {p : List Nat}

section Tables

variable {m : Mem} {roots : ι → Option Nat} {own : Nat → Owner ι κ}

/-- The pointer to an empty table is cleared. -/
lemma TableInv.unlink (h : TableInv m roots own) (hr : roots i = some r) (hp : ValidPath p)
    (hlen : p.length < 2) (hn : nodeAt m r p = some n) (hk : k < 512)
    (hc : ptePage (ld64 m (n + 8 * k)) = some c) (hempty : EmptyNode m c) (a : κ) :
    TableInv (st64 m (n + 8 * k) 0#64) roots (update own c (.kernel a)) ∧
      SameLeaves m (st64 m (n + 8 * k) 0#64) roots ∧
      nodeAt (st64 m (n + 8 * k) 0#64) r p = some n := by
  have hcat : nodeAt m r (p ++ [k]) = some c := by rw [nodeAt_concat, hn, Option.bind_some, hc]
  have hcown := (h.node hr (hp.concat hlen hk) hcat).2
  obtain ⟨hnodes, hleaves, hnode⟩ := h.setEntry (w := 0#64) (o := .kernel a) hr hp hlen hn hk hempty
    (fun d hd => Option.some.inj (hd.symm.trans hc)) (by simp [ptePage_zero]) (Or.inl rfl)
    (fun ho => by rw [hcown] at ho; simpa [eq_comm] using ho) (by simp)
  refine ⟨h.of_sameLeaves hnodes hleaves, hleaves, ?_⟩
  rw [(hnode hr hp).2 (by simp), hn]

/-- A table of which only an empty root is left is dropped. -/
lemma TableInv.dropRoot [DecidableEq ι] (h : TableInv m roots own) (hr : roots i = some r)
    (hempty : EmptyNode m r) (a : κ) :
    TableInv m (update roots i none) (update own r (.kernel a)) := by
  have hcases : ∀ {j t}, update roots i none j = some t → j ≠ i ∧ roots j = some t := by
    intro j t ht
    by_cases hj : j = i
    · subst hj
      rw [update_self] at ht
      cases ht
    · rw [update_of_ne hj] at ht
      exact ⟨hj, ht⟩
  have hrown := (h.isPage_root hr).2
  refine ⟨⟨?_, ?_, ?_⟩, ?_⟩
  · intro j t path pg ht hp hn
    obtain ⟨hj, ht⟩ := hcases ht
    obtain ⟨h1, h2⟩ := h.node ht hp hn
    have hne : pg ≠ r := by
      rintro rfl
      rw [hrown, Owner.node.injEq] at h2
      exact hj h2.1.symm
    exact ⟨h1, by rw [update_of_ne hne, h2]⟩
  · intro pg j path hpg ho
    have hne : pg ≠ r := by
      rintro rfl
      rw [update_self] at ho
      cases ho
    rw [update_of_ne hne] at ho
    obtain ⟨hp, t, ht, hn⟩ := h.covered hpg ho
    have hj : j ≠ i := by
      rintro rfl
      rw [hr, Option.some.injEq] at ht
      subst ht
      cases path with
      | nil => exact hne (Option.some.inj hn).symm
      | cons l path =>
        rw [hempty.nodeAt (hp.2 l (by simp))] at hn
        cases hn
    exact ⟨hp, t, by rw [update_of_ne hj, ht], hn⟩
  · intro j t path n k ht hp hlen hn hk
    exact h.entry (hcases ht).2 hp hlen hn hk
  · intro j t v ht hv
    exact h.leaf (hcases ht).2 hv

def Owner.rename {ι' : Type} (f : ι → ι') : Owner ι κ → Owner ι' κ
  | .free        => .free
  | .user        => .user
  | .node i path => .node (f i) path
  | .kernel k    => .kernel k

/-- The tables get other names. -/
lemma TableInv.rename (h : TableInv m roots own) (e : ι ≃ ι) :
    TableInv m (fun j => roots (e j)) (fun pg => (own pg).rename e.symm) := by
  refine ⟨⟨?_, ?_, ?_⟩, ?_⟩
  · intro i r path pg hr hp hn
    obtain ⟨h1, h2⟩ := h.node hr hp hn
    exact ⟨h1, by simp only [h2, Owner.rename, Equiv.symm_apply_apply]⟩
  · intro pg i path hpg ho
    cases hown : own pg with
    | node j q =>
      simp only [hown, Owner.rename, Owner.node.injEq] at ho
      obtain ⟨rfl, rfl⟩ := ho
      obtain ⟨hp, r, hr, hn⟩ := h.covered hpg hown
      exact ⟨hp, r, by simpa using hr, hn⟩
    | free => simp only [hown, Owner.rename, reduceCtorEq] at ho
    | user => simp only [hown, Owner.rename, reduceCtorEq] at ho
    | kernel k => simp only [hown, Owner.rename, reduceCtorEq] at ho
  · intro i r path n k hr hp hlen hn hk
    exact h.entry hr hp hlen hn hk
  · intro i r v hr hv
    exact h.leaf hr hv

end Tables

section Pages

variable [Fintype ι] {s : Phys} {roots : ι → Option Nat} {own : Nat → Owner ι κ}

/-- The family of tables changes by tables without user leaves. -/
lemma PageInv.reroot (h : PageInv s roots own) {roots' : ι → Option Nat}
    (hsub : ∀ {j r v}, roots' j = some r → v < NUSER → (leafPte s.mem r v).getLsbD 0 = true →
      roots j = some r)
    (htop : ∀ {j r v}, roots' j = some r → NUSER ≤ v → v < 2 ^ 27 →
      (leafPte s.mem r v).getLsbD 4 = false)
    (hslots : userSlots s.mem roots' = userSlots s.mem roots) : PageInv s roots' own := by
  have hmap : mapCount s.mem roots' = mapCount s.mem roots := by
    funext pg
    rw [mapCount, mapCount, hslots]
  constructor
  · exact h.nodup
  · exact h.free
  · intro i r v pg hr hv hp
    exact h.user (hsub hr hv (ptePage_eq_some.mp hp).1) hv hp
  · intro pg hpg ho
    rw [hmap]
    exact h.mapped hpg ho
  · exact h.held
  · intro i r v hr hv hV hW
    rw [hmap]
    exact h.writable (hsub hr hv hV) hv hV hW
  · intro i r v u pg hr hv hu h1 h2
    exact h.inj (hsub hr hv (ptePage_eq_some.mp h1).1) hv hu h1 h2
  · exact htop

/-- A table without leaves may be added or removed. -/
lemma PageInv.reroot_update [DecidableEq ι] (h : PageInv s roots own) {o : Option Nat}
    (hold : ∀ r, roots i = some r → ∀ v, leafPte s.mem r v = 0#64)
    (hnew : ∀ r, o = some r → ∀ v, leafPte s.mem r v = 0#64) :
    PageInv s (update roots i o) own := by
  apply h.reroot
  · intro j r v hr hv hV
    by_cases hj : j = i
    · subst hj
      rw [update_self] at hr
      rw [hnew r hr v] at hV
      simp at hV
    · rwa [update_of_ne hj] at hr
  · intro j r v hr hv hv'
    by_cases hj : j = i
    · subst hj
      rw [update_self] at hr
      rw [hnew r hr v]
      rfl
    · rw [update_of_ne hj] at hr
      exact h.top hr hv hv'
  · funext ⟨j, v⟩
    by_cases hj : j = i
    · subst hj
      unfold userSlots
      have hbind : ∀ x : Option Nat,
          (∀ r, x = some r → ∀ v, leafPte s.mem r v = 0#64) →
          (x.bind fun r => ptePage (leafPte s.mem r v)) = none := by
        intro x hx
        cases x with
        | none => rw [Option.bind_none]
        | some r => rw [Option.bind_some, hx r rfl v, ptePage_zero]
      rw [update_self, hbind o hnew, hbind (roots j) hold]
    · simp only [userSlots, update_of_ne hj]

/-- An empty page that the kernel held becomes the root of a new table. -/
lemma PhysInv.newRoot [DecidableEq ι] (h : PhysInv s roots own) (hi : roots i = none) {q : Nat}
    (hq : IsPage q) {a : κ} (hown : own q = .kernel a) (hempty : EmptyNode s.mem q) :
    PhysInv s (update roots i (some q)) (update own q (.node i [])) := by
  constructor
  · apply h.tables.newRoot hi hq _ hempty
    intro j path hn
    rw [hown] at hn
    cases hn
  · apply PageInv.reroot_update
    · exact h.pages.rehold (fun _ _ _ _ => rfl) rfl rfl hq (Or.inr ⟨a, hown⟩)
        (Or.inl ⟨i, [], rfl⟩)
    · intro r hr
      rw [hi] at hr
      cases hr
    · intro r hr v
      rw [← Option.some.inj hr, hempty.leafPte]

/-- A table of which only an empty root is left is dropped; the kernel holds the page. -/
lemma PhysInv.dropRoot [DecidableEq ι] (h : PhysInv s roots own) (hr : roots i = some r)
    (hempty : EmptyNode s.mem r) (a : κ) :
    PhysInv s (update roots i none) (update own r (.kernel a)) := by
  obtain ⟨hpage, hown⟩ := h.tables.isPage_root hr
  constructor
  · exact h.tables.dropRoot hr hempty a
  · apply PageInv.reroot_update
    · exact h.pages.rehold (fun _ _ _ _ => rfl) rfl rfl hpage (Or.inl ⟨i, [], hown⟩)
        (Or.inr ⟨a, rfl⟩)
    · intro t ht v
      rw [hr, Option.some.injEq] at ht
      rw [← ht, hempty.leafPte]
    · intro t ht
      cases ht

/-- The pointer to an empty table is cleared; the kernel holds the page. -/
lemma PhysInv.unlink (h : PhysInv s roots own) (hr : roots i = some r) (hp : ValidPath p)
    (hlen : p.length < 2) (hn : nodeAt s.mem r p = some n) (hk : k < 512)
    (hc : ptePage (ld64 s.mem (n + 8 * k)) = some c) (hempty : EmptyNode s.mem c) (a : κ) :
    PhysInv { s with mem := st64 s.mem (n + 8 * k) 0#64 } roots
        (update own c (.kernel a)) ∧
      SameLeaves s.mem (st64 s.mem (n + 8 * k) 0#64) roots ∧
      nodeAt (st64 s.mem (n + 8 * k) 0#64) r p = some n := by
  obtain ⟨htab, hleaves, hat⟩ := h.tables.unlink hr hp hlen hn hk hc hempty a
  have hcat : nodeAt s.mem r (p ++ [k]) = some c := by
    rw [nodeAt_concat, hn, Option.bind_some, hc]
  obtain ⟨hcpage, hcown⟩ := h.tables.node hr (hp.concat hlen hk) hcat
  refine ⟨⟨htab, ?_⟩, hleaves, hat⟩
  refine h.pages.rehold hleaves ?_ ?_ hcpage (Or.inl ⟨i, p ++ [k], hcown⟩) (Or.inr ⟨a, rfl⟩) <;>
    rfl

lemma PhysInv.rename (h : PhysInv s roots own) (e : ι ≃ ι) :
    PhysInv s (fun j => roots (e j)) (fun pg => (own pg).rename e.symm) := by
  have hmap : ∀ pg, mapCount s.mem (fun j => roots (e j)) pg = mapCount s.mem roots pg :=
    fun pg => refCount_equiv (e.prodCongr (Equiv.refl _)) (userSlots s.mem roots) pg
  have hfree : ∀ o : Owner ι κ, o.rename e.symm = .free ↔ o = .free := by
    intro o; cases o <;> simp [Owner.rename]
  have huser : ∀ o : Owner ι κ, o.rename e.symm = .user ↔ o = .user := by
    intro o; cases o <;> simp [Owner.rename]
  have hpinned : ∀ o : Owner ι κ, (o.rename e.symm).Pinned → o.Pinned := by
    intro o; cases o <;> simp [Owner.rename, Owner.Pinned]
  refine ⟨h.tables.rename e, ?_⟩
  constructor
  · exact h.pages.nodup
  · intro pg
    rw [h.pages.free, hfree]
  · intro i r v pg hr hv hp
    rw [huser]
    exact h.pages.user hr hv hp
  · intro pg hpg ho
    rw [hmap]
    exact h.pages.mapped hpg ((huser _).mp ho)
  · intro pg hpg ho
    exact h.pages.held hpg (hpinned _ ho)
  · intro i r v hr hv hV hW
    rw [hmap]
    exact h.pages.writable hr hv hV hW
  · intro i r v u pg hr hv hu h1 h2
    exact h.pages.inj hr hv hu h1 h2
  · intro i r v hr hv hv'
    exact h.pages.top hr hv hv'

end Pages

end Xv6
