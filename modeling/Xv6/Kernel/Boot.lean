import Xv6.Kernel.AllocSpec

/-!
# The state after `kinit`

Before any page table exists the invariant only speaks about the free list and the pages that
the kernel holds. `kinit` puts every page on the free list, once.
-/

namespace Xv6

open Lib

variable {ι κ : Type} [Layout] [Fintype ι] {E : Panic → Prop}

/-- Without page tables every page is free or held by the kernel. -/
lemma MemInv.of_no_tables {s : Phys} {ker : Nat → Option κ} (hnodup : s.freelist.Nodup)
    (hfree : ∀ pg, pg ∈ s.freelist ↔ IsPage pg ∧ ker pg = none)
    (hheld : ∀ pg, IsPage pg → ker pg ≠ none → s.pgRefcnt pg = 1) :
    MemInv s (fun _ : ι => none) ker := by
  set own : Nat → Owner ι κ := fun pg => (ker pg).elim .free .kernel with hown
  have hfreeOwn : ∀ pg, own pg = .free ↔ ker pg = none := by
    intro pg
    cases hk : ker pg <;> simp [hown, hk]
  have hkerOwn : ∀ pg k, own pg = .kernel k ↔ ker pg = some k := by
    intro pg k
    cases hk : ker pg <;> simp [hown, hk]
  have hother : ∀ pg, own pg ≠ .user ∧ ∀ i path, own pg ≠ .node i path := by
    intro pg
    cases hk : ker pg <;> simp [hown, hk]
  refine ⟨own, ⟨⟨⟨nofun, ?_, nofun⟩, nofun⟩, ⟨hnodup, ?_, nofun, ?_, ?_, nofun, nofun, nofun⟩⟩,
    fun pg _ k => hkerOwn pg k⟩
  · intro pg i path _ ho
    exact absurd ho ((hother pg).2 i path)
  · intro pg
    rw [hfree, hfreeOwn]
  · intro pg _ ho
    exact absurd ho (hother pg).1
  · rintro pg hpg (⟨i, path, ho⟩ | ⟨k, ho⟩)
    · exact absurd ho ((hother pg).2 i path)
    · exact hheld pg hpg (by rw [(hkerOwn pg k).mp ho]; nofun)

/-- What the loop of `freerange` leaves: `n` pages more on the free list. -/
lemma freerangeFrom_spec : ∀ {n p : Nat} {s : Phys}, p % PGSIZE = 0 → kend ≤ p →
    p + n * PGSIZE ≤ PHYSTOP → (∀ pg, s.pgRefcnt pg ≤ 1) → s.freelist.Nodup →
    (∀ pg ∈ s.freelist, pg < p) →
    wp (freerangeFrom p n) E (fun _ s' => s'.nomem = s.nomem ∧ s'.freelist.Nodup ∧
      ∀ pg, pg ∈ s'.freelist ↔
        pg ∈ s.freelist ∨ (pg % PGSIZE = 0 ∧ p ≤ pg ∧ pg < p + n * PGSIZE)) s := by
  intro n
  induction n with
  | zero =>
    intro p s _ _ _ _ hnodup _
    refine ⟨rfl, hnodup, fun pg => ?_⟩
    refine ⟨Or.inl, fun h => h.resolve_right ?_⟩
    rintro ⟨-, h1, h2⟩
    omega
  | succ n ih =>
    intro p s hal hlo hhi href hnodup hlt
    have hpage : IsPage p := by
      refine ⟨hal, hlo, ?_⟩
      simp only [PGSIZE] at hhi
      omega
    have hnot : p ∉ s.freelist := fun hc => lt_irrefl p (hlt p hc)
    unfold freerangeFrom
    rw [wp_bind, wp_kfree_last hpage (href p)]
    have hlist : (s.pushed p).freelist = p :: s.freelist := rfl
    refine wp_imp (ih (s := s.pushed p) ?_ ?_ ?_ href (List.nodup_cons.mpr ⟨hnot, hnodup⟩) ?_) ?_
    · simp only [PGSIZE] at hal ⊢
      omega
    · omega
    · simp only [PGSIZE] at hhi ⊢
      omega
    · intro pg hpg
      rw [hlist, List.mem_cons] at hpg
      have hpos : 0 < PGSIZE := by decide
      rcases hpg with rfl | hpg
      · omega
      · have := hlt pg hpg
        omega
    · rintro - s' ⟨hno, hnodup', hmem⟩
      refine ⟨hno, hnodup', fun pg => ?_⟩
      rw [hmem, hlist, List.mem_cons]
      simp only [PGSIZE] at hal ⊢
      constructor
      · rintro ((rfl | h) | ⟨h1, h2, h3⟩)
        · exact Or.inr ⟨hal, le_refl _, by omega⟩
        · exact Or.inl h
        · exact Or.inr ⟨h1, by omega, by omega⟩
      · rintro (h | ⟨h1, h2, h3⟩)
        · exact Or.inl (Or.inr h)
        · by_cases hp : pg = p
          · exact Or.inl (Or.inl hp)
          · exact Or.inr ⟨h1, by omega, by omega⟩

/-- After `kinit` every page is free. -/
lemma kinit_spec (m : Mem) : ∃ s, kinit m = .ok ((), s) ∧ (∀ pg, pg ∈ s.freelist ↔ IsPage pg) ∧
    MemInv s (fun _ : ι => none) (fun _ => (none : Option κ)) := by
  set s₀ : Phys := { mem := m, freelist := [], ref := fun _ => 0, nomem := 0 } with hs₀
  have hk1 : KERNBASE ≤ kend := Layout.kernbase_le
  have hk2 : kend ≤ PHYSTOP := Layout.kend_le
  have hround : pgroundup kend = (kend + PGSIZE - 1) / PGSIZE * PGSIZE := by
    apply pgroundup_eq
    unfold PHYSTOP KERNBASE at hk2
    unfold PGSIZE
    omega
  have hwp : wp (freerange kend PHYSTOP) (fun _ => False) (fun _ s =>
      (∀ pg, pg ∈ s.freelist ↔ IsPage pg) ∧
      MemInv s (fun _ : ι => none) (fun _ => (none : Option κ))) s₀ := by
    unfold freerange
    refine wp_imp (freerangeFrom_spec (pgroundup_mod _) ?_ ?_ (fun _ => zero_le_one)
      List.nodup_nil (by simp [hs₀])) ?_
    · rw [hround]
      unfold PGSIZE
      omega
    · rw [hround]
      unfold PHYSTOP KERNBASE PGSIZE at *
      omega
    · rintro - s ⟨-, hnodup, hmem⟩
      have hfree : ∀ pg, pg ∈ s.freelist ↔ IsPage pg := by
        intro pg
        rw [hmem, hround]
        simp only [hs₀, List.not_mem_nil, false_or, IsPage]
        unfold PHYSTOP KERNBASE PGSIZE at *
        omega
      exact ⟨hfree, MemInv.of_no_tables hnodup (fun pg => (hfree pg).trans (by simp))
        (fun _ _ hk => absurd rfl hk)⟩
  obtain ⟨a, s, hrun, hs⟩ := wp_run hwp
  exact ⟨s, hrun, hs⟩

end Xv6
