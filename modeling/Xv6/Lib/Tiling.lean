import Mathlib.Tactic

/-!
# Tilings by intervals

A list of intervals tiles a set of numbers if no two of them overlap and the set is their union.
Two intervals that meet may be joined, and one may be cut in two.
-/

namespace Lib

/-- The numbers from `start` on, `len` of them. -/
structure Span where
  start : Nat
  len : Nat
  deriving DecidableEq

namespace Span

variable {s t : Span} {x : Nat}

def stop (s : Span) : Nat := s.start + s.len

instance : Membership Nat Span := ⟨fun s x => s.start ≤ x ∧ x < s.stop⟩

lemma mem_iff : x ∈ s ↔ s.start ≤ x ∧ x < s.stop := Iff.rfl

/-- The intervals do not overlap. -/
def Apart (s t : Span) : Prop := s.stop ≤ t.start ∨ t.stop ≤ s.start

lemma Apart.symm (h : s.Apart t) : t.Apart s := Or.symm h

instance : Std.Symm Apart := ⟨fun _ _ => Apart.symm⟩

end Span

/-- The intervals of `l`, none of them empty, tile `S`. -/
structure Tiles (l : List Span) (S : Set Nat) : Prop where
  pos : ∀ s ∈ l, 0 < s.len
  apart : l.Pairwise Span.Apart
  cover : ∀ x, x ∈ S ↔ ∃ s ∈ l, x ∈ s

variable {l l' : List Span} {S : Set Nat} {s t : Span} {a n k : Nat}

lemma Tiles.perm (h : Tiles l S) (hl : l.Perm l') : Tiles l' S := by
  refine ⟨fun s hs => h.pos s (hl.mem_iff.mpr hs), ?_, ?_⟩
  · exact (hl.pairwise_iff Span.Apart.symm).mp h.apart
  · intro x
    rw [h.cover]
    exact exists_congr fun s => and_congr_left' hl.mem_iff

/-- The first interval does not overlap the others. -/
lemma Tiles.apart_head (h : Tiles (s :: l) S) (ht : t ∈ l) : s.Apart t :=
  List.rel_of_pairwise_cons h.apart ht

lemma tiles_cons_iff : Tiles (s :: l) S ↔ 0 < s.len ∧ (∀ t ∈ l, s.Apart t) ∧
    ∃ S', Tiles l S' ∧ ∀ x, x ∈ S ↔ x ∈ s ∨ x ∈ S' := by
  constructor
  · intro h
    refine ⟨h.pos s List.mem_cons_self, fun t => h.apart_head,
      {x | ∃ t ∈ l, x ∈ t}, ⟨?_, h.apart.of_cons, fun x => Iff.rfl⟩, ?_⟩
    · exact fun t ht => h.pos t (List.mem_cons_of_mem s ht)
    · intro x
      rw [h.cover, List.exists_mem_cons_iff]
      rfl
  · rintro ⟨hpos, hapart, S', h, hS⟩
    refine ⟨List.forall_mem_cons.mpr ⟨hpos, h.pos⟩, List.pairwise_cons.mpr ⟨hapart, h.apart⟩, ?_⟩
    intro x
    rw [hS, h.cover, List.exists_mem_cons_iff]

/-- Two intervals that meet are one. -/
lemma tiles_join (hn : 0 < n) (hk : 0 < k) :
    Tiles (⟨a, n⟩ :: ⟨a + n, k⟩ :: l) S ↔ Tiles (⟨a, n + k⟩ :: l) S := by
  have hmem : ∀ x, x ∈ (⟨a, n + k⟩ : Span) ↔ x ∈ (⟨a, n⟩ : Span) ∨ x ∈ (⟨a + n, k⟩ : Span) := by
    intro x
    simp only [Span.mem_iff, Span.stop]
    omega
  have hapart : ∀ t : Span, 0 < t.len → ((⟨a, n + k⟩ : Span).Apart t ↔
      (⟨a, n⟩ : Span).Apart t ∧ (⟨a + n, k⟩ : Span).Apart t) := by
    intro t ht
    simp only [Span.Apart, Span.stop]
    omega
  constructor
  · intro h
    obtain ⟨-, h1, S₁, h', hS⟩ := tiles_cons_iff.mp h
    obtain ⟨-, h2, S₂, h'', hS'⟩ := tiles_cons_iff.mp h'
    refine tiles_cons_iff.mpr ⟨Nat.add_pos_left hn k, ?_, S₂, h'', ?_⟩
    · intro t ht
      exact (hapart t (h''.pos t ht)).mpr ⟨h1 t (List.mem_cons_of_mem _ ht), h2 t ht⟩
    · intro x
      rw [hS, hS', hmem, or_assoc]
  · intro h
    obtain ⟨-, h1, S₁, h', hS⟩ := tiles_cons_iff.mp h
    have hboth : ∀ t ∈ l, (⟨a, n⟩ : Span).Apart t ∧ (⟨a + n, k⟩ : Span).Apart t :=
      fun t ht => (hapart t (h'.pos t ht)).mp (h1 t ht)
    refine tiles_cons_iff.mpr ⟨hn, ?_, {x | x ∈ (⟨a + n, k⟩ : Span) ∨ x ∈ S₁},
      tiles_cons_iff.mpr ⟨hk, fun t ht => (hboth t ht).2, S₁, h', fun x => Iff.rfl⟩, ?_⟩
    · rw [List.forall_mem_cons]
      exact ⟨Or.inl (le_refl _), fun t ht => (hboth t ht).1⟩
    · intro x
      rw [hS, hmem, or_assoc]
      rfl

/-! ### Joining neighbours -/

/-- The first ends before the second starts. -/
def Span.Gap (s t : Span) : Prop := s.stop < t.start

/-- `s'` is `s`, joined with the first interval of `l` if the two meet, and `l'` are the others. -/
inductive Joined (s : Span) : List Span → Span → List Span → Prop
  | apart {l : List Span} : (∀ t ∈ l, s.Gap t) → Joined s l s l
  | meet {t : Span} {l : List Span} : s.stop = t.start →
      Joined s (t :: l) ⟨s.start, s.len + t.len⟩ l

variable {s' : Span}

lemma Joined.start (h : Joined s l s' l') : s'.start = s.start := by
  cases h <;> rfl

lemma Joined.len_le (h : Joined s l s' l') : s.len ≤ s'.len := by
  cases h with
  | apart => exact le_refl _
  | meet => exact Nat.le_add_right _ _

lemma Joined.mem (h : Joined s l s' l') (ht : t ∈ l') : t ∈ l := by
  cases h with
  | apart => exact ht
  | meet => exact List.mem_cons_of_mem _ ht

lemma Joined.sublist (h : Joined s l s' l') :
    ((s' :: l').map Span.start).Sublist ((s :: l).map Span.start) := by
  cases h with
  | apart => exact List.Sublist.refl _
  | meet => exact (List.sublist_cons_self _ _).cons_cons _

/-- The first of the others is joined, or kept. -/
lemma Joined.exists_len_le (h : Joined s (t :: l) s' l') : ∃ u ∈ s' :: l', t.len ≤ u.len := by
  cases h with
  | apart => exact ⟨t, List.mem_cons_of_mem s List.mem_cons_self, le_refl _⟩
  | meet => exact ⟨_, List.mem_cons_self, Nat.le_add_left _ _⟩

/-- The new intervals start and end where old ones do. -/
lemma Joined.within (h : Joined s l s' l') {lo hi : Nat}
    (hl : ∀ t ∈ s :: l, lo ≤ t.start ∧ t.stop ≤ hi) :
      ∀ t ∈ s' :: l', lo ≤ t.start ∧ t.stop ≤ hi := by
  cases h with
  | apart => exact hl
  | @meet t l hmeet =>
    have hs := hl s List.mem_cons_self
    have ht := hl t (List.mem_cons_of_mem s List.mem_cons_self)
    rw [List.forall_mem_cons]
    refine ⟨⟨hs.1, ?_⟩, fun u hu => hl u (List.mem_cons_of_mem s (List.mem_cons_of_mem t hu))⟩
    simp only [Span.stop] at hmeet ht ⊢
    omega

lemma Joined.ordered (h : Joined s l s' l') (hl : l.Pairwise Span.Gap) :
    (s' :: l').Pairwise Span.Gap := by
  cases h with
  | apart hgap => exact List.pairwise_cons.mpr ⟨hgap, hl⟩
  | @meet t l hmeet =>
    obtain ⟨hfirst, hl⟩ := List.pairwise_cons.mp hl
    refine List.pairwise_cons.mpr ⟨fun u hu => ?_, hl⟩
    have := hfirst u hu
    simp only [Span.Gap, Span.stop] at hmeet this ⊢
    omega

lemma Joined.tiles (h : Joined s l s' l') {r : List Span} (ht : Tiles (s :: (l ++ r)) S) :
    Tiles (s' :: (l' ++ r)) S := by
  cases h with
  | apart => exact ht
  | @meet t l hmeet =>
    have hs := ht.pos s List.mem_cons_self
    have ht' := ht.pos t (List.mem_cons_of_mem s List.mem_cons_self)
    refine (tiles_join hs ht').mp ?_
    rw [Span.stop] at hmeet
    rw [hmeet]
    exact ht

end Lib
