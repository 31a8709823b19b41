import Xv6.Lib.Tiling
import Xv6.User.Umalloc

/-!
# The free list

The blocks of the free list, `base` among them, are linked into a circle in the order of their
addresses, and no two of them meet. `free` puts a block in its place and joins it with its
neighbours; `malloc` takes a block off the list, or the end of one.
-/

namespace Xv6.Umalloc

open Lib

/-- All blocks end below this address. A block then has fewer than `2 ^ 32` units. -/
def LIMIT : Nat := 2 ^ 35

lemma LIMIT_lt : LIMIT < 2 ^ 64 := by decide

/-- The header of the block tells its length. -/
def Sized (m : Mem) (s : Span) : Prop := s.len = HEADER * size m s.start

/-- The blocks are linked into a circle, in the order of their addresses and with gaps. -/
structure Linked (m : Mem) (G : List Span) : Prop where
  ring : Ring (ptr m) (G.map Span.start)
  sized : ∀ s ∈ G, Sized m s
  ordered : G.Pairwise Span.Gap
  headers : (G.map Span.start).Pairwise fun p q => p + HEADER ≤ q
  below : ∀ s ∈ G, s.stop ≤ LIMIT

variable {m m' : Mem} {G A B N : List Span} {s t b : Span} {l : List Nat} {f p q k base : Nat}

/-! ### Blocks and their headers -/

lemma Sized.congr (h : Sized m s) (hsize : size m' s.start = size m s.start) : Sized m' s := by
  rw [Sized, hsize]
  exact h

lemma Sized.header_le (h : Sized m s) (hpos : 0 < s.len) : s.start + HEADER ≤ s.stop := by
  unfold Sized at h
  unfold Span.stop
  have : 0 < size m s.start := Nat.pos_of_ne_zero fun hc => by rw [hc] at h; omega
  rw [h]
  exact Nat.add_le_add_left (Nat.le_mul_of_pos_right _ this) _

/-- `p + p->s.size` is the end of the block at `p`. -/
lemma Sized.plus_size (h : Sized m s) (hbelow : s.stop ≤ LIMIT) :
    plus s.start (size m s.start) = s.stop := by
  unfold Sized at h
  unfold Span.stop at hbelow ⊢
  rw [h] at hbelow ⊢
  exact plus_natCast (hbelow.trans_lt LIMIT_lt)

lemma lt_of_stop_le (h : s.stop ≤ LIMIT) : s.start < 2 ^ 64 :=
  ((Nat.le_add_right _ _).trans h).trans_lt LIMIT_lt

/-- The block of two blocks that meet is sized if its header has the sum of their sizes. -/
lemma Sized.join (hs : Sized m s) (ht : Sized m t) (hstop : s.start + (s.len + t.len) ≤ LIMIT)
    (hsize : size m' s.start = (size m s.start + size m t.start) % 2 ^ 32) :
    Sized m' ⟨s.start, s.len + t.len⟩ := by
  unfold Sized HEADER at *
  unfold LIMIT at hstop
  simp only [hsize]
  omega

/-! ### Links -/

/-- A new link to a chain of other blocks. -/
lemma leads_link (h : Leads (ptr m) q l p) (hfar : ∀ x ∈ q :: l, Far p x) (hq : q < 2 ^ 64) :
    Leads (ptr (setPtr m p q)) p (q :: l) p :=
  ⟨ptr_setPtr_self hq, h.congr (only_setPtr.ptr (hfar q List.mem_cons_self)) fun x hx =>
    only_setPtr.ptr (hfar x (List.mem_cons_of_mem q hx))⟩

/-- The header at `p` gets the link of the one at `q`. -/
lemma leads_skip (h : Leads (ptr m) q l f) (honly : Only m m' p) (hp : ptr m' p = ptr m q)
    (hfar : ∀ x ∈ l, Far p x) : Leads (ptr m') p l f :=
  h.congr hp fun x hx => honly.ptr (hfar x hx)

lemma Linked.congr (h : Linked m G)
    (hsame : ∀ p ∈ G.map Span.start, ptr m' p = ptr m p ∧ size m' p = size m p) : Linked m' G :=
  ⟨h.ring.congr fun p hp => (hsame p hp).1,
    fun s hs => (h.sized s hs).congr (hsame _ (List.mem_map_of_mem hs)).2, h.ordered, h.headers,
    h.below⟩

lemma Linked.leads (h : Linked m (A ++ s :: B)) :
    Leads (ptr m) s.start (B.map Span.start ++ A.map Span.start) s.start := by
  have hring := h.ring
  rwa [List.map_append, List.map_cons, ring_iff_leads] at hring

/-- Below `s` the links go up to it; from `s` on they go up, and the last goes to the first. -/
lemma Linked.next (h : Linked m (A ++ s :: B)) :
    (∀ x ∈ A.map Span.start, x < ptr m x ∧ ptr m x ≤ s.start) ∧
      ∃ first ≤ s.start, ∀ x ∈ (s :: B).map Span.start,
        ptr m x = first ∨ (ptr m x ∈ B.map Span.start ∧ x < ptr m x) := by
  have hhead := h.headers
  rw [List.map_append, List.map_cons, List.pairwise_append] at hhead
  obtain ⟨hA, hB, hAB⟩ := hhead
  have hring := h.ring
  rw [List.map_append, List.map_cons] at hring
  have hup : ∀ {first}, Leads (ptr m) s.start (B.map Span.start) first →
      ∀ x ∈ (s :: B).map Span.start,
        ptr m x = first ∨ (ptr m x ∈ B.map Span.start ∧ x < ptr m x) := by
    intro first hleads x hx
    refine (hleads.next_cases hB hx).imp_right (And.imp_right fun hlt => ?_)
    unfold HEADER at hlt
    omega
  cases hl : A.map Span.start with
  | nil =>
    rw [hl] at hring
    exact ⟨fun x hx => absurd hx List.not_mem_nil, s.start, le_refl _, hup hring⟩
  | cons a l =>
    rw [hl] at hring hA hAB
    obtain ⟨hlow, hhigh⟩ := leads_append.mp hring
    have hbelow : ∀ x ∈ a :: l, x + HEADER ≤ s.start := fun x hx =>
      hAB x hx s.start List.mem_cons_self
    refine ⟨fun x hx => ?_, a, ?_, hup hhigh⟩
    · have hx' := hbelow x hx
      unfold HEADER at hx' hbelow
      rcases hlow.next_cases hA hx with hnext | ⟨hmem, hlt⟩
      · omega
      · have := hbelow _ (List.mem_cons_of_mem a hmem)
        unfold HEADER at hlt
        omega
    · exact (Nat.le_add_right _ _).trans (hbelow a List.mem_cons_self)

/-! ### The place of a block -/

/-- The place of the block is between `s` and the blocks of `B`. -/
structure Place (s : Span) (B : List Span) (b : Span) : Prop where
  lower : s.stop ≤ b.start
  header : s.start + HEADER ≤ b.start
  upper : ∀ t ∈ B, b.stop ≤ t.start

/-- The loop of `free` ends at the block below the place, and nowhere else. -/
lemma Linked.belongs_iff (h : Linked m (A ++ s :: B)) (hb : Place s B b) (hpos : 0 < b.len)
    {x : Nat}
    (hx : x ∈ (A ++ s :: B).map Span.start) : belongs m b.start x = true ↔ x = s.start := by
  obtain ⟨hlow, first, hfirst, hhigh⟩ := h.next
  have hs := hb.header
  have hup : ∀ y ∈ B.map Span.start, b.start < y := by
    intro y hy
    obtain ⟨t, ht, rfl⟩ := List.mem_map.mp hy
    have := hb.upper t ht
    unfold Span.stop at this
    omega
  unfold HEADER at hs
  simp only [belongs, Bool.or_eq_true, decide_eq_true_eq]
  rw [List.map_append, List.mem_append] at hx
  rcases hx with hx | hx
  · have := hlow x hx
    omega
  · have hnext := hhigh x hx
    rw [List.map_cons, List.mem_cons] at hx
    rcases hx with rfl | hx
    · rcases hnext with hnext | ⟨hmem, -⟩
      · omega
      · have := hup _ hmem
        omega
    · have := hup x hx
      omega

/-- The loop of `free` finds the place, wherever it starts. -/
lemma Linked.search (h : Linked m (A ++ s :: B)) (hb : Place s B b) (hpos : 0 < b.len)
    (hf : f ∈ (A ++ s :: B).map Span.start) (hk : (A ++ s :: B).length ≤ k) :
    Lib.search (ptr m) (belongs m b.start) k f = some s.start := by
  obtain ⟨l₁, l₂, hl⟩ := List.append_of_mem hf
  have hmem : ∀ x, x ∈ f :: (l₂ ++ l₁) ↔ x ∈ (A ++ s :: B).map Span.start := by
    intro x
    rw [hl]
    simp only [List.mem_cons, List.mem_append]
    tauto
  have hring := h.ring
  rw [hl, ring_iff_leads] at hring
  have hs : s.start ∈ (A ++ s :: B).map Span.start :=
    List.mem_map_of_mem (List.mem_append_right A List.mem_cons_self)
  have hlen : (l₂ ++ l₁).length < k := by
    have := congrArg List.length hl
    simp only [List.length_map, List.length_append, List.length_cons] at this hk ⊢
    omega
  obtain ⟨x, hx, hsx, hfound⟩ := hring.search
    ⟨_, (hmem _).mpr hs, (h.belongs_iff hb hpos hs).mpr rfl⟩ hlen
  rw [hfound, (h.belongs_iff hb hpos ((hmem x).mp hx)).mp hsx]

/-! ### Joining -/

lemma only_joinUpper : Only m (joinUpper m q p) q := by
  unfold joinUpper
  split_ifs
  · exact only_setSize.trans only_setPtr
  · exact only_setPtr

lemma only_joinLower : Only m (joinLower m q p) p := by
  unfold joinLower
  split_ifs
  · exact only_setSize.trans only_setPtr
  · exact only_setPtr

/-- The block takes in the one above it if they meet, and is linked to the next. -/
lemma joinUpper_spec (h : Linked m (A ++ s :: B)) (hb : Place s B b) (hsized : Sized m b)
    (hpos : 0 < b.len) (hbelow : b.stop ≤ LIMIT) : ∃ b' B', Joined b B b' B' ∧
      Sized (joinUpper m b.start s.start) b' ∧
      Leads (ptr (joinUpper m b.start s.start)) b.start
        (B'.map Span.start ++ A.map Span.start) s.start := by
  have hleads := h.leads
  have hfar : ∀ x ∈ B.map Span.start ++ A.map Span.start, Far b.start x := by
    intro x hx
    rcases List.mem_append.mp hx with hx | hx
    · obtain ⟨t, ht, rfl⟩ := List.mem_map.mp hx
      exact Or.inl ((hsized.header_le hpos).trans (hb.upper t ht))
    · have hhead := h.headers
      rw [List.map_append, List.map_cons, List.pairwise_append] at hhead
      exact Or.inr (((hhead.2.2 x hx s.start List.mem_cons_self).trans
        (Nat.le_add_right _ _)).trans hb.header)
  unfold joinUpper
  rw [hsized.plus_size hbelow]
  split_ifs with hmeet
  · cases B with
    | nil =>
      obtain ⟨-, first, hfirst, hnext⟩ := h.next
      have := hb.header
      obtain hnext | ⟨hmem, -⟩ := hnext s.start List.mem_cons_self
      · unfold Span.stop HEADER at *
        omega
      · exact absurd hmem List.not_mem_nil
    | cons t B =>
      obtain ⟨hnext, hleads⟩ := hleads
      have hmem : t ∈ A ++ s :: t :: B := by simp
      have hsize : Only m (setSize m b.start (size m b.start + size m (ptr m s.start))) b.start :=
        only_setSize
      have honly := fun v => hsize.trans (only_setPtr (v := v))
      refine ⟨⟨b.start, b.len + t.len⟩, B, .meet (hmeet.trans hnext), ?_, ?_⟩
      · refine hsized.join (h.sized t hmem) ?_ ?_
        · have := h.below t hmem
          unfold Span.stop at this hmeet
          omega
        · rw [size_setPtr_self, size_setSize, hnext]
      · refine leads_skip hleads (honly _) ?_ fun x hx => hfar x (List.mem_cons_of_mem _ hx)
        rw [ptr_setPtr_self (ptr_lt _ _), hsize.ptr (Or.inr hb.header), hnext,
          only_setSize.ptr (hfar t.start List.mem_cons_self)]
  · refine ⟨b, B, .apart ?_, hsized.congr size_setPtr_self,
      leads_skip hleads only_setPtr (ptr_setPtr_self (ptr_lt m s.start)) hfar⟩
    cases B with
    | nil => exact fun t ht => absurd ht List.not_mem_nil
    | cons t B =>
      have hgap : b.Gap t := lt_of_le_of_ne (hb.upper t List.mem_cons_self) fun hc =>
        hmeet (hc.trans hleads.1.symm)
      have hord := (List.pairwise_append.mp h.ordered).2.1.of_cons
      refine List.forall_mem_cons.mpr ⟨hgap, fun u hu => ?_⟩
      have := List.rel_of_pairwise_cons hord hu
      unfold Span.Gap Span.stop at *
      omega

/-- The block below takes in the block if they meet, or is linked to it. -/
lemma joinLower_spec (hs : Sized m s) (hsbelow : s.stop ≤ LIMIT) (hsized : Sized m b)
    (hbelow : b.stop ≤ LIMIT) (hle : s.stop ≤ b.start) (hgap : ∀ t ∈ B, b.Gap t)
    (hfar : ∀ x ∈ b.start :: (B.map Span.start ++ l), Far s.start x)
    (hleads : Leads (ptr m) b.start (B.map Span.start ++ l) s.start) :
    ∃ s' B', Joined s (b :: B) s' B' ∧ Sized (joinLower m b.start s.start) s' ∧
      Leads (ptr (joinLower m b.start s.start)) s.start (B'.map Span.start ++ l) s.start := by
  unfold joinLower
  rw [hs.plus_size hsbelow]
  split_ifs with hmeet
  · have hsize : Only m (setSize m s.start (size m s.start + size m b.start)) s.start :=
      only_setSize
    have honly := fun v => hsize.trans (only_setPtr (v := v))
    refine ⟨⟨s.start, s.len + b.len⟩, B, .meet hmeet, ?_, ?_⟩
    · refine hs.join hsized ?_ ?_
      · unfold Span.stop at hmeet hbelow
        omega
      · rw [size_setPtr_self, size_setSize]
    · refine leads_skip hleads (honly _) ?_ fun x hx => hfar x (List.mem_cons_of_mem _ hx)
      rw [ptr_setPtr_self (ptr_lt _ _), hsize.ptr (hfar b.start List.mem_cons_self)]
  · have hlt : s.Gap b := lt_of_le_of_ne hle hmeet
    refine ⟨s, b :: B, .apart ?_, hs.congr size_setPtr_self,
      leads_link hleads hfar (lt_of_stop_le hbelow)⟩
    refine List.forall_mem_cons.mpr ⟨hlt, fun t ht => ?_⟩
    have := hgap t ht
    unfold Span.Gap Span.stop at *
    omega

/-- The headers are apart also with that of the new block. -/
lemma Linked.headers_insert (h : Linked m (A ++ s :: B)) (hb : Place s B b) (hsized : Sized m b)
    (hpos : 0 < b.len) :
    ((A ++ s :: b :: B).map Span.start).Pairwise fun p q => p + HEADER ≤ q := by
  have hhead := h.headers
  have hsb := hb.header
  have hbB : ∀ q ∈ B.map Span.start, b.start + HEADER ≤ q := by
    intro q hq
    obtain ⟨t, ht, rfl⟩ := List.mem_map.mp hq
    exact (hsized.header_le hpos).trans (hb.upper t ht)
  rw [List.map_append, List.map_cons, List.pairwise_append, List.pairwise_cons] at hhead
  obtain ⟨hA, ⟨hsB, hB⟩, hAB⟩ := hhead
  rw [List.map_append, List.map_cons, List.map_cons, List.pairwise_append, List.pairwise_cons,
    List.pairwise_cons]
  refine ⟨hA, ⟨List.forall_mem_cons.mpr ⟨hsb, hsB⟩, hbB, hB⟩, fun p hp => ?_⟩
  obtain ⟨hps, hpB⟩ := List.forall_mem_cons.mp (hAB p hp)
  exact List.forall_mem_cons.mpr ⟨hps, List.forall_mem_cons.mpr ⟨by omega, hpB⟩⟩

/-- What `free` does to the list. -/
lemma Linked.insert (h : Linked m (A ++ s :: B)) (hb : Place s B b) (hsized : Sized m b)
    (hpos : 0 < b.len) (hbelow : b.stop ≤ LIMIT) :
    ∃ b' B' s' B'', Joined b B b' B' ∧ Joined s (b' :: B') s' B'' ∧
      Linked (joinLower (joinUpper m b.start s.start) b.start s.start) (A ++ s' :: B'') := by
  obtain ⟨b', B', hj, hb', hleads⟩ := joinUpper_spec h hb hsized hpos hbelow
  have honly : Only m (joinUpper m b.start s.start) b.start := only_joinUpper
  generalize joinUpper m b.start s.start = m₁ at hb' hleads honly ⊢
  have hheaders := h.headers_insert hb hsized hpos
  obtain ⟨hordA, hordB, hordAB⟩ := List.pairwise_append.mp h.ordered
  obtain ⟨hbelowA, hbelowB⟩ := List.forall_mem_append.mp h.below
  obtain ⟨hbelows, hbelowB⟩ := List.forall_mem_cons.mp hbelowB
  have hordb := hj.ordered hordB.of_cons
  have hwithin : ∀ t ∈ b' :: B', b.start ≤ t.start ∧ t.stop ≤ LIMIT :=
    hj.within (List.forall_mem_cons.mpr ⟨⟨le_refl _, hbelow⟩, fun t ht =>
      ⟨(Nat.le_add_right _ _).trans (hb.upper t ht), hbelowB t ht⟩⟩)
  have hwithin' : ∀ t ∈ s :: b' :: B', s.start ≤ t.start ∧ t.stop ≤ LIMIT :=
    List.forall_mem_cons.mpr ⟨⟨le_refl _, hbelows⟩, fun t ht =>
      ⟨((Nat.le_add_right _ _).trans hb.lower).trans (hwithin t ht).1, (hwithin t ht).2⟩⟩
  -- the header of `s` is apart from all others, and so is the header of the block
  have hfars : ∀ x ∈ b.start :: (B.map Span.start ++ A.map Span.start), Far s.start x := by
    rw [List.map_append, List.map_cons, List.map_cons, List.pairwise_append,
      List.pairwise_cons] at hheaders
    obtain ⟨-, ⟨hup, -⟩, hlow⟩ := hheaders
    intro x hx
    rw [← List.cons_append, List.mem_append] at hx
    rcases hx with hx | hx
    · exact Or.inl (hup x hx)
    · exact Or.inr (hlow x hx _ List.mem_cons_self)
  have hfarb : ∀ x ∈ s.start :: (B.map Span.start ++ A.map Span.start), Far b.start x := by
    rw [List.map_append, List.map_cons, List.map_cons, List.pairwise_append, List.pairwise_cons,
      List.pairwise_cons] at hheaders
    obtain ⟨-, ⟨-, hup, -⟩, hlow⟩ := hheaders
    refine List.forall_mem_cons.mpr ⟨Or.inr hb.header, fun x hx => ?_⟩
    rcases List.mem_append.mp hx with hx | hx
    · exact Or.inl (hup x hx)
    · exact Or.inr (hlow x hx _ (List.mem_cons_of_mem _ List.mem_cons_self))
  have hsub : ∀ x ∈ b'.start :: (B'.map Span.start ++ A.map Span.start),
      x ∈ b.start :: (B.map Span.start ++ A.map Span.start) :=
    fun x hx => (hj.sublist.append_right _).subset hx
  have hs : Sized m₁ s :=
    (h.sized s (by simp)).congr (honly.size (hfarb _ List.mem_cons_self))
  rw [← hj.start] at hleads
  obtain ⟨s', B'', hj', hs', hleads'⟩ := joinLower_spec hs hbelows hb'
    (hwithin b' List.mem_cons_self).2 (hb.lower.trans_eq hj.start.symm)
    (fun t ht => List.rel_of_pairwise_cons hordb ht) (fun x hx => hfars x (hsub x hx)) hleads
  rw [hj.start] at hs' hleads'
  have honly' : Only m₁ (joinLower m₁ b.start s.start) s.start := only_joinLower
  refine ⟨b', B', s', B'', hj, hj', ?_, ?_, ?_, ?_, ?_⟩
  · rw [List.map_append, List.map_cons, ring_iff_leads, hj'.start]
    exact hleads'
  · have hstart : ∀ t ∈ B, t.start ∈ B.map Span.start ++ A.map Span.start := fun t ht =>
      List.mem_append_left _ (List.mem_map_of_mem ht)
    have hold : ∀ t, t.start ∈ B.map Span.start ++ A.map Span.start → Sized m t →
        Sized (joinLower m₁ b.start s.start) t := fun t hmem ht =>
      (ht.congr (honly.size (hfarb _ (List.mem_cons_of_mem _ hmem)))).congr
        (honly'.size (hfars _ (List.mem_cons_of_mem _ hmem)))
    refine List.forall_mem_append.mpr ⟨fun t ht => ?_, List.forall_mem_cons.mpr ⟨hs', ?_⟩⟩
    · exact hold t (List.mem_append_right _ (List.mem_map_of_mem ht))
        (h.sized t (List.mem_append_left _ ht))
    · intro t ht
      rcases List.mem_cons.mp (hj'.mem ht) with rfl | ht
      · exact hb'.congr (honly'.size (hfars _ (hj.start ▸ List.mem_cons_self)))
      · exact hold t (hstart t (hj.mem ht)) (h.sized t (by simp [hj.mem ht]))
  · refine List.pairwise_append.mpr ⟨hordA, hj'.ordered hordb, fun a ha t ht => ?_⟩
    exact (hordAB a ha s List.mem_cons_self).trans_le (hj'.within hwithin' t ht).1
  · refine hheaders.sublist ?_
    rw [List.map_append, List.map_append]
    exact (hj'.sublist.trans (hj.sublist.cons_cons _)).append_left _
  · exact List.forall_mem_append.mpr ⟨hbelowA, fun t ht => (hj'.within hwithin' t ht).2⟩

/-! ### Taking a block off the list -/

/-- The block after `p` is unlinked. -/
lemma Linked.unlink (h : Linked m (A ++ s :: t :: B)) :
    Linked (setPtr m s.start (ptr m t.start)) (A ++ s :: B) := by
  have hsub : (A ++ s :: B).Sublist (A ++ s :: t :: B) :=
    ((List.sublist_cons_self t B).cons_cons s).append_left A
  have hheaders := h.headers
  rw [List.map_append, List.map_cons, List.pairwise_append, List.pairwise_cons] at hheaders
  obtain ⟨-, ⟨hup, -⟩, hlow⟩ := hheaders
  refine ⟨?_, fun u hu => ?_, h.ordered.sublist hsub, h.headers.sublist (hsub.map _),
    fun u hu => h.below u (hsub.subset hu)⟩
  · rw [List.map_append, List.map_cons, ring_iff_leads]
    refine leads_skip h.leads.2 only_setPtr (ptr_setPtr_self (ptr_lt m t.start)) fun x hx => ?_
    rcases List.mem_append.mp hx with hx | hx
    · exact Or.inl (hup x (List.mem_cons_of_mem _ hx))
    · exact Or.inr (hlow x hx _ List.mem_cons_self)
  · refine (h.sized u (hsub.subset hu)).congr ?_
    rcases List.mem_append.mp hu with hu | hu
    · exact only_setPtr.size (Or.inr (hlow _ (List.mem_map_of_mem hu) _ List.mem_cons_self))
    · rcases List.mem_cons.mp hu with rfl | hu
      · exact size_setPtr_self
      · exact only_setPtr.size (Or.inl (hup _ (List.mem_cons_of_mem _ (List.mem_map_of_mem hu))))

/-- The end of a block is cut off, and gets a header of its own. -/
lemma Linked.cut (h : Linked m (A ++ s :: B)) {n : Nat} (hn : 0 < n) (hlt : n < size m s.start)
    (hq : q = s.start + HEADER * (size m s.start - n)) :
    Linked (setSize (setSize m s.start (size m s.start - n)) q n)
        (A ++ ⟨s.start, HEADER * (size m s.start - n)⟩ :: B) ∧
      Sized (setSize (setSize m s.start (size m s.start - n)) q n) ⟨q, HEADER * n⟩ := by
  have hmem : s ∈ A ++ s :: B := List.mem_append_right A List.mem_cons_self
  have hlen := h.sized s hmem
  have hrange := size_lt m s.start
  have hheaders := h.headers
  rw [List.map_append, List.map_cons, List.pairwise_append, List.pairwise_cons] at hheaders
  obtain ⟨-, ⟨hup, -⟩, hlow⟩ := hheaders
  obtain ⟨hordA, hordB, hordAB⟩ := List.pairwise_append.mp h.ordered
  obtain ⟨hordB, hordB'⟩ := List.pairwise_cons.mp hordB
  unfold Sized at hlen
  unfold Span.Gap Span.stop at hordB
  -- the new header lies in the block, behind the old one
  have hsq : s.start + HEADER ≤ q := by unfold HEADER at *; omega
  have hfar : ∀ u ∈ A ++ B, Far s.start u.start ∧ Far q u.start := by
    refine List.forall_mem_append.mpr ⟨fun u hu => ?_, fun u hu => ?_⟩
    · have := hlow _ (List.mem_map_of_mem hu) _ List.mem_cons_self
      exact ⟨Or.inr this, Or.inr (by unfold HEADER at *; omega)⟩
    · have := hordB u hu
      exact ⟨Or.inl (hup _ (List.mem_map_of_mem hu)), Or.inl (by unfold HEADER at *; omega)⟩
  have hptr : ptr (setSize (setSize m s.start (size m s.start - n)) q n) s.start = ptr m s.start :=
    (only_setSize.ptr (Or.inr hsq)).trans ptr_setSize_self
  have hsize : size (setSize (setSize m s.start (size m s.start - n)) q n) s.start
      = size m s.start - n :=
    (only_setSize.size (Or.inr hsq)).trans (size_setSize_self (by omega))
  have hold : ∀ u ∈ A ++ B,
      ptr (setSize (setSize m s.start (size m s.start - n)) q n) u.start = ptr m u.start ∧
      size (setSize (setSize m s.start (size m s.start - n)) q n) u.start = size m u.start :=
    fun u hu => ⟨(only_setSize.ptr (hfar u hu).2).trans (only_setSize.ptr (hfar u hu).1),
      (only_setSize.size (hfar u hu).2).trans (only_setSize.size (hfar u hu).1)⟩
  have hmem' : ∀ u ∈ A ++ B, u ∈ A ++ s :: B := fun u hu =>
    List.perm_middle.mem_iff.mpr (List.mem_cons_of_mem s hu)
  refine ⟨⟨?_, ?_, ?_, ?_, ?_⟩, ?_⟩
  · have hstarts : (A ++ (⟨s.start, HEADER * (size m s.start - n)⟩ : Span) :: B).map Span.start
        = (A ++ s :: B).map Span.start := by rw [List.map_append, List.map_append]; rfl
    rw [hstarts]
    refine h.ring.congr fun x hx => ?_
    obtain ⟨u, hu, rfl⟩ := List.mem_map.mp hx
    rcases List.mem_cons.mp (List.perm_middle.mem_iff.mp hu) with rfl | hu
    · exact hptr
    · exact (hold u hu).1
  · intro u hu
    rcases List.mem_cons.mp (List.perm_middle.mem_iff.mp hu) with rfl | hu
    · unfold Sized
      rw [hsize]
    · exact (h.sized u (hmem' u hu)).congr (hold u hu).2
  · refine List.pairwise_append.mpr ⟨hordA, List.pairwise_cons.mpr ⟨fun u hu => ?_, hordB'⟩, ?_⟩
    · have := hordB u hu
      simp only [Span.Gap, Span.stop, HEADER] at this hlen ⊢
      omega
    · intro u hu
      obtain ⟨hus, huB⟩ := List.forall_mem_cons.mp (hordAB u hu)
      exact List.forall_mem_cons.mpr ⟨hus, huB⟩
  · have := h.headers
    rw [List.map_append] at this ⊢
    exact this
  · intro u hu
    rcases List.mem_cons.mp (List.perm_middle.mem_iff.mp hu) with rfl | hu
    · have := h.below s hmem
      simp only [Span.stop, HEADER] at this hlen ⊢
      omega
    · exact h.below u (hmem' u hu)
  · unfold Sized
    rw [size_setSize_self (by omega)]

end Xv6.Umalloc
