import Xv6.User.FreeList

/-!
# The heap of a user program

The blocks of the free list and the live blocks tile the memory that the allocator has. `free` and
`malloc` move blocks between the two lists; `morecore` adds a block.
-/

namespace Xv6.Umalloc

open Lib

/-- A loop that runs on fuel ends with the result `r`. -/
def Returns {α : Type*} (f : Nat → Option α) (r : α) : Prop := ∃ N, ∀ fuel ≥ N, f fuel = some r

lemma Returns.unique {α : Type*} {f : Nat → Option α} {r r' : α} (h : Returns f r)
    (h' : Returns f r') : r = r' := by
  obtain ⟨N, hN⟩ := h
  obtain ⟨N', hN'⟩ := h'
  exact Option.some.inj ((hN _ (le_max_left N N')).symm.trans (hN' _ (le_max_right N N')))

/-- The blocks of the free list: `base`, which has no units, and those of `F`. -/
abbrev blocks (base : Nat) (F : List Span) : List Span := ⟨base, 0⟩ :: F

/-- The free blocks `F` and the live blocks `L` tile `S`. -/
structure Laid (base : Nat) (h : Heap) (F L : List Span) (S : Set Nat) : Prop where
  linked : Linked h.mem (blocks base F)
  freep : h.freep ∈ (blocks base F).map Span.start
  live : ∀ s ∈ L, Sized h.mem s
  tiles : Tiles (F ++ L) S
  within : ∀ s ∈ L, base + HEADER ≤ s.start ∧ s.stop ≤ LIMIT

variable {env : Env} {base n k fuel nunits prevp p : Nat} {h h' : Heap} {m m' : Mem}
  {F F' L A B : List Span} {S : Set Nat} {s b : Span} {l : List Nat} {t : Span} {hp : Nat}

section

variable (hl : Laid base h F L S)
include hl

lemma Laid.sized (hs : s ∈ F ++ L) : Sized h.mem s := by
  rcases List.mem_append.mp hs with hs | hs
  · exact hl.linked.sized s (List.mem_cons_of_mem _ hs)
  · exact hl.live s hs

lemma Laid.bounds (hs : s ∈ F ++ L) : base + HEADER ≤ s.start ∧ s.stop ≤ LIMIT := by
  rcases List.mem_append.mp hs with hs | hs
  · exact ⟨List.rel_of_pairwise_cons hl.linked.headers (List.mem_map_of_mem hs),
      hl.linked.below s (List.mem_cons_of_mem _ hs)⟩
  · exact hl.within s hs

lemma Laid.header_le (hs : s ∈ F ++ L) : s.start + HEADER ≤ s.stop :=
  (hl.sized hs).header_le (hl.tiles.pos s hs)

lemma Laid.apart (hs : s ∈ F) (ht : t ∈ L) : s.Apart t :=
  (List.pairwise_append.mp hl.tiles.apart).2.2 s hs t ht

lemma Laid.nodup : ((blocks base F).map Span.start).Nodup := by
  refine hl.linked.headers.imp fun hlt => ?_
  unfold HEADER at hlt
  omega

/-! ### `free` -/

end

/-- A block that overlaps no block of the list has its place in it. -/
lemma exists_place (hord : (s :: F).Pairwise Span.Gap) (hlow : s.stop ≤ b.start)
    (hheader : s.start + HEADER ≤ b.start)
    (hF : ∀ t ∈ F, b.Apart t ∧ t.start + HEADER ≤ t.stop) :
    ∃ A s' B, s :: F = A ++ s' :: B ∧ Place s' B b := by
  induction F generalizing s with
  | nil => exact ⟨[], s, [], rfl, hlow, hheader, fun t ht => absurd ht List.not_mem_nil⟩
  | cons t F ih =>
    obtain ⟨⟨hapart, ht⟩, hF⟩ := List.forall_mem_cons.mp hF
    obtain ⟨-, hord⟩ := List.pairwise_cons.mp hord
    rcases hapart with hbt | htb
    · refine ⟨[], s, t :: F, rfl, hlow, hheader, List.forall_mem_cons.mpr ⟨hbt, fun u hu => ?_⟩⟩
      have := List.rel_of_pairwise_cons hord hu
      unfold Span.Gap at this
      omega
    · obtain ⟨A, s', B, heq, hplace⟩ := ih hord htb (ht.trans htb) hF
      exact ⟨s :: A, s', B, congrArg (s :: ·) heq, hplace⟩

/-- Joining the block to its neighbours keeps the memory that is tiled. -/
lemma tiles_insert {base : Nat} {b' s' : Span} {B' B'' : List Span}
    (hG : blocks base F = A ++ s :: B) (hj : Joined b B b' B') (hj' : Joined s (b' :: B') s' B'')
    (hb : base < b.start) : ∃ F', A ++ s' :: B'' = blocks base F' ∧
      (∃ t ∈ F', b.len ≤ t.len) ∧ ∀ {r S}, Tiles (F ++ b :: r) S → Tiles (F' ++ r) S := by
  cases A with
  | nil =>
    obtain ⟨rfl, rfl⟩ := List.cons.inj hG
    -- `base` has no units, so that it meets no block above it
    cases hj' with
    | meet hmeet =>
      rw [hj.start] at hmeet
      exact absurd hmeet hb.ne
    | apart =>
      refine ⟨b' :: B', rfl, ⟨b', List.mem_cons_self, hj.len_le⟩, fun {r S} ht => ?_⟩
      exact hj.tiles (ht.perm List.perm_middle)
  | cons a A =>
    rw [List.cons_append, List.cons.injEq] at hG
    obtain ⟨rfl, rfl⟩ := hG
    refine ⟨A ++ s' :: B'', rfl, ?_, fun {r S} ht => ?_⟩
    · obtain ⟨t, ht, hle⟩ := hj'.exists_len_le
      exact ⟨t, List.mem_append_right A ht, hj.len_le.trans hle⟩
    · have hupper : Tiles (b' :: (B' ++ (s :: (A ++ r)))) S := by
        refine hj.tiles (ht.perm (List.perm_iff_count.mpr fun x => ?_))
        simp only [List.count_append, List.count_cons]
        omega
      have hlower : Tiles (s' :: (B'' ++ (A ++ r))) S := by
        refine hj'.tiles (hupper.perm (List.perm_iff_count.mpr fun x => ?_))
        simp only [List.count_append, List.count_cons]
        omega
      refine hlower.perm (List.perm_iff_count.mpr fun x => ?_)
      simp only [List.count_append, List.count_cons]
      omega

/-- The memory outside `base` and the blocks of `F` is as before. -/
def Beside (base : Nat) (F : List Span) (m m' : Mem) : Prop :=
  ∀ x, (x < base ∨ base + HEADER ≤ x) → (∀ s ∈ F, x ∉ s) → m' x = m x

lemma Beside.trans {m'' : Mem} (hm : Beside base F m m') (hm' : Beside base F m' m'') :
    Beside base F m m'' := fun x hx hxF => (hm' x hx hxF).trans (hm x hx hxF)

/-- The header of one of the blocks has changed. -/
lemma beside_of_only (hF : ∀ s ∈ F, s.start + HEADER ≤ s.stop) (hs : s ∈ blocks base F)
    (honly : Only m m' s.start) : Beside base F m m' := by
  intro x hx hxF
  refine honly x ?_
  rcases List.mem_cons.mp hs with rfl | hs
  · exact hx
  · have hheader := hF s hs
    have hout := hxF s hs
    rw [Span.mem_iff] at hout
    omega

/-- The headers of other blocks are as before. -/
lemma Beside.sized (hm : Beside base F m m') (hs : Sized m s) (habove : base + HEADER ≤ s.start)
    (hheader : s.start + HEADER ≤ s.stop) (hapart : ∀ t ∈ F, s.Apart t) : Sized m' s := by
  refine hs.congr (size_congr fun x hx hx' => hm x (Or.inr (habove.trans hx)) fun t ht hxt => ?_)
  have hxs : x < s.stop := hx'.trans_le hheader
  have := hapart t ht
  unfold Span.Apart at this
  rw [Span.mem_iff] at hxt
  omega

/-- A block goes from the live blocks to the free list. -/
lemma Laid.free (hl : Laid base h F (b :: L) S) : ∃ h' F', Laid base h' F' L S ∧
    (∀ fuel > F.length, free fuel (b.start + HEADER) h = some h') ∧
    (∃ s ∈ F', b.len ≤ s.len) ∧ Beside base (b :: F) h.mem h'.mem ∧
    h'.sz = h.sz ∧ h'.obtained = h.obtained ∧ h'.calls = h.calls := by
  have hbmem : b ∈ F ++ b :: L := List.mem_append_right F List.mem_cons_self
  have hb := hl.bounds hbmem
  have hpos := hl.tiles.pos b hbmem
  have hapart : ∀ t ∈ F ++ L, b.Apart t := fun t =>
    (hl.tiles.perm List.perm_middle).apart_head
  obtain ⟨A, s, B, hG, hplace⟩ := exists_place hl.linked.ordered (b := b)
    ((Nat.le_add_right _ _).trans hb.1) hb.1 fun t ht =>
      ⟨hapart t (List.mem_append_left L ht), hl.header_le (List.mem_append_left _ ht)⟩
  have hlinked : Linked h.mem (A ++ s :: B) := hG ▸ hl.linked
  have hfreep : h.freep ∈ (A ++ s :: B).map Span.start := hG ▸ hl.freep
  have hbp : plus (b.start + HEADER) (-1) = b.start :=
    plus_neg_one (((hl.header_le hbmem).trans hb.2).trans_lt LIMIT_lt)
  obtain ⟨b', B', s', B'', hj, hj', hlinked'⟩ :=
    hlinked.insert hplace (hl.sized hbmem) hpos hb.2
  obtain ⟨F', hF', hfit, htiles⟩ := tiles_insert hG hj hj' (by unfold HEADER at hb; omega)
  rw [hF'] at hlinked'
  have hmem : s.start ∈ (blocks base F').map Span.start := by
    rw [← hF', ← hj'.start]
    exact List.mem_map_of_mem (List.mem_append_right A List.mem_cons_self)
  have hheaders : ∀ t ∈ b :: F, t.start + HEADER ≤ t.stop :=
    List.forall_mem_cons.mpr ⟨hl.header_le hbmem, fun t ht =>
      hl.header_le (List.mem_append_left _ ht)⟩
  have hs : s ∈ blocks base (b :: F) := by
    have hs : s ∈ blocks base F := by
      rw [blocks, hG]
      exact List.mem_append_right A List.mem_cons_self
    exact List.cons_subset_cons _ (List.subset_cons_self b F) hs
  have hbeside : Beside base (b :: F) h.mem
      (joinLower (joinUpper h.mem b.start s.start) b.start s.start) :=
    (beside_of_only hheaders (List.mem_cons_of_mem _ List.mem_cons_self) only_joinUpper).trans
      (beside_of_only hheaders hs only_joinLower)
  refine ⟨{ h with mem := joinLower (joinUpper h.mem b.start s.start) b.start s.start,
                   freep := s.start }, F', ⟨hlinked', hmem, fun t ht => ?_, htiles hl.tiles,
    fun t ht => hl.within t (List.mem_cons_of_mem b ht)⟩, ?_, hfit, hbeside, rfl, rfl, rfl⟩
  · have htmem : t ∈ F ++ b :: L := List.mem_append_right F (List.mem_cons_of_mem b ht)
    refine hbeside.sized (hl.sized htmem) (hl.bounds htmem).1 (hl.header_le htmem) fun u hu => ?_
    rcases List.mem_cons.mp hu with rfl | hu
    · exact (hapart t (List.mem_append_right F ht)).symm
    · exact (hl.apart hu (List.mem_cons_of_mem b ht)).symm
  · intro fuel hfuel
    have hfound := hlinked.search hplace hpos hfreep (k := fuel) (by rw [← hG]; exact hfuel)
    rw [Umalloc.free, hbp, hfound]
    rfl

/-! ### `morecore` -/

lemma sbrk_mem (env : Env) (n : Int) (h : Heap) : (sbrk env n h).2.mem = h.mem ∧
    (sbrk env n h).2.freep = h.freep ∧ (sbrk env n h).2.calls = h.calls := by
  unfold sbrk
  dsimp only
  split_ifs <;> exact ⟨rfl, rfl, rfl⟩

lemma coreUnits_lt (hn : n < 2 ^ 32) : coreUnits n < 2 ^ 32 := by
  unfold coreUnits
  split_ifs <;> omega

lemma le_coreUnits : n ≤ coreUnits n := by
  unfold coreUnits
  split_ifs <;> omega

lemma coreUnits_pos : 0 < coreUnits n := by
  unfold coreUnits
  split_ifs <;> omega

/-- A block above all others is added to the heap. -/
lemma Laid.add (hl : Laid base h F L S) (hb : base + HEADER ≤ p) (hn : 0 < n) (hn' : n < 2 ^ 32)
    (hbelow : p + HEADER * n ≤ LIMIT) (habove : ∀ s ∈ F ++ L, s.stop ≤ p)
    (hm : h'.mem = setSize h.mem p n) (hfreep : h'.freep = h.freep) :
    Laid base h' F (⟨p, HEADER * n⟩ :: L) {x | x ∈ S ∨ x ∈ (⟨p, HEADER * n⟩ : Span)} := by
  have hfar : ∀ s ∈ blocks base F ++ L, Far p s.start :=
    List.forall_mem_cons.mpr ⟨Or.inr hb, fun s hs =>
      Or.inr ((hl.header_le hs).trans (habove s hs))⟩
  refine ⟨hm ▸ hl.linked.congr fun q hq => ?_, hfreep ▸ hl.freep, ?_, ?_, ?_⟩
  · obtain ⟨s, hs, rfl⟩ := List.mem_map.mp hq
    have := hfar s (List.mem_append_left L hs)
    exact ⟨only_setSize.ptr this, only_setSize.size this⟩
  · refine List.forall_mem_cons.mpr ⟨?_, fun s hs => ?_⟩
    · unfold Sized
      rw [hm, size_setSize_self hn']
    · rw [hm]
      exact (hl.live s hs).congr (only_setSize.size (hfar s (List.mem_append_right _ hs)))
  · refine Tiles.perm (tiles_cons_iff.mpr ⟨?_, fun s hs => ?_, S, hl.tiles, ?_⟩)
      List.perm_middle.symm
    · exact Nat.mul_pos (by decide) hn
    · exact Or.inr (habove s hs)
    · exact fun x => or_comm
  · exact List.forall_mem_cons.mpr ⟨⟨hb, hbelow⟩, hl.within⟩

/-- The memory at `hp` becomes a block of the free list. -/
lemma Laid.addCore {amount : Int} (hl : Laid base h F L S) (hn : 0 < n) (hn' : n < 2 ^ 32)
    (hr : sbrk env amount h = (some hp, h')) (hb : base + HEADER ≤ hp)
    (hbelow : hp + HEADER * n ≤ LIMIT) (habove : ∀ s ∈ F ++ L, s.stop ≤ hp) :
    ∃ h'' F', Laid base h'' F' L {x | x ∈ S ∨ x ∈ (⟨hp, HEADER * n⟩ : Span)} ∧
      (∀ fuel > F.length, addCore env fuel n amount h = some (h''.freep, h'')) ∧
      (∃ s ∈ F', HEADER * n ≤ s.len) ∧
      h''.sz = h'.sz ∧ h''.obtained = h'.obtained ∧
      h''.calls = ⟨n * HEADER, amount, some hp⟩ :: h.calls := by
  have hmem := sbrk_mem env amount h
  rw [hr] at hmem
  obtain ⟨hmem, hfreep, hcalls⟩ := hmem
  have hadd : Laid base { h' with
      mem := setSize h'.mem hp n
      calls := ⟨n * HEADER, amount, some hp⟩ :: h'.calls } F (⟨hp, HEADER * n⟩ :: L) _ :=
    hl.add hb hn hn' hbelow habove (congrArg (setSize · hp n) hmem) hfreep
  obtain ⟨h'', F', hl', hfree, hfit, -, hsz, hobtained, hcalls'⟩ := hadd.free
  refine ⟨h'', F', hl', fun fuel hfuel => ?_, hfit, hsz, hobtained, hcalls'.trans ?_⟩
  · have hle : HEADER ≤ HEADER * n := Nat.le_mul_of_pos_right HEADER hn
    have hplus : plus hp 1 = hp + HEADER :=
      plus_one (((Nat.add_le_add_left hle hp).trans hbelow).trans_lt LIMIT_lt)
    rw [Umalloc.addCore, hr]
    simp only [hplus, hfree fuel hfuel, Option.bind_eq_bind, Option.bind_some]
    rfl
  · exact congrArg _ hcalls

/-! ### The loop of `malloc` -/

/-- The loop takes the first block that is large enough. -/
lemma mallocFrom_fit (env : Env) (hleads : Leads (ptr h.mem) prevp l h.freep) (hl : h.freep ∉ l)
    (hfit : ∃ x ∈ l ++ [h.freep], n ≤ size h.mem x) :
    ∃ q ∈ prevp :: l, n ≤ size h.mem (ptr h.mem q) ∧ ∀ k > l.length, ∀ fuel,
      mallocFrom env fuel n k prevp (ptr h.mem prevp) h =
        some (plus (takeBlock h.mem n q (ptr h.mem q)).1 1,
          { h with mem := (takeBlock h.mem n q (ptr h.mem q)).2, freep := q }) := by
  induction l generalizing prevp with
  | nil =>
    obtain ⟨x, hx, hsize⟩ := hfit
    obtain rfl := List.mem_singleton.mp hx
    have hnext : ptr h.mem prevp = h.freep := hleads
    refine ⟨prevp, List.mem_cons_self, hnext ▸ hsize, fun k hk fuel => ?_⟩
    obtain ⟨k, rfl⟩ := Nat.exists_eq_succ_of_ne_zero (Nat.ne_of_gt hk)
    rw [mallocFrom, if_pos (hnext ▸ hsize)]
  | cons x l ih =>
    obtain ⟨rfl, hleads⟩ := hleads
    by_cases hsize : n ≤ size h.mem (ptr h.mem prevp)
    · refine ⟨prevp, List.mem_cons_self, hsize, fun k hk fuel => ?_⟩
      obtain ⟨k, rfl⟩ := Nat.exists_eq_succ_of_ne_zero (Nat.ne_of_gt (Nat.zero_lt_of_lt hk))
      rw [mallocFrom, if_pos hsize]
    · obtain ⟨q, hq, hqsize, hloop⟩ := ih hleads (fun hc => hl (List.mem_cons_of_mem _ hc)) (by
        obtain ⟨y, hy, hysize⟩ := hfit
        rcases List.mem_cons.mp hy with rfl | hy
        · exact absurd hysize hsize
        · exact ⟨y, hy, hysize⟩)
      have hne : ptr h.mem prevp ≠ h.freep := fun hc => hl (by rw [hc]; exact List.mem_cons_self)
      refine ⟨q, List.mem_cons_of_mem _ hq, hqsize, fun k hk fuel => ?_⟩
      obtain ⟨k, rfl⟩ := Nat.exists_eq_succ_of_ne_zero (Nat.ne_of_gt (Nat.zero_lt_of_lt hk))
      rw [mallocFrom, if_neg hsize, if_neg hne]
      exact hloop k (Nat.lt_of_succ_lt_succ hk) fuel

/-- If no block is large enough the loop comes round to `freep` and calls `morecore`. -/
lemma mallocFrom_none (env : Env) (hleads : Leads (ptr h.mem) prevp l h.freep) (hl : h.freep ∉ l)
    (hnone : ∀ x ∈ l ++ [h.freep], size h.mem x < n) (k fuel : Nat) :
    mallocFrom env fuel n (l.length + 1 + k) prevp (ptr h.mem prevp) h =
      (morecore env fuel n h).bind fun r =>
        if r.1 = 0 then some (0, r.2) else mallocFrom env fuel n k r.1 (ptr r.2.mem r.1) r.2 := by
  induction l generalizing prevp with
  | nil =>
    have hnext : ptr h.mem prevp = h.freep := hleads
    have hsize := hnone _ List.mem_cons_self
    rw [List.length_nil, Nat.zero_add, Nat.add_comm, mallocFrom, hnext, if_neg hsize.not_ge,
      if_pos rfl]
    rfl
  | cons x l ih =>
    obtain ⟨rfl, hleads⟩ := hleads
    have hsize := hnone _ List.mem_cons_self
    have hne : ptr h.mem prevp ≠ h.freep := fun hc => hl (by rw [hc]; exact List.mem_cons_self)
    rw [List.length_cons, Nat.add_right_comm, mallocFrom, if_neg hsize.not_ge, if_neg hne]
    exact ih hleads (fun hc => hl (List.mem_cons_of_mem _ hc)) fun y hy =>
      hnone y (List.mem_cons_of_mem _ hy)

lemma blocks_append {N : List Span} (hN : blocks base A = N ++ [t]) (B : List Span) :
    blocks base (A ++ B) = N ++ t :: B := by
  have happ : blocks base (A ++ B) = blocks base A ++ B := rfl
  rw [happ, hN, List.append_assoc]
  rfl

/-- A block of the list that has units is not `base`, and the one before it leads to it. -/
lemma Laid.split (hl : Laid base h F L S) (hn : 0 < n)
    (hp : p ∈ (blocks base F).map Span.start) (hsize : n ≤ size h.mem (ptr h.mem p)) :
    ∃ A s B N t, F = A ++ s :: B ∧ blocks base A = N ++ [t] ∧ t.start = p ∧
      ptr h.mem p = s.start := by
  obtain ⟨s, hs, hstart⟩ := List.mem_map.mp (hl.linked.ring.next_mem hp)
  rcases List.mem_cons.mp hs with rfl | hs
  · have hzero := hl.linked.sized _ List.mem_cons_self
    unfold Sized HEADER at hzero
    rw [← hstart] at hsize
    simp only at hzero hsize
    omega
  · obtain ⟨A, B, rfl⟩ := List.append_of_mem hs
    obtain ⟨N, t, hN⟩ : ∃ N t, blocks base A = N ++ [t] :=
      ⟨_, _, (List.dropLast_append_getLast (List.cons_ne_nil _ _)).symm⟩
    have hG := blocks_append hN (s :: B)
    have hlinked : Linked h.mem (N ++ t :: s :: B) := hG ▸ hl.linked
    have ht : t.start ∈ (blocks base (A ++ s :: B)).map Span.start :=
      List.mem_map_of_mem (hG ▸ List.mem_append_right N List.mem_cons_self)
    refine ⟨A, s, B, N, t, rfl, hN, ?_, hstart.symm⟩
    exact hl.linked.ring.inj hl.nodup ht hp (hlinked.leads.1.trans hstart)

/-- Only the free list has changed, and one of its blocks has become live. -/
lemma Laid.with_mem (hl : Laid base h F L S) (hlinked : Linked m' (blocks base F'))
    (hp : p ∈ (blocks base F').map Span.start) (hbeside : Beside base F h.mem m')
    (hs : Sized m' s) (hbounds : base + HEADER ≤ s.start ∧ s.stop ≤ LIMIT)
    (htiles : Tiles (F' ++ s :: L) S) :
    Laid base { h with mem := m', freep := p } F' (s :: L) S := by
  refine ⟨hlinked, hp, List.forall_mem_cons.mpr ⟨hs, fun t ht => ?_⟩, htiles,
    List.forall_mem_cons.mpr ⟨hbounds, hl.within⟩⟩
  have htmem : t ∈ F ++ L := List.mem_append_right F ht
  exact hbeside.sized (hl.sized htmem) (hl.bounds htmem).1 (hl.header_le htmem) fun u hu =>
    (hl.apart hu ht).symm

/-- A block, or the end of one, goes from the free list to the live blocks. -/
lemma Laid.take (hl : Laid base h F L S) (hn : 0 < n)
    (hp : p ∈ (blocks base F).map Span.start) (hsize : n ≤ size h.mem (ptr h.mem p)) :
    ∃ F', Laid base { h with mem := (takeBlock h.mem n p (ptr h.mem p)).2, freep := p } F'
      (⟨(takeBlock h.mem n p (ptr h.mem p)).1, HEADER * n⟩ :: L) S := by
  obtain ⟨A, s, B, N, t, rfl, hN, rfl, hnext⟩ := hl.split hn hp hsize
  have hG := blocks_append hN (s :: B)
  have hs : s ∈ A ++ s :: B := List.mem_append_right A List.mem_cons_self
  have hheaders : ∀ u ∈ A ++ s :: B, u.start + HEADER ≤ u.stop := fun u hu =>
    hl.header_le (List.mem_append_left L hu)
  have hsized := hl.linked.sized s (List.mem_cons_of_mem _ hs)
  have hbounds := hl.bounds (List.mem_append_left L hs)
  rw [hnext] at hsize ⊢
  unfold takeBlock
  split_ifs with heq
  · -- the whole block is unlinked
    have hlinked : Linked h.mem (N ++ t :: s :: B) := hG ▸ hl.linked
    have hG' := blocks_append hN B
    have hspan : (⟨s.start, HEADER * n⟩ : Span) = s := by
      rw [← heq, ← hsized]
    have ht : t ∈ blocks base (A ++ s :: B) := hG ▸ List.mem_append_right N List.mem_cons_self
    have hfar : Far t.start s.start := by
      have := hlinked.headers
      rw [List.map_append, List.pairwise_append] at this
      exact Or.inl (List.rel_of_pairwise_cons this.2.1 List.mem_cons_self)
    refine ⟨A ++ B, hl.with_mem ?_ ?_ (beside_of_only hheaders ht only_setPtr) ?_ ?_ ?_⟩
    · exact hG' ▸ hlinked.unlink
    · exact hG' ▸ List.mem_map_of_mem (List.mem_append_right N List.mem_cons_self)
    · rw [hspan]
      exact hsized.congr (only_setPtr.size hfar)
    · exact hspan ▸ hbounds
    · rw [hspan]
      refine hl.tiles.perm (List.perm_iff_count.mpr fun x => ?_)
      simp only [List.count_append, List.count_cons]
      omega
  · -- the end of the block is cut off
    have hlt : n < size h.mem s.start := lt_of_le_of_ne hsize (Ne.symm heq)
    have hrange := size_lt h.mem s.start
    have hlen := hsized
    unfold Sized at hlen
    have hq : plus s.start (size (setSize h.mem s.start (size h.mem s.start - n)) s.start)
        = s.start + HEADER * (size h.mem s.start - n) := by
      rw [size_setSize_self (by omega)]
      refine plus_natCast (lt_of_le_of_lt ?_ LIMIT_lt)
      have := hbounds.2
      unfold Span.stop HEADER at *
      omega
    have hlinked : Linked h.mem (blocks base A ++ s :: B) := hl.linked
    obtain ⟨hcut, hnew⟩ := hlinked.cut hn hlt rfl
    have hsum : HEADER * (size h.mem s.start - n) + HEADER * n = s.len := by
      rw [hlen, ← Nat.mul_add, Nat.sub_add_cancel hlt.le]
    have hpos : HEADER ≤ HEADER * n := Nat.le_mul_of_pos_right HEADER hn
    have hstop := hbounds.2
    unfold Span.stop at hstop
    dsimp only
    rw [hq]
    refine ⟨A ++ ⟨s.start, HEADER * (size h.mem s.start - n)⟩ :: B,
      hl.with_mem hcut ?_ ?_ hnew ⟨?_, ?_⟩ ?_⟩
    · rw [blocks, List.map_cons, List.map_append] at hp ⊢
      exact hp
    · have hfirst : Beside base (A ++ s :: B) h.mem
          (setSize h.mem s.start (size h.mem s.start - n)) :=
        beside_of_only hheaders (List.mem_cons_of_mem _ hs) only_setSize
      refine hfirst.trans fun x hx hxF => ?_
      have hout := hxF s hs
      rw [Span.mem_iff, Span.stop] at hout
      exact only_setSize x (by omega)
    · exact hbounds.1.trans (Nat.le_add_right _ _)
    · simp only [Span.stop]
      omega
    · have htiles : Tiles (s :: (A ++ B ++ L)) S := by
        refine hl.tiles.perm (List.perm_iff_count.mpr fun x => ?_)
        simp only [List.count_append, List.count_cons]
        omega
      have hspan : (⟨s.start, HEADER * (size h.mem s.start - n) + HEADER * n⟩ : Span) = s := by
        rw [hsum]
      rw [← hspan] at htiles
      refine ((tiles_join (Nat.mul_pos (by decide) (by omega)) (by unfold HEADER at *; omega)).mpr
        htiles).perm (List.perm_iff_count.mpr fun x => ?_)
      simp only [List.count_append, List.count_cons]
      omega

/-! ### `malloc` -/

/-- The list, from `freep` on. -/
lemma Laid.round (hl : Laid base h F L S) : ∃ l, Leads (ptr h.mem) h.freep l h.freep ∧
    h.freep ∉ l ∧ l.length = F.length ∧
    ∀ x, x ∈ l ++ [h.freep] ↔ x ∈ (blocks base F).map Span.start := by
  obtain ⟨l₁, l₂, hnodes⟩ := List.append_of_mem hl.freep
  have hring := hl.linked.ring
  have hnodup := hl.nodup
  have hlen := congrArg List.length hnodes
  rw [hnodes] at hring hnodup
  rw [ring_iff_leads] at hring
  rw [List.nodup_middle, List.nodup_cons] at hnodup
  refine ⟨l₂ ++ l₁, hring, ?_, ?_, fun x => ?_⟩
  · exact fun hc => hnodup.1 (List.perm_append_comm.mem_iff.mp hc)
  · simp only [List.length_map, List.length_append, List.length_cons] at hlen ⊢
    omega
  · rw [hnodes]
    simp only [List.mem_append, List.mem_cons, List.not_mem_nil, or_false]
    tauto

/-- A block of the list is large enough for `n` units. -/
def HasUnits (F : List Span) (n : Nat) : Prop := ∃ s ∈ F, HEADER * n ≤ s.len

lemma Laid.hasUnits_iff (hl : Laid base h F L S) (hn : 0 < n) : HasUnits F n ↔
    ∃ x ∈ (blocks base F).map Span.start, n ≤ size h.mem x := by
  constructor
  · rintro ⟨s, hs, hle⟩
    refine ⟨s.start, List.mem_map_of_mem (List.mem_cons_of_mem _ hs), ?_⟩
    rw [hl.linked.sized s (List.mem_cons_of_mem _ hs)] at hle
    exact Nat.le_of_mul_le_mul_left hle (by decide)
  · rintro ⟨x, hx, hle⟩
    obtain ⟨s, hs, rfl⟩ := List.mem_map.mp hx
    have hlen := hl.linked.sized s hs
    rcases List.mem_cons.mp hs with rfl | hs
    · unfold Sized HEADER at hlen
      simp only at hlen hle
      omega
    · exact ⟨s, hs, hlen ▸ Nat.mul_le_mul_left _ hle⟩

/-- A block of the free list is taken. -/
lemma Laid.mallocFrom_fit (hl : Laid env.base h F L S) (hn : 0 < n) (hfit : HasUnits F n) :
    ∃ a h' F', Laid env.base h' F' (⟨a, HEADER * n⟩ :: L) S ∧
      (∀ k > F.length, ∀ fuel,
        mallocFrom env fuel n k h.freep (ptr h.mem h.freep) h = some (a + HEADER, h')) ∧
      h'.sz = h.sz ∧ h'.obtained = h.obtained ∧ h'.calls = h.calls := by
  obtain ⟨l, hleads, hnot, hlen, hmem⟩ := hl.round
  obtain ⟨x, hx, hsize⟩ := (hl.hasUnits_iff hn).mp hfit
  obtain ⟨q, hq, hqsize, hloop⟩ := Umalloc.mallocFrom_fit env hleads hnot
    ⟨x, (hmem x).mpr hx, hsize⟩
  have hqmem : q ∈ (blocks env.base F).map Span.start :=
    (hmem q).mp ((List.perm_append_singleton _ _).mem_iff.mpr hq)
  obtain ⟨F', hl'⟩ := hl.take hn hqmem hqsize
  have hnew := hl'.within _ List.mem_cons_self
  have hheader := hl'.header_le (List.mem_append_right F' List.mem_cons_self)
  refine ⟨_, _, F', hl', fun k hk fuel => ?_, rfl, rfl, rfl⟩
  rw [hloop k (hlen ▸ hk), plus_one ((hheader.trans hnew.2).trans_lt LIMIT_lt)]

lemma Laid.freep_pos (hl : Laid base h F L S) (hbase : 0 < base) : h.freep ≠ 0 := by
  obtain ⟨s, hs, hstart⟩ := List.mem_map.mp hl.freep
  rcases List.mem_cons.mp hs with rfl | hs
  · exact hstart ▸ hbase.ne'
  · have := (hl.bounds (List.mem_append_left L hs)).1
    omega

lemma initBase_kernel (env : Env) (h : Heap) : (initBase env h).sz = h.sz ∧
    (initBase env h).obtained = h.obtained ∧ (initBase env h).calls = h.calls := by
  unfold initBase
  split_ifs <;> exact ⟨rfl, rfl, rfl⟩

variable {nbytes : Nat}

lemma unitsFor_pos (h : nbytes < 2 ^ 32) : 0 < unitsFor nbytes := by
  rw [unitsFor_eq h]
  omega

lemma unitsFor_lt (nbytes : Nat) : unitsFor nbytes < 2 ^ 32 := Nat.mod_lt _ (by decide)

section

variable (hl : Laid env.base (initBase env h) F L S)
include hl

/-- A call that finds a block asks the kernel for nothing. -/
lemma Laid.malloc_fit (hn : nbytes < 2 ^ 32) (hfit : HasUnits F (unitsFor nbytes)) :
    ∃ a h' F', Laid env.base h' F' (⟨a, HEADER * unitsFor nbytes⟩ :: L) S ∧
      Returns (fun fuel => malloc env fuel nbytes h) (a + HEADER, h') ∧
      h'.sz = h.sz ∧ h'.obtained = h.obtained ∧ h'.calls = h.calls := by
  obtain ⟨a, h', F', hl', hloop, hsz, hobtained, hcalls⟩ :=
    hl.mallocFrom_fit (unitsFor_pos hn) hfit
  obtain ⟨hsz₀, hobtained₀, hcalls₀⟩ := initBase_kernel env h
  exact ⟨a, h', F', hl', ⟨F.length + 1, fun fuel hfuel => hloop fuel hfuel fuel⟩,
    hsz.trans hsz₀, hobtained.trans hobtained₀, hcalls.trans hcalls₀⟩

/-- The loop finds no block and calls `morecore`. -/
lemma Laid.malloc_round (hn : nbytes < 2 ^ 32) (hfit : ¬ HasUnits F (unitsFor nbytes)) {fuel : Nat}
    (hfuel : F.length < fuel) : malloc env fuel nbytes h =
      (morecore env fuel (unitsFor nbytes) (initBase env h)).bind fun r =>
        if r.1 = 0 then some (0, r.2)
        else mallocFrom env fuel (unitsFor nbytes) (fuel - (F.length + 1)) r.1
          (ptr r.2.mem r.1) r.2 := by
  obtain ⟨l, hleads, hnot, hlen, hmem⟩ := hl.round
  have hnone : ∀ x ∈ l ++ [(initBase env h).freep],
      size (initBase env h).mem x < unitsFor nbytes := by
    intro x hx
    by_contra hc
    exact hfit ((hl.hasUnits_iff (unitsFor_pos hn)).mpr ⟨x, (hmem x).mp hx, not_lt.mp hc⟩)
  have hk : l.length + 1 + (fuel - (F.length + 1)) = fuel := by omega
  have hloop := mallocFrom_none env hleads hnot hnone (fuel - (F.length + 1)) fuel
  rw [hk] at hloop
  exact hloop

/-- A call that finds no block and gets no memory returns 0 and changes nothing. -/
lemma Laid.malloc_fail (hn : nbytes < 2 ^ 32) (hfit : ¬ HasUnits F (unitsFor nbytes))
    (hr : sbrk env (coreAmount (unitsFor nbytes)) (initBase env h) = (none, h')) :
    Returns (fun fuel => malloc env fuel nbytes h)
      (0, { h' with calls := ⟨coreUnits (unitsFor nbytes) * HEADER, coreAmount (unitsFor nbytes),
        none⟩ :: h'.calls }) := by
  refine ⟨F.length + 1, fun fuel hfuel => ?_⟩
  refine (hl.malloc_round hn hfit hfuel).trans ?_
  rw [morecore, Umalloc.addCore, hr]
  rfl

/-- A call that finds no block and gets memory takes a block of that. -/
lemma Laid.malloc_more (hbase : 0 < env.base) (hn : nbytes < 2 ^ 32)
    (hfit : ¬ HasUnits F (unitsFor nbytes))
    (hr : sbrk env (coreAmount (unitsFor nbytes)) (initBase env h) = (some hp, h'))
    (hb : env.base + HEADER ≤ hp) (hbelow : hp + HEADER * coreUnits (unitsFor nbytes) ≤ LIMIT)
    (habove : ∀ s ∈ F ++ L, s.stop ≤ hp) :
    ∃ a h'' F', Laid env.base h'' F' (⟨a, HEADER * unitsFor nbytes⟩ :: L)
        {x | x ∈ S ∨ x ∈ (⟨hp, HEADER * coreUnits (unitsFor nbytes)⟩ : Span)} ∧
      Returns (fun fuel => malloc env fuel nbytes h) (a + HEADER, h'') ∧
      h''.sz = h'.sz ∧ h''.obtained = h'.obtained ∧
      h''.calls = ⟨coreUnits (unitsFor nbytes) * HEADER, coreAmount (unitsFor nbytes), some hp⟩ ::
        h.calls := by
  obtain ⟨h₁, F₁, hl₁, hcore, ⟨s, hs, hle⟩, hsz₁, hobtained₁, hcalls₁⟩ := hl.addCore coreUnits_pos
    (coreUnits_lt (unitsFor_lt nbytes)) hr hb hbelow habove
  obtain ⟨a, h₂, F₂, hl₂, hloop, hsz₂, hobtained₂, hcalls₂⟩ := hl₁.mallocFrom_fit
    (unitsFor_pos hn) ⟨s, hs, (Nat.mul_le_mul_left _ le_coreUnits).trans hle⟩
  refine ⟨a, h₂, F₂, hl₂, ⟨F.length + 1 + (F₁.length + 1), fun fuel hfuel => ?_⟩,
    hsz₂.trans hsz₁, hobtained₂.trans hobtained₁, ?_⟩
  · have hfuel₀ : F.length < fuel := by omega
    refine (hl.malloc_round hn hfit hfuel₀).trans ?_
    rw [morecore, hcore fuel hfuel₀, Option.bind_some, if_neg (hl₁.freep_pos hbase)]
    exact hloop _ (by omega) fuel
  · rw [hcalls₂, hcalls₁, (initBase_kernel env h).2.2]

end

end Xv6.Umalloc
