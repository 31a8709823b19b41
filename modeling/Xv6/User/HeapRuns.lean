import Xv6.Lib.Transition
import Xv6.User.Malloc

/-!
# Runs of a program that uses the heap

A program calls `malloc` and `free`, writes to the blocks it has and to its other memory, and may
call `sbrk` itself to get more. It frees only blocks that it has, and it does not ask for so much
that the amount is no longer an `int`.
-/

namespace Xv6.Umalloc

open Lib

/-- The heap, and the blocks that the program has, with their headers. -/
structure State where
  heap : Heap
  live : List Span

inductive Op where
  | malloc (nbytes : Nat)
  | free (ap : Nat)
  | sbrk (n : Nat)
  | write

def Op.IsCall : Op → Prop
  | .malloc _ | .free _ => True
  | .sbrk _ | .write => False

/-- The block that `malloc` has returned as `ap`. -/
def blockAt (m : Mem) (ap : Nat) : Span := ⟨ap - HEADER, HEADER * size m (ap - HEADER)⟩

/-- What `morecore` may have to ask for is an `int`. -/
def Small (nbytes : Nat) : Prop := nbytes < 2 ^ 32 ∧ coreUnits (unitsFor nbytes) * HEADER < 2 ^ 31

/-- The bytes of the program: those of its blocks, and those that are not the allocator's. -/
def Writable (env : Env) (t : State) (x : Nat) : Prop :=
  (∃ s ∈ t.live, s.start + HEADER ≤ x ∧ x < s.stop) ∨
    (x ∉ t.heap.obtained ∧ (x < env.base ∨ env.base + HEADER ≤ x))

inductive Step (env : Env) : State → Op → State → Prop
  | malloc {t : State} {nbytes r : Nat} {h : Heap} : Small nbytes →
      Returns (fun fuel => malloc env fuel nbytes t.heap) (r, h) →
      Step env t (.malloc nbytes) ⟨h, if r = 0 then t.live else blockAt h.mem r :: t.live⟩
  | free {t : State} {s : Span} {h : Heap} : s ∈ t.live →
      Returns (fun fuel => free fuel (s.start + HEADER) t.heap) h →
      Step env t (.free (s.start + HEADER)) ⟨h, t.live.erase s⟩
  | sbrk {t : State} {n : Nat} : t.heap.sz + n ≤ PHYSTOP - KERNBASE →
      Step env t (.sbrk n) ⟨{ t.heap with sz := t.heap.sz + n }, t.live⟩
  | write {t : State} {m : Mem} : (∀ x, m x ≠ t.heap.mem x → Writable env t x) →
      Step env t .write ⟨{ t.heap with mem := m }, t.live⟩

/-- A program of size `sz` that has not called the allocator yet. -/
def start (m : Mem) (sz : Nat) : State := ⟨⟨m, 0, sz, ∅, []⟩, []⟩

/-- The free list and the live blocks are laid out in the memory that has been obtained. -/
def Sound (env : Env) (t : State) : Prop := ∃ F, Laid env.base t.heap F t.live t.heap.obtained

structure Inv (env : Env) (t : State) : Prop where
  base : 0 < env.base
  data : env.base + HEADER ≤ t.heap.sz
  sz : t.heap.sz ≤ PHYSTOP - KERNBASE
  below : ∀ x ∈ t.heap.obtained, x < t.heap.sz
  heap : (t.heap.freep = 0 ∧ t.live = [] ∧ t.heap.obtained = ∅) ∨ Sound env t

variable {env : Env} {t u : State} {F L : List Span} {S : Set Nat} {s : Span} {h h' : Heap}
  {nbytes n : Nat} {e : Op} {tr : List Op} {base sz : Nat} {m : Mem}

/-- `base` alone is a free list. -/
lemma laid_base (hbase : env.base + HEADER ≤ LIMIT) (hfreep : h.freep = 0) :
    Laid env.base (initBase env h) [] [] ∅ := by
  have hlt : env.base < 2 ^ 64 := ((Nat.le_add_right _ _).trans hbase).trans_lt LIMIT_lt
  rw [initBase, if_pos hfreep]
  refine ⟨⟨?_, ?_, ?_, ?_, ?_⟩, List.mem_cons_self, nofun, ⟨nofun, List.Pairwise.nil, ?_⟩, nofun⟩
  · show ptr (setSize (setPtr h.mem env.base env.base) env.base 0) env.base = env.base
    rw [ptr_setSize_self, ptr_setPtr_self hlt]
  · intro s hs
    obtain rfl := List.mem_singleton.mp hs
    unfold Sized
    simp only [size_setSize_self (show 0 < 2 ^ 32 by decide), Nat.mul_zero]
  · exact List.pairwise_singleton _ _
  · exact List.pairwise_singleton _ _
  · intro s hs
    obtain rfl := List.mem_singleton.mp hs
    exact (Nat.le_add_right _ _).trans hbase
  · exact fun x => ⟨nofun, nofun⟩

lemma Inv.le_limit (hi : Inv env t) {k : Nat} (hk : k ≤ 2 ^ 33) : t.heap.sz + k ≤ LIMIT := by
  have := hi.sz
  have hmem : PHYSTOP - KERNBASE = 2 ^ 27 := by decide
  unfold LIMIT
  omega

/-- The heap is laid out once `base` is. -/
lemma Inv.ready (hi : Inv env t) :
    ∃ F, Laid env.base (initBase env t.heap) F t.live t.heap.obtained := by
  rcases hi.heap with ⟨hfreep, hlive, hobtained⟩ | ⟨F, hl⟩
  · rw [hlive, hobtained]
    exact ⟨[], laid_base (hi.data.trans (hi.le_limit (Nat.zero_le _))) hfreep⟩
  · refine ⟨F, ?_⟩
    rw [initBase, if_neg (hl.freep_pos hi.base)]
    exact hl

/-- All blocks end below the size of the process. -/
lemma Laid.stop_le (hl : Laid base h F L S) (hS : ∀ x ∈ S, x < sz) (hs : s ∈ F ++ L) :
    s.stop ≤ sz := by
  have hpos := hl.tiles.pos s hs
  have hlast : s.stop - 1 ∈ S := (hl.tiles.cover _).mpr ⟨s, hs, by
    rw [Span.mem_iff, Span.stop]
    omega⟩
  have := hS _ hlast
  omega

/-! ### `malloc` -/

lemma coreAmount_of_lt (hn : coreUnits n * HEADER < 2 ^ 31) :
    coreAmount n = (coreUnits n * HEADER : Nat) := by
  unfold coreAmount
  rw [← Nat.cast_mul]
  exact Int.bmod_eq_of_le (by omega) (by omega)

/-- `sbrk` for an amount that is positive. -/
lemma sbrk_pos (env : Env) {n : Nat} (hn : 0 < n) (hsz : h.sz + n < 2 ^ 64) :
    sbrk env n h = (none, h) ∨ (h.sz + n ≤ PHYSTOP - KERNBASE ∧ sbrk env n h = (some h.sz,
      { h with
        sz := h.sz + n
        obtained := {x | x ∈ h.obtained ∨ x ∈ (⟨h.sz, n⟩ : Span)} })) := by
  have hpos : (n : Int) > 0 := Int.natCast_pos.mpr hn
  have hnew : newSize h.sz n = h.sz + n := by
    unfold newSize addInt
    rw [if_pos hpos]
    omega
  unfold sbrk
  rw [hnew]
  dsimp only
  rw [if_pos hpos]
  split_ifs with hgrant
  · exact Or.inr ⟨hgrant.2, rfl⟩
  · exact Or.inl rfl

/-- The block at `r` has room for `nbytes` bytes, and is memory that has been obtained. -/
structure Serves (h : Heap) (nbytes r : Nat) : Prop where
  header : (blockAt h.mem r).start + HEADER = r
  room : r + nbytes ≤ (blockAt h.mem r).stop
  obtained : ∀ x ∈ blockAt h.mem r, x ∈ h.obtained

/-- The process has not become smaller, and `sbrk` was called with the amount that was meant, or it
failed. -/
structure Fair (h h' : Heap) : Prop where
  sz : h.sz ≤ h'.sz
  calls : ∃ new, h'.calls = new ++ h.calls ∧ ∀ c ∈ new, c.result = none ∨ c.amount = c.asked

/-- The result of a call that has taken a block. -/
lemma Laid.serves {a : Nat} (hn : nbytes < 2 ^ 32)
    (hl : Laid env.base h F (⟨a, HEADER * unitsFor nbytes⟩ :: L) h.obtained) :
    blockAt h.mem (a + HEADER) = ⟨a, HEADER * unitsFor nbytes⟩ ∧
      Serves h nbytes (a + HEADER) := by
  have hblock : blockAt h.mem (a + HEADER) = ⟨a, HEADER * unitsFor nbytes⟩ := by
    have hsized : HEADER * unitsFor nbytes = HEADER * size h.mem a := hl.live _ List.mem_cons_self
    rw [blockAt, Nat.add_sub_cancel, hsized]
  refine ⟨hblock, by rw [hblock], ?_, ?_⟩
  · rw [hblock, Span.stop, unitsFor_eq hn]
    unfold HEADER
    dsimp only
    omega
  · rw [hblock]
    exact fun x hx => (hl.tiles.cover x).mpr ⟨_, List.mem_append_right F List.mem_cons_self, hx⟩

/-- `malloc` ends; its block has room for the bytes, and the heap is laid out as before. -/
lemma Inv.malloc (hi : Inv env t) (hs : Small nbytes) : ∃ r h,
    Returns (fun fuel => malloc env fuel nbytes t.heap) (r, h) ∧ h.freep ≠ 0 ∧
    (r ≠ 0 → Serves h nbytes r) ∧ Fair t.heap h ∧
    Inv env ⟨h, if r = 0 then t.live else blockAt h.mem r :: t.live⟩ := by
  obtain ⟨F, hl⟩ := hi.ready
  obtain ⟨hsz₀, hobtained₀, hcalls₀⟩ := initBase_kernel env t.heap
  by_cases hfit : HasUnits F (unitsFor nbytes)
  · obtain ⟨a, h, F', hl', hret, hsz, hobtained, hcalls⟩ := hl.malloc_fit hs.1 hfit
    rw [← hobtained] at hl'
    obtain ⟨hblock, hserves⟩ := hl'.serves hs.1
    refine ⟨a + HEADER, h, hret, hl'.freep_pos hi.base, fun _ => hserves,
      ⟨hsz.ge, [], hcalls, nofun⟩, ?_⟩
    rw [if_neg (by unfold HEADER; omega), hblock]
    refine ⟨hi.base, hsz ▸ hi.data, hsz ▸ hi.sz, ?_, Or.inr ⟨F', hl'⟩⟩
    rw [hsz, hobtained]
    exact hi.below
  · have hamount : 0 < coreUnits (unitsFor nbytes) * HEADER :=
      Nat.mul_pos coreUnits_pos (by decide)
    have hbound : coreUnits (unitsFor nbytes) * HEADER ≤ 2 ^ 33 :=
      hs.2.le.trans (by decide)
    have hlimit := hi.le_limit hbound
    have hlt : (initBase env t.heap).sz + coreUnits (unitsFor nbytes) * HEADER < 2 ^ 64 :=
      hsz₀ ▸ hlimit.trans_lt LIMIT_lt
    obtain hr | ⟨hle, hr⟩ := sbrk_pos env hamount hlt
    all_goals rw [← coreAmount_of_lt hs.2] at hr
    · refine ⟨0, _, hl.malloc_fail hs.1 hfit hr, hl.freep_pos hi.base, fun hc => absurd rfl hc,
        ⟨hsz₀.ge, [_], congrArg _ hcalls₀, ?_⟩, ?_⟩
      · exact List.forall_mem_singleton.mpr (Or.inl rfl)
      rw [if_pos rfl]
      refine ⟨hi.base, ?_, ?_, ?_, Or.inr ⟨F, ?_⟩⟩
      · exact hsz₀ ▸ hi.data
      · exact hsz₀ ▸ hi.sz
      · rw [hsz₀, hobtained₀]
        exact hi.below
      · rw [hobtained₀]
        exact ⟨hl.linked, hl.freep, hl.live, hl.tiles, hl.within⟩
    · rw [hsz₀] at hle hr
      rw [Nat.mul_comm] at hlimit
      obtain ⟨a, h, F', hl', hret, hsz, hobtained, hcalls⟩ :=
        hl.malloc_more hi.base hs.1 hfit hr hi.data
        hlimit fun s => hl.stop_le hi.below
      dsimp only at hsz hobtained
      rw [Nat.mul_comm] at hobtained
      rw [hobtained₀] at hobtained
      rw [← hobtained] at hl'
      obtain ⟨hblock, hserves⟩ := hl'.serves hs.1
      refine ⟨a + HEADER, h, hret, hl'.freep_pos hi.base, fun _ => hserves,
        ⟨hsz ▸ Nat.le_add_right _ _, [_], hcalls, ?_⟩, ?_⟩
      · exact List.forall_mem_singleton.mpr (Or.inr (coreAmount_of_lt hs.2))
      rw [if_neg (by unfold HEADER; omega), hblock]
      refine ⟨hi.base, ?_, ?_, ?_, Or.inr ⟨F', hl'⟩⟩
      · rw [hsz]
        exact hi.data.trans (Nat.le_add_right _ _)
      · exact hsz ▸ hle
      · rw [hsz, hobtained]
        rintro x (hx | hx)
        · exact (hi.below x hx).trans_le (Nat.le_add_right _ _)
        · rw [Span.mem_iff, Span.stop, Nat.mul_comm] at hx
          exact hx.2

/-! ### The other steps -/

lemma Laid.perm {L' : List Span} (hl : Laid base h F L S) (hL : L.Perm L') : Laid base h F L' S :=
  ⟨hl.linked, hl.freep, fun s hs => hl.live s (hL.mem_iff.mpr hs),
    hl.tiles.perm (hL.append_left F), fun s hs => hl.within s (hL.mem_iff.mpr hs)⟩

/-- `free` of a live block ends. -/
lemma Inv.free (hi : Inv env t) (hs : s ∈ t.live) : ∃ h,
    Returns (fun fuel => free fuel (s.start + HEADER) t.heap) h ∧ h.freep ≠ 0 ∧
    Inv env ⟨h, t.live.erase s⟩ := by
  rcases hi.heap with ⟨-, hlive, -⟩ | ⟨F, hl⟩
  · rw [hlive] at hs
    exact absurd hs List.not_mem_nil
  · obtain ⟨h, F', hl', hfree, -, -, hsz, hobtained, -⟩ := (hl.perm (List.perm_cons_erase hs)).free
    rw [← hobtained] at hl'
    refine ⟨h, ⟨F.length + 1, hfree⟩, hl'.freep_pos hi.base, hi.base, hsz ▸ hi.data, hsz ▸ hi.sz,
      ?_, Or.inr ⟨F', hl'⟩⟩
    rw [hsz, hobtained]
    exact hi.below

/-- The program does not write to the headers of the heap. -/
lemma Laid.write (hl : Laid env.base t.heap F t.live t.heap.obtained)
    (hm : ∀ x, m x ≠ t.heap.mem x → Writable env t x) :
    Laid env.base { t.heap with mem := m } F t.live t.heap.obtained := by
  have hsame : ∀ x, ¬ Writable env t x → m x = t.heap.mem x := fun x hx =>
    by_contra fun hc => hx (hm x hc)
  have hbase : ∀ x, env.base ≤ x → x < env.base + HEADER → m x = t.heap.mem x := by
    intro x hx hx'
    refine hsame x ?_
    rintro (⟨s, hs, hsx, -⟩ | ⟨-, hout⟩)
    · have := (hl.within s hs).1
      omega
    · omega
  have hblock : ∀ s ∈ F ++ t.live, ∀ x, s.start ≤ x → x < s.start + HEADER →
      m x = t.heap.mem x := by
    intro s hs x hx hx'
    have hmem : x ∈ s := ⟨hx, hx'.trans_le (hl.header_le hs)⟩
    refine hsame x ?_
    rintro (⟨u, hu, hux, hux'⟩ | ⟨hout, -⟩)
    · have hne : s ≠ u := by
        rintro rfl
        omega
      have happart := hl.tiles.apart.forall hs (List.mem_append_right F hu) hne
      have hstop := hmem.2
      unfold Span.Apart at happart
      omega
    · exact hout ((hl.tiles.cover x).mpr ⟨s, hs, hmem⟩)
  refine ⟨hl.linked.congr fun p hp => ?_, hl.freep, fun s hs => ?_, hl.tiles, hl.within⟩
  · obtain ⟨s, hs, rfl⟩ := List.mem_map.mp hp
    rcases List.mem_cons.mp hs with rfl | hs
    · exact ⟨ptr_congr hbase, size_congr hbase⟩
    · have := hblock s (List.mem_append_left _ hs)
      exact ⟨ptr_congr this, size_congr this⟩
  · exact (hl.live s hs).congr (size_congr (hblock s (List.mem_append_right F hs)))

/-- Every step keeps the heap laid out, and a call sets it up. -/
lemma Inv.step (hi : Inv env t) (hstep : Step env t e u) :
    Inv env u ∧ (u.heap.freep = 0 → t.heap.freep = 0 ∧ ¬ e.IsCall) := by
  cases hstep with
  | @malloc nbytes r h hs hret =>
    obtain ⟨r', h', hret', hfreep, -, -, hi'⟩ := hi.malloc hs
    obtain ⟨rfl, rfl⟩ := Prod.mk.inj (hret.unique hret')
    exact ⟨hi', fun hc => absurd hc hfreep⟩
  | @free s h hs hret =>
    obtain ⟨h', hret', hfreep, hi'⟩ := hi.free hs
    obtain rfl := hret.unique hret'
    exact ⟨hi', fun hc => absurd hc hfreep⟩
  | @sbrk n hle =>
    refine ⟨⟨hi.base, hi.data.trans (Nat.le_add_right _ _), hle,
      fun x hx => (hi.below x hx).trans_le (Nat.le_add_right _ _), ?_⟩, fun hc => ⟨hc, id⟩⟩
    exact hi.heap.imp_right fun ⟨F, hl⟩ => ⟨F, hl.linked, hl.freep, hl.live, hl.tiles, hl.within⟩
  | @write m hm =>
    exact ⟨⟨hi.base, hi.data, hi.sz, hi.below, hi.heap.imp_right fun ⟨F, hl⟩ => ⟨F, hl.write hm⟩⟩,
      fun hc => ⟨hc, id⟩⟩

lemma inv_of_run (hbase : 0 < env.base) (hdata : env.base + HEADER ≤ sz)
    (hsz : sz ≤ PHYSTOP - KERNBASE) (hrun : Run (Step env) (start m sz) tr t) :
    Inv env t ∧ (t.heap.freep = 0 → ∀ e ∈ tr, ¬ e.IsCall) := by
  refine hrun.invariant (I := fun tr t => Inv env t ∧ (t.heap.freep = 0 → ∀ e ∈ tr, ¬ e.IsCall))
    ⟨⟨hbase, hdata, hsz, nofun, Or.inl ⟨rfl, rfl, rfl⟩⟩, fun _ => nofun⟩ ?_
  rintro tr t e u ⟨hi, htr⟩ hstep
  obtain ⟨hi', hcall⟩ := hi.step hstep
  refine ⟨hi', fun hfreep => ?_⟩
  obtain ⟨hfreep', hno⟩ := hcall hfreep
  exact List.forall_mem_cons.mpr ⟨hno, htr hfreep'⟩

/-- In every run, from the first call on, the free list is a circle of blocks in the order of their
addresses, with `base` and with gaps, and the free and the live blocks tile the memory obtained;
`malloc` and `free` end, and a block that `malloc` returns has room for the bytes. -/
theorem heap_integrity {m : Mem} {sz : Nat} (hbase : 0 < env.base) (hdata : env.base + HEADER ≤ sz)
    (hsz : sz ≤ PHYSTOP - KERNBASE) (hrun : Run (Step env) (start m sz) tr t) :
    ((∃ e ∈ tr, e.IsCall) → Sound env t) ∧
      (∀ nbytes, Small nbytes → ∃ r h,
        Returns (fun fuel => malloc env fuel nbytes t.heap) (r, h) ∧
        (r ≠ 0 → Serves h nbytes r)) ∧
      ∀ s ∈ t.live, ∃ h, Returns (fun fuel => free fuel (s.start + HEADER) t.heap) h := by
  obtain ⟨hi, hcall⟩ := inv_of_run hbase hdata hsz hrun
  refine ⟨fun ⟨e, he, hcall'⟩ => ?_, fun nbytes hs => ?_, fun s hs => ?_⟩
  · exact hi.heap.resolve_left fun ⟨hfreep, _⟩ => hcall hfreep e he hcall'
  · obtain ⟨r, h, hret, -, hserves, -⟩ := hi.malloc hs
    exact ⟨r, h, hret, hserves⟩
  · obtain ⟨h, hret, -⟩ := hi.free hs
    exact ⟨h, hret⟩

/-- The first call of a program of two pages. -/
theorem heap_integrity_first : ∃ t, Run (Step ⟨4096, fun _ => true⟩) (start (fun _ => 0) 8192)
    [.malloc 10] t ∧ Sound ⟨4096, fun _ => true⟩ t := by
  have hsmall : Small 10 := ⟨by decide, by decide⟩
  have hi : Inv ⟨4096, fun _ => true⟩ (start (fun _ => 0) 8192) :=
    (inv_of_run (by decide) (by decide) (by decide) Run.nil).1
  obtain ⟨r, h, hret, -⟩ := hi.malloc hsmall
  have hrun : Run (Step ⟨4096, fun _ => true⟩) (start (fun _ => 0) 8192) [.malloc 10] _ :=
    Run.single (.malloc hsmall hret)
  exact ⟨_, hrun, (heap_integrity (by decide) (by decide) (by decide) hrun).1
    ⟨_, List.mem_cons_self, trivial⟩⟩

end Xv6.Umalloc
