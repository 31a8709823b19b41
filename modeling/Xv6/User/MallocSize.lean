import Xv6.Kernel.Growproc
import Xv6.User.HeapRuns

/-!
# The amount that `malloc` asks for

`morecore` computes the amount as an `unsigned long` and passes it to `sbrk` as an `int`. From
`2 ^ 31` bytes on it is another number: it is negative, and `sbrk` takes memory away or does
nothing, or it is 0 or 16. Unless `sbrk` fails, `malloc` then takes memory for its own that it has
not got.
-/

namespace Xv6.Umalloc

open Lib

/-! ### The size of a process -/

lemma sz_sbrk {im : UserImage} {n : Int} (hn : n < 2 ^ 31) (hsz : im.sz < 2 ^ 40) :
    (im.sbrk n).sz = newSize im.sz n := by
  unfold UserImage.sbrk UserImage.grow UserImage.shrink newSize
  split_ifs with hpos hlt <;> try rfl
  unfold addInt at hlt
  omega

/-- A process is not larger than the memory of the machine. -/
lemma sz_le_memory [Layout] {t : Sys} {p : Fin NPROC} (h : SysInv t)
    (hlive : (t.proc p).state ≠ .unused) : (t.proc p).sz ≤ PHYSTOP - KERNBASE := by
  obtain ⟨ker, hmem, -⟩ := h.mem
  obtain ⟨r, tf, hr, -, htable⟩ := h.live hlive
  have hpages := hmem.userSpace_le (i := some p) hr htable.user
  have hmem : (PHYSTOP - KERNBASE) / PGSIZE * PGSIZE = PHYSTOP - KERNBASE := by decide
  unfold pages at hpages
  unfold PGSIZE at hpages hmem
  omega

/-- `sbrk` is what the kernel's `growproc` does to the size of the process. -/
lemma growproc_newSize [Layout] {E : Panic → Prop} {t : Sys} {p : Fin NPROC} {n : Int}
    (h : SysInv t) (hlive : (t.proc p).state ≠ .unused) (hn : n < 2 ^ 31) :
    wp (growproc p n) E (fun res t' => (t'.proc p).sz ≤ PHYSTOP - KERNBASE ∧
      ((res = 0 ∧ (t'.proc p).sz = newSize (t.proc p).sz n) ∨
        (res = -1 ∧ 0 < n ∧ (t'.proc p).sz = (t.proc p).sz))) t := by
  obtain ⟨r, tf, hr, -⟩ := h.live hlive
  have himage : t.image p = some { sz := (t.proc p).sz, space := space t.phys.mem r } :=
    Proc.image_of_some hr _
  refine wp_imp (h.growproc_spec hlive hn) ?_
  rintro res t' ⟨h', hres⟩
  obtain ⟨rfl, himage'⟩ | ⟨rfl, hpos, himage', hproc, -⟩ := hres
  · rw [himage] at himage'
    have hnew := congrFun himage' p
    rw [Function.update_self, Option.map_some] at hnew
    have hlive' : (t'.proc p).state ≠ .unused := by
      rw [ne_eq, h'.unused_iff, hnew]
      nofun
    refine ⟨sz_le_memory h' hlive', Or.inl ⟨rfl, ?_⟩⟩
    rw [sz_of_image hnew, sz_sbrk hn (h.sz_lt hlive)]
  · rw [hproc]
    exact ⟨sz_le_memory h hlive, Or.inr ⟨rfl, hpos, rfl⟩⟩

/-! ### Honesty -/

/-- `malloc(nbytes)` ends. If its result is not 0, the bytes are memory that has been obtained and
not given back; the process has not become smaller; and `sbrk` was called with the amount that was
meant, or it failed. -/
def Honest (env : Env) (nbytes : Nat) (h : Heap) : Prop :=
  ∃ r h', Returns (fun fuel => malloc env fuel nbytes h) (r, h') ∧
    (r ≠ 0 → ∀ i < nbytes, r + i ∈ h'.obtained) ∧ Fair h h'

/-- The kernel has no memory for the process when it asks for `n` bytes. -/
def Refused (env : Env) (h : Heap) (n : Nat) : Prop :=
  ¬ (env.grants h.calls.length = true ∧ h.sz + n ≤ PHYSTOP - KERNBASE)

variable {env : Env} {t : State} {F L : List Span} {S : Set Nat} {h h' : Heap} {base nbytes n : Nat}

lemma small_iff (hn : nbytes < 2 ^ 32) : Small nbytes ↔ nbytes ≤ 2 ^ 31 - 32 := by
  unfold Small coreUnits HEADER
  rw [unitsFor_eq hn]
  split_ifs <;> omega

/-- A block of the free list is smaller than `2 ^ 31` bytes. -/
lemma small_of_hasUnits (hl : Laid base h F L S) (hS : ∀ x ∈ S, x < PHYSTOP - KERNBASE)
    (hn : nbytes < 2 ^ 32) (hfit : HasUnits F (unitsFor nbytes)) : Small nbytes := by
  obtain ⟨s, hs, hle⟩ := hfit
  have hstop := hl.stop_le hS (List.mem_append_left L hs)
  have hmem : PHYSTOP - KERNBASE = 2 ^ 27 := by decide
  unfold Span.stop at hstop
  refine ⟨hn, ?_⟩
  unfold coreUnits HEADER at *
  split_ifs <;> omega

lemma sbrk_some {n : Int} {hp : Nat} (hr : sbrk env n h = (some hp, h')) :
    hp = h.sz ∧ h'.sz = newSize h.sz n := by
  unfold sbrk at hr
  dsimp only at hr
  split_ifs at hr
  · obtain ⟨hhp, rfl⟩ := Prod.mk.inj hr
    exact ⟨(Option.some.inj hhp).symm, rfl⟩
  · cases (Prod.mk.inj hr).1
  · obtain ⟨hhp, rfl⟩ := Prod.mk.inj hr
    exact ⟨(Option.some.inj hhp).symm, rfl⟩

lemma sbrk_neg (env : Env) (h : Heap) {n : Int} (hn : n < 0) : sbrk env n h = (some h.sz,
    { h with
      sz := newSize h.sz n
      obtained := {x | x ∈ h.obtained ∧ x < newSize h.sz n} }) := by
  unfold sbrk
  dsimp only
  rw [if_neg (not_lt.mpr hn.le)]

/-- `sbrk` fails only if it is refused a positive amount. -/
lemma sbrk_none_or (env : Env) (n : Int) (h : Heap) :
    (0 < n ∧ ¬ (env.grants h.calls.length = true ∧ newSize h.sz n ≤ PHYSTOP - KERNBASE) ∧
      sbrk env n h = (none, h)) ∨
    ((n ≤ 0 ∨ (env.grants h.calls.length = true ∧ newSize h.sz n ≤ PHYSTOP - KERNBASE)) ∧
      ∃ hp h', sbrk env n h = (some hp, h')) := by
  unfold sbrk
  dsimp only
  split_ifs with hpos hgrant
  · exact Or.inr ⟨Or.inr hgrant, _, _, rfl⟩
  · exact Or.inl ⟨hpos, hgrant, rfl⟩
  · exact Or.inr ⟨Or.inl (not_lt.mp hpos), _, _, rfl⟩

/-- Unless `sbrk` fails, a call for too many bytes takes memory that it has not got. -/
lemma malloc_wrong (hi : Inv env t) (hn : nbytes < 2 ^ 32) (hbig : ¬ Small nbytes) {hp : Nat}
    (hr : sbrk env (coreAmount (unitsFor nbytes)) (initBase env t.heap) = (some hp, h')) :
    ∃ r h, Returns (fun fuel => malloc env fuel nbytes t.heap) (r, h) ∧ r ≠ 0 ∧
      h.sz = h'.sz ∧ h.obtained = h'.obtained ∧
      h.calls = ⟨coreUnits (unitsFor nbytes) * HEADER, coreAmount (unitsFor nbytes), some hp⟩ ::
        t.heap.calls := by
  obtain ⟨F, hl⟩ := hi.ready
  have hfit : ¬ HasUnits F (unitsFor nbytes) := fun hc =>
    hbig (small_of_hasUnits hl (fun x hx => (hi.below x hx).trans_le hi.sz) hn hc)
  have hhp : hp = t.heap.sz := (sbrk_some hr).1.trans (initBase_kernel env t.heap).1
  have hlimit : hp + HEADER * coreUnits (unitsFor nbytes) ≤ LIMIT := by
    rw [hhp]
    refine hi.le_limit ?_
    unfold coreUnits HEADER
    rw [unitsFor_eq hn]
    split_ifs <;> omega
  obtain ⟨a, h, F', -, hret, hsz, hobtained, hcalls⟩ := hl.malloc_more hi.base hn hfit hr
    (hhp ▸ hi.data) hlimit fun s hs => hhp ▸ hl.stop_le hi.below hs
  exact ⟨a + HEADER, h, hret, by unfold HEADER; omega, hsz, hobtained, hcalls⟩

/-- The amounts that are not what was meant. -/
lemma coreAmount_of_big (hn : nbytes < 2 ^ 32) (hbig : ¬ Small nbytes) :
    coreAmount (unitsFor nbytes) < (coreUnits (unitsFor nbytes) * HEADER : Nat) ∧
      ((nbytes ≤ 2 ^ 32 - 16 ∧ coreAmount (unitsFor nbytes) ≤ 0) ∨
        (2 ^ 32 - 16 < nbytes ∧ coreAmount (unitsFor nbytes) = HEADER)) := by
  rw [small_iff hn] at hbig
  unfold coreAmount coreUnits HEADER
  rw [unitsFor_eq hn, if_neg (by omega), Int.bmod_def]
  split_ifs <;> omega

/-- `malloc` is honest except for sizes near `2 ^ 32`; of those, the largest are refused when the
kernel has no memory left. -/
theorem malloc_honest_iff (hi : Inv env t) (hn : nbytes < 2 ^ 32) :
    Honest env nbytes t.heap ↔
      nbytes ≤ 2 ^ 31 - 32 ∨ (2 ^ 32 - 16 < nbytes ∧ Refused env t.heap HEADER) := by
  by_cases hs : Small nbytes
  · refine iff_of_true ?_ (Or.inl ((small_iff hn).mp hs))
    obtain ⟨r, h, hret, -, hserves, hfair, -⟩ := hi.malloc hs
    refine ⟨r, h, hret, fun hr i hi => ?_, hfair⟩
    have hroom := (hserves hr).room
    have hheader := (hserves hr).header
    refine (hserves hr).obtained _ ⟨?_, ?_⟩ <;> omega
  obtain ⟨hwrong, hcases⟩ := coreAmount_of_big hn hs
  obtain ⟨hsz₀, hobtained₀, hcalls₀⟩ := initBase_kernel env t.heap
  have hnew : coreAmount (unitsFor nbytes) = HEADER →
      newSize (initBase env t.heap).sz (coreAmount (unitsFor nbytes)) = t.heap.sz + HEADER := by
    intro heq
    have := hi.sz
    have hmem : PHYSTOP - KERNBASE = 2 ^ 27 := by decide
    rw [heq, hsz₀]
    unfold newSize addInt HEADER
    rw [if_pos (by decide)]
    omega
  obtain ⟨hpos, hno, hr⟩ | ⟨hyes, hp, h', hr⟩ :=
    sbrk_none_or env (coreAmount (unitsFor nbytes)) (initBase env t.heap)
  · -- the amount is 16 bytes, and they are refused
    obtain ⟨-, hle⟩ | ⟨hlast, heq⟩ := hcases
    · omega
    rw [hnew heq, hcalls₀] at hno
    refine iff_of_true ?_ (Or.inr ⟨hlast, hno⟩)
    obtain ⟨F, hl⟩ := hi.ready
    have hfit : ¬ HasUnits F (unitsFor nbytes) := fun hc =>
      hs (small_of_hasUnits hl (fun x hx => (hi.below x hx).trans_le hi.sz) hn hc)
    refine ⟨0, _, hl.malloc_fail hn hfit hr, fun hc => absurd rfl hc, hsz₀.ge, [_],
      congrArg _ hcalls₀, ?_⟩
    exact List.forall_mem_singleton.mpr (Or.inl rfl)
  · -- `sbrk` does not fail, and it was called with another amount
    obtain ⟨r, h, hret, -, -, -, hcalls⟩ := malloc_wrong hi hn hs hr
    refine iff_of_false ?_ ?_
    · rintro ⟨r', h', hret', -, -, new, hnew', hall⟩
      obtain ⟨rfl, rfl⟩ := Prod.mk.inj (hret.unique hret')
      rw [hcalls, ← List.singleton_append, List.append_left_inj] at hnew'
      rw [← hnew', List.forall_mem_singleton] at hall
      obtain hnone | heq := hall
      · cases hnone
      · exact absurd heq hwrong.ne
    · rintro (hle | ⟨hlast, hrefused⟩)
      · exact hs ((small_iff hn).mpr hle)
      · obtain ⟨hle, -⟩ | ⟨-, heq⟩ := hcases
        · omega
        · rw [hnew heq, hcalls₀, heq] at hyes
          exact hrefused (hyes.resolve_left (by decide))

/-- The first call of a program of two pages. -/
theorem malloc_honest_iff_first :
    Honest ⟨4096, fun _ => true⟩ 10 (start (fun _ => 0) 8192).heap := by
  have hi : Inv ⟨4096, fun _ => true⟩ (start (fun _ => 0) 8192) :=
    (inv_of_run (by decide) (by decide) (by decide) Run.nil).1
  exact (malloc_honest_iff hi (by decide)).mpr (Or.inl (by decide))

/-- A call for 65552 bytes less than `2 ^ 32` makes a process of 128 kB smaller by half, and
returns a block of which no byte has been obtained. -/
theorem malloc_shrinks : ∃ r h,
    Returns (fun fuel => malloc ⟨4096, fun _ => true⟩ fuel 4294901744
      (start (fun _ => 0) 131072).heap) (r, h) ∧ r ≠ 0 ∧ h.sz = 65536 ∧ h.obtained = ∅ := by
  have hi : Inv ⟨4096, fun _ => true⟩ (start (fun _ => 0) 131072) :=
    (inv_of_run (by decide) (by decide) (by decide) Run.nil).1
  have hamount : coreAmount (unitsFor 4294901744) = -65536 := by decide +kernel
  have hsize : newSize 131072 (-65536) = 65536 := by decide
  have hr := sbrk_neg ⟨4096, fun _ => true⟩ (initBase ⟨4096, fun _ => true⟩
    (start (fun _ => 0) 131072).heap) (show (-65536 : Int) < 0 by decide)
  obtain ⟨hsz₀, hobtained₀, -⟩ :=
    initBase_kernel ⟨4096, fun _ => true⟩ (start (fun _ => 0) 131072).heap
  rw [← hamount] at hr
  obtain ⟨r, h, hret, hr0, hsz, hobtained, -⟩ := malloc_wrong hi (by decide)
    (fun hc => absurd ((small_iff (by decide)).mp hc) (by decide)) hr
  refine ⟨r, h, hret, hr0, ?_, ?_⟩
  · rw [hsz, hsz₀, hamount]
    exact hsize
  · rw [hobtained, hobtained₀]
    exact Set.eq_empty_of_forall_notMem fun x hx => hx.1

end Xv6.Umalloc
