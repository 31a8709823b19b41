import Xv6.Kernel.BootSpec

/-!
# What `growproc` reports

`growproc` adds a signed 32-bit number to an unsigned 64-bit size. When the sum is not negative it
does what its result says. When it is negative the sum wraps round to a huge size, `uvmdealloc`
takes it for growth and does nothing, and `growproc` still returns 0.
-/

namespace Xv6

open Function Lib

/-- The size has changed by `n`: the pages below it are mapped and no others, the bytes that were
there before are there still, and the new pages are empty. -/
structure Resized (im im' : UserImage) (n : Int) : Prop where
  sz : (im'.sz : Int) = im.sz + n
  mapped : ∀ v < NUSER, ((im'.space v).isSome ↔ v * PGSIZE < im'.sz)
  kept : ∀ va < min im.sz im'.sz, im'.space.byte va = im.space.byte va
  zero : ∀ v pg, im.space v = none → im'.space v = some pg → ∀ o, pg.bytes o = 0

lemma addInt_of_nonneg {sz : Nat} {n : Int} (h : 0 ≤ sz + n) (hlt : (sz : Int) + n < 2 ^ 64) :
    (addInt sz n : Int) = sz + n := by
  unfold addInt
  rw [Int.emod_eq_of_lt h hlt, Int.toNat_of_nonneg h]

/-- A negative sum wraps round. -/
lemma le_addInt_of_neg {sz : Nat} {n : Int} (h : (sz : Int) + n < 0) (hle : -2 ^ 63 ≤ n)
    (hsz : sz < 2 ^ 63) : sz ≤ addInt sz n := by
  unfold addInt
  omega

/-- `sbrk` where the new size is not negative. -/
lemma resized_sbrk {im : UserImage} {n : Int} (hn : 0 ≤ im.sz + n)
    (hlt : (im.sz : Int) + n < 2 ^ 64)
    (hmapped : ∀ v < NUSER, (((im.sbrk n).space v).isSome ↔ v < pages (im.sbrk n).sz)) :
    Resized im (im.sbrk n) n := by
  have hsum := addInt_of_nonneg hn hlt
  refine ⟨?_, fun v hv => (hmapped v hv).trans lt_pages_iff, ?_, ?_⟩
  · unfold UserImage.sbrk UserImage.grow UserImage.shrink
    split_ifs
    · omega
    · exact hsum
    · omega
    · exact hsum
    · omega
  · intro va hva
    apply AddrSpace.byte_congr
    have hold := div_lt_pages (hva.trans_le (min_le_left _ _))
    have hnew := div_lt_pages (hva.trans_le (min_le_right _ _))
    unfold UserImage.sbrk UserImage.grow UserImage.shrink at hnew ⊢
    split_ifs at hnew ⊢
    · rfl
    · exact if_neg fun hc => absurd hc.1 (by omega)
    · rfl
    · exact if_pos hnew
    · rfl
  · intro v pg hnone hpg o
    unfold UserImage.sbrk UserImage.grow UserImage.shrink at hpg
    split_ifs at hpg
    · rw [hnone] at hpg
      cases hpg
    · simp only [AddrSpace.grow] at hpg
      split_ifs at hpg
      · rw [← Option.some.inj hpg]
        rfl
      · rw [hnone] at hpg
        cases hpg
    · rw [hnone] at hpg
      cases hpg
    · simp only [AddrSpace.shrink] at hpg
      split_ifs at hpg
      rw [hnone] at hpg
      cases hpg
    · rw [hnone] at hpg
      cases hpg

variable [Layout] {E : Panic → Prop} {t t' : Sys} {p : Fin NPROC} {n : Int} {im : UserImage}

/-- A process and its pages are as before, and so is the count of each page that is not free. -/
structure Untouched (t t' : Sys) (p : Fin NPROC) : Prop where
  proc : t'.proc p = t.proc p
  page : ∀ {r v}, (t.proc p).pagetable = some r → v < NUSER →
    ptePage (leafPte t'.phys.mem r v) = ptePage (leafPte t.phys.mem r v)
  image : t'.image p = t.image p
  refcnt : ∀ {pg}, IsPage pg → pg ∉ t.phys.freelist →
    pg ∉ t'.phys.freelist ∧ t'.phys.pgRefcnt pg = t.phys.pgRefcnt pg

/-- The call did what its result says: 0 for a process whose size has changed by `n`, -1 for one
that is as before. -/
def Reports (t t' : Sys) (p : Fin NPROC) (n res : Int) : Prop :=
  (res = 0 ∧ ∃ im im', t.image p = some im ∧ t'.image p = some im' ∧ Resized im im' n) ∨
    (res = -1 ∧ Untouched t t' p)

lemma SysInv.sz_lt (h : SysInv t) (hlive : (t.proc p).state ≠ .unused) :
    (t.proc p).sz < 2 ^ 40 := by
  obtain ⟨ker, hmem, -⟩ := h.mem
  obtain ⟨r, tf, hr, -, htable⟩ := h.live hlive
  have hpages := (hmem.userSpace_le (i := some p) hr htable.user).trans_lt npages_lt
  have hN := NUSER_lt
  simp only [pages, PGSIZE] at hpages
  omega

/-- `growproc` either does what `sbrk` asks for, or leaves all tables their pages. -/
lemma SysInv.growproc_spec (h : SysInv t) (hlive : (t.proc p).state ≠ .unused) (hn : n < 2 ^ 31) :
    wp (growproc p n) E (fun res t' => SysInv t' ∧
      ((res = 0 ∧ t'.image = update t.image p ((t.image p).map fun im => im.sbrk n)) ∨
        (res = -1 ∧ 0 < n ∧ t'.image = t.image ∧ t'.proc = t.proc ∧ t'.kpages = t.kpages ∧
          Keeps t.phys.mem t'.phys.mem t.roots))) t := by
  obtain ⟨r, tf, hr, -⟩ := h.live hlive
  have himage : t.image p = some { sz := (t.proc p).sz, space := space t.phys.mem r } :=
    Proc.image_of_some hr _
  have hsz := h.sz_lt hlive
  have hsbrk : ∀ f : UserImage → UserImage,
      (∀ im : UserImage, im.sz = (t.proc p).sz → f im = im.sbrk n) →
      (t.image p).map f = (t.image p).map fun im => im.sbrk n := by
    intro f hf
    rw [himage, Option.map_some, Option.map_some, hf _ rfl]
  unfold growproc
  rw [wp_bind, wp_getProc, wp_ite, hr]
  refine ⟨fun hpos => ?_, fun hpos => ?_⟩
  · have hnew : 0 < addInt (t.proc p).sz n := by
      have hsum : (addInt (t.proc p).sz n : Int) = (t.proc p).sz + n :=
        addInt_of_nonneg (by omega) (by omega)
      omega
    rw [wp_bind, wp_deref_some, wp_bind, wp_onPhys]
    refine wp_imp (h.uvmalloc_inv hlive hr xPerm_PTE_W _) ?_
    rintro sz s' ⟨⟨hinv, hc⟩, hgood, hbad⟩
    unfold Sys.grown at hinv hc
    split_ifs at hinv hc ⊢ with hz
    · obtain ⟨hno, hkeeps⟩ := hbad hz hnew
      obtain ⟨hno', -⟩ | ⟨-, himage'⟩ := hc
      · exact absurd hno' hno.ne'
      · exact ⟨hinv, Or.inr ⟨rfl, hpos, himage', rfl, rfl, hkeeps⟩⟩
    · obtain ⟨-, himage'⟩ | ⟨hno', -⟩ := hc
      · refine ⟨hinv, Or.inl ⟨rfl, himage'.trans ?_⟩⟩
        rw [hsbrk _ fun im him => by rw [UserImage.sbrk, if_pos hpos, him]]
      · exact absurd (hgood hz) hno'.ne'
  · rw [wp_ite]
    refine ⟨fun hneg => ?_, fun hneg => ?_⟩
    · rw [wp_bind, wp_deref_some, wp_bind, wp_onPhys]
      refine wp_imp (h.uvmdealloc_inv hlive hr _) ?_
      rintro sz s' ⟨hinv, -, himage'⟩
      refine ⟨hinv, Or.inl ⟨rfl, himage'.trans ?_⟩⟩
      rw [hsbrk _ fun im him => by rw [UserImage.sbrk, if_neg hpos, if_pos hneg, him]]
    · refine ⟨h, Or.inl ⟨rfl, (image_unchanged himage ?_).symm⟩⟩
      rw [UserImage.sbrk, if_neg hpos, if_neg hneg]

lemma SysInv.mapped_iff (h : SysInv t) (himage : t.image p = some im) {v : Nat} (hv : v < NUSER) :
    (im.space v).isSome ↔ v < pages im.sz := by
  have hlive : (t.proc p).state ≠ .unused := by
    rw [ne_eq, h.unused_iff, himage]
    nofun
  obtain ⟨r, tf, hr, -, htable⟩ := h.live hlive
  rw [Sys.image, Proc.image_of_some hr, Option.some.injEq] at himage
  rw [← himage]
  exact userSpace_iff.mp htable.user v hv

omit [Layout] in
lemma sz_of_image (h : t.image p = some im) : (t.proc p).sz = im.sz := by
  obtain ⟨r, -, rfl⟩ := Option.map_eq_some_iff.mp h
  rfl

lemma Alone.proc_sz (h : Alone t p im) : (t.proc p).sz = PGSIZE :=
  (sz_of_image h.image).trans h.sz

/-- `growproc(n)` does what it reports if and only if the size plus `n` is not negative. -/
theorem growproc_reports_iff (h : SysInv t) (hlive : (t.proc p).state ≠ .unused)
    (hmin : -2 ^ 31 ≤ n) (hmax : n < 2 ^ 31) :
    (∃ res t', (growproc p n).run t = .ok (res, t') ∧ Reports t t' p n res) ↔
      0 ≤ (t.proc p).sz + n := by
  have hsz := h.sz_lt hlive
  obtain ⟨r, -, hr, -⟩ := h.live hlive
  have himage : t.image p = some { sz := (t.proc p).sz, space := space t.phys.mem r } :=
    Proc.image_of_some hr _
  obtain ⟨res, t', hrun, h', hres⟩ := wp_run (h.growproc_spec (E := fun _ => False) hlive hmax)
  constructor
  · rintro ⟨res₁, t₁, hrun₁, hreports⟩
    rw [hrun] at hrun₁
    obtain ⟨rfl, rfl⟩ := Prod.mk.inj (Except.ok.inj hrun₁)
    by_contra hneg
    obtain ⟨rfl, himage'⟩ | ⟨-, hpos, -⟩ := hres
    · obtain ⟨-, im, im', him, him', hresized⟩ | ⟨hc, -⟩ := hreports
      · rw [himage', update_self, him, Option.map_some, Option.some.injEq] at him'
        rw [himage, Option.some.injEq] at him
        have hsame := hresized.sz
        rw [← him', ← him, UserImage.sbrk, if_neg (by omega), if_pos (by omega), UserImage.shrink,
          if_pos (le_addInt_of_neg (by simp only; omega) (by omega) (by simp only; omega))] at hsame
        simp only at hsame
        omega
      · cases hc
    · omega
  · intro hnonneg
    refine ⟨res, t', hrun, ?_⟩
    obtain ⟨rfl, himage'⟩ | ⟨rfl, -, himage', hproc, hk, hkeeps⟩ := hres
    · refine Or.inl ⟨rfl, _, _, himage, ?_, resized_sbrk (by simp only; omega)
        (by simp only; omega) fun v hv => h'.mapped_iff (p := p) ?_ hv⟩
      all_goals rw [himage', update_self, himage, Option.map_some]
    · obtain ⟨ker, hmem, hheld⟩ := h.mem
      obtain ⟨ker', hmem', hheld'⟩ := h'.mem
      rw [Sys.trapframes_congr hproc, hk] at hheld'
      rw [hheld.unique hheld', Sys.roots_congr hproc] at hmem'
      refine Or.inr ⟨rfl, congrFun hproc p, fun hr' hv => hkeeps.page (i := some p) hr' hv,
        congrFun himage' p, fun hpg hfree => hkeeps.refcnt hmem hmem' hpg hfree⟩

omit [Layout] in
theorem growproc_reports_iff_alone : ∃ t p, @SysInv builtLayout t ∧
    (t.proc p).state ≠ .unused ∧ (t.proc p).sz = PGSIZE ∧
    ((∃ res t', (@growproc builtLayout p 1).run t = .ok (res, t') ∧
      @Reports builtLayout t t' p 1 res) ↔ 0 ≤ ((t.proc p).sz : Int) + 1) := by
  let := builtLayout
  obtain ⟨t, p, im, h⟩ := exists_alone
  have hlive : (t.proc p).state ≠ .unused := by rw [h.state]; nofun
  exact ⟨t, p, h.inv, hlive, h.proc_sz, growproc_reports_iff h.inv hlive (by decide) (by decide)⟩

omit [Layout] in
/-- A process with one page gives back a page and a byte: `growproc` returns 0 and the size is what
it was. -/
theorem growproc_wraps : ∃ t p t', @SysInv builtLayout t ∧ (t.proc p).state ≠ .unused ∧
    (t.proc p).sz = PGSIZE ∧ (@growproc builtLayout p (-4097)).run t = .ok (0, t') ∧
    (t'.proc p).sz = PGSIZE := by
  let := builtLayout
  obtain ⟨t, p, im, h⟩ := exists_alone
  have hlive : (t.proc p).state ≠ .unused := by rw [h.state]; nofun
  obtain ⟨res, t', hrun, h', ⟨rfl, himage⟩ | ⟨-, hpos, -⟩⟩ :=
    wp_run (h.inv.growproc_spec (E := fun _ => False) (n := -4097) hlive (by decide))
  swap
  · exact absurd hpos (by decide)
  refine ⟨t, p, t', h.inv, hlive, h.proc_sz, hrun, ?_⟩
  have hsame : im.sbrk (-4097) = im := by
    rw [UserImage.sbrk, if_neg (by decide), if_pos (by decide), UserImage.shrink, h.sz]
    exact if_pos (by decide)
  rw [h.image, Option.map_some, hsame, ← h.image, update_eq_self] at himage
  exact (sz_of_image ((congrFun himage p).trans h.image)).trans h.sz

end Xv6
