import Xv6.Kernel.ExecImage
import Xv6.Kernel.ProcSpec

/-!
# What `exec` does to page tables

`exec` builds the new image in a table of its own. Every step of it leaves the layout of the other
tables alone, and keeps the new table mapped up to the size reached so far, which is what the code
at `bad` frees.
-/

namespace Xv6

open Function Lib

variable {ι κ : Type} [Layout] {E : Panic → Prop} {s s' s'' : Phys} {roots : ι → Option Nat}
  {ker : Nat → Option κ} {i : ι} {r : Nat} {a b n oldsz newsz v sz : Nat} {xperm : Pte} {pg : UPage}
  {file : List UInt8} {argv : List (List UInt8)}

/-- Only in the user's part of table `i` are pages mapped or unmapped. -/
structure Shape (s s' : Phys) (roots : ι → Option Nat) (i : ι) : Prop where
  user : ∀ {j t v}, roots j = some t → j ≠ i → v < NUSER →
    (view s'.mem t v = none ↔ view s.mem t v = none)
  top : ∀ {j t v}, roots j = some t → NUSER ≤ v → v < 2 ^ 27 →
    leafPte s'.mem t v = leafPte s.mem t v

omit [Layout] in
lemma Shape.trans (h : Shape s s' roots i) (h' : Shape s' s'' roots i) : Shape s s'' roots i :=
  ⟨fun ht hj hv => (h'.user ht hj hv).trans (h.user ht hj hv),
    fun ht hv hv' => (h'.top ht hv hv').trans (h.top ht hv hv')⟩

omit [Layout] in
lemma SameLeaves.shape (h : SameLeaves s.mem s'.mem roots) (i : ι) : Shape s s' roots i := by
  refine ⟨?_, fun ht _ _ => h ht _⟩
  intro j t v ht _ _
  rw [view_eq_none, view_eq_none, h ht]

lemma Frame.shape (h : Frame s s' roots ker (Within i a b)) (hb : b ≤ NUSER) :
    Shape s s' roots i := by
  refine ⟨?_, ?_⟩
  · intro j t v ht hj hv
    rw [h.view ht hv fun hc => hj hc.1]
  · intro j t v ht hv hv'
    apply h.top ht hv hv'
    rintro ⟨-, -, hc⟩
    omega

lemma Shape.procTable (h : Shape s s' roots i) {j : ι} {t tf : Nat} (ht : roots j = some t)
    (hj : j ≠ i) (hp : ProcTable s.mem t n tf) : ProcTable s'.mem t n tf :=
  hp.setUser (fun _ hv hv' => h.top ht hv hv')
    fun v hv => (not_congr (h.user ht hj hv)).trans (hp.user v hv)

/-! ### Growing the image -/

lemma uvmalloc_lt (h : newsz < oldsz) {Q : Nat → Phys → Prop} :
    wp (uvmalloc r oldsz newsz xperm) E Q s ↔ Q oldsz s := by
  unfold uvmalloc
  rw [if_pos h, wp_pure]

omit [Layout] in
lemma xPerm_PTE_W : XPerm PTE_W := by
  intro j hj
  rw [getLsbD_PTE_W, decide_eq_true_eq] at hj
  exact Or.inl hj

omit [Layout] in
lemma xPerm_flags2perm (flags : Nat) : XPerm (flags2perm flags) := by
  intro j hj
  simp only [flags2perm] at hj
  split_ifs at hj
  · rw [BitVec.getLsbD_or, getLsbD_PTE_X, getLsbD_PTE_W, Bool.or_eq_true, decide_eq_true_eq,
      decide_eq_true_eq] at hj
    exact hj.symm
  · rw [BitVec.getLsbD_or, BitVec.getLsbD_zero, getLsbD_PTE_W, Bool.false_or,
      decide_eq_true_eq] at hj
    exact Or.inl hj
  · rw [getLsbD_PTE_X, decide_eq_true_eq] at hj
    exact Or.inr hj
  · rw [BitVec.getLsbD_zero] at hj
    cases hj

omit [Layout] in
lemma length_readi_le (file : List UInt8) (off n : Nat) : (readi file off n).length ≤ n := by
  unfold readi
  split_ifs
  · exact Nat.zero_le _
  · exact List.length_take_le _ _

/-! ### A table that is being built -/

/-- The address space consists of pages 0 to `n - 1`, and the process may use them all. -/
structure LaidOut (A : AddrSpace) (n : Nat) : Prop where
  le : n ≤ NUSER
  mapped : ∀ v < NUSER, ((A v).isSome ↔ v < n)
  user : ∀ {v pg}, A v = some pg → pg.user = true

omit [Layout] in
lemma LaidOut.exists_page {A : AddrSpace} (h : LaidOut A n) (hv : v < n) :
    ∃ pg, A v = some pg ∧ pg.user = true := by
  obtain ⟨pg, hpg⟩ := Option.isSome_iff_exists.mp ((h.mapped v (hv.trans_le h.le)).mpr hv)
  exact ⟨pg, hpg, h.user hpg⟩

omit [Layout] in
lemma LaidOut.grow {A : AddrSpace} (h : LaidOut A a) (hab : a ≤ b) (hb : b ≤ NUSER) (xperm : Pte) :
    LaidOut (A.grow a b xperm) b := by
  refine ⟨hb, fun v hv => ?_, fun {v pg} hpg => ?_⟩
  · unfold AddrSpace.grow
    split_ifs with hin
    · exact iff_of_true rfl hin.2
    · rw [h.mapped v hv]
      omega
  · unfold AddrSpace.grow at hpg
    split_ifs at hpg with hin
    · rw [← Option.some.inj hpg]
      rfl
    · exact h.user hpg

omit [Layout] in
lemma LaidOut.put {A : AddrSpace} (h : LaidOut A n) (a : Nat) (bs : List UInt8) :
    LaidOut (A.put a bs) n := by
  refine ⟨h.le, fun v hv => ?_, fun {v pg} hpg => ?_⟩
  · rw [AddrSpace.isSome_put, h.mapped v hv]
  · obtain ⟨pg', hpg', rfl⟩ := Option.map_eq_some_iff.mp hpg
    exact (h.user hpg' : pg'.user = true)

/-- The table `r` describes `A`, its pages are its own, and nothing else has changed. -/
structure Built (s₀ s : Phys) (roots : ι → Option Nat) (ker : Nat → Option κ) (i : ι) (r : Nat)
    (A : AddrSpace) [Fintype ι] : Prop where
  mem : MemInv s roots ker
  frame : Framed s₀ s roots ker (Within i 0 NUSER)
  own : Unshared s.mem roots i r
  space : Xv6.space s.mem r = A

/-- What the code at `bad` finds: a table with `n` pages, and nothing else has changed. -/
structure Begun (s₀ s : Phys) (roots : ι → Option Nat) (ker : Nat → Option κ) (i : ι) (r n : Nat)
    [Fintype ι] : Prop where
  mem : MemInv s roots ker
  frame : Framed s₀ s roots ker (Within i 0 NUSER)
  space : UserSpace s.mem r n

variable [Fintype ι] {s₀ : Phys} {A : AddrSpace}

lemma Built.begun (h : Built s₀ s roots ker i r A) (hA : ∀ v < NUSER, ((A v).isSome ↔ v < n)) :
    Begun s₀ s roots ker i r n := by
  refine ⟨h.mem, h.frame, ?_⟩
  rw [userSpace_iff, h.space]
  exact hA

/-- The physical page behind a page of the image. -/
lemma Built.leaf (h : Built s₀ s roots ker i r A) (hv : v < NUSER) (hpg : A v = some pg) :
    ptePage (leafPte s.mem r v) = some (pte2pa (leafPte s.mem r v)) ∧
      (leafPte s.mem r v).getLsbD 4 = pg.user ∧
      ∀ o : Fin PGSIZE, s.mem (pte2pa (leafPte s.mem r v) + o) = pg.bytes o := by
  rw [← h.space, space_of_lt hv] at hpg
  cases hp : ptePage (leafPte s.mem r v) with
  | none =>
    rw [view, viewPte_eq_none.mpr hp] at hpg
    cases hpg
  | some pa =>
    have hpa := (ptePage_eq_some.mp hp).2
    rw [view, viewPte_of_ptePage hp, Option.some.injEq] at hpg
    subst hpg hpa
    exact ⟨rfl, rfl, fun _ => rfl⟩

/-- Bytes are written into a page of the image. -/
lemma Built.write (h : Built s₀ s roots ker i r A) (hr : roots i = some r) (hv : v < NUSER)
    (hpg : A v = some pg) {bs : List UInt8} (hbs : bs.length ≤ PGSIZE) :
    Built s₀ { s with mem := s.mem.write (pte2pa (leafPte s.mem r v)) bs } roots ker i r
      (A.put (v * PGSIZE) bs) := by
  obtain ⟨hp, hU, hbytes⟩ := h.leaf hv hpg
  set pa := pte2pa (leafPte s.mem r v) with hpa
  obtain ⟨h1, ht, hframe⟩ := h.mem.writeSole hr hv hp (fun htj hu hq => h.own.sole hv hp htj hu hq)
    (sameOutside_write s.mem bs (le_refl pa) (Nat.add_le_add_left hbs pa))
  have hwithin : ∀ j u, Within i v (v + 1) j u → Within i 0 NUSER j u :=
    fun j u hu => ⟨hu.1, Nat.zero_le _, by have := hu.2.2; omega⟩
  refine ⟨h1, h.frame.trans ⟨hframe.weaken hwithin, ht.placed _⟩, h.own.of_leaves ht.leaves hr, ?_⟩
  rw [hframe.space_update hr hv, h.space]
  have hview : Xv6.view s.mem r v = some pg := by rw [← space_of_lt hv, h.space, hpg]
  funext u
  by_cases hu : u = v
  · subst hu
    rw [update_self]
    unfold AddrSpace.put view
    rw [show leafPte ({ s with mem := s.mem.write pa bs } : Phys).mem r u = leafPte s.mem r u from
      ht.leafPte hr u, viewPte_of_ptePage hp, hpg, Option.map_some, Option.some.injEq]
    rw [view, viewPte_of_ptePage hp, Option.some.injEq] at hview
    subst hview
    simp only [UPage.mk.injEq, true_and]
    funext o
    simp only [Mem.write, Nat.le_add_right, if_true, Nat.add_sub_cancel_left]
  · rw [update_of_ne hu]
    unfold AddrSpace.put
    cases A u with
    | none => rfl
    | some pg' =>
      rw [Option.map_some, Option.some.injEq]
      refine UPage.ext rfl rfl rfl (funext fun o => ?_)
      have ho := o.2
      show pg'.bytes o = Mem.write (fun _ => pg'.bytes o) (v * PGSIZE) bs (u * PGSIZE + o)
      rcases Nat.lt_or_ge u v with hlt | hge
      · rw [Mem.write_apply_of_lt]
        simp only [PGSIZE] at ho ⊢
        omega
      · rw [Mem.write_apply_of_le]
        simp only [PGSIZE] at ho hbs ⊢
        omega

/-! ### Segments -/

/-- The loop of `loadseg`: all bytes are there, or it stops. -/
lemma loadsegFrom_spec (hr : roots i = some r) {va offset size : Nat} (hva : va % PGSIZE = 0)
    (hsz : va + sz ≤ size) :
    ∀ {n i₀ : Nat} {s : Phys} {A : AddrSpace}, i₀ % PGSIZE = 0 → i₀ + n * PGSIZE < sz + PGSIZE →
    Built s₀ s roots ker i r A → LaidOut A (pages size) →
    wp (loadsegFrom r va file offset sz n i₀) E (fun res s' =>
      match readSegment file offset sz n i₀ with
      | some bs => res = 0 ∧ Built s₀ s' roots ker i r (A.put (va + i₀) bs)
      | none => res = -1 ∧ Begun s₀ s' roots ker i r (pages size)) s := by
  intro n
  induction n with
  | zero =>
    intro i₀ s A _ _ h _
    simp only [readSegment]
    rw [AddrSpace.put_nil]
    exact ⟨rfl, h⟩
  | succ n ih =>
    intro i₀ s A hi hn h hlaid
    have hNUSER := NUSER_lt
    have hle := hlaid.le
    have hlt : i₀ < sz := by
      simp only [PGSIZE] at hn
      omega
    have hvpn : (va + i₀) / PGSIZE < pages size := by
      simp only [pages, PGSIZE] at hva hi ⊢
      omega
    have hMAX : va + i₀ < MAXVA := by
      simp only [PGSIZE] at hvpn
      simp only [MAXVA]
      omega
    have hwrap : (va + i₀) % 2 ^ 64 = va + i₀ := by
      simp only [MAXVA] at hMAX
      omega
    have hv : (va + i₀) / PGSIZE < NUSER := hvpn.trans_le hle
    have haddr : (va + i₀) / PGSIZE * PGSIZE = va + i₀ := by
      simp only [PGSIZE] at hva hi ⊢
      omega
    obtain ⟨pg, hpg, hU⟩ := hlaid.exists_page hvpn
    obtain ⟨hp, hleafU, -⟩ := h.leaf hv hpg
    have hpa := (h.mem.user hr hv hp).1.pos.ne'
    unfold loadsegFrom
    rw [hwrap, wp_bind, wp_walkaddr_user hMAX (ptePage_eq_some.mp hp).1 (hleafU.trans hU)]
    simp only [wp_bind, wp_panicIf, hpa, false_imp_iff, true_and, not_false_eq_true, true_imp_iff,
      wp_modify, readSegment]
    set m := if sz - i₀ < PGSIZE then sz - i₀ else PGSIZE with hm
    have hmle : m ≤ PGSIZE := by
      rw [hm]
      split_ifs <;> omega
    set bytes := readi file ((offset + i₀) % 2 ^ 32) m with hbytes
    have hlen : bytes.length ≤ PGSIZE := (length_readi_le _ _ _).trans hmle
    have h1 := h.write hr hv hpg hlen
    have hlaid1 := hlaid.put ((va + i₀) / PGSIZE * PGSIZE) bytes
    rw [haddr] at h1 hlaid1
    by_cases hshort : bytes.length ≠ m
    · rw [if_pos hshort, if_pos hshort, wp_pure]
      exact ⟨rfl, h1.begun hlaid1.mapped⟩
    · rw [if_neg hshort, if_neg hshort]
      refine wp_imp (ih ?_ ?_ h1 hlaid1) ?_
      · simp only [PGSIZE] at hi ⊢
        omega
      · simp only [PGSIZE] at hn ⊢
        omega
      · intro res s' hpost
        cases hrest : readSegment file offset sz n (i₀ + PGSIZE) with
        | none =>
          rw [hrest] at hpost
          exact hpost
        | some rest =>
          rw [hrest] at hpost
          obtain ⟨hres, hbuilt⟩ := hpost
          refine ⟨hres, ?_⟩
          -- if there is more to read, this turn has read a whole page
          by_cases hwhole : bytes.length = PGSIZE
          · rwa [AddrSpace.put_append, hwhole, Nat.add_assoc]
          · have hzero : n = 0 := by
              by_contra hne
              have hlast : ¬sz - i₀ < PGSIZE := by
                obtain ⟨n', rfl⟩ := Nat.exists_eq_succ_of_ne_zero hne
                simp only [PGSIZE] at hn ⊢
                omega
              rw [if_neg hlast] at hm
              omega
            subst hzero
            rw [readSegment, Option.some.injEq] at hrest
            rw [← hrest, AddrSpace.put_nil] at hbuilt
            show Built s₀ s' roots ker i r (A.put (va + i₀) (bytes ++ rest))
            rwa [← hrest, List.append_nil]

variable [DecidableEq ι] [Inhabited κ]

/-- `uvmalloc` in `exec`: more pages, or a table with those that were there. -/
lemma uvmalloc_built (hr : roots i = some r) (hx : XPerm xperm) (h : Built s₀ s roots ker i r A)
    (hlaid : LaidOut A (pages oldsz)) : wp (uvmalloc r oldsz newsz xperm) E (fun res s' =>
      (res = 0 ∧ Begun s₀ s' roots ker i r (pages oldsz)) ∨
      (res = max newsz oldsz ∧
        Built s₀ s' roots ker i r (A.grow (pages oldsz) (pages res) xperm) ∧
        LaidOut (A.grow (pages oldsz) (pages res) xperm) (pages res))) s := by
  rcases Nat.lt_or_ge newsz oldsz with hlt | hle
  · rw [uvmalloc_lt hlt, AddrSpace.grow_self]
    exact Or.inr ⟨(max_eq_right hlt.le).symm, h, hlaid⟩
  have huser : UserSpace s.mem r (pages oldsz) := (h.begun hlaid.mapped).space
  refine wp_imp (uvmalloc_spec h.mem hr hx huser hle) ?_
  rintro res s' ⟨h', ⟨rfl, hframe, hspace, hnew, hown, -⟩ | ⟨rfl, hframe, hplaced, -⟩⟩
  · have hbound := (h'.userSpace_le hr hspace).trans npages_lt.le
    refine Or.inr ⟨(max_eq_left hle).symm, ⟨h', ?_, hown h.own, ?_⟩,
      hlaid.grow (pages_mono hle) hbound xperm⟩
    · exact h.frame.trans (hframe.widen (Nat.zero_le _) hbound)
    · rw [hframe.space_grow hr hbound hnew, h.space]
  · refine Or.inl ⟨rfl, h', h.frame.trans ⟨hframe.weaken fun _ _ => False.elim,
      hplaced.widen (Nat.zero_le _) (le_refl _)⟩, hframe.userSpace hr huser fun _ _ => id⟩

/-- One program header, against its reference. -/
lemma execSegment_spec (hr : roots i = some r) {ph : Proghdr} (hvaddr : ph.vaddr < 2 ^ 64)
    (hmemsz : ph.memsz < 2 ^ 64) (h : Built s₀ s roots ker i r A) (hlaid : LaidOut A (pages sz)) :
    wp (execSegment r file ph sz) E (fun res s' =>
      (res.2 = false ∧ Begun s₀ s' roots ker i r (pages res.1)) ∨
      ∃ A', res.2 = true ∧ refSegment file ph sz A = some (res.1, A') ∧
        Built s₀ s' roots ker i r A' ∧ LaidOut A' (pages res.1)) s := by
  have hbad : Begun s₀ s roots ker i r (pages sz) := h.begun hlaid.mapped
  unfold execSegment refSegment
  rw [wp_ite]
  refine ⟨fun htype => ?_, fun htype => ?_⟩
  · rw [if_pos htype]
    exact Or.inr ⟨A, rfl, rfl, h, hlaid⟩
  rw [if_neg htype, wp_ite]
  refine ⟨fun _ => Or.inl ⟨rfl, hbad⟩, fun hfile => ?_⟩
  rw [if_neg hfile, wp_ite]
  refine ⟨fun _ => Or.inl ⟨rfl, hbad⟩, fun hwrap => ?_⟩
  rw [if_neg hwrap, wp_ite]
  refine ⟨fun _ => Or.inl ⟨rfl, hbad⟩, fun hal => ?_⟩
  rw [if_neg hal, wp_bind]
  refine wp_imp (uvmalloc_built hr (xPerm_flags2perm ph.flags) h hlaid) ?_
  rintro res s₁ (⟨rfl, h1⟩ | ⟨hres, h1, hlaid1⟩)
  · rw [if_pos rfl]
    exact Or.inl ⟨rfl, h1⟩
  simp only [← hres]
  rw [wp_ite]
  refine ⟨fun hz => ?_, fun hz => ?_⟩
  · -- an empty segment at address 0, with nothing mapped before
    have hsz : sz = res := by omega
    rw [hsz]
    exact Or.inl ⟨rfl, h1.begun hlaid1.mapped⟩
  · rw [if_neg hz, wp_bind]
    unfold loadseg
    refine wp_imp (loadsegFrom_spec hr (by omega)
      (show ph.vaddr + ph.filesz % 2 ^ 32 ≤ res by omega) (Nat.zero_mod _)
      (by simp only [PGSIZE]; omega) h1 hlaid1) ?_
    intro res' s₂ hpost
    cases hread : readSegment file (ph.off % 2 ^ 32) (ph.filesz % 2 ^ 32)
        ((ph.filesz % 2 ^ 32 + PGSIZE - 1) / PGSIZE) 0 with
    | none =>
      rw [hread] at hpost
      obtain ⟨rfl, h2⟩ := hpost
      exact Or.inl ⟨rfl, h2⟩
    | some bytes =>
      rw [hread] at hpost
      obtain ⟨rfl, h2⟩ := hpost
      exact Or.inr ⟨_, rfl, rfl, h2, hlaid1.put ph.vaddr bytes⟩

omit [Layout] in
lemma field_lt (b : List UInt8) (off : Nat) : field b off 8 < 2 ^ 64 :=
  Mem.leNat_lt _ 8 off

/-- The loop over the program headers, against its reference. -/
lemma execSegments_spec (hr : roots i = some r) :
    ∀ {n off sz : Nat} {s : Phys} {A : AddrSpace}, Built s₀ s roots ker i r A →
    LaidOut A (pages sz) →
    wp (execSegments r file n off sz) E (fun res s' =>
      (res.2 = false ∧ Begun s₀ s' roots ker i r (pages res.1)) ∨
      ∃ phs A', res.2 = true ∧ readHeaders file n off = some phs ∧
        refSegments file phs sz A = some (res.1, A') ∧ Built s₀ s' roots ker i r A' ∧
        LaidOut A' (pages res.1)) s := by
  intro n
  induction n with
  | zero =>
    intro off sz s A h hlaid
    exact Or.inr ⟨[], A, rfl, rfl, rfl, h, hlaid⟩
  | succ n ih =>
    intro off sz s A h hlaid
    unfold execSegments
    simp only []
    rw [wp_ite]
    refine ⟨fun _ => Or.inl ⟨rfl, h.begun hlaid.mapped⟩, fun hlen => ?_⟩
    rw [wp_bind]
    refine wp_imp (execSegment_spec hr (field_lt _ _) (field_lt _ _) h hlaid) ?_
    rintro ⟨sz', ok⟩ s₁ (⟨rfl, h1⟩ | ⟨A', rfl, href, h1, hlaid1⟩)
    · exact Or.inl ⟨rfl, h1⟩
    · refine wp_imp (ih h1 hlaid1) ?_
      rintro res s₂ (hbad | ⟨phs, A'', hres, hphs, href', h2, hlaid2⟩)
      · exact Or.inl hbad
      · refine Or.inr ⟨Proghdr.ofBytes (readi file off sizeofProghdr) :: phs, A'', hres, ?_, ?_, h2,
          hlaid2⟩
        · rw [readHeaders, if_neg hlen, hphs]
          rfl
        · rw [refSegments, href]
          exact href'

/-! ### The stack -/

omit [DecidableEq ι] [Inhabited κ] in
/-- `uvmclear` takes a page away from the user. -/
lemma uvmclear_spec (h : Built s₀ s roots ker i r A) (hr : roots i = some r) (hv : v < NUSER)
    (hpg : A v = some pg) :
    wp (uvmclear r (v * PGSIZE)) E (fun _ s' => Built s₀ s' roots ker i r (A.hide v)) s := by
  have hva : v * PGSIZE < MAXVA := page_lt_MAXVA (hv.trans NUSER_lt)
  have hdiv := page_div v
  obtain ⟨hq, -, -⟩ := h.leaf hv hpg
  obtain ⟨hV, -⟩ := ptePage_eq_some.mp hq
  obtain ⟨-, hR, a, ha⟩ := h.mem.mapped_leaf hr hv hV
  set w := leafPte s.mem r v &&& ~~~PTE_U with hw
  have hbit : ∀ {j}, j < 64 → j ≠ 4 → w.getLsbD j = (leafPte s.mem r v).getLsbD j := by
    intro j hj h4
    rw [hw, BitVec.getLsbD_and, BitVec.getLsbD_not, getLsbD_PTE_U, decide_eq_false h4,
      decide_eq_true hj, Bool.not_false, Bool.and_self, Bool.and_true]
  have hnotU : w.getLsbD 4 = false := by
    rw [hw, BitVec.getLsbD_and, BitVec.getLsbD_not, getLsbD_PTE_U, decide_eq_true rfl,
      Bool.not_true, Bool.and_false, Bool.and_false]
  have hsame : pte2pa w = pte2pa (leafPte s.mem r v) := by
    apply pte2pa_congr
    intro j hj
    rcases Nat.lt_or_ge j 64 with hlt | hge
    · exact hbit hlt (by omega)
    · rw [BitVec.getLsbD_of_ge _ j hge, BitVec.getLsbD_of_ge _ j hge]
  have hwpage : ptePage w = some (pte2pa (leafPte s.mem r v)) :=
    ptePage_eq_some.mpr ⟨by rw [hbit (by decide) (by decide), hV], hsame⟩
  have hok : LeafOk w := Or.inr ⟨by rw [hbit (by decide) (by decide), hV],
    by rw [hbit (by decide) (by decide), hR]⟩
  have hone : w.getLsbD 2 = true → mapCount s.mem roots (pte2pa w) = 1 := by
    intro hW
    rw [hbit (by decide) (by decide)] at hW
    obtain ⟨own, hinv, -⟩ := h.mem
    rw [hsame]
    exact hinv.pages.writable hr hv hV hW
  obtain ⟨h1, hframe, hlw, hbytes⟩ := h.mem.remark hr hv ha (hwpage.trans hq.symm) hok hone
  have hplaces := hlw.samePlaces hr (hwpage.trans hq.symm)
  unfold uvmclear
  rw [wp_bind, wp_walk_false hva, hdiv, ha]
  simp only [wp_bind, wp_ldPte, wp_stPte]
  rw [← leafPte_of_leafAddr ha]
  refine ⟨h1, h.frame.trans (hframe.widen (Nat.zero_le _) (by omega)), ⟨?_, ?_⟩, ?_⟩
  · intro x pg' j t u hx hpx ht hu hpu
    rw [hplaces.page hr hx] at hpx
    rw [hplaces.page ht hu] at hpu
    exact h.own.sole hx hpx ht hu hpu
  · intro u hu
    by_cases huv : u = v
    · subst huv
      rw [hlw.leaf hr, hbit (by decide) (by decide)]
      exact h.own.notCow hu
    · rw [hlw.other hr (hu.trans (by decide)) (fun hc => huv (Prod.mk.inj hc).2)]
      exact h.own.notCow hu
  · rw [hframe.space_update hr hv, h.space, AddrSpace.hide, hpg, Option.map_some]
    congr 1
    have hview : Xv6.view s.mem r v = some pg := by rw [← space_of_lt hv, h.space, hpg]
    rw [view, viewPte_of_ptePage hq, Option.some.injEq] at hview
    subst hview
    show viewPte (st64 s.mem a w) (leafPte (st64 s.mem a w) r v) = _
    rw [hlw.leaf hr, viewPte_of_ptePage hwpage, Option.some.injEq]
    refine UPage.ext ?_ ?_ ?_ (funext fun o => hbytes _ hwpage o o.2)
    · exact hnotU
    · simp only [hbit (show 2 < 64 by decide) (show 2 ≠ 4 by decide),
        hbit (show 8 < 64 by decide) (show 8 ≠ 4 by decide)]
    · exact hbit (by decide) (by decide)

/-- `copyout` to the table that is being built. -/
lemma copyout_built (h : Built s₀ s roots ker i r A) (hr : roots i = some r) (dstva : Nat)
    (src : List UInt8) :
    wp (copyout r dstva src) E (fun res s' =>
      Built s₀ s' roots ker i r (A.stores dstva src) ∧ Answers res (A.Accepts dstva src.length))
      s := by
  refine wp_imp (copyout_unshared h.mem hr h.own dstva src) ?_
  rintro res s' ⟨⟨h', hown⟩, hframe, hst, hres⟩
  rw [h.space] at hst hres
  exact ⟨⟨h', h.frame.trans hframe, hown, hst⟩, hres⟩

/-- The argument strings, against their reference. -/
lemma pushArgs_spec (hr : roots i = some r) {stackbase : Nat} :
    ∀ {argv : List (List UInt8)} {sp : Nat} {ustack : List Nat} {s : Phys} {A : AddrSpace},
    Built s₀ s roots ker i r A →
    wp (pushArgs r stackbase argv sp ustack) E (fun res s' =>
      ∃ A', Built s₀ s' roots ker i r A' ∧ (∀ v, (A' v).isSome = (A v).isSome) ∧
        ((res = none ∧ refPush stackbase argv sp ustack A = none) ∨
          ∃ sp' ustack', res = some (sp', ustack') ∧
            refPush stackbase argv sp ustack A = some (sp', ustack', A'))) s := by
  intro argv
  induction argv with
  | nil =>
    intro sp ustack s A h
    exact ⟨A, h, fun _ => rfl, Or.inr ⟨sp, ustack, rfl, rfl⟩⟩
  | cons arg argv ih =>
    intro sp ustack s A h
    unfold pushArgs refPush
    rw [wp_ite]
    refine ⟨fun hmax => ?_, fun hmax => ?_⟩
    · rw [if_pos hmax]
      exact ⟨A, h, fun _ => rfl, Or.inl ⟨rfl, rfl⟩⟩
    rw [if_neg hmax, wp_ite]
    refine ⟨fun hlow => ?_, fun hlow => ?_⟩
    · rw [if_pos hlow]
      exact ⟨A, h, fun _ => rfl, Or.inl ⟨rfl, rfl⟩⟩
    rw [if_neg hlow, wp_bind]
    refine wp_imp (copyout_built h hr _ _) ?_
    rw [List.length_append, List.length_singleton]
    rintro res s₁ ⟨h1, ⟨rfl, hacc⟩ | ⟨rfl, hacc⟩⟩
    · rw [if_neg (by decide), if_pos hacc]
      refine wp_imp (ih h1) ?_
      rintro res s' ⟨A', h', hsome, hres⟩
      exact ⟨A', h', fun v => (hsome v).trans (AddrSpace.isSome_stores _ _ _ v), hres⟩
    · rw [if_pos (by decide), if_neg hacc]
      exact ⟨_, h1, fun v => AddrSpace.isSome_stores _ _ _ v, Or.inl ⟨rfl, rfl⟩⟩

/-- What `execStack` does once it has its two pages. -/
@[irreducible]
def execArgs (pagetable : Nat) (argv : List (List UInt8)) (sz : Nat) :
    PhysM (Nat × Option Nat) := do
  uvmclear pagetable (sz - 2 * PGSIZE)
  let stackbase := sz - PGSIZE
  match ← pushArgs pagetable stackbase argv sz [] with
  | none => return (sz, none)
  | some (sp, ustack) =>
    let ustack := ustack ++ [0]
    let sp := pushSp sp (ustack.length * 8)
    if sp < stackbase then return (sz, none)
    if (← copyout pagetable sp (ustack.flatMap (leBytes 8))) < 0 then return (sz, none)
    return (sz, some sp)

/-- The guard page and the arguments, against their reference. -/
lemma execArgs_spec (hr : roots i = some r) (hsz : sz = (n + 2) * PGSIZE)
    (h : Built s₀ s roots ker i r A) (hlaid : LaidOut A (n + 2)) :
    wp (execArgs r argv sz) E (fun res s' => res.1 = sz ∧
      ((res.2 = none ∧ refStack argv sz (A.hide n) = none ∧ Begun s₀ s' roots ker i r (n + 2)) ∨
        ∃ sp A', res.2 = some sp ∧ refStack argv sz (A.hide n) = some (sp, A') ∧
          Built s₀ s' roots ker i r A' ∧ ∀ v < NUSER, ((A' v).isSome ↔ v < n + 2))) s := by
  have hguard : sz - 2 * PGSIZE = n * PGSIZE := by
    rw [hsz]
    simp only [PGSIZE]
    omega
  have hle := hlaid.le
  obtain ⟨pg, hpg, -⟩ := hlaid.exists_page (v := n) (by omega)
  unfold execArgs
  rw [wp_bind, hguard]
  refine wp_imp (uvmclear_spec h hr (by omega) hpg) ?_
  rintro - s₁ h1
  simp only [wp_bind]
  refine wp_imp (pushArgs_spec hr h1) ?_
  rintro pushed s₂ ⟨A₂, h2, hsome2, hpushed⟩
  have hmapped2 : ∀ v < NUSER, ((A₂ v).isSome ↔ v < n + 2) := by
    intro v hv
    rw [hsome2, AddrSpace.isSome_hide]
    exact hlaid.mapped v hv
  unfold refStack
  obtain ⟨rfl, href⟩ | ⟨sp, ustack, rfl, href⟩ := hpushed
  · rw [href]
    exact ⟨rfl, Or.inl ⟨rfl, rfl, h2.begun hmapped2⟩⟩
  rw [href]
  simp only []
  rw [wp_ite]
  refine ⟨fun hlow => ?_, fun hlow => ?_⟩
  · rw [if_pos hlow]
    exact ⟨rfl, Or.inl ⟨rfl, rfl, h2.begun hmapped2⟩⟩
  rw [if_neg hlow, wp_bind]
  refine wp_imp (copyout_built h2 hr _ _) ?_
  have hmapped3 : ∀ a bs v, v < NUSER → ((A₂.stores a bs v).isSome ↔ v < n + 2) := by
    intro a bs v hv
    rw [AddrSpace.isSome_stores]
    exact hmapped2 v hv
  rintro res s₃ ⟨h3, ⟨rfl, hacc⟩ | ⟨rfl, hacc⟩⟩
  · rw [if_neg (by decide), if_pos hacc]
    exact ⟨rfl, Or.inr ⟨_, _, rfl, rfl, h3, hmapped3 _ _⟩⟩
  · rw [if_pos (by decide), if_neg hacc]
    exact ⟨rfl, Or.inl ⟨rfl, rfl, h3.begun (hmapped3 _ _)⟩⟩

lemma wp_execStack {Q : Nat × Option Nat → Phys → Prop} : wp (execStack r argv sz) E Q s ↔
      wp (uvmalloc r (pgroundup sz) ((pgroundup sz + 2 * PGSIZE) % 2 ^ 64) PTE_W) E (fun sz1 s' =>
        if sz1 = 0 then Q (pgroundup sz, none) s' else wp (execArgs r argv sz1) E Q s') s := by
  unfold execStack
  rw [wp_bind]
  apply iff_of_eq
  congr 1
  funext sz1 s'
  unfold execArgs
  split_ifs <;> rfl

/-- The two pages of the stack. -/
lemma uvmalloc_stack (hr : roots i = some r) (h : Built s₀ s roots ker i r A)
    (hlaid : LaidOut A (pages sz)) :
    wp (uvmalloc r (pgroundup sz) ((pgroundup sz + 2 * PGSIZE) % 2 ^ 64) PTE_W) E (fun res s' =>
      (res = 0 ∧ Begun s₀ s' roots ker i r (pages (pgroundup sz))) ∨
      (res = (pages sz + 2) * PGSIZE ∧
        Built s₀ s' roots ker i r (A.grow (pages sz) (pages sz + 2) PTE_W) ∧
        LaidOut (A.grow (pages sz) (pages sz + 2) PTE_W) (pages sz + 2))) s := by
  have hle := hlaid.le
  have hNUSER := NUSER_lt
  have hround : pgroundup sz = pages sz * PGSIZE := by
    apply pgroundup_eq_pages
    simp only [pages, PGSIZE] at hle ⊢
    omega
  have hwrap : (pages sz * PGSIZE + 2 * PGSIZE) % 2 ^ 64 = (pages sz + 2) * PGSIZE := by
    simp only [PGSIZE]
    omega
  have hsame : pages (pgroundup sz) = pages sz := by rw [hround, pages_mul]
  refine wp_imp (uvmalloc_built hr xPerm_PTE_W h (by rw [hsame]; exact hlaid)) ?_
  rw [hsame]
  intro res s' hpost
  refine hpost.imp_right ?_
  rintro ⟨hres, h', hlaid'⟩
  have hmax : res = (pages sz + 2) * PGSIZE := by
    rw [hres, hround, hwrap]
    apply max_eq_left
    simp only [PGSIZE]
    omega
  rw [hmax, pages_mul] at h' hlaid'
  exact ⟨hmax, h', hlaid'⟩

omit [DecidableEq ι] [Inhabited κ] in
/-- A table without user pages. -/
lemma Built.empty (h : MemInv s roots ker) (hr : roots i = some r)
    (hempty : UserSpace s.mem r 0) : Built s s roots ker i r (fun _ => none) := by
  have hnone : ∀ {v}, v < NUSER → ptePage (leafPte s.mem r v) = none := by
    intro v hv
    apply view_eq_none.mp
    by_contra hc
    exact Nat.not_lt_zero v ((hempty v hv).mp hc)
  refine ⟨h, .refl _ _ _ _, ⟨?_, ?_⟩, ?_⟩
  · intro v pg j t u hv hp
    rw [hnone hv] at hp
    cases hp
  · intro v hv
    rcases h.leafOk hr (v := v) (hv.trans (by decide)) with hz | ⟨hV, -⟩
    · rw [hz, BitVec.getLsbD_zero]
    · have hp := ptePage_eq_some.mpr ⟨hV, rfl⟩
      rw [hnone hv] at hp
      cases hp
  · funext v
    unfold Xv6.space
    split_ifs with hv
    · exact view_eq_none.mpr (hnone hv)
    · rfl

omit [Layout] in
lemma laid_empty : LaidOut (fun _ => none) 0 :=
  ⟨Nat.zero_le _, fun v _ => iff_of_false nofun (Nat.not_lt_zero v), nofun⟩

omit [DecidableEq ι] [Inhabited κ] in
/-- The pages of an image lie on distinct pages of memory. -/
lemma Built.size_le (h : Built s₀ s roots ker i r A) (hr : roots i = some r) (hn : n ≤ NUSER)
    (hmapped : ∀ v < NUSER, ((A v).isSome ↔ v < n)) : n * PGSIZE ≤ PHYSTOP - KERNBASE := by
  have hall : ∀ v < n, ptePage (leafPte s.mem r v) ≠ none := by
    intro v hv
    have hlt := hv.trans_le hn
    obtain ⟨pg, hpg⟩ := Option.isSome_iff_exists.mp ((hmapped v hlt).mpr hv)
    rw [(h.leaf hlt hpg).1]
    nofun
  have hle := Nat.mul_le_mul_right PGSIZE (h.mem.vpn_le hr hn hall)
  exact hle.trans (Nat.div_mul_le_self _ _)

/-- The image as the reference describes it, and its table. -/
structure ExecImage (file : List UInt8) (elf : Elfhdr) (argv : List (List UInt8)) (sz sp : Nat)
    (A : AddrSpace) : Prop where
  exists_segments : ∃ phs n A₀, readHeaders file elf.phnum (elf.phoff % 2 ^ 32) = some phs ∧
    refSegments file phs 0 (fun _ => none) = some (n, A₀) ∧ LaidOut A₀ (pages n) ∧
    sz = (pages n + 2) * PGSIZE ∧
    refStack argv sz ((A₀.grow (pages n) (pages n + 2) PTE_W).hide (pages n)) = some (sp, A)
  mapped : ∀ v < NUSER, ((A v).isSome ↔ v < pages sz)
  small : sz ≤ PHYSTOP - KERNBASE

/-- The image is built as the reference says, or the code goes to `bad`. -/
lemma execImage_spec (h : MemInv s roots ker) (hr : roots i = some r) (hempty : UserSpace s.mem r 0)
    {elf : Elfhdr} : wp (execImage r file elf argv) E (fun res s' =>
      (res.2 = none ∧ Begun s s' roots ker i r (pages res.1)) ∨
      ∃ sp A, res.2 = some sp ∧ ExecImage file elf argv res.1 sp A ∧
        Built s s' roots ker i r A) s := by
  unfold execImage
  rw [wp_bind]
  refine wp_imp (execSegments_spec hr (.empty h hr hempty) laid_empty) ?_
  rintro ⟨sz, ok⟩ s₁ (⟨rfl, h1⟩ | ⟨phs, A₀, rfl, hphs, hsegs, h1, hlaid⟩)
  · exact Or.inl ⟨rfl, h1⟩
  rw [wp_execStack]
  refine wp_imp (uvmalloc_stack hr h1 hlaid) ?_
  rintro sz1 s₂ (⟨rfl, h2⟩ | ⟨hsz1, h2, hlaid2⟩)
  · rw [if_pos rfl]
    exact Or.inl ⟨rfl, h2⟩
  rw [if_neg (by rw [hsz1]; simp only [PGSIZE]; omega)]
  refine wp_imp (execArgs_spec hr hsz1 h2 hlaid2) ?_
  have hpages : pages sz1 = pages sz + 2 := by rw [hsz1, pages_mul]
  rintro ⟨_, osp⟩ s₃ ⟨rfl, ⟨rfl, -, h3⟩ | ⟨sp, A, rfl, hstack, h3, hmapped⟩⟩
  · exact Or.inl ⟨rfl, by rw [hpages]; exact h3⟩
  · refine Or.inr ⟨sp, A, rfl, ⟨⟨phs, sz, A₀, hphs, hsegs, hlaid, hsz1, hstack⟩, ?_, ?_⟩, h3⟩
    · rw [hpages]
      exact hmapped
    · rw [hsz1]
      exact h3.size_le hr hlaid2.le hmapped

end Xv6
