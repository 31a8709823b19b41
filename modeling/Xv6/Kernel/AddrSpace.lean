import Xv6.Kernel.Copyout

/-!
# Address spaces

An address space as its process knows it: which pages there are, and what may be done with them.
Nothing is shared here: an operation on one address space is a function of that address space
alone. `space m r` is the address space behind a page table, and the specifications below say
that loads, stores and `copyout` act on it as they act on memory of the process's own.
-/

namespace Xv6

open Function Lib

/-- One byte of a page is changed. -/
def UPage.set (pg : UPage) (o : Nat) (b : UInt8) : UPage :=
  { pg with bytes := fun x => if x = o then b else pg.bytes x }

/-- Page numbers to pages. -/
abbrev AddrSpace := Nat → Option UPage

namespace AddrSpace

/-- The byte that the process reads at `va`. -/
def load (A : AddrSpace) (va : Nat) : Option UInt8 :=
  if va < MAXVA then
    (A (va / PGSIZE)).bind fun pg =>
      if pg.user then some (pg.bytes ⟨va % PGSIZE, Nat.mod_lt _ (by decide)⟩) else none
  else
    none

/-- The byte at `va`, whether or not the process may read it. -/
def byte (A : AddrSpace) (va : Nat) : Option UInt8 :=
  (A (va / PGSIZE)).map fun pg => pg.bytes ⟨va % PGSIZE, Nat.mod_lt _ (by decide)⟩

/-- The process may write to `va`. -/
def MayStore (A : AddrSpace) (va : Nat) : Prop :=
  va < MAXVA ∧ ∃ pg, A (va / PGSIZE) = some pg ∧ pg.user = true ∧ pg.writable = true

/-- Store a byte, if the process may write to `va`. -/
def store (A : AddrSpace) (va : Nat) (b : UInt8) : Option AddrSpace :=
  if va < MAXVA then
    (A (va / PGSIZE)).bind fun pg =>
      if pg.user && pg.writable then
        some (update A (va / PGSIZE) (some (pg.set (va % PGSIZE) b)))
      else
        none
  else
    none

/-- Store bytes from `va` on, up to the first that may not be stored. -/
def stores (A : AddrSpace) (va : Nat) : List UInt8 → AddrSpace
  | [] => A
  | b :: bs =>
    match A.store va b with
    | some A' => stores A' ((va + 1) % 2 ^ 64) bs
    | none => A

/-- The process may write to each of the `n` addresses from `va` on. -/
def Accepts (A : AddrSpace) : Nat → Nat → Prop
  | _, 0 => True
  | va, n + 1 => A.MayStore va ∧ A.Accepts ((va + 1) % 2 ^ 64) n

/-- Pages `a` to `b - 1` become pages of zeros. -/
def grow (A : AddrSpace) (a b : Nat) (xperm : Pte) : AddrSpace :=
  fun v => if a ≤ v ∧ v < b then some (zeroPage xperm) else A v

/-- The pages from `n` on are given up. -/
def shrink (A : AddrSpace) (n : Nat) : AddrSpace := fun v => if v < n then A v else none

variable {A A' : AddrSpace} {va : Nat} {b : UInt8}

lemma byte_congr (h : A' (va / PGSIZE) = A (va / PGSIZE)) : A'.byte va = A.byte va := by
  rw [byte, byte, h]

lemma store_eq_some (h : A.store va b = some A') : va < MAXVA ∧ ∃ pg, A (va / PGSIZE) = some pg ∧
    pg.user = true ∧ pg.writable = true ∧
    A' = update A (va / PGSIZE) (some (pg.set (va % PGSIZE) b)) := by
  unfold store at h
  split_ifs at h with hva
  obtain ⟨pg, hpg, h⟩ := Option.bind_eq_some_iff.mp h
  split_ifs at h with hperm
  rw [Bool.and_eq_true] at hperm
  exact ⟨hva, pg, hpg, hperm.1, hperm.2, (Option.some.inj h).symm⟩

lemma store_of_page (hva : va < MAXVA) {pg : UPage} (hpg : A (va / PGSIZE) = some pg)
    (hU : pg.user = true) (hW : pg.writable = true) :
    A.store va b = some (update A (va / PGSIZE) (some (pg.set (va % PGSIZE) b))) := by
  rw [store, if_pos hva, hpg, Option.bind_some, hU, hW]
  rfl

lemma store_eq_none_iff : A.store va b = none ↔ ¬A.MayStore va := by
  refine not_iff_not.mp (Option.ne_none_iff_exists'.trans ?_)
  rw [not_not]
  constructor
  · rintro ⟨A', h⟩
    obtain ⟨hva, pg, hpg, hU, hW, -⟩ := store_eq_some h
    exact ⟨hva, pg, hpg, hU, hW⟩
  · rintro ⟨hva, pg, hpg, hU, hW⟩
    exact ⟨_, store_of_page hva hpg hU hW⟩

lemma mayStore_of_store (h : A.store va b = some A') : A.MayStore va := by
  by_contra hc
  rw [store_eq_none_iff.mpr hc] at h
  cases h

/-- What the process may write to does not depend on the bytes. -/
lemma mayStore_store_iff (h : A.store va b = some A') (x : Nat) :
    A'.MayStore x ↔ A.MayStore x := by
  obtain ⟨-, pg, hpg, -, -, rfl⟩ := store_eq_some h
  apply and_congr_right
  intro _
  by_cases hx : x / PGSIZE = va / PGSIZE
  · rw [hx, update_self, hpg]
    simp only [Option.some.injEq, exists_eq_left']
    rfl
  · rw [update_of_ne hx]

/-- A load after a store. -/
lemma load_store (h : A.store va b = some A') (x : Nat) :
    A'.load x = if x = va then some b else A.load x := by
  obtain ⟨hva, pg, hpg, hU, -, rfl⟩ := store_eq_some h
  unfold load
  by_cases hx : x / PGSIZE = va / PGSIZE
  · rw [hx, update_self, hpg, Option.bind_some, Option.bind_some]
    have huser : (pg.set (va % PGSIZE) b).user = true := hU
    rw [if_pos huser, if_pos hU]
    by_cases he : x = va
    · subst he
      rw [if_pos hva, if_pos rfl]
      simp [UPage.set]
    · have hmod : x % PGSIZE ≠ va % PGSIZE := by
        intro hmod
        apply he
        rw [← Nat.div_add_mod x PGSIZE, hx, hmod, Nat.div_add_mod]
      rw [if_neg he]
      simp [UPage.set, hmod]
  · have hne : x ≠ va := fun he => hx (by rw [he])
    rw [update_of_ne hx, if_neg hne]

lemma accepts_iff {n : Nat} : ∀ {va : Nat}, va < 2 ^ 64 →
    (A.Accepts va n ↔ ∀ k < n, A.MayStore ((va + k) % 2 ^ 64)) := by
  induction n with
  | zero => intro va _; simp [Accepts]
  | succ n ih =>
    intro va hva
    have hnext : ∀ k, ((va + 1) % 2 ^ 64 + k) % 2 ^ 64 = (va + (k + 1)) % 2 ^ 64 := by
      intro k
      rw [Nat.mod_add_mod]
      congr 1
      omega
    rw [Accepts, ih (Nat.mod_lt _ (by decide)), Nat.forall_lt_succ_left]
    simp only [hnext, Nat.add_zero, Nat.mod_eq_of_lt hva]

lemma accepts_store_iff (h : A.store va b = some A') : ∀ {n x : Nat},
    A'.Accepts x n ↔ A.Accepts x n := by
  intro n
  induction n with
  | zero => intro x; rfl
  | succ n ih =>
    intro x
    rw [Accepts, Accepts, mayStore_store_iff h, ih]

/-- A store brings no page and takes none. -/
lemma isSome_store (h : A.store va b = some A') (v : Nat) : (A' v).isSome = (A v).isSome := by
  obtain ⟨-, pg, hpg, -, -, rfl⟩ := store_eq_some h
  by_cases hv : v = va / PGSIZE
  · subst hv
    rw [update_self, hpg]
    rfl
  · rw [update_of_ne hv]

lemma isSome_stores (bs : List UInt8) : ∀ (A : AddrSpace) (va v : Nat),
    (A.stores va bs v).isSome = (A v).isSome := by
  induction bs with
  | nil => intro A va v; rfl
  | cons b bs ih =>
    intro A va v
    unfold stores
    cases hst : A.store va b with
    | none => rfl
    | some A' => exact (ih A' _ v).trans (isSome_store hst v)

lemma accepts_stores_iff (bs : List UInt8) : ∀ (A : AddrSpace) (va : Nat) {x n : Nat},
    (A.stores va bs).Accepts x n ↔ A.Accepts x n := by
  induction bs with
  | nil => intro A va x n; rfl
  | cons b bs ih =>
    intro A va x n
    unfold stores
    cases hst : A.store va b with
    | none => rfl
    | some A' => exact (ih A' _).trans (accepts_store_iff hst)

/-- Nothing is stored if the first address is refused. -/
lemma stores_of_not_mayStore (h : ¬A.MayStore va) (bs : List UInt8) : A.stores va bs = A := by
  cases bs with
  | nil => rfl
  | cons b bs =>
    unfold stores
    rw [store_eq_none_iff.mpr h]

/-- Stores of one and the same byte keep the places that have it. -/
lemma load_stores_replicate {x : Nat} {c : UInt8} (n : Nat) : ∀ (A : AddrSpace) (va : Nat),
    A.load x = some c → (A.stores va (List.replicate n c)).load x = some c := by
  induction n with
  | zero => intro A va h; exact h
  | succ n ih =>
    intro A va h
    rw [List.replicate_succ]
    unfold stores
    cases hst : A.store va c with
    | none => exact h
    | some A' =>
      apply ih A'
      rw [load_store hst, h, ite_self]

lemma load_stores_first {c : UInt8} (h : A.MayStore va) (n : Nat) :
    (A.stores va (List.replicate (n + 1) c)).load va = some c := by
  obtain ⟨A', hst⟩ := Option.ne_none_iff_exists'.mp
    (mt (store_eq_none_iff (b := c)).mp (not_not_intro h))
  rw [List.replicate_succ]
  unfold stores
  rw [hst]
  apply load_stores_replicate
  rw [load_store hst, if_pos rfl]

end AddrSpace

/-- The address space that the table `r` describes. -/
@[irreducible]
def space (m : Mem) (r : Nat) : AddrSpace := fun v => if v < NUSER then view m r v else none

lemma space_of_lt {m : Mem} {r v : Nat} (hv : v < NUSER) : space m r v = view m r v := by
  rw [space, if_pos hv]

lemma userSpace_iff {m : Mem} {r n : Nat} :
    UserSpace m r n ↔ ∀ v < NUSER, ((space m r v).isSome ↔ v < n) := by
  apply forall_congr'
  intro v
  apply imp_congr_right
  intro hv
  rw [space_of_lt hv, Option.isSome_iff_ne_none]

variable {ι κ : Type} [Layout] {E : Panic → Prop} {s s' : Phys} {roots : ι → Option Nat}
  {ker : Nat → Option κ} {i : ι} {r : Nat} {v a b va : Nat}

lemma Frame.space {P : ι → Nat → Prop} (h : Frame s s' roots ker P) (hr : roots i = some r)
    (hP : ∀ v < NUSER, ¬P i v) : Xv6.space s'.mem r = Xv6.space s.mem r := by
  funext v
  unfold Xv6.space
  split_ifs with hv
  · exact h.view hr hv (hP v hv)
  · rfl

/-- The address space after one page of it has changed. -/
lemma Frame.space_update (h : Frame s s' roots ker (Within i v (v + 1))) (hr : roots i = some r)
    (hv : v < NUSER) : Xv6.space s'.mem r = update (Xv6.space s.mem r) v (Xv6.view s'.mem r v) := by
  funext u
  by_cases huv : u = v
  · subst huv
    rw [update_self, space_of_lt hv]
  · rw [update_of_ne huv]
    unfold Xv6.space
    split_ifs with hu
    · apply h.view hr hu
      rintro ⟨-, h1, h2⟩
      omega
    · rfl

/-- The address space after pages `a` to `b - 1` have been added. -/
lemma Frame.space_grow {xperm : Pte} (h : Frame s s' roots ker (Within i a b))
    (hr : roots i = some r) (hb : b ≤ NUSER)
    (hnew : ∀ v, a ≤ v → v < b → Xv6.view s'.mem r v = some (zeroPage xperm)) :
    Xv6.space s'.mem r = (Xv6.space s.mem r).grow a b xperm := by
  funext v
  unfold AddrSpace.grow Xv6.space
  by_cases hin : a ≤ v ∧ v < b
  · rw [if_pos (hin.2.trans_le hb), if_pos hin, hnew v hin.1 hin.2]
  · rw [if_neg hin]
    split_ifs with hv
    · exact h.view hr hv fun hc => hin hc.2
    · rfl

/-- The address space after the pages from `a` on have been taken away. -/
lemma Frame.space_shrink (h : Frame s s' roots ker (Within i a b)) (hr : roots i = some r)
    (hspace : UserSpace s.mem r b) (hgone : ∀ v, a ≤ v → v < b → Xv6.view s'.mem r v = none) :
    Xv6.space s'.mem r = (Xv6.space s.mem r).shrink a := by
  funext v
  unfold AddrSpace.shrink Xv6.space
  by_cases hv : v < NUSER
  swap
  · rw [if_neg hv, if_neg hv, ite_self]
  rw [if_pos hv, if_pos hv]
  by_cases ha : v < a
  · rw [if_pos ha]
    exact h.view hr hv fun hc => absurd hc.2.1 (by omega)
  · rw [if_neg ha]
    by_cases hb : v < b
    · exact hgone v (by omega) hb
    · rw [h.view hr hv fun hc => hb hc.2.2]
      by_contra hc
      exact hb ((hspace v hv).mp hc)

variable [Fintype ι]

section

variable (h : MemInv s roots ker) (hr : roots i = some r)
include h hr

/-- A load reads what the address space says. -/
lemma MemInv.userLoad_eq (va : Nat) : userLoad s.mem r va = (space s.mem r).load va := by
  unfold userLoad AddrSpace.load
  simp only [hasFlag_V, hasFlag_U]
  by_cases hva : va < MAXVA
  swap
  · rw [if_neg (fun hc => hva hc.1), if_neg hva]
  rw [if_pos hva]
  by_cases hU : (leafPte s.mem r (va / PGSIZE)).getLsbD 4 = true
  · rw [space_of_lt (h.vpn_lt hr hva hU), view]
    by_cases hV : (leafPte s.mem r (va / PGSIZE)).getLsbD 0 = true
    · rw [if_pos ⟨hva, hV, hU⟩, viewPte_of_ptePage (ptePage_eq_some.mpr ⟨hV, rfl⟩),
        Option.bind_some, if_pos hU]
    · rw [if_neg (fun hc => hV hc.2.1), viewPte_eq_none.mpr, Option.bind_none]
      rw [ptePage, hasFlag_V, if_neg hV]
  · rw [if_neg (fun hc => hU hc.2.2)]
    unfold space
    split_ifs
    · rw [view]
      cases hp : ptePage (leafPte s.mem r (va / PGSIZE)) with
      | none => rw [viewPte_eq_none.mpr hp, Option.bind_none]
      | some pg =>
        rw [viewPte_of_ptePage hp, Option.bind_some, if_neg hU]
    · rfl

/-- Writing into a page that is mapped at one place only. -/
lemma MemInv.writeSole {pg : Nat} (hv : v < NUSER) (hp : ptePage (leafPte s.mem r v) = some pg)
    (hsole : ∀ {j t u}, roots j = some t → u < NUSER → ptePage (leafPte s.mem t u) = some pg →
      j = i ∧ u = v) {m : Mem} (hm : SameOutside s.mem m pg) :
    MemInv { s with mem := m } roots ker ∧ SameTables s.mem m roots ∧
      Frame s { s with mem := m } roots ker (Within i v (v + 1)) := by
  obtain ⟨h1, ht⟩ := h.userWrite hr hv hp hm
  have hpg := (h.user hr hv hp).1
  refine ⟨h1, ht, ?_, fun ht' _ _ _ => ht.leafPte ht' _, ?_⟩
  · intro j t u htj hu hn
    rw [view, view, ht.leafPte htj]
    apply viewPte_congr
    intro pg' hpg'
    apply hm.samePage hpg.1 (h.user htj hu hpg').1.1
    rintro rfl
    obtain ⟨rfl, rfl⟩ := hsole htj hu hpg'
    exact hn ⟨rfl, le_refl _, Nat.lt_succ_self _⟩
  · intro pg' hpg' hk
    apply hm.samePage hpg.1 hpg'.1
    rintro rfl
    exact h.ne_of_held hk hr hv hp

/-- Storing a byte through a writable entry: the page is mapped nowhere else. -/
lemma MemInv.storeByte (hwr : Writable s.mem r va) (b : UInt8) (hs' : s' = { s with
      mem := update s.mem (pte2pa (leafPte s.mem r (va / PGSIZE)) + va % PGSIZE) b }) :
    MemInv s' roots ker ∧ SameTables s.mem s'.mem roots ∧
      Frame s s' roots ker (Within i (va / PGSIZE) (va / PGSIZE + 1)) ∧
      (space s.mem r).store va b = some (space s'.mem r) := by
  obtain ⟨hva, hV, hU, hW⟩ := hwr
  have hv := h.vpn_lt hr hva hU
  have hp := ptePage_eq_some.mpr ⟨hV, rfl⟩
  have hoff : va % PGSIZE < PGSIZE := Nat.mod_lt _ (by decide)
  set v := va / PGSIZE
  set pa := pte2pa (leafPte s.mem r v)
  have hbyte : ∀ o < PGSIZE, s'.mem (pa + o) = if o = va % PGSIZE then b else s.mem (pa + o) := by
    intro o _
    rw [hs']
    show update s.mem (pa + va % PGSIZE) b (pa + o) = _
    split_ifs with ho
    · rw [ho, update_self]
    · rw [update_of_ne (by omega)]
  have hone : mapCount s.mem roots pa = 1 := by
    obtain ⟨own, hinv, -⟩ := h
    exact hinv.pages.writable hr hv hV hW
  have hsole : ∀ {j t u}, roots j = some t → u < NUSER → ptePage (leafPte s.mem t u) = some pa →
      j = i ∧ u = v := by
    intro j t u ht hu hpu
    obtain ⟨rfl, rfl⟩ := Prod.mk.inj (eq_of_mapCount_eq_one hone hr hv ht hu hp hpu)
    exact ⟨rfl, rfl⟩
  obtain ⟨h1, ht, hframe⟩ := h.writeSole hr hv hp hsole (m := s'.mem) (by
    rw [hs']
    exact sameOutside_update b (by omega) (by omega))
  have hmem : ({ s with mem := s'.mem } : Phys) = s' := by rw [hs']
  rw [hmem] at h1 hframe
  refine ⟨h1, ht, hframe, ?_⟩
  have hpage := viewPte_of_ptePage (m := s.mem) hp
  rw [AddrSpace.store_of_page hva ((space_of_lt hv).trans hpage) hU (by rw [hW]; rfl),
    hframe.space_update hr hv, view, ht.leafPte hr, viewPte_of_ptePage hp]
  congr 3
  exact UPage.ext rfl rfl rfl (funext fun o => (hbyte o o.2).symm)

end

variable [DecidableEq ι] [Inhabited κ]

omit [DecidableEq ι] [Inhabited κ] in
/-- What the process may write to, in terms of its table. -/
lemma MemInv.mayStore_iff (h : MemInv s roots ker) (hr : roots i = some r) :
    (space s.mem r).MayStore va ↔ MayWrite s.mem r va := by
  apply and_congr_right
  intro hva
  by_cases hv : va / PGSIZE < NUSER
  · rw [space_of_lt hv]
  · rw [space, if_neg hv]
    refine iff_of_false (fun ⟨pg, hpg, _⟩ => by cases hpg) (fun hmay => hv ?_)
    exact h.vpn_lt hr hva (mayWrite_iff.mp ⟨hva, hmay⟩).2.2.1

/-- 0 for success, -1 for failure. -/
def Answers (res : Int) (p : Prop) : Prop := res = 0 ∧ p ∨ res = -1 ∧ ¬p

omit [Fintype ι] [Layout] [DecidableEq ι] [Inhabited κ] in
lemma Answers.congr {res : Int} {p q : Prop} (h : Answers res p) (hpq : p ↔ q) :
    Answers res q := by
  rwa [← hpq]

omit [Layout] [Fintype ι] [DecidableEq ι] [Inhabited κ] in
lemma within_user {u : Nat} {x : ι} (hv : va / PGSIZE < NUSER)
    (h : Within i (va / PGSIZE) (va / PGSIZE + 1) x u) : Within i 0 NUSER x u :=
  ⟨h.1, Nat.zero_le _, by have := h.2.2; omega⟩

/-- A store in user mode is a store to the process's own address space. -/
lemma userStore_spec (h : MemInv s roots ker) (hr : roots i = some r) (va : Nat) (b : UInt8)
    (hE : s.freelist = [] → E .cowallocKalloc) :
    wp (userStore r va b) E (fun res s' => MemInv s' roots ker ∧ s'.nomem = s.nomem ∧
      Frame s s' roots ker (Within i 0 NUSER) ∧
      ((res = -1 ∧ (space s.mem r).store va b = none ∧ space s'.mem r = space s.mem r) ∨
        (res = 0 ∧ (space s.mem r).store va b = some (space s'.mem r)))) s := by
  unfold userStore
  by_cases hwr : Writable s.mem r va
  · rw [wp_userStoreFrom_writable hwr]
    obtain ⟨h1, -, hframe, hst⟩ := h.storeByte hr hwr b rfl
    exact ⟨h1, rfl, hframe.weaken fun _ _ => within_user (h.vpn_lt hr hwr.1 hwr.2.2.1),
      Or.inr ⟨rfl, hst⟩⟩
  · rw [wp_userStoreFrom_fault hwr]
    refine wp_imp (cowalloc_spec h hr va hE) ?_
    rintro res s₁ ⟨h1, hno, ⟨rfl, rfl, hmay⟩ | ⟨rfl, hframe, hwr1⟩⟩
    · rw [if_pos (by decide)]
      exact ⟨h1, rfl, (Quiet.refl _ _ _).frame _,
        Or.inl ⟨rfl, AddrSpace.store_eq_none_iff.mpr fun hc => hmay ((h.mayStore_iff hr).mp hc),
          rfl⟩⟩
    · rw [if_neg (by decide), wp_userStoreFrom_writable hwr1]
      obtain ⟨h2, -, hframe2, hst⟩ := h1.storeByte hr hwr1 b rfl
      rw [hframe.space hr (fun _ _ => id)] at hst
      exact ⟨h2, hno, (hframe.weaken fun _ _ => False.elim).trans
        (hframe2.weaken fun _ _ => within_user (h1.vpn_lt hr hwr1.1 hwr1.2.2.1)),
        Or.inr ⟨rfl, hst⟩⟩

omit [DecidableEq ι] [Inhabited κ] in
/-- Where a table has its pages for itself, a store writes its byte or does nothing. -/
lemma userStore_unshared (h : MemInv s roots ker) (hr : roots i = some r)
    (hown : Unshared s.mem roots i r) (va : Nat) (b : UInt8) :
    wp (userStore r va b) E (fun res s' =>
      (MemInv s' roots ker ∧ Unshared s'.mem roots i r) ∧
      Framed s s' roots ker (Within i 0 NUSER) ∧
      ((res = -1 ∧ (space s.mem r).store va b = none ∧ space s'.mem r = space s.mem r) ∨
        (res = 0 ∧ (space s.mem r).store va b = some (space s'.mem r)))) s := by
  unfold userStore
  by_cases hwr : Writable s.mem r va
  · rw [wp_userStoreFrom_writable hwr]
    obtain ⟨h1, ht, hframe, hst⟩ := h.storeByte hr hwr b rfl
    exact ⟨⟨h1, hown.of_leaves ht.leaves hr⟩,
      ⟨hframe.weaken fun _ _ => within_user (h.vpn_lt hr hwr.1 hwr.2.2.1), ht.placed _⟩,
      Or.inr ⟨rfl, hst⟩⟩
  · have hmay : ¬MayWrite s.mem r va := by
      intro hmay
      obtain ⟨a, hcow⟩ := hmay.isCow hwr
      have hC := hown.notCow (h.cow_lt hr hcow)
      rw [hcow.C] at hC
      cases hC
    rw [wp_userStoreFrom_fault hwr, wp_cowalloc_refuse hmay, if_pos (by decide)]
    exact ⟨⟨h, hown⟩, .refl _ _ _ _, Or.inl ⟨rfl, AddrSpace.store_eq_none_iff.mpr fun hc =>
      hmay ((h.mayStore_iff hr).mp hc), rfl⟩⟩

omit [Fintype ι] [DecidableEq ι] [Inhabited κ] in
/-- From one store to many: `J` is kept by each store, and `R` holds across each. -/
lemma userStores_rule {J : Phys → Prop} {R : Phys → Phys → Prop} (hrefl : ∀ s, R s s)
    (htrans : ∀ {s₁ s₂ s₃}, R s₁ s₂ → R s₂ s₃ → R s₁ s₃)
    (hstep : ∀ {s} va b, J s → wp (userStore r va b) E (fun res s' => J s' ∧ R s s' ∧
      ((res = -1 ∧ (space s.mem r).store va b = none ∧ space s'.mem r = space s.mem r) ∨
        (res = 0 ∧ (space s.mem r).store va b = some (space s'.mem r)))) s) :
    ∀ (bs : List UInt8) (va : Nat) {s : Phys}, J s →
    wp (userStores r va bs) E (fun res s' => J s' ∧ R s s' ∧
      space s'.mem r = (space s.mem r).stores va bs ∧
      Answers res ((space s.mem r).Accepts va bs.length)) s := by
  intro bs
  induction bs with
  | nil =>
    intro va s h
    exact ⟨h, hrefl s, rfl, Or.inl ⟨rfl, trivial⟩⟩
  | cons b bs ih =>
    intro va s h
    unfold userStores AddrSpace.stores
    rw [wp_bind]
    refine wp_imp (hstep va b h) ?_
    rintro res s₁ ⟨h1, hR, ⟨rfl, hst, hsame⟩ | ⟨rfl, hst⟩⟩
    · rw [if_pos (by decide), hst]
      exact ⟨h1, hR, hsame, Or.inr ⟨rfl, fun hc => AddrSpace.store_eq_none_iff.mp hst hc.1⟩⟩
    · rw [if_neg (by decide), hst]
      refine wp_imp (ih _ h1) ?_
      rintro res' s' ⟨h', hR', hst', hres⟩
      rw [AddrSpace.accepts_store_iff hst] at hres
      exact ⟨h', htrans hR hR', hst',
        hres.congr (and_iff_right (AddrSpace.mayStore_of_store hst)).symm⟩

/-- No page is free any more when some of the bytes have been stored. -/
def Starves (r va : Nat) (bs : List UInt8) (s : Phys) : Prop :=
  ∃ k < bs.length, ∃ s', (userStores r va (bs.take k)).run s = .ok (0, s') ∧ s'.freelist = []

/-- Stores stop only for want of a page. -/
lemma userStores_stops (hr : roots i = some r) : ∀ {bs : List UInt8} {va : Nat} {s : Phys},
    MemInv s roots ker → wp (userStores r va bs)
      (fun e => e = .cowallocKalloc ∧ Starves r va bs s) (fun _ _ => True) s := by
  intro bs
  induction bs with
  | nil => exact fun _ => trivial
  | cons b bs ih =>
    intro va s h
    unfold userStores
    rw [wp_bind]
    refine wp_mono (wp_both (userStore_spec (E := fun e => e = .cowallocKalloc ∧ s.freelist = [])
      h hr va b fun hnil => ⟨rfl, hnil⟩) (wp_self _)) (fun e he => ?_) fun res s₁ hres => ?_
    · exact ⟨he.1.1, 0, by simp, s, rfl, he.1.2⟩
    · obtain ⟨⟨h1, -⟩, hrun⟩ := hres
      rw [wp_ite]
      refine ⟨fun _ => trivial, fun hneg => wp_mono (ih h1) (fun e => ?_) fun _ _ => id⟩
      rintro ⟨rfl, k, hk, s', hrun', hnil⟩
      refine ⟨rfl, k + 1, by simpa using hk, s', ?_, hnil⟩
      rw [List.take_succ_cons, userStores, StateT.run_bind, hrun]
      exact (congrArg (fun m => StateT.run m s₁) (if_neg hneg)).trans hrun'

/-- `copyout` stores its bytes in the address space of the table it is given. -/
lemma copyout_spec (h : MemInv s roots ker) (hr : roots i = some r) (dstva : Nat)
    (src : List UInt8) (hE : Starves r dstva src s → E .cowallocKalloc) :
    wp (copyout r dstva src) E (fun res s' => MemInv s' roots ker ∧ s'.nomem = s.nomem ∧
      Frame s s' roots ker (Within i 0 NUSER) ∧
      space s'.mem r = (space s.mem r).stores dstva src ∧
      Answers res ((space s.mem r).Accepts dstva src.length)) s := by
  rw [wp_congr (run_userStores h hr dstva src)]
  have hstores := userStores_rule (E := fun _ => True) (J := fun s => MemInv s roots ker)
    (R := fun s s' => s'.nomem = s.nomem ∧ Frame s s' roots ker (Within i 0 NUSER))
    (fun s => ⟨rfl, (Quiet.refl _ _ _).frame _⟩)
    (fun h h' => ⟨h'.1.trans h.1, h.2.trans h'.2⟩) (r := r) (fun {s} va b h => ?_) src
      dstva h
  · refine wp_mono (wp_both hstores (userStores_stops hr h)) ?_ ?_
    · rintro e ⟨-, rfl, hstarves⟩
      exact hE hstarves
    · rintro res s' ⟨⟨h', ⟨hno, hframe⟩, hst, hres⟩, -⟩
      exact ⟨h', hno, hframe, hst, hres⟩
  · refine wp_imp (userStore_spec h hr va b fun _ => trivial) ?_
    rintro res s' ⟨h', hno, hframe, hres⟩
    exact ⟨h', ⟨hno, hframe⟩, hres⟩

/-- `copyout` to a table that has its pages for itself needs no new page. -/
lemma copyout_unshared (h : MemInv s roots ker) (hr : roots i = some r)
    (hown : Unshared s.mem roots i r) (dstva : Nat) (src : List UInt8) :
    wp (copyout r dstva src) E (fun res s' =>
      (MemInv s' roots ker ∧ Unshared s'.mem roots i r) ∧
      Framed s s' roots ker (Within i 0 NUSER) ∧
      space s'.mem r = (space s.mem r).stores dstva src ∧
      Answers res ((space s.mem r).Accepts dstva src.length)) s := by
  rw [wp_congr (run_userStores h hr dstva src)]
  exact userStores_rule (J := fun s => MemInv s roots ker ∧ Unshared s.mem roots i r)
    (fun s => .refl s roots ker _) (fun h h' => h.trans h')
    (fun va b hJ => userStore_unshared hJ.1 hr hJ.2 va b) src dstva ⟨h, hown⟩

end Xv6
