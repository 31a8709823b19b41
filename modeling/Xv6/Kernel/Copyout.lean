import Xv6.Kernel.Boot
import Xv6.Kernel.CowSpec

/-!
# `copyout` and user-mode stores

`copyout` works page by page in the kernel, a user program byte by byte through the branch of
`usertrap` for store page faults (`r_scause() == 15`). From every state whose tables are well formed
the two have the same run.
-/

namespace Xv6

open Function Lib

variable {m : Mem} {b : UInt8} {tries a fuel : Nat} {Q : Int → Phys → Prop} {src : List UInt8}

/-- The byte that a load from `va` reads. -/
def userLoad (m : Mem) (pagetable va : Nat) : Option UInt8 :=
  let pte := leafPte m pagetable (va / PGSIZE)
  if va < MAXVA ∧ hasFlag pte PTE_V ∧ hasFlag pte PTE_U then
    some (m (pte2pa pte + va % PGSIZE))
  else
    none

/-- The physical address that a store to `va` goes to, unless it faults. -/
def storeAddr (m : Mem) (pagetable va : Nat) : Option Nat :=
  let pte := leafPte m pagetable (va / PGSIZE)
  if va < MAXVA ∧ hasFlag pte PTE_V ∧ hasFlag pte PTE_U ∧ hasFlag pte PTE_W then
    some (pte2pa pte + va % PGSIZE)
  else
    none

variable {E : Panic → Prop} {s : Phys} {r va : Nat}

lemma storeAddr_of_writable (h : Writable m r va) :
    storeAddr m r va = some (pte2pa (leafPte m r (va / PGSIZE)) + va % PGSIZE) := by
  obtain ⟨hva, hV, hU, hW⟩ := h
  simp only [storeAddr, hasFlag_V, hasFlag_U, hasFlag_W]
  rw [if_pos ⟨hva, hV, hU, hW⟩]

lemma storeAddr_of_not_writable (h : ¬Writable m r va) : storeAddr m r va = none := by
  simp only [storeAddr, hasFlag_V, hasFlag_U, hasFlag_W]
  exact if_neg h

variable [Layout]

/-- A store instruction: 0 once the byte is stored, -1 if `usertrap` kills the process. After a
fault that `cowalloc` has handled the instruction runs again, at most `tries` times in all. -/
def userStoreFrom (pagetable va : Nat) (b : UInt8) : Nat → PhysM Int
  | 0 => throw .storeFaultLoop
  | tries + 1 => do
    let s ← get
    match storeAddr s.mem pagetable va with
    | some pa =>
      set { s with mem := update s.mem pa b }
      return 0
    | none =>
      if (← cowalloc pagetable va) < 0 then
        -- setkilled(p)
        return -1
      else
        userStoreFrom pagetable va b tries

def userStore (pagetable va : Nat) (b : UInt8) : PhysM Int := userStoreFrom pagetable va b 2

/-- The stores of `src[0]` to `va`, `src[1]` to `va + 1` and so on, up to the first that kills
the process. -/
def userStores (pagetable : Nat) : Nat → List UInt8 → PhysM Int
  | _, [] => return 0
  | va, b :: bs => do
    if (← userStore pagetable va b) < 0 then
      return -1
    else
      userStores pagetable ((va + 1) % 2 ^ 64) bs

/-! ### One store -/

lemma wp_userStoreFrom_writable (h : Writable s.mem r va) :
    wp (userStoreFrom r va b (tries + 1)) E Q s ↔
      Q 0 { s with
        mem := update s.mem (pte2pa (leafPte s.mem r (va / PGSIZE)) + va % PGSIZE) b } := by
  rw [userStoreFrom, wp_bind, wp_get, storeAddr_of_writable h]
  exact Iff.rfl

lemma wp_userStoreFrom_fault (h : ¬Writable s.mem r va) :
    wp (userStoreFrom r va b (tries + 1)) E Q s ↔ wp (cowalloc r va) E (fun res s' =>
      if res < 0 then Q (-1) s' else wp (userStoreFrom r va b tries) E Q s') s := by
  rw [userStoreFrom, wp_bind, wp_get, storeAddr_of_not_writable h]
  simp only [wp_bind]
  apply iff_of_eq
  congr 1
  funext res s'
  split_ifs <;> rfl

/-! ### `cowalloc` looks at the page only -/

omit [Layout] in
lemma pgrounddown_div (a : Nat) : pgrounddown a / PGSIZE = a / PGSIZE :=
  Nat.mul_div_cancel _ (by decide)

omit [Layout] in
lemma pgrounddown_lt_MAXVA : pgrounddown a < MAXVA ↔ a < MAXVA := by
  simp only [pgrounddown, PGSIZE, MAXVA]
  omega

lemma wp_cowalloc_pgrounddown :
    wp (cowalloc r (pgrounddown va)) E Q s ↔ wp (cowalloc r va) E Q s := by
  have hdown : pgrounddown (pgrounddown va) = pgrounddown va := by
    rw [pgrounddown, pgrounddown_div]
    rfl
  unfold cowalloc
  by_cases hva : va < MAXVA
  · have hva' := pgrounddown_lt_MAXVA.mpr hva
    rw [if_neg (by omega), if_neg (by omega), wp_bind, wp_bind, wp_walk_false hva,
      wp_walk_false hva', pgrounddown_div, hdown]
  · have hva' : ¬pgrounddown va < MAXVA := fun hc => hva (pgrounddown_lt_MAXVA.mp hc)
    rw [if_pos (by omega), if_pos (by omega)]

variable {ι κ : Type} [Fintype ι] {roots : ι → Option Nat} {ker : Nat → Option κ} {i : ι}

/-! ### Writing to a user page -/

/-- Writing into a mapped page keeps the invariant and the tables. -/
lemma MemInv.userWrite (h : MemInv s roots ker) (hr : roots i = some r) {v pg : Nat}
    (hv : v < NUSER) (hp : ptePage (leafPte s.mem r v) = some pg) (hm : SameOutside s.mem m pg) :
    MemInv { s with mem := m } roots ker ∧ SameTables s.mem m roots := by
  obtain ⟨own, hinv, hker⟩ := h
  obtain ⟨hpg, hown⟩ := hinv.pages.user hr hv hp
  have hnode : ∀ i path, own pg ≠ .node i path := by simp [hown]
  exact ⟨⟨own, hinv.write hpg.1 hnode hm, hker⟩,
    hinv.tables.sameTables hm hpg.1 (fun i _ _ path => hnode i path)⟩

/-- A page that the user may write lies in the user's part. -/
lemma MemInv.vpn_lt (h : MemInv s roots ker) (hr : roots i = some r) (hva : va < MAXVA)
    (hU : (leafPte s.mem r (va / PGSIZE)).getLsbD 4 = true) : va / PGSIZE < NUSER := by
  by_contra hge
  obtain ⟨own, hinv, -⟩ := h
  rw [hinv.pages.top hr (by omega)] at hU
  · cases hU
  · simp only [PGSIZE]
    simp only [MAXVA] at hva
    omega

omit [Layout] in
lemma sameOutside_update {q : Nat} (b : UInt8) (ha : q ≤ a) (ha' : a < q + PGSIZE) :
    SameOutside m (update m a b) q := by
  intro x hx
  rw [update_of_ne]
  omega

/-- Stores to one page that can be written. -/
lemma wp_userStores_page (hr : roots i = some r) : ∀ {bs rest : List UInt8} {va : Nat} {s : Phys},
    MemInv s roots ker → Writable s.mem r va → va % PGSIZE + bs.length ≤ PGSIZE →
    ∀ {Q : Int → Phys → Prop},
    wp (userStores r (va + bs.length) rest) E Q { s with
      mem := s.mem.write (pte2pa (leafPte s.mem r (va / PGSIZE)) + va % PGSIZE) bs } →
    wp (userStores r va (bs ++ rest)) E Q s := by
  intro bs
  induction bs with
  | nil =>
    intro rest va s _ _ _ Q hwp
    rwa [Mem.write_nil, List.length_nil, Nat.add_zero] at hwp
  | cons b bs ih =>
    intro rest va s h hwr hfit Q hwp
    have hnext : (va + 1) % 2 ^ 64 = va + 1 := by
      have := hwr.1
      simp only [MAXVA] at this
      omega
    rw [List.cons_append, userStores, wp_bind]
    unfold userStore
    rw [wp_userStoreFrom_writable hwr, if_neg (by decide), hnext]
    cases bs with
    | nil =>
      rw [Mem.write_cons, Mem.write_nil] at hwp
      exact hwp
    | cons b' bs =>
      -- the next byte is on the same page
      have hlen : va % PGSIZE + 2 ≤ PGSIZE := by
        simp only [List.length_cons] at hfit
        omega
      have hdiv : (va + 1) / PGSIZE = va / PGSIZE := by
        simp only [PGSIZE] at hlen ⊢
        omega
      have hmod : (va + 1) % PGSIZE = va % PGSIZE + 1 := by
        simp only [PGSIZE] at hlen ⊢
        omega
      have hv := h.vpn_lt hr hwr.1 hwr.2.2.1
      have hpage := ptePage_eq_some.mpr ⟨hwr.2.1, rfl⟩
      obtain ⟨h1, ht⟩ := h.userWrite hr hv hpage (sameOutside_update b
        (m := s.mem) (a := pte2pa (leafPte s.mem r (va / PGSIZE)) + va % PGSIZE) (by omega)
        (by omega))
      have hleaf := ht.leafPte hr (va / PGSIZE)
      have hva : va + 1 < MAXVA := by
        have := hwr.1
        simp only [MAXVA, PGSIZE] at this hlen ⊢
        omega
      apply ih h1
      · refine ⟨hva, ?_⟩
        rw [hdiv, hleaf]
        exact hwr.2
      · rw [hmod]
        simp only [List.length_cons] at hfit ⊢
        omega
      · rw [hdiv, hleaf, hmod, ← Nat.add_assoc, ← Mem.write_cons]
        rw [List.length_cons, ← Nat.add_assoc, Nat.add_right_comm] at hwp
        exact hwp

/-! ### The loop of `copyout` -/

/-- `walkaddr` on a user page. -/
lemma wp_walkaddr_user (hva : va < MAXVA)
    (hV : (leafPte s.mem r (va / PGSIZE)).getLsbD 0 = true)
    (hU : (leafPte s.mem r (va / PGSIZE)).getLsbD 4 = true) {Q : Nat → Phys → Prop} :
    wp (walkaddr r va) E Q s ↔ Q (pte2pa (leafPte s.mem r (va / PGSIZE))) s := by
  obtain ⟨a, ha⟩ := exists_leafAddr (m := s.mem) (r := r) (v := va / PGSIZE) (by
    intro hc
    rw [hc] at hV
    simp at hV)
  rw [leafPte_of_leafAddr ha] at hV hU ⊢
  unfold walkaddr
  rw [if_neg (by omega), wp_bind, wp_walk_false hva, ha]
  simp only [wp_bind, wp_ldPte, hasFlag_V, hasFlag_U, hV, hU, Bool.not_true, Bool.false_eq_true,
    if_false, wp_pure]

/-- What is left of a turn of `copyout` after `cowalloc`. -/
def CopyRest (E : Panic → Prop) (Q : Int → Phys → Prop) (r va fuel : Nat) (src : List UInt8)
    (s : Phys) : Prop :=
  let n := min (PGSIZE - (va - pgrounddown va)) src.length
  wp (walkaddr r (pgrounddown va)) E (fun pa s' =>
    if pa = 0 then Q (-1) s' else
      wp (copyoutFrom r fuel (pgrounddown va + PGSIZE) (src.drop n)) E Q
        { s' with mem := s'.mem.write (pa + (va - pgrounddown va)) (src.take n) }) s

lemma wp_copyoutFrom_succ (hsrc : src ≠ []) :
    wp (copyoutFrom r (fuel + 1) va src) E Q s ↔ wp (cowalloc r va) E (fun res s' =>
      if res < 0 then Q (-1) s' else CopyRest E Q r va fuel src s') s := by
  have hlen : ¬src.length = 0 := fun hc => hsrc (List.length_eq_zero_iff.mp hc)
  rw [copyoutFrom, if_neg hlen, wp_bind, wp_cowalloc_pgrounddown]
  apply iff_of_eq
  congr 1
  funext res s'
  split_ifs
  · rfl
  · rw [wp_bind, CopyRest]
    congr 1
    funext pa s''
    split_ifs <;> rfl

/-- `copyout` to an address that may not be written does nothing. -/
lemma wp_copyout_refuse (h : ¬MayWrite s.mem r va) (hsrc : src ≠ []) :
    wp (copyout r va src) E Q s ↔ Q (-1) s := by
  obtain ⟨n, hn⟩ := Nat.exists_eq_succ_of_ne_zero (mt List.length_eq_zero_iff.mp hsrc)
  unfold copyout
  rw [hn, wp_copyoutFrom_succ hsrc, wp_cowalloc_refuse h, if_pos (by decide)]

/-- The rest of a turn of `copyout`, against the stores of its bytes. -/
lemma CopyRest.userStores (h : MemInv s roots ker) (hr : roots i = some r)
    (hwr : Writable s.mem r va)
    (ih : ∀ {dstva : Nat} {s' : Phys} {rest : List UInt8}, MemInv s' roots ker →
      rest.length < src.length →
      wp (copyoutFrom r fuel dstva rest) E Q s' → wp (userStores r dstva rest) E Q s')
    (hsrc : src ≠ []) (hwp : CopyRest E Q r va fuel src s) : wp (userStores r va src) E Q s := by
  have hoff : va - pgrounddown va = va % PGSIZE := by
    simp only [pgrounddown, PGSIZE]
    omega
  have hoffLt : va % PGSIZE < PGSIZE := Nat.mod_lt _ (by decide)
  have hpos : 0 < src.length := List.length_pos_of_ne_nil hsrc
  have hv := h.vpn_lt hr hwr.1 hwr.2.2.1
  have hpage := ptePage_eq_some.mpr ⟨hwr.2.1, rfl⟩
  have hpa := (h.user hr hv hpage).1.pos.ne'
  simp only [CopyRest] at hwp
  rw [wp_walkaddr_user (pgrounddown_lt_MAXVA.mpr hwr.1) (by rw [pgrounddown_div]; exact hwr.2.1)
    (by rw [pgrounddown_div]; exact hwr.2.2.1), pgrounddown_div, if_neg hpa, hoff] at hwp
  set n := min (PGSIZE - va % PGSIZE) src.length with hn
  have hlen : (src.take n).length = n := by rw [List.length_take]; omega
  obtain ⟨h1, -⟩ := h.userWrite hr hv hpage (sameOutside_write s.mem (src.take n)
    (q := pte2pa (leafPte s.mem r (va / PGSIZE)))
    (a := pte2pa (leafPte s.mem r (va / PGSIZE)) + va % PGSIZE) (by omega)
    (by rw [hlen]; omega))
  rw [← List.take_append_drop n src]
  apply wp_userStores_page hr h hwr (by rw [hlen]; omega)
  rw [hlen]
  by_cases hall : n = src.length
  · -- the last chunk: nothing is left
    have hnil : src.drop n = [] := by rw [hall, List.drop_length]
    rw [hnil] at hwp ⊢
    cases fuel with
    | zero => exact hwp
    | succ fuel =>
      rw [copyoutFrom, if_pos List.length_nil] at hwp
      exact hwp
  · have hend : va + n = pgrounddown va + PGSIZE := by
      have := pgrounddown_le va
      omega
    rw [hend]
    apply ih h1 _ hwp
    rw [List.length_drop]
    omega

variable [DecidableEq ι] [Inhabited κ]

lemma copyoutFrom_le_userStores (hr : roots i = some r) : ∀ {fuel dstva : Nat}
    {src : List UInt8} {s : Phys}, src.length ≤ fuel → MemInv s roots ker →
    ∀ {Q : Int → Phys → Prop}, wp (copyoutFrom r fuel dstva src) E Q s →
      wp (userStores r dstva src) E Q s := by
  intro fuel
  induction fuel with
  | zero =>
    intro dstva src s hlen _ Q hwp
    rw [List.length_eq_zero_iff.mp (Nat.le_zero.mp hlen)]
    exact hwp
  | succ fuel ih =>
    intro dstva src s hlen h Q hwp
    match src with
    | [] =>
      rw [copyoutFrom, if_pos List.length_nil] at hwp
      exact hwp
    | b :: bs =>
      rw [wp_copyoutFrom_succ (by simp)] at hwp
      have hgo : ∀ {s'}, MemInv s' roots ker → Writable s'.mem r dstva →
          CopyRest E Q r dstva fuel (b :: bs) s' →
          wp (userStores r dstva (b :: bs)) E Q s' := by
        intro s' h' hwr' hrest
        refine hrest.userStores h' hr hwr' ?_ (by simp)
        intro dstva' s'' rest hm hlt hw
        exact ih (by simp only [List.length_cons] at hlen hlt; omega) hm hw
      by_cases hwr : Writable s.mem r dstva
      · rw [wp_cowalloc_writable hwr, if_neg (by decide)] at hwp
        exact hgo h hwr hwp
      · -- the first store faults, and `usertrap` calls `cowalloc`
        rw [userStores, wp_bind]
        unfold userStore
        rw [wp_userStoreFrom_fault hwr]
        refine wp_imp (wp_also hwp (cowalloc_spec (E := fun _ => True) h hr dstva
          (fun _ => trivial))) ?_
        rintro res s₁ ⟨hrest, h1, -, ⟨rfl, -, -⟩ | ⟨rfl, -, hwr1⟩⟩
        · rw [if_pos (by decide)] at hrest ⊢
          exact hrest
        · rw [if_neg (by decide)] at hrest ⊢
          have hstores := hgo h1 hwr1 hrest
          rw [userStores, wp_bind] at hstores
          unfold userStore at hstores
          rw [wp_userStoreFrom_writable hwr1] at hstores ⊢
          exact hstores

lemma run_userStores (h : MemInv s roots ker) (hr : roots i = some r) (dstva : Nat)
    (src : List UInt8) : (userStores r dstva src).run s = (copyout r dstva src).run s :=
  run_eq_of_wp fun _ _ => copyoutFrom_le_userStores hr (le_refl _) h

/-- Where the page tables are well formed, `copyout` and the stores of the same bytes in user
mode have the same run: the same result, and the same memory, free list and counts after it. -/
theorem copyout_eq_userStores (h : MemInv s roots ker) (hr : roots i = some r) (dstva : Nat)
    (src : List UInt8) :
    (copyout r dstva src).run s = (userStores r dstva src).run s :=
  (run_userStores h hr dstva src).symm

/-! ### Small machines -/

omit [Layout] in
lemma EmptyNode.st64 {c n k : Nat} (h : EmptyNode m c) (hc : c % PGSIZE = 0) (hn : n % PGSIZE = 0)
    (hne : n ≠ c) (hk : k < 512) (w : Pte) : EmptyNode (st64 m (n + 8 * k) w) c := by
  intro k' hk'
  rw [(sameOutside_st64 w hk).ld64 hn hc hne.symm hk', h k' hk']

omit [Inhabited κ] in
/-- A table is made of three empty pages that the kernel held. -/
lemma MemInv.newTable (h : MemInv s roots ker) (hi : roots i = none) (q₀ q₁ q₂ : Nat) {k : κ}
    (hq₀ : IsPage q₀) (hq₁ : IsPage q₁) (hq₂ : IsPage q₂) (h₀₁ : q₀ ≠ q₁) (h₀₂ : q₀ ≠ q₂)
    (h₁₂ : q₁ ≠ q₂) (hk₀ : ker q₀ = some k) (hk₁ : ker q₁ = some k) (hk₂ : ker q₂ = some k)
    (hz₀ : EmptyNode s.mem q₀) (hz₁ : EmptyNode s.mem q₁) (hz₂ : EmptyNode s.mem q₂)
    (hm : m = st64 (st64 s.mem q₀ (pa2pte q₁ ||| PTE_V)) q₁ (pa2pte q₂ ||| PTE_V)) :
    MemInv { s with mem := m } (update roots i (some q₀))
        (update (update (update ker q₀ none) q₁ none) q₂ none) ∧
      SameLeaves s.mem m (update roots i (some q₀)) ∧
      leafAddr m q₀ 0 = some q₂ ∧ ∀ v, ptePage (leafPte m q₀ v) = none := by
  set roots' := update roots i (some q₀)
  have hr : roots' i = some q₀ := update_self ..
  have h1 := h.newRoot hi hq₀ hk₀ hz₀
  obtain ⟨h2, hquiet2, hat2, -⟩ := h1.link hr validPath_nil (by decide) (nodeAt_nil _ _) (k := 0)
    (by decide) (by rw [hz₀ 0 (by decide), ptePage_zero]) hq₁
    (by rw [update_of_ne h₀₁.symm, hk₁]) hz₁
  have hz₁' := hz₁.st64 hq₁.1 hq₀.1 h₀₁ (k := 0) (by decide) (pa2pte q₁ ||| PTE_V)
  have hz₂' := hz₂.st64 hq₂.1 hq₀.1 h₀₂ (k := 0) (by decide) (pa2pte q₁ ||| PTE_V)
  obtain ⟨h3, hquiet3, hat3, -⟩ := h2.link hr (validPath_nil.concat (by decide) (by decide))
    (by decide) hat2 (k := 0) (by decide) (by
      show ptePage (ld64 (st64 s.mem (q₀ + 8 * 0) (pa2pte q₁ ||| PTE_V)) (q₁ + 8 * 0)) = none
      rw [hz₁' 0 (by decide), ptePage_zero]) hq₂
    (by rw [update_of_ne h₁₂.symm, update_of_ne h₀₂.symm, hk₂]) hz₂'
  rw [hm]
  have hleaves := hquiet2.leaves.trans hquiet3.leaves
  refine ⟨h3, hleaves, leafAddr_eq_some.mpr ⟨_, hat3, rfl⟩, ?_⟩
  intro v
  have hleaf := hleaves hr v
  rw [hz₀.leafPte] at hleaf
  exact (congrArg ptePage hleaf).trans ptePage_zero

omit [Layout] in
lemma ld64_zero (a : Nat) : ld64 (fun _ => 0) a = 0#64 := by
  unfold ld64
  rw [Mem.leNat_eq_zero fun _ _ _ => rfl]

/-- A machine whose memory is 0 and whose pages the kernel holds, all of them. -/
def zeroPhys : Phys where
  mem := fun _ => 0
  freelist := []
  ref := fun _ => 1
  nomem := 0

omit [DecidableEq ι] [Inhabited κ] in
lemma zeroPhys_memInv (k : κ) : MemInv zeroPhys (fun _ : ι => none) (fun _ => some k) :=
  MemInv.of_no_tables List.nodup_nil (fun pg => by simp [zeroPhys]) (fun _ _ _ => rfl)

/-- A machine with one page table, whose only page is marked copy-on-write. -/
def onePage : Phys where
  mem := st64 (st64 (st64 (fun _ => 0) 0x80243000 (pa2pte 0x80244000 ||| PTE_V))
    0x80244000 (pa2pte 0x80245000 ||| PTE_V))
    0x80245000 (pa2pte 0x80246000 ||| (PTE_R ||| PTE_U ||| PTE_C) ||| PTE_V)
  freelist := []
  ref := fun _ => 1
  nomem := 0

omit [Layout] in
/-- The entry of a page that is marked copy-on-write. -/
lemma ptePage_cow {pa : Nat} (hal : pa % PGSIZE = 0) (hlt : pa < 2 ^ 56) :
    ptePage (pa2pte pa ||| (PTE_R ||| PTE_U ||| PTE_C) ||| PTE_V) = some pa := by
  apply ptePage_mapped hal hlt
  intro j hj
  have h1 : j ≠ 1 := by omega
  have h4 : j ≠ 4 := by omega
  have h8 : j ≠ 8 := by omega
  simp [h1, h4, h8]

omit [Layout] in
lemma getLsbD_cow (pa : Nat) {j : Nat} (hj : j < 10) :
    (pa2pte pa ||| (PTE_R ||| PTE_U ||| PTE_C) ||| PTE_V).getLsbD j
      = (decide (j = 1) || decide (j = 4) || decide (j = 8) || decide (j = 0)) := by
  rw [getLsbD_mapped pa _ hj, BitVec.getLsbD_or, BitVec.getLsbD_or, getLsbD_PTE_R, getLsbD_PTE_U,
    getLsbD_PTE_C]

omit [Layout] in
lemma onePage_memInv : (∃ ker : Nat → Option Unit,
      @MemInv Unit Unit builtLayout _ onePage (fun _ => some 0x80243000) ker) ∧
    leafPte onePage.mem 0x80243000 0
      = pa2pte 0x80246000 ||| (PTE_R ||| PTE_U ||| PTE_C) ||| PTE_V := by
  let := builtLayout
  have hzero : ∀ c, EmptyNode zeroPhys.mem c := fun c k _ => ld64_zero _
  obtain ⟨h1, -, haddr, hfree⟩ := (zeroPhys_memInv (ι := Unit) ()).newTable (i := ()) rfl
    0x80243000 0x80244000 0x80245000 (by decide) (by decide) (by decide)
    (by decide) (by decide) (by decide) rfl rfl rfl (hzero _) (hzero _) (hzero _) rfl
  obtain ⟨h2, -, hleaf⟩ := h1.mapFresh (i := ()) rfl (v := 0) (by decide) haddr (hfree 0)
    (q := 0x80246000) (by decide) rfl (ptePage_cow (by decide) (by decide))
    (leafOk_mapped _ (by simp))
  have hroots : update (fun _ : Unit => (none : Option Nat)) () (some 0x80243000)
      = fun _ => some 0x80243000 := by
    funext x
    exact update_self ..
  rw [hroots] at h2
  exact ⟨⟨_, h2⟩, hleaf⟩

omit [Layout] in
theorem copyout_eq_userStores_onePage :
    (@copyout builtLayout 0x80243000 1 [104, 105]).run onePage
      = (@userStores builtLayout 0x80243000 1 [104, 105]).run onePage := by
  let := builtLayout
  obtain ⟨⟨ker, h⟩, -⟩ := onePage_memInv
  exact copyout_eq_userStores h (i := ()) rfl 1 [104, 105]

end Xv6
