import Xv6.Kernel.BootSpec

/-!
# Runs of the system

A run starts with `kinit` and goes on with any sequence of operations: the first process, the
system calls that change memory, stores and their page faults, and what the rest of the kernel
does with pages of its own. Every operation is atomic. `start_layout` and `start_pages` hold in
every state of every run.
-/

namespace Xv6

open Function Lib

/-- What can happen next. -/
inductive Op where
  /-- Another part of the kernel takes a page, gives one back, or writes into one. -/
  | kalloc
  | kfree (pg : Nat)
  | kstore (pg o : Nat) (b : UInt8)
  | userinit
  /-- The scheduler, `sleep`, `wakeup` and `kill`. -/
  | sched (p : Fin NPROC) (state : ProcState)
  | setkilled (p : Fin NPROC)
  /-- A trap of `p` saves a register. -/
  | saveReg (p : Fin NPROC) (field v : Nat)
  | fork (p : Fin NPROC)
  | exec (p : Fin NPROC) (file : Option (List UInt8)) (args : List UserArg)
  | sbrk (p : Fin NPROC) (n : Int)
  /-- A store of `p` in user mode, with its page fault. -/
  | store (p : Fin NPROC) (va : Nat) (b : UInt8)
  /-- A system call of `p` that writes to its memory. -/
  | copyout (p : Fin NPROC) (va : Nat) (bytes : List UInt8)
  | exit (p : Fin NPROC) (status : Int)
  | wait (p : Fin NPROC) (addr : Nat)

/-- A process that the scheduler may run. -/
def ProcState.Scheduled (st : ProcState) : Prop := st = .sleeping ∨ st = .runnable ∨ st = .running

instance (st : ProcState) : Decidable st.Scheduled := inferInstanceAs (Decidable (_ ∨ _ ∨ _))

/-- `p` does `m`, if it is running. -/
def whenRunning (p : Fin NPROC) (m : SysM Unit) : SysM Unit := do
  let x ← getProc p
  if x.state = .running then m else pure ()

variable [Layout] {v r tf : Nat}

/-- An operation that is not possible in a state does nothing there. -/
def Op.run : Op → SysM Unit
  | .kalloc => do
    let _ ← kallocPage
  | .kfree pg => do
    let t ← get
    if pg ∈ t.kpages then kfreePage pg else pure ()
  | .kstore pg o b => do
    let t ← get
    if pg ∈ t.kpages ∧ o < PGSIZE then
      onPhys (modify fun s => { s with mem := update s.mem (pg + o) b })
    else
      pure ()
  | .userinit => do
    let t ← get
    -- main calls it once, before there is any process and with memory still free
    if t.NoProc ∧ 9 ≤ t.phys.free then Xv6.userinit else pure ()
  | .sched p state => do
    let x ← getProc p
    if x.state.Scheduled ∧ state.Scheduled then
      setProc p fun x => { x with state := state }
    else
      pure ()
  | .setkilled p => setProc p fun x => { x with killed := true }
  | .saveReg p field v => whenRunning p do
    let x ← getProc p
    let trapframe ← deref x.trapframe
    if field + 8 ≤ trapframeSize then onPhys (storeTrapframe trapframe field v) else pure ()
  | .fork p => whenRunning p do
    let _ ← Xv6.fork p
  | .exec p file args => whenRunning p do
    let _ ← sysExec p file args
  | .sbrk p n => whenRunning p do
    let _ ← growproc p n
  | .store p va b => whenRunning p do
    let x ← getProc p
    let pagetable ← deref x.pagetable
    let res ← onPhys (userStore pagetable va b)
    if res < 0 then setProc p fun x => { x with killed := true } else pure ()
  | .copyout p va bytes => whenRunning p do
    let x ← getProc p
    let pagetable ← deref x.pagetable
    let _ ← onPhys (Xv6.copyout pagetable va bytes)
  | .exit p status => whenRunning p (Xv6.exit p status)
  | .wait p addr => whenRunning p do
    let _ ← Xv6.wait p addr

/-- Boot on a machine whose memory holds `m`, then run `ops`: the state reached, or the panic. -/
def start (m : Mem) (ops : List Op) : Except Panic Sys := do
  let (_, s) ← kinit m
  let (_, t) ← (runAll Op.run ops).run (Sys.boot s)
  return t

/-! ### Every operation keeps the invariant -/

section Steps

variable {E : Panic → Prop} {t : Sys} {p : Fin NPROC}

omit [Layout] in
lemma wp_whenRunning {m : SysM Unit} {Q : Unit → Sys → Prop}
    (hm : (t.proc p).state = .running → wp m E Q t) (hQ : Q () t) : wp (whenRunning p m) E Q t := by
  unfold whenRunning
  rw [wp_bind, wp_getProc, wp_ite]
  exact ⟨hm, fun _ => hQ⟩

omit [Layout] in
lemma live_of_running (h : (t.proc p).state = .running) : (t.proc p).state ≠ .unused := by
  rw [h]
  nofun

lemma SysInv.setkilled (h : SysInv t) : SysInv (t.setProc p { t.proc p with killed := true }) :=
  h.setProc_congr rfl rfl rfl Iff.rfl

lemma SysInv.sched_inv (h : SysInv t) {state : ProcState} (hx : (t.proc p).state.Scheduled)
    (hstate : state.Scheduled) : SysInv (t.setProc p { t.proc p with state := state }) := by
  have hne : ∀ {st : ProcState}, st.Scheduled → st ≠ .unused := by
    rintro st hst rfl
    rcases hst with hc | hc | hc <;> cases hc
  exact h.setProc_congr rfl rfl rfl (iff_of_false (hne hstate) (hne hx))

lemma SysInv.kstore_inv (h : SysInv t) {pg o : Nat} (hpg : pg ∈ t.kpages) (ho : o < PGSIZE)
    (b : UInt8) :
    SysInv (t.setPhys { t.phys with mem := update t.phys.mem (pg + o) b }) := by
  obtain ⟨ker, hmem, hheld⟩ := h.mem
  have hk := hheld.other.mpr hpg
  have hpage := hheld.page (by rw [hk]; nofun)
  obtain ⟨h1, hsame⟩ := hmem.writeHeld hpage hk (sameOutside_update (m := t.phys.mem)
    (a := pg + o) b (by omega) (by omega))
  exact (h.setPhys_same h1 hheld hsame).1

lemma SysInv.saveReg_inv (h : SysInv t) {q field : Nat} (hq : (t.proc p).trapframe = some q)
    (hf : field + 8 ≤ trapframeSize) :
    wp (storeTrapframe q field v) E (fun _ s' => SysInv (t.setPhys s')) t.phys := by
  obtain ⟨ker, hmem, hheld⟩ := h.mem
  obtain ⟨hpage, hk⟩ := hheld.isPage_trapframe hq
  have hsize : trapframeSize ≤ PGSIZE := by decide
  refine wp_imp (storeTrapframe_spec hmem hpage hk (hf.trans hsize) v) ?_
  rintro - s' ⟨h1, hsame, -⟩
  exact (h.setPhys_same h1 hheld hsame).1

/-- What an operation does to the pages that the kernel has for other purposes: only `kalloc` and
`kfree` change them, so `exec` gives its buffers back. -/
def Op.KernelPages (t t' : Sys) : Op → Prop
  | .kalloc => t'.kpages = t.kpages ∨ ∃ pg, t'.kpages = pg :: t.kpages
  | .kfree pg => t'.kpages = t.kpages.erase pg
  | _ => t'.kpages = t.kpages

/-- The panics that a run can end with: `cowalloc` without memory, and the end of init. -/
def Fatal (e : Panic) : Prop := e = .cowallocKalloc ∨ e = .initExiting

lemma SysInv.step (h : SysInv t) (op : Op) :
    wp op.run Fatal (fun _ t' => SysInv t' ∧ op.KernelPages t t') t := by
  have hcow : Fatal .cowallocKalloc := Or.inl rfl
  cases op with
  | kalloc =>
    simp only [Op.run, wp_bind]
    refine wp_imp h.kallocPage_inv ?_
    rintro res t' ⟨h', -, ⟨-, hk⟩ | ⟨q, -, -, hk⟩⟩
    · exact ⟨h', Or.inl hk⟩
    · exact ⟨h', Or.inr ⟨q, hk⟩⟩
  | kfree pg =>
    simp only [Op.run, wp_bind, wp_get, wp_ite]
    exact ⟨fun hpg => wp_imp (h.kfreePage_inv hpg) fun _ _ hc => ⟨hc.1, hc.2.2⟩,
      fun hpg => ⟨h, (List.erase_of_not_mem hpg).symm⟩⟩
  | kstore pg o b =>
    simp only [Op.run, wp_bind, wp_get, wp_ite, wp_onPhys, wp_modify]
    exact ⟨fun hc => ⟨h.kstore_inv hc.1 hc.2 b, rfl⟩, fun _ => ⟨h, rfl⟩⟩
  | userinit =>
    simp only [Op.run, wp_bind, wp_get, wp_ite]
    exact ⟨fun hc => wp_imp (h.userinit_inv hc.1 hc.2) fun _ _ h' => ⟨h'.1, h'.2.1⟩,
      fun _ => ⟨h, rfl⟩⟩
  | sched p state =>
    simp only [Op.run, wp_bind, wp_getProc, wp_ite, wp_setProc]
    exact ⟨fun hc => ⟨h.sched_inv hc.1 hc.2, rfl⟩, fun _ => ⟨h, rfl⟩⟩
  | setkilled p => exact ⟨h.setkilled, rfl⟩
  | saveReg p field v =>
    refine wp_whenRunning (fun hp => ?_) ⟨h, rfl⟩
    obtain ⟨r, tf, -, htf, -⟩ := h.live (live_of_running hp)
    simp only [wp_bind, wp_getProc, htf, wp_deref_some, wp_ite, wp_onPhys]
    exact ⟨fun hf => wp_imp (h.saveReg_inv htf hf) fun _ _ h' => ⟨h', rfl⟩, fun _ => ⟨h, rfl⟩⟩
  | fork p =>
    refine wp_whenRunning (fun hp => ?_) ⟨h, rfl⟩
    rw [wp_bind]
    exact wp_imp (h.fork_inv (live_of_running hp)) fun _ _ hc => ⟨hc.1, hc.2.1⟩
  | exec p file args =>
    refine wp_whenRunning (fun hp => ?_) ⟨h, rfl⟩
    rw [wp_bind]
    exact h.sysExec_inv (live_of_running hp) file args
  | sbrk p n =>
    refine wp_whenRunning (fun hp => ?_) ⟨h, rfl⟩
    rw [wp_bind]
    exact h.growproc_inv (live_of_running hp) n
  | store p va b =>
    refine wp_whenRunning (fun hp => ?_) ⟨h, rfl⟩
    obtain ⟨r, -, hr, -⟩ := h.live (live_of_running hp)
    simp only [wp_bind, wp_getProc, hr, wp_deref_some, wp_ite, wp_onPhys, wp_setProc]
    refine wp_imp (h.userStore_inv (live_of_running hp) hr va b fun _ => hcow) fun _ _ hc => ?_
    exact ⟨fun _ => ⟨hc.1.setkilled, rfl⟩, fun _ => ⟨hc.1, rfl⟩⟩
  | copyout p va bytes =>
    refine wp_whenRunning (fun hp => ?_) ⟨h, rfl⟩
    obtain ⟨r, -, hr, -⟩ := h.live (live_of_running hp)
    simp only [wp_bind, wp_getProc, hr, wp_deref_some, wp_onPhys]
    exact wp_imp (h.copyout_inv (live_of_running hp) hr va bytes fun _ => hcow)
      fun _ _ hc => ⟨hc.1, rfl⟩
  | exit p status =>
    exact wp_whenRunning (fun hp => h.exit_inv (live_of_running hp) (Or.inr rfl) status) ⟨h, rfl⟩
  | wait p addr =>
    refine wp_whenRunning (fun hp => ?_) ⟨h, rfl⟩
    rw [wp_bind]
    exact h.wait_inv hp hcow addr

end Steps

/-- Every run ends in a state that satisfies the invariant, or with one of two panics. -/
lemma start_inv (m : Mem) (ops : List Op) :
    match start m ops with
    | .ok t => SysInv t
    | .error e => Fatal e := by
  obtain ⟨s, hs, -, hmem⟩ := kinit_spec (ι := TableId) (κ := Holder) m
  have hwp : wp (runAll Op.run ops) Fatal (fun _ => SysInv) (Sys.boot s) :=
    wp_runAll (fun op _ h => wp_imp (h.step op) fun _ _ hc => hc.1) (sysInv_boot hmem)
  have hstart : start m ops = ((runAll Op.run ops).run (Sys.boot s)).map Prod.snd := by
    unfold start
    rw [hs]
    show ((runAll Op.run ops).run (Sys.boot s) >>= fun res => pure res.2) = _
    cases (runAll Op.run ops).run (Sys.boot s) <;> rfl
  unfold wp at hwp
  rw [hstart]
  cases hrun : (runAll Op.run ops).run (Sys.boot s) with
  | ok res =>
    rw [hrun] at hwp
    exact hwp
  | error e =>
    rw [hrun] at hwp
    exact hwp

/-! ### The layout of address spaces -/

/-- The layout of the table `r` of a process of `sz` bytes with the trapframe `tf`. -/
structure Laid (m : Mem) (r sz tf : Nat) : Prop where
  /-- Entries of the upper tables are empty or point to tables. -/
  upper : ∀ {path n k}, ValidPath path → path.length < 2 → nodeAt m r path = some n → k < 512 →
    hasFlag (ld64 m (n + 8 * k)) (PTE_R ||| PTE_W ||| PTE_X) = false
  leaf : ∀ v < 2 ^ 27, hasFlag (leafPte m r v) PTE_V = true ↔
    v * PGSIZE < pgroundup sz ∨ v * PGSIZE = TRAPFRAME ∨ v * PGSIZE = TRAMPOLINE
  readable : ∀ v < 2 ^ 27, hasFlag (leafPte m r v) PTE_V = true →
    hasFlag (leafPte m r v) PTE_R = true
  trapframe : pte2pa (leafPte m r (TRAPFRAME / PGSIZE)) = tf
  trampoline : pte2pa (leafPte m r (TRAMPOLINE / PGSIZE)) = trampoline
  inj : ∀ {v u}, v * PGSIZE < pgroundup sz → u * PGSIZE < pgroundup sz →
    pte2pa (leafPte m r v) = pte2pa (leafPte m r u) → v = u
  bound : sz ≤ pgroundup sz ∧ pgroundup sz ≤ PHYSTOP - KERNBASE ∧ PHYSTOP - KERNBASE < TRAPFRAME

omit [Layout] in
lemma EntryOk.no_access {w : Pte} (h : EntryOk w) :
    hasFlag w (PTE_R ||| PTE_W ||| PTE_X) = false := by
  obtain rfl | ⟨c, -, -, rfl⟩ := h
  · decide
  · exact hasFlag_pointer c

/-- The leaves of a process's table. -/
lemma ProcTable.valid_iff {m : Mem} {n : Nat} (h : ProcTable m r n tf) (hn : n ≤ NUSER)
    (hv : v < 2 ^ 27) : (leafPte m r v).getLsbD 0 = true ↔ v < n ∨ v = NUSER ∨ v = NUSER + 1 := by
  rcases Nat.lt_trichotomy v NUSER with hlt | rfl | hgt
  · have huser := h.user v hlt
    rw [ne_eq, view_eq_none, ptePage, hasFlag_V] at huser
    split_ifs at huser with hV
    · exact iff_of_true hV (Or.inl (huser.mp (by simp)))
    · refine iff_of_false hV ?_
      rintro (hc | hc | hc)
      · exact huser.mpr hc rfl
      · omega
      · omega
  · rw [h.trapframe, getLsbD_mapped _ _ (by decide)]
    exact iff_of_true (by simp) (Or.inr (Or.inl rfl))
  · by_cases hv1 : v = NUSER + 1
    · rw [hv1, h.trampoline, getLsbD_mapped _ _ (by decide)]
      exact iff_of_true (by simp) (Or.inr (Or.inr rfl))
    · rw [h.rest v (by omega) hv]
      refine iff_of_false (by simp) ?_
      omega

lemma MemInv.laid {s : Phys} {roots : TableId → Option Nat} {ker : Nat → Option Holder}
    (h : MemInv s roots ker) {i : TableId} {sz : Nat} (hr : roots i = some r) (htf : IsPage tf)
    (ht : ProcTable s.mem r (pages sz) tf) : Laid s.mem r sz tf := by
  have hN := NUSER_add_two
  have hle := h.userSpace_le hr ht.user
  have hlt := npages_lt
  have hround : pgroundup sz = pages sz * PGSIZE := by
    apply pgroundup_eq_pages
    have := NUSER_lt
    simp only [pages, PGSIZE] at hle hlt ⊢
    omega
  have hpages : ∀ {v}, v * PGSIZE < pgroundup sz ↔ v < pages sz := by
    intro v
    rw [hround]
    exact Nat.mul_lt_mul_right (by decide)
  have hvalid : ∀ {v}, v < 2 ^ 27 →
      ((leafPte s.mem r v).getLsbD 0 = true ↔ v < pages sz ∨ v = NUSER ∨ v = NUSER + 1) :=
    fun hv => ht.valid_iff (hle.trans hlt.le) hv
  refine ⟨?_, ?_, ?_, ?_, ?_, ?_, ?_⟩
  · intro path n k hpath hlen hn hk
    obtain ⟨own, hinv, -⟩ := h
    exact (hinv.tables.entry hr hpath hlen hn hk).no_access
  · intro v hv
    rw [hpages, trapframe_eq, trampoline_eq, Nat.mul_left_inj (by decide),
      Nat.mul_left_inj (by decide), hasFlag_V]
    exact hvalid hv
  · intro v hv hV
    rw [hasFlag_V] at hV
    rw [hasFlag_R]
    obtain hzero | ⟨-, hR⟩ := h.leafOk hr hv
    · rw [hzero] at hV
      simp at hV
    · exact hR
  · rw [show TRAPFRAME / PGSIZE = NUSER from rfl, ht.trapframe]
    exact (ptePage_eq_some.mp (ptePage_mapped htf.1 htf.lt_two_pow fun j hj => by simp; omega)).2
  · have hlow : trampoline < 2 ^ 56 := by
      have h1 := Layout.trampoline_le
      have h2 := Layout.kend_le
      unfold PHYSTOP KERNBASE at h2
      unfold PGSIZE at h1
      omega
    rw [show TRAMPOLINE / PGSIZE = NUSER + 1 by decide, ht.trampoline]
    exact (ptePage_eq_some.mp (ptePage_mapped Layout.trampoline_mod hlow
      fun j hj => by simp; omega)).2
  · intro v u hv hu heq
    rw [hpages] at hv hu
    have hv' := (hvalid (v := v) (by omega)).mpr (Or.inl hv)
    have hu' := (hvalid (v := u) (by omega)).mpr (Or.inl hu)
    exact h.inj hr (by omega) (by omega) (ptePage_eq_some.mpr ⟨hv', heq⟩)
      (ptePage_eq_some.mpr ⟨hu', rfl⟩)
  · refine ⟨?_, ?_, by decide⟩
    · rw [hround]
      simp only [pages, PGSIZE]
      omega
    · rw [hround]
      exact (Nat.mul_le_mul_right _ hle).trans (Nat.div_mul_le_self _ _)

/-- In every state of every run the table of every process has its layout. A run stops with a
panic only if `cowalloc` finds no page or init exits. -/
theorem start_layout (m : Mem) (ops : List Op) :
    match start m ops with
    | .ok t => ∀ p, (t.proc p).state ≠ .unused → ∃ r tf, (t.proc p).pagetable = some r ∧
        (t.proc p).trapframe = some tf ∧ Laid t.phys.mem r (t.proc p).sz tf
    | .error e => e = .cowallocKalloc ∨ e = .initExiting := by
  have hinv := start_inv m ops
  split at hinv
  · next t heq =>
    intro p hp
    obtain ⟨ker, hmem, hheld⟩ := hinv.mem
    obtain ⟨r, tf, hr, htf, htable⟩ := hinv.live hp
    exact ⟨r, tf, hr, htf, hmem.laid (i := some p) hr (hheld.isPage_trapframe htf).1 htable⟩
  · exact hinv

/-! ### The owners of pages -/

/-- The pages that the kernel has for itself: tables, trapframes and the pages in `kpages`. -/
def Sys.KernelOwned (t : Sys) (pg : Nat) : Prop :=
  pg ∈ t.kpages ∨ (∃ p, (t.proc p).trapframe = some pg) ∨
    ∃ p r path, (t.proc p).pagetable = some r ∧ ValidPath path ∧
      nodeAt t.phys.mem r path = some pg

/-- The number of user leaves, over all tables, that refer to `pg`. -/
def Sys.userRefs (t : Sys) (pg : Nat) : Nat := mapCount t.phys.mem t.roots pg

/-- On the free list once, and nothing refers to it. -/
structure Sys.FreePage (t : Sys) (pg : Nat) : Prop where
  once : t.phys.freelist.count pg = 1
  kernel : ¬t.KernelOwned pg
  leaves : ∀ {p r v}, (t.proc p).pagetable = some r → v < 2 ^ 27 →
    ptePage (leafPte t.phys.mem r v) ≠ some pg

/-- Not on the free list, with an exact reference count. -/
structure Sys.UsedPage (t : Sys) (pg : Nat) : Prop where
  not_free : pg ∉ t.phys.freelist
  count : (t.KernelOwned pg ∧ t.userRefs pg = 0 ∧ t.phys.pgRefcnt pg = 1) ∨
    (¬t.KernelOwned pg ∧ 0 < t.userRefs pg ∧ t.phys.pgRefcnt pg = t.userRefs pg)

section Owners

variable {t : Sys} {own : Nat → Owner TableId Holder} {ker : Nat → Option Holder} {pg : Nat}

lemma PhysInv.kernelOwned_iff (h : PhysInv t.phys t.roots own)
    (hker : ∀ pg, IsPage pg → ∀ k, own pg = .kernel k ↔ ker pg = some k)
    (hheld : Held t.trapframes t.kpages ker) (hpg : IsPage pg) :
    t.KernelOwned pg ↔ (own pg).Pinned := by
  constructor
  · rintro (hk | ⟨p, hp⟩ | ⟨p, r, path, hr, hpath, hn⟩)
    · exact Or.inr ⟨_, (hker pg hpg _).mpr (hheld.other.mpr hk)⟩
    · exact Or.inr ⟨_, (hker pg hpg _).mpr (hheld.trapframe.mpr hp)⟩
    · exact Or.inl ⟨_, _, (h.tables.node (i := some p) hr hpath hn).2⟩
  · rintro (⟨i, path, hi⟩ | ⟨k, hk⟩)
    · obtain ⟨hpath, r, hr, hn⟩ := h.tables.covered hpg hi
      cases i with
      | none => cases hr
      | some p => exact Or.inr (Or.inr ⟨p, r, path, hr, hpath, hn⟩)
    · rw [hker pg hpg] at hk
      cases k with
      | trapframe p => exact Or.inr (Or.inl ⟨p, hheld.trapframe.mp hk⟩)
      | other => exact Or.inl (hheld.other.mp hk)

lemma PhysInv.userRefs_eq_zero (h : PhysInv t.phys t.roots own) (hown : own pg ≠ .user) :
    t.userRefs pg = 0 := by
  unfold Sys.userRefs mapCount
  rw [refCount_eq_zero_iff]
  rintro ⟨j, u⟩ hp
  obtain ⟨r, hr, hp⟩ := Option.bind_eq_some_iff.mp hp
  exact hown (h.pages.user hr u.2 hp).2

/-- What the leaves of a process's table refer to. -/
lemma SysInv.leaf_page (hinv : SysInv t) (h : PhysInv t.phys t.roots own) {p : Fin NPROC}
    (hr : (t.proc p).pagetable = some r) (hv : v < 2 ^ 27) (hpg : IsPage pg)
    (hp : ptePage (leafPte t.phys.mem r v) = some pg) :
    own pg = .user ∨ (t.proc p).trapframe = some pg := by
  have hlive : (t.proc p).state ≠ .unused := by
    intro hc
    rw [(hinv.unused_iff p), Sys.image, Proc.image_of_some hr] at hc
    cases hc
  obtain ⟨ker, hmem, hheld⟩ := hinv.mem
  obtain ⟨r', tf, hr', htf, htable⟩ := hinv.live hlive
  rw [hr, Option.some.injEq] at hr'
  subst hr'
  have hlaid := hmem.laid (i := some p) hr (hheld.isPage_trapframe htf).1 htable
  obtain ⟨hV, hpa⟩ := ptePage_eq_some.mp hp
  by_cases hN : v < NUSER
  · exact Or.inl (h.pages.user (i := some p) hr hN hp).2
  have hle := (hmem.userSpace_le (i := some p) hr htable.user).trans npages_lt.le
  rcases (htable.valid_iff hle hv).mp hV with hc | rfl | rfl
  · omega
  · rw [show NUSER = TRAPFRAME / PGSIZE from rfl, hlaid.trapframe] at hpa
    rw [htf, hpa]
    exact Or.inr rfl
  · -- the trampoline is part of the kernel
    rw [show NUSER + 1 = TRAMPOLINE / PGSIZE by decide, hlaid.trampoline] at hpa
    have h1 := Layout.trampoline_le
    have h2 := hpg.2.1
    simp only [PGSIZE] at h1
    omega

lemma SysInv.xor_page (h : SysInv t) (hpg : IsPage pg) : Xor (t.FreePage pg) (t.UsedPage pg) := by
  obtain ⟨ker, ⟨own, hinv, hker⟩, hheld⟩ := h.mem
  have howned := hinv.kernelOwned_iff hker hheld hpg
  have hfree : pg ∈ t.phys.freelist ↔ own pg = .free :=
    hinv.pages.free.trans (and_iff_right hpg)
  have hused : t.UsedPage pg → ¬t.FreePage pg := fun hu hf =>
    hu.not_free (List.count_pos_iff.mp (by rw [hf.once]; exact Nat.one_pos))
  have hpinned : (own pg).Pinned → own pg ≠ .free → own pg ≠ .user → t.UsedPage pg :=
    fun hp hnf hnu => ⟨fun hc => hnf (hfree.mp hc),
      Or.inl ⟨howned.mpr hp, hinv.userRefs_eq_zero hnu, hinv.pages.held hpg hp⟩⟩
  cases hown : own pg with
  | free =>
    refine Or.inl ⟨⟨?_, ?_, ?_⟩, fun hu => hu.not_free (hfree.mpr hown)⟩
    · exact List.count_eq_one_of_mem hinv.pages.nodup (hfree.mpr hown)
    · rw [howned, hown]
      rintro (⟨i, path, hc⟩ | ⟨k, hc⟩) <;> cases hc
    · intro p r v hr hv hp
      obtain hu | htf := h.leaf_page hinv hr hv hpg hp
      · rw [hown] at hu
        cases hu
      · have hk := (hker pg hpg _).mpr (hheld.trapframe.mpr htf)
        rw [hown] at hk
        cases hk
  | user =>
    have hu : t.UsedPage pg := by
      refine ⟨fun hc => ?_, Or.inr ⟨?_, hinv.pages.mapped hpg hown⟩⟩
      · rw [hfree, hown] at hc
        cases hc
      · rw [howned, hown]
        rintro (⟨i, path, hc⟩ | ⟨k, hc⟩) <;> cases hc
    exact Or.inr ⟨hu, hused hu⟩
  | node i path =>
    have hu := hpinned (Or.inl ⟨i, path, hown⟩) (by rw [hown]; nofun) (by rw [hown]; nofun)
    exact Or.inr ⟨hu, hused hu⟩
  | kernel k =>
    have hu := hpinned (Or.inr ⟨k, hown⟩) (by rw [hown]; nofun) (by rw [hown]; nofun)
    exact Or.inr ⟨hu, hused hu⟩

end Owners

/-- **Pages.** In every state of every run every page is either free or in use with an exact
reference count, and the pages that the kernel has for other purposes are those that it has asked
for and not freed. -/
theorem start_pages (m : Mem) (ops : List Op) :
    match start m ops with
    | .ok t => (∀ pg, pg % PGSIZE = 0 → pgroundup kend ≤ pg → pg < PHYSTOP →
        Xor (t.FreePage pg) (t.UsedPage pg)) ∧
        ∀ op : Op, wp op.run Fatal (fun _ t' => op.KernelPages t t') t
    | .error e => e = .cowallocKalloc ∨ e = .initExiting := by
  have hinv := start_inv m ops
  split at hinv
  · refine ⟨fun pg hal hlo hhi => hinv.xor_page ⟨hal, ?_, hhi⟩,
      fun op => wp_imp (hinv.step op) fun _ _ hc => hc.2⟩
    have h2 := Layout.kend_le
    rw [pgroundup_eq (by unfold PHYSTOP KERNBASE at h2; unfold PGSIZE; omega)] at hlo
    simp only [PGSIZE] at hlo
    omega
  · exact hinv

end Xv6
