import Xv6.Kernel.BootSpec
import Xv6.Kernel.Copyin

/-!
# The arguments of `exec`

`exec` pushes the argument strings on the one page of the user stack, each at an address that is a
multiple of 16, and below them the array of pointers to them. They fit exactly if their rounded
sizes do, and the process then finds them as they were given.
-/

namespace Xv6

open Function Lib

/-! ### How much they take -/

variable {sp n v : Nat} {A : AddrSpace} {pg : UPage}

/-- The next multiple of 16. -/
def round16 (n : Nat) : Nat := (n + 15) / 16 * 16

lemma le_round16 (n : Nat) : n ≤ round16 n := by
  unfold round16
  omega

lemma round16_mod (n : Nat) : round16 n % 16 = 0 := Nat.mul_mod_left ..

lemma pushSp_eq (hsp : sp % 16 = 0) (hn : n ≤ sp) (hlt : sp < 2 ^ 64) :
    pushSp sp n = sp - round16 n := by
  simp only [pushSp, round16]
  omega

/-- The strings with their NULs, each rounded up. -/
def argBytes (argv : List (List UInt8)) : Nat := (argv.map fun arg => round16 (arg.length + 1)).sum

@[simp] lemma argBytes_cons (arg : List UInt8) (argv : List (List UInt8)) :
    argBytes (arg :: argv) = round16 (arg.length + 1) + argBytes argv := rfl

/-- The strings and the array of pointers fit in one page. -/
def Fits (argv : List (List UInt8)) : Prop :=
  argBytes argv + round16 (8 * (argv.length + 1)) ≤ PGSIZE

/-- Where the strings go, below `sp`. -/
def argPtrs : List (List UInt8) → Nat → List Nat
  | [], _ => []
  | arg :: argv, sp =>
    (sp - round16 (arg.length + 1)) :: argPtrs argv (sp - round16 (arg.length + 1))

lemma length_argPtrs : ∀ {argv : List (List UInt8)} {sp : Nat},
    (argPtrs argv sp).length = argv.length := by
  intro argv
  induction argv with
  | nil => intro sp; rfl
  | cons arg argv ih => intro sp; rw [argPtrs, List.length_cons, List.length_cons, ih]

/-- The strings lie between the last pointer and `sp`. -/
lemma argPtrs_bounds : ∀ {argv : List (List UInt8)} {sp : Nat}, argBytes argv ≤ sp →
    ∀ x ∈ argv.zip (argPtrs argv sp), sp - argBytes argv ≤ x.2 ∧ x.2 + (x.1.length + 1) ≤ sp := by
  intro argv
  induction argv with
  | nil => nofun
  | cons arg argv ih =>
    intro sp hsp x hx
    rw [argBytes_cons] at hsp ⊢
    have hle := le_round16 (arg.length + 1)
    rw [argPtrs, List.zip_cons_cons, List.mem_cons] at hx
    rcases hx with rfl | hx
    · dsimp only
      omega
    · have := ih (by omega) x hx
      omega

/-- Two ranges of addresses, each given by its start and length, have no address in common. -/
def Apart (x y : Nat × Nat) : Prop := x.1 + x.2 ≤ y.1 ∨ y.1 + y.2 ≤ x.1

/-- The ranges of the strings. -/
def extents (argv : List (List UInt8)) (ptrs : List Nat) : List (Nat × Nat) :=
  (argv.zip ptrs).map fun x => (x.2, x.1.length + 1)

lemma pairwise_extents : ∀ {argv : List (List UInt8)} {sp : Nat}, argBytes argv ≤ sp →
    (extents argv (argPtrs argv sp)).Pairwise Apart := by
  intro argv
  induction argv with
  | nil => exact fun _ => .nil
  | cons arg argv ih =>
    intro sp hsp
    rw [argBytes_cons] at hsp
    have hrest : argBytes argv ≤ sp - round16 (arg.length + 1) := by omega
    refine List.Pairwise.cons ?_ (ih hrest)
    intro y hy
    obtain ⟨x, hx, rfl⟩ := List.mem_map.mp hy
    exact Or.inr (argPtrs_bounds hrest x hx).2

/-! ### What the pushes leave on the stack -/

/-- The strings stand in the page `v`, below `sp`, and nothing else has changed. -/
structure Pushed (A A' : AddrSpace) (v sp : Nat) (argv : List (List UInt8)) : Prop where
  page : ∃ pg, A' v = some pg ∧ pg.user = true ∧ pg.writable = true
  other : ∀ u, u ≠ v → A' u = A u
  above : ∀ x, sp ≤ x → A'.load x = A.load x
  strings : ∀ x ∈ argv.zip (argPtrs argv sp), ∀ j ≤ x.1.length,
    A'.load (x.2 + j) = (x.1 ++ [0])[j]?

/-- One push of bytes that fit in the page. -/
lemma AddrSpace.push (sp : Nat) (bs : List UInt8) (hpg : A v = some pg) (hU : pg.user = true)
    (hW : pg.writable = true) (hlo : v * PGSIZE ≤ sp) (hhi : sp + bs.length ≤ (v + 1) * PGSIZE)
    (hmax : (v + 1) * PGSIZE ≤ MAXVA) (hbs : 0 < bs.length) : A.Accepts sp bs.length ∧
      (∃ pg, A.stores sp bs v = some pg ∧ pg.user = true ∧ pg.writable = true) ∧
      (∀ u, u ≠ v → A.stores sp bs u = A u) ∧
      ∀ x, (A.stores sp bs).load x
        = if sp ≤ x ∧ x < sp + bs.length then bs[x - sp]? else A.load x := by
  have hacc := accepts_of_page hpg hU hW hlo hhi hmax hbs
  have hlt : sp + bs.length ≤ 2 ^ 64 := by
    simp only [MAXVA] at hmax
    omega
  refine ⟨hacc, ?_, fun u hu => ?_, load_stores bs hlt hacc⟩
  · -- the page may still be written where it could be before
    have hstill : (A.stores sp bs).Accepts sp 1 :=
      (accepts_stores_iff bs A sp).mpr
        (accepts_of_page hpg hU hW hlo (by omega) hmax Nat.one_pos)
    obtain ⟨-, pg', hpg', hU', hW'⟩ := hstill.1
    have hdiv : sp / PGSIZE = v := by
      simp only [PGSIZE] at hlo hhi ⊢
      omega
    rw [hdiv] at hpg'
    exact ⟨pg', hpg', hU', hW'⟩
  · refine stores_of_ne bs A sp hlt fun k hk => ?_
    have hdiv : (sp + k) / PGSIZE = v := by
      simp only [PGSIZE] at hlo hhi ⊢
      omega
    rw [hdiv]
    exact hu.symm

/-- The pushes succeed exactly if the strings fit above the bottom of the page. -/
lemma refPush_spec (hv : 0 < v) (hmax : (v + 1) * PGSIZE ≤ MAXVA) :
    ∀ {argv : List (List UInt8)} {sp : Nat} {ustack : List Nat} {A : AddrSpace} {pg : UPage},
    A v = some pg → pg.user = true → pg.writable = true → sp % 16 = 0 → v * PGSIZE ≤ sp →
    sp ≤ (v + 1) * PGSIZE → ustack.length + argv.length ≤ MAXARG →
    (∀ arg ∈ argv, arg.length < PGSIZE) →
    (v * PGSIZE + argBytes argv ≤ sp → ∃ A',
      refPush (v * PGSIZE) argv sp ustack A
        = some (sp - argBytes argv, ustack ++ argPtrs argv sp, A') ∧ Pushed A A' v sp argv) ∧
    (¬v * PGSIZE + argBytes argv ≤ sp → refPush (v * PGSIZE) argv sp ustack A = none) := by
  intro argv
  induction argv with
  | nil =>
    intro sp ustack A pg hpg hU hW _ hlo _ _ _
    refine ⟨fun _ => ⟨A, ?_, ⟨pg, hpg, hU, hW⟩, fun _ _ => rfl, fun _ _ => rfl, nofun⟩,
      fun hc => ?_⟩
    · rw [argPtrs, List.append_nil]
      rfl
    · have hzero : argBytes [] = 0 := rfl
      omega
  | cons arg argv ih =>
    intro sp ustack A pg hpg hU hW hal hlo hhi hargc hlen
    rw [List.length_cons] at hargc
    have hone : PGSIZE ≤ v * PGSIZE := Nat.le_mul_of_pos_left _ hv
    have harg := hlen arg List.mem_cons_self
    have hlt : sp < 2 ^ 64 := by
      simp only [MAXVA] at hmax
      omega
    have hround := le_round16 (arg.length + 1)
    have hmod := round16_mod (arg.length + 1)
    unfold refPush
    rw [if_neg (by omega), pushSp_eq hal (by omega) hlt, argBytes_cons, argPtrs]
    by_cases hfit : v * PGSIZE + round16 (arg.length + 1) ≤ sp
    swap
    · refine ⟨fun hc => by omega, fun _ => ?_⟩
      rw [if_pos (by omega)]
    set sp' := sp - round16 (arg.length + 1) with hsp'
    have hbytes : (arg ++ [0]).length = arg.length + 1 := by
      rw [List.length_append, List.length_singleton]
    obtain ⟨hacc, ⟨pg', hpg', hU', hW'⟩, hother, hload⟩ := AddrSpace.push sp' (arg ++ [0]) hpg hU hW
      (by omega) (by omega) hmax (by omega)
    rw [hbytes] at hacc hload
    obtain ⟨hyes, hno⟩ := @ih sp' (ustack ++ [sp']) _ _ hpg' hU' hW' (by omega) (by omega)
      (by omega) (by rw [List.length_append, List.length_singleton]; omega)
      fun a ha => hlen a (List.mem_cons_of_mem _ ha)
    rw [if_neg (by omega), if_pos hacc]
    refine ⟨fun hall => ?_, fun hc => hno (by omega)⟩
    obtain ⟨A', hpush, h'⟩ := hyes (by omega)
    refine ⟨A', ?_, h'.page, fun u hu => (h'.other u hu).trans (hother u hu), fun x hx => ?_, ?_⟩
    · rw [hpush, List.append_assoc, Nat.sub_sub]
      rfl
    · rw [h'.above x (by omega), hload, if_neg (by omega)]
    · intro x hx j hj
      rw [argPtrs, List.zip_cons_cons, List.mem_cons] at hx
      rcases hx with rfl | hx
      · -- the strings pushed later lie below this one
        dsimp only at hj ⊢
        rw [h'.above _ (Nat.le_add_right _ _), hload, if_pos (by omega), Nat.add_sub_cancel_left]
      · exact h'.strings x hx j hj

lemma length_words (ws : List Nat) : (ws.flatMap (leBytes 8)).length = 8 * ws.length := by
  induction ws with
  | nil => rfl
  | cons w ws ih =>
    rw [List.flatMap_cons, List.length_append, ih, List.length_cons]
    have : (leBytes 8 w).length = 8 := by rw [leBytes, List.length_map, List.length_range]
    omega

/-- What the process finds on its stack page `v`, with the stack pointer `sp`. -/
structure OnStack (A A' : AddrSpace) (v sp : Nat) (argv : List (List UInt8)) : Prop where
  aligned : sp % 16 = 0
  low : v * PGSIZE ≤ sp
  high : sp < (v + 1) * PGSIZE
  other : ∀ u, u ≠ v → A' u = A u
  strings : ∃ ptrs, ptrs.length = argv.length ∧
    (∀ j < 8 * (argv.length + 1), A'.load (sp + j) = ((ptrs ++ [0]).flatMap (leBytes 8))[j]?) ∧
    (∀ x ∈ argv.zip ptrs, ∀ j ≤ x.1.length, A'.load (x.2 + j) = (x.1 ++ [0])[j]?) ∧
    ((sp, 8 * (argv.length + 1)) :: extents argv ptrs).Pairwise Apart

/-- The arguments go on the stack exactly if they fit in its page. -/
lemma refStack_spec (hv : 0 < v) (hmax : (v + 1) * PGSIZE ≤ MAXVA) (hpg : A v = some pg)
    (hU : pg.user = true) (hW : pg.writable = true) {argv : List (List UInt8)}
    (hargc : argv.length < MAXARG) (hlen : ∀ arg ∈ argv, arg.length < PGSIZE) :
    (Fits argv → ∃ sp A', refStack argv ((v + 1) * PGSIZE) A = some (sp, A') ∧
      OnStack A A' v sp argv) ∧
    (¬Fits argv → refStack argv ((v + 1) * PGSIZE) A = none) := by
  have hbase : (v + 1) * PGSIZE - PGSIZE = v * PGSIZE := by
    rw [Nat.succ_mul, Nat.add_sub_cancel]
  have htop : (v + 1) * PGSIZE = v * PGSIZE + PGSIZE := Nat.succ_mul ..
  have hal : (v + 1) * PGSIZE % 16 = 0 := by
    simp only [PGSIZE]
    omega
  have hone : PGSIZE ≤ v * PGSIZE := Nat.le_mul_of_pos_left _ hv
  unfold Fits refStack
  rw [hbase]
  obtain ⟨hyes, hno⟩ := @refPush_spec v hv hmax argv _ [] A pg hpg hU hW hal (by omega) (le_refl _)
    (by rw [List.length_nil]; omega) hlen
  by_cases hstr : v * PGSIZE + argBytes argv ≤ (v + 1) * PGSIZE
  swap
  · rw [hno hstr]
    exact ⟨fun hc => by omega, fun _ => rfl⟩
  obtain ⟨A₁, hpush, h1⟩ := hyes hstr
  obtain ⟨pg₁, hpg₁, hU₁, hW₁⟩ := h1.page
  set ptrs := argPtrs argv ((v + 1) * PGSIZE) with hptrs
  have hlenp : ptrs.length = argv.length := length_argPtrs
  set sp := (v + 1) * PGSIZE - argBytes argv with hsp
  have hspal : sp % 16 = 0 := by
    have : ∀ argv : List (List UInt8), argBytes argv % 16 = 0 := by
      intro argv
      induction argv with
      | nil => rfl
      | cons arg argv ih =>
        have := round16_mod (arg.length + 1)
        rw [argBytes_cons]
        omega
    have := this argv
    omega
  have hwords : (ptrs ++ [0]).length * 8 = 8 * (argv.length + 1) := by
    rw [List.length_append, List.length_singleton, hlenp, Nat.mul_comm]
  have hbytes : ((ptrs ++ [0]).flatMap (leBytes 8)).length = 8 * (argv.length + 1) := by
    rw [length_words, Nat.mul_comm, hwords]
  have hMAXARG : 8 * (argv.length + 1) ≤ PGSIZE := by
    simp only [MAXARG, PGSIZE] at hargc ⊢
    omega
  have hround := le_round16 (8 * (argv.length + 1))
  have hmod := round16_mod (8 * (argv.length + 1))
  have hlt : sp < 2 ^ 64 := by
    simp only [MAXVA] at hmax
    omega
  rw [hpush, List.nil_append]
  dsimp only
  rw [hwords, pushSp_eq hspal (by omega) hlt, hbytes]
  by_cases hfit : v * PGSIZE + round16 (8 * (argv.length + 1)) ≤ sp
  swap
  · refine ⟨fun hc => by omega, fun _ => ?_⟩
    rw [if_pos (by omega)]
  refine ⟨fun _ => ?_, fun hc => by omega⟩
  set sp' := sp - round16 (8 * (argv.length + 1)) with hsp'
  obtain ⟨hacc, -, hother, hload⟩ := AddrSpace.push sp' ((ptrs ++ [0]).flatMap (leBytes 8)) hpg₁ hU₁
    hW₁ (by omega) (by omega) hmax (by omega)
  rw [hbytes] at hacc hload
  rw [if_neg (by omega), if_pos hacc]
  have habove : argBytes argv ≤ (v + 1) * PGSIZE := by omega
  refine ⟨sp', _, rfl, by omega, by omega, by omega,
    fun u hu => (hother u hu).trans (h1.other u hu),
    ptrs, hlenp, fun j hj => ?_, fun x hx j hj => ?_, .cons ?_ (pairwise_extents habove)⟩
  · rw [hload, if_pos (by omega), Nat.add_sub_cancel_left]
  · have := (argPtrs_bounds habove x hx).1
    rw [hload, if_neg (by omega)]
    exact h1.strings x hx j hj
  · intro y hy
    obtain ⟨x, hx, rfl⟩ := List.mem_map.mp hy
    have := (argPtrs_bounds habove x hx).1
    exact Or.inl (show sp' + 8 * (argv.length + 1) ≤ x.2 by omega)

/-! ### Reading them -/

section

variable {load : Nat → Option UInt8}

lemma readBytes_of_bytes : ∀ {bs : List UInt8} {va : Nat},
    (∀ j < bs.length, load (va + j) = bs[j]?) → readBytes load va bs.length = (0, bs) := by
  intro bs
  induction bs with
  | nil => intro va _; rfl
  | cons b bs ih =>
    intro va h
    have hfirst : load va = some b := h 0 (Nat.succ_pos _)
    have hrest : readBytes load (va + 1) bs.length = (0, bs) := by
      refine ih fun j hj => ?_
      rw [Nat.add_assoc, Nat.add_comm 1 j]
      exact h (j + 1) (Nat.succ_lt_succ hj)
    rw [List.length_cons, readBytes, hfirst]
    simp only [hrest]

lemma readStr_of_bytes : ∀ {arg : List UInt8} {va max : Nat}, 0 ∉ arg → arg.length < max →
    (∀ j ≤ arg.length, load (va + j) = (arg ++ [0])[j]?) →
      readStr load va max = (0, arg ++ [0]) := by
  intro arg
  induction arg with
  | nil =>
    intro va max _ hmax h
    obtain ⟨max, rfl⟩ := Nat.exists_eq_succ_of_ne_zero hmax.ne'
    have hfirst : load va = some 0 := h 0 (le_refl 0)
    rw [readStr, hfirst]
    rfl
  | cons b arg ih =>
    intro va max hnul hmax h
    obtain ⟨max, rfl⟩ := Nat.exists_eq_succ_of_ne_zero (Nat.ne_zero_of_lt hmax)
    rw [List.mem_cons, not_or] at hnul
    have hfirst : load va = some b := h 0 (Nat.zero_le _)
    have hrest : readStr load (va + 1) max = (0, arg ++ [0]) := by
      refine ih hnul.2 (Nat.lt_of_succ_lt_succ hmax) fun j hj => ?_
      rw [Nat.add_assoc, Nat.add_comm 1 j]
      exact h (j + 1) (Nat.succ_le_succ hj)
    rw [readStr, hfirst]
    simp only [if_neg (Ne.symm hnul.1), hrest, List.cons_append]

end

variable [Layout]

/-- The arguments as the process finds them, with the stack pointer `sp` and below `sz`. -/
structure Passed (s : Phys) (r sz sp : Nat) (argv : List (List UInt8)) : Prop where
  aligned : sp % 16 = 0
  low : sz - PGSIZE ≤ sp
  high : sp < sz
  strings : ∃ ptrs, ptrs.length = argv.length ∧
    (copyin r sp (8 * (argv.length + 1))).run s
      = .ok ((0, (ptrs ++ [0]).flatMap (leBytes 8)), s) ∧
    (∀ x ∈ argv.zip ptrs, ∀ max, x.1.length < max →
      (copyinstr r x.2 max).run s = .ok ((0, x.1 ++ [0]), s)) ∧
    ((sp, 8 * (argv.length + 1)) :: extents argv ptrs).Pairwise Apart
  /-- The page below the stack page. -/
  guard : ∀ va, sz - 2 * PGSIZE ≤ va → va < sz - PGSIZE → userLoad s.mem r va = none ∧
    ∀ b, (userStore r va b).run s = .ok (-1, s)

section

variable {ι κ : Type} [Fintype ι] {s : Phys} {roots : ι → Option Nat} {ker : Nat → Option κ} {i : ι}
  {r : Nat}

/-- In the tables of the kernel `copyin` reads what the process reads. -/
lemma MemInv.loadByte_eq (h : MemInv s roots ker) (hr : roots i = some r) :
    loadByte s.mem r = (space s.mem r).load := by
  funext va
  rw [← h.userLoad_eq hr, loadByte, userLoad]
  simp only [h.readable_iff hr]
  rfl

/-- A page that the process may not use. -/
lemma MemInv.hidden (h : MemInv s roots ker) (hr : roots i = some r) {va : Nat}
    (hpg : space s.mem r (va / PGSIZE) = some pg) (hU : pg.user = false) :
    userLoad s.mem r va = none ∧ ∀ b, (userStore r va b).run s = .ok (-1, s) := by
  constructor
  · rw [h.userLoad_eq hr, AddrSpace.load, hpg]
    simp [hU]
  · intro b
    have hmay : ¬MayWrite s.mem r va := by
      rw [← h.mayStore_iff hr]
      rintro ⟨-, pg', hpg', hU', -⟩
      rw [hpg, Option.some.injEq] at hpg'
      rw [← hpg', hU] at hU'
      cases hU'
    have hwr : ¬Writable s.mem r va := fun hw => hmay hw.mayWrite
    obtain ⟨res, s', hrun, rfl, rfl⟩ := wp_run (show wp (userStore r va b) (fun _ => False)
        (fun res s' => res = -1 ∧ s' = s) s by
      unfold userStore
      rw [wp_userStoreFrom_fault hwr, wp_cowalloc_refuse hmay, if_pos (by decide)]
      exact ⟨rfl, rfl⟩)
    exact hrun

/-- The stack of an address space with a table. -/
lemma OnStack.passed {A₀ : AddrSpace} {argv : List (List UInt8)}
    (hst : OnStack A₀ A (n + 1) sp argv) (h : MemInv s roots ker) (hr : roots i = some r)
    (hspace : space s.mem r = A) (hpg : A₀ n = some pg) (hU : pg.user = false)
    (hnul : ∀ arg ∈ argv, 0 ∉ arg) : Passed s r ((n + 2) * PGSIZE) sp argv := by
  have htop : (n + 1 + 1) * PGSIZE = (n + 2) * PGSIZE := rfl
  have hbase : (n + 2) * PGSIZE - PGSIZE = (n + 1) * PGSIZE := by
    rw [Nat.succ_mul, Nat.add_sub_cancel]
  have hload := h.loadByte_eq hr
  rw [hspace] at hload
  obtain ⟨ptrs, hlen, hwords, hstr, hapart⟩ := hst.strings
  refine ⟨hst.aligned, by rw [hbase]; exact hst.low, by rw [← htop]; exact hst.high,
    ⟨ptrs, hlen, ?_, ?_, hapart⟩, ?_⟩
  · have hbytes : ((ptrs ++ [0]).flatMap (leBytes 8)).length = 8 * (argv.length + 1) := by
      rw [length_words, List.length_append, List.length_singleton, hlen]
    rw [run_copyin, hload, ← hbytes, readBytes_of_bytes]
    intro j hj
    exact hwords j (by rw [← hbytes]; exact hj)
  · intro x hx max hmax
    rw [run_copyinstr, hload, readStr_of_bytes (hnul x.1 (List.of_mem_zip hx).1) hmax (hstr x hx)]
  · intro va hlo hhi
    have hdiv : va / PGSIZE = n := by
      simp only [PGSIZE] at hlo hhi ⊢
      omega
    refine h.hidden hr ?_ hU
    rw [hspace, hdiv, hst.other n (by omega), hpg]

end

/-! ### `exec` -/

variable {t : Sys} {p : Fin NPROC} {file : List UInt8} {q sz : Nat} {s : Phys}
  {argv : List (List UInt8)}

/-- `exec` gets as far as building the stack: the file has been loaded into the table `q`, and the
two pages for the stack are there, up to `sz`. -/
structure ReachesStack (t : Sys) (p : Fin NPROC) (file : List UInt8) (q sz : Nat) (s : Phys) :
    Prop where
  header : (readi file 0 sizeofElfhdr).length = sizeofElfhdr
  magic : (elfOf file).magic = ELF_MAGIC
  runs : ∃ tf s₁ n s₂, (t.proc p).trapframe = some tf ∧
    (procPagetable tf).run t.phys = .ok (some q, s₁) ∧
    (execSegments q file (elfOf file).phnum ((elfOf file).phoff % 2 ^ 32) 0).run s₁
      = .ok ((n, true), s₂) ∧
    (uvmalloc q (pgroundup n) ((pgroundup n + 2 * PGSIZE) % 2 ^ 64) PTE_W).run s₂ = .ok (sz, s)
  size : sz ≠ 0

/-- From there on `exec` fails only if the arguments do not go on the stack. -/
lemma ReachesStack.wp_exec (h : ReachesStack t p file q sz s) {C : Prop}
    (hargs : wp (execArgs q argv sz) (fun _ => True) (fun res _ => res.2 ≠ none ↔ C) s) :
    wp (exec p (some file) argv) (fun _ => True) (fun res _ => res ≠ -1 ↔ C) t := by
  obtain ⟨tf, s₁, n, s₂, htf, hrun₁, hrun₂, hrun₃⟩ := h.runs
  have hmagic := h.magic
  unfold elfOf at hrun₂ hmagic
  unfold exec
  rw [wp_ite]
  refine ⟨fun hc => absurd h.header hc, fun _ => ?_⟩
  rw [wp_ite]
  refine ⟨fun hc => absurd hmagic hc, fun _ => ?_⟩
  simp only [wp_bind, wp_getProc, htf, wp_deref_some, wp_onPhys, wp_of_run hrun₁]
  unfold execImage
  rw [wp_bind, Sys.setPhys_phys, wp_of_run hrun₂]
  simp only [wp_execStack]
  rw [wp_of_run hrun₃, if_neg h.size]
  refine wp_imp hargs ?_
  rintro ⟨sz', _ | sp⟩ s₃ hres
  · rw [wp_bind]
    refine wp_imp (wp_true _) fun _ _ _ => ?_
    exact ⟨fun hc => absurd rfl hc, fun hC => absurd rfl (hres.mpr hC)⟩
  · simp only [wp_bind]
    refine wp_imp (wp_true _) fun _ _ _ => wp_imp (wp_true _) fun _ _ _ =>
      wp_imp (wp_true _) fun _ _ _ => wp_imp (wp_true _) fun _ _ _ =>
      wp_imp (wp_true _) fun _ _ _ => wp_imp (wp_true _) fun _ _ _ => ?_
    exact ⟨fun _ => hres.mp (by simp), fun _ => by omega⟩

/-- The image before the arguments are pushed. -/
lemma SysInv.built_of_reaches (h : SysInv t) (hreach : ReachesStack t p file q sz s) :
    ∃ (roots : TableId → Option Nat) (ker : Nat → Option Holder) (s₀ : Phys) (A : AddrSpace)
      (n : Nat),
      roots none = some q ∧ sz = (n + 2) * PGSIZE ∧
      Built s₀ s roots ker none q (A.grow n (n + 2) PTE_W) ∧
      LaidOut (A.grow n (n + 2) PTE_W) (n + 2) := by
  obtain ⟨ker, hmem, -⟩ := h.mem
  obtain ⟨tf, s₁, n, s₂, -, hrun₁, hrun₂, hrun₃⟩ := hreach.runs
  have hspec₁ := procPagetable_spec (E := fun _ => True) hmem (i := none) rfl tf
  rw [wp_of_run hrun₁] at hspec₁
  obtain ⟨-, ⟨hc, -⟩ | ⟨_, hq', h1, htable, -⟩⟩ := hspec₁
  · cases hc
  rw [Option.some.injEq] at hq'
  subst hq'
  have hq : update t.roots none (some q) none = some q := update_self ..
  have hspec₂ : wp (execSegments q file (elfOf file).phnum ((elfOf file).phoff % 2 ^ 32) 0)
      (fun _ => True) _ s₁ := execSegments_spec hq (.empty h1 hq htable.user) laid_empty
  rw [wp_of_run hrun₂] at hspec₂
  obtain ⟨hc, -⟩ | ⟨phs, A, -, -, -, h2, hlaid2⟩ := hspec₂
  · cases hc
  have hspec₃ := uvmalloc_stack (E := fun _ => True) hq h2 hlaid2
  rw [wp_of_run hrun₃] at hspec₃
  obtain ⟨hc, -⟩ | ⟨hsz, h3, hlaid3⟩ := hspec₃
  · exact absurd hc hreach.size
  · exact ⟨_, ker, s₁, A, pages n, hq, hsz, h3, hlaid3⟩

omit [Layout] in
/-- The pages of the stack: a guard page and a page that the process may write. -/
lemma stack_pages (A : AddrSpace) (n : Nat) :
    ((A.grow n (n + 2) PTE_W).hide n) n = some { zeroPage PTE_W with user := false } ∧
      ((A.grow n (n + 2) PTE_W).hide n) (n + 1) = some (zeroPage PTE_W) := by
  unfold AddrSpace.hide AddrSpace.grow
  constructor
  · rw [update_self, if_pos (by omega), Option.map_some]
  · rw [update_of_ne (by omega), if_pos (by omega)]

omit [Layout] in
/-- The stack of an image, which ends at `(n + 2) * PGSIZE`. -/
lemma refStack_image (A : AddrSpace) (hn : n + 2 ≤ NUSER) (hargc : argv.length < MAXARG)
    (hlen : ∀ arg ∈ argv, arg.length < PGSIZE) :
    (Fits argv → ∃ sp A', refStack argv ((n + 2) * PGSIZE)
        ((A.grow n (n + 2) PTE_W).hide n) = some (sp, A') ∧
      OnStack ((A.grow n (n + 2) PTE_W).hide n) A' (n + 1) sp argv) ∧
    (¬Fits argv → refStack argv ((n + 2) * PGSIZE) ((A.grow n (n + 2) PTE_W).hide n) = none) := by
  refine refStack_spec (Nat.succ_pos n) ?_ (stack_pages A n).2 rfl (by decide) hargc hlen
  have := NUSER_lt
  simp only [PGSIZE, MAXVA]
  omega

/-- An `exec` that reaches the stack succeeds exactly if the arguments fit. -/
lemma SysInv.exec_succeeds_iff (h : SysInv t) (hargc : argv.length < MAXARG)
    (hlen : ∀ arg ∈ argv, arg.length < PGSIZE) (hreach : ReachesStack t p file q sz s) :
    wp (exec p (some file) argv) (fun _ => True) (fun res _ => res ≠ -1 ↔ Fits argv) t := by
  obtain ⟨roots, ker, s₀, A, n, hq, hsz, hbuilt, hlaid⟩ := h.built_of_reaches hreach
  refine hreach.wp_exec (wp_imp (execArgs_spec hq hsz hbuilt hlaid) ?_)
  obtain ⟨hyes, hno⟩ := refStack_image A hlaid.le hargc hlen
  rw [hsz]
  rintro ⟨_, osp⟩ s' ⟨-, ⟨rfl, href, -⟩ | ⟨sp, A', rfl, href, -⟩⟩
  · refine iff_of_false (fun hc => hc rfl) fun hfit => ?_
    obtain ⟨sp, A', hsome, -⟩ := hyes hfit
    rw [href] at hsome
    cases hsome
  · refine iff_of_true nofun ?_
    by_contra hfit
    rw [hno hfit] at href
    cases href

/-- `exec` passes its arguments: if it gets as far as building the stack, it succeeds exactly if
they fit in the stack page, and the process then finds them there. -/
theorem exec_passes_arguments (h : SysInv t) (hlive : (t.proc p).state ≠ .unused)
    (hargc : argv.length < MAXARG) (hlen : ∀ arg ∈ argv, arg.length < PGSIZE)
    (hnul : ∀ arg ∈ argv, 0 ∉ arg) (hreach : ReachesStack t p file q sz s) :
    ∃ res t', (exec p (some file) argv).run t = .ok (res, t') ∧ (res ≠ -1 ↔ Fits argv) ∧
      (res ≠ -1 → res = argv.length ∧ ∃ r tf, (t'.proc p).pagetable = some r ∧
        (t'.proc p).trapframe = some tf ∧
        Mem.leNat t'.phys.mem (tf + trapframeSp) 8 = Mem.leNat t'.phys.mem (tf + trapframeA1) 8 ∧
        Passed t'.phys r (t'.proc p).sz (Mem.leNat t'.phys.mem (tf + trapframeA1) 8) argv) := by
  obtain ⟨res, t', hrun, hexec, hiff⟩ :=
    wp_run (wp_also (h.exec_spec (E := fun _ => False) hlive (some file) argv)
      (h.exec_succeeds_iff hargc hlen hreach))
  refine ⟨res, t', hrun, hiff, fun hres => ?_⟩
  obtain ⟨hc, -⟩ | ⟨f, sz', sp, A, hf, hlength, hdone⟩ := hexec
  · exact absurd hc hres
  rw [Option.some.injEq] at hf
  subst hf
  refine ⟨hlength, ?_⟩
  -- what the process finds
  obtain ⟨r, tf, hr, htf, -⟩ := hdone.inv.live (p := p) (by
    obtain ⟨q', hproc, -⟩ := hdone.table
    rw [hproc]
    exact hlive)
  obtain ⟨q', hproc, hspace⟩ := hdone.table
  have hr' : (t'.proc p).pagetable = some q' := by rw [hproc]
  rw [hr', Option.some.injEq] at hr
  subst hr
  have htf' : (t.proc p).trapframe = some tf := by
    rw [hproc] at htf
    exact htf
  obtain ⟨hA1, -, hSp⟩ := hdone.trapframe htf'
  have hsz' : (t'.proc p).sz = sz' := by rw [hproc]
  refine ⟨q', tf, hr', htf, by rw [hSp, hA1], ?_⟩
  rw [hA1, hsz']
  obtain ⟨ker, hmem, -⟩ := hdone.inv.mem
  obtain ⟨phs, n, A₀, -, -, -, hsize, hstack⟩ := hdone.image.exists_segments
  have hsmall := hdone.image.small
  rw [hsize] at hsmall hstack ⊢
  have hmem_size : PHYSTOP - KERNBASE ≤ NUSER * PGSIZE := by decide
  have hn : pages n + 2 ≤ NUSER :=
    Nat.le_of_mul_le_mul_right (hsmall.trans hmem_size) (by decide)
  obtain ⟨sp', A', hsome, hst⟩ := (refStack_image A₀ hn hargc hlen).1 (hiff.mp hres)
  rw [hstack, Option.some.injEq, Prod.mk.injEq] at hsome
  obtain ⟨rfl, rfl⟩ := hsome
  exact hst.passed hmem (i := some p) hr' hspace (stack_pages A₀ _).1 rfl hnul

/-! ### A program that is loaded -/

lemma supplied_walkaddr (r va : Nat) : Supplied Phys.free (walkaddr r va) 0 fun _ => True := by
  intro s _
  unfold walkaddr
  rw [wp_ite]
  refine ⟨fun _ => ⟨trivial, le_refl _⟩, fun hva => ?_⟩
  rw [wp_bind, wp_walk_false (not_le.mp hva)]
  cases leafAddr s.mem r (va / PGSIZE) with
  | none => exact ⟨trivial, le_refl _⟩
  | some a =>
    simp only [wp_bind, wp_ldPte]
    split_ifs <;> exact ⟨trivial, le_refl _⟩

/-- A file with one segment, of one byte at address 0; `off` is the 64-bit file offset. -/
def oneByte (off : Nat) : List UInt8 :=
  leBytes 4 ELF_MAGIC ++ List.replicate 28 0 ++ leBytes 8 sizeofElfhdr ++ List.replicate 16 0 ++
    leBytes 2 1 ++ List.replicate 6 0 ++
    -- the program header
    leBytes 4 ELF_PROG_LOAD ++ leBytes 4 6 ++ leBytes 8 off ++ List.replicate 16 0 ++ leBytes 8 1 ++
    leBytes 8 1 ++ List.replicate 8 0

/-- What the loader reads in such a file. -/
structure IsOneByte (file : List UInt8) : Prop where
  header : (readi file 0 sizeofElfhdr).length = sizeofElfhdr
  magic : (elfOf file).magic = ELF_MAGIC
  phnum : (elfOf file).phnum = 1
  phoff : (elfOf file).phoff = sizeofElfhdr
  proghdr : (readi file sizeofElfhdr sizeofProghdr).length = sizeofProghdr
  type : (Proghdr.ofBytes (readi file sizeofElfhdr sizeofProghdr)).type = ELF_PROG_LOAD
  vaddr : (Proghdr.ofBytes (readi file sizeofElfhdr sizeofProghdr)).vaddr = 0
  filesz : (Proghdr.ofBytes (readi file sizeofElfhdr sizeofProghdr)).filesz = 1
  memsz : (Proghdr.ofBytes (readi file sizeofElfhdr sizeofProghdr)).memsz = 1
  byte : (readi file ((Proghdr.ofBytes (readi file sizeofElfhdr sizeofProghdr)).off % 2 ^ 32)
    1).length = 1

omit [Layout] in
lemma isOneByte_zero : IsOneByte (oneByte 0) := by
  constructor <;> decide +kernel

omit [Layout] in
lemma isOneByte_wrap : IsOneByte (oneByte (2 ^ 32)) := by
  constructor <;> decide +kernel

/-- One byte is read in one turn. -/
lemma supplied_loadseg_one {offset : Nat} (hoff : offset < 2 ^ 32)
    (hlen : (readi file offset 1).length = 1) (va : Nat) :
    Supplied Phys.free (loadseg q va file offset 1) 0 fun res => res = 0 := by
  have hturns : (1 + PGSIZE - 1) / PGSIZE = 1 := by decide
  have hsize : (if 1 - 0 < PGSIZE then 1 - 0 else PGSIZE) = 1 := by decide
  have hstart : (offset + 0) % 2 ^ 32 = offset := Nat.mod_eq_of_lt hoff
  unfold loadseg
  rw [hturns]
  unfold loadsegFrom
  simp only [hsize, hstart]
  refine (supplied_walkaddr _ _).bind_free fun pa _ => (supplied_panicIf _ _).bind_free fun _ _ =>
    (supplied_write _).bind_free fun _ _ => ?_
  rw [if_neg (not_not_intro hlen)]
  exact supplied_pure rfl

/-- A segment of one byte takes three pages. -/
lemma supplied_execSegment_one {ph : Proghdr} (htype : ph.type = ELF_PROG_LOAD)
    (hvaddr : ph.vaddr = 0) (hfilesz : ph.filesz = 1) (hmemsz : ph.memsz = 1)
    (hlen : (readi file (ph.off % 2 ^ 32) 1).length = 1) :
    Supplied Phys.free (execSegment q file ph 0) 3 fun res => res.2 = true := by
  have hwrap : (0 + 1) % 2 ^ 64 = 1 := by decide
  have hone : 1 % 2 ^ 32 = 1 := by decide
  unfold execSegment
  rw [if_neg (not_not_intro htype), hvaddr, hfilesz, hmemsz, hwrap, hone]
  simp only [lt_irrefl, if_false, Nat.not_lt_zero, Nat.zero_mod, ne_eq, not_true_eq_false]
  refine Supplied.bind (k := 3) (l := 0) (supplied_uvmalloc q _ (k := 1) (Nat.zero_le _)
    (by decide) (by decide)) fun sz1 hsz1 => ?_
  rw [hsz1, if_neg (by decide)]
  refine (supplied_loadseg_one (Nat.mod_lt _ (by decide)) hlen 0).bind_free fun res hres => ?_
  rw [hres]
  exact supplied_pure rfl

lemma IsOneByte.supplied (h : IsOneByte file) (q : Nat) :
    Supplied Phys.free (execSegments q file (elfOf file).phnum ((elfOf file).phoff % 2 ^ 32) 0) 3
      fun res => res.2 = true := by
  have hseg := supplied_execSegment_one (q := q) h.type h.vaddr h.filesz h.memsz h.byte
  have hoff : sizeofElfhdr % 2 ^ 32 = sizeofElfhdr := by decide
  rw [h.phnum, h.phoff, hoff]
  unfold execSegments
  simp only []
  rw [if_neg (not_not_intro h.proghdr)]
  refine hseg.bind (l := 0) ?_
  rintro ⟨n, ok⟩ hok
  simp only at hok
  subst hok
  exact supplied_pure rfl

/-- With enough memory `exec` of such a file gets as far as building the stack. -/
lemma SysInv.exists_reaches (h : SysInv t) (hlive : (t.proc p).state ≠ .unused)
    (hfile : IsOneByte file) (hfree : 14 ≤ t.phys.free) :
      ∃ q sz s, ReachesStack t p file q sz s := by
  obtain ⟨ker, hmem, -⟩ := h.mem
  obtain ⟨-, tf, -, htf, -⟩ := h.live hlive
  obtain ⟨_, s₁, hrun₁, ⟨-, ⟨rfl, -⟩ | ⟨q, rfl, h1, htable, -⟩⟩, hsome, hfree1⟩ := wp_run
    ((supplied_procPagetable tf).wp (by omega)
      (procPagetable_spec (E := fun _ => False) hmem (i := none) rfl tf))
  · cases hsome
  have hq : update t.roots none (some q) none = some q := update_self ..
  have hsegs : wp (execSegments q file (elfOf file).phnum ((elfOf file).phoff % 2 ^ 32) 0)
      (fun _ => False) _ s₁ := execSegments_spec hq (.empty h1 hq htable.user) laid_empty
  obtain ⟨⟨n, ok⟩, s₂, hrun₂, ⟨hc, -⟩ | ⟨phs, A, -, -, -, h2, hlaid⟩, hok, hfree2⟩ :=
    wp_run ((hfile.supplied q).wp (by omega) hsegs)
  · rw [hok] at hc
    cases hc
  simp only at hok
  subst hok
  have hsize : pages n * PGSIZE ≤ 2 ^ 27 :=
    (h2.size_le hq hlaid.le hlaid.mapped).trans (by decide)
  have hround : pgroundup n = pages n * PGSIZE := by
    apply pgroundup_eq_pages
    simp only [PGSIZE, pages] at hsize ⊢
    omega
  set a := pgroundup n with ha
  have hwrap : (a + 2 * PGSIZE) % 2 ^ 64 = a + 2 * PGSIZE := by
    simp only [PGSIZE] at hround hsize ⊢
    omega
  have hmax : a + 2 * PGSIZE + PGSIZE ≤ MAXVA := by
    simp only [PGSIZE, MAXVA] at hround hsize ⊢
    omega
  have hstack := uvmalloc_stack (E := fun _ => False) hq h2 hlaid
  rw [← ha, hwrap] at hstack
  obtain ⟨sz, s, hrun₃, -, hsz, -⟩ := wp_run ((supplied_uvmalloc q PTE_W (k := 2)
    (Nat.le_add_right _ _) hmax (le_refl _)).wp (by omega) hstack)
  refine ⟨q, sz, s, hfile.header, hfile.magic, ⟨tf, s₁, n, s₂, htf, hrun₁, hrun₂, ?_⟩, ?_⟩
  · rw [← ha, hwrap]
    exact hrun₃
  · rw [hsz]
    simp only [PGSIZE]
    omega

/-- The arguments `echo` and `hi`. -/
def echoHi : List (List UInt8) := [[101, 99, 104, 111], [104, 105]]

omit [Layout] in
theorem exec_passes_arguments_echo : ∃ t p q sz s res t', @SysInv builtLayout t ∧
    (t.proc p).state ≠ .unused ∧ @ReachesStack builtLayout t p (oneByte 0) q sz s ∧
    (@exec builtLayout p (some (oneByte 0)) echoHi).run t = .ok (res, t') ∧ res = 2 := by
  let := builtLayout
  obtain ⟨t, p, im, h⟩ := exists_alone
  have hlive : (t.proc p).state ≠ .unused := by
    rw [h.state]
    nofun
  obtain ⟨q, sz, s, hreach⟩ := h.inv.exists_reaches hlive isOneByte_zero
    (le_trans (by decide) h.free)
  have hfits : Fits echoHi := by
    unfold Fits
    decide
  obtain ⟨res, t', hrun, hiff, hdone⟩ := exec_passes_arguments h.inv hlive
    (show echoHi.length < MAXARG by decide) (by decide) (by decide) hreach
  exact ⟨t, p, q, sz, s, res, t', h.inv, hlive, hreach, hrun, (hdone (hiff.mpr hfits)).1⟩

end Xv6
