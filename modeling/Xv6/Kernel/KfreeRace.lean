import Xv6.Kernel.AllocSpec

/-!
# Calls of `kfree` on one page that overlap

`kfree` takes `pageref.lock` for its test of the reference count and again for the decrement, and
`kmem.lock` for the push, so calls on different harts interleave at those points. A schedule says
whose turn it is. Calls that overlap can lose the page: it is put on the free list if and only if
one call starts after all the others have returned.
-/

namespace Xv6

open Function Lib

/-- Where a call of `kfree` stands. -/
inductive KfreePc where
  /-- Before `get_refcnt`. -/
  | test
  /-- The count was more than one: before `refcnt_dec`. -/
  | dec
  /-- The count was at most one: before the page is pushed. -/
  | push
  | done
  deriving DecidableEq, Repr

/-- Memory, and `k` calls of `kfree` on one page. -/
structure Race (k : Nat) where
  phys : Phys
  pc : Fin k → KfreePc

variable {k : Nat}

def Race.setPhys (x : Race k) (s : Phys) : Race k := { x with phys := s }

def Race.setPc (x : Race k) (i : Fin k) (l : KfreePc) : Race k :=
  { x with pc := update x.pc i l }

/-- All calls are about to start. -/
def Race.start (k : Nat) (s : Phys) : Race k where
  phys := s
  pc := fun _ => .test

variable [Layout]

/-- The next step of call `i`. -/
def Race.step (pa : Nat) (i : Fin k) : Prog (Race k) Panic Unit := do
  let x ← get
  match x.pc i with
  | .test =>
    panicIf (¬IsPage pa) .kfree
    let n ← zoom Race.phys Race.setPhys (getRefcnt pa)
    modify fun x => x.setPc i (if n > 1 then .dec else .push)
  | .dec =>
    zoom Race.phys Race.setPhys (refcntDec pa)
    modify fun x => x.setPc i .done
  | .push =>
    zoom Race.phys Race.setPhys do
      fillPage pa 1
      modify fun s =>
        { s with mem := s.mem.store pa 8 (s.freelist.headD 0), freelist := pa :: s.freelist }
    modify fun x => x.setPc i .done
  | .done => pure ()

variable {E : Panic → Prop} {pa : Nat} {x : Race k} {i : Fin k} {Q : Unit → Race k → Prop}

/-! ### The steps of one call -/

lemma Race.wp_step_test (hpa : IsPage pa) (hi : x.pc i = .test) :
    wp (Race.step pa i) E Q x ↔
      Q () (x.setPc i (if x.phys.pgRefcnt pa > 1 then .dec else .push)) := by
  unfold Race.step
  simp only [wp_bind, wp_get, hi, wp_panicIf, wp_zoom, wp_getRefcnt hpa, wp_modify, hpa,
    not_true_eq_false, false_imp_iff, true_and, not_false_eq_true, true_imp_iff]
  rfl

lemma Race.wp_step_dec (hpa : IsPage pa) (hi : x.pc i = .dec) :
    wp (Race.step pa i) E Q x ↔
      Q () ((x.setPhys (x.phys.setRefcnt pa (x.phys.pgRefcnt pa - 1))).setPc i .done) := by
  unfold Race.step
  simp only [wp_bind, wp_get, hi, wp_zoom, wp_refcntDec hpa, wp_modify]

lemma Race.wp_step_push (hi : x.pc i = .push) :
    wp (Race.step pa i) E Q x ↔ Q () ((x.setPhys (x.phys.pushed pa)).setPc i .done) := by
  unfold Race.step
  simp only [wp_bind, wp_get, hi, wp_zoom, wp_fillPage, wp_modify]
  rfl

lemma Race.wp_step_done (hi : x.pc i = .done) : wp (Race.step pa i) E Q x ↔ Q () x := by
  unfold Race.step
  simp only [wp_bind, wp_get, hi, wp_pure]

/-- Two steps of a call that is not interrupted are a call of `kfree`. -/
lemma Race.wp_kfree (hpa : IsPage pa) (hi : x.pc i = .test) :
    wp (runAll (Race.step pa) [i, i]) E Q x ↔
      wp (kfree pa) E (fun _ s => Q () ((x.setPhys s).setPc i .done)) x.phys := by
  unfold runAll runAll runAll
  rw [wp_bind, Race.wp_step_test hpa hi, wp_bind]
  by_cases hcnt : x.phys.pgRefcnt pa > 1
  · rw [wp_kfree_shared hpa hcnt, if_pos hcnt, Race.wp_step_dec hpa (update_self ..)]
    simp [Race.setPc, Race.setPhys]
  · rw [wp_kfree_last hpa (by omega), if_neg hcnt, Race.wp_step_push (update_self ..)]
    simp [Race.setPc, Race.setPhys]

/-! ### All schedules -/

/-- One call makes its test when all the others have returned. -/
def LastAlone (sched : List (Fin k)) : Prop :=
  ∃ pre i post, sched = pre ++ i :: post ∧ i ∉ pre ∧ ∀ j, j ≠ i → 2 ≤ pre.count j

section Schedules

omit [Layout]

variable {pre : List (Fin k)}

lemma lastAlone_concat :
    LastAlone (pre ++ [i]) ↔ LastAlone pre ∨ (i ∉ pre ∧ ∀ j, j ≠ i → 2 ≤ pre.count j) := by
  constructor
  · rintro ⟨p₁, j, p₂, heq, hj, hothers⟩
    rcases p₂.eq_nil_or_concat with rfl | ⟨p₂, b, rfl⟩
    · obtain ⟨rfl, hij⟩ := List.append_inj' heq rfl
      cases hij
      exact Or.inr ⟨hj, hothers⟩
    · rw [List.concat_eq_append, ← List.cons_append, ← List.append_assoc] at heq
      exact Or.inl ⟨p₁, j, p₂, (List.append_inj' heq rfl).1, hj, hothers⟩
  · rintro (⟨p₁, j, p₂, rfl, hj, hothers⟩ | ⟨hi, hothers⟩)
    · exact ⟨p₁, j, p₂ ++ [i], by simp, hj, hothers⟩
    · exact ⟨pre, i, [], rfl, hi, hothers⟩

/-- The calls that have returned. -/
def finished (pre : List (Fin k)) : Finset (Fin k) := {i | 2 ≤ pre.count i}

lemma mem_finished : i ∈ finished pre ↔ 2 ≤ pre.count i := by simp [finished]

lemma count_concat_self : (pre ++ [i]).count i = pre.count i + 1 := by simp

lemma count_concat_of_ne {j : Fin k} (h : j ≠ i) : (pre ++ [i]).count j = pre.count j := by
  simp [h.symm]

lemma finished_concat_of_ne (h : pre.count i ≠ 1) : finished (pre ++ [i]) = finished pre := by
  ext j
  rw [mem_finished, mem_finished]
  by_cases hj : j = i
  · subst hj
    rw [count_concat_self]
    omega
  · rw [count_concat_of_ne hj]

lemma card_finished_concat (h : pre.count i = 1) :
    (finished (pre ++ [i])).card = (finished pre).card + 1 := by
  have hnot : i ∉ finished pre := by
    rw [mem_finished]
    omega
  rw [← Finset.card_insert_of_notMem hnot]
  congr 1
  ext j
  rw [Finset.mem_insert, mem_finished, mem_finished]
  by_cases hj : j = i
  · subst hj
    rw [count_concat_self]
    omega
  · rw [count_concat_of_ne hj]
    exact ⟨Or.inr, fun hc => hc.resolve_left hj⟩

/-- All calls but `i` have returned. -/
lemma card_finished_of_all (hi : i ∉ pre) (hall : ∀ j, j ≠ i → 2 ≤ pre.count j) :
    (finished pre).card + 1 = k := by
  have heq : finished pre = Finset.univ.erase i := by
    ext j
    rw [mem_finished, Finset.mem_erase]
    constructor
    · rintro hj
      refine ⟨?_, Finset.mem_univ j⟩
      rintro rfl
      rw [List.count_eq_zero_of_not_mem hi] at hj
      omega
    · exact fun hj => hall j hj.1
  have hpos := i.pos
  rw [heq, Finset.card_erase_of_mem (Finset.mem_univ i), Finset.card_univ, Fintype.card_fin]
  omega

/-- Besides `i` another call has not returned. -/
lemma card_finished_of_not_all (hi : i ∉ pre) (hall : ¬∀ j, j ≠ i → 2 ≤ pre.count j) :
    (finished pre).card + 2 ≤ k := by
  push Not at hall
  obtain ⟨j, hji, hj⟩ := hall
  have hsub : finished pre ⊆ (Finset.univ.erase i).erase j := by
    intro l hl
    rw [mem_finished] at hl
    rw [Finset.mem_erase, Finset.mem_erase]
    refine ⟨?_, ?_, Finset.mem_univ l⟩
    · rintro rfl
      omega
    · rintro rfl
      rw [List.count_eq_zero_of_not_mem hi] at hl
      omega
  have hcard := Finset.card_le_card hsub
  have hmem : j ∈ Finset.univ.erase i := Finset.mem_erase.mpr ⟨hji, Finset.mem_univ j⟩
  have hpos : 0 < (Finset.univ.erase i).card := Finset.card_pos.mpr ⟨j, hmem⟩
  rw [Finset.card_erase_of_mem hmem] at hcard
  rw [Finset.card_erase_of_mem (Finset.mem_univ i), Finset.card_univ, Fintype.card_fin]
    at hcard hpos
  omega

end Schedules

/-- Where a call stands after `n` turns if its test found other references. -/
def pcShared : Nat → KfreePc
  | 0 => .test
  | 1 => .dec
  | _ => .done

/-- What holds after the turns `pre`, from the state `s`. -/
inductive RaceInv (pa : Nat) (s : Phys) (pre : List (Fin k)) (x : Race k) : Prop where
  /-- Every test so far found another reference. -/
  | shared (pc : ∀ i, x.pc i = pcShared (pre.count i))
      (ref : x.phys.pgRefcnt pa = k - (finished pre).card) (free : x.phys.freelist = s.freelist)
      (no : ¬LastAlone pre)
  /-- The test of call `i` found the last reference. -/
  | last (i : Fin k) (others : ∀ j, j ≠ i → x.pc j = .done) (yes : LastAlone pre)
      (self : (x.pc i = .push ∧ pre.count i = 1 ∧ x.phys.freelist = s.freelist) ∨
        (x.pc i = .done ∧ x.phys.freelist = pa :: s.freelist))

omit [Layout] in
lemma pc_shared_concat {pre : List (Fin k)} (hpc : ∀ i, x.pc i = pcShared (pre.count i))
    {s : Phys} {l : KfreePc} (hl : l = pcShared (pre.count i + 1)) (j : Fin k) :
    ((x.setPhys s).setPc i l).pc j = pcShared ((pre ++ [i]).count j) := by
  by_cases hj : j = i
  · subst hj
    rw [count_concat_self, ← hl]
    exact update_self ..
  · rw [count_concat_of_ne hj, ← hpc j]
    exact update_of_ne hj ..

lemma RaceInv.step (hpa : IsPage pa) {s : Phys} {pre : List (Fin k)} (h : RaceInv pa s pre x)
    (i : Fin k) :
    wp (Race.step pa i) E (fun _ x' => RaceInv pa s (pre ++ [i]) x') x := by
  cases h with
  | shared hpc href hfree hno =>
    have hpci := hpc i
    rcases hcount : pre.count i with _ | _ | n
    · -- the test
      have hi : i ∉ pre := List.count_eq_zero.mp hcount
      rw [hcount] at hpci
      rw [Race.wp_step_test hpa hpci]
      by_cases hall : ∀ j, j ≠ i → 2 ≤ pre.count j
      · have hcard := card_finished_of_all hi hall
        rw [if_neg (by omega)]
        refine .last i ?_ (lastAlone_concat.mpr (Or.inr ⟨hi, hall⟩)) (Or.inl ⟨?_, ?_, hfree⟩)
        · intro j hj
          have hdone : x.pc j = .done := by
            obtain ⟨n, hn⟩ := Nat.exists_eq_add_of_le' (hall j hj)
            rw [hpc j, hn]
            rfl
          exact (update_of_ne hj ..).trans hdone
        · exact update_self ..
        · rw [count_concat_self, hcount]
      · have hcard := card_finished_of_not_all hi hall
        rw [if_pos (by omega)]
        refine .shared (pc_shared_concat (s := x.phys) hpc (by rw [hcount]; rfl)) ?_ hfree ?_
        · rw [finished_concat_of_ne (by omega)]
          exact href
        · rw [lastAlone_concat]
          exact fun hc => hc.elim hno fun hc => hall hc.2
    · -- the decrement
      rw [hcount] at hpci
      rw [Race.wp_step_dec hpa hpci]
      refine .shared (pc_shared_concat hpc (by rw [hcount]; rfl)) ?_ hfree ?_
      · rw [card_finished_concat hcount]
        refine (Phys.pgRefcnt_setRefcnt_self ..).trans ?_
        rw [href]
        omega
      · rw [lastAlone_concat]
        refine fun hc => hc.elim hno fun hc => hc.1 (List.count_pos_iff.mp ?_)
        omega
    · -- the call has returned
      rw [hcount] at hpci
      rw [Race.wp_step_done hpci]
      refine .shared (fun j => ?_) ?_ hfree ?_
      · by_cases hj : j = i
        · subst hj
          rw [count_concat_self, hcount, hpci]
          rfl
        · rw [count_concat_of_ne hj, hpc j]
      · rw [finished_concat_of_ne (by omega)]
        exact href
      · rw [lastAlone_concat]
        refine fun hc => hc.elim hno fun hc => hc.1 (List.count_pos_iff.mp ?_)
        omega
  | last i₀ hothers hyes hself =>
    have hyes' : LastAlone (pre ++ [i]) := lastAlone_concat.mpr (Or.inl hyes)
    by_cases hi : i = i₀
    · subst hi
      obtain ⟨hpush, -, hfree⟩ | ⟨hdone, hfree⟩ := hself
      · rw [Race.wp_step_push hpush]
        refine .last i (fun j hj => ?_) hyes' (Or.inr ⟨update_self .., ?_⟩)
        · exact (update_of_ne hj ..).trans (hothers j hj)
        · show pa :: x.phys.freelist = pa :: s.freelist
          rw [hfree]
      · rw [Race.wp_step_done hdone]
        exact .last i hothers hyes' (Or.inr ⟨hdone, hfree⟩)
    · rw [Race.wp_step_done (hothers i hi)]
      refine .last i₀ hothers hyes' ?_
      rw [count_concat_of_ne (Ne.symm hi)]
      exact hself

/-- In every schedule in which all calls return, the page is on the free list once if and only if
one call starts after all the others have returned. -/
theorem kfree_once_iff_lastAlone (hpa : IsPage pa) {s : Phys} (href : s.pgRefcnt pa = k)
    (hnot : pa ∉ s.freelist) {sched : List (Fin k)} (hall : ∀ i, 2 ≤ sched.count i) :
    ∃ x, (runAll (Race.step pa) sched).run (Race.start k s) = .ok ((), x) ∧
      (∀ i, x.pc i = .done) ∧ (x.phys.freelist.count pa = 1 ↔ LastAlone sched) := by
  have h0 : RaceInv pa s [] (Race.start k s) := by
    refine .shared (fun _ => rfl) ?_ rfl ?_
    · show s.pgRefcnt pa = k - (finished []).card
      simpa [finished] using href
    · rintro ⟨pre, i, post, heq, -⟩
      simp at heq
  have hrun : wp (runAll (Race.step pa) sched) (fun _ => False)
      (fun _ x => RaceInv pa s sched x) (Race.start k s) :=
    wp_runAll_done (R := RaceInv pa s) (fun i _ _ h => h.step hpa i) h0
  obtain ⟨_, x, hx, hinv⟩ := wp_run hrun
  refine ⟨x, hx, ?_⟩
  cases hinv with
  | shared hpc _ hfree hno =>
    refine ⟨fun i => ?_, iff_of_false ?_ hno⟩
    · obtain ⟨n, hn⟩ := Nat.exists_eq_add_of_le' (hall i)
      rw [hpc i, hn]
      rfl
    · rw [hfree, List.count_eq_zero_of_not_mem hnot]
      exact Nat.zero_ne_one
  | last i hothers hyes hself =>
    obtain ⟨-, hone, -⟩ | ⟨hdone, hfree⟩ := hself
    · exact absurd (hall i) (by omega)
    · refine ⟨fun j => ?_, iff_of_true ?_ hyes⟩
      · by_cases hj : j = i
        · rw [hj, hdone]
        · exact hothers j hj
      · rw [hfree, List.count_cons_self, List.count_eq_zero_of_not_mem hnot]

/-- A machine with a page that two tables map. -/
def sharedPage : Phys where
  mem := fun _ => 0
  freelist := []
  ref := fun _ => 2
  nomem := 0

omit [Layout] in
/-- If both tests come before both decrements, nobody pushes the page. -/
theorem kfree_race_loses_page :
    ∃ x, (runAll (@Race.step 2 builtLayout 0x80243000) [0, 1, 0, 1]).run (Race.start 2 sharedPage)
        = .ok ((), x) ∧
      (∀ i, x.pc i = .done) ∧ x.phys.freelist.count 0x80243000 = 0 :=
  ⟨_, rfl, by decide, rfl⟩

omit [Layout] in
theorem kfree_once_iff_lastAlone_serial :
    ∃ x, (runAll (@Race.step 2 builtLayout 0x80243000) [0, 0, 1, 1]).run (Race.start 2 sharedPage)
        = .ok ((), x) ∧ x.phys.freelist.count 0x80243000 = 1 := by
  let := builtLayout
  have hpage : IsPage 0x80243000 := by decide
  have hall : ∀ i : Fin 2, 2 ≤ [0, 0, 1, 1].count i := by decide
  obtain ⟨x, hx, -, hiff⟩ := kfree_once_iff_lastAlone hpage (s := sharedPage) rfl (by decide) hall
  exact ⟨x, hx, hiff.mpr ⟨[0, 0], 1, [1], rfl, by decide, by decide⟩⟩

end Xv6
