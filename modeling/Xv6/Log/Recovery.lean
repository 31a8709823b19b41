import Xv6.Log.Contents

/-!
# Crash atomicity

At every moment the disk holds the contents after the committed transactions, up to what the log
still has to install. So a crash loses only what was not committed, and the recovery restores the
rest however often it is cut.
-/

namespace Xv6.Log

open Function Lib

variable {n : Nat} {g : Geometry} {s s' : St n} {e : Event n} {t : Fin n} {d : Nat → Block}
  {tr : List (Event n)} {c u : Nat → Block} {b tail : Nat} {v : Block}

/-! ### The invariant -/

/-- Every cached buffer is unused and agrees with the disk. -/
def Clean (s : St n) : Prop := ∀ b, s.bread b = { data := s.disk b }

/-- What holds in each phase. -/
def PhaseInv (g : Geometry) (c u : Nat → Block) (s : St n) : Phase → Prop
  | .booting => u = c ∧ Clean s
  | .recovering tail => u = c ∧ Clean s ∧ s.lh = readHead (s.disk g.start) ∧
      ∀ i b, i < tail → s.lh[i]? = some b → s.disk b = c b
  | .clearing => u = c ∧ Clean s ∧ s.lh = [] ∧ ∀ b, g.Home b → s.disk b = c b
  | .recovered => u = c ∧ Clean s ∧ s.lh = [] ∧ (∀ b, g.Home b → s.disk b = c b) ∧
      readHead (s.disk g.start) = []
  | .up => Cached g u s ∧ Staged g c u s
  | .panicked _ => True

structure Inv (g : Geometry) (c u : Nat → Block) (s : St n) : Prop where
  control : Control s
  recoverable : Recoverable g s.disk c
  phase : PhaseInv g c u s s.phase

lemma Inv.cached (h : Inv g c u s) (hp : s.phase = .up) : Cached g u s := by
  have hphase := h.phase
  rw [hp] at hphase
  exact hphase.1

lemma Inv.staged (h : Inv g c u s) (hp : s.phase = .up) : Staged g c u s := by
  have hphase := h.phase
  rw [hp] at hphase
  exact hphase.2

lemma Inv.of_up (hs : Control s) (hd : Recoverable g s.disk c) (hp : s.phase = .up)
    (hc : Cached g u s) (hst : Staged g c u s) : Inv g c u s := by
  refine ⟨hs, hd, ?_⟩
  rw [hp]
  exact ⟨hc, hst⟩


/-- A block write that commits nothing. -/
lemma Inv.of_bwrite (hb : ¬ Commits g b v) (h : Inv g (committed g d tr) (current g d tr) s) :
    Inv g (committed g d (.bwrite b v :: tr)) (current g d (.bwrite b v :: tr)) s := by
  unfold current committed at h ⊢
  rwa [ledger_bwrite hb]

lemma not_commits_of_ne (hb : b ≠ g.start) : ¬ Commits g b v := fun h => hb h.1

lemma not_commits_of_empty (hv : readHead v = []) : ¬ Commits g b v := fun h => h.2 hv

lemma Clean.homeBuf (h : Clean s) : s.homeBuf g tail b = { data := s.disk (g.slot tail) } := by
  unfold St.homeBuf
  rw [h, h]

lemma Clean.headBuf (h : Clean s) (lh : List Nat) :
    s.headBuf g lh = { data := writeHead (s.disk g.start) lh } := by
  unfold St.headBuf
  rw [h]

/-- A block is written while every buffer is unused. -/
lemma Clean.bwrite (h : Clean s) (b : Nat) (v : Block) : Clean (s.bwrite b { data := v }) := by
  intro x
  rw [St.bwrite_bread, St.bwrite_disk]
  split
  · rfl
  · exact h x

lemma Clean.setBuf (h : Clean s) (b : Nat) : Clean (s.setBuf b (s.bread b)) := by
  intro x
  rw [St.setBuf_bread]
  split
  · rename_i hx
    rw [hx]
    exact h b
  · exact h x

/-- The recovery installs a block. -/
lemma Inv.recoverInstall (h : Inv g c u s) (hp : s.phase = .recovering tail)
    (hb : s.lh[tail]? = some b) (hs' : Control { (s.setBuf (g.slot tail)
      (s.bread (g.slot tail))).bwrite b (s.homeBuf g tail b) with
        phase := .recovering (tail + 1) }) :
    Inv g c u { (s.setBuf (g.slot tail) (s.bread (g.slot tail))).bwrite b (s.homeBuf g tail b) with
      phase := .recovering (tail + 1) } := by
  have hphase := h.phase
  rw [hp] at hphase
  obtain ⟨hu, hclean, hlh, hdone⟩ := hphase
  have hhome : g.Home b := h.recoverable.area b (hlh ▸ List.mem_of_getElem? hb)
  have hcopy : s.disk (g.slot tail) = c b := h.recoverable.copy tail b (hlh ▸ hb)
  rw [hclean.homeBuf, hcopy] at hs' ⊢
  refine ⟨hs', h.recoverable.install hhome, hu, (hclean.setBuf _).bwrite b _, ?_, ?_⟩
  · rw [St.bwrite_lh, St.setBuf_lh, hlh, St.bwrite_disk, if_neg hhome.ne_start.symm]
    rfl
  · intro i x hi hx
    rw [St.bwrite_disk]
    split
    · rename_i hxb
      rw [hxb]
    · rename_i hxb
      rcases Nat.lt_succ_iff_lt_or_eq.mp hi with hi | hi
      · exact hdone i x hi hx
      · rw [hi] at hx
        exact (hxb (Option.some.inj (hx.symm.trans hb))).elim

lemma PhaseInv.recovered (hclean : Clean s) (hlh : s.lh = []) (hs : Control s)
    (hboot : s.phase.Boots) (hhome : ∀ b, g.Home b → s.disk b = c b)
    (hempty : readHead (s.disk g.start) = []) :
    Cached g c { s with phase := .up } ∧ Staged g c c { s with phase := .up } := by
  refine ⟨⟨?_, ?_, ?_, ?_⟩, ⟨?_, ?_, fun _ => hempty, ?_⟩⟩
  · intro b hb
    exact (congrArg Buf.data (hclean b)).trans (hhome b hb)
  · exact fun b => .inl (congrArg Buf.data (hclean b))
  · intro b hb
    have hmod : (s.bread b).modified = true := hb
    rw [hclean b] at hmod
    contradiction
  · simp [hlh]
  · simp [hlh]
  · simpa [hlh] using g.pos
  · intro t
    apply Progress.of_not_commits
    simp [(hs.boots hboot).2 t]

/-! ### Commits -/

lemma setBuf_bread_self (a b : Nat) : (s.setBuf b (s.bread b)).bread a = s.bread a := by
  rw [St.setBuf_bread]
  split
  · rename_i hab
    rw [hab]
  · rfl

section

variable (hc : Cached g u s) (hst : Staged g c u s) (hs : Control s)
include hc hst hs

section

variable (hp : s.phase = .up)
include hp

lemma Inv.writeLog (hd : Recoverable g s.disk c) (hpc : s.pc t = .writeLog tail)
    (hb : s.lh[tail]? = some b)
    (hs' : Control (((s.setBuf b (s.bread b)).bwrite (g.slot tail) (s.logBuf g tail b)).setPc t
      (.writeLog (tail + 1)))) :
    Inv g c u (((s.setBuf b (s.bread b)).bwrite (g.slot tail) (s.logBuf g tail b)).setPc t
      (.writeLog (tail + 1))) := by
  have ht : (s.pc t).Commits := by simp [hpc]
  have htail : tail + 1 < g.size := by
    have hlt := (List.getElem?_eq_some_iff.mp hb).1
    have hsize := hst.size
    omega
  have hempty := hst.empty hs ht (by simp [hpc])
  have hprogress := hst.progress t
  rw [hpc] at hprogress
  have hdisk : ∀ a, (((s.setBuf b (s.bread b)).bwrite (g.slot tail) (s.logBuf g tail b)).setPc t
      (.writeLog (tail + 1))).disk a = if a = g.slot tail then (s.bread b).data else s.disk a :=
    fun a => St.bwrite_disk _ _ _ _
  refine .of_up hs' (hd.writeSlot hempty htail) hp
    (hc.bwrite (b := g.slot tail) (x := s.logBuf g tail b) hs ht ?_ hdisk (.inl rfl) rfl
      (fun h => absurd rfl (h.ne_slot htail)) rfl)
    (hst.move hs ht rfl (.inl rfl) ?_ ⟨hprogress.1, ?_⟩)
  · intro a
    rw [St.setPc_bread, St.bwrite_bread, setBuf_bread_self]
  · intro _
    rw [hdisk, if_neg Geometry.slot_ne_start.symm]
    exact hempty
  · intro i x hi hx
    rw [hdisk]
    split
    · rename_i hit
      have hxb : b = x := Option.some.inj (hb.symm.trans (Geometry.slot_inj.mp hit ▸ hx))
      rw [hxb]
      exact hc.view x (hst.area x (List.mem_of_getElem? hx))
    · rename_i hit
      have hne : i ≠ tail := fun heq => hit (heq ▸ rfl)
      exact hprogress.2 i x (by omega) hx

/-- The write of the header commits the transaction. -/
lemma Inv.writeHead (hpc : s.pc t = .writeHead)
    (hs' : Control ((s.bwrite g.start (s.headBuf g s.lh)).setPc t (.install 0))) :
    Commits g g.start (s.headBuf g s.lh).data ∧
      Inv g u u ((s.bwrite g.start (s.headBuf g s.lh)).setPc t (.install 0)) := by
  have ht : (s.pc t).Commits := by simp [hpc]
  have hprogress := hst.progress t
  rw [hpc] at hprogress
  have hread : readHead (s.headBuf g s.lh).data = s.lh := readHead_writeHead _ _
  refine ⟨⟨rfl, by rw [hread]; exact hprogress.1⟩, .of_up hs' ?_ hp
    (hc.bwrite hs ht (fun a => ?_) (fun a => St.bwrite_disk _ _ _ _) (.inl rfl) rfl
      (fun h => absurd rfl h.ne_start) rfl)
    (hst.move hs ht rfl (.inl rfl) (by simp) ⟨rfl, ?_, ?_⟩)⟩
  · apply Recoverable.writeHead _ hprogress.2 hst.area hst.size
    intro a ha hmem
    rw [← hc.disk_eq hs ht hmem]
    exact hc.view a ha
  · rw [St.setPc_bread, St.bwrite_bread]
  · rw [St.setPc_disk, St.bwrite_disk, if_pos rfl]
    exact hread
  · intro i x hi
    exact absurd hi (Nat.not_lt_zero i)

lemma Inv.install (hd : Recoverable g s.disk c) (hpc : s.pc t = .install tail)
    (hb : s.lh[tail]? = some b)
    (hs' : Control (((s.setBuf (g.slot tail) (s.bread (g.slot tail))).bwrite b
      { s.homeBuf g tail b with pins := (s.bread b).pins - 1 }).setPc t (.install (tail + 1)))) :
    Inv g c u (((s.setBuf (g.slot tail) (s.bread (g.slot tail))).bwrite b
      { s.homeBuf g tail b with pins := (s.bread b).pins - 1 }).setPc t (.install (tail + 1))) := by
  have ht : (s.pc t).Commits := by simp [hpc]
  have hprogress := hst.progress t
  rw [hpc] at hprogress
  obtain ⟨hu, hlh, hdone⟩ := hprogress
  have hhome : g.Home b := hst.area b (List.mem_of_getElem? hb)
  have hdata : (s.homeBuf g tail b).data = c b := by
    have hslot : g.slot tail ∉ s.lh := by
      intro hmem
      have hlt := (List.getElem?_eq_some_iff.mp hb).1
      have hsize := hst.size
      exact (hst.area _ hmem).ne_slot (by omega) rfl
    rw [← hd.copy tail b (hlh ▸ hb), ← hc.disk_eq hs ht hslot]
    rfl
  have hdisk : ∀ a, (((s.setBuf (g.slot tail) (s.bread (g.slot tail))).bwrite b
      { s.homeBuf g tail b with pins := (s.bread b).pins - 1 }).setPc t
        (.install (tail + 1))).disk a = if a = b then c b else s.disk a := by
    intro a
    rw [← hdata]
    exact St.bwrite_disk _ _ _ _
  refine .of_up hs' ?_ hp
    (hc.bwrite (b := b) (x := { s.homeBuf g tail b with pins := (s.bread b).pins - 1 }) hs ht
      (fun a => ?_) (fun a => St.bwrite_disk _ _ _ _) (.inl rfl) rfl (fun _ => hu ▸ hdata) rfl)
    (hst.move hs ht rfl (.inl rfl) (by simp) ⟨hu, ?_, ?_⟩)
  · have hinstall := hd.install hhome
    rw [← hdata] at hinstall
    exact hinstall
  · rw [St.setPc_bread, St.bwrite_bread, setBuf_bread_self]
  · rw [hdisk, if_neg hhome.ne_start.symm]
    exact hlh
  · intro i x hi hx
    rw [hdisk]
    split
    · rename_i hxb
      rw [hxb]
    · rename_i hxb
      rcases Nat.lt_succ_iff_lt_or_eq.mp hi with hi | hi
      · exact hdone i x hi hx
      · rw [hi] at hx
        exact (hxb (Option.some.inj (hx.symm.trans hb))).elim

lemma Inv.clear (hd : Recoverable g s.disk c) (hpc : s.pc t = .clear)
    (hs' : Control { (s.bwrite g.start (s.headBuf g [])).setPc t .finish with lh := [] }) :
    Inv g c u { (s.bwrite g.start (s.headBuf g [])).setPc t .finish with lh := [] } := by
  have ht : (s.pc t).Commits := by simp [hpc]
  have hprogress := hst.progress t
  rw [hpc] at hprogress
  obtain ⟨hu, hlh, hdone⟩ := hprogress
  have hread : readHead (s.headBuf g []).data = [] := readHead_writeHead _ _
  refine .of_up hs' ?_ hp
    (hc.bwrite (b := g.start) (x := s.headBuf g []) hs ht (fun a => St.bwrite_bread _ _ _ _)
      (fun a => St.bwrite_disk _ _ _ _) (.inr ?_) rfl (fun h => absurd rfl h.ne_start) rfl)
    (hst.move hs ht rfl (.inr rfl) (fun _ => ?_) rfl)
  · apply Recoverable.writeHead _ (by simp) (by simp) (by simpa using g.pos)
    intro a ha _
    by_cases hmem : a ∈ s.lh
    · exact hdone a hmem
    · exact hd.home a ha (hlh ▸ hmem)
  · intro a _
    by_cases hmem : a ∈ s.lh
    · rw [hc.view a (hst.area a hmem), hdone a hmem, hu]
    · exact hc.disk_eq hs ht hmem
  · have hself : update s.disk g.start (s.headBuf g []).data g.start =
        (s.headBuf g []).data := update_self _ _ _
    exact (congrArg readHead hself).trans hread

lemma Inv.finish (hd : Recoverable g s.disk c) (hpc : s.pc t = .finish)
    (hs' : Control { s.setPc t .idle with committing := false }) :
    Inv g c u { s.setPc t .idle with committing := false } := by
  have ht : (s.pc t).Commits := by simp [hpc]
  have hlh := hst.progress t
  rw [hpc] at hlh
  refine .of_up hs' hd hp (hc.move (fun _ => rfl) rfl rfl (fun _ => .inr hlh) ?_)
    (hst.quiet rfl ?_ ?_ hst.area hst.size)
  · intro b t' hmod
    rw [hc.not_modified hs ht] at hmod
    contradiction
  · intro t' ht'
    have heq := hs.excl t' t ht'.commits ht
    rw [heq, hpc] at ht'
    exact ht'
  · intro t' ht'
    have := hs'.commits t' ht'
    contradiction

/-- The thread that commits moves on between two loops. -/
lemma Inv.moveOn {l : Pc} (hd : Recoverable g s.disk c) (ht : (s.pc t).Commits)
    (hl : ¬ l.Installs → ¬ (s.pc t).Installs) (hprogress : Progress g c u s.disk s.lh l)
    (hs' : Control (s.setPc t l)) : Inv g c u (s.setPc t l) := by
  refine .of_up hs' hd hp (hc.move (fun _ => rfl) rfl rfl .inl ?_)
    (hst.move hs ht rfl (.inl rfl) (fun h => hst.empty hs ht (hl h)) hprogress)
  intro b t' hmod
  rw [hc.not_modified hs ht] at hmod
  contradiction

end

end

/-! ### Runs -/

lemma Inv.step (h : Inv g (committed g d tr) (current g d tr) s) (hstep : Step g s e s') :
    Inv g (committed g d (e :: tr)) (current g d (e :: tr)) s' := by
  have hs := h.control
  have hs' := hs.step hstep
  have hd := h.recoverable
  have hphase := h.phase
  cases hstep with
  | readHead hp =>
    rw [hp] at hphase
    obtain ⟨hu, hclean⟩ := hphase
    refine ⟨hs', hd, hu, hclean.setBuf _, ?_, fun i _ hi => absurd hi (Nat.not_lt_zero i)⟩
    exact congrArg (fun x => Log.readHead x.data) (hclean g.start)
  | recoverInstall tail b hp hb =>
    have hlh : s.lh = Log.readHead (s.disk g.start) := by
      rw [hp] at hphase
      exact hphase.2.2.1
    have hhome := hd.area b (hlh ▸ List.mem_of_getElem? hb)
    exact (h.recoverInstall hp hb hs').of_bwrite (not_commits_of_ne hhome.ne_start)
  | recoverInstalled hp =>
    rw [hp] at hphase
    obtain ⟨hu, hclean, hlh, hdone⟩ := hphase
    refine ⟨hs', hd, hu, hclean, rfl, ?_⟩
    intro b hb
    by_cases hmem : b ∈ s.lh
    · obtain ⟨i, hi, hib⟩ := List.getElem_of_mem hmem
      exact hdone i b hi (List.getElem?_eq_some_iff.mpr ⟨hi, hib⟩)
    · exact hd.home b hb (hlh ▸ hmem)
  | recoverClear hp =>
    rw [hp] at hphase
    obtain ⟨hu, hclean, hlh, hhome⟩ := hphase
    rw [hlh, hclean.headBuf] at hs' ⊢
    refine Inv.of_bwrite (not_commits_of_empty (readHead_writeHead _ _)) ⟨hs', ?_, ?_⟩
    · exact .writeHead (fun b hb _ => hhome b hb) (by simp) (by simp) (by simpa using g.pos)
    · refine ⟨hu, hclean.bwrite g.start _, hlh, ?_, ?_⟩
      · intro b hb
        rw [St.bwrite_disk, if_neg hb.ne_start]
        exact hhome b hb
      · rw [St.bwrite_disk, if_pos rfl]
        exact readHead_writeHead _ _
  | recovered hp =>
    have hboot : s.phase.Boots := by simp [hp]
    rw [hp] at hphase
    obtain ⟨hu, hclean, hlh, hhome, hempty⟩ := hphase
    have hup := PhaseInv.recovered hclean hlh hs hboot hhome hempty
    refine ⟨hs', hd, ?_⟩
    have hcur : current g d (.recovered :: tr) = committed g d tr := hu
    rw [hcur]
    exact hup
  | crash => exact ⟨hs', hd, rfl, fun _ => rfl⟩
  | recycle b hp hown hpins =>
    have hst := h.staged hp
    exact .of_up hs' hd hp ((h.cached hp).recycle hown hpins)
      ⟨hst.area, hst.size, hst.header, hst.progress⟩
  | bread t b hp hpc hfree =>
    have hst := h.staged hp
    refine .of_up hs' hd hp ((h.cached hp).lock fun hmod => ?_)
      ⟨hst.area, hst.size, hst.header, hst.progress⟩
    obtain ⟨-, t', hown, -⟩ := (h.cached hp).modified b hmod
    exact absurd (hfree.symm.trans hown) (by simp)
  | brelse t b hp hown hmod =>
    have hst := h.staged hp
    exact .of_up hs' hd hp ((h.cached hp).lock fun h => absurd (hmod.symm.trans h) (by simp))
      ⟨hst.area, hst.size, hst.header, hst.progress⟩
  | beginOp t hp hpc hcommit =>
    have hst := h.staged hp
    refine .of_up hs' hd hp ((h.cached hp).move (fun _ => rfl) rfl rfl .inl ?_)
      (hst.quiet rfl ?_ ?_ hst.area hst.size)
    · intro b t' _ _ ht'
      show ((s.setPc t (.inOp ∅)).pc t').InOp
      rw [St.setPc_pc]
      split
      · trivial
      · exact ht'
    · intro t' ht'
      exact absurd (hcommit.symm.trans (hs.commits t' ht'.commits)) (by simp)
    · intro t' ht'
      exact absurd (hcommit.symm.trans (hs'.commits t' ht')) (by simp)
  | modify t b v hp hpc hown hhome =>
    have hst := h.staged hp
    refine .of_up hs' hd hp ?_ (hst.quiet rfl (fun t' ht' => hs.not_commits hpc t' ht'.commits)
      (hs.not_commits hpc) hst.area hst.size)
    rw [current_modify]
    exact (h.cached hp).modify hpc hown hhome
  | logWrite t logged b hp hpc hown hhome hsize hout =>
    have hst := h.staged hp
    have hin : (s.pc t).InOp := by simp [hpc]
    refine .of_up hs' (logWrite_disk (s := s) ▸ hd) (logWrite_phase.trans hp)
      ((h.cached hp).logWrite hs hpc)
      (hst.quiet logWrite_disk (fun t' ht' => hs.not_commits hin t' ht'.commits) ?_ ?_ ?_)
    · intro t' ht'
      have hset := hs'.commits t' ht'
      rw [logWrite_committing, hs.not_committing hin] at hset
      contradiction
    · rw [logWrite_lh]
      split
      · exact hst.area
      · intro x hx
        rcases List.mem_append.mp hx with hx | hx
        · exact hst.area x hx
        · exact List.mem_singleton.mp hx ▸ hhome
    · unfold St.TooBig at hsize
      rw [logWrite_lh]
      split
      · exact hst.size
      · simp only [List.length_append, List.length_cons, List.length_nil]
        omega
  | logWriteTooBig | logWriteOutside | endOpPanic => exact ⟨hs', hd, trivial⟩
  | endOp t hp hpc hmod hcommit =>
    have hst := h.staged hp
    refine .of_up hs' hd hp ((h.cached hp).move (fun _ => rfl) rfl rfl .inl ?_)
      (hst.quiet rfl (fun t' ht' => hs.not_commits hpc t' ht'.commits) ?_ hst.area hst.size)
    · intro b t' hm hown ht'
      show ((s.setPc t .idle).pc t').InOp
      rw [St.setPc_pc]
      split
      · rename_i htt
        rw [htt] at hown
        exact absurd ((hmod b hown).symm.trans hm) (by simp)
      · exact ht'
    · intro t' ht'
      exact absurd (hcommit.symm.trans (hs'.commits t' ht')) (by simp)
  | endOpCommit t hp hpc hmod hcommit =>
    have hst := h.staged hp
    have hnone := hs.not_commits hpc
    refine .of_up hs' hd hp
      ((h.cached hp).move (fun _ => rfl) rfl rfl (fun h => absurd h (by simp)) ?_)
      ⟨hst.area, hst.size, fun _ => hst.header fun t' ht' => hnone t' ht'.commits, ?_⟩
    · intro b t' hm hown ht'
      show ((s.setPc t .committing).pc t').InOp
      rw [St.setPc_pc]
      split
      · rename_i htt
        rw [htt] at hown
        exact absurd ((hmod b hown).symm.trans hm) (by simp)
      · exact ht'
    · intro t'
      show Progress g _ _ s.disk s.lh ((s.setPc t .committing).pc t')
      rw [St.setPc_pc]
      split
      · trivial
      · exact .of_not_commits (hnone t')
  | commitEmpty t hp hpc hlh =>
    exact Inv.moveOn (h.cached hp) (h.staged hp) hs hp hd (by simp [hpc]) (by simp [hpc]) hlh hs'
  | commitStart t hp hpc hlh =>
    exact Inv.moveOn (h.cached hp) (h.staged hp) hs hp hd (by simp [hpc]) (by simp [hpc])
      ⟨hlh, fun i _ hi => absurd hi (Nat.not_lt_zero i)⟩ hs'
  | writeLog t tail b hp hpc hb hto hfrom =>
    exact (Inv.writeLog (h.cached hp) (h.staged hp) hs hp hd hpc hb hs').of_bwrite
      (not_commits_of_ne Geometry.slot_ne_start)
  | writeLogDone t hp hpc =>
    have hprogress := (h.staged hp).progress t
    rw [hpc] at hprogress
    exact Inv.moveOn (h.cached hp) (h.staged hp) hs hp hd (by simp [hpc]) (by simp [hpc])
      ⟨hprogress.1, fun i b hb => hprogress.2 i b (List.getElem?_eq_some_iff.mp hb).1 hb⟩ hs'
  | writeHead t hp hpc hfree =>
    obtain ⟨hcommit, hinv⟩ := Inv.writeHead (h.cached hp) (h.staged hp) hs hp hpc hs'
    rw [committed_commit hcommit, current_commit hcommit]
    exact hinv
  | install t tail b hp hpc hb hlog hdst =>
    have hhome := (h.staged hp).area b (List.mem_of_getElem? hb)
    exact (Inv.install (h.cached hp) (h.staged hp) hs hp hd hpc hb hs').of_bwrite
      (not_commits_of_ne hhome.ne_start)
  | installed t hp hpc =>
    have hprogress := (h.staged hp).progress t
    rw [hpc] at hprogress
    refine Inv.moveOn (h.cached hp) (h.staged hp) hs hp hd (by simp [hpc]) (by simp)
      ⟨hprogress.1, hprogress.2.1, fun b hb => ?_⟩ hs'
    obtain ⟨i, hi, hib⟩ := List.getElem_of_mem hb
    exact hprogress.2.2 i b hi (List.getElem?_eq_some_iff.mpr ⟨hi, hib⟩)
  | clear t hp hpc hfree =>
    exact (Inv.clear (h.cached hp) (h.staged hp) hs hp hd hpc hs').of_bwrite
      (not_commits_of_empty (readHead_writeHead _ _))
  | finish t hp hpc => exact Inv.finish (h.cached hp) (h.staged hp) hs hp hd hpc hs'

lemma inv_run (hd : readHead (d g.start) = []) (h : Run (Step g) (St.boot d) tr s) :
    Inv g (committed g d tr) (current g d tr) s :=
  h.invariant (I := fun tr s => Inv g (committed g d tr) (current g d tr) s)
    ⟨.boot, .of_empty hd fun _ _ => rfl, rfl, fun _ => rfl⟩ fun _ _ _ _ hs hstep => hs.step hstep

/-! ### Operations and transactions -/

/-- The blocks logged since the last commit are in the header in memory. -/
structure Collected (g : Geometry) (tr : List (Event n)) (s : St n) : Prop where
  mem : s.phase = .up → ∀ b ∈ (ledger g tr).logged, b ∈ s.lh
  none : (s.phase.Boots ∨ ∃ t, (s.pc t).Installs) → (ledger g tr).logged = []

lemma Collected.of_empty (h : (ledger g tr).logged = []) : Collected g tr s :=
  ⟨by simp [h], fun _ => h⟩

lemma Collected.congr (h : Collected g tr s)
    (he : (ledger g (e :: tr)).logged = (ledger g tr).logged)
    (hphase : s'.phase = s.phase) (hlh : s'.lh = s.lh)
    (hpc : ∀ t, (s'.pc t).Installs → (s.pc t).Installs) : Collected g (e :: tr) s' := by
  refine ⟨?_, ?_⟩
  · rw [he, hphase, hlh]
    exact h.mem
  · rw [he, hphase]
    exact fun hc => h.none (hc.imp_right fun ⟨t, ht⟩ => ⟨t, hpc t ht⟩)

lemma logged_bwrite (h : (ledger g tr).logged = []) :
    (ledger g (.bwrite b v :: tr)).logged = [] := by
  by_cases hc : Commits g b v
  · rw [ledger_commit hc]
  · rw [ledger_bwrite hc, h]

/-- A thread moves to a place outside the installation. -/
lemma installs_update {l : Pc} (hl : ¬ l.Installs) (u : Fin n) (h : (update s.pc t l u).Installs) :
    (s.pc u).Installs := by
  by_cases hut : u = t
  · rw [hut, update_self] at h
    exact (hl h).elim
  · rwa [update_of_ne hut] at h

lemma Control.not_installs (hs : Control s) (ht : (s.pc t).InOp) : ¬ ∃ u, (s.pc u).Installs :=
  fun ⟨u, hu⟩ => hs.not_commits ht u hu.commits

lemma Collected.step (h : Collected g tr s) (hI : Inv g (committed g d tr) (current g d tr) s)
    (hstep : Step g s e s') : Collected g (e :: tr) s' := by
  have hs' := hI.control.step hstep
  cases hstep with
  | readHead hp => exact .of_empty (h.none (.inl (by simp [hp])))
  | recoverInstall _ _ hp | recoverClear hp =>
    exact .of_empty (logged_bwrite (h.none (.inl (by simp [hp]))))
  | recoverInstalled hp | recovered hp => exact .of_empty (h.none (.inl (by simp [hp])))
  | crash => exact .of_empty rfl
  | recycle | bread | brelse | modify => exact h.congr rfl rfl rfl fun _ => id
  | beginOp t | endOp t | endOpCommit t | commitEmpty t | commitStart t | writeLogDone t
  | finish t =>
    exact h.congr rfl rfl rfl (installs_update (by simp))
  | logWrite t logged b hp hpc =>
    have hin : (s.pc t).InOp := by simp [hpc]
    have hmem := h.mem hp
    refine ⟨fun _ => ?_, ?_⟩
    · rw [logWrite_lh]
      rintro x (_ | ⟨_, hx⟩)
      · split <;> simp_all
      · split <;> simp [hmem x hx]
    · rw [logWrite_phase, logWrite_pc, hp]
      rintro (hc | ⟨u, hu⟩)
      · exact hc.elim
      · exact (hI.control.not_installs hin ⟨u, installs_update (by simp) u hu⟩).elim
  | logWriteTooBig t b hp hin | logWriteOutside t b hp hin =>
    exact ⟨by simp, fun hc => (hI.control.not_installs hin (hc.resolve_left (by simp))).elim⟩
  | endOpPanic => exact ⟨by simp, fun hc => h.none (.inr (hc.resolve_left (by simp)))⟩
  | writeLog t tail b hp hpc hb =>
    refine h.congr ?_ rfl rfl (installs_update (by simp))
    rw [ledger_bwrite (not_commits_of_ne Geometry.slot_ne_start)]
  | writeHead t hp hpc hfree =>
    obtain ⟨hcommit, -⟩ := Inv.writeHead (hI.cached hp) (hI.staged hp) hI.control hp hpc hs'
    exact .of_empty (by rw [ledger_commit hcommit])
  | install t tail b hp hpc | clear t hp hpc =>
    exact .of_empty (logged_bwrite (h.none (.inr ⟨t, by simp [hpc]⟩)))
  | installed t hp hpc => exact .of_empty (h.none (.inr ⟨t, by simp [hpc]⟩))

lemma collected_run (hd : readHead (d g.start) = []) (h : Run (Step g) (St.boot d) tr s) :
    Collected g tr s :=
  (h.invariant
    (I := fun tr s => Inv g (committed g d tr) (current g d tr) s ∧ Collected g tr s)
    ⟨inv_run hd .nil, .of_empty rfl⟩ fun _ _ _ _ hI hstep =>
      ⟨hI.1.step hstep, hI.2.step hI.1 hstep⟩).2

/-- The header that a commit writes is the one in memory. -/
lemma Collected.header (h : Collected g tr s) (hstep : Step g s (.bwrite g.start v) s') :
    ∀ b ∈ (ledger g tr).logged, b ∈ readHead v := by
  generalize he : Event.bwrite g.start v = e at hstep
  cases hstep with
  | writeHead t hp =>
    obtain ⟨-, rfl⟩ := Event.bwrite.inj he
    rw [St.headBuf, readHead_writeHead]
    exact h.mem hp
  | recoverInstall tail b hp =>
    rw [h.none (.inl (by simp [hp]))]
    simp
  | recoverClear hp =>
    rw [h.none (.inl (by simp [hp]))]
    simp
  | writeLog t tail b hp hpc hb => exact (Geometry.slot_ne_start (Event.bwrite.inj he).1.symm).elim
  | install t tail b hp hpc =>
    rw [h.none (.inr ⟨t, by simp [hpc]⟩)]
    simp
  | clear t hp hpc =>
    rw [h.none (.inr ⟨t, by simp [hpc]⟩)]
    simp
  | _ => cases he

/-- The thread enters an operation. -/
def Event.begins (t : Fin n) : Event n → Bool
  | .beginOp u => u = t
  | _ => false

/-- What has happened since the last `begin_op` of the thread. -/
def sinceBegin (t : Fin n) (tr : List (Event n)) : List (Event n) :=
  tr.takeWhile fun e => !e.begins t

/-- The event neither writes a block nor ends the system. -/
@[simp] def Event.Quiet : Event n → Prop
  | .bwrite .. | .crash => False
  | _ => True

/-- What an operation has logged has been logged since the last commit. -/
lemma mem_logged (hquiet : ∀ e ∈ sinceBegin t tr, e.Quiet) (h : .logWrite t b ∈ sinceBegin t tr) :
    b ∈ (ledger g tr).logged := by
  induction tr with
  | nil => simp [sinceBegin] at h
  | cons e tr ih =>
    unfold sinceBegin at ih h hquiet
    rw [List.takeWhile_cons] at h hquiet
    split at h
    · rename_i he
      rw [if_pos he] at hquiet
      rcases List.mem_cons.mp h with rfl | h
      · exact List.mem_cons_self
      · have hold := ih (fun x hx => hquiet x (List.mem_cons_of_mem e hx)) h
        have hq := hquiet e List.mem_cons_self
        cases e with
        | logWrite => exact List.mem_cons_of_mem _ hold
        | bwrite | crash => exact hq.elim
        | _ => exact hold
    · simp at h

/-- While an operation is under way no block is written. -/
lemma quiet_step (hs : Control s)
    (h : ∀ t, (s.pc t).InOp → ∀ e ∈ sinceBegin t tr, e.Quiet) (hstep : Step g s e s') :
    ∀ t, (s'.pc t).InOp → ∀ e' ∈ sinceBegin t (e :: tr), e'.Quiet := by
  have hs' := hs.step hstep
  -- A step after which the thread is in an operation is either its `begin_op` or quiet.
  have hcases : ∀ t, (s'.pc t).InOp → e.begins t = true ∨ (e.Quiet ∧ (s.pc t).InOp) := by
    intro t ht
    cases hstep with
    | crash => exact ht.elim
    | recoverInstall _ _ hp | recoverClear hp =>
      have hidle := (hs'.boots (by simp)).2 t
      rw [hidle] at ht
      exact ht.elim
    | readHead | recoverInstalled | recovered | recycle | bread | brelse | modify
    | logWriteTooBig | logWriteOutside | endOpPanic => exact .inr ⟨trivial, ht⟩
    | beginOp t' hp hpc =>
      by_cases htt : t = t'
      · exact .inl (by simp [Event.begins, htt])
      · simp only [St.setPc, update_of_ne htt] at ht
        exact .inr ⟨trivial, ht⟩
    | logWrite t' logged b hp hpc =>
      by_cases htt : t = t'
      · exact .inr ⟨trivial, by simp [htt, hpc]⟩
      · rw [logWrite_pc, update_of_ne htt] at ht
        exact .inr ⟨trivial, ht⟩
    | endOp t' | endOpCommit t' | commitEmpty t' | commitStart t' | writeLogDone t'
    | installed t' | finish t' =>
      by_cases htt : t = t'
      · simp [htt, St.setPc] at ht
      · simp only [St.setPc, update_of_ne htt] at ht
        exact .inr ⟨trivial, ht⟩
    | writeLog t' _ _ _ hpc | writeHead t' _ hpc | install t' _ _ _ hpc | clear t' _ hpc =>
      have hcommit := hs.commits t' (by simp [hpc])
      exact (hs'.alone hcommit t ht).elim
  intro t ht e' he'
  unfold sinceBegin at he'
  rw [List.takeWhile_cons] at he'
  rcases hcases t ht with hbegin | ⟨hquiet, hold⟩
  · simp [hbegin] at he'
  · split at he'
    · rcases List.mem_cons.mp he' with he' | he'
      · exact he' ▸ hquiet
      · exact h t hold e' he'
    · simp at he'

/-- **Crash atomicity of the log.** The operations of any number of threads run in any order on a
disk whose log is empty, with crashes at any time, also in the recovery. While an operation is
under way, the blocks that it has logged are all in the one transaction that is being collected,
and no block has been written since its `begin_op`; a header that is written has all blocks logged
since the last commit. A thread commits only while no operation is outstanding, and none is admitted
then. When a recovery returns, the log is empty and every home block holds its contents after the
first transactions, as many as writes of a non-empty header have reached the disk. -/
theorem crash_atomicity (g : Geometry) (d : Nat → Block) (hd : readHead (d g.start) = [])
    (tr : List (Event n)) (s : St n) (h : Run (Step g) (St.boot d) tr s) :
    (∀ t, (s.pc t).InOp →
      (s.phase = .up → ∀ b, .logWrite t b ∈ sinceBegin t tr → b ∈ s.lh) ∧
      ∀ e ∈ sinceBegin t tr, e.Quiet) ∧
    (∀ v tr', tr = .bwrite g.start v :: tr' → ∀ b ∈ (ledger g tr').logged, b ∈ readHead v) ∧
    (∀ t, (s.pc t).Commits → s.outstanding = 0 ∧ ∀ u, ¬ (s.pc u).InOp) ∧
    (s.committing = true → ∀ t s', ¬ Step g s (.beginOp t) s') ∧
    (∀ tr', tr = .recovered :: tr' → readHead (s.disk g.start) = [] ∧
      ∀ b, g.Home b →
        s.disk b = replay d ((transactions g tr).take (headWrites g tr)).flatten b) := by
  have hs := control_run h
  have hcollected := collected_run hd h
  have hquiet := h.invariant
    (I := fun tr s => Control s ∧ ∀ t, (s.pc t).InOp → ∀ e ∈ sinceBegin t tr, e.Quiet)
    ⟨.boot, fun _ ht => ht.elim⟩
    (fun _ _ _ _ hI hstep => ⟨hI.1.step hstep, quiet_step hI.1 hI.2 hstep⟩)
  refine ⟨fun t ht => ⟨fun hp b hb => ?_, hquiet.2 t ht⟩, ?_, ?_, ?_, ?_⟩
  · exact hcollected.mem hp b (mem_logged (hquiet.2 t ht) hb)
  · intro v tr' htr
    subst htr
    cases h with
    | snoc h hlast => exact (collected_run hd h).header hlast
  · intro t ht
    have halone := hs.alone (hs.commits t ht)
    refine ⟨?_, halone⟩
    rw [hs.outstanding, total_eq_zero]
    exact fun u => Pc.ops_eq_zero (halone u)
  · intro hc t s' hstep
    cases hstep with
    | beginOp _ _ _ hcommit => exact absurd (hcommit.symm.trans hc) (by simp)
  · intro tr' htr
    rw [take_transactions]
    subst htr
    cases h with
    | snoc h hlast =>
      have hinv := (inv_run hd h).phase
      cases hlast with
      | recovered hp =>
        rw [hp] at hinv
        exact ⟨hinv.2.2.2.2, hinv.2.2.2.1⟩

/-- An operation writes block 40; the system crashes when its commit has written the header. -/
theorem crash_atomicity_commit : ∃ (tr : List (Event 1)) (s : St 1),
    Run (Step ⟨2, 30, by decide⟩) (St.boot fun _ _ => 0) (.recovered :: tr) s ∧
      .logWrite 0 40 ∈ tr ∧ .crash ∈ tr ∧ s.disk 40 = fun _ => 7 := by
  have hinit : Run (Step ⟨2, 30, by decide⟩) (St.boot fun _ _ => 0 : St 1) [] _ := .nil
  have hop := hinit
    |>.snoc (.readHead rfl)
    |>.snoc (.recoverInstalled rfl)
    |>.snoc (.recoverClear rfl)
    |>.snoc (.recovered rfl)
    |>.snoc (.beginOp 0 rfl rfl rfl (by decide))
    |>.snoc (.bread 0 40 rfl (fun h => h) rfl)
    |>.snoc (.modify 0 40 (fun _ => 7) rfl trivial rfl (.inr (by decide)))
    |>.snoc (.logWrite 0 ∅ 40 rfl rfl rfl (.inr (by decide))
      (not_or.mpr ⟨by decide, by decide⟩) (by decide))
    |>.snoc (.brelse 0 40 rfl rfl rfl)
  have hend := hop.snoc (.endOpCommit 0 rfl trivial (fun b hb => by
    by_cases h40 : b = 40
    · subst h40
      rfl
    by_cases h2 : b = 2
    · subst h2
      rfl
    · rw [St.setBuf_bread, if_neg h40] at hb
      simp [St.logWrite, St.bread, St.setBuf, St.bwrite, St.setPc, St.boot, h40, h2] at hb) rfl rfl)
  have hcrash := hend
    |>.snoc (.commitStart 0 rfl rfl (by decide))
    |>.snoc (.writeLog 0 0 40 rfl rfl rfl rfl rfl)
    |>.snoc (.writeLogDone 0 rfl rfl)
    |>.snoc (.writeHead 0 rfl rfl rfl)
    |>.snoc .crash
  have hrun := hcrash
    |>.snoc (.readHead rfl)
    |>.snoc (.recoverInstall 0 40 rfl rfl)
    |>.snoc (.recoverInstalled rfl)
    |>.snoc (.recoverClear rfl)
    |>.snoc (.recovered rfl)
  have hdisk := ((crash_atomicity _ _ rfl _ _ hrun).2.2.2.2 _ rfl).2 40 (.inr (by decide))
  exact ⟨_, _, hrun, by simp, by simp, hdisk.trans rfl⟩

end Xv6.Log
