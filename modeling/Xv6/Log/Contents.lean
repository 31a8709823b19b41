import Xv6.Log.Control

/-!
# Contents of the disk, the cache and the log

The contents after the committed transactions and the current contents are read off the trace of
a run. A disk is recoverable if every block of the former is in place or in the log; the cache
holds the latter.
-/

namespace Xv6.Log

open Function Lib

variable {n : Nat} {g : Geometry} {s s' : St n} {e : Event n} {t : Fin n} {d : Nat → Block}
  {tr : List (Event n)} {c u : Nat → Block} {b i tail : Nat} {v : Block} {lh : List Nat} {l : Pc}

/-! ### Contents -/

/-- The contents of the disk after the committed transactions. -/
def committed (g : Geometry) (d : Nat → Block) (tr : List (Event n)) : Nat → Block :=
  replay d (ledger g tr).committed.flatten

/-- The contents with what has been modified since. -/
def current (g : Geometry) (d : Nat → Block) (tr : List (Event n)) : Nat → Block :=
  replay (committed g d tr) (ledger g tr).pending

lemma replay_append (d : Nat → Block) (ws ws' : List (Nat × Block)) :
    replay d (ws ++ ws') = replay (replay d ws) ws' :=
  List.foldl_append

@[simp] lemma current_modify :
    current g d (.modify t b v :: tr) = update (current g d tr) b v :=
  replay_append _ _ [(b, v)]

lemma ledger_commit (h : Commits g b v) : ledger g (.bwrite b v :: tr) =
    ⟨(ledger g tr).committed ++ [(ledger g tr).pending], [], []⟩ := if_pos h

lemma ledger_bwrite (h : ¬ Commits g b v) : ledger g (.bwrite b v :: tr) = ledger g tr := if_neg h

lemma committed_commit (h : Commits g b v) :
    committed g d (.bwrite b v :: tr) = current g d tr := by
  unfold committed current
  rw [ledger_commit h, List.flatten_append, replay_append]
  simp [committed]

lemma current_commit (h : Commits g b v) :
    current g d (.bwrite b v :: tr) = current g d tr := by
  unfold current
  rw [committed_commit h, ledger_commit h]
  rfl

lemma length_committed : (ledger g tr).committed.length = headWrites g tr := by
  induction tr with
  | nil => rfl
  | cons e tr ih =>
    cases e with
    | bwrite b v =>
      by_cases h : Commits g b v
      · simpa [ledger_commit h, headWrites, h] using ih
      · simpa [ledger_bwrite h, headWrites, h] using ih
    | _ => simpa [ledger, Ledger.record, headWrites] using ih

/-- The transactions whose header has been written are the committed ones. -/
lemma take_transactions : (transactions g tr).take (headWrites g tr) = (ledger g tr).committed := by
  rw [← length_committed]
  exact List.take_left

/-! ### Disks that can be recovered -/

/-- Every home block holds its contents in `c`, in place or in the log. -/
structure Recoverable (g : Geometry) (d c : Nat → Block) : Prop where
  home : ∀ b, g.Home b → b ∉ readHead (d g.start) → d b = c b
  copy : ∀ i b, (readHead (d g.start))[i]? = some b → d (g.slot i) = c b
  area : ∀ b ∈ readHead (d g.start), g.Home b
  size : (readHead (d g.start)).length < g.size

lemma Recoverable.of_empty (hd : readHead (d g.start) = []) (h : ∀ b, g.Home b → d b = c b) :
    Recoverable g d c where
  home := fun b hb _ => h b hb
  copy := by simp [hd]
  area := by simp [hd]
  size := by simpa [hd] using g.pos

/-- A block is installed. -/
lemma Recoverable.install (h : Recoverable g d c) (hb : g.Home b) :
    Recoverable g (update d b (c b)) c := by
  have hstart : update d b (c b) g.start = d g.start :=
    update_of_ne hb.ne_start.symm _ _
  refine ⟨?_, ?_, hstart ▸ h.area, hstart ▸ h.size⟩
  · intro x hx hmem
    rw [hstart] at hmem
    by_cases hxb : x = b
    · rw [hxb, update_self]
    · rw [update_of_ne hxb]
      exact h.home x hx hmem
  · intro i x hx
    rw [hstart] at hx
    have hlt := (List.getElem?_eq_some_iff.mp hx).1
    have hsize := h.size
    rw [update_of_ne (hb.ne_slot (by omega)).symm]
    exact h.copy i x hx

/-- A block of the log is written while the header is empty. -/
lemma Recoverable.writeSlot (h : Recoverable g d c) (hd : readHead (d g.start) = [])
    (htail : tail + 1 < g.size) : Recoverable g (update d (g.slot tail) v) c := by
  apply Recoverable.of_empty
  · rwa [update_of_ne Geometry.slot_ne_start.symm]
  · intro b hb
    rw [update_of_ne (hb.ne_slot htail)]
    exact h.home b hb (by simp [hd])

/-- A header is written whose blocks are in the log. -/
lemma Recoverable.writeHead {w : Block} (hhome : ∀ b, g.Home b → b ∉ lh → d b = c b)
    (hcopy : ∀ i b, lh[i]? = some b → d (g.slot i) = c b) (harea : ∀ b ∈ lh, g.Home b)
    (hsize : lh.length < g.size) : Recoverable g (update d g.start (Log.writeHead w lh)) c := by
  constructor <;> simp only [update_self, readHead_writeHead]
  · intro b hb hmem
    rw [update_of_ne hb.ne_start]
    exact hhome b hb hmem
  · intro i b hb
    rw [update_of_ne Geometry.slot_ne_start]
    exact hcopy i b hb
  · exact harea
  · exact hsize

/-! ### The cache -/

/-- Readers see the current contents, and a buffer that differs from the disk is kept. -/
structure Cached (g : Geometry) (u : Nat → Block) (s : St n) : Prop where
  view : ∀ b, g.Home b → (s.bread b).data = u b
  coherent : ∀ b, (s.bread b).data = s.disk b ∨ (b ∈ s.lh ∧ 1 ≤ (s.bread b).pins) ∨
    (s.bread b).modified = true
  modified : ∀ b, (s.bread b).modified = true →
    g.Home b ∧ ∃ t, (s.bread b).owner = some t ∧ (s.pc t).InOp
  pinned : s.committing = false → ∀ b ∈ s.lh, 1 ≤ (s.bread b).pins

section

variable (h : Cached g u s)
include h

/-- While a thread commits no buffer is modified. -/
lemma Cached.not_modified (hs : Control s) (ht : (s.pc t).Commits) (b : Nat) :
    (s.bread b).modified = false := by
  rw [← Bool.not_eq_true]
  intro hmod
  obtain ⟨-, t', -, hin⟩ := h.modified b hmod
  exact hs.not_commits hin t ht

/-- While a thread commits, the cache and the disk agree on what is not in the transaction. -/
lemma Cached.disk_eq (hs : Control s) (ht : (s.pc t).Commits) (hb : b ∉ s.lh) :
    (s.bread b).data = s.disk b := by
  rcases h.coherent b with heq | hlog | hmod
  · exact heq
  · exact (hb hlog.1).elim
  · rw [h.not_modified hs ht] at hmod
    contradiction

/-- A lock is taken or released. -/
lemma Cached.lock {o : Option (Fin n)} (hmod : (s.bread b).modified = true → o = (s.bread b).owner) :
    Cached g u (s.setBuf b { s.bread b with owner := o }) := by
  have hbread : ∀ x, ((s.setBuf b { s.bread b with owner := o }).bread x).data = (s.bread x).data ∧
      ((s.setBuf b { s.bread b with owner := o }).bread x).pins = (s.bread x).pins ∧
      ((s.setBuf b { s.bread b with owner := o }).bread x).modified = (s.bread x).modified := by
    intro x
    rw [St.setBuf_bread]
    split
    · rename_i hx
      rw [hx]
      exact ⟨rfl, rfl, rfl⟩
    · exact ⟨rfl, rfl, rfl⟩
  refine ⟨?_, ?_, ?_, ?_⟩
  · intro x hx
    rw [(hbread x).1]
    exact h.view x hx
  · intro x
    rw [(hbread x).1, (hbread x).2.1, (hbread x).2.2]
    exact h.coherent x
  · intro x hx
    rw [(hbread x).2.2] at hx
    obtain ⟨hhome, t, hown, hin⟩ := h.modified x hx
    refine ⟨hhome, t, ?_, hin⟩
    rw [St.setBuf_bread]
    split
    · rename_i hxb
      rw [hxb] at hx hown
      exact (hmod hx).trans hown
    · exact hown
  · intro hc x hx
    rw [(hbread x).2.1]
    exact h.pinned hc x hx

lemma Cached.recycle (hown : (s.bread b).owner = none) (hpins : (s.bread b).pins = 0) :
    Cached g u { s with cache := update s.cache b none } := by
  have hmod : (s.bread b).modified ≠ true := by
    intro hmod
    obtain ⟨-, t, ht, -⟩ := h.modified b hmod
    rw [hown] at ht
    contradiction
  have hdata : (s.bread b).data = s.disk b := by
    rcases h.coherent b with heq | hlog | hm
    · exact heq
    · exact absurd hlog.2 (by simp [hpins])
    · exact (hmod hm).elim
  have hbread : ∀ x, St.bread { s with cache := update s.cache b none } x =
      if x = b then { data := s.disk b } else s.bread x := by
    intro x
    by_cases hx : x = b <;> simp [St.bread, hx]
  refine ⟨?_, ?_, ?_, ?_⟩
  · intro x hx
    rw [hbread]
    split
    · rename_i hxb
      rw [hxb] at hx ⊢
      exact hdata.symm.trans (h.view b hx)
    · exact h.view x hx
  · intro x
    rw [hbread]
    split
    · rename_i hxb
      exact .inl (by rw [hxb])
    · exact h.coherent x
  · intro x hx
    rw [hbread] at hx ⊢
    split at hx
    · simp at hx
    · rename_i hxb
      rw [if_neg hxb]
      exact h.modified x hx
  · intro hc x hx
    rw [hbread]
    split
    · rename_i hxb
      rw [hxb] at hx
      exact absurd (h.pinned hc b hx) (by simp [hpins])
    · exact h.pinned hc x hx

lemma Cached.modify (hin : (s.pc t).InOp) (hown : (s.bread b).owner = some t) (hb : g.Home b) :
    Cached g (update u b v)
      (s.setBuf b { s.bread b with data := v, modified := true }) := by
  refine ⟨?_, ?_, ?_, ?_⟩
  · intro x hx
    rw [St.setBuf_bread, update_apply]
    split
    · rfl
    · exact h.view x hx
  · intro x
    rw [St.setBuf_bread]
    split
    · exact .inr (.inr rfl)
    · exact h.coherent x
  · intro x hx
    rw [St.setBuf_bread] at hx ⊢
    split
    · rename_i hxb
      exact ⟨hxb ▸ hb, t, hown, hin⟩
    · rename_i hxb
      rw [if_neg hxb] at hx
      exact h.modified x hx
  · intro hc x hx
    rw [St.setBuf_bread]
    split
    · rename_i hxb
      exact h.pinned hc b (hxb ▸ hx)
    · exact h.pinned hc x hx

lemma Cached.logWrite {logged : Finset Nat} (hs : Control s) (hpc : s.pc t = .inOp logged) :
    Cached g u (s.logWrite t logged b) := by
  have hcommit := hs.not_committing (t := t) (by simp [hpc])
  have hin : ∀ t', (s.pc t').InOp → (update s.pc t (.inOp (insert b logged)) t').InOp := by
    intro t' ht'
    rw [update_apply]
    split
    · trivial
    · exact ht'
  -- Whether the block is absorbed or added, its buffer is then pinned and its entry is in the log.
  have hgen : ∀ (s' : St n) (p : Nat), s'.disk = s.disk → s'.lh ⊇ s.lh → b ∈ s'.lh →
      (∀ x ∈ s'.lh, x = b ∨ x ∈ s.lh) → 1 ≤ p →
      s'.pc = update s.pc t (.inOp (insert b logged)) →
      (∀ x, s'.bread x = if x = b then { s.bread b with modified := false, pins := p }
        else s.bread x) → Cached g u s' := by
    intro s' p hdisk hsub hb hlh hp hpc' hbread
    refine ⟨?_, ?_, ?_, ?_⟩
    · intro x hx
      rw [hbread]
      split
      · rename_i hxb
        exact hxb ▸ h.view x hx
      · exact h.view x hx
    · intro x
      rw [hbread, hdisk]
      split
      · rename_i hxb
        exact .inr (.inl ⟨hxb ▸ hb, hp⟩)
      · exact (h.coherent x).imp id (Or.imp (And.imp (fun hx => hsub hx) id) id)
    · intro x hx
      rw [hbread] at hx ⊢
      split at hx
      · simp at hx
      · rename_i hxb
        rw [if_neg hxb, hpc']
        obtain ⟨hhome, t', hown, ht'⟩ := h.modified x hx
        exact ⟨hhome, t', hown, hin t' ht'⟩
    · intro _ x hx
      rw [hbread]
      split
      · exact hp
      · rename_i hxb
        exact h.pinned hcommit x ((hlh x hx).resolve_left hxb)
  unfold St.logWrite
  split
  · rename_i hb
    refine hgen _ (s.bread b).pins rfl (fun _ hx => hx) hb (fun _ hx => .inr hx)
      (h.pinned hcommit b hb) rfl fun x => ?_
    rw [St.setPc_bread, St.setBuf_bread]
  · refine hgen _ ((s.bread b).pins + 1) rfl (fun _ hx => List.mem_append_left _ hx) (by simp)
      (fun x hx => ?_) (by omega) rfl fun x => ?_
    · simpa [or_comm] using hx
    · exact (St.setBuf_bread s b x _)

/-- Threads move, and no operation that has modified a block ends. -/
lemma Cached.move (hbread : ∀ b, s'.bread b = s.bread b) (hdisk : s'.disk = s.disk)
    (hlh : s'.lh = s.lh) (hpin : s'.committing = false → s.committing = false ∨ s.lh = [])
    (hin : ∀ b t, (s.bread b).modified = true → (s.bread b).owner = some t → (s.pc t).InOp →
      (s'.pc t).InOp) : Cached g u s' := by
  refine ⟨?_, ?_, ?_, ?_⟩
  · intro b hb
    rw [hbread]
    exact h.view b hb
  · intro b
    rw [hbread, hdisk, hlh]
    exact h.coherent b
  · intro b hb
    rw [hbread] at hb ⊢
    obtain ⟨hhome, t, hown, ht⟩ := h.modified b hb
    exact ⟨hhome, t, hown, hin b t hb hown ht⟩
  · intro hc b hb
    rw [hlh] at hb
    rw [hbread]
    rcases hpin hc with hc | hnil
    · exact h.pinned hc b hb
    · simp [hnil] at hb

/-- The thread that commits writes a block: one of the log, or one with its current contents. -/
lemma Cached.bwrite {x : Buf n} (hs : Control s) (ht : (s.pc t).Commits)
    (hbread : ∀ a, s'.bread a = if a = b then x else s.bread a)
    (hdisk : ∀ a, s'.disk a = if a = b then x.data else s.disk a)
    (hlh : s'.lh = s.lh ∨ ∀ a, a ≠ b → (s.bread a).data = s.disk a)
    (hcommit : s'.committing = s.committing) (hx : g.Home b → x.data = u b)
    (hmod : x.modified = (s.bread b).modified) : Cached g u s' := by
  refine ⟨?_, ?_, ?_, ?_⟩
  · intro a ha
    rw [hbread]
    split
    · rename_i hab
      rw [hab] at ha ⊢
      exact hx ha
    · exact h.view a ha
  · intro a
    rw [hbread, hdisk]
    split
    · exact .inl rfl
    · rename_i hab
      rcases hlh with hlh | hclean
      · rw [hlh]
        exact h.coherent a
      · exact .inl (hclean a hab)
  · intro a ha
    rw [hbread] at ha
    split at ha
    · rw [hmod, h.not_modified hs ht] at ha
      contradiction
    · rw [h.not_modified hs ht] at ha
      contradiction
  · intro hc
    rw [hcommit, hs.commits t ht] at hc
    contradiction

/-! ### The progress of a commit -/

end

/-- What a thread at this position knows about the blocks of the transaction. -/
def Progress (g : Geometry) (c u : Nat → Block) (disk : Nat → Block) (lh : List Nat) : Pc → Prop
  | .writeLog tail => lh ≠ [] ∧ ∀ i b, i < tail → lh[i]? = some b → disk (g.slot i) = u b
  | .writeHead => lh ≠ [] ∧ ∀ i b, lh[i]? = some b → disk (g.slot i) = u b
  | .install tail => u = c ∧ readHead (disk g.start) = lh ∧
      ∀ i b, i < tail → lh[i]? = some b → disk b = c b
  | .clear => u = c ∧ readHead (disk g.start) = lh ∧ ∀ b ∈ lh, disk b = c b
  | .finish => lh = []
  | _ => True

structure Staged (g : Geometry) (c u : Nat → Block) (s : St n) : Prop where
  area : ∀ b ∈ s.lh, g.Home b
  size : s.lh.length < g.size
  header : (∀ t, ¬ (s.pc t).Installs) → readHead (s.disk g.start) = []
  progress : ∀ t, Progress g c u s.disk s.lh (s.pc t)

lemma Pc.Installs.commits (h : l.Installs) : l.Commits := by
  cases l <;> simp_all

lemma Progress.of_not_commits {disk : Nat → Block} (h : ¬ l.Commits) :
    Progress g c u disk lh l := by
  cases l <;> simp_all [Progress]

/-- Nobody commits, and the log does not change on the disk. -/
lemma Staged.quiet (h : Staged g c u s) {u' : Nat → Block} (hdisk : s'.disk = s.disk)
    (hold : ∀ t, ¬ (s.pc t).Installs) (hnone : ∀ t, ¬ (s'.pc t).Commits)
    (harea : ∀ b ∈ s'.lh, g.Home b) (hsize : s'.lh.length < g.size) : Staged g c u' s' where
  area := harea
  size := hsize
  header := fun _ => hdisk ▸ h.header hold
  progress := fun t => .of_not_commits (hnone t)

/-- The thread that commits moves on. -/
lemma Staged.move {c' : Nat → Block} (h : Staged g c u s) (hs : Control s) (ht : (s.pc t).Commits)
    (hpc : s'.pc = update s.pc t l) (hlh : s'.lh = s.lh ∨ s'.lh = [])
    (hl : ¬ l.Installs → readHead (s'.disk g.start) = [])
    (hprogress : Progress g c' u s'.disk s'.lh l) : Staged g c' u s' where
  area := by
    rcases hlh with hlh | hlh
    · exact hlh ▸ h.area
    · simp [hlh]
  size := by
    rcases hlh with hlh | hlh
    · exact hlh ▸ h.size
    · simpa [hlh] using g.pos
  header := by
    intro hnone
    apply hl
    have := hnone t
    rwa [hpc, update_self] at this
  progress := by
    intro t'
    rw [hpc]
    by_cases htt : t' = t
    · rw [htt, update_self]
      exact hprogress
    · rw [update_of_ne htt]
      exact .of_not_commits fun hc => htt (hs.excl t' t hc ht)

/-- Before the header is written the log is empty. -/
lemma Staged.empty (h : Staged g c u s) (hs : Control s) (ht : (s.pc t).Commits)
    (hl : ¬ (s.pc t).Installs) : readHead (s.disk g.start) = [] := by
  apply h.header
  intro t' ht'
  have := hs.excl t' t ht'.commits ht
  exact hl (this ▸ ht')

end Xv6.Log
