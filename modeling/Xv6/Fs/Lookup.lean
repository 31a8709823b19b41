import Xv6.Fs.Refs

/-!
# Looking up names

What `dirlookup`, `namex` and `dirlink` return and leave behind, whatever the references that the
caller has.
-/

namespace Xv6.Fs

open Function Lib

variable {s s' : St} {τ : List Nat} {i ip dp k : Nat} {E : Panic → Prop} {name : Name}
  {ents : List Dirent} {par : Bool} {names : List Name} {r : Nat × Name} {Q : Unit → St → Prop}
  {p : Fin NPROC} {path : List Char} {de : Dirent} {inum : Nat}

/-! ### Entries -/

lemma findEnt_some (h : findEnt name ents = some (i, k)) :
    i ≠ 0 ∧ ents[k]? = some ⟨i, name⟩ := by
  induction ents generalizing k with
  | nil => simp [findEnt] at h
  | cons e ents ih =>
    unfold findEnt at h
    split at h
    · rename_i he
      obtain ⟨rfl, rfl⟩ := Prod.mk.inj (Option.some.inj h)
      exact ⟨he.1, by simp [← he.2]⟩
    · obtain ⟨⟨i', k'⟩, hfind, heq⟩ := Option.map_eq_some_iff.mp h
      obtain ⟨rfl, rfl⟩ := Prod.mk.inj heq
      simpa using ih hfind

lemma findEnt_eq_none : findEnt name ents = none ↔ ∀ e ∈ ents, e.inum ≠ 0 → e.name ≠ name := by
  induction ents with
  | nil => simp [findEnt]
  | cons e ents ih =>
    unfold findEnt
    split
    · rename_i he
      simp only [reduceCtorEq, List.mem_cons, forall_eq_or_imp, false_iff, not_and]
      intro hne
      exact absurd he.2 (hne he.1)
    · rename_i he
      rw [Option.map_eq_none_iff, ih]
      simp only [List.mem_cons, forall_eq_or_imp, iff_and_self]
      intro _ hne heq
      exact he ⟨hne, heq⟩

/-- The entries after `dirlink` has found room for one. -/
def addEnt (ents : List Dirent) (de : Dirent) : List Dirent :=
  if emptyEnt ents < ents.length then ents.set (emptyEnt ents) de else ents ++ [de]

/-! ### Paths -/

/-- Where the loop of `namex` ends, by the contents of the directories. -/
def walk (D : Nat → Dinode) (par : Bool) : Nat → List Name → Option (Nat × Name)
  | ip, [] => if par then none else some (ip, [])
  | ip, name :: rest =>
    if (D ip).type ≠ .dir then none
    else if par ∧ rest = [] then some (ip, name)
    else (findEnt name (D ip).ents).bind fun r => walk D par r.1 rest

/-- The inode where `namex` starts. -/
def startInode (s : St) (p : Fin NPROC) (path : List Char) : Option Nat :=
  if path.head? = some '/' then some ROOTINO else (s.proc p).cwd

/-- Where `namex` ends. -/
def resolve (s : St) (p : Fin NPROC) (par : Bool) (path : List Char) : Option (Nat × Name) :=
  (startInode s p path).bind fun ip => walk s.dinode par ip (elements path)

/-- The parent of a path is a directory. -/
lemma walk_parent {D : Nat → Dinode} (h : walk D true ip names = some r) : (D r.1).type = .dir := by
  induction names generalizing ip with
  | nil => simp [walk] at h
  | cons name rest ih =>
    unfold walk at h
    split at h
    · contradiction
    · rename_i hdir
      split at h
      · obtain rfl := Option.some.inj h
        exact not_not.mp hdir
      · obtain ⟨r', -, hr'⟩ := Option.bind_eq_some_iff.mp h
        exact ih hr'

lemma Alive.findEnt (h : Alive s) (hdir : (s.dinode dp).type = .dir)
    (hfind : Fs.findEnt name (s.dinode dp).ents = some (i, k)) : s.Live i := by
  obtain ⟨hne, hent⟩ := findEnt_some hfind
  exact h dp hdir ⟨i, name⟩ (List.mem_of_getElem? hent) hne

lemma Alive.walk (h : Alive s) (hlive : s.Live ip) (hw : Fs.walk s.dinode par ip names = some r) :
    s.Live r.1 := by
  induction names generalizing ip with
  | nil =>
    unfold Fs.walk at hw
    split at hw
    · contradiction
    · obtain rfl := Option.some.inj hw
      exact hlive
  | cons name rest ih =>
    unfold Fs.walk at hw
    split at hw
    · contradiction
    · rename_i hdir
      split at hw
      · obtain rfl := Option.some.inj hw
        exact hlive
      · obtain ⟨⟨i, k⟩, hfind, hr'⟩ := Option.bind_eq_some_iff.mp hw
        exact ih (h.findEnt (not_not.mp hdir) hfind) hr'

lemma Refs.findEnt (h : Refs τ s) (hfind : Fs.findEnt name (s.dinode dp).ents = some (i, k)) :
    i < 65536 :=
  h.ents dp ⟨i, name⟩ (List.mem_of_getElem? (findEnt_some hfind).2)

lemma wp_getInode {Q : Dinode → St → Prop} : wp (getInode ip) E Q s ↔ Q (s.dinode ip) s := Iff.rfl

lemma wp_setInode {f : Dinode → Dinode} :
    wp (setInode ip f) E Q s ↔ Q ⟨⟩ (s.setInode ip (f (s.dinode ip))) := Iff.rfl

lemma wp_dirlookup {Q : Option (Nat × Nat) → St → Prop} (h : Refs τ s) (hE : Lookups E s)
    (hτ : τ.length ≤ 2) (hdir : (s.dinode dp).type = .dir)
    (hnone : findEnt name (s.dinode dp).ents = none → Q none s)
    (hsome : ∀ i k, findEnt name (s.dinode dp).ents = some (i, k) → Q (some (i, k)) (s.iget i)) :
    wp (dirlookup dp name) E Q s := by
  simp only [dirlookup, wp_bind, wp_getInode, wp_ite, wp_throw]
  refine ⟨fun hne => absurd hdir hne, fun _ => ?_⟩
  split
  · rename_i hfind
    exact hnone hfind
  · rename_i i k hfind
    rw [wp_bind]
    exact wp_iget_of h hE hτ (hsome i k hfind)

/-- `ilock` of an inode that the caller refers to. Inodes that are valid stay so. -/
lemma wp_ilock_keep (h : Refs τ s) (hmem : i ∈ τ) (hlive : E .noType ∨ s.Live i)
    (hQ : ∀ s', Quiet s s' → Refs τ s' → s'.Live i → s'.valid i = true →
      (∀ j, s.valid j = true → s'.valid j = true) → Q ⟨⟩ s') : wp (ilock i) E Q s := by
  have href : 0 < s.ref i := by
    have := h.ref i
    have := List.count_pos_iff.mpr hmem
    omega
  refine wp_ilock href (fun hv => ?_) (fun _ hl => ?_) (fun _ hl => ?_)
  · exact hQ s (.refl s) h (h.valid i href hv) hv fun _ hj => hj
  · refine hQ _ (quiet_setValid s i true) (h.lock hl) hl (update_self ..) fun j hj => ?_
    by_cases hji : j = i <;> simp [St.setValid, hji, hj]
  · exact hlive.resolve_right hl

lemma wp_ilock_of (h : Refs τ s) (hmem : i ∈ τ) (hlive : E .noType ∨ s.Live i)
    (hQ : ∀ s', Quiet s s' → Refs τ s' → s'.Live i → s'.valid i = true → Q ⟨⟩ s') :
    wp (ilock i) E Q s :=
  wp_ilock_keep h hmem hlive fun s' hq h' hl hv _ => hQ s' hq h' hl hv

/-- The pointer that a lookup returns. -/
def found (r : Option (Nat × Name)) : List Nat := (r.map (·.1)).toList

/-- **The loop of `namex`.** It ends where the directories say, and the caller then has one pointer
to the inode there, or none. -/
lemma namexFrom_spec : ∀ {ip : Nat} {s : St}, Refs (ip :: τ) s → Kept τ s → Lookups E s →
      (E .noType ∨ s.Live ip) → τ.length ≤ 1 →
      wp (namexFrom par ip names) E (fun r s' => Quiet s s' ∧
        r = walk s.dinode par ip names ∧ Refs (found r ++ τ) s') s := by
  induction names with
  | nil =>
    intro ip s h hk hE hlive hτ
    unfold namexFrom walk
    cases par with
    | true =>
      simp only [if_true, wp_bind, wp_iput, wp_pure]
      exact ⟨quiet_iput h hk, trivial, h.iput⟩
    | false => exact ⟨.refl s, rfl, h⟩
  | cons name rest ih =>
    intro ip s h hk hE hlive hτ
    simp only [namexFrom, wp_bind]
    refine wp_ilock_of h (by simp) hlive fun s₁ hq h₁ hlive₁ hvalid => ?_
    have hk₁ := hk.quiet hq
    have hE₁ := hE.quiet hq
    simp only [wp_getInode, wp_ite, wp_bind, wp_iput, wp_pure]
    unfold walk
    rw [← hq.dinode]
    refine ⟨fun hne => ?_, fun hdir => ⟨fun hlast => ?_, fun hlast => ?_⟩⟩
    · rw [if_pos hne]
      exact ⟨hq.trans (quiet_iput h₁ hk₁), rfl, h₁.iput⟩
    · rw [if_neg hdir, if_pos hlast]
      exact ⟨hq, rfl, h₁⟩
    · rw [if_neg hdir, if_neg hlast]
      refine wp_dirlookup h₁ hE₁ (by simpa using hτ) (not_not.mp hdir) (fun hfind => ?_)
        fun i k hfind => ?_
      · simp only [wp_bind, wp_iput, wp_pure, hfind, Option.bind_none]
        exact ⟨hq.trans (quiet_iput h₁ hk₁), trivial, h₁.iput⟩
      · have hq₂ := quiet_iget s₁ i
        have h₂ : Refs (ip :: i :: τ) (s₁.iget i) :=
          (h₁.iget (h₁.findEnt hfind)).perm (List.Perm.swap ..)
        have hq₃ := quiet_iput h₂ ((hk₁.quiet hq₂).cons i)
        have hq₁₃ := hq₂.trans hq₃
        simp only [wp_bind, wp_iput, hfind, Option.bind_some]
        refine wp_imp (ih h₂.iput (hk₁.quiet hq₁₃) (hE₁.quiet hq₁₃) ?_ hτ) ?_
        · refine hE₁.alive.imp id fun halive => (hq₁₃.live i).mpr ?_
          exact halive.2.findEnt (not_not.mp hdir) hfind
        · rintro r s' ⟨hq', hr, hrefs⟩
          exact ⟨hq.trans (hq₁₃.trans hq'), by rw [hr, hq₁₃.dinode], hrefs⟩

lemma namex_spec (h : Refs τ s) (hE : Lookups E s) (hcwd : E .kerneltrap ∨ (s.proc p).cwd ≠ none)
    (hτ : τ.length ≤ 1) :
    wp (namex p path par) E (fun r s' => Quiet s s' ∧ r = resolve s p par path ∧
      Refs (found r ++ τ) s') s := by
  have hk := h.kept
  simp only [namex, wp_ite, wp_bind]
  refine ⟨fun hroot => ?_, fun hrel => ?_⟩
  · refine wp_iget_of h hE (by omega) ?_
    have hq := quiet_iget s ROOTINO
    have h₁ := h.iget (i := ROOTINO) (by decide)
    refine wp_imp (namexFrom_spec h₁ (hk.quiet hq) (hE.quiet hq)
      (hE.alive.imp id fun ha => (hq.live _).mpr ha.1) hτ) ?_
    rintro r s' ⟨hq', hr, hrefs⟩
    refine ⟨hq.trans hq', ?_, hrefs⟩
    simp [hr, resolve, startInode, hroot, hq.dinode]
  · simp only [cwd, wp_bind, wp_get]
    split
    · rename_i ip hcwd
      have hheld := held_cwd hcwd
      have href : 0 < s.ref ip := by
        rw [h.ref ip]
        omega
      simp only [wp_pure, wp_idup]
      rw [← iget_of_pos href]
      have hq := quiet_iget s ip
      have h₁ := h.iget (h.bound ip href)
      refine wp_imp (namexFrom_spec h₁ (hk.quiet hq) (hE.quiet hq)
        (.inr ((hq.live _).mpr (h.held ip hheld))) hτ) ?_
      rintro r s' ⟨hq', hr, hrefs⟩
      refine ⟨hq.trans hq', ?_, hrefs⟩
      simp [hr, resolve, startInode, hrel, hcwd, hq.dinode]
    · rename_i hnone
      rw [wp_throw]
      exact hcwd.resolve_right (not_not_intro hnone)

/-- Where a path ends there is an allocated inode, unless a freed one may be met. -/
lemma resolve_live (h : Refs τ s) (hE : Lookups E s) (hr : resolve s p par path = some r) :
    E .noType ∨ s.Live r.1 := by
  refine hE.alive.imp id fun halive => ?_
  obtain ⟨start, hstart, hw⟩ := Option.bind_eq_some_iff.mp hr
  refine halive.2.walk ?_ hw
  unfold startInode at hstart
  split at hstart
  · obtain rfl := Option.some.inj hstart
    exact halive.1
  · exact h.held start (held_cwd hstart)

lemma wp_namei {Q : Option Nat → St → Prop} (h : Refs τ s) (hE : Tolerates E s) (hτ : τ.length ≤ 1)
    (hnone : ∀ s', Quiet s s' → Refs τ s' → Q none s')
    (hsome : ∀ ip n s', Quiet s s' → Refs (ip :: τ) s' → (E .noType ∨ s'.Live ip) →
      resolve s p false path = some (ip, n) → Q (some ip) s') : wp (namei p path) E Q s := by
  simp only [namei, wp_bind, wp_pure]
  refine wp_imp (namex_spec h hE.toLookups hE.cwd hτ) ?_
  rintro (_ | ⟨ip, n⟩) s₁ ⟨hq, hr, h₁⟩
  · exact hnone s₁ hq h₁
  · refine hsome ip n s₁ hq h₁ ?_ hr.symm
    exact (resolve_live h hE.toLookups hr.symm).imp id (hq.live ip).mpr

/-- `nameiparent` returns a directory. -/
lemma wp_nameiparent {Q : Option (Nat × Name) → St → Prop} (h : Refs τ s) (hE : Lookups E s)
    (hcwd : E .kerneltrap ∨ (s.proc p).cwd ≠ none) (hτ : τ.length ≤ 1)
    (hnone : resolve s p true path = none → ∀ s', Quiet s s' → Refs τ s' → Q none s')
    (hsome : ∀ dp name s', Quiet s s' → Refs (dp :: τ) s' → (s'.dinode dp).type = .dir →
      resolve s p true path = some (dp, name) → Q (some (dp, name)) s') :
    wp (nameiparent p path) E Q s := by
  unfold nameiparent
  refine wp_imp (namex_spec h hE hcwd hτ) ?_
  rintro r s₁ ⟨hq, hr, h₁⟩
  match r with
  | none => exact hnone hr.symm s₁ hq h₁
  | some (dp, name) =>
    refine hsome dp name s₁ hq h₁ ?_ hr.symm
    obtain ⟨ip, -, hw⟩ := Option.bind_eq_some_iff.mp hr.symm
    rw [hq.dinode]
    exact walk_parent hw

/-! ### Changing an inode -/

section

variable {d : Dinode}

lemma setInode_dinode (s : St) (i j : Nat) (d : Dinode) :
    (s.setInode i d).dinode j = if j = i then d else s.dinode j :=
  update_apply ..

lemma setInode_live (s : St) (i j : Nat) (d : Dinode) :
    (s.setInode i d).Live j ↔ if j = i then d.type ≠ .free else s.Live j := by
  unfold St.Live
  rw [setInode_dinode]
  split <;> rfl

/-- An inode changes and is then allocated. -/
lemma Refs.setInode (h : Refs τ s) (hd : d.type ≠ .free)
    (hn : d.nlink = 0 → s.valid i = true ∧ 0 < s.ref i) (hents : ∀ e ∈ d.ents, e.inum < 65536) :
    Refs τ (s.setInode i d) where
  ref := h.ref
  used := h.used
  bound := h.bound
  valid := by
    intro j hj hv
    rw [setInode_live]
    split
    · exact hd
    · exact h.valid j hj hv
  held := by
    intro j hj
    rw [setInode_live]
    split
    · exact hd
    · exact h.held j hj
  orphan := by
    intro j hj hz
    rw [setInode_live] at hj
    rw [setInode_dinode] at hz
    split at hj
    · rename_i hji
      rw [if_pos hji] at hz
      exact hji ▸ hn hz
    · rename_i hji
      rw [if_neg hji] at hz
      exact h.orphan j hj hz
  free := by
    intro j hj
    rw [setInode_live] at hj
    rw [setInode_dinode]
    split at hj
    · exact absurd hd hj
    · rename_i hji
      rw [if_neg hji]
      exact h.free j hj
  ents := by
    intro j
    rw [setInode_dinode]
    split
    · exact hents
    · exact h.ents j
  ninodes := h.ninodes

/-- What the references need is not affected by the answers. -/
lemma Refs.answered (h : Refs τ s) (a : Nat → Bool) : Refs τ { s with answers := a } :=
  ⟨h.ref, h.used, h.bound, h.valid, h.held, h.orphan, h.free, h.ents, h.ninodes⟩

end

lemma mem_addEnt {e : Dirent} (h : e ∈ addEnt ents de) : e = de ∨ e ∈ ents := by
  unfold addEnt at h
  split at h
  · exact (List.mem_or_eq_of_mem_set h).symm
  · rcases List.mem_append.mp h with h | h
    · exact .inr h
    · exact .inl (List.mem_singleton.mp h)

/-! ### Adding an entry -/

/-- There is room for another entry in the directory: an empty entry, or one at the end in the last
block or in a block that can be allocated. -/
def St.Space (s : St) (dp : Nat) : Prop :=
  let ents := (s.dinode dp).ents
  emptyEnt ents < ents.length ∨
    emptyEnt ents < MAXFILE * DPB ∧ (emptyEnt ents % DPB = 0 → s.answers 0 = true)

lemma wp_writeEnt {Q : Bool → St → Prop}
    (hfail : ¬ s.Space dp → ∀ a, Q false { s with answers := a })
    (hok : s.Space dp → ∀ a, Q true (St.setInode { s with answers := a } dp
      { s.dinode dp with ents := addEnt (s.dinode dp).ents de })) :
    wp (writeEnt dp (emptyEnt (s.dinode dp).ents) de) E Q s := by
  simp only [St.Space, not_or, not_and, Classical.not_imp] at hfail hok
  simp only [writeEnt, wp_bind, wp_getInode, wp_ite, wp_setInode, wp_pure]
  refine ⟨fun hlt => ?_, fun hend => ⟨fun hmax => ?_, fun hmax => ?_⟩⟩
  · have := hok (.inl hlt) s.answers
    rwa [addEnt, if_pos hlt] at this
  · exact hfail ⟨hend, fun hlt => by omega⟩ s.answers
  · have hgrow : (emptyEnt (s.dinode dp).ents % DPB = 0 → s.answers 0 = true) →
        ∀ a, Q true (St.setInode { s with answers := a } dp
          { s.dinode dp with ents := (s.dinode dp).ents ++ [de] }) := by
      intro hspace a
      have := hok (.inr ⟨by omega, hspace⟩) a
      rwa [addEnt, if_neg hend] at this
    refine ⟨fun hblock => ?_, fun hblock => ?_⟩
    · simp only [ask, wp_bind, wp_get, wp_set, wp_pure]
      refine ⟨fun hspace => ?_, fun hspace => ?_⟩
      · rw [hspace]
        exact hgrow (fun _ => hspace) _
      · have hfull := hfail ⟨hend, fun _ => ⟨hblock, hspace⟩⟩
        rw [Bool.not_eq_true] at hspace
        rw [hspace]
        exact hfull _
    · exact ⟨fun _ => hgrow (fun h => absurd h hblock) s.answers, fun hne => (hne trivial).elim⟩

/-- `dirlink` of a name that the directory does not have. -/
lemma wp_dirlink_absent {Q : Bool → St → Prop} (hdir : (s.dinode dp).type = .dir)
    (hnone : findEnt name (s.dinode dp).ents = none)
    (hfail : ¬ s.Space dp → ∀ a, Q false { s with answers := a })
    (hok : s.Space dp → ∀ a, Q true (St.setInode { s with answers := a } dp
      { s.dinode dp with ents := addEnt (s.dinode dp).ents ⟨inum % 65536, name⟩ })) :
    wp (dirlink dp name inum) E Q s := by
  simp only [dirlink, dirlookup, wp_bind, wp_getInode, wp_ite, wp_throw]
  refine ⟨fun hne => absurd hdir hne, fun _ => ?_⟩
  rw [hnone]
  exact wp_writeEnt hfail hok

/-- `dirlink` of any name. -/
lemma wp_dirlink {Q : Bool → St → Prop} (h : Refs τ s) (hE : Tolerates E s) (hτ : τ.length ≤ 2)
    (hdir : (s.dinode dp).type = .dir) (hfail : ∀ s', Steady s s' → Refs τ s' → Q false s')
    (hok : findEnt name (s.dinode dp).ents = none → ∀ a, Q true (St.setInode
      { s with answers := a } dp
      { s.dinode dp with ents := addEnt (s.dinode dp).ents ⟨inum % 65536, name⟩ })) :
    wp (dirlink dp name inum) E Q s := by
  simp only [dirlink, wp_bind]
  refine wp_dirlookup h hE.toLookups hτ hdir (fun hfind => ?_) fun i k hfind => ?_
  · exact wp_writeEnt (fun _ a => hfail _ ⟨rfl, rfl, rfl, rfl⟩ (h.answered a)) fun _ => hok hfind
  · have h₁ := h.iget (h.findEnt hfind)
    have hq := quiet_iget s i
    simp only [wp_bind, wp_iput, wp_pure]
    exact hfail _ (hq.trans (quiet_iput h₁ (h.kept.quiet hq))).toSteady h₁.iput

end Xv6.Fs
