import Xv6.Fs.LinkCounts

/-!
# Path names

`namei` and `nameiparent` against the list of pieces of a path: the runs of characters between
slashes, without the empty ones, each cut to `DIRSIZ` characters. `skipelem` takes these pieces off
one by one, and the look-ahead of `namex` finds the last one.
-/

namespace Xv6.Fs

open Lib

variable {s s' : St} {ip dp : Nat} {p : Fin NPROC} {E : Panic → Prop} {name : Name}
  {path : List Char} {D : Nat → Dinode} {names : List Name} {r : Option (Nat × Name)}

/-! ### Pieces -/

/-- The maximal non-empty runs without a slash, as far as they fit in a name. -/
def pieces (path : List Char) : List Name :=
  ((path.splitOn '/').filter (· ≠ [])).map (List.take DIRSIZ)

lemma pieces_slash (path : List Char) : pieces ('/' :: path) = pieces path := by
  unfold pieces
  rw [List.splitOn_cons_eq_if_modifyHead, if_pos (beq_self_eq_true _)]
  rfl

lemma pieces_dropWhile (path : List Char) :
    pieces (path.dropWhile (· = '/')) = pieces path := by
  induction path with
  | nil => rfl
  | cons c path ih =>
    by_cases hc : c = '/'
    · rw [List.dropWhile_cons_of_pos (by simpa using hc), ih, hc, pieces_slash]
    · rw [List.dropWhile_cons_of_neg (by simpa using hc)]

/-- A piece, and what comes after it. -/
lemma pieces_append {w rest : List Char} (hw : w ≠ []) (hfree : '/' ∉ w)
    (hrest : rest = [] ∨ rest.head? = some '/') :
    pieces (w ++ rest) = w.take DIRSIZ :: pieces rest := by
  rcases hrest with rfl | hhead
  · unfold pieces
    rw [List.append_nil, List.splitOn_eq_singleton hfree]
    simp [hw]
  · obtain ⟨tail, rfl⟩ : ∃ tail, rest = '/' :: tail := by
      cases rest with
      | nil => cases hhead
      | cons c tail => exact ⟨tail, by rw [Option.some.inj hhead]⟩
    rw [pieces_slash]
    unfold pieces
    rw [List.splitOn_append_cons_self_of_not_mem hfree]
    simp [hw]

/-- `skipelem` takes the pieces off in turn. -/
lemma elements_eq_pieces (path : List Char) : elements path = pieces path := by
  rw [elements_eq]
  cases hskip : skipelem path with
  | none =>
    unfold skipelem at hskip
    simp only at hskip
    split at hskip
    · rename_i hnil
      rw [← pieces_dropWhile, hnil]
      rfl
    · cases hskip
  | some r =>
    obtain ⟨name, rest⟩ := r
    have hlt := length_skipelem hskip
    simp only
    rw [elements_eq_pieces rest]
    unfold skipelem at hskip
    simp only at hskip
    split at hskip
    · cases hskip
    · rename_i hne
      obtain ⟨rfl, rfl⟩ := Prod.mk.inj (Option.some.inj hskip)
      rw [pieces_dropWhile, ← pieces_dropWhile path]
      set l := path.dropWhile (· = '/') with hl
      conv_rhs => rw [← List.takeWhile_append_dropWhile (p := (· ≠ '/')) (l := l)]
      refine (pieces_append ?_ ?_ ?_).symm
      · obtain ⟨c, tail, hc⟩ := List.exists_cons_of_ne_nil hne
        have hhead : c ≠ '/' := by
          have hnot := List.head_dropWhile_not (fun c => decide (c = '/')) (l := path) hne
          simpa [← hl, hc] using hnot
        rw [hc, List.takeWhile_cons_of_pos (by simpa using hhead)]
        nofun
      · intro hmem
        simpa using List.all_eq_true.mp List.all_takeWhile '/' hmem
      · cases hd : l.dropWhile (· ≠ '/') with
        | nil => exact Or.inl rfl
        | cons c tail =>
          have hnot := List.head?_dropWhile_not (fun c => decide (c ≠ '/')) l
          rw [hd] at hnot
          right
          simpa using hnot
termination_by path.length

/-! ### Following names -/

/-- The inode that a directory has under a name. -/
def entry (D : Nat → Dinode) (dp : Nat) (name : Name) : Option Nat :=
  if (D dp).type = .dir then (findEnt name (D dp).ents).map (·.1) else none

/-- The inode that is reached by looking up the names in order. -/
def follow (D : Nat → Dinode) (ip : Nat) (names : List Name) : Option Nat :=
  names.foldlM (entry D) ip

lemma follow_cons :
    follow D ip (name :: names) = (entry D ip name).bind fun i => follow D i names :=
  rfl

lemma follow_append (ip : Nat) (l l' : List Name) :
    follow D ip (l ++ l') = (follow D ip l).bind fun i => follow D i l' :=
  List.foldlM_append

/-- Some name on the way is looked up in what is no directory, or is not there. -/
lemma follow_eq_none_iff : follow D ip names = none ↔ ∃ k, ∃ hk : k < names.length, ∃ i,
    follow D ip (names.take k) = some i ∧
      ((D i).type ≠ .dir ∨ findEnt names[k] (D i).ents = none) := by
  have hentry : ∀ {i name}, entry D i name = none ↔
      ((D i).type ≠ .dir ∨ findEnt name (D i).ents = none) := by
    intro i name
    unfold entry
    split_ifs with hdir
    · simp [hdir]
    · exact iff_of_true rfl (Or.inl hdir)
  induction names generalizing ip with
  | nil => exact iff_of_false nofun fun ⟨k, hk, _⟩ => absurd hk (Nat.not_lt_zero k)
  | cons name names ih =>
    rw [follow_cons]
    cases he : entry D ip name with
    | none =>
      rw [Option.bind_none]
      exact iff_of_true rfl ⟨0, Nat.succ_pos _, ip, rfl, hentry.mp he⟩
    | some i =>
      rw [Option.bind_some]
      refine (@ih i).trans ?_
      constructor
      · rintro ⟨k, hk, j, hj, hno⟩
        refine ⟨k + 1, Nat.succ_lt_succ hk, j, ?_, hno⟩
        rw [List.take_succ_cons, follow_cons, he]
        exact hj
      · rintro ⟨_ | k, hk, j, hj, hno⟩
        · obtain rfl : ip = j := Option.some.inj hj
          have hnone : entry D ip name = none := hentry.mpr hno
          rw [hnone] at he
          cases he
        · rw [List.take_succ_cons, follow_cons, he] at hj
          exact ⟨k, Nat.lt_of_succ_lt_succ hk, j, hj, hno⟩

lemma walk_false_eq (ip : Nat) (names : List Name) :
    walk D false ip names = (follow D ip names).map fun i => (i, []) := by
  induction names generalizing ip with
  | nil => rfl
  | cons name names ih =>
    unfold walk
    rw [follow_cons]
    simp only [Bool.false_eq_true, false_and, if_false, ih, entry]
    by_cases hdir : (D ip).type = .dir
    · rw [if_neg (not_not_intro hdir), if_pos hdir]
      cases findEnt name (D ip).ents <;> rfl
    · rw [if_pos hdir, if_neg hdir]
      rfl

/-- With `nameiparent` the loop stops in front of the last name. -/
lemma walk_true_concat (ip : Nat) (names : List Name) (last : Name) :
    walk D true ip (names ++ [last]) = (follow D ip names).bind fun dp =>
      if (D dp).type = .dir then some (dp, last) else none := by
  induction names generalizing ip with
  | nil =>
    show walk D true ip [last] = if (D ip).type = .dir then some (ip, last) else none
    unfold walk
    by_cases hdir : (D ip).type = .dir <;> simp [hdir]
  | cons name names ih =>
    rw [List.cons_append, follow_cons]
    unfold walk
    have hmore : ¬(true = true ∧ names ++ [last] = []) := by simp
    by_cases hdir : (D ip).type = .dir
    · rw [if_neg (not_not_intro hdir), if_neg hmore, entry, if_pos hdir]
      cases findEnt name (D ip).ents with
      | none => rfl
      | some r => exact ih r.1
    · rw [if_pos hdir, entry, if_neg hdir]
      rfl

/-! ### The two functions -/

/-- A lookup has changed the reference count of the inode it returns, and nothing else. -/
structure Refers (s s' : St) (r : Option Nat) : Prop where
  ref : ∀ i, s'.ref i = s.ref i + if r = some i then 1 else 0
  quiet : Quiet s s'

lemma Refs.refers (h : Refs [] s) (hq : Quiet s s') (h' : Refs (found r ++ []) s') :
    Refers s s' (r.map (·.1)) := by
  refine ⟨fun i => ?_, hq⟩
  rw [h'.ref, h.ref, hq.held, List.append_nil, List.count_nil, Nat.add_zero, found]
  cases r with
  | none => rfl
  | some r =>
    simp only [Option.map_some, Option.toList_some, List.count_singleton, Option.some.injEq,
      beq_iff_eq]

/-- What `namei` returns for a path that starts at `start`. -/
structure NameiFinds (s : St) (start : Nat) (path : List Char) (r : Option Nat) : Prop where
  result : r = follow s.dinode start (pieces path)
  fails : r = none ↔ ∃ k, ∃ hk : k < (pieces path).length, ∃ i,
    follow s.dinode start ((pieces path).take k) = some i ∧
      ((s.dinode i).type ≠ .dir ∨ findEnt (pieces path)[k] (s.dinode i).ents = none)

/-- What `nameiparent` returns for such a path, in the state `s'`. -/
structure ParentFinds (E : Panic → Prop) (s : St) (start : Nat) (path : List Char)
    (r : Option (Nat × Name)) (s' : St) : Prop where
  succeeds : r ≠ none ↔ pieces path ≠ [] ∧
    ∃ dp, follow s.dinode start (pieces path).dropLast = some dp ∧ (s.dinode dp).type = .dir
  result : ∀ dp name, r = some (dp, name) →
    follow s.dinode start (pieces path).dropLast = some dp ∧ (pieces path).getLast? = some name ∧
      wp (dirlookup dp name) E
        (fun r' _ => r'.map (·.1) = follow s.dinode start (pieces path)) s'

lemma parentFinds (hE : Lookups E s) {start : Nat} (hq : Quiet s s')
    (hr : r = walk s.dinode true start (pieces path)) (h' : Refs (found r ++ []) s') :
    ParentFinds E s start path r s' := by
  rcases List.eq_nil_or_concat (pieces path) with hnil | ⟨names, last, hlast⟩
  · rw [hnil] at hr
    subst hr
    refine ⟨iff_of_false (absurd rfl) fun hc => hc.1 hnil, ?_⟩
    intro dp name hc
    cases hc
  · rw [List.concat_eq_append] at hlast
    rw [hlast, walk_true_concat] at hr
    have hdrop : (pieces path).dropLast = names := by rw [hlast, List.dropLast_concat]
    have hsome : ∀ {dp name}, r = some (dp, name) ↔
        follow s.dinode start names = some dp ∧ (s.dinode dp).type = .dir ∧ name = last := by
      intro dp name
      rw [hr, Option.bind_eq_some_iff]
      constructor
      · rintro ⟨i, hi, hif⟩
        split_ifs at hif with hdir
        obtain ⟨rfl, rfl⟩ := Prod.mk.inj (Option.some.inj hif)
        exact ⟨hi, hdir, rfl⟩
      · rintro ⟨hi, hdir, rfl⟩
        exact ⟨dp, hi, if_pos hdir⟩
    constructor
    · rw [hdrop, Option.ne_none_iff_exists', hlast]
      constructor
      · rintro ⟨⟨dp, name⟩, hsm⟩
        obtain ⟨hi, hdir, -⟩ := hsome.mp hsm
        exact ⟨by simp, dp, hi, hdir⟩
      · rintro ⟨-, dp, hi, hdir⟩
        exact ⟨(dp, last), hsome.mpr ⟨hi, hdir, rfl⟩⟩
    · intro dp name hsm
      obtain ⟨hi, hdir, rfl⟩ := hsome.mp hsm
      refine ⟨by rw [hdrop, hi], by rw [hlast, List.getLast?_concat], ?_⟩
      have hfollow : follow s.dinode start (pieces path) = entry s.dinode dp name := by
        rw [hlast, follow_append, hi, Option.bind_some, follow_cons]
        exact Option.bind_fun_some _
      rw [hfollow, entry, if_pos hdir, ← hq.dinode]
      rw [← hq.dinode] at hdir
      refine wp_dirlookup h' (hE.quiet hq) ?_ hdir (fun hnone => ?_) fun i k hfind => ?_
      · rw [hsm]
        exact Nat.le_succ 1
      · rw [hnone]
      · rw [hfind]

/-- **Path resolution follows the pieces of the path.** From the root or the current directory
`namei` looks up one piece after the other, `nameiparent` all but the last, and the only reference
count that changes is that of the inode returned. The only panic is for want of an entry in an inode
table that has fewer than three left. -/
theorem namei_follows_pieces (h : Refs [] s) (hroot : s.Live ROOTINO) (halive : Alive s)
    (hcwd : (s.proc p).cwd ≠ none) (path : List Char) :
    ∃ start, startInode s p path = some start ∧
      wp (namei p path) (fun e => e = .noInodes ∧ NINODE < s.used + 3)
        (fun r s' => NameiFinds s start path r ∧ Refers s s' r) s ∧
      wp (nameiparent p path) (fun e => e = .noInodes ∧ NINODE < s.used + 3)
        (fun r s' => ParentFinds (fun e => e = .noInodes ∧ NINODE < s.used + 3) s start path r s' ∧
          Refers s s' (r.map (·.1))) s := by
  obtain ⟨start, hstart⟩ : ∃ start, startInode s p path = some start := by
    unfold startInode
    split_ifs
    · exact ⟨_, rfl⟩
    · exact Option.ne_none_iff_exists'.mp hcwd
  have hE : Lookups (fun e => e = .noInodes ∧ NINODE < s.used + 3) s := by
    refine ⟨.inr ⟨hroot, halive⟩, ?_⟩
    rw [h.distinct]
    exact (Nat.lt_or_ge NINODE (s.used + 3)).imp_left fun hfull => ⟨rfl, hfull⟩
  have hresolve : ∀ par, resolve s p par path = walk s.dinode par start (pieces path) := by
    intro par
    rw [resolve, hstart, elements_eq_pieces]
    rfl
  refine ⟨start, hstart, ?_, ?_⟩
  · unfold namei
    rw [wp_bind]
    refine wp_imp (namex_spec h hE (.inr hcwd) (Nat.zero_le _)) ?_
    rintro r s' ⟨hq, hr, h'⟩
    have hfollow : r.map (·.1) = follow s.dinode start (pieces path) := by
      rw [hr, hresolve, walk_false_eq, Option.map_map]
      exact Option.map_id'
    refine ⟨⟨hfollow, ?_⟩, h.refers hq h'⟩
    rw [hfollow]
    exact follow_eq_none_iff
  · unfold nameiparent
    refine wp_imp (namex_spec h hE (.inr hcwd) (Nat.zero_le _)) ?_
    rintro r s' ⟨hq, hr, h'⟩
    exact ⟨parentFinds hE hq (hr.trans (hresolve true)) h', h.refers hq h'⟩

theorem namei_follows_pieces_links :
    ∃ t t', Run TreeStep mkfsRoot linkCalls.reverse t ∧
      (namei 0 ['a', '/', '/', '.', '.', '/', 'g']).run t = .ok (some 3, t') ∧
      Refers t t' (some 3) := by
  obtain ⟨t, hrun, hseen⟩ : ∃ t, Run TreeStep mkfsRoot linkCalls.reverse t ∧ _ :=
    run_of_after (fun t => t.used + 3 ≤ NINODE ∧ (t.proc 0).cwd = some ROOTINO ∧
      follow t.dinode ROOTINO (pieces ['a', '/', '/', '.', '.', '/', 'g']) = some 3)
      (by decide +kernel)
  obtain ⟨hroom, hcwd, hfollow⟩ := of_decide_eq_true hseen
  obtain ⟨hok, ht, hh⟩ := hung_run wellFormed_mkfsRoot hrun
  have hroot : t.Live ROOTINO := by simp [St.Live, Fs.Tree.root ht]
  obtain ⟨start, hstart, hnamei, -⟩ := namei_follows_pieces hok.refs hroot (alive_of_hung ht hh)
    (p := 0) (by simp [hcwd]) ['a', '/', '/', '.', '.', '/', 'g']
  obtain ⟨r, t', hret, hfinds, hrefers⟩ := wp_run (wp_mono hnamei
    (fun _ he => absurd he.2 (by omega)) fun _ _ hok => hok)
  obtain rfl : ROOTINO = start := Option.some.inj (hcwd.symm.trans hstart)
  obtain rfl : r = some 3 := hfinds.result.trans hfollow
  exact ⟨t, t', hrun, hret, hrefers⟩

end Xv6.Fs
