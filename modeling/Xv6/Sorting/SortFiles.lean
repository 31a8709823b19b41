import Xv6.Sorting.CountingSort
import Xv6.Sorting.MergeSort

/-!
# `sort_files`

The two branches of `sort_files`, and the order in which the counting sort leaves the names.
-/

namespace Xv6.Sorting

open Lib

/-- The array after `sort_files`. The threads of the counting sort run as in `sched`, those of the
merge sort as in `order`. -/
def sortFiles (time : List UInt8 → Int) (sched : List (Fin THREAD_COUNT))
    (order : Int → Int → List (Fin K_WAY)) (files : List FileEntry) (column : Column) :
    Option (List FileEntry) :=
  let files := preprocessSortKeys time files column
  if files.length ≤ LAZY_THRESHOLD then
    parallelCountingSort files sched
  else
    parallelMergeSort order column files 0 (files.length - 1)

variable {time : List UInt8 → Int} {sched : List (Fin THREAD_COUNT)} {files : List FileEntry}
  {column : Column}

/-! ### Comparisons -/

lemma strcmp_self (a : List UInt8) : strcmp a a = 0 := by
  induction a with
  | nil => rfl
  | cons c a ih => rw [strcmp, if_pos rfl, ih]

lemma strcmp_neg (a : List UInt8) : ∀ b, strcmp b a = - strcmp a b := by
  induction a with
  | nil =>
    intro b
    cases b <;> simp [strcmp]
  | cons c a ih =>
    intro b
    cases b with
    | nil => simp [strcmp]
    | cons d b =>
      rw [strcmp, strcmp]
      by_cases hcd : c = d
      · rw [if_pos hcd.symm, if_pos hcd, ih]
      · rw [if_neg (Ne.symm hcd), if_neg hcd]
        ring

lemma strcmp_le_iff (a b : List UInt8) : strcmp a b ≤ 0 ↔ ¬ strcmp b a < 0 := by
  rw [strcmp_neg a b]
  omega

/-! ### The counting branch -/

/-- Every key of the counting sort but the ids is a remainder of a division by 9999999. -/
lemma sortKeyOf_lt (hcol : column ≠ .id) (f : FileEntry) : sortKeyOf time column f < 9999999 := by
  cases column with
  | id => exact absurd rfl hcol
  | name => exact Nat.mod_lt _ (by norm_num)
  | timestamp => exact Nat.mod_lt _ (by norm_num)

lemma close_preprocessSortKeys (hcol : column ≠ .id) :
    Close (preprocessSortKeys time files column) := by
  have hlt : ∀ f ∈ preprocessSortKeys time files column, f.sortKey < 9999999 := by
    intro f hf
    obtain ⟨g, -, rfl⟩ := List.mem_map.mp hf
    exact sortKeyOf_lt hcol g
  intro f hf g _
  have := hlt f hf
  omega

/-- The counting branch sorts stably by the keys. -/
lemma sortFiles_counting (order : Int → Int → List (Fin K_WAY)) (hcol : column ≠ .id)
    (hne : files ≠ []) (hlen : files.length ≤ LAZY_THRESHOLD)
    (hjoin : ∀ t, cells (preprocessSortKeys time files column) ≤ sched.count t) :
    ∃ out, sortFiles time sched order files column = some out ∧
      IsStableSort FileEntry.sortKey (preprocessSortKeys time files column) out := by
  have hlen' : (preprocessSortKeys time files column).length ≤ LAZY_THRESHOLD := by
    simpa [preprocessSortKeys] using hlen
  have hne' : preprocessSortKeys time files column ≠ [] := by
    simpa [preprocessSortKeys] using hne
  rw [sortFiles, if_pos hlen']
  exact parallelCountingSort_spec hne' (close_preprocessSortKeys hcol) hjoin

/-- The order in which the counting branch leaves the entries, for an order of entries that does not
look at the keys. -/
lemma counting_pairwise_iff {out : List FileEntry} {r : FileEntry → FileEntry → Prop}
    (hirr : ∀ a, ¬ r a a)
    (hkey : ∀ a b k l, r { a with sortKey := k } { b with sortKey := l } ↔ r a b)
    (h : IsStableSort FileEntry.sortKey (preprocessSortKeys time files column) out) :
    (out.Pairwise fun a b => ¬ r b a) ↔
      ∀ i j : Fin files.length, r files[i] files[j] →
        Before (sortKeyOf time column) files i j := by
  have hlen : files.length = (preprocessSortKeys time files column).length := by
    simp [preprocessSortKeys]
  rw [h.pairwise_not_iff hirr, (finCongr hlen).forall_congr]
  intro i
  rw [(finCongr hlen).forall_congr]
  intro j
  simp only [Before, preprocessSortKeys, Fin.getElem_fin, List.getElem_map, hkey]
  rfl

/-! ### Names -/

def IsAlnum (c : UInt8) : Prop :=
  (48 ≤ c.toNat ∧ c.toNat ≤ 57) ∨ (65 ≤ c.toNat ∧ c.toNat ≤ 90) ∨ (97 ≤ c.toNat ∧ c.toNat ≤ 122)

instance (c : UInt8) : Decidable (IsAlnum c) := by
  unfold IsAlnum
  infer_instance

/-- The names that the README asks for. -/
def ShortName (name : List UInt8) : Prop := name.length ≤ 5 ∧ ∀ c ∈ name, IsAlnum c

instance (name : List UInt8) : Decidable (ShortName name) :=
  have : Decidable (∀ c ∈ name, IsAlnum c) := List.decidableBAll IsAlnum name
  inferInstanceAs (Decidable (_ ∧ _))

/-- Names of lower-case letters whose value is below 9999999: with five letters the first is at most
`q`. -/
structure LowerName (name : List UInt8) : Prop where
  letters : ∀ c ∈ name, 97 ≤ c.toNat ∧ c.toNat ≤ 122
  length : name.length ≤ 5
  first : name.length = 5 → ∀ c ∈ name.head?, c.toNat ≤ 113

/-- No name comes before a shorter one. -/
def ShorterFirst (files : List FileEntry) : Prop :=
  ∀ f ∈ files, ∀ g ∈ files, f.name.length < g.name.length → strcmp f.name g.name ≤ 0

/-- The digit of a letter. -/
lemma toInt8_letter {c : UInt8} (h : 97 ≤ c.toNat ∧ c.toNat ≤ 122) :
    c.toInt8.toInt = c.toNat := by
  have hlt : 2 * c.toBitVec.toNat < 2 ^ 8 := by
    have hnat : c.toBitVec.toNat = c.toNat := rfl
    omega
  exact BitVec.toInt_eq_toNat_of_lt hlt

section

variable {a b : List UInt8}

/-- Digits are between 1 and 26, so those that follow do not make up for a smaller value. -/
lemma nameValueFrom_lt (ha : ∀ c ∈ a, 97 ≤ c.toNat ∧ c.toNat ≤ 122)
    (hb : ∀ c ∈ b, 97 ≤ c.toNat ∧ c.toNat ≤ 122) (hlen : a.length ≤ b.length) {v w : Int}
    (hv : 0 ≤ v) (h : v < w) : nameValueFrom v a < nameValueFrom w b := by
  induction b generalizing a v w with
  | nil =>
    rw [List.length_eq_zero_iff.mp (Nat.le_zero.mp hlen)]
    exact h
  | cons d b ih =>
    have hd := hb d (by simp)
    have hd' := toInt8_letter hd
    cases a with
    | nil =>
      have hlt : v < w * 27 + (d.toInt8.toInt - 96) := by omega
      exact ih (a := []) (by simp) (fun c hc => hb c (by simp [hc])) (by simp) hv hlt
    | cons c a =>
      have hc := ha c (by simp)
      have hc' := toInt8_letter hc
      exact ih (fun x hx => ha x (by simp [hx])) (fun x hx => hb x (by simp [hx]))
        (Nat.le_of_succ_le_succ hlen) (by omega) (by omega)

lemma nameValueFrom_lt_of_strcmp (ha : ∀ c ∈ a, 97 ≤ c.toNat ∧ c.toNat ≤ 122)
    (hb : ∀ c ∈ b, 97 ≤ c.toNat ∧ c.toNat ≤ 122) (hlen : a.length ≤ b.length)
    (h : strcmp a b < 0) {v : Int} (hv : 0 ≤ v) : nameValueFrom v a < nameValueFrom v b := by
  induction b generalizing a v with
  | nil =>
    rw [List.length_eq_zero_iff.mp (Nat.le_zero.mp hlen)] at h
    exact absurd h (lt_irrefl _)
  | cons d b ih =>
    have hd := hb d (by simp)
    have hd' := toInt8_letter hd
    have hb' : ∀ x ∈ b, 97 ≤ x.toNat ∧ x.toNat ≤ 122 := fun x hx => hb x (by simp [hx])
    cases a with
    | nil => exact nameValueFrom_lt (a := []) (by simp) hb' (by simp) hv (by omega)
    | cons c a =>
      have hc := ha c (by simp)
      have hc' := toInt8_letter hc
      have ha' : ∀ x ∈ a, 97 ≤ x.toNat ∧ x.toNat ≤ 122 := fun x hx => ha x (by simp [hx])
      have hlen' := Nat.le_of_succ_le_succ hlen
      rw [strcmp] at h
      split at h
      · rename_i hcd
        subst hcd
        exact ih ha' hb' hlen' h (by omega)
      · exact nameValueFrom_lt ha' hb' hlen' (by omega) (by omega)

/-- Shorter names have smaller values, names of one length have values in their order. -/
lemma LowerName.nameValue_lt (ha : LowerName a) (hb : LowerName b)
    (h : a.length < b.length ∨ a.length = b.length ∧ strcmp a b < 0) :
    nameValue a < nameValue b := by
  obtain h | ⟨hlen, h⟩ := h
  · cases b with
    | nil => simp at h
    | cons d b =>
      have hd := hb.letters d (by simp)
      have hd' := toInt8_letter hd
      exact nameValueFrom_lt ha.letters (fun c hc => hb.letters c (by simp [hc]))
        (Nat.le_of_lt_succ h) le_rfl (by omega)
  · exact nameValueFrom_lt_of_strcmp ha.letters hb.letters hlen.le h le_rfl

lemma LowerName.hashString_eq (h : LowerName a) : (hashString a : Int) = nameValue a := by
  have hvalue : 0 ≤ nameValue a ∧ nameValue a < 9999999 := by
    obtain ⟨hall, hlen, hfirst⟩ := h
    have hdigit : ∀ c ∈ a, 1 ≤ c.toInt8.toInt - 96 ∧ c.toInt8.toInt - 96 ≤ 26 := by
      intro c hc
      have := hall c hc
      rw [toInt8_letter this]
      omega
    match a with
    | [] | [c₁] | [c₁, c₂] | [c₁, c₂, c₃] | [c₁, c₂, c₃, c₄] =>
      simp only [List.mem_cons, List.not_mem_nil, forall_eq_or_imp, false_implies, implies_true,
        forall_eq, or_false] at hdigit
      simp only [Sorting.nameValue, nameValueFrom]
      omega
    | [c₁, c₂, c₃, c₄, c₅] =>
      have hq := hfirst rfl c₁ rfl
      rw [← Int.ofNat_le, ← toInt8_letter (hall c₁ (by simp))] at hq
      simp only [List.mem_cons, List.not_mem_nil, forall_eq_or_imp, forall_eq,
        or_false] at hdigit
      simp only [Sorting.nameValue, nameValueFrom]
      omega
    | c₁ :: c₂ :: c₃ :: c₄ :: c₅ :: c₆ :: a =>
      simp only [List.length_cons] at hlen
      omega
  rw [Sorting.hashString_eq]
  push_cast
  rw [toULong_cast]
  omega

end

/-- Then the hashes have the order of the names. -/
lemma ShorterFirst.hashString_lt (h : ShorterFirst files) (hnames : ∀ f ∈ files, LowerName f.name)
    {f g : FileEntry} (hf : f ∈ files) (hg : g ∈ files) (hlt : strcmp f.name g.name < 0) :
    hashString f.name < hashString g.name := by
  have hlen : ¬ g.name.length < f.name.length := by
    intro hlen
    have hle := h g hg f hf hlen
    rw [strcmp_neg] at hle
    omega
  rw [← Int.ofNat_lt, (hnames f hf).hashString_eq, (hnames g hg).hashString_eq]
  exact (hnames f hf).nameValue_lt (hnames g hg) (by omega)

lemma shorterFirst_of_hashString (hnames : ∀ f ∈ files, LowerName f.name)
    (h : ∀ f ∈ files, ∀ g ∈ files, strcmp f.name g.name < 0 →
      hashString f.name ≤ hashString g.name) : ShorterFirst files := by
  intro f hf g hg hlen
  by_contra hgt
  have hle := h g hg f hf (by rw [strcmp_neg]; omega)
  rw [← Int.ofNat_le, (hnames f hf).hashString_eq, (hnames g hg).hashString_eq] at hle
  exact absurd ((hnames f hf).nameValue_lt (hnames g hg) (.inl hlen)) (by omega)

/-- The threads take turns, `n` for each. -/
def roundRobin (n : Nat) : List (Fin THREAD_COUNT) :=
  (List.replicate n (List.finRange THREAD_COUNT)).flatten

def named (name : List UInt8) : FileEntry :=
  { name := name, id := 0, timestamp := [], sortKey := 0 }

end Xv6.Sorting
