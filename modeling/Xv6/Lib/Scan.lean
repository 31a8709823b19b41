import Mathlib.Tactic
import Mathlib.Data.List.TakeWhile

/-!
# `scanf`

The conversions `%d` and `%s` on a text. A conversion skips white space and takes the longest
item of its form; the first character that does not fit stays in the text. Each conversion comes
with the relation that describes it.
-/

namespace Lib

variable {α : Type*} {p : α → Bool} {l w r : List α}

/-- `w` is the longest run of elements with `p` at the front of `l`. -/
def Splits (p : α → Bool) (l w r : List α) : Prop :=
  l = w ++ r ∧ (∀ a ∈ w, p a) ∧ ∀ a ∈ r.head?, ¬p a

lemma splits_takeWhile (p : α → Bool) (l : List α) : Splits p l (l.takeWhile p) (l.dropWhile p) :=
  ⟨List.takeWhile_append_dropWhile.symm, fun _ ha => List.mem_takeWhile_imp ha, fun a ha => by
    have := List.head?_dropWhile_not p l
    rw [Option.mem_def.mp ha] at this
    simpa using this⟩

lemma splits_iff : Splits p l w r ↔ l.takeWhile p = w ∧ l.dropWhile p = r := by
  refine ⟨?_, fun ⟨hw, hr⟩ => hw ▸ hr ▸ splits_takeWhile p l⟩
  rintro ⟨rfl, hw, hr⟩
  have hstop : r.takeWhile p = [] ∧ r.dropWhile p = r := by
    cases r with
    | nil => exact ⟨rfl, rfl⟩
    | cons a r => simp [hr a rfl]
  rw [List.takeWhile_append_of_pos hw, List.dropWhile_append_of_pos hw, hstop.1, hstop.2,
    List.append_nil]
  exact ⟨rfl, rfl⟩

namespace Scan

variable {text rest word : List Char} {v : Int}

/-- `isspace`. -/
def isSpace (c : Char) : Bool :=
  c = ' ' ∨ c = '\t' ∨ c = '\n' ∨ c = '\x0b' ∨ c = '\x0c' ∨ c = '\r'

def isDigit (c : Char) : Bool := '0' ≤ c ∧ c ≤ '9'

def decimal (digits : List Char) : Nat :=
  digits.foldl (fun v c => v * 10 + (c.toNat - '0'.toNat)) 0

/-- An optional sign. -/
def scanSign : List Char → Bool × List Char
  | '-' :: text => (true, text)
  | '+' :: text => (false, text)
  | text => (false, text)

def signed (negative : Bool) (v : Nat) : Int := if negative then -v else v

/-- `%d`: the value, before it is stored in an `int`, and the rest of the text. -/
def scanInt (text : List Char) : Option Int × List Char :=
  let (negative, text) := scanSign (text.dropWhile isSpace)
  let digits := text.takeWhile isDigit
  (if digits = [] then none else some (signed negative (decimal digits)), text.dropWhile isDigit)

/-- `%s`. -/
def scanWord (text : List Char) : Option (List Char) × List Char :=
  let text := text.dropWhile isSpace
  let word := text.takeWhile (!isSpace ·)
  (if word = [] then none else some word, text.dropWhile (!isSpace ·))

/-- The text starts with the number `v`. -/
def NumberAt (text : List Char) (v : Int) (rest : List Char) : Prop :=
  ∃ blank item digits, Splits isSpace text blank item ∧
    Splits isDigit (scanSign item).2 digits rest ∧ digits ≠ [] ∧
    v = signed (scanSign item).1 (decimal digits)

/-- The text does not start with a number; a sign without digits is skipped. -/
def NoNumberAt (text rest : List Char) : Prop :=
  ∃ blank item, Splits isSpace text blank item ∧ rest = (scanSign item).2 ∧
    ∀ c ∈ rest.head?, ¬isDigit c

/-- The text starts with a word. -/
def WordAt (text word rest : List Char) : Prop :=
  ∃ blank item, Splits isSpace text blank item ∧ Splits (!isSpace ·) item word rest ∧ word ≠ []

/-- There is nothing but white space. -/
def Blank (text : List Char) : Prop := ∀ c ∈ text, isSpace c

lemma scanInt_eq_some_iff : scanInt text = (some v, rest) ↔ NumberAt text v rest := by
  unfold scanInt NumberAt
  simp only [splits_iff, Prod.mk.injEq, Option.ite_none_left_eq_some, Option.some.injEq]
  constructor
  · rintro ⟨⟨hne, rfl⟩, rfl⟩
    exact ⟨_, _, _, ⟨rfl, rfl⟩, ⟨rfl, rfl⟩, hne, rfl⟩
  · rintro ⟨_, _, _, ⟨rfl, rfl⟩, ⟨rfl, rfl⟩, hne, rfl⟩
    exact ⟨⟨hne, rfl⟩, rfl⟩

lemma dropWhile_eq_self_of_takeWhile (h : l.takeWhile p = []) : l.dropWhile p = l := by
  have := List.takeWhile_append_dropWhile (p := p) (l := l)
  rwa [h, List.nil_append] at this

lemma scanInt_eq_none_iff : scanInt text = (none, rest) ↔ NoNumberAt text rest := by
  unfold scanInt NoNumberAt
  simp only [Prod.mk.injEq, ite_eq_left_iff, reduceCtorEq, imp_false, not_not]
  constructor
  · rintro ⟨hnil, rfl⟩
    have hsplit := splits_takeWhile isDigit (scanSign (text.dropWhile isSpace)).2
    exact ⟨_, _, splits_takeWhile isSpace text, dropWhile_eq_self_of_takeWhile hnil, hsplit.2.2⟩
  · rintro ⟨_, _, hsplit, rfl, hhead⟩
    obtain ⟨rfl, rfl⟩ := splits_iff.mp hsplit
    have hnone : Splits isDigit _ [] _ := ⟨(List.nil_append _).symm, nofun, hhead⟩
    exact splits_iff.mp hnone

lemma scanWord_eq_some_iff : scanWord text = (some word, rest) ↔ WordAt text word rest := by
  unfold scanWord WordAt
  simp only [splits_iff, Prod.mk.injEq, Option.ite_none_left_eq_some, Option.some.injEq]
  constructor
  · rintro ⟨⟨hne, rfl⟩, rfl⟩
    exact ⟨_, _, ⟨rfl, rfl⟩, ⟨rfl, rfl⟩, hne⟩
  · rintro ⟨_, _, ⟨rfl, rfl⟩, ⟨rfl, rfl⟩, hne⟩
    exact ⟨⟨hne, rfl⟩, rfl⟩

lemma scanWord_eq_none_iff : scanWord text = (none, rest) ↔ Blank text ∧ rest = [] := by
  unfold scanWord Blank
  simp only [Prod.mk.injEq, ite_eq_left_iff, reduceCtorEq, imp_false, not_not]
  constructor
  · rintro ⟨hnil, rfl⟩
    -- nothing is left after the white space, since the first character would be in a word
    have hempty : text.dropWhile isSpace = [] := by
      have hhead := (splits_takeWhile isSpace text).2.2
      cases hitem : text.dropWhile isSpace with
      | nil => rfl
      | cons c item =>
        rw [hitem] at hhead hnil
        simp [hhead c rfl] at hnil
    rw [hempty]
    exact ⟨List.dropWhile_eq_nil_iff.mp hempty, rfl⟩
  · rintro ⟨hblank, rfl⟩
    rw [List.dropWhile_eq_nil_iff.mpr hblank]
    exact ⟨rfl, rfl⟩

end Scan

end Lib
