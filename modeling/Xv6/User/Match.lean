import Xv6.User.Ulib

/-!
# The matcher of `grep`

`match`, `matchhere` and `matchstar` of `grep.c` on strings in memory, and the language of patterns
that they decide. The recursion is bounded by `fuel`; a result is reached with fuel in proportion
to the length of the two strings.
-/

namespace Xv6.Grep

open Lib

variable {m : Mem} {re text : Nat} {c : UInt8} {P T : List UInt8}

/-! ### The code -/

mutual

/-- `matchhere`: search for `re` at the beginning of `text`. -/
def matchhere (m : Mem) (re text : Nat) : Nat → Option Bool
  | 0 => none
  | fuel + 1 =>
    if m re = 0 then some true
    else if m (re + 1) = '*'.toUInt8 then matchstar m (m re) (re + 2) text fuel
    else if m re = '$'.toUInt8 ∧ m (re + 1) = 0 then some (m text = 0)
    else if m text ≠ 0 ∧ (m re = '.'.toUInt8 ∨ m re = m text) then
      matchhere m (re + 1) (text + 1) fuel
    else some false

/-- `matchstar`: search for `c*re` at the beginning of `text`. -/
def matchstar (m : Mem) (c : UInt8) (re text : Nat) : Nat → Option Bool
  | 0 => none
  | fuel + 1 =>
    match matchhere m re text fuel with
    | none => none
    | some true => some true
    | some false =>
      if m text ≠ 0 ∧ (m text = c ∨ c = '.'.toUInt8) then matchstar m c re (text + 1) fuel
      else some false

end

/-- The loop of `match`. -/
def matchFrom (m : Mem) (re text : Nat) : Nat → Option Bool
  | 0 => none
  | fuel + 1 =>
    match matchhere m re text fuel with
    | none => none
    | some true => some true
    | some false => if m text ≠ 0 then matchFrom m re (text + 1) fuel else some false

/-- `match(re, text)`. -/
def matchRe (m : Mem) (re text fuel : Nat) : Option Bool :=
  if m re = '^'.toUInt8 then matchhere m (re + 1) text fuel else matchFrom m re text fuel

/-! ### The language -/

inductive Item where
  /-- Any number of the character, or of any characters if it is a dot. -/
  | star (c : UInt8)
  /-- The end of the text. -/
  | last
  | any
  | char (c : UInt8)
  deriving DecidableEq, Repr

/-- What a single character of a pattern stands for. -/
def Item.single (c : UInt8) : Item := if c = '.'.toUInt8 then .any else .char c

/-- A pattern, read from left to right. -/
def items : List UInt8 → List Item
  | [] => []
  | [c] => [if c = '$'.toUInt8 then .last else .single c]
  | c :: d :: re =>
    if d = '*'.toUInt8 then .star c :: items re else .single c :: items (d :: re)

/-- The item takes the characters `w`, before `rest`. -/
def Item.Takes (w rest : List UInt8) : Item → Prop
  | .star c => ∀ x ∈ w, c = '.'.toUInt8 ∨ x = c
  | .last => w = [] ∧ rest = []
  | .any => ∃ x, w = [x]
  | .char c => w = [c]

/-- The items match a prefix of the text. -/
def Matched : List Item → List UInt8 → Prop
  | [], _ => True
  | item :: its, text => ∃ w rest, text = w ++ rest ∧ item.Takes w rest ∧ Matched its rest

/-- The pattern occurs in the text, at its beginning if the pattern starts with a caret. -/
def Occurs (P T : List UInt8) : Prop :=
  if P.head? = some '^'.toUInt8 then Matched (items P.tail) T
  else ∃ s, s <:+ T ∧ Matched (items P) s

/-! ### Items and texts -/

variable {its : List Item}

lemma matched_star_iff : Matched (.star c :: its) T ↔ Matched its T ∨
    ∃ x T', T = x :: T' ∧ (x = c ∨ c = '.'.toUInt8) ∧ Matched (.star c :: its) T' := by
  constructor
  · rintro ⟨w, rest, rfl, htakes, hrest⟩
    cases w with
    | nil => exact Or.inl hrest
    | cons x w =>
      refine Or.inr ⟨x, w ++ rest, rfl, (htakes x List.mem_cons_self).symm, w, rest, rfl, ?_, hrest⟩
      exact fun y hy => htakes y (List.mem_cons_of_mem x hy)
  · rintro (h | ⟨x, T', rfl, hx, w, rest, rfl, htakes, hrest⟩)
    · exact ⟨[], T, rfl, nofun, h⟩
    · refine ⟨x :: w, rest, rfl, fun y hy => ?_, hrest⟩
      rcases List.mem_cons.mp hy with rfl | hy
      · exact hx.symm
      · exact htakes y hy

lemma matched_single_iff : Matched (.single c :: its) T ↔
    ∃ x T', T = x :: T' ∧ (c = '.'.toUInt8 ∨ c = x) ∧ Matched its T' := by
  unfold Item.single
  split_ifs with hc
  · constructor
    · rintro ⟨_, T', rfl, ⟨x, rfl⟩, h⟩
      exact ⟨x, T', rfl, Or.inl hc, h⟩
    · rintro ⟨x, T', rfl, -, h⟩
      exact ⟨[x], T', rfl, ⟨x, rfl⟩, h⟩
  · constructor
    · rintro ⟨_, T', rfl, rfl, h⟩
      exact ⟨c, T', rfl, Or.inr rfl, h⟩
    · rintro ⟨x, T', rfl, hx, h⟩
      exact ⟨[x], T', rfl, by rw [hx.resolve_left hc]; rfl, h⟩

lemma matched_last_iff : Matched [.last] T ↔ T = [] := by
  constructor
  · rintro ⟨_, _, rfl, ⟨rfl, rfl⟩, -⟩
    rfl
  · rintro rfl
    exact ⟨[], [], rfl, ⟨rfl, rfl⟩, trivial⟩

/-! ### Correctness -/

/-- The search has ended, with the answer whether `Q` holds. -/
def Answers (res : Option Bool) (Q : Prop) : Prop := ∃ b, res = some b ∧ (b = true ↔ Q)

lemma answers_some {b : Bool} {Q : Prop} (h : b = true ↔ Q) : Answers (some b) Q := ⟨b, rfl, h⟩

lemma Answers.congr {res : Option Bool} {Q R : Prop} (h : Answers res Q) (hQR : Q ↔ R) :
    Answers res R := by
  obtain ⟨b, hb, hiff⟩ := h
  exact ⟨b, hb, hiff.trans hQR⟩

/-- The step over one character of the pattern and one of the text. -/
lemma answers_single {fuel : Nat} (hT : StringAt m text T)
    (hrest : ∀ x T', T = x :: T' → StringAt m (text + 1) T' →
      Answers (matchhere m (re + 1) (text + 1) fuel) (Matched its T')) :
    Answers (if m text ≠ 0 ∧ (c = '.'.toUInt8 ∨ c = m text) then
      matchhere m (re + 1) (text + 1) fuel else some false) (Matched (.single c :: its) T) := by
  rcases stringAt_head hT with ⟨h0, rfl⟩ | ⟨x, T', rfl, rfl, hx, hT'⟩
  · rw [if_neg fun h => h.1 h0]
    refine answers_some (iff_of_false nofun ?_)
    rw [matched_single_iff]
    exact fun ⟨_, _, h, _⟩ => nomatch h
  · split_ifs with hc
    · refine (hrest _ T' rfl hT').congr ?_
      rw [matched_single_iff]
      constructor
      · exact fun h => ⟨_, T', rfl, hc.2, h⟩
      · rintro ⟨x, T'', heq, -, h⟩
        rwa [(List.cons.inj heq).2]
    · refine answers_some (iff_of_false nofun ?_)
      rw [matched_single_iff]
      rintro ⟨x, T'', heq, hor, -⟩
      exact hc ⟨hx, (List.cons.inj heq).1 ▸ hor⟩

/-- With enough fuel both searches give the right answer. -/
lemma matchhere_matchstar (fuel : Nat) : ∀ {P T : List UInt8} {re text : Nat},
    StringAt m re P → StringAt m text T →
    (2 * (P.length + T.length) < fuel → Answers (matchhere m re text fuel) (Matched (items P) T)) ∧
    (2 * (P.length + T.length) + 1 < fuel → ∀ c,
      Answers (matchstar m c re text fuel) (Matched (.star c :: items P) T)) := by
  induction fuel with
  | zero =>
    exact fun _ _ => ⟨fun h => absurd h (Nat.not_lt_zero _), fun h => absurd h (Nat.not_lt_zero _)⟩
  | succ fuel ih =>
    intro P T re text hP hT
    refine ⟨fun hfuel => ?_, fun hfuel c => ?_⟩
    · rw [matchhere]
      rcases stringAt_head hP with ⟨h0, rfl⟩ | ⟨c, P', rfl, rfl, hc, hP'⟩
      · rw [if_pos h0]
        exact answers_some (iff_of_true rfl trivial)
      rw [if_neg hc]
      -- the rest of the text is matched with the rest of the pattern
      have hrest : ∀ x T', T = x :: T' → StringAt m (text + 1) T' →
          Answers (matchhere m (re + 1) (text + 1) fuel) (Matched (items P') T') := by
        rintro x T' rfl hT'
        simp only [List.length_cons] at hfuel
        exact (ih hP' hT').1 (by omega)
      rcases stringAt_head hP' with ⟨h0, rfl⟩ | ⟨d, P'', rfl, rfl, hd, hP''⟩
      · -- the last character of the pattern
        rw [if_neg (by rw [h0]; decide)]
        by_cases hdollar : m re = '$'.toUInt8
        · rw [if_pos ⟨hdollar, h0⟩, items, if_pos hdollar]
          refine answers_some ?_
          rw [matched_last_iff, decide_eq_true_eq]
          rcases stringAt_head hT with ⟨ht, rfl⟩ | ⟨x, T', rfl, rfl, hx, -⟩
          · exact iff_of_true ht rfl
          · exact iff_of_false hx nofun
        · rw [if_neg fun h => hdollar h.1, items, if_neg hdollar]
          exact answers_single hT hrest
      · by_cases hstar : m (re + 1) = '*'.toUInt8
        · rw [if_pos hstar, items, if_pos hstar]
          simp only [List.length_cons] at hfuel
          exact (ih hP'' hT).2 (by omega) _
        · rw [if_neg hstar, if_neg fun h => hd h.2, items, if_neg hstar]
          exact answers_single hT hrest
    · rw [matchstar]
      obtain ⟨b, hb, hiff⟩ := (ih hP hT).1 (by omega)
      rw [hb]
      cases b with
      | true => exact answers_some (iff_of_true rfl (matched_star_iff.mpr (Or.inl (hiff.mp rfl))))
      | false =>
        have hno : ¬Matched (items P) T := fun h => nomatch hiff.mpr h
        rcases stringAt_head hT with ⟨h0, rfl⟩ | ⟨x, T', rfl, rfl, hx, hT'⟩
        · dsimp only
          rw [if_neg fun h => h.1 h0]
          refine answers_some (iff_of_false nofun ?_)
          rw [matched_star_iff]
          rintro (h | ⟨_, _, h, -⟩)
          · exact hno h
          · cases h
        · dsimp only
          split_ifs with hc
          · simp only [List.length_cons] at hfuel
            refine ((ih hP hT').2 (by omega) c).congr ?_
            rw [matched_star_iff (T := m text :: T')]
            constructor
            · exact fun h => Or.inr ⟨_, T', rfl, hc.2, h⟩
            · rintro (h | ⟨x, T'', heq, -, h⟩)
              · exact absurd h hno
              · rwa [(List.cons.inj heq).2]
          · refine answers_some (iff_of_false nofun ?_)
            rw [matched_star_iff]
            rintro (h | ⟨x, T'', heq, hor, -⟩)
            · exact hno h
            · exact hc ⟨hx, (List.cons.inj heq).1 ▸ hor⟩

/-- The loop of `match` looks at all suffixes. -/
lemma matchFrom_answers (hP : StringAt m re P) : ∀ {T : List UInt8} {text fuel : Nat},
    StringAt m text T → 2 * (P.length + T.length) + 1 < fuel →
    Answers (matchFrom m re text fuel) (∃ s, s <:+ T ∧ Matched (items P) s) := by
  intro T
  induction T with
  | nil =>
    intro text fuel hT hfuel
    obtain ⟨fuel, rfl⟩ : ∃ k, fuel = k + 1 := ⟨fuel - 1, by omega⟩
    obtain ⟨b, hb, hiff⟩ := (matchhere_matchstar fuel hP hT).1 (by omega)
    have hsuffix : (∃ s, s <:+ [] ∧ Matched (items P) s) ↔ Matched (items P) [] := by simp
    have h0 : m text = 0 := hT
    rw [matchFrom, hb]
    cases b with
    | true => exact answers_some (iff_of_true rfl (hsuffix.mpr (hiff.mp rfl)))
    | false =>
      dsimp only
      rw [if_neg (not_not_intro h0)]
      exact answers_some (hiff.trans hsuffix.symm)
  | cons x T ih =>
    intro text fuel hT hfuel
    obtain ⟨fuel, rfl⟩ : ∃ k, fuel = k + 1 := ⟨fuel - 1, by omega⟩
    obtain ⟨b, hb, hiff⟩ := (matchhere_matchstar fuel hP hT).1 (by omega)
    have hsuffix : (∃ s, s <:+ x :: T ∧ Matched (items P) s) ↔
        Matched (items P) (x :: T) ∨ ∃ s, s <:+ T ∧ Matched (items P) s := by
      simp only [List.suffix_cons_iff, or_and_right, exists_or, exists_eq_left]
    obtain ⟨rfl, hx, hT'⟩ := hT
    rw [matchFrom, hb]
    cases b with
    | true => exact answers_some (iff_of_true rfl (hsuffix.mpr (Or.inl (hiff.mp rfl))))
    | false =>
      have hno : ¬Matched (items P) (m text :: T) := fun h => nomatch hiff.mpr h
      dsimp only
      rw [if_pos hx]
      rw [List.length_cons] at hfuel
      refine (ih hT' (by omega)).congr ?_
      rw [hsuffix, or_iff_right hno]

lemma matchRe_answers {fuel : Nat} (hP : StringAt m re P) (hT : StringAt m text T)
    (hfuel : 2 * (P.length + T.length) + 1 < fuel) :
    Answers (matchRe m re text fuel) (Occurs P T) := by
  unfold matchRe Occurs
  rcases stringAt_head hP with ⟨h0, rfl⟩ | ⟨c, P', rfl, rfl, hc, hP'⟩
  · rw [if_neg (by rw [h0]; decide), if_neg nofun]
    exact matchFrom_answers hP hT hfuel
  · rw [List.head?_cons, if_congr (Option.some.injEq _ _).to_iff rfl rfl]
    rw [List.length_cons] at hfuel
    split_ifs
    · exact (matchhere_matchstar fuel hP' hT).1 (by omega)
    · exact matchFrom_answers hP hT hfuel

/-- `match` answers, with enough fuel, whether the pattern occurs in the text. -/
theorem matchRe_decides (hP : StringAt m re P) (hT : StringAt m text T) :
    ∀ fuel > 2 * (P.length + T.length) + 1, ∃ b, matchRe m re text fuel = some b ∧
      (b = true ↔ Occurs P T) :=
  fun _ hfuel => matchRe_answers hP hT hfuel

/-- The pattern `b*$` and the text `abb`, one after the other. -/
def smallMem : Mem := Mem.write (fun _ => 0) 0 [98, 42, 36, 0, 97, 98, 98, 0]

theorem matchRe_decides_small : matchRe smallMem 0 4 14 = some true ∧
    Occurs [98, 42, 36] [97, 98, 98] := by
  have hP : StringAt smallMem 0 [98, 42, 36] := by simp only [StringAt]; decide
  have hT : StringAt smallMem 4 [97, 98, 98] := by simp only [StringAt]; decide
  obtain ⟨b, hb, hiff⟩ := matchRe_decides hP hT 14 (by decide)
  have hrun : matchRe smallMem 0 4 14 = some true := by decide +kernel
  exact ⟨hrun, hiff.mp (Option.some.inj (hb.symm.trans hrun))⟩

end Xv6.Grep
