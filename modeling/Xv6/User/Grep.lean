import Xv6.User.Match
import Xv6.Lib.Lines

/-!
# `grep` and its buffer

`grep(pattern, fd)` of `grep.c`: the loop that reads into `buf` after the line that has been begun,
writes the lines that match, and moves what is left to the front. However `read` splits the input,
the lines are those of the input.
-/

namespace Xv6.Grep

open Function Lib

variable {m m' : Mem} {buf p pattern fuel turns : Nat} {P out input chunk acc rest : List UInt8}

def sizeofBuf : Nat := 1024

def newline : UInt8 := '\n'.toUInt8

/-- How many bytes `read` returns: for each call, by the size asked for and what is left. -/
structure Chunks where
  count : Nat → Nat → Nat → Nat
  pos : ∀ i size left, 0 < size → 0 < left → 0 < count i size left
  le_size : ∀ i size left, 0 < size → 0 < left → count i size left ≤ size
  le_left : ∀ i size left, 0 < size → 0 < left → count i size left ≤ left

/-- The `i`-th call `read(fd, dst, size)`: what it returns, what is left and the memory. -/
def read (chunks : Chunks) (i : Nat) (input : List UInt8) (m : Mem) (dst size : Nat) :
    Nat × List UInt8 × Mem :=
  if size = 0 ∨ input = [] then (0, input, m)
  else
    let n := chunks.count i size input.length
    (n, input.drop n, m.write dst (input.take n))

/-- The loop over the lines in the buffer: the memory, `p` and the output when it ends. -/
def grepLines (pattern fuel : Nat) (m : Mem) (p : Nat) (out : List UInt8) :
    Nat → Option (Mem × Nat × List UInt8)
  | 0 => none
  | turns + 1 => do
    match ← strchr m newline p fuel with
    | none => some (m, p, out)
    | some q =>
      let m := update m q 0
      if ← matchRe m pattern p fuel then
        let m : Mem := update m q newline
        grepLines pattern fuel m (q + 1) (out ++ m.read p (q + 1 - p)) turns
      else grepLines pattern fuel m (q + 1) out turns

/-- The loop over the calls of `read`; `n` bytes of the buffer are in use. -/
def grepFrom (chunks : Chunks) (buf pattern fuel i : Nat) (input : List UInt8) (m : Mem) (n : Nat)
    (out : List UInt8) : Nat → Option (List UInt8)
  | 0 => none
  | turns + 1 => do
    let (count, input, m) := read chunks i input m (buf + n) (sizeofBuf - n - 1)
    if count = 0 then some out
    else
      let n := n + count
      let m := update m (buf + n) 0
      let (m, p, out) ← grepLines pattern fuel m buf out fuel
      if n > 0 then
        let n := n - (p - buf)
        grepFrom chunks buf pattern fuel (i + 1) input (Ulib.memmove m buf p n) n out turns
      else grepFrom chunks buf pattern fuel (i + 1) input m n out turns

/-- `grep(pattern, fd)`: what is written, if all loops end within `fuel` turns. -/
def grep (chunks : Chunks) (buf pattern : Nat) (input : List UInt8) (m : Mem) (fuel : Nat) :
    Option (List UInt8) :=
  grepFrom chunks buf pattern fuel 0 input m 0 [] fuel

/-! ### What should be written -/

instance (w rest : List UInt8) : (item : Item) → Decidable (item.Takes w rest)
  | .star _ => inferInstanceAs (Decidable (∀ x ∈ w, _))
  | .last => inferInstanceAs (Decidable (_ ∧ _))
  | .any => decidable_of_iff (w.length = 1) List.length_eq_one_iff
  | .char c => inferInstanceAs (Decidable (w = [c]))

instance decidableMatched : (its : List Item) → (T : List UInt8) → Decidable (Matched its T)
  | [], _ => isTrue trivial
  | item :: its, T =>
    have := decidableMatched its
    decidable_of_iff (∃ k < T.length + 1, item.Takes (T.take k) (T.drop k) ∧
      Matched its (T.drop k)) (by
        constructor
        · rintro ⟨k, -, htakes, hrest⟩
          exact ⟨_, _, (List.take_append_drop k T).symm, htakes, hrest⟩
        · rintro ⟨w, r, rfl, htakes, hrest⟩
          refine ⟨w.length, by rw [List.length_append]; omega, ?_, ?_⟩
          · rwa [List.take_left, List.drop_left]
          · rwa [List.drop_left])

instance (P T : List UInt8) : Decidable (Occurs P T) :=
  have : Decidable (∃ s, s <:+ T ∧ Matched (items P) s) :=
    decidable_of_iff (∃ s ∈ T.tails, Matched (items P) s) (by simp only [List.mem_tails])
  inferInstanceAs (Decidable (ite _ _ _))

/-- The lines in which the pattern occurs, with their ends. -/
def written (P : List UInt8) (lines : List (List UInt8)) : List UInt8 :=
  (lines.filter (Occurs P)).flatMap (· ++ [newline])

lemma written_append (P : List UInt8) (l l' : List (List UInt8)) :
    written P (l ++ l') = written P l ++ written P l' := by
  unfold written
  rw [List.filter_append, List.flatMap_append]

lemma written_cons (P line : List UInt8) (l : List (List UInt8)) : written P (line :: l)
    = (if Occurs P line then line ++ [newline] else []) ++ written P l := by
  rw [← List.singleton_append, written_append]
  congr 1
  unfold written
  rw [List.filter_cons]
  split_ifs <;> simp_all

/-! ### The lines in the buffer -/

/-- What is written for the first line. -/
lemma read_line {w r : List UInt8} (h : StringAt m p (w ++ newline :: r)) :
    m.read p (p + w.length + 1 - p) = w ++ [newline] := by
  have hread := congrArg (List.take (w.length + 1)) (stringAt_iff.mp h).1
  have hle : w.length + 1 ≤ (w ++ newline :: r).length := by
    rw [List.length_append, List.length_cons]
    omega
  rw [Mem.take_read, min_eq_left hle] at hread
  rw [Nat.add_assoc, Nat.add_sub_cancel_left, hread, List.take_append, List.take_of_length_le
    (Nat.le_succ _), Nat.add_sub_cancel_left]
  rfl

/-- The loop over the lines writes those in which the pattern occurs, and ends at the line that has
been begun. -/
lemma grepLines_spec (hfuel : 2 * (P.length + sizeofBuf) + 1 < fuel) :
    ∀ {turns p : Nat} {m : Mem} {rest out : List UInt8}, StringAt m pattern P → StringAt m p rest →
    pattern + P.length < p ∨ p + rest.length < pattern → rest.length < turns →
    rest.length < sizeofBuf → ∃ m' p', grepLines pattern fuel m p out turns
        = some (m', p', out ++ written P (linesFrom newline [] rest)) ∧
      p' + (pending newline [] rest).length = p + rest.length ∧
      StringAt m' p' (pending newline [] rest) ∧
      ∀ x, ¬(p ≤ x ∧ x < p + rest.length) → m' x = m x := by
  intro turns
  induction turns with
  | zero => exact fun _ _ _ h => absurd h (Nat.not_lt_zero _)
  | succ turns ih =>
    intro p m rest out hP hrest hdisj hturns hsize
    rw [grepLines]
    rcases exists_line newline rest with hnone | ⟨w, r, rfl, hw⟩
    · rw [strchr_of_not_mem hrest hnone (by omega), linesFrom_of_not_mem hnone,
        pending_of_not_mem hnone]
      refine ⟨m, p, ?_, rfl, hrest, fun _ _ => rfl⟩
      rw [show written P [] = [] from rfl, List.append_nil]
      rfl
    have hlen : (w ++ newline :: r).length = w.length + (r.length + 1) := List.length_append
    rw [hlen] at hdisj hturns hsize
    have hq : m (p + w.length) = newline := hrest.drop.1
    have hr : StringAt m (p + w.length + 1) r := hrest.drop.2.2
    -- the line is ended by a zero for `match`
    set m₁ : Mem := update m (p + w.length) 0 with hm₁
    have hP₁ : StringAt m₁ pattern P := hP.congr fun x _ _ => update_of_ne (by omega) ..
    have hr₁ : StringAt m₁ (p + w.length + 1) r :=
      hr.congr fun x _ _ => update_of_ne (by omega) ..
    obtain ⟨b, hb, hiff⟩ : Answers (matchRe m₁ pattern p fuel) (Occurs P w) :=
      matchRe_answers hP₁ hrest.cut (by omega)
    rw [strchr_of_mem hrest hw (by omega)]
    simp only [Option.bind_eq_bind, Option.bind_some, ← hm₁, hb]
    rw [linesFrom_line hw, pending_line hw, written_cons, ← List.append_assoc]
    cases b with
    | true =>
      -- the newline is put back
      have hback : (update m₁ (p + w.length) newline : Mem) = m := by
        rw [hm₁, update_idem, ← hq, update_eq_self]
      rw [if_pos rfl, if_pos (hiff.mp rfl), hback, read_line hrest]
      obtain ⟨m', p', hrun, hend, hpend, hframe⟩ := ih hP hr (by omega) (by omega)
        (by omega)
      exact ⟨m', p', hrun, by omega, hpend, fun x hx => hframe x (by omega)⟩
    | false =>
      rw [if_neg Bool.false_ne_true, if_neg fun h => nomatch hiff.mpr h]
      obtain ⟨m', p', hrun, hend, hpend, hframe⟩ := ih hP₁ hr₁ (by omega) (by omega)
        (by omega)
      refine ⟨m', p', ?_, by omega, hpend, fun x hx => ?_⟩
      · rw [List.append_nil]
        exact hrun
      · rw [hframe x (by omega), hm₁, update_of_ne (by omega)]

/-! ### The whole input -/

/-- The buffer after a call of `read`. -/
lemma stringAt_read {k : Nat} (hacc : m.read buf acc.length = acc) (hk : k ≤ input.length)
    (hnul : 0 ∉ acc ++ input) :
    StringAt (update (m.write (buf + acc.length) (input.take k)) (buf + (acc.length + k)) 0)
      buf (acc ++ input.take k) := by
  have htake : (input.take k).length = k := by
    rw [List.length_take, min_eq_left hk]
  have hlen : (acc ++ input.take k).length = acc.length + k := by
    rw [List.length_append, htake]
  rw [stringAt_iff, hlen]
  refine ⟨?_, update_self .., fun hc => hnul ?_⟩
  · rw [Mem.read_congr (m := m.write (buf + acc.length) (input.take k))
      fun i hi => update_of_ne (by omega) .., Mem.read_append]
    congr 1
    · rw [Mem.read_congr (m := m) fun i hi => Mem.write_apply_of_lt (by omega), hacc]
    · have := Mem.read_write m (buf + acc.length) (input.take k)
      rwa [htake] at this
  · rcases List.mem_append.mp hc with hc | hc
    · exact List.mem_append_left _ hc
    · exact List.mem_append_right _ (List.mem_of_mem_take hc)

/-- Where the buffer is full with a line that has been begun, no line ends any more. -/
lemma lines_of_full (hnl : newline ∉ acc) (hfull : sizeofBuf - acc.length - 1 = 0)
    (hlines : ∀ line ∈ linesFrom newline [] (acc ++ input), line.length + 1 < sizeofBuf) :
    linesFrom newline [] (acc ++ input) = [] := by
  rcases exists_line newline input with hnone | ⟨w, r, rfl, hw⟩
  · refine linesFrom_of_not_mem fun hc => ?_
    rcases List.mem_append.mp hc with hc | hc
    · exact hnl hc
    · exact hnone hc
  · have hline : newline ∉ acc ++ w := fun hc => (List.mem_append.mp hc).elim hnl hw
    rw [← List.append_assoc, linesFrom_line hline] at hlines
    have := hlines _ List.mem_cons_self
    rw [List.length_append] at this
    omega

/-- The loop over the calls of `read` writes the lines of what has been begun and what is left. -/
lemma grepFrom_spec (chunks : Chunks) (hbuf : buf + sizeofBuf ≤ 2 ^ 64)
    (hdisj : pattern + P.length < buf ∨ buf + sizeofBuf ≤ pattern)
    (hfuel : 2 * (P.length + sizeofBuf) + 1 < fuel) :
    ∀ {turns i : Nat} {m : Mem} {acc input out : List UInt8}, StringAt m pattern P →
    m.read buf acc.length = acc → 0 ∉ acc ++ input → newline ∉ acc → acc.length < sizeofBuf →
    (∀ line ∈ linesFrom newline [] (acc ++ input), line.length + 1 < sizeofBuf) →
    input.length < turns → grepFrom chunks buf pattern fuel i input m acc.length out turns
      = some (out ++ written P (linesFrom newline [] (acc ++ input))) := by
  intro turns
  induction turns with
  | zero => exact fun _ _ _ _ _ _ h => absurd h (Nat.not_lt_zero _)
  | succ turns ih =>
    intro i m acc input out hP hacc hnul hnl hsize hlines hturns
    rw [grepFrom]
    by_cases hend : sizeofBuf - acc.length - 1 = 0 ∨ input = []
    · -- `read` returns 0
      have hnone : linesFrom newline [] (acc ++ input) = [] := by
        rcases hend with hfull | rfl
        · exact lines_of_full hnl hfull hlines
        · rw [List.append_nil]
          exact linesFrom_of_not_mem hnl
      rw [hnone, read, if_pos hend, show written P [] = [] from rfl, List.append_nil]
      rfl
    rw [read, if_neg hend]
    rw [not_or] at hend
    have hleft : 0 < input.length := List.length_pos_of_ne_nil hend.2
    set k := chunks.count i (sizeofBuf - acc.length - 1) input.length with hk
    have hpos : 0 < k := chunks.pos _ _ _ (by omega) hleft
    have hksize : k ≤ sizeofBuf - acc.length - 1 := chunks.le_size _ _ _ (by omega) hleft
    have hkleft : k ≤ input.length := chunks.le_left _ _ _ (by omega) hleft
    have hlen : (acc ++ input.take k).length = acc.length + k := by
      rw [List.length_append, List.length_take, min_eq_left hkleft]
    dsimp only
    rw [if_neg hpos.ne']
    set m₁ : Mem := update (m.write (buf + acc.length) (input.take k))
      (buf + (acc.length + k)) 0 with hm₁
    have hstr : StringAt m₁ buf (acc ++ input.take k) := stringAt_read hacc hkleft hnul
    have hP₁ : StringAt m₁ pattern P := hP.congr fun x hx hx' => by
      rw [hm₁, update_of_ne (by omega)]
      rcases hdisj with hdisj | hdisj
      · exact Mem.write_apply_of_lt (by omega)
      · refine Mem.write_apply_of_le ?_
        rw [List.length_take, min_eq_left hkleft]
        omega
    -- the lines in the buffer, and what is left of it
    obtain ⟨m₂, p, hrun, hp, hpend, hframe⟩ := @grepLines_spec pattern fuel P hfuel fuel buf m₁ _
      out hP₁ hstr (by omega) (by omega) (by omega)
    set pend := pending newline [] (acc ++ input.take k) with hpend_def
    rw [hlen] at hp hframe
    have hpendlen : pend.length ≤ acc.length + k := by
      rw [← hlen]
      exact pending_suffix.length_le
    have hn : acc.length + k - (p - buf) = pend.length := by omega
    simp only [Option.bind_eq_bind, hrun, Option.bind_some]
    rw [if_pos (by omega), hn]
    have hmoved : Moved m₂ (Ulib.memmove m₂ buf p pend.length) buf p pend.length :=
      Ulib.moved_memmove (by omega) (by omega)
    have hsplit : linesFrom newline [] (acc ++ input)
        = linesFrom newline [] (acc ++ input.take k)
          ++ linesFrom newline [] (pend ++ input.drop k) := by
      rw [← linesFrom_eq (not_mem_pending List.not_mem_nil), ← linesFrom_append, List.append_assoc,
        List.take_append_drop]
    rw [hsplit] at hlines ⊢
    rw [written_append, ← List.append_assoc]
    refine ih ?_ ?_ ?_ (not_mem_pending List.not_mem_nil) (by omega)
      (fun line hline => hlines line (List.mem_append_right _ hline)) ?_
    · refine hP₁.congr fun x hx hx' => ?_
      rw [hmoved.unchanged x (by omega), hframe x (by omega)]
    · rw [Mem.read_congr (m := m₂) hmoved.copied]
      exact (stringAt_iff.mp hpend).1
    · intro hc
      rcases List.mem_append.mp hc with hc | hc
      · exact (stringAt_iff.mp hpend).2.2 hc
      · exact hnul (List.mem_append_right _ (List.mem_of_mem_drop hc))
    · rw [List.length_drop]
      omega

/-- However `read` splits the input, `grep` writes the lines in which the pattern occurs. -/
theorem grep_writes_lines (chunks : Chunks) (hP : StringAt m pattern P)
    (hbuf : buf + sizeofBuf ≤ 2 ^ 64)
    (hdisj : pattern + P.length < buf ∨ buf + sizeofBuf ≤ pattern) (hnul : 0 ∉ input)
    (hlines : ∀ line ∈ linesFrom newline [] input, line.length + 1 ≤ 1023) :
    ∀ fuel > 2 * (P.length + sizeofBuf) + input.length + 1,
      grep chunks buf pattern input m fuel = some (written P (linesFrom newline [] input)) :=
  fun fuel hfuel => @grepFrom_spec buf pattern fuel P chunks hbuf hdisj
    (by omega) fuel 0 m [] input []
    hP rfl hnul List.not_mem_nil (by decide)
    (fun line hline => Nat.lt_succ_of_le (hlines line hline)) (by omega)

/-- `read` returns one byte at a time. -/
def bytewise : Chunks where
  count _ _ _ := 1
  pos _ _ _ _ _ := Nat.one_pos
  le_size _ _ _ h _ := h
  le_left _ _ _ _ h := h

theorem grep_writes_lines_small :
    grep bytewise 4096 0 [97, 98, 10, 99, 10, 98] (Mem.ofList [98]) 3000 = some [97, 98, 10] := by
  have hP : StringAt (Mem.ofList [98]) 0 [98] := by simp only [StringAt]; decide
  have hrun := @grep_writes_lines (Mem.ofList [98]) 4096 0 [98] [97, 98, 10, 99, 10, 98] bytewise hP
    (by decide) (by decide) (by decide) (by decide +kernel) 3000 (by decide)
  exact hrun.trans (by decide +kernel)

end Xv6.Grep
