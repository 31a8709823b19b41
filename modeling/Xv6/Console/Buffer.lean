import Xv6.Console.Machine

/-!
# The console is a line editor

What the buffer holds is a queue of bytes for the readers and the line that is being edited. The
abstract console `Tty` has these two lists, and `consoleintr` does to the buffer what `Tty.input`
does to the lists. The three indices keep in order, a full buffer has no line that is being edited,
and readers get the bytes that have been committed, in this order.
-/

namespace Xv6.Console

open Lib

/-! ### The abstract console -/

structure Tty where
  /-- What readers may take. -/
  ready : List UInt8
  /-- The line that is being edited. -/
  line : List UInt8

/-- A character is added to the line, and the line may become ready. -/
def Tty.store (t : Tty) (c : UInt8) : Tty :=
  let line := t.line ++ [c]
  if c = newline ∨ c = ctrl 'D' ∨ (t.ready ++ line).length = INPUT_BUF_SIZE then
    ⟨t.ready ++ line, []⟩
  else
    { t with line }

/-- A character comes in. -/
def Tty.input (c : UInt8) (t : Tty) : Tty :=
  if c = ctrl 'P' then
    t
  else if c = ctrl 'U' then
    { t with line := [] }
  else if c = ctrl 'H' ∨ c = 0x7f then
    { t with line := t.line.dropLast }
  else if c ≠ 0 ∧ (t.ready ++ t.line).length < INPUT_BUF_SIZE then
    t.store (cook c)
  else
    t

/-- What a buffer stands for. -/
def Cons.tty (s : Cons) : Tty := ⟨queued s.buf s.r s.w, queued s.buf s.w s.e⟩

/-- The indices are in order and not too far apart, a full buffer has no line that is being edited,
and there is no newline in this line. -/
structure Cons.Ok (s : Cons) : Prop where
  order : (s.w - s.r).toNat ≤ (s.e - s.r).toNat
  room : (s.e - s.r).toNat ≤ INPUT_BUF_SIZE
  full : (s.e - s.r).toNat = INPUT_BUF_SIZE → s.w = s.e
  line : newline ∉ queued s.buf s.w s.e

lemma dvd_index : INPUT_BUF_SIZE ∣ 2 ^ 32 := by decide

lemma lt_index : INPUT_BUF_SIZE < 2 ^ 32 := by decide

variable {s : Cons} {c : UInt8}

namespace Cons

/-- All that is in the buffer. -/
lemma Ok.contents (h : s.Ok) : queued s.buf s.r s.e = s.tty.ready ++ s.tty.line :=
  queued_append s.buf h.order

lemma Ok.length (h : s.Ok) : (s.tty.ready ++ s.tty.line).length = (s.e - s.r).toNat := by
  rw [← h.contents, length_queued]

/-! ### Editing -/

/-- The last byte of the line is taken back. -/
lemma Ok.erase (h : s.Ok) (hne : s.e ≠ s.w) :
    s.erase.Ok ∧ s.erase.tty = { s.tty with line := s.tty.line.dropLast } := by
  have hline : s.tty.line = s.erase.tty.line ++ [s.buf (slot INPUT_BUF_SIZE (s.e - 1))] :=
    queued_eq_concat s.buf hne.symm
  have hsplit := toNat_sub_add h.order
  have hpred := toNat_pred_sub hne.symm
  have hroom := h.room
  have hne' : s.r ≠ s.e := by
    intro hc
    have hzero : (s.e - s.r).toNat = 0 := by rw [hc, sub_self]; rfl
    omega
  have hpred' := toNat_pred_sub hne'
  refine ⟨⟨?_, ?_, ?_, ?_⟩, ?_⟩
  · show (s.w - s.r).toNat ≤ (s.e - 1 - s.r).toNat
    omega
  · show (s.e - 1 - s.r).toNat ≤ INPUT_BUF_SIZE
    omega
  · show (s.e - 1 - s.r).toNat = INPUT_BUF_SIZE → s.w = s.e - 1
    omega
  · intro hc
    apply h.line
    show newline ∈ s.tty.line
    rw [hline]
    exact List.mem_append_left _ hc
  · rw [hline, List.dropLast_concat]
    rfl

/-- `C('U')` takes the whole line back, as there is no newline in it. -/
lemma Ok.killLine {s : Cons} (h : s.Ok) :
    s.killLine.Ok ∧ s.killLine.tty = { s.tty with line := [] } := by
  fun_induction Cons.killLine s with
  | case1 s hgo ih =>
    obtain ⟨h1, htty⟩ := h.erase hgo.1
    obtain ⟨h2, htty2⟩ := ih h1
    exact ⟨h2, by rw [htty2, htty]⟩
  | case2 s hstop =>
    have hew : s.e = s.w := by
      by_contra hne
      apply h.line
      rw [queued_eq_concat s.buf (Ne.symm hne)]
      rw [not_and_not_right] at hstop
      rw [hstop hne]
      exact List.mem_append_right _ (List.mem_singleton_self _)
    refine ⟨h, ?_⟩
    unfold Cons.tty
    rw [hew, queued_self]

/-! ### Adding -/

/-- A byte is added to the line. -/
lemma Ok.put (h : s.Ok) (hroom : (s.e - s.r).toNat < INPUT_BUF_SIZE) (c : UInt8) :
    (s.put c).tty = { s.tty with line := s.tty.line ++ [c] } ∧
      ((s.put c).e - (s.put c).r).toNat = (s.e - s.r).toNat + 1 := by
  have hsplit := toNat_sub_add h.order
  have hroom' : (s.e - s.w).toNat < INPUT_BUF_SIZE := by omega
  set buf' := Function.update s.buf (slot INPUT_BUF_SIZE s.e) c with hbuf
  have hready : queued buf' s.r s.w = queued s.buf s.r s.w := by
    have hall := queued_update_slot dvd_index s.buf c hroom
    rw [queued_append _ h.order, queued_append s.buf h.order,
      queued_update_slot dvd_index s.buf c hroom'] at hall
    exact List.append_cancel_right hall
  have hline : queued buf' s.w (s.e + 1) = queued s.buf s.w s.e ++ [c] :=
    queued_update dvd_index lt_index s.buf c hroom'
  constructor
  · show Tty.mk (queued buf' s.r s.w) (queued buf' s.w (s.e + 1)) = _
    rw [hready, hline]
    rfl
  · exact toNat_succ_sub (lt_of_le_of_lt hroom lt_index)

/-- The line is committed. -/
lemma tty_commit (h : (s.w - s.r).toNat ≤ (s.e - s.r).toNat) :
    s.commit.tty = ⟨s.tty.ready ++ s.tty.line, []⟩ := by
  show Tty.mk (queued s.buf s.r s.e) (queued s.buf s.e s.e) = _
  rw [queued_append s.buf h, queued_self]
  rfl

end Cons

/-! ### `consoleintr` -/

/-- What input does to the buffer: bytes may become ready, after those that are. -/
structure Edited (s t : Cons) : Prop where
  r : t.r = s.r
  ready : t.tty.ready = s.tty.ready ++ t.passed s.w t.w

lemma edited_of_w {t : Cons} (hr : t.r = s.r) (hw : t.w = s.w)
    (hready : t.tty.ready = s.tty.ready) : Edited s t := by
  refine ⟨hr, ?_⟩
  rw [hready, hw, Cons.passed, queued_self, List.append_nil]

lemma killLine_index (s : Cons) : s.killLine.r = s.r ∧ s.killLine.w = s.w := by
  fun_induction Cons.killLine s with
  | case1 s hgo ih => exact ih
  | case2 s hstop => exact ⟨rfl, rfl⟩

/-- What is left of a buffer by `consoleintr`. -/
structure Follows (s t : Cons) (a : Tty) : Prop where
  ok : t.Ok
  tty : t.tty = a
  edited : Edited s t

/-- A byte is added, and the line that it ends is committed. -/
lemma Cons.Ok.store (h : s.Ok) (hroom : (s.e - s.r).toNat < INPUT_BUF_SIZE) (c : UInt8) :
    Follows s (s.store c).1 (s.tty.store c) := by
  obtain ⟨htty, hlen⟩ := h.put hroom c
  have hlen' : (s.tty.ready ++ (s.tty.line ++ [c])).length
      = ((s.put c).e - (s.put c).r).toNat := by
    rw [hlen, ← h.length]
    simp only [List.length_append, List.length_singleton, Nat.add_assoc]
  have horder : ((s.put c).w - (s.put c).r).toNat ≤ ((s.put c).e - (s.put c).r).toNat := by
    rw [hlen]
    exact Nat.le_succ_of_le h.order
  simp only [Cons.store, Tty.store, hlen']
  split_ifs with hend
  · have hpassed : (s.put c).commit.passed s.w (s.put c).commit.w = s.tty.line ++ [c] :=
      congrArg Tty.line htty
    have hcommit : (s.put c).commit.tty = ⟨s.tty.ready ++ (s.tty.line ++ [c]), []⟩ := by
      rw [Cons.tty_commit horder, htty]
    refine ⟨⟨le_refl _, hlen.le.trans hroom, fun _ => rfl, ?_⟩, hcommit, rfl, ?_⟩
    · simp [Cons.commit]
    · rw [hpassed, hcommit]
  · simp only [not_or] at hend
    obtain ⟨hc, -, hfull⟩ := hend
    refine ⟨⟨horder, hlen.le.trans hroom, fun hf => absurd hf hfull, ?_⟩, htty,
      edited_of_w rfl rfl (by rw [htty])⟩
    show newline ∉ (s.put c).tty.line
    rw [htty, List.mem_append, List.mem_singleton]
    rintro (hin | hin)
    · exact h.line hin
    · exact hc hin.symm

/-- `consoleintr` does what the abstract console does. -/
lemma consoleintr_follows (h : s.Ok) (c : UInt8) :
    Follows s (consoleintr c s).1 (s.tty.input c) := by
  unfold consoleintr Tty.input
  rw [h.length]
  split_ifs with hP hU hH hne hroom
  · exact ⟨h, rfl, edited_of_w rfl rfl rfl⟩
  · obtain ⟨hok, htty⟩ := h.killLine
    obtain ⟨hr, hw⟩ := killLine_index s
    exact ⟨hok, htty, edited_of_w hr hw (by rw [htty])⟩
  · obtain ⟨hok, htty⟩ := h.erase hne
    exact ⟨hok, htty, edited_of_w rfl rfl (by rw [htty])⟩
  · -- there is no line to erase from
    refine ⟨h, ?_, edited_of_w rfl rfl rfl⟩
    rw [not_not] at hne
    unfold Cons.tty
    rw [hne, queued_self]
    rfl
  · exact h.store hroom.2 (cook c)
  · exact ⟨h, rfl, edited_of_w rfl rfl rfl⟩

/-! ### Runs -/

variable {k : Nat} {d : Data k} {x : MSt k (Data k) Place Unit} {tr : List (Option (Event k))}

/-- The bytes that have been committed, the first one first. -/
def committed : List (Option (Event k)) → List UInt8
  | [] => []
  | some (.input _ bytes) :: tr => committed tr ++ bytes
  | _ :: tr => committed tr

/-- The bytes that readers have consumed. -/
def consumed : List (Option (Event k)) → List UInt8
  | [] => []
  | some (.read _ bytes) :: tr => consumed tr ++ bytes
  | _ :: tr => consumed tr

/-- What has been committed and not consumed is ready. -/
structure Kept (tr : List (Option (Event k))) (s : Cons) : Prop where
  ok : s.Ok
  bytes : committed tr = consumed tr ++ s.tty.ready

lemma Kept.input (h : Kept tr s) (c : UInt8) :
    Kept (some (.input c ((consoleintr c s).1.passed s.w (consoleintr c s).1.w)) :: tr)
      (consoleintr c s).1 := by
  have hfollows := consoleintr_follows h.ok c
  refine ⟨hfollows.ok, ?_⟩
  simp only [committed, consumed]
  rw [h.bytes, hfollows.edited.ready, List.append_assoc]

/-- A reader takes a byte. -/
lemma Cons.Ok.read (h : s.Ok) (hready : s.r ≠ s.w) :
    Cons.Ok { s with r := s.r + 1 } := by
  have horder := h.order
  have hroom := h.room
  have hw := toNat_sub_succ hready
  have he : (s.e - (s.r + 1)).toNat + 1 = (s.e - s.r).toNat := by
    apply toNat_sub_succ
    intro hc
    have hzero : (s.e - s.r).toNat = 0 := by rw [hc, sub_self]; rfl
    omega
  refine ⟨?_, ?_, ?_, h.line⟩
  · show (s.w - (s.r + 1)).toNat ≤ (s.e - (s.r + 1)).toNat
    omega
  · show (s.e - (s.r + 1)).toNat ≤ INPUT_BUF_SIZE
    omega
  · show (s.e - (s.r + 1)).toNat = INPUT_BUF_SIZE → s.w = s.e
    omega

/-- An iteration takes one byte or, at the end of file, none. -/
lemma Call.turn_fst (call : Call) (copied : Bool) (s : Cons) :
    (call.turn copied s).1 = { s with r := s.r + 1 } ∨ (call.turn copied s).1 = s := by
  simp only [Call.turn]
  split_ifs with hD hlt
  · right
    rw [add_sub_cancel_right]
  · exact Or.inl rfl
  · exact Or.inl rfl
  · exact Or.inl rfl

lemma Kept.turn (h : Kept tr s) (hready : s.r ≠ s.w) (call : Call) (copied : Bool) (p : Fin k) :
    Kept (some (.read p (s.passed s.r (call.turn copied s).1.r)) :: tr)
      (call.turn copied s).1 := by
  rcases call.turn_fst copied s with ht | ht
  · have hpassed : s.passed s.r (s.r + 1) = [s.buf (slot INPUT_BUF_SIZE s.r)] := by
      rw [Cons.passed, queued_eq_cons s.buf (by simp), queued_self]
    have hcons : s.tty.ready = s.buf (slot INPUT_BUF_SIZE s.r) ::
        (Cons.tty { s with r := s.r + 1 }).ready := queued_eq_cons s.buf hready
    rw [ht]
    refine ⟨h.ok.read hready, ?_⟩
    simp only [committed, consumed]
    rw [hpassed, h.bytes, hcons, List.append_assoc]
    rfl
  · rw [ht, Cons.passed, queued_self]
    refine ⟨h.ok, ?_⟩
    simp only [committed, consumed, List.append_nil]
    exact h.bytes

lemma keeps (k : Nat) : (code k).Keeps fun tr d _ _ => Kept tr d.cons where
  silent h := ⟨h.ok, h.bytes⟩
  free {tr d o p t e d' l} h _ hstep := by
    generalize p t = m at hstep
    cases hstep <;> exact ⟨h.ok, h.bytes⟩
  env h hstep := by
    cases hstep
    exact ⟨h.ok, h.bytes⟩
  acquire h _ := ⟨h.ok, h.bytes⟩
  locked {tr d p u e d' x} h hstep := by
    generalize p u = l at hstep
    cases hstep with
    | @input c t wake hintr =>
      have hkept := h.input c
      rw [hintr] at hkept
      exact hkept
    | @turn call hn hready copied t call' again hturn =>
      have hkept := h.turn hready call copied u
      rw [hturn] at hkept
      exact hkept
    | _ => exact ⟨h.ok, h.bytes⟩

lemma Fresh.kept (h : Fresh s) : Kept ([] : List (Option (Event k))) s := by
  have hready : s.tty.ready = [] := by
    unfold Cons.tty
    rw [h.r, h.w, queued_self]
  refine ⟨⟨?_, ?_, ?_, ?_⟩, ?_⟩
  · rw [h.w, h.e]
  · rw [h.e, h.r, sub_self]
    exact Nat.zero_le _
  · intro _
    rw [h.w, h.e]
  · rw [h.w, h.e, queued_self]
    exact List.not_mem_nil
  · rw [hready]
    rfl

/-- After every run the indices are in order and at most `INPUT_BUF_SIZE` apart, a full buffer has
input for a reader, input leaves the bytes between `r` and `w` alone, and these are the bytes that
have been committed and not consumed. -/
theorem console_buffer (hd : Fresh d.cons) (h : Run (code k).Step (.init d .out) tr x) :
    (x.data.cons.w - x.data.cons.r).toNat ≤ (x.data.cons.e - x.data.cons.r).toNat ∧
      (x.data.cons.e - x.data.cons.r).toNat ≤ INPUT_BUF_SIZE ∧
      ((x.data.cons.e - x.data.cons.r).toNat = INPUT_BUF_SIZE →
        x.data.cons.w = x.data.cons.e ∧ x.data.cons.r ≠ x.data.cons.w) ∧
      (∀ c bytes y, (code k).Step x (some (.input c bytes)) y →
        y.data.cons.r = x.data.cons.r ∧
          queued y.data.cons.buf y.data.cons.r y.data.cons.w =
            queued x.data.cons.buf x.data.cons.r x.data.cons.w ++ bytes) ∧
      committed tr = consumed tr ++ queued x.data.cons.buf x.data.cons.r x.data.cons.w := by
  have hk := (keeps k).run h hd.kept
  refine ⟨hk.ok.order, hk.ok.room, ?_, ?_, hk.bytes⟩
  · intro hfull
    have hw := hk.ok.full hfull
    refine ⟨hw, fun hr => ?_⟩
    rw [hr, hw, sub_self] at hfull
    exact absurd hfull (by decide)
  · intro c bytes y hstep
    cases hstep with
    | free t l l' e d hpc h => cases h
    | env e d h => cases h
    | locked t l e d x hpc h =>
      cases h with
      | @input c t wake hintr =>
        have hedited := (consoleintr_follows hk.ok c).edited
        rw [hintr] at hedited
        exact ⟨hedited.r, hedited.ready⟩

/-- The console when it is idle. -/
def idle (k : Nat) : Data k := ⟨⟨fun _ => 0, 0, 0, 0⟩, fun _ => false⟩

/-- A line of one character comes in, and a process reads the character. -/
theorem console_buffer_line : ∃ tr x, Run (code 2).Step (.init (idle 2) .out) tr x ∧
    committed tr = [97, newline] ∧ consumed tr = [97] ∧
      queued x.data.cons.buf x.data.cons.r x.data.cons.w = [newline] := by
  have hinit : Run (code 2).Step (.init (idle 2) .out) [] _ := .nil
  have hrun := hinit
    |>.snoc (.free 0 _ _ _ _ rfl (.consoleintr 97))
    |>.snoc (.acquire 0 _ rfl rfl trivial)
    |>.snoc (.locked 0 _ _ _ _ rfl (.input 97 rfl))
    |>.snoc (.free 0 _ _ _ _ rfl (.consoleintr newline))
    |>.snoc (.acquire 0 _ rfl rfl trivial)
    |>.snoc (.locked 0 _ _ _ _ rfl (.input newline rfl))
    |>.snoc (.pass 0 0 _ _ rfl (by simp) (by simp))
    |>.snoc (.pass 0 1 _ _ rfl (by simp [MSt.init]) (by simp [MSt.init]))
    |>.snoc (.go 0 _ (Pos.Goes.woken () Place.out))
    |>.snoc (.locked 0 _ _ _ _ rfl .woken)
    |>.snoc (.free 1 _ _ _ _ rfl (.consoleread 0 2))
    |>.snoc (.acquire 1 _ rfl rfl trivial)
    |>.snoc (.locked 1 _ _ _ _ rfl (.turn (.start 0 2) (by decide) (by decide) true rfl))
  have hbytes := (console_buffer ⟨rfl, rfl, rfl⟩ hrun).2.2.2.2
  exact ⟨_, _, hrun, rfl, rfl, (List.cons_inj_right _).mp hbytes.symm⟩

end Xv6.Console
