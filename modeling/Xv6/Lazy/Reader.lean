import Xv6.Lazy.Manager
import Xv6.Lib.Scan

/-!
# Reading the requests

The loop of `main` in `finaltry.c` that reads requests up to the word `STOP`, and the texts on which
it ends. `%d` stores its number by `conv`, which is left open where the number is not an `int`.
-/

namespace Xv6.Lazy

open Lib Scan

abbrev Word := List Char

structure Requestnode where
  requestNumber : Nat
  userNumber : Int
  fileNumber : Int
  operation : Operation
  requestTime : Int
  sendTime : Int := -1
  deriving DecidableEq, Repr

/-- The four values that one `scanf` reads. -/
structure Line where
  userNumber : Int
  fileNumber : Int
  operation : Word
  requestTime : Int
  deriving DecidableEq, Repr

/-- A write past the end of an array. -/
inductive Fault where
  | operation
  | stopCommand
  | requestlist
  deriving DecidableEq, Repr

def sizeofOperation : Nat := 10
def sizeofStopCommand : Nat := 10
def requestlistLength : Nat := 100000
def filelistLength : Nat := 1000

/-- The part of a buffer that `strcmp` looks at. -/
def cstring (w : Word) : Word := w.takeWhile (· ≠ '\x00')

/-- The operation that a buffer names. -/
def operationOf (w : Word) : Option Operation :=
  if cstring w = "READ".toList then some .read
  else if cstring w = "WRITE".toList then some .write
  else if cstring w = "DELETE".toList then some .delete
  else none

def isStop (w : Word) : Bool := cstring w = "STOP".toList

variable (conv : Int → Int) (n : Int) {req : Requestnode} {turns : Nat}

/-- `scanf("%d %d %s %d", ...)`: the line if there were four conversions, and the rest of the
text. -/
def scanLine (text : List Char) : Except Fault (Option Line × List Char) :=
  match scanInt text with
  | (none, text) => .ok (none, text)
  | (some user, text) =>
    match scanInt text with
    | (none, text) => .ok (none, text)
    | (some file, text) =>
      match scanWord text with
      | (none, text) => .ok (none, text)
      | (some operation, text) =>
        if sizeofOperation ≤ operation.length then .error .operation
        else match scanInt text with
          | (none, text) => .ok (none, text)
          | (some time, text) => .ok (some ⟨conv user, conv file, operation, conv time⟩, text)

/-- The request in a line, unless it is an invalid one. -/
def newRequest (numberOfRequests : Nat) (line : Line) : Option Requestnode :=
  if line.userNumber ≤ 0 ∨ line.fileNumber ≤ 0 ∨ line.fileNumber > n then none
  else (operationOf line.operation).map fun operation =>
    { requestNumber := numberOfRequests, userNumber := line.userNumber,
      fileNumber := line.fileNumber, operation, requestTime := line.requestTime }

structure Reader where
  text : List Char
  /-- `requestlist` up to `number_of_requests`. -/
  requestlist : List Requestnode := []
  /-- The lines reported as `Invalid request ... ignored`. -/
  ignored : List Line := []
  /-- What the array `stop_command` holds. -/
  stopCommand : Word
  deriving DecidableEq, Repr

/-- One turn of the loop; the flag tells that it is left. -/
def turn (s : Reader) : Except Fault (Reader × Bool) := do
  match ← scanLine conv s.text with
  | (none, text) =>
    match scanWord text with
    | (none, text) => .ok ({ s with text }, isStop s.stopCommand)
    | (some word, text) =>
      if sizeofStopCommand ≤ word.length then .error .stopCommand
      else .ok ({ s with text, stopCommand := word }, isStop word)
  | (some line, text) =>
    match newRequest n s.requestlist.length line with
    | none => .ok ({ s with text, ignored := s.ignored ++ [line] }, false)
    | some req =>
      if requestlistLength ≤ s.requestlist.length then .error .requestlist
      else .ok ({ s with text, requestlist := s.requestlist ++ [req] }, false)

/-- At most so many turns of the loop. -/
def readRequests (s : Reader) : Nat → Option (Except Fault Reader)
  | 0 => none
  | turns + 1 =>
    match turn conv n s with
    | .error e => some (.error e)
    | .ok (s, true) => some (.ok s)
    | .ok (s, false) => readRequests s turns

/-! ### The texts that end -/

variable {conv n} {text rest word : List Char} {line : Line} {lines : List Line} {s s' : Reader}

/-- The text starts with a line, whose operation fits in its buffer. -/
inductive LineAt (conv : Int → Int) : List Char → Line → List Char → Prop
  | intro {text text₁ text₂ text₃ rest operation : List Char} {user file time : Int} :
    NumberAt text user text₁ → NumberAt text₁ file text₂ → WordAt text₂ operation text₃ →
    operation.length < sizeofOperation → NumberAt text₃ time rest →
    LineAt conv text ⟨conv user, conv file, operation, conv time⟩ rest

/-- The text starts with a part of a line, and then something does not fit. -/
inductive PartAt : List Char → List Char → Prop
  | user {text rest : List Char} : NoNumberAt text rest → PartAt text rest
  | file {text text₁ rest : List Char} {user : Int} :
    NumberAt text user text₁ → NoNumberAt text₁ rest → PartAt text rest
  | operation {text text₁ text₂ : List Char} {user file : Int} :
    NumberAt text user text₁ → NumberAt text₁ file text₂ → Blank text₂ → PartAt text []
  | time {text text₁ text₂ text₃ rest operation : List Char} {user file : Int} :
    NumberAt text user text₁ → NumberAt text₁ file text₂ → WordAt text₂ operation text₃ →
    operation.length < sizeofOperation → NoNumberAt text₃ rest → PartAt text rest

/-- The text holds these lines, with parts of lines and a word after each between them, and then a
part of a line and the word `STOP`. -/
inductive Stops (conv : Int → Int) : List Char → List Line → Prop
  | stop {text text₁ rest word : List Char} : PartAt text text₁ → WordAt text₁ word rest →
    word.length < sizeofStopCommand → isStop word → Stops conv text []
  | skip {text text₁ rest word : List Char} {lines : List Line} : PartAt text text₁ →
    WordAt text₁ word rest → word.length < sizeofStopCommand → ¬isStop word →
    Stops conv rest lines → Stops conv text lines
  | line {text rest : List Char} {line : Line} {lines : List Line} : LineAt conv text line rest →
    Stops conv rest lines → Stops conv text (line :: lines)

lemma LineAt.scanLine_eq (h : LineAt conv text line rest) :
    scanLine conv text = .ok (some line, rest) := by
  obtain ⟨huser, hfile, hop, hlen, htime⟩ := h
  unfold scanLine
  simp only [scanInt_eq_some_iff.mpr huser, scanInt_eq_some_iff.mpr hfile,
    scanWord_eq_some_iff.mpr hop, scanInt_eq_some_iff.mpr htime, if_neg (not_le.mpr hlen)]

lemma PartAt.scanLine_eq (h : PartAt text rest) : scanLine conv text = .ok (none, rest) := by
  unfold scanLine
  cases h with
  | user huser => simp only [scanInt_eq_none_iff.mpr huser]
  | file huser hfile => simp only [scanInt_eq_some_iff.mpr huser, scanInt_eq_none_iff.mpr hfile]
  | operation huser hfile hop =>
    simp only [scanInt_eq_some_iff.mpr huser, scanInt_eq_some_iff.mpr hfile,
      scanWord_eq_none_iff.mpr ⟨hop, rfl⟩]
  | time huser hfile hop hlen htime =>
    simp only [scanInt_eq_some_iff.mpr huser, scanInt_eq_some_iff.mpr hfile,
      scanWord_eq_some_iff.mpr hop, scanInt_eq_none_iff.mpr htime, if_neg (not_le.mpr hlen)]

/-- What one `scanf` has found, by the number of its conversions. -/
lemma scanLine_cases {found : Option Line} (h : scanLine conv text = .ok (found, rest)) :
    (found = none ∧ PartAt text rest) ∨ ∃ line, found = some line ∧ LineAt conv text line rest := by
  unfold scanLine at h
  split at h
  case h_1 text₁ h1 =>
    cases h
    exact Or.inl ⟨rfl, .user (scanInt_eq_none_iff.mp h1)⟩
  case h_2 user text₁ h1 =>
  have huser := scanInt_eq_some_iff.mp h1
  split at h
  case h_1 text₂ h2 =>
    cases h
    exact Or.inl ⟨rfl, .file huser (scanInt_eq_none_iff.mp h2)⟩
  case h_2 file text₂ h2 =>
  have hfile := scanInt_eq_some_iff.mp h2
  split at h
  case h_1 text₃ h3 =>
    cases h
    obtain ⟨hblank, rfl⟩ := scanWord_eq_none_iff.mp h3
    exact Or.inl ⟨rfl, .operation huser hfile hblank⟩
  case h_2 operation text₃ h3 =>
  have hop := scanWord_eq_some_iff.mp h3
  split_ifs at h with hlen
  split at h
  case h_1 text₄ h4 =>
    cases h
    exact Or.inl ⟨rfl, .time huser hfile hop (not_le.mp hlen) (scanInt_eq_none_iff.mp h4)⟩
  case h_2 time text₄ h4 =>
    cases h
    exact Or.inr ⟨_, rfl, .intro huser hfile hop (not_le.mp hlen) (scanInt_eq_some_iff.mp h4)⟩

/-- The requests in the lines, numbered from `k` on. -/
def requestsOf (n : Int) (k : Nat) : List Line → List Requestnode
  | [] => []
  | line :: lines =>
    match newRequest n k line with
    | none => requestsOf n k lines
    | some req => req :: requestsOf n (k + 1) lines

/-- What a turn does that ends without a fault. -/
lemma turn_cases {out : Bool} (h : turn conv n s = .ok (s', out)) :
    (∃ text₁, PartAt s.text text₁ ∧ Blank text₁ ∧ s' = { s with text := [] } ∧
      out = isStop s.stopCommand) ∨
    (∃ text₁ word rest, PartAt s.text text₁ ∧ WordAt text₁ word rest ∧
      word.length < sizeofStopCommand ∧ s' = { s with text := rest, stopCommand := word } ∧
      out = isStop word) ∨
    (∃ line rest, LineAt conv s.text line rest ∧ newRequest n s.requestlist.length line = none ∧
      s' = { s with text := rest, ignored := s.ignored ++ [line] } ∧ out = false) ∨
    ∃ line req rest, LineAt conv s.text line rest ∧
      newRequest n s.requestlist.length line = some req ∧
      s.requestlist.length < requestlistLength ∧
      s' = { s with text := rest, requestlist := s.requestlist ++ [req] } ∧ out = false := by
  unfold turn at h
  cases hscan : scanLine conv s.text with
  | error e =>
    rw [hscan] at h
    cases h
  | ok res =>
    obtain ⟨found, text₁⟩ := res
    rw [hscan] at h
    obtain ⟨rfl, hpart⟩ | ⟨line, rfl, hline⟩ := scanLine_cases hscan
    · dsimp only [bind, Except.bind] at h
      split at h
      case h_1 text₂ h2 =>
        cases h
        obtain ⟨hblank, rfl⟩ := scanWord_eq_none_iff.mp h2
        exact Or.inl ⟨text₁, hpart, hblank, rfl, rfl⟩
      case h_2 word text₂ h2 =>
        split_ifs at h with hlen
        cases h
        exact Or.inr (Or.inl ⟨text₁, word, text₂, hpart, scanWord_eq_some_iff.mp h2,
          not_le.mp hlen, rfl, rfl⟩)
    · dsimp only [bind, Except.bind] at h
      split at h
      case h_1 hreq =>
        cases h
        exact Or.inr (Or.inr (Or.inl ⟨line, text₁, hline, hreq, rfl, rfl⟩))
      case h_2 req hreq =>
        split_ifs at h with hroom
        cases h
        exact Or.inr (Or.inr (Or.inr ⟨line, req, text₁, hline, hreq, not_le.mp hroom, rfl, rfl⟩))

/-- A turn that reads a part of a line and a word. -/
lemma turn_word {text₁ : List Char} (hpart : PartAt s.text text₁) (hword : WordAt text₁ word rest)
    (hlen : word.length < sizeofStopCommand) :
    turn conv n s = .ok ({ s with text := rest, stopCommand := word }, isStop word) := by
  unfold turn
  rw [hpart.scanLine_eq]
  dsimp only [bind, Except.bind]
  rw [scanWord_eq_some_iff.mpr hword]
  exact if_neg (not_le.mpr hlen)

lemma turn_ignored (hline : LineAt conv s.text line rest)
    (hreq : newRequest n s.requestlist.length line = none) :
    turn conv n s = .ok ({ s with text := rest, ignored := s.ignored ++ [line] }, false) := by
  unfold turn
  rw [hline.scanLine_eq]
  dsimp only [bind, Except.bind]
  rw [hreq]

lemma turn_accepted (hline : LineAt conv s.text line rest)
    (hreq : newRequest n s.requestlist.length line = some req)
    (hroom : s.requestlist.length < requestlistLength) : turn conv n s
      = .ok ({ s with text := rest, requestlist := s.requestlist ++ [req] }, false) := by
  unfold turn
  rw [hline.scanLine_eq]
  dsimp only [bind, Except.bind]
  rw [hreq]
  exact if_neg (not_le.mpr hroom)

lemma readRequests_of_turn (h : turn conv n s = .ok (s', false)) :
    readRequests conv n s (turns + 1) = readRequests conv n s' turns := by
  rw [readRequests, h]

lemma readRequests_of_stop (h : turn conv n s = .ok (s', true)) :
    readRequests conv n s (turns + 1) = some (.ok s') := by
  rw [readRequests, h]

/-- The loop ends on a text that stops, if there is room for the requests. -/
lemma Stops.readRequests_eq (h : Stops conv text lines) : ∀ {s : Reader}, s.text = text →
    s.requestlist.length + (requestsOf n s.requestlist.length lines).length ≤ requestlistLength →
    ∃ turns s', readRequests conv n s turns = some (.ok s') ∧
      s'.requestlist = s.requestlist ++ requestsOf n s.requestlist.length lines := by
  induction h with
  | stop hpart hword hlen hstop =>
    rintro s rfl -
    have hturn : turn conv n s = _ := turn_word hpart hword hlen
    rw [hstop] at hturn
    exact ⟨1, _, readRequests_of_stop hturn, (List.append_nil _).symm⟩
  | skip hpart hword hlen hstop _ ih =>
    rintro s rfl hroom
    have hturn : turn conv n s = _ := turn_word hpart hword hlen
    rw [Bool.not_eq_true] at hstop
    rw [hstop] at hturn
    obtain ⟨turns, s', hrun, hlist⟩ := ih (s := { s with text := _, stopCommand := _ }) rfl hroom
    exact ⟨turns + 1, s', (readRequests_of_turn hturn).trans hrun, hlist⟩
  | @line _ _ line lines hline _ ih =>
    rintro s rfl hroom
    cases hreq : newRequest n s.requestlist.length line with
    | none =>
      have hskip : requestsOf n s.requestlist.length (line :: lines)
          = requestsOf n s.requestlist.length lines := by rw [requestsOf, hreq]
      rw [hskip] at hroom ⊢
      obtain ⟨turns, s', hrun, hlist⟩ := ih
        (s := { s with text := _, ignored := s.ignored ++ [line] }) rfl hroom
      exact ⟨turns + 1, s', (readRequests_of_turn (turn_ignored hline hreq)).trans hrun, hlist⟩
    | some req =>
      have hcons : requestsOf n s.requestlist.length (line :: lines)
          = req :: requestsOf n (s.requestlist.length + 1) lines := by rw [requestsOf, hreq]
      rw [hcons] at hroom ⊢
      rw [List.length_cons] at hroom
      have hlen : (s.requestlist ++ [req]).length = s.requestlist.length + 1 := List.length_append
      obtain ⟨turns, s', hrun, hlist⟩ := ih
        (s := { s with text := _, requestlist := s.requestlist ++ [req] }) rfl (by
          dsimp only
          rw [hlen]
          omega)
      have hturn := turn_accepted hline hreq (by omega)
      refine ⟨turns + 1, s', (readRequests_of_turn hturn).trans hrun, hlist.trans ?_⟩
      dsimp only
      rw [hlen, List.append_assoc, List.singleton_append]

lemma not_stops_nil : ¬Stops conv [] lines := by
  -- nothing is found in the empty text
  have hpart : ∀ {rest}, PartAt [] rest → rest = [] := fun {rest} h => by
    have hscan : scanLine conv [] = .ok (none, rest) := h.scanLine_eq
    exact (Prod.mk.inj (Except.ok.inj hscan)).2.symm
  have hword : ∀ {word rest}, ¬WordAt [] word rest := fun h =>
    nomatch scanWord_eq_some_iff.mpr h
  rintro (⟨h, h', -⟩ | ⟨h, h', -⟩ | ⟨h, -⟩)
  · exact hword (hpart h ▸ h')
  · exact hword (hpart h ▸ h')
  · exact nomatch h.scanLine_eq

/-- A loop that ends has found the word `STOP`, unless it was in the array before. -/
lemma stops_of_readRequests : ∀ {s : Reader},
    readRequests conv n s turns = some (.ok s') → ¬isStop s.stopCommand →
    s.requestlist.length ≤ requestlistLength → ∃ lines, Stops conv s.text lines ∧
      s'.requestlist = s.requestlist ++ requestsOf n s.requestlist.length lines ∧
      s'.requestlist.length ≤ requestlistLength := by
  induction turns with
  | zero => exact fun h => nomatch h
  | succ turns ih =>
    intro s h hstale hroom
    rw [readRequests] at h
    split at h
    case h_1 => cases h
    case h_2 s₁ hturn =>
      -- the loop is left
      cases h
      obtain ⟨_, -, -, -, hout⟩ | ⟨_, word, rest, hpart, hword, hlen, rfl, hout⟩ |
        ⟨_, _, -, -, -, hout⟩ | ⟨_, _, _, -, -, -, -, hout⟩ := turn_cases hturn
      · exact absurd hout.symm hstale
      · exact ⟨[], .stop hpart hword hlen hout.symm, (List.append_nil _).symm, hroom⟩
      · cases hout
      · cases hout
    case h_3 s₁ hturn =>
      obtain ⟨_, hpart, hblank, rfl, hout⟩ | ⟨_, word, rest, hpart, hword, hlen, rfl, hout⟩ |
        ⟨line, rest, hline, hreq, rfl, -⟩ | ⟨line, req, rest, hline, hreq, hlt, rfl, -⟩ :=
        turn_cases hturn
      · -- at the end of the text nothing changes any more
        obtain ⟨lines, hstops, -⟩ := ih h hstale hroom
        exact absurd hstops not_stops_nil
      · have hstop : ¬isStop word := by
          rw [← hout]
          nofun
        obtain ⟨lines, hstops, hlist, hend⟩ := ih h hstop hroom
        exact ⟨lines, .skip hpart hword hlen hstop hstops, hlist, hend⟩
      · obtain ⟨lines, hstops, hlist, hend⟩ := ih h hstale hroom
        refine ⟨line :: lines, .line hline hstops, ?_, hend⟩
        rw [requestsOf, hreq]
        exact hlist
      · have hlen : (s.requestlist ++ [req]).length = s.requestlist.length + 1 :=
          List.length_append
        obtain ⟨lines, hstops, hlist, hend⟩ := ih h hstale (by dsimp only; omega)
        refine ⟨line :: lines, .line hline hstops, ?_, hend⟩
        dsimp only at hlist
        rw [requestsOf, hreq, hlist, hlen, List.append_assoc]
        rfl

/-! ### What is accepted -/

/-- A line is accepted as a request. -/
def Valid (n : Int) (line : Line) : Prop :=
  0 < line.userNumber ∧ 0 < line.fileNumber ∧ line.fileNumber ≤ n ∧
    (operationOf line.operation).isSome

instance (n : Int) (line : Line) : Decidable (Valid n line) := inferInstanceAs (Decidable (_ ∧ _))

/-- The request of a valid line. -/
lemma newRequest_cases (n : Int) (k : Nat) (line : Line) :
    (¬Valid n line ∧ newRequest n k line = none) ∨ (Valid n line ∧ ∃ req,
      newRequest n k line = some req ∧ req.requestNumber = k ∧ req.fileNumber = line.fileNumber ∧
        req.requestTime = line.requestTime) := by
  unfold newRequest Valid
  by_cases hc : line.userNumber ≤ 0 ∨ line.fileNumber ≤ 0 ∨ line.fileNumber > n
  · exact Or.inl ⟨by omega, if_pos hc⟩
  rw [if_neg hc]
  cases hop : operationOf line.operation with
  | none => exact Or.inl ⟨fun h => by simp at h, rfl⟩
  | some operation => exact Or.inr ⟨⟨by omega, by omega, by omega, rfl⟩, _, rfl, rfl, rfl, rfl⟩

/-- There is one request for every valid line, in the same order. -/
lemma map_requestsOf {α : Type*} {f : Requestnode → α} {g : Line → α}
    (hfg : ∀ {k line req}, newRequest n k line = some req → f req = g line) (lines : List Line) :
    ∀ k, (requestsOf n k lines).map f = (lines.filter (Valid n)).map g := by
  induction lines with
  | nil => exact fun _ => rfl
  | cons line lines ih =>
    intro k
    rw [requestsOf]
    obtain ⟨hno, hnone⟩ | ⟨hyes, req, hsome, -⟩ := newRequest_cases n k line
    · rw [hnone, List.filter_cons_of_neg (by simpa using hno)]
      exact ih k
    · rw [hsome, List.filter_cons_of_pos (by simpa using hyes), List.map_cons, List.map_cons,
        ih (k + 1), hfg hsome]

lemma fileNumber_newRequest {k : Nat} (h : newRequest n k line = some req) :
    req.fileNumber = line.fileNumber := by
  obtain ⟨-, hnone⟩ | ⟨-, req', hsome, -, hfile, -⟩ := newRequest_cases n k line
  · rw [hnone] at h
    cases h
  · rw [Option.some.inj (h.symm.trans hsome), hfile]

lemma length_requestsOf (n : Int) (k : Nat) (lines : List Line) :
    (requestsOf n k lines).length = (lines.filter (Valid n)).length := by
  have hmap := map_requestsOf (n := n) fileNumber_newRequest lines k (g := (·.fileNumber))
  have hlen := congrArg List.length hmap
  rwa [List.length_map, List.length_map] at hlen

/-- The requests are numbered by their places. -/
lemma requestNumber_requestsOf (n : Int) (lines : List Line) : ∀ k,
    (requestsOf n k lines).map (·.requestNumber) = List.range' k (requestsOf n k lines).length := by
  induction lines with
  | nil => exact fun _ => rfl
  | cons line lines ih =>
    intro k
    rw [requestsOf]
    obtain ⟨-, hnone⟩ | ⟨-, req, hsome, hnum, -⟩ := newRequest_cases n k line
    · rw [hnone]
      exact ih k
    · rw [hsome]
      dsimp only
      rw [List.map_cons, ih (k + 1), hnum, List.length_cons, List.range'_succ]

/-- The text stops, there is room for the requests in it, and for their files. -/
def WellFormed (conv : Int → Int) (n : Int) (text : List Char) : Prop :=
  ∃ lines, Stops conv text lines ∧ (lines.filter (Valid n)).length ≤ requestlistLength ∧
    ∀ line ∈ lines, Valid n line → line.fileNumber < filelistLength

/-- The reading loop of `main` ends, whatever is in `stop_command` before, with requests for files
of `filelist` at their places in `requestlist`, exactly if the text is well formed. -/
theorem reader_ends_iff (conv : Int → Int) (n : Int) (text : List Char) :
    (∀ stopCommand, ∃ turns s', readRequests conv n { text, stopCommand } turns = some (.ok s') ∧
      ∀ i req, s'.requestlist[i]? = some req → 1 ≤ req.fileNumber ∧ req.fileNumber ≤ min n 999 ∧
        req.requestNumber = i ∧ i < requestlistLength) ↔ WellFormed conv n text := by
  constructor
  · intro h
    obtain ⟨turns, s', hrun, hreq⟩ := h []
    obtain ⟨lines, hstops, hlist, hlen⟩ := stops_of_readRequests hrun nofun (Nat.zero_le _)
    replace hlist : s'.requestlist = requestsOf n 0 lines := hlist
    refine ⟨lines, hstops, ?_, fun line hmem hvalid => ?_⟩
    · rwa [hlist, length_requestsOf] at hlen
    · have hfile : line.fileNumber ∈ (requestsOf n 0 lines).map (·.fileNumber) := by
        rw [map_requestsOf fileNumber_newRequest lines 0 (g := (·.fileNumber))]
        exact List.mem_map_of_mem (List.mem_filter.mpr ⟨hmem, by simpa using hvalid⟩)
      obtain ⟨req, hin, heq⟩ := List.mem_map.mp hfile
      obtain ⟨i, hi⟩ := List.getElem?_of_mem hin
      obtain ⟨-, hle, -⟩ := hreq i req (hlist ▸ hi)
      rw [← heq]
      unfold filelistLength
      omega
  · rintro ⟨lines, hstops, hlen, hfiles⟩ stopCommand
    have hroom : 0 + (requestsOf n 0 lines).length ≤ requestlistLength := by
      rwa [Nat.zero_add, length_requestsOf]
    obtain ⟨turns, s', hrun, hlist⟩ := hstops.readRequests_eq (s := { text, stopCommand }) rfl hroom
    replace hlist : s'.requestlist = requestsOf n 0 lines := hlist
    refine ⟨turns, s', hrun, fun i req hi => ?_⟩
    rw [hlist] at hi
    obtain ⟨hlt, hget⟩ := List.getElem?_eq_some_iff.mp hi
    -- the line that the request comes from
    have hfile : req.fileNumber ∈ (lines.filter (Valid n)).map (·.fileNumber) := by
      rw [← map_requestsOf fileNumber_newRequest lines 0 (f := (·.fileNumber))]
      exact List.mem_map_of_mem (List.mem_of_getElem? hi)
    obtain ⟨line, hin, heq⟩ := List.mem_map.mp hfile
    obtain ⟨hmem, hvalid⟩ := List.mem_filter.mp hin
    rw [decide_eq_true_eq] at hvalid
    have hbelow := hfiles line hmem hvalid
    obtain ⟨-, hpos, hle, -⟩ := hvalid
    have hnum : req.requestNumber = i := by
      have := congrArg (·[i]?) (requestNumber_requestsOf n lines 0)
      simpa [hlt, hget] using this
    unfold filelistLength at hbelow
    rw [← heq]
    exact ⟨by omega, by omega, hnum, by omega⟩

/-- At the end of the text the loop goes on. -/
lemma readRequests_nil (l : List Requestnode) (ignored : List Line) : ∀ turns,
    readRequests conv n { text := [], requestlist := l, ignored, stopCommand := [] } turns
      = none := by
  intro turns
  induction turns with
  | zero => rfl
  | succ turns ih =>
    rw [readRequests]
    exact ih

/-- A text without the word `STOP` is read for ever; and where more than 999 files are announced, a
request is accepted for a file that is not in `filelist`. -/
theorem reader_fails :
    (∀ turns, readRequests id 3 { text := "1 1 READ 0".toList, stopCommand := [] } turns = none) ∧
    ∃ s' req, readRequests id 1000 { text := "1 1000 READ 0 STOP".toList, stopCommand := [] } 2
      = some (.ok s') ∧ s'.requestlist = [req] ∧ req.fileNumber = 1000 := by
  constructor
  · intro turns
    cases turns with
    | zero => rfl
    | succ turns =>
      have hturn : turn id 3 { text := "1 1 READ 0".toList, stopCommand := [] }
          = .ok ({ text := [], requestlist := [⟨0, 1, 1, .read, 0, -1⟩], stopCommand := [] },
            false) := by
        rfl
      rw [readRequests_of_turn hturn]
      exact readRequests_nil _ _ turns
  · exact ⟨⟨[], [⟨0, 1, 1000, .read, 0, -1⟩], [], "STOP".toList⟩, _, by rfl, rfl, rfl⟩

end Xv6.Lazy
