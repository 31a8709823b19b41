import Xv6.Lazy.Reader
import Xv6.Lib.Comparator

/-!
# Sorting the requests

`main` of `finaltry.c` sorts the requests with `qsort` and `compare_requests`, which subtracts the
times as `int`s. Where two times are more than `INT_MAX` apart, the difference overflows, and the
comparison says the opposite of what it should.
-/

namespace Xv6.Lazy

open Lib

variable {conv : Int → Int} {n : Int} {s s' : Reader} {l : List Requestnode} {a b : Requestnode}

/-- The value of an `int` expression. -/
def int (x : Int) : Int := x.bmod (2 ^ 32)

def compareRequests (req1 req2 : Requestnode) : Int :=
  if req1.requestTime ≠ req2.requestTime then int (req1.requestTime - req2.requestTime)
  else int (req1.requestNumber - req2.requestNumber)

/-- The value is an `int`. -/
def IsInt (x : Int) : Prop := -2 ^ 31 ≤ x ∧ x < 2 ^ 31

/-- A list that the program can have accepted. -/
structure Accepted (l : List Requestnode) : Prop where
  number : ∀ i (hi : i < l.length), l[i].requestNumber = i
  room : l.length ≤ requestlistLength
  time : ∀ req ∈ l, IsInt req.requestTime

lemma Accepted.append (h : Accepted l) {req : Requestnode} (hnum : req.requestNumber = l.length)
    (hroom : l.length < requestlistLength) (htime : IsInt req.requestTime) :
    Accepted (l ++ [req]) where
  number i hi := by
    rw [List.length_append, List.length_singleton] at hi
    by_cases hlt : i < l.length
    · rw [List.getElem_append_left hlt]
      exact h.number i hlt
    · obtain rfl : i = l.length := by omega
      rw [List.getElem_concat_length rfl]
      exact hnum
  room := by
    rw [List.length_append, List.length_singleton]
    exact hroom
  time := by
    intro x hx
    rcases List.mem_append.mp hx with hx | hx
    · exact h.time x hx
    · rw [List.mem_singleton.mp hx]
      exact htime

lemma turn_accepted_list (hconv : ∀ x, IsInt (conv x)) {out : Bool} (h : Accepted s.requestlist)
    (hturn : turn conv n s = .ok (s', out)) : Accepted s'.requestlist := by
  obtain ⟨_, -, -, rfl, -⟩ | ⟨_, _, _, -, -, -, rfl, -⟩ | ⟨_, _, -, -, rfl, -⟩ |
    ⟨line, req, rest, hline, hreq, hroom, rfl, -⟩ := turn_cases hturn
  · exact h
  · exact h
  · exact h
  · obtain ⟨-, hnone⟩ | ⟨-, req', hsome, hnum, -, htime⟩ :=
      newRequest_cases n s.requestlist.length line
    · rw [hnone] at hreq
      cases hreq
    · obtain rfl := Option.some.inj (hreq.symm.trans hsome)
      refine h.append hnum hroom ?_
      rw [htime]
      cases hline
      exact hconv _

/-- What the loop has accepted when it ends. -/
lemma readRequests_accepted (hconv : ∀ x, IsInt (conv x)) {turns : Nat} : ∀ {s : Reader},
    Accepted s.requestlist → readRequests conv n s turns = some (.ok s') →
    Accepted s'.requestlist := by
  induction turns with
  | zero => exact fun _ h => nomatch h
  | succ turns ih =>
    intro s h hrun
    rw [readRequests] at hrun
    split at hrun
    case h_1 => cases hrun
    case h_2 s₁ hturn =>
      cases hrun
      exact turn_accepted_list hconv h hturn
    case h_3 s₁ hturn => exact ih (turn_accepted_list hconv h hturn) hrun

/-- The order of arrival; ties are in the order of the input. -/
def Earlier (a b : Requestnode) : Prop :=
  a.requestTime < b.requestTime ∨
    (a.requestTime = b.requestTime ∧ a.requestNumber < b.requestNumber)

/-- No two times are more than `INT_MAX` apart. -/
def SpanFits (l : List Requestnode) : Prop :=
  ∀ a ∈ l, ∀ b ∈ l, a.requestTime - b.requestTime < 2 ^ 31

lemma Accepted.number_lt (h : Accepted l) (ha : a ∈ l) : a.requestNumber < 100000 := by
  obtain ⟨i, hi, rfl⟩ := List.getElem_of_mem ha
  rw [h.number i hi]
  exact hi.trans_le h.room

lemma Accepted.eq_of_number (h : Accepted l) (ha : a ∈ l) (hb : b ∈ l)
    (heq : a.requestNumber = b.requestNumber) : a = b := by
  obtain ⟨i, hi, rfl⟩ := List.getElem_of_mem ha
  obtain ⟨j, hj, rfl⟩ := List.getElem_of_mem hb
  rw [h.number i hi, h.number j hj] at heq
  subst heq
  rfl

lemma Accepted.nodup (h : Accepted l) : l.Nodup := by
  refine List.pairwise_iff_getElem.mpr fun i j hi hj hij heq => ?_
  have hnum := congrArg Requestnode.requestNumber heq
  rw [h.number i hi, h.number j hj] at hnum
  omega

lemma int_eq {x : Int} (hx : IsInt x) : int x = x := by
  unfold int
  unfold IsInt at hx
  exact Int.bmod_eq_of_le (by omega) (by omega)

/-- The sign of the comparison, where no difference overflows. -/
lemma Accepted.compare_eq (h : Accepted l) (hspan : SpanFits l) (ha : a ∈ l) (hb : b ∈ l) :
    compareRequests a b = if a.requestTime ≠ b.requestTime then a.requestTime - b.requestTime
      else a.requestNumber - b.requestNumber := by
  have hab := hspan a ha b hb
  have hba := hspan b hb a ha
  have hna := h.number_lt ha
  have hnb := h.number_lt hb
  unfold compareRequests
  rw [int_eq ⟨by omega, by omega⟩, int_eq ⟨by omega, by omega⟩]

lemma Accepted.compare_neg_iff (h : Accepted l) (hspan : SpanFits l) (ha : a ∈ l) (hb : b ∈ l) :
    compareRequests a b < 0 ↔ Earlier a b := by
  rw [h.compare_eq hspan ha hb]
  unfold Earlier
  split_ifs <;> omega

lemma Accepted.strictOrder (h : Accepted l) (hspan : SpanFits l) :
    StrictOrder compareRequests l where
  antisymm a ha b hb := by
    rw [h.compare_eq hspan ha hb, h.compare_eq hspan hb ha]
    split_ifs <;> omega
  trans a ha b hb c hc := by
    rw [h.compare_neg_iff hspan ha hb, h.compare_neg_iff hspan hb hc,
      h.compare_neg_iff hspan ha hc]
    unfold Earlier
    omega
  eq_of_zero a ha b hb hzero := by
    rw [h.compare_eq hspan ha hb] at hzero
    refine h.eq_of_number ha hb ?_
    split_ifs at hzero <;> omega

/-- Times more than `INT_MAX` apart are compared the wrong way. -/
lemma Accepted.compare_neg_of_overflow (h : Accepted l) (ha : a ∈ l) (hb : b ∈ l)
    (hover : 2 ^ 31 ≤ a.requestTime - b.requestTime) : compareRequests a b < 0 := by
  have hta := h.time a ha
  have htb := h.time b hb
  unfold IsInt at hta htb
  unfold compareRequests int
  rw [if_pos (by omega)]
  rw [Int.bmod_def]
  push_cast
  split_ifs <;> omega

/-- The comparison is a strict total order, and sorting by it gives the order of arrival, exactly if
no two times are more than `INT_MAX` apart. -/
theorem requests_sorted_by_arrival_iff {qsort : (Requestnode → Requestnode → Int) →
    List Requestnode → List Requestnode} (hqsort : Sorts qsort) (h : Accepted l) :
    (StrictOrder compareRequests l ∧ (qsort compareRequests l).Perm l ∧
      (qsort compareRequests l).Pairwise Earlier) ↔ SpanFits l := by
  constructor
  · rintro ⟨hstrict, hperm, hsorted⟩ a ha b hb
    by_contra hover
    have hneg := h.compare_neg_of_overflow ha hb (by omega)
    have hpos := (hstrict.antisymm a ha b hb).mp hneg
    have hne : a ≠ b := by
      rintro rfl
      omega
    -- the two stand in one order in the list, and neither is right
    have hboth := (hqsort _ _ hstrict.consistent).2.and hsorted
    obtain ⟨-, hearlier⟩ | ⟨hle, -⟩ := related_or_of_pairwise hboth (hperm.mem_iff.mpr ha)
      (hperm.mem_iff.mpr hb) hne
    · unfold Earlier at hearlier
      omega
    · omega
  · intro hspan
    have hstrict := h.strictOrder hspan
    obtain ⟨hperm, hsorted⟩ := hqsort _ _ hstrict.consistent
    refine ⟨hstrict, hperm, ?_⟩
    -- two different requests do not compare equal
    have hnodup := hperm.nodup_iff.mpr h.nodup
    refine (hsorted.and hnodup).imp_of_mem fun {a b} ha hb hab => ?_
    rw [← h.compare_neg_iff hspan (hperm.mem_iff.mp ha) (hperm.mem_iff.mp hb)]
    exact lt_of_le_of_ne hab.1 fun hzero =>
      hab.2 (hstrict.eq_of_zero a (hperm.mem_iff.mp ha) b (hperm.mem_iff.mp hb) hzero)

/-- Two requests of the given times. -/
def twoReads (time time' : Int) : List Requestnode :=
  [⟨0, 1, 1, .read, time, -1⟩, ⟨1, 2, 1, .read, time', -1⟩]

theorem requests_sorted_by_arrival_iff_two : Accepted (twoReads 5 3) ∧
    (mergeQsort compareRequests (twoReads 5 3)).Pairwise Earlier := by
  have h : Accepted (twoReads 5 3) := ⟨by decide, by decide, by unfold IsInt; decide⟩
  exact ⟨h, ((requests_sorted_by_arrival_iff sorts_mergeQsort h).mpr
    (by unfold SpanFits; decide)).2.2⟩

/-- The text of two requests at the times `INT_MAX` and -1. -/
def farApart : List Char := "1 1 READ 2147483647 2 1 READ -1 STOP".toList

/-- The program accepts requests of which each is compared as less than the other. -/
theorem compareRequests_overflows :
    ∃ s' a b, readRequests int 1 { text := farApart, stopCommand := [] } 3 = some (.ok s') ∧
      Accepted s'.requestlist ∧ s'.requestlist = [a, b] ∧
      compareRequests a b < 0 ∧ compareRequests b a < 0 := by
  refine ⟨⟨[], twoReads (2 ^ 31 - 1) (-1), [], "STOP".toList⟩, _, _, by decide +kernel, ?_, rfl,
    by decide, by decide⟩
  exact ⟨by decide, by decide, by unfold IsInt; decide⟩

end Xv6.Lazy
