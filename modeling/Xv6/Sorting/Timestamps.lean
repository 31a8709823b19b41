import Xv6.Sorting.SortFiles

/-!
# Sorting by timestamp

The timestamps are texts of the form `YYYY-MM-DDThh:mm:ss`. Their order as texts is the
chronological one, and `time` is assumed to be strictly increasing in it; `utcTime` is such a
function. The counting branch sorts by the remainders of the times, which is another order.
-/

namespace Xv6.Sorting

open Lib

/-! ### Well-formed timestamps -/

structure DateTime where
  year : Nat
  month : Nat
  day : Nat
  hour : Nat
  minute : Nat
  second : Nat

def daysInMonth (year month : Nat) : Nat :=
  if month = 2 then
    if year % 4 = 0 ∧ (year % 100 ≠ 0 ∨ year % 400 = 0) then 29 else 28
  else if month ∈ [4, 6, 9, 11] then 30
  else 31

/-- A date from 1990 on, with four digits for the year. -/
structure DateTime.Valid (d : DateTime) : Prop where
  year : 1990 ≤ d.year ∧ d.year < 10000
  month : 1 ≤ d.month ∧ d.month ≤ 12
  day : 1 ≤ d.day ∧ d.day ≤ daysInMonth d.year d.month
  hour : d.hour < 24
  minute : d.minute < 60
  second : d.second < 60

/-- The last `n` decimal digits of `v`. -/
def digits : Nat → Nat → List UInt8
  | 0, _ => []
  | n + 1, v => digits n (v / 10) ++ [UInt8.ofNat (48 + v % 10)]

def DateTime.text (d : DateTime) : List UInt8 :=
  digits 4 d.year ++ 45 :: (digits 2 d.month ++ 45 :: (digits 2 d.day ++ 84 ::
    (digits 2 d.hour ++ 58 :: (digits 2 d.minute ++ 58 :: digits 2 d.second))))

def WellFormed (timestamp : List UInt8) : Prop :=
  ∃ d : DateTime, d.Valid ∧ d.text = timestamp

/-! ### Their order as texts -/

@[simp] lemma length_digits (n : Nat) : ∀ v, (digits n v).length = n := by
  induction n with
  | zero => exact fun _ => rfl
  | succ n ih =>
    intro v
    simp [digits, ih]

lemma strcmp_append (a : List UInt8) : ∀ b x y, a.length = b.length →
    strcmp (a ++ x) (b ++ y) = if a = b then strcmp x y else strcmp a b := by
  induction a with
  | nil =>
    intro b x y hlen
    rw [List.eq_nil_of_length_eq_zero hlen.symm]
    rfl
  | cons c a ih =>
    intro b x y hlen
    cases b with
    | nil => simp at hlen
    | cons d b =>
      simp only [List.cons_append, strcmp, List.cons.injEq]
      by_cases hcd : c = d
      · simp [hcd, ih b x y (by simpa using hlen)]
      · simp [hcd]

lemma strcmp_digit {v w : Nat} (hv : v < 10) (hw : w < 10) :
    strcmp [UInt8.ofNat (48 + v)] [UInt8.ofNat (48 + w)] < 0 ↔ v < w := by
  interval_cases v <;> interval_cases w <;> decide

/-- The number that a text of digits stands for. -/
def decimal (ds : List UInt8) : Nat := ds.foldl (fun v c => 10 * v + (c.toNat - 48)) 0

lemma decimal_digits (n : Nat) : ∀ {v}, v < 10 ^ n → decimal (digits n v) = v := by
  induction n with
  | zero =>
    intro v hv
    rw [pow_zero, Nat.lt_one_iff] at hv
    rw [hv]
    rfl
  | succ n ih =>
    intro v hv
    have hv' : v / 10 < 10 ^ n := by
      rw [pow_succ] at hv
      omega
    have hdigit : (UInt8.ofNat (48 + v % 10)).toNat - 48 = v % 10 := by
      have hlt : v % 10 < 10 := Nat.mod_lt _ (by norm_num)
      rw [UInt8.toNat_ofNat', Nat.mod_eq_of_lt (by omega)]
      omega
    rw [digits, decimal, List.foldl_append]
    change 10 * decimal (digits n (v / 10)) + _ = v
    rw [ih hv', hdigit]
    omega

lemma digits_inj {n v w : Nat} (hv : v < 10 ^ n) (hw : w < 10 ^ n) :
    digits n v = digits n w ↔ v = w := by
  refine ⟨fun h => ?_, fun h => h ▸ rfl⟩
  rw [← decimal_digits n hv, ← decimal_digits n hw, h]

/-- Numbers with equally many digits are compared as texts. -/
lemma strcmp_digits (n : Nat) : ∀ {v w : Nat}, v < 10 ^ n → w < 10 ^ n →
    (strcmp (digits n v) (digits n w) < 0 ↔ v < w) := by
  induction n with
  | zero =>
    intro v w hv hw
    simp only [pow_zero, Nat.lt_one_iff] at hv hw
    simp [digits, strcmp, hv, hw]
  | succ n ih =>
    intro v w hv hw
    rw [pow_succ] at hv hw
    have hv' : v / 10 < 10 ^ n := by omega
    have hw' : w / 10 < 10 ^ n := by omega
    rw [digits, digits, strcmp_append _ _ _ _ (by simp)]
    split_ifs with h
    · rw [digits_inj hv' hw'] at h
      rw [strcmp_digit (Nat.mod_lt _ (by norm_num)) (Nat.mod_lt _ (by norm_num))]
      omega
    · rw [digits_inj hv' hw'] at h
      rw [ih hv' hw']
      omega

lemma strcmp_digits_append {n v w : Nat} (hv : v < 10 ^ n) (hw : w < 10 ^ n)
    (c : UInt8) (x y : List UInt8) :
    strcmp (digits n v ++ c :: x) (digits n w ++ c :: y) < 0 ↔
      v < w ∨ (v = w ∧ strcmp x y < 0) := by
  rw [strcmp_append _ _ _ _ (by simp), strcmp, if_pos rfl]
  split_ifs with h
  · simp [(digits_inj hv hw).mp h]
  · have hne : v ≠ w := fun hvw => h (hvw ▸ rfl)
    simp [hne, strcmp_digits n hv hw]

lemma daysInMonth_le (y m : Nat) : daysInMonth y m ≤ 31 := by
  unfold daysInMonth
  split_ifs <;> norm_num

/-- Of two timestamps the one with the smaller first field that differs is the smaller text. -/
lemma strcmp_text {d e : DateTime} (hd : d.Valid) (he : e.Valid) :
    strcmp d.text e.text < 0 ↔ d.year < e.year ∨ (d.year = e.year ∧ (d.month < e.month ∨
      (d.month = e.month ∧ (d.day < e.day ∨ (d.day = e.day ∧ (d.hour < e.hour ∨
      (d.hour = e.hour ∧ (d.minute < e.minute ∨ (d.minute = e.minute ∧
      d.second < e.second))))))))) := by
  have hdd := daysInMonth_le d.year d.month
  have hde := daysInMonth_le e.year e.month
  obtain ⟨⟨-, hy⟩, ⟨-, hmo⟩, ⟨-, hda⟩, hh, hmi, hs⟩ := hd
  obtain ⟨⟨-, hy'⟩, ⟨-, hmo'⟩, ⟨-, hda'⟩, hh', hmi', hs'⟩ := he
  unfold DateTime.text
  rw [strcmp_digits_append (by omega) (by omega), strcmp_digits_append (by omega) (by omega),
    strcmp_digits_append (by omega) (by omega), strcmp_digits_append (by omega) (by omega),
    strcmp_digits_append (by omega) (by omega), strcmp_digits 2 (by omega) (by omega)]

/-! ### Unix time -/

def daysBeforeMonth (year : Nat) : Nat → Nat
  | 0 => 0
  | m + 1 => daysBeforeMonth year m + if m = 0 then 0 else daysInMonth year m

/-- The days from the beginning of 1970 to the beginning of the year `1970 + n`. -/
def daysBeforeYear : Nat → Nat
  | 0 => 0
  | n + 1 => daysBeforeYear n + daysBeforeMonth (1970 + n) 13

def DateTime.days (d : DateTime) : Nat :=
  daysBeforeYear (d.year - 1970) + daysBeforeMonth d.year d.month + (d.day - 1)

/-- The Unix time of a date in UTC. -/
def DateTime.unixTime (d : DateTime) : Nat :=
  ((d.days * 24 + d.hour) * 60 + d.minute) * 60 + d.second

lemma daysBeforeMonth_mono (y : Nat) : Monotone (daysBeforeMonth y) :=
  monotone_nat_of_le_succ fun _ => Nat.le_add_right _ _

lemma daysBeforeYear_mono : Monotone daysBeforeYear :=
  monotone_nat_of_le_succ fun _ => Nat.le_add_right _ _

/-- A day lies before the end of its month. -/
lemma DateTime.Valid.day_lt {d : DateTime} (hd : d.Valid) {m : Nat} (hm : d.month < m) :
    daysBeforeMonth d.year d.month + (d.day - 1) < daysBeforeMonth d.year m := by
  have hmono := daysBeforeMonth_mono d.year hm
  have hstep : daysBeforeMonth d.year (d.month + 1)
      = daysBeforeMonth d.year d.month + daysInMonth d.year d.month := by
    rw [daysBeforeMonth, if_neg (by have := hd.month; omega)]
  have := hd.day
  rw [hstep] at hmono
  omega

lemma DateTime.Valid.days_lt {d e : DateTime} (hd : d.Valid)
    (h : d.year < e.year ∨ (d.year = e.year ∧ (d.month < e.month ∨
      (d.month = e.month ∧ d.day < e.day)))) : d.days < e.days := by
  unfold DateTime.days
  have hyear := hd.year
  obtain hy | ⟨hy, hm | ⟨hm, hday⟩⟩ := h
  · have hend := hd.day_lt (m := 13) (by have := hd.month; omega)
    have hmono : daysBeforeYear (d.year - 1970 + 1) ≤ daysBeforeYear (e.year - 1970) :=
      daysBeforeYear_mono (by omega)
    rw [daysBeforeYear, Nat.add_sub_cancel' (by omega)] at hmono
    omega
  · have hend := hd.day_lt hm
    rw [hy] at hend ⊢
    omega
  · have := hd.day
    rw [hy, hm]
    omega

lemma unixTime_lt {d e : DateTime} (hd : d.Valid) (he : e.Valid)
    (h : strcmp d.text e.text < 0) : d.unixTime < e.unixTime := by
  have hdays := hd.days_lt (e := e)
  rw [strcmp_text hd he] at h
  have hh := hd.hour
  have hmi := hd.minute
  have hs := hd.second
  unfold DateTime.unixTime
  by_cases hsame : d.year = e.year ∧ d.month = e.month ∧ d.day = e.day
  · have heq : d.days = e.days := by
      unfold DateTime.days
      rw [hsame.1, hsame.2.1, hsame.2.2]
    omega
  · have := hdays (by omega)
    omega

/-- `strptime` and `mktime` in UTC. -/
def utcTime (timestamp : List UInt8) : Int :=
  let field := fun i n => decimal ((timestamp.drop i).take n)
  (DateTime.mk (field 0 4) (field 5 2) (field 8 2) (field 11 2) (field 14 2) (field 17 2)).unixTime

lemma utcTime_text {d : DateTime} (hd : d.Valid) : utcTime d.text = d.unixTime := by
  have hday := daysInMonth_le d.year d.month
  have hy : decimal ((d.text.drop 0).take 4) = d.year := decimal_digits 4 hd.year.2
  have hmo : decimal ((d.text.drop 5).take 2) = d.month :=
    decimal_digits 2 (by have := hd.month; omega)
  have hda : decimal ((d.text.drop 8).take 2) = d.day :=
    decimal_digits 2 (by have := hd.day; omega)
  have hh : decimal ((d.text.drop 11).take 2) = d.hour :=
    decimal_digits 2 (by have := hd.hour; omega)
  have hmi : decimal ((d.text.drop 14).take 2) = d.minute :=
    decimal_digits 2 (by have := hd.minute; omega)
  have hs : decimal ((d.text.drop 17).take 2) = d.second :=
    decimal_digits 2 (by have := hd.second; omega)
  simp only [utcTime, hy, hmo, hda, hh, hmi, hs]

/-- `time` respects the order of the timestamps. -/
def Chronological (time : List UInt8 → Int) : Prop :=
  ∀ s t, WellFormed s → WellFormed t → strcmp s t < 0 → time s < time t

lemma chronological_utcTime : Chronological utcTime := by
  rintro _ _ ⟨d, hd, rfl⟩ ⟨e, he, rfl⟩ h
  rw [utcTime_text hd, utcTime_text he]
  exact_mod_cast unixTime_lt hd he h

lemma Chronological.lt_iff {time : List UInt8 → Int} (h : Chronological time)
    {s t : List UInt8} (hs : WellFormed s) (ht : WellFormed t) :
    strcmp s t < 0 ↔ time s < time t := by
  refine ⟨h s t hs ht, fun hlt => ?_⟩
  by_contra hnot
  have hne : ¬ strcmp t s < 0 := fun hts => lt_asymm hlt (h t s ht hs hts)
  obtain ⟨d, hd, rfl⟩ := hs
  obtain ⟨e, he, rfl⟩ := ht
  rw [strcmp_text hd he] at hnot
  rw [strcmp_text he hd] at hne
  have heq : d = e := by
    cases d
    cases e
    simp only [DateTime.mk.injEq] at *
    omega
  rw [heq] at hlt
  exact lt_irrefl _ hlt

/-! ### The order of the counting branch -/

/-- The counting branch sorts by the remainders of the times, and so leaves the timestamps in
chronological order exactly if the remainders have the order of the times, equal remainders being
in order already. -/
theorem sortFiles_timestamp_sorted (time : List UInt8 → Int) (htime : Chronological time)
    (order : Int → Int → List (Fin K_WAY)) (files : List FileEntry)
    (sched : List (Fin THREAD_COUNT)) (hne : files ≠ []) (hlen : files.length ≤ LAZY_THRESHOLD)
    (hwf : ∀ f ∈ files, WellFormed f.timestamp)
    (hjoin : ∀ t, cells (preprocessSortKeys time files .timestamp) ≤ sched.count t) :
    ∃ out, sortFiles time sched order files .timestamp = some out ∧
      IsStableSort (fun f => toULong (time f.timestamp) % 9999999)
        (preprocessSortKeys time files .timestamp) out ∧
      ((out.Pairwise fun a b => strcmp a.timestamp b.timestamp ≤ 0) ↔
        ∀ i j : Fin files.length, time (files.get i).timestamp < time (files.get j).timestamp →
          toULong (time (files.get i).timestamp) % 9999999
              < toULong (time (files.get j).timestamp) % 9999999 ∨
            (toULong (time (files.get i).timestamp) % 9999999
              = toULong (time (files.get j).timestamp) % 9999999 ∧ i < j)) := by
  obtain ⟨out, hout, hsort⟩ := sortFiles_counting order (by decide) hne hlen hjoin
  refine ⟨out, hout, hsort.congr ?_, ?_⟩
  · intro a ha b hb
    obtain ⟨a, -, rfl⟩ := List.mem_map.mp ha
    obtain ⟨b, -, rfl⟩ := List.mem_map.mp hb
    exact Iff.rfl
  · have hiff := counting_pairwise_iff (r := fun a b => strcmp a.timestamp b.timestamp < 0)
      (fun a => by simp [strcmp_self]) (fun _ _ _ _ => Iff.rfl) hsort
    have hlt : ∀ i j : Fin files.length,
        strcmp (files.get i).timestamp (files.get j).timestamp < 0 ↔
          time (files.get i).timestamp < time (files.get j).timestamp := fun i j =>
      htime.lt_iff (hwf _ (List.get_mem files i)) (hwf _ (List.get_mem files j))
    simp only [← strcmp_le_iff] at hiff
    exact hiff.trans (forall₂_congr fun i j => imp_congr (hlt i j) Iff.rfl)

def stamped (d : DateTime) : FileEntry :=
  { name := [], id := 0, timestamp := d.text, sortKey := 0 }

/-- The second day-time is 9999997 seconds after the first, and its remainder is smaller by 2: the
later one comes first. -/
theorem sortFiles_timestamp_unsorted :
    Chronological utcTime ∧
      (∀ f ∈ [stamped ⟨1990, 1, 1, 0, 0, 2⟩, stamped ⟨1990, 4, 26, 17, 46, 39⟩],
        WellFormed f.timestamp) ∧
      (∀ t, cells (preprocessSortKeys utcTime
        [stamped ⟨1990, 1, 1, 0, 0, 2⟩, stamped ⟨1990, 4, 26, 17, 46, 39⟩] .timestamp)
          ≤ (roundRobin 3).count t) ∧
      ∃ out, sortFiles utcTime (roundRobin 3) (fun _ _ => List.finRange K_WAY)
          [stamped ⟨1990, 1, 1, 0, 0, 2⟩, stamped ⟨1990, 4, 26, 17, 46, 39⟩] .timestamp
            = some out ∧
        out.map FileEntry.timestamp = [(DateTime.mk 1990 4 26 17 46 39).text,
          (DateTime.mk 1990 1 1 0 0 2).text] := by
  refine ⟨chronological_utcTime, ?_, by decide +kernel, ?_⟩
  · simp only [List.mem_cons, List.not_mem_nil, or_false, forall_eq_or_imp, forall_eq]
    exact ⟨⟨_, ⟨by decide, by decide, by decide, by decide, by decide, by decide⟩, rfl⟩,
      ⟨_, ⟨by decide, by decide, by decide, by decide, by decide, by decide⟩, rfl⟩⟩
  · refine ⟨[{ stamped ⟨1990, 4, 26, 17, 46, 39⟩ with sortKey := 1152063 },
      { stamped ⟨1990, 1, 1, 0, 0, 2⟩ with sortKey := 1152065 }], ?_⟩
    decide +kernel

/-- The first two seconds of 1990, the later one first. -/
theorem sortFiles_timestamp_sorted_twoSeconds :
    ∃ out, sortFiles utcTime (roundRobin 2) (fun _ _ => List.finRange K_WAY)
        [stamped ⟨1990, 1, 1, 0, 0, 1⟩, stamped ⟨1990, 1, 1, 0, 0, 0⟩] .timestamp = some out ∧
      out.Pairwise fun a b => strcmp a.timestamp b.timestamp ≤ 0 := by
  obtain ⟨out, hout, -, hiff⟩ := sortFiles_timestamp_sorted utcTime chronological_utcTime
    (fun _ _ => List.finRange K_WAY)
    [stamped ⟨1990, 1, 1, 0, 0, 1⟩, stamped ⟨1990, 1, 1, 0, 0, 0⟩] (roundRobin 2)
    (by simp) (by decide)
    (by
      simp only [List.mem_cons, List.not_mem_nil, or_false, forall_eq_or_imp, forall_eq]
      exact ⟨⟨_, ⟨by decide, by decide, by decide, by decide, by decide, by decide⟩, rfl⟩,
        ⟨_, ⟨by decide, by decide, by decide, by decide, by decide, by decide⟩, rfl⟩⟩)
    (by decide +kernel)
  exact ⟨out, hout, hiff.mpr (by decide +kernel)⟩

end Xv6.Sorting
