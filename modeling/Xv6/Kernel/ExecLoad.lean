import Xv6.Kernel.ExecArgs

/-!
# The image that the file describes

A program header asks for a range of the file at a range of addresses; where headers overlap, the
last one counts, and elsewhere there are zeros. `exec` loads that image, except that it takes the
64-bit offsets of the ELF header and of the program headers modulo 2^32.
-/

namespace Xv6

open Function Lib

variable {file : List UInt8} {phs : List Proghdr} {ph : Proghdr} {a n off : Nat} {A : AddrSpace}
  {sz1 v va : Nat} {A₁ : AddrSpace}

/-! ### What the file describes -/

/-- The program headers, `n` of them from the 64-bit offset `off` on. -/
def headersAt (file : List UInt8) : Nat → Nat → Option (List Proghdr)
  | 0, _ => some []
  | n + 1, off =>
    let b := (file.drop off).take sizeofProghdr
    if b.length ≠ sizeofProghdr then none
    else (headersAt file n (off + sizeofProghdr)).map (Proghdr.ofBytes b :: ·)

/-- The address lies in the part of the segment that comes from the file. -/
def Proghdr.Covers (ph : Proghdr) (a : Nat) : Prop :=
  ph.type = ELF_PROG_LOAD ∧ ph.vaddr ≤ a ∧ a < ph.vaddr + ph.filesz

instance (ph : Proghdr) (a : Nat) : Decidable (ph.Covers a) := inferInstanceAs (Decidable (_ ∧ _))

/-- The last segment that covers an address. -/
def lastCovering (phs : List Proghdr) (a : Nat) : Option Proghdr :=
  phs.reverse.find? fun ph => ph.Covers a

/-- The byte at an address, as the file describes it. -/
def describedByte (file : List UInt8) (phs : List Proghdr) (a : Nat) : Option UInt8 :=
  match lastCovering phs a with
  | some ph => file[ph.off + (a - ph.vaddr)]?
  | none => some 0

/-- Below the address `top` the process reads the image that the file describes. -/
def Describes (file : List UInt8) (load : Nat → Option UInt8) (top : Nat) : Prop :=
  ∃ phs, headersAt file (elfOf file).phnum (elfOf file).phoff = some phs ∧
    ∀ a < top, load a = describedByte file phs a

/-- The offsets that count have no more than 32 bits. -/
def OffsetsFit (file : List UInt8) : Prop :=
  ((elfOf file).phnum = 0 ∨ (elfOf file).phoff < 2 ^ 32) ∧
    ∀ phs, headersAt file (elfOf file).phnum (elfOf file).phoff = some phs →
      ∀ a ph, lastCovering phs a = some ph → ph.off < 2 ^ 32

lemma lastCovering_append (phs : List Proghdr) (ph : Proghdr) (a : Nat) :
    lastCovering (phs ++ [ph]) a = if ph.Covers a then some ph else lastCovering phs a := by
  unfold lastCovering
  rw [List.reverse_append, List.reverse_singleton, List.singleton_append, List.find?_cons]
  by_cases h : ph.Covers a
  · rw [if_pos h, decide_eq_true h]
  · rw [if_neg h, decide_eq_false h]

lemma lastCovering_some (h : lastCovering phs a = some ph) : ph ∈ phs ∧ ph.Covers a :=
  ⟨List.mem_reverse.mp (List.mem_of_find?_eq_some h),
    of_decide_eq_true (List.find?_some (p := fun ph : Proghdr => decide (ph.Covers a)) h)⟩

/-! ### Reading -/

/-- A read that returns all the bytes it was asked for. -/
lemma readi_full (hn : 0 < n) (h : (readi file off n).length = n) :
    readi file off n = (file.drop off).take n ∧ off + n ≤ file.length := by
  unfold readi at h ⊢
  split_ifs at h ⊢ with hc
  · rw [List.length_nil] at h
    omega
  · rw [List.length_take, List.length_drop] at h
    exact ⟨rfl, by omega⟩

lemma readHeaders_eq (hfile : file.length < 2 ^ 32) : ∀ {n off : Nat} {phs : List Proghdr},
    readHeaders file n off = some phs → headersAt file n off = some phs := by
  intro n
  induction n with
  | zero => exact fun h => h
  | succ n ih =>
    intro off phs h
    unfold readHeaders at h
    simp only at h
    split_ifs at h with hlen
    obtain ⟨hread, hle⟩ := readi_full (by decide) (not_not.mp hlen)
    obtain ⟨rest, hrest, rfl⟩ := Option.map_eq_some_iff.mp h
    rw [Nat.mod_eq_of_lt (by omega)] at hrest
    unfold headersAt
    simp only
    rw [← hread, if_neg hlen, ih hrest]
    rfl

/-- The fields of the headers are 64-bit numbers. -/
lemma mem_readHeaders : ∀ {n off : Nat} {phs : List Proghdr}, readHeaders file n off = some phs →
    ∀ ph ∈ phs, ph.vaddr < 2 ^ 64 ∧ ph.memsz < 2 ^ 64 := by
  intro n
  induction n with
  | zero =>
    intro off phs h ph hph
    rw [← Option.some.inj h] at hph
    cases hph
  | succ n ih =>
    intro off phs h ph hph
    unfold readHeaders at h
    simp only at h
    split_ifs at h
    obtain ⟨rest, hrest, rfl⟩ := Option.map_eq_some_iff.mp h
    rcases List.mem_cons.mp hph with rfl | hph
    · exact ⟨field_lt _ _, field_lt _ _⟩
    · exact ih hrest ph hph

/-- `loadseg` reads the bytes of the segment one after the other. -/
lemma readSegment_eq (hfile : file.length < 2 ^ 32) {offset sz : Nat} :
    ∀ {n i : Nat} {bytes : List UInt8}, (sz - i + PGSIZE - 1) / PGSIZE = n →
    (i < sz → offset + i < 2 ^ 32) → readSegment file offset sz n i = some bytes →
    bytes = (file.drop (offset + i)).take (sz - i) ∧ (i < sz → offset + sz ≤ file.length) := by
  intro n
  induction n with
  | zero =>
    intro i bytes hn _ h
    have hzero : sz - i = 0 := by
      simp only [PGSIZE] at hn
      omega
    rw [hzero, List.take_zero]
    exact ⟨(Option.some.inj h).symm, fun hi => by omega⟩
  | succ n ih =>
    intro i bytes hn hoff h
    have hi : i < sz := by
      by_contra hc
      have : sz - i = 0 := by omega
      rw [this] at hn
      simp [PGSIZE] at hn
    unfold readSegment at h
    simp only at h
    rw [Nat.mod_eq_of_lt (hoff hi)] at h
    set m := if sz - i < PGSIZE then sz - i else PGSIZE with hm
    have hmpos : 0 < m := by
      rw [hm]
      split_ifs
      · omega
      · decide
    split_ifs at h with hlen
    obtain ⟨hread, hle⟩ := readi_full hmpos (not_not.mp hlen)
    obtain ⟨rest, hrest, rfl⟩ := Option.map_eq_some_iff.mp h
    have hmle : m ≤ sz - i := by
      rw [hm]
      split_ifs <;> omega
    -- the bytes of this turn and those of the next ones
    have hsplit : (file.drop (offset + i)).take (sz - i)
        = (file.drop (offset + i)).take m
          ++ (file.drop (offset + (i + m))).take (sz - (i + m)) := by
      rw [show sz - i = m + (sz - (i + m)) by omega, List.take_add, List.drop_drop, ← Nat.add_assoc]
    by_cases hlast : sz - i < PGSIZE
    · rw [if_pos hlast] at hm
      have hdone : (sz - (i + PGSIZE) + PGSIZE - 1) / PGSIZE = n := by
        simp only [PGSIZE] at hn hlast ⊢
        omega
      obtain ⟨hbytes, -⟩ := ih hdone (fun hc => by omega) hrest
      rw [show sz - (i + PGSIZE) = 0 by omega, List.take_zero] at hbytes
      rw [hsplit, hread, hbytes, show sz - (i + m) = 0 by omega, List.take_zero]
      exact ⟨rfl, fun _ => by omega⟩
    · rw [if_neg hlast] at hm
      have hnext : (sz - (i + PGSIZE) + PGSIZE - 1) / PGSIZE = n := by
        simp only [PGSIZE] at hn hlast ⊢
        omega
      obtain ⟨hbytes, hrest'⟩ := ih hnext (fun _ => by omega) hrest
      rw [hsplit, hread, hbytes, hm]
      exact ⟨rfl, fun _ => by
        by_cases hc : i + PGSIZE < sz
        · exact hrest' hc
        · omega⟩

/-! ### The segments -/

/-- The byte at an address after the segments are loaded. -/
def loadedByte (file : List UInt8) (phs : List Proghdr) (a : Nat) : UInt8 :=
  match lastCovering phs a with
  | some ph => file.getD (ph.off % 2 ^ 32 + (a - ph.vaddr)) 0
  | none => 0

/-- The segments `phs` have been loaded below `sz`. -/
structure Loaded (file : List UInt8) (phs : List Proghdr) (sz : Nat) (A : AddrSpace) : Prop where
  byte : ∀ a, A.byte a = if a / PGSIZE < pages sz then some (loadedByte file phs a) else none
  covered : ∀ ph ∈ phs, ∀ a, ph.Covers a → a < sz
  inFile : ∀ ph ∈ phs, ∀ a, ph.Covers a → ph.off % 2 ^ 32 + (a - ph.vaddr) < file.length

lemma loadedByte_append (phs : List Proghdr) (ph : Proghdr) (a : Nat) :
    loadedByte file (phs ++ [ph]) a = if ph.Covers a
      then file.getD (ph.off % 2 ^ 32 + (a - ph.vaddr)) 0 else loadedByte file phs a := by
  unfold loadedByte
  rw [lastCovering_append]
  split_ifs <;> rfl

/-- Above `sz` nothing is covered. -/
lemma Loaded.zero_above {sz : Nat} (h : Loaded file phs sz A) (ha : ¬a / PGSIZE < pages sz) :
    loadedByte file phs a = 0 := by
  unfold loadedByte
  cases hlast : lastCovering phs a with
  | none => rfl
  | some ph =>
    obtain ⟨hmem, hcov⟩ := lastCovering_some hlast
    exact absurd (div_lt_pages (h.covered ph hmem a hcov)) ha

lemma byte_grow {b c : Nat} (A : AddrSpace) (xperm : Pte) (a : Nat) :
    (A.grow b c xperm).byte a = if b ≤ a / PGSIZE ∧ a / PGSIZE < c then some 0 else A.byte a := by
  unfold AddrSpace.byte AddrSpace.grow
  split_ifs <;> rfl

/-- What one program header does. -/
lemma refSegment_cases {sz : Nat} (h : refSegment file ph sz A = some (sz1, A₁)) :
    (ph.type ≠ ELF_PROG_LOAD ∧ sz1 = sz ∧ A₁ = A) ∨
    (ph.type = ELF_PROG_LOAD ∧ ph.filesz ≤ ph.memsz ∧ ph.vaddr ≤ (ph.vaddr + ph.memsz) % 2 ^ 64 ∧
      sz1 = max ((ph.vaddr + ph.memsz) % 2 ^ 64) sz ∧ ∃ bytes,
        readSegment file (ph.off % 2 ^ 32) (ph.filesz % 2 ^ 32)
          ((ph.filesz % 2 ^ 32 + PGSIZE - 1) / PGSIZE) 0 = some bytes ∧
        A₁ = (A.grow (pages sz) (pages sz1) (flags2perm ph.flags)).put ph.vaddr bytes) := by
  unfold refSegment at h
  split_ifs at h with htype hfs hwrap
  · obtain ⟨rfl, rfl⟩ := Prod.mk.inj (Option.some.inj h)
    exact Or.inl ⟨htype, rfl, rfl⟩
  · dsimp only at h
    split_ifs at h
    obtain ⟨bytes, hbytes, heq⟩ := Option.map_eq_some_iff.mp h
    obtain ⟨rfl, rfl⟩ := Prod.mk.inj heq
    exact Or.inr ⟨not_not.mp htype, not_lt.mp hfs, not_lt.mp hwrap, rfl, bytes, hbytes, rfl⟩

/-- One segment is loaded. -/
lemma refSegment_loaded (hfile : file.length < 2 ^ 32) {sz : Nat} (hva : ph.vaddr < 2 ^ 64)
    (hmem : ph.memsz < 2 ^ 64) (hA : Loaded file phs sz A)
    (h : refSegment file ph sz A = some (sz1, A₁)) (hsz1 : sz1 < 2 ^ 32) :
    Loaded file (phs ++ [ph]) sz1 A₁ := by
  obtain ⟨htype, rfl, rfl⟩ | ⟨htype, hfs, hwrap, rfl, bytes, hbytes, rfl⟩ := refSegment_cases h
  · -- not a LOAD segment
    have hno : ∀ a, ¬ph.Covers a := fun a hc => htype hc.1
    have hold : ∀ x ∈ phs ++ [ph], ∀ a, x.Covers a → x ∈ phs := by
      intro x hx a hc
      refine (List.mem_append.mp hx).resolve_right fun hlast => hno a ?_
      rwa [List.mem_singleton.mp hlast] at hc
    refine ⟨fun a => ?_, fun x hx a hc => hA.covered x (hold x hx a hc) a hc,
      fun x hx a hc => hA.inFile x (hold x hx a hc) a hc⟩
    rw [loadedByte_append, if_neg (hno a)]
    exact hA.byte a
  have hsum : (ph.vaddr + ph.memsz) % 2 ^ 64 = ph.vaddr + ph.memsz := by omega
  rw [hsum] at hsz1 ⊢
  set sz1 := max (ph.vaddr + ph.memsz) sz with hmax
  have hle : ph.vaddr + ph.memsz ≤ sz1 := le_max_left _ _
  have hle' : sz ≤ sz1 := le_max_right _ _
  have hfilesz : ph.filesz % 2 ^ 32 = ph.filesz := Nat.mod_eq_of_lt (by omega)
  rw [hfilesz] at hbytes
  obtain ⟨hread, hend⟩ := readSegment_eq hfile (by rw [Nat.sub_zero])
    (fun _ => Nat.mod_lt _ (by decide)) hbytes
  rw [Nat.add_zero, Nat.sub_zero] at hread
  have hlen : bytes.length = ph.filesz := by
    rw [hread, List.length_take, List.length_drop]
    by_cases h0 : 0 < ph.filesz
    · have := hend h0
      omega
    · omega
  have hcov : ∀ a, ph.Covers a →
      a < sz1 ∧ ph.off % 2 ^ 32 + (a - ph.vaddr) < file.length := by
    rintro a ⟨-, hlow, hhigh⟩
    have := hend (by omega)
    omega
  refine ⟨fun a => ?_, fun x hx a hc => ?_, fun x hx a hc => ?_⟩
  · rw [AddrSpace.byte_put, byte_grow, hA.byte, loadedByte_append]
    -- what stands at the address before the segment is copied there
    have hbefore : (if pages sz ≤ a / PGSIZE ∧ a / PGSIZE < pages sz1 then some 0
        else if a / PGSIZE < pages sz then some (loadedByte file phs a) else none)
        = if a / PGSIZE < pages sz1 then some (loadedByte file phs a) else none := by
      have hmono := pages_mono hle'
      by_cases hold : a / PGSIZE < pages sz
      · rw [if_neg (by omega), if_pos hold, if_pos (by omega)]
      · rw [hA.zero_above hold]
        by_cases hnew : a / PGSIZE < pages sz1
        · rw [if_pos ⟨by omega, hnew⟩, if_pos hnew]
        · rw [if_neg (by omega), if_neg hold, if_neg hnew]
    rw [hbefore]
    by_cases hin : a / PGSIZE < pages sz1
    swap
    · rw [if_neg hin, if_neg hin]
      rfl
    rw [if_pos hin, if_pos hin, Option.map_some, Option.some.injEq]
    by_cases hc : ph.Covers a
    · have hidx : a - ph.vaddr < ph.filesz := by
        have := hc.2
        omega
      rw [if_pos hc]
      simp only [Mem.write, if_pos hc.2.1]
      rw [hread, List.getD_eq_getElem?_getD, List.getElem?_take, if_pos hidx, List.getElem?_drop,
        List.getD_eq_getElem?_getD, List.getElem?_eq_getElem (by have := hend (by omega); omega)]
      rfl
    · rw [if_neg hc]
      by_cases hlow : ph.vaddr ≤ a
      · refine Mem.write_apply_of_le ?_
        rw [hlen]
        by_contra hcon
        exact hc ⟨htype, hlow, by omega⟩
      · exact Mem.write_apply_of_lt (by omega)
  · rcases List.mem_append.mp hx with hx | hx
    · exact (hA.covered x hx a hc).trans_le hle'
    · rw [List.mem_singleton.mp hx] at hc
      exact (hcov a hc).1
  · rcases List.mem_append.mp hx with hx | hx
    · exact hA.inFile x hx a hc
    · rw [List.mem_singleton.mp hx] at hc ⊢
      exact (hcov a hc).2

lemma refSegment_le {sz : Nat} (h : refSegment file ph sz A = some (sz1, A₁)) : sz ≤ sz1 := by
  obtain ⟨-, rfl, -⟩ | ⟨-, -, -, rfl, -⟩ := refSegment_cases h
  · exact le_refl _
  · exact le_max_right _ _

lemma refSegments_le : ∀ {phs : List Proghdr} {sz n : Nat} {A A' : AddrSpace},
    refSegments file phs sz A = some (n, A') → sz ≤ n := by
  intro phs
  induction phs with
  | nil =>
    intro sz n A A' h
    exact (Prod.mk.inj (Option.some.inj h)).1.le
  | cons ph phs ih =>
    intro sz n A A' h
    obtain ⟨⟨sz1, A₁⟩, hseg, hrest⟩ := Option.bind_eq_some_iff.mp h
    exact (refSegment_le hseg).trans (ih hrest)

/-- All segments are loaded, after those of `done`. -/
lemma refSegments_loaded (hfile : file.length < 2 ^ 32) : ∀ {phs done : List Proghdr} {sz n : Nat}
    {A A' : AddrSpace}, (∀ ph ∈ phs, ph.vaddr < 2 ^ 64 ∧ ph.memsz < 2 ^ 64) →
    Loaded file done sz A → refSegments file phs sz A = some (n, A') → n < 2 ^ 32 →
    Loaded file (done ++ phs) n A' := by
  intro phs
  induction phs with
  | nil =>
    intro done sz n A A' _ hA h _
    obtain ⟨rfl, rfl⟩ := Prod.mk.inj (Option.some.inj h)
    rw [List.append_nil]
    exact hA
  | cons ph phs ih =>
    intro done sz n A A' hfields hA h hn
    obtain ⟨⟨sz1, A₁⟩, hseg, hrest⟩ := Option.bind_eq_some_iff.mp h
    obtain ⟨hva, hmem⟩ := hfields ph List.mem_cons_self
    have hA₁ := refSegment_loaded hfile hva hmem hA hseg ((refSegments_le hrest).trans_lt hn)
    have hall := ih (fun x hx => hfields x (List.mem_cons_of_mem _ hx)) hA₁ hrest hn
    rwa [List.append_assoc, List.singleton_append] at hall

lemma loaded_nil : Loaded file [] 0 (fun _ => none) :=
  ⟨fun _ => (if_neg (Nat.not_lt_zero _)).symm, nofun, nofun⟩

/-! ### Below the stack -/

/-- What is accepted from the last page on lies in that page. -/
lemma accepts_within {m : Nat} (hnone : ∀ u, v < u → A u = none) (hacc : A.Accepts va m)
    (hm : 0 < m) (hva : va < 2 ^ 64) (hlow : v * PGSIZE ≤ va) : va + m ≤ (v + 1) * PGSIZE := by
  rw [AddrSpace.accepts_iff hva] at hacc
  -- an address that may be written is below the end of the page
  have hbelow : ∀ {x}, A.MayStore x → x < MAXVA ∧ x < (v + 1) * PGSIZE := by
    rintro x ⟨hx, pg, hpg, -⟩
    refine ⟨hx, ?_⟩
    by_contra hc
    have hpage : v < x / PGSIZE := by
      simp only [PGSIZE] at hc ⊢
      omega
    rw [hnone _ hpage] at hpg
    cases hpg
  have hfirst := hacc 0 hm
  rw [Nat.add_zero, Nat.mod_eq_of_lt hva] at hfirst
  obtain ⟨hmax, htop⟩ := hbelow hfirst
  by_contra hc
  have hend := hbelow (hacc ((v + 1) * PGSIZE - va) (by omega))
  rw [Nat.add_sub_cancel' htop.le, Nat.mod_eq_of_lt] at hend
  · exact lt_irrefl _ hend.2
  · simp only [PGSIZE, MAXVA] at hlow hmax ⊢
    omega

/-- Bytes that are accepted from the last page on change no other page. -/
lemma stores_other {bs : List UInt8} (hnone : ∀ u, v < u → A u = none)
    (hacc : A.Accepts va bs.length) (hbs : 0 < bs.length) (hva : va < 2 ^ 64)
    (hlow : v * PGSIZE ≤ va) : ∀ u, u ≠ v → A.stores va bs u = A u := by
  have hend := accepts_within hnone hacc hbs hva hlow
  have hmax : va < MAXVA := by
    rw [AddrSpace.accepts_iff hva] at hacc
    have hfirst := (hacc 0 hbs).1
    rwa [Nat.add_zero, Nat.mod_eq_of_lt hva] at hfirst
  intro u hu
  refine AddrSpace.stores_of_ne bs A va ?_ fun k hk hc => hu ?_
  · simp only [PGSIZE, MAXVA] at hend hmax hlow
    omega
  · rw [← hc]
    simp only [PGSIZE] at hend hlow ⊢
    omega

/-- The argument strings change only the stack page. -/
lemma refPush_other : ∀ {argv : List (List UInt8)} {sp sp' : Nat}
    {ustack ustack' : List Nat}
    {A A' : AddrSpace}, (∀ u, v < u → A u = none) →
    refPush (v * PGSIZE) argv sp ustack A = some (sp', ustack', A') → ∀ u, u ≠ v → A' u = A u := by
  intro argv
  induction argv with
  | nil =>
    intro sp sp' ustack ustack' A A' _ h u _
    rw [refPush, Option.some.injEq, Prod.mk.injEq, Prod.mk.injEq] at h
    rw [h.2.2]
  | cons arg argv ih =>
    intro sp sp' ustack ustack' A A' hnone h u hu
    unfold refPush at h
    dsimp only at h
    split_ifs at h with hmax hlow hacc
    have hlen : (arg ++ [0]).length = arg.length + 1 := by
      rw [List.length_append, List.length_singleton]
    rw [← hlen] at hacc
    have hother := stores_other hnone hacc (by omega) (pushSp_lt _ _) (by rw [hlen]; omega)
    have hnone' : ∀ x, v < x → A.stores (pushSp sp (arg ++ [0]).length) (arg ++ [0]) x = none :=
      fun x hx => (hother x (by omega)).trans (hnone x hx)
    rw [hlen] at hnone' hother
    exact (ih hnone' h u hu).trans (hother u hu)

lemma refStack_other {sp : Nat} {argv : List (List UInt8)} {A' : AddrSpace}
    (hnone : ∀ u, v < u → A u = none) (h : refStack argv ((v + 1) * PGSIZE) A = some (sp, A')) :
    ∀ u, u ≠ v → A' u = A u := by
  have hbase : (v + 1) * PGSIZE - PGSIZE = v * PGSIZE := by
    rw [Nat.succ_mul, Nat.add_sub_cancel]
  unfold refStack at h
  rw [hbase] at h
  cases hpush : refPush (v * PGSIZE) argv ((v + 1) * PGSIZE) [] A with
  | none =>
    rw [hpush] at h
    cases h
  | some res =>
    obtain ⟨sp₁, ustack, A₁⟩ := res
    have hother := refPush_other hnone hpush
    rw [hpush] at h
    dsimp only at h
    split_ifs at h with hlow hacc
    obtain ⟨-, rfl⟩ := Prod.mk.inj (Option.some.inj h)
    have hnone₁ : ∀ u, v < u → A₁ u = none :=
      fun u hu => (hother u (by omega)).trans (hnone u hu)
    have hpos : 0 < ((ustack ++ [0]).flatMap (leBytes 8)).length := by
      rw [length_words, List.length_append, List.length_singleton]
      omega
    intro u hu
    exact (stores_other hnone₁ hacc hpos (pushSp_lt _ _) (not_lt.mp hlow) u hu).trans (hother u hu)

/-! ### `exec` -/

variable {argv : List (List UInt8)} {sz sp : Nat}

/-- The image below the stack guard. -/
lemma ExecImage.exists_loaded (h : ExecImage file (elfOf file) argv sz sp A)
    (hfile : file.length < 2 ^ 32) : ∃ phs,
      readHeaders file (elfOf file).phnum ((elfOf file).phoff % 2 ^ 32) = some phs ∧
      (∀ ph ∈ phs, ∀ a, ph.Covers a →
        a < sz - 2 * PGSIZE ∧ ph.off % 2 ^ 32 + (a - ph.vaddr) < file.length) ∧
      ∀ a < sz - 2 * PGSIZE, A.load a = some (loadedByte file phs a) := by
  obtain ⟨phs, n, A₀, hphs, hsegs, hlaid, hsz, hstack⟩ := h.exists_segments
  have hsmall := h.small
  have hguard : sz - 2 * PGSIZE = pages n * PGSIZE := by
    rw [hsz, Nat.add_mul, Nat.add_sub_cancel]
  have hbound : pages n * PGSIZE < 2 ^ 32 := by
    have : PHYSTOP - KERNBASE < 2 ^ 32 := by decide
    omega
  have hn : n ≤ pages n * PGSIZE := by
    simp only [pages, PGSIZE]
    omega
  have hloaded := refSegments_loaded hfile (mem_readHeaders hphs) loaded_nil hsegs
    (hn.trans_lt hbound)
  rw [List.nil_append] at hloaded
  have hnone : ∀ u, pages n ≤ u → A₀ u = none := by
    intro u hu
    have hbyte := hloaded.byte (u * PGSIZE)
    rw [Nat.mul_div_cancel u (by decide), if_neg (by omega), AddrSpace.byte,
      Nat.mul_div_cancel u (by decide), Option.map_eq_none_iff] at hbyte
    exact hbyte
  -- the pages below the guard are those of the segments
  have hpage : ∀ u < pages n, A u = A₀ u := by
    intro u hu
    rw [hsz] at hstack
    rw [refStack_other (v := pages n + 1) (fun x hx => ?_) hstack u (by omega)]
    · unfold AddrSpace.hide AddrSpace.grow
      rw [update_of_ne (by omega), if_neg (by omega)]
    · unfold AddrSpace.hide AddrSpace.grow
      rw [update_of_ne (by omega), if_neg (by omega), hnone x (by omega)]
  refine ⟨phs, hphs, fun ph hph a hc => ?_, fun a ha => ?_⟩
  · rw [hguard]
    exact ⟨(hloaded.covered ph hph a hc).trans_le hn, hloaded.inFile ph hph a hc⟩
  · have hv : a / PGSIZE < pages n := by
      rw [hguard] at ha
      simp only [PGSIZE] at ha ⊢
      omega
    have hbyte := hloaded.byte a
    rw [if_pos hv] at hbyte
    obtain ⟨pg, hpg, hU⟩ := hlaid.exists_page hv
    rw [AddrSpace.byte, hpg, Option.map_some] at hbyte
    have hmax : a < MAXVA := by
      simp only [MAXVA]
      omega
    rw [AddrSpace.load, if_pos hmax, hpage _ hv, hpg, Option.bind_some, if_pos hU, hbyte]

/-- What the file describes starts within the file. -/
lemma headersAt_lt (h : headersAt file (elfOf file).phnum (elfOf file).phoff = some phs) :
    (elfOf file).phnum = 0 ∨ (elfOf file).phoff < file.length := by
  cases hn : (elfOf file).phnum with
  | zero => exact Or.inl rfl
  | succ n =>
    rw [hn] at h
    unfold headersAt at h
    dsimp only at h
    split_ifs at h with hlen
    rw [not_not, List.length_take, List.length_drop] at hlen
    have : 0 < sizeofProghdr := by decide
    exact Or.inr (by omega)

/-- The bytes that are loaded are those described, exactly if the offsets have 32 bits. -/
lemma loaded_eq_described_iff {top : Nat} (hfile : file.length < 2 ^ 32)
    (hcovered : ∀ ph ∈ phs, ∀ a, ph.Covers a →
      a < top ∧ ph.off % 2 ^ 32 + (a - ph.vaddr) < file.length) :
    (∀ a < top, some (loadedByte file phs a) = describedByte file phs a) ↔
      ∀ a ph, lastCovering phs a = some ph → ph.off < 2 ^ 32 := by
  constructor
  · intro h a ph hlast
    obtain ⟨hmem, hcov⟩ := lastCovering_some hlast
    have hbyte := h a (hcovered ph hmem a hcov).1
    unfold describedByte at hbyte
    rw [hlast] at hbyte
    obtain ⟨hin, -⟩ := List.getElem?_eq_some_iff.mp hbyte.symm
    omega
  · intro h a _
    unfold describedByte loadedByte
    cases hlast : lastCovering phs a with
    | none => rfl
    | some ph =>
      obtain ⟨hmem, hcov⟩ := lastCovering_some hlast
      have hin := (hcovered ph hmem a hcov).2
      dsimp only
      rw [Nat.mod_eq_of_lt (h a ph hlast)] at hin ⊢
      rw [List.getD_eq_getElem?_getD, List.getElem?_eq_getElem hin]
      rfl

variable [Layout] {t t' : Sys} {p : Fin NPROC}

/-- The image of an `exec` that has succeeded. -/
lemma Execed.describes_iff (h : Execed t t' p file argv sz sp A) (hfile : file.length < 2 ^ 32) :
    ∃ r, (t'.proc p).pagetable = some r ∧
      (Describes file (userLoad t'.phys.mem r) ((t'.proc p).sz - 2 * PGSIZE) ↔
        OffsetsFit file) := by
  obtain ⟨r, hproc, hspace⟩ := h.table
  have hr : (t'.proc p).pagetable = some r := by rw [hproc]
  refine ⟨r, hr, ?_⟩
  obtain ⟨ker, hmem, -⟩ := h.inv.mem
  obtain ⟨phs, hphs, hcovered, hload⟩ := h.image.exists_loaded hfile
  have huser : ∀ a < sz - 2 * PGSIZE, userLoad t'.phys.mem r a = some (loadedByte file phs a) := by
    intro a ha
    rw [hmem.userLoad_eq (i := some p) hr, hspace, hload a ha]
  rw [show (t'.proc p).sz = sz by rw [hproc]]
  -- the headers as the code finds them
  have hsame : (elfOf file).phnum = 0 ∨ (elfOf file).phoff < 2 ^ 32 →
      headersAt file (elfOf file).phnum (elfOf file).phoff = some phs := by
    rintro (h0 | hlt)
    · rw [h0] at hphs ⊢
      exact hphs
    · rw [Nat.mod_eq_of_lt hlt] at hphs
      exact readHeaders_eq hfile hphs
  constructor
  · rintro ⟨phs', hphs', hdescr⟩
    have hoff : (elfOf file).phnum = 0 ∨ (elfOf file).phoff < 2 ^ 32 :=
      (headersAt_lt hphs').imp_right fun hlt => hlt.trans hfile
    obtain rfl := Option.some.inj ((hsame hoff).symm.trans hphs')
    refine ⟨hoff, fun phs' hphs' => ?_⟩
    obtain rfl := Option.some.inj ((hsame hoff).symm.trans hphs')
    exact (loaded_eq_described_iff hfile hcovered).mp fun a ha =>
      (huser a ha).symm.trans (hdescr a ha)
  · rintro ⟨hoff, hfit⟩
    have hbytes := (loaded_eq_described_iff hfile hcovered).mpr (hfit phs (hsame hoff))
    exact ⟨phs, hsame hoff, fun a ha => (huser a ha).trans (hbytes a ha)⟩

/-- A process whose `exec` has succeeded finds the image that the file describes, exactly if the
offsets that count fit in 32 bits. -/
theorem exec_loads_image_iff {res : Int} (h : SysInv t) (hlive : (t.proc p).state ≠ .unused)
    (hfile : file.length < 2 ^ 32) (hrun : (exec p (some file) argv).run t = .ok (res, t'))
    (hres : res ≠ -1) : ∃ r, (t'.proc p).pagetable = some r ∧
      (Describes file (userLoad t'.phys.mem r) ((t'.proc p).sz - 2 * PGSIZE) ↔
        OffsetsFit file) := by
  have hspec := h.exec_spec (E := fun _ => True) hlive (some file) argv
  rw [wp_of_run hrun] at hspec
  obtain ⟨hc, -⟩ | ⟨f, sz, sp, A, hf, -, hdone⟩ := hspec
  · exact absurd hc hres
  · obtain rfl := Option.some.inj hf
    exact hdone.describes_iff hfile

/-! ### Files with one segment -/

omit [Layout] in
/-- With enough memory a file with one segment is executed. -/
lemma exists_execed (hfile : IsOneByte file) : ∃ t t' p, @SysInv builtLayout t ∧
    (t.proc p).state ≠ .unused ∧ (@exec builtLayout p (some file) []).run t = .ok (0, t') ∧
      ∃ sz sp A, @Execed builtLayout t t' p file [] sz sp A := by
  let := builtLayout
  obtain ⟨t, p, im, h⟩ := exists_alone
  have hlive : (t.proc p).state ≠ .unused := by
    rw [h.state]
    nofun
  obtain ⟨q, sz, s, hreach⟩ := h.inv.exists_reaches hlive hfile (le_trans (by decide) h.free)
  have hfits : Fits [] := by
    unfold Fits
    decide
  obtain ⟨res, t', hrun, hexec, hiff⟩ := wp_run (wp_also
    (h.inv.exec_spec (E := fun _ => False) hlive (some file) [])
    (h.inv.exec_succeeds_iff (show [].length < MAXARG by decide) nofun hreach))
  obtain ⟨hc, -⟩ | ⟨f, sz', sp, A, hf, hlength, hdone⟩ := hexec
  · exact absurd hc (hiff.mpr hfits)
  · obtain rfl := Option.some.inj hf
    obtain rfl : res = 0 := hlength
    exact ⟨t, t', p, h.inv, hlive, hrun, sz', sp, A, hdone⟩

omit [Layout] in
/-- Its only program header. -/
lemma IsOneByte.headersAt (h : IsOneByte file) :
    Xv6.headersAt file (elfOf file).phnum (elfOf file).phoff
      = some [Proghdr.ofBytes (readi file sizeofElfhdr sizeofProghdr)] := by
  obtain ⟨hread, -⟩ := readi_full (by decide) h.proghdr
  have hlen := h.proghdr
  rw [hread] at hlen
  rw [h.phnum, h.phoff, hread]
  unfold Xv6.headersAt
  dsimp only
  rw [if_neg (not_not_intro hlen)]
  rfl

omit [Layout] in
/-- The only offset that counts. -/
lemma IsOneByte.offsetsFit_iff (h : IsOneByte file) :
    OffsetsFit file ↔ (Proghdr.ofBytes (readi file sizeofElfhdr sizeofProghdr)).off < 2 ^ 32 := by
  set ph := Proghdr.ofBytes (readi file sizeofElfhdr sizeofProghdr) with hph
  have hcov : ph.Covers 0 := ⟨h.type, h.vaddr.le, by rw [h.vaddr, h.filesz]; decide⟩
  have hlast : lastCovering [ph] 0 = some ph := by
    rw [← List.nil_append [ph], lastCovering_append, if_pos hcov]
  constructor
  · exact fun hfit => hfit.2 [ph] h.headersAt 0 ph hlast
  · refine fun hlt => ⟨Or.inr (by rw [h.phoff]; decide), fun phs hphs a ph' hlast' => ?_⟩
    obtain rfl := Option.some.inj (h.headersAt.symm.trans hphs)
    rw [List.mem_singleton.mp (lastCovering_some hlast').1]
    exact hlt

omit [Layout] in
theorem exec_loads_image_iff_oneByte : ∃ t t' p r, @SysInv builtLayout t ∧
    (@exec builtLayout p (some (oneByte 0)) []).run t = .ok (0, t') ∧
    (t'.proc p).pagetable = some r ∧
    Describes (oneByte 0) (userLoad t'.phys.mem r) ((t'.proc p).sz - 2 * PGSIZE) := by
  let := builtLayout
  obtain ⟨t, t', p, hinv, hlive, hrun, -⟩ := exists_execed isOneByte_zero
  obtain ⟨r, hr, hiff⟩ := exec_loads_image_iff hinv hlive (by decide +kernel) hrun (by decide)
  have hfit : OffsetsFit (oneByte 0) := isOneByte_zero.offsetsFit_iff.mpr (by decide +kernel)
  exact ⟨t, t', p, r, hinv, hrun, hr, hiff.mpr hfit⟩

omit [Layout] in
/-- With the file offset 2^32, which lies beyond the end of the file, the segment is taken from
offset 0. -/
theorem exec_loads_wrong_offset : ∃ t t' p r, @SysInv builtLayout t ∧
    (t.proc p).state ≠ .unused ∧
    (@exec builtLayout p (some (oneByte (2 ^ 32))) []).run t = .ok (0, t') ∧
    (t'.proc p).pagetable = some r ∧
    ¬Describes (oneByte (2 ^ 32)) (userLoad t'.phys.mem r) ((t'.proc p).sz - 2 * PGSIZE) := by
  let := builtLayout
  obtain ⟨t, t', p, hinv, hlive, hrun, sz, sp, A, hdone⟩ := exists_execed isOneByte_wrap
  obtain ⟨r, hr, hiff⟩ := hdone.describes_iff (by decide +kernel)
  have hwide : ¬OffsetsFit (oneByte (2 ^ 32)) :=
    mt isOneByte_wrap.offsetsFit_iff.mp (by decide +kernel)
  exact ⟨t, t', p, r, hinv, hlive, hrun, hr, mt hiff.mp hwide⟩

end Xv6
