import Xv6.Kernel.AddrSpace
import Xv6.Pipes.Machine

/-!
# What a reader gets

`piperead` as one call of one process, with the page table that `copyout` writes through. What the
others do while the caller sleeps is given by the states in which `sleep` returns.

The call takes a byte out of the pipe before it knows whether `copyout` can store it. The number
it returns is the number of bytes it took exactly if all of them can be stored.
-/

namespace Xv6.Pipes

open Lib

/-- The pipe, and of the caller its memory and `pr->killed`. -/
structure Reader where
  phys : Phys
  pipe : Pipe
  killed : Bool

abbrev ReaderM := Prog Reader Panic

namespace Reader

def setPhys (s : Reader) (p : Phys) : Reader := { s with phys := p }

def setPipe (s : Reader) (pi : Pipe) : Reader := { s with pipe := pi }

/-- The condition of the first loop of `piperead`. -/
def Waiting (s : Reader) : Prop := s.pipe.Empty ∧ s.pipe.writeopen = true

instance (s : Reader) : Decidable s.Waiting := inferInstanceAs (Decidable (_ ∧ _))

end Reader

/-- The first loop of `piperead`: where it stops, if `sleep` returns in the states `later` one
after the other. -/
def awaitData : List Reader → Reader → Reader
  | [], s => s
  | s' :: later, s => if s.Waiting ∧ s.killed = false then awaitData later s' else s

section

variable [Layout]

/-- The second loop of `piperead`, with `i` bytes copied and at most `fuel` to copy. -/
def pipereadCopy (pagetable addr : Nat) : Nat → Nat → ReaderM Int
  | 0, i => return i
  | fuel + 1, i => do
    let s ← get
    if s.pipe.Empty then
      return i
    else
      let ch := s.pipe.next
      set (s.setPipe s.pipe.drop)
      let res ← zoom Reader.phys Reader.setPhys (copyout pagetable ((addr + i) % 2 ^ 64) [ch])
      if res = -1 then
        return i
      else
        pipereadCopy pagetable addr fuel (i + 1)

/-- `none` if the caller sleeps once more after the last of the states `later`. -/
def piperead (pagetable addr : Nat) (n : Int) (later : List Reader) : ReaderM (Option Int) := do
  modify (awaitData later)
  let s ← get
  if s.Waiting then
    if s.killed then
      return some (-1)
    else
      return none
  else
    let i ← pipereadCopy pagetable addr n.toNat 0
    return some i

end

/-! ### The law -/

/-- How many bytes are out of the pipe in `s'` that were in it in `s`. -/
def taken (s s' : Reader) : Nat := (s'.pipe.nread - s.pipe.nread).toNat

/-- What was taken out of the pipe is what the answer says, and is at the destination. -/
structure Delivers (s s' : Reader) (pagetable addr : Nat) (res : Int) : Prop where
  count : (taken s s' : Int) = if res = -1 then 0 else res
  bytes : (List.range res.toNat).map
      (fun k => userLoad s'.phys.mem pagetable ((addr + k) % 2 ^ 64))
    = (s.pipe.contents.take (taken s s')).map some

/-- How many bytes a call takes that finds the pipe in this state. -/
def wanted (s : Reader) (n : Int) : Nat := min n.toNat s.pipe.contents.length

/-- Each of these bytes goes to an address that the caller may write to. -/
def Deliverable (s : Reader) (pagetable addr : Nat) (n : Int) : Prop :=
  ∀ k < wanted s n, MayWrite s.phys.mem pagetable ((addr + k) % 2 ^ 64)

/-! ### The second loop -/

lemma Pipe.contents_eq_cons {pi : Pipe} (h : ¬pi.Empty) :
    pi.contents = pi.next :: pi.drop.contents :=
  queued_eq_cons pi.data h

lemma Pipe.contents_eq_nil {pi : Pipe} (h : pi.Empty) : pi.contents = [] := by
  have h' : pi.nread = pi.nwrite := h
  rw [contents, h', queued_self]

lemma Pipe.length_contents_lt (pi : Pipe) : pi.contents.length < 2 ^ 32 := by
  rw [contents, length_queued]
  exact (pi.nwrite - pi.nread).isLt

/-- What the second loop leaves when it may copy `m` bytes to `base` and those after it, and
copies `j`. -/
structure Copied (s s' : Reader) (r base m j : Nat) : Prop where
  le : j ≤ m
  may : ∀ k < j, (space s.phys.mem r).MayStore ((base + k) % 2 ^ 64)
  stop : j < m → ¬(space s.phys.mem r).MayStore ((base + j) % 2 ^ 64)
  nread : s'.pipe.nread = s.pipe.nread + BitVec.ofNat 32 (if j < m then j + 1 else j)
  load : ∀ k < j, (space s'.phys.mem r).load ((base + k) % 2 ^ 64) = s.pipe.contents[k]?
  other : ∀ va, (∀ k < j, va ≠ (base + k) % 2 ^ 64) →
    (space s'.phys.mem r).load va = (space s.phys.mem r).load va

lemma Copied.refl (s : Reader) (r base : Nat) : Copied s s r base 0 0 where
  le := le_refl _
  may := fun _ hk => absurd hk (Nat.not_lt_zero _)
  stop := fun h => absurd h (Nat.lt_irrefl _)
  nread := by simp
  load := fun _ hk => absurd hk (Nat.not_lt_zero _)
  other := fun _ _ => rfl

section

variable {s s' : Reader} {r base m j : Nat}

/-- The byte is out of the pipe, and `copyout` fails. -/
lemma Copied.fault (hm : 0 < m) (hmay : ¬(space s.phys.mem r).MayStore (base % 2 ^ 64))
    (hpipe : s'.pipe = s.pipe.drop) (hspace : space s'.phys.mem r = space s.phys.mem r) :
    Copied s s' r base m 0 where
  le := Nat.zero_le _
  may := fun _ hk => absurd hk (Nat.not_lt_zero _)
  stop := fun _ => hmay
  nread := by
    rw [hpipe, if_pos hm]
    rfl
  load := fun _ hk => absurd hk (Nat.not_lt_zero _)
  other := fun _ _ => by rw [hspace]

/-- One byte is copied, and then the rest. -/
lemma Copied.cons {t : Reader} (hfull : ¬s.pipe.Empty) (hm : m + 1 < 2 ^ 32)
    (hpipe : t.pipe = s.pipe.drop)
    (hst : (space s.phys.mem r).store (base % 2 ^ 64) s.pipe.next = some (space t.phys.mem r))
    (h : Copied t s' r (base + 1) m j) : Copied s s' r base (m + 1) (j + 1) := by
  have hnext : ∀ k, (base + 1 + k) % 2 ^ 64 = (base + (k + 1)) % 2 ^ 64 := by
    intro k
    rw [Nat.add_right_comm, Nat.add_assoc]
  have hmay := AddrSpace.mayStore_store_iff hst
  have hload := AddrSpace.load_store hst
  refine ⟨Nat.succ_le_succ h.le, ?_, ?_, ?_, ?_, ?_⟩
  · rintro (_ | k) hk
    · exact AddrSpace.mayStore_of_store hst
    · rw [← hnext, ← hmay]
      exact h.may k (Nat.lt_of_succ_lt_succ hk)
  · intro hj
    rw [← hnext, ← hmay]
    exact h.stop (Nat.lt_of_succ_lt_succ hj)
  · have hnum : ∀ k, BitVec.ofNat 32 (k + 1) = 1 + BitVec.ofNat 32 k := by
      intro k
      rw [BitVec.ofNat_add, add_comm]
      rfl
    rw [h.nread, hpipe]
    simp only [Pipe.drop, Nat.add_lt_add_iff_right]
    split_ifs
    · rw [hnum (j + 1), add_assoc]
    · rw [hnum j, add_assoc]
  · rintro (_ | k) hk
    · -- the later bytes go elsewhere
      rw [h.other, hload, Nat.add_zero, if_pos rfl, Pipe.contents_eq_cons hfull]
      · rfl
      · intro k hk hc
        have := h.le
        rw [hnext] at hc
        omega
    · rw [← hnext, h.load k (Nat.lt_of_succ_lt_succ hk), hpipe, Pipe.contents_eq_cons hfull,
        List.getElem?_cons_succ]
  · intro va hva
    have hfirst : va ≠ base % 2 ^ 64 := hva 0 (Nat.succ_pos _)
    rw [h.other va fun k hk => by rw [hnext]; exact hva _ (Nat.succ_lt_succ hk), hload,
      if_neg hfirst]

end

variable {ι κ : Type} [Layout] [Fintype ι] [DecidableEq ι] [Inhabited κ] {E : Panic → Prop}
  {roots : ι → Option Nat} {ker : Nat → Option κ} {i : ι} {r : Nat}

lemma pipereadCopy_spec (hr : roots i = some r) (hE : E .cowallocKalloc) (addr : Nat) :
    ∀ {fuel c : Nat} {s : Reader}, MemInv s.phys roots ker →
    wp (pipereadCopy r addr fuel c) E (fun res s' => MemInv s'.phys roots ker ∧
      ∃ j, res = (c + j : Nat) ∧ Copied s s' r (addr + c) (min fuel s.pipe.contents.length) j)
      s := by
  intro fuel
  induction fuel with
  | zero =>
    intro c s h
    rw [Nat.zero_min]
    exact ⟨h, 0, rfl, Copied.refl _ _ _⟩
  | succ fuel ih =>
    intro c s h
    unfold pipereadCopy
    rw [wp_bind, wp_get, wp_ite]
    constructor
    · intro hempty
      rw [Pipe.contents_eq_nil hempty, List.length_nil, Nat.min_zero]
      exact ⟨h, 0, rfl, Copied.refl _ _ _⟩
    · intro hfull
      have hlen : min (fuel + 1) s.pipe.contents.length
          = min fuel s.pipe.drop.contents.length + 1 := by
        rw [Pipe.contents_eq_cons hfull, List.length_cons, Nat.add_min_add_right]
      have hbound : min fuel s.pipe.drop.contents.length + 1 < 2 ^ 32 := by
        have := Pipe.length_contents_lt s.pipe
        rw [Pipe.contents_eq_cons hfull, List.length_cons] at this
        omega
      rw [wp_bind, wp_set, wp_bind, wp_zoom, hlen]
      refine wp_imp (copyout_spec (s := s.phys) h hr _ [s.pipe.next] fun _ => hE) ?_
      rintro res p ⟨h', -, -, hst, hres⟩
      rw [wp_ite]
      rcases hres with ⟨rfl, hmay, -⟩ | ⟨rfl, hnot⟩
      · refine ⟨fun hc => absurd hc (by decide), fun _ => ?_⟩
        obtain ⟨A, hA⟩ := Option.ne_none_iff_exists'.mp
          (mt (AddrSpace.store_eq_none_iff (b := s.pipe.next)).mp (not_not_intro hmay))
        simp only [AddrSpace.stores, hA] at hst
        rw [← hst] at hA
        refine wp_imp (ih (s := (s.setPipe s.pipe.drop).setPhys p) h') ?_
        rintro res s' ⟨hinv, j, rfl, hj⟩
        refine ⟨hinv, j + 1, by omega, Copied.cons hfull hbound rfl hA hj⟩
      · refine ⟨fun _ => ?_, fun hc => absurd rfl hc⟩
        have hmay : ¬(space s.phys.mem r).MayStore ((addr + c) % 2 ^ 64) :=
          fun hc => hnot ⟨hc, trivial⟩
        have hnone := (AddrSpace.store_eq_none_iff (b := s.pipe.next)).mpr hmay
        simp only [AddrSpace.stores, hnone] at hst
        exact ⟨h', 0, by simp, Copied.fault (Nat.succ_pos _) hmay rfl hst⟩

/-! ### The call -/

omit [DecidableEq ι] [Inhabited κ] in
/-- The bytes that were copied are those at the destination. -/
lemma Copied.delivers_iff {s s' : Reader} {addr : Nat} {n : Int} {j : Nat}
    (h : MemInv s.phys roots ker) (h' : MemInv s'.phys roots ker) (hr : roots i = some r)
    (hj : Copied s s' r addr (wanted s n) j) :
    Delivers s s' r addr j ↔ Deliverable s r addr n := by
  have hlen : wanted s n ≤ s.pipe.contents.length := Nat.min_le_right _ _
  have hbound := s.pipe.length_contents_lt
  have htaken : taken s s' = if j < wanted s n then j + 1 else j := by
    rw [taken, hj.nread, add_sub_cancel_left, BitVec.toNat_ofNat, Nat.mod_eq_of_lt]
    have := hj.le
    split_ifs <;> omega
  have hne : ¬((j : Int) = -1) := by omega
  constructor
  · intro hd k hk
    have hcount := hd.count
    rw [if_neg hne, htaken] at hcount
    rw [← h.mayStore_iff hr]
    apply hj.may
    split_ifs at hcount with hlt
    · omega
    · omega
  · intro hd
    have hall : ¬j < wanted s n := fun hlt => hj.stop hlt ((h.mayStore_iff hr).mpr (hd j hlt))
    rw [if_neg hall] at htaken
    refine ⟨by rw [if_neg hne, htaken], ?_⟩
    rw [htaken]
    apply List.ext_getElem?
    intro k
    rw [Int.toNat_natCast, List.getElem?_map, List.getElem?_map, List.getElem?_take]
    by_cases hk : k < j
    · have hkc : k < s.pipe.contents.length := by
        have := hj.le
        omega
      rw [List.getElem?_range hk, if_pos hk, Option.map_some, h'.userLoad_eq hr, hj.load k hk,
        List.getElem?_eq_getElem hkc, Option.map_some]
    · rw [if_neg hk, List.getElem?_eq_none (by simpa using hk)]
      rfl

omit [Layout] in
/-- A killed process leaves an empty pipe as it is. -/
lemma delivers_killed {s : Reader} (hempty : s.pipe.Empty) (addr : Nat) (n : Int) :
    Delivers s s r addr (-1) ↔ Deliverable s r addr n := by
  have htaken : taken s s = 0 := by simp [taken]
  have hwanted : wanted s n = 0 := by simp [wanted, Pipe.contents_eq_nil hempty]
  refine iff_of_true ⟨by rw [htaken]; rfl, by rw [htaken]; rfl⟩ ?_
  intro k hk
  omega

/-- What a call of `piperead` takes out of the pipe it delivers, exactly if every byte that it
takes goes to an address that the caller may write to. It panics only for want of a page. -/
theorem piperead_delivers_iff {later : List Reader} {s : Reader}
    (h : MemInv (awaitData later s).phys roots ker) (hr : roots i = some r) (addr : Nat) (n : Int) :
    wp (piperead r addr n later) (fun e => e = .cowallocKalloc) (fun res s' => ∀ x, res = some x →
      (Delivers (awaitData later s) s' r addr x ↔ Deliverable (awaitData later s) r addr n)) s := by
  unfold piperead
  rw [wp_bind, wp_modify, wp_bind, wp_get, wp_ite]
  constructor
  · intro hwait
    rw [wp_ite]
    constructor
    · rintro - x hx
      obtain rfl := Option.some.inj hx
      exact delivers_killed hwait.1 addr n
    · rintro - x hx
      cases hx
  · intro _
    rw [wp_bind]
    refine wp_imp (pipereadCopy_spec (E := fun e => e = .cowallocKalloc) hr rfl addr h) ?_
    rintro res s' ⟨h', j, rfl, hj⟩ x hx
    obtain rfl := Option.some.inj hx
    rw [Nat.zero_add]
    exact hj.delivers_iff h h' hr

/-- A byte in the pipe, for a process with one page. -/
def oneByte : Reader where
  phys := onePage
  pipe := { data := fun _ => 104, nread := 0, nwrite := 1, readopen := true, writeopen := true }
  killed := false

omit [Layout] in
theorem piperead_delivers_iff_oneByte : ∃ ker : Nat → Option Unit,
    (@MemInv Unit Unit builtLayout _ onePage (fun _ => some 0x80243000) ker) ∧
    wp (@piperead builtLayout 0x80243000 0 1 []) (fun e => e = .cowallocKalloc)
      (fun res s' => ∀ x, res = some x → (Delivers oneByte s' 0x80243000 0 x ↔
        Deliverable oneByte 0x80243000 0 1)) oneByte := by
  let := builtLayout
  obtain ⟨⟨ker, h⟩, -⟩ := onePage_memInv
  have hmem : MemInv (awaitData [] oneByte).phys (fun _ : Unit => some 0x80243000) ker := h
  exact ⟨ker, h, piperead_delivers_iff hmem (i := ()) rfl 0 1⟩

omit [Layout] in
/-- The byte is lost if the destination is no address of the process. -/
theorem piperead_loses_byte : (∃ ker : Nat → Option Unit,
      @MemInv Unit Unit builtLayout _ onePage (fun _ => some 0x80243000) ker) ∧
    ∃ s', (@piperead builtLayout 0x80243000 MAXVA 1 []).run oneByte = .ok (some 0, s') ∧
      taken oneByte s' = 1 ∧ ¬Delivers oneByte s' 0x80243000 MAXVA 0 := by
  refine ⟨onePage_memInv.1, oneByte.setPipe oneByte.pipe.drop, rfl, rfl, fun hd => ?_⟩
  exact absurd hd.count (by decide)

end Xv6.Pipes
