import Xv6.Lib.Accounts
import Xv6.Blocks.Inode

/-!
# Who holds a block

`row sb disk k` are the blocks that inode `k` records on disk. While a function works on an inode,
the addresses in memory are ahead of those on disk; `Held` says that the accounts are right with
the row `r` of that inode instead. `Booked` is the same between the functions.

`Evolves` says what a function that works on one inode may do to the disk, and `Grows` what it may
do when it only allocates. Both `mkfs` and the kernel are in this way shown to keep the accounts;
they differ in which blocks are in use.
-/

namespace Xv6.Blocks

open Function Lib

variable {sb : Superblock} {used : Set Nat} {disk disk' : Disk} {i : Nat} {r : Slot → Nat}
  {d : Dinode} {ip ip' : Inode} {s : Slot}

def Allocated (sb : Superblock) (disk : Disk) (k : Nat) : Prop :=
  0 < k ∧ k < sb.ninodes ∧ (dinode sb disk k).type ≠ 0

instance (sb : Superblock) (disk : Disk) (k : Nat) : Decidable (Allocated sb disk k) :=
  inferInstanceAs (Decidable (_ ∧ _ ∧ _))

/-- The blocks that inode `k` records on disk. -/
def row (sb : Superblock) (disk : Disk) (k : Nat) : Slot → Nat :=
  if Allocated sb disk k then slot disk (dinode sb disk k) else fun _ => 0

lemma row_of_allocated {k : Nat} (h : Allocated sb disk k) :
    row sb disk k = slot disk (dinode sb disk k) := if_pos h

lemma row_of_not_allocated {k : Nat} (h : ¬Allocated sb disk k) : row sb disk k = fun _ => 0 :=
  if_neg h

/-- A row is that of the inode and of its indirect block. -/
lemma row_congr {k : Nat} (hd : k < sb.ninodes → dinode sb disk' k = dinode sb disk k)
    (hind : row sb disk k .indirect ≠ 0 →
      disk' (row sb disk k .indirect) = disk (row sb disk k .indirect)) :
    row sb disk' k = row sb disk k := by
  by_cases ha : Allocated sb disk k
  · have hd := hd ha.2.1
    have ha' : Allocated sb disk' k := ⟨ha.1, ha.2.1, hd ▸ ha.2.2⟩
    rw [row_of_allocated ha] at hind
    rw [row_of_allocated ha, row_of_allocated ha', hd]
    exact slot_congr hind
  · have ha' : ¬Allocated sb disk' k := fun ha' => ha ⟨ha'.1, ha'.2.1, hd ha'.2.1 ▸ ha'.2.2⟩
    rw [row_of_not_allocated ha, row_of_not_allocated ha']

/-- All the places where a block is recorded, with `r` in place of the row of inode `i`. -/
def refs (sb : Superblock) (disk : Disk) (i : Nat) (r : Slot → Nat) : Nat × Slot → Nat :=
  uncurry (update (row sb disk) i r)

@[simp] lemma refs_self (s : Slot) : refs sb disk i r (i, s) = r s := by
  simp [refs]

lemma refs_of_ne {k : Nat} (h : k ≠ i) (s : Slot) : refs sb disk i r (k, s) = row sb disk k s := by
  simp [refs, update_of_ne h]

lemma refs_update (s : Slot) (b : Nat) :
    refs sb disk i (update r s b) = update (refs sb disk i r) (i, s) b := by
  funext ⟨k, s'⟩
  by_cases hk : k = i
  · subst hk
    simp [update_apply]
  · rw [refs_of_ne hk, update_of_ne (by simp [hk]), refs_of_ne hk]

lemma refs_row : refs sb disk i (row sb disk i) = uncurry (row sb disk) := by
  unfold refs
  rw [update_eq_self]

structure Held (sb : Superblock) (used : Set Nat) (disk : Disk) (i : Nat) (r : Slot → Nat) :
    Prop where
  accounts : Accounts (refs sb disk i r) used
  data : ∀ b ∈ used, sb.datastart ≤ b ∧ b < sb.size

structure Booked (sb : Superblock) (used : Set Nat) (disk : Disk) : Prop where
  accounts : Accounts (uncurry (row sb disk)) used
  data : ∀ b ∈ used, sb.datastart ≤ b ∧ b < sb.size

lemma Booked.held (h : Booked sb used disk) : Held sb used disk i (row sb disk i) :=
  ⟨refs_row ▸ h.accounts, h.data⟩

lemma Booked.held_slot (h : Booked sb used disk) (hi : Allocated sb disk i) :
    Held sb used disk i (slot disk (dinode sb disk i)) :=
  row_of_allocated hi ▸ h.held

lemma Held.booked (h : Held sb used disk i (row sb disk i)) : Booked sb used disk :=
  ⟨(refs_row : refs sb disk i _ = _) ▸ h.accounts, h.data⟩

namespace Held

/-- Without inodes no block is in use. -/
lemma empty (h : ∀ k, ¬Allocated sb disk k) (i : Nat) : Held sb ∅ disk i fun _ => 0 where
  accounts := by
    have hrefs : refs sb disk i (fun _ => 0) = fun _ => 0 := by
      funext ⟨k, s⟩
      by_cases hk : k = i
      · subst hk
        exact refs_self s
      · rw [refs_of_ne hk, row_of_not_allocated (h k)]
    rw [hrefs]
    refine ⟨fun h0 => absurd rfl h0, fun b => ⟨fun hb => hb.elim, ?_⟩⟩
    rintro ⟨h0, _, h1⟩
    exact h0 h1.symm
  data _ hb := hb.elim

section

variable (h : Held sb used disk i r)
include h

lemma mem (hs : r s ≠ 0) : r s ∈ used := by
  have h1 := h.accounts.mem (i := (i, s)) (by simpa using hs)
  simpa using h1

lemma eq_of_eq {s' : Slot} (hs : r s ≠ 0) (heq : r s = r s') : s = s' := by
  have h1 := h.accounts.unique (i := (i, s)) (j := (i, s')) (by simpa using hs)
    (by simpa using heq)
  simpa using h1

lemma row_mem {k : Nat} (hk : k ≠ i) (hs : row sb disk k s ≠ 0) : row sb disk k s ∈ used := by
  have h1 := h.accounts.mem (i := (k, s)) (by rwa [refs_of_ne hk])
  rwa [refs_of_ne hk] at h1

lemma ne_row {k : Nat} (hk : k ≠ i) (hs : row sb disk k s ≠ 0) (s' : Slot) :
    r s' ≠ row sb disk k s := by
  intro heq
  have h1 := h.accounts.unique (i := (k, s)) (j := (i, s')) (by rwa [refs_of_ne hk])
    (by rw [refs_of_ne hk, refs_self, heq])
  exact hk (congrArg Prod.fst h1)

/-- What does not touch the inodes nor the blocks of others leaves their rows alone. -/
lemma row_eq (hsb : sb.Ok) (hlow : ∀ b < sb.bmapstart, disk' b = disk b)
    (hforeign : ∀ b ∈ used, (∀ s, r s ≠ b) → disk' b = disk b) {k : Nat} (hk : k ≠ i) :
    row sb disk' k = row sb disk k := by
  refine row_congr (fun hlt => dinode_congr (hlow _ (hsb.iblock_lt hlt))) fun h0 => ?_
  exact hforeign _ (h.row_mem hk h0) (h.ne_row hk h0)

lemma congr (hsb : sb.Ok) (hlow : ∀ b < sb.bmapstart, disk' b = disk b)
    (hforeign : ∀ b ∈ used, (∀ s, r s ≠ b) → disk' b = disk b) : Held sb used disk' i r where
  accounts := by
    have hrefs : refs sb disk' i r = refs sb disk i r := by
      funext ⟨k, s⟩
      by_cases hk : k = i
      · subst hk
        simp
      · rw [refs_of_ne hk, refs_of_ne hk, h.row_eq hsb hlow hforeign hk]
    rw [hrefs]
    exact h.accounts
  data := h.data

lemma attach (hsb : sb.Ok) {b : Nat} (hs : r s = 0) (hb : b ∉ used)
    (hdata : sb.datastart ≤ b ∧ b < sb.size) : Held sb (insert b used) disk i (update r s b) where
  accounts := by
    have hpos : b ≠ 0 := by
      have := hsb.bmapstart_lt
      omega
    rw [refs_update]
    exact h.accounts.attach (by rwa [refs_self]) hb hpos
  data := by
    rintro c (rfl | hc)
    · exact hdata
    · exact h.data c hc

lemma detach (hs : r s ≠ 0) : Held sb (used \ {r s}) disk i (update r s 0) where
  accounts := by
    have h1 := h.accounts.detach (i := (i, s)) (by simpa using hs)
    rw [refs_update]
    simpa using h1
  data c hc := h.data c hc.1

/-- The inode is written back: the row on disk is the one in memory. -/
lemma putDinode (hsb : sb.Ok) (hi : 0 < i ∧ i < sb.ninodes) (hd : d.Fits)
    (hr : r = if d.type ≠ 0 then slot disk d else fun _ => 0) :
    Booked sb used (putDinode sb disk i d) := by
  have hother : ∀ b ∈ used, Blocks.putDinode sb disk i d b = disk b := by
    intro b hb
    have h1 := (h.data b hb).1
    have h2 := hsb.iblock_lt hi.2
    have h3 := hsb.bmapstart_lt
    exact putDinode_apply_of_ne (by omega)
  have hown : row sb (Blocks.putDinode sb disk i d) i = r := by
    have hdi : dinode sb (Blocks.putDinode sb disk i d) i = d := dinode_putDinode hd
    by_cases ht : d.type = 0
    · rw [row_of_not_allocated (fun ha => ha.2.2 (by rw [hdi, ht])), hr, if_neg (by simp [ht])]
    · rw [row_of_allocated ⟨hi.1, hi.2, by rwa [hdi]⟩, hdi]
      rw [if_pos ht] at hr
      have hind : r .indirect = d.addrs (Fin.last NDIRECT) := by rw [hr]; rfl
      rw [hr]
      refine slot_congr fun h0 => ?_
      rw [← hind] at h0 ⊢
      exact hother _ (h.mem h0)
  have hrest : ∀ k ≠ i, row sb (Blocks.putDinode sb disk i d) k = row sb disk k := by
    intro k hk
    refine row_congr (fun _ => dinode_putDinode_of_ne hk) fun h0 => ?_
    exact hother _ (h.row_mem hk h0)
  have hrefs : uncurry (row sb (Blocks.putDinode sb disk i d)) = refs sb disk i r := by
    funext ⟨k, s⟩
    by_cases hk : k = i
    · subst hk
      simp [hown]
    · rw [refs_of_ne hk, ← hrest k hk]
      rfl
  exact ⟨hrefs ▸ h.accounts, h.data⟩

end

end Held

/-! ### One inode at work -/

/-- The block of byte `x` of the file is there. -/
def Backed (disk : Disk) (d : Dinode) (x : Nat) : Prop :=
  x / BSIZE < MAXFILE ∧ slot disk d (fileSlot (x / BSIZE)) ≠ 0

structure Evolves (sb : Superblock) (used : Set Nat) (disk : Disk) (ip : Inode)
    (used' : Set Nat) (disk' : Disk) (ip' : Inode) : Prop where
  held : Held sb used' disk' ip'.inum (slot disk' ip'.toDinode)
  /-- In the inode only addresses change. -/
  rest : ip' = { ip with addrs := ip'.addrs }
  low : ∀ b < sb.bmapstart, disk' b = disk b
  slots : ∀ s, slot disk ip.toDinode s ≠ 0 → slot disk' ip'.toDinode s = slot disk ip.toDinode s
  foreign : ∀ b ∈ used, (∀ s, slot disk ip.toDinode s ≠ b) → disk' b = disk b
  mono : used ⊆ used'
  fresh : ∀ s, slot disk ip.toDinode s = 0 → slot disk' ip'.toDinode s ∉ used

/-- A place that has a block which was in use had it before. -/
lemma Evolves.slot_of_mem {used' : Set Nat} (h : Evolves sb used disk ip used' disk' ip')
    (hmem : slot disk' ip'.toDinode s ∈ used) :
    slot disk' ip'.toDinode s = slot disk ip.toDinode s := by
  by_cases h0 : slot disk ip.toDinode s = 0
  · exact absurd hmem (h.fresh s h0)
  · exact h.slots s h0

/-- Nothing is written: the content that was there stays. -/
structure Grows (sb : Superblock) (used : Set Nat) (disk : Disk) (ip : Inode)
    (used' : Set Nat) (disk' : Disk) (ip' : Inode) : Prop
    extends Evolves sb used disk ip used' disk' ip' where
  bytes : ∀ x, Backed disk ip.toDinode x → byte disk' ip'.toDinode x = byte disk ip.toDinode x

section Steps

variable {used' used'' : Set Nat} {disk'' : Disk} {ip'' : Inode}

lemma Evolves.refl (h : Held sb used disk ip.inum (slot disk ip.toDinode)) :
    Evolves sb used disk ip used disk ip where
  held := h
  rest := rfl
  low _ _ := rfl
  slots _ _ := rfl
  foreign _ _ _ := rfl
  mono := subset_refl used
  fresh _ hs hmem := h.accounts.ne_zero hmem hs

section

variable (h : Evolves sb used disk ip used' disk' ip')
include h

lemma Evolves.trans (h' : Evolves sb used' disk' ip' used'' disk'' ip'') :
    Evolves sb used disk ip used'' disk'' ip'' where
  held := h'.held
  rest := by
    rw [h'.rest, h.rest]
  low b hb := (h'.low b hb).trans (h.low b hb)
  slots s hs := by
    have h1 := h.slots s hs
    rw [h'.slots s (h1 ▸ hs), h1]
  foreign b hb hne := by
    rw [h'.foreign b (h.mono hb) ?_, h.foreign b hb hne]
    intro s
    by_cases hs : slot disk ip.toDinode s = 0
    · intro heq
      exact h.fresh s hs (heq ▸ hb)
    · rw [h.slots s hs]
      exact hne s
  mono := h.mono.trans h'.mono
  fresh s hs hmem := by
    by_cases hs' : slot disk' ip'.toDinode s = 0
    · exact h'.fresh s hs' (h.mono hmem)
    · rw [h'.slots s hs'] at hmem
      exact h.fresh s hs hmem

lemma Evolves.backed {x : Nat} (hx : Backed disk ip.toDinode x) : Backed disk' ip'.toDinode x :=
  ⟨hx.1, by rw [h.slots _ hx.2]; exact hx.2⟩

lemma Evolves.inum_eq : ip'.inum = ip.inum := by
  rw [h.rest]

lemma Evolves.size_eq : ip'.size = ip.size := by
  rw [h.rest]

end

lemma Grows.refl (h : Held sb used disk ip.inum (slot disk ip.toDinode)) :
    Grows sb used disk ip used disk ip :=
  ⟨.refl h, fun _ _ => rfl⟩

lemma Grows.trans (h : Grows sb used disk ip used' disk' ip')
    (h' : Grows sb used' disk' ip' used'' disk'' ip'') :
    Grows sb used disk ip used'' disk'' ip'' where
  toEvolves := h.toEvolves.trans h'.toEvolves
  bytes x hx := by rw [h'.bytes x (h.backed hx), h.bytes x hx]

/-! ### Allocating -/

/-- Block `b` was free, and is now a block of zeros. -/
structure Alloc (sb : Superblock) (used : Set Nat) (disk : Disk) (b : Nat) (disk' : Disk) :
    Prop where
  notMem : b ∉ used
  range : sb.datastart ≤ b ∧ b < sb.size
  zero : ∀ x < BSIZE, disk' b x = 0
  same : ∀ c, c ≠ b → c < sb.bmapstart ∨ sb.datastart ≤ c → disk' c = disk c

/-- A free block is recorded at a place of the inode. -/
lemma Grows.record {b : Nat} (hsb : sb.Ok) (h : Held sb used disk ip.inum (slot disk ip.toDinode))
    (hb : b ∉ used) (hrange : sb.datastart ≤ b ∧ b < sb.size) (hs : slot disk ip.toDinode s = 0)
    (hrest : ip' = { ip with addrs := ip'.addrs })
    (hslot : slot disk' ip'.toDinode = update (slot disk ip.toDinode) s b)
    (hsame : ∀ c, c ≠ b → c ≠ slot disk ip.toDinode .indirect →
      c < sb.bmapstart ∨ sb.datastart ≤ c → disk' c = disk c)
    (hlow : ∀ c < sb.bmapstart, disk' c = disk c) :
    Grows sb used disk ip (insert b used) disk' ip' := by
  have hforeign : ∀ c ∈ used, (∀ s, slot disk ip.toDinode s ≠ c) → disk' c = disk c := by
    intro c hc hne
    refine hsame c ?_ (hne .indirect).symm (.inr (h.data c hc).1)
    rintro rfl
    exact hb hc
  have hslots : ∀ s', slot disk ip.toDinode s' ≠ 0 →
      slot disk' ip'.toDinode s' = slot disk ip.toDinode s' := by
    intro s' hs'
    rw [hslot, update_of_ne]
    rintro rfl
    exact hs' hs
  refine ⟨⟨?_, hrest, hlow, hslots, hforeign, Set.subset_insert b used, ?_⟩, ?_⟩
  · have hinum : ip'.inum = ip.inum := by rw [hrest]
    rw [hinum, hslot]
    exact (h.congr hsb hlow hforeign).attach hsb hs hb hrange
  · intro s' hs' hmem
    rw [hslot, update_apply] at hmem
    split_ifs at hmem
    · exact hb hmem
    · exact h.accounts.ne_zero hmem hs'
  · intro x hx
    have hmem := h.mem hx.2
    unfold byte
    rw [hslots _ hx.2, hsame _ ?_ ?_ (.inr (h.data _ hmem).1)]
    · intro heq
      exact hb (heq ▸ hmem)
    · intro heq
      exact fileSlot_ne_indirect _ (h.eq_of_eq hx.2 heq)

/-- What is not the new block nor in the map stays. -/
lemma Alloc.low {b c : Nat} (hsb : sb.Ok) (ha : Alloc sb used disk b disk')
    (hc : c < sb.bmapstart) : disk' c = disk c := by
  have h1 := ha.range.1
  have h2 := hsb.bmapstart_lt
  exact ha.same c (by omega) (.inl hc)

section

variable {b : Nat} (hsb : sb.Ok) (h : Held sb used disk ip.inum (slot disk ip.toDinode))
  (ha : Alloc sb used disk b disk')
include h ha

lemma Alloc.slot_eq : slot disk' ip.toDinode = slot disk ip.toDinode := by
  refine slot_congr fun h0 => ?_
  have hmem : slot disk ip.toDinode .indirect ∈ used := h.mem h0
  refine ha.same _ ?_ (.inr (h.data _ hmem).1)
  rintro rfl
  exact ha.notMem hmem

include hsb

/-- A new direct block. -/
lemma Alloc.direct {i : Fin NDIRECT} (h0 : ip.addrs i.castSucc = 0) :
    Grows sb used disk ip (insert b used) disk' (ip.setAddr i.castSucc b) := by
  refine .record (s := .direct i) hsb h ha.notMem ha.range h0 rfl ?_
    (fun c hc _ => ha.same c hc) (fun c => ha.low hsb)
  rw [← ha.slot_eq h]
  exact slot_setDirect i b

/-- A new indirect block. -/
lemma Alloc.indirect (h0 : ip.addrs (Fin.last NDIRECT) = 0) :
    Grows sb used disk ip (insert b used) disk' (ip.setAddr (Fin.last NDIRECT) b) := by
  refine .record (s := .indirect) hsb h ha.notMem ha.range h0 rfl ?_
    (fun c hc _ => ha.same c hc) (fun c => ha.low hsb)
  rw [← ha.slot_eq h]
  exact slot_setIndirect h0 ha.zero

/-- A new block in the indirect block at `a`. -/
lemma Alloc.entry {a : Nat} {j : Fin NINDIRECT} (hia : ip.addrs (Fin.last NDIRECT) = a)
    (h0 : a ≠ 0) (hj : word (disk a) j = 0) :
    Grows sb used disk ip (insert b used)
      (update disk' a ((disk a).store (4 * j) 4 b)) ip := by
  have hmem : a ∈ used := by
    rw [← hia] at h0 ⊢
    exact h.mem (s := .indirect) h0
  have hlt : sb.bmapstart ≤ a := by
    have h1 := (h.data a hmem).1
    have h2 := hsb.bmapstart_lt
    omega
  refine .record (s := .entry j) hsb h ha.notMem ha.range ?_ rfl ?_ ?_ ?_
  · simp only [slot, hia, if_neg h0]
    exact hj
  · refine slot_setEntry j hia h0 (Nat.lt_trans ha.range.2 hsb.size_lt) ?_
    rw [update_self]
  · intro c hc hca hcr
    rw [update_of_ne (by rintro rfl; exact hca hia.symm)]
    exact ha.same c hc hcr
  · intro c hc
    rw [update_of_ne (by omega)]
    exact ha.low hsb hc

end

/-! ### Writing -/

/-- Writing a block of the file does not change which blocks it has. -/
lemma Held.slot_update (h : Held sb used disk ip.inum (slot disk ip.toDinode)) (bn : Nat)
    (m : Mem) :
    slot (Function.update disk (slot disk ip.toDinode (fileSlot bn)) m) ip.toDinode =
      slot disk ip.toDinode := by
  refine slot_congr fun hi => update_of_ne (fun heq => ?_) ..
  exact fileSlot_ne_indirect bn (h.eq_of_eq (s := .indirect) hi heq).symm

/-- Bytes are written into block `bn` of the file. -/
lemma Held.writeBlock {bn o : Nat} {bs : List UInt8} (hsb : sb.Ok)
    (h : Held sb used disk ip.inum (slot disk ip.toDinode)) (hbn : bn < MAXFILE)
    (h0 : slot disk ip.toDinode (fileSlot bn) ≠ 0) (ho : o + bs.length ≤ BSIZE) :
    let b := slot disk ip.toDinode (fileSlot bn)
    let disk' := Function.update disk b ((disk b).write o bs)
    Evolves sb used disk ip used disk' ip ∧ ∀ x, Backed disk ip.toDinode x →
      byte disk' ip.toDinode x = (byte disk ip.toDinode).write (bn * BSIZE + o) bs x := by
  intro b disk'
  have hmem : b ∈ used := h.mem h0
  have hsame : ∀ c, c ≠ b → disk' c = disk c := fun c hc => update_of_ne hc ..
  have hlow : ∀ c < sb.bmapstart, disk' c = disk c := by
    intro c hc
    have h1 := (h.data b hmem).1
    have h2 := hsb.bmapstart_lt
    exact hsame c (by omega)
  have hslot : slot disk' ip.toDinode = slot disk ip.toDinode := h.slot_update bn _
  have hforeign : ∀ c ∈ used, (∀ s, slot disk ip.toDinode s ≠ c) → disk' c = disk c :=
    fun c _ hne => hsame c (hne _).symm
  have hheld : Held sb used disk' ip.inum (slot disk' ip.toDinode) := by
    rw [hslot]
    exact h.congr hsb hlow hforeign
  refine ⟨⟨hheld, rfl, hlow, fun s _ => by rw [hslot], hforeign, subset_refl used, ?_⟩, ?_⟩
  · intro s hs hs'
    rw [hslot] at hs'
    exact h.accounts.ne_zero hs' hs
  · intro x hx
    have hdiv : x / BSIZE * BSIZE + x % BSIZE = x := by
      rw [Nat.mul_comm]
      exact Nat.div_add_mod x BSIZE
    unfold byte
    rw [hslot]
    by_cases hxb : x / BSIZE = bn
    · -- The byte is in the block: both sides compare its place in the block.
      rw [hxb] at hdiv ⊢
      simp only [disk', b, update_self, Mem.write, hxb]
      have hle : bn * BSIZE + o ≤ x ↔ o ≤ x % BSIZE := by omega
      have hsub : x - (bn * BSIZE + o) = x % BSIZE - o := by omega
      simp only [hle, hsub]
    · have hne : slot disk ip.toDinode (fileSlot (x / BSIZE)) ≠ b := fun heq =>
        hxb (fileSlot_injective hx.1 hbn (h.eq_of_eq hx.2 heq))
      rw [hsame _ hne]
      have hmod : x % BSIZE < BSIZE := Nat.mod_lt x (by decide)
      rcases Nat.lt_or_gt_of_ne hxb with hlt | hgt
      · have h1 : x / BSIZE * BSIZE + BSIZE ≤ bn * BSIZE := by
          rw [← Nat.succ_mul]
          exact Nat.mul_le_mul_right _ hlt
        rw [Mem.write_apply_of_lt (by omega)]
      · have h1 : bn * BSIZE + BSIZE ≤ x / BSIZE * BSIZE := by
          rw [← Nat.succ_mul]
          exact Nat.mul_le_mul_right _ hgt
        rw [Mem.write_apply_of_le (by omega)]

end Steps

/-! ### The other inodes -/

/-- Inode `k` records the same blocks, and they hold the same. -/
structure SameFile (sb : Superblock) (disk disk' : Disk) (k : Nat) : Prop where
  inode_eq : k < sb.ninodes → dinode sb disk' k = dinode sb disk k
  row_eq : row sb disk' k = row sb disk k
  blocks : ∀ s, row sb disk k s ≠ 0 → disk' (row sb disk k s) = disk (row sb disk k s)
  boot : disk' 0 = disk 0

namespace SameFile

variable {disk'' : Disk} {k : Nat}

lemma refl (sb : Superblock) (disk : Disk) (k : Nat) : SameFile sb disk disk k :=
  ⟨fun _ => rfl, rfl, fun _ _ => rfl, rfl⟩

lemma trans (h : SameFile sb disk disk' k) (h' : SameFile sb disk' disk'' k) :
    SameFile sb disk disk'' k where
  inode_eq hk := (h'.inode_eq hk).trans (h.inode_eq hk)
  row_eq := h'.row_eq.trans h.row_eq
  blocks s hs := by
    have h1 := h'.blocks s (by rwa [h.row_eq])
    rw [h.row_eq] at h1
    exact h1.trans (h.blocks s hs)
  boot := h'.boot.trans h.boot

section

variable (h : SameFile sb disk disk' k) (hk : Allocated sb disk k)
include h hk

lemma allocated : Allocated sb disk' k :=
  ⟨hk.1, hk.2.1, by rw [h.inode_eq hk.2.1]; exact hk.2.2⟩

lemma slot_eq : slot disk' (dinode sb disk' k) = slot disk (dinode sb disk k) := by
  rw [← row_of_allocated hk, ← row_of_allocated (h.allocated hk), h.row_eq]

lemma byte_eq : byte disk' (dinode sb disk' k) = byte disk (dinode sb disk k) := by
  funext x
  unfold byte
  rw [h.slot_eq hk]
  by_cases h0 : slot disk (dinode sb disk k) (fileSlot (x / BSIZE)) = 0
  · rw [h0, h.boot]
  · have h1 := h.blocks (fileSlot (x / BSIZE)) (by rwa [row_of_allocated hk])
    rw [row_of_allocated hk] at h1
    rw [h1]

end

end SameFile

/-- Work on one inode leaves the others alone. -/
lemma Held.sameFile (h : Held sb used disk i r) (hsb : sb.Ok)
    (hlow : ∀ b < sb.bmapstart, disk' b = disk b)
    (hforeign : ∀ b ∈ used, (∀ s, r s ≠ b) → disk' b = disk b) {k : Nat} (hk : k ≠ i) :
    SameFile sb disk disk' k where
  inode_eq hlt := dinode_congr (hlow _ (hsb.iblock_lt hlt))
  row_eq := h.row_eq hsb hlow hforeign hk
  blocks _ hs := hforeign _ (h.row_mem hk hs) (h.ne_row hk hs)
  boot := hlow 0 (Nat.zero_lt_of_lt hsb.inodes)

/-- So does writing an inode back. -/
lemma Held.sameFile_putDinode (h : Held sb used disk i r) (hsb : sb.Ok) (hi : i < sb.ninodes)
    {k : Nat} (hk : k ≠ i) :
    SameFile sb disk (Blocks.putDinode sb disk i d) k := by
  have hother : ∀ b ∈ used, Blocks.putDinode sb disk i d b = disk b := by
    intro b hb
    have h1 := (h.data b hb).1
    have h2 := hsb.iblock_lt hi
    have h3 := hsb.bmapstart_lt
    exact putDinode_apply_of_ne (by omega)
  refine ⟨fun _ => dinode_putDinode_of_ne hk, ?_, fun s hs => hother _ (h.row_mem hk hs), ?_⟩
  · exact row_congr (fun _ => dinode_putDinode_of_ne hk) fun h0 => hother _ (h.row_mem hk h0)
  · exact putDinode_apply_of_ne (Nat.lt_of_lt_of_le hsb.boot (Nat.le_add_left ..)).ne

end Xv6.Blocks
