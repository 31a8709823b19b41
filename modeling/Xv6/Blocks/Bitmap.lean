import Xv6.Blocks.Files
import Xv6.Blocks.Recycle

/-!
# The free bit map

A bit of the map is set if its block is in use. `balloc` sets the first bit that is clear, and
`bfree` clears a bit that must be set.
-/

namespace Xv6.Blocks

open Function Lib

/-! ### Bits of a byte -/

variable {E : Panic → Prop} {s s' : Buffers} {W : Set Nat}

lemma toBitVec_mask (i : Nat) : (mask i).toBitVec = BitVec.twoPow 8 (i % 8) := by
  have h : ∀ k : Fin 8, ((1 : UInt8) <<< UInt8.ofNat k).toBitVec = BitVec.twoPow 8 k := by decide
  exact h ⟨i % 8, Nat.mod_lt i (by decide)⟩

/-- Bit `i % 8` of a byte. -/
def byteBit (x : UInt8) (i : Nat) : Bool := x.toBitVec.getLsbD (i % 8)

lemma and_mask_eq_zero_iff (x : UInt8) (i : Nat) : x &&& mask i = 0 ↔ byteBit x i = false := by
  rw [← UInt8.toBitVec_inj, UInt8.toBitVec_and, toBitVec_mask, BitVec.and_twoPow, byteBit]
  have hne : BitVec.twoPow 8 (i % 8) ≠ 0#8 := by
    have h : ∀ k : Fin 8, BitVec.twoPow 8 k ≠ 0#8 := by decide
    exact h ⟨i % 8, Nat.mod_lt i (by decide)⟩
  cases x.toBitVec.getLsbD (i % 8)
  · simp
  · simpa using hne

lemma byteBit_or_mask (x : UInt8) (i j : Nat) :
    byteBit (x ||| mask i) j = (byteBit x j || decide (i % 8 = j % 8)) := by
  have hi : i % 8 < 8 := Nat.mod_lt i (by decide)
  have hj : j % 8 < 8 := Nat.mod_lt j (by decide)
  simp only [byteBit, UInt8.toBitVec_or, toBitVec_mask, BitVec.getLsbD_or, BitVec.getLsbD_twoPow]
  simp [hi, hj]

lemma byteBit_and_not_mask (x : UInt8) (i j : Nat) :
    byteBit (x &&& ~~~mask i) j = (byteBit x j && !decide (i % 8 = j % 8)) := by
  have hi : i % 8 < 8 := Nat.mod_lt i (by decide)
  have hj : j % 8 < 8 := Nat.mod_lt j (by decide)
  simp only [byteBit, UInt8.toBitVec_and, UInt8.toBitVec_not, toBitVec_mask, BitVec.getLsbD_and,
    BitVec.getLsbD_not, BitVec.getLsbD_twoPow]
  simp [hi, hj]

/-! ### Bits of the map -/

/-- The bit of block `b`. -/
def bit (sb : Superblock) (disk : Disk) (b : Nat) : Bool :=
  byteBit (disk (sb.BBLOCK b) (b % BPB / 8)) (b % BPB)

/-- The data blocks in use. -/
def used (sb : Superblock) (disk : Disk) : Set Nat :=
  { b | sb.datastart ≤ b ∧ b < sb.size ∧ bit sb disk b = true }

/-- The blocks before the data are never handed out. -/
def MetaMarked (sb : Superblock) (disk : Disk) : Prop :=
  ∀ b < sb.datastart, bit sb disk b = true

variable {sb : Superblock} {disk disk' : Disk} {b c : Nat}

lemma bit_congr (h : disk' (sb.BBLOCK b) = disk (sb.BBLOCK b)) :
    bit sb disk' b = bit sb disk b := by
  unfold bit
  rw [h]

section Congr

variable (hsb : sb.Ok) (hmap : ∀ c, sb.bmapstart ≤ c → c < sb.datastart → disk' c = disk c)
include hsb hmap

/-- What does not touch the map leaves the bits alone. -/
lemma bit_eq_of_map (hc : c < sb.size) : bit sb disk' c = bit sb disk c :=
  bit_congr (hmap _ (sb.bmapstart_le_bblock c) (hsb.bblock_lt hc))

lemma used_congr : used sb disk' = used sb disk := by
  ext c
  simp only [used, Set.mem_ofPred_eq]
  exact and_congr_right fun _ => and_congr_right fun hc => by rw [bit_eq_of_map hsb hmap hc]

lemma MetaMarked.congr (h : MetaMarked sb disk) : MetaMarked sb disk' := by
  intro c hc
  have hle : sb.datastart ≤ sb.size := Nat.sub_le ..
  rw [bit_eq_of_map hsb hmap (by omega)]
  exact h c hc

end Congr

/-- Two blocks with the same bit are one. -/
lemma eq_of_bit_place (hblock : sb.BBLOCK b = sb.BBLOCK c) (hbyte : b % BPB / 8 = c % BPB / 8)
    (hbit : b % BPB % 8 = c % BPB % 8) : b = c := by
  have hdiv : b / BPB = c / BPB := Nat.add_right_cancel hblock
  have hmod : b % BPB = c % BPB := by
    rw [← Nat.div_add_mod (b % BPB) 8, hbyte, hbit, Nat.div_add_mod]
  rw [← Nat.div_add_mod b BPB, hdiv, hmod, Nat.div_add_mod]

/-- The bit of one block is changed. -/
lemma bit_update {x : UInt8} {v : Bool} (hself : byteBit x (b % BPB) = v)
    (hother : ∀ j, b % BPB % 8 ≠ j % 8 →
      byteBit x j = byteBit (disk (sb.BBLOCK b) (b % BPB / 8)) j) :
    bit sb (update disk (sb.BBLOCK b)
      (update (disk (sb.BBLOCK b)) (b % BPB / 8) x))
      = update (bit sb disk) b v := by
  funext c
  by_cases hc : c = b
  · subst hc
    simp [bit, hself]
  · rw [update_of_ne hc]
    unfold bit
    by_cases hblock : sb.BBLOCK c = sb.BBLOCK b
    · rw [hblock, update_self]
      by_cases hbyte : c % BPB / 8 = b % BPB / 8
      · rw [hbyte, update_self]
        refine hother _ fun hbit => hc (eq_of_bit_place hblock hbyte hbit.symm)
      · rw [update_of_ne hbyte]
    · rw [update_of_ne hblock]

/-! ### The allocator -/

/-- The map with the bit of `b` set. -/
def setBit (sb : Superblock) (disk : Disk) (b : Nat) : Disk :=
  update disk (sb.BBLOCK b) (update (disk (sb.BBLOCK b)) (b % BPB / 8)
    (disk (sb.BBLOCK b) (b % BPB / 8) ||| mask (b % BPB)))

/-- The map with the bit of `b` cleared. -/
def clearBit (sb : Superblock) (disk : Disk) (b : Nat) : Disk :=
  update disk (sb.BBLOCK b) (update (disk (sb.BBLOCK b)) (b % BPB / 8)
    (disk (sb.BBLOCK b) (b % BPB / 8) &&& ~~~mask (b % BPB)))

lemma bit_setBit : bit sb (setBit sb disk b) = update (bit sb disk) b true :=
  bit_update (by simp [byteBit_or_mask]) fun j hj => by simp [byteBit_or_mask, hj]

lemma bit_clearBit : bit sb (clearBit sb disk b) = update (bit sb disk) b false :=
  bit_update (by simp [byteBit_and_not_mask]) fun j hj => by simp [byteBit_and_not_mask, hj]

/-- What is not in the map stays. -/
lemma setBit_apply (hsb : sb.Ok) (hb : b < sb.size) (hc : c < sb.bmapstart ∨ sb.datastart ≤ c) :
    setBit sb disk b c = disk c := by
  have h1 := sb.bmapstart_le_bblock b
  have h2 := hsb.bblock_lt hb
  exact update_of_ne (by omega) ..

lemma clearBit_apply (hsb : sb.Ok) (hb : b < sb.size) (hc : c < sb.bmapstart ∨ sb.datastart ≤ c) :
    clearBit sb disk b c = disk c := by
  have h1 := sb.bmapstart_le_bblock b
  have h2 := hsb.bblock_lt hb
  exact update_of_ne (by omega) ..

/-- The disk after `balloc` has handed out block `b`. -/
def allocated (sb : Superblock) (disk : Disk) (b : Nat) : Disk :=
  update (setBit sb disk b) b (memset (setBit sb disk b b) 0 0 BSIZE)

lemma ballocFrom_spec {k : Nat} : ∀ {b : Nat},
    wp (ballocFrom sb b k) E (fun r s' =>
      (r = 0 ∧ s' = s ∧ ∀ c, b ≤ c → c < b + k → bit sb s.data c = true) ∨
      (b ≤ r ∧ r < b + k ∧ bit sb s.data r = false ∧ s'.data = allocated sb s.data r ∧
        s.Gives ({sb.BBLOCK r} ∪ {r}) s')) s := by
  induction k with
  | zero =>
    intro b
    exact .inl ⟨rfl, rfl, fun c h1 h2 => by omega⟩
  | succ k ih =>
    intro b
    rw [ballocFrom]
    simp only [bread, logWrite, bzero, wp_bind, wp_get, wp_pure, wp_ite, wp_modify,
      and_mask_eq_zero_iff]
    refine ⟨fun hfree => .inr ⟨le_refl b, by omega, hfree, rfl,
      (Buffers.gives_write ..).trans (Buffers.gives_write ..)⟩, fun hset => ?_⟩
    have hb : bit sb s.data b = true := by simpa [bit] using hset
    refine wp_imp ih ?_
    rintro r s' (⟨hr, hd, hall⟩ | ⟨h1, h2, hfree, hd, hgives⟩)
    · refine .inl ⟨hr, hd, fun c h1 h2 => ?_⟩
      rcases Nat.eq_or_lt_of_le h1 with rfl | h1
      · exact hb
      · exact hall c h1 (by omega)
    · exact .inr ⟨by omega, by omega, hfree, hd, hgives⟩

/-- The block that is handed out is a free data block, and now one of zeros. -/
lemma alloc_allocated (hsb : sb.Ok) (hmeta : MetaMarked sb disk) (hb : b < sb.size)
    (hfree : bit sb disk b = false) :
    Alloc sb (used sb disk) disk b (allocated sb disk b) ∧
      used sb (allocated sb disk b) = insert b (used sb disk) ∧
      MetaMarked sb (allocated sb disk b) := by
  have hdata : sb.datastart ≤ b := by
    by_contra hlt
    have h1 := hmeta b (by omega)
    simp [h1] at hfree
  have hbits : ∀ c < sb.size, bit sb (allocated sb disk b) c = bit sb (setBit sb disk b) c := by
    intro c hc
    have h1 := hsb.bblock_lt hc
    exact bit_congr (update_of_ne (by omega) ..)
  refine ⟨⟨fun hmem => ?_, ⟨hdata, hb⟩, fun x hx => ?_, fun c hc hcr => ?_⟩, ?_, fun c hc => ?_⟩
  · have h1 := hmem.2.2
    simp [hfree] at h1
  · rw [allocated, update_self, memset_apply, if_pos (by omega)]
  · rw [allocated, update_of_ne hc, setBit_apply hsb hb hcr]
  · ext c
    simp only [used, Set.mem_ofPred_eq, Set.mem_insert_iff]
    constructor
    · rintro ⟨h1, h2, h3⟩
      rw [hbits c h2, bit_setBit, update_apply] at h3
      split_ifs at h3 with hcb
      · exact .inl hcb
      · exact .inr ⟨h1, h2, h3⟩
    · rintro (rfl | ⟨h1, h2, h3⟩)
      · exact ⟨hdata, hb, by rw [hbits c hb, bit_setBit, update_self]⟩
      · refine ⟨h1, h2, ?_⟩
        rw [hbits c h2, bit_setBit, update_apply]
        split_ifs
        · rfl
        · exact h3
  · have hlt : c < sb.size := by
      have h1 : sb.datastart ≤ sb.size := Nat.sub_le ..
      omega
    rw [hbits c hlt, bit_setBit, update_apply]
    split_ifs
    · rfl
    · exact hmeta c hc

/-- Buffers of `W` have been given to the log; among them are those of all blocks that are in use
now and were not. -/
structure Given (sb : Superblock) (s : Buffers) (W : Set Nat) (s' : Buffers) : Prop
    extends s.Gives W s' where
  taken : ∀ b ∈ used sb s'.data, b ∈ used sb s.data ∨ b ∈ W

lemma Given.refl (s : Buffers) : Given sb s ∅ s := ⟨.refl s, fun _ hb => .inl hb⟩

lemma Given.trans {s'' : Buffers} {W' : Set Nat} (h : Given sb s W s') (h' : Given sb s' W' s'') :
    Given sb s (W ∪ W') s'' := by
  refine ⟨h.toGives.trans h'.toGives, fun b hb => ?_⟩
  rcases h'.taken b hb with hb | hb
  · exact (h.taken b hb).imp_right .inl
  · exact .inr (.inr hb)

lemma Given.write {m : Mem} (h : Given sb s W s')
    (hu : used sb (s'.write b m).data = used sb s'.data) : Given sb s (W ∪ {b}) (s'.write b m) :=
  h.trans ⟨Buffers.gives_write .., fun _ hc => .inl (hu ▸ hc)⟩

/-- `balloc` hands out a free block, or there is none. -/
lemma balloc_spec (hsb : sb.Ok) (hmeta : MetaMarked sb s.data) : wp (balloc sb) E (fun r s' =>
      (r = 0 ∧ s' = s ∧ ∀ c < sb.size, bit sb s.data c = true) ∨
      (r ≠ 0 ∧ Alloc sb (used sb s.data) s.data r s'.data ∧
        used sb s'.data = insert r (used sb s.data) ∧ MetaMarked sb s'.data ∧
        ∃ W, Given sb s W s' ∧ ∀ c ∈ W, c ∉ used sb s.data)) s := by
  refine wp_imp ballocFrom_spec ?_
  rintro r s' (⟨hr, hd, hall⟩ | ⟨-, hlt, hfree, hd, hgives⟩)
  · exact .inl ⟨hr, hd, fun c hc => hall c (Nat.zero_le c) (by omega)⟩
  · obtain ⟨ha, hu, hm⟩ := alloc_allocated hsb hmeta (by omega) hfree
    have hpos : r ≠ 0 := by
      have h1 := ha.range.1
      have h2 := hsb.bmapstart_lt
      omega
    rw [← hd] at ha hu hm
    refine .inr ⟨hpos, ha, hu, hm, _, ⟨hgives, fun c hc => ?_⟩, ?_⟩
    · rw [hu] at hc
      exact hc.elim (fun h1 => .inr (.inr h1)) .inl
    · rintro c (rfl | rfl)
      · have h1 := hsb.bblock_lt (b := r) (by omega)
        exact fun hc => absurd hc.1 (by omega)
      · exact ha.notMem

/-- `bfree` of a block in use. -/
lemma bfree_spec (hsb : sb.Ok) (hmeta : MetaMarked sb s.data) (hb : b ∈ used sb s.data) :
    wp (bfree sb b) E (fun _ s' => used sb s'.data = used sb s.data \ {b} ∧
      MetaMarked sb s'.data ∧
      ∀ c, c < sb.bmapstart ∨ sb.datastart ≤ c → s'.data c = s.data c) s := by
  obtain ⟨hdata, hlt, hset⟩ := hb
  have hset' : byteBit (s.data (sb.BBLOCK b) (b % BPB / 8)) (b % BPB) = true := hset
  unfold bfree
  simp only [bread, logWrite, wp_bind, wp_get, wp_pure, wp_ite, wp_modify, wp_throw,
    and_mask_eq_zero_iff]
  refine ⟨fun hfree => by simp [hset'] at hfree, fun _ => ?_⟩
  change used sb (clearBit sb s.data b) = _ ∧ MetaMarked sb (clearBit sb s.data b) ∧ _
  refine ⟨?_, fun c hc => ?_, fun c hc => clearBit_apply hsb hlt hc⟩
  · ext c
    simp only [used, Set.mem_ofPred_eq, Set.mem_sdiff, Set.mem_singleton_iff, bit_clearBit,
      update_apply]
    split_ifs with hcb <;> simp [hcb]
  · rw [bit_clearBit, update_of_ne (by omega)]
    exact hmeta c hc

end Xv6.Blocks
