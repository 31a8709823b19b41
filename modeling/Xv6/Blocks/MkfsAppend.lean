import Mathlib.Data.List.GetD
import Xv6.Blocks.Mkfs
import Xv6.Blocks.FileLaw

/-!
# How `mkfs` appends to a file

`mkfs` hands out the blocks from `freeblock` on, one after the other; those in use are the ones
before it. A file of `nb` blocks has exactly those that it needs, and the indirect block if it
needs more than the direct ones.
-/

namespace Xv6.Blocks.Mkfs

open Function Lib

variable {s s' s'' : St} {ip ip' : Inode} {E : Abort → Prop} {off : Nat} {cur p : List UInt8}
  {x nb b fbn sec a : Nat} {r : Slot → Nat} {t : Slot} {disk : Disk}

/-! ### Numbers -/

lemma leNat_shift (n : Nat) : ∀ (x k : Nat),
    Mem.leNat (fun j => UInt8.ofNat (x >>> (8 * j))) k n = x / 256 ^ k % 256 ^ n := by
  induction n with
  | zero => intro x k; simp [Mem.leNat, Nat.mod_one]
  | succ n ih =>
    intro x k
    have hbyte : (UInt8.ofNat (x >>> (8 * k))).toNat = x / 256 ^ k % 256 := by
      rw [UInt8.toNat_ofNat', Nat.shiftRight_eq_div_pow, Nat.pow_mul]
    simp only [Mem.leNat]
    rw [ih, hbyte, pow_succ' 256 n, Nat.mod_mul, Nat.div_div_eq_div_mul, ← pow_succ]

lemma xint_eq (h : x < 2 ^ 32) : xint x = x := by
  unfold xint
  rw [leNat_shift, pow_zero, Nat.div_one]
  exact Nat.mod_eq_of_lt h

lemma xshort_eq (h : x < 2 ^ 16) : xshort x = x := by
  unfold xshort
  rw [leNat_shift, pow_zero, Nat.div_one]
  exact Nat.mod_eq_of_lt h

lemma sb_size : sb.size = 2000 := xint_eq (by decide)

lemma sb_ninodes : sb.ninodes = 200 := xint_eq (by decide)

lemma sb_bmapstart : sb.bmapstart = 45 := xint_eq (by decide)

lemma sb_inodestart : sb.inodestart = 32 := xint_eq (by decide)

lemma sb_datastart : sb.datastart = 46 := by
  have h : sb.nblocks = 1954 := xint_eq (by decide)
  rw [Superblock.datastart, sb_size, h]

lemma sb_ok : sb.Ok where
  boot := by rw [sb_inodestart]; decide
  inodes := by rw [sb_inodestart, sb_ninodes, sb_bmapstart]; decide
  bitmap := by rw [sb_bmapstart, sb_size, sb_datastart]; decide
  size_lt := by rw [sb_size]; decide

/-! ### Blocks that a file needs -/

/-- The blocks that a file of `nb` blocks takes, with the indirect block. -/
def cost (nb : Nat) : Nat := nb + if NDIRECT < nb then 1 else 0

/-- The number of blocks of `n` bytes. -/
def nblk (n : Nat) : Nat := (n + (BSIZE - 1)) / BSIZE

/-- The file has its first `nb` blocks and no other. -/
structure Exact (r : Slot → Nat) (nb : Nat) : Prop where
  blocks : ∀ bn < MAXFILE, r (fileSlot bn) ≠ 0 ↔ bn < nb
  indirect : r .indirect ≠ 0 ↔ NDIRECT < nb

/-- Place `t` gets block `b`, unless it has one. -/
def ensure (r : Slot → Nat) (t : Slot) (b : Nat) : Slot → Nat :=
  if r t = 0 then update r t b else r

lemma Exact.ensure_indirect (h : Exact r nb) (hb : b ≠ 0) :
    (∀ bn < MAXFILE, ensure r .indirect b (fileSlot bn) ≠ 0 ↔ bn < nb) ∧
      ensure r .indirect b .indirect ≠ 0 := by
  unfold ensure
  split_ifs with h0
  · refine ⟨fun bn hbn => ?_, by simpa using hb⟩
    rw [update_of_ne (fileSlot_ne_indirect bn)]
    exact h.blocks bn hbn
  · exact ⟨h.blocks, h0⟩

/-- The next block. -/
lemma exact_succ (hblocks : ∀ bn < MAXFILE, r (fileSlot bn) ≠ 0 ↔ bn < nb)
    (hind : r .indirect ≠ 0 ↔ NDIRECT < fbn + 1) (hb : b ≠ 0) (hfbn : fbn < MAXFILE)
    (hle : fbn ≤ nb) (hnb : nb ≤ fbn + 1) : Exact (ensure r (fileSlot fbn) b) (fbn + 1) := by
  unfold ensure
  split_ifs with h0
  · have hlt : ¬fbn < nb := fun hlt => (hblocks fbn hfbn).mpr hlt h0
    refine ⟨fun bn hbn => ?_, ?_⟩
    · by_cases heq : bn = fbn
      · subst heq
        simp [hb]
      · rw [update_of_ne fun h => heq (fileSlot_injective hbn hfbn h), hblocks bn hbn]
        omega
    · rw [update_of_ne (fileSlot_ne_indirect fbn).symm]
      exact hind
  · have hlt : fbn < nb := (hblocks fbn hfbn).mp h0
    obtain rfl : nb = fbn + 1 := by omega
    exact ⟨hblocks, hind⟩

/-! ### Handing out blocks -/

/-- The blocks that have been handed out. -/
def taken (s : St) : Set Nat := Set.Ico nmeta s.freeblock

/-- Inode `ip` is being worked on; the blocks from `freeblock` on are zero. -/
structure Work (s : St) (ip : Inode) : Prop where
  held : Held sb (taken s) s.disk ip.inum (slot s.disk ip.toDinode)
  le : nmeta ≤ s.freeblock
  zero : ∀ b, s.freeblock ≤ b → s.disk b = fun _ => 0

lemma Work.alloc (h : Work s ip) (hroom : s.freeblock < FSSIZE) :
    Alloc sb (taken s) s.disk s.freeblock s.disk where
  notMem hmem := Nat.lt_irrefl _ hmem.2
  range := ⟨sb_datastart ▸ h.le, sb_size ▸ hroom⟩
  zero x _ := by rw [h.zero _ (le_refl _)]
  same _ _ _ := rfl

lemma insert_taken (h : nmeta ≤ s.freeblock) (disk : Disk) :
    insert s.freeblock (taken s) = taken { s with disk, freeblock := s.freeblock + 1 } :=
  Set.insert_Ico_right_eq_Ico_succ h

/-- Place `t` has a block now, and nothing else has changed. -/
structure Ensured (s : St) (ip : Inode) (t : Slot) (s' : St) (ip' : Inode) : Prop where
  work : Work s' ip'
  grows : Grows sb (taken s) s.disk ip (taken s') s'.disk ip'
  slots : slot s'.disk ip'.toDinode = ensure (slot s.disk ip.toDinode) t s.freeblock
  freeblock : s'.freeblock = s.freeblock + if slot s.disk ip.toDinode t = 0 then 1 else 0
  freeinode : s'.freeinode = s.freeinode

lemma Ensured.of_ne (h : Work s ip) (h0 : slot s.disk ip.toDinode t ≠ 0) : Ensured s ip t s ip where
  work := h
  grows := .refl h.held
  slots := by rw [ensure, if_neg h0]
  freeblock := by rw [if_neg h0]; rfl
  freeinode := rfl

/-- A new block is recorded at place `t`. -/
lemma Ensured.of_eq (h : Work s ip) (h0 : slot s.disk ip.toDinode t = 0)
    (hgrows : Grows sb (taken s) s.disk ip (insert s.freeblock (taken s)) disk ip')
    (hslots : slot disk ip'.toDinode = update (slot s.disk ip.toDinode) t s.freeblock)
    (hzero : ∀ b, s.freeblock < b → disk b = s.disk b) :
    Ensured s ip t { s with disk, freeblock := s.freeblock + 1 } ip' := by
  rw [insert_taken h.le disk] at hgrows
  refine ⟨⟨hgrows.held, Nat.le_succ_of_le h.le, fun b hb => ?_⟩, hgrows, ?_, ?_, rfl⟩
  · exact (hzero b hb).trans (h.zero b (Nat.le_of_succ_le hb))
  · rw [ensure, if_pos h0]
    exact hslots
  · rw [if_pos h0]

lemma slot_lt (h : Work s ip) (hle : s.freeblock ≤ FSSIZE) (t : Slot) :
    slot s.disk ip.toDinode t < FSSIZE := by
  by_cases h0 : slot s.disk ip.toDinode t = 0
  · rw [h0]
    decide
  · exact Nat.lt_of_lt_of_le (h.held.mem h0).2 hle

/-- The place of an address. -/
def place (i : Fin (NDIRECT + 1)) : Slot := Fin.lastCases Slot.indirect Slot.direct i

lemma slot_place (disk : Disk) (d : Dinode) (i : Fin (NDIRECT + 1)) :
    slot disk d (place i) = d.addrs i := by
  cases i using Fin.lastCases with
  | last => simp [place, slot]
  | cast j => simp [place, slot]

lemma addrFor_spec (h : Work s ip) (hle : s.freeblock ≤ FSSIZE) (i : Fin (NDIRECT + 1))
    (hroom : ip.addrs i = 0 → s.freeblock < FSSIZE) :
    wp (addrFor ip.toDinode i) E (fun d s' => ∃ ip', d = ip'.toDinode ∧
      Ensured s ip (place i) s' ip') s := by
  have hlt : ip.addrs i < 2 ^ 32 := by
    rw [← slot_place s.disk]
    exact Nat.lt_trans (slot_lt h hle _) (by decide)
  unfold addrFor
  rw [xint_eq hlt]
  split_ifs with h0
  · have halloc := h.alloc (hroom h0)
    have hb : xint s.freeblock = s.freeblock := xint_eq (Nat.lt_trans (hroom h0) (by decide))
    have hplace : slot s.disk ip.toDinode (place i) = 0 := by rw [slot_place, h0]
    simp only [nextBlock, wp_bind, wp_get, wp_set, wp_pure, hb]
    refine ⟨ip.setAddr i s.freeblock, rfl, .of_eq h hplace ?_ ?_ fun _ _ => rfl⟩
    · cases i using Fin.lastCases with
      | last => exact halloc.indirect sb_ok h.held h0
      | cast j => exact halloc.direct sb_ok h.held h0
    · cases i using Fin.lastCases with
      | last =>
        rw [place, Fin.lastCases_last]
        exact slot_setIndirect h0 halloc.zero
      | cast j =>
        rw [place, Fin.lastCases_castSucc]
        exact slot_setDirect j s.freeblock
  · exact ⟨ip, rfl, .of_ne h (by rwa [slot_place])⟩

lemma word_lt (m : Mem) (j : Nat) : word m j < 2 ^ 32 := Mem.leNat_lt m 4 (4 * j)

lemma wp_rsect {Q : Mem → St → Prop} (h : sec < FSSIZE) (hQ : Q (s.disk sec) s) :
    wp (rsect sec) E Q s := by
  unfold rsect
  simp only [wp_bind, wp_get, wp_ite, wp_pure, wp_throw]
  exact ⟨fun _ => hQ, fun h' => absurd h h'⟩

/-- The lines of `blockFor` that follow the indirect block. -/
lemma entryFor_spec (h : Work s ip) (hle : s.freeblock ≤ FSSIZE) {j : Nat} (hj : j < NINDIRECT)
    (h0 : ip.addrs (Fin.last NDIRECT) ≠ 0)
    (hroom : slot s.disk ip.toDinode (.entry ⟨j, hj⟩) = 0 → s.freeblock < FSSIZE) :
    wp (do
      let indirect ← rsect (xint (ip.addrs (Fin.last NDIRECT)))
      if word indirect j = 0 then do
        let b ← nextBlock
        let indirect := indirect.store (4 * j) 4 (xint b)
        wsect (xint (ip.addrs (Fin.last NDIRECT))) indirect
        return (xint (word indirect j), ip.toDinode)
      else return (xint (word indirect j), ip.toDinode)) E
      (fun p s' => p.2 = ip.toDinode ∧ p.1 = slot s'.disk ip.toDinode (.entry ⟨j, hj⟩) ∧
        Ensured s ip (.entry ⟨j, hj⟩) s' ip) s := by
  have hlt : ip.addrs (Fin.last NDIRECT) < FSSIZE := slot_lt h hle .indirect
  have hslot : ∀ disk : Disk, slot disk ip.toDinode (.entry ⟨j, hj⟩) =
      word (disk (ip.addrs (Fin.last NDIRECT))) j := fun disk => if_neg h0
  rw [xint_eq (Nat.lt_trans hlt (by decide)), wp_bind]
  refine wp_rsect hlt ?_
  simp only [nextBlock, wsect, wp_bind, wp_get, wp_set, wp_modify, wp_pure, wp_ite,
    xint_eq (word_lt _ _)]
  refine ⟨fun hw => ?_, fun hw => ?_⟩
  · rw [← hslot] at hw
    have halloc := h.alloc (hroom hw)
    rw [xint_eq (Nat.lt_trans (hroom hw) (by decide))]
    have hgrows := halloc.entry sb_ok h.held (j := ⟨j, hj⟩) rfl h0 (by rw [← hslot]; exact hw)
    refine ⟨trivial, ?_, .of_eq h hw hgrows ?_ fun b hb => update_of_ne ?_ ..⟩
    · rw [hslot, update_self]
    · refine slot_setEntry ⟨j, hj⟩ rfl h0 (Nat.lt_trans (hroom hw) (by decide)) ?_
      rw [update_self]
    · have hmem := (h.held.mem (s := .indirect) h0).2
      exact (Nat.lt_trans hmem hb).ne'
  · rw [← hslot] at hw ⊢
    exact ⟨trivial, rfl, .of_ne h hw⟩

/-- What `blockFor` leaves: the file has one block more, if it had not that one already. -/
structure NextBlock (s : St) (ip : Inode) (nb fbn x : Nat) (s' : St) (ip' : Inode) : Prop where
  block : x = slot s'.disk ip'.toDinode (fileSlot fbn)
  work : Work s' ip'
  grows : Grows sb (taken s) s.disk ip (taken s') s'.disk ip'
  exact : Exact (slot s'.disk ip'.toDinode) (fbn + 1)
  freeblock : s'.freeblock + cost nb = s.freeblock + cost (fbn + 1)
  freeinode : s'.freeinode = s.freeinode

lemma blockFor_spec (h : Work s ip) (hex : Exact (slot s.disk ip.toDinode) nb)
    (hfbn : fbn < MAXFILE) (hle : fbn ≤ nb) (hnb : nb ≤ fbn + 1)
    (hroom : s.freeblock + cost (fbn + 1) ≤ FSSIZE + cost nb) :
    wp (blockFor ip.toDinode fbn) E (fun p s' => ∃ ip', p.2 = ip'.toDinode ∧
      NextBlock s ip nb fbn p.1 s' ip') s := by
  have hpos : s.freeblock ≠ 0 := by
    have h1 := h.le
    simp only [nmeta, nlog] at h1
    omega
  have hcost : cost nb ≤ cost (fbn + 1) := by
    unfold cost
    split_ifs <;> omega
  have hblock := hex.blocks fbn hfbn
  unfold blockFor
  split_ifs with hd
  · -- A direct block.
    have hslot : fileSlot fbn = place (Fin.castSucc ⟨fbn, hd⟩) := by
      rw [fileSlot_of_lt hd, place, Fin.lastCases_castSucc]
    have hcost' : cost (fbn + 1) = fbn + 1 ∧ cost nb = nb := by
      unfold cost
      rw [if_neg (by omega), if_neg (by omega)]
      exact ⟨rfl, rfl⟩
    rw [hslot, slot_place] at hblock
    simp only [wp_bind]
    refine wp_imp (addrFor_spec h (by omega) _ fun h0 => ?_) ?_
    · have : ¬fbn < nb := fun hlt => hblock.mpr hlt h0
      omega
    · rintro d s1 ⟨ip1, rfl, h1⟩
      have hexact : Exact (slot s1.disk ip1.toDinode) (fbn + 1) := by
        rw [h1.slots, ← hslot]
        exact exact_succ hex.blocks (hex.indirect.trans (by omega)) hpos hfbn hle hnb
      have hfree := h1.freeblock
      rw [slot_place] at hfree
      have hs1 : s1.freeblock + cost nb = s.freeblock + cost (fbn + 1) := by
        split_ifs at hfree with h0
        · have : ¬fbn < nb := fun hlt => hblock.mpr hlt h0
          omega
        · have := hblock.mp h0
          omega
      have hlt := slot_lt h1.work (by omega) (fileSlot fbn)
      rw [hslot, slot_place] at hlt
      simp only [wp_pure]
      refine ⟨ip1, rfl, ?_, h1.work, h1.grows, hexact, hs1, h1.freeinode⟩
      rw [xint_eq (Nat.lt_trans hlt (by decide)), hslot, slot_place]
  · -- A block behind the indirect one, which may be new itself.
    have hj : fbn - NDIRECT < NINDIRECT := by
      simp only [MAXFILE] at hfbn
      omega
    have hslot := fileSlot_of_le (by omega) hj
    have hcost' : cost (fbn + 1) = fbn + 2 := by
      unfold cost
      rw [if_pos (by omega)]
    have hind : ip.addrs (Fin.last NDIRECT) ≠ 0 ↔ NDIRECT < nb := hex.indirect
    rw [wp_bind]
    refine wp_imp (addrFor_spec h (by omega) _ fun h0 => ?_) ?_
    · have hnot : ¬NDIRECT < nb := fun hlt => hind.mpr hlt h0
      unfold cost at hroom hcost'
      rw [if_neg hnot] at hroom
      omega
    · rintro d s1 ⟨ip1, rfl, h1⟩
      have hplace : place (Fin.last NDIRECT) = .indirect := Fin.lastCases_last
      rw [hplace] at h1
      obtain ⟨hblocks1, hind1⟩ := hex.ensure_indirect hpos
      rw [← h1.slots] at hblocks1 hind1
      have hfree1 : s1.freeblock + cost nb = s.freeblock + nb + 1 := by
        have hf := h1.freeblock
        unfold cost
        split_ifs at hf with h0 <;> split_ifs with hlt
        · exact absurd h0 (hex.indirect.mpr hlt)
        · omega
        · omega
        · exact absurd (hex.indirect.mp h0) hlt
      have hblock1 := hblocks1 fbn hfbn
      rw [hslot] at hblock1
      refine wp_imp (entryFor_spec h1.work (by omega) hj hind1 fun h0 => ?_) ?_
      · have : ¬fbn < nb := fun hlt => hblock1.mpr hlt h0
        omega
      · rintro ⟨x, d⟩ s2 ⟨hd2, hx, h2⟩
        simp only at hd2 hx
        refine ⟨ip1, hd2, by rw [hslot]; exact hx, h2.work, h1.grows.trans h2.grows, ?_, ?_,
          h2.freeinode.trans h1.freeinode⟩
        · rw [h2.slots, ← hslot]
          refine exact_succ hblocks1 (iff_of_true hind1 (by omega)) ?_ hfbn hle hnb
          have := h1.work.le
          simp only [nmeta, nlog] at this
          omega
        · have hf := h2.freeblock
          split_ifs at hf with h0
          · have : ¬fbn < nb := fun hlt => hblock1.mpr hlt h0
            omega
          · have := hblock1.mp h0
            omega

/-! ### The loop -/

/-- The file holds the bytes, in no more blocks than they need. -/
structure Holds (disk : Disk) (d : Dinode) (bs : List UInt8) : Prop where
  exact : Exact (slot disk d) (nblk bs.length)
  bytes : ∀ x < bs.length, byte disk d x = bs.getD x 0

lemma cost_mono (h : a ≤ b) : cost a ≤ cost b := by
  unfold cost
  split_ifs <;> omega

lemma nblk_mono (h : a ≤ b) : nblk a ≤ nblk b :=
  Nat.div_le_div_right (Nat.add_le_add_right h _)

lemma div_lt_nblk {n : Nat} (h : x < n) : x / BSIZE < nblk n := by
  simp only [nblk, BSIZE]
  omega

lemma Exact.backed {d : Dinode} (h : Exact (slot disk d) nb) (hx : x / BSIZE < nb)
    (hmax : x / BSIZE < MAXFILE) : Backed disk d x :=
  ⟨hmax, (h.blocks _ hmax).mpr hx⟩

/-- The file that held `cur` holds `cur'` now. -/
structure Appended (s : St) (ip : Inode) (cur : List UInt8) (s' : St) (ip' : Inode)
    (cur' : List UInt8) : Prop where
  evolves : Evolves sb (taken s) s.disk ip (taken s') s'.disk ip'
  work : Work s' ip'
  holds : Holds s'.disk ip'.toDinode cur'
  freeblock : s'.freeblock + cost (nblk cur.length) = s.freeblock + cost (nblk cur'.length)
  freeinode : s'.freeinode = s.freeinode

/-- The state after `wsect`. -/
def put (s : St) (sec : Nat) (buf : Mem) : St := { s with disk := update s.disk sec buf }

@[simp] lemma wp_wsect {buf : Mem} {Q : Unit → St → Prop} :
    wp (wsect sec buf) E Q s ↔ Q () (put s sec buf) := Iff.rfl

/-- The next bytes go into the block that `blockFor` has found. -/
lemma Appended.turn {cur1 : List UInt8} {s1 s2 : St} {ip1 ip2 : Inode}
    (h : Appended s ip cur s1 ip1 cur1) (hp : p ≠ [])
    (hmax : cur1.length + p.length ≤ MAXFILE * BSIZE)
    (hp1 : p.length ≤ (cur1.length / BSIZE + 1) * BSIZE - cur1.length)
    (h2 : NextBlock s1 ip1 (nblk cur1.length) (cur1.length / BSIZE) x s2 ip2) :
    Appended s ip cur (put s2 x ((s2.disk x).write (cur1.length - cur1.length / BSIZE * BSIZE) p))
      ip2 (cur1 ++ p) := by
  have hlen : 0 < p.length := List.length_pos_of_ne_nil hp
  set fbn := cur1.length / BSIZE with hfbn
  have hmod : fbn * BSIZE + (cur1.length - fbn * BSIZE) = cur1.length := by
    simp only [BSIZE] at hfbn ⊢
    omega
  have hlt : fbn < MAXFILE := div_lt_maxfile (by omega)
  have hne : slot s2.disk ip2.toDinode (fileSlot fbn) ≠ 0 :=
    (h2.exact.blocks fbn hlt).mpr (Nat.lt_succ_self fbn)
  have hnblk : nblk (cur1 ++ p).length = fbn + 1 := by
    rw [List.length_append]
    simp only [nblk, BSIZE] at hfbn hp1 ⊢
    omega
  have hfits : cur1.length - fbn * BSIZE + p.length ≤ BSIZE := by
    simp only [BSIZE] at hp1 hfbn ⊢
    omega
  obtain ⟨hev, hbytes⟩ := h2.work.held.writeBlock sb_ok hlt hne hfits
  rw [← h2.block, hmod] at hbytes
  rw [← h2.block] at hev
  have hslot := h2.work.held.slot_update fbn
    ((s2.disk x).write (cur1.length - fbn * BSIZE) p)
  rw [← h2.block] at hslot
  refine ⟨(h.evolves.trans h2.grows.toEvolves).trans hev, ⟨hev.held, h2.work.le, fun b hb => ?_⟩,
    ⟨?_, fun y hy => ?_⟩, ?_, h2.freeinode.trans h.freeinode⟩
  · have hxlt : x < s2.freeblock := by
      rw [h2.block]
      exact (h2.work.held.mem hne).2
    exact (update_of_ne (Nat.lt_of_lt_of_le hxlt hb).ne' ..).trans (h2.work.zero b hb)
  · rw [hnblk]
    exact hslot ▸ h2.exact
  · rw [List.length_append] at hy
    by_cases hold : y < cur1.length
    · -- The byte was there before.
      have hback := h.holds.exact.backed (div_lt_nblk hold) (div_lt_maxfile (by omega))
      have hbyte : byte s2.disk ip2.toDinode y = cur1.getD y 0 := by
        rw [h2.grows.bytes y hback, h.holds.bytes y hold]
      refine (hbytes y (h2.grows.backed hback)).trans ?_
      rw [Mem.write_apply_of_lt hold, hbyte, List.getD_append _ _ _ _ hold]
    · have hdiv : y / BSIZE = fbn := by
        simp only [BSIZE] at hp1 hfbn ⊢
        omega
      have hback : Backed s2.disk ip2.toDinode y :=
        h2.exact.backed (by rw [hdiv]; exact Nat.lt_succ_self fbn) (by rw [hdiv]; exact hlt)
      refine (hbytes y hback).trans ?_
      have hlt' : y - cur1.length < p.length := by omega
      rw [Mem.write, if_pos (Nat.not_lt.mp hold), List.getD_append_right _ _ _ _
        (Nat.not_lt.mp hold)]
      simp [List.getD_eq_getElem?_getD, hlt']
  · have h3 := h.freeblock
    have h4 := h2.freeblock
    rw [hnblk]
    simp only [put]
    omega

lemma iappendFrom_spec (k : Nat) : ∀ {cur1 p : List UInt8} {s1 : St} {ip1 : Inode},
    p.length ≤ k → Appended s ip cur s1 ip1 cur1 →
    cur1.length + p.length ≤ MAXFILE * BSIZE →
    s.freeblock + cost (nblk (cur1.length + p.length)) ≤ FSSIZE + cost (nblk cur.length) →
    wp (iappendFrom k ip1.toDinode cur1.length p) E (fun r s' =>
      r.2 = cur1.length + p.length ∧ ∃ ip', r.1 = ip'.toDinode ∧
        Appended s ip cur s' ip' (cur1 ++ p)) s1 := by
  induction k with
  | zero =>
    intro cur1 p s1 ip1 hk h _ _
    obtain rfl : p = [] := List.length_eq_zero_iff.mp (by omega)
    exact ⟨rfl, ip1, rfl, by rwa [List.append_nil]⟩
  | succ k ih =>
    intro cur1 p s1 ip1 hk h hmax hroom
    rw [iappendFrom]
    split_ifs with hp
    · have hfbn : cur1.length / BSIZE < MAXFILE := div_lt_maxfile (by omega)
      set fbn := cur1.length / BSIZE with hfbn'
      set n1 := min p.length ((fbn + 1) * BSIZE - cur1.length) with hn1
      have hpos : 0 < n1 := by
        simp only [BSIZE] at hfbn' hn1
        omega
      have hle1 : n1 ≤ p.length := Nat.min_le_left ..
      have hle2 : n1 ≤ (fbn + 1) * BSIZE - cur1.length := Nat.min_le_right ..
      have hlen : (p.take n1).length = n1 := by
        rw [List.length_take]
        exact min_eq_left hle1
      have hne : p.take n1 ≠ [] := by
        rw [ne_eq, ← List.length_eq_zero_iff, hlen]
        exact hpos.ne'
      have hfree := h.freeblock
      have hnb : fbn ≤ nblk cur1.length ∧ nblk cur1.length ≤ fbn + 1 := by
        simp only [nblk, BSIZE] at hfbn' ⊢
        omega
      have hcost : cost (fbn + 1) ≤ cost (nblk (cur1.length + p.length)) := by
        refine cost_mono ?_
        simp only [nblk, BSIZE] at hfbn' ⊢
        omega
      have hle : s1.freeblock ≤ FSSIZE := by
        have := cost_mono (nblk_mono (Nat.le_add_right cur1.length p.length))
        omega
      rw [if_neg (Nat.not_le.mpr hfbn)]
      simp only [wp_bind]
      refine wp_imp (blockFor_spec h.work h.holds.exact hfbn hnb.1 hnb.2 (by omega)) ?_
      rintro ⟨x, d⟩ s2 ⟨ip2, hd, h2⟩
      simp only at hd h2
      subst hd
      have hx : x < FSSIZE := by
        have hf2 := h2.freeblock
        rw [h2.block]
        exact slot_lt h2.work (by omega) _
      refine wp_rsect hx ?_
      rw [wp_wsect]
      have h3 := h.turn hne (by rw [hlen]; omega) (by rw [hlen]; exact hle2) h2
      have hsum : (cur1 ++ p.take n1).length + (p.drop n1).length = cur1.length + p.length := by
        rw [List.length_append, hlen, List.length_drop]
        omega
      have hrest := ih (p := p.drop n1) (by rw [List.length_drop]; omega) h3
        (by rw [hsum]; exact hmax)
        (by rw [hsum]; exact hroom)
      rw [hsum, List.append_assoc, List.take_append_drop, List.length_append, hlen] at hrest
      exact hrest
    · obtain rfl : p = [] := List.length_eq_zero_iff.mp (by omega)
      exact ⟨rfl, ip1, rfl, by rwa [List.append_nil]⟩

end Xv6.Blocks.Mkfs
