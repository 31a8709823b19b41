import Xv6.Blocks.Content

/-!
# Writing to a file

The loop of `writei` writes its source into the content, block by block, until all is written, the
disk is full or the source cannot be read. What it has then written is written back with the inode.
-/

namespace Xv6.Blocks

open Function Lib

variable {sb : Superblock} {s s1 s2 : Buffers} {ip ip1 ip2 : Inode} {off : Nat}
  {bs : List UInt8} {E : Panic → Prop} {src : Source} {n : Nat} {disk : Disk} {s0 : Buffers}

/-- The bytes `bs` have been written at `off`. -/
structure Wrote (sb : Superblock) (s : Buffers) (ip : Inode) (off : Nat) (bs : List UInt8)
    (s' : Buffers) (ip' : Inode) : Prop where
  evolves : Evolves sb (used sb s.data) s.data ip (used sb s'.data) s'.data ip'
  marked : MetaMarked sb s'.data
  bytes : ∀ x, Backed s.data ip.toDinode x ∨ (off ≤ x ∧ x < off + bs.length) →
    Backed s'.data ip'.toDinode x ∧
      byte s'.data ip'.toDinode x = (byte s.data ip.toDinode).write off bs x

lemma Wrote.nil (h : Open sb s ip) (off : Nat) : Wrote sb s ip off [] s ip where
  evolves := .refl h.held
  marked := h.marked
  bytes x hx := by
    rcases hx with hx | ⟨h1, h2⟩
    · simp [hx]
    · rw [List.length_nil] at h2
      omega

lemma Wrote.isOpen (h : Wrote sb s ip off bs s1 ip1) : Open sb s1 ip1 :=
  ⟨h.evolves.held, h.marked⟩

/-- Then blocks are allocated. -/
lemma Wrote.grow (h : Wrote sb s ip off bs s1 ip1)
    (hg : Grows sb (used sb s1.data) s1.data ip1 (used sb s2.data) s2.data ip2)
    (hm : MetaMarked sb s2.data) : Wrote sb s ip off bs s2 ip2 where
  evolves := h.evolves.trans hg.toEvolves
  marked := hm
  bytes x hx := by
    obtain ⟨h1, h2⟩ := h.bytes x hx
    exact ⟨hg.backed h1, by rw [hg.bytes x h1, h2]⟩

/-- Then the next bytes are written into the block that they belong to. -/
lemma Wrote.write (h : Wrote sb s ip off bs s1 ip1) (hsb : sb.Ok) {cs : List UInt8}
    (hlt : off + bs.length < MAXFILE * BSIZE)
    (h0 : slot s1.data ip1.toDinode (fileSlot ((off + bs.length) / BSIZE)) ≠ 0)
    (hcs : (off + bs.length) % BSIZE + cs.length ≤ BSIZE)
    (hdata : s2.data = update s1.data
      (slot s1.data ip1.toDinode (fileSlot ((off + bs.length) / BSIZE)))
      ((s1.data (slot s1.data ip1.toDinode (fileSlot ((off + bs.length) / BSIZE)))).write
        ((off + bs.length) % BSIZE) cs)) :
    Wrote sb s ip off (bs ++ cs) s2 ip1 := by
  have hbn : (off + bs.length) / BSIZE < MAXFILE := div_lt_maxfile hlt
  obtain ⟨hev, hbytes⟩ := h.evolves.held.writeBlock hsb hbn h0 hcs
  rw [← hdata] at hev hbytes
  have hpos : (off + bs.length) / BSIZE * BSIZE + (off + bs.length) % BSIZE = off + bs.length := by
    rw [Nat.mul_comm]
    exact Nat.div_add_mod ..
  rw [hpos] at hbytes
  have hmap : ∀ c, sb.bmapstart ≤ c → c < sb.datastart → s2.data c = s1.data c := by
    intro c _ hc
    have h1 := (h.evolves.held.data _ (h.evolves.held.mem h0)).1
    rw [hdata]
    exact update_of_ne (by omega) ..
  rw [← used_congr hsb hmap] at hev
  refine ⟨?_, h.marked.congr hsb hmap, fun x hx => ?_⟩
  · have h1 := h.evolves
    rw [← used_congr hsb hmap] at h1
    exact h1.trans hev
  · rw [List.length_append] at hx
    -- The byte is in a block that was there before these were written.
    have hback : Backed s1.data ip1.toDinode x ∧ ((Backed s.data ip.toDinode x ∨
        (off ≤ x ∧ x < off + bs.length)) ∨ off + bs.length ≤ x) := by
      by_cases hold : Backed s.data ip.toDinode x ∨ (off ≤ x ∧ x < off + bs.length)
      · exact ⟨(h.bytes x hold).1, .inl hold⟩
      · have hx' : off + bs.length ≤ x ∧ x < off + bs.length + cs.length := by
          rcases hx with hx | hx
          · exact absurd (.inl hx) hold
          · refine ⟨?_, by omega⟩
            by_contra hlt
            exact hold (.inr ⟨hx.1, by omega⟩)
        have hdiv : x / BSIZE = (off + bs.length) / BSIZE := by
          simp only [BSIZE] at hcs ⊢
          omega
        exact ⟨⟨by rw [hdiv]; exact hbn, by rw [hdiv]; exact h0⟩, .inr hx'.1⟩
    refine ⟨hev.backed hback.1, ?_⟩
    rw [hbytes x hback.1, Mem.write_append]
    rcases hback.2 with hold | hge
    · exact Mem.write_apply_congr (h.bytes x hold).2 ..
    · by_cases hin : x < off + bs.length + cs.length
      · have hidx : x - (off + bs.length) < cs.length := by omega
        simp [Mem.write, hge, hidx]
      · have hold : Backed s.data ip.toDinode x ∨ (off ≤ x ∧ x < off + bs.length) := by
          rcases hx with hx | hx
          · exact .inl hx
          · omega
        rw [Mem.write_apply_of_le (by omega), Mem.write_apply_of_le (by omega)]
        exact (h.bytes x hold).2

/-- The bytes that the next turn of the loop takes. -/
def turn (off n tot : Nat) : Nat := min (n - tot) (BSIZE - (off + tot) % BSIZE)

/-- `tot` bytes have been written in whole turns. -/
inductive Reached (src : Source) (off n : Nat) : Nat → Prop where
  | start : Reached src off n 0
  | turn {tot : Nat} (h : Reached src off n tot) (hlt : tot < n)
      (hok : src.copied tot (turn off n tot) = turn off n tot) :
      Reached src off n (tot + turn off n tot)

/-- Turns end with a block or with the source. -/
lemma Reached.aligned {tot : Nat} (h : Reached src off n tot) :
    tot = 0 ∨ (off + tot) % BSIZE = 0 ∨ tot = n := by
  induction h with
  | start => exact .inl rfl
  | @turn tot _ hlt _ _ =>
    have hmod : (off + tot) % BSIZE < BSIZE := Nat.mod_lt _ (by decide)
    have hturn : Blocks.turn off n tot = min (n - tot) (BSIZE - (off + tot) % BSIZE) := rfl
    simp only [BSIZE] at hmod hturn ⊢
    omega

/-- Why the loop ended: all is written; the disk is full, and the file had no block here; or
`either_copyin` failed, having brought `e` bytes. -/
inductive Stopped (sb : Superblock) (s : Buffers) (ip : Inode) (src : Source) (off n tot e : Nat)
    (disk : Disk) : Prop where
  | all (htot : tot = n) (he : e = 0)
  | full (htot : tot < n) (he : e = 0) (hfull : DiskFull sb disk)
      (hhole : ¬Backed s.data ip.toDinode (off + tot))
  | fault (htot : tot < n) (he : src.copied tot (turn off n tot) = e) (hlt : e < turn off n tot)

/-! ### What is given to the log -/

/-- `tot` bytes have been written. Of the blocks in use, those of these bytes and the indirect one
may have been given to the log. -/
def LoopGiven (sb : Superblock) (s : Buffers) (ip : Inode) (off tot : Nat) (s1 : Buffers) : Prop :=
  ∃ W, Given sb s W s1 ∧ ∀ c ∈ W, c ∈ used sb s.data → c = slot s.data ip.toDinode .indirect ∨
    ∃ x, off ≤ x ∧ x < off + tot ∧ c = slot s.data ip.toDinode (fileSlot (x / BSIZE))

namespace LoopGiven

variable {tot : Nat} {W : Set Nat}

section

variable (h : LoopGiven sb s ip off tot s1)
include h

lemma clean (hs : s.Clean) : s1.Clean := by
  obtain ⟨W, hgiven, -⟩ := h
  exact hgiven.clean hs

lemma grow (hw : Wrote sb s ip off bs s1 ip1) (hg : Given sb s1 W s2)
    (hW : ∀ c ∈ W, c ∈ used sb s1.data → c = slot s1.data ip1.toDinode .indirect) :
    LoopGiven sb s ip off tot s2 := by
  obtain ⟨W₁, hgiven, hW₁⟩ := h
  refine ⟨_, hgiven.trans hg, ?_⟩
  rintro c (hc | hc) hmem
  · exact hW₁ c hc hmem
  · have hind := hW c hc (hw.evolves.mono hmem)
    rw [hind] at hmem
    exact .inl (hind.trans (hw.evolves.slot_of_mem hmem))

lemma write {k : Nat} {m : Mem} (hw : Wrote sb s ip off bs s1 ip1) (hk : 0 < k)
    (hu : used sb (s1.write (slot s1.data ip1.toDinode (fileSlot ((off + tot) / BSIZE))) m).data =
      used sb s1.data) : LoopGiven sb s ip off (tot + k)
      (s1.write (slot s1.data ip1.toDinode (fileSlot ((off + tot) / BSIZE))) m) := by
  obtain ⟨W, hgiven, hW⟩ := h
  refine ⟨_, hgiven.write hu, ?_⟩
  rintro c (hc | rfl) hmem
  · refine (hW c hc hmem).imp_right ?_
    rintro ⟨x, h1, h2, h3⟩
    exact ⟨x, h1, by omega, h3⟩
  · exact .inr ⟨off + tot, by omega, by omega, hw.evolves.slot_of_mem hmem⟩

/-- The block that comes next is in the log if it was or if it is new. -/
lemma logged_iff (hopen : Open sb s ip) (hw : Wrote sb s ip off bs s1 ip1)
    (hlt : off + tot < MAXFILE * BSIZE) (hal : tot = 0 ∨ (off + tot) % BSIZE = 0)
    (h0 : slot s1.data ip1.toDinode (fileSlot ((off + tot) / BSIZE)) ≠ 0) :
    s1.logged (slot s1.data ip1.toDinode (fileSlot ((off + tot) / BSIZE))) = false ↔
      slot s.data ip.toDinode (fileSlot ((off + tot) / BSIZE)) ≠ 0 ∧
        s.logged (slot s.data ip.toDinode (fileSlot ((off + tot) / BSIZE))) = false := by
  obtain ⟨W, hgiven, hW⟩ := h
  rw [← Bool.not_eq_true, hgiven.logged, not_or, Bool.not_eq_true]
  by_cases hold : slot s.data ip.toDinode (fileSlot ((off + tot) / BSIZE)) = 0
  · refine iff_of_false (fun hno => hno.2 ?_) fun hc => hc.1 hold
    exact (hgiven.taken _ (hw.evolves.held.mem h0)).resolve_left (hw.evolves.fresh _ hold)
  · rw [hw.evolves.slots _ hold]
    refine ⟨fun hc => ⟨hold, hc.1⟩, fun hc => ⟨hc.2, fun hmem => ?_⟩⟩
    -- No other place of the inode has this block.
    rcases hW _ hmem (hopen.held.mem hold) with heq | ⟨x, h1, h2, heq⟩
    · exact fileSlot_ne_indirect _ (hopen.held.eq_of_eq hold heq)
    · have hbn : (off + tot) / BSIZE < MAXFILE := div_lt_maxfile hlt
      have hxn : x / BSIZE < MAXFILE := div_lt_maxfile (by omega)
      have hblock := fileSlot_injective hbn hxn (hopen.held.eq_of_eq hold heq)
      simp only [BSIZE] at hal hblock
      omega

end

end LoopGiven

/-- The bytes that were brought and not counted are what is there already, wherever the file has a
block that is not in the log. -/
def StraySynced (s : Buffers) (ip : Inode) (src : Source) (off tot e : Nat) : Prop :=
  ∀ x, off + tot ≤ x → x < off + (tot + e) → Backed s.data ip.toDinode x →
    s.logged (slot s.data ip.toDinode (fileSlot (x / BSIZE))) = false →
      byte s.data ip.toDinode x = src.bytes (x - off)

lemma straySynced_zero {tot : Nat} : StraySynced s ip src off tot 0 :=
  fun x h1 h2 => by omega

/-- A buffer that is changed and not given to the log. -/
lemma LoopGiven.synced_touch {tot e : Nat} (h : LoopGiven sb s ip off tot s1) (hs : s.Clean)
    (hopen : Open sb s ip) (hw : Wrote sb s ip off (src.bytes.read 0 tot) s1 ip1)
    (hlt : off + tot < MAXFILE * BSIZE) (hal : tot = 0 ∨ (off + tot) % BSIZE = 0)
    (h0 : slot s1.data ip1.toDinode (fileSlot ((off + tot) / BSIZE)) ≠ 0)
    (he : (off + tot) % BSIZE + e ≤ BSIZE) :
    let a := slot s1.data ip1.toDinode (fileSlot ((off + tot) / BSIZE))
    (s1.touch a ((s1.data a).write ((off + tot) % BSIZE) (src.bytes.read tot e))).Synced ↔
      StraySynced s ip src off tot e := by
  intro a
  have hlog := h.logged_iff hopen hw hlt hal h0
  -- The bytes are those of one block, and were there before.
  have hbyte : ∀ x, off + tot ≤ x → x < off + (tot + e) → x / BSIZE = (off + tot) / BSIZE ∧
      (Backed s.data ip.toDinode x →
        byte s.data ip.toDinode x = s1.data a ((off + tot) % BSIZE + (x - (off + tot)))) := by
    intro x h1 h2
    have hdiv : x / BSIZE = (off + tot) / BSIZE ∧
        x % BSIZE = (off + tot) % BSIZE + (x - (off + tot)) := by
      simp only [BSIZE] at he ⊢
      omega
    refine ⟨hdiv.1, fun hback => ?_⟩
    have hsame := (hw.bytes x (.inl hback)).2
    rw [Mem.write_apply_of_le (by rw [Mem.length_read]; exact h1)] at hsame
    rw [← hsame, byte, hdiv.1, hdiv.2]
  rw [(h.clean hs).synced_touch, Mem.write_read_eq_iff]
  constructor
  · intro hor x h1 h2 hback hx
    obtain ⟨hdiv, hval⟩ := hbyte x h1 h2
    rw [hdiv] at hx
    have hfalse := hlog.mpr ⟨hdiv ▸ hback.2, hx⟩
    have hagree := hor.resolve_left (by rw [hfalse]; simp)
    rw [hval hback, ← hagree _ (by omega)]
    congr 1
    omega
  · intro hstray
    rw [or_iff_not_imp_left, Bool.not_eq_true]
    intro hfalse j hj
    obtain ⟨hne, hunlogged⟩ := hlog.mp hfalse
    obtain ⟨hdiv, hval⟩ := hbyte (off + tot + j) (by omega) (by omega)
    have hback : Backed s.data ip.toDinode (off + tot + j) :=
      ⟨hdiv ▸ div_lt_maxfile hlt, by rw [hdiv]; exact hne⟩
    have hsame := hstray (off + tot + j) (by omega) (by omega) hback (by rw [hdiv]; exact hunlogged)
    rw [hval hback, Nat.add_sub_cancel_left] at hsame
    rw [hsame]
    congr 1
    omega

/-! ### The loop -/

/-- The result of the loop. `s0` is the state without the bytes that were brought last, if
`either_copyin` failed. -/
structure Looped (sb : Superblock) (s : Buffers) (ip : Inode) (src : Source) (off n tot : Nat)
    (s' : Buffers) (ip' : Inode) (e : Nat) (s0 : Buffers) : Prop where
  le : tot ≤ n
  reached : Reached src off n tot
  stopped : Stopped sb s ip src off n tot e s'.data
  wrote : Wrote sb s ip off (src.bytes.read 0 (tot + e)) s' ip'
  counted : Wrote sb s ip off (src.bytes.read 0 tot) s0 ip'
  touched : s.Clean → Touched sb s' s0
  synced : s.Clean → (s'.Synced ↔ StraySynced s ip src off tot e)

lemma writeiFrom_spec (hsb : sb.Ok) (hopen : Open sb s ip) (hn : off + n ≤ MAXFILE * BSIZE)
    (k : Nat) : ∀ {s1 : Buffers} {ip1 : Inode} {tot : Nat},
      n ≤ tot + k → tot ≤ n →
      Reached src off n tot → Wrote sb s ip off (src.bytes.read 0 tot) s1 ip1 →
      LoopGiven sb s ip off tot s1 →
      wp (writeiFrom sb src n k ip1 (off + tot) tot) E (fun p s' => p.2.1 = off + p.1 ∧
        ∃ e s0, Looped sb s ip src off n p.1 s' p.2.2 e s0) s1 := by
  -- The loop ends with all written when `tot` has come to `n`.
  have hdone : ∀ {s1 : Buffers} {ip1 : Inode} {tot : Nat}, n ≤ tot → tot ≤ n →
      Reached src off n tot → Wrote sb s ip off (src.bytes.read 0 tot) s1 ip1 →
      LoopGiven sb s ip off tot s1 → off + tot = off + tot ∧
        ∃ e s0, Looped sb s ip src off n tot s1 ip1 e s0 := by
    intro s1 ip1 tot hge hle hreach h hgiven
    exact ⟨rfl, 0, s1, hle, hreach, .all (by omega) rfl, h, h,
      fun hc => ⟨hgiven.clean hc, .inl rfl⟩,
      fun hc => iff_of_true (hgiven.clean hc).synced straySynced_zero⟩
  induction k with
  | zero =>
    intro s1 ip1 tot hk hle hreach h hgiven
    exact hdone hk hle hreach h hgiven
  | succ k ih =>
    intro s1 ip1 tot hk hle hreach h hgiven
    rw [writeiFrom]
    split_ifs with hlt
    · have hmod : (off + tot) % BSIZE < BSIZE := Nat.mod_lt _ (by decide)
      have hbn : (off + tot) / BSIZE < MAXFILE := div_lt_maxfile (by omega)
      have hlen : (src.bytes.read 0 tot).length = tot := by simp
      simp only [wp_bind]
      refine wp_imp (bmap_spec hsb h.isOpen hbn) ?_
      rintro ⟨addr, ip2⟩ s2 ⟨hg, hm, haddr, hfull, W, hW⟩
      simp only at hg haddr hfull ⊢
      have h2 := h.grow hg hm
      have hgiven2 := hgiven.grow h hW.1 hW.2
      simp only [wp_ite]
      refine ⟨fun h0 => ?_, fun h0 => ?_⟩
      · refine ⟨rfl, 0, s2, hle, hreach, .full hlt rfl (hfull h0) fun hx => ?_, h2, h2,
          fun hc => ⟨hgiven2.clean hc, .inl rfl⟩,
          fun hc => iff_of_true (hgiven2.clean hc).synced straySynced_zero⟩
        exact (h2.bytes _ (.inl hx)).1.2 (haddr.symm.trans h0)
      · -- `cs` are the bytes that reach the buffer
        let cs := src.bytes.read tot (src.copied tot (turn off n tot))
        have hcsle := src.copied_le tot (turn off n tot)
        have hturn : turn off n tot ≤ BSIZE - (off + tot) % BSIZE := Nat.min_le_right ..
        have hcslen : (off + tot) % BSIZE + cs.length ≤ BSIZE := by
          have h1 : cs.length = src.copied tot (turn off n tot) := by simp [cs]
          omega
        have hwrote : ∀ s3 : Buffers, s3.data = update s2.data addr
            ((s2.data addr).write ((off + tot) % BSIZE) cs) →
            Wrote sb s ip off
              (src.bytes.read 0 (tot + src.copied tot (turn off n tot))) s3 ip2 := by
          intro s3 hs3
          have hwr : Wrote sb s ip off (src.bytes.read 0 tot ++ cs) s3 ip2 :=
            h2.write hsb (by rw [hlen]; omega) (by rw [hlen, ← haddr]; exact h0)
              (by rw [hlen]; exact hcslen) (by rw [hlen, ← haddr]; exact hs3)
          rw [Mem.read_append, Nat.zero_add]
          exact hwr
        have h0' : slot s2.data ip2.toDinode (fileSlot ((off + tot) / BSIZE)) ≠ 0 := haddr ▸ h0
        have hdata := (h2.evolves.held.data _ (h2.evolves.held.mem h0')).1
        simp only [bread, logWrite, wp_bind, wp_get, wp_pure, wp_ite, wp_modify]
        refine ⟨fun hok => ?_, fun hfail => ?_⟩
        · have h3 := hwrote
            (s2.write addr ((s2.data addr).write ((off + tot) % BSIZE) cs)) rfl
          change src.copied tot (turn off n tot) = turn off n tot at hok
          rw [hok] at h3
          have hpos : 0 < turn off n tot := by
            unfold turn
            omega
          have htle : turn off n tot ≤ n - tot := Nat.min_le_left ..
          have hgiven3 := hgiven2.write (m := (s2.data addr).write ((off + tot) % BSIZE) cs) h2 hpos
            (used_congr hsb fun c _ hc => update_of_ne (by omega) ..)
          rw [← haddr] at hgiven3
          have h4 := ih (by omega) (by omega) (hreach.turn hlt hok) h3 hgiven3
          rw [← Nat.add_assoc] at h4
          exact h4
        · have hal : tot = 0 ∨ (off + tot) % BSIZE = 0 := by
            have := hreach.aligned
            omega
          have hsynced := fun hc => hgiven2.synced_touch hc hopen h2 (by omega) hal h0'
            (e := src.copied tot (turn off n tot)) (by omega)
          rw [← haddr] at hdata hsynced
          refine ⟨trivial, src.copied tot (turn off n tot), s2, hle, hreach, .fault hlt rfl ?_,
            hwrote (s2.touch addr ((s2.data addr).write ((off + tot) % BSIZE) cs)) rfl, h2,
            fun hc => ⟨hgiven2.clean hc, .inr ⟨addr, _, hdata, rfl⟩⟩, hsynced⟩
          exact Nat.lt_of_le_of_ne hcsle hfail
    · exact hdone (by omega) hle hreach h hgiven

/-! ### Writing the inode back -/

/-- The state after `iupdate`. -/
def Buffers.putInode (s : Buffers) (sb : Superblock) (ip : Inode) : Buffers :=
  s.write (sb.IBLOCK ip.inum)
    (ip.toDinode.store (s.data (sb.IBLOCK ip.inum)) (ip.inum % IPB * DINODE))

@[simp] lemma Buffers.data_putInode (s : Buffers) (sb : Superblock) (ip : Inode) :
    (s.putInode sb ip).data = putDinode sb s.data ip.inum ip.toDinode := rfl

@[simp] lemma wp_iupdate {Q : Unit → Buffers → Prop} :
    wp (iupdate sb ip) E Q s ↔ Q () (s.putInode sb ip) := Iff.rfl

/-- The addresses of an inode are those of blocks. -/
lemma Open.fits (h : Open sb s ip) (hsb : sb.Ok) (i : Fin (NDIRECT + 1)) :
    ip.addrs i < 2 ^ 32 := by
  have hslot : ∀ t, slot s.data ip.toDinode t < 2 ^ 32 := by
    intro t
    by_cases h0 : slot s.data ip.toDinode t = 0
    · rw [h0]
      exact Nat.two_pow_pos 32
    · exact Nat.lt_trans (h.held.data _ (h.held.mem h0)).2 hsb.size_lt
  cases i using Fin.lastCases with
  | last => exact hslot .indirect
  | cast j => exact hslot (.direct j)

/-- What leaves the blocks in use alone leaves the content alone. -/
lemma Held.own_congr {used : Set Nat} {disk' : Disk} {d : Dinode} {i : Nat}
    (h : Held sb used disk i (slot disk d)) (hsame : ∀ b ∈ used, disk' b = disk b) :
    slot disk' d = slot disk d ∧
      ∀ x, Backed disk d x → Backed disk' d x ∧ byte disk' d x = byte disk d x := by
  have hslot : slot disk' d = slot disk d :=
    slot_congr fun h0 => hsame _ (h.mem (s := .indirect) h0)
  refine ⟨hslot, fun x hx => ⟨⟨hx.1, by rw [hslot]; exact hx.2⟩, ?_⟩⟩
  unfold byte
  rw [hslot, hsame _ (h.mem hx.2)]

/-- What a write has left: `bs` are the bytes that reached the content, of which the first `tot` are
accounted for. -/
structure Written (sb : Superblock) (s : Buffers) (ip : Inode) (off tot : Nat) (bs : List UInt8)
    (s' : Buffers) (ip' : Inode) : Prop where
  booked : Booked sb (used sb s'.data) s'.data
  marked : MetaMarked sb s'.data
  inode_eq : dinode sb s'.data ip.inum = ip'.toDinode
  rest : ip' = { ip with addrs := ip'.addrs, size := max ip.size (off + tot) }
  noHoles : NoHoles s'.data ip'.toDinode
  bytes : ∀ x < max ip.size (off + tot),
    byte s'.data ip'.toDinode x = (byte s.data ip.toDinode).write off bs x
  others : ∀ k ≠ ip.inum, SameFile sb s.data s'.data k

/-- An inode that is in use, as `ilock` has read it. -/
structure Loaded (sb : Superblock) (s : Buffers) (ip : Inode) : Prop extends Open sb s ip where
  inum : 0 < ip.inum ∧ ip.inum < sb.ninodes
  fields : ip.Fits
  type : ip.type ≠ 0

lemma Loaded.written (h : Loaded sb s ip) (hsb : sb.Ok) (hno : NoHoles s.data ip.toDinode)
    {tot : Nat} (hoff : off ≤ ip.size) (hn : off + n ≤ MAXFILE * BSIZE) (htot : tot ≤ n)
    (hbs : tot ≤ bs.length) (hw : Wrote sb s ip off bs s1 ip1) :
    let ip2 := if ip1.size < off + tot then ip1.setSize (off + tot) else ip1
    Written sb s ip off tot bs (s1.putInode sb ip2) ip2 := by
  intro ip2
  have hsize : ip2.size = max ip.size (off + tot) := by
    simp only [ip2]
    rw [hw.evolves.size_eq]
    split_ifs with hlt
    · simp only [Inode.setSize]
      omega
    · rw [hw.evolves.size_eq]
      omega
  have haddrs : ip2.addrs = ip1.addrs := by
    simp only [ip2]
    split_ifs <;> rfl
  have hrest : ip2 = { ip with addrs := ip2.addrs, size := max ip.size (off + tot) } := by
    rw [haddrs, ← hsize]
    simp only [ip2]
    have h1 := hw.evolves.rest
    split_ifs
    · rw [Inode.setSize, h1]
    · rw [h1]
  have hinum : ip2.inum = ip.inum := by rw [hrest]
  have hslot : slot s1.data ip2.toDinode = slot s1.data ip1.toDinode := by
    simp only [ip2]
    split_ifs <;> rfl
  have hmax : max ip.size (off + tot) ≤ MAXFILE * BSIZE := by
    have := hno.le
    omega
  have hfits : ip2.toDinode.Fits := by
    have ha := hw.isOpen.fits hsb
    have hf := h.fields
    rw [hrest]
    refine ⟨hf.type, hf.major, hf.minor, hf.nlink, ?_, fun i => ?_⟩
    · exact Nat.lt_of_le_of_lt hmax (by decide)
    · rw [haddrs]
      exact ha i
  have htype : ip2.type ≠ 0 := by
    rw [hrest]
    exact h.type
  have hheld : Held sb (used sb s1.data) s1.data ip.inum (slot s1.data ip2.toDinode) := by
    rw [hslot, ← hw.evolves.inum_eq]
    exact hw.evolves.held
  have hsame : ∀ b, sb.bmapstart ≤ b → (s1.putInode sb ip2).data b = s1.data b := by
    intro b hb
    have h1 := hsb.iblock_lt h.inum.2
    rw [Buffers.data_putInode, hinum]
    exact putDinode_apply_of_ne (by omega)
  have hmap : ∀ b, sb.bmapstart ≤ b → b < sb.datastart →
      (s1.putInode sb ip2).data b = s1.data b := fun b hb _ => hsame b hb
  have hblocks : ∀ b ∈ used sb s1.data, (s1.putInode sb ip2).data b = s1.data b := by
    intro b hb
    have h1 := (hheld.data b hb).1
    have h2 := hsb.bmapstart_lt
    exact hsame b (by omega)
  obtain ⟨hslot', hown⟩ := hheld.own_congr hblocks
  -- A byte below the new size has a block, and what was written is there.
  have hbyte : ∀ x < max ip.size (off + tot), Backed s1.data ip2.toDinode x ∧
      byte s1.data ip2.toDinode x = (byte s.data ip.toDinode).write off bs x := by
    intro x hx
    have h1 : Backed s.data ip.toDinode x ∨ (off ≤ x ∧ x < off + bs.length) := by
      by_cases hlt : x < ip.size
      · exact .inl (hno.backed x hlt)
      · exact .inr ⟨by omega, by omega⟩
    obtain ⟨h2, h3⟩ := hw.bytes x h1
    refine ⟨⟨h2.1, by rw [hslot]; exact h2.2⟩, ?_⟩
    rw [← h3]
    unfold byte
    rw [hslot]
  refine ⟨?_, hw.marked.congr hsb hmap, ?_, hrest, ⟨?_, fun x hx => ?_⟩, fun x hx => ?_, ?_⟩
  · rw [used_congr hsb hmap, Buffers.data_putInode, hinum]
    exact hheld.putDinode hsb h.inum hfits (by rw [if_pos htype])
  · rw [Buffers.data_putInode, hinum]
    exact dinode_putDinode hfits
  · rw [hsize]
    exact hmax
  · rw [hsize] at hx
    exact (hown x (hbyte x hx).1).1
  · rw [(hown x (hbyte x hx).1).2]
    exact (hbyte x hx).2
  · intro k hk
    refine (h.held.sameFile hsb hw.evolves.low hw.evolves.foreign hk).trans ?_
    rw [Buffers.data_putInode, hinum]
    exact hheld.sameFile_putDinode hsb h.inum.2 hk

/-- Writing the inode back does not touch the map. -/
lemma DiskFull.putInode (h : DiskFull sb s.data) (hsb : sb.Ok) (hip : ip.inum < sb.ninodes)
    (hdisk : disk = (s.putInode sb ip).data) : DiskFull sb disk := by
  intro c hc
  rw [← h c hc, hdisk]
  refine bit_congr (putDinode_apply_of_ne ?_)
  have h1 := hsb.iblock_lt hip
  have h2 := sb.bmapstart_le_bblock c
  omega

lemma Touched.putInode (h : Touched sb s s0) (hsb : sb.Ok) (hip : ip.inum < sb.ninodes) :
    Touched sb (s.putInode sb ip) (s0.putInode sb ip) := by
  obtain ⟨hclean, rfl | ⟨b, m, hb, rfl⟩⟩ := h
  · exact ⟨(Buffers.gives_write ..).clean hclean, .inl rfl⟩
  · have hne : sb.IBLOCK ip.inum ≠ b := by
      have h1 := hsb.iblock_lt hip
      have h2 := hsb.bmapstart_lt
      omega
    refine ⟨(Buffers.gives_write ..).clean hclean, .inr ⟨b, m, hb, ?_⟩⟩
    simp only [Buffers.putInode, Buffers.write, Buffers.touch, update_of_ne hne,
      update_of_ne hne.symm, update_comm hne]
    split_ifs <;> rfl

lemma Touched.synced_putInode (h : Touched sb s s0) (hsb : sb.Ok) (hip : ip.inum < sb.ninodes) :
    (s.putInode sb ip).Synced ↔ s.Synced := by
  refine Buffers.synced_write ?_
  obtain ⟨hclean, rfl | ⟨b, m, hb, rfl⟩⟩ := h
  · exact congrFun hclean.symm _
  · have hne : sb.IBLOCK ip.inum ≠ b := by
      have h1 := hsb.iblock_lt hip
      have h2 := hsb.bmapstart_lt
      omega
    have hhome : s0.home = s0.data := hclean
    simp only [Buffers.touch, update_of_ne hne, hhome]
    split_ifs
    · rw [update_of_ne hne]
    · rfl

/-- What `writei` returns. -/
structure WriteResult (sb : Superblock) (s : Buffers) (ip : Inode) (src : Source) (off n tot : Nat)
    (s' : Buffers) (ip' : Inode) (e : Nat) (s0 : Buffers) : Prop where
  le : tot ≤ n
  reached : Reached src off n tot
  stopped : Stopped sb s ip src off n tot e s'.data
  written : Written sb s ip off tot (src.bytes.read 0 (tot + e)) s' ip'
  counted : Written sb s ip off tot (src.bytes.read 0 tot) s0 ip'
  touched : s.Clean → Touched sb s' s0
  synced : s.Clean → (s'.Synced ↔ StraySynced s ip src off tot e)

lemma writei_spec (hsb : sb.Ok) (h : Loaded sb s ip) (hno : NoHoles s.data ip.toDinode)
    (hoff : off ≤ ip.size) (hn : off + n ≤ MAXFILE * BSIZE) :
    wp (writei sb ip src off n) E (fun p s' => ∃ tot e s0, p.1 = some tot ∧
      WriteResult sb s ip src off n tot s' p.2 e s0) s := by
  have hlt : off + n < 2 ^ 32 := Nat.lt_of_le_of_lt hn (by decide)
  unfold writei
  rw [Nat.mod_eq_of_lt hlt, if_neg (by omega), if_neg (by omega)]
  simp only [wp_bind]
  have hloop : wp (writeiFrom sb src n n ip (off + 0) 0) E (fun p s' => p.2.1 = off + p.1 ∧
      ∃ e s0, Looped sb s ip src off n p.1 s' p.2.2 e s0) s :=
    writeiFrom_spec hsb h.toOpen hn n (by omega) (Nat.zero_le n) .start (.nil h.toOpen off)
      ⟨∅, .refl s, by simp⟩
  rw [Nat.add_zero] at hloop
  refine wp_imp hloop ?_
  rintro ⟨tot, off', ip1⟩ s1 ⟨hoff', e, s0, hl⟩
  simp only at hoff' hl
  subst hoff'
  simp only [wp_pure, wp_iupdate]
  set ip2 := if ip1.size < off + tot then ip1.setSize (off + tot) else ip1 with hip2
  have hinum : ip2.inum < sb.ninodes := by
    have h1 : ip1.inum < sb.ninodes := hl.wrote.evolves.inum_eq ▸ h.inum.2
    rw [hip2]
    split_ifs
    · exact h1
    · exact h1
  refine ⟨tot, e, s0.putInode sb ip2, rfl, hl.le, hl.reached, ?_,
    h.written hsb hno hoff hn hl.le (by simp) hl.wrote,
    h.written hsb hno hoff hn hl.le (by simp) hl.counted,
    fun hc => (hl.touched hc).putInode hsb hinum,
    fun hc => ((hl.touched hc).synced_putInode hsb hinum).trans (hl.synced hc)⟩
  cases hl.stopped with
  | all h1 h2 => exact .all h1 h2
  | full h1 h2 hfull hhole => exact .full h1 h2 (hfull.putInode hsb hinum rfl) hhole
  | fault h1 h2 h3 => exact .fault h1 h2 h3

end Xv6.Blocks
