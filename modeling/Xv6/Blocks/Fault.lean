import Xv6.Kernel.Copyin
import Xv6.Blocks.FileLaw

/-!
# Writing from memory that is not there

If a page of the source is not mapped, `copyin` fails after it has brought the bytes before that
page into the buffer. `writei` then releases the buffer without giving it to the log and does not
count these bytes, but they are in the buffer: `readi` returns them until the buffer is recycled,
if they are not beyond the end of the file. Wherever they are, the buffer is not what the disk has.
-/

namespace Xv6.Blocks

open Lib

variable {sb : Superblock} {s s' : Buffers} {ip ip' : Inode} {i off n tot src r e : Nat} {m : Mem}
  {pt : Nat} {disk : Disk} {d : Dinode} {x : Nat}

/-! ### `copyin` -/

/-- Bytes are read up to the first that cannot be. -/
lemma readBytes_upto (m : Mem) (pt n : Nat) : ∀ va,
    ∃ l ≤ n, readBytes (loadByte m pt) va n
        = (if l = n then 0 else -1, Mem.read (physByte m pt) va l) ∧
      (∀ j < l, Readable m pt (va + j)) ∧ (l < n → ¬Readable m pt (va + l)) := by
  induction n with
  | zero => exact fun va => ⟨0, le_refl 0, rfl, by simp, by simp⟩
  | succ n ih =>
    intro va
    by_cases hr : Readable m pt va
    · obtain ⟨l, hl, heq, hall, hnone⟩ := ih (va + 1)
      have hnext : ∀ j, va + (j + 1) = va + 1 + j := fun j => by omega
      have hload : loadByte m pt va = some (physByte m pt va) := if_pos hr
      refine ⟨l + 1, by omega, ?_, ?_, fun hlt => hnext l ▸ hnone (by omega)⟩
      · rw [readBytes, hload]
        simp only [heq, Mem.read_succ, Nat.add_right_cancel_iff]
      · rintro (_ | j) hj
        · exact hr
        · rw [hnext]
          exact hall j (by omega)
    · have hload : loadByte m pt va = none := if_neg hr
      exact ⟨0, Nat.zero_le _, readBytes_of_none hload (Nat.succ_pos n), by simp, fun _ => hr⟩

/-- A user address, in the memory that a page table maps. -/
def Source.user (m : Mem) (pt src : Nat) : Source where
  bytes t := physByte m pt (src + t)
  copied tot n := (readBytes (loadByte m pt) (src + tot) n).2.length
  copied_le tot n := by
    obtain ⟨l, hl, heq, -⟩ := readBytes_upto m pt n (src + tot)
    rw [heq, Mem.length_read]
    exact hl

lemma Source.copied_user (m : Mem) (pt src tot n : Nat) :
    ∃ l ≤ n, (user m pt src).copied tot n = l ∧ readBytes (loadByte m pt) (src + tot) n =
      (if l = n then 0 else -1, Mem.read (physByte m pt) (src + tot) l) ∧
      (∀ j < l, Readable m pt (src + (tot + j))) ∧ (l < n → ¬Readable m pt (src + (tot + l))) := by
  obtain ⟨l, hl, heq, hall, hnone⟩ := readBytes_upto m pt n (src + tot)
  simp only [Nat.add_assoc] at hall hnone
  exact ⟨l, hl, by simp only [user, heq, Mem.length_read], heq, hall, hnone⟩

/-- The source is what `copyin` makes of it. -/
lemma run_copyin_user [Layout] (s : Phys) (pt src tot n : Nat) :
    (copyin pt (src + tot) n).run s = .ok ((if (Source.user s.mem pt src).copied tot n = n then 0
      else -1, (Source.user s.mem pt src).bytes.read tot ((Source.user s.mem pt src).copied tot n)),
        s) := by
  obtain ⟨l, -, hl, heq, -⟩ := Source.copied_user s.mem pt src tot n
  have hread : Mem.read (physByte s.mem pt) (src + tot) l =
    (Source.user s.mem pt src).bytes.read tot l :=
    Mem.read_congr fun j _ => by simp only [Source.user, Nat.add_assoc]
  rw [run_copyin, hl, heq, hread]

/-! ### The loop of `writei` -/

/-- The first byte of the source that cannot be read is byte `r`. -/
structure FaultAt (m : Mem) (pt src r : Nat) : Prop where
  mapped : ∀ j < r, Readable m pt (src + j)
  unmapped : ¬Readable m pt (src + r)

/-- What is copied in one turn ends before the fault. -/
lemma FaultAt.copied_spec (h : FaultAt m pt src r) (htot : tot ≤ r) (k : Nat) :
    (Source.user m pt src).copied tot k = min k (r - tot) := by
  obtain ⟨l, hl, hcopied, -, hall, hnone⟩ := Source.copied_user m pt src tot k
  rw [hcopied]
  have h1 : l ≤ r - tot := by
    by_contra hlt
    have h2 := hall (r - tot) (by omega)
    rw [Nat.add_sub_cancel' htot] at h2
    exact h.unmapped h2
  by_cases h2 : l < k
  · have h4 : ¬tot + l < r := fun hlt => hnone h2 (h.mapped _ hlt)
    omega
  · omega

section

variable (h : FaultAt m pt src r) (hreach : Reached (.user m pt src) off n tot)
include h hreach

lemma FaultAt.reached_le : tot ≤ r := by
  induction hreach with
  | start => exact Nat.zero_le r
  | turn _ hlt hok ih =>
    rw [h.copied_spec ih] at hok
    omega

lemma FaultAt.stopped_eq (he : (Source.user m pt src).copied tot (turn off n tot) = e)
    (hlt : e < turn off n tot) : tot + e = r := by
  have hle := h.reached_le hreach
  rw [h.copied_spec hle] at he
  omega

/-- The bytes that are brought and not counted are those of the block of the fault. -/
lemma FaultAt.stray_iff (htot : tot < n)
    (he : (Source.user m pt src).copied tot (turn off n tot) = e) (hlt : e < turn off n tot)
    (x : Nat) : (off + tot ≤ x ∧ x < off + (tot + e)) ↔
      off ≤ x ∧ (off + r) / BSIZE * BSIZE ≤ x ∧ x < off + r := by
  have hr := h.stopped_eq hreach he hlt
  have hal := hreach.aligned
  have hturn : turn off n tot ≤ BSIZE - (off + tot) % BSIZE := Nat.min_le_right ..
  simp only [BSIZE] at hal hturn ⊢
  omega

/-! ### What is read afterwards -/

end

/-- However buffers are recycled, `readi` returns `bs`. -/
def ReadsBack (sb : Superblock) (s : Buffers) (ip : Inode) (bs : List UInt8) : Prop :=
  ∀ R copyout off n, (∀ t cs, copyout t cs = true) → off + n < 2 ^ 32 →
    (readi sb ip copyout off n).run (s.recycle R) =
      .ok ((some ((bs.take (off + n)).drop off), ip), s.recycle R)

lemma readsBack_iff {bs : List UInt8} (hsize : ip.size = bs.length) (hle : bs.length < 2 ^ 32)
    (hno : ∀ R, NoHoles (s.recycle R).data ip.toDinode) :
    ReadsBack sb s ip bs ↔ ∀ R, content (s.recycle R).data ip.toDinode = bs := by
  constructor
  · intro h R
    have hok : ∀ t cs, toKernel t cs = true := fun _ _ => rfl
    have hlt : 0 + bs.length < 2 ^ 32 := by omega
    have h1 := h R toKernel 0 bs.length hok hlt
    rw [readi_content hok hlt (hno R)] at h1
    simp only [Except.ok.injEq, Prod.mk.injEq, Option.some.injEq, and_true, Nat.zero_add,
      List.drop_zero, List.take_length] at h1
    rw [← h1, List.take_of_length_le]
    rw [length_content, hsize]
  · intro h R copyout off n hok hlt
    rw [readi_content hok hlt (hno R), h R]

/-- What is read back after a write is what was counted, unless bytes that were brought and not
counted have changed the content. -/
lemma WriteResult.readsBack_iff {src : Source} {s0 : Buffers} (hclean : s.Clean)
    (hoff : off ≤ ip.size) (hres : WriteResult sb s ip src off n tot s' ip' e s0) :
    ReadsBack sb s' ip' (Mem.overwrite (content s.data ip.toDinode) off (src.bytes.read 0 tot)) ↔
      ∀ x, off + tot ≤ x → x < off + (tot + e) → x < ip.size →
        byte s.data ip.toDinode x = src.bytes (x - off) := by
  have hw := hres.written
  have hc := hres.counted
  have hcounted := hc.content_overwrite (by simp) hoff
  have hrec := (hres.touched hclean).data_recycle
  rw [← hcounted, Blocks.readsBack_iff (length_content _).symm]
  · have hsame : (∀ R, content (s'.recycle R).data ip'.toDinode = content s0.data ip'.toDinode) ↔
        content s'.data ip'.toDinode = content s0.data ip'.toDinode := by
      refine ⟨fun h => h fun _ => false, fun h R => ?_⟩
      rcases hrec R with h1 | h1
      · rw [h1, h]
      · rw [h1]
    rw [hsame, hw.content_eq, hc.content_eq, Mem.read_eq_read_iff]
    simp only [Nat.zero_add, Mem.write_read_apply]
    constructor
    · intro h x h1 h2 h3
      have h4 := h x (by omega)
      rw [if_pos (by omega), if_neg (by omega)] at h4
      exact h4.symm
    · intro h x hx
      by_cases h1 : off + tot ≤ x ∧ x < off + (tot + e)
      · rw [if_pos (by omega), if_neg (by omega), h x h1.1 h1.2 (by omega)]
      · by_cases h2 : off ≤ x ∧ x < off + tot
        · rw [if_pos (by omega), if_pos h2]
        · rw [if_neg (by omega), if_neg h2]
  · rw [length_content]
    exact Nat.lt_of_le_of_lt hc.noHoles.le (by decide)
  · intro R
    rcases hrec R with h1 | h1
    · rw [h1]
      exact hw.noHoles
    · rw [h1]
      exact hc.noHoles

lemma Backed.of_block {y : Nat} (h : Backed disk d x) (hxy : x / BSIZE = y / BSIZE) :
    Backed disk d y := by
  unfold Backed at h ⊢
  rwa [← hxy]

/-- A byte of the file in the block of `off + r`, if there is no block at `off + tot` before. -/
lemma NoHoles.block_eq (h : NoHoles disk d) (hhole : ¬Backed disk d (off + tot)) (hx : x < d.size)
    (hle : tot ≤ r) (hblock : (off + r) / BSIZE * BSIZE ≤ x) : x / BSIZE = (off + tot) / BSIZE := by
  have hsize : d.size ≤ off + tot := by
    by_contra hlt
    exact hhole (h.backed _ (by omega))
  simp only [BSIZE] at hblock ⊢
  omega

lemma getD_content (h : x < d.size) : (content disk d).getD x 0 = byte disk d x := by
  rw [content, Mem.getD_read h, Nat.zero_add]

/-- The bytes before the fault, in its block, are those that are there already. -/
def StrayBytesAgree (C : List UInt8) (U : Mem) (src off r : Nat) : Prop :=
  ∀ x, off ≤ x → (off + r) / BSIZE * BSIZE ≤ x → x < off + r → x < C.length →
    C.getD x 0 = U (src + (x - off))

/-- The bytes before the fault in the block after the last one that was counted are those that are
there already, also beyond the end of the file, if the file has this block and the log has not. -/
def StrayBlockAgrees (s : Buffers) (d : Dinode) (U : Mem) (src off r tot : Nat) : Prop :=
  ∀ x, off + tot ≤ x → x < off + r → x / BSIZE = (off + tot) / BSIZE → Backed s.data d x →
    s.logged (slot s.data d (fileSlot (x / BSIZE))) = false → byte s.data d x = U (src + (x - off))

lemma FaultAt.synced_iff (h : FaultAt m pt src r) (hr : r < n)
    (hreach : Reached (.user m pt src) off n tot)
    (hstop : Stopped sb s ip (.user m pt src) off n tot e disk) :
    StraySynced s ip (.user m pt src) off tot e ↔
      StrayBlockAgrees s ip.toDinode (physByte m pt) src off r tot := by
  have hle := h.reached_le hreach
  cases hstop with
  | all htot he => omega
  | full htot he _ hhole =>
    subst he
    refine iff_of_true straySynced_zero fun x h1 h2 hblock hback => ?_
    exact absurd (hback.of_block hblock) hhole
  | fault htot he hlt =>
    obtain rfl := h.stopped_eq hreach he hlt
    have hturn : turn off n tot ≤ BSIZE - (off + tot) % BSIZE := Nat.min_le_right ..
    refine forall_congr' fun x => forall_congr' fun h1 => forall_congr' fun h2 => ?_
    have hblock : x / BSIZE = (off + tot) / BSIZE := by
      simp only [BSIZE] at hturn ⊢
      omega
    simp only [hblock, forall_const]
    rfl

/-- A page table in physical memory, of which the first page is mapped and holds sevens. -/
def sevens : Mem :=
  let page (k : Nat) : Nat := KERNBASE + k * PGSIZE
  let m : Mem := fun a => if page 4 ≤ a ∧ a < page 5 then 7 else 0
  st64 (st64 (st64 m (page 1) (pa2pte (page 2) ||| PTE_V)) (page 2) (pa2pte (page 3) ||| PTE_V))
    (page 3) (pa2pte (page 4) ||| PTE_V ||| PTE_R ||| PTE_U)

lemma sevens_faultAt : FaultAt sevens (KERNBASE + PGSIZE) 4094 2 := by
  refine ⟨?_, ?_⟩
  · decide +kernel
  · decide +kernel

end Xv6.Blocks
