import Xv6.Blocks.Entries

/-!
# Inodes come and go

`ialloc` takes a free inode, `iupdate` writes one back, and the last `iput` of an inode without
links gives its blocks back and then the inode itself. `itrunc` goes through the addresses, not
through the size: it frees every block that the inode records, and each of them once.
-/

namespace Xv6.Blocks

open Function Lib

variable {sb : Superblock} {s s' s0 : Buffers} {ip ip' : Inode} {disk : Disk} {d : Dinode}
  {i k : Nat} {r : Slot → Nat} {t : Slot} {E : Panic → Prop}

/-! ### Giving blocks back -/

/-- The blocks in `r` are still to be given back. -/
structure Releasing (sb : Superblock) (s0 : Buffers) (i : Nat) (r : Slot → Nat) (s : Buffers) :
    Prop where
  held : Held sb (used sb s.data) s.data i r
  marked : MetaMarked sb s.data
  same : ∀ c, c < sb.bmapstart ∨ sb.datastart ≤ c → s.data c = s0.data c

lemma Releasing.bfree (h : Releasing sb s0 i r s) (hsb : sb.Ok) (ht : r t ≠ 0) :
    wp (bfree sb (r t)) E (fun _ s' => Releasing sb s0 i (update r t 0) s') s := by
  refine wp_imp (bfree_spec hsb h.marked (h.held.mem ht)) ?_
  rintro - s' ⟨hused, hmarked, hsame⟩
  refine ⟨?_, hmarked, fun c hc => (hsame c hc).trans (h.same c hc)⟩
  rw [hused]
  refine (h.held.detach ht).congr hsb (fun b hb => hsame b (.inl hb)) fun b hb _ => ?_
  exact hsame b (.inr (h.held.data b hb.1).1)

/-- The direct blocks. -/
lemma itruncDirect_spec (hsb : sb.Ok) (is : List (Fin NDIRECT)) :
    ∀ {ip : Inode} {r : Slot → Nat} {s : Buffers}, Releasing sb s0 i r s →
      (∀ k, r (.direct k) = ip.addrs k.castSucc) →
      wp (itruncDirect sb is ip) E (fun ip' s' => ∃ r', Releasing sb s0 i r' s' ∧
        (∀ k, r' (.direct k) = ip'.addrs k.castSucc) ∧
        (∀ k, k ∈ is ∨ r (.direct k) = 0 → r' (.direct k) = 0) ∧
        (∀ t, (∀ k, t ≠ .direct k) → r' t = r t) ∧
        ip' = { ip with addrs := ip'.addrs } ∧
        ip'.addrs (Fin.last NDIRECT) = ip.addrs (Fin.last NDIRECT)) s := by
  induction is with
  | nil =>
    intro ip r s h hr
    exact ⟨r, h, hr, fun k hk => hk.resolve_left (by simp), fun _ _ => rfl, rfl, rfl⟩
  | cons j is ih =>
    intro ip r s h hr
    rw [itruncDirect]
    split_ifs with h0
    · refine wp_imp (ih h hr) ?_
      rintro ip' s' ⟨r', h1, h2, h3, h4⟩
      refine ⟨r', h1, h2, fun k hk => h3 k ?_, h4⟩
      rcases hk with hk | hk
      · rcases List.mem_cons.mp hk with rfl | hk
        · exact .inr ((hr k).trans h0)
        · exact .inl hk
      · exact .inr hk
    · simp only [wp_bind]
      rw [← hr j] at h0 ⊢
      refine wp_imp (h.bfree hsb h0) fun _ s1 h1 => ?_
      have hlast : Fin.last NDIRECT ≠ j.castSucc := (Fin.castSucc_lt_last j).ne'
      have hr1 : ∀ k, update r (.direct j) 0 (.direct k) =
          (ip.setAddr j.castSucc 0).addrs k.castSucc := by
        intro k
        by_cases hk : k = j
        · subst hk
          simp [Inode.setAddr, Dinode.setAddr]
        · simp [Inode.setAddr, Dinode.setAddr, hk, hr]
      refine wp_imp (ih h1 hr1) ?_
      rintro ip' s' ⟨r', h2, h3, h4, h5, h6, h7⟩
      refine ⟨r', h2, h3, fun k hk => h4 k ?_, fun t ht => ?_, ?_, ?_⟩
      · by_cases hkj : k = j
        · subst hkj
          exact .inr (update_self ..)
        · rcases hk with hk | hk
          · exact .inl ((List.mem_cons.mp hk).resolve_left hkj)
          · exact .inr (by rw [update_of_ne (by simp [hkj])]; exact hk)
      · rw [h5 t ht, update_of_ne (ht j)]
      · rw [h6]
        rfl
      · rw [h7]
        simp [Inode.setAddr, Dinode.setAddr, update_of_ne hlast]

/-- The blocks that the indirect block records. -/
lemma itruncEntries_spec (hsb : sb.Ok) {bp : Mem} (js : List (Fin NINDIRECT)) :
    ∀ {r : Slot → Nat} {s : Buffers}, js.Nodup → Releasing sb s0 i r s →
      (∀ j ∈ js, r (.entry j) = word bp j) →
      wp (itruncEntries sb bp js) E (fun _ s' => ∃ r', Releasing sb s0 i r' s' ∧
        (∀ j ∈ js, r' (.entry j) = 0) ∧ ∀ t, (∀ j ∈ js, t ≠ .entry j) → r' t = r t) s := by
  induction js with
  | nil =>
    intro r s _ h _
    exact ⟨r, h, fun j hj => absurd hj (by simp), fun _ _ => rfl⟩
  | cons j js ih =>
    intro r s hnodup h hr
    obtain ⟨hj, hnodup⟩ := List.nodup_cons.mp hnodup
    -- Entry `j` is done with.
    have hrest : ∀ {r1 : Slot → Nat} {s1 : Buffers}, Releasing sb s0 i r1 s1 →
        r1 (.entry j) = 0 → (∀ t, t ≠ .entry j → r1 t = r t) →
        wp (itruncEntries sb bp js) E (fun _ s' => ∃ r', Releasing sb s0 i r' s' ∧
          (∀ k ∈ j :: js, r' (.entry k) = 0) ∧
          ∀ t, (∀ k ∈ j :: js, t ≠ .entry k) → r' t = r t) s1 := by
      intro r1 s1 h1 hj0 hsame
      have hr1 : ∀ k ∈ js, r1 (.entry k) = word bp k := by
        intro k hk
        have hkj : k ≠ j := fun hkj => hj (hkj ▸ hk)
        rw [hsame _ (by simp [hkj]), hr k (List.mem_cons_of_mem j hk)]
      refine wp_imp (ih hnodup h1 hr1) ?_
      rintro - s' ⟨r', h2, h3, h4⟩
      refine ⟨r', h2, fun k hk => ?_, fun t ht => ?_⟩
      · rcases List.mem_cons.mp hk with rfl | hk
        · have hne : ∀ k' ∈ js, Slot.entry k ≠ .entry k' := by
            rintro k' hk' heq
            obtain rfl : k = k' := by simpa using heq
            exact hj hk'
          rw [h4 _ hne, hj0]
        · exact h3 k hk
      · rw [h4 t fun k hk => ht k (List.mem_cons_of_mem j hk),
          hsame t (ht j (List.mem_cons_self ..))]
    have hj' := hr j (List.mem_cons_self ..)
    rw [itruncEntries]
    simp only [wp_bind, wp_ite]
    refine ⟨fun h0 => ?_, fun h0 => ?_⟩
    · rw [← hj'] at h0 ⊢
      refine wp_imp (h.bfree hsb h0) fun _ s1 h1 => ?_
      exact hrest h1 (update_self ..) fun t ht => update_of_ne ht ..
    · exact hrest h (hj'.trans (not_not.mp h0)) fun _ _ => rfl

/-- The indirect block. -/
lemma itruncIndirect_spec (hsb : sb.Ok) (h : Releasing sb s0 i r s)
    (hind : r .indirect = ip.addrs (Fin.last NDIRECT))
    (hentry : ∀ j, r (.entry j) = slot s0.data ip.toDinode (.entry j)) :
    wp (itruncIndirect sb ip) E (fun ip' s' => ∃ r', Releasing sb s0 i r' s' ∧
      (∀ k, r' (.direct k) = r (.direct k)) ∧ r' .indirect = 0 ∧ (∀ j, r' (.entry j) = 0) ∧
      ip' = ip.setAddr (Fin.last NDIRECT) 0) s := by
  unfold itruncIndirect
  by_cases h0 : ip.addrs (Fin.last NDIRECT) = 0
  · simp only [h0, if_true, wp_pure]
    refine ⟨r, h, fun _ => rfl, hind.trans h0, fun j => ?_, ?_⟩
    · rw [hentry]
      simp [slot, h0]
    · simp only [Inode.setAddr, Dinode.setAddr, ← h0, update_eq_self]
  · simp only [if_neg h0, bread, wp_bind, wp_get, wp_pure]
    have hmem := h.held.mem (s := .indirect) (by rw [hind]; exact h0)
    rw [hind] at hmem
    have hbp : s.data (ip.addrs (Fin.last NDIRECT)) = s0.data (ip.addrs (Fin.last NDIRECT)) :=
      h.same _ (.inr (h.held.data _ hmem).1)
    refine wp_imp (itruncEntries_spec hsb _ (List.nodup_finRange _) h fun j _ => ?_) ?_
    · rw [hentry, hbp]
      simp only [slot, if_neg h0]
    · rintro - s1 ⟨r1, h1, h2, h3⟩
      have hind1 : r1 .indirect = ip.addrs (Fin.last NDIRECT) :=
        (h3 _ fun j _ => by simp).trans hind
      rw [← hind1] at h0 ⊢
      refine wp_imp (h1.bfree hsb h0) fun _ s2 h4 => ?_
      refine ⟨_, h4, fun k => ?_, update_self .., fun j => ?_, trivial⟩
      · rw [update_of_ne (by simp), h3 _ fun j _ => by simp]
      · rw [update_of_ne (by simp), h2 j (List.mem_finRange j)]

/-! ### Writing an inode back -/

/-- Inode `i` may become `d` if it records the same blocks. -/
lemma Accounted.putDinode (h : Accounted sb disk) (hi : 0 < i ∧ i < sb.ninodes) (hd : d.Fits)
    (hrow : row sb disk i = if d.type ≠ 0 then slot disk d else fun _ => 0) :
    Accounted sb (putDinode sb disk i d) ∧
      ∀ k ≠ i, SameFile sb disk (Blocks.putDinode sb disk i d) k := by
  have hheld : Held sb (used sb disk) disk i (row sb disk i) := h.booked.held
  have hmap : ∀ c, sb.bmapstart ≤ c → c < sb.datastart →
      Blocks.putDinode sb disk i d c = disk c := by
    intro c hc _
    have h1 := h.layout.iblock_lt hi.2
    exact putDinode_apply_of_ne (by omega)
  refine ⟨⟨h.layout, ?_, h.marked.congr h.layout hmap⟩, fun k hk => ?_⟩
  · rw [used_congr h.layout hmap]
    exact hheld.putDinode h.layout hi hd hrow
  · exact hheld.sameFile_putDinode h.layout hi.2 hk

section

variable (h : Accounted sb s.data) (hi : Allocated sb s.data i)
include h hi

/-- `iupdate` after a change of the fields that are not about the content. -/
lemma Accounted.iupdate (hno : NoHoles s.data (dinode sb s.data i)) (hinum : ip.inum = i)
    (hfits : ip.Fits) (haddrs : ip.addrs = (dinode sb s.data i).addrs)
    (hsize : ip.size = (dinode sb s.data i).size) (htype : ip.type = (dinode sb s.data i).type) :
    Kept sb s i (s.putInode sb ip) ip ∧
      byte (s.putInode sb ip).data ip.toDinode = byte s.data (dinode sb s.data i) := by
  subst hinum
  have hslot : slot s.data ip.toDinode = slot s.data (dinode sb s.data ip.inum) :=
    slot_eq_of_addrs haddrs
  have ht : ip.type ≠ 0 := by
    rw [htype]
    exact hi.2.2
  obtain ⟨hacc, hothers⟩ := h.putDinode ⟨hi.1, hi.2.1⟩ hfits
    (by rw [row_of_allocated hi, if_pos ht, hslot])
  have hdi : dinode sb (s.putInode sb ip).data ip.inum = ip.toDinode := dinode_putDinode hfits
  -- The blocks of the content are not inode blocks.
  have hheld := h.booked.held_slot hi
  have hsame : ∀ b ∈ used sb s.data, (s.putInode sb ip).data b = s.data b := by
    intro b hb
    have h1 := (hheld.data b hb).1
    have h2 := h.layout.iblock_lt hi.2.1
    have h3 := h.layout.bmapstart_lt
    exact putDinode_apply_of_ne (by omega)
  have hslot' : slot (s.putInode sb ip).data ip.toDinode =
      slot s.data (dinode sb s.data ip.inum) := by
    rw [slot_eq_of_addrs haddrs]
    exact slot_congr fun h0 => hsame _ (hheld.mem (s := .indirect) h0)
  refine ⟨⟨hacc, ?_, ⟨hi.1, hi.2.1, ?_⟩, ?_, ⟨?_, fun x hx => ?_⟩, hothers⟩, ?_⟩
  · unfold inode
    rw [hdi]
  · rw [hdi]
    exact ht
  · rw [hdi, htype]
  · rw [hdi, hsize]
    exact hno.le
  · rw [hdi] at hx ⊢
    rw [hsize] at hx
    obtain ⟨h1, h2⟩ := hno.backed x hx
    exact ⟨h1, by rw [hslot']; exact h2⟩
  · funext x
    unfold byte
    rw [hslot']
    by_cases h0 : slot s.data (dinode sb s.data ip.inum) (fileSlot (x / BSIZE)) = 0
    · have hboot : (s.putInode sb ip).data 0 = s.data 0 :=
        putDinode_apply_of_ne (Nat.lt_of_lt_of_le h.layout.boot (Nat.le_add_left ..)).ne
      rw [h0, hboot]
    · rw [hsame _ (hheld.mem h0)]

lemma itrunc_spec : wp (itrunc sb (inode sb s.data i)) E (fun ip' s' => Kept sb s i s' ip' ∧
      ip' = { inode sb s.data i with addrs := fun _ => 0, size := 0 }) s := by
  have hstart : Releasing sb s i (slot s.data (dinode sb s.data i)) s :=
    ⟨h.booked.held_slot hi, h.marked, fun _ _ => rfl⟩
  unfold itrunc
  simp only [wp_bind]
  refine wp_imp (itruncDirect_spec h.layout _ hstart fun _ => rfl) ?_
  rintro ip1 s1 ⟨r1, h1, hdirect1, hzero1, hsame1, hrest1, hlast1⟩
  refine wp_imp (itruncIndirect_spec h.layout h1 ?_ ?_) ?_
  · rw [hsame1 _ (by simp), hlast1]
    rfl
  · intro j
    rw [hsame1 _ (by simp)]
    simp only [slot, hlast1]
    rfl
  · rintro ip2 s2 ⟨r2, h2, hdirect2, hind2, hentry2, rfl⟩
    have hr2 : r2 = fun _ => 0 := by
      funext t
      cases t with
      | direct k => rw [hdirect2, hzero1 k (.inl (List.mem_finRange k))]
      | indirect => exact hind2
      | entry j => exact hentry2 j
    rw [hr2] at h2
    simp only [wp_iupdate, wp_pure]
    set ip2 := (ip1.setAddr (Fin.last NDIRECT) 0).setSize 0 with hip2
    have haddrs : ip2.addrs = fun _ => 0 := by
      funext j
      cases j using Fin.lastCases with
      | last => simp [hip2, Inode.setSize, Inode.setAddr, Dinode.setAddr]
      | cast k =>
        have hk : k.castSucc ≠ Fin.last NDIRECT := (Fin.castSucc_lt_last k).ne
        simp only [hip2, Inode.setSize, Inode.setAddr, Dinode.setAddr, update_of_ne hk]
        rw [← hdirect1, hzero1 k (.inl (List.mem_finRange k))]
    have heq : ip2 = { inode sb s.data i with addrs := fun _ => 0, size := 0 } := by
      rw [← haddrs, hip2, hrest1]
      rfl
    have hinum : ip2.inum = i := by rw [heq]; rfl
    have htype : ip2.type = (dinode sb s.data i).type := by rw [heq]; rfl
    have ht : ip2.type ≠ 0 := htype ▸ hi.2.2
    have hfits : ip2.Fits := by
      have hf : (dinode sb s.data i).Fits := Dinode.load_fits ..
      rw [heq]
      exact ⟨hf.type, hf.major, hf.minor, hf.nlink, Nat.two_pow_pos 32, fun _ => Nat.two_pow_pos 32⟩
    have hdi : dinode sb (s2.putInode sb ip2).data i = ip2.toDinode := by
      rw [Buffers.data_putInode, hinum]
      exact dinode_putDinode hfits
    have hslot : slot s2.data ip2.toDinode = fun _ => 0 :=
      slot_of_addrs_zero fun j => congrFun haddrs j
    have hmap : ∀ c, sb.bmapstart ≤ c → c < sb.datastart →
        (s2.putInode sb ip2).data c = s2.data c := by
      intro c hc _
      have h3 := h.layout.iblock_lt hi.2.1
      rw [Buffers.data_putInode, hinum]
      exact putDinode_apply_of_ne (by omega)
    refine ⟨⟨⟨h.layout, ?_, h2.marked.congr h.layout hmap⟩, ?_, ⟨hi.1, hi.2.1, by rwa [hdi]⟩,
      by rw [hdi, htype], ⟨?_, fun x hx => ?_⟩, fun k hk => ?_⟩, heq⟩
    · rw [used_congr h.layout hmap, Buffers.data_putInode, hinum]
      exact h2.held.putDinode h.layout ⟨hi.1, hi.2.1⟩ hfits (by rw [if_pos ht, hslot])
    · unfold inode
      rw [hdi, ← hinum]
    · rw [hdi, heq]
      exact Nat.zero_le _
    · rw [hdi, heq] at hx
      exact absurd hx (Nat.not_lt_zero x)
    · refine ((h.booked.held_slot hi).sameFile h.layout (fun b hb => h2.same b (.inl hb))
        (fun b hb _ => h2.same b (.inr (h.booked.data b hb).1)) hk).trans ?_
      rw [Buffers.data_putInode, hinum]
      exact h2.held.sameFile_putDinode h.layout hi.2.1 hk

/-- The last reference to an inode without links is dropped. -/
lemma iputFree_spec : wp (iputFree sb (inode sb s.data i)) E (fun _ s' => Accounted sb s'.data ∧
      ¬Allocated sb s'.data i ∧ ∀ k ≠ i, SameFile sb s.data s'.data k) s := by
  unfold iputFree
  simp only [wp_bind]
  refine wp_imp (itrunc_spec h hi) ?_
  rintro ip' s' ⟨hkept, heq⟩
  rw [wp_iupdate]
  have hdi : dinode sb s'.data i = ip'.toDinode := (congrArg Inode.toDinode hkept.current).symm
  have hfits : Dinode.Fits { ip'.toDinode with type := 0 } := by
    have hf : (dinode sb s'.data i).Fits := Dinode.load_fits ..
    rw [hdi] at hf
    exact ⟨Nat.two_pow_pos 16, hf.major, hf.minor, hf.nlink, hf.size, hf.addrs⟩
  have hrow : row sb s'.data i = fun _ => 0 := by
    rw [row_of_allocated hkept.allocated, hdi]
    exact slot_of_addrs_zero fun j => by rw [heq]
  have hinum : ip'.inum = i := by rw [heq]; rfl
  obtain ⟨hacc, hothers⟩ := hkept.accounted.putDinode ⟨hi.1, hi.2.1⟩ hfits
    (by rw [hrow, if_neg (by simp)])
  rw [← hinum] at hacc hothers
  refine ⟨hacc, fun ha => ha.2.2 ?_, fun k hk => (hkept.others k hk).trans (hothers k ?_)⟩
  · have hdz : dinode sb (Blocks.putDinode sb s'.data i { ip'.toDinode with type := 0 }) i =
        { ip'.toDinode with type := 0 } := dinode_putDinode hfits
    rw [Buffers.data_putInode]
    simp only [hinum]
    rw [hdz]
  · rw [hinum]
    exact hk

/-! ### `ialloc` -/

end

/-- An inode as `ialloc` leaves it. -/
def Dinode.fresh (type : Nat) : Dinode := ⟨type, 0, 0, 0, 0, fun _ => 0⟩

lemma iallocFrom_spec {type : Nat} (m : Nat) : ∀ {n : Nat}, 0 < n →
    wp (iallocFrom sb type n m) E (fun r s' => (r = none ∧ s' = s) ∨
      ∃ k, r = some k ∧ n ≤ k ∧ k < n + m ∧ (dinode sb s.data k).type = 0 ∧
        s'.data = putDinode sb s.data k (.fresh type)) s := by
  induction m with
  | zero =>
    intro n _
    exact .inl ⟨rfl, rfl⟩
  | succ m ih =>
    intro n hn
    rw [iallocFrom]
    simp only [bread, logWrite, wp_bind, wp_get, wp_pure, wp_ite, wp_modify]
    refine ⟨fun h0 => .inr ⟨n, rfl, le_refl n, by omega, h0, rfl⟩, fun _ => ?_⟩
    refine wp_imp (ih (Nat.succ_pos n)) ?_
    rintro r s' (hnone | ⟨k, hr, h1, h2, h3⟩)
    · exact .inl hnone
    · exact .inr ⟨k, hr, by omega, by omega, h3⟩

lemma ialloc_spec {type : Nat} (h : Accounted sb s.data) (htype : 0 < type ∧ type < 2 ^ 16) :
    wp (ialloc sb type) E (fun r s' => (r = none ∧ s' = s) ∨
      ∃ k, r = some k ∧ ¬Allocated sb s.data k ∧ Allocated sb s'.data k ∧
        dinode sb s'.data k = .fresh type ∧ Accounted sb s'.data ∧
        ∀ k' ≠ k, SameFile sb s.data s'.data k') s := by
  refine wp_imp (iallocFrom_spec _ Nat.one_pos) ?_
  rintro r s' (hnone | ⟨k, hr, h1, h2, h3, hdata⟩)
  · exact .inl hnone
  · have hk : 0 < k ∧ k < sb.ninodes := by omega
    have hnot : ¬Allocated sb s.data k := fun ha => ha.2.2 h3
    have hfits : (Dinode.fresh type).Fits :=
      ⟨htype.2, Nat.two_pow_pos 16, Nat.two_pow_pos 16, Nat.two_pow_pos 16, Nat.two_pow_pos 32,
        fun _ => Nat.two_pow_pos 32⟩
    have hdi : dinode sb s'.data k = .fresh type := by
      rw [hdata]
      exact dinode_putDinode hfits
    obtain ⟨hacc, hothers⟩ := h.putDinode hk hfits (by
      rw [row_of_not_allocated hnot, slot_of_addrs_zero fun _ => rfl, ite_self])
    refine .inr ⟨k, hr, hnot, ⟨hk.1, hk.2, ?_⟩, hdi, hdata ▸ hacc, hdata ▸ hothers⟩
    rw [hdi]
    exact htype.1.ne'

end Xv6.Blocks
