import Mathlib.Tactic

/-!
# Circular lists

The nodes of a list are linked into a circle, each to the next and the last to the first. The
circle may be entered at any node.
-/

namespace Lib

variable {α : Type*} {next next' : α → α} {a a' b x : α} {l l₁ l₂ : List α}

/-- From `a` the links lead through the nodes of `l` to `b`. -/
def Leads (next : α → α) (a : α) : List α → α → Prop
  | [], b => next a = b
  | x :: l, b => next a = x ∧ Leads next x l b

lemma leads_append : Leads next a (l₁ ++ x :: l₂) b ↔
    Leads next a l₁ x ∧ Leads next x l₂ b := by
  induction l₁ generalizing a with
  | nil => rfl
  | cons y l₁ ih =>
    rw [List.cons_append, Leads, Leads, ih]
    exact and_assoc.symm

/-- Only the links of the nodes on the way matter, and the first may be another node's. -/
lemma Leads.congr (h : Leads next a l b) (ha : next' a' = next a)
    (hl : ∀ y ∈ l, next' y = next y) : Leads next' a' l b := by
  induction l generalizing a a' with
  | nil => exact ha.trans h
  | cons y l ih =>
    exact ⟨ha.trans h.1, ih h.2 (hl y List.mem_cons_self) fun z hz =>
      hl z (List.mem_cons_of_mem y hz)⟩

/-- The links go round the list. -/
def Ring (next : α → α) : List α → Prop
  | [] => False
  | a :: l => Leads next a l a

lemma Ring.congr (h : Ring next l) (hl : ∀ x ∈ l, next' x = next x) : Ring next' l := by
  cases l with
  | nil => exact h
  | cons a l =>
    exact Leads.congr h (hl a List.mem_cons_self) fun x hx => hl x (List.mem_cons_of_mem a hx)

/-- The circle from another of its nodes. -/
lemma ring_iff_leads : Ring next (l₁ ++ x :: l₂) ↔ Leads next x (l₂ ++ l₁) x := by
  cases l₁ with
  | nil => rw [List.nil_append, List.append_nil]; rfl
  | cons a l₁ =>
    rw [List.cons_append, Ring, leads_append, leads_append]
    exact and_comm

/-- Where the link of a node leads, in an ordered list. -/
lemma Leads.next_cases {R : α → α → Prop} (h : Leads next a l b) (hord : (a :: l).Pairwise R)
    (hx : x ∈ a :: l) : next x = b ∨ (next x ∈ l ∧ R x (next x)) := by
  induction l generalizing a with
  | nil =>
    obtain rfl := List.mem_singleton.mp hx
    exact Or.inl h
  | cons y l ih =>
    obtain ⟨rfl, hrest⟩ := h
    obtain ⟨hfirst, hord⟩ := List.pairwise_cons.mp hord
    rcases List.mem_cons.mp hx with rfl | hx
    · exact Or.inr ⟨List.mem_cons_self, hfirst _ List.mem_cons_self⟩
    · exact (ih hrest hord hx).imp_right (And.imp_left (List.mem_cons_of_mem _))

lemma leads_iff_map : Leads next a l b ↔ (a :: l).map next = l ++ [b] := by
  induction l generalizing a with
  | nil => simp [Leads]
  | cons y l ih => simp only [Leads, ih, List.map_cons, List.cons_append, List.cons.injEq]

lemma Ring.next_mem (h : Ring next l) (hx : x ∈ l) : next x ∈ l := by
  cases l with
  | nil => exact absurd hx List.not_mem_nil
  | cons a l =>
    have hmem := List.mem_map_of_mem (f := next) hx
    rw [leads_iff_map.mp h] at hmem
    exact (List.perm_append_singleton a l).mem_iff.mp hmem

/-- No two nodes of a circle lead to the same node. -/
lemma Ring.inj (h : Ring next l) (hl : l.Nodup) {y : α} (hx : x ∈ l) (hy : y ∈ l)
    (hxy : next x = next y) : x = y := by
  cases l with
  | nil => exact absurd hx List.not_mem_nil
  | cons a l =>
    have hmap : ((a :: l).map next).Nodup := by
      rw [leads_iff_map.mp h]
      exact (List.perm_append_singleton a l).nodup_iff.mpr hl
    exact List.inj_on_of_nodup_map hmap hx hy hxy

/-! ### Looking round the circle -/

/-- `for(p = a; !stop(p); p = next(p));` -/
def search (next : α → α) (stop : α → Bool) : Nat → α → Option α
  | 0, _ => none
  | k + 1, p => if stop p then some p else search next stop k (next p)

/-- The search ends at a node on the way, if it is to stop at any of them. -/
lemma Leads.search {stop : α → Bool} (h : Leads next a l b) (hstop : ∃ x ∈ a :: l, stop x = true)
    {k : Nat} (hk : l.length < k) :
    ∃ x ∈ a :: l, stop x = true ∧ search next stop k a = some x := by
  induction l generalizing a k with
  | nil =>
    obtain ⟨k, rfl⟩ := Nat.exists_eq_succ_of_ne_zero (Nat.ne_of_gt (Nat.zero_lt_of_lt hk))
    obtain ⟨x, hx, hsx⟩ := hstop
    obtain rfl := List.mem_singleton.mp hx
    exact ⟨x, hx, hsx, by rw [Lib.search, if_pos hsx]⟩
  | cons y l ih =>
    obtain ⟨k, rfl⟩ := Nat.exists_eq_succ_of_ne_zero (Nat.ne_of_gt (Nat.zero_lt_of_lt hk))
    by_cases hsa : stop a = true
    · exact ⟨a, List.mem_cons_self, hsa, by rw [Lib.search, if_pos hsa]⟩
    · have hrest : ∃ x ∈ y :: l, stop x = true := by
        obtain ⟨x, hx, hsx⟩ := hstop
        rcases List.mem_cons.mp hx with rfl | hx
        · exact absurd hsx hsa
        · exact ⟨x, hx, hsx⟩
      obtain ⟨x, hx, hsx, hfound⟩ := ih h.2 hrest (by simpa using hk)
      exact ⟨x, List.mem_cons_of_mem a hx, hsx, by rw [Lib.search, if_neg hsa, h.1, hfound]⟩

end Lib
