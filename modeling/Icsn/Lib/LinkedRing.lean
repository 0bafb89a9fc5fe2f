import Mathlib.Data.List.Chain
import Mathlib.Data.List.Nodup
import Mathlib.Logic.Function.Basic

/-!
# Doubly linked rings

Nodes with a successor and a predecessor link.  A doubly linked list with a head and a tail is a
ring through one more node, the *base*: its successor is the head and its predecessor the tail, so
that no operation has a special case for an end of the list.

* **`Links.IsRing`** — the successors lead from the base through the listed nodes back to the base,
  and the predecessors lead the other way.
* **`IsRing.unlink`** / **`IsRing.insertAfter`** — taking a node out, and putting one behind the
  base, by the usual two and four writes; **`IsRing.congr`** — other writes do not matter.
* **`Walk`** — the nodes a loop visits that follows nullable links until there is none.  A ring
  through `none` is walked both ways (`IsRing.walk_next`, `IsRing.walk_prev`).
-/

/-- Successor and predecessor links. -/
structure Links (α : Type*) where
  next : α → α
  prev : α → α

namespace Links

variable {α : Type*} {s t : Links α} {base x y : α} {l l₁ l₂ : List α}

/-! ## Chains of related nodes

Facts on `List.IsChain`, for lists that are closed by one more node. -/

section Chains

variable {R S : α → α → Prop} {a b : α}

/-- A chain may be read under another relation if its nodes, the last one apart, allow it. -/
theorem isChain_concat_imp (himp : ∀ x ∈ l, ∀ y, R x y → S x y)
    (h : List.IsChain R (l ++ [b])) : List.IsChain S (l ++ [b]) := by
  induction l with
  | nil => exact List.isChain_singleton b
  | cons c l ih =>
    rw [List.cons_append, List.isChain_cons] at h ⊢
    refine ⟨fun y hy => himp c List.mem_cons_self y (h.1 y hy), ?_⟩
    exact ih (fun x hx => himp x (List.mem_cons_of_mem c hx)) h.2

/-- Every node but the last has a successor in the chain. -/
theorem exists_rel_of_mem (h : List.IsChain R (a :: l ++ [b])) (hx : x ∈ a :: l) :
    ∃ y ∈ l ++ [b], R x y := by
  induction l generalizing a with
  | nil =>
    rw [List.mem_singleton] at hx
    exact ⟨b, List.mem_singleton_self b, hx ▸ List.isChain_pair.mp h⟩
  | cons c l ih =>
    obtain ⟨hac, hrest⟩ := List.isChain_cons_cons.mp h
    cases hx with
    | head => exact ⟨c, List.mem_cons_self, hac⟩
    | tail _ hx =>
      obtain ⟨y, hy, hxy⟩ := ih hrest hx
      exact ⟨y, List.mem_cons_of_mem c hy, hxy⟩

/-- Every node but the first has a predecessor in the chain. -/
theorem exists_rel_to_mem (h : List.IsChain R (a :: l ++ [b])) (hy : y ∈ l ++ [b]) :
    ∃ x ∈ a :: l, R x y := by
  induction l generalizing a with
  | nil =>
    rw [List.nil_append, List.mem_singleton] at hy
    exact ⟨a, List.mem_singleton_self a, hy ▸ List.isChain_pair.mp h⟩
  | cons c l ih =>
    obtain ⟨hac, hrest⟩ := List.isChain_cons_cons.mp h
    cases hy with
    | head => exact ⟨a, List.mem_cons_self, hac⟩
    | tail _ hy =>
      obtain ⟨x, hx, hxy⟩ := ih hrest hy
      exact ⟨x, List.mem_cons_of_mem a hx, hxy⟩

end Chains

/-! ## Rings

A ring has each node once, with one successor and one predecessor in it.  Read backwards it is a
ring again, so that what is shown of successors holds of predecessors. -/

/-- The links run from `base` through `l` back to `base`, both ways. -/
structure IsRing (s : Links α) (base : α) (l : List α) : Prop where
  nodup : (base :: l).Nodup
  path : List.IsChain (fun x y => s.next x = y) (base :: l ++ [base])
  prev_next : ∀ x ∈ base :: l, s.prev (s.next x) = x

/-- The same links read backwards. -/
def flip (s : Links α) : Links α where
  next := s.prev
  prev := s.next

theorem isRing_nil (hnext : s.next base = base) (hprev : s.prev base = base) :
    s.IsRing base [] where
  nodup := List.nodup_singleton base
  path := List.isChain_pair.mpr hnext
  prev_next x hx := by
    rw [List.mem_singleton] at hx
    rw [hx, hnext, hprev]

namespace IsRing

theorem mem_of_mem_concat (hx : x ∈ l ++ [base]) : x ∈ base :: l := by
  rw [List.mem_append, List.mem_singleton] at hx
  exact List.mem_cons.mpr hx.symm

theorem next_mem (h : s.IsRing base l) (hx : x ∈ base :: l) : s.next x ∈ base :: l := by
  obtain ⟨y, hy, rfl⟩ := exists_rel_of_mem h.path hx
  exact mem_of_mem_concat hy

/-- Every node is the successor of one. -/
theorem exists_next_eq (h : s.IsRing base l) (hy : y ∈ base :: l) :
    ∃ x ∈ base :: l, s.next x = y := by
  refine exists_rel_to_mem h.path ?_
  rw [List.mem_append, List.mem_singleton]
  exact (List.mem_cons.mp hy).symm

theorem next_prev (h : s.IsRing base l) (hx : x ∈ base :: l) : s.next (s.prev x) = x := by
  obtain ⟨w, hw, rfl⟩ := h.exists_next_eq hx
  rw [h.prev_next w hw]

/-- Every node is listed once. -/
theorem notMem_rest (h : s.IsRing base (l₁ ++ y :: l₂)) : y ∉ base :: (l₁ ++ l₂) := by
  have hmid := h.nodup
  rw [← List.cons_append, List.nodup_middle, List.nodup_cons] at hmid
  exact hmid.1

/-- No two nodes have one successor. -/
theorem next_inj (h : s.IsRing base l) (hx : x ∈ base :: l) (hy : y ∈ base :: l)
    (heq : s.next x = s.next y) : x = y := by
  rw [← h.prev_next x hx, heq, h.prev_next y hy]

/-- **Frame.** Links of other nodes do not matter. -/
theorem congr (h : s.IsRing base l) (hnext : ∀ x ∈ base :: l, t.next x = s.next x)
    (hprev : ∀ x ∈ base :: l, t.prev x = s.prev x) : t.IsRing base l where
  nodup := h.nodup
  path := isChain_concat_imp (fun x hx _ hxy => (hnext x hx).trans hxy) h.path
  prev_next x hx := by
    rw [hnext x hx, hprev _ (h.next_mem hx), h.prev_next x hx]

/-- **Reversal.** Read backwards, a ring lists its nodes in reverse. -/
theorem flip (h : s.IsRing base l) : s.flip.IsRing base l.reverse where
  nodup := by
    rw [List.nodup_cons, List.mem_reverse, List.nodup_reverse]
    exact List.nodup_cons.mp h.nodup
  path := by
    have hrev : base :: l.reverse ++ [base] = (base :: l ++ [base]).reverse := by simp
    rw [hrev, List.isChain_reverse]
    refine isChain_concat_imp (fun x hx y hxy => ?_) h.path
    show s.prev y = x
    rw [← hxy, h.prev_next x hx]
  prev_next x hx := by
    refine h.next_prev ?_
    rwa [List.mem_cons, List.mem_reverse, ← List.mem_cons] at hx

/-- A ring cut open at one of its nodes: the links up to its predecessor and from its successor. -/
theorem cut (h : s.IsRing base (l₁ ++ y :: l₂)) :
    ∃ a b, base :: l₁ = a ++ [s.prev y] ∧ l₂ ++ [base] = s.next y :: b ∧
      List.IsChain (fun x y => s.next x = y) (a ++ [s.prev y]) ∧
      List.IsChain (fun x y => s.next x = y) (s.next y :: b) := by
  obtain ⟨a, w, ha⟩ := (List.eq_nil_or_concat' (base :: l₁)).resolve_left (List.cons_ne_nil _ _)
  obtain ⟨z, b, hb⟩ := List.exists_cons_of_ne_nil (List.concat_ne_nil base l₂)
  have hshape : base :: (l₁ ++ y :: l₂) ++ [base] = a ++ w :: y :: z :: b := by
    calc base :: (l₁ ++ y :: l₂) ++ [base] = base :: l₁ ++ y :: (l₂ ++ [base]) := by simp
      _ = a ++ w :: y :: z :: b := by rw [ha, hb, List.append_assoc]; rfl
  have hpath := h.path
  rw [hshape, List.isChain_append_cons_cons, List.isChain_cons_cons] at hpath
  obtain ⟨hbefore, hwy, hyz, hafter⟩ := hpath
  have hw : w ∈ base :: (l₁ ++ y :: l₂) := by
    have hmem : w ∈ base :: l₁ := by simp [ha]
    exact List.mem_append_left (y :: l₂) hmem
  have hprev : s.prev y = w := by rw [← hwy, h.prev_next w hw]
  rw [hprev, hyz]
  exact ⟨a, b, ha, hb, hbefore, hafter⟩

end IsRing

/-! ## Taking a node out and putting one in

Both are a handful of writes, some of which may hit the same node.  The proofs ask for each node
what its link is after all of them. -/

section Updates

variable [DecidableEq α]

/-- `next[prev[y]] = next[y]; prev[next[y]] = prev[y]`. -/
def unlink (s : Links α) (y : α) : Links α where
  next := Function.update s.next (s.prev y) (s.next y)
  prev := Function.update s.prev (s.next y) (s.prev y)

/-- `prev[y] = x; next[y] = next[x]; prev[next[x]] = y; next[x] = y`. -/
def insertAfter (s : Links α) (x y : α) : Links α where
  next := Function.update (Function.update s.next y (s.next x)) x y
  prev := Function.update (Function.update s.prev y x) (s.next x) y

/-- **A node is taken out.** -/
theorem IsRing.unlink (h : s.IsRing base (l₁ ++ y :: l₂)) :
    (s.unlink y).IsRing base (l₁ ++ l₂) := by
  obtain ⟨a, b, ha, hb, hbefore, hafter⟩ := h.cut
  have hsub : (base :: (l₁ ++ l₂)).Sublist (base :: (l₁ ++ y :: l₂)) := by simp
  have hnodup : (base :: (l₁ ++ l₂)).Nodup := h.nodup.sublist hsub
  have hy : y ∈ base :: (l₁ ++ y :: l₂) := by simp
  have hshape : base :: (l₁ ++ l₂) = a ++ s.prev y :: l₂ := by
    rw [← List.cons_append, ha, List.append_assoc, List.singleton_append]
  -- only the successor of the predecessor changes, and that node is listed once
  have hne : ∀ x, x ∈ a ∨ x ∈ l₂ → x ≠ s.prev y := by
    rw [hshape, List.nodup_middle, List.nodup_cons, List.mem_append] at hnodup
    exact fun x hx heq => hnodup.1 (heq ▸ hx)
  have hsame : ∀ x, x ≠ s.prev y → (s.unlink y).next x = s.next x := fun x hx =>
    Function.update_of_ne hx _ _
  refine ⟨hnodup, ?_, fun x hx => ?_⟩
  · rw [hshape, List.append_assoc, List.cons_append, hb, List.isChain_append_cons_cons]
    refine ⟨?_, Function.update_self _ _ _, ?_⟩
    · exact isChain_concat_imp (fun x hx _ hxy => (hsame x (hne x (Or.inl hx))).trans hxy) hbefore
    · rw [← hb] at hafter ⊢
      exact isChain_concat_imp (fun x hx _ hxy => (hsame x (hne x (Or.inr hx))).trans hxy) hafter
  · have hx' := hsub.subset hx
    rcases eq_or_ne x (s.prev y) with rfl | hxp
    · show (s.unlink y).prev (Function.update s.next (s.prev y) (s.next y) (s.prev y)) = s.prev y
      rw [Function.update_self]
      exact Function.update_self _ _ _
    · rw [hsame x hxp]
      -- the successor of another node is not the successor of `y`
      have hnext : s.next x ≠ s.next y := by
        intro heq
        have hxy := h.next_inj hx' hy heq
        exact h.notMem_rest (hxy ▸ hx)
      show Function.update s.prev (s.next y) (s.prev y) (s.next x) = x
      rw [Function.update_of_ne hnext, h.prev_next x hx']

/-- **A new node is put behind the base.** -/
theorem IsRing.insertAfter (h : s.IsRing base l) (hy : y ∉ base :: l) :
    (s.insertAfter base y).IsRing base (y :: l) := by
  have hbase : base ∈ base :: l := List.mem_cons_self
  have hyb : y ≠ base := fun heq => hy (heq ▸ hbase)
  have hynext : ∀ x ∈ base :: l, y ≠ s.next x := fun x hx heq => hy (heq ▸ h.next_mem hx)
  have hself : (s.insertAfter base y).next base = y := Function.update_self _ _ _
  have hnew : (s.insertAfter base y).next y = s.next base := by
    show Function.update (Function.update s.next y (s.next base)) base y y = s.next base
    rw [Function.update_of_ne hyb, Function.update_self]
  -- the links of the nodes behind are not written
  have hsame : ∀ x ∈ l, (s.insertAfter base y).next x = s.next x := by
    intro x hx
    have hxb : x ≠ base := fun heq => (List.nodup_cons.mp h.nodup).1 (heq ▸ hx)
    have hxy : x ≠ y := fun heq => hy (heq ▸ List.mem_cons_of_mem base hx)
    show Function.update (Function.update s.next y (s.next base)) base y x = s.next x
    rw [Function.update_of_ne hxb, Function.update_of_ne hxy]
  have hpath := h.path
  rw [List.cons_append, List.isChain_cons] at hpath
  refine ⟨?_, ?_, fun x hx => ?_⟩
  · have hswap : (base :: y :: l).Perm (y :: base :: l) := List.Perm.swap y base l
    rw [hswap.nodup_iff, List.nodup_cons]
    exact ⟨hy, h.nodup⟩
  · rw [List.cons_append, List.cons_append, List.isChain_cons_cons, List.isChain_cons]
    refine ⟨hself, fun z hz => hnew.trans (hpath.1 z hz), ?_⟩
    exact isChain_concat_imp (fun x hx _ hxy => (hsame x hx).trans hxy) hpath.2
  · show Function.update (Function.update s.prev y base) (s.next base) y _ = x
    rcases List.mem_cons.mp hx with rfl | hx
    · rw [hself, Function.update_of_ne (hynext x hbase), Function.update_self]
    · rcases List.mem_cons.mp hx with rfl | hx
      · rw [hnew, Function.update_self]
      · have hx' : x ∈ base :: l := List.mem_cons_of_mem base hx
        -- the old head has the base before it, not `x`
        have hnext : s.next x ≠ s.next base := fun heq =>
          (List.nodup_cons.mp h.nodup).1 (h.next_inj hx' hbase heq ▸ hx)
        rw [hsame x hx, Function.update_of_ne hnext, Function.update_of_ne (hynext x hx').symm,
          h.prev_next x hx']

end Updates

end Links

/-! ## Walks over nullable links

A loop over a list ends at a missing link.  In a ring through `none` it is back at the base then,
and has seen every node. -/

section Walks

variable {ι : Type*} {s : Links (Option ι)} {l : List ι}

/-- Following `next` from a nullable link visits the listed nodes, in this order, and stops. -/
inductive Walk (next : ι → Option ι) : Option ι → List ι → Prop
  | stop : Walk next none []
  | visit {i : ι} {l : List ι} (rest : Walk next (next i) l) : Walk next (some i) (i :: l)

/-- A walk starts at the first node it visits. -/
theorem Walk.head?_eq {next : ι → Option ι} {o : Option ι} (h : Walk next o l) : l.head? = o := by
  cases h with
  | stop => rfl
  | visit _ => rfl

theorem walk_of_isChain {f : Option ι → Option ι} {o : Option ι}
    (h : List.IsChain (fun x y => f x = y) (o :: l.map some ++ [none])) :
    Walk (fun i => f (some i)) (f o) l := by
  induction l generalizing o with
  | nil =>
    have ho : f o = none := (List.isChain_cons_cons.mp h).1
    rw [ho]
    exact Walk.stop
  | cons i l ih =>
    obtain ⟨hi, hrest⟩ := List.isChain_cons_cons.mp h
    rw [hi]
    exact Walk.visit (ih hrest)

namespace Links.IsRing

/-- **The walk from the head** visits the nodes of the ring. -/
theorem walk_next (h : s.IsRing none (l.map some)) :
    Walk (fun i => s.next (some i)) (s.next none) l := walk_of_isChain h.path

/-- **The walk from the tail** visits them in reverse. -/
theorem walk_prev (h : s.IsRing none (l.map some)) :
    Walk (fun i => s.prev (some i)) (s.prev none) l.reverse := by
  have hflip := h.flip
  rw [← List.map_reverse] at hflip
  exact hflip.walk_next

end Links.IsRing

end Walks
