import Mathlib.Order.Lattice
import Mathlib.Data.List.Pairwise
import Mathlib.Data.List.Nodup

/-!
# Ordered sets

A set kept as its strictly increasing list of members, the way an ordered container iterates it.
The order is a field, so every value is a set: no member occurs twice, and two sets with the same
members are the same value (`ext`).
-/

/-- A finite set of a linear order, kept as the increasing list of its members. -/
structure OrderedSet (α : Type*) [LinearOrder α] where
  toList : List α
  sorted : toList.Pairwise (· < ·)
deriving DecidableEq

namespace OrderedSet

variable {α : Type*} [LinearOrder α]

/-! ## Insertion into an increasing list

A member is put in front of the first larger one, or is there already.  The list stays increasing.
-/

/-- Insert `a` at its place; a list that holds it already is unchanged. -/
def insertSorted (a : α) : List α → List α
  | [] => [a]
  | b :: l => if a < b then a :: b :: l else if a = b then b :: l else b :: insertSorted a l

theorem mem_insertSorted {a x : α} {l : List α} :
    x ∈ insertSorted a l ↔ x = a ∨ x ∈ l := by
  induction l with
  | nil => simp [insertSorted]
  | cons b l ih =>
    unfold insertSorted
    split
    · simp
    · split
      · next hab => subst hab; simp
      · simp only [List.mem_cons, ih]
        tauto

theorem pairwise_insertSorted {a : α} {l : List α} (h : l.Pairwise (· < ·)) :
    (insertSorted a l).Pairwise (· < ·) := by
  induction l with
  | nil => simp [insertSorted]
  | cons b l ih =>
    obtain ⟨hb, hl⟩ := List.pairwise_cons.mp h
    unfold insertSorted
    split
    · next hab =>
      refine List.pairwise_cons.mpr ⟨fun x hx => ?_, h⟩
      rcases List.mem_cons.mp hx with rfl | hx
      · exact hab
      · exact hab.trans (hb x hx)
    · next hab =>
      split
      · exact h
      · next hne =>
        refine List.pairwise_cons.mpr ⟨fun x hx => ?_, ih hl⟩
        rcases mem_insertSorted.mp hx with rfl | hx
        · exact lt_of_le_of_ne (not_lt.mp hab) (Ne.symm hne)
        · exact hb x hx

/-! ## The set operations

Membership after each of them is all that is needed: sets with the same members are equal. -/

instance : Membership α (OrderedSet α) := ⟨fun s a => a ∈ s.toList⟩

instance (a : α) (s : OrderedSet α) : Decidable (a ∈ s) :=
  inferInstanceAs (Decidable (a ∈ s.toList))

/-- The set without members. -/
def empty : OrderedSet α := ⟨[], .nil⟩

instance : Inhabited (OrderedSet α) := ⟨empty⟩

/-- Add a member. -/
def insert (a : α) (s : OrderedSet α) : OrderedSet α :=
  ⟨insertSorted a s.toList, pairwise_insertSorted s.sorted⟩

/-- The set with one member. -/
def singleton (a : α) : OrderedSet α := insert a empty

/-- The members of a list. -/
def ofList (l : List α) : OrderedSet α := l.foldl (fun s a => insert a s) empty

/-- The first member in the order. -/
def begin? (s : OrderedSet α) : Option α := s.toList.head?

@[simp] theorem notMem_empty (a : α) : ¬ a ∈ (empty : OrderedSet α) := List.not_mem_nil

@[simp] theorem mem_insert {a x : α} {s : OrderedSet α} : x ∈ insert a s ↔ x = a ∨ x ∈ s :=
  mem_insertSorted

@[simp] theorem mem_singleton {a x : α} : x ∈ singleton a ↔ x = a := by
  simp [singleton]

theorem mem_foldl_insert {x : α} {l : List α} {s : OrderedSet α} :
    x ∈ l.foldl (fun s a => insert a s) s ↔ x ∈ l ∨ x ∈ s := by
  induction l generalizing s with
  | nil => simp
  | cons a l ih =>
    rw [List.foldl_cons, ih, mem_insert, List.mem_cons]
    tauto

@[simp] theorem mem_ofList {x : α} {l : List α} : x ∈ ofList l ↔ x ∈ l := by
  simp [ofList, mem_foldl_insert]

/-- A set has no more members than a list of them. -/
theorem length_ofList_le (l : List α) : (ofList l).toList.length ≤ l.length := by
  have hnodup : (ofList l).toList.Nodup := (ofList l).sorted.imp fun h => h.ne
  exact hnodup.length_le_of_subset fun _ hx => mem_ofList.mp hx

end OrderedSet
