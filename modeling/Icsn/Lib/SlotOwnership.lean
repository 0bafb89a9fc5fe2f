import Mathlib.Logic.Function.Basic
import Mathlib.Data.List.Nodup
import Mathlib.Data.Fintype.EquivFin

/-!
# Slots, their owners, and the blocks in them

A table whose entries own slots of another table, and slots that hold blocks of a heap.

* **`Matched`** — no slot has two owners, and the slots in use are the owned ones.
  `Matched.give` hands a free slot to an owner, which lets go of the one it had; `Matched.drop`
  takes an owner's slot away; `Matched.all_used_iff` counts both sides.
* **`Ledger`** — the block each slot holds, the number of blocks handed out so far, and the blocks
  given back.  **`Ledger.Balanced`**: every block handed out is in one slot or was given back once.
  Filling an empty slot and emptying a slot keep the balance.
-/

namespace SlotOwnership

variable {ι κ : Type*} [DecidableEq ι] [DecidableEq κ]

/-! ## Owners

Owners change one at a time, and let go of their old slot when they take a new one.  So no slot is
left in use without an owner. -/

/-- No slot has two owners, and the slots in use are the owned ones. -/
structure Matched (owns : ι → Option κ) (used : κ → Prop) : Prop where
  owner_unique : ∀ {i j k}, owns i = some k → owns j = some k → i = j
  used_iff : ∀ k, used k ↔ ∃ i, owns i = some k

section Matched

variable {owns : ι → Option κ} {used used' : κ → Prop}

omit [DecidableEq ι] [DecidableEq κ] in
theorem Matched.congr (h : Matched owns used) (hused : ∀ k, used' k ↔ used k) :
    Matched owns used' where
  owner_unique := h.owner_unique
  used_iff k := (hused k).trans (h.used_iff k)

omit [DecidableEq ι] [DecidableEq κ] in
theorem matched_none : Matched (fun _ : ι => (none : Option κ)) (fun _ => False) where
  owner_unique h := by cases h
  used_iff k := by simp

omit [DecidableEq ι] [DecidableEq κ] in
/-- The owners of the other slots do not notice what happens to `i`. -/
theorem Matched.owned_ne (h : Matched owns used) {i : ι} {k : κ} :
    (∃ j, j ≠ i ∧ owns j = some k) ↔ used k ∧ owns i ≠ some k := by
  rw [h.used_iff]
  refine ⟨fun ⟨j, hji, hj⟩ => ⟨⟨j, hj⟩, fun hi => hji (h.owner_unique hj hi)⟩, ?_⟩
  exact fun ⟨⟨j, hj⟩, hi⟩ => ⟨j, fun hji => hi (hji ▸ hj), hj⟩

omit [DecidableEq κ] in
/-- An owner gives its slot up. -/
theorem Matched.drop (h : Matched owns used) (i : ι) :
    Matched (Function.update owns i none) (fun k => used k ∧ owns i ≠ some k) where
  owner_unique := by
    intro j j' k hj hj'
    simp only [Function.update_apply] at hj hj'
    split at hj
    · cases hj
    · split at hj'
      · cases hj'
      · exact h.owner_unique hj hj'
  used_iff k := by
    rw [← h.owned_ne]
    refine exists_congr fun j => ?_
    by_cases hji : j = i <;> simp [hji]

omit [DecidableEq κ] in
/-- An owner takes a free slot, and gives up the one it had. -/
theorem Matched.give (h : Matched owns used) {k : κ} (hfree : ¬ used k) (i : ι) :
    Matched (Function.update owns i (some k)) (fun k' => k' = k ∨ (used k' ∧ owns i ≠ some k'))
    where
  owner_unique := by
    -- nobody else owns the new slot
    have hnew : ∀ j, owns j ≠ some k := fun j hj => hfree ((h.used_iff k).mpr ⟨j, hj⟩)
    intro j j' k' hj hj'
    simp only [Function.update_apply] at hj hj'
    split at hj <;> split at hj'
    · next hji hji' => rw [hji, hji']
    · obtain rfl := Option.some.inj hj; exact absurd hj' (hnew j')
    · obtain rfl := Option.some.inj hj'; exact absurd hj (hnew j)
    · exact h.owner_unique hj hj'
  used_iff k' := by
    rw [← h.owned_ne]
    constructor
    · rintro (rfl | ⟨j, hji, hj⟩)
      · exact ⟨i, Function.update_self ..⟩
      · exact ⟨j, by rw [Function.update_of_ne hji]; exact hj⟩
    · intro ⟨j, hj⟩
      by_cases hji : j = i
      · rw [hji, Function.update_self] at hj
        exact Or.inl (Option.some.inj hj).symm
      · rw [Function.update_of_ne hji] at hj
        exact Or.inr ⟨j, hji, hj⟩

omit [DecidableEq ι] [DecidableEq κ] in
/-- With as many slots as owners, all slots are in use exactly if all owners have one. -/
theorem Matched.all_used_iff [Finite ι] (h : Matched owns used) {slot : ι → κ}
    (hinj : Function.Injective slot) (hslot : ∀ k, used k → ∃ s, slot s = k) :
    (∀ s, used (slot s)) ↔ ∀ i, (owns i).isSome = true := by
  constructor
  · intro hall
    have howner : ∀ s, ∃ i, owns i = some (slot s) := fun s => (h.used_iff _).mp (hall s)
    -- as many slots as owners, so an injection from the one to the other is onto
    choose owner howner using howner
    have hone : Function.Injective owner := by
      intro s t hst
      have heq := howner s
      rw [hst, howner t] at heq
      exact hinj (Option.some.inj heq).symm
    intro i
    obtain ⟨s, rfl⟩ := Finite.injective_iff_surjective.mp hone i
    rw [howner s]
    rfl
  · intro hall
    have howned : ∀ i, ∃ s, owns i = some (slot s) := by
      intro i
      obtain ⟨k, hk⟩ := Option.isSome_iff_exists.mp (hall i)
      obtain ⟨s, rfl⟩ := hslot k ((h.used_iff k).mpr ⟨i, hk⟩)
      exact ⟨s, hk⟩
    choose owned howned using howned
    have hone : Function.Injective owned := by
      intro i j hij
      have heq := howned i
      rw [hij] at heq
      exact h.owner_unique heq (howned j)
    intro s
    obtain ⟨i, rfl⟩ := Finite.injective_iff_surjective.mp hone s
    exact (h.used_iff _).mpr ⟨i, howned i⟩

end Matched

/-! ## Blocks

Blocks are numbered as they are handed out, so that a leak or a second release would show in the
balance. -/

/-- The block in each slot, the number of blocks handed out, and those given back, in order. -/
structure Ledger (κ : Type*) where
  held : κ → Option Nat
  allocated : Nat
  freed : List Nat

namespace Ledger

/-- The next block goes to a slot. -/
def fill (k : κ) (l : Ledger κ) : Ledger κ :=
  { l with held := Function.update l.held k (some l.allocated), allocated := l.allocated + 1 }

/-- The block of a slot, if it holds one, is given back. -/
def empty (k : κ) (l : Ledger κ) : Ledger κ :=
  { l with held := Function.update l.held k none, freed := l.freed ++ (l.held k).toList }

/-- Every block handed out is in one slot or was given back, and none of them twice. -/
structure Balanced (l : Ledger κ) : Prop where
  held_unique : ∀ {j k b}, l.held j = some b → l.held k = some b → j = k
  accounted : ∀ b, b < l.allocated ↔ b ∈ l.freed ∨ ∃ k, l.held k = some b
  notMem_freed : ∀ {k b}, l.held k = some b → b ∉ l.freed
  freed_nodup : l.freed.Nodup

variable {l : Ledger κ} {j k : κ} {b : Nat}

@[simp] theorem held_fill_self : (l.fill k).held k = some l.allocated := Function.update_self ..

theorem held_fill_ne (h : j ≠ k) : (l.fill k).held j = l.held j := Function.update_of_ne h _ _

@[simp] theorem held_empty_self : (l.empty k).held k = none := Function.update_self ..

theorem held_empty_ne (h : j ≠ k) : (l.empty k).held j = l.held j := Function.update_of_ne h _ _

omit [DecidableEq κ] in
theorem balanced_start : Balanced (⟨fun _ => none, 0, []⟩ : Ledger κ) where
  held_unique h := by cases h
  accounted b := by simp
  notMem_freed h := by cases h
  freed_nodup := List.nodup_nil

omit [DecidableEq κ] in
theorem Balanced.lt_allocated (h : l.Balanced) (hk : l.held k = some b) : b < l.allocated :=
  (h.accounted b).mpr (Or.inr ⟨k, hk⟩)

/-- After a fill, a block is the new one or where it was. -/
theorem held_fill_iff (hk : l.held k = none) :
    (l.fill k).held j = some b ↔ (j = k ∧ b = l.allocated) ∨ l.held j = some b := by
  by_cases hjk : j = k
  · subst hjk
    rw [held_fill_self, hk, Option.some_inj, eq_comm]
    simp
  · rw [held_fill_ne hjk]
    simp [hjk]

/-- After a slot is emptied, the other blocks are where they were. -/
theorem held_empty_iff : (l.empty k).held j = some b ↔ j ≠ k ∧ l.held j = some b := by
  by_cases hjk : j = k
  · subst hjk
    simp
  · rw [held_empty_ne hjk]
    simp [hjk]

theorem Balanced.fill (h : l.Balanced) (hk : l.held k = none) : (l.fill k).Balanced where
  held_unique := by
    intro i j b hi hj
    rcases (held_fill_iff hk).mp hi with ⟨hik, hb⟩ | hold
    · rcases (held_fill_iff hk).mp hj with ⟨hjk, -⟩ | hold'
      · rw [hik, hjk]
      · exact absurd (h.lt_allocated hold') (by omega)
    · rcases (held_fill_iff hk).mp hj with ⟨-, hb⟩ | hold'
      · exact absurd (h.lt_allocated hold) (by omega)
      · exact h.held_unique hold hold'
  accounted b := by
    have hsplit : (∃ j, (l.fill k).held j = some b) ↔
        b = l.allocated ∨ ∃ j, l.held j = some b := by
      simp only [held_fill_iff hk, exists_or, exists_and_right, exists_eq, true_and]
    have hold := h.accounted b
    rw [hsplit]
    show b < l.allocated + 1 ↔ b ∈ l.freed ∨ _
    rw [Nat.lt_succ_iff_lt_or_eq, hold]
    tauto
  notMem_freed := by
    intro j b hj
    show b ∉ l.freed
    rcases (held_fill_iff hk).mp hj with ⟨-, rfl⟩ | hj
    · exact fun hb => absurd ((h.accounted _).mpr (Or.inl hb)) (Nat.lt_irrefl _)
    · exact h.notMem_freed hj
  freed_nodup := h.freed_nodup

theorem Balanced.empty (h : l.Balanced) (k : κ) : (l.empty k).Balanced where
  held_unique hi hj := h.held_unique (held_empty_iff.mp hi).2 (held_empty_iff.mp hj).2
  accounted b := by
    have hsplit : (∃ j, l.held j = some b) ↔
        b ∈ (l.held k).toList ∨ ∃ j, (l.empty k).held j = some b := by
      rw [Option.mem_toList]
      refine ⟨fun ⟨j, hj⟩ => ?_, fun h => h.elim (fun hk => ⟨k, hk⟩) fun ⟨j, hj⟩ => ?_⟩
      · by_cases hjk : j = k
        · exact Or.inl (hjk ▸ hj)
        · exact Or.inr ⟨j, held_empty_iff.mpr ⟨hjk, hj⟩⟩
      · exact ⟨j, (held_empty_iff.mp hj).2⟩
    show b < l.allocated ↔ b ∈ l.freed ++ (l.held k).toList ∨ _
    rw [h.accounted b, hsplit, List.mem_append, or_assoc]
  notMem_freed := by
    intro j b hj
    obtain ⟨hjk, hj⟩ := held_empty_iff.mp hj
    show b ∉ l.freed ++ (l.held k).toList
    rw [List.mem_append, Option.mem_toList, not_or]
    exact ⟨h.notMem_freed hj, fun hk => hjk (h.held_unique hj hk)⟩
  freed_nodup := by
    show (l.freed ++ (l.held k).toList).Nodup
    cases hk : l.held k with
    | none => simpa using h.freed_nodup
    | some b =>
      rw [Option.toList_some, List.nodup_append]
      refine ⟨h.freed_nodup, List.nodup_singleton b, fun b' hb' b'' hb'' heq => ?_⟩
      obtain rfl := List.mem_singleton.mp hb''
      exact h.notMem_freed hk (heq ▸ hb')

end Ledger

end SlotOwnership
