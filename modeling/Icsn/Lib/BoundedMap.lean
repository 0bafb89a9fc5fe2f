import Mathlib.Data.List.AList
import Mathlib.Data.List.Dedup

/-!
# Bounded finite maps

A finite map with room for `cap` keys, and the interface of the tables that stand for one.

* **`BoundedMap K V cap`** — the map; that it holds at most `cap` keys is a field.
* **`put`** overwrites a present key, adds an absent one while there is room, and otherwise refuses
  and changes nothing.  `get` / `contains` / `remove` / `clear` are the usual ones.
* **`Table T K V`** — the operations alone, so that code over a table can be written once and run
  on an implementation or on the map itself.
* **`Table.Quiet`** — a table that a `get` does not reorganise; **`Table.IsHom`** — a map between
  tables that no operation can tell from the identity.
* **`BoundedMap.Agree`** — maps with the same keys and related values.
-/

/-- A finite map with at most `cap` keys. -/
structure BoundedMap (K V : Type*) (cap : Nat) where
  toAList : AList (fun _ : K => V)
  size_le : toAList.keys.length ≤ cap

/-- The operations of a table from keys to values.  `get` may reorganise the table. -/
class Table (T : Type*) (K V : outParam (Type*)) where
  put : K → V → T → Bool × T
  get : K → T → Option V × T
  contains : K → T → Bool
  remove : K → T → Bool × T
  size : T → Nat

namespace Table

/-- The answer of `get`. -/
def lookup {T K V : Type*} [Table T K V] (k : K) (t : T) : Option V := (get k t).1

/-- A `get` leaves the table as it is. -/
class Quiet (T : Type*) {K V : Type*} [Table T K V] : Prop where
  get_snd : ∀ (k : K) (t : T), (get k t).2 = t

/-- `f` forgets a part of the table that no answer depends on. -/
structure IsHom {T T' K V : Type*} [Table T K V] [Table T' K V] (f : T → T') : Prop where
  get_eq : ∀ k t, get k (f t) = Prod.map id f (get k t)
  put_eq : ∀ k v t, put k v (f t) = Prod.map id f (put k v t)
  remove_eq : ∀ k t, remove k (f t) = Prod.map id f (remove k t)
  contains_eq : ∀ k t, contains k (f t) = contains k t
  size_eq : ∀ t, size (f t) = size t

theorem IsHom.put_snd {T T' K V : Type*} [Table T K V] [Table T' K V] {f : T → T'} (hf : IsHom f)
    (k : K) (v : V) (t : T) : (put k v (f t)).2 = f (put k v t).2 := by
  rw [hf.put_eq]; rfl

theorem get_of_quiet {T K V : Type*} [Table T K V] [Quiet T] (k : K) (t : T) :
    get k t = (lookup k t, t) := Prod.ext rfl (Quiet.get_snd k t)

end Table

namespace BoundedMap

variable {K V : Type*} [DecidableEq K] {cap : Nat}

/-! ## Operations

A `put` of an absent key is refused when there is no room, and then the map is as before.  Nothing
else is refused. -/

/-- The value of a key. -/
def lookup (k : K) (m : BoundedMap K V cap) : Option V := m.toAList.lookup k

/-- The number of keys. -/
def size (m : BoundedMap K V cap) : Nat := m.toAList.keys.length

/-- The map without keys. -/
def empty : BoundedMap K V cap := ⟨∅, by simp⟩

instance : Inhabited (BoundedMap K V cap) := ⟨empty⟩

/-- A put is refused when the key is absent and there is no room. -/
def Accepts (k : K) (m : BoundedMap K V cap) : Prop := k ∈ m.toAList ∨ m.size < cap

instance (k : K) (m : BoundedMap K V cap) : Decidable (m.Accepts k) :=
  inferInstanceAs (Decidable (_ ∨ _))

theorem length_keys_insert (k : K) (v : V) (l : AList (fun _ : K => V)) :
    (l.insert k v).keys.length = if k ∈ l then l.keys.length else l.keys.length + 1 := by
  rw [AList.keys_insert, List.length_cons]
  split
  · next h =>
    have hpos : 0 < l.keys.length := List.length_pos_of_mem (AList.mem_keys.mp h)
    rw [List.length_erase_of_mem (AList.mem_keys.mp h)]
    omega
  · next h => rw [List.erase_of_not_mem (fun hk => h (AList.mem_keys.mpr hk))]

/-- Overwrite or add; refuse when there is no room. -/
def put (k : K) (v : V) (m : BoundedMap K V cap) : Bool × BoundedMap K V cap :=
  if h : m.Accepts k then
    (true, ⟨m.toAList.insert k v, by
      have hsize := m.size_le
      rw [length_keys_insert]
      rcases h with h | h
      · rw [if_pos h]; exact hsize
      · unfold size at h; split <;> omega⟩)
  else (false, m)

/-- Drop a key. -/
def erase (k : K) (m : BoundedMap K V cap) : BoundedMap K V cap :=
  ⟨m.toAList.erase k, by
    rw [AList.keys_erase]
    exact le_trans List.length_erase_le m.size_le⟩

/-- Drop a key and say whether it was there. -/
def remove (k : K) (m : BoundedMap K V cap) : Bool × BoundedMap K V cap :=
  if k ∈ m.toAList then (true, m.erase k) else (false, m)

instance : Table (BoundedMap K V cap) K V where
  put := put
  get k m := (m.lookup k, m)
  contains k m := (m.lookup k).isSome
  remove := remove
  size := size

instance : Table.Quiet (BoundedMap K V cap) := ⟨fun _ _ => rfl⟩

/-! ## Laws

What each operation does to each look-up and to the size.  Proofs over the map use these, and do not
go to the keys. -/

@[simp] theorem table_get (k : K) (m : BoundedMap K V cap) : Table.get k m = (m.lookup k, m) := rfl

@[simp] theorem table_remove (k : K) (m : BoundedMap K V cap) :
    Table.remove k m = m.remove k := rfl

@[simp] theorem table_contains (k : K) (m : BoundedMap K V cap) :
    Table.contains k m = (m.lookup k).isSome := rfl

theorem lookup_isSome_iff {k : K} {m : BoundedMap K V cap} :
    (m.lookup k).isSome ↔ k ∈ m.toAList := AList.lookup_isSome

theorem lookup_eq_none_iff {k : K} {m : BoundedMap K V cap} :
    m.lookup k = none ↔ k ∉ m.toAList := AList.lookup_eq_none

@[simp] theorem lookup_empty (k : K) : (empty : BoundedMap K V cap).lookup k = none := rfl

omit [DecidableEq K] in
@[simp] theorem size_empty : (empty : BoundedMap K V cap).size = 0 := rfl

theorem accepts_iff {k : K} {m : BoundedMap K V cap} :
    m.Accepts k ↔ (m.lookup k).isSome ∨ m.size < cap := by
  rw [lookup_isSome_iff]; rfl

theorem put_of_accepts {k : K} {v : V} {m : BoundedMap K V cap} (h : m.Accepts k) :
    (m.put k v).1 = true := by
  simp [put, h]

theorem put_of_not_accepts {k : K} {v : V} {m : BoundedMap K V cap} (h : ¬ m.Accepts k) :
    m.put k v = (false, m) := by
  simp [put, h]

theorem lookup_put_self {k : K} {v : V} {m : BoundedMap K V cap} (h : m.Accepts k) :
    (m.put k v).2.lookup k = some v := by
  simp [put, h, lookup]

@[simp] theorem lookup_put_ne {k k' : K} (hne : k' ≠ k) (v : V) (m : BoundedMap K V cap) :
    (m.put k v).2.lookup k' = m.lookup k' := by
  unfold put
  split
  · exact AList.lookup_insert_ne hne
  · rfl

theorem lookup_put {k k' : K} {v : V} {m : BoundedMap K V cap} :
    (m.put k v).2.lookup k' = if k' = k ∧ m.Accepts k then some v else m.lookup k' := by
  by_cases hk : k' = k
  · subst hk
    by_cases hacc : m.Accepts k'
    · rw [lookup_put_self hacc, if_pos ⟨rfl, hacc⟩]
    · rw [put_of_not_accepts hacc, if_neg fun h => hacc h.2]
  · rw [lookup_put_ne hk, if_neg fun h => hk h.1]

theorem lookup_put_of_accepts {k : K} {v : V} {m : BoundedMap K V cap} (h : m.Accepts k)
    (k' : K) : (m.put k v).2.lookup k' = if k' = k then some v else m.lookup k' := by
  split
  · next heq =>
    rw [heq]
    exact lookup_put_self h
  · next hne => exact lookup_put_ne hne v m

/-- A map whose keys are among the distinct members of a list, of which there is room for all, takes
each of them. -/
theorem accepts_of_subset {k : K} {m : BoundedMap K V cap} {l : List K}
    (hkeys : ∀ k', m.lookup k' ≠ none → k' ∈ l) (hk : k ∈ l) (hroom : l.dedup.length ≤ cap) :
    m.Accepts k := by
  by_cases hmem : k ∈ m.toAList
  · exact Or.inl hmem
  · right
    have hnodup : (k :: m.toAList.keys).Nodup :=
      List.nodup_cons.mpr ⟨fun h => hmem (AList.mem_keys.mpr h), m.toAList.keys_nodup⟩
    have hsub : k :: m.toAList.keys ⊆ l.dedup := by
      intro k' hk'
      rw [List.mem_dedup]
      rcases List.mem_cons.mp hk' with rfl | hk'
      · exact hk
      · refine hkeys k' fun hnone => ?_
        exact lookup_eq_none_iff.mp hnone (AList.mem_keys.mpr hk')
    have hlen := hnodup.length_le_of_subset hsub
    rw [List.length_cons] at hlen
    show m.toAList.keys.length < cap
    omega

theorem size_put_of_accepts {k : K} {v : V} {m : BoundedMap K V cap} (h : m.Accepts k) :
    (m.put k v).2.size = if (m.lookup k).isSome then m.size else m.size + 1 := by
  unfold put
  rw [dif_pos h]
  simp only [lookup_isSome_iff]
  exact length_keys_insert k v m.toAList

@[simp] theorem remove_fst (k : K) (m : BoundedMap K V cap) :
    (m.remove k).1 = (m.lookup k).isSome := by
  unfold remove
  split
  · next h => simp [lookup_isSome_iff.mpr h]
  · next h => simp [lookup_eq_none_iff.mpr h]

@[simp] theorem lookup_remove_self (k : K) (m : BoundedMap K V cap) :
    (m.remove k).2.lookup k = none := by
  unfold remove
  split
  · exact AList.lookup_erase k _
  · next h => exact lookup_eq_none_iff.mpr h

@[simp] theorem lookup_remove_ne {k k' : K} (hne : k' ≠ k) (m : BoundedMap K V cap) :
    (m.remove k).2.lookup k' = m.lookup k' := by
  unfold remove
  split
  · exact AList.lookup_erase_ne hne
  · rfl

theorem size_remove {k : K} {m : BoundedMap K V cap} :
    (m.remove k).2.size = if (m.lookup k).isSome then m.size - 1 else m.size := by
  unfold remove
  by_cases hmem : k ∈ m.toAList
  · rw [if_pos hmem, if_pos (lookup_isSome_iff.mpr hmem)]
    show (AList.erase k m.toAList).keys.length = _
    rw [AList.keys_erase, List.length_erase_of_mem (AList.mem_keys.mp hmem)]; rfl
  · rw [if_neg hmem, if_neg (by simp [lookup_eq_none_iff.mpr hmem])]

/-! ## Maps with related values

Two maps that are changed in step: they refuse the same, and their values stay related. -/

section Agree

variable {W : Type*} {R : V → W → Prop}

/-- The maps have the same keys, with related values. -/
structure Agree (R : V → W → Prop) (m : BoundedMap K V cap) (m' : BoundedMap K W cap) : Prop where
  lookup_rel : ∀ k, Option.Rel R (m.lookup k) (m'.lookup k)
  size_eq : m.size = m'.size

theorem agree_empty :
    Agree R (empty : BoundedMap K V cap) (empty : BoundedMap K W cap) :=
  ⟨fun _ => Option.Rel.none, rfl⟩

variable {m : BoundedMap K V cap} {m' : BoundedMap K W cap}

theorem Agree.isSome_eq (h : Agree R m m') (k : K) :
    (m.lookup k).isSome = (m'.lookup k).isSome := by
  have hrel := h.lookup_rel k
  revert hrel
  cases m.lookup k <;> cases m'.lookup k <;> rintro (_ | _) <;> rfl

theorem Agree.accepts_iff (h : Agree R m m') (k : K) : m.Accepts k ↔ m'.Accepts k := by
  rw [BoundedMap.accepts_iff, BoundedMap.accepts_iff, h.isSome_eq, h.size_eq]

theorem Agree.put (h : Agree R m m') (k : K) {v : V} {w : W} (hv : R v w) :
    Agree R (m.put k v).2 (m'.put k w).2 := by
  by_cases hacc : m.Accepts k
  · have hacc' := (h.accepts_iff k).mp hacc
    refine ⟨fun k' => ?_, ?_⟩
    · rw [lookup_put_of_accepts hacc, lookup_put_of_accepts hacc']
      split
      · exact Option.Rel.some hv
      · exact h.lookup_rel k'
    · rw [size_put_of_accepts hacc, size_put_of_accepts hacc', h.isSome_eq, h.size_eq]
  · rw [put_of_not_accepts hacc, put_of_not_accepts fun hacc' => hacc ((h.accepts_iff k).mpr hacc')]
    exact h

theorem Agree.remove (h : Agree R m m') (k : K) : Agree R (m.remove k).2 (m'.remove k).2 := by
  refine ⟨fun k' => ?_, by rw [size_remove, size_remove, h.isSome_eq, h.size_eq]⟩
  by_cases hk : k' = k
  · rw [hk, lookup_remove_self, lookup_remove_self]
    exact Option.Rel.none
  · rw [lookup_remove_ne hk, lookup_remove_ne hk]
    exact h.lookup_rel k'

end Agree

end BoundedMap
