import Icsn.DataAccess.CacheIndex
import Mathlib.Algebra.BigOperators.Group.Finset.Basic
import Mathlib.Algebra.BigOperators.Group.Finset.Piecewise

/-!
# Icsn — totals over the entries of a cache

The hash index may lose entries, so that several valid entries have one key.  What is bounded over
a run is therefore a total over all of them.

* **`total`** — the sum of what the valid entries weigh.
* **`total_put_le`** / **`total_remove`** — what the two writers do to it.
* **`countWhere`** — the number of valid entries with a property, as such a total.
* **`Holds`** — all valid entries have a property, found or not.
-/

namespace Icsn.CacheIndex

variable {V : Type} {maxSize : Nat}

/-- The sum of what the valid entries weigh. -/
def total (weight : Str → V → Nat) (x : CacheIndex V maxSize) : Nat :=
  ∑ i ∈ x.validSet, weight (x.key i) (x.value i)

section Total

variable (weight : Str → V → Nat) {x : CacheIndex V maxSize}

/-- One entry's share. -/
theorem total_eq_erase_add {i : Fin maxSize} (hi : x.valid i = true) :
    x.total weight = (∑ j ∈ x.validSet.erase i, weight (x.key j) (x.value j))
      + weight (x.key i) (x.value i) :=
  (Finset.sum_erase_add _ _ (mem_validSet.mpr hi)).symm

/-- Other entries do not notice a change at `i`. -/
theorem sum_erase_congr (x x' : CacheIndex V maxSize) (i : Fin maxSize)
    (hset : x'.validSet.erase i = x.validSet.erase i)
    (hkey : ∀ j, j ≠ i → x'.key j = x.key j ∧ x'.value j = x.value j) :
    ∑ j ∈ x'.validSet.erase i, weight (x'.key j) (x'.value j)
      = ∑ j ∈ x.validSet.erase i, weight (x.key j) (x.value j) := by
  rw [hset]
  apply Finset.sum_congr rfl
  intro j hj
  obtain ⟨hk, hv⟩ := hkey j (Finset.ne_of_mem_erase hj)
  rw [hk, hv]

theorem total_overwrite {i : Fin maxSize} (hi : x.valid i = true) (v : V) :
    (x.overwrite i v).total weight + weight (x.key i) (x.value i)
      = x.total weight + weight (x.key i) v := by
  have hi' : (x.overwrite i v).valid i = true := hi
  have hrest : _ = _ := sum_erase_congr weight x (x.overwrite i v) i rfl
    fun j hj => ⟨rfl, Function.update_of_ne hj _ _⟩
  have hval : (x.overwrite i v).value i = v := Function.update_self ..
  rw [total_eq_erase_add weight hi, total_eq_erase_add weight hi', hrest, hval]
  show _ + weight (x.key i) v + _ = _
  omega

theorem total_store {i : Fin maxSize} (hi : x.valid i = false) (h : Fin (maxSize * 2))
    (key : Str) (v : V) :
    (x.store h i key v).total weight = x.total weight + weight key v := by
  have hi' : (x.store h i key v).valid i = true := Function.update_self ..
  have hset : (x.store h i key v).validSet.erase i = x.validSet.erase i := by
    ext j
    simp only [Finset.mem_erase, mem_validSet, store, Function.update_apply]
    refine and_congr_right fun hj => ?_
    rw [if_neg hj]
  have hrest : _ = _ := sum_erase_congr weight x (x.store h i key v) i hset
    fun j hj => ⟨Function.update_of_ne hj _ _, Function.update_of_ne hj _ _⟩
  have hkey : (x.store h i key v).key i = key := Function.update_self ..
  have hval : (x.store h i key v).value i = v := Function.update_self ..
  have hnot : i ∉ x.validSet := by rw [mem_validSet, hi]; decide
  rw [total_eq_erase_add weight hi', hrest, hkey, hval, Finset.erase_eq_of_notMem hnot, total]

theorem total_unstore {i : Fin maxSize} (hi : x.valid i = true) (h : Fin (maxSize * 2)) :
    (x.unstore h i).total weight + weight (x.key i) (x.value i) = x.total weight := by
  have hset : (x.unstore h i).validSet = x.validSet.erase i := by
    ext j
    simp only [Finset.mem_erase, mem_validSet, unstore, Function.update_apply]
    by_cases hj : j = i <;> simp [hj]
  have hrest : _ = _ := sum_erase_congr weight x (x.unstore h i) i
    (by rw [hset, Finset.erase_idem]) fun j hj => ⟨Function.update_of_ne hj _ _, rfl⟩
  rw [total_eq_erase_add weight hi, ← hrest, hset, Finset.erase_idem, total, hset]

end Total

section Operations

variable [NeZero maxSize] (weight : Str → V → Nat) {x : CacheIndex V maxSize}

/-- **A `put`** replaces a value, adds one, or does nothing. -/
theorem total_put_le (hx : x.Wf) (key : Str) (v : V) :
    (x.put key v).2.total weight + ((x.lookup key).elim 0 (weight key))
      ≤ x.total weight + max (weight key v) ((x.lookup key).elim 0 (weight key)) := by
  rcases put_cases hx key v with ⟨h, i, hs, heq⟩ | ⟨hs, -, heq⟩ | ⟨h, i, hs, -, hi, -, heq⟩
  · obtain ⟨-, hv, hk, -⟩ := findHashSlot_eq_some_iff.mp hs
    have htotal := total_overwrite weight hv v
    have hlook : x.lookup key = some (x.value i) := lookup_eq_some_iff.mpr ⟨h, i, hs, rfl⟩
    rw [hk] at htotal
    rw [heq, hlook, Option.elim_some]
    show (x.overwrite i v).total weight + _ ≤ _
    omega
  · rw [heq, lookup_eq_none_iff.mpr hs]
    exact Nat.add_le_add_left (Nat.zero_le _) _
  · rw [heq, lookup_eq_none_iff.mpr hs, total_store weight hi]
    show _ + 0 ≤ _
    omega

/-- **A `remove`** takes out what it finds. -/
theorem total_remove (key : Str) :
    (x.remove key).2.total weight + ((x.lookup key).elim 0 (weight key)) = x.total weight := by
  rcases remove_cases (x := x) key with ⟨hs, heq⟩ | ⟨h, i, hs, heq⟩
  · rw [heq, lookup_eq_none_iff.mpr hs]
    rfl
  · obtain ⟨-, hv, hk, -⟩ := findHashSlot_eq_some_iff.mp hs
    have hlook : x.lookup key = some (x.value i) := lookup_eq_some_iff.mpr ⟨h, i, hs, rfl⟩
    have htotal := total_unstore weight hv h
    rw [hk] at htotal
    rw [heq, hlook, Option.elim_some]
    exact htotal

end Operations

theorem total_eq_zero_of_empty (weight : Str → V → Nat) {x : CacheIndex V maxSize}
    (h : ∀ i, x.valid i = false) : x.total weight = 0 := by
  apply Finset.sum_eq_zero
  intro i hi
  rw [mem_validSet, h i] at hi
  cases hi

@[simp] theorem total_clear (weight : Str → V → Nat) (x : CacheIndex V maxSize) :
    x.clear.total weight = 0 := total_eq_zero_of_empty weight fun _ => rfl

/-! ## Counting

A property of values, counted over the valid entries: the total in which an entry weighs one if it
has the property. -/

/-- The number of valid entries with the property. -/
def countWhere (p : Str → V → Bool) (x : CacheIndex V maxSize) : Nat :=
  (x.validSet.filter fun i => p (x.key i) (x.value i) = true).card

section Count

variable {p : Str → V → Bool} {x : CacheIndex V maxSize} {key : Str}

theorem countWhere_eq_total (p : Str → V → Bool) (x : CacheIndex V maxSize) :
    x.countWhere p = x.total fun key v => (p key v).toNat := by
  rw [countWhere, total, Finset.card_filter]
  apply Finset.sum_congr rfl
  intro i _
  cases p (x.key i) (x.value i) <;> rfl

theorem elim_toNat (p : Str → V → Bool) (key : Str) (found : Option V) :
    found.elim 0 (fun v => (p key v).toNat) = (found.any (p key)).toNat := by
  cases found <;> rfl

variable [NeZero maxSize]

/-- **A `put` counts for one at most**, and for nothing when the value it replaces had the
property. -/
theorem countWhere_put_le (hx : x.Wf) (key : Str) (v : V) :
    (x.put key v).2.countWhere p + ((x.lookup key).any (p key)).toNat
      ≤ x.countWhere p + max (p key v).toNat ((x.lookup key).any (p key)).toNat := by
  rw [countWhere_eq_total, countWhere_eq_total, ← elim_toNat]
  exact total_put_le _ hx key v

/-- **A `remove` takes the entry it finds out of the count.** -/
theorem countWhere_remove (key : Str) :
    (x.remove key).2.countWhere p + ((x.lookup key).any (p key)).toNat = x.countWhere p := by
  rw [countWhere_eq_total, countWhere_eq_total, ← elim_toNat]
  exact total_remove _ key

/-- A key with a value is counted. -/
theorem countWhere_pos_of_lookup {v : V} (hlook : x.lookup key = some v) (hp : p key v = true) :
    0 < x.countWhere p := by
  have hcount := countWhere_remove (p := p) (x := x) key
  rw [hlook, Option.any_some, hp] at hcount
  have htrue : true.toNat = 1 := rfl
  omega

end Count

@[simp] theorem countWhere_clear (p : Str → V → Bool) (x : CacheIndex V maxSize) :
    x.clear.countWhere p = 0 := by
  rw [countWhere_eq_total, total_clear]

@[simp] theorem countWhere_init [Inhabited V] (p : Str → V → Bool) :
    (init : CacheIndex V maxSize).countWhere p = 0 := by
  rw [countWhere_eq_total]
  exact total_eq_zero_of_empty _ fun _ => rfl

/-! ## A property of all entries

What holds of all valid entries holds of what is looked up.  The other way round is wrong for an
entry that the probes do not reach, and such an entry still counts. -/

/-- Every valid entry has the property. -/
def Holds (P : Str → V → Prop) (x : CacheIndex V maxSize) : Prop :=
  ∀ i, x.valid i = true → P (x.key i) (x.value i)

section Holds

variable {P : Str → V → Prop} {x : CacheIndex V maxSize} {key : Str}

theorem holds_clear (P : Str → V → Prop) (x : CacheIndex V maxSize) : x.clear.Holds P :=
  fun _ hi => Bool.noConfusion hi

theorem holds_init [Inhabited V] (P : Str → V → Prop) : (init : CacheIndex V maxSize).Holds P :=
  fun _ hi => Bool.noConfusion hi

variable [NeZero maxSize]

/-- What is looked up is a valid entry. -/
theorem Holds.of_lookup (h : x.Holds P) {v : V} (hlook : x.lookup key = some v) : P key v := by
  obtain ⟨s, i, hfound, rfl⟩ := lookup_eq_some_iff.mp hlook
  obtain ⟨-, hvalid, rfl, -⟩ := findHashSlot_eq_some_iff.mp hfound
  exact h i hvalid

theorem Holds.put (h : x.Holds P) (hx : x.Wf) {v : V} (hv : P key v) :
    (x.put key v).2.Holds P := by
  rcases put_cases hx key v with ⟨s, j, hs, heq⟩ | ⟨-, -, heq⟩ | ⟨s, j, -, -, -, -, heq⟩
  · obtain ⟨-, -, hkey, -⟩ := findHashSlot_eq_some_iff.mp hs
    rw [heq]
    intro i hi
    by_cases hij : i = j
    · subst hij
      show P (x.key i) (Function.update x.value i v i)
      rw [Function.update_self, hkey]
      exact hv
    · show P (x.key i) (Function.update x.value j v i)
      rw [Function.update_of_ne hij]
      exact h i hi
  · rw [heq]
    exact h
  · rw [heq]
    intro i hi
    show P (Function.update x.key j key i) (Function.update x.value j v i)
    by_cases hij : i = j
    · rw [hij, Function.update_self, Function.update_self]
      exact hv
    · have hvalid : Function.update x.valid j true i = true := hi
      rw [Function.update_of_ne hij] at hvalid
      rw [Function.update_of_ne hij, Function.update_of_ne hij]
      exact h i hvalid

theorem Holds.remove (h : x.Holds P) (key : Str) : (x.remove key).2.Holds P := by
  rcases remove_cases (x := x) key with ⟨-, heq⟩ | ⟨s, j, -, heq⟩
  · rw [heq]
    exact h
  · rw [heq]
    intro i hi
    by_cases hij : i = j
    · have hvalid : Function.update x.valid j false i = true := hi
      rw [hij, Function.update_self] at hvalid
      cases hvalid
    · have hvalid : Function.update x.valid j false i = true := hi
      rw [Function.update_of_ne hij] at hvalid
      show P (Function.update x.key j _ i) (x.value i)
      rw [Function.update_of_ne hij]
      exact h i hvalid

end Holds

end Icsn.CacheIndex
