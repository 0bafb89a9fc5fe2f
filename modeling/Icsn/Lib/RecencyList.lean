import Mathlib.Data.List.Basic
import Mathlib.Data.List.Nodup

/-!
# Key–value lists in the order of use

A list of keys with their values, the key used last first.

* **`store`** — the key comes first, with a new value; **`touch`** — a key of the list comes first.
* `lookup_eq_some_iff_mem` — with each key once, look-ups find the members.
* `map_store` / `map_touch` — a list that stands for another one, value by value.
* **`map_use`** — a list of places, the one used last first, read as such a list.
-/

namespace RecencyList

variable {K V W : Type*} [BEq K] {key : K} {v : V} {l : List (K × V)}

/-- The key is used, with a new value. -/
def store (key : K) (v : V) (l : List (K × V)) : List (K × V) :=
  (key, v) :: l.filter fun p => !p.1 == key

/-- The key is used, if it is there. -/
def touch (key : K) (l : List (K × V)) : List (K × V) :=
  match l.lookup key with
  | some v => store key v l
  | none => l

theorem touch_of_some (h : l.lookup key = some v) : touch key l = store key v l := by
  unfold touch
  rw [h]

theorem touch_of_none (h : l.lookup key = none) : touch key l = l := by
  unfold touch
  rw [h]

/-- A touch before a new value makes no difference. -/
theorem store_touch [LawfulBEq K] (key : K) (v : V) (l : List (K × V)) :
    store key v (touch key l) = store key v l := by
  cases h : l.lookup key with
  | none => rw [touch_of_none h]
  | some w =>
    rw [touch_of_some h]
    unfold store
    simp

/-- With each key once, look-ups find the members. -/
theorem lookup_eq_some_iff_mem [LawfulBEq K] (h : (l.map Prod.fst).Nodup) :
    l.lookup key = some v ↔ (key, v) ∈ l := by
  induction l with
  | nil => simp
  | cons p l ih =>
    obtain ⟨k, w⟩ := p
    rw [List.map_cons, List.nodup_cons] at h
    by_cases hk : key = k
    · subst hk
      have hnot : (key, v) ∉ l := fun hmem => h.1 (List.mem_map.mpr ⟨_, hmem, rfl⟩)
      simp [hnot, eq_comm]
    · rw [List.lookup_cons, beq_eq_false_iff_ne.mpr hk, ih h.2]
      simp [hk]

/-! ## Lists that stand for others

`store` and `touch` look at keys only, so that they go along with any map of the values. -/

section Map

variable (f : V → W)

theorem lookup_map (key : K) (l : List (K × V)) :
    (l.map (Prod.map id f)).lookup key = (l.lookup key).map f := by
  induction l with
  | nil => rfl
  | cons p l ih =>
    obtain ⟨k, w⟩ := p
    rw [List.map_cons, Prod.map_apply, id_eq, List.lookup_cons, List.lookup_cons, ih]
    cases key == k <;> rfl

theorem map_store (key : K) (v : V) (l : List (K × V)) :
    (store key v l).map (Prod.map id f) = store key (f v) (l.map (Prod.map id f)) := by
  unfold store
  rw [List.map_cons, List.filter_map]
  rfl

theorem map_touch (key : K) (l : List (K × V)) :
    (touch key l).map (Prod.map id f) = touch key (l.map (Prod.map id f)) := by
  have hlookup := lookup_map f key l
  cases h : l.lookup key with
  | none =>
    rw [h] at hlookup
    rw [touch_of_none h, touch_of_none hlookup]
  | some v =>
    rw [h] at hlookup
    rw [touch_of_some h, touch_of_some hlookup, map_store]

end Map

/-! ## Places

A cache keeps its entries in places that do not move, with links for their order.  Reading keys and
values off the places in that order gives such a list. -/

/-- **A place is used**: it comes first, the others follow as before, and no other place has its
key. -/
theorem map_use [LawfulBEq K] {ι : Type*} [DecidableEq ι] {order : List ι}
    {before after : ι → K × V} {i : ι}
    (hsame : ∀ j ∈ order, j ≠ i → after j = before j)
    (hkey : ∀ j ∈ order, (before j).1 = (after i).1 ↔ j = i) :
    (i :: order.filter fun j => !j == i).map after
      = store (after i).1 (after i).2 (order.map before) := by
  unfold store
  rw [List.map_cons, List.filter_map]
  congr 1
  have hfilter : order.filter (fun j => !j == i)
      = order.filter ((fun p => !p.1 == (after i).1) ∘ before) := by
    apply List.filter_congr
    intro j hj
    simp [hkey j hj]
  rw [← hfilter]
  apply List.map_congr_left
  intro j hj
  rw [List.mem_filter] at hj
  exact hsame j hj.1 (by simpa using hj.2)

end RecencyList
