import Icsn.DataAccess.CacheOrder
import Icsn.Lib.RecencyList

/-!
# Icsn — the listing of the cache

`printCache` goes through the list of the cache and prints a numbered row for each valid entry.  In
a cache whose look-ups are exact (`CacheIndex.Chained`) the rows are those of a `RecencyList`: a
`put` stores a key in it, and a `get` touches one.

* **`pairs`** — the keys and values of the valid entries, the one used last first.
* **`pairs_put`** / **`pairs_get`** — what the two operations that use an entry do to them.
* **`printCache_eq`** — the loop ends, and prints a row for each of them.
-/

namespace Icsn.FixedSizeLRUCache

open RecencyList (store touch touch_of_some touch_of_none map_use lookup_eq_some_iff_mem)

variable {V : Type} {maxSize : Nat}

/-! ## The loop

The loop follows the links until the end of the list or until it has printed as many rows as there
are entries.  On the list of the cache the first comes no later than the second. -/

/-- A row of the listing; the key is printed up to its first NUL. -/
structure CacheRow where
  index : Nat
  key : Str
deriving DecidableEq

/-- What `printCache` prints: the two numbers of the title, and the rows. -/
structure CacheListing where
  currentSize : Nat
  maxSize : Nat
  rows : List CacheRow
deriving DecidableEq

/-- The loop from an entry on. -/
def printRows (c : FixedSizeLRUCache V maxSize) : Nat → Option (Fin maxSize) → Nat →
    Option (List CacheRow)
  | 0, _, _ => none
  | _ + 1, none, _ => some []
  | fuel + 1, some current, index =>
    if index < maxSize then
      if (c.entries current).valid = true then
        (c.printRows fuel (c.entries current).next (index + 1)).map
          ({ index, key := cstr (c.entries current).key } :: ·)
      else c.printRows fuel (c.entries current).next index
    else some []

def printCache (fuel : Nat) (c : FixedSizeLRUCache V maxSize) : Option CacheListing :=
  (c.printRows fuel c.head 0).map fun rows => { currentSize := c.currentSize, maxSize, rows }

/-- **The loop** over valid entries that fit the table. -/
theorem printRows_eq {c : FixedSizeLRUCache V maxSize} {order : List (Fin maxSize)}
    {o : Option (Fin maxSize)} (hwalk : Walk (fun i => (c.entries i).next) o order)
    (hvalid : ∀ i ∈ order, (c.entries i).valid = true) {index fuel : Nat}
    (hroom : index + order.length ≤ maxSize) (hfuel : order.length < fuel) :
    c.printRows fuel o index = some ((order.zipIdx index).map fun p =>
      { index := p.2, key := cstr (c.entries p.1).key }) := by
  induction hwalk generalizing index fuel with
  | stop =>
    obtain ⟨fuel, rfl⟩ := Nat.exists_eq_succ_of_ne_zero (Nat.ne_zero_of_lt hfuel)
    rfl
  | @visit i order _ ih =>
    obtain ⟨fuel, rfl⟩ := Nat.exists_eq_succ_of_ne_zero (Nat.ne_zero_of_lt hfuel)
    rw [List.length_cons] at hroom hfuel
    have hrest := ih (fun j hj => hvalid j (List.mem_cons_of_mem i hj))
      (by omega : index + 1 + order.length ≤ maxSize) (by omega : order.length < fuel)
    have hindex : index < maxSize := by omega
    rw [printRows, if_pos hindex, if_pos (hvalid i List.mem_cons_self), hrest]
    rfl

/-! ## Keys and values in order

What the order of use means for keys: a `put` or a `get` moves the key's pair to the front of the
list of pairs, and leaves the others in their order. -/

/-- The key and the value of an entry. -/
def pair (c : FixedSizeLRUCache V maxSize) (i : Fin maxSize) : Str × V :=
  (c.index.key i, c.index.value i)

/-- The keys and values of the valid entries, the one used last first. -/
def pairs (c : FixedSizeLRUCache V maxSize) (used : List (Fin maxSize)) : List (Str × V) :=
  (c.useOrder used).map c.pair

section Pairs

variable {c d : FixedSizeLRUCache V maxSize} {used : List (Fin maxSize)} {i : Fin maxSize}
  {key : Str} {v : V}

theorem ListedBy.length_pairs (hc : c.ListedBy used) : (c.pairs used).length = c.currentSize := by
  have hset : (c.useOrder used).toFinset
      = Finset.univ.filter fun i => (c.entries i).valid = true := by
    ext i
    rw [List.mem_toFinset, hc.mem_useOrder]
    simp [index]
  rw [pairs, List.length_map, hc.repInv.size_eq, ← hset, List.toFinset_card_of_nodup hc.nodup]

/-- **The listing.** -/
theorem ListedBy.printCache_eq (hc : c.ListedBy used) {fuel : Nat} (hfuel : maxSize < fuel) :
    c.printCache fuel = some {
      currentSize := (c.pairs used).length
      maxSize
      rows := (c.pairs used).zipIdx.map fun p => { index := p.2, key := cstr p.1.1 } } := by
  have hlength := hc.length_pairs
  have hsize : (c.useOrder used).length ≤ maxSize := by
    have hbound := hc.nodup.length_le_card
    rwa [Fintype.card_fin] at hbound
  rw [printCache, printRows_eq hc.repInv.walk_next (fun i hi => hc.mem_useOrder.mp hi)
    (by omega) (by omega), ← hlength]
  unfold pairs
  rw [List.zipIdx_map, List.map_map]
  rfl

variable [NeZero maxSize]

theorem ListedBy.nodup_keys (hc : c.ListedBy used) (hx : c.index.Chained) :
    ((c.pairs used).map Prod.fst).Nodup := by
  unfold pairs
  rw [List.map_map, List.nodup_map_iff_inj_on hc.nodup]
  intro i hi j hj hij
  exact hx.key_unique (hc.mem_useOrder.mp hi) (hc.mem_useOrder.mp hj) hij

/-- Look-ups find what is listed. -/
theorem ListedBy.lookup_pairs (hc : c.ListedBy used) (hx : c.index.Chained) :
    (c.pairs used).lookup key = c.index.lookup key := by
  apply Option.ext
  intro v
  rw [lookup_eq_some_iff_mem (hc.nodup_keys hx), hx.lookup_eq_some_iff]
  unfold pairs
  rw [List.mem_map]
  refine exists_congr fun i => ?_
  rw [hc.mem_useOrder, pair, Prod.mk.injEq]

omit [NeZero maxSize] in
/-- **An entry is used** with a key that no other valid entry has. -/
theorem ListedBy.pairs_cons (hc : c.ListedBy used)
    (hvalid : d.index.valid = Function.update c.index.valid i true) (hself : d.pair i = (key, v))
    (hsame : ∀ j, j ≠ i → d.pair j = c.pair j)
    (hkey : ∀ j, c.index.valid j = true → (c.index.key j = key ↔ j = i)) :
    d.pairs (i :: used) = store key v (c.pairs used) := by
  have huse := @map_use _ _ _ _ _ _ (c.useOrder used) c.pair d.pair i (fun j _ => hsame j)
    (fun j hj => by rw [hself]; exact hkey j (hc.mem_useOrder.mp hj))
  rw [hself] at huse
  rw [pairs, useOrder_cons hvalid]
  exact huse

/-- The key of an entry that a look-up finds is that of no other entry. -/
theorem key_eq_iff_of_found (hx : c.index.Chained) {h : Fin (maxSize * 2)}
    (hslot : c.index.findHashSlot key = some (h, i)) :
    ∀ j, c.index.valid j = true → (c.index.key j = key ↔ j = i) := by
  obtain ⟨-, hvalid, hkey, -⟩ := CacheIndex.findHashSlot_eq_some_iff.mp hslot
  intro j hj
  constructor
  · intro hjkey
    exact hx.key_unique hj hvalid (hjkey.trans hkey.symm)
  · rintro rfl
    exact hkey

/-- **A `get`** touches the key. -/
theorem ListedBy.pairs_get (hc : c.ListedBy used) (hx : c.index.Chained) (key : Str) :
    (c.get key).2.pairs ((c.usedEntry (.get key)).toList ++ used) = touch key (c.pairs used) := by
  have hlookup := @ListedBy.lookup_pairs _ _ _ _ key _ hc hx
  cases hslot : c.index.findHashSlot key with
  | none =>
    have hget : c.get key = (none, c) := by unfold FixedSizeLRUCache.get; rw [hslot]
    rw [CacheIndex.lookup_eq_none_iff.mpr hslot] at hlookup
    rw [touch_of_none hlookup, usedEntry, hget]
    rfl
  | some p =>
    obtain ⟨h, i⟩ := p
    obtain ⟨-, hvalid, hkey, -⟩ := CacheIndex.findHashSlot_eq_some_iff.mp hslot
    have hget : c.get key = (some (c.entries i).value, c.moveToFront i) := by
      unfold FixedSizeLRUCache.get; rw [hslot]
    rw [CacheIndex.lookup_eq_some_iff.mpr ⟨h, i, hslot, rfl⟩] at hlookup
    have hindex : (c.moveToFront i).index = c.index := index_moveToFront c i
    have hused : c.usedEntry (.get key) = some i := by simp [usedEntry, hget, hslot]
    rw [touch_of_some hlookup, hused, hget]
    refine hc.pairs_cons ?_ ?_ ?_ (key_eq_iff_of_found hx hslot)
    · rw [hindex, ← hvalid, Function.update_eq_self]
    · rw [pair, hindex, hkey]
    · intro j _
      rw [pair, hindex]
      rfl

/-- The key's entry gets another value. -/
theorem ListedBy.pairs_overwrite (hc : c.ListedBy used) (hx : c.index.Chained)
    {h : Fin (maxSize * 2)} (hslot : c.index.findHashSlot key = some (h, i))
    (hindex : d.index = c.index.overwrite i v) :
    d.pairs (i :: used) = store key v (c.pairs used) := by
  obtain ⟨-, hvalid, hkey, -⟩ := CacheIndex.findHashSlot_eq_some_iff.mp hslot
  refine hc.pairs_cons ?_ ?_ ?_ (key_eq_iff_of_found hx hslot)
  · rw [hindex, ← hvalid]
    exact (Function.update_eq_self i _).symm
  · rw [pair, hindex]
    exact Prod.ext hkey (Function.update_self ..)
  · intro j hji
    rw [pair, hindex]
    exact Prod.ext rfl (Function.update_of_ne hji ..)

/-- A free entry is filled with a new key. -/
theorem ListedBy.pairs_store (hc : c.ListedBy used) (hx : c.index.Chained)
    (hfree : c.index.valid i = false) (hslot : c.index.findHashSlot key = none)
    {h : Fin (maxSize * 2)} (hindex : d.index = c.index.store h i key v) :
    d.pairs (i :: used) = store key v (c.pairs used) := by
  refine hc.pairs_cons ?_ ?_ ?_ fun j hj => ?_
  · rw [hindex]
    rfl
  · rw [pair, hindex]
    exact Prod.ext (Function.update_self ..) (Function.update_self ..)
  · intro j hji
    rw [pair, hindex]
    exact Prod.ext (Function.update_of_ne hji ..) (Function.update_of_ne hji ..)
  · -- no valid entry has the key, and this one is not valid yet
    constructor
    · intro hjkey
      have hfound := hx.lookup_ne_none_of_valid hj
      rw [hjkey, CacheIndex.lookup_eq_none_iff.mpr hslot] at hfound
      exact absurd rfl hfound
    · rintro rfl
      rw [hfree] at hj
      cases hj

/-- **A `put`** that is not refused stores the key. -/
theorem ListedBy.pairs_put (hc : c.ListedBy used) (hx : c.index.Chained)
    (hput : (c.put key v).1 = true) :
    (c.put key v).2.pairs ((c.usedEntry (.put key v)).toList ++ used)
      = store key v (c.pairs used) := by
  obtain ⟨hfst, hindex⟩ := index_put key v c
  rcases CacheIndex.put_cases hx.toWf key v with
    ⟨h, i, hslot, heq⟩ | ⟨-, -, heq⟩ | ⟨h, i, hslot, -, hfree, hh, heq⟩
  · have hindex : (c.put key v).2.index = c.index.overwrite i v := by rw [hindex, heq]
    have hafter : (c.put key v).2.index.findHashSlot key = some (h, i) := by
      rw [hindex]
      exact hslot
    have hused : c.usedEntry (.put key v) = some i := by simp [usedEntry, hput, hafter]
    rw [hused]
    exact hc.pairs_overwrite hx hslot hindex
  · rw [hfst, heq] at hput
    cases hput
  · have hindex : (c.put key v).2.index = c.index.store h i key v := by rw [hindex, heq]
    have hafter := CacheIndex.findHashSlot_store_self hx.toWf hfree hslot hh v
    rw [← hindex] at hafter
    have hused : c.usedEntry (.put key v) = some i := by simp [usedEntry, hput, hafter]
    rw [hused]
    exact hc.pairs_store hx hfree hslot hindex

end Pairs

end Icsn.FixedSizeLRUCache
