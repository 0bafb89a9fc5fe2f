import Icsn.DataAccess.FixedSizeLRUCache
import Mathlib.Data.Fintype.Card
import Mathlib.Data.Finset.Card

/-!
# Icsn — the hash index of the cache

The invariant of the hash index and what each operation does to it.

* **`CacheIndex.Wf`** — the slots in use hold the valid entries, each once, and the counter counts
  them.  Every operation keeps it, from any state.
* **`CacheIndex.Chained`** — moreover every stored key is reachable: the slots its probe passes are
  in use, and no key is stored twice.  `put` and `clear` keep it; `remove` keeps it exactly when it
  does not empty a slot that another stored key's probe passes (`crosses`).
* `lookup_put_*` / `lookup_remove_*` — the effect of each operation on the lookup of every key,
  with no more of the invariant than it needs.
-/

namespace Icsn

open CircularScan

variable {V : Type} {maxSize : Nat}

namespace CacheIndex

/-! ## The probes

Both loops of the source start at the home slot of a key and go around once.  What they end at is
put in terms of the slots they pass, so that from here on no proof goes through a loop. -/

section Probes

variable [NeZero maxSize] {x : CacheIndex V maxSize} {key : Str}

/-- The slot holds an entry other than `key`'s, so a probe for `key` goes on to the next slot. -/
def Passes (x : CacheIndex V maxSize) (key : Str) (h : Fin (maxSize * 2)) : Prop :=
  ∃ i, x.hashTable h = some i ∧ ¬ (x.valid i = true ∧ x.key i = key)

omit [NeZero maxSize] in
theorem probeKey_eq_none_iff {h : Fin (maxSize * 2)} :
    x.probeKey key h = none ↔ x.Passes key h := by
  unfold probeKey Passes
  cases x.hashTable h with
  | none => simp
  | some i =>
    by_cases hi : x.valid i = true ∧ x.key i = key
    · simp [hi]
    · simp only [hi, if_false, true_iff]
      exact ⟨i, rfl, hi⟩

omit [NeZero maxSize] in
theorem probeKey_eq_hit_iff {h s : Fin (maxSize * 2)} {i : Fin maxSize} :
    x.probeKey key h = some (some (s, i)) ↔
      s = h ∧ x.hashTable h = some i ∧ x.valid i = true ∧ x.key i = key := by
  unfold probeKey
  cases ht : x.hashTable h with
  | none => simp
  | some j =>
    by_cases hj : x.valid j = true ∧ x.key j = key
    · simp only [hj, and_self, if_true, Option.some.injEq, Prod.mk.injEq]
      constructor
      · rintro ⟨rfl, rfl⟩; exact ⟨rfl, rfl, hj⟩
      · rintro ⟨rfl, rfl, -⟩; exact ⟨rfl, rfl⟩
    · simp only [hj, if_false, reduceCtorEq, Option.some.injEq, false_iff]
      rintro ⟨-, rfl, hi⟩; exact hj hi

omit [NeZero maxSize] in
theorem probeKey_eq_miss_iff {h : Fin (maxSize * 2)} :
    x.probeKey key h = some none ↔ x.hashTable h = none := by
  unfold probeKey
  cases x.hashTable h with
  | none => simp
  | some i => by_cases hi : x.valid i = true ∧ x.key i = key <;> simp [hi]

/-- **A hit**: the key's entry, after a probe past slots of other entries. -/
theorem findHashSlot_eq_some_iff {h : Fin (maxSize * 2)} {i : Fin maxSize} :
    x.findHashSlot key = some (h, i) ↔
      x.hashTable h = some i ∧ x.valid i = true ∧ x.key i = key ∧
        ∀ t, dist (homeSlot key) t < dist (homeSlot key) h → x.Passes key t := by
  unfold findHashSlot
  rw [Option.join_eq_some_iff, scan_eq_some_iff le_rfl]
  constructor
  · rintro ⟨s, hs, hbefore⟩
    obtain ⟨rfl, ht, hv, hk⟩ := probeKey_eq_hit_iff.mp hs
    exact ⟨ht, hv, hk, fun t htlt => probeKey_eq_none_iff.mp (hbefore t htlt)⟩
  · rintro ⟨ht, hv, hk, hbefore⟩
    exact ⟨h, probeKey_eq_hit_iff.mpr ⟨rfl, ht, hv, hk⟩,
      fun t htlt => probeKey_eq_none_iff.mpr (hbefore t htlt)⟩

/-- A probe that meets an empty slot before the key's entry misses. -/
theorem findHashSlot_eq_none_of_hole {h : Fin (maxSize * 2)} (hempty : x.hashTable h = none)
    (hbefore : ∀ t, dist (homeSlot key) t < dist (homeSlot key) h → x.Passes key t) :
    x.findHashSlot key = none := by
  have hscan : scan (x.probeKey key) (homeSlot key) (maxSize * 2) (homeSlot key) = some none :=
    (scan_eq_some_iff le_rfl).mpr ⟨h, probeKey_eq_miss_iff.mpr hempty,
      fun t ht => probeKey_eq_none_iff.mpr (hbefore t ht)⟩
  unfold findHashSlot
  rw [hscan]; rfl

/-- A miss, seen from a slot that holds the key: an empty slot comes first. -/
theorem exists_hole_of_findHashSlot_eq_none (hnone : x.findHashSlot key = none)
    {h : Fin (maxSize * 2)} {i : Fin maxSize} (ht : x.hashTable h = some i)
    (hv : x.valid i = true) (hk : x.key i = key) :
    ∃ t, dist (homeSlot key) t < dist (homeSlot key) h ∧ x.hashTable t = none := by
  have hstop : x.probeKey key h ≠ none := by
    rw [probeKey_eq_hit_iff.mpr ⟨rfl, ht, hv, hk⟩]; simp
  obtain ⟨s, verdict, hs, hbefore⟩ := exists_first (homeSlot key) hstop
  have hscan := (scan_eq_some_iff (le_refl (maxSize * 2))).mpr ⟨s, hs, hbefore⟩
  unfold findHashSlot at hnone
  rw [hscan] at hnone
  cases verdict with
  | some p => cases hnone
  | none =>
    have hempty := probeKey_eq_miss_iff.mp hs
    refine ⟨s, ?_, hempty⟩
    -- the first stop is not after `h`, and it is not `h`, which is in use
    rcases Nat.lt_or_ge (dist (homeSlot key) s) (dist (homeSlot key) h) with hlt | hge
    · exact hlt
    · rcases Nat.eq_or_lt_of_le hge with heq | hlt
      · rw [← dist_injective _ heq, ht] at hempty; cases hempty
      · exact absurd (hbefore h hlt) hstop

/-- **The first empty slot** from the key's home slot on. -/
theorem findEmptyHashSlot_eq_some_iff {h : Fin (maxSize * 2)} :
    x.findEmptyHashSlot key = some h ↔
      x.hashTable h = none ∧
        ∀ t, dist (homeSlot key) t < dist (homeSlot key) h → x.hashTable t ≠ none := by
  unfold findEmptyHashSlot
  rw [scan_eq_some_iff le_rfl]
  constructor
  · rintro ⟨s, hs, hbefore⟩
    simp only [Option.ite_none_right_eq_some, Option.some.injEq] at hs
    obtain ⟨hs, rfl⟩ := hs
    exact ⟨hs, fun t ht => by simpa using hbefore t ht⟩
  · rintro ⟨hs, hbefore⟩
    exact ⟨h, by simp [hs], fun t ht => by simp [hbefore t ht]⟩

theorem findEmptyHashSlot_eq_none_iff :
    x.findEmptyHashSlot key = none ↔ ∀ h, x.hashTable h ≠ none := by
  unfold findEmptyHashSlot
  rw [scan_eq_none_iff le_rfl]
  simp

omit [NeZero maxSize] in
theorem findEmptyEntry_eq_some {i : Fin maxSize} (h : x.findEmptyEntry = some i) :
    x.valid i = false := by
  have := (Fin.find?_eq_some_iff.mp h).1
  simpa using this

omit [NeZero maxSize] in
theorem findEmptyEntry_eq_none_iff : x.findEmptyEntry = none ↔ ∀ i, x.valid i = true := by
  unfold findEmptyEntry
  rw [Fin.find?_eq_none_iff]
  simp

/-- A key with a hit has a value, and the other way around. -/
theorem lookup_eq_some_iff {v : V} :
    x.lookup key = some v ↔ ∃ h i, x.findHashSlot key = some (h, i) ∧ x.value i = v := by
  unfold lookup
  rw [Option.map_eq_some_iff]
  constructor
  · rintro ⟨⟨h, i⟩, hp, hv⟩; exact ⟨h, i, hp, hv⟩
  · rintro ⟨h, i, hp, hv⟩; exact ⟨(h, i), hp, hv⟩

theorem lookup_eq_none_iff : x.lookup key = none ↔ x.findHashSlot key = none := by
  simp [lookup]

end Probes

/-! ## The slots in use hold the valid entries

The part of the invariant that no operation can break, not even a `remove` that cuts a probe short.
There is always an empty slot, so every probe ends. -/

/-- The valid entries. -/
def validSet (x : CacheIndex V maxSize) : Finset (Fin maxSize) :=
  Finset.univ.filter fun i => x.valid i = true

@[simp] theorem mem_validSet {x : CacheIndex V maxSize} {i : Fin maxSize} :
    i ∈ x.validSet ↔ x.valid i = true := by
  simp [validSet]

/-- Each valid entry sits in one slot, each slot in use holds a valid entry, and the counter is
their number. -/
structure Wf (x : CacheIndex V maxSize) : Prop where
  slot_unique : ∀ {h h' i}, x.hashTable h = some i → x.hashTable h' = some i → h = h'
  valid_iff : ∀ i, x.valid i = true ↔ ∃ h, x.hashTable h = some i
  size_eq : x.currentSize = x.validSet.card

theorem wf_init [Inhabited V] : (init : CacheIndex V maxSize).Wf where
  slot_unique h := by cases h
  valid_iff i := by simp [init]
  size_eq := by simp [init, validSet]

theorem wf_clear (x : CacheIndex V maxSize) : x.clear.Wf where
  slot_unique h := by cases h
  valid_iff i := by simp [clear]
  size_eq := by simp [clear, validSet]

namespace Wf

variable {x : CacheIndex V maxSize}

theorem valid_of_slot (hx : x.Wf) {h : Fin (maxSize * 2)} {i : Fin maxSize}
    (ht : x.hashTable h = some i) : x.valid i = true := (hx.valid_iff i).mpr ⟨h, ht⟩

/-- No slot holds an entry that is not valid. -/
theorem slot_ne_of_not_valid (hx : x.Wf) {i : Fin maxSize} (hi : x.valid i = false)
    (h : Fin (maxSize * 2)) : x.hashTable h ≠ some i := fun ht => by
  rw [hx.valid_of_slot ht] at hi; cases hi

theorem size_le (hx : x.Wf) : x.currentSize ≤ maxSize := by
  rw [hx.size_eq]
  exact (Finset.card_le_univ _).trans_eq (Fintype.card_fin maxSize)

/-- Without entries every lookup misses. -/
theorem lookup_of_size_zero [NeZero maxSize] (hx : x.Wf) (h : x.currentSize = 0) (key : Str) :
    x.lookup key = none := by
  rw [lookup_eq_none_iff, Option.eq_none_iff_forall_ne_some]
  intro ⟨slot, i⟩ hfound
  have hvalid := (findHashSlot_eq_some_iff.mp hfound).2.1
  rw [hx.size_eq, Finset.card_eq_zero] at h
  exact absurd (mem_validSet.mpr hvalid) (h ▸ Finset.notMem_empty i)

/-- There are twice as many slots as entries, so a slot is empty. -/
theorem exists_empty_slot [NeZero maxSize] (hx : x.Wf) : ∃ h, x.hashTable h = none := by
  by_contra hne
  push Not at hne
  -- one entry for each slot, and no entry twice: too many entries
  choose f hf using fun h => Option.ne_none_iff_exists'.mp (hne h)
  have hinj : Function.Injective f := fun h h' heq =>
    hx.slot_unique (hf h) (by rw [heq]; exact hf h')
  have hcard := Fintype.card_le_of_injective f hinj
  have hpos := NeZero.pos maxSize
  rw [Fintype.card_fin, Fintype.card_fin] at hcard
  omega

/-- With room left, some entry is free. -/
theorem exists_findEmptyEntry (hx : x.Wf) (hroom : x.currentSize < maxSize) :
    ∃ i, x.findEmptyEntry = some i := by
  apply Option.ne_none_iff_exists'.mp
  intro hnone
  have hall := findEmptyEntry_eq_none_iff.mp hnone
  -- all entries valid would make the counter `maxSize`
  have hfull : x.validSet = Finset.univ := by ext i; simp [hall i]
  have hsize := hx.size_eq
  rw [hfull, Finset.card_univ, Fintype.card_fin] at hsize
  omega

theorem exists_findEmptyHashSlot [NeZero maxSize] (hx : x.Wf) (key : Str) :
    ∃ h, x.findEmptyHashSlot key = some h := by
  apply Option.ne_none_iff_exists'.mp
  intro hnone
  obtain ⟨h, hh⟩ := hx.exists_empty_slot
  exact findEmptyHashSlot_eq_none_iff.mp hnone h hh

theorem overwrite (hx : x.Wf) (i : Fin maxSize) (v : V) : (x.overwrite i v).Wf :=
  ⟨hx.slot_unique, hx.valid_iff, hx.size_eq⟩

theorem store (hx : x.Wf) {h : Fin (maxSize * 2)} {i : Fin maxSize} (hh : x.hashTable h = none)
    (hi : x.valid i = false) (key : Str) (v : V) : (x.store h i key v).Wf where
  slot_unique := by
    intro t t' j ht ht'
    simp only [CacheIndex.store, Function.update_apply] at ht ht'
    -- a slot other than `h` cannot hold `i`, which was free
    split at ht <;> split at ht'
    · next h1 h2 => rw [h1, h2]
    · obtain rfl := Option.some.inj ht; exact absurd ht' (hx.slot_ne_of_not_valid hi t')
    · obtain rfl := Option.some.inj ht'; exact absurd ht (hx.slot_ne_of_not_valid hi t)
    · exact hx.slot_unique ht ht'
  valid_iff := by
    intro j
    simp only [CacheIndex.store, Function.update_apply]
    by_cases hji : j = i
    · subst hji
      simp only [if_true, true_iff]
      exact ⟨h, by simp⟩
    · rw [if_neg hji, hx.valid_iff j]
      constructor
      · rintro ⟨t, ht⟩
        have hth : t ≠ h := fun heq => by rw [heq, hh] at ht; cases ht
        exact ⟨t, by rw [if_neg hth]; exact ht⟩
      · rintro ⟨t, ht⟩
        split at ht
        · exact absurd (Option.some.inj ht).symm hji
        · exact ⟨t, ht⟩
  size_eq := by
    -- one valid entry more
    have hset : (x.store h i key v).validSet = insert i x.validSet := by
      ext j
      simp only [mem_validSet, Finset.mem_insert, CacheIndex.store, Function.update_apply]
      by_cases hji : j = i <;> simp [hji]
    have hnot : i ∉ x.validSet := by simp [hi]
    rw [hset, Finset.card_insert_of_notMem hnot, ← hx.size_eq]; rfl

theorem unstore (hx : x.Wf) {h : Fin (maxSize * 2)} {i : Fin maxSize}
    (hh : x.hashTable h = some i) : (x.unstore h i).Wf where
  slot_unique := by
    intro t t' j ht ht'
    -- slot `h` is empty now; the others are as they were
    simp only [CacheIndex.unstore, Function.update_apply] at ht ht'
    split at ht
    · cases ht
    · split at ht'
      · cases ht'
      · exact hx.slot_unique ht ht'
  valid_iff := by
    intro j
    simp only [CacheIndex.unstore, Function.update_apply]
    by_cases hji : j = i
    · subst hji
      simp only [if_true, Bool.false_eq_true, false_iff, not_exists]
      intro t ht
      split at ht
      · cases ht
      · next hth => exact hth (hx.slot_unique ht hh)
    · rw [if_neg hji, hx.valid_iff j]
      constructor
      · rintro ⟨t, ht⟩
        have hth : t ≠ h := fun heq => by
          rw [heq, hh] at ht; exact hji (Option.some.inj ht).symm
        exact ⟨t, by rw [if_neg hth]; exact ht⟩
      · rintro ⟨t, ht⟩
        split at ht
        · cases ht
        · exact ⟨t, ht⟩
  size_eq := by
    -- one valid entry fewer
    have hset : (x.unstore h i).validSet = x.validSet.erase i := by
      ext j
      simp only [mem_validSet, Finset.mem_erase, CacheIndex.unstore, Function.update_apply]
      by_cases hji : j = i <;> simp [hji]
    have hmem : i ∈ x.validSet := by simpa using hx.valid_of_slot hh
    rw [hset, Finset.card_erase_of_mem hmem, ← hx.size_eq]; rfl

end Wf

/-! ## What an operation does

`put` and `remove` on the index come down to three writes, `overwrite`, `store` and `unstore`, each
of which keeps the invariant. -/

section Cases

variable [NeZero maxSize] {x : CacheIndex V maxSize} {key : Str}

/-- **The three ways `put` goes**: overwrite, refuse, store. -/
theorem put_cases (hx : x.Wf) (key : Str) (v : V) :
    (∃ h i, x.findHashSlot key = some (h, i) ∧ x.put key v = (true, x.overwrite i v)) ∨
    (x.findHashSlot key = none ∧ maxSize ≤ x.currentSize ∧ x.put key v = (false, x)) ∨
    (∃ h i, x.findHashSlot key = none ∧ x.currentSize < maxSize ∧ x.valid i = false ∧
      x.findEmptyHashSlot key = some h ∧ x.put key v = (true, x.store h i key v)) := by
  unfold put
  cases hslot : x.findHashSlot key with
  | some p => exact Or.inl ⟨p.1, p.2, rfl, rfl⟩
  | none =>
    right
    by_cases hfull : maxSize ≤ x.currentSize
    · exact Or.inl ⟨rfl, hfull, by simp [hfull]⟩
    · right
      obtain ⟨i, hi⟩ := hx.exists_findEmptyEntry (not_le.mp hfull)
      obtain ⟨h, hh⟩ := hx.exists_findEmptyHashSlot key
      exact ⟨h, i, rfl, not_le.mp hfull, findEmptyEntry_eq_some hi, hh, by simp [hfull, hi, hh]⟩

/-- **The two ways `remove` goes.** -/
theorem remove_cases (key : Str) :
    (x.findHashSlot key = none ∧ x.remove key = (false, x)) ∨
    (∃ h i, x.findHashSlot key = some (h, i) ∧ x.remove key = (true, x.unstore h i)) := by
  unfold remove
  cases hslot : x.findHashSlot key with
  | none => exact Or.inl ⟨rfl, rfl⟩
  | some p => exact Or.inr ⟨p.1, p.2, rfl, rfl⟩

theorem Wf.put (hx : x.Wf) (key : Str) (v : V) : (x.put key v).2.Wf := by
  rcases put_cases hx key v with ⟨h, i, -, heq⟩ | ⟨-, -, heq⟩ | ⟨h, i, -, -, hi, hh, heq⟩
  · rw [heq]; exact hx.overwrite i v
  · rw [heq]; exact hx
  · rw [heq]; exact hx.store (findEmptyHashSlot_eq_some_iff.mp hh).1 hi key v

theorem Wf.remove (hx : x.Wf) (key : Str) : (x.remove key).2.Wf := by
  rcases remove_cases (x := x) key with ⟨-, heq⟩ | ⟨h, i, hslot, heq⟩
  · rw [heq]; exact hx
  · rw [heq]; exact hx.unstore (findHashSlot_eq_some_iff.mp hslot).1

end Cases

/-! ## Lookups after an operation

A store fills the first empty slot of the probe, which no other key's probe relies on being empty.
Dropping an entry empties a slot, and a key whose probe passes it is lost: `crosses` says when. -/

section Lookups

variable [NeZero maxSize] {x : CacheIndex V maxSize} {key key' : Str}

omit [NeZero maxSize] in
/-- A slot of another entry is still one after a new entry is stored elsewhere. -/
theorem Passes.store (hx : x.Wf) {h t : Fin (maxSize * 2)} {i : Fin maxSize}
    (hh : x.hashTable h = none) (hi : x.valid i = false) (v : V) (hpass : x.Passes key' t) :
    (x.store h i key v).Passes key' t := by
  obtain ⟨j, ht, hj⟩ := hpass
  -- `h` was empty and `i` was free, so neither is what was passed here
  have hth : t ≠ h := fun heq => by rw [heq, hh] at ht; cases ht
  have hji : j ≠ i := fun heq => hx.slot_ne_of_not_valid hi t (heq ▸ ht)
  exact ⟨j, by simpa [CacheIndex.store, hth] using ht, by simpa [CacheIndex.store, hji] using hj⟩

omit [NeZero maxSize] in
/-- A slot of another entry is still one after a third entry is dropped from its own slot. -/
theorem Passes.unstore (hx : x.Wf) {h t : Fin (maxSize * 2)} {i : Fin maxSize}
    (hh : x.hashTable h = some i) (hth : t ≠ h) (hpass : x.Passes key' t) :
    (x.unstore h i).Passes key' t := by
  obtain ⟨j, ht, hj⟩ := hpass
  have hji : j ≠ i := fun heq => hth (hx.slot_unique (heq ▸ ht) hh)
  exact ⟨j, by simpa [CacheIndex.unstore, hth] using ht,
    by simpa [CacheIndex.unstore, hji] using hj⟩

/-- The key just stored is found: every slot before the first empty one belongs to another key,
since the probe for it missed. -/
theorem findHashSlot_store_self {h : Fin (maxSize * 2)} {i : Fin maxSize} (hx : x.Wf)
    (hi : x.valid i = false) (hnone : x.findHashSlot key = none)
    (hh : x.findEmptyHashSlot key = some h) (v : V) :
    (x.store h i key v).findHashSlot key = some (h, i) := by
  obtain ⟨hempty, hbefore⟩ := findEmptyHashSlot_eq_some_iff.mp hh
  refine findHashSlot_eq_some_iff.mpr
    ⟨by simp [CacheIndex.store], by simp [CacheIndex.store], by simp [CacheIndex.store], ?_⟩
  intro t ht
  obtain ⟨j, hj⟩ := Option.ne_none_iff_exists'.mp (hbefore t ht)
  refine Passes.store hx hempty hi v ⟨j, hj, ?_⟩
  -- were it the key's own slot, the first probe would have met a hole before
  rintro ⟨hv, hk⟩
  obtain ⟨s, hs, hhole⟩ := exists_hole_of_findHashSlot_eq_none hnone hj hv hk
  exact hbefore s (hs.trans ht) hhole

/-- A key found before another key is stored is found at the same place after. -/
theorem findHashSlot_store_other {h h' : Fin (maxSize * 2)} {i i' : Fin maxSize} (hx : x.Wf)
    (hi : x.valid i = false) (hh : x.hashTable h = none) (v : V)
    (hfound : x.findHashSlot key' = some (h', i')) :
    (x.store h i key v).findHashSlot key' = some (h', i') := by
  obtain ⟨ht, hv, hk, hbefore⟩ := findHashSlot_eq_some_iff.mp hfound
  have hhh : h' ≠ h := fun heq => by rw [heq, hh] at ht; cases ht
  have hii : i' ≠ i := fun heq => by rw [heq, hi] at hv; cases hv
  refine findHashSlot_eq_some_iff.mpr
    ⟨by simpa [CacheIndex.store, hhh] using ht, by simpa [CacheIndex.store, hii] using hv,
      by simpa [CacheIndex.store, hii] using hk, fun t htlt => ?_⟩
  exact Passes.store hx hh hi v (hbefore t htlt)

/-- The probe for `key'` passes the slot of `key` before it comes to its own. -/
def crosses (x : CacheIndex V maxSize) (key key' : Str) : Bool :=
  match x.findHashSlot key, x.findHashSlot key' with
  | some (h, _), some (h', _) => decide (dist (homeSlot key') h < dist (homeSlot key') h')
  | _, _ => false

theorem crosses_eq_true_iff {h h' : Fin (maxSize * 2)} {i i' : Fin maxSize}
    (hkey : x.findHashSlot key = some (h, i)) (hkey' : x.findHashSlot key' = some (h', i')) :
    x.crosses key key' = true ↔ dist (homeSlot key') h < dist (homeSlot key') h' := by
  simp [crosses, hkey, hkey']

/-- A key found before another key is removed is found at the same place after, unless its probe
passed the slot that is emptied. -/
theorem findHashSlot_unstore_other {h h' : Fin (maxSize * 2)} {i i' : Fin maxSize} (hx : x.Wf)
    (hne : key' ≠ key) (hkey : x.findHashSlot key = some (h, i))
    (hfound : x.findHashSlot key' = some (h', i')) (hcross : x.crosses key key' = false) :
    (x.unstore h i).findHashSlot key' = some (h', i') := by
  obtain ⟨hh, -, hki, -⟩ := findHashSlot_eq_some_iff.mp hkey
  obtain ⟨ht, hv, hk, hbefore⟩ := findHashSlot_eq_some_iff.mp hfound
  have hii : i' ≠ i := fun heq => hne (by rw [← hk, heq, hki])
  have hhh : h' ≠ h := fun heq => by
    rw [heq, hh] at ht; exact hii (Option.some.inj ht).symm
  refine findHashSlot_eq_some_iff.mpr
    ⟨by simpa [CacheIndex.unstore, hhh] using ht, by simpa [CacheIndex.unstore, hii] using hv,
      by simpa [CacheIndex.unstore, hii] using hk, fun t htlt => ?_⟩
  -- the emptied slot is not on the way: that would be a crossing
  have hth : t ≠ h := by
    rintro rfl
    rw [(crosses_eq_true_iff hkey hfound).mpr htlt] at hcross; cases hcross
  exact Passes.unstore hx hh hth (hbefore t htlt)

/-- **The lost key.**  A key whose probe passed the slot that is emptied is not found any more. -/
theorem findHashSlot_unstore_of_crosses {h : Fin (maxSize * 2)} {i : Fin maxSize} (hx : x.Wf)
    (hkey : x.findHashSlot key = some (h, i)) (hcross : x.crosses key key' = true) :
    (x.unstore h i).findHashSlot key' = none := by
  obtain ⟨hh, -⟩ := findHashSlot_eq_some_iff.mp hkey
  cases hfound : x.findHashSlot key' with
  | none => simp [crosses, hkey, hfound] at hcross
  | some p =>
    obtain ⟨h', i'⟩ := p
    have hlt := (crosses_eq_true_iff hkey hfound).mp hcross
    obtain ⟨-, -, -, hbefore⟩ := findHashSlot_eq_some_iff.mp hfound
    -- the emptied slot is now the hole the probe stops at
    refine findHashSlot_eq_none_of_hole (h := h) (by simp [CacheIndex.unstore]) fun t ht => ?_
    have hth : t ≠ h := by rintro rfl; exact lt_irrefl _ ht
    exact Passes.unstore hx hh hth (hbefore t (ht.trans hlt))

/-- `put` is refused exactly for an absent key in a full cache, and then nothing changes. -/
theorem put_eq_false_iff (hx : x.Wf) (v : V) :
    (x.put key v).1 = false ↔ x.lookup key = none ∧ maxSize ≤ x.currentSize := by
  rw [lookup_eq_none_iff]
  rcases put_cases hx key v with ⟨h, i, hs, heq⟩ | ⟨hs, hfull, heq⟩ | ⟨h, i, hs, hroom, -, -, heq⟩
  · simp [heq, hs]
  · simp [heq, hs, hfull]
  · simp [heq, hs, hroom]

theorem put_of_refused (hx : x.Wf) {v : V} (hput : (x.put key v).1 = false) :
    (x.put key v).2 = x := by
  rcases put_cases hx key v with ⟨h, i, -, heq⟩ | ⟨-, -, heq⟩ | ⟨h, i, -, -, -, -, heq⟩
  · rw [heq] at hput; cases hput
  · rw [heq]
  · rw [heq] at hput; cases hput

/-- What was put is looked up. -/
theorem lookup_put_self (hx : x.Wf) {v : V} (hput : (x.put key v).1 = true) :
    (x.put key v).2.lookup key = some v := by
  rcases put_cases hx key v with ⟨h, i, hs, heq⟩ | ⟨-, -, heq⟩ | ⟨h, i, hs, -, hi, hh, heq⟩
  · rw [heq]
    exact lookup_eq_some_iff.mpr ⟨h, i, hs, by simp [overwrite]⟩
  · rw [heq] at hput; cases hput
  · rw [heq]
    exact lookup_eq_some_iff.mpr
      ⟨h, i, findHashSlot_store_self hx hi hs hh v, by simp [CacheIndex.store]⟩

/-- A key that has a value keeps it when another key is put. -/
theorem lookup_put_other (hx : x.Wf) (hne : key' ≠ key) (v : V) {w : V}
    (hw : x.lookup key' = some w) : (x.put key v).2.lookup key' = some w := by
  obtain ⟨h', i', hfound, rfl⟩ := lookup_eq_some_iff.mp hw
  obtain ⟨-, hv', hk', -⟩ := findHashSlot_eq_some_iff.mp hfound
  rcases put_cases hx key v with ⟨h, i, hs, heq⟩ | ⟨-, -, heq⟩ | ⟨h, i, hs, -, hi, hh, heq⟩
  · have hii : i' ≠ i := fun hii => by
      obtain ⟨-, -, hk, -⟩ := findHashSlot_eq_some_iff.mp hs
      exact hne (by rw [← hk', hii, hk])
    rw [heq]
    exact lookup_eq_some_iff.mpr ⟨h', i', hfound, by simp [overwrite, hii]⟩
  · rw [heq]; exact hw
  · have hii : i' ≠ i := fun hii => by rw [hii, hi] at hv'; cases hv'
    have hempty := (findEmptyHashSlot_eq_some_iff.mp hh).1
    rw [heq]
    exact lookup_eq_some_iff.mpr
      ⟨h', i', findHashSlot_store_other hx hi hempty v hfound, by simp [CacheIndex.store, hii]⟩

/-- A key that has a value keeps it when another key is removed without crossing its probe. -/
theorem lookup_remove_other (hx : x.Wf) (hne : key' ≠ key) (hcross : x.crosses key key' = false)
    {w : V} (hw : x.lookup key' = some w) : (x.remove key).2.lookup key' = some w := by
  obtain ⟨h', i', hfound, rfl⟩ := lookup_eq_some_iff.mp hw
  rcases remove_cases (x := x) key with ⟨-, heq⟩ | ⟨h, i, hs, heq⟩
  · rw [heq]; exact hw
  · rw [heq]
    exact lookup_eq_some_iff.mpr
      ⟨h', i', findHashSlot_unstore_other hx hne hs hfound hcross, rfl⟩

@[simp] theorem lookup_clear (x : CacheIndex V maxSize) (key : Str) :
    x.clear.lookup key = none := by
  refine lookup_eq_none_iff.mpr (findHashSlot_eq_none_of_hole (h := homeSlot key) rfl ?_)
  intro t ht
  simp at ht

@[simp] theorem lookup_init [Inhabited V] (key : Str) :
    (init : CacheIndex V maxSize).lookup key = none := by
  refine lookup_eq_none_iff.mpr (findHashSlot_eq_none_of_hole (h := homeSlot key) rfl ?_)
  intro t ht
  simp at ht

end Lookups

/-! ## Every stored key is reachable

The stronger invariant, under which look-ups are exact.  It is lost only by a `remove` that is not
`RemoveSafe`. -/

section Chained

variable [NeZero maxSize]

/-- The slots a stored key's probe passes are in use, and no key is stored twice. -/
structure Chained (x : CacheIndex V maxSize) : Prop extends x.Wf where
  reaches : ∀ {h i}, x.hashTable h = some i → ∀ t,
    dist (homeSlot (x.key i)) t < dist (homeSlot (x.key i)) h → x.hashTable t ≠ none
  key_unique : ∀ {i j}, x.valid i = true → x.valid j = true → x.key i = x.key j → i = j

/-- A remove that empties no slot on the probe of another stored key. -/
def RemoveSafe (x : CacheIndex V maxSize) (key : Str) : Prop :=
  ∀ i, x.valid i = true → x.crosses key (x.key i) = false

instance (x : CacheIndex V maxSize) (key : Str) : Decidable (x.RemoveSafe key) :=
  inferInstanceAs (Decidable (∀ _, _))

theorem chained_init [Inhabited V] : (init : CacheIndex V maxSize).Chained :=
  { wf_init with
    reaches := fun h => (by cases h)
    key_unique := fun h => (by cases h) }

theorem chained_clear (x : CacheIndex V maxSize) : x.clear.Chained :=
  { wf_clear x with
    reaches := fun h => (by cases h)
    key_unique := fun h => (by cases h) }

namespace Chained

variable {x : CacheIndex V maxSize} {key : Str}

/-- In a chained index every stored key is found. -/
theorem findHashSlot_key (hx : x.Chained) {h : Fin (maxSize * 2)} {i : Fin maxSize}
    (ht : x.hashTable h = some i) : x.findHashSlot (x.key i) = some (h, i) := by
  have hv := hx.valid_of_slot ht
  refine findHashSlot_eq_some_iff.mpr ⟨ht, hv, rfl, fun t htlt => ?_⟩
  obtain ⟨j, hj⟩ := Option.ne_none_iff_exists'.mp (hx.reaches ht t htlt)
  refine ⟨j, hj, fun hjk => ?_⟩
  -- the key sits in one slot only, and this is not before itself
  obtain rfl := hx.key_unique hjk.1 hv hjk.2
  rw [hx.slot_unique hj ht] at htlt
  exact lt_irrefl _ htlt

/-- **Lookups of a chained index are exact.** -/
theorem lookup_eq_some_iff (hx : x.Chained) {v : V} :
    x.lookup key = some v ↔ ∃ i, x.valid i = true ∧ x.key i = key ∧ x.value i = v := by
  rw [CacheIndex.lookup_eq_some_iff]
  constructor
  · rintro ⟨h, i, hfound, hv⟩
    obtain ⟨-, hvalid, hk, -⟩ := findHashSlot_eq_some_iff.mp hfound
    exact ⟨i, hvalid, hk, hv⟩
  · rintro ⟨i, hvalid, rfl, hv⟩
    obtain ⟨h, ht⟩ := (hx.valid_iff i).mp hvalid
    exact ⟨h, i, hx.findHashSlot_key ht, hv⟩

theorem lookup_ne_none_of_valid (hx : x.Chained) {i : Fin maxSize} (hi : x.valid i = true) :
    x.lookup (x.key i) ≠ none := by
  rw [hx.lookup_eq_some_iff.mpr ⟨i, hi, rfl, rfl⟩]; simp

theorem put (hx : x.Chained) (key : Str) (v : V) : (x.put key v).2.Chained := by
  have hwf := hx.toWf.put key v
  rcases put_cases hx.toWf key v with ⟨h, i, -, heq⟩ | ⟨-, -, heq⟩ | ⟨h, i, hs, -, hi, hh, heq⟩
  · rw [heq] at hwf ⊢
    exact { hwf with reaches := hx.reaches, key_unique := hx.key_unique }
  · rw [heq]; exact hx
  · rw [heq] at hwf ⊢
    obtain ⟨hempty, hbefore⟩ := findEmptyHashSlot_eq_some_iff.mp hh
    -- the key is new: a stored key would have been found
    have hnew : ∀ j, x.valid j = true → x.key j ≠ key := fun j hj hk =>
      hx.lookup_ne_none_of_valid hj (by rw [hk]; exact CacheIndex.lookup_eq_none_iff.mpr hs)
    -- storing empties no slot
    have hused : ∀ {t}, x.hashTable t ≠ none → (x.store h i key v).hashTable t ≠ none := by
      intro t ht
      by_cases hth : t = h <;> simp [store, hth, ht]
    refine { hwf with reaches := fun {h' j} hj t ht => ?_, key_unique := fun {j k} hj hk hjk => ?_ }
    · by_cases hji : j = i
      · obtain rfl : h' = h := hwf.slot_unique hj (by simp [store, hji])
        rw [show (x.store h' i key v).key j = key by simp [store, hji]] at ht
        exact hused (hbefore t ht)
      · have hh' : h' ≠ h := fun heq' => by
          simp only [store, heq', Function.update_self, Option.some.injEq] at hj
          exact hji hj.symm
        rw [show (x.store h i key v).key j = x.key j by simp [store, hji]] at ht
        exact hused (hx.reaches (by simpa [store, hh'] using hj) t ht)
    · by_cases hji : j = i <;> by_cases hki : k = i
      · rw [hji, hki]
      · simp only [store, hji, Function.update_self, ne_eq, hki, not_false_eq_true,
          Function.update_of_ne] at hjk hk
        exact absurd hjk.symm (hnew k hk)
      · simp only [store, hki, Function.update_self, ne_eq, hji, not_false_eq_true,
          Function.update_of_ne] at hjk hj
        exact absurd hjk (hnew j hj)
      · simp only [store, ne_eq, hji, hki, not_false_eq_true, Function.update_of_ne] at hjk hj hk
        exact hx.key_unique hj hk hjk

/-- **A safe remove keeps every other stored key reachable.** -/
theorem remove (hx : x.Chained) (hsafe : x.RemoveSafe key) : (x.remove key).2.Chained := by
  have hwf := hx.toWf.remove key
  rcases remove_cases (x := x) key with ⟨-, heq⟩ | ⟨h, i, hs, heq⟩
  · rw [heq]; exact hx
  · rw [heq] at hwf ⊢
    obtain ⟨hh, -, hki, -⟩ := findHashSlot_eq_some_iff.mp hs
    -- what is valid after the remove was so before, and is not the removed entry
    have hother : ∀ {j}, (x.unstore h i).valid j = true → j ≠ i ∧ x.valid j = true := by
      intro j hj
      by_cases hji : j = i
      · simp [unstore, hji] at hj
      · exact ⟨hji, by simpa [unstore, hji] using hj⟩
    refine { hwf with reaches := fun {h' j} hj t ht => ?_, key_unique := fun {j k} hj hk hjk => ?_ }
    · obtain ⟨hji, hvj⟩ := hother (hwf.valid_of_slot hj)
      have hh' : h' ≠ h := fun heq' => by simp [unstore, heq'] at hj
      have hj' : x.hashTable h' = some j := by simpa [unstore, hh'] using hj
      rw [show (x.unstore h i).key j = x.key j by simp [unstore, hji]] at ht
      have hth : t ≠ h := by
        rintro rfl
        -- an emptied slot on the way to `j` is what a safe remove rules out
        have hcross := (crosses_eq_true_iff hs (hx.findHashSlot_key hj')).mpr ht
        rw [hsafe j hvj] at hcross; cases hcross
      simpa [unstore, hth] using hx.reaches hj' t ht
    · obtain ⟨hji, hvj⟩ := hother hj
      obtain ⟨hki', hvk⟩ := hother hk
      exact hx.key_unique hvj hvk (by simpa [unstore, hji, hki'] using hjk)

end Chained

end Chained

end CacheIndex

end Icsn
