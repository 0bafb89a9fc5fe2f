import Icsn.DataAccess.CacheLinks
import Icsn.DataAccess.CacheRefinement
import Icsn.Lib.FirstDistinct

/-!
# Icsn — the use order of the cache

The list of the cache in every state that `put`, `get`, `contains`, `remove` and `clear` lead to.

* **`usedEntries`** — the entries the successful `put`s and `get`s of a run use.
* **`ListedBy`** — the index is well formed, and the list goes through the valid entries, the one
  used last first.  Every operation keeps it (`ListedBy.step`), also in states where a probe chain
  is broken.
* **`cache_structure`** — what follows for every run: the parts of the cache agree, both probes end
  and `put` comes to none of its dead branches.
-/

namespace Icsn

variable {V : Type} {maxSize : Nat}

namespace FixedSizeLRUCache

/-! ## The order of last use

The order is a function of the run: the entries used, the latest first, each kept once and only
while it is valid.  The list of the cache is compared with it after every step. -/

section Order

/-- The valid entries in the order of their last use in `used`. -/
def useOrder (c : FixedSizeLRUCache V maxSize) (used : List (Fin maxSize)) : List (Fin maxSize) :=
  used.eraseDups.filter c.index.valid

/-- The index is well formed, every valid entry was used, and the list goes through the valid
entries in the order of their last use. -/
structure ListedBy (c : FixedSizeLRUCache V maxSize) (used : List (Fin maxSize)) : Prop where
  wf : c.index.Wf
  used_of_valid : ∀ i, c.index.valid i = true → i ∈ used
  ring : c.links.IsRing none ((c.useOrder used).map some)

variable {c d : FixedSizeLRUCache V maxSize} {i : Fin maxSize} {used : List (Fin maxSize)}

theorem filter_ne_middle {l₁ l₂ : List (Fin maxSize)} (h : (l₁ ++ i :: l₂).Nodup) :
    (l₁ ++ i :: l₂).filter (fun j => !j == i) = l₁ ++ l₂ := by
  rw [List.nodup_middle, List.nodup_cons, List.mem_append, not_or] at h
  obtain ⟨⟨h₁, h₂⟩, -⟩ := h
  have hkeep : ∀ l : List (Fin maxSize), i ∉ l → l.filter (fun j => !j == i) = l := by
    intro l hl
    rw [List.filter_eq_self]
    intro j hj
    have hji : j ≠ i := fun heq => hl (heq ▸ hj)
    simp [hji]
  rw [List.filter_append, List.filter_cons, hkeep l₁ h₁, hkeep l₂ h₂]
  simp

/-- After a use, the entry comes first and the others follow as before. -/
theorem useOrder_cons (hvalid : d.index.valid = Function.update c.index.valid i true) :
    d.useOrder (i :: used) = i :: (c.useOrder used).filter fun j => !j == i := by
  unfold useOrder
  rw [List.eraseDups_cons, List.filter_cons, hvalid, Function.update_self, if_pos rfl,
    eraseDups_filter, List.filter_filter, List.filter_filter]
  congr 1
  apply List.filter_congr
  intro j hj
  rcases eq_or_ne j i with rfl | hji
  · simp
  · simp [hji, Bool.and_comm]

/-- An entry that is not valid any more is left out. -/
theorem useOrder_drop (hvalid : d.index.valid = Function.update c.index.valid i false) :
    d.useOrder used = (c.useOrder used).filter fun j => !j == i := by
  unfold useOrder
  rw [hvalid, List.filter_filter]
  apply List.filter_congr
  intro j hj
  rcases eq_or_ne j i with rfl | hji
  · simp
  · simp [hji]

namespace ListedBy

theorem mem_useOrder (h : c.ListedBy used) : i ∈ c.useOrder used ↔ c.index.valid i = true := by
  unfold useOrder
  rw [List.mem_filter, List.mem_eraseDups]
  exact ⟨fun hi => hi.2, fun hi => ⟨h.used_of_valid i hi, hi⟩⟩

theorem nodup (h : c.ListedBy used) : (c.useOrder used).Nodup :=
  (List.nodup_cons.mp h.ring.nodup).2.of_map

/-- The order around a valid entry. -/
theorem exists_split (h : c.ListedBy used) (hi : c.index.valid i = true) :
    ∃ l₁ l₂, c.useOrder used = l₁ ++ i :: l₂ ∧
      (c.useOrder used).filter (fun j => !j == i) = l₁ ++ l₂ := by
  obtain ⟨l₁, l₂, hsplit⟩ := List.append_of_mem (h.mem_useOrder.mpr hi)
  refine ⟨l₁, l₂, hsplit, ?_⟩
  have hnodup := h.nodup
  rw [hsplit] at hnodup ⊢
  exact filter_ne_middle hnodup

theorem setValue (h : c.ListedBy used) (i : Fin maxSize) (value : V) :
    (c.setValue i value).ListedBy used where
  wf := by rw [index_setValue]; exact h.wf.overwrite i value
  used_of_valid j hj := by
    rw [index_setValue] at hj
    exact h.used_of_valid j hj
  ring := by
    unfold useOrder
    rw [links_setValue, index_setValue]
    exact h.ring

/-- **A valid entry is used.** -/
theorem moveToFront (h : c.ListedBy used) (hi : c.index.valid i = true) :
    (c.moveToFront i).ListedBy (i :: used) := by
  obtain ⟨l₁, l₂, hsplit, hrest⟩ := h.exists_split hi
  have hvalid : (c.moveToFront i).index.valid = Function.update c.index.valid i true := by
    rw [index_moveToFront, ← hi, Function.update_eq_self]
  refine ⟨by rw [index_moveToFront]; exact h.wf, fun j hj => ?_, ?_⟩
  · rw [index_moveToFront] at hj
    exact List.mem_cons_of_mem i (h.used_of_valid j hj)
  · rw [useOrder_cons hvalid, hrest]
    have hring := h.ring
    rw [hsplit] at hring
    exact ring_moveToFront hring

/-- **A free entry is filled and used.** -/
theorem linkFront (h : c.ListedBy used) (hi : c.index.valid i = false) (hwf : d.index.Wf)
    (hvalid : d.index.valid = Function.update c.index.valid i true)
    (hlinks : d.links = (c.linkFront i).links) : d.ListedBy (i :: used) := by
  have hnot : i ∉ c.useOrder used := fun hmem => by
    rw [h.mem_useOrder.mp hmem] at hi; cases hi
  refine ⟨hwf, fun j hj => ?_, ?_⟩
  · rcases eq_or_ne j i with rfl | hji
    · exact List.mem_cons_self
    · rw [hvalid, Function.update_of_ne hji] at hj
      exact List.mem_cons_of_mem i (h.used_of_valid j hj)
  · have hrest : (c.useOrder used).filter (fun j => !j == i) = c.useOrder used := by
      rw [List.filter_eq_self]
      intro j hj
      have hji : j ≠ i := fun heq => hnot (heq ▸ hj)
      simp [hji]
    rw [useOrder_cons hvalid, hrest, hlinks]
    exact ring_linkFront h.ring hnot

/-- **A valid entry is dropped.** -/
theorem removeFromList (h : c.ListedBy used) (hi : c.index.valid i = true) (hwf : d.index.Wf)
    (hvalid : d.index.valid = Function.update c.index.valid i false)
    (hlinks : d.links = (c.removeFromList i).links) : d.ListedBy used := by
  obtain ⟨l₁, l₂, hsplit, hrest⟩ := h.exists_split hi
  refine ⟨hwf, fun j hj => ?_, ?_⟩
  · rcases eq_or_ne j i with rfl | hji
    · exact h.used_of_valid j hi
    · rw [hvalid, Function.update_of_ne hji] at hj
      exact h.used_of_valid j hj
  · rw [useOrder_drop hvalid, hrest, hlinks]
    have hring := h.ring
    rw [hsplit] at hring
    exact ring_removeFromList hring

end ListedBy

end Order

/-! ## The operations

A successful `put` or `get` uses one entry, which comes first; a `remove` drops one from the order.
A refused `put` and a `get` that misses leave the list alone. -/

section Operations

variable [NeZero maxSize]

/-- The entry a successful `put` or `get` uses: the one its key is found in afterwards. -/
def usedEntry (c : FixedSizeLRUCache V maxSize) : CacheOp V → Option (Fin maxSize)
  | .put key value =>
    if (c.put key value).1 then ((c.put key value).2.index.findHashSlot key).map Prod.snd else none
  | .get key =>
    if (c.get key).1.isSome then ((c.get key).2.index.findHashSlot key).map Prod.snd else none
  | .contains _ | .remove _ | .clear => none

/-- The entries the successful `put`s and `get`s of a run use, the last one first. -/
def usedEntries (c : FixedSizeLRUCache V maxSize) : List (CacheOp V) → List (Fin maxSize)
  | [] => []
  | op :: ops => usedEntries (c.step op).2 ops ++ (c.usedEntry op).toList

variable {c : FixedSizeLRUCache V maxSize} {used : List (Fin maxSize)}

/-- A successful `put` uses the entry that holds its key and value afterwards. -/
theorem exists_usedEntry_put (hwf : c.index.Wf) {key : Str} {value : V}
    (hok : (c.put key value).1 = true) :
    ∃ i, c.usedEntry (.put key value) = some i ∧ ((c.put key value).2.entries i).key = key ∧
      ((c.put key value).2.entries i).value = value := by
  obtain ⟨hfst, hsnd⟩ := index_put key value c
  have hlookup := CacheIndex.lookup_put_self hwf (hfst ▸ hok)
  rw [← hsnd] at hlookup
  obtain ⟨h, i, hslot, hvalue⟩ := CacheIndex.lookup_eq_some_iff.mp hlookup
  obtain ⟨-, -, hkey, -⟩ := CacheIndex.findHashSlot_eq_some_iff.mp hslot
  exact ⟨i, by simp [usedEntry, hok, hslot], hkey, hvalue⟩

/-- A successful `get` uses the entry that holds its key and the value it returns. -/
theorem exists_usedEntry_get {key : Str} {value : V} (hok : (c.get key).1 = some value) :
    ∃ i, c.usedEntry (.get key) = some i ∧ (c.entries i).key = key ∧
      (c.entries i).value = value := by
  have hlookup : c.index.lookup key = some value := (get_fst key c).symm.trans hok
  obtain ⟨h, i, hslot, hvalue⟩ := CacheIndex.lookup_eq_some_iff.mp hlookup
  obtain ⟨-, -, hkey, -⟩ := CacheIndex.findHashSlot_eq_some_iff.mp hslot
  exact ⟨i, by simp [usedEntry, hlookup, hslot], hkey, hvalue⟩

/-- **The three ways `put` goes**: it overwrites and uses the key's entry, it is refused by a full
cache and changes nothing, or it uses a free entry and a free slot. -/
theorem put_cases (hwf : c.index.Wf) (key : Str) (value : V) :
    (∃ h i, c.index.findHashSlot key = some (h, i) ∧
      c.put key value = (true, (c.setValue i value).moveToFront i)) ∨
    (c.index.findHashSlot key = none ∧ maxSize ≤ c.currentSize ∧ c.put key value = (false, c)) ∨
    (∃ h i, c.index.findHashSlot key = none ∧ c.claimEntry = some (i, c) ∧
      c.index.valid i = false ∧ c.index.findEmptyHashSlot key = some h ∧
      c.put key value = (true, (((c.fillEntry i key value).setSlot h (some i)).linkFront i).setSize
        (c.currentSize + 1))) := by
  unfold put
  cases hslot : c.index.findHashSlot key with
  | some p => exact Or.inl ⟨p.1, p.2, rfl, rfl⟩
  | none =>
    right
    by_cases hfull : maxSize ≤ c.currentSize
    · exact Or.inl ⟨rfl, hfull, if_pos hfull⟩
    · right
      obtain ⟨i, hi⟩ := hwf.exists_findEmptyEntry (not_le.mp hfull)
      obtain ⟨h, hh⟩ := hwf.exists_findEmptyHashSlot key
      have hclaim : c.claimEntry = some (i, c) := by
        rw [claimEntry_of_room hfull, hi]; rfl
      refine ⟨h, i, rfl, hclaim, CacheIndex.findEmptyEntry_eq_some hi, hh, ?_⟩
      simp only [hfull, if_false, hclaim, hh, currentSize_linkFront]
      rfl

/-- The two ways `remove` goes. -/
theorem remove_cases (key : Str) :
    (c.index.findHashSlot key = none ∧ c.remove key = (false, c)) ∨
    (∃ h i, c.index.findHashSlot key = some (h, i) ∧
      (c.remove key).2.links = (c.removeFromList i).links ∧
      (c.remove key).2.index = c.index.unstore h i) := by
  have hindex := (index_remove key c).2
  rcases CacheIndex.remove_cases (x := c.index) key with ⟨hslot, -⟩ | ⟨h, i, hslot, heq⟩
  · refine Or.inl ⟨hslot, ?_⟩
    unfold remove
    rw [hslot]
  · rw [heq] at hindex
    refine Or.inr ⟨h, i, hslot, ?_, hindex⟩
    unfold remove
    rw [hslot]
    dsimp only
    rw [links_setSize, links_dropEntry, links_removeFromList, links_removeFromList, links_setSlot]

namespace ListedBy

theorem put (hc : c.ListedBy used) (key : Str) (value : V) :
    (c.put key value).2.ListedBy ((c.usedEntry (.put key value)).toList ++ used) := by
  have hindex := (index_put key value c).2
  rcases put_cases hc.wf key value with
    ⟨h, i, hslot, heq⟩ | ⟨-, -, heq⟩ | ⟨h, i, hslot, -, hfree, hh, heq⟩
  · -- an update of the key's entry
    have hused : c.usedEntry (.put key value) = some i := by
      have hafter : (c.index.overwrite i value).findHashSlot key = some (h, i) := hslot
      simp [usedEntry, heq, hafter]
    have hvalid := (CacheIndex.findHashSlot_eq_some_iff.mp hslot).2.1
    have hvalid' : (c.setValue i value).index.valid i = true := by
      rw [index_setValue]; exact hvalid
    rw [hused, heq]
    exact (hc.setValue i value).moveToFront hvalid'
  · -- refused
    have hused : c.usedEntry (.put key value) = none := by simp [usedEntry, heq]
    rw [hused, heq]
    exact hc
  · -- a new entry
    have hstore : (c.put key value).2.index = c.index.store h i key value := by
      rw [heq]
      exact index_fillEntry_setSlot c i key value h _ rfl
    have hempty := (CacheIndex.findEmptyHashSlot_eq_some_iff.mp hh).1
    have hused : c.usedEntry (.put key value) = some i := by
      have hafter := CacheIndex.findHashSlot_store_self hc.wf hfree hslot hh value
      rw [← hstore] at hafter
      have hok : (c.put key value).1 = true := by rw [heq]
      simp only [usedEntry, hok, if_true, hafter, Option.map_some]
    rw [hused]
    refine hc.linkFront hfree ?_ ?_ ?_
    · rw [hstore]; exact hc.wf.store hempty hfree key value
    · rw [hstore]; rfl
    · have hends := head_eq_none_iff hc.ring
      have hfilled : ((c.fillEntry i key value).setSlot h (some i)).head = none ↔
          ((c.fillEntry i key value).setSlot h (some i)).tail = none := hends
      rw [heq, links_setSize, links_linkFront hfilled, links_linkFront hends, links_setSlot,
        links_fillEntry]

theorem get (hc : c.ListedBy used) (key : Str) :
    (c.get key).2.ListedBy ((c.usedEntry (.get key)).toList ++ used) := by
  cases hslot : c.index.findHashSlot key with
  | none =>
    have heq : c.get key = (none, c) := by unfold FixedSizeLRUCache.get; rw [hslot]
    have hused : c.usedEntry (.get key) = none := by simp [usedEntry, heq]
    rw [hused, heq]
    exact hc
  | some p =>
    have heq : c.get key = (some (c.entries p.2).value, c.moveToFront p.2) := by
      unfold FixedSizeLRUCache.get; rw [hslot]
    have hused : c.usedEntry (.get key) = some p.2 := by simp [usedEntry, heq, hslot]
    rw [hused, heq]
    exact hc.moveToFront (CacheIndex.findHashSlot_eq_some_iff.mp hslot).2.1

theorem remove (hc : c.ListedBy used) (key : Str) : (c.remove key).2.ListedBy used := by
  rcases remove_cases (c := c) key with ⟨-, heq⟩ | ⟨h, i, hslot, hlinks, hindex⟩
  · rw [heq]; exact hc
  · obtain ⟨ht, hvalid, -⟩ := CacheIndex.findHashSlot_eq_some_iff.mp hslot
    refine hc.removeFromList hvalid ?_ ?_ hlinks
    · rw [hindex]; exact hc.wf.unstore ht
    · rw [hindex]; rfl

omit [NeZero maxSize] in
/-- A cache without valid entries has an empty list, whatever was used before. -/
theorem of_no_valid (hwf : c.index.Wf) (hvalid : ∀ i, c.index.valid i = false)
    (hhead : c.head = none) (htail : c.tail = none) (used : List (Fin maxSize)) :
    c.ListedBy used := by
  have horder : c.useOrder used = [] := by
    unfold useOrder
    rw [List.filter_eq_nil_iff]
    intro i _
    simp [hvalid i]
  refine ⟨hwf, fun i hi => ?_, ?_⟩
  · rw [hvalid i] at hi; cases hi
  · rw [horder]
    exact Links.isRing_nil hhead htail

/-- **One operation.** -/
theorem step (hc : c.ListedBy used) (op : CacheOp V) :
    (c.step op).2.ListedBy ((c.usedEntry op).toList ++ used) := by
  cases op with
  | put key value => exact hc.put key value
  | get key => exact hc.get key
  | contains key => exact hc
  | remove key => exact hc.remove key
  | clear =>
    have hwf : c.clear.index.Wf := CacheIndex.wf_clear c.index
    exact of_no_valid hwf (fun _ => rfl) rfl rfl used

/-- **A run.** -/
theorem after (hc : c.ListedBy used) (ops : List (CacheOp V)) :
    (StepRun.after FixedSizeLRUCache.step c ops).ListedBy (c.usedEntries ops ++ used) := by
  induction ops generalizing c used with
  | nil => exact hc
  | cons op ops ih =>
    have hrest := ih (hc.step op)
    rw [← List.append_assoc] at hrest
    exact hrest

end ListedBy

omit [NeZero maxSize] in
theorem listedBy_init [Inhabited V] (used : List (Fin maxSize)) :
    (init : FixedSizeLRUCache V maxSize).ListedBy used :=
  ListedBy.of_no_valid (c := init) CacheIndex.wf_init (fun _ => rfl) rfl rfl used

end Operations

/-! ## The whole structure

The invariants of index and list put together, as a statement about the fields of the cache; and the
branches of `put` that no run comes to. -/

section Structure

/-- The slots, the valid flags, the list and the counter of the cache agree: the list goes through
`order`. -/
structure RepInv (c : FixedSizeLRUCache V maxSize) (order : List (Fin maxSize)) : Prop where
  slot_unique : ∀ h h' i, c.hashTable h = some i → c.hashTable h' = some i → h = h'
  slot_iff_valid : ∀ i, (∃ h, c.hashTable h = some i) ↔ (c.entries i).valid = true
  walk_next : Walk (fun i => (c.entries i).next) c.head order
  ends_at_tail : order.getLast? = c.tail
  walk_prev : Walk (fun i => (c.entries i).prev) c.tail order.reverse
  visits_once : order.Nodup
  visits_iff_valid : ∀ i, i ∈ order ↔ (c.entries i).valid = true
  size_eq : c.currentSize = (Finset.univ.filter fun i => (c.entries i).valid = true).card

theorem ListedBy.repInv {c : FixedSizeLRUCache V maxSize} {used : List (Fin maxSize)}
    (hc : c.ListedBy used) : c.RepInv (c.useOrder used) where
  slot_unique h h' i ht ht' := hc.wf.slot_unique ht ht'
  slot_iff_valid i := (hc.wf.valid_iff i).symm
  walk_next := hc.ring.walk_next
  ends_at_tail := by
    rw [← List.head?_reverse]
    exact hc.ring.walk_prev.head?_eq
  walk_prev := hc.ring.walk_prev
  visits_once := hc.nodup
  visits_iff_valid i := hc.mem_useOrder
  size_eq := hc.wf.size_eq

variable [NeZero maxSize]

/-- Both probe loops stop at a slot within one round, `put` gives up no entry and finds a slot for
every new one, and a refused `put` changes nothing. -/
structure PutServed (c : FixedSizeLRUCache V maxSize) : Prop where
  probe_ends : ∀ key fuel, maxSize * 2 ≤ fuel → ∃ verdict,
    CircularScan.scan (c.index.probeKey key) (homeSlot key) fuel (homeSlot key) = some verdict
  empty_probe_ends : ∀ key fuel, maxSize * 2 ≤ fuel → ∃ h, c.hashTable h = none ∧
    CircularScan.scan (fun h => if c.hashTable h = none then some h else none) (homeSlot key) fuel
      (homeSlot key) = some h
  no_eviction : c.currentSize < maxSize →
    ∃ i, c.index.findEmptyEntry = some i ∧ c.claimEntry = some (i, c)
  slot_left : ∀ key, c.index.findEmptyHashSlot key ≠ none
  refused : ∀ key value, (c.put key value).1 = false → (c.put key value).2 = c

theorem putServed {c : FixedSizeLRUCache V maxSize} (hwf : c.index.Wf) : c.PutServed where
  probe_ends key fuel hfuel := by
    obtain ⟨h, hh⟩ := hwf.exists_empty_slot
    have hstop : c.index.probeKey key h ≠ none := by
      rw [CacheIndex.probeKey_eq_miss_iff.mpr hh]; simp
    obtain ⟨s, verdict, hs, hbefore⟩ := CircularScan.exists_first (homeSlot key) hstop
    exact ⟨verdict, (CircularScan.scan_eq_some_iff hfuel).mpr ⟨s, hs, hbefore⟩⟩
  empty_probe_ends key fuel hfuel := by
    obtain ⟨h, hh⟩ := hwf.exists_findEmptyHashSlot key
    obtain ⟨hempty, hbefore⟩ := CacheIndex.findEmptyHashSlot_eq_some_iff.mp hh
    refine ⟨h, hempty, (CircularScan.scan_eq_some_iff hfuel).mpr ⟨h, if_pos hempty, ?_⟩⟩
    intro t ht
    exact if_neg (hbefore t ht)
  no_eviction hroom := by
    obtain ⟨i, hi⟩ := hwf.exists_findEmptyEntry hroom
    refine ⟨i, hi, ?_⟩
    rw [claimEntry_of_room (not_le.mpr hroom), hi]; rfl
  slot_left key := by
    obtain ⟨h, hh⟩ := hwf.exists_findEmptyHashSlot key
    rw [hh]; simp
  refused key value hput := by
    rcases put_cases hwf key value with ⟨h, i, -, heq⟩ | ⟨-, -, heq⟩ | ⟨h, i, -, -, -, -, heq⟩
    · rw [heq] at hput; cases hput
    · rw [heq]
    · rw [heq] at hput; cases hput

/-- **The structure of the cache.**  After every sequence of `put`, `get`, `contains`, `remove` and
`clear` its parts agree, the list holds the valid entries with the one used last first, and `put`
comes to none of its dead branches. -/
theorem cache_structure [Inhabited V] (ops : List (CacheOp V)) :
    let c := StepRun.after step (init : FixedSizeLRUCache V maxSize) ops
    c.RepInv (c.useOrder ((init : FixedSizeLRUCache V maxSize).usedEntries ops)) ∧
      c.PutServed := by
  have hinit : (init : FixedSizeLRUCache V maxSize).ListedBy [] := listedBy_init []
  have hc := hinit.after ops
  rw [List.append_nil] at hc
  exact ⟨hc.repInv, putServed hc.wf⟩

/-- "a" is read again after "b" was stored: its entry comes first. -/
theorem cache_structure_reread :
    (StepRun.after step (init : FixedSizeLRUCache Nat 2)
      [.put (ascii ['a']) 1, .put (ascii ['b']) 2, .get (ascii ['a'])]).RepInv [0, 1] :=
  have horder : (StepRun.after step (init : FixedSizeLRUCache Nat 2)
      [.put (ascii ['a']) 1, .put (ascii ['b']) 2, .get (ascii ['a'])]).useOrder
        ((init : FixedSizeLRUCache Nat 2).usedEntries
          [.put (ascii ['a']) 1, .put (ascii ['b']) 2, .get (ascii ['a'])]) = [0, 1] := by decide
  horder ▸ (cache_structure _).1

end Structure

end FixedSizeLRUCache

end Icsn
