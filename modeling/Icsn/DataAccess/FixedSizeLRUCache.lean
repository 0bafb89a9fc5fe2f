import Icsn.Basic
import Icsn.Lib.CircularScan
import Icsn.Lib.BoundedMap
import Mathlib.Logic.Function.Basic

/-!
# Icsn — the fixed-size LRU cache

`FixedSizeLRUCache.hpp`: an array of `maxSize` entries, an open-addressed hash table of
`2 * maxSize` slots that hold entry indices, and a doubly linked list through the entries in the
order of last use.  An index is an `Option (Fin maxSize)`, `none` for the source's `-1`, so that no
out-of-range index can be built.

The cache reads two parts of this state.  `CacheIndex` is what a lookup reads: the slots and, of
each entry, key, value and valid flag.  The list is the rest.  The operations of the source are
followed line by line on the whole cache; `CacheIndex` has the same operations without the list,
and the `index_*` lemmas at the end say that the list never decides an answer.
-/

namespace Icsn

structure CacheEntry (V : Type) (maxSize : Nat) where
  key : Str := []
  value : V
  prev : Option (Fin maxSize) := none
  next : Option (Fin maxSize) := none
  valid : Bool := false

/-- The cache: `entries`, `hashTable` (`none` is `EMPTY_SLOT`), the list ends and the counter. -/
structure FixedSizeLRUCache (V : Type) (maxSize : Nat) where
  entries : Fin maxSize → CacheEntry V maxSize
  hashTable : Fin (maxSize * 2) → Option (Fin maxSize)
  head : Option (Fin maxSize)
  tail : Option (Fin maxSize)
  currentSize : Nat

/-- What the lookups of the cache read. -/
structure CacheIndex (V : Type) (maxSize : Nat) where
  key : Fin maxSize → Str
  value : Fin maxSize → V
  valid : Fin maxSize → Bool
  hashTable : Fin (maxSize * 2) → Option (Fin maxSize)
  currentSize : Nat

variable {V : Type} {maxSize : Nat}

/-! ## Lookups

The probes over the hash table, with which every operation on a key starts.  A probe gives up after
one round. -/

/-- `hash`: plain `char` is unsigned on the target, so the cast to `uint32_t` extends by zeroes. -/
def cacheHash (key : Str) : UInt32 := key.foldl (fun hash c => hash * 31 + c.toUInt32) 0

/-- `hash(key) % (MaxSize * 2)`, where every probe for `key` starts. -/
def homeSlot [NeZero maxSize] (key : Str) : Fin (maxSize * 2) :=
  Fin.ofNat (maxSize * 2) (cacheHash key).toNat

namespace CacheIndex

/-- One turn of the loop of `findHashSlot`: an empty slot ends it without a hit (`some none`), a
slot whose valid entry has the key ends it with a hit, any other slot is passed. -/
def probeKey (x : CacheIndex V maxSize) (key : Str) (h : Fin (maxSize * 2)) :
    Option (Option (Fin (maxSize * 2) × Fin maxSize)) :=
  match x.hashTable h with
  | none => some none
  | some entryIndex =>
    if x.valid entryIndex = true ∧ x.key entryIndex = key then some (some (h, entryIndex)) else none

/-- `findHashSlot`, with the entry index `hashTable[slot]` its callers read next. -/
def findHashSlot [NeZero maxSize] (x : CacheIndex V maxSize) (key : Str) :
    Option (Fin (maxSize * 2) × Fin maxSize) :=
  (CircularScan.scan (x.probeKey key) (homeSlot key) (maxSize * 2) (homeSlot key)).join

def findEmptyHashSlot [NeZero maxSize] (x : CacheIndex V maxSize) (key : Str) :
    Option (Fin (maxSize * 2)) :=
  CircularScan.scan (fun h => if x.hashTable h = none then some h else none)
    (homeSlot key) (maxSize * 2) (homeSlot key)

def findEmptyEntry (x : CacheIndex V maxSize) : Option (Fin maxSize) :=
  Fin.find? fun i => !x.valid i

end CacheIndex

namespace FixedSizeLRUCache

/-- The part of the cache its lookups read. -/
def index (c : FixedSizeLRUCache V maxSize) : CacheIndex V maxSize where
  key i := (c.entries i).key
  value i := (c.entries i).value
  valid i := (c.entries i).valid
  hashTable := c.hashTable
  currentSize := c.currentSize

/-! ## The use-order list

One definition for each write of the source, and the routines as their compositions, in the same
order: a routine reads links that it may have changed just before. -/

/-- `entries[i].prev = p`. -/
def setPrev (c : FixedSizeLRUCache V maxSize) (i : Fin maxSize) (p : Option (Fin maxSize)) :
    FixedSizeLRUCache V maxSize :=
  { c with entries := Function.update c.entries i { c.entries i with prev := p } }

/-- `entries[i].next = n`. -/
def setNext (c : FixedSizeLRUCache V maxSize) (i : Fin maxSize) (n : Option (Fin maxSize)) :
    FixedSizeLRUCache V maxSize :=
  { c with entries := Function.update c.entries i { c.entries i with next := n } }

/-- `head = h`. -/
def setHead (c : FixedSizeLRUCache V maxSize) (h : Option (Fin maxSize)) :
    FixedSizeLRUCache V maxSize := { c with head := h }

/-- `tail = t`. -/
def setTail (c : FixedSizeLRUCache V maxSize) (t : Option (Fin maxSize)) :
    FixedSizeLRUCache V maxSize := { c with tail := t }

/-- `if (i != -1) entries[i].prev = p`. -/
def setPrevOf (c : FixedSizeLRUCache V maxSize) (i p : Option (Fin maxSize)) :
    FixedSizeLRUCache V maxSize :=
  match i with
  | some i => c.setPrev i p
  | none => c

/-- `if (i != -1) entries[i].next = n`. -/
def setNextOf (c : FixedSizeLRUCache V maxSize) (i n : Option (Fin maxSize)) :
    FixedSizeLRUCache V maxSize :=
  match i with
  | some i => c.setNext i n
  | none => c

/-- The lines that put entry `index` at the head, shared by `moveToFront` and `put`. -/
def linkFront (c : FixedSizeLRUCache V maxSize) (index : Fin maxSize) :
    FixedSizeLRUCache V maxSize :=
  let c := c.setPrev index none
  let c := c.setNext index c.head
  let c := c.setPrevOf c.head (some index)
  let c := c.setHead (some index)
  if c.tail = none then c.setTail (some index) else c

def moveToFront (c : FixedSizeLRUCache V maxSize) (index : Fin maxSize) :
    FixedSizeLRUCache V maxSize :=
  if c.head = some index then c
  else
    let c := c.setNextOf (c.entries index).prev (c.entries index).next
    let c := c.setPrevOf (c.entries index).next (c.entries index).prev
    let c := if c.tail = some index then c.setTail (c.entries index).prev else c
    c.linkFront index

def removeFromList (c : FixedSizeLRUCache V maxSize) (index : Fin maxSize) :
    FixedSizeLRUCache V maxSize :=
  let c := match (c.entries index).prev with
    | some p => c.setNext p (c.entries index).next
    | none => c.setHead (c.entries index).next
  let c := match (c.entries index).next with
    | some n => c.setPrev n (c.entries index).prev
    | none => c.setTail (c.entries index).prev
  (c.setPrev index none).setNext index none

/-! ## Operations

The public methods.  `put` refuses a new key in a full cache, which makes the eviction in
`claimEntry` unreachable; it is here since it is in the source. -/

/-- The constructor. -/
def init [Inhabited V] : FixedSizeLRUCache V maxSize where
  entries _ := { value := default }
  hashTable _ := none
  head := none
  tail := none
  currentSize := 0

instance [Inhabited V] : Inhabited (FixedSizeLRUCache V maxSize) := ⟨init⟩

/-- `hashTable[slot] = e`. -/
def setSlot (c : FixedSizeLRUCache V maxSize) (slot : Fin (maxSize * 2))
    (e : Option (Fin maxSize)) : FixedSizeLRUCache V maxSize :=
  { c with hashTable := Function.update c.hashTable slot e }

/-- `currentSize = n`. -/
def setSize (c : FixedSizeLRUCache V maxSize) (n : Nat) : FixedSizeLRUCache V maxSize :=
  { c with currentSize := n }

/-- `entries[i].value = v`. -/
def setValue (c : FixedSizeLRUCache V maxSize) (i : Fin maxSize) (v : V) :
    FixedSizeLRUCache V maxSize :=
  { c with entries := Function.update c.entries i { c.entries i with value := v } }

/-- `entries[i].key = key; entries[i].value = v; entries[i].valid = true`. -/
def fillEntry (c : FixedSizeLRUCache V maxSize) (i : Fin maxSize) (key : Str) (v : V) :
    FixedSizeLRUCache V maxSize :=
  let entry := { c.entries i with key := key, value := v, valid := true }
  { c with entries := Function.update c.entries i entry }

/-- `entries[i].valid = false; entries[i].key.clear()`. -/
def dropEntry (c : FixedSizeLRUCache V maxSize) (i : Fin maxSize) : FixedSizeLRUCache V maxSize :=
  { c with entries := Function.update c.entries i { c.entries i with valid := false, key := [] } }

/-- The entry a new key goes to: a free one, or else, with the cache full, the tail after its slot
and its place in the list are given up.  `put` refuses a full cache before it comes here. -/
def claimEntry [NeZero maxSize] (c : FixedSizeLRUCache V maxSize) :
    Option (Fin maxSize × FixedSizeLRUCache V maxSize) :=
  match c.index.findEmptyEntry with
  | some entryIndex => some (entryIndex, c)
  | none =>
    if maxSize ≤ c.currentSize then
      c.tail.map fun entryIndex =>
        let c := match c.index.findHashSlot (c.entries entryIndex).key with
          | some (oldHashSlot, _) => c.setSlot oldHashSlot none
          | none => c
        let c := c.removeFromList entryIndex
        (entryIndex, c.setSize (c.currentSize - 1))
    else none

def put [NeZero maxSize] (key : Str) (value : V) (c : FixedSizeLRUCache V maxSize) :
    Bool × FixedSizeLRUCache V maxSize :=
  match c.index.findHashSlot key with
  | some (_, entryIndex) => (true, (c.setValue entryIndex value).moveToFront entryIndex)
  | none =>
    -- a full cache refuses a new key
    if maxSize ≤ c.currentSize then (false, c)
    else
      match c.claimEntry with
      | none => (false, c)
      | some (entryIndex, c) =>
        match c.index.findEmptyHashSlot key with
        | none => (false, c)
        | some newHashSlot =>
          let c := c.fillEntry entryIndex key value
          let c := c.setSlot newHashSlot (some entryIndex)
          let c := c.linkFront entryIndex
          (true, c.setSize (c.currentSize + 1))

/-- `get`: the value, when the key is found, and the entry moved to the front. -/
def get [NeZero maxSize] (key : Str) (c : FixedSizeLRUCache V maxSize) :
    Option V × FixedSizeLRUCache V maxSize :=
  match c.index.findHashSlot key with
  | none => (none, c)
  | some (_, entryIndex) => (some (c.entries entryIndex).value, c.moveToFront entryIndex)

def contains [NeZero maxSize] (key : Str) (c : FixedSizeLRUCache V maxSize) : Bool :=
  (c.index.findHashSlot key).isSome

def remove [NeZero maxSize] (key : Str) (c : FixedSizeLRUCache V maxSize) :
    Bool × FixedSizeLRUCache V maxSize :=
  match c.index.findHashSlot key with
  | none => (false, c)
  | some (hashSlot, entryIndex) =>
    -- the slot becomes empty, whatever chain runs through it
    let c := c.setSlot hashSlot none
    let c := c.removeFromList entryIndex
    let c := c.dropEntry entryIndex
    (true, c.setSize (c.currentSize - 1))

def size (c : FixedSizeLRUCache V maxSize) : Nat := c.currentSize

def clear (c : FixedSizeLRUCache V maxSize) : FixedSizeLRUCache V maxSize where
  entries i := { value := (c.entries i).value }
  hashTable _ := none
  head := none
  tail := none
  currentSize := 0

instance [NeZero maxSize] : Table (FixedSizeLRUCache V maxSize) Str V where
  put := put
  get := get
  contains := contains
  remove := remove
  size := size

end FixedSizeLRUCache

/-! ## The index alone

The operations once more, without the list.  These are what the proofs about answers work with. -/

namespace CacheIndex

/-- The index of an empty cache. -/
def init [Inhabited V] : CacheIndex V maxSize where
  key _ := []
  value _ := default
  valid _ := false
  hashTable _ := none
  currentSize := 0

/-- The value a lookup of the key gives. -/
def lookup [NeZero maxSize] (x : CacheIndex V maxSize) (key : Str) : Option V :=
  (x.findHashSlot key).map fun p => x.value p.2

/-- The effect of storing a new key in entry `i` and slot `h`. -/
def store (x : CacheIndex V maxSize) (h : Fin (maxSize * 2)) (i : Fin maxSize) (key : Str)
    (value : V) : CacheIndex V maxSize where
  key := Function.update x.key i key
  value := Function.update x.value i value
  valid := Function.update x.valid i true
  hashTable := Function.update x.hashTable h (some i)
  currentSize := x.currentSize + 1

/-- The effect of overwriting the value of entry `i`. -/
def overwrite (x : CacheIndex V maxSize) (i : Fin maxSize) (value : V) : CacheIndex V maxSize :=
  { x with value := Function.update x.value i value }

/-- The effect of dropping entry `i` from slot `h`. -/
def unstore (x : CacheIndex V maxSize) (h : Fin (maxSize * 2)) (i : Fin maxSize) :
    CacheIndex V maxSize where
  key := Function.update x.key i []
  value := x.value
  valid := Function.update x.valid i false
  hashTable := Function.update x.hashTable h none
  currentSize := x.currentSize - 1

/-- `put` without the list. -/
def put [NeZero maxSize] (key : Str) (value : V) (x : CacheIndex V maxSize) :
    Bool × CacheIndex V maxSize :=
  match x.findHashSlot key with
  | some (_, i) => (true, x.overwrite i value)
  | none =>
    if maxSize ≤ x.currentSize then (false, x)
    else
      match x.findEmptyEntry, x.findEmptyHashSlot key with
      | some i, some h => (true, x.store h i key value)
      | _, _ => (false, x)

/-- `remove` without the list. -/
def remove [NeZero maxSize] (key : Str) (x : CacheIndex V maxSize) : Bool × CacheIndex V maxSize :=
  match x.findHashSlot key with
  | none => (false, x)
  | some (h, i) => (true, x.unstore h i)

/-- `clear` without the list. -/
def clear (x : CacheIndex V maxSize) : CacheIndex V maxSize where
  key _ := []
  value := x.value
  valid _ := false
  hashTable _ := none
  currentSize := 0

end CacheIndex

namespace FixedSizeLRUCache

/-! ## The list never decides an answer

Each write of the list leaves the index as it was, so each operation of the cache is that of its
index, with the same answer.  The last lemma says it of any sequence of calls, in the form the
generic tables need. -/

@[simp] theorem index_setPrev (c : FixedSizeLRUCache V maxSize) (i : Fin maxSize)
    (p : Option (Fin maxSize)) : (c.setPrev i p).index = c.index := by
  simp only [index, setPrev, CacheIndex.mk.injEq, and_true]
  refine ⟨funext fun j => ?_, funext fun j => ?_, funext fun j => ?_⟩ <;>
    rcases eq_or_ne j i with rfl | hji <;> simp [*]

@[simp] theorem index_setNext (c : FixedSizeLRUCache V maxSize) (i : Fin maxSize)
    (n : Option (Fin maxSize)) : (c.setNext i n).index = c.index := by
  simp only [index, setNext, CacheIndex.mk.injEq, and_true]
  refine ⟨funext fun j => ?_, funext fun j => ?_, funext fun j => ?_⟩ <;>
    rcases eq_or_ne j i with rfl | hji <;> simp [*]

@[simp] theorem index_setPrevOf (c : FixedSizeLRUCache V maxSize) (i p : Option (Fin maxSize)) :
    (c.setPrevOf i p).index = c.index := by
  cases i with
  | none => rfl
  | some i => exact index_setPrev c i p

@[simp] theorem index_setNextOf (c : FixedSizeLRUCache V maxSize) (i n : Option (Fin maxSize)) :
    (c.setNextOf i n).index = c.index := by
  cases i with
  | none => rfl
  | some i => exact index_setNext c i n

@[simp] theorem index_setHead (c : FixedSizeLRUCache V maxSize) (h : Option (Fin maxSize)) :
    (c.setHead h).index = c.index := rfl

@[simp] theorem index_setTail (c : FixedSizeLRUCache V maxSize) (t : Option (Fin maxSize)) :
    (c.setTail t).index = c.index := rfl

@[simp] theorem index_linkFront (c : FixedSizeLRUCache V maxSize) (i : Fin maxSize) :
    (c.linkFront i).index = c.index := by
  unfold linkFront
  dsimp only
  split <;> simp

@[simp] theorem index_moveToFront (c : FixedSizeLRUCache V maxSize) (i : Fin maxSize) :
    (c.moveToFront i).index = c.index := by
  unfold moveToFront
  split
  · rfl
  · dsimp only
    rw [index_linkFront]
    split <;> simp

@[simp] theorem index_removeFromList (c : FixedSizeLRUCache V maxSize) (i : Fin maxSize) :
    (c.removeFromList i).index = c.index := by
  unfold removeFromList
  dsimp only
  rw [index_setNext, index_setPrev]
  split <;> (split <;> simp)

@[simp] theorem index_setSize (c : FixedSizeLRUCache V maxSize) (n : Nat) :
    (c.setSize n).index = { c.index with currentSize := n } := rfl

@[simp] theorem index_setSlot (c : FixedSizeLRUCache V maxSize) (h : Fin (maxSize * 2))
    (e : Option (Fin maxSize)) :
    (c.setSlot h e).index = { c.index with hashTable := Function.update c.hashTable h e } := rfl

@[simp] theorem index_setValue (c : FixedSizeLRUCache V maxSize) (i : Fin maxSize) (v : V) :
    (c.setValue i v).index = c.index.overwrite i v := by
  simp only [index, setValue, CacheIndex.overwrite, CacheIndex.mk.injEq, and_true]
  refine ⟨funext fun j => ?_, funext fun j => ?_, funext fun j => ?_⟩ <;>
    rcases eq_or_ne j i with rfl | hji <;> simp [*]

theorem index_fillEntry_setSlot (c : FixedSizeLRUCache V maxSize) (i : Fin maxSize) (key : Str)
    (v : V) (h : Fin (maxSize * 2)) (n : Nat) (hn : n = c.currentSize + 1) :
    (((c.fillEntry i key v).setSlot h (some i)).linkFront i |>.setSize n).index
      = c.index.store h i key v := by
  rw [index_setSize, index_linkFront, index_setSlot, hn]
  simp only [index, fillEntry, CacheIndex.store, CacheIndex.mk.injEq, and_true]
  refine ⟨funext fun j => ?_, funext fun j => ?_, funext fun j => ?_⟩ <;>
    rcases eq_or_ne j i with rfl | hji <;> simp [*]

theorem index_dropEntry (c : FixedSizeLRUCache V maxSize) (i : Fin maxSize) :
    (c.dropEntry i).index
      = { c.index with
          key := Function.update c.index.key i []
          valid := Function.update c.index.valid i false } := by
  simp only [index, dropEntry, CacheIndex.mk.injEq, and_true]
  refine ⟨funext fun j => ?_, funext fun j => ?_, funext fun j => ?_⟩ <;>
    rcases eq_or_ne j i with rfl | hji <;> simp [*]

@[simp] theorem currentSize_linkFront (c : FixedSizeLRUCache V maxSize) (i : Fin maxSize) :
    (c.linkFront i).currentSize = c.currentSize :=
  congrArg CacheIndex.currentSize (index_linkFront c i)

@[simp] theorem currentSize_removeFromList (c : FixedSizeLRUCache V maxSize) (i : Fin maxSize) :
    (c.removeFromList i).currentSize = c.currentSize :=
  congrArg CacheIndex.currentSize (index_removeFromList c i)

@[simp] theorem index_clear (c : FixedSizeLRUCache V maxSize) : c.clear.index = c.index.clear := rfl

@[simp] theorem index_init [Inhabited V] :
    (init : FixedSizeLRUCache V maxSize).index = CacheIndex.init := rfl

variable [NeZero maxSize]

/-- With room left, the tail is never given up: the claimed entry is a free one. -/
theorem claimEntry_of_room {c : FixedSizeLRUCache V maxSize} (h : ¬ maxSize ≤ c.currentSize) :
    c.claimEntry = c.index.findEmptyEntry.map fun i => (i, c) := by
  unfold claimEntry
  cases c.index.findEmptyEntry with
  | none => simp [h]
  | some i => rfl

/-- **`put` on the index.** -/
theorem index_put (key : Str) (value : V) (c : FixedSizeLRUCache V maxSize) :
    (c.put key value).1 = (c.index.put key value).1 ∧
      (c.put key value).2.index = (c.index.put key value).2 := by
  unfold put CacheIndex.put
  cases c.index.findHashSlot key with
  | some p => exact ⟨rfl, by simp⟩
  | none =>
    show (_ ∧ _)
    by_cases hfull : maxSize ≤ c.currentSize
    · have hfull' : maxSize ≤ c.index.currentSize := hfull
      simp only [hfull, hfull', if_true, and_self]
    · have hfull' : ¬ maxSize ≤ c.index.currentSize := hfull
      simp only [hfull, hfull', if_false, claimEntry_of_room hfull]
      cases c.index.findEmptyEntry with
      | none => exact ⟨rfl, rfl⟩
      | some i =>
        dsimp only [Option.map_some]
        cases c.index.findEmptyHashSlot key with
        | none => exact ⟨rfl, rfl⟩
        | some h =>
          refine ⟨rfl, index_fillEntry_setSlot c i key value h _ ?_⟩
          rw [currentSize_linkFront]; rfl

/-- **`get` on the index**: the answer is the lookup, and the index is unchanged. -/
theorem get_eq (key : Str) (c : FixedSizeLRUCache V maxSize) :
    (c.get key).1 = c.index.lookup key ∧ (c.get key).2.index = c.index := by
  unfold get CacheIndex.lookup
  cases c.index.findHashSlot key with
  | none => exact ⟨rfl, rfl⟩
  | some p => exact ⟨rfl, index_moveToFront c p.2⟩

@[simp] theorem get_fst (key : Str) (c : FixedSizeLRUCache V maxSize) :
    (c.get key).1 = c.index.lookup key := (get_eq key c).1

@[simp] theorem index_get (key : Str) (c : FixedSizeLRUCache V maxSize) :
    (c.get key).2.index = c.index := (get_eq key c).2

/-- `contains` says whether the lookup succeeds. -/
theorem contains_eq (key : Str) (c : FixedSizeLRUCache V maxSize) :
    c.contains key = (c.index.lookup key).isSome := by
  simp [contains, CacheIndex.lookup]

/-- **`remove` on the index.** -/
theorem index_remove (key : Str) (c : FixedSizeLRUCache V maxSize) :
    (c.remove key).1 = (c.index.remove key).1 ∧
      (c.remove key).2.index = (c.index.remove key).2 := by
  unfold remove CacheIndex.remove
  cases c.index.findHashSlot key with
  | none => exact ⟨rfl, rfl⟩
  | some p =>
    refine ⟨rfl, ?_⟩
    dsimp only
    rw [index_setSize, index_dropEntry, index_removeFromList, index_setSlot]
    have hsize : (((c.setSlot p.1 none).removeFromList p.2).dropEntry p.2).currentSize
        = c.currentSize := by
      show ((c.setSlot p.1 none).removeFromList p.2).currentSize = _
      rw [currentSize_removeFromList]; rfl
    rw [hsize]; rfl

/-- The index as a table of its own. -/
instance : Table (CacheIndex V maxSize) Str V where
  put := CacheIndex.put
  get key x := (x.lookup key, x)
  contains key x := (x.lookup key).isSome
  remove := CacheIndex.remove
  size := CacheIndex.currentSize

instance : Table.Quiet (CacheIndex V maxSize) := ⟨fun _ _ => rfl⟩

/-- **No operation tells the cache from its index.** -/
theorem isHom_index : Table.IsHom (index : FixedSizeLRUCache V maxSize → CacheIndex V maxSize) where
  get_eq key c := Prod.ext (get_fst key c).symm (index_get key c).symm
  put_eq key v c := Prod.ext (index_put key v c).1.symm (index_put key v c).2.symm
  remove_eq key c := Prod.ext (index_remove key c).1.symm (index_remove key c).2.symm
  contains_eq key c := (contains_eq key c).symm
  size_eq _ := rfl

end FixedSizeLRUCache

end Icsn
