import Icsn.DataAccess.CacheIndex
import Icsn.DataAccess.FixedNodeIdSet

/-!
# Icsn — the pending interest table

`LRUPendingInterestTable.cpp`: for each name that was asked for, the set of requesters.  Both the
table and the set refuse what does not fit, and `save` looks at neither refusal.

The answers are functions of the cache's index; `index_save` and `index_remove` say what the two
writers do to it, `lookup_save_*` and `lookup_remove_*` what a later lookup sees of that.
-/

namespace Icsn

structure PITPair where
  contentName : Str
  destinationId : StdSet

abbrev RequesterSet (caps : BuildCapacity) :=
  FixedNodeIdSet caps.pitRequestersPerEntry caps.nodeIdMaxChars

/-- The table is its cache. -/
abbrev LRUPendingInterestTable (caps : BuildCapacity) :=
  FixedSizeLRUCache (RequesterSet caps) caps.pitEntries

namespace LRUPendingInterestTable

variable {caps : BuildCapacity}

/-! ## Operations

The table reads an entry, works on a copy of its set, and writes it back.  What the set or the cache
refuses is lost without a word. -/

/-- The set `save` writes: the old requesters first, then the new ones. -/
def mergedDestinations (existing : Option (RequesterSet caps)) (destinationId : StdSet) :
    RequesterSet caps :=
  let merged := match existing with
    | some existingDestinations => (FixedNodeIdSet.empty.insertFromOther existingDestinations).2
    | none => .empty
  (merged.insertFromStdSet destinationId).2

def save (pitPair : PITPair) (cache : LRUPendingInterestTable caps) :
    LRUPendingInterestTable caps :=
  -- neither the dropped ids nor a refused put is looked at
  let existing := cache.get pitPair.contentName
  (existing.2.put pitPair.contentName
    (mergedDestinations existing.1 pitPair.destinationId)).2

def remove (contentName : Str) (cache : LRUPendingInterestTable caps) :
    LRUPendingInterestTable caps :=
  if cache.contains contentName then (FixedSizeLRUCache.remove contentName cache).2 else cache

def find (contentName : Str) (cache : LRUPendingInterestTable caps) : Bool :=
  cache.contains contentName

def get (contentName : Str) (cache : LRUPendingInterestTable caps) :
    StdSet × LRUPendingInterestTable caps :=
  match FixedSizeLRUCache.get contentName cache with
  | (some destinations, cache) => (destinations.toStdSet, cache)
  | (none, cache) => (.empty, cache)

def clear (cache : LRUPendingInterestTable caps) : LRUPendingInterestTable caps :=
  FixedSizeLRUCache.clear cache

/-! ## The operations on the index

As for the FIB, answers depend on the index of the cache alone. -/

variable {pit : LRUPendingInterestTable caps} {name name' : Str}

theorem find_eq (name : Str) (pit : LRUPendingInterestTable caps) :
    find name pit = (pit.index.lookup name).isSome := FixedSizeLRUCache.contains_eq name pit

theorem get_fst (name : Str) (pit : LRUPendingInterestTable caps) :
    (get name pit).1 = ((pit.index.lookup name).map FixedNodeIdSet.toStdSet).getD .empty := by
  rw [get, ← FixedSizeLRUCache.get_fst]
  obtain ⟨answer, c⟩ := FixedSizeLRUCache.get name pit
  cases answer <;> rfl

theorem index_get (name : Str) (pit : LRUPendingInterestTable caps) :
    (get name pit).2.index = pit.index := by
  have h := FixedSizeLRUCache.index_get name pit
  rw [get]
  revert h
  obtain ⟨answer, c⟩ := FixedSizeLRUCache.get name pit
  intro h
  cases answer <;> exact h

theorem index_save (p : PITPair) (pit : LRUPendingInterestTable caps) :
    (save p pit).index = (pit.index.put p.contentName
      (mergedDestinations (pit.index.lookup p.contentName) p.destinationId)).2 := by
  rw [save, (FixedSizeLRUCache.index_put _ _ _).2, FixedSizeLRUCache.index_get,
    FixedSizeLRUCache.get_fst]

/-- The check before the removal makes no difference. -/
theorem index_remove (name : Str) (pit : LRUPendingInterestTable caps) :
    (remove name pit).index = (pit.index.remove name).2 := by
  rw [remove]
  split
  · exact (FixedSizeLRUCache.index_remove name pit).2
  · next habsent =>
    rw [FixedSizeLRUCache.contains_eq, Bool.not_eq_true, Option.isSome_eq_false_iff,
      Option.isNone_iff_eq_none, CacheIndex.lookup_eq_none_iff] at habsent
    rw [CacheIndex.remove, habsent]

/-! ## Requesters after a save

A save copies the old requesters into an empty set, and adds the new ones.  Nobody is lost by that,
except for the empty string, which no set holds anyway. -/

/-- The requesters known for a name, as `save` copies them. -/
def knownRequesters (existing : Option (RequesterSet caps)) : RequesterSet caps :=
  match existing with
  | some existingDestinations => (FixedNodeIdSet.empty.insertFromOther existingDestinations).2
  | none => .empty

theorem mergedDestinations_singleton (existing : Option (RequesterSet caps)) (id : Str) :
    mergedDestinations existing (.singleton id) = ((knownRequesters existing).insert id).2 := by
  cases existing <;> rfl

/-- A known requester that is not the empty string stays known. -/
theorem mem_merged_of_mem {existing : RequesterSet caps} {x : Str} (hx : x ∈ existing.ids)
    (hne : x ≠ []) (id : Str) : x ∈ (mergedDestinations (some existing) (.singleton id)).ids := by
  rw [mergedDestinations_singleton]
  exact FixedNodeIdSet.mem_insert_of_mem (FixedNodeIdSet.mem_insertFromOther_empty.mpr ⟨hx, hne⟩)

/-- No requester comes from anywhere but the old set and the new id. -/
theorem mem_or_eq_of_mem_merged {existing : Option (RequesterSet caps)} {x id : Str}
    (hx : x ∈ (mergedDestinations existing (.singleton id)).ids) :
    (∃ e, existing = some e ∧ x ∈ e.ids) ∨ x = FixedNodeIdSet.stored caps.nodeIdMaxChars id := by
  rw [mergedDestinations_singleton] at hx
  rcases FixedNodeIdSet.mem_or_eq_of_mem_insert hx with hold | hnew
  · cases existing with
    | none => cases hold
    | some e => exact Or.inl ⟨e, rfl, (FixedNodeIdSet.mem_insertFromOther_empty.mp hold).1⟩
  · exact Or.inr hnew.1

end LRUPendingInterestTable

end Icsn
