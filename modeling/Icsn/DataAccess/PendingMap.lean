import Icsn.DataAccess.CacheRefinement
import Icsn.DataAccess.LRUPendingInterestTable
import Icsn.DataAccess.NodeIdHistories

/-!
# Icsn — the pending interest table against the bounded map

The abstract model of `LRUPendingInterestTable` is a `BoundedMap` from names to everybody who asked
for them, in order.  The table keeps a bounded set of these, and loses entries behind a removal
that empties a slot on their probe; `RemoveSafe` says that it does not.

* **`requesters`** — those of the askers that an entry keeps.
* **`PendingRel`** — the table stands for the map; one lemma for each operation.
-/

namespace Icsn

/-- Without an entry there is no slot to empty. -/
theorem CacheIndex.removeSafe_of_lookup_eq_none {V : Type} {maxSize : Nat} [NeZero maxSize]
    {x : CacheIndex V maxSize} {key : Str} (h : x.lookup key = none) : x.RemoveSafe key := by
  intro i _
  unfold crosses
  rw [lookup_eq_none_iff.mp h]

namespace LRUPendingInterestTable

open BoundedMap (Agree)

variable {caps : BuildCapacity}

/-- The requesters that an entry keeps: the first distinct ones, cut to the length of a node id. -/
def requesters (caps : BuildCapacity) (askers : List Str) : List Str :=
  firstDistinct caps.pitRequestersPerEntry (cutIds caps.nodeIdMaxChars askers)

/-- One more asker for a name; refused for a new name while the map is full. -/
def ask (name sender : Str) (m : BoundedMap Str (List Str) caps.pitEntries) :
    BoundedMap Str (List Str) caps.pitEntries :=
  (m.put name ((m.lookup name).getD [] ++ [sender])).2

/-- The table stands for the map. -/
def PendingRel (pit : LRUPendingInterestTable caps)
    (m : BoundedMap Str (List Str) caps.pitEntries) : Prop :=
  ∃ sets : BoundedMap Str (RequesterSet caps) caps.pitEntries,
    CacheRel pit sets ∧ Agree FixedNodeIdSet.Holds sets m

theorem pendingRel_init : PendingRel (.init : LRUPendingInterestTable caps) .empty :=
  ⟨.empty, cacheRel_init, BoundedMap.agree_empty⟩

/-- Merging one requester into the set of a name. -/
theorem holds_mergedDestinations {existing : Option (RequesterSet caps)}
    {askers : Option (List Str)} (h : Option.Rel FixedNodeIdSet.Holds existing askers)
    {sender : Str} (h0 : 0 ∉ sender) :
    (mergedDestinations existing (.singleton sender)).Holds (askers.getD [] ++ [sender]) := by
  rw [mergedDestinations_singleton]
  refine FixedNodeIdSet.Holds.insert ?_ h0
  cases h with
  | none => exact (List.take_nil : List.take caps.pitRequestersPerEntry ([] : List Str) = []).symm
  | @some existing askers hholds =>
    have hids : existing.ids = firstDistinct caps.pitRequestersPerEntry
        (cutIds caps.nodeIdMaxChars askers) := hholds
    have hnodup : existing.ids.Nodup := by
      rw [hids]
      exact nodup_firstDistinct _ _
    exact (FixedNodeIdSet.ids_insertFromOther_empty hholds.nil_notMem hnodup).trans hids

namespace PendingRel

variable {pit : LRUPendingInterestTable caps} {m : BoundedMap Str (List Str) caps.pitEntries}

theorem find_eq (h : PendingRel pit m) (name : Str) : find name pit = (m.lookup name).isSome := by
  obtain ⟨sets, hrel, hagree⟩ := h
  rw [LRUPendingInterestTable.find_eq, hrel.lookup_eq, hagree.isSome_eq]

theorem get_fst (h : PendingRel pit m) {name : Str} {askers : List Str}
    (hpending : m.lookup name = some askers) :
    (get name pit).1 = OrderedSet.ofList (requesters caps askers) := by
  obtain ⟨sets, hrel, hagree⟩ := h
  have hset := hagree.lookup_rel name
  rw [LRUPendingInterestTable.get_fst, hrel.lookup_eq]
  rw [hpending] at hset
  cases hlook : sets.lookup name with
  | none =>
    rw [hlook] at hset
    cases hset
  | some set =>
    rw [hlook] at hset
    cases hset with
    | some hholds =>
      show OrderedSet.ofList set.ids = _
      rw [show set.ids = _ from hholds]
      rfl

/-- Only the index of the table counts. -/
theorem of_index_eq (h : PendingRel pit m) {pit' : LRUPendingInterestTable caps}
    (hindex : pit'.index = pit.index) : PendingRel pit' m := by
  obtain ⟨sets, hrel, hagree⟩ := h
  refine ⟨sets, ⟨?_, ?_, ?_⟩, hagree⟩
  · rw [hindex]
    exact hrel.chained
  · rw [hindex]
    exact hrel.lookup_eq
  · exact (congrArg CacheIndex.currentSize hindex).trans hrel.size_eq

theorem get (h : PendingRel pit m) (name : Str) : PendingRel (get name pit).2 m :=
  h.of_index_eq (index_get name pit)

/-- **A save** of one requester. -/
theorem save (h : PendingRel pit m) (name : Str) {sender : Str} (h0 : 0 ∉ sender) :
    PendingRel (save { contentName := name, destinationId := .singleton sender } pit)
      (ask name sender m) := by
  obtain ⟨sets, hrel, hagree⟩ := h
  have hmerged := holds_mergedDestinations (hagree.lookup_rel name) h0
  have hput : PendingRel (pit.put name
      (mergedDestinations (sets.lookup name) (.singleton sender))).2 (ask name sender m) :=
    ⟨_, (hrel.put name _).2, hagree.put name hmerged⟩
  refine hput.of_index_eq ?_
  rw [index_save, hrel.lookup_eq, (FixedSizeLRUCache.index_put _ _ _).2]

/-- **A removal** that empties no slot on another name's probe. -/
theorem remove (h : PendingRel pit m) {name : Str} (hsafe : pit.index.RemoveSafe name) :
    PendingRel (remove name pit) (m.remove name).2 := by
  obtain ⟨sets, hrel, hagree⟩ := h
  have hremoved : PendingRel (FixedSizeLRUCache.remove name pit).2 (m.remove name).2 :=
    ⟨_, hrel.remove hsafe, hagree.remove name⟩
  refine hremoved.of_index_eq ?_
  rw [index_remove, (FixedSizeLRUCache.index_remove name pit).2]

theorem clear (h : PendingRel pit m) : PendingRel (clear pit) .empty := by
  obtain ⟨sets, hrel, -⟩ := h
  exact ⟨.empty, cacheRel_step .clear hrel trivial, BoundedMap.agree_empty⟩

/-- **An unsafe removal** loses a name that the map still has. -/
theorem exists_lost (h : PendingRel pit m) {name : Str} (hcrossed : ¬ pit.index.RemoveSafe name) :
    ∃ name', find name' (LRUPendingInterestTable.remove name pit) = false ∧
      ((m.remove name).2.lookup name').isSome = true := by
  obtain ⟨sets, hrel, hagree⟩ := h
  obtain ⟨name', hlost, hkept⟩ := exists_lost_key hrel hcrossed
  refine ⟨name', ?_, ?_⟩
  · rw [FixedSizeLRUCache.contains_eq, (FixedSizeLRUCache.index_remove name pit).2] at hlost
    rw [LRUPendingInterestTable.find_eq, index_remove, hlost]
  · rw [← (hagree.remove name).isSome_eq, hkept]

end PendingRel

end LRUPendingInterestTable

end Icsn
