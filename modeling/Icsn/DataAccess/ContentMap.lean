import Icsn.DataAccess.PayloadSlots

/-!
# Icsn — the content store against the bounded map

The abstract model of `LRUContentStore` is a `BoundedMap` from names to contents.  Nothing is ever
evicted, and an update needs a free slot besides the one it gives back: a store that is full takes
no content, not even for a name it has.

* **`keep`** — what a save does to the map.
* **`StoreRel`** — the store stands for the map; `StoreRel.save` is the one case with an argument.
-/

namespace Icsn

/-- A put counts a new key. -/
theorem CacheIndex.currentSize_put {V : Type} {maxSize : Nat} [NeZero maxSize]
    {x : CacheIndex V maxSize} (hx : x.Wf) {key : Str} {v : V} (hput : (x.put key v).1 = true) :
    (x.put key v).2.currentSize
      = if (x.lookup key).isSome then x.currentSize else x.currentSize + 1 := by
  rcases put_cases hx key v with ⟨h, i, hs, heq⟩ | ⟨-, -, heq⟩ | ⟨h, i, hs, -, -, -, heq⟩
  · rw [heq]
    simp [lookup, hs, overwrite]
  · rw [heq] at hput
    cases hput
  · rw [heq]
    simp [lookup, hs, store]

/-- All entries are valid exactly if the counter is at its end. -/
theorem CacheIndex.Wf.forall_valid_iff {V : Type} {maxSize : Nat} {x : CacheIndex V maxSize}
    (hx : x.Wf) : (∀ i, x.valid i = true) ↔ maxSize ≤ x.currentSize := by
  have hcard : x.validSet.card = maxSize ↔ x.validSet = Finset.univ := by
    rw [← Finset.card_eq_iff_eq_univ, Fintype.card_fin]
  have hmem : x.validSet = Finset.univ ↔ ∀ i, x.valid i = true := by
    rw [Finset.eq_univ_iff_forall]
    simp [validSet]
  have hle := hx.size_le
  have hsize := hx.size_eq
  rw [← hmem, ← hcard]
  omega

namespace LRUContentStore

variable {caps : BuildCapacity}

/-- A save on the map: refused without memory, and while the map is full, whatever the name. -/
def keep (name content : Str) (alloc : Option Bool) (m : BoundedMap Str Str caps.csEntries) :
    BoundedMap Str Str caps.csEntries :=
  if m.size < caps.csEntries ∧ alloc ≠ none then (m.put name content).2 else m

/-- The store stands for the map. -/
structure StoreRel (store : LRUContentStore caps) (m : BoundedMap Str Str caps.csEntries) : Prop
    where
  sound : store.Sound
  intact : ∃ filled, Intact filled store
  lookup_eq : ∀ name, store.contentOf name = m.lookup name
  size_eq : store.cache.index.currentSize = m.size

theorem storeRel_init : StoreRel (init : LRUContentStore caps) .empty where
  sound := sound_init
  intact := ⟨_, intact_init⟩
  lookup_eq _ := by
    rw [contentOf, init, FixedSizeLRUCache.index_init, CacheIndex.lookup_init]
    rfl
  size_eq := rfl

/-- **No slot is free** exactly if every entry of the cache is in use. -/
theorem Intact.findFreePayloadSlot_eq_none_iff {filled : Fin caps.csEntries → Option Str}
    {store : LRUContentStore caps} (h : Intact filled store) :
    store.findFreePayloadSlot = none ↔ caps.csEntries ≤ store.cache.index.currentSize := by
  have hcast : Function.Injective fun s : Fin caps.csEntries => (s.val : Int) :=
    fun s t hst => Fin.ext (Int.ofNat_inj.mp hst)
  have hused : (∀ s : Fin caps.csEntries, store.UsesSlot s.val)
      ↔ ∀ i, (store.cache.index.owns i).isSome = true :=
    h.matched.all_used_iff hcast fun v hv => by
      obtain ⟨s, hs, -⟩ := hv
      exact ⟨s, hs⟩
  have howns : ∀ i, (store.cache.index.owns i).isSome = store.cache.index.valid i := by
    intro i
    unfold CacheIndex.owns
    cases store.cache.index.valid i <;> rfl
  have hslot : ∀ s : Fin caps.csEntries,
      store.UsesSlot s.val ↔ (store.payloadSlots s).inUse = true := by
    intro s
    constructor
    · rintro ⟨t, hts, ht⟩
      rwa [hcast hts] at ht
    · exact fun hs => ⟨s, rfl, hs⟩
  simp only [howns, h.wf.forall_valid_iff, hslot] at hused
  unfold findFreePayloadSlot
  rw [Fin.find?_eq_none_iff, ← hused]
  simp

namespace StoreRel

variable {store : LRUContentStore caps} {m : BoundedMap Str Str caps.csEntries}

theorem find_eq (h : StoreRel store m) (name : Str) : store.find name = (m.lookup name).isSome := by
  rw [← h.sound.contentOf_isSome, h.lookup_eq]

theorem get_fst (h : StoreRel store m) (name : Str) :
    (store.get name).1 = (m.lookup name).getD [] := by
  rw [LRUContentStore.get_fst, h.lookup_eq]

/-- A look-up changes the use order only. -/
theorem get (h : StoreRel store m) (name : Str) : StoreRel (store.get name).2 m := by
  obtain ⟨filled, hfilled⟩ := h.intact
  have hindex := FixedSizeLRUCache.index_get name store.cache
  refine ⟨h.sound.get name, ⟨filled, ?_⟩, fun name' => ?_, ?_⟩
  · exact hfilled.step (.get name)
  · rw [contentOf_get, h.lookup_eq]
  · rw [get_snd]
    show (store.cache.get name).2.index.currentSize = m.size
    rw [hindex, h.size_eq]

theorem clear (h : StoreRel store m) : StoreRel store.clear .empty := by
  obtain ⟨filled, hfilled⟩ := h.intact
  refine ⟨sound_clear store, ⟨_, hfilled.clear⟩, fun name => contentOf_clear store name, ?_⟩
  rw [cache_clear, FixedSizeLRUCache.index_clear]
  rfl

/-- A save with room stores the content. -/
theorem storedAt (h : StoreRel store m) (p : CSPair) (inPsram : Bool)
    (hroom : m.size < caps.csEntries) :
    ∃ s, store.StoredAt p (some inPsram) s := by
  rcases h.sound.notStored_or_storedAt p (some inPsram) with ⟨hwhy, hindex, -⟩ | hstored
  · exfalso
    obtain ⟨filled, hfilled⟩ := h.intact
    have hfree : store.findFreePayloadSlot ≠ none := by
      rw [ne_eq, hfilled.findFreePayloadSlot_eq_none_iff, h.size_eq]
      exact Nat.not_le.mpr hroom
    have habsent : store.cache.index.lookup p.contentName = none := by
      rcases hwhy with hnone | hnone | hnone
      · exact absurd hnone hfree
      · cases hnone
      · exact hnone
    -- the put was accepted, so that the name is there
    rcases save_cases p (some inPsram) store with ⟨hnone, -⟩ | ⟨s, -, -, -, hput, -⟩
    · rcases hnone with hnone | hnone
      · exact hfree hnone
      · cases hnone
    · have haccept : (store.cache.index.put p.contentName (s.val : Int)).1 = true := by
        rw [← Bool.not_eq_false, CacheIndex.put_eq_false_iff h.sound.chained.toWf, h.size_eq]
        exact fun hrefused => Nat.not_le.mpr hroom hrefused.2
      have hself := CacheIndex.lookup_put_self h.sound.chained.toWf haccept
      rw [← hput, hindex, habsent] at hself
      cases hself
  · exact hstored

/-- A save that stores nothing. -/
theorem save_of_refused (h : StoreRel store m) {p : CSPair} {alloc : Option Bool}
    (hrefused : ¬ (m.size < caps.csEntries ∧ alloc ≠ none)) :
    StoreRel (store.save p alloc) m := by
  obtain ⟨filled, hfilled⟩ := h.intact
  have hnofree : store.findFreePayloadSlot = none ∨ alloc = none := by
    rw [hfilled.findFreePayloadSlot_eq_none_iff, h.size_eq]
    by_contra hneither
    rw [not_or, not_le] at hneither
    exact hrefused hneither
  rcases save_cases p alloc store with ⟨-, hindex, hslots⟩ | ⟨s, inPsram, hs, halloc, -⟩
  · refine ⟨(h.sound.save p alloc).1, ⟨_, hfilled.save p alloc⟩, fun name => ?_, ?_⟩
    · have hsame : (store.save p alloc).contentOf name = store.contentOf name :=
        contentOf_congr (by rw [hindex]) fun _ _ => by rw [hslots]
      rw [hsame, h.lookup_eq]
    · rw [hindex, h.size_eq]
  · rw [hs, halloc] at hnofree
    rcases hnofree with hnone | hnone
    · cases hnone
    · cases hnone

/-- **A save.** -/
theorem save (h : StoreRel store m) (p : CSPair) (alloc : Option Bool) :
    StoreRel (store.save p alloc) (keep p.contentName p.content alloc m) := by
  unfold keep
  by_cases hroom : m.size < caps.csEntries ∧ alloc ≠ none
  · rw [if_pos hroom]
    obtain ⟨inPsram, rfl⟩ := Option.ne_none_iff_exists'.mp hroom.2
    obtain ⟨filled, hfilled⟩ := h.intact
    obtain ⟨s, hstored⟩ := h.storedAt p inPsram hroom.1
    have haccepts : m.Accepts p.contentName := Or.inr hroom.1
    refine ⟨hstored.sound h.sound, ⟨_, hfilled.save p _⟩, fun name => ?_, ?_⟩
    · rw [BoundedMap.lookup_put_of_accepts haccepts]
      by_cases hname : name = p.contentName
      · rw [if_pos hname, hname]
        exact hstored.contentOf_self h.sound
      · rw [if_neg hname, (h.sound.save p _).2 name hname, h.lookup_eq]
    · obtain ⟨-, hput, hindex, -⟩ := hstored
      rw [hindex, CacheIndex.currentSize_put h.sound.chained.toWf hput,
        BoundedMap.size_put_of_accepts haccepts, ← LRUContentStore.find_eq, h.find_eq, h.size_eq]
  · rw [if_neg hroom]
    exact h.save_of_refused hroom

end StoreRel

end LRUContentStore

end Icsn
