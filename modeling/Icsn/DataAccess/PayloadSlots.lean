import Icsn.DataAccess.LRUContentStore
import Icsn.Lib.SlotOwnership
import Icsn.Lib.StepRun

/-!
# Icsn — the payload slots over a run

`LRUContentStore.cpp` keeps two tables in step: the cache, whose values are slot indices, and the
slots, each with a heap block.  The hash index of the cache may lose an entry or store a name twice
(`CacheIndex.Chained` is not kept by every `remove`), so nothing here goes by names: every valid
entry owns the slot it names, whether a lookup still finds the entry or not.

* **`Intact`** — the invariant: entries and slots in use are matched, the heap blocks are accounted
  for, and every slot in use holds the content it was last given.
* `Intact.save` / `Intact.remove` / `Intact.clear` — one operation each.
* **`payload_slots_intact`** — over every run.
-/

namespace Icsn

open SlotOwnership

/-! ## The slots the entries own

Ownership goes by entries: an entry that no probe reaches any more still owns its slot, and the slot
stays in use.  The operations of the cache change it for one entry at most. -/

namespace CacheIndex

variable {maxSize : Nat} {x : CacheIndex Int maxSize} {key : Str} {v : Int}

/-- The slot index each valid entry names. -/
def owns (x : CacheIndex Int maxSize) (i : Fin maxSize) : Option Int :=
  if x.valid i = true then some (x.value i) else none

theorem owns_eq_some_iff {i : Fin maxSize} :
    x.owns i = some v ↔ x.valid i = true ∧ x.value i = v := by
  simp [owns]

theorem owns_overwrite {i : Fin maxSize} (hi : x.valid i = true) (v : Int) :
    (x.overwrite i v).owns = Function.update x.owns i (some v) := by
  funext j
  by_cases hji : j = i
  · subst hji; simp [owns, overwrite, hi]
  · simp [owns, overwrite, hji]

theorem owns_store (h : Fin (maxSize * 2)) (i : Fin maxSize) (key : Str) (v : Int) :
    (x.store h i key v).owns = Function.update x.owns i (some v) := by
  funext j
  by_cases hji : j = i
  · subst hji; simp [owns, store]
  · simp [owns, store, hji]

theorem owns_unstore (h : Fin (maxSize * 2)) (i : Fin maxSize) :
    (x.unstore h i).owns = Function.update x.owns i none := by
  funext j
  by_cases hji : j = i
  · subst hji; simp [owns, unstore]
  · simp [owns, unstore, hji]

variable [NeZero maxSize]

/-- What a lookup finds is owned. -/
theorem owns_of_lookup (h : x.lookup key = some v) : ∃ i, x.owns i = some v := by
  obtain ⟨s, i, hs, hv⟩ := lookup_eq_some_iff.mp h
  exact ⟨i, owns_eq_some_iff.mpr ⟨(findHashSlot_eq_some_iff.mp hs).2.1, hv⟩⟩

/-- **A put** gives the slot to the entry a lookup of the key finds, or to a new one. -/
theorem owns_put (hx : x.Wf) (hput : (x.put key v).1 = true) :
    ∃ i, x.owns i = x.lookup key ∧ (x.put key v).2.owns = Function.update x.owns i (some v) := by
  rcases put_cases hx key v with ⟨h, i, hs, heq⟩ | ⟨-, -, heq⟩ | ⟨h, i, hs, -, hi, -, heq⟩
  · have hi := (findHashSlot_eq_some_iff.mp hs).2.1
    refine ⟨i, ?_, by rw [heq, owns_overwrite hi]⟩
    rw [lookup, hs, owns, if_pos hi]; rfl
  · rw [heq] at hput; cases hput
  · refine ⟨i, ?_, by rw [heq, owns_store]⟩
    rw [lookup, hs, owns, if_neg (by rw [hi]; decide)]; rfl

/-- **A remove** takes the slot from the entry a lookup of the key finds. -/
theorem owns_remove (h : x.lookup key = some v) :
    ∃ i, x.owns i = some v ∧ (x.remove key).2.owns = Function.update x.owns i none := by
  obtain ⟨s, i, hs, hv⟩ := lookup_eq_some_iff.mp h
  refine ⟨i, owns_eq_some_iff.mpr ⟨(findHashSlot_eq_some_iff.mp hs).2.1, hv⟩, ?_⟩
  rw [remove, hs, owns_unstore]

end CacheIndex

namespace LRUContentStore

variable {caps : BuildCapacity}

/-! ## One slot

The two writes to a slot, filling it and giving it back, and what either does to the blocks.
Releasing a slot that is not in use does nothing. -/

/-- The slot is in use. -/
def UsesSlot (store : LRUContentStore caps) (v : Int) : Prop :=
  ∃ s : Fin caps.csEntries, (s.val : Int) = v ∧ (store.payloadSlots s).inUse = true

/-- The blocks of the slots, and those given back. -/
def ledger (store : LRUContentStore caps) : Ledger (Fin caps.csEntries) where
  held s := (store.payloadSlots s).buffer.map Buffer.block
  allocated := store.allocated
  freed := store.freed

/-- The slot is empty, or holds the content byte for byte, with its final NUL. -/
def SlotHolds (content : Option Str) (slot : PayloadSlot) : Prop :=
  slot = {} ∨ ∃ c block, content = some c ∧ slot.inUse = true ∧ slot.length = c.length ∧
    slot.buffer = some { block, bytes := c ++ [0] }

/-- The store after a content was copied to a slot. -/
def fillSlot (s : Fin caps.csEntries) (content : Str) (inPsram : Bool)
    (store : LRUContentStore caps) : LRUContentStore caps :=
  { store with
    allocated := store.allocated + 1
    payloadSlots := Function.update store.payloadSlots s
      { buffer := some { block := store.allocated, bytes := content ++ [0] }
        length := content.length, inUse := true, inPsram } }

section Slots

variable {store : LRUContentStore caps} {s t : Fin caps.csEntries} {content : Str}
  {inPsram : Bool} {v : Int}

theorem inUse_fillSlot_self :
    ((store.fillSlot s content inPsram).payloadSlots s).inUse = true := by simp [fillSlot]

theorem payloadSlots_fillSlot_ne (h : t ≠ s) :
    (store.fillSlot s content inPsram).payloadSlots t = store.payloadSlots t :=
  Function.update_of_ne h _ _

theorem releasePayloadSlot_natCast :
    store.releasePayloadSlot s.val = { store with
      freed := store.freed ++ ((store.payloadSlots s).buffer.map Buffer.block).toList
      payloadSlots := Function.update store.payloadSlots s {} } := by
  rw [releasePayloadSlot, slotAt_natCast]

@[simp] theorem payloadSlots_release_self :
    (store.releasePayloadSlot s.val).payloadSlots s = {} := by
  rw [releasePayloadSlot_natCast]
  exact Function.update_self ..

theorem payloadSlots_release_ne (h : t ≠ s) :
    (store.releasePayloadSlot s.val).payloadSlots t = store.payloadSlots t := by
  rw [releasePayloadSlot_natCast]
  exact Function.update_of_ne h _ _

theorem usesSlot_fillSlot :
    (store.fillSlot s content inPsram).UsesSlot v ↔ v = s.val ∨ store.UsesSlot v := by
  constructor
  · intro ⟨t, ht, huse⟩
    by_cases hts : t = s
    · exact Or.inl (by rw [← ht, hts])
    · rw [payloadSlots_fillSlot_ne hts] at huse
      exact Or.inr ⟨t, ht, huse⟩
  · rintro (rfl | ⟨t, ht, huse⟩)
    · exact ⟨s, rfl, inUse_fillSlot_self⟩
    · by_cases hts : t = s
      · exact ⟨t, ht, by rw [hts]; exact inUse_fillSlot_self⟩
      · exact ⟨t, ht, by rw [payloadSlots_fillSlot_ne hts]; exact huse⟩

theorem usesSlot_release :
    (store.releasePayloadSlot s.val).UsesSlot v ↔ store.UsesSlot v ∧ v ≠ s.val := by
  constructor
  · intro ⟨t, ht, huse⟩
    have hts : t ≠ s := fun heq => by rw [heq, payloadSlots_release_self] at huse; cases huse
    rw [payloadSlots_release_ne hts] at huse
    exact ⟨⟨t, ht, huse⟩, fun hv => hts (Fin.ext (by omega))⟩
  · intro ⟨⟨t, ht, huse⟩, hne⟩
    have hts : t ≠ s := fun heq => hne (by rw [← ht, heq])
    exact ⟨t, ht, by rw [payloadSlots_release_ne hts]; exact huse⟩

theorem ledger_fillSlot : (store.fillSlot s content inPsram).ledger = store.ledger.fill s := by
  rw [ledger, Ledger.fill]
  congr 1
  funext t
  by_cases hts : t = s
  · subst hts; simp [ledger, fillSlot]
  · rw [payloadSlots_fillSlot_ne hts, Function.update_of_ne hts]; rfl

theorem ledger_release : (store.releasePayloadSlot s.val).ledger = store.ledger.empty s := by
  have hheld : (store.releasePayloadSlot s.val).ledger.held = (store.ledger.empty s).held := by
    funext t
    show ((store.releasePayloadSlot s.val).payloadSlots t).buffer.map Buffer.block = _
    by_cases hts : t = s
    · rw [hts, payloadSlots_release_self, Ledger.held_empty_self]; rfl
    · rw [payloadSlots_release_ne hts, Ledger.held_empty_ne hts]; rfl
  rw [ledger, Ledger.empty, Ledger.mk.injEq]
  exact ⟨hheld, by rw [releasePayloadSlot_natCast]; rfl, by rw [releasePayloadSlot_natCast]; rfl⟩

end Slots

/-! ## The invariant

Ownership, the blocks and the contents, as three parts of one structure.  A look-up then leads to a
slot in use, and that to the content it was last given. -/

/-- `filled` gives for each slot the content it was last given. -/
structure Intact (filled : Fin caps.csEntries → Option Str) (store : LRUContentStore caps) :
    Prop where
  wf : store.cache.index.Wf
  matched : Matched store.cache.index.owns store.UsesSlot
  balanced : store.ledger.Balanced
  holds : ∀ s, SlotHolds (filled s) (store.payloadSlots s)

theorem intact_init : Intact (fun _ => none) (init : LRUContentStore caps) where
  wf := CacheIndex.wf_init
  matched := by
    have howns : (init : LRUContentStore caps).cache.index.owns = fun _ => none := by
      funext i
      simp [CacheIndex.owns, init, FixedSizeLRUCache.index_init, CacheIndex.init]
    rw [howns]
    exact matched_none.congr fun v => by simp [UsesSlot, init]
  balanced := Ledger.balanced_start
  holds _ := Or.inl rfl

namespace Intact

variable {filled : Fin caps.csEntries → Option Str} {store : LRUContentStore caps}

/-- The use order of the cache plays no part. -/
theorem of_same_index (h : Intact filled store)
    {cache : FixedSizeLRUCache Int caps.csEntries} (hindex : cache.index = store.cache.index) :
    Intact filled { store with cache } where
  wf := by rw [hindex]; exact h.wf
  matched := by
    show Matched cache.index.owns store.UsesSlot
    rw [hindex]; exact h.matched
  balanced := h.balanced
  holds := h.holds

/-- What a lookup finds is the index of a slot in use. -/
theorem slot_of_lookup (h : Intact filled store) {name : Str} {v : Int}
    (hlook : store.cache.index.lookup name = some v) :
    ∃ s : Fin caps.csEntries, v = s.val ∧ (store.payloadSlots s).inUse = true := by
  obtain ⟨s, hs, huse⟩ := (h.matched.used_iff v).mpr (CacheIndex.owns_of_lookup hlook)
  exact ⟨s, hs.symm, huse⟩

/-- A slot in use holds the content it was last given. -/
theorem content_of_inUse (h : Intact filled store) {s : Fin caps.csEntries}
    (huse : (store.payloadSlots s).inUse = true) :
    ∃ content block, filled s = some content ∧
      (store.payloadSlots s).length = content.length ∧
      (store.payloadSlots s).buffer = some { block, bytes := content ++ [0] } := by
  rcases h.holds s with hempty | ⟨content, block, hfilled, -, hlen, hbuf⟩
  · rw [hempty] at huse; cases huse
  · exact ⟨content, block, hfilled, hlen, hbuf⟩

/-- A slot that is not in use is empty. -/
theorem eq_empty (h : Intact filled store) {s : Fin caps.csEntries}
    (huse : (store.payloadSlots s).inUse = false) : store.payloadSlots s = {} := by
  rcases h.holds s with hempty | ⟨_, _, -, huse', -⟩
  · exact hempty
  · rw [huse] at huse'; cases huse'

/-- The content a lookup leads to: never one of the ways `get` falls back. -/
theorem contentOf_eq (h : Intact filled store) {name : Str} {v : Int}
    (hlook : store.cache.index.lookup name = some v) :
    ∃ s : Fin caps.csEntries, v = s.val ∧ ∃ content, filled s = some content ∧
      store.contentOf name = some content := by
  obtain ⟨s, rfl, huse⟩ := h.slot_of_lookup hlook
  obtain ⟨content, block, hfilled, hlen, hbuf⟩ := h.content_of_inUse huse
  refine ⟨s, rfl, content, hfilled, ?_⟩
  rw [contentOf, hlook, Option.bind_some, slotAt_natCast, Option.bind_some, payload, if_pos huse,
    hbuf, hlen]
  simp

end Intact

/-! ## The operations

A save is first put in terms of fills, releases and one `put` of the index.  For a moment the new
content sits in a slot that nobody owns; that is why the parts of the invariant are kept apart here.
-/

/-- The calls on the store. -/
inductive CsOp where
  | save (csPair : CSPair) (alloc : Option Bool)
  | remove (contentName : Str)
  | find (contentName : Str)
  | get (contentName : Str)
  | clear

/-- The slot a call copies a content to, with the content. -/
def taken (store : LRUContentStore caps) : CsOp → Option (Fin caps.csEntries × Str)
  | .save csPair alloc =>
    alloc.bind fun _ => store.findFreePayloadSlot.map fun s => (s, csPair.content)
  | _ => none

/-- The store after a call. -/
def apply (store : LRUContentStore caps) : CsOp → LRUContentStore caps
  | .save csPair alloc => store.save csPair alloc
  | .remove contentName => store.remove contentName
  | .find _ => store
  | .get contentName => (store.get contentName).2
  | .clear => store.clear

/-- One call, with the slot it fills. -/
def csStep (store : LRUContentStore caps) (op : CsOp) :
    Option (Fin caps.csEntries × Str) × LRUContentStore caps := (store.taken op, store.apply op)

/-- The contents of the slots after one of them was filled. -/
def refill (filled : Fin caps.csEntries → Option Str) :
    Option (Fin caps.csEntries × Str) → Fin caps.csEntries → Option Str
  | some (s, content) => Function.update filled s (some content)
  | none => filled

/-- **The ways `save` goes**, as fills and releases of slots: nothing is stored; the new slot is
given back; the new slot stays, and the old one, if there is one, is given back. -/
theorem save_ways (p : CSPair) (alloc : Option Bool) (store : LRUContentStore caps) :
    (store.taken (.save p alloc) = none ∧ ∃ cache : FixedSizeLRUCache Int caps.csEntries,
      cache.index = store.cache.index ∧ store.save p alloc = { store with cache }) ∨
    ∃ s inPsram, store.findFreePayloadSlot = some s ∧
      store.taken (.save p alloc) = some (s, p.content) ∧
      let put := store.cache.index.put p.contentName (s.val : Int)
      let filled := store.fillSlot s p.content inPsram
      ∃ cache : FixedSizeLRUCache Int caps.csEntries, cache.index = put.2 ∧
        ((put.1 = false ∧ store.save p alloc = { filled.releasePayloadSlot s.val with cache }) ∨
          (put.1 = true ∧ store.cache.index.lookup p.contentName = none ∧
            store.save p alloc = { filled with cache }) ∨
          (put.1 = true ∧ ∃ old, store.cache.index.lookup p.contentName = some old ∧
            store.save p alloc = { filled.releasePayloadSlot old with cache })) := by
  -- a release does not look at the cache
  have hrelease : ∀ (st : LRUContentStore caps) cache v,
      ({ st with cache } : LRUContentStore caps).releasePayloadSlot v
        = { st.releasePayloadSlot v with cache } := by
    intro st cache v
    rw [releasePayloadSlot, releasePayloadSlot]
    split <;> rfl
  have hfree : findFreePayloadSlot { store with cache := (store.cache.get p.contentName).2 }
      = store.findFreePayloadSlot := rfl
  rw [save, storePayload, taken]
  dsimp only
  rw [hfree]
  cases hs : store.findFreePayloadSlot with
  | none => exact Or.inl ⟨by cases alloc <;> rfl, _, FixedSizeLRUCache.index_get _ _, rfl⟩
  | some s =>
    cases alloc with
    | none => exact Or.inl ⟨rfl, _, FixedSizeLRUCache.index_get _ _, rfl⟩
    | some inPsram =>
      refine Or.inr ⟨s, inPsram, rfl, rfl, ?_⟩
      -- the put goes to the cache after the `get`, which has the index from before
      dsimp only [allocatePayloadBuffer, Option.map_some]
      obtain ⟨hfst, hsnd⟩ := FixedSizeLRUCache.index_put p.contentName (s.val : Int)
        (store.cache.get p.contentName).2
      rw [FixedSizeLRUCache.index_get] at hfst hsnd
      rw [FixedSizeLRUCache.get_fst, hfst]
      refine ⟨_, hsnd, ?_⟩
      cases hput : (store.cache.index.put p.contentName (s.val : Int)).1 with
      | false =>
        rw [if_pos rfl]
        exact Or.inl ⟨rfl, hrelease (store.fillSlot s p.content inPsram) _ _⟩
      | true =>
        rw [if_neg (by decide)]
        cases hold : store.cache.index.lookup p.contentName with
        | none => exact Or.inr (Or.inl ⟨rfl, rfl, rfl⟩)
        | some old =>
          exact Or.inr (Or.inr
            ⟨rfl, old, rfl, hrelease (store.fillSlot s p.content inPsram) _ _⟩)

namespace Intact

variable {filled : Fin caps.csEntries → Option Str} {store : LRUContentStore caps}

/-- Nobody owns a free slot. -/
theorem not_usesSlot_of_free {s : Fin caps.csEntries}
    (hs : store.findFreePayloadSlot = some s) : ¬ store.UsesSlot s.val := by
  intro ⟨t, ht, huse⟩
  have hfree := (Fin.find?_eq_some_iff.mp hs).1
  rw [show t = s from Fin.ext (by omega)] at huse
  rw [huse] at hfree
  cases hfree

/-- The slots after a fill: the new content in one, the others as they were. -/
theorem holds_fillSlot (h : Intact filled store) {s : Fin caps.csEntries} {content : Str}
    {inPsram : Bool} (t : Fin caps.csEntries) :
    SlotHolds (refill filled (some (s, content)) t)
      ((store.fillSlot s content inPsram).payloadSlots t) := by
  by_cases hts : t = s
  · subst hts
    refine Or.inr ⟨content, store.allocated, Function.update_self .., ?_⟩
    simp [fillSlot]
  · rw [payloadSlots_fillSlot_ne hts, refill, Function.update_of_ne hts]
    exact h.holds t

/-- A slot that was given back is empty; the others are as they were. -/
theorem holds_release {s t : Fin caps.csEntries} {content : Option Str}
    (h : SlotHolds content (store.payloadSlots t)) :
    SlotHolds content ((store.releasePayloadSlot s.val).payloadSlots t) := by
  by_cases hts : t = s
  · rw [hts, payloadSlots_release_self]; exact Or.inl rfl
  · rw [payloadSlots_release_ne hts]; exact h

theorem balanced_fillSlot (h : Intact filled store) {s : Fin caps.csEntries}
    (hs : store.findFreePayloadSlot = some s) (content : Str) (inPsram : Bool) :
    (store.fillSlot s content inPsram).ledger.Balanced := by
  have huse : (store.payloadSlots s).inUse = false := by
    simpa using (Fin.find?_eq_some_iff.mp hs).1
  have hheld : store.ledger.held s = none := by
    show (store.payloadSlots s).buffer.map Buffer.block = none
    rw [h.eq_empty huse]; rfl
  rw [ledger_fillSlot]
  exact h.balanced.fill hheld

/-- The parts of the invariant, for a store that is put together from a cache and slots. -/
theorem of_parts {store : LRUContentStore caps} {cache : FixedSizeLRUCache Int caps.csEntries}
    (hwf : cache.index.Wf) (hmatched : Matched cache.index.owns store.UsesSlot)
    (hbalanced : store.ledger.Balanced)
    (hholds : ∀ t, SlotHolds (filled t) (store.payloadSlots t)) :
    Intact filled { store with cache } := ⟨hwf, hmatched, hbalanced, hholds⟩

/-- **Saving.** -/
theorem save (h : Intact filled store) (p : CSPair) (alloc : Option Bool) :
    Intact (refill filled (store.taken (.save p alloc))) (store.save p alloc) := by
  rcases save_ways p alloc store with
    ⟨htaken, cache, hindex, hsave⟩ | ⟨s, inPsram, hs, htaken, cache, hindex, hway⟩
  · rw [htaken, hsave]
    exact h.of_same_index hindex
  · have hfree := not_usesSlot_of_free hs
    have hbal := h.balanced_fillSlot hs p.content inPsram
    have hslots : ∀ t, SlotHolds (refill filled (some (s, p.content)) t)
        ((store.fillSlot s p.content inPsram).payloadSlots t) := h.holds_fillSlot
    have hwf : cache.index.Wf := by rw [hindex]; exact h.wf.put _ _
    rw [htaken]
    rcases hway with ⟨hput, hsave⟩ | ⟨hput, hlook, hsave⟩ | ⟨hput, old, hlook, hsave⟩
    · -- the put was refused: the slot is free again, and the entries own what they owned
      rw [CacheIndex.put_of_refused h.wf hput] at hindex
      rw [hsave]
      refine of_parts hwf ?_ (by rw [ledger_release]; exact hbal.empty s)
        fun t => holds_release (hslots t)
      rw [hindex]
      refine h.matched.congr fun v => ?_
      rw [usesSlot_release, usesSlot_fillSlot]
      exact ⟨fun hv => hv.1.resolve_left hv.2, fun hv => ⟨Or.inr hv, fun heq => hfree (heq ▸ hv)⟩⟩
    · -- a new entry owns the slot
      obtain ⟨i, hi, howns⟩ := CacheIndex.owns_put h.wf hput
      rw [hlook] at hi
      rw [hsave]
      refine of_parts hwf ?_ hbal hslots
      rw [hindex, howns]
      refine (h.matched.give hfree i).congr fun v => ?_
      rw [usesSlot_fillSlot, hi]
      simp
    · -- the entry of the name owns the new slot, and the old one is free
      obtain ⟨i, hi, howns⟩ := CacheIndex.owns_put h.wf hput
      obtain ⟨t, rfl, huse⟩ := h.slot_of_lookup hlook
      rw [hlook] at hi
      rw [hsave]
      refine of_parts hwf ?_ (by rw [ledger_release]; exact hbal.empty t)
        fun t' => holds_release (hslots t')
      rw [hindex, howns]
      refine (h.matched.give hfree i).congr fun v => ?_
      have hother : some (t.val : Int) ≠ some v ↔ v ≠ t.val := by simp [eq_comm]
      rw [usesSlot_release, usesSlot_fillSlot, hi, hother]
      -- the old slot is not the new one, which was free
      have hne : (s.val : Int) ≠ t.val := fun heq => hfree ⟨t, heq.symm, huse⟩
      refine ⟨fun hv => hv.1.imp_right fun hold => ⟨hold, hv.2⟩, fun hv => ?_⟩
      rcases hv with rfl | ⟨hold, hvt⟩
      · exact ⟨Or.inl rfl, hne⟩
      · exact ⟨Or.inr hold, hvt⟩

/-- **Removing.** -/
theorem remove (h : Intact filled store) (name : Str) : Intact filled (store.remove name) := by
  have hindex : ((store.cache.get name).2.remove name).2.index
      = (store.cache.index.remove name).2 := by
    rw [(FixedSizeLRUCache.index_remove name _).2, FixedSizeLRUCache.index_get]
  have hwf : ((store.cache.get name).2.remove name).2.index.Wf := by
    rw [hindex]; exact h.wf.remove name
  rw [LRUContentStore.remove, FixedSizeLRUCache.get_fst]
  cases hlook : store.cache.index.lookup name with
  | none =>
    refine h.of_same_index ?_
    rw [hindex, CacheIndex.remove, CacheIndex.lookup_eq_none_iff.mp hlook]
  | some v =>
    obtain ⟨s, rfl, -⟩ := h.slot_of_lookup hlook
    obtain ⟨i, hi, howns⟩ := CacheIndex.owns_remove hlook
    have hstore : Intact filled { store.releasePayloadSlot s.val with
        cache := ((store.cache.get name).2.remove name).2 } := by
      refine of_parts hwf ?_ (by rw [ledger_release]; exact h.balanced.empty s)
        fun t => holds_release (h.holds t)
      rw [hindex, howns]
      refine (h.matched.drop i).congr fun v => ?_
      have hother : some (s.val : Int) ≠ some v ↔ v ≠ s.val := by simp [eq_comm]
      rw [usesSlot_release, hi, hother]
    rw [releasePayloadSlot_natCast] at hstore
    show Intact filled (releasePayloadSlot s.val _)
    rw [releasePayloadSlot_natCast]
    exact hstore

/-- **Clearing.** -/
theorem clear (h : Intact filled store) : Intact filled store.clear := by
  -- the loop of `clear` gives back the slots one by one, and touches nothing else
  have hloop : ∀ (l : List (Fin caps.csEntries)) (st : LRUContentStore caps),
      st.ledger.Balanced → (∀ t, SlotHolds (filled t) (st.payloadSlots t)) →
      let st' := l.foldl (fun st i => st.releasePayloadSlot i.val) st
      st'.ledger.Balanced ∧ (∀ t, SlotHolds (filled t) (st'.payloadSlots t)) ∧
        ∀ v, st'.UsesSlot v ↔ st.UsesSlot v ∧ ∀ i ∈ l, v ≠ i.val := by
    intro l
    induction l with
    | nil => exact fun st hbal hslots => ⟨hbal, hslots, by simp⟩
    | cons i l ih =>
      intro st hbal hslots
      obtain ⟨hbal', hslots', huse⟩ := ih (st.releasePayloadSlot i.val)
        (by rw [ledger_release]; exact hbal.empty i) fun t => holds_release (hslots t)
      refine ⟨hbal', hslots', fun v => ?_⟩
      rw [List.forall_mem_cons, ← and_assoc, ← usesSlot_release]
      exact huse v
  obtain ⟨hbal, hslots, huse⟩ := hloop (List.finRange caps.csEntries)
    { store with cache := store.cache.clear } h.balanced h.holds
  have hcache : store.clear.cache.index = store.cache.index.clear := by rw [cache_clear]; rfl
  have howns : store.cache.index.clear.owns = fun _ => none := by
    funext i
    simp [CacheIndex.owns, CacheIndex.clear]
  refine ⟨by rw [hcache]; exact CacheIndex.wf_clear _, ?_, hbal, hslots⟩
  rw [hcache, howns]
  refine matched_none.congr fun v => (huse v).trans (iff_of_false ?_ not_false)
  rintro ⟨⟨s, hs, -⟩, hall⟩
  exact hall s (List.mem_finRange s) hs.symm

theorem step (h : Intact filled store) (op : CsOp) :
    Intact (refill filled (csStep store op).1) (csStep store op).2 := by
  cases op with
  | save p alloc => exact h.save p alloc
  | remove name => exact h.remove name
  | find => exact h
  | get name =>
    show Intact filled (store.get name).2
    rw [get_snd]
    exact h.of_same_index (FixedSizeLRUCache.index_get name store.cache)
  | clear => exact h.clear

end Intact

/-! ## A save that fails

For want of a slot, of memory or of room in the cache.  The slot that was filled in the last case is
given back at once, so that every name has what it had. -/

/-- The two ways `save` gives up: no slot or no memory for the content, or no room for the name. -/
def SaveFails (p : CSPair) (alloc : Option Bool) (store : LRUContentStore caps) : Prop :=
  match store.storePayload p.content alloc with
  | none => True
  | some (slotIndex, _) =>
    ((store.cache.get p.contentName).2.put p.contentName slotIndex).1 = false

/-- A save that fails changes no answer. -/
theorem Intact.save_of_fails {filled : Fin caps.csEntries → Option Str}
    {store : LRUContentStore caps} (h : Intact filled store) {p : CSPair} {alloc : Option Bool}
    (hfails : SaveFails p alloc store) (name : Str) :
    (store.save p alloc).find name = store.find name ∧
      (store.save p alloc).contentOf name = store.contentOf name := by
  rcases save_ways p alloc store with
    ⟨-, cache, hindex, hsave⟩ | ⟨s, inPsram, hs, htaken, cache, hindex, hway⟩
  · rw [find_eq, find_eq, hsave]
    exact ⟨by rw [hindex], contentOf_congr (by rw [hindex]) fun _ _ => rfl⟩
  · have hrefused : (store.cache.index.put p.contentName (s.val : Int)).1 = false := by
      rw [← FixedSizeLRUCache.index_get p.contentName store.cache,
        ← (FixedSizeLRUCache.index_put p.contentName (s.val : Int) _).1]
      cases alloc with
      | none => cases htaken
      | some inPsram =>
        rw [SaveFails, storePayload, hs] at hfails
        exact hfails
    rcases hway with ⟨hput, hsave⟩ | ⟨hput, -⟩ | ⟨hput, -⟩
    · rw [CacheIndex.put_of_refused h.wf hput] at hindex
      rw [find_eq, find_eq, hsave]
      refine ⟨by rw [hindex], contentOf_congr (by rw [hindex]) fun t ht => ?_⟩
      -- the slot that was filled and given back belongs to no name
      have hts : t ≠ s := by
        intro hts
        obtain ⟨t', ht', huse⟩ := h.slot_of_lookup ht
        exact Intact.not_usesSlot_of_free hs ⟨t', by rw [← ht', hts], huse⟩
      show (releasePayloadSlot s.val _).payloadSlots t = _
      rw [payloadSlots_release_ne hts, payloadSlots_fillSlot_ne hts]
    · rw [hrefused] at hput; cases hput
    · rw [hrefused] at hput; cases hput

/-! ## Runs

The content a slot holds is the last one a call of the run has copied to it.  The invariant is kept
over the trace, and the statement for users is read off it. -/

/-- The content a run last copied to a slot. -/
def lastTaken (run : List (CsOp × Option (Fin caps.csEntries × Str))) (s : Fin caps.csEntries) :
    Option Str :=
  run.reverse.findSome? fun e => e.2.bind fun (t, content) => if t = s then some content else none

theorem lastTaken_concat (run : List (CsOp × Option (Fin caps.csEntries × Str)))
    (e : CsOp × Option (Fin caps.csEntries × Str)) :
    lastTaken (run ++ [e]) = refill (lastTaken run) e.2 := by
  obtain ⟨op, filled⟩ := e
  funext s
  rw [lastTaken, List.reverse_append, List.reverse_singleton, List.singleton_append,
    List.findSome?_cons]
  cases filled with
  | none => rfl
  | some taken =>
    obtain ⟨t, content⟩ := taken
    by_cases hts : t = s
    · subst hts
      simp [refill]
    · rw [refill, Function.update_of_ne (Ne.symm hts)]
      simp [hts, lastTaken]

/-- The slots and the entries of a store, after a run: nothing leaks and nothing dangles. -/
structure PayloadsKept (run : List (CsOp × Option (Fin caps.csEntries × Str)))
    (store : LRUContentStore caps) : Prop where
  /-- No two valid entries name the same slot. -/
  slot_distinct : ∀ i j, store.cache.index.valid i = true → store.cache.index.valid j = true →
    store.cache.index.value i = store.cache.index.value j → i = j
  /-- The slots in use are those that valid entries name. -/
  inUse_iff : ∀ v : Int,
    (∃ s : Fin caps.csEntries, (s.val : Int) = v ∧ (store.payloadSlots s).inUse = true) ↔
      ∃ i, store.cache.index.valid i = true ∧ store.cache.index.value i = v
  buffer_iff : ∀ s, (store.payloadSlots s).buffer.isSome = true ↔
    (store.payloadSlots s).inUse = true
  /-- A slot in use holds the content last copied to it, byte for byte. -/
  holds : ∀ s, (store.payloadSlots s).inUse = true → ∃ content block,
    lastTaken run s = some content ∧ (store.payloadSlots s).length = content.length ∧
      (store.payloadSlots s).buffer = some { block, bytes := content ++ [0] }
  block_distinct : ∀ s t b c, (store.payloadSlots s).buffer = some b →
    (store.payloadSlots t).buffer = some c → b.block = c.block → s = t
  /-- Every block handed out is in a slot or was released. -/
  no_leak : ∀ block, block < store.allocated ↔
    block ∈ store.freed ∨ ∃ s b, (store.payloadSlots s).buffer = some b ∧ b.block = block
  /-- No block in a slot was released. -/
  not_released : ∀ s b, (store.payloadSlots s).buffer = some b → b.block ∉ store.freed
  released_once : store.freed.Nodup

theorem Intact.payloadsKept {run : List (CsOp × Option (Fin caps.csEntries × Str))}
    {store : LRUContentStore caps} (h : Intact (lastTaken run) store) :
    PayloadsKept run store where
  slot_distinct i j hi hj hij := h.matched.owner_unique
    (CacheIndex.owns_eq_some_iff.mpr ⟨hi, hij⟩) (CacheIndex.owns_eq_some_iff.mpr ⟨hj, rfl⟩)
  inUse_iff v := by
    rw [show (∃ s, _) ↔ _ from h.matched.used_iff v]
    exact exists_congr fun i => CacheIndex.owns_eq_some_iff
  buffer_iff s := by
    rcases h.holds s with hempty | ⟨content, block, -, huse, -, hbuf⟩
    · rw [hempty]; decide
    · rw [huse, hbuf]; simp
  holds _ huse := h.content_of_inUse huse
  block_distinct s t b c hb hc hbc := h.balanced.held_unique
    (show (store.payloadSlots s).buffer.map Buffer.block = some c.block by rw [hb, ← hbc]; rfl)
    (show (store.payloadSlots t).buffer.map Buffer.block = some c.block by rw [hc]; rfl)
  no_leak block := by
    refine (h.balanced.accounted block).trans (or_congr_right (exists_congr fun s => ?_))
    exact Option.map_eq_some_iff
  not_released s b hb := h.balanced.notMem_freed
    (show (store.payloadSlots s).buffer.map Buffer.block = some b.block by rw [hb]; rfl)
  released_once := h.balanced.freed_nodup

theorem intact_run (caps : BuildCapacity) (ops : List CsOp) :
    Intact (lastTaken (StepRun.trace csStep (init : LRUContentStore caps) ops))
      (StepRun.after csStep init ops) := by
  have hstep : ∀ (run : List (CsOp × Option (Fin caps.csEntries × Str)))
      (store : LRUContentStore caps) op, Intact (lastTaken run) store → True →
      Intact (lastTaken (run ++ [(op, (csStep store op).1)])) (csStep store op).2 := by
    intro run store op h _
    rw [lastTaken_concat]
    exact h.step op
  exact StepRun.trace_invariant hstep intact_init ops
    (StepRun.along_of_forall _ _ (fun _ _ => trivial) _ _)

/-- **The payload slots neither leak nor dangle**, whatever is saved, removed, looked up and
cleared, and wherever memory runs out: entries and slots match, a name that is found has a content,
and a save that fails changes no answer. -/
theorem payload_slots_intact (caps : BuildCapacity) (ops : List CsOp) :
    let run := StepRun.trace csStep (init : LRUContentStore caps) ops
    let store := StepRun.after csStep (init : LRUContentStore caps) ops
    PayloadsKept run store ∧
    (∀ name, store.find name = true →
      ∃ content, store.contentOf name = some content ∧ (store.get name).1 = content) ∧
    ∀ p alloc, SaveFails p alloc store → ∀ name,
      (store.save p alloc).find name = store.find name ∧
        ((store.save p alloc).get name).1 = (store.get name).1 := by
  intro run store
  have hrun : Intact (lastTaken run) store := intact_run caps ops
  refine ⟨hrun.payloadsKept, fun name hfind => ?_, fun p alloc hfails name => ?_⟩
  · -- a name that is found leads to a slot in use, and that to a content
    rw [find_eq] at hfind
    obtain ⟨v, hlook⟩ := Option.isSome_iff_exists.mp hfind
    obtain ⟨-, -, content, -, hcontent⟩ := hrun.contentOf_eq hlook
    exact ⟨content, hcontent, by rw [get_fst, hcontent]; rfl⟩
  · obtain ⟨hfind, hcontent⟩ := hrun.save_of_fails hfails name
    exact ⟨hfind, by rw [get_fst, get_fst, hcontent]⟩

/-- An update that finds no free slot, a removal, and a save that finds no memory. -/
example :
    let ops : List CsOp := [.save ⟨ascii ['/', 'a'], [1, 0, 2]⟩ (some true),
      .save ⟨ascii ['/', 'a'], [3]⟩ (some true), .remove (ascii ['/', 'a']),
      .save ⟨ascii ['/', 'b'], []⟩ none]
    let store := StepRun.after csStep (init : LRUContentStore (.uniform 1 (by decide))) ops
    store.freed = [0] ∧ store.allocated = 1 ∧ store.find (ascii ['/', 'a']) = false := by
  decide

end LRUContentStore

end Icsn
