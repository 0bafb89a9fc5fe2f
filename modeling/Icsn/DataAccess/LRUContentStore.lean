import Icsn.DataAccess.CacheRefinement

/-!
# Icsn — the content store

`LRUContentStore.cpp`: a cache from names to payload slot indices, and the slots, each with the
heap block its content is copied to.  Memory allocation is an input of `save`: `none` for a failed
`malloc`, `some inPsram` for a block in PSRAM or in the ordinary heap.

* **`contentOf`** — what the store answers for a name.
* **`Sound`** — every stored name has a slot of its own, in use and with a block.
* **`Sound.save`** / **`Sound.contentOf_save_self`** — what a save changes: nothing when no slot is
  free (`contentOf_save_of_full`), also for a name that is already stored.
-/

namespace Icsn

/-- A heap block: which allocation it came from, and its bytes. -/
structure Buffer where
  block : Nat
  bytes : Str
deriving DecidableEq

structure PayloadSlot where
  buffer : Option Buffer := none
  length : Nat := 0
  inUse : Bool := false
  inPsram : Bool := false
deriving DecidableEq

/-- The store.  `allocated` counts the blocks handed out so far, and `freed` lists the ones given
back, in order; no answer depends on them. -/
structure LRUContentStore (caps : BuildCapacity) where
  cache : FixedSizeLRUCache Int caps.csEntries
  payloadSlots : Fin caps.csEntries → PayloadSlot
  allocated : Nat
  freed : List Nat

structure CSPair where
  contentName : Str
  content : Str

namespace LRUContentStore

variable {caps : BuildCapacity}

/-! ## Operations

The order in which a save takes and gives back slots is that of the source: the new slot first, then
the `put`, and the old slot last. -/

/-- The constructor. -/
def init : LRUContentStore caps :=
  { cache := .init, payloadSlots := fun _ => {}, allocated := 0, freed := [] }

instance : Inhabited (LRUContentStore caps) := ⟨init⟩

/-- The range check in front of every use of a slot index. -/
def slotAt (n : Nat) (slotIndex : Int) : Option (Fin n) :=
  if h : 0 ≤ slotIndex ∧ slotIndex < n then some ⟨slotIndex.toNat, by omega⟩ else none

def findFreePayloadSlot (store : LRUContentStore caps) : Option (Fin caps.csEntries) :=
  Fin.find? fun i => !(store.payloadSlots i).inUse

def releasePayloadSlot (slotIndex : Int) (store : LRUContentStore caps) : LRUContentStore caps :=
  match slotAt caps.csEntries slotIndex with
  | none => store
  | some s =>
    { store with
      freed := store.freed ++ ((store.payloadSlots s).buffer.map Buffer.block).toList
      payloadSlots := Function.update store.payloadSlots s {} }

/-- `allocatePayloadBuffer` and the `memcpy` into the block: the content and its final NUL. -/
def allocatePayloadBuffer (content : Str) (alloc : Option Bool) (store : LRUContentStore caps) :
    Option (Buffer × Bool) :=
  alloc.map fun inPsram => ({ block := store.allocated, bytes := content ++ [0] }, inPsram)

/-- `storePayload`, with `outSlotIndex` as its result. -/
def storePayload (content : Str) (alloc : Option Bool) (store : LRUContentStore caps) :
    Option (Int × LRUContentStore caps) :=
  match store.findFreePayloadSlot with
  | none => none
  | some slotIndex =>
    match store.allocatePayloadBuffer content alloc with
    | none => none
    | some (buffer, inPsram) =>
      some (slotIndex.val,
        { store with
          allocated := store.allocated + 1
          payloadSlots := Function.update store.payloadSlots slotIndex
            { buffer := some buffer, length := content.length, inUse := true, inPsram } })

def save (csPair : CSPair) (alloc : Option Bool) (store : LRUContentStore caps) :
    LRUContentStore caps :=
  let existing := store.cache.get csPair.contentName
  let store := { store with cache := existing.2 }
  -- the new slot is taken before the old one is given back
  match store.storePayload csPair.content alloc with
  | none => store
  | some (newSlotIndex, store) =>
    let put := store.cache.put csPair.contentName newSlotIndex
    let store := { store with cache := put.2 }
    -- no room for the name: the new slot is given back
    if put.1 = false then store.releasePayloadSlot newSlotIndex
    else
      match existing.1 with
      | some oldSlotIndex => store.releasePayloadSlot oldSlotIndex
      | none => store

def remove (contentName : Str) (store : LRUContentStore caps) : LRUContentStore caps :=
  let found := store.cache.get contentName
  let store := { store with cache := (found.2.remove contentName).2 }
  match found.1 with
  | some slotIndex => store.releasePayloadSlot slotIndex
  | none => store

def find (contentName : Str) (store : LRUContentStore caps) : Bool :=
  store.cache.contains contentName

/-- The content a slot holds; nothing when it is not in use or has no block. -/
def payload (slot : PayloadSlot) : Option Str :=
  if slot.inUse = true then slot.buffer.map fun b => b.bytes.take slot.length else none

/-- `get`; the empty string is `Content::Null()`. -/
def get (contentName : Str) (store : LRUContentStore caps) : Str × LRUContentStore caps :=
  let found := store.cache.get contentName
  let store := { store with cache := found.2 }
  match found.1 with
  | none => ([], store)
  | some slotIndex =>
    match slotAt caps.csEntries slotIndex with
    | none => ([], store)
    | some s => ((payload (store.payloadSlots s)).getD [], store)

/-- `clear`: the cache first, then every slot in turn. -/
def clear (store : LRUContentStore caps) : LRUContentStore caps :=
  (List.finRange caps.csEntries).foldl (fun store i => store.releasePayloadSlot i.val)
    { store with cache := store.cache.clear }

/-! ## What the store answers

The content of a name, by way of the index and the slots.  A `get` moves an entry in the use order,
which this does not read. -/

/-- The content stored for a name. -/
def contentOf (store : LRUContentStore caps) (name : Str) : Option Str :=
  (store.cache.index.lookup name).bind fun slotIndex =>
    (slotAt caps.csEntries slotIndex).bind fun s => payload (store.payloadSlots s)

@[simp] theorem slotAt_natCast {n : Nat} (s : Fin n) : slotAt n (s.val : Int) = some s := by
  have hs := s.isLt
  rw [slotAt, dif_pos (by omega)]
  simp

theorem get_fst (name : Str) (store : LRUContentStore caps) :
    (store.get name).1 = (store.contentOf name).getD [] := by
  rw [get, contentOf]
  dsimp only
  rw [FixedSizeLRUCache.get_fst]
  cases store.cache.index.lookup name with
  | none => rfl
  | some v => cases h : slotAt caps.csEntries v <;> simp [h]

theorem find_eq (name : Str) (store : LRUContentStore caps) :
    store.find name = (store.cache.index.lookup name).isSome :=
  FixedSizeLRUCache.contains_eq name store.cache

/-- A `get` changes the use order only. -/
theorem get_snd (name : Str) (store : LRUContentStore caps) :
    (store.get name).2 = { store with cache := (store.cache.get name).2 } := by
  rw [get]
  dsimp only
  split
  · rfl
  · split <;> rfl

/-! ## Soundness

A `get` falls back to the empty string when a slot index does not lead to a content.  In a sound
store it always leads to one, so a name that is found has its content. -/

/-- Every stored name has a slot of its own, in use and with a block. -/
structure Sound (store : LRUContentStore caps) : Prop where
  chained : store.cache.index.Chained
  slot_of : ∀ {name v}, store.cache.index.lookup name = some v →
    ∃ s : Fin caps.csEntries, v = (s.val : Int) ∧ payload (store.payloadSlots s) ≠ none
  slot_inj : ∀ {name name' v}, store.cache.index.lookup name = some v →
    store.cache.index.lookup name' = some v → name = name'

theorem sound_init : (init : LRUContentStore caps).Sound where
  chained := CacheIndex.chained_init
  slot_of h := by
    rw [init, FixedSizeLRUCache.index_init, CacheIndex.lookup_init] at h; cases h
  slot_inj h := by
    rw [init, FixedSizeLRUCache.index_init, CacheIndex.lookup_init] at h; cases h

/-- A stored name has a content. -/
theorem Sound.contentOf_isSome {store : LRUContentStore caps} (hs : store.Sound) (name : Str) :
    (store.contentOf name).isSome = store.find name := by
  rw [find_eq, contentOf]
  cases hlook : store.cache.index.lookup name with
  | none => rfl
  | some v =>
    obtain ⟨s, rfl, hp⟩ := hs.slot_of hlook
    simpa [Option.isSome_iff_ne_none] using hp

section SameIndex

variable {store store' : LRUContentStore caps}

/-- A change that leaves the index and every stored name's slot alone keeps the answers. -/
theorem contentOf_congr {name : Str}
    (hlook : store'.cache.index.lookup name = store.cache.index.lookup name)
    (hslot : ∀ s : Fin caps.csEntries, store.cache.index.lookup name = some (s.val : Int) →
      store'.payloadSlots s = store.payloadSlots s) :
    store'.contentOf name = store.contentOf name := by
  rw [contentOf, contentOf, hlook]
  cases hv : store.cache.index.lookup name with
  | none => rfl
  | some v =>
    cases hs : slotAt caps.csEntries v with
    | none => simp [hs]
    | some s =>
      have hcast : v = (s.val : Int) := by
        rw [slotAt] at hs
        split at hs
        · obtain rfl := Option.some.inj hs
          simp only; omega
        · cases hs
      simp [hs, hslot s (hcast ▸ hv)]

theorem Sound.of_same_index (hs : store.Sound) (hindex : store'.cache.index = store.cache.index)
    (hslot : ∀ name (s : Fin caps.csEntries), store.cache.index.lookup name = some (s.val : Int) →
      store'.payloadSlots s = store.payloadSlots s) : store'.Sound where
  chained := by rw [hindex]; exact hs.chained
  slot_of h := by
    rw [hindex] at h
    obtain ⟨s, rfl, hp⟩ := hs.slot_of h
    exact ⟨s, rfl, by rw [hslot _ s h]; exact hp⟩
  slot_inj h h' := by
    rw [hindex] at h h'
    exact hs.slot_inj h h'

theorem Sound.get (hs : store.Sound) (name : Str) : (store.get name).2.Sound := by
  rw [get_snd]
  exact hs.of_same_index (FixedSizeLRUCache.index_get name store.cache) fun _ _ _ => rfl

theorem contentOf_get (name name' : Str) :
    (store.get name).2.contentOf name' = store.contentOf name' := by
  rw [get_snd]
  refine contentOf_congr ?_ fun _ _ => rfl
  show (store.cache.get name).2.index.lookup name' = _
  rw [FixedSizeLRUCache.index_get]

end SameIndex

/-! ## Saving

A save ends in one of two ways for the names: nothing is stored and every name keeps its slot, or
the content is in a slot that was free, and the other names keep theirs. -/

section Save

variable {store : LRUContentStore caps} {p : CSPair} {alloc : Option Bool}

/-- **The ways `save` goes**, on the index and the slots: nothing is stored; the new slot is taken
and given back; the new slot is taken and the old one, if any, given back. -/
theorem save_cases (p : CSPair) (alloc : Option Bool) (store : LRUContentStore caps) :
    ((store.findFreePayloadSlot = none ∨ alloc = none) ∧
      (store.save p alloc).cache.index = store.cache.index ∧
      (store.save p alloc).payloadSlots = store.payloadSlots) ∨
    (∃ s inPsram, store.findFreePayloadSlot = some s ∧ alloc = some inPsram ∧
      let put := store.cache.index.put p.contentName (s.val : Int)
      let slot : PayloadSlot :=
        { buffer := some { block := store.allocated, bytes := p.content ++ [0] }
          length := p.content.length, inUse := true, inPsram }
      (store.save p alloc).cache.index = put.2 ∧
      ((put.1 = false ∧
          (store.save p alloc).payloadSlots = Function.update store.payloadSlots s {}) ∨
        (put.1 = true ∧ (store.save p alloc).payloadSlots
          = match (store.cache.index.lookup p.contentName).bind (slotAt caps.csEntries) with
            | some old => Function.update (Function.update store.payloadSlots s slot) old {}
            | none => Function.update store.payloadSlots s slot))) := by
  rw [save, storePayload]
  dsimp only
  have hfree : findFreePayloadSlot { store with cache := (store.cache.get p.contentName).2 }
      = store.findFreePayloadSlot := rfl
  rw [hfree]
  cases hs : store.findFreePayloadSlot with
  | none => exact Or.inl ⟨Or.inl rfl, FixedSizeLRUCache.index_get _ _, rfl⟩
  | some s =>
    cases alloc with
    | none => exact Or.inl ⟨Or.inr rfl, FixedSizeLRUCache.index_get _ _, rfl⟩
    | some inPsram =>
      refine Or.inr ⟨s, inPsram, rfl, rfl, ?_⟩
      -- the put goes to the cache after the `get`, which has the index from before
      dsimp only [allocatePayloadBuffer, Option.map_some]
      obtain ⟨hfst, hsnd⟩ := FixedSizeLRUCache.index_put p.contentName (s.val : Int)
        (store.cache.get p.contentName).2
      rw [FixedSizeLRUCache.index_get] at hfst hsnd
      rw [FixedSizeLRUCache.get_fst, hfst]
      cases hput : (store.cache.index.put p.contentName (s.val : Int)).1 with
      | false =>
        rw [if_pos rfl, releasePayloadSlot, slotAt_natCast]
        exact ⟨hsnd, Or.inl ⟨rfl, Function.update_idem ..⟩⟩
      | true =>
        rw [if_neg (by simp)]
        cases hold : store.cache.index.lookup p.contentName with
        | none => exact ⟨hsnd, Or.inr ⟨rfl, rfl⟩⟩
        | some v =>
          dsimp only [Option.bind_some]
          rw [releasePayloadSlot]
          cases slotAt caps.csEntries v with
          | none => exact ⟨hsnd, Or.inr ⟨rfl, rfl⟩⟩
          | some old => exact ⟨hsnd, Or.inr ⟨rfl, rfl⟩⟩

theorem not_inUse_of_free {s : Fin caps.csEntries} (hs : store.findFreePayloadSlot = some s) :
    payload (store.payloadSlots s) = none := by
  have := (Fin.find?_eq_some_iff.mp hs).1
  rw [payload, if_neg (by simpa using this)]

/-- The slot of a stored name is not the free one. -/
theorem Sound.slot_ne_free (hsound : store.Sound) {s s' : Fin caps.csEntries} {name : Str}
    (hs : store.findFreePayloadSlot = some s)
    (hlook : store.cache.index.lookup name = some (s'.val : Int)) : s' ≠ s := by
  rintro rfl
  obtain ⟨t, ht, hp⟩ := hsound.slot_of hlook
  obtain rfl : s' = t := Fin.ext (by omega)
  exact hp (not_inUse_of_free hs)

theorem Sound.slot_of_bind (hsound : store.Sound) {name : Str} {s : Fin caps.csEntries}
    (h : (store.cache.index.lookup name).bind (slotAt caps.csEntries) = some s) :
    store.cache.index.lookup name = some (s.val : Int) := by
  obtain ⟨v, hv, hs⟩ := Option.bind_eq_some_iff.mp h
  obtain ⟨t, rfl, -⟩ := hsound.slot_of hv
  rw [slotAt_natCast] at hs
  rw [hv, Option.some.inj hs]

/-- Nothing was stored: every name keeps its slot, for one of three reasons. -/
def NotStored (store : LRUContentStore caps) (p : CSPair) (alloc : Option Bool) : Prop :=
  (store.findFreePayloadSlot = none ∨ alloc = none ∨
    store.cache.index.lookup p.contentName = none) ∧
  (store.save p alloc).cache.index = store.cache.index ∧
  ∀ name (t : Fin caps.csEntries), store.cache.index.lookup name = some (t.val : Int) →
    (store.save p alloc).payloadSlots t = store.payloadSlots t

/-- The content was stored in `s`, which was free; the other names keep their slots. -/
def StoredAt (store : LRUContentStore caps) (p : CSPair) (alloc : Option Bool)
    (s : Fin caps.csEntries) : Prop :=
  store.findFreePayloadSlot = some s ∧
  (store.cache.index.put p.contentName (s.val : Int)).1 = true ∧
  (store.save p alloc).cache.index = (store.cache.index.put p.contentName (s.val : Int)).2 ∧
  payload ((store.save p alloc).payloadSlots s) = some p.content ∧
  ∀ name (t : Fin caps.csEntries), name ≠ p.contentName →
    store.cache.index.lookup name = some (t.val : Int) →
    (store.save p alloc).payloadSlots t = store.payloadSlots t

/-- In a sound store a save either stores the content or changes no name's slot. -/
theorem Sound.notStored_or_storedAt (hsound : store.Sound) (p : CSPair) (alloc : Option Bool) :
    store.NotStored p alloc ∨ ∃ s, store.StoredAt p alloc s := by
  rcases save_cases p alloc store with
    ⟨hwhy, hindex, hslots⟩ | ⟨s, inPsram, hs, -, hindex, ⟨hput, hslots⟩ | ⟨hput, hslots⟩⟩
  · exact Or.inl ⟨hwhy.imp_right Or.inl, hindex, fun _ _ _ => by rw [hslots]⟩
  · -- a refused put: the name is absent, and the new slot was given back
    have hrefused := (CacheIndex.put_eq_false_iff hsound.chained.toWf _).mp hput
    rw [CacheIndex.put_of_refused hsound.chained.toWf hput] at hindex
    refine Or.inl ⟨Or.inr (Or.inr hrefused.1), hindex, fun name t ht => ?_⟩
    rw [hslots, Function.update_of_ne (hsound.slot_ne_free hs ht)]
  · have hval : payload { buffer := some { block := store.allocated, bytes := p.content ++ [0] }
                          length := p.content.length, inUse := true, inPsram }
        = some p.content := by simp [payload]
    refine Or.inr ⟨s, hs, hput, hindex, ?_, fun name t hne ht => ?_⟩
    · rw [hslots]
      cases hold : (store.cache.index.lookup p.contentName).bind (slotAt caps.csEntries) with
      | none => dsimp only; rw [Function.update_self]; exact hval
      | some old =>
        -- giving the old slot back does not touch the new one
        have hne := (hsound.slot_ne_free hs (hsound.slot_of_bind hold)).symm
        dsimp only
        rw [Function.update_of_ne hne, Function.update_self]
        exact hval
    · have hts := hsound.slot_ne_free hs ht
      rw [hslots]
      cases hold : (store.cache.index.lookup p.contentName).bind (slotAt caps.csEntries) with
      | none => exact Function.update_of_ne hts _ _
      | some old =>
        -- the old slot of the saved name is not the slot of another name
        have htu : t ≠ old := by
          rintro rfl
          exact hne (hsound.slot_inj ht (hsound.slot_of_bind hold))
        dsimp only
        rw [Function.update_of_ne htu, Function.update_of_ne hts]

section Stored

variable {s : Fin caps.csEntries}

theorem StoredAt.lookup_self (hsound : store.Sound) (hst : store.StoredAt p alloc s) :
    (store.save p alloc).cache.index.lookup p.contentName = some (s.val : Int) := by
  obtain ⟨-, hput, hindex, -⟩ := hst
  rw [hindex]
  exact CacheIndex.lookup_put_self hsound.chained.toWf hput

theorem StoredAt.lookup_ne (hsound : store.Sound) (hst : store.StoredAt p alloc s) {name : Str}
    (hne : name ≠ p.contentName) :
    (store.save p alloc).cache.index.lookup name = store.cache.index.lookup name := by
  obtain ⟨-, -, hindex, -⟩ := hst
  rw [hindex]
  exact hsound.chained.lookup_put_ne hne _

theorem StoredAt.sound (hsound : store.Sound) (hst : store.StoredAt p alloc s) :
    (store.save p alloc).Sound := by
  have hself := hst.lookup_self hsound
  have hother : ∀ {name}, name ≠ p.contentName →
      (store.save p alloc).cache.index.lookup name = store.cache.index.lookup name :=
    fun hne => hst.lookup_ne hsound hne
  obtain ⟨hs, -, hindex, hnew, hkeep⟩ := hst
  refine ⟨by rw [hindex]; exact hsound.chained.put _ _, ?_, ?_⟩
  · intro name v hv
    by_cases hne : name = p.contentName
    · subst hne
      rw [hself] at hv
      obtain rfl := Option.some.inj hv
      exact ⟨s, rfl, by rw [hnew]; simp⟩
    · rw [hother hne] at hv
      obtain ⟨t, rfl, ht⟩ := hsound.slot_of hv
      exact ⟨t, rfl, by rw [hkeep name t hne hv]; exact ht⟩
  · intro name name' v hv hv'
    by_cases hne : name = p.contentName <;> by_cases hne' : name' = p.contentName
    · rw [hne, hne']
    · -- the new slot was free, so it was nobody else's
      rw [hne, hself] at hv
      obtain rfl := Option.some.inj hv
      rw [hother hne'] at hv'
      exact absurd rfl (hsound.slot_ne_free hs hv')
    · rw [hne', hself] at hv'
      obtain rfl := Option.some.inj hv'
      rw [hother hne] at hv
      exact absurd rfl (hsound.slot_ne_free hs hv)
    · rw [hother hne] at hv
      rw [hother hne'] at hv'
      exact hsound.slot_inj hv hv'

theorem StoredAt.contentOf_self (hsound : store.Sound) (hst : store.StoredAt p alloc s) :
    (store.save p alloc).contentOf p.contentName = some p.content := by
  have hself := hst.lookup_self hsound
  obtain ⟨-, -, -, hnew, -⟩ := hst
  rw [contentOf, hself]
  simpa using hnew

end Stored

/-- **Saving one name keeps the store sound and the other names' contents.** -/
theorem Sound.save (hsound : store.Sound) (p : CSPair) (alloc : Option Bool) :
    (store.save p alloc).Sound ∧ ∀ name, name ≠ p.contentName →
      (store.save p alloc).contentOf name = store.contentOf name := by
  rcases hsound.notStored_or_storedAt p alloc with ⟨-, hindex, hslots⟩ | ⟨s, hst⟩
  · exact ⟨hsound.of_same_index hindex hslots,
      fun name _ => contentOf_congr (by rw [hindex]) (hslots name)⟩
  · refine ⟨hst.sound hsound, fun name hne => contentOf_congr (hst.lookup_ne hsound hne) ?_⟩
    exact fun t ht => hst.2.2.2.2 name t hne ht

/-- **The saved name's content**: the new one, or, when nothing was stored, the old one; with memory
and a free slot nothing is stored only for a name that stays absent. -/
theorem Sound.contentOf_save_self (hsound : store.Sound) (p : CSPair) (alloc : Option Bool) :
    (store.save p alloc).contentOf p.contentName = some p.content ∨
      ((store.save p alloc).contentOf p.contentName = store.contentOf p.contentName ∧
        (store.findFreePayloadSlot = none ∨ alloc = none ∨
          store.contentOf p.contentName = none)) := by
  rcases hsound.notStored_or_storedAt p alloc with ⟨hwhy, hindex, hslots⟩ | ⟨s, hst⟩
  · refine Or.inr ⟨contentOf_congr (by rw [hindex]) (hslots p.contentName), ?_⟩
    refine hwhy.imp_right (Or.imp_right fun hnone => ?_)
    rw [contentOf, hnone]; rfl
  · exact Or.inl (hst.contentOf_self hsound)

/-- Without a free slot a save is lost, whatever the name. -/
theorem contentOf_save_of_full (hfull : store.findFreePayloadSlot = none) (name : Str) :
    (store.save p alloc).contentOf name = store.contentOf name := by
  rcases save_cases p alloc store with ⟨-, hindex, hslots⟩ | ⟨s, inPsram, hs, -⟩
  · exact contentOf_congr (by rw [hindex]) fun _ _ => by rw [hslots]
  · rw [hfull] at hs; cases hs

end Save

/-! ## Clearing

The cache is cleared first, and then every slot is released, whatever it holds. -/

@[simp] theorem cache_releasePayloadSlot (v : Int) (store : LRUContentStore caps) :
    (store.releasePayloadSlot v).cache = store.cache := by
  rw [releasePayloadSlot]
  split <;> rfl

theorem cache_clear (store : LRUContentStore caps) : store.clear.cache = store.cache.clear := by
  have hfold : ∀ (l : List (Fin caps.csEntries)) (st : LRUContentStore caps),
      (l.foldl (fun st i => st.releasePayloadSlot i.val) st).cache = st.cache := by
    intro l
    induction l with
    | nil => exact fun _ => rfl
    | cons i l ih => intro st; rw [List.foldl_cons, ih, cache_releasePayloadSlot]
  exact hfold _ _

theorem contentOf_clear (store : LRUContentStore caps) (name : Str) :
    store.clear.contentOf name = none := by
  rw [contentOf, cache_clear, FixedSizeLRUCache.index_clear, CacheIndex.lookup_clear]; rfl

theorem sound_clear (store : LRUContentStore caps) : store.clear.Sound where
  chained := by
    rw [cache_clear]; exact CacheIndex.chained_clear store.cache.index
  slot_of h := by
    rw [cache_clear, FixedSizeLRUCache.index_clear, CacheIndex.lookup_clear] at h; cases h
  slot_inj h := by
    rw [cache_clear, FixedSizeLRUCache.index_clear, CacheIndex.lookup_clear] at h; cases h

end LRUContentStore

end Icsn
