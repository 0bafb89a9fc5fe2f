import Icsn.DataAccess.CacheListing
import Icsn.DataAccess.ContentMap
import Icsn.UseCase.CachedAnswers

/-!
# Icsn — what `show_cs` prints

The report on the Content Store: the listing of its cache and the totals over its payload slots.
The two are kept in different tables; a `RecencyList` of names, contents and kinds of memory stands
for both.

* **`keptStep`** — what an event on the node does to the list.
* **`ListedAs`** — the store stands for the list; `ListedAs.save`, `ListedAs.get` and
  `ListedAs.clear` keep it.
* **`show_cs_faithful`** — over every run, what is printed is the list.
-/

namespace Icsn

open FixedSizeLRUCache (CacheListing)
open RecencyList (touch lookup_map map_store map_touch store_touch)

namespace LRUContentStore

variable {caps : BuildCapacity}

/-! ## The report

The two halves of what is printed: the rows of the cache, and the totals that a loop over all slots
adds up. -/

structure PayloadUsageStats where
  usedSlots : Nat := 0
  heapBytes : Nat := 0
  psramBytes : Nat := 0
deriving DecidableEq

/-- A turn of the loop of `collectPayloadUsageStats`. -/
def PayloadUsageStats.addSlot (stats : PayloadUsageStats) (slot : PayloadSlot) :
    PayloadUsageStats :=
  if slot.inUse = false then stats
  else
    let stats := { stats with usedSlots := stats.usedSlots + 1 }
    if slot.inPsram = true then { stats with psramBytes := stats.psramBytes + slot.length }
    else { stats with heapBytes := stats.heapBytes + slot.length }

/-- The bytes are those of blocks in memory, so that no counter of the source overflows. -/
def collectPayloadUsageStats (store : LRUContentStore caps) : PayloadUsageStats :=
  (List.finRange caps.csEntries).foldl (fun stats i => stats.addSlot (store.payloadSlots i)) {}

/-- What `printCache` and `printPayloadStats` print. -/
structure ContentReport where
  listing : CacheListing
  stats : PayloadUsageStats
  capacity : Nat
deriving DecidableEq

/-- The command `show_cs`. -/
def showCs (fuel : Nat) (store : LRUContentStore caps) : Option ContentReport :=
  (store.cache.printCache fuel).map fun listing =>
    { listing, stats := store.collectPayloadUsageStats, capacity := caps.csEntries }

/-! ## The list it stands for

One list for both tables, with the name, the content and the kind of memory.  A save that is refused
moves its name to the front all the same, as it looks the name up first. -/

/-- The names with their contents, and whether these are in PSRAM, the name used last first. -/
abbrev KeptList := List (Str × Str × Bool)

/-- A save on the list.  One that is refused uses the name all the same. -/
def KeptList.save (cap : Nat) (name content : Str) (alloc : Option Bool) (l : KeptList) :
    KeptList :=
  match alloc with
  | some inPsram => if l.length < cap then RecencyList.store name (content, inPsram) l
    else touch name l
  | none => touch name l

/-- The bytes of the contents in one kind of memory. -/
def KeptList.bytes (inPsram : Bool) (l : KeptList) : Nat :=
  ((l.filter fun p => p.2.2 == inPsram).map fun p => p.2.1.length).sum

/-- The report on the list. -/
def KeptList.report (cap : Nat) (l : KeptList) : ContentReport where
  listing := { currentSize := l.length, maxSize := cap,
               rows := l.zipIdx.map fun p => { index := p.2, key := cstr p.1.1 } }
  stats := { usedSlots := l.length, heapBytes := l.bytes false, psramBytes := l.bytes true }
  capacity := cap

/-! ## The slots in the order of use

The loop over the slots adds up numbers, so its order does not matter; the slots in use are the ones
the entries own.  It can therefore go over the list of the cache. -/

section Slots

variable {store : LRUContentStore caps} {filled : Fin caps.csEntries → Option Str}
  {used : List (Fin caps.csEntries)}

/-- The slot with an index. -/
def slotOf (store : LRUContentStore caps) (v : Int) : PayloadSlot :=
  (slotAt caps.csEntries v).elim {} store.payloadSlots

/-- The content of the slot with an index, and the kind of memory it is in. -/
def slotView (store : LRUContentStore caps) (v : Int) : Str × Bool :=
  ((payload (store.slotOf v)).getD [], (store.slotOf v).inPsram)

@[simp] theorem slotOf_natCast (s : Fin caps.csEntries) :
    store.slotOf (s.val : Int) = store.payloadSlots s := by
  unfold slotOf
  rw [slotAt_natCast]
  rfl

theorem mem_pairs_snd (hc : store.cache.ListedBy used) {v : Int} :
    v ∈ (store.cache.pairs used).map Prod.snd ↔ ∃ i, store.cache.index.owns i = some v := by
  unfold FixedSizeLRUCache.pairs
  rw [List.map_map, List.mem_map]
  refine exists_congr fun i => ?_
  rw [hc.mem_useOrder, CacheIndex.owns_eq_some_iff]
  rfl

/-- The indices of the slots in use are those listed, each once. -/
theorem Intact.slots_perm (h : Intact filled store) (hc : store.cache.ListedBy used) :
    (((List.finRange caps.csEntries).filter fun s => (store.payloadSlots s).inUse).map
      fun s => (s.val : Int)).Perm ((store.cache.pairs used).map Prod.snd) := by
  refine (List.perm_ext_iff_of_nodup ?_ ?_).mpr fun v => ?_
  · refine ((List.nodup_finRange _).filter _).map fun s t hst => ?_
    exact Fin.ext (Int.ofNat_inj.mp hst)
  · unfold FixedSizeLRUCache.pairs
    rw [List.map_map, List.nodup_map_iff_inj_on hc.nodup]
    intro i hi j hj hij
    rw [hc.mem_useOrder] at hi hj
    exact h.matched.owner_unique (CacheIndex.owns_eq_some_iff.mpr ⟨hi, rfl⟩)
      (CacheIndex.owns_eq_some_iff.mpr ⟨hj, hij.symm⟩)
  · rw [mem_pairs_snd hc, ← h.matched.used_iff, List.mem_map]
    refine exists_congr fun s => ?_
    simp [and_comm]

theorem PayloadUsageStats.addSlot_comm (stats : PayloadUsageStats) (slot slot' : PayloadSlot) :
    (stats.addSlot slot).addSlot slot' = (stats.addSlot slot').addSlot slot := by
  unfold addSlot
  cases slot.inUse <;> cases slot'.inUse <;> cases slot.inPsram <;> cases slot'.inPsram <;>
    simp [Nat.add_right_comm]

/-- The loop skips the slots that are not in use. -/
theorem foldl_addSlot_filter (slots : Fin caps.csEntries → PayloadSlot)
    (l : List (Fin caps.csEntries)) (stats : PayloadUsageStats) :
    (l.filter fun s => (slots s).inUse).foldl (fun stats s => stats.addSlot (slots s)) stats
      = l.foldl (fun stats s => stats.addSlot (slots s)) stats := by
  rw [List.foldl_filter]
  congr 1
  funext stats s
  unfold PayloadUsageStats.addSlot
  cases (slots s).inUse <;> rfl

/-- The loop over the slots goes, in effect, over the list of the cache. -/
theorem Intact.collectPayloadUsageStats_eq (h : Intact filled store)
    (hc : store.cache.ListedBy used) :
    store.collectPayloadUsageStats = ((store.cache.pairs used).map Prod.snd).foldl
      (fun stats v => stats.addSlot (store.slotOf v)) {} := by
  have hslots : store.collectPayloadUsageStats
      = (((List.finRange caps.csEntries).filter fun s => (store.payloadSlots s).inUse).map
          fun s => (s.val : Int)).foldl (fun stats v => stats.addSlot (store.slotOf v)) {} := by
    rw [List.foldl_map]
    simp only [slotOf_natCast]
    exact (foldl_addSlot_filter _ _ _).symm
  rw [hslots]
  refine (h.slots_perm hc).foldl_eq' (fun v _ w _ stats => ?_) _
  exact PayloadUsageStats.addSlot_comm _ _ _

/-- What is listed is in use, with its content. -/
theorem Intact.slotOf_listed (h : Intact filled store) (hc : store.cache.ListedBy used)
    {p : Str × Int} (hp : p ∈ store.cache.pairs used) :
    (store.slotOf p.2).inUse = true ∧
      (store.slotOf p.2).length = (store.slotView p.2).1.length := by
  have hv : ∃ i, store.cache.index.owns i = some p.2 :=
    (mem_pairs_snd hc).mp (List.mem_map_of_mem hp)
  obtain ⟨s, hs, huse⟩ := (h.matched.used_iff p.2).mpr hv
  obtain ⟨content, block, -, hlen, hbuf⟩ := h.content_of_inUse huse
  unfold slotView
  rw [← hs, slotOf_natCast, payload, if_pos huse, hbuf, hlen]
  exact ⟨huse, by simp⟩

theorem KeptList.bytes_cons (inPsram : Bool) (p : Str × Str × Bool) (l : KeptList) :
    KeptList.bytes inPsram (p :: l)
      = (if p.2.2 = inPsram then p.2.1.length else 0) + KeptList.bytes inPsram l := by
  unfold KeptList.bytes
  rw [List.filter_cons]
  by_cases h : p.2.2 = inPsram
  · simp [h]
  · simp [h]

/-- The totals over slots in use. -/
theorem foldl_addSlot_eq (l : List (Str × Int)) (stats : PayloadUsageStats)
    (hl : ∀ p ∈ l, (store.slotOf p.2).inUse = true ∧
      (store.slotOf p.2).length = (store.slotView p.2).1.length) :
    (l.map Prod.snd).foldl (fun stats v => stats.addSlot (store.slotOf v)) stats = {
      usedSlots := stats.usedSlots + l.length
      heapBytes := stats.heapBytes + KeptList.bytes false (l.map (Prod.map id store.slotView))
      psramBytes :=
        stats.psramBytes + KeptList.bytes true (l.map (Prod.map id store.slotView)) } := by
  induction l generalizing stats with
  | nil => rfl
  | cons p l ih =>
    obtain ⟨huse, hlen⟩ := hl p List.mem_cons_self
    rw [List.map_cons, List.foldl_cons, ih _ fun q hq => hl q (List.mem_cons_of_mem p hq),
      List.map_cons, KeptList.bytes_cons, KeptList.bytes_cons]
    have hkind : (Prod.map id store.slotView p).2.2 = (store.slotOf p.2).inPsram := rfl
    have hlength : (Prod.map id store.slotView p).2.1.length = (store.slotOf p.2).length :=
      hlen.symm
    rw [hkind, hlength]
    unfold PayloadUsageStats.addSlot
    rw [if_neg (by rw [huse]; decide)]
    cases (store.slotOf p.2).inPsram <;> simp [Nat.add_assoc, Nat.add_comm 1]

end Slots

/-! ## The store stands for the list

The relation is that of the cache and its order of use, read through the slots.  Look-ups and
clearing keep it without more ado. -/

/-- The store stands for the list. -/
structure ListedAs (l : KeptList) (store : LRUContentStore caps) : Prop where
  map : ∃ m, StoreRel store m
  listed : ∃ used, store.cache.ListedBy used ∧
    (store.cache.pairs used).map (Prod.map id store.slotView) = l

namespace ListedAs

variable {l : KeptList} {store : LRUContentStore caps}

theorem length_eq (h : ListedAs l store) : l.length = store.cache.index.currentSize := by
  obtain ⟨used, hc, rfl⟩ := h.listed
  rw [List.length_map, hc.length_pairs]
  rfl

/-- Each name is listed once. -/
theorem nodup_names (h : ListedAs l store) : (l.map Prod.fst).Nodup := by
  obtain ⟨m, hm⟩ := h.map
  obtain ⟨used, hc, rfl⟩ := h.listed
  rw [List.map_map]
  exact hc.nodup_keys hm.sound.chained

/-- **The answers** are the contents of the list. -/
theorem contentOf_eq (h : ListedAs l store) (name : Str) :
    store.contentOf name = (l.lookup name).map Prod.fst := by
  obtain ⟨m, hm⟩ := h.map
  obtain ⟨used, hc, rfl⟩ := h.listed
  rw [lookup_map, hc.lookup_pairs hm.sound.chained, contentOf]
  cases hlook : store.cache.index.lookup name with
  | none => rfl
  | some v =>
    obtain ⟨s, rfl, hp⟩ := hm.sound.slot_of hlook
    obtain ⟨content, hcontent⟩ := Option.ne_none_iff_exists'.mp hp
    rw [Option.bind_some, slotAt_natCast, Option.bind_some, hcontent, Option.map_some,
      Option.map_some, slotView, slotOf_natCast, hcontent]
    rfl

/-- **The report** is that of the list. -/
theorem showCs_eq (h : ListedAs l store) {fuel : Nat} (hfuel : caps.csEntries < fuel) :
    store.showCs fuel = some (l.report caps.csEntries) := by
  obtain ⟨m, hm⟩ := h.map
  obtain ⟨filled, hfilled⟩ := hm.intact
  obtain ⟨used, hc, rfl⟩ := h.listed
  rw [showCs, hc.printCache_eq hfuel, hfilled.collectPayloadUsageStats_eq hc,
    foldl_addSlot_eq _ _ fun p hp => hfilled.slotOf_listed hc hp]
  unfold KeptList.report
  rw [List.zipIdx_map, List.map_map, List.length_map]
  simp only [Option.map_some, Nat.zero_add]
  rfl

theorem init : ListedAs [] (init : LRUContentStore caps) where
  map := ⟨_, storeRel_init⟩
  listed := ⟨[], FixedSizeLRUCache.listedBy_init [], rfl⟩

/-- **A look-up.** -/
theorem get (h : ListedAs l store) (name : Str) : ListedAs (touch name l) (store.get name).2 := by
  obtain ⟨m, hm⟩ := h.map
  obtain ⟨used, hc, rfl⟩ := h.listed
  refine ⟨⟨m, hm.get name⟩, (store.cache.usedEntry (.get name)).toList ++ used, ?_, ?_⟩
  · rw [get_snd]
    exact hc.get name
  · rw [get_snd]
    show ((store.cache.get name).2.pairs _).map (Prod.map id store.slotView) = _
    rw [hc.pairs_get hm.sound.chained, map_touch]

theorem clear (h : ListedAs l store) : ListedAs [] store.clear := by
  obtain ⟨m, hm⟩ := h.map
  refine ⟨⟨_, hm.clear⟩, [], ?_, rfl⟩
  rw [cache_clear]
  have hwf : store.cache.clear.index.Wf := CacheIndex.wf_clear store.cache.index
  exact FixedSizeLRUCache.ListedBy.of_no_valid hwf (fun _ => rfl) rfl rfl []

end ListedAs

/-! ## Saving

With a free slot a save puts the name in front with a new slot; the other names keep theirs, and
what is in them.  Without one it has used the name. -/

section Save

variable {l : KeptList} {store : LRUContentStore caps} {p : CSPair} {s : Fin caps.csEntries}

theorem findFreePayloadSlot_cache (cache : FixedSizeLRUCache Int caps.csEntries) :
    findFreePayloadSlot { store with cache } = store.findFreePayloadSlot := rfl

/-- A save that stores nothing has looked the name up. -/
theorem cache_save_of_refused {alloc : Option Bool}
    (h : store.findFreePayloadSlot = none ∨ alloc = none) :
    (store.save p alloc).cache = (store.cache.get p.contentName).2 := by
  rw [save, storePayload]
  dsimp only
  rw [findFreePayloadSlot_cache]
  cases hs : store.findFreePayloadSlot with
  | none => rfl
  | some s =>
    rcases h with hnone | rfl
    · rw [hs] at hnone
      cases hnone
    · rfl

/-- A save with a free slot looks the name up and puts it. -/
theorem cache_save_of_free (inPsram : Bool) (hs : store.findFreePayloadSlot = some s) :
    (store.save p (some inPsram)).cache
      = ((store.cache.get p.contentName).2.put p.contentName (s.val : Int)).2 := by
  rw [save, storePayload]
  dsimp only
  rw [findFreePayloadSlot_cache, hs]
  dsimp only [allocatePayloadBuffer, Option.map_some]
  split
  · rw [cache_releasePayloadSlot]
  · split
    · rw [cache_releasePayloadSlot]
    · rfl

/-- The content that was stored is in the memory that was given for it. -/
theorem inPsram_save (hsound : store.Sound) (inPsram : Bool)
    (hs : store.findFreePayloadSlot = some s)
    (hput : (store.cache.index.put p.contentName (s.val : Int)).1 = true) :
    ((store.save p (some inPsram)).payloadSlots s).inPsram = inPsram := by
  rcases save_cases p (some inPsram) store with
    ⟨hnone, -⟩ | ⟨s', inPsram', hs', halloc, -, ⟨hrefused, -⟩ | ⟨-, hslots⟩⟩
  · rw [hs] at hnone
    rcases hnone with hnone | hnone
    · cases hnone
    · cases hnone
  · obtain rfl := Option.some.inj (hs.symm.trans hs')
    rw [hput] at hrefused
    cases hrefused
  · obtain rfl := Option.some.inj (hs.symm.trans hs')
    obtain rfl := Option.some.inj halloc
    rw [hslots]
    cases hold : (store.cache.index.lookup p.contentName).bind (slotAt caps.csEntries) with
    | none =>
      dsimp only
      rw [Function.update_self]
    | some old =>
      -- giving the old slot back does not touch the new one
      have hne := (hsound.slot_ne_free hs (hsound.slot_of_bind hold)).symm
      dsimp only
      rw [Function.update_of_ne hne, Function.update_self]

/-- The slot of the name that was saved. -/
theorem slotView_save_self (hsound : store.Sound) {inPsram : Bool}
    (hstored : store.StoredAt p (some inPsram) s) :
    (store.save p (some inPsram)).slotView (s.val : Int) = (p.content, inPsram) := by
  obtain ⟨hs, hput, -, hnew, -⟩ := hstored
  unfold slotView
  rw [slotOf_natCast, hnew, inPsram_save hsound inPsram hs hput]
  rfl

/-- The slots of the other names are as before. -/
theorem slotView_save_of_ne (hsound : store.Sound) {alloc : Option Bool}
    (hstored : store.StoredAt p alloc s) {name : Str} {v : Int} (hne : name ≠ p.contentName)
    (hlook : store.cache.index.lookup name = some v) :
    (store.save p alloc).slotView v = store.slotView v := by
  obtain ⟨t, rfl, -⟩ := hsound.slot_of hlook
  unfold slotView
  rw [slotOf_natCast, slotOf_natCast, hstored.2.2.2.2 name t hne hlook]

/-- Nothing is stored, but the name counts as used. -/
theorem ListedAs.save_of_refused (h : ListedAs l store) {alloc : Option Bool}
    (hrefused : store.findFreePayloadSlot = none ∨ alloc = none) :
    ListedAs (touch p.contentName l) (store.save p alloc) := by
  obtain ⟨m, hm⟩ := h.map
  have hslots : (store.save p alloc).payloadSlots = store.payloadSlots := by
    rcases save_cases p alloc store with ⟨-, -, hslots⟩ | ⟨s, inPsram, hs, halloc, -⟩
    · exact hslots
    · rw [hs, halloc] at hrefused
      rcases hrefused with hnone | hnone
      · cases hnone
      · cases hnone
  have hview : (store.save p alloc).slotView = store.slotView := by
    unfold slotView slotOf
    rw [hslots]
  obtain ⟨used, hc, hlisted⟩ := (h.get p.contentName).listed
  rw [get_snd] at hc hlisted
  refine ⟨⟨_, hm.save p alloc⟩, used, ?_, ?_⟩
  · rw [cache_save_of_refused hrefused]
    exact hc
  · rw [cache_save_of_refused hrefused, hview]
    exact hlisted

/-- A save with room. -/
theorem ListedAs.save_of_room (h : ListedAs l store) (inPsram : Bool)
    (hroom : l.length < caps.csEntries) :
    ListedAs (RecencyList.store p.contentName (p.content, inPsram) l)
      (store.save p (some inPsram)) := by
  obtain ⟨m, hm⟩ := h.map
  rw [h.length_eq, hm.size_eq] at hroom
  obtain ⟨s, hstored⟩ := hm.storedAt p inPsram hroom
  obtain ⟨used, hc, rfl⟩ := h.listed
  have hx := hm.sound.chained
  have hindex := FixedSizeLRUCache.index_get p.contentName store.cache
  have hc' := hc.get p.contentName
  have hx' : (store.cache.get p.contentName).2.index.Chained := by rw [hindex]; exact hx
  have hput : ((store.cache.get p.contentName).2.put p.contentName (s.val : Int)).1 = true := by
    rw [(FixedSizeLRUCache.index_put _ _ _).1, hindex]
    exact hstored.2.1
  have hused := hc'.put p.contentName (s.val : Int)
  rw [← cache_save_of_free inPsram hstored.1] at hused
  refine ⟨⟨_, hm.save p _⟩, _, hused, ?_⟩
  rw [cache_save_of_free inPsram hstored.1, hc'.pairs_put hx' hput, hc.pairs_get hx, store_touch]
  unfold RecencyList.store
  rw [List.map_cons, List.filter_map]
  congr 1
  · rw [Prod.map_apply, slotView_save_self hm.sound hstored]
    rfl
  · refine List.map_congr_left fun q hq => ?_
    rw [List.mem_filter] at hq
    have hname : q.1 ≠ p.contentName := by simpa using hq.2
    have hlook : store.cache.index.lookup q.1 = some q.2 := by
      rw [← hc.lookup_pairs hx, RecencyList.lookup_eq_some_iff_mem (hc.nodup_keys hx)]
      exact hq.1
    rw [Prod.map, Prod.map, slotView_save_of_ne hm.sound hstored hname hlook]

/-- **A save.** -/
theorem ListedAs.save (h : ListedAs l store) (p : CSPair) (alloc : Option Bool) :
    ListedAs (l.save caps.csEntries p.contentName p.content alloc) (store.save p alloc) := by
  unfold KeptList.save
  cases alloc with
  | none => exact h.save_of_refused (Or.inr rfl)
  | some inPsram =>
    dsimp only
    by_cases hroom : l.length < caps.csEntries
    · rw [if_pos hroom]
      exact h.save_of_room inPsram hroom
    · rw [if_neg hroom]
      obtain ⟨m, hm⟩ := h.map
      obtain ⟨filled, hfilled⟩ := hm.intact
      refine h.save_of_refused (Or.inl ?_)
      rw [hfilled.findFreePayloadSlot_eq_none_iff, ← h.length_eq]
      exact not_lt.mp hroom

end Save

end LRUContentStore

/-! ## Runs

The list after a run is a function of events and answers.  The node keeps up with it, and what it
prints at the end is the report of the list. -/

section Runs

open LRUContentStore (KeptList ListedAs ContentReport)

variable {caps : BuildCapacity} {systemConfig : SystemConfig}

/-- An event with its answer, on the list: an INTEREST answered from the store uses the name, and a
DATA that is passed on and a reading are saved. -/
def keptStep (cap : Nat) (l : KeptList) : NodeEvent × Option OutputData → KeptList
  | (.interest inputData, some out) =>
    if out.signalCode = SignalCode.toString .data then touch inputData.contentName l else l
  | (.data inputData alloc, some out) =>
    if out.signalCode = SignalCode.toString .data then
      l.save cap inputData.contentName inputData.content alloc
    else l
  | (.sensorData inputData alloc, _) => l.save cap inputData.contentName inputData.content alloc
  | (.clearCSCache, _) => []
  | _ => l

/-- The list after a run. -/
def keptList (cap : Nat) (run : List (NodeEvent × Option OutputData)) : KeptList :=
  run.foldl (keptStep cap) []

/-- **One event.** -/
theorem listedAs_step {l : KeptList} {node : NodeState caps} (h : ListedAs l node.csRepository)
    (event : NodeEvent) :
    let r := nodeStep systemConfig node event
    ListedAs (keptStep caps.csEntries l (event, r.1)) r.2.csRepository := by
  cases event with
  | interest inputData =>
    dsimp only [nodeStep, keptStep]
    rcases handleInterestReceive_cases systemConfig inputData node with
      ⟨-, hr⟩ | ⟨-, -, hout, hr⟩ | ⟨-, -, hne, hcs, -⟩
    · rw [hr, if_neg (invalidOutput_ne_data _)]
      exact h
    · rw [hr, if_pos (by rw [hout]; rfl)]
      exact h.get inputData.contentName
    · rw [if_neg hne, hcs]
      exact h
  | data inputData alloc =>
    dsimp only [nodeStep, keptStep]
    rcases handleDataReceive_cases inputData alloc node with ⟨-, hr⟩ | ⟨-, hout, -, hcs⟩
    · rw [hr, if_neg (invalidOutput_ne_data _)]
      exact h
    · rw [if_pos (by rw [hout]; rfl), hcs]
      exact h.save ⟨inputData.contentName, inputData.content⟩ alloc
  | sensorData inputData alloc => exact h.save ⟨inputData.contentName, inputData.content⟩ alloc
  | initFIBEntry => exact h
  | clearCSCache => exact h.clear
  | clearPITCache => exact h

/-- **A run.** -/
theorem listedAs_run (caps : BuildCapacity) (systemConfig : SystemConfig)
    (events : List NodeEvent) :
    ListedAs (keptList caps.csEntries (nodeTrace caps systemConfig events))
      (nodeAfter caps systemConfig events).csRepository := by
  have hstep : ∀ run (node : NodeState caps) event,
      ListedAs (keptList caps.csEntries run) node.csRepository → True →
      ListedAs (keptList caps.csEntries (run ++ [(event, (nodeStep systemConfig node event).1)]))
        (nodeStep systemConfig node event).2.csRepository := by
    intro run node event h _
    unfold keptList
    rw [List.foldl_append]
    exact listedAs_step h event
  have hinit : ListedAs (keptList caps.csEntries []) (NodeState.init caps).csRepository :=
    ListedAs.init
  have halong : StepRun.Along (nodeStep systemConfig) (fun _ _ => True) (NodeState.init caps)
      events := StepRun.along_of_forall _ _ (fun _ _ => trivial) _ _
  exact StepRun.trace_invariant hstep hinit events halong

/-- **The report on the Content Store is faithful.**  After every run from boot, `show_cs` prints
one row for each stored name, the name that was saved or answered last first; the number of slots
and the bytes in each kind of memory are those of the contents of these names; and the store answers
a name with the content the list has for it. -/
theorem show_cs_faithful (caps : BuildCapacity) (systemConfig : SystemConfig)
    (events : List NodeEvent) {fuel : Nat} (hfuel : caps.csEntries < fuel) :
    let store := (nodeAfter caps systemConfig events).csRepository
    let l := keptList caps.csEntries (nodeTrace caps systemConfig events)
    store.showCs fuel = some (l.report caps.csEntries) ∧
      (l.map Prod.fst).Nodup ∧ l.length ≤ caps.csEntries ∧
      ∀ name, store.find name = (l.lookup name).isSome ∧
        (store.get name).1 = ((l.lookup name).map Prod.fst).getD [] := by
  intro store l
  have h : ListedAs l store := listedAs_run caps systemConfig events
  obtain ⟨m, hm⟩ := h.map
  refine ⟨h.showCs_eq hfuel, h.nodup_names, ?_, fun name => ⟨?_, ?_⟩⟩
  · rw [h.length_eq]
    exact hm.sound.chained.toWf.size_le
  · rw [← hm.sound.contentOf_isSome, h.contentOf_eq, Option.isSome_map]
  · rw [LRUContentStore.get_fst, h.contentOf_eq]

/-- Two readings in two kinds of memory, and the first one is asked for. -/
theorem show_cs_faithful_two_readings :
    let a := ascii ['/', 'a']
    let b := ascii ['/', 'b']
    (nodeAfter (.uniform 2 (by decide)) {} [.sensorData (.dataFor a (ascii ['1'])) (some false),
        .sensorData (.dataFor b (ascii ['2', '2'])) (some true),
        .interest (.interestFor a (ascii ['x']))]).csRepository.showCs 3
      = some {
        listing := { currentSize := 2, maxSize := 2, rows := [⟨0, a⟩, ⟨1, b⟩] }
        stats := { usedSlots := 2, heapBytes := 1, psramBytes := 2 }
        capacity := 2 } :=
  (show_cs_faithful _ _ _ (by decide)).1.trans (by decide)

end Runs

end Icsn
