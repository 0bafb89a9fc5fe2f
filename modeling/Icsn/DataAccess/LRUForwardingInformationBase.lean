import Icsn.DataAccess.FixedNodeIdSet
import Icsn.Lib.BoundedMap

/-!
# Icsn — the forwarding table with two-stage lookup

`LRUForwardingInformationBase.cpp`.  An entry is real (a route) or virtual (a mark that deeper
routes exist below a prefix of depth `maxVirtualDepth`); `maximumDepth` is the depth the second
stage starts from.

The table under it is any `Table`: `FixedSizeLRUCache` on the node, the bounded map where only the
lookup algorithm is at stake.
-/

namespace Icsn

/-- `'/'`. -/
def slash : UInt8 := 0x2f

/-- `std::count(name.begin(), name.end(), '/')`. -/
def nameDepth (name : Str) : Int := name.count slash

/-- The loop of `extractPrefix`: `rest` is what is left of `name` from index `i` on. -/
def extractPrefixLoop (name : Str) (prefixDepth : Int) : Str → Nat → Nat → Str
  | [], _, _ => name
  | c :: rest, cnt, i =>
    if c = slash then
      if (cnt + 1 : Int) > prefixDepth then name.take i
      else extractPrefixLoop name prefixDepth rest (cnt + 1) (i + 1)
    else extractPrefixLoop name prefixDepth rest cnt (i + 1)

structure FIBPair where
  contentName : Str
  destinationId : StdSet

structure FIBEntry (caps : BuildCapacity) where
  isVirtual : Bool := false
  maximumDepth : Int := 0
  nodeIds : FixedNodeIdSet caps.fibNextHopsPerEntry caps.nodeIdMaxChars := .empty
deriving DecidableEq

instance (caps : BuildCapacity) : Inhabited (FIBEntry caps) := ⟨{}⟩

namespace LRUForwardingInformationBase

variable {caps : BuildCapacity}

def extractPrefix (name : Str) (prefixDepth : Int) : Str :=
  extractPrefixLoop name prefixDepth name 0 0

/-- The entry `save` writes over an existing one: its next hops grow and it becomes real. -/
def savedOver (existing : FIBEntry caps) (nodeIds : StdSet) : FIBEntry caps :=
  { existing with isVirtual := false, nodeIds := (existing.nodeIds.insertFromStdSet nodeIds).2 }

/-- The entry `save` writes for a new name. -/
def savedNew (name : Str) (nodeIds : StdSet) : FIBEntry caps :=
  { isVirtual := false
    maximumDepth := nameDepth name
    nodeIds := (FixedNodeIdSet.empty.insertFromStdSet nodeIds).2 }

/-- `chmax(existing.maximumDepth, maximumDepth)`. -/
def raisedTo (existing : FIBEntry caps) (maximumDepth : Int) : FIBEntry caps :=
  { existing with maximumDepth := max existing.maximumDepth maximumDepth }

section Operations

variable {T : Type} [Table T Str (FIBEntry caps)]

def lookupEntry (name : Str) (prefixDepth : Int) (cache : T) : Option (FIBEntry caps) × T :=
  Table.get (extractPrefix name prefixDepth) cache

/-- How stage 1 ends. -/
inductive Stage1 (caps : BuildCapacity) where
  | miss
  | hit (entry : FIBEntry caps)
  | stage2 (startPfx : Int) (fibEntry1s : FIBEntry caps)

/-- Stage 1 of `fibLpmLookup`, from `pfx` down to 1. -/
def fibLpmStage1 (name : Str) (nameDepth maxVirtualDepth : Int) :
    Nat → T → Stage1 caps × T
  | 0, cache => (.miss, cache)
  | pfx + 1, cache =>
    match lookupEntry name (pfx + 1 : Nat) cache with
    | (some fibEntry, cache) =>
      -- deeper entries exist under this prefix, and the name is deep enough to reach them
      if fibEntry.maximumDepth > maxVirtualDepth ∧ nameDepth > maxVirtualDepth then
        (.stage2 (min nameDepth fibEntry.maximumDepth) fibEntry, cache)
      else if fibEntry.isVirtual = false then (.hit fibEntry, cache)
      else fibLpmStage1 name nameDepth maxVirtualDepth pfx cache
    | (none, cache) => fibLpmStage1 name nameDepth maxVirtualDepth pfx cache

/-- Stage 2 of `fibLpmLookup`, from `pfx` down to 1. -/
def fibLpmStage2 (name : Str) (maxVirtualDepth : Int) (fibEntry1s : FIBEntry caps) :
    Nat → T → Option (FIBEntry caps) × T
  | 0, cache => (none, cache)
  | pfx + 1, cache =>
    if ((pfx + 1 : Nat) : Int) = maxVirtualDepth ∧ fibEntry1s.isVirtual = false then
      -- at depth `maxVirtualDepth` the entry stage 1 found is taken as it was then
      (some fibEntry1s, cache)
    else
      match lookupEntry name (pfx + 1 : Nat) cache with
      | (some fibEntry, cache) =>
        if fibEntry.isVirtual = false then (some fibEntry, cache)
        else fibLpmStage2 name maxVirtualDepth fibEntry1s pfx cache
      | (none, cache) => fibLpmStage2 name maxVirtualDepth fibEntry1s pfx cache

def fibLpmLookup (name : Str) (nameDepth maxVirtualDepth : Int) (cache : T) :
    Option (FIBEntry caps) × T :=
  match fibLpmStage1 name nameDepth maxVirtualDepth (min nameDepth maxVirtualDepth).toNat cache with
  | (.miss, cache) => (none, cache)
  | (.hit entry, cache) => (some entry, cache)
  | (.stage2 startPfx fibEntry1s, cache) =>
    fibLpmStage2 name maxVirtualDepth fibEntry1s startPfx.toNat cache

/-- `save`: whether the cache takes the entry is not looked at. -/
def save (fibPair : FIBPair) (cache : T) : T :=
  match Table.get fibPair.contentName cache with
  | (some existing, cache) =>
    (Table.put fibPair.contentName (savedOver existing fibPair.destinationId) cache).2
  | (none, cache) =>
    (Table.put fibPair.contentName
      (savedNew fibPair.contentName fibPair.destinationId : FIBEntry caps) cache).2

def saveVirtualEntry (name : Str) (maximumDepth : Int) (cache : T) : T :=
  match Table.get name cache with
  | (some existing, cache) => (Table.put name (raisedTo existing maximumDepth) cache).2
  | (none, cache) =>
    (Table.put name ({ isVirtual := true, maximumDepth } : FIBEntry caps) cache).2

def remove (contentName : Str) (cache : T) : T :=
  if Table.contains contentName cache then (Table.remove contentName cache).2 else cache

def find (maxVirtualDepth : Int) (contentName : Str) (cache : T) : Bool × T :=
  let found := fibLpmLookup contentName (nameDepth contentName) maxVirtualDepth cache
  (found.1.isSome, found.2)

/-- `get`: a hit is written back under the name that was looked up. -/
def get (maxVirtualDepth : Int) (contentName : Str) (cache : T) : StdSet × T :=
  match fibLpmLookup contentName (nameDepth contentName) maxVirtualDepth cache with
  | (some result, cache) => (result.nodeIds.toStdSet, (Table.put contentName result cache).2)
  | (none, cache) => (.empty, cache)

end Operations

end LRUForwardingInformationBase

end Icsn
