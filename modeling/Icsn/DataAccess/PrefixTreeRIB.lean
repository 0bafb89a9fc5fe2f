import Icsn.DataAccess.LRUForwardingInformationBase
import Mathlib.Data.List.AList

/-!
# Icsn — the routing table that fills the forwarding table

`PrefixTreeRIB.cpp`.  The RIB keeps every route with its next hops and mirrors it into the FIB it
refers to: a route of depth at most `maxVirtualDepth` as a real entry, a deeper one as a real entry
and a virtual entry at its prefix of depth `maxVirtualDepth`.
-/

namespace Icsn

structure RIBEntry (caps : BuildCapacity) where
  nextHopIds : FixedNodeIdSet caps.ribNextHopsPerNode caps.nodeIdMaxChars := .empty
  isReal : Bool := false
deriving DecidableEq

/-- The RIB with the FIB it refers to. -/
structure PrefixTreeRIB (caps : BuildCapacity) (T : Type) where
  fibRepository : T
  tree : AList (fun _ : Str => RIBEntry caps) := ∅

namespace PrefixTreeRIB

variable {caps : BuildCapacity} {T : Type} [Table T Str (FIBEntry caps)]

open LRUForwardingInformationBase (save saveVirtualEntry remove)

def extractPrefix (name : Str) (prefixDepth : Int) : Str :=
  extractPrefixLoop name prefixDepth name 0 0

/-- The FIB writes of `addRoute`. -/
def installRoute (maxVirtualDepth : Int) (contentName nextHopId : Str) (fib : T) : T :=
  let fibPair : FIBPair := { contentName, destinationId := .singleton nextHopId }
  if nameDepth contentName ≤ maxVirtualDepth then save fibPair fib
  else
    let virtualPrefix := extractPrefix contentName maxVirtualDepth
    save fibPair (saveVirtualEntry virtualPrefix (nameDepth contentName) fib)

def addRoute (maxVirtualDepth : Int) (contentName nextHopId : Str) (rib : PrefixTreeRIB caps T) :
    PrefixTreeRIB caps T :=
  if contentName ∉ rib.tree ∧ caps.ribEntries ≤ rib.tree.keys.length then rib
  else
    -- `tree[contentName]` makes an entry for a new name
    let node := (rib.tree.lookup contentName).getD {}
    let node := { node with isReal := true, nextHopIds := (node.nextHopIds.insert nextHopId).2 }
    -- the FIB is written also when the next hop found no room in the entry
    { tree := rib.tree.insert contentName node
      fibRepository := installRoute maxVirtualDepth contentName nextHopId rib.fibRepository }

/-- Some route of the tree is deeper than `maxVirtualDepth` and lies under the prefix. -/
def prefixStillNeeded (maxVirtualDepth : Int) (virtualPrefix : Str)
    (tree : AList (fun _ : Str => RIBEntry caps)) : Bool :=
  tree.keys.any fun name =>
    nameDepth name > maxVirtualDepth ∧ extractPrefix name maxVirtualDepth = virtualPrefix

def removeRoute (maxVirtualDepth : Int) (contentName : Str) (rib : PrefixTreeRIB caps T) :
    PrefixTreeRIB caps T :=
  let tree := rib.tree.erase contentName
  let fib := remove contentName rib.fibRepository
  if nameDepth contentName > maxVirtualDepth then
    let virtualPrefix := extractPrefix contentName maxVirtualDepth
    -- only deeper routes are asked for, not whether the prefix is a route itself
    if prefixStillNeeded maxVirtualDepth virtualPrefix tree then { tree, fibRepository := fib }
    else { tree, fibRepository := remove virtualPrefix fib }
  else { tree, fibRepository := fib }

end PrefixTreeRIB

/-! ## Runs

The calls that the rest of the firmware makes on RIB and FIB.  `find` and `get` are those of the
FIB. -/

/-- The calls that read or change the routes. -/
inductive RouteOp where
  | addRoute (contentName nextHopId : Str)
  | removeRoute (contentName : Str)
  | find (contentName : Str)
  | get (contentName : Str)
deriving DecidableEq

/-- What a call returns. -/
inductive RouteAnswer where
  | done
  | found (hit : Bool)
  | nextHops (ids : StdSet)
deriving DecidableEq

/-- One call. -/
def routeStep {caps : BuildCapacity} {T : Type} [Table T Str (FIBEntry caps)]
    (maxVirtualDepth : Int) (rib : PrefixTreeRIB caps T) :
    RouteOp → RouteAnswer × PrefixTreeRIB caps T
  | .addRoute contentName nextHopId => (.done, rib.addRoute maxVirtualDepth contentName nextHopId)
  | .removeRoute contentName => (.done, rib.removeRoute maxVirtualDepth contentName)
  | .find contentName =>
    let r := LRUForwardingInformationBase.find maxVirtualDepth contentName rib.fibRepository
    (.found r.1, { rib with fibRepository := r.2 })
  | .get contentName =>
    let r := LRUForwardingInformationBase.get maxVirtualDepth contentName rib.fibRepository
    (.nextHops r.1, { rib with fibRepository := r.2 })

end Icsn
