import Icsn.DataAccess.ForwardingReads
import Icsn.DataAccess.LRUPendingInterestTable
import Icsn.DataAccess.LRUContentStore

/-!
# Icsn — the node's handlers

`UseCaseInteractor.cpp`: what a node does with an INTEREST, a DATA and a reading of its own sensor,
over its four tables.

* **`nodeStep`** — one event on a node: a packet, a reading, a route, or the clearing of a table.
* **`handleInterestReceive_cases`** / **`handleDataReceive_cases`** — everything a handler can do,
  for the proofs over runs.
-/

namespace Icsn

/-! ## Messages

What the controller hands over and gets back.  The signal code is a text in both, which the handlers
write and the controller reads again. -/

inductive SignalCode where
  | interest
  | data
  | invalid
deriving DecidableEq

namespace SignalCode

def toString : SignalCode → Str
  | .interest => ascii ['I', 'N', 'T', 'E', 'R', 'E', 'S', 'T']
  | .data => ascii ['D', 'A', 'T', 'A']
  | .invalid => ascii ['I', 'N', 'V', 'A', 'L', 'I', 'D']

def fromString (s : Str) : SignalCode :=
  if s = toString .interest then .interest
  else if s = toString .data then .data
  else .invalid

theorem toString_injective : Function.Injective toString := by
  intro a b h
  cases a <;> cases b <;> first | rfl | exact absurd h (by decide)

/-- A text that is read as a code other than INVALID is that code's. -/
theorem eq_toString {s : Str} {code : SignalCode} (h : fromString s = code)
    (hvalid : code ≠ .invalid) : s = toString code := by
  unfold fromString at h
  split at h
  · next hs => rw [hs, ← h]
  · split at h
    · next hs => rw [hs, ← h]
    · exact absurd h.symm hvalid

end SignalCode

def valueNA : Str := ascii ['N', '/', 'A']

structure InputData where
  senderId : Str
  destId : StdSet
  signalCode : Str
  hopCount : Int
  contentName : Str
  content : Str
deriving DecidableEq

/-- An INTEREST for a name, fresh from its sender. -/
def InputData.interestFor (name senderId : Str) : InputData :=
  { senderId, destId := .singleton valueNA, signalCode := SignalCode.toString .interest,
    hopCount := 0, contentName := name, content := valueNA }

/-- A DATA, or a reading, for a name. -/
def InputData.dataFor (name content : Str) : InputData :=
  { senderId := valueNA, destId := .singleton valueNA, signalCode := SignalCode.toString .data,
    hopCount := 0, contentName := name, content }

structure OutputData where
  senderId : Str
  destId : StdSet
  signalCode : Str
  hopCount : Int
  contentName : Str
  content : Str
deriving DecidableEq

def makeOutput (dest : Str) (destId : StdSet) (signal : Str) (hopCount : Int) (contentName : Str)
    (contentValue : Str) : OutputData :=
  { senderId := dest, destId, signalCode := signal, hopCount, contentName, content := contentValue }

/-! ## The node

The handlers touch their tables in the order of the source, which decides what a dropped packet
leaves behind: an INTEREST is in the PIT before its route is looked for. -/

/-- The four tables.  The RIB holds the FIB it refers to. -/
structure NodeState (caps : BuildCapacity) where
  ribRepository : NodeRIB caps
  pitRepository : LRUPendingInterestTable caps
  csRepository : LRUContentStore caps

namespace NodeState

variable {caps : BuildCapacity}

/-- The tables after boot. -/
def init (caps : BuildCapacity) : NodeState caps where
  ribRepository := .init caps
  pitRepository := .init
  csRepository := .init

/-- The FIB. -/
def fibRepository (node : NodeState caps) : NodeFIB caps := node.ribRepository.fibRepository

/-- The node with another FIB. -/
def setFib (node : NodeState caps) (fib : NodeFIB caps) : NodeState caps :=
  { node with ribRepository := { node.ribRepository with fibRepository := fib } }

end NodeState

section Handlers

variable {caps : BuildCapacity} (systemConfig : SystemConfig)

/-- The answer of a dropped packet. -/
def invalidOutput (hopCount : Int) : OutputData :=
  makeOutput valueNA (.singleton valueNA) (SignalCode.toString .invalid) hopCount valueNA valueNA

/-- `handleInterestReceive`.  The first member of `destId` is read without a check; the callers
always give one. -/
def handleInterestReceive (inputData : InputData) (node : NodeState caps) :
    OutputData × NodeState caps :=
  let hop := inputData.hopCount + 1
  if hop ≥ systemConfig.hopCountThreshold then (invalidOutput hop, node)
  else
    let name := inputData.contentName
    let self := inputData.destId.begin?.getD []
    if node.csRepository.find name = true then
      let res := node.csRepository.get name
      -- a fresh DATA packet: its hop count starts at 0
      (makeOutput self (.singleton inputData.senderId) (SignalCode.toString .data) 0 name res.1,
        { node with csRepository := res.2 })
    else
      -- the requester is saved before the route is known to exist
      let pit := LRUPendingInterestTable.save
        { contentName := name, destinationId := .singleton inputData.senderId } node.pitRepository
      let node := { node with pitRepository := pit }
      let found := LRUForwardingInformationBase.find systemConfig.maxVirtualDepth name
        node.fibRepository
      let node := node.setFib found.2
      if found.1 = true then
        let nextHops := LRUForwardingInformationBase.get systemConfig.maxVirtualDepth name
          node.fibRepository
        (makeOutput self nextHops.1 (SignalCode.toString .interest) hop name inputData.content,
          node.setFib nextHops.2)
      else (invalidOutput hop, node)

def handleDataReceive (inputData : InputData) (alloc : Option Bool) (node : NodeState caps) :
    OutputData × NodeState caps :=
  let hop := inputData.hopCount + 1
  let name := inputData.contentName
  if LRUPendingInterestTable.find name node.pitRepository = true then
    -- the requesters are read before the entry is removed
    let requesters := LRUPendingInterestTable.get name node.pitRepository
    let pit := LRUPendingInterestTable.remove name requesters.2
    let cs := node.csRepository.save { contentName := name, content := inputData.content } alloc
    let origin := inputData.destId.begin?.getD valueNA
    (makeOutput origin requesters.1 (SignalCode.toString .data) hop name inputData.content,
      { node with pitRepository := pit, csRepository := cs })
  else (invalidOutput hop, node)

def handleSensorDataReceive (inputData : InputData) (alloc : Option Bool) (node : NodeState caps) :
    NodeState caps :=
  let csPair : CSPair := { contentName := inputData.contentName, content := inputData.content }
  { node with csRepository := node.csRepository.save csPair alloc }

def initFIBEntry (contentName nextHopMac : Str) (node : NodeState caps) : NodeState caps :=
  { node with ribRepository :=
      node.ribRepository.addRoute systemConfig.maxVirtualDepth contentName nextHopMac }

def clearCSCache (node : NodeState caps) : NodeState caps :=
  { node with csRepository := node.csRepository.clear }

def clearPITCache (node : NodeState caps) : NodeState caps :=
  { node with pitRepository := LRUPendingInterestTable.clear node.pitRepository }

end Handlers

/-! ## Runs

All events on a node as one step function, with the answer as its output.  The use of memory is an
input of the events that save content. -/

/-- An event on a node.  A DATA and a reading come with the outcome of the memory allocation their
caching may ask for. -/
inductive NodeEvent where
  | interest (inputData : InputData)
  | data (inputData : InputData) (alloc : Option Bool)
  | sensorData (inputData : InputData) (alloc : Option Bool)
  | initFIBEntry (contentName nextHopMac : Str)
  | clearCSCache
  | clearPITCache
deriving DecidableEq

/-- One event, with the packet the handler answers, if it answers one. -/
def nodeStep {caps : BuildCapacity} (systemConfig : SystemConfig) (node : NodeState caps) :
    NodeEvent → Option OutputData × NodeState caps
  | .interest inputData =>
    let r := handleInterestReceive systemConfig inputData node
    (some r.1, r.2)
  | .data inputData alloc =>
    let r := handleDataReceive inputData alloc node
    (some r.1, r.2)
  | .sensorData inputData alloc => (none, handleSensorDataReceive inputData alloc node)
  | .initFIBEntry contentName nextHopMac =>
    (none, initFIBEntry systemConfig contentName nextHopMac node)
  | .clearCSCache => (none, clearCSCache node)
  | .clearPITCache => (none, clearPITCache node)

/-- The events and answers of a run from boot. -/
abbrev nodeTrace (caps : BuildCapacity) (systemConfig : SystemConfig) (events : List NodeEvent) :
    List (NodeEvent × Option OutputData) :=
  StepRun.trace (nodeStep systemConfig) (NodeState.init caps) events

/-- The node after a run from boot. -/
abbrev nodeAfter (caps : BuildCapacity) (systemConfig : SystemConfig) (events : List NodeEvent) :
    NodeState caps :=
  StepRun.after (nodeStep systemConfig) (NodeState.init caps) events

/-! ## What the handlers do

The ways through each handler, with their conditions and everything they change.  Proofs over runs
start from these. -/

section Cases

variable {caps : BuildCapacity} {systemConfig : SystemConfig} {inputData : InputData}
  {node : NodeState caps}

/-- A dropped packet is no DATA. -/
theorem invalidOutput_ne_data (hop : Int) :
    (invalidOutput hop).signalCode ≠ SignalCode.toString .data := by
  show SignalCode.toString .invalid ≠ SignalCode.toString .data
  decide

/-- **The three ways of an INTEREST**: dropped at the hop limit with nothing touched; answered from
the Content Store; saved in the PIT and then forwarded, or dropped for lack of a route. -/
theorem handleInterestReceive_cases (systemConfig : SystemConfig) (inputData : InputData)
    (node : NodeState caps) :
    let r := handleInterestReceive systemConfig inputData node
    (inputData.hopCount + 1 ≥ systemConfig.hopCountThreshold ∧
      r = (invalidOutput (inputData.hopCount + 1), node)) ∨
    (inputData.hopCount + 1 < systemConfig.hopCountThreshold ∧
      node.csRepository.find inputData.contentName = true ∧
      r.1 = makeOutput (inputData.destId.begin?.getD []) (.singleton inputData.senderId)
        (SignalCode.toString .data) 0 inputData.contentName
        (node.csRepository.get inputData.contentName).1 ∧
      r.2 = { node with csRepository := (node.csRepository.get inputData.contentName).2 }) ∨
    (inputData.hopCount + 1 < systemConfig.hopCountThreshold ∧
      node.csRepository.find inputData.contentName = false ∧
      r.1.signalCode ≠ SignalCode.toString .data ∧
      r.2.csRepository = node.csRepository ∧
      r.2.pitRepository = LRUPendingInterestTable.save
        { contentName := inputData.contentName, destinationId := .singleton inputData.senderId }
        node.pitRepository) := by
  intro r
  by_cases hhop : inputData.hopCount + 1 ≥ systemConfig.hopCountThreshold
  · exact Or.inl ⟨hhop, if_pos hhop⟩
  · right
    have hr : r = _ := if_neg hhop
    rw [not_le] at hhop
    cases hfind : node.csRepository.find inputData.contentName with
    | true =>
      rw [hfind, if_pos rfl] at hr
      exact Or.inl ⟨hhop, rfl, by rw [hr], by rw [hr]⟩
    | false =>
      rw [hfind, if_neg (by simp)] at hr
      refine Or.inr ⟨hhop, rfl, ?_⟩
      rw [hr]
      dsimp only
      -- with a route or without one, the sender is in the PIT
      split
      · refine ⟨?_, rfl, rfl⟩
        show SignalCode.toString .interest ≠ SignalCode.toString .data
        decide
      · exact ⟨invalidOutput_ne_data _, rfl, rfl⟩

/-- **The two ways of an INTEREST that misses the Content Store**: forwarded to the next hops of its
route, or dropped, with the requester saved in both. -/
theorem handleInterestReceive_of_miss
    (hhop : inputData.hopCount + 1 < systemConfig.hopCountThreshold)
    (hmiss : node.csRepository.find inputData.contentName = false) :
    let r := handleInterestReceive systemConfig inputData node
    let found := LRUForwardingInformationBase.find systemConfig.maxVirtualDepth
      inputData.contentName node.fibRepository
    let nextHops := LRUForwardingInformationBase.get systemConfig.maxVirtualDepth
      inputData.contentName found.2
    let pit := LRUPendingInterestTable.save
      { contentName := inputData.contentName, destinationId := .singleton inputData.senderId }
      node.pitRepository
    let saved : NodeState caps := { node with pitRepository := pit }
    (found.1 = true ∧ r = (makeOutput (inputData.destId.begin?.getD []) nextHops.1
      (SignalCode.toString .interest) (inputData.hopCount + 1) inputData.contentName
      inputData.content, (saved.setFib found.2).setFib nextHops.2)) ∨
    (found.1 = false ∧
      r = (invalidOutput (inputData.hopCount + 1), saved.setFib found.2)) := by
  intro r found nextHops pit saved
  have hr : r = _ := if_neg (not_le.mpr hhop)
  dsimp only at hr
  rw [hmiss, if_neg (by decide)] at hr
  cases hfound : found.1 with
  | true => exact Or.inl ⟨rfl, hr.trans (if_pos hfound)⟩
  | false =>
    have hnoroute : ¬ found.1 = true := by rw [hfound]; decide
    exact Or.inr ⟨rfl, hr.trans (if_neg hnoroute)⟩

/-- **The two ways of a DATA**: dropped with nothing touched, or taken out of the PIT, cached and
forwarded to the requesters. -/
theorem handleDataReceive_cases (inputData : InputData) (alloc : Option Bool)
    (node : NodeState caps) :
    let r := handleDataReceive inputData alloc node
    (LRUPendingInterestTable.find inputData.contentName node.pitRepository = false ∧
      r = (invalidOutput (inputData.hopCount + 1), node)) ∨
    (LRUPendingInterestTable.find inputData.contentName node.pitRepository = true ∧
      r.1 = makeOutput (inputData.destId.begin?.getD valueNA)
        (LRUPendingInterestTable.get inputData.contentName node.pitRepository).1
        (SignalCode.toString .data) (inputData.hopCount + 1) inputData.contentName
        inputData.content ∧
      r.2.pitRepository = LRUPendingInterestTable.remove inputData.contentName
        (LRUPendingInterestTable.get inputData.contentName node.pitRepository).2 ∧
      r.2.csRepository = node.csRepository.save
        { contentName := inputData.contentName, content := inputData.content } alloc) := by
  intro r
  cases hfind : LRUPendingInterestTable.find inputData.contentName node.pitRepository with
  | true => exact Or.inr ⟨rfl, by simp only [r, handleDataReceive, hfind, if_true, and_self]⟩
  | false => exact Or.inl ⟨rfl, by simp [r, handleDataReceive, hfind]⟩

end Cases

end Icsn
