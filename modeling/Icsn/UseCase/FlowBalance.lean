import Icsn.DataAccess.CacheTotals
import Icsn.UseCase.PendingRequesters

/-!
# Icsn — at most one DATA for an INTEREST

Every DATA sent to a requester uses up an INTEREST of that requester: an answer from the Content
Store the INTEREST that asked, a forwarded DATA a copy of the requester in the PIT.  The PIT may
hold several entries for one name (the hash index loses entries when another name is removed), so
what is counted is the number of entries.

* **`pendingCopies`** / **`pendingEntries`** — how many entries for a name list a requester, and how
  many there are.
* **`flow_step`** — DATA sent and copies pending grow by no more than the INTERESTs received.
* **`flow_balance`** — over every run from empty tables.
-/

namespace Icsn

/-! ## What a node was asked, and what it sent

Both sides of the balance are counted over the trace of a run, for one name and one requester. -/

variable {caps : BuildCapacity} {systemConfig : SystemConfig}

/-- The ids of the network: C strings that fit the tables. -/
def IsNodeId (caps : BuildCapacity) (id : Str) : Prop :=
  id ≠ [] ∧ (0 : UInt8) ∉ id ∧ id.length ≤ caps.nodeIdMaxChars

instance (id : Str) : Decidable (IsNodeId caps id) := inferInstanceAs (Decidable (_ ∧ _))

/-- The event is an INTEREST for the name. -/
def asksFor (name : Str) : NodeEvent → Bool
  | .interest inputData => decide (inputData.contentName = name)
  | _ => false

/-- The event is an INTEREST for the name from the sender. -/
def asksFrom (name senderId : Str) : NodeEvent → Bool
  | .interest inputData => decide (inputData.contentName = name ∧ inputData.senderId = senderId)
  | _ => false

/-- The answer is a DATA for the name that goes to the node. -/
def sendsDataTo (name id : Str) : Option OutputData → Bool
  | some out => decide
      (out.signalCode = SignalCode.toString .data ∧ out.contentName = name ∧ id ∈ out.destId)
  | none => false

/-- The number of INTERESTs for the name from the sender. -/
def interestsFrom (name senderId : Str) (run : List (NodeEvent × Option OutputData)) : Nat :=
  run.countP fun e => asksFrom name senderId e.1

/-- The number of DATA for the name that went to the node. -/
def dataSentTo (name id : Str) (run : List (NodeEvent × Option OutputData)) : Nat :=
  run.countP fun e => sendsDataTo name id e.2

/-- An entry for the name that lists the requester. -/
def listsRequester (name id key : Str) (requesters : RequesterSet caps) : Bool :=
  decide (key = name ∧ id ∈ requesters.ids)

/-- The entries for the name that list the requester. -/
def pendingCopies (name id : Str) (pit : LRUPendingInterestTable caps) : Nat :=
  pit.index.countWhere (listsRequester name id)

/-- The entries for the name. -/
def pendingEntries (name : Str) (pit : LRUPendingInterestTable caps) : Nat :=
  pit.index.countWhere fun key _ => decide (key = name)

/-- The INTERESTs of the run come from ids of the network. -/
def SenderIsNodeId (caps : BuildCapacity) : NodeEvent → Prop
  | .interest inputData => IsNodeId caps inputData.senderId
  | _ => True

instance : ∀ event, Decidable (SenderIsNodeId caps event)
  | .interest inputData => inferInstanceAs (Decidable (IsNodeId caps inputData.senderId))
  | .data _ _ | .sensorData _ _ | .initFIBEntry _ _ | .clearCSCache | .clearPITCache =>
    inferInstanceAs (Decidable True)

/-! ## One event

What is pending counts entries that list the requester, found or not.  An INTEREST adds one at most,
or is answered at once; a DATA takes one out for each requester it goes to. -/

open LRUPendingInterestTable (index_save index_remove find_eq)

/-- Saving a requester adds a copy of it alone. -/
theorem lists_merged_le (name id contentName : Str) {senderId : Str}
    (hsender : IsNodeId caps senderId) (existing : Option (RequesterSet caps)) :
    max (listsRequester name id contentName
        (LRUPendingInterestTable.mergedDestinations existing (.singleton senderId))).toNat
      (existing.any (listsRequester name id contentName)).toNat
      ≤ (existing.any (listsRequester name id contentName)).toNat
        + (decide (contentName = name ∧ senderId = id)).toNat := by
  cases hnew : listsRequester name id contentName
      (LRUPendingInterestTable.mergedDestinations existing (.singleton senderId)) with
  | false =>
    show max 0 _ ≤ _
    omega
  | true =>
    obtain ⟨hname, hmem⟩ := of_decide_eq_true hnew
    rcases LRUPendingInterestTable.mem_or_eq_of_mem_merged hmem with ⟨old, rfl, hold⟩ | heq
    · -- a requester that was listed before
      have hlists : listsRequester name id contentName old = true := decide_eq_true ⟨hname, hold⟩
      rw [Option.any_some, hlists]
      exact Nat.le_add_right _ _
    · -- the sender of this INTEREST
      rw [FixedNodeIdSet.stored_of_isCString ⟨hsender.2.2, hsender.2.1⟩] at heq
      rw [decide_eq_true ⟨hname, heq.symm⟩]
      have hle := Bool.toNat_le (existing.any (listsRequester name id contentName))
      show max 1 _ ≤ _ + 1
      omega

theorem sendsDataTo_of_ne_data {name id : Str} {out : OutputData}
    (h : out.signalCode ≠ SignalCode.toString .data) : sendsDataTo name id (some out) = false :=
  decide_eq_false fun hall => h hall.1

/-- What an INTEREST sends and adds, it pays for itself. -/
theorem flow_interest {node : NodeState caps} (hwf : node.pitRepository.index.Wf)
    {inputData : InputData} (hsender : IsNodeId caps inputData.senderId) (name id : Str) :
    let r := handleInterestReceive systemConfig inputData node
    (sendsDataTo name id (some r.1)).toNat + pendingCopies name id r.2.pitRepository
      ≤ pendingCopies name id node.pitRepository
        + (decide (inputData.contentName = name ∧ inputData.senderId = id)).toNat := by
  rcases handleInterestReceive_cases systemConfig inputData node with
    ⟨-, hr⟩ | ⟨-, -, hout, hnode⟩ | ⟨-, -, hout, -, hpit⟩
  · -- dropped at the hop limit
    rw [hr]
    dsimp only
    rw [sendsDataTo_of_ne_data (invalidOutput_ne_data _), Bool.toNat_false]
    omega
  · -- answered from the Content Store, to its sender alone
    have hone : sendsDataTo name id (some (handleInterestReceive systemConfig inputData node).1)
        = decide (inputData.contentName = name ∧ inputData.senderId = id) := by
      rw [hout]
      simp [sendsDataTo, makeOutput, eq_comm]
    dsimp only
    rw [hone, hnode, Nat.add_comm]
  · -- saved in the PIT: at most one entry lists the sender that did not before
    dsimp only
    rw [sendsDataTo_of_ne_data hout, hpit, Bool.toNat_false, Nat.zero_add, pendingCopies,
      index_save]
    have hput := CacheIndex.countWhere_put_le (p := listsRequester name id) hwf
      inputData.contentName (LRUPendingInterestTable.mergedDestinations
        (node.pitRepository.index.lookup inputData.contentName) (.singleton inputData.senderId))
    have hmerged := lists_merged_le name id inputData.contentName hsender
      (node.pitRepository.index.lookup inputData.contentName)
    unfold pendingCopies
    dsimp only
    omega

/-- What a DATA sends was pending, and is not any more. -/
theorem flow_data (inputData : InputData) (alloc : Option Bool) (node : NodeState caps)
    (name id : Str) :
    let r := handleDataReceive inputData alloc node
    (sendsDataTo name id (some r.1)).toNat + pendingCopies name id r.2.pitRepository
      = pendingCopies name id node.pitRepository := by
  rcases handleDataReceive_cases inputData alloc node with ⟨-, hr⟩ | ⟨-, hout, hpit, -⟩
  · rw [hr]
    dsimp only
    rw [sendsDataTo_of_ne_data (invalidOutput_ne_data _), Bool.toNat_false, Nat.zero_add]
  · -- forwarded to the requesters of the entry that is removed
    have hsent : sendsDataTo name id (some (handleDataReceive inputData alloc node).1)
        = (node.pitRepository.index.lookup inputData.contentName).any
          (listsRequester name id inputData.contentName) := by
      rw [hout, LRUPendingInterestTable.get_fst]
      cases node.pitRepository.index.lookup inputData.contentName <;>
        simp [sendsDataTo, makeOutput, listsRequester]
    have hremove := CacheIndex.countWhere_remove (p := listsRequester name id)
      (x := node.pitRepository.index) inputData.contentName
    dsimp only
    rw [hsent, hpit, pendingCopies, index_remove, LRUPendingInterestTable.index_get]
    unfold pendingCopies
    omega

/-- **One event**: a DATA sent and a copy added are paid for by an INTEREST or by a copy removed. -/
theorem flow_step (systemConfig : SystemConfig) {node : NodeState caps}
    (hwf : node.pitRepository.index.Wf) {event : NodeEvent}
    (hsender : SenderIsNodeId caps event) (name id : Str) :
    let r := nodeStep systemConfig node event
    (sendsDataTo name id r.1).toNat + pendingCopies name id r.2.pitRepository
      ≤ pendingCopies name id node.pitRepository + (asksFrom name id event).toNat := by
  cases event with
  | interest inputData => exact flow_interest hwf hsender name id
  | data inputData alloc => exact Nat.le_of_eq (flow_data inputData alloc node name id)
  | sensorData => exact Nat.le_of_eq (Nat.zero_add _)
  | initFIBEntry => exact Nat.le_of_eq (Nat.zero_add _)
  | clearCSCache => exact Nat.le_of_eq (Nat.zero_add _)
  | clearPITCache =>
    have hclear : pendingCopies name id (clearPITCache node).pitRepository = 0 := by
      show CacheIndex.countWhere _ (FixedSizeLRUCache.clear node.pitRepository).index = 0
      rw [FixedSizeLRUCache.index_clear, CacheIndex.countWhere_clear]
    show 0 + pendingCopies name id (clearPITCache node).pitRepository ≤ _
    rw [hclear]
    exact Nat.zero_le _

/-- An entry for a name comes from an INTEREST for it. -/
theorem entries_step (systemConfig : SystemConfig) {node : NodeState caps}
    (hwf : node.pitRepository.index.Wf) (event : NodeEvent) (name : Str) :
    pendingEntries name (nodeStep systemConfig node event).2.pitRepository
      ≤ pendingEntries name node.pitRepository + (asksFor name event).toNat := by
  unfold pendingEntries
  rcases pitIndex_step node event with
    h | ⟨inputData, rfl, h⟩ | ⟨inputData, alloc, rfl, h⟩ | ⟨rfl, h⟩
  · rw [h]; exact Nat.le_add_right _ _
  · have hput := CacheIndex.countWhere_put_le (p := fun key _ => decide (key = name)) hwf
      inputData.contentName (LRUPendingInterestTable.mergedDestinations
        (node.pitRepository.index.lookup inputData.contentName) (.singleton inputData.senderId))
    rw [h]
    show _ ≤ _ + (decide (inputData.contentName = name)).toNat
    cases hlook : node.pitRepository.index.lookup inputData.contentName with
    | none =>
      rw [hlook, Option.any_none, Bool.toNat_false, Nat.max_zero] at hput
      exact hput
    | some requesters =>
      rw [hlook, Option.any_some] at hput
      omega
  · have hremove := CacheIndex.countWhere_remove (p := fun key _ => decide (key = name))
      (x := node.pitRepository.index) inputData.contentName
    rw [h]
    omega
  · rw [h, CacheIndex.countWhere_clear]
    exact Nat.zero_le _

/-! ## The run

The balance is kept by every event, from empty tables on.  What remains is to drop the copies still
pending. -/

/-- The balance of a run: what was sent and what is pending against what was asked. -/
structure Balanced (run : List (NodeEvent × Option OutputData)) (node : NodeState caps) : Prop where
  wf : node.pitRepository.index.Wf
  flow : ∀ name id, dataSentTo name id run + pendingCopies name id node.pitRepository
    ≤ interestsFrom name id run
  asked : ∀ name, pendingEntries name node.pitRepository
    ≤ run.countP fun e => asksFor name e.1

theorem balanced_init : Balanced [] (NodeState.init caps) where
  wf := CacheIndex.wf_init
  flow name id := by
    show 0 + CacheIndex.countWhere _ (FixedSizeLRUCache.init).index ≤ 0
    rw [FixedSizeLRUCache.index_init, CacheIndex.countWhere_init]
  asked name := by
    show CacheIndex.countWhere _ (FixedSizeLRUCache.init).index ≤ 0
    rw [FixedSizeLRUCache.index_init, CacheIndex.countWhere_init]

theorem balanced_step {run : List (NodeEvent × Option OutputData)} {node : NodeState caps}
    {event : NodeEvent} (hrun : Balanced run node) (hsender : SenderIsNodeId caps event) :
    Balanced (run ++ [(event, (nodeStep systemConfig node event).1)])
      (nodeStep systemConfig node event).2 where
  wf := pitWf_step hrun.wf event
  flow name id := by
    have hstep := flow_step systemConfig hrun.wf hsender name id
    have hbefore := hrun.flow name id
    unfold dataSentTo interestsFrom at *
    rw [List.countP_append, List.countP_append, List.countP_singleton, List.countP_singleton]
    cases hsent : sendsDataTo name id (nodeStep systemConfig node event).1 <;>
      cases hasked : asksFrom name id event <;>
      simp only [hsent, hasked, Bool.toNat_true, Bool.toNat_false, if_true, if_false,
        Bool.false_eq_true] at hstep ⊢ <;>
      omega
  asked name := by
    have hstep := entries_step systemConfig hrun.wf event name
    have hbefore := hrun.asked name
    rw [List.countP_append, List.countP_singleton]
    cases hasked : asksFor name event <;>
      simp only [hasked, Bool.toNat_true, Bool.toNat_false, if_true, if_false,
        Bool.false_eq_true] at hstep ⊢ <;>
      omega

theorem balanced_run (caps : BuildCapacity) (systemConfig : SystemConfig)
    {events : List NodeEvent} (hids : ∀ event ∈ events, SenderIsNodeId caps event) :
    Balanced (nodeTrace caps systemConfig events) (nodeAfter caps systemConfig events) :=
  StepRun.trace_invariant (fun _ _ _ => balanced_step) balanced_init events
    (StepRun.along_of_forall_mem _ hids _)

/-- **Flow balance.**  A node sends a requester no more DATA for a name than it received INTERESTs
for the name from it, and drops a DATA nobody asked for without a trace. -/
theorem flow_balance (caps : BuildCapacity) (systemConfig : SystemConfig) (events : List NodeEvent)
    (hids : ∀ event ∈ events, SenderIsNodeId caps event) :
    (∀ name id, dataSentTo name id (nodeTrace caps systemConfig events)
      ≤ interestsFrom name id (nodeTrace caps systemConfig events)) ∧
    ∀ (reply : InputData) (alloc : Option Bool),
      (∀ event ∈ events, asksFor reply.contentName event = false) →
      handleDataReceive reply alloc (nodeAfter caps systemConfig events)
        = (invalidOutput (reply.hopCount + 1), nodeAfter caps systemConfig events) := by
  have hrun := balanced_run caps systemConfig hids
  refine ⟨fun name id => (Nat.le_add_right _ _).trans (hrun.flow name id), ?_⟩
  intro reply alloc hnever
  rcases handleDataReceive_cases reply alloc (nodeAfter caps systemConfig events) with
    ⟨-, hdrop⟩ | ⟨hfound, -⟩
  · exact hdrop
  · rw [find_eq] at hfound
    obtain ⟨requesters, hlook⟩ := Option.isSome_iff_exists.mp hfound
    have hpos := CacheIndex.countWhere_pos_of_lookup
      (p := fun key _ => decide (key = reply.contentName)) hlook (decide_eq_true rfl)
    -- no INTEREST for the name was received, so the PIT holds no entry for it
    have hnone : (nodeTrace caps systemConfig events).countP
        (fun e => asksFor reply.contentName e.1) = 0 := by
      apply List.countP_eq_zero.mpr
      intro e he
      have hevent : e.1 ∈ events := by
        rw [← StepRun.map_fst_trace (nodeStep systemConfig) (NodeState.init caps) events]
        exact List.mem_map_of_mem he
      rw [hnever e.1 hevent]
      decide
    have hasked := hrun.asked reply.contentName
    unfold pendingEntries at hasked
    omega

/-- x asks twice and y once for /a; two DATA for /a come in. -/
theorem flow_balance_two_requesters :
    let caps := BuildCapacity.uniform 2 (by decide)
    let events : List NodeEvent := [.initFIBEntry (ascii ['/', 'a']) (ascii ['z']),
      .interest (.interestFor (ascii ['/', 'a']) (ascii ['x'])),
      .interest (.interestFor (ascii ['/', 'a']) (ascii ['y'])),
      .data (.dataFor (ascii ['/', 'a']) (ascii ['1'])) none,
      .data (.dataFor (ascii ['/', 'a']) (ascii ['2'])) none,
      .interest (.interestFor (ascii ['/', 'a']) (ascii ['x']))]
    (∀ name id, dataSentTo name id (nodeTrace caps {} events)
      ≤ interestsFrom name id (nodeTrace caps {} events)) ∧
    ∀ (reply : InputData) (alloc : Option Bool),
      (∀ event ∈ events, asksFor reply.contentName event = false) →
      handleDataReceive reply alloc (nodeAfter caps {} events)
        = (invalidOutput (reply.hopCount + 1), nodeAfter caps {} events) :=
  flow_balance _ {} _ (by decide)

end Icsn
