import Icsn.DataAccess.CacheTotals
import Icsn.UseCase.PendingRequesters

/-!
# Icsn — what a packet makes a node send

For every way a handler can go: how many packets its answer is for, and how many requesters are
left in the PIT.  An INTEREST adds one requester at most.  A DATA is sent to requesters that are
taken out, or to the one that asked; a forwarded INTEREST has one hop more and stays below the
limit.

* **`pendingRequesters`** — the requesters over all entries of the PIT.
* **`interest_traffic`** / **`data_traffic`** — the two handlers.
-/

namespace Icsn

variable {caps : BuildCapacity}

/-- The requesters over all entries of the PIT. -/
def pendingRequesters (pit : LRUPendingInterestTable caps) : Nat :=
  pit.index.total fun _ requesters => requesters.ids.length

/-- A PIT without entries. -/
structure EmptyPit (pit : LRUPendingInterestTable caps) : Prop where
  wf : pit.index.Wf
  valid_eq : ∀ i, pit.index.valid i = false

theorem EmptyPit.pendingRequesters_eq {pit : LRUPendingInterestTable caps} (h : EmptyPit pit) :
    pendingRequesters pit = 0 := CacheIndex.total_eq_zero_of_empty _ h.valid_eq

theorem emptyPit_init : EmptyPit (NodeState.init caps).pitRepository :=
  ⟨CacheIndex.wf_init, fun _ => rfl⟩

/-! ## The PIT

Requesters are counted over all entries, those a look-up misses included, as a total of the cache.
-/

namespace LRUPendingInterestTable

/-- A merge with one id adds one requester at most. -/
theorem length_merged_le (existing : Option (RequesterSet caps)) (id : Str) :
    (mergedDestinations existing (.singleton id)).ids.length
      ≤ existing.elim 0 (fun requesters => requesters.ids.length) + 1 := by
  rw [mergedDestinations_singleton]
  apply FixedNodeIdSet.length_insert_le.trans
  apply Nat.succ_le_succ
  cases existing with
  | none => exact Nat.le_refl _
  | some requesters =>
    exact (FixedNodeIdSet.length_insertAll_le .empty requesters.ids).trans_eq (Nat.zero_add _)

/-- **A save** adds one requester at most. -/
theorem pendingRequesters_save_le {pit : LRUPendingInterestTable caps} (hwf : pit.index.Wf)
    (contentName senderId : Str) :
    pendingRequesters (save { contentName, destinationId := .singleton senderId } pit)
      ≤ pendingRequesters pit + 1 := by
  have hput := CacheIndex.total_put_le (fun _ requesters => requesters.ids.length) hwf contentName
    (mergedDestinations (pit.index.lookup contentName) (.singleton senderId))
  have hmerged := length_merged_le (pit.index.lookup contentName) senderId
  unfold pendingRequesters
  rw [index_save]
  dsimp only at *
  omega

/-- **A removal** takes out the requesters that were read before. -/
theorem pendingRequesters_remove_get (contentName : Str) (pit : LRUPendingInterestTable caps) :
    (get contentName pit).1.toList.length
        + pendingRequesters (remove contentName (get contentName pit).2)
      ≤ pendingRequesters pit := by
  have hremove := CacheIndex.total_remove
    (fun _ (requesters : RequesterSet caps) => requesters.ids.length) (x := pit.index) contentName
  have hread : (get contentName pit).1.toList.length
      ≤ (pit.index.lookup contentName).elim 0 fun requesters => requesters.ids.length := by
    rw [get_fst]
    cases pit.index.lookup contentName with
    | none => exact Nat.le_refl _
    | some requesters => exact requesters.length_toStdSet_le
  unfold pendingRequesters
  rw [index_remove, index_get]
  omega

end LRUPendingInterestTable

/-- The next hops of a route fit an entry. -/
theorem LRUForwardingInformationBase.length_get_le {T : Type} [Table T Str (FIBEntry caps)]
    (maxVirtualDepth : Int) (contentName : Str) (cache : T) :
    ((get maxVirtualDepth contentName cache : StdSet × T).1.toList).length
      ≤ caps.fibNextHopsPerEntry := by
  unfold get
  split
  · next result _ _ => exact result.nodeIds.length_toStdSet_le.trans result.nodeIds.count_le
  · exact Nat.zero_le _

/-! ## The handlers

Each way through a handler with what it sends and what it leaves in the PIT. -/

/-- The answer forwards the INTEREST: one hop more, below the limit, to the next hops of a route. -/
structure Forwards (caps : BuildCapacity) (hopCountThreshold : Int) (inputData : InputData)
    (out : OutputData) : Prop where
  signalCode_eq : out.signalCode = SignalCode.toString .interest
  hopCount_eq : out.hopCount = inputData.hopCount + 1
  hopCount_lt : out.hopCount < hopCountThreshold
  length_le : out.destId.toList.length ≤ caps.fibNextHopsPerEntry

/-- **An INTEREST** is forwarded, or answered with a DATA, or dropped. -/
theorem interest_traffic (systemConfig : SystemConfig) (inputData : InputData)
    {node : NodeState caps} (hwf : node.pitRepository.index.Wf) :
    let r := handleInterestReceive systemConfig inputData node
    let pending := pendingRequesters node.pitRepository
    let pending' := pendingRequesters r.2.pitRepository
    (Forwards caps systemConfig.hopCountThreshold inputData r.1 ∧ pending' ≤ pending + 1) ∨
    (r.1.signalCode = SignalCode.toString .data ∧
      r.1.destId.toList.length + pending' ≤ pending + 1) ∨
    ((∃ hop, r.1 = invalidOutput hop) ∧ pending' ≤ pending + 1) := by
  have hsave := LRUPendingInterestTable.pendingRequesters_save_le hwf inputData.contentName
    inputData.senderId
  rcases handleInterestReceive_cases systemConfig inputData node with
    ⟨-, hr⟩ | ⟨-, -, hout, hnode⟩ | ⟨hhop, hmiss, -, -, hpit⟩
  · -- dropped at the hop limit
    rw [hr]
    exact Or.inr (Or.inr ⟨⟨_, rfl⟩, Nat.le_succ _⟩)
  · -- from the Content Store, to its sender alone
    refine Or.inr (Or.inl ⟨by rw [hout]; rfl, ?_⟩)
    rw [hout, hnode]
    show (OrderedSet.singleton inputData.senderId).toList.length + _ ≤ _
    exact (Nat.add_comm _ _).le
  · rw [← hpit] at hsave
    rcases handleInterestReceive_of_miss hhop hmiss with ⟨-, heq⟩ | ⟨-, heq⟩
    · refine Or.inl ⟨?_, hsave⟩
      rw [heq]
      exact ⟨rfl, rfl, hhop, LRUForwardingInformationBase.length_get_le _ _ _⟩
    · -- dropped for lack of a route, with its requester saved
      exact Or.inr (Or.inr ⟨⟨_, congrArg Prod.fst heq⟩, hsave⟩)

/-- **A DATA** goes to requesters that are taken out of the PIT, or is dropped. -/
theorem data_traffic (inputData : InputData) (alloc : Option Bool) (node : NodeState caps) :
    let r := handleDataReceive inputData alloc node
    let pending := pendingRequesters node.pitRepository
    let pending' := pendingRequesters r.2.pitRepository
    (r.1.signalCode = SignalCode.toString .data ∧
      r.1.destId.toList.length + pending' ≤ pending) ∨
    ((∃ hop, r.1 = invalidOutput hop) ∧ pending' ≤ pending) := by
  rcases handleDataReceive_cases inputData alloc node with ⟨-, hr⟩ | ⟨-, hout, hpit, -⟩
  · rw [hr]
    exact Or.inr ⟨⟨_, rfl⟩, Nat.le_refl _⟩
  · refine Or.inl ⟨by rw [hout]; rfl, ?_⟩
    rw [hout, hpit]
    exact LRUPendingInterestTable.pendingRequesters_remove_get inputData.contentName
      node.pitRepository

end Icsn
