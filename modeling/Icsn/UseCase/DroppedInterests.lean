import Icsn.UseCase.PendingRequesters

/-!
# Icsn — what a dropped INTEREST leaves behind

`handleInterestReceive` drops an INTEREST at the hop limit before it touches a table, but looks for
a route only after the requester is in the PIT.

* **`SameContents`** — the tables hold what they held; the recency order is not looked at.
* **`DropsClean`** — the INTERESTs whose drop writes nothing new, told from the tables before.
* **`sameContents_iff_dropsClean`** — for one INTEREST; **`drops_leave_no_trace_iff`** — for any
  number of them, one after the other.
-/

namespace Icsn

variable {caps : BuildCapacity} {systemConfig : SystemConfig}

/-- The Content Store, the PIT and the FIB hold the same, up to the recency order. -/
structure SameContents (node node' : NodeState caps) : Prop where
  contentStore : node'.csRepository = node.csRepository
  pit : node'.pitRepository.index = node.pitRepository.index
  fib : node'.fibRepository.index = node.fibRepository.index

theorem SameContents.refl (node : NodeState caps) : SameContents node node := ⟨rfl, rfl, rfl⟩

theorem SameContents.trans {node node' node'' : NodeState caps} (h : SameContents node node')
    (h' : SameContents node' node'') : SameContents node node'' :=
  ⟨h'.contentStore.trans h.contentStore, h'.pit.trans h.pit, h'.fib.trans h.fib⟩

theorem SameContents.symm {node node' : NodeState caps} (h : SameContents node node') :
    SameContents node' node := ⟨h.contentStore.symm, h.pit.symm, h.fib.symm⟩

/-! ## Sets a sender adds nothing to

The PIT writes back a copy of the set with the sender in it.  This is the same set if the sender is
in it, or has no place in it. -/

open LRUPendingInterestTable (knownRequesters mergedDestinations)
open FixedNodeIdSet (normalize)

/-- The set is its own copy with the sender in it: a sender that the copy has no place for, or
lists, is not appended. -/
def AddsNothing (requesters : RequesterSet caps) (senderId : Str) : Prop :=
  let known := knownRequesters (some requesters)
  if known.Admits senderId ∧ normalize caps.nodeIdMaxChars senderId ∉ known.ids then
    requesters.ids = known.ids ++ [storedId caps senderId]
  else requesters.ids = known.ids

theorem merged_eq_self_iff {requesters : RequesterSet caps} {senderId : Str} :
    mergedDestinations (some requesters) (.singleton senderId) = requesters ↔
      AddsNothing requesters senderId := by
  have hids : ∀ s s' : RequesterSet caps, s = s' ↔ s'.ids = s.ids := fun s s' =>
    ⟨fun h => by rw [h], fun h => by cases s; cases s'; cases h; rfl⟩
  rw [LRUPendingInterestTable.mergedDestinations_singleton, hids, AddsNothing]
  rcases FixedNodeIdSet.insert_cases (knownRequesters (some requesters)) senderId with
    ⟨hnot, heq⟩ | ⟨-, hmem, heq⟩ | ⟨hadm, hmem, -, heq⟩
  · rw [heq, if_neg fun h => hnot h.1]
  · rw [heq, if_neg fun h => h.2 hmem]
  · rw [heq, if_pos ⟨hadm, hmem⟩]

/-- For the sets the node really has (distinct ids, none of them empty): the sender is listed, or
there is no place for it. -/
theorem addsNothing_iff {requesters : RequesterSet caps} {senderId : Str}
    (hne : [] ∉ requesters.ids) (hnodup : requesters.ids.Nodup) :
    AddsNothing requesters senderId ↔ normalize caps.nodeIdMaxChars senderId = [] ∨
      normalize caps.nodeIdMaxChars senderId ∈ requesters.ids ∨
      requesters.ids.length = caps.pitRequestersPerEntry := by
  have hcopy : (knownRequesters (some requesters)).ids = requesters.ids :=
    FixedNodeIdSet.ids_insertFromOther_empty hne hnodup
  have hcount := requesters.count_le
  have happend : requesters.ids ≠ requesters.ids ++ [storedId caps senderId] := by simp
  rw [AddsNothing]
  simp only [FixedNodeIdSet.Admits, hcopy]
  by_cases hempty : normalize caps.nodeIdMaxChars senderId = []
  · simp [hempty]
  · by_cases hmem : normalize caps.nodeIdMaxChars senderId ∈ requesters.ids
    · simp [hmem]
    · by_cases hroom : requesters.ids.length < caps.pitRequestersPerEntry
      · rw [if_pos ⟨⟨hempty, Or.inr hroom⟩, hmem⟩]
        exact iff_of_false happend (by rintro (h | h | h); exacts [hempty h, hmem h, by omega])
      · rw [if_neg fun h => h.1.2.elim hmem hroom]
        exact iff_of_true trivial (Or.inr (Or.inr (by omega)))

/-! ## One INTEREST

Dropped at the hop limit, an INTEREST has touched nothing.  Dropped for want of a route, it has been
saved in the PIT, and the question is whether that wrote anything new. -/

/-- The INTEREST is dropped. -/
def Dropped (systemConfig : SystemConfig) (node : NodeState caps) (inputData : InputData) : Prop :=
  (handleInterestReceive systemConfig inputData node).1.signalCode = SignalCode.toString .invalid

instance (node : NodeState caps) (inputData : InputData) :
    Decidable (Dropped systemConfig node inputData) := inferInstanceAs (Decidable (_ = _))

/-- The drop writes nothing new: the INTEREST is at the hop limit, or the PIT has neither an entry
nor room for its name, or the entry has its sender already or no place for it. -/
def DropsClean (systemConfig : SystemConfig) (node : NodeState caps) (inputData : InputData) :
    Prop :=
  inputData.hopCount + 1 ≥ systemConfig.hopCountThreshold ∨
    match node.pitRepository.index.lookup inputData.contentName with
    | none => caps.pitEntries ≤ node.pitRepository.currentSize
    | some requesters => AddsNothing requesters inputData.senderId

theorem DropsClean.congr {node node' : NodeState caps} (h : SameContents node node')
    (inputData : InputData) :
    DropsClean systemConfig node' inputData ↔ DropsClean systemConfig node inputData := by
  have hsize : node'.pitRepository.currentSize = node.pitRepository.currentSize :=
    congrArg CacheIndex.currentSize h.pit
  unfold DropsClean
  rw [h.pit, hsize]

/-- **A dropped INTEREST** is at the hop limit and touches nothing, or has its sender saved in the
PIT and touches nothing else. -/
theorem dropped_cases {node : NodeState caps} {inputData : InputData}
    (hdropped : Dropped systemConfig node inputData) :
    let node' := (handleInterestReceive systemConfig inputData node).2
    (inputData.hopCount + 1 ≥ systemConfig.hopCountThreshold ∧ node' = node) ∨
    (inputData.hopCount + 1 < systemConfig.hopCountThreshold ∧
      node'.csRepository = node.csRepository ∧
      node'.fibRepository.index = node.fibRepository.index ∧
      node'.pitRepository = LRUPendingInterestTable.save
        { contentName := inputData.contentName, destinationId := .singleton inputData.senderId }
        node.pitRepository) := by
  intro node'
  rcases handleInterestReceive_cases systemConfig inputData node with
    ⟨hhop, hr⟩ | ⟨-, -, hout, -⟩ | ⟨hhop, hmiss, -, hcs, hpit⟩
  · exact Or.inl ⟨hhop, by rw [show node' = _ from congrArg Prod.snd hr]⟩
  · -- answered from the Content Store, so not dropped
    have hcode : SignalCode.toString .data = SignalCode.toString .invalid := by
      rw [Dropped, hout] at hdropped; exact hdropped
    exact absurd hcode (by decide)
  · refine Or.inr ⟨hhop, hcs, ?_, hpit⟩
    rcases handleInterestReceive_of_miss hhop hmiss with ⟨-, hr⟩ | ⟨-, hr⟩
    · -- forwarded, so not dropped
      have hcode : SignalCode.toString .interest = SignalCode.toString .invalid := by
        rw [Dropped, hr] at hdropped; exact hdropped
      exact absurd hcode (by decide)
    · rw [show node' = _ from congrArg Prod.snd hr]
      exact index_fibFind systemConfig.maxVirtualDepth inputData.contentName node.fibRepository

/-- **One INTEREST.** -/
theorem sameContents_iff_dropsClean {node : NodeState caps}
    (hwf : node.pitRepository.index.Wf) {inputData : InputData}
    (hdropped : Dropped systemConfig node inputData) :
    SameContents node (handleInterestReceive systemConfig inputData node).2 ↔
      DropsClean systemConfig node inputData := by
  rcases dropped_cases hdropped with ⟨hhop, hnode⟩ | ⟨hhop, hcs, hfib, hpit⟩
  · rw [hnode]
    exact iff_of_true (.refl node) (Or.inl hhop)
  · have hindex := LRUPendingInterestTable.index_save
      { contentName := inputData.contentName, destinationId := .singleton inputData.senderId }
      node.pitRepository
    rw [← hpit] at hindex
    -- what counts is whether the put into the PIT changes anything
    have hsame : SameContents node (handleInterestReceive systemConfig inputData node).2 ↔
        (node.pitRepository.index.put inputData.contentName
          (mergedDestinations (node.pitRepository.index.lookup inputData.contentName)
            (.singleton inputData.senderId))).2 = node.pitRepository.index :=
      ⟨fun h => hindex.symm.trans h.pit, fun h => ⟨hcs, hindex.trans h, hfib⟩⟩
    rw [hsame, CacheIndex.put_snd_eq_self_iff hwf, DropsClean, or_iff_right (not_le.mpr hhop)]
    cases hlook : node.pitRepository.index.lookup inputData.contentName with
    | none => exact ⟨fun h => h.elim (fun h => by cases h) And.right, fun h => Or.inr ⟨rfl, h⟩⟩
    | some requesters =>
      show some requesters = some _ ∨ _ ↔ AddsNothing requesters inputData.senderId
      rw [← merged_eq_self_iff, Option.some_inj, eq_comm]
      exact or_iff_left fun h => absurd h.1 (Option.some_ne_none _)

/-! ## Any number of them

An INTEREST that leaves no trace leaves the tables as the next one meets them.  So the condition on
a list of them is one on the tables before the first. -/

/-- An INTEREST as a step of the node. -/
def interestStep (systemConfig : SystemConfig) (node : NodeState caps) (inputData : InputData) :
    OutputData × NodeState caps := handleInterestReceive systemConfig inputData node

/-- The run of INTERESTs leaves no trace: after none of them does the node hold anything else than
before the first. -/
def LeavesNoTrace (systemConfig : SystemConfig) (node : NodeState caps)
    (interests : List InputData) : Prop :=
  ∀ handled, handled <+: interests →
    SameContents node (StepRun.after (interestStep systemConfig) node handled)

theorem leavesNoTrace_cons_iff {node : NodeState caps} {inputData : InputData}
    {interests : List InputData} :
    LeavesNoTrace systemConfig node (inputData :: interests) ↔
      SameContents node (handleInterestReceive systemConfig inputData node).2 ∧
        LeavesNoTrace systemConfig (handleInterestReceive systemConfig inputData node).2
          interests := by
  constructor
  · intro h
    have hfirst : SameContents node (handleInterestReceive systemConfig inputData node).2 :=
      h [inputData] ((List.prefix_cons_inj inputData).mpr List.nil_prefix)
    refine ⟨hfirst, fun handled hpre => ?_⟩
    exact hfirst.symm.trans (h (inputData :: handled) ((List.prefix_cons_inj inputData).mpr hpre))
  · rintro ⟨hfirst, hrest⟩ handled hpre
    cases handled with
    | nil => exact .refl node
    | cons i handled =>
      obtain ⟨rfl, htail⟩ := List.cons_prefix_cons.mp hpre
      exact hfirst.trans (hrest handled htail)

theorem pitWf_interest {node : NodeState caps} (hwf : node.pitRepository.index.Wf)
    (inputData : InputData) :
    (handleInterestReceive systemConfig inputData node).2.pitRepository.index.Wf :=
  pitWf_step hwf (.interest inputData)

/-- The condition is one on the tables before the first INTEREST: the ones that meet it leave it as
it is for the next. -/
theorem leavesNoTrace_iff {node : NodeState caps} (hwf : node.pitRepository.index.Wf)
    {interests : List InputData}
    (hdropped : StepRun.Along (interestStep systemConfig) (Dropped systemConfig) node interests) :
    LeavesNoTrace systemConfig node interests ↔
      ∀ inputData ∈ interests, DropsClean systemConfig node inputData := by
  induction interests generalizing node with
  | nil =>
    refine iff_of_true (fun handled hpre => ?_) (by simp)
    rw [List.prefix_nil.mp hpre]
    exact .refl node
  | cons inputData interests ih =>
    obtain ⟨hhead, htail⟩ := hdropped
    rw [leavesNoTrace_cons_iff, List.forall_mem_cons, ih (pitWf_interest hwf inputData) htail,
      sameContents_iff_dropsClean hwf hhead, and_congr_right_iff]
    intro hclean
    have hsame := (sameContents_iff_dropsClean hwf hhead).mpr hclean
    exact forall₂_congr fun i _ => DropsClean.congr hsame i

/-- **What dropped INTERESTs leave behind.**  On a node that any run reached, INTERESTs that are all
dropped leave the tables as they were exactly when each of them is at the hop limit or has no place
in the PIT, neither as a new entry nor as a new sender of an entry. -/
theorem drops_leave_no_trace_iff (caps : BuildCapacity) (systemConfig : SystemConfig)
    (events : List NodeEvent) (interests : List InputData)
    (hdropped : StepRun.Along (interestStep systemConfig) (Dropped systemConfig)
      (nodeAfter caps systemConfig events) interests) :
    LeavesNoTrace systemConfig (nodeAfter caps systemConfig events) interests ↔
      ∀ inputData ∈ interests,
        DropsClean systemConfig (nodeAfter caps systemConfig events) inputData :=
  leavesNoTrace_iff (pitWf_run caps systemConfig events) hdropped

/-- The PIT's one entry, for /b, lists x already: x asking again for /b, a name without a route,
and y asking for /a leave no trace. -/
theorem drops_leave_no_trace_full_pit :
    let caps := BuildCapacity.uniform 1 (by decide)
    let events : List NodeEvent := [.interest (.interestFor (ascii ['/', 'b']) (ascii ['x']))]
    LeavesNoTrace {} (nodeAfter caps {} events)
        [.interestFor (ascii ['/', 'b']) (ascii ['x']),
          .interestFor (ascii ['/', 'a']) (ascii ['y'])] ↔
      ∀ inputData ∈ [InputData.interestFor (ascii ['/', 'b']) (ascii ['x']),
          .interestFor (ascii ['/', 'a']) (ascii ['y'])],
        DropsClean {} (nodeAfter caps {} events) inputData :=
  drops_leave_no_trace_iff _ {} _ _ (by decide)

/-- An INTEREST for /a, to which there is no route, is dropped and takes the only place of the
PIT. -/
theorem not_every_drop_leaves_no_trace :
    ¬ ∀ (caps : BuildCapacity) (systemConfig : SystemConfig) (events : List NodeEvent)
      (inputData : InputData),
      let node := nodeAfter caps systemConfig events
      Dropped systemConfig node inputData →
        SameContents node (handleInterestReceive systemConfig inputData node).2 := by
  intro h
  have hbad := (h (.uniform 1 (by decide)) {} []
    (.interestFor (ascii ['/', 'a']) (ascii ['x'])) (by decide)).pit
  have hsize := congrArg CacheIndex.currentSize hbad
  revert hsize
  decide

end Icsn
