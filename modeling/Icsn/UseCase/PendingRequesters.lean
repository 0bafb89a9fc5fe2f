import Icsn.UseCase.UseCaseInteractor

/-!
# Icsn — a pending requester gets its DATA

What keeps a requester in the PIT from its INTEREST to the DATA that answers it.

* **`Waits`** — the PIT finds an entry for the name that lists the requester.
* **`TakesRequester`** — the INTEREST does put the requester there: entry and set have room for it.
* **`KeepsPending`** — the events that leave it there.  A DATA for another name empties a slot of
  the hash index, which may be on the way to this name's entry (`crosses`).
* **`pending_requester_served`** — over any run between the two.
-/

namespace Icsn

variable {caps : BuildCapacity} {systemConfig : SystemConfig}

/-- The form in which a requester is kept. -/
abbrev storedId (caps : BuildCapacity) (id : Str) : Str :=
  FixedNodeIdSet.stored caps.nodeIdMaxChars id

/-- The PIT finds an entry for the name that lists the requester. -/
def Waits (name id : Str) (pit : LRUPendingInterestTable caps) : Prop :=
  ∃ requesters, pit.index.lookup name = some requesters ∧ id ∈ requesters.ids

/-- There is room for the requester: for its entry in the PIT, and for it in the entry. -/
def TakesRequester (name senderId : Str) (pit : LRUPendingInterestTable caps) : Prop :=
  ((pit.index.lookup name).isSome = true ∨ pit.currentSize < caps.pitEntries) ∧
    (LRUPendingInterestTable.knownRequesters (pit.index.lookup name)).Admits senderId

instance (name senderId : Str) (pit : LRUPendingInterestTable caps) :
    Decidable (TakesRequester name senderId pit) := inferInstanceAs (Decidable (_ ∧ _))

/-- The event neither answers the name nor clears the PIT, and a DATA for another name empties no
slot that the probe for the name passes. -/
def KeepsPending (name : Str) (node : NodeState caps) : NodeEvent → Prop
  | .data inputData _ => inputData.contentName ≠ name ∧
      node.pitRepository.index.crosses inputData.contentName name = false
  | .clearPITCache => False
  | _ => True

instance (name : Str) (node : NodeState caps) : ∀ event, Decidable (KeepsPending name node event)
  | .data inputData _ => inferInstanceAs (Decidable (inputData.contentName ≠ name ∧ _))
  | .clearPITCache => inferInstanceAs (Decidable False)
  | .interest _ | .sensorData _ _ | .initFIBEntry _ _ | .clearCSCache =>
    inferInstanceAs (Decidable True)

/-! ## The PIT over a run

An INTEREST that gets to the PIT saves its sender, a DATA removes its name, and a clear empties it.
Nothing else touches its index. -/

open LRUPendingInterestTable (index_save index_remove find_eq)

/-- **One event on the PIT**: what each event does to its index. -/
theorem pitIndex_step (node : NodeState caps) (event : NodeEvent) :
    let pit := node.pitRepository.index
    let pit' := (nodeStep systemConfig node event).2.pitRepository.index
    pit' = pit ∨
    (∃ inputData, event = .interest inputData ∧
      pit' = (pit.put inputData.contentName
        (LRUPendingInterestTable.mergedDestinations (pit.lookup inputData.contentName)
          (.singleton inputData.senderId))).2) ∨
    (∃ inputData alloc, event = .data inputData alloc ∧
      pit' = (pit.remove inputData.contentName).2) ∨
    (event = .clearPITCache ∧ pit' = pit.clear) := by
  cases event with
  | interest inputData =>
    rcases handleInterestReceive_cases systemConfig inputData node with
      ⟨-, hr⟩ | ⟨-, -, -, hr⟩ | ⟨-, -, -, -, hr⟩
    · exact Or.inl (by rw [nodeStep, hr])
    · exact Or.inl (by rw [nodeStep]; dsimp only; rw [hr])
    · refine Or.inr (Or.inl ⟨inputData, rfl, ?_⟩)
      rw [nodeStep]
      dsimp only
      rw [hr, index_save]
  | data inputData alloc =>
    rcases handleDataReceive_cases inputData alloc node with ⟨-, hr⟩ | ⟨-, -, hr, -⟩
    · exact Or.inl (by rw [nodeStep, hr])
    · refine Or.inr (Or.inr (Or.inl ⟨inputData, alloc, rfl, ?_⟩))
      rw [nodeStep]
      dsimp only
      rw [hr, index_remove, LRUPendingInterestTable.index_get]
  | sensorData => exact Or.inl rfl
  | initFIBEntry => exact Or.inl rfl
  | clearCSCache => exact Or.inl rfl
  | clearPITCache => exact Or.inr (Or.inr (Or.inr ⟨rfl, rfl⟩))

theorem pitWf_step {node : NodeState caps} (hwf : node.pitRepository.index.Wf)
    (event : NodeEvent) : (nodeStep systemConfig node event).2.pitRepository.index.Wf := by
  rcases pitIndex_step node event with h | ⟨_, -, h⟩ | ⟨_, _, -, h⟩ | ⟨-, h⟩
  · rw [h]; exact hwf
  · rw [h]; exact hwf.put _ _
  · rw [h]; exact hwf.remove _
  · rw [h]; exact CacheIndex.wf_clear _

theorem pitWf_run (caps : BuildCapacity) (systemConfig : SystemConfig) (events : List NodeEvent) :
    (nodeAfter caps systemConfig events).pitRepository.index.Wf := by
  have hstep : ∀ (node : NodeState caps) event, node.pitRepository.index.Wf → True →
      (nodeStep systemConfig node event).2.pitRepository.index.Wf :=
    fun _ event h _ => pitWf_step h event
  have hstart : (NodeState.init caps).pitRepository.index.Wf := CacheIndex.wf_init
  exact StepRun.after_invariant hstep hstart
    (StepRun.along_of_forall _ _ (fun _ _ => trivial) _ _)

/-! ## Waiting

A requester that waits is found with the entry of its name, and stays in it: saves only add to an
entry, and a removal of another name leaves it in reach where it empties no slot on the probe. -/

/-- The INTEREST that finds room makes its sender wait. -/
theorem waits_of_takes {node : NodeState caps} {inputData : InputData}
    (hwf : node.pitRepository.index.Wf)
    (hforwarded : (handleInterestReceive systemConfig inputData node).1.signalCode
      = SignalCode.toString .interest)
    (htakes : TakesRequester inputData.contentName inputData.senderId node.pitRepository) :
    Waits inputData.contentName (storedId caps inputData.senderId)
      (handleInterestReceive systemConfig inputData node).2.pitRepository := by
  rcases handleInterestReceive_cases systemConfig inputData node with
    ⟨-, hr⟩ | ⟨-, -, hr, -⟩ | ⟨-, -, -, -, hr⟩
  · -- dropped at the hop limit
    rw [hr] at hforwarded
    have hcode : SignalCode.toString .invalid = SignalCode.toString .interest := hforwarded
    exact absurd hcode (by decide)
  · -- answered from the Content Store
    rw [hr] at hforwarded
    have hcode : SignalCode.toString .data = SignalCode.toString .interest := hforwarded
    exact absurd hcode (by decide)
  · have hput : (node.pitRepository.index.put inputData.contentName
        (LRUPendingInterestTable.mergedDestinations
          (node.pitRepository.index.lookup inputData.contentName)
          (.singleton inputData.senderId))).1 = true := by
      rw [← Bool.not_eq_false, CacheIndex.put_eq_false_iff hwf, not_and_or]
      refine htakes.1.imp (fun h hnone => ?_) not_le.mpr
      rw [hnone] at h; cases h
    -- the put went through, and the set in it has taken the sender
    refine ⟨_, by rw [hr, index_save]; exact CacheIndex.lookup_put_self hwf hput, ?_⟩
    rw [LRUPendingInterestTable.mergedDestinations_singleton]
    exact FixedNodeIdSet.stored_mem_insert htakes.2

/-- **One event** keeps a requester waiting. -/
theorem waits_step {node : NodeState caps} {name id : Str} {event : NodeEvent}
    (hwf : node.pitRepository.index.Wf) (hid : id ≠ []) (hkeeps : KeepsPending name node event)
    (hwaits : Waits name id node.pitRepository) :
    Waits name id (nodeStep systemConfig node event).2.pitRepository := by
  obtain ⟨requesters, hlook, hmem⟩ := hwaits
  rcases pitIndex_step node event with
    h | ⟨inputData, rfl, h⟩ | ⟨inputData, alloc, rfl, h⟩ | ⟨rfl, -⟩
  · exact ⟨requesters, by rw [h]; exact hlook, hmem⟩
  · by_cases hname : name = inputData.contentName
    · -- another INTEREST for the name: the new set starts with the old one
      subst hname
      refine ⟨_, ?_, LRUPendingInterestTable.mem_merged_of_mem hmem hid inputData.senderId⟩
      rw [h, hlook]
      refine CacheIndex.lookup_put_self hwf ?_
      rw [← Bool.not_eq_false, CacheIndex.put_eq_false_iff hwf, hlook]
      simp
    · exact ⟨requesters, by rw [h]; exact CacheIndex.lookup_put_other hwf hname _ hlook, hmem⟩
  · obtain ⟨hne, hcross⟩ := hkeeps
    exact ⟨requesters, by
      rw [h]; exact CacheIndex.lookup_remove_other hwf hne.symm hcross hlook, hmem⟩
  · -- the PIT is not cleared
    exact hkeeps.elim

/-- The DATA goes to everyone who waits. -/
theorem data_to_waiting {node : NodeState caps} {reply : InputData} {id : Str}
    (hwaits : Waits reply.contentName id node.pitRepository) (alloc : Option Bool) :
    let out := (handleDataReceive reply alloc node).1
    out.signalCode = SignalCode.toString .data ∧ id ∈ out.destId := by
  obtain ⟨requesters, hlook, hmem⟩ := hwaits
  rcases handleDataReceive_cases reply alloc node with ⟨hmiss, -⟩ | ⟨-, hout, -, -⟩
  · rw [find_eq, hlook] at hmiss; cases hmiss
  · intro out
    refine ⟨by simp only [out, hout, makeOutput], ?_⟩
    simp only [out, hout, makeOutput]
    rw [LRUPendingInterestTable.get_fst, hlook]
    exact FixedNodeIdSet.mem_toStdSet.mpr hmem

/-- **No pending requester is lost** as long as there was room for it and nothing took its entry out
of reach: after an INTEREST was forwarded for a sender, the DATA for the name goes to that sender,
whatever happened in between. -/
theorem pending_requester_served (caps : BuildCapacity) (systemConfig : SystemConfig)
    (before between : List NodeEvent) (inputData reply : InputData) (alloc : Option Bool)
    (hforwarded : (handleInterestReceive systemConfig inputData
      (nodeAfter caps systemConfig before)).1.signalCode = SignalCode.toString .interest)
    (htakes : TakesRequester inputData.contentName inputData.senderId
      (nodeAfter caps systemConfig before).pitRepository)
    (hid : storedId caps inputData.senderId ≠ [])
    (hkeeps : StepRun.Along (nodeStep systemConfig) (KeepsPending inputData.contentName)
      (nodeAfter caps systemConfig (before ++ [.interest inputData])) between)
    (hreply : reply.contentName = inputData.contentName) :
    let out := (handleDataReceive reply alloc
      (nodeAfter caps systemConfig (before ++ [.interest inputData] ++ between))).1
    out.signalCode = SignalCode.toString .data ∧
      storedId caps inputData.senderId ∈ out.destId := by
  have hwf := pitWf_run caps systemConfig before
  have hstart := waits_of_takes hwf hforwarded htakes
  -- it waits until the DATA comes, by induction over the events between
  have hend : Waits inputData.contentName (storedId caps inputData.senderId)
      (nodeAfter caps systemConfig (before ++ [.interest inputData] ++ between)).pitRepository := by
    have hstep : ∀ (node : NodeState caps) event,
        (node.pitRepository.index.Wf ∧
          Waits inputData.contentName (storedId caps inputData.senderId) node.pitRepository) →
        KeepsPending inputData.contentName node event →
        ((nodeStep systemConfig node event).2.pitRepository.index.Wf ∧
          Waits inputData.contentName (storedId caps inputData.senderId)
            (nodeStep systemConfig node event).2.pitRepository) :=
      fun node event h hk => ⟨pitWf_step h.1 event, waits_step h.1 hid hk h.2⟩
    have hafter : Waits inputData.contentName (storedId caps inputData.senderId)
        (nodeAfter caps systemConfig (before ++ [.interest inputData])).pitRepository := by
      rw [nodeAfter, StepRun.after_concat]
      exact hstart
    rw [nodeAfter, StepRun.after_append]
    exact (StepRun.after_invariant hstep ⟨pitWf_run caps systemConfig _, hafter⟩ hkeeps).2
  rw [← hreply] at hend
  exact data_to_waiting hend alloc

/-- The INTERESTs of x and y for /a are both answered, also when a reading and a DATA for another
name come in between. -/
theorem pending_requester_served_second :
    let caps := BuildCapacity.uniform 2 (by decide)
    let before : List NodeEvent := [.initFIBEntry (ascii ['/', 'a']) (ascii ['z']),
      .interest (.interestFor (ascii ['/', 'a']) (ascii ['x']))]
    let between : List NodeEvent := [.sensorData (.dataFor (ascii ['/', 'b']) (ascii ['1'])) none,
      .data (.dataFor (ascii ['/', 'b']) (ascii ['2'])) none]
    let out := (handleDataReceive (.dataFor (ascii ['/', 'a']) (ascii ['3'])) none
      (nodeAfter caps {} (before ++ [.interest (.interestFor (ascii ['/', 'a']) (ascii ['y']))]
        ++ between))).1
    out.signalCode = SignalCode.toString .data ∧ storedId caps (ascii ['y']) ∈ out.destId :=
  pending_requester_served _ {} _ _ (.interestFor (ascii ['/', 'a']) (ascii ['y']))
    (.dataFor (ascii ['/', 'a']) (ascii ['3'])) none (by decide) (by decide) (by decide) (by decide)
    rfl

/-- With room for one requester an entry, the INTEREST of y for /a is forwarded like that of x
before it, and the DATA goes to x alone. -/
theorem not_every_requester_served :
    ¬ ∀ (caps : BuildCapacity) (systemConfig : SystemConfig) (before between : List NodeEvent)
      (inputData reply : InputData) (alloc : Option Bool),
      (handleInterestReceive systemConfig inputData
        (nodeAfter caps systemConfig before)).1.signalCode = SignalCode.toString .interest →
      (∀ event ∈ between, event ≠ .clearPITCache ∧
        ∀ input alloc, event = .data input alloc → input.contentName ≠ inputData.contentName) →
      reply.contentName = inputData.contentName →
      let out := (handleDataReceive reply alloc
        (nodeAfter caps systemConfig (before ++ [.interest inputData] ++ between))).1
      out.signalCode = SignalCode.toString .data ∧ inputData.senderId ∈ out.destId := by
  intro h
  have hbad := (h (.uniform 1 (by decide)) {}
    [.initFIBEntry (ascii ['/', 'a']) (ascii ['z']),
      .interest (.interestFor (ascii ['/', 'a']) (ascii ['x']))] []
    (.interestFor (ascii ['/', 'a']) (ascii ['y'])) (.dataFor (ascii ['/', 'a']) (ascii ['3'])) none
    (by decide) (by simp) rfl).2
  revert hbad
  decide

end Icsn
