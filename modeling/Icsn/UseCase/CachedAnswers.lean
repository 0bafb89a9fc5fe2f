import Icsn.UseCase.UseCaseInteractor

/-!
# Icsn — what the Content Store answers

A node answers an INTEREST from its Content Store with what it stored for the name, which is not
always what it was last given: `save` takes a new payload slot before it gives the old one back, so
with every slot in use an update is lost.

* **`lastWritten`** — the last content a run gave the node for a name.
* **`SavesFresh`** — the event does not try to update a stored name while every slot is in use.
* **`freshRun_iff_saves_fresh`** — the answers are fresh throughout a run exactly when none of its
  events does.
-/

namespace Icsn

variable {caps : BuildCapacity} {systemConfig : SystemConfig}

/-- The content an event gives the node for the name: a reading, or a DATA it forwards. -/
def written (name : Str) : NodeEvent × Option OutputData → Option Str
  | (.sensorData inputData _, _) =>
    if inputData.contentName = name then some inputData.content else none
  | (.data inputData _, some out) =>
    if out.signalCode = SignalCode.toString .data ∧ inputData.contentName = name then
      some inputData.content
    else none
  | _ => none

/-- The last content a run gave the node for the name. -/
def lastWritten (name : Str) (run : List (NodeEvent × Option OutputData)) : Option Str :=
  run.reverse.findSome? (written name)

/-- The memory the event may ask for is there. -/
def AllocSucceeds : NodeEvent → Prop
  | .data _ alloc => alloc ≠ none
  | .sensorData _ alloc => alloc ≠ none
  | _ => True

instance : ∀ event, Decidable (AllocSucceeds event)
  | .data _ alloc => inferInstanceAs (Decidable (alloc ≠ none))
  | .sensorData _ alloc => inferInstanceAs (Decidable (alloc ≠ none))
  | .interest _ | .initFIBEntry _ _ | .clearCSCache | .clearPITCache =>
    inferInstanceAs (Decidable True)

/-- After every part of the run, an INTEREST that is answered with a DATA gets the last content. -/
def FreshRun (caps : BuildCapacity) (systemConfig : SystemConfig) (events : List NodeEvent) :
    Prop :=
  ∀ before after inputData, events = before ++ after →
    let out := (handleInterestReceive systemConfig inputData (nodeAfter caps systemConfig before)).1
    out.signalCode = SignalCode.toString .data →
    lastWritten inputData.contentName (nodeTrace caps systemConfig before) = some out.content

/-- No update of a stored name to another content while every payload slot is in use. -/
def UpdateFits (inputData : InputData) (store : LRUContentStore caps) : Prop :=
  store.find inputData.contentName = true → store.findFreePayloadSlot = none →
    store.contentOf inputData.contentName = some inputData.content

instance (inputData : InputData) (store : LRUContentStore caps) :
    Decidable (UpdateFits inputData store) := inferInstanceAs (Decidable (_ → _ → _))

/-- What the event saves, if it saves anything, fits. -/
def SavesFresh (node : NodeState caps) : NodeEvent → Prop
  | .sensorData inputData _ => UpdateFits inputData node.csRepository
  | .data inputData _ =>
    LRUPendingInterestTable.find inputData.contentName node.pitRepository = true →
      UpdateFits inputData node.csRepository
  | _ => True

instance (node : NodeState caps) : ∀ event, Decidable (SavesFresh node event)
  | .sensorData inputData _ => inferInstanceAs (Decidable (UpdateFits inputData _))
  | .data inputData _ => inferInstanceAs (Decidable (_ → UpdateFits inputData _))
  | .interest _ | .initFIBEntry _ _ | .clearCSCache | .clearPITCache =>
    inferInstanceAs (Decidable True)

/-! ## One event

A run is compared with the last content written for each name.  An event writes content or it does
not, and if it does and the store takes it, the name has it; a store that is full keeps the old one.
-/

theorem lastWritten_concat (name : Str) (run : List (NodeEvent × Option OutputData))
    (e : NodeEvent × Option OutputData) :
    lastWritten name (run ++ [e]) = (written name e).or (lastWritten name run) := by
  rw [lastWritten, List.reverse_append, List.reverse_singleton, List.singleton_append,
    List.findSome?_cons]
  cases written name e <;> rfl

/-- **One event on the Content Store**: a save that is also recorded as written, a reading of the
store, its clearing, or nothing. -/
theorem contentStore_step (systemConfig : SystemConfig) (node : NodeState caps)
    (event : NodeEvent) :
    let r := nodeStep systemConfig node event
    ((∀ name, written name (event, r.1) = none) ∧
      (r.2.csRepository = node.csRepository ∨
        (∃ name, r.2.csRepository = (node.csRepository.get name).2) ∨
        r.2.csRepository = node.csRepository.clear)) ∨
    (∃ inputData alloc, (AllocSucceeds event → alloc ≠ none) ∧
      (SavesFresh node event ↔ UpdateFits inputData node.csRepository) ∧
      (∀ name, written name (event, r.1)
        = if inputData.contentName = name then some inputData.content else none) ∧
      r.2.csRepository = node.csRepository.save
        { contentName := inputData.contentName, content := inputData.content } alloc) := by
  cases event with
  -- an INTEREST reads the store at most
  | interest inputData =>
    refine Or.inl ⟨fun _ => rfl, ?_⟩
    rcases handleInterestReceive_cases systemConfig inputData node with
      ⟨-, hr⟩ | ⟨-, -, -, hr⟩ | ⟨-, -, -, hr, -⟩
    · exact Or.inl (by rw [nodeStep, hr])
    · exact Or.inr (Or.inl ⟨inputData.contentName, by rw [nodeStep]; dsimp only; rw [hr]⟩)
    · exact Or.inl hr
  | data inputData alloc =>
    rcases handleDataReceive_cases inputData alloc node with ⟨hmiss, hr⟩ | ⟨hfound, hout, -, hcs⟩
    · -- a DATA that is dropped is not recorded
      refine Or.inl ⟨fun name => ?_, Or.inl ?_⟩
      · show (if (handleDataReceive inputData alloc node).1.signalCode = _ ∧ _ then _ else _) = none
        rw [hr, if_neg fun h => invalidOutput_ne_data _ h.1]
      · rw [nodeStep, hr]
    · refine Or.inr ⟨inputData, alloc, id, ?_, fun name => ?_, hcs⟩
      · exact ⟨fun h => h hfound, fun h _ => h⟩
      · have hdata : (handleDataReceive inputData alloc node).1.signalCode
            = SignalCode.toString .data := by rw [hout]; rfl
        show (if (handleDataReceive inputData alloc node).1.signalCode = _ ∧ _ then _ else _) = _
        simp only [hdata, true_and]
  -- a reading is always saved
  | sensorData inputData alloc =>
    exact Or.inr ⟨inputData, alloc, id, Iff.rfl, fun _ => rfl, rfl⟩
  | initFIBEntry => exact Or.inl ⟨fun _ => rfl, Or.inl rfl⟩
  | clearCSCache => exact Or.inl ⟨fun _ => rfl, Or.inr (Or.inr rfl)⟩
  | clearPITCache => exact Or.inl ⟨fun _ => rfl, Or.inl rfl⟩

/-- The store is sound and holds nothing but what was written last. -/
structure Fresh (run : List (NodeEvent × Option OutputData)) (node : NodeState caps) : Prop where
  sound : node.csRepository.Sound
  last : ∀ {name content}, node.csRepository.contentOf name = some content →
    lastWritten name run = some content

theorem fresh_init : Fresh [] (NodeState.init caps) where
  sound := LRUContentStore.sound_init
  last h := by
    rw [NodeState.init, LRUContentStore.contentOf, LRUContentStore.init,
      FixedSizeLRUCache.index_init, CacheIndex.lookup_init] at h
    cases h

/-- **One event** that fits keeps the store fresh. -/
theorem Fresh.step {run : List (NodeEvent × Option OutputData)} {node : NodeState caps}
    {event : NodeEvent} (hfresh : Fresh run node) (halloc : AllocSucceeds event)
    (hsaves : SavesFresh node event) :
    Fresh (run ++ [(event, (nodeStep systemConfig node event).1)])
      (nodeStep systemConfig node event).2 := by
  rcases contentStore_step systemConfig node event with
    ⟨hnone, hcs⟩ | ⟨inputData, alloc, hmem, hfits, hwritten, hcs⟩
  · have hlast : ∀ name, lastWritten name (run ++ [(event, (nodeStep systemConfig node event).1)])
        = lastWritten name run := fun name => by rw [lastWritten_concat, hnone]; rfl
    rcases hcs with hcs | ⟨name, hcs⟩ | hcs
    · -- untouched
      exact ⟨by rw [hcs]; exact hfresh.sound,
        fun h => by rw [hlast]; rw [hcs] at h; exact hfresh.last h⟩
    · -- read: the contents stay
      refine ⟨by rw [hcs]; exact hfresh.sound.get name, fun h => ?_⟩
      rw [hcs, LRUContentStore.contentOf_get] at h
      rw [hlast]
      exact hfresh.last h
    · -- cleared: nothing is stored
      refine ⟨by rw [hcs]; exact LRUContentStore.sound_clear _, fun h => ?_⟩
      rw [hcs, LRUContentStore.contentOf_clear] at h
      cases h
  · obtain ⟨hsound, hother⟩ := hfresh.sound.save
      { contentName := inputData.contentName, content := inputData.content } alloc
    refine ⟨by rw [hcs]; exact hsound, fun {name content} h => ?_⟩
    rw [lastWritten_concat, hwritten]
    rw [hcs] at h
    by_cases hname : inputData.contentName = name
    · subst hname
      rw [if_pos rfl]
      show some inputData.content = some content
      rw [← h]
      rcases hfresh.sound.contentOf_save_self
          { contentName := inputData.contentName, content := inputData.content } alloc with
        hnew | ⟨hold, hwhy⟩
      · exact hnew.symm
      · -- the save was lost, so the name was stored with this content, or not at all
        rw [hold] at h ⊢
        have hfind : node.csRepository.find inputData.contentName = true := by
          rw [← hfresh.sound.contentOf_isSome, h]
          rfl
        rcases hwhy with hfull | hnoMem | hnoName
        · exact (hfits.mp hsaves hfind hfull).symm
        · exact absurd hnoMem (hmem halloc)
        · rw [hnoName] at h
          cases h
    · rw [hother name (Ne.symm hname)] at h
      rw [if_neg hname]
      exact hfresh.last h

theorem fresh_run (systemConfig : SystemConfig) {events : List NodeEvent}
    (halloc : ∀ event ∈ events, AllocSucceeds event)
    (hsaves : StepRun.Along (nodeStep systemConfig) SavesFresh (NodeState.init caps) events) :
    Fresh (nodeTrace caps systemConfig events) (nodeAfter caps systemConfig events) := by
  have hstep : ∀ run (node : NodeState caps) event, Fresh run node →
      (AllocSucceeds event ∧ SavesFresh node event) →
      Fresh (run ++ [(event, (nodeStep systemConfig node event).1)])
        (nodeStep systemConfig node event).2 :=
    fun _ _ _ hfresh h => hfresh.step h.1 h.2
  exact StepRun.trace_invariant hstep fresh_init events
    (StepRun.along_and _ _ (StepRun.along_of_forall_mem _ halloc _) hsaves)

/-! ## The answers

An INTEREST is answered from the store, so stale content shows with the next INTEREST for the name.
The exact condition follows as for the cache, with the first event that breaks it. -/

/-- A stored name is answered with its content. -/
theorem answer_of_stored {node : NodeState caps} (inputData : InputData) {content : Str}
    (hsound : node.csRepository.Sound)
    (hhop : inputData.hopCount + 1 < systemConfig.hopCountThreshold)
    (hstored : node.csRepository.contentOf inputData.contentName = some content) :
    let out := (handleInterestReceive systemConfig inputData node).1
    out.signalCode = SignalCode.toString .data ∧ out.content = content := by
  have hfind : node.csRepository.find inputData.contentName = true := by
    rw [← hsound.contentOf_isSome, hstored]
    rfl
  rcases handleInterestReceive_cases systemConfig inputData node with
    ⟨hlimit, -⟩ | ⟨-, -, hout, -⟩ | ⟨-, hmiss, -⟩
  · omega
  · dsimp only
    rw [hout, LRUContentStore.get_fst, hstored]
    exact ⟨rfl, rfl⟩
  · rw [hfind] at hmiss
    cases hmiss

/-- An INTEREST answered with a DATA is answered with the content stored for the name. -/
theorem stored_of_answer {node : NodeState caps} {inputData : InputData}
    (hsound : node.csRepository.Sound)
    (hdata : (handleInterestReceive systemConfig inputData node).1.signalCode
      = SignalCode.toString .data) :
    node.csRepository.contentOf inputData.contentName
      = some (handleInterestReceive systemConfig inputData node).1.content := by
  rcases handleInterestReceive_cases systemConfig inputData node with
    ⟨-, hr⟩ | ⟨-, hfind, hout, -⟩ | ⟨-, -, hne, -⟩
  · rw [hr] at hdata
    exact absurd hdata (invalidOutput_ne_data _)
  · rw [← hsound.contentOf_isSome] at hfind
    obtain ⟨content, hcontent⟩ := Option.isSome_iff_exists.mp hfind
    rw [hout, LRUContentStore.get_fst, hcontent]
    rfl
  · exact absurd hdata hne

/-- **A lost update is answered.**  From a fresh store, an update that does not fit leaves the old
content in place, and the next INTEREST gets it. -/
theorem exists_stale_answer (systemConfig : SystemConfig)
    {run : List (NodeEvent × Option OutputData)} {node : NodeState caps}
    {event : NodeEvent} (hfresh : Fresh run node) (hlost : ¬ SavesFresh node event) :
    ∃ inputData,
      let r := nodeStep systemConfig node event
      let out := (handleInterestReceive systemConfig inputData r.2).1
      out.signalCode = SignalCode.toString .data ∧
        lastWritten inputData.contentName (run ++ [(event, r.1)]) ≠ some out.content := by
  rcases contentStore_step systemConfig node event with
    ⟨hnone, hcs⟩ | ⟨inputData, alloc, -, hfits, hwritten, hcs⟩
  · -- an event that saves nothing always fits
    exfalso
    cases event with
    | sensorData inputData alloc =>
      have := hnone inputData.contentName
      simp [written] at this
    | data inputData alloc =>
      apply hlost
      intro hfound
      rcases handleDataReceive_cases inputData alloc node with ⟨hmiss, -⟩ | ⟨-, hout, -⟩
      · rw [hfound] at hmiss; cases hmiss
      · have := hnone inputData.contentName
        simp [written, nodeStep, hout, makeOutput] at this
    | _ => exact hlost trivial
  · have hupdate : ¬ UpdateFits inputData node.csRepository := fun h => hlost (hfits.mpr h)
    unfold UpdateFits at hupdate
    push Not at hupdate
    obtain ⟨hfind, hfull, hother⟩ := hupdate
    rw [← hfresh.sound.contentOf_isSome] at hfind
    obtain ⟨old, hold⟩ := Option.isSome_iff_exists.mp hfind
    have hstill : (nodeStep systemConfig node event).2.csRepository.contentOf inputData.contentName
        = some old := by
      rw [hcs, LRUContentStore.contentOf_save_of_full hfull, hold]
    have hsound : (nodeStep systemConfig node event).2.csRepository.Sound := by
      rw [hcs]
      exact (hfresh.sound.save _ alloc).1
    -- any threshold leaves room for an INTEREST that is answered
    have hhop : systemConfig.hopCountThreshold - 2 + 1 < systemConfig.hopCountThreshold := by omega
    obtain ⟨hdata, hcontent⟩ := answer_of_stored
      { inputData with hopCount := systemConfig.hopCountThreshold - 2 } hsound hhop hstill
    refine ⟨_, hdata, ?_⟩
    rw [hcontent, lastWritten_concat, hwritten]
    rw [if_pos rfl]
    show some inputData.content ≠ some old
    rw [← hold]
    exact Ne.symm hother

/-- **Cached answers.**  With memory for every payload, the answers of a run are fresh throughout
exactly when no event of it updates a stored name while every payload slot is in use. -/
theorem freshRun_iff_saves_fresh (caps : BuildCapacity) (systemConfig : SystemConfig)
    (events : List NodeEvent) (halloc : ∀ event ∈ events, AllocSucceeds event) :
    FreshRun caps systemConfig events ↔
      StepRun.Along (nodeStep systemConfig) SavesFresh (NodeState.init caps) events := by
  constructor
  · intro hrun
    by_contra hnot
    obtain ⟨pre, event, post, rfl, hpre, hlost⟩ := StepRun.exists_first_violation _ _ hnot
    have hfresh : Fresh _ _ := fresh_run systemConfig
      (fun e he => halloc e (List.mem_append_left _ he)) hpre
    -- up to the first update that does not fit the store was fresh
    obtain ⟨inputData, hdata, hstale⟩ := exists_stale_answer systemConfig hfresh hlost
    rw [← StepRun.after_concat] at hdata hstale
    rw [← StepRun.trace_concat] at hstale
    exact hstale (hrun (pre ++ [event]) post inputData (by simp) hdata)
  · intro hsaves before after inputData heq out hdata
    subst heq
    have hbefore := ((StepRun.along_append _ _ _ before after).mp hsaves).1
    have hfresh := fresh_run systemConfig (fun e he => halloc e (List.mem_append_left _ he)) hbefore
    exact hfresh.last (stored_of_answer hfresh.sound hdata)

/-- Two slots, one name and three readings: each reading finds a free slot. -/
theorem freshRun_of_three_readings :
    let reading (c : Char) : NodeEvent := .sensorData (.dataFor (ascii ['/', 'a']) (ascii [c])) true
    FreshRun (.uniform 2 (by decide)) {} [reading '1', reading '2', reading '3'] :=
  (freshRun_iff_saves_fresh _ {} _ (by decide)).mpr (by decide)

/-- One slot, one name and two readings: the answer stays the first one. -/
theorem not_freshRun_second_reading :
    ¬ ∀ (caps : BuildCapacity) (systemConfig : SystemConfig) (events : List NodeEvent),
      (∀ event ∈ events, AllocSucceeds event) → FreshRun caps systemConfig events := by
  intro h
  have hbad := h (.uniform 1 (by decide)) {}
    [.sensorData (.dataFor (ascii ['/', 'a']) (ascii ['1'])) true,
      .sensorData (.dataFor (ascii ['/', 'a']) (ascii ['2'])) true] (by decide)
    _ [] (.interestFor (ascii ['/', 'a']) (ascii ['x'])) (by simp; rfl) (by decide)
  revert hbad
  decide

end Icsn
