import Icsn.DataAccess.ContentMap
import Icsn.DataAccess.PendingMap
import Icsn.UseCase.RouteFollowing

/-!
# Icsn — the node against a forwarder of finite maps

What a node is for: it answers an INTEREST with the content it has for the name, or else remembers
who asked and passes the INTEREST on along the longest route; it gives a DATA to everybody who asked
and keeps its content.  The `Forwarder` says this with two finite maps and a function for the
routes, where the node has hash tables with linear probing, payload slots, arrays of node ids and a
FIB that it rewrites while it forwards.

* **`forwarderStep`** — the abstract node.
* **`StandsFor`** — the node's tables stand for the forwarder's maps; `StandsFor.interest`,
  `StandsFor.data` and `standsFor_step` are its one step.
* **`refinesForwarder_iff_removes_safe`** — from boot on, a run of the node cannot be told from one
  of the forwarder exactly when no DATA removes a pending name from the probe of another.
-/

namespace Icsn

open LRUContentStore (StoreRel keep)
open LRUPendingInterestTable (PendingRel ask requesters)
open SeparatedName (longestMatch depth)

variable {caps : BuildCapacity} {systemConfig : SystemConfig}

/-! ## The forwarder

A node as it is meant to be: maps that lose nothing, and routes that stay as they are.  It is
written with the same steps as the handlers, so that the two can be compared answer by answer. -/

/-- The contents kept, and for each pending name everybody who asked for it, in order. -/
structure Forwarder (caps : BuildCapacity) where
  contents : BoundedMap Str Str caps.csEntries
  pending : BoundedMap Str (List Str) caps.pitEntries

namespace Forwarder

def init (caps : BuildCapacity) : Forwarder caps := { contents := .empty, pending := .empty }

/-- An INTEREST. -/
def interest (systemConfig : SystemConfig) (nextHops : Str → Option StdSet)
    (inputData : InputData) (f : Forwarder caps) : OutputData × Forwarder caps :=
  let hop := inputData.hopCount + 1
  let name := inputData.contentName
  let self := inputData.destId.begin?.getD []
  if hop ≥ systemConfig.hopCountThreshold then (invalidOutput hop, f)
  else
    match f.contents.lookup name with
    | some content =>
      (makeOutput self (.singleton inputData.senderId) (SignalCode.toString .data) 0 name content,
        f)
    | none =>
      let f := { f with pending := ask name inputData.senderId f.pending }
      match nextHops name with
      | some hops =>
        (makeOutput self hops (SignalCode.toString .interest) hop name inputData.content, f)
      | none => (invalidOutput hop, f)

/-- A DATA. -/
def data (inputData : InputData) (alloc : Option Bool) (f : Forwarder caps) :
    OutputData × Forwarder caps :=
  let hop := inputData.hopCount + 1
  let name := inputData.contentName
  match f.pending.lookup name with
  | some askers =>
    (makeOutput (inputData.destId.begin?.getD valueNA) (OrderedSet.ofList (requesters caps askers))
      (SignalCode.toString .data) hop name inputData.content,
      { contents := keep name inputData.content alloc f.contents
        pending := (f.pending.remove name).2 })
  | none => (invalidOutput hop, f)

theorem data_of_pending {f : Forwarder caps} {inputData : InputData} {askers : List Str}
    (h : f.pending.lookup inputData.contentName = some askers) (alloc : Option Bool) :
    f.data inputData alloc =
      (makeOutput (inputData.destId.begin?.getD valueNA)
        (OrderedSet.ofList (requesters caps askers)) (SignalCode.toString .data)
        (inputData.hopCount + 1) inputData.contentName inputData.content,
      { contents := keep inputData.contentName inputData.content alloc f.contents
        pending := (f.pending.remove inputData.contentName).2 }) := by
  unfold data
  dsimp only
  rw [h]

end Forwarder

/-- One event on the forwarder.  Its routes are fixed. -/
def forwarderStep (systemConfig : SystemConfig) (nextHops : Str → Option StdSet)
    (f : Forwarder caps) : NodeEvent → Option OutputData × Forwarder caps
  | .interest inputData =>
    let r := f.interest systemConfig nextHops inputData
    (some r.1, r.2)
  | .data inputData alloc =>
    let r := f.data inputData alloc
    (some r.1, r.2)
  | .sensorData inputData alloc =>
    (none, { f with contents := keep inputData.contentName inputData.content alloc f.contents })
  | .initFIBEntry _ _ => (none, f)
  | .clearCSCache => (none, { f with contents := .empty })
  | .clearPITCache => (none, { f with pending := .empty })

/-- The next hops of the longest route on the name. -/
def longestNextHops (fib : CacheIndex (FIBEntry caps) caps.fibEntries) (name : Str) :
    Option StdSet :=
  (longestMatch slash (realEntries fib.lookup) name (depth slash name)).map
    fun e => e.nodeIds.toStdSet

/-! ## Events

The forwarder has no way to change routes, so the events of a run keep them; and it has no hash
table, so a removal that loses another name is where the two part. -/

/-- No NUL in the id of who asks. -/
def SenderNulFree : NodeEvent → Prop
  | .interest inputData => (0 : UInt8) ∉ inputData.senderId
  | _ => True

instance : ∀ event, Decidable (SenderNulFree event)
  | .interest inputData => inferInstanceAs (Decidable ((0 : UInt8) ∉ inputData.senderId))
  | .data _ _ | .sensorData _ _ | .initFIBEntry _ _ | .clearCSCache | .clearPITCache =>
    inferInstanceAs (Decidable True)

/-- A DATA empties no slot of the PIT that the probe of another pending name passes. -/
def RemovesSafely (node : NodeState caps) : NodeEvent → Prop
  | .data inputData _ => node.pitRepository.index.RemoveSafe inputData.contentName
  | _ => True

instance (node : NodeState caps) : ∀ event, Decidable (RemovesSafely node event)
  | .data inputData _ =>
    inferInstanceAs (Decidable (node.pitRepository.index.RemoveSafe inputData.contentName))
  | .interest _ | .sensorData _ _ | .initFIBEntry _ _ | .clearCSCache | .clearPITCache =>
    inferInstanceAs (Decidable True)

/-! ## One event

Three relations put together, for contents, requesters and routes.  An INTEREST keeps all of them; a
DATA needs its removal from the PIT to be safe. -/

/-- The node stands for the forwarder. -/
structure StandsFor (m : Nat) (fib : CacheIndex (FIBEntry caps) caps.fibEntries)
    (node : NodeState caps) (f : Forwarder caps) : Prop where
  contents : StoreRel node.csRepository f.contents
  pending : PendingRel node.pitRepository f.pending
  routes : HoldsRoutes m fib node

section Step

variable {m : Nat} {fib : CacheIndex (FIBEntry caps) caps.fibEntries} {node : NodeState caps}
  {f : Forwarder caps} {inputData : InputData}

/-- What `FollowsRoutes` says of a forwarder's answer. -/
theorem FollowsRoutes.eq_of_longestNextHops {out : OutputData}
    (h : FollowsRoutes fib inputData out) :
    out = match longestNextHops fib inputData.contentName with
      | some hops => makeOutput (inputData.destId.begin?.getD []) hops
        (SignalCode.toString .interest) (inputData.hopCount + 1) inputData.contentName
        inputData.content
      | none => invalidOutput (inputData.hopCount + 1) := by
  unfold longestNextHops
  cases hmatch : longestMatch slash (realEntries fib.lookup) inputData.contentName
      (depth slash inputData.contentName) with
  | some e => exact h.forwarded e (longestMatch_eq_some_iff_isLongestRoute.mp hmatch)
  | none =>
    refine h.dropped fun e he => ?_
    rw [longestMatch_eq_some_iff_isLongestRoute.mpr he] at hmatch
    cases hmatch

/-- **An INTEREST.** -/
theorem StandsFor.interest (h : StandsFor m fib node f) (hm : 1 ≤ m)
    (hM : systemConfig.maxVirtualDepth = m) (hcov : Cover m fib.lookup)
    (hkeeps : KeepsRoutes fib (.interest inputData)) (h0 : (0 : UInt8) ∉ inputData.senderId) :
    let r := handleInterestReceive systemConfig inputData node
    let r' := f.interest systemConfig (longestNextHops fib) inputData
    r.1 = r'.1 ∧ StandsFor m fib r.2 r'.2 := by
  have hroutes : HoldsRoutes m fib (handleInterestReceive systemConfig inputData node).2 :=
    h.routes.step hm hM hcov hkeeps
  have hfind := h.contents.find_eq inputData.contentName
  unfold Forwarder.interest
  dsimp only
  -- over the limit, in the Content Store, or saved in the PIT and looked up in the FIB
  rcases handleInterestReceive_cases systemConfig inputData node with
    ⟨hhop, heq⟩ | ⟨hhop, hfound, hout, hnode⟩ | ⟨hhop, hmiss, -, hcs, hpit⟩
  · rw [if_pos hhop, heq]
    exact ⟨rfl, h⟩
  · rw [if_neg (not_le.mpr hhop)]
    rw [hfound] at hfind
    obtain ⟨content, hcontent⟩ := Option.isSome_iff_exists.mp hfind.symm
    rw [hcontent, hout, h.contents.get_fst, hcontent]
    refine ⟨rfl, ?_⟩
    rw [hnode]
    exact ⟨h.contents.get _, h.pending, h.routes.of_index_eq rfl⟩
  · rw [if_neg (not_le.mpr hhop)]
    rw [hmiss] at hfind
    have hnone : f.contents.lookup inputData.contentName = none := by
      rw [← Option.not_isSome_iff_eq_none, ← hfind]
      decide
    rw [hnone]
    have hanswer := (h.routes.followsRoutes hm hM hcov hhop hmiss).eq_of_longestNextHops
    have hstands : StandsFor m fib (handleInterestReceive systemConfig inputData node).2
        { f with pending := ask inputData.contentName inputData.senderId f.pending } := by
      refine ⟨by rw [hcs]; exact h.contents, ?_, hroutes⟩
      rw [hpit]
      exact h.pending.save inputData.contentName h0
    rw [hanswer]
    dsimp only
    split
    · exact ⟨rfl, hstands⟩
    · exact ⟨rfl, hstands⟩

/-- **A DATA**: the same answer, and, after a safe removal, related tables. -/
theorem StandsFor.data (h : StandsFor m fib node f) (inputData : InputData)
    (alloc : Option Bool) :
    let r := handleDataReceive inputData alloc node
    let r' := f.data inputData alloc
    r.1 = r'.1 ∧ (node.pitRepository.index.RemoveSafe inputData.contentName →
      StandsFor m fib r.2 r'.2) := by
  have hfind := h.pending.find_eq inputData.contentName
  -- a DATA does not touch the FIB
  have hroutes : (handleDataReceive inputData alloc node).2.fibRepository.index
      = node.fibRepository.index := by
    unfold handleDataReceive
    dsimp only
    split <;> rfl
  dsimp only
  rcases handleDataReceive_cases inputData alloc node with
    ⟨hmiss, heq⟩ | ⟨hfound, hout, hpit, hcs⟩
  · have hnone : f.pending.lookup inputData.contentName = none := by
      rw [← Option.not_isSome_iff_eq_none, ← hfind, hmiss]
      decide
    unfold Forwarder.data
    dsimp only
    rw [hnone, heq]
    exact ⟨rfl, fun _ => h⟩
  · rw [hfound] at hfind
    obtain ⟨askers, haskers⟩ := Option.isSome_iff_exists.mp hfind.symm
    rw [Forwarder.data_of_pending haskers alloc, hout, h.pending.get_fst haskers]
    -- the answers are the same in any case; the tables need the removal to be safe
    refine ⟨rfl, fun hsafe => ⟨?_, ?_, h.routes.of_index_eq hroutes⟩⟩
    · rw [hcs]
      exact h.contents.save _ alloc
    · rw [hpit]
      refine (h.pending.get inputData.contentName).remove ?_
      rw [LRUPendingInterestTable.index_get]
      exact hsafe

/-- **One event.** -/
theorem standsFor_step (h : StandsFor m fib node f) (hm : 1 ≤ m)
    (hM : systemConfig.maxVirtualDepth = m) (hcov : Cover m fib.lookup) {event : NodeEvent}
    (hkeeps : KeepsRoutes fib event) (h0 : SenderNulFree event) :
    let r := nodeStep systemConfig node event
    let r' := forwarderStep systemConfig (longestNextHops fib) f event
    r.1 = r'.1 ∧ (RemovesSafely node event → StandsFor m fib r.2 r'.2) := by
  cases event with
  | interest inputData =>
    obtain ⟨hanswer, hstands⟩ := h.interest hm hM hcov hkeeps h0
    exact ⟨congrArg some hanswer, fun _ => hstands⟩
  | data inputData alloc =>
    obtain ⟨hanswer, hstands⟩ := h.data inputData alloc
    exact ⟨congrArg some hanswer, hstands⟩
  | sensorData inputData alloc =>
    refine ⟨rfl, fun _ => ⟨?_, h.pending, h.routes.of_index_eq rfl⟩⟩
    exact h.contents.save ⟨inputData.contentName, inputData.content⟩ alloc
  | initFIBEntry => exact hkeeps.elim
  | clearCSCache => exact ⟨rfl, fun _ => ⟨h.contents.clear, h.pending, h.routes.of_index_eq rfl⟩⟩
  | clearPITCache => exact ⟨rfl, fun _ => ⟨h.contents, h.pending.clear, h.routes.of_index_eq rfl⟩⟩

/-- **An unsafe removal shows**: a DATA for the name it loses is dropped by the node, and delivered
by the forwarder. -/
theorem StandsFor.exists_told (h : StandsFor m fib node f) {event : NodeEvent}
    (hcrossed : ¬ RemovesSafely node event) :
    ∃ inputData : InputData,
      let node' := (nodeStep systemConfig node event).2
      let f' := (forwarderStep systemConfig (longestNextHops fib) f event).2
      (handleDataReceive inputData none node').1 ≠ (f'.data inputData none).1 := by
  cases event with
  | data inputData alloc =>
    have hcrossed' : ¬ node.pitRepository.index.RemoveSafe inputData.contentName := hcrossed
    have hfind := h.pending.find_eq inputData.contentName
    rcases handleDataReceive_cases inputData alloc node with ⟨hmiss, -⟩ | ⟨hfound, -, hpit, -⟩
    · rw [LRUPendingInterestTable.find_eq, Option.isSome_eq_false_iff,
        Option.isNone_iff_eq_none] at hmiss
      exact absurd (CacheIndex.removeSafe_of_lookup_eq_none hmiss) hcrossed'
    · rw [hfound] at hfind
      obtain ⟨askers, haskers⟩ := Option.isSome_iff_exists.mp hfind.symm
      rw [← LRUPendingInterestTable.index_get inputData.contentName] at hcrossed'
      obtain ⟨name, hlost, hkept⟩ := (h.pending.get inputData.contentName).exists_lost hcrossed'
      have hpending : (f.data inputData alloc).2.pending
          = (f.pending.remove inputData.contentName).2 := by
        rw [Forwarder.data_of_pending haskers]
      rw [← hpit] at hlost
      rw [← hpending] at hkept
      obtain ⟨others, hothers⟩ := Option.isSome_iff_exists.mp hkept
      refine ⟨.dataFor name [], fun heq => ?_⟩
      -- the node drops the DATA for the lost name
      have hdropped : (handleDataReceive (.dataFor name []) none
          (handleDataReceive inputData alloc node).2).1 = invalidOutput 1 := by
        rcases handleDataReceive_cases (.dataFor name []) none
          (handleDataReceive inputData alloc node).2 with ⟨-, hout⟩ | ⟨hfound', -⟩
        · rw [hout]
          rfl
        · cases hlost.symm.trans hfound'
      -- and the forwarder delivers it
      have hdelivered : ((f.data inputData alloc).2.data (.dataFor name []) none).1.signalCode
          = SignalCode.toString .data := by
        rw [@Forwarder.data_of_pending caps _ (.dataFor name []) others hothers none]
        rfl
      refine invalidOutput_ne_data 1 ?_
      rw [← hdropped, ← hdelivered]
      exact congrArg OutputData.signalCode heq
  | _ => exact absurd trivial hcrossed

end Step

/-! ## Runs

From the boot on, where the node has its routes and the other tables are empty.  The exact condition
is found with the first unsafe removal, which the next DATA for the lost name shows. -/

/-- Installing routes leaves the other two tables alone. -/
theorem tables_after_bootEvents (routes : List (Str × Str)) (node : NodeState caps) :
    let node' := StepRun.after (nodeStep systemConfig) node (bootEvents routes)
    node'.csRepository = node.csRepository ∧ node'.pitRepository = node.pitRepository := by
  induction routes generalizing node with
  | nil => exact ⟨rfl, rfl⟩
  | cons route routes ih => exact ih _

/-- After boot the node stands for the empty forwarder. -/
theorem standsFor_boot (m : Nat) (routes : List (Str × Str)) :
    StandsFor m (bootFib caps systemConfig routes)
      (nodeAfter caps systemConfig (bootEvents routes)) (.init caps) := by
  obtain ⟨hcs, hpit⟩ := @tables_after_bootEvents caps systemConfig routes (.init caps)
  refine ⟨?_, ?_, holdsRoutes_boot m routes⟩
  · rw [hcs]
    exact LRUContentStore.storeRel_init
  · rw [hpit]
    exact LRUPendingInterestTable.pendingRel_init

/-- The event keeps the routes, and no asker's id has a NUL in it. -/
def Plain (fib : CacheIndex (FIBEntry caps) caps.fibEntries) (event : NodeEvent) : Prop :=
  KeepsRoutes fib event ∧ SenderNulFree event

/-- A run of plain events with safe removals gives the same answers, and ends in related states. -/
theorem standsFor_run {m : Nat} (hm : 1 ≤ m) (hM : systemConfig.maxVirtualDepth = m)
    {routes : List (Str × Str)} {events : List NodeEvent}
    (hplain : ∀ event ∈ events, Plain (bootFib caps systemConfig routes) event)
    (hsafe : StepRun.Along (nodeStep systemConfig) RemovesSafely
      (nodeAfter caps systemConfig (bootEvents routes)) events) :
    let fib := bootFib caps systemConfig routes
    let node := nodeAfter caps systemConfig (bootEvents routes)
    StepRun.outputs (nodeStep systemConfig) node events
        = StepRun.outputs (forwarderStep systemConfig (longestNextHops fib)) (.init caps) events ∧
      StandsFor m fib (StepRun.after (nodeStep systemConfig) node events)
        (StepRun.after (forwarderStep systemConfig (longestNextHops fib)) (.init caps) events) := by
  intro fib node
  have hcov : Cover m fib.lookup := cover_bootFib hM routes
  refine StepRun.outputs_eq_of_simulation ?_ (standsFor_boot m routes)
    (StepRun.along_and _ _ (StepRun.along_of_forall_mem _ hplain _) hsafe)
  intro node f event h hevent
  obtain ⟨hanswer, hstands⟩ := standsFor_step h hm hM hcov hevent.1.1 hevent.1.2
  exact ⟨hanswer, hstands hevent.2⟩

/-- **The node refines the forwarder along `events`**: after boot with these routes, at no point of
the run can a further plain event tell the node from the forwarder. -/
def RefinesForwarder (caps : BuildCapacity) (systemConfig : SystemConfig)
    (routes : List (Str × Str)) (events : List NodeEvent) : Prop :=
  let fib := bootFib caps systemConfig routes
  ∀ before, before <+: events → ∀ event, Plain fib event →
    StepRun.outputs (nodeStep systemConfig) (nodeAfter caps systemConfig (bootEvents routes))
        (before ++ [event])
      = StepRun.outputs (forwarderStep systemConfig (longestNextHops fib)) (Forwarder.init caps)
        (before ++ [event])

/-- **The refinement, and its exact condition.**  Whatever routes a node is given at boot, and for
every run of events that keep them: the node cannot be told from the forwarder if and only if no
DATA of the run empties a slot of the PIT that the probe of another pending name passes. -/
theorem refinesForwarder_iff_removes_safe (caps : BuildCapacity) (systemConfig : SystemConfig)
    (hM : 1 ≤ systemConfig.maxVirtualDepth) (routes : List (Str × Str)) (events : List NodeEvent)
    (hplain : ∀ event ∈ events, Plain (bootFib caps systemConfig routes) event) :
    RefinesForwarder caps systemConfig routes events ↔
      StepRun.Along (nodeStep systemConfig) RemovesSafely
        (nodeAfter caps systemConfig (bootEvents routes)) events := by
  obtain ⟨m, hm⟩ := Int.eq_ofNat_of_zero_le (by omega : 0 ≤ systemConfig.maxVirtualDepth)
  have hpos : 1 ≤ m := by omega
  constructor
  · intro href
    by_contra hviol
    obtain ⟨pre, event, post, rfl, hpre, hcrossed⟩ := StepRun.exists_first_violation _ _ hviol
    -- up to the first unsafe removal the node stands for the forwarder
    have hrun := (standsFor_run hpos hm
      (fun event hevent => hplain event (List.mem_append_left _ hevent)) hpre).2
    obtain ⟨inputData, htold⟩ := @StandsFor.exists_told _ systemConfig _ _ _ _ hrun _ hcrossed
    have hprefix : pre ++ [event] <+: pre ++ event :: post :=
      (List.prefix_append_right_inj pre).mpr ⟨post, rfl⟩
    have hsame := href _ hprefix (.data inputData none) ⟨trivial, trivial⟩
    rw [StepRun.outputs_concat _ _ (pre ++ [event]), StepRun.outputs_concat _ _ (pre ++ [event])]
      at hsame
    have hlast := (List.append_inj' hsame rfl).2
    rw [StepRun.after_concat, StepRun.after_concat, List.cons.injEq] at hlast
    exact htold (Option.some.inj hlast.1)
  · rintro hsafe before ⟨post, rfl⟩ event hevent
    obtain ⟨houtputs, hrun⟩ := standsFor_run hpos hm
      (fun event hevent => hplain event (List.mem_append_left _ hevent))
      ((StepRun.along_append _ _ _ before post).mp hsafe).1
    rw [StepRun.outputs_concat, StepRun.outputs_concat, houtputs,
      (standsFor_step hrun hpos hm (cover_bootFib hm routes) hevent.1 hevent.2).1]

/-- Two neighbours ask for /a/b, which goes along /a, and get its DATA. -/
theorem refinesForwarder_of_two_askers :
    let name := ascii ['/', 'a', '/', 'b']
    RefinesForwarder (.uniform 2 (by decide)) { maxVirtualDepth := 1 }
      [(ascii ['/', 'a'], ascii ['x'])]
      [.interest (.interestFor name (ascii ['y'])), .interest (.interestFor name (ascii ['z'])),
        .data (.dataFor name (ascii ['1'])) (some true)] := by
  intro name
  refine (refinesForwarder_iff_removes_safe _ _ (by decide) _ _ fun event hevent => ?_).mpr
    (by decide)
  have hasked : ∀ sender, Plain (bootFib (.uniform 2 (by decide)) { maxVirtualDepth := 1 }
      [(ascii ['/', 'a'], ascii ['x'])]) (.interest (.interestFor name [sender])) ↔
        (0 : UInt8) ∉ [sender] := by
    intro sender
    have hnone : (bootFib (.uniform 2 (by decide)) { maxVirtualDepth := 1 }
        [(ascii ['/', 'a'], ascii ['x'])]).lookup name = none := by decide
    refine and_iff_right fun hmark => ?_
    obtain ⟨mark, hmark, -⟩ := hmark
    cases hnone.symm.trans hmark
  simp only [List.mem_cons, List.not_mem_nil, or_false] at hevent
  rcases hevent with rfl | rfl | rfl
  · exact (hasked _).mpr (by decide)
  · exact (hasked _).mpr (by decide)
  · exact ⟨trivial, trivial⟩

/-- The DATA for /a empties a slot on the probe of /e. -/
example :
    ¬ StepRun.Along (nodeStep {}) RemovesSafely (NodeState.init (.uniform 2 (by decide)))
      [.interest (.interestFor (ascii ['/', 'a']) (ascii ['y'])),
        .interest (.interestFor (ascii ['/', 'e']) (ascii ['z'])),
        .data (.dataFor (ascii ['/', 'a']) (ascii ['1'])) (some true)] := by
  decide

end Icsn
