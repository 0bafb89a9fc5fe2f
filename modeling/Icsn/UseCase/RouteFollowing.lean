import Icsn.DataAccess.RememberedRoutes
import Icsn.UseCase.UseCaseInteractor

/-!
# Icsn — INTERESTs follow the routes of boot

The routes a node is given at boot against the INTERESTs it forwards later, over whole runs of its
handlers.  Forwarding rewrites the FIB all the time: each forwarded name gets an entry of its own.

* **`FollowsRoutes`** — the answer of a node that forwards by a FIB: to the next hops of the longest
  route on the name, or not at all.
* **`KeepsRoutes`** — the events that leave the routes alone.
* **`interests_follow_boot_routes`** — in a run of such events every INTEREST that misses the
  Content Store is answered by the FIB of boot, however much the FIB has changed since.
-/

namespace Icsn

open SeparatedName (longestMatch IsLongestSeparated depth)

variable {caps : BuildCapacity} {systemConfig : SystemConfig}

/-- The entry is that of the longest route on the name. -/
def IsLongestRoute (fib : CacheIndex (FIBEntry caps) caps.fibEntries) (name : Str)
    (e : FIBEntry caps) : Prop := IsLongestSeparated slash (realEntries fib.lookup) name e

/-- A node that forwards by this FIB answers the INTEREST so. -/
structure FollowsRoutes (fib : CacheIndex (FIBEntry caps) caps.fibEntries)
    (inputData : InputData) (out : OutputData) : Prop where
  forwarded : ∀ e, IsLongestRoute fib inputData.contentName e →
    out = makeOutput (inputData.destId.begin?.getD []) e.nodeIds.toStdSet
      (SignalCode.toString .interest) (inputData.hopCount + 1) inputData.contentName
      inputData.content
  dropped : (∀ e, ¬ IsLongestRoute fib inputData.contentName e) →
    out = invalidOutput (inputData.hopCount + 1)

/-- The event adds no route, and it is no INTEREST that is forwarded for a name under which the FIB
has only the mark of deeper routes: the write-back would replace the mark. -/
def KeepsRoutes (fib : CacheIndex (FIBEntry caps) caps.fibEntries) : NodeEvent → Prop
  | .initFIBEntry _ _ => False
  | .interest inputData =>
    (∃ mark, fib.lookup inputData.contentName = some mark ∧ mark.isVirtual = true) →
      ∀ e, ¬ IsLongestRoute fib inputData.contentName e
  | _ => True

theorem longestMatch_eq_some_iff_isLongestRoute
    {fib : CacheIndex (FIBEntry caps) caps.fibEntries} {name : Str} {e : FIBEntry caps} :
    longestMatch slash (realEntries fib.lookup) name (depth slash name) = some e ↔
      IsLongestRoute fib name e := SeparatedName.longestMatch_eq_some_iff_separated

/-! ## One event

A forwarded INTEREST writes to the FIB; every other event leaves its index alone.  The answer is
read before the write, from a FIB of boot with copies. -/

/-- The node's FIB holds the entries of `fib` and copies of them. -/
structure HoldsRoutes (m : Nat) (fib : CacheIndex (FIBEntry caps) caps.fibEntries)
    (node : NodeState caps) : Prop where
  chained : node.fibRepository.index.Chained
  remembers : Remembers m fib.lookup node.fibRepository.index.lookup

section Step

variable {m : Nat} {fib : CacheIndex (FIBEntry caps) caps.fibEntries} {node : NodeState caps}
  {inputData : InputData}

/-- **A lookup** on the node ends at the next hops of the longest route. -/
theorem HoldsRoutes.lookup (h : HoldsRoutes m fib node) (hm : 1 ≤ m)
    (hcov : Cover m fib.lookup) (name : Str) :
    (matchedEntry m name node.fibRepository.index).map FIBEntry.nodeIds
      = (longestMatch slash (realEntries fib.lookup) name (depth slash name)).map
        FIBEntry.nodeIds := by
  have h' : Remembers m fib.lookup
      (Table.lookup (V := FIBEntry caps) · node.fibRepository.index) := h.remembers
  exact h'.lookup hm hcov name

/-- Only the index of the FIB counts, not its recency order. -/
theorem HoldsRoutes.of_index_eq {node' : NodeState caps} (h : HoldsRoutes m fib node)
    (heq : node'.fibRepository.index = node.fibRepository.index) : HoldsRoutes m fib node' :=
  ⟨by rw [heq]; exact h.chained, by rw [heq]; exact h.remembers⟩

/-- A `get` after a `find` of the same name, as `handleInterestReceive` makes them. -/
theorem HoldsRoutes.findGet (h : HoldsRoutes m fib node) (hm : 1 ≤ m) (hcov : Cover m fib.lookup)
    {name : Str} (hspares : SparesMark fib.lookup name) :
    let found := LRUForwardingInformationBase.find m name node.fibRepository
    let index := (LRUForwardingInformationBase.get m name found.2).2.index
    index.Chained ∧ Remembers m fib.lookup index.lookup := by
  have hindex := index_fibFind m name node.fibRepository
  have hx : (LRUForwardingInformationBase.find m name node.fibRepository).2.index.Chained := by
    rw [hindex]
    exact h.chained
  have hr : Remembers m fib.lookup
      (LRUForwardingInformationBase.find m name node.fibRepository).2.index.lookup := by
    rw [hindex]
    exact h.remembers
  exact ⟨chained_fibGet hx m name, hr.get hx hm hcov hspares⟩

/-- **An INTEREST** leaves the routes where they are. -/
theorem HoldsRoutes.interest (h : HoldsRoutes m fib node) (hm : 1 ≤ m)
    (hM : systemConfig.maxVirtualDepth = m) (hcov : Cover m fib.lookup)
    (hspares : SparesMark fib.lookup inputData.contentName) :
    HoldsRoutes m fib (handleInterestReceive systemConfig inputData node).2 := by
  rcases handleInterestReceive_cases systemConfig inputData node with
    ⟨-, heq⟩ | ⟨-, -, -, heq⟩ | ⟨hhop, hmiss, -, -, -⟩
  · rw [heq]
    exact h
  · rw [heq]
    exact h.of_index_eq rfl
  · obtain ⟨hx, hr⟩ := h.findGet hm hcov hspares
    rcases handleInterestReceive_of_miss hhop hmiss with ⟨-, heq⟩ | ⟨-, heq⟩
    · rw [heq, hM]
      exact ⟨hx, hr⟩
    · -- a `find` alone changes the recency order only
      rw [heq, hM]
      exact h.of_index_eq (index_fibFind m inputData.contentName node.fibRepository)

/-- **One event.** -/
theorem HoldsRoutes.step (h : HoldsRoutes m fib node) (hm : 1 ≤ m)
    (hM : systemConfig.maxVirtualDepth = m) (hcov : Cover m fib.lookup) {event : NodeEvent}
    (hkeeps : KeepsRoutes fib event) : HoldsRoutes m fib (nodeStep systemConfig node event).2 := by
  cases event with
  | interest inputData =>
    refine h.interest hm hM hcov fun hmark => ?_
    rw [Option.eq_none_iff_forall_ne_some]
    exact fun e he => hkeeps hmark e (longestMatch_eq_some_iff_isLongestRoute.mp he)
  | data inputData alloc =>
    refine h.of_index_eq ?_
    show (handleDataReceive inputData alloc node).2.fibRepository.index = _
    unfold handleDataReceive
    dsimp only
    split <;> rfl
  | sensorData inputData alloc => exact h.of_index_eq rfl
  | initFIBEntry => exact hkeeps.elim
  | clearCSCache => exact h.of_index_eq rfl
  | clearPITCache => exact h.of_index_eq rfl

/-- **The answer** to an INTEREST that misses the Content Store. -/
theorem HoldsRoutes.followsRoutes (h : HoldsRoutes m fib node) (hm : 1 ≤ m)
    (hM : systemConfig.maxVirtualDepth = m) (hcov : Cover m fib.lookup)
    (hhop : inputData.hopCount + 1 < systemConfig.hopCountThreshold)
    (hmiss : node.csRepository.find inputData.contentName = false) :
    FollowsRoutes fib inputData (handleInterestReceive systemConfig inputData node).1 := by
  have hmatch := h.lookup hm hcov inputData.contentName
  have hcases := handleInterestReceive_of_miss hhop hmiss
  dsimp only at hcases
  -- the `get` sees the index that the `find` saw
  rw [hM, fibFind_fst, fibGet_fst, index_fibFind] at hcases
  constructor
  · intro e he
    rw [longestMatch_eq_some_iff_isLongestRoute.mpr he] at hmatch
    obtain ⟨e', he', hhops⟩ := Option.map_eq_some_iff.mp hmatch
    rw [he'] at hcases
    rcases hcases with ⟨-, heq⟩ | ⟨hnone, -⟩
    · rw [heq, ← hhops]
      rfl
    · cases hnone
  · intro hnone
    have hnomatch : longestMatch slash (realEntries fib.lookup) inputData.contentName
        (depth slash inputData.contentName) = none := by
      rw [Option.eq_none_iff_forall_ne_some]
      exact fun e he => hnone e (longestMatch_eq_some_iff_isLongestRoute.mp he)
    rw [hnomatch] at hmatch
    rw [Option.map_eq_none_iff.mp hmatch] at hcases
    rcases hcases with ⟨hsome, -⟩ | ⟨-, heq⟩
    · cases hsome
    · rw [heq]

end Step

/-! ## Runs

Installing the routes on the node is what fills the FIB of boot.  From there on it is an induction
over the events that keep them. -/

/-- The events that install the routes at boot. -/
def bootEvents (routes : List (Str × Str)) : List NodeEvent :=
  routes.map fun route => .initFIBEntry route.1 route.2

/-- The FIB that the routes lead to. -/
def bootFib (caps : BuildCapacity) (systemConfig : SystemConfig) (routes : List (Str × Str)) :
    CacheIndex (FIBEntry caps) caps.fibEntries :=
  (ribAfter caps systemConfig.maxVirtualDepth routes).fibRepository.index

/-- Installing routes on a node is adding them to its RIB. -/
theorem ribRepository_after_bootEvents (routes : List (Str × Str)) (node : NodeState caps) :
    (StepRun.after (nodeStep systemConfig) node (bootEvents routes)).ribRepository
      = StepRun.after (routeStep systemConfig.maxVirtualDepth) node.ribRepository
          (routes.map fun c => .addRoute c.1 c.2) := by
  induction routes generalizing node with
  | nil => rfl
  | cons route routes ih => exact ih _

/-- After boot the node's FIB is that of the routes. -/
theorem holdsRoutes_boot (m : Nat) (routes : List (Str × Str)) :
    HoldsRoutes m (bootFib caps systemConfig routes)
      (nodeAfter caps systemConfig (bootEvents routes)) := by
  have hfib : (nodeAfter caps systemConfig (bootEvents routes)).fibRepository.index
      = bootFib caps systemConfig routes :=
    congrArg (fun rib : NodeRIB caps => rib.fibRepository.index)
      (ribRepository_after_bootEvents routes (NodeState.init caps))
  refine ⟨?_, ?_⟩
  · rw [hfib]
    exact chained_ribAfter caps _ routes
  · rw [hfib]
    exact .refl m _

/-- The FIB of boot meets the cover invariant, however many routes there were. -/
theorem cover_bootFib {m : Nat} (hM : systemConfig.maxVirtualDepth = m)
    (routes : List (Str × Str)) : Cover m (bootFib caps systemConfig routes).lookup := by
  unfold bootFib
  rw [hM]
  exact cover_ribAfter m routes

/-- **A run** after boot, of events that leave the routes alone. -/
theorem holdsRoutes_run {m : Nat} (hm : 1 ≤ m) (hM : systemConfig.maxVirtualDepth = m)
    (routes : List (Str × Str)) {events : List NodeEvent}
    (hkeeps : ∀ event ∈ events, KeepsRoutes (bootFib caps systemConfig routes) event) :
    HoldsRoutes m (bootFib caps systemConfig routes)
      (nodeAfter caps systemConfig (bootEvents routes ++ events)) := by
  show HoldsRoutes m _ (StepRun.after _ _ _)
  rw [StepRun.after_append]
  exact StepRun.after_invariant (fun _ _ h hevent => h.step hm hM (cover_bootFib hM routes) hevent)
    (holdsRoutes_boot m routes) (StepRun.along_of_forall_mem _ hkeeps _)

/-- **INTERESTs follow the routes of boot.**  Whatever routes a node is given at boot, within or
beyond its capacities: in a run of events that keep them, every INTEREST below the hop limit that
misses the Content Store goes to the next hops of the longest route on its name in the FIB of boot,
and nowhere if there is none. -/
theorem interests_follow_boot_routes (caps : BuildCapacity) (systemConfig : SystemConfig)
    (hM : 1 ≤ systemConfig.maxVirtualDepth) (routes : List (Str × Str)) (events : List NodeEvent)
    (hkeeps : ∀ event ∈ events, KeepsRoutes (bootFib caps systemConfig routes) event)
    (inputData : InputData)
    (hhop : inputData.hopCount + 1 < systemConfig.hopCountThreshold) :
    let node := nodeAfter caps systemConfig (bootEvents routes ++ events)
    node.csRepository.find inputData.contentName = false →
    FollowsRoutes (bootFib caps systemConfig routes) inputData
      (handleInterestReceive systemConfig inputData node).1 := by
  intro node hmiss
  -- `maxVirtualDepth` is an `int` of the source; from 1 on it is a depth
  obtain ⟨m, hm⟩ := Int.eq_ofNat_of_zero_le (by omega : 0 ≤ systemConfig.maxVirtualDepth)
  have hpos : 1 ≤ m := by omega
  have hrun := holdsRoutes_run hpos hm routes hkeeps
  exact hrun.followsRoutes hpos hm (cover_bootFib hm routes) hhop hmiss

/-- With the routes /a and, with `maxVirtualDepth` 1, the deeper /b/c: after an INTEREST for /a/d
has stored that name in the FIB, one for /b/c/d still goes by /b/c. -/
theorem interests_follow_boot_routes_deep :
    let systemConfig : SystemConfig := { maxVirtualDepth := 1 }
    let routes := [(ascii ['/', 'a'], ascii ['x']), (ascii ['/', 'b', '/', 'c'], ascii ['y'])]
    let name := ascii ['/', 'b', '/', 'c', '/', 'd']
    FollowsRoutes (bootFib (.uniform 8 (by decide)) systemConfig routes)
      (.interestFor name (ascii ['z']))
      (handleInterestReceive systemConfig (.interestFor name (ascii ['z']))
        (nodeAfter (.uniform 8 (by decide)) systemConfig (bootEvents routes ++
          [.interest (.interestFor (ascii ['/', 'a', '/', 'd']) (ascii ['z']))]))).1 := by
  refine interests_follow_boot_routes _ _ (by decide) _ _ (fun event hevent => ?_) _ (by decide)
    (by decide)
  rw [List.mem_singleton.mp hevent]
  rintro ⟨mark, hmark, hvirtual⟩
  have hnone : (bootFib (.uniform 8 (by decide)) { maxVirtualDepth := 1 }
      [(ascii ['/', 'a'], ascii ['x']), (ascii ['/', 'b', '/', 'c'], ascii ['y'])]).lookup
        (ascii ['/', 'a', '/', 'd']) = none := by decide
  cases hnone.symm.trans hmark

/-- An INTEREST for /b/c, where `maxVirtualDepth` is 2, the FIB has the mark of the route /b/c/d
below it and the route /b above it, replaces the mark: INTERESTs for /b/c/d then go by /b. -/
theorem not_interests_follow_boot_routes_marked :
    ¬ ∀ (caps : BuildCapacity) (systemConfig : SystemConfig),
      1 ≤ systemConfig.maxVirtualDepth →
      ∀ (routes : List (Str × Str)) (events : List NodeEvent) (inputData : InputData),
        inputData.hopCount + 1 < systemConfig.hopCountThreshold →
        let node := nodeAfter caps systemConfig (bootEvents routes ++ events)
        node.csRepository.find inputData.contentName = false →
        FollowsRoutes (bootFib caps systemConfig routes) inputData
          (handleInterestReceive systemConfig inputData node).1 := by
  intro h
  have hbad := h (.uniform 8 (by decide)) { maxVirtualDepth := 2 } (by decide)
    [(ascii ['/', 'b'], ascii ['x']), (ascii ['/', 'b', '/', 'c', '/', 'd'], ascii ['y'])]
    [.interest (.interestFor (ascii ['/', 'b', '/', 'c']) (ascii ['z']))]
    (.interestFor (ascii ['/', 'b', '/', 'c', '/', 'd']) (ascii ['z'])) (by decide) (by decide)
  have hroute : SeparatedName.longestMatch slash (realEntries (bootFib (.uniform 8 (by decide))
      { maxVirtualDepth := 2 }
      [(ascii ['/', 'b'], ascii ['x']),
        (ascii ['/', 'b', '/', 'c', '/', 'd'], ascii ['y'])]).lookup)
      (ascii ['/', 'b', '/', 'c', '/', 'd']) 3
      = some { maximumDepth := 3
               nodeIds := (FixedNodeIdSet.empty.insertFromStdSet (.singleton (ascii ['y']))).2 } :=
    by decide
  have hforwarded := hbad.forwarded _ (longestMatch_eq_some_iff_isLongestRoute.mp hroute)
  revert hforwarded
  decide

end Icsn
