import Icsn.Controller.ConfiguredHmac
import Icsn.Controller.PacketCodec
import Icsn.DataAccess.InstalledRoutes
import Icsn.UseCase.RouteFollowing

/-!
# Icsn — from the routes in the file to the next hops of an INTEREST

The list `fib_init` of the configuration against what a booted node does with INTERESTs.

* **`documentRoutes`** — the routes of the document; `fibInitRoutes_loadFibInit` says that these are
  the ones loaded.
* **`node_loadAndApplyConfig`** — the boot adds them one after the other.
* **`FollowsList`** — the answer of a node that forwards by a list of routes.
* **`interests_follow_configuration`** — with room for the routes, this is how a node answers in
  every run of its handlers.
-/

namespace Icsn

open SeparatedName (cut depth Covers)

/-! ## The routes of the document

The texts of a route are cut to the fields of an entry when it is loaded, and an element with a
missing text is passed over.  Both are put into `documentRoute`, so that what follows can speak of
the document alone. -/

/-- The route of an element of `fib_init`, as much of its texts as an entry takes. -/
def documentRoute (fibEntry : Json) : Option (Str × Str) :=
  let content := (fibEntry.get (ascii ['c', 'o', 'n', 't', 'e', 'n', 't'])).orEmpty
  let nextHop := (fibEntry.get (ascii ['n', 'e', 'x', 't', '_', 'h', 'o', 'p'])).orEmpty
  if content ≠ [] ∧ nextHop ≠ [] then some (content.take 63, nextHop.take 17) else none

/-- The routes of a list `fib_init`. -/
def documentRoutes (fibArray : List Json) : List (Str × Str) :=
  (fibArray.filterMap documentRoute).take maxFibInitEntries

/-- The route of an entry, if it is valid. -/
def FibInitEntry.route? (entry : FibInitEntry) : Option (Str × Str) :=
  if entry.valid then some (cstr entry.contentName.toList, cstr entry.nextHopMac.toList) else none

/-- The routes of a configuration. -/
def SystemConfig.fibInitRoutes (systemConfig : SystemConfig) : List (Str × Str) :=
  (systemConfig.fibInitEntries.toList.take systemConfig.fibInitCount).filterMap FibInitEntry.route?

theorem zero_notMem_orEmpty (value : Json) : (0 : UInt8) ∉ value.orEmpty := by
  cases value with
  | string s => exact zero_notMem_cstr s
  | _ => exact List.not_mem_nil

/-- An entry holds its texts up to their last but one byte. -/
theorem route?_of_texts {content nextHop : Str} (hcontent : (0 : UInt8) ∉ content)
    (hnextHop : (0 : UInt8) ∉ nextHop) :
    FibInitEntry.route? { contentName := strncpy 64 content 63
                          nextHopMac := strncpy 18 nextHop 17
                          valid := true } = some (content.take 63, nextHop.take 17) := by
  have hname : cstr (strncpy 64 content 63).toList = (cstr content).take 63 :=
    cstr_copyField 64 content
  have hhop : cstr (strncpy 18 nextHop 17).toList = (cstr nextHop).take 17 :=
    cstr_copyField 18 nextHop
  rw [FibInitEntry.route?, if_pos rfl]
  dsimp only
  rw [hname, hhop, cstr_of_zero_notMem hcontent, cstr_of_zero_notMem hnextHop]

/-- **The loop over `fib_init`** appends the routes of its elements while there is room. -/
theorem fibInitRoutes_loadFibInit (fibArray : List Json) {systemConfig : SystemConfig}
    (hlen : systemConfig.fibInitRoutes.length = systemConfig.fibInitCount)
    (hcount : systemConfig.fibInitCount ≤ maxFibInitEntries) :
    (loadFibInit fibArray systemConfig).fibInitRoutes
      = (systemConfig.fibInitRoutes ++ fibArray.filterMap documentRoute).take
          maxFibInitEntries := by
  -- over the elements, from any number of entries in use on
  induction fibArray generalizing systemConfig with
  | nil =>
    rw [loadFibInit, List.filterMap_nil, List.append_nil, List.take_of_length_le (by omega)]
  | cons fibEntry fibArray ih =>
    rw [loadFibInit]
    split
    · next h =>
      have hcontent := zero_notMem_orEmpty
        (fibEntry.get (ascii ['c', 'o', 'n', 't', 'e', 'n', 't']))
      have hnextHop := zero_notMem_orEmpty
        (fibEntry.get (ascii ['n', 'e', 'x', 't', '_', 'h', 'o', 'p']))
      rw [List.filterMap_cons, documentRoute]
      dsimp only
      generalize (fibEntry.get (ascii ['c', 'o', 'n', 't', 'e', 'n', 't'])).orEmpty = content
        at hcontent ⊢
      generalize (fibEntry.get (ascii ['n', 'e', 'x', 't', '_', 'h', 'o', 'p'])).orEmpty = nextHop
        at hnextHop ⊢
      by_cases htexts : content ≠ [] ∧ nextHop ≠ []
      · rw [if_pos htexts, if_pos htexts]
        have hset : systemConfig.fibInitCount
            < systemConfig.fibInitEntries.toList.length := by
          rw [List.Vector.toList_length]
          exact h
        -- one entry more is in use, and it is the one just written
        have hroutes : SystemConfig.fibInitRoutes { systemConfig with
            fibInitEntries := systemConfig.fibInitEntries.set ⟨systemConfig.fibInitCount, h⟩
              { contentName := strncpy 64 content 63
                nextHopMac := strncpy 18 nextHop 17
                valid := true }
            fibInitCount := systemConfig.fibInitCount + 1 }
            = systemConfig.fibInitRoutes ++ [(content.take 63, nextHop.take 17)] := by
          unfold SystemConfig.fibInitRoutes
          dsimp only
          rw [List.Vector.toList_set, List.take_succ_eq_append_getElem
            (by rw [List.length_set]; exact hset), List.getElem_set_self,
            List.take_set_of_le le_rfl, List.filterMap_append, List.filterMap_cons,
            route?_of_texts hcontent hnextHop]
          rfl
        refine (ih ?_ ?_).trans ?_
        · rw [hroutes, List.length_append, hlen]
          rfl
        · exact h
        · rw [hroutes, List.append_assoc]
          rfl
      · rw [if_neg htexts, if_neg htexts]
        exact ih hlen hcount
    · next h =>
      -- the array is full, and the loop ends
      rw [List.take_append_of_le_length (by omega), List.take_of_length_le (by omega)]

/-- **The configuration has the routes of its document.** -/
theorem fibInitRoutes_loadSystemConfig {file : ConfigFile} {document : Json}
    (hdocument : file.document? = some document) (old : SystemConfig) :
    (loadSystemConfig file old).2.fibInitRoutes
      = documentRoutes
        (document.get (ascii ['f', 'i', 'b', '_', 'i', 'n', 'i', 't'])).elements := by
  unfold loadSystemConfig
  rw [hdocument]
  dsimp only
  rw [fibInitRoutes_loadFibInit _ rfl (Nat.zero_le _)]
  rfl

/-! ## The boot

The routes are added after the keys, by the same call that a command would make.  So the node after
the boot is the node after a run of such events. -/

namespace ESP_NOWController

variable {caps : BuildCapacity}

/-- **A configuration installs its routes** on the node, one after the other. -/
theorem node_loadAndApplyConfig (systemConfig : SystemConfig) (c : ESP_NOWController caps) :
    (c.loadAndApplyConfig systemConfig).node
      = StepRun.after (nodeStep systemConfig) c.node (bootEvents systemConfig.fibInitRoutes) := by
  -- the loop over the keys does not touch the node
  have hpeers : ∀ (entries : List PeerKeyConfig) (c : ESP_NOWController caps),
      (entries.foldl (fun c entry =>
        if entry.valid then (c.setPeerLMK entry.mac entry.key).2 else c) c).node = c.node := by
    intro entries
    induction entries with
    | nil => exact fun _ => rfl
    | cons entry entries ih =>
      intro c
      rw [List.foldl_cons, ih]
      split <;> rfl
  -- an entry that is not valid adds no route
  have hroutes : ∀ (entries : List FibInitEntry) (c : ESP_NOWController caps),
      (entries.foldl (fun c entry => if entry.valid then
        c.initFIBEntry systemConfig (cstr entry.contentName.toList) (cstr entry.nextHopMac.toList)
        else c) c).node
        = StepRun.after (nodeStep systemConfig) c.node
            (bootEvents (entries.filterMap FibInitEntry.route?)) := by
    intro entries
    induction entries with
    | nil => exact fun _ => rfl
    | cons entry entries ih =>
      intro c
      rw [List.foldl_cons, ih, List.filterMap_cons, FibInitEntry.route?]
      by_cases hvalid : entry.valid = true
      · rw [if_pos hvalid, if_pos hvalid]
        rfl
      · rw [if_neg hvalid, if_neg hvalid]
  unfold loadAndApplyConfig
  dsimp only
  rw [hroutes, hpeers]
  show StepRun.after _ _ (bootEvents systemConfig.fibInitRoutes) = _
  congr 1
  split <;> split <;> rfl

end ESP_NOWController

/-! ## Forwarding by a list of routes

The statement about the FIB is carried over to the list: which names are routes, which is the
longest on a name, and which next hops an entry keeps of those the list has for it. -/

/-- Of the names in the list that have a separator, `r` is the longest on the name. -/
def IsLongestOf (names : List Str) (name r : Str) : Prop :=
  (r ∈ names ∧ slash ∈ r ∧ Covers slash r name) ∧
  ∀ r' ∈ names, slash ∈ r' → Covers slash r' name → r'.length ≤ r.length

/-- The next hops that an entry of the FIB keeps of those the list gives a name. -/
def keptHops (caps : BuildCapacity) (routes : List (Str × Str)) (name : Str) : StdSet :=
  .ofList (firstDistinct caps.fibNextHopsPerEntry
    (cutIds caps.nodeIdMaxChars (hopsTo name routes)))

/-- A node that forwards by the list answers the INTEREST so. -/
structure FollowsList (caps : BuildCapacity) (routes : List (Str × Str)) (inputData : InputData)
    (out : OutputData) : Prop where
  forwarded : ∀ r, IsLongestOf (routes.map Prod.fst) inputData.contentName r →
    out = makeOutput (inputData.destId.begin?.getD []) (keptHops caps routes r)
      (SignalCode.toString .interest) (inputData.hopCount + 1) inputData.contentName
      inputData.content
  dropped : (∀ r ∈ routes.map Prod.fst, slash ∈ r → ¬ Covers slash r inputData.contentName) →
    out = invalidOutput (inputData.hopCount + 1)

/-- The event adds no route, and it is no INTEREST for a prefix that deep routes are marked at, if
that is no route itself and some route covers it. -/
def KeepsList (m : Nat) (routes : List (Str × Str)) : NodeEvent → Prop
  | .initFIBEntry _ _ => False
  | .interest inputData =>
    inputData.contentName ∉ routes.map Prod.fst → IsMarked m routes inputData.contentName →
      ∀ r ∈ routes.map Prod.fst, slash ∈ r → ¬ Covers slash r inputData.contentName
  | _ => True

instance (m : Nat) (routes : List (Str × Str)) (name : Str) : Decidable (IsMarked m routes name) :=
  inferInstanceAs (Decidable (∃ route ∈ routes, _))

instance (m : Nat) (routes : List (Str × Str)) : ∀ event, Decidable (KeepsList m routes event)
  | .initFIBEntry _ _ => inferInstanceAs (Decidable False)
  | .interest inputData => inferInstanceAs (Decidable (inputData.contentName ∉ _ → _))
  | .data _ _ | .sensorData _ _ | .clearCSCache | .clearPITCache =>
    inferInstanceAs (Decidable True)

section Lists

variable {caps : BuildCapacity} {m : Nat} {routes : List (Str × Str)}
  {fib : CacheIndex (FIBEntry caps) caps.fibEntries} {name r : Str} {e : FIBEntry caps}

/-- The longest route in the FIB is one of the list. -/
theorem FibOf.covers_of_isLongestRoute (h : FibOf m routes routes fib.lookup)
    (he : IsLongestRoute fib name e) :
    ∃ r ∈ routes.map Prod.fst, slash ∈ r ∧ Covers slash r name := by
  obtain ⟨r, hr, hslash, hcov, -⟩ := he
  obtain ⟨hlook, hreal⟩ := realEntries_eq_some_iff.mp hr
  exact ⟨r, (h.real_iff r e hlook).mp hreal, hslash, hcov⟩

/-- **The longest name of the list** has the entry of the longest route. -/
theorem FibOf.isLongestRoute (h : FibOf m routes routes fib.lookup)
    (hr : IsLongestOf (routes.map Prod.fst) name r) :
    ∃ e, IsLongestRoute fib name e ∧ e.nodeIds.toStdSet = keptHops caps routes r := by
  obtain ⟨⟨hmem, hslash, hcov⟩, hlongest⟩ := hr
  obtain ⟨e, he⟩ := Option.isSome_iff_exists.mp (h.route r hmem)
  have hreal := (h.real_iff r e he).mpr hmem
  refine ⟨e, ⟨r, realEntries_eq_some_iff.mpr ⟨he, hreal⟩, hslash, hcov, fun r' hr' => ?_⟩,
    congrArg OrderedSet.ofList (h.hops r e he)⟩
  obtain ⟨e', he'⟩ := Option.ne_none_iff_exists'.mp hr'
  obtain ⟨hlook', hreal'⟩ := realEntries_eq_some_iff.mp he'
  exact hlongest r' ((h.real_iff r' e' hlook').mp hreal')

/-- An event that spares the list spares the FIB. -/
theorem FibOf.keepsRoutes (h : FibOf m routes routes fib.lookup) {event : NodeEvent}
    (hevent : KeepsList m routes event) : KeepsRoutes fib event := by
  cases event with
  | interest inputData =>
    rintro ⟨mark, hmark, hvirtual⟩ e he
    obtain ⟨r, hr, hslash, hcov⟩ := h.covers_of_isLongestRoute he
    have hnot : inputData.contentName ∉ routes.map Prod.fst := by
      intro hmem
      have hreal := (h.real_iff _ mark hmark).mpr hmem
      rw [hvirtual] at hreal
      cases hreal
    exact hevent hnot (h.marked _ mark hmark hvirtual) r hr hslash hcov
  | initFIBEntry => exact hevent.elim
  | data | sensorData | clearCSCache | clearPITCache => trivial

/-- **Following the FIB** of the list is following the list. -/
theorem FibOf.followsList (h : FibOf m routes routes fib.lookup) {inputData : InputData}
    {out : OutputData} (hout : FollowsRoutes fib inputData out) :
    FollowsList caps routes inputData out where
  forwarded r hr := by
    obtain ⟨e, he, hhops⟩ := h.isLongestRoute hr
    rw [← hhops]
    exact hout.forwarded e he
  dropped hnone := hout.dropped fun e he => by
    obtain ⟨r, hr, hslash, hcov⟩ := h.covers_of_isLongestRoute he
    exact hnone r hr hslash hcov

end Lists

/-! ## Runs

A boot and the events after it are one run from the empty node, which is what the theorem on booted
routes is about. -/

theorem zero_notMem_documentRoutes {fibArray : List Json} {route : Str × Str}
    (hroute : route ∈ documentRoutes fibArray) : (0 : UInt8) ∉ route.2 := by
  obtain ⟨fibEntry, -, hentry⟩ := List.mem_filterMap.mp (List.mem_of_mem_take hroute)
  unfold documentRoute at hentry
  dsimp only at hentry
  split at hentry
  · rw [← Option.some.inj hentry]
    exact fun h => zero_notMem_orEmpty _ (List.mem_of_mem_take h)
  · cases hentry

open ESP_NOWController in
/-- **INTERESTs follow the configuration.**  A node that has loaded a configuration at its start,
with room for the routes of the document, answers so in every run that keeps them: an INTEREST below
the hop limit that misses the Content Store goes to the next hops that the document gives the
longest of its routes on the name, as many as an entry keeps, and nowhere if none covers the
name. -/
theorem interests_follow_configuration {caps : BuildCapacity} (file : ConfigFile)
    (old systemConfig : SystemConfig) (c : ESP_NOWController caps) (document : Json)
    (hdocument : file.document? = some document)
    (happlied : loadAndApplyConfigFile file old (init caps) = (true, systemConfig, c))
    (hM : 1 ≤ systemConfig.maxVirtualDepth)
    (events : List NodeEvent) (inputData : InputData) :
    let routes := documentRoutes
      (document.get (ascii ['f', 'i', 'b', '_', 'i', 'n', 'i', 't'])).elements
    let m := systemConfig.maxVirtualDepth.toNat
    let node := StepRun.after (nodeStep systemConfig) c.node events
    RoutesFit caps m routes → (∀ event ∈ events, KeepsList m routes event) →
    inputData.hopCount + 1 < systemConfig.hopCountThreshold →
    node.csRepository.find inputData.contentName = false →
    FollowsList caps routes inputData (handleInterestReceive systemConfig inputData node).1 := by
  intro routes m node hfit hkeeps hhop hmiss
  obtain ⟨-, rfl, rfl⟩ := loadAndApplyConfigFile_eq_true happlied
  have hm : (loadSystemConfig file old).2.maxVirtualDepth = m := by omega
  have hpos : 1 ≤ m := by omega
  have hroutes : (loadSystemConfig file old).2.fibInitRoutes = routes :=
    fibInitRoutes_loadSystemConfig hdocument old
  have hfib : FibOf m routes routes (bootFib caps (loadSystemConfig file old).2 routes).lookup := by
    unfold bootFib
    rw [hm]
    exact fibOf_ribAfter hfit fun route hroute => zero_notMem_documentRoutes hroute
  have hnode : node
      = nodeAfter caps (loadSystemConfig file old).2 (bootEvents routes ++ events) := by
    show StepRun.after _ (ESP_NOWController.loadAndApplyConfig _ _).node events = _
    rw [node_loadAndApplyConfig, hroutes, ← StepRun.after_append]
    rfl
  refine hfib.followsList ?_
  rw [hnode] at hmiss ⊢
  have hrun : HoldsRoutes m _ (nodeAfter caps (loadSystemConfig file old).2 _) :=
    holdsRoutes_run hpos hm routes fun event hevent => hfib.keepsRoutes (hkeeps event hevent)
  exact hrun.followsRoutes hpos hm (cover_bootFib hm routes) hhop hmiss

/-- A document with two routes to /a and one to the deeper /a/b. -/
def routesDocument : Json :=
  let route (content nextHop : Str) : Json := .object
    [(ascii ['c', 'o', 'n', 't', 'e', 'n', 't'], .string content),
      (ascii ['n', 'e', 'x', 't', '_', 'h', 'o', 'p'], .string nextHop)]
  .object
    [(ascii ['M', 'A', 'X', '_', 'V', 'I', 'R', 'T', 'U', 'A', 'L', '_', 'D', 'E', 'P', 'T', 'H'],
        .int 1),
      (ascii ['f', 'i', 'b', '_', 'i', 'n', 'i', 't'],
        .array [route (ascii ['/', 'a']) (ascii ['x']), route (ascii ['/', 'a']) (ascii ['y']),
          route (ascii ['/', 'a', '/', 'b']) (ascii ['z'])])]

open ESP_NOWController in
/-- After an INTEREST for /a/c, one for /a/b/d. -/
theorem interests_follow_configuration_deep :
    let file : ConfigFile := { mounted := true, opened := true, parsed := some routesDocument }
    let caps : BuildCapacity := .uniform 4 (by decide)
    let booted := loadAndApplyConfigFile file {} (init caps)
    let inputData : InputData := .interestFor (ascii ['/', 'a', '/', 'b', '/', 'd']) (ascii ['w'])
    FollowsList caps
      (documentRoutes
        (routesDocument.get (ascii ['f', 'i', 'b', '_', 'i', 'n', 'i', 't'])).elements)
      inputData
      (handleInterestReceive booted.2.1 inputData
        (StepRun.after (nodeStep booted.2.1) booted.2.2.node
          [.interest (.interestFor (ascii ['/', 'a', '/', 'c']) (ascii ['w']))])).1 := by
  intro file caps booted inputData
  exact interests_follow_configuration file {} booted.2.1 booted.2.2 routesDocument rfl rfl
    (by decide) _ inputData (by decide) (by decide) (by decide) (by decide)

end Icsn
