import Icsn.DataAccess.RememberedRoutes
import Icsn.DataAccess.NodeIdHistories

/-!
# Icsn — the FIB that a list of routes leads to

`addRoute` over a whole list, where both tables have room for all of it.

* **`RoutesFit`** — the distinct names fit the RIB, and with the prefixes of the deep ones the FIB.
* **`FibOf`** — what the FIB then holds: a real entry for each name, with the first distinct of its
  next hops, and marks at prefixes of deep names.
* **`fibOf_ribAfter`** — on the node's own cache.
-/

namespace Icsn

open SeparatedName (cut depth)
open LRUForwardingInformationBase

variable {caps : BuildCapacity}

/-! ## Lists of routes

What a list of routes says, with no word of tables: the next hops of a name in their order, and the
names that the FIB needs entries for. -/

/-- The next hops that the list gives the name. -/
def hopsTo (name : Str) (routes : List (Str × Str)) : List Str :=
  (routes.filter fun route => decide (route.1 = name)).map Prod.snd

/-- The names and the prefixes that the routes take up in the FIB. -/
def fibNames (m : Nat) (routes : List (Str × Str)) : List Str :=
  routes.map Prod.fst ++
    (routes.filter fun route => decide (m < depth slash route.1)).map fun route =>
      cut slash route.1 m

/-- There is room for all of the routes. -/
def RoutesFit (caps : BuildCapacity) (m : Nat) (routes : List (Str × Str)) : Prop :=
  (routes.map Prod.fst).dedup.length ≤ caps.ribEntries ∧
  (fibNames m routes).dedup.length ≤ caps.fibEntries

instance (caps : BuildCapacity) (m : Nat) (routes : List (Str × Str)) :
    Decidable (RoutesFit caps m routes) := inferInstanceAs (Decidable (_ ∧ _))

section Lists

variable {m : Nat} {name k hop : Str} {routes : List (Str × Str)} {route : Str × Str}

theorem hopsTo_concat (name : Str) (routes : List (Str × Str)) (route : Str × Str) :
    hopsTo name (routes ++ [route])
      = if route.1 = name then hopsTo name routes ++ [route.2] else hopsTo name routes := by
  unfold hopsTo
  rw [List.filter_append, List.filter_singleton, List.map_append]
  by_cases h : route.1 = name
  · rw [if_pos h, decide_eq_true h]
    rfl
  · rw [if_neg h, decide_eq_false h]
    exact List.append_nil _

theorem hopsTo_of_notMem (h : name ∉ routes.map Prod.fst) : hopsTo name routes = [] := by
  unfold hopsTo
  rw [List.map_eq_nil_iff, List.filter_eq_nil_iff]
  intro route hroute hname
  exact h (List.mem_map.mpr ⟨route, hroute, of_decide_eq_true hname⟩)

theorem mem_fibNames_of_route (h : name ∈ routes.map Prod.fst) : name ∈ fibNames m routes :=
  List.mem_append_left _ h

theorem mem_fibNames_of_deep (h : route ∈ routes) (hdeep : m < depth slash route.1) :
    cut slash route.1 m ∈ fibNames m routes :=
  List.mem_append_right _ (List.mem_map.mpr
    ⟨route, List.mem_filter.mpr ⟨h, decide_eq_true hdeep⟩, rfl⟩)

end Lists

/-! ## Writes that find room

With room, the writes of `addRoute` are plain updates of the look-up.  The next hops of an entry
hold the first distinct ones offered to it, as many as it has places. -/

section Writes

variable {fib : BoundedMap Str (FIBEntry caps) caps.fibEntries} {name : Str}

theorem lookup_saveVirtualEntry_of_accepts (hacc : fib.Accepts name) (d : Int) (k : Str) :
    (saveVirtualEntry name d fib).lookup k
      = if k = name then some (markedEntry (fib.lookup name) d) else fib.lookup k := by
  rw [saveVirtualEntry_eq_put, BoundedMap.lookup_put_of_accepts hacc]
  cases fib.lookup name <;> rfl

theorem lookup_save_of_accepts {p : FIBPair} (hacc : fib.Accepts p.contentName) (k : Str) :
    (save p fib).lookup k
      = if k = p.contentName then some (savedEntry (fib.lookup p.contentName) p)
        else fib.lookup k := by
  rw [save_eq_put, BoundedMap.lookup_put_of_accepts hacc]
  cases fib.lookup p.contentName <;> rfl

theorem isVirtual_savedEntry (existing : Option (FIBEntry caps)) (p : FIBPair) :
    (savedEntry existing p).isVirtual = false := by
  cases existing <;> rfl

/-- The set without ids holds what was offered to it so far. -/
theorem holds_empty {maxItems maxChars : Nat} :
    (FixedNodeIdSet.empty : FixedNodeIdSet maxItems maxChars).Holds [] :=
  (List.take_nil : List.take maxItems ([] : List Str) = []).symm

end Writes

/-! ## What the FIB holds

The invariant takes two lists, the routes that are in and those whose prefixes may be marked: while
a route is added, the second is ahead of the first. -/

/-- The name is the prefix of depth `m` of a deeper route. -/
def IsMarked (m : Nat) (routes : List (Str × Str)) (name : Str) : Prop :=
  ∃ route ∈ routes, m < depth slash route.1 ∧ cut slash route.1 m = name

/-- The FIB of the routes, with marks at prefixes of `deep` ones. -/
structure FibOf (m : Nat) (routes deep : List (Str × Str)) (look : Str → Option (FIBEntry caps)) :
    Prop where
  route : ∀ name ∈ routes.map Prod.fst, (look name).isSome = true
  real_iff : ∀ name e, look name = some e → (e.isVirtual = false ↔ name ∈ routes.map Prod.fst)
  marked : ∀ name e, look name = some e → e.isVirtual = true → IsMarked m deep name
  hops : ∀ name e, look name = some e → e.nodeIds.Holds (hopsTo name routes)

namespace FibOf

variable {m : Nat} {routes deep : List (Str × Str)} {name : Str} {e : FIBEntry caps}

theorem mono {deep' : List (Str × Str)} {look : Str → Option (FIBEntry caps)}
    (h : FibOf m routes deep look) (hsub : deep ⊆ deep') : FibOf m routes deep' look where
  route := h.route
  real_iff := h.real_iff
  marked name e he hv := by
    obtain ⟨r, hr, hmark⟩ := h.marked name e he hv
    exact ⟨r, hsub hr, hmark⟩
  hops := h.hops

section Map

variable {fib : BoundedMap Str (FIBEntry caps) caps.fibEntries} {route : Str × Str}

theorem empty (m : Nat) : FibOf m [] [] (BoundedMap.empty :
    BoundedMap Str (FIBEntry caps) caps.fibEntries).lookup where
  route name h := absurd h List.not_mem_nil
  real_iff _ _ h := by cases h
  marked _ _ h := by cases h
  hops _ _ h := by cases h

/-- A name without an entry is no route. -/
theorem notMem_of_none {look : Str → Option (FIBEntry caps)} (h : FibOf m routes deep look)
    (hnone : look name = none) : name ∉ routes.map Prod.fst := by
  intro hmem
  have hsome := h.route name hmem
  rw [hnone] at hsome
  cases hsome

/-- **A mark** at the prefix of a deep route raises how far the entry reaches, or makes a virtual
one. -/
theorem mark (h : FibOf m routes deep fib.lookup) (hroute : route ∈ deep)
    (hdeep : m < depth slash route.1) (hacc : fib.Accepts (cut slash route.1 m)) (d : Int) :
    FibOf m routes deep (saveVirtualEntry (cut slash route.1 m) d fib).lookup := by
  have hmarked : IsMarked m deep (cut slash route.1 m) := ⟨route, hroute, hdeep, rfl⟩
  have hlook := lookup_saveVirtualEntry_of_accepts hacc d
  generalize cut slash route.1 m = pfx at hacc hmarked hlook ⊢
  constructor
  case route =>
    intro name hname
    rw [hlook]
    split
    · rfl
    · exact h.route name hname
  -- a mark makes no route: an entry that was there keeps its kind, a new one is virtual
  case real_iff =>
    intro name e he
    rw [hlook] at he
    split at he
    · next heq =>
      obtain rfl := Option.some.inj he
      subst heq
      cases hold : fib.lookup name with
      | some old => exact h.real_iff name old hold
      | none => exact iff_of_false (fun hv => Bool.noConfusion hv) (h.notMem_of_none hold)
    · exact h.real_iff name e he
  case marked =>
    intro name e he hv
    rw [hlook] at he
    split at he
    · next heq =>
      rw [heq]
      exact hmarked
    · exact h.marked name e he hv
  -- and a new one has no next hops, as its name is no route
  case hops =>
    intro name e he
    rw [hlook] at he
    split at he
    · next heq =>
      obtain rfl := Option.some.inj he
      subst heq
      cases hold : fib.lookup name with
      | some old => exact h.hops name old hold
      | none =>
        rw [hopsTo_of_notMem (h.notMem_of_none hold)]
        exact holds_empty
    · exact h.hops name e he

/-- **A saved route** is one more real entry, or one more next hop of one. -/
theorem save (h : FibOf m routes deep fib.lookup) (hacc : fib.Accepts route.1)
    (hnul : (0 : UInt8) ∉ route.2) :
    FibOf m (routes ++ [route]) deep (LRUForwardingInformationBase.save
      { contentName := route.1, destinationId := .singleton route.2 } fib).lookup := by
  have hmem : ∀ {name}, name ∈ (routes ++ [route]).map Prod.fst ↔
      name ∈ routes.map Prod.fst ∨ name = route.1 := by
    intro name
    rw [List.map_append, List.mem_append, List.map_singleton, List.mem_singleton]
  have hlook := lookup_save_of_accepts (p := { contentName := route.1
                                               destinationId := .singleton route.2 }) hacc
  have hreal := isVirtual_savedEntry (fib.lookup route.1)
    { contentName := route.1, destinationId := .singleton route.2 }
  have hone : ∀ id ∈ (OrderedSet.singleton route.2).toList, (0 : UInt8) ∉ id := by
    intro id hid
    rw [show id = route.2 from OrderedSet.mem_singleton.mp hid]
    exact hnul
  constructor
  case route =>
    intro name hname
    rw [hlook]
    split
    · rfl
    · next hne => exact h.route name ((hmem.mp hname).resolve_right hne)
  -- the name that is saved becomes real, whatever it was
  case real_iff =>
    intro name e he
    rw [hlook] at he
    rw [hmem]
    split at he
    · next heq =>
      obtain rfl := Option.some.inj he
      exact iff_of_true hreal (Or.inr heq)
    · next hne => rw [h.real_iff name e he, or_iff_left hne]
  case marked =>
    intro name e he hv
    rw [hlook] at he
    split at he
    · obtain rfl := Option.some.inj he
      rw [hreal] at hv
      cases hv
    · exact h.marked name e he hv
  -- one more next hop is offered to the entry of the name, and none to the others
  case hops =>
    intro name e he
    rw [hlook] at he
    rw [hopsTo_concat]
    split at he
    · next heq =>
      obtain rfl := Option.some.inj he
      rw [if_pos heq.symm, heq]
      dsimp only
      cases hold : fib.lookup route.1 with
      | some existing => exact (h.hops route.1 existing hold).insertAll hone
      | none =>
        rw [hopsTo_of_notMem (h.notMem_of_none hold)]
        exact holds_empty.insertAll hone
    · next hne =>
      rw [if_neg (Ne.symm hne)]
      exact h.hops name e he

end Map

end FibOf

/-! ## Adding the routes

RIB and FIB side by side.  There is room for the whole list, so there is for each route of it,
whatever the order. -/

section AddRoutes

variable {m : Nat} {all done : List (Str × Str)} {route : Str × Str} {rib : MapRIB caps}

/-- RIB and FIB after the first routes of a list. -/
structure RibOf (m : Nat) (all done : List (Str × Str)) (rib : MapRIB caps) : Prop where
  tree : ∀ name, name ∈ rib.tree ↔ name ∈ done.map Prod.fst
  fib : FibOf m done all rib.fibRepository.lookup

/-- The RIB takes every route of the list. -/
theorem RibOf.has_room (h : RibOf m all done rib) (hfit : RoutesFit caps m all)
    (hdone : done ⊆ all) (hroute : route ∈ all) :
    ¬ (route.1 ∉ rib.tree ∧ caps.ribEntries ≤ rib.tree.keys.length) := by
  rintro ⟨hnew, hfull⟩
  have hnodup : (route.1 :: rib.tree.keys).Nodup :=
    List.nodup_cons.mpr ⟨fun hmem => hnew (AList.mem_keys.mpr hmem), rib.tree.keys_nodup⟩
  have hsub : route.1 :: rib.tree.keys ⊆ (all.map Prod.fst).dedup := by
    intro name hname
    rw [List.mem_dedup]
    rcases List.mem_cons.mp hname with rfl | hname
    · exact List.mem_map_of_mem hroute
    · exact List.map_subset _ hdone ((h.tree name).mp (AList.mem_keys.mp hname))
  have hlen := hnodup.length_le_of_subset hsub
  rw [List.length_cons] at hlen
  have := hfit.1
  omega

/-- The FIB takes every name that the list needs. -/
theorem FibOf.accepts {fib : BoundedMap Str (FIBEntry caps) caps.fibEntries}
    (h : FibOf m done all fib.lookup) (hfit : RoutesFit caps m all) (hdone : done ⊆ all)
    {name : Str} (hname : name ∈ fibNames m all) : fib.Accepts name := by
  refine BoundedMap.accepts_of_subset (fun k hk => ?_) hname hfit.2
  obtain ⟨e, he⟩ := Option.ne_none_iff_exists'.mp hk
  cases hv : e.isVirtual with
  | false =>
    exact mem_fibNames_of_route (List.map_subset _ hdone ((h.real_iff k e he).mp hv))
  | true =>
    obtain ⟨r, hr, hdeep, rfl⟩ := h.marked k e he hv
    exact mem_fibNames_of_deep hr hdeep

/-- **One route.** -/
theorem RibOf.addRoute (h : RibOf m all done rib) (hfit : RoutesFit caps m all)
    (hdone : done ⊆ all) (hroute : route ∈ all) (hnul : (0 : UInt8) ∉ route.2) :
    RibOf m all (done ++ [route]) (rib.addRoute m route.1 route.2) := by
  have hname : route.1 ∈ fibNames m all := mem_fibNames_of_route (List.mem_map_of_mem hroute)
  rw [PrefixTreeRIB.addRoute, if_neg (h.has_room hfit hdone hroute)]
  constructor
  case tree =>
    intro name
    rw [AList.mem_insert, h.tree, List.map_append, List.mem_append, List.map_singleton,
      List.mem_singleton, or_comm]
  case fib =>
    show FibOf m (done ++ [route]) all
      (PrefixTreeRIB.installRoute m route.1 route.2 rib.fibRepository).lookup
    rw [PrefixTreeRIB.installRoute, nameDepth_eq_depth]
    split
    · exact h.fib.save (h.fib.accepts hfit hdone hname) hnul
    · next hlt =>
      have hdeep : m < depth slash route.1 := by omega
      have hmarked := h.fib.mark hroute hdeep
        (h.fib.accepts hfit hdone (mem_fibNames_of_deep hroute hdeep)) (depth slash route.1)
      rw [rib_extractPrefix_eq_cut]
      exact hmarked.save (hmarked.accepts hfit hdone hname) hnul

/-- **The whole list.**  Induction over the routes added so far. -/
theorem ribOf_mapRibAfter {routes : List (Str × Str)} (hfit : RoutesFit caps m routes)
    (hnul : ∀ route ∈ routes, (0 : UInt8) ∉ route.2) :
    RibOf m routes routes (mapRibAfter caps m routes) := by
  have hprefix : ∀ done rest, routes = done ++ rest →
      RibOf m routes done (mapRibAfter caps m done) := by
    intro done
    induction done using List.reverseRecOn with
    | nil =>
      intro rest _
      exact ⟨fun name => iff_of_false (AList.notMem_empty name) List.not_mem_nil,
        (FibOf.empty m).mono (List.nil_subset _)⟩
    | append_singleton done route ih =>
      intro rest hsplit
      have hmem : route ∈ routes := by
        rw [hsplit]
        simp
      have hsub : done ⊆ routes := by
        rw [hsplit, List.append_assoc]
        exact List.subset_append_left _ _
      have hbefore := ih ([route] ++ rest) (by rw [hsplit, List.append_assoc])
      unfold mapRibAfter
      rw [List.map_append, StepRun.after_append]
      exact hbefore.addRoute hfit hsub hmem (hnul route hmem)
  exact hprefix routes [] (List.append_nil _).symm

/-- **The node's FIB** after a list of routes that fits. -/
theorem fibOf_ribAfter {routes : List (Str × Str)} (hfit : RoutesFit caps m routes)
    (hnul : ∀ route ∈ routes, (0 : UInt8) ∉ route.2) :
    FibOf m routes routes (ribAfter caps m routes).fibRepository.index.lookup := by
  have hR : RibRel (ribAfter caps m routes) (mapRibAfter caps m routes) := ribRel_after m routes
  rw [show (ribAfter caps m routes).fibRepository.index.lookup = _ from funext hR.fib.lookup_eq]
  exact (ribOf_mapRibAfter hfit hnul).fib

end AddRoutes

end Icsn
