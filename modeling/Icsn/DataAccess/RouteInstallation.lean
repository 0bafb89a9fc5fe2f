import Icsn.DataAccess.CacheRefinement
import Icsn.DataAccess.ForwardingReads

/-!
# Icsn — what adding a route writes

`addRoute` writes a route to the RIB and then up to two entries to the FIB.  A full RIB refuses a
new name before anything is written; a full set of next hops refuses the hop in its own table alone.

* **`FibAccepts`** — the FIB has room for the entries the call writes.
* `lookup_installRoute_*` — the FIB after the call: the route's entry, the entry of its prefix, and
  the others.
* **`addRoute_installs`** — RIB and FIB side by side, after any sequence of calls.
-/

namespace Icsn

open LRUForwardingInformationBase hiding extractPrefix
open PrefixTreeRIB (installRoute extractPrefix)

namespace CacheIndex

variable {V : Type} {maxSize : Nat} [NeZero maxSize] {x : CacheIndex V maxSize} {key key' : Str}

/-- A put of the key is not refused. -/
def Accepts (x : CacheIndex V maxSize) (key : Str) : Prop :=
  (x.lookup key).isSome = true ∨ x.currentSize < maxSize

instance : Decidable (x.Accepts key) := inferInstanceAs (Decidable (_ ∨ _))

theorem put_eq_true_of_accepts (hx : x.Wf) (h : x.Accepts key) (v : V) :
    (x.put key v).1 = true := by
  rw [← Bool.not_eq_false, put_eq_false_iff hx]
  intro ⟨hnone, hfull⟩
  rcases h with h | h
  · rw [hnone] at h; cases h
  · omega

/-- What was put is looked up, and the other keys keep what they had. -/
theorem Chained.lookup_put_of_accepts (hx : x.Chained) (h : x.Accepts key) (v : V) :
    (x.put key v).2.lookup key' = if key' = key then some v else x.lookup key' := by
  split
  · next heq =>
    rw [heq]
    exact lookup_put_self hx.toWf (put_eq_true_of_accepts hx.toWf h v)
  · next hne => exact hx.lookup_put_ne hne v

end CacheIndex

namespace FixedNodeIdSet

variable {maxItems maxChars : Nat} {s : FixedNodeIdSet maxItems maxChars} {id x : Str}

/-- The set lists the id or has a place left. -/
def HasPlaceFor (s : FixedNodeIdSet maxItems maxChars) (id : Str) : Prop :=
  normalize maxChars id ∈ s.ids ∨ s.ids.length < maxItems

instance : Decidable (s.HasPlaceFor id) := inferInstanceAs (Decidable (_ ∨ _))

theorem normalize_ne_nil (hchars : 0 < maxChars) (hid : id ≠ []) : normalize maxChars id ≠ [] := by
  unfold normalize
  split
  · exact hid
  · intro h
    rcases List.take_eq_nil_iff.mp h with h | h
    · omega
    · exact hid h

/-- **The members after an insert**: the old ones, and the id if there is a place for it. -/
theorem mem_insert_iff (hchars : 0 < maxChars) (hid : id ≠ []) :
    x ∈ (s.insert id).2.ids ↔ x ∈ s.ids ∨ (x = stored maxChars id ∧ s.HasPlaceFor id) := by
  have hadmits : s.Admits id ↔ s.HasPlaceFor id := and_iff_right (normalize_ne_nil hchars hid)
  rcases insert_cases s id with ⟨hnot, heq⟩ | ⟨-, hmem, heq⟩ | ⟨hadm, -, -, heq⟩
  · rw [heq]
    exact (or_iff_left fun h => hnot (hadmits.mpr h.2)).symm
  · -- listed already, and so without a NUL
    have hstored : stored maxChars id = normalize maxChars id :=
      cstr_of_zero_notMem (s.isCString _ hmem).2
    rw [heq, hstored]
    refine (or_iff_left_of_imp fun h => ?_).symm
    rw [h.1]
    exact hmem
  · rw [heq, List.mem_append, List.mem_singleton, and_iff_left (hadmits.mp hadm)]

end FixedNodeIdSet

/-! ## The FIB

The entries that `save` and `saveVirtualEntry` write, as functions of what the FIB held, and when
the FIB takes them.  A write that is refused leaves the FIB as it was. -/

section Fib

variable {caps : BuildCapacity} {maxSize : Nat} [NeZero maxSize]
  {fib : CacheIndex (FIBEntry caps) maxSize} {name k : Str}

/-- The next hops the FIB has for exactly this name. -/
def nextHopsIn (fib : CacheIndex (FIBEntry caps) maxSize) (name : Str) :
    FixedNodeIdSet caps.fibNextHopsPerEntry caps.nodeIdMaxChars :=
  ((fib.lookup name).map FIBEntry.nodeIds).getD .empty

/-- The FIB refuses none of the entries the call writes: the entry of the name, and before it, for a
deep name, the entry of its prefix. -/
def FibAccepts (maxVirtualDepth : Int) (name : Str) (fib : CacheIndex (FIBEntry caps) maxSize) :
    Prop :=
  if nameDepth name ≤ maxVirtualDepth then fib.Accepts name
  else
    let virtualPrefix := extractPrefix name maxVirtualDepth
    fib.Accepts virtualPrefix ∧
      (saveVirtualEntry virtualPrefix (nameDepth name) fib).Accepts name

instance (maxVirtualDepth : Int) : Decidable (FibAccepts maxVirtualDepth name fib) :=
  inferInstanceAs (Decidable (if nameDepth name ≤ maxVirtualDepth then fib.Accepts name else _ ∧ _))

/-- The entry `save` writes. -/
def savedEntry (existing : Option (FIBEntry caps)) (p : FIBPair) : FIBEntry caps :=
  match existing with
  | some existing => savedOver existing p.destinationId
  | none => savedNew p.contentName p.destinationId

/-- The entry `saveVirtualEntry` writes. -/
def markedEntry (existing : Option (FIBEntry caps)) (maximumDepth : Int) : FIBEntry caps :=
  match existing with
  | some existing => raisedTo existing maximumDepth
  | none => { isVirtual := true, maximumDepth }

theorem save_eq_index_put (p : FIBPair) :
    save p fib = (fib.put p.contentName (savedEntry (fib.lookup p.contentName) p)).2 := by
  have hlook : Table.lookup p.contentName fib = fib.lookup p.contentName := rfl
  rw [save, Table.get_of_quiet, hlook]
  cases fib.lookup p.contentName <;> rfl

theorem saveVirtualEntry_eq_index_put (d : Int) :
    saveVirtualEntry name d fib = (fib.put name (markedEntry (fib.lookup name) d)).2 := by
  have hlook : Table.lookup name fib = fib.lookup name := rfl
  rw [saveVirtualEntry, Table.get_of_quiet, hlook]
  cases fib.lookup name <;> rfl

theorem chained_saveVirtualEntry (hx : fib.Chained) (d : Int) :
    (saveVirtualEntry name d fib).Chained := by
  rw [saveVirtualEntry_eq_index_put]
  exact hx.put _ _

theorem chained_save (hx : fib.Chained) (p : FIBPair) : (save p fib).Chained := by
  rw [save_eq_index_put]
  exact hx.put _ _

theorem chained_installRoute (hx : fib.Chained) (M : Int) (name hop : Str) :
    (installRoute M name hop fib).Chained := by
  rw [installRoute]
  split
  · exact chained_save hx _
  · exact chained_save (chained_saveVirtualEntry hx _) _

/-- A mark at a prefix gives no name other next hops. -/
theorem nextHopsIn_saveVirtualEntry (hx : fib.Chained) {pfx : Str} (hacc : fib.Accepts pfx)
    (d : Int) : nextHopsIn (saveVirtualEntry pfx d fib) name = nextHopsIn fib name := by
  unfold nextHopsIn
  rw [saveVirtualEntry_eq_index_put, hx.lookup_put_of_accepts hacc]
  split
  · next heq =>
    rw [heq]
    cases fib.lookup pfx <;> rfl
  · rfl

/-- The entry of a saved name: real, as deep as before, with the hop among its next hops if there is
a place for it. -/
theorem lookup_save_self (hx : fib.Chained) (hacc : fib.Accepts name) {hop : Str}
    (hhop : hop ≠ []) :
    ∃ entry, (save { contentName := name, destinationId := .singleton hop } fib).lookup name
        = some entry ∧ entry.isVirtual = false ∧
      (∀ e, fib.lookup name = some e → entry.maximumDepth = e.maximumDepth) ∧
      ∀ id, id ∈ entry.nodeIds.ids ↔ id ∈ (nextHopsIn fib name).ids ∨
        (id = FixedNodeIdSet.stored caps.nodeIdMaxChars hop ∧
          (nextHopsIn fib name).HasPlaceFor hop) := by
  rw [save_eq_index_put, hx.lookup_put_of_accepts hacc, if_pos rfl]
  refine ⟨_, rfl, ?_⟩
  have hmem : ∀ s : FixedNodeIdSet caps.fibNextHopsPerEntry caps.nodeIdMaxChars, ∀ id,
      id ∈ (s.insertFromStdSet (.singleton hop)).2.ids ↔ id ∈ s.ids ∨
        (id = FixedNodeIdSet.stored caps.nodeIdMaxChars hop ∧ s.HasPlaceFor hop) :=
    fun s id => FixedNodeIdSet.mem_insert_iff caps.nodeIdMaxChars_pos hhop
  unfold nextHopsIn
  cases fib.lookup name with
  | none => exact ⟨rfl, nofun, hmem .empty⟩
  | some existing =>
    refine ⟨rfl, fun e he => ?_, hmem existing.nodeIds⟩
    rw [← Option.some.inj he]; rfl

/-- An entry that is marked stays the entry it was, of a route or of a prefix. -/
theorem lookup_saveVirtualEntry_of_some (hx : fib.Chained) {old : FIBEntry caps}
    (hold : fib.lookup name = some old) (d : Int) :
    ∃ e, (saveVirtualEntry name d fib).lookup name = some e ∧ e.isVirtual = old.isVirtual ∧
      e.nodeIds = old.nodeIds ∧ old.maximumDepth ≤ e.maximumDepth := by
  have hacc : fib.Accepts name := Or.inl (by rw [hold]; rfl)
  rw [saveVirtualEntry_eq_index_put, hx.lookup_put_of_accepts hacc, if_pos rfl, hold]
  exact ⟨_, rfl, rfl, rfl, le_max_left _ _⟩

/-- The entry of a marked prefix reaches the depth it was marked with. -/
theorem lookup_saveVirtualEntry (hx : fib.Chained) (hacc : fib.Accepts name) (d : Int) :
    ∃ e, (saveVirtualEntry name d fib).lookup name = some e ∧ d ≤ e.maximumDepth := by
  rw [saveVirtualEntry_eq_index_put, hx.lookup_put_of_accepts hacc, if_pos rfl]
  refine ⟨_, rfl, ?_⟩
  cases fib.lookup name with
  | none => exact le_rfl
  | some existing => exact le_max_right _ _

/-! ## Installing a route

Up to two writes, the prefix first.  The names are compared with the written ones, so each of the
lemmas has one name in view: the route, its prefix, or another. -/

/-- **The entry of the route.** -/
theorem lookup_installRoute_self (hx : fib.Chained) {M : Int} (hacc : FibAccepts M name fib)
    {hop : Str} (hhop : hop ≠ []) :
    ∃ entry, (installRoute M name hop fib).lookup name = some entry ∧ entry.isVirtual = false ∧
      ∀ id, id ∈ entry.nodeIds.ids ↔ id ∈ (nextHopsIn fib name).ids ∨
        (id = FixedNodeIdSet.stored caps.nodeIdMaxChars hop ∧
          (nextHopsIn fib name).HasPlaceFor hop) := by
  rw [installRoute]
  rw [FibAccepts] at hacc
  by_cases hdepth : nameDepth name ≤ M
  · rw [if_pos hdepth] at hacc ⊢
    obtain ⟨entry, hlook, hreal, -, hids⟩ := lookup_save_self hx hacc hhop
    exact ⟨entry, hlook, hreal, hids⟩
  · rw [if_neg hdepth] at hacc ⊢
    obtain ⟨hpfx, hname⟩ := hacc
    obtain ⟨entry, hlook, hreal, -, hids⟩ :=
      lookup_save_self (chained_saveVirtualEntry hx _) hname hhop
    rw [nextHopsIn_saveVirtualEntry hx hpfx] at hids
    exact ⟨entry, hlook, hreal, hids⟩

/-- **The entry of the prefix** of a deep route. -/
theorem lookup_installRoute_prefix (hx : fib.Chained) {M : Int} (hacc : FibAccepts M name fib)
    {hop : Str} (hhop : hop ≠ []) (hdeep : M < nameDepth name) :
    ∃ e, (installRoute M name hop fib).lookup (extractPrefix name M) = some e ∧
      nameDepth name ≤ e.maximumDepth := by
  have hnot : ¬ nameDepth name ≤ M := not_le.mpr hdeep
  rw [FibAccepts, if_neg hnot] at hacc
  obtain ⟨hpfx, hname⟩ := hacc
  rw [installRoute, if_neg hnot]
  obtain ⟨e, he, hreach⟩ := lookup_saveVirtualEntry hx hpfx (nameDepth name)
  have hx' : (saveVirtualEntry (extractPrefix name M) (nameDepth name) fib).Chained :=
    chained_saveVirtualEntry hx _
  by_cases heq : extractPrefix name M = name
  · -- the route is its own prefix: the mark became the entry of the route
    obtain ⟨entry, hlook, -, hdepth, -⟩ := lookup_save_self hx' hname hhop
    rw [heq] at he hlook hdepth ⊢
    exact ⟨entry, hlook, by rw [hdepth e he]; exact hreach⟩
  · refine ⟨e, ?_, hreach⟩
    dsimp only
    rw [save_eq_index_put, hx'.lookup_put_of_accepts hname, if_neg heq]
    exact he

/-- **A route at the prefix** stays the route it was, with its next hops; its reach may grow. -/
theorem lookup_installRoute_prefix_of_some (hx : fib.Chained) (M : Int) (hop : Str)
    (hne : extractPrefix name M ≠ name) {old : FIBEntry caps}
    (hold : fib.lookup (extractPrefix name M) = some old) :
    ∃ e, (installRoute M name hop fib).lookup (extractPrefix name M) = some e ∧
      e.isVirtual = old.isVirtual ∧ e.nodeIds = old.nodeIds ∧
      old.maximumDepth ≤ e.maximumDepth := by
  rw [installRoute]
  split
  · -- the name is not deep, and the prefix is another one
    rw [save_eq_index_put, hx.lookup_put_ne hne]
    exact ⟨old, hold, rfl, rfl, le_rfl⟩
  · dsimp only
    rw [save_eq_index_put, (chained_saveVirtualEntry hx _).lookup_put_ne hne]
    exact lookup_saveVirtualEntry_of_some hx hold (nameDepth name)

/-- **The other entries** are as they were, also where the FIB is full. -/
theorem lookup_installRoute_ne (hx : fib.Chained) (M : Int) (hop : Str) (hk : k ≠ name)
    (hpfx : k ≠ extractPrefix name M) :
    (installRoute M name hop fib).lookup k = fib.lookup k := by
  rw [installRoute]
  split
  · rw [save_eq_index_put, hx.lookup_put_ne hk]
  · dsimp only
    rw [save_eq_index_put, (chained_saveVirtualEntry hx _).lookup_put_ne hk,
      saveVirtualEntry_eq_index_put, hx.lookup_put_ne hpfx]

end Fib

/-! ## RIB and FIB

A call is refused by the RIB before anything is written, or it is written to both tables, of which
either may lack the room for the hop.  `Installed` has a field for each table and each kind of name.
-/

section Rib

variable {caps : BuildCapacity} {M : Int} {name hop k : Str}

/-- The RIB has no node for the name and no room for one. -/
def RefusedByRib (name : Str) (rib : NodeRIB caps) : Prop :=
  name ∉ rib.tree ∧ caps.ribEntries ≤ rib.tree.keys.length

instance (name : Str) (rib : NodeRIB caps) : Decidable (RefusedByRib name rib) :=
  inferInstanceAs (Decidable (_ ∧ _))

/-- The next hops the RIB has for the name. -/
def ribHops (name : Str) (rib : NodeRIB caps) :
    FixedNodeIdSet caps.ribNextHopsPerNode caps.nodeIdMaxChars :=
  ((rib.tree.lookup name).getD {}).nextHopIds

/-- The node of the tree after the call. -/
def addedNode (name hop : Str) (rib : NodeRIB caps) : RIBEntry caps :=
  { (rib.tree.lookup name).getD {} with
    isReal := true, nextHopIds := ((ribHops name rib).insert hop).2 }

/-- **The two ways of a call**: refused with nothing touched, or written to both tables. -/
theorem addRoute_cases (M : Int) (name hop : Str) (rib : NodeRIB caps) :
    (RefusedByRib name rib ∧ rib.addRoute M name hop = rib) ∨
    (¬ RefusedByRib name rib ∧
      (rib.addRoute M name hop).tree = rib.tree.insert name (addedNode name hop rib) ∧
      (rib.addRoute M name hop).fibRepository.index
        = installRoute M name hop rib.fibRepository.index) := by
  by_cases hrefused : RefusedByRib name rib
  · exact Or.inl ⟨hrefused, if_pos hrefused⟩
  · have hadd : rib.addRoute M name hop = _ := if_neg hrefused
    refine Or.inr ⟨hrefused, by rw [hadd]; rfl, ?_⟩
    rw [hadd, installRoute_map FixedSizeLRUCache.isHom_index]

/-- The RIB after calls of `addRoute`, from boot. -/
def ribAfter (caps : BuildCapacity) (M : Int) (calls : List (Str × Str)) : NodeRIB caps :=
  StepRun.after (routeStep M) (NodeRIB.init caps) (calls.map fun c => .addRoute c.1 c.2)

theorem chained_ribAfter (caps : BuildCapacity) (M : Int) (calls : List (Str × Str)) :
    (ribAfter caps M calls).fibRepository.index.Chained := by
  have hstep : ∀ (rib : NodeRIB caps) op, rib.fibRepository.index.Chained →
      (∃ name hop, op = .addRoute name hop) →
      (routeStep M rib op).2.fibRepository.index.Chained := by
    intro rib op hx ⟨name, hop, hop'⟩
    rw [hop']
    show (rib.addRoute M name hop).fibRepository.index.Chained
    rcases addRoute_cases M name hop rib with ⟨-, heq⟩ | ⟨-, -, hfib⟩
    · rw [heq]; exact hx
    · rw [hfib]; exact chained_installRoute hx M name hop
  refine StepRun.after_invariant hstep CacheIndex.chained_init
    (StepRun.along_of_forall_mem _ (fun op hop => ?_) _)
  obtain ⟨c, -, rfl⟩ := List.mem_map.mp hop
  exact ⟨c.1, c.2, rfl⟩

/-- What a call that the RIB does not refuse leaves behind. -/
structure Installed (M : Int) (name hop : Str) (rib rib' : NodeRIB caps) : Prop where
  /-- The RIB has a node for the name, with the hop if its set had a place. -/
  ribNode : ∃ node, rib'.tree.lookup name = some node ∧ node.isReal = true ∧
    ∀ id, id ∈ node.nextHopIds.ids ↔ id ∈ (ribHops name rib).ids ∨
      (id = FixedNodeIdSet.stored caps.nodeIdMaxChars hop ∧ (ribHops name rib).HasPlaceFor hop)
  /-- With room for the entries, the FIB has a real entry for the name, with the hop if its set
  had a place. -/
  fibEntry : FibAccepts M name rib.fibRepository.index →
    ∃ entry, rib'.fibRepository.index.lookup name = some entry ∧ entry.isVirtual = false ∧
      ∀ id, id ∈ entry.nodeIds.ids ↔ id ∈ (nextHopsIn rib.fibRepository.index name).ids ∨
        (id = FixedNodeIdSet.stored caps.nodeIdMaxChars hop ∧
          (nextHopsIn rib.fibRepository.index name).HasPlaceFor hop)
  /-- And the prefix of a deep name leads to it. -/
  fibPrefix : FibAccepts M name rib.fibRepository.index → M < nameDepth name →
    ∃ e, rib'.fibRepository.index.lookup (extractPrefix name M) = some e ∧
      nameDepth name ≤ e.maximumDepth
  /-- A route or a prefix that is stored there already keeps its kind and its next hops. -/
  fibPrefixKept : extractPrefix name M ≠ name → ∀ old,
    rib.fibRepository.index.lookup (extractPrefix name M) = some old →
    ∃ e, rib'.fibRepository.index.lookup (extractPrefix name M) = some e ∧
      e.isVirtual = old.isVirtual ∧ e.nodeIds = old.nodeIds ∧ old.maximumDepth ≤ e.maximumDepth
  ribOthers : ∀ k, k ≠ name → rib'.tree.lookup k = rib.tree.lookup k
  fibOthers : ∀ k, k ≠ name → k ≠ extractPrefix name M →
    rib'.fibRepository.index.lookup k = rib.fibRepository.index.lookup k

/-- **What adding a route installs**, after any calls of `addRoute`.  A name the RIB has no room for
changes nothing.  Otherwise the RIB gets the route, and so does the FIB when it has room for its
entries, prefix mark included; the hop is in each of the two sets of next hops that had a place for
it; a route stored at the prefix stays one over its own next hops; and nothing else changes. -/
theorem addRoute_installs (caps : BuildCapacity) (M : Int) (calls : List (Str × Str))
    (name hop : Str) (hhop : hop ≠ []) :
    let rib := ribAfter caps M calls
    let rib' := rib.addRoute M name hop
    (RefusedByRib name rib → rib' = rib) ∧
    (¬ RefusedByRib name rib → Installed M name hop rib rib') := by
  intro rib rib'
  have hx : rib.fibRepository.index.Chained := chained_ribAfter caps M calls
  -- refused before anything is written, or written to both tables
  rcases addRoute_cases M name hop rib with ⟨hrefused, heq⟩ | ⟨hnot, htree, hfib⟩
  · exact ⟨fun _ => heq, fun h => absurd hrefused h⟩
  · refine ⟨fun h => absurd h hnot, fun _ => ?_⟩
    exact
      { ribNode := ⟨addedNode name hop rib, by rw [htree, AList.lookup_insert], rfl,
          fun id => FixedNodeIdSet.mem_insert_iff caps.nodeIdMaxChars_pos hhop⟩
        fibEntry := fun hacc => by rw [hfib]; exact lookup_installRoute_self hx hacc hhop
        fibPrefix := fun hacc hdeep => by
          rw [hfib]; exact lookup_installRoute_prefix hx hacc hhop hdeep
        fibPrefixKept := fun hne old hold => by
          rw [hfib]; exact lookup_installRoute_prefix_of_some hx M hop hne hold
        ribOthers := fun k hk => by rw [htree, AList.lookup_insert_ne hk]
        fibOthers := fun k hk hpfx => by rw [hfib]; exact lookup_installRoute_ne hx M hop hk hpfx }

/-- The deep route /a/b over x. -/
theorem addRoute_installs_deep :
    let rib := ribAfter (.uniform 2 (by decide)) 1 []
    let rib' := rib.addRoute 1 (ascii ['/', 'a', '/', 'b']) (ascii ['x'])
    (RefusedByRib (ascii ['/', 'a', '/', 'b']) rib → rib' = rib) ∧
    (¬ RefusedByRib (ascii ['/', 'a', '/', 'b']) rib →
      Installed 1 (ascii ['/', 'a', '/', 'b']) (ascii ['x']) rib rib') :=
  addRoute_installs _ 1 [] (ascii ['/', 'a', '/', 'b']) (ascii ['x']) (by decide)

/-- Both tables hold the route over the hop, and the prefix of a deep name leads to it. -/
def RouteHeld (M : Int) (name hop : Str) (rib : NodeRIB caps) : Prop :=
  let hopId := FixedNodeIdSet.stored caps.nodeIdMaxChars hop
  (rib.tree.lookup name).any (fun node => decide (hopId ∈ node.nextHopIds.ids)) = true ∧
  (rib.fibRepository.index.lookup name).any
    (fun e => decide (e.isVirtual = false ∧ hopId ∈ e.nodeIds.ids)) = true ∧
  (M < nameDepth name → (rib.fibRepository.index.lookup (extractPrefix name M)).any
    (fun e => decide (nameDepth name ≤ e.maximumDepth)) = true)

instance (M : Int) (name hop : Str) (rib : NodeRIB caps) : Decidable (RouteHeld M name hop rib) :=
  inferInstanceAs (Decidable (_ ∧ _ ∧ (_ → _)))

/-- With one next hop to a node of the RIB and two to an entry of the FIB, the second hop of /a is
in the FIB alone. -/
theorem not_addRoute_all_or_nothing :
    ¬ ∀ (caps : BuildCapacity) (M : Int) (calls : List (Str × Str)) (name hop : Str),
      name ≠ [] → hop ≠ [] →
      let rib := ribAfter caps M calls
      let rib' := rib.addRoute M name hop
      RouteHeld M name hop rib' ∨
        ((∀ k, rib'.tree.lookup k = rib.tree.lookup k) ∧
          ∀ k, rib'.fibRepository.index.lookup k = rib.fibRepository.index.lookup k) := by
  intro h
  have hbad := h { BuildCapacity.uniform 2 (by decide) with
      ribNextHopsPerNode := 1, ribNextHopsPerNode_pos := by decide } 1
    [(ascii ['/', 'a'], ascii ['x'])] (ascii ['/', 'a']) (ascii ['y']) (by decide) (by decide)
  rcases hbad with hheld | ⟨-, hsame⟩
  · revert hheld
    decide
  · have hentry := hsame (ascii ['/', 'a'])
    revert hentry
    decide

end Rib

end Icsn
