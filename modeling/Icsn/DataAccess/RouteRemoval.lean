import Icsn.DataAccess.ForwardingLookup

/-!
# Icsn — what removing a route does to the other routes

RIB and FIB side by side, over runs of `addRoute` and `removeRoute` in which no entry is refused.

* **`RouteInv`** — the FIB's real entries are the routes of the RIB, and `Cover` holds; so the
  lookup of a route's own name gives its own entry (`RouteInv.lookup_own`).
* **`KeepsOthers`** — the removals that keep the invariant.  One FIB entry can be the real entry of
  a route of depth `maxVirtualDepth` and the virtual entry above deeper routes at once; the clean-up
  deletes it when either goes.
* **`removeRoute_keeps_others`** — in a run of such removals each takes away its own route only.
-/

namespace Icsn

open SeparatedName (cut depth Covers longestMatch)
open LRUForwardingInformationBase

variable {caps : BuildCapacity}

/-! ## Lookups after the FIB operations

One lemma an operation of the FIB, over the bounded map. -/

section Lookups

variable {cap : Nat} {fib : BoundedMap Str (FIBEntry caps) cap} {name k : Str}

theorem lookup_remove (name k : Str) (fib : BoundedMap Str (FIBEntry caps) cap) :
    (remove name fib).lookup k = if k = name then none else fib.lookup k := by
  rw [remove, BoundedMap.table_contains, BoundedMap.table_remove]
  by_cases hk : k = name
  · subst hk
    rw [if_pos rfl]
    split
    · exact BoundedMap.lookup_remove_self k fib
    · next h => simpa using h
  · rw [if_neg hk]
    split
    · exact BoundedMap.lookup_remove_ne hk fib
    · rfl

theorem lookup_save_ne {p : FIBPair} (hne : k ≠ p.contentName) :
    (save p fib).lookup k = fib.lookup k := by
  rw [save_eq_put, BoundedMap.lookup_put_ne hne]

theorem realEntries_save_self {p : FIBPair} (hacc : fib.Accepts p.contentName) :
    realEntries (save p fib).lookup p.contentName ≠ none := by
  rw [realEntries, save_eq_put, BoundedMap.lookup_put_self hacc]
  cases fib.lookup p.contentName <;> simp [Option.filter, savedOver, savedNew]

theorem lookup_saveVirtualEntry_ne (hne : k ≠ name) (d : Int) :
    (saveVirtualEntry name d fib).lookup k = fib.lookup k := by
  rw [saveVirtualEntry_eq_put, BoundedMap.lookup_put_ne hne]

/-- A virtual mark makes no route and unmakes none. -/
theorem realEntries_saveVirtualEntry_iff (d : Int) :
    realEntries (saveVirtualEntry name d fib).lookup k ≠ none ↔
      realEntries fib.lookup k ≠ none := by
  by_cases hk : k = name
  swap
  · rw [realEntries, lookup_saveVirtualEntry_ne hk, realEntries]
  subst hk
  rw [realEntries, realEntries, saveVirtualEntry_eq_put, BoundedMap.lookup_put]
  split
  · cases hold : fib.lookup k with
    | none => simp [Option.filter]
    | some e => cases hv : e.isVirtual <;> simp [Option.filter, raisedTo, hv]
  · rfl

end Lookups

/-! ## Routes and real entries

Real entries and routes are the same names, so that a lookup of a route by its own name cannot stop
at anything longer or shorter. -/

/-- The FIB's real entries are the routes. -/
structure RouteInv (m : Nat) (rib : MapRIB caps) : Prop where
  cover : Cover m rib.fibRepository.lookup
  real_iff : ∀ k, realEntries rib.fibRepository.lookup k ≠ none ↔ k ∈ rib.tree

theorem routeInv_init (m : Nat) : RouteInv m (MapRIB.init caps) where
  cover := (lookupInv_init m).cover
  real_iff k := by
    have hnone : realEntries (MapRIB.init caps).fibRepository.lookup k = none := rfl
    have hmem : k ∉ (MapRIB.init caps).tree := AList.notMem_empty k
    exact ⟨fun h => absurd hnone h, fun h => absurd h hmem⟩

namespace RouteInv

variable {m : Nat} {rib : MapRIB caps}

/-- An entry deeper than `m` is a route's. -/
theorem mem_tree_of_deep (hinv : RouteInv m rib) {k : Str} {e : FIBEntry caps}
    (hk : rib.fibRepository.lookup k = some e) (hlt : m < depth slash k) : k ∈ rib.tree := by
  apply (hinv.real_iff k).mp
  have hv : e.isVirtual = false := by
    -- a virtual entry sits at depth `m`
    by_contra hv
    have := hinv.cover.virtual_depth hk (by simpa using hv)
    omega
  rw [realEntries_eq_some_iff.mpr ⟨hk, hv⟩]
  simp

/-- **The lookup of a route's own name gives its own entry.** -/
theorem lookup_own (hinv : RouteInv m rib) (hm : 1 ≤ m) {name : Str} (hname : name ∈ rib.tree) :
    (fibLpmLookup name (nameDepth name) m rib.fibRepository).1
      = if slash ∈ name then rib.fibRepository.lookup name else none := by
  rw [fibLpmLookup_eq_longestMatch (t := rib.fibRepository) hm hinv.cover name]
  show longestMatch slash (realEntries rib.fibRepository.lookup) name (depth slash name) = _
  by_cases hslash : slash ∈ name
  · obtain ⟨d, hd⟩ : ∃ d, depth slash name = d + 1 :=
      ⟨depth slash name - 1, by
        have : 0 < depth slash name := List.count_pos_iff.mpr hslash
        omega⟩
    obtain ⟨e, he⟩ := Option.ne_none_iff_exists'.mp ((hinv.real_iff name).mpr hname)
    rw [if_pos hslash, hd, longestMatch, ← hd, SeparatedName.cut_of_depth_le le_rfl, he]
    exact (realEntries_eq_some_iff.mp he).1.symm
  · have hzero : depth slash name = 0 := List.count_eq_zero.mpr hslash
    rw [if_neg hslash, hzero]; rfl

end RouteInv

/-! ## Adding a route

Within the capacities nothing is refused, so a call adds exactly one real entry, besides a virtual
one. -/

/-- No entry `installRoute` writes is refused. -/
def FitsFib (maxVirtualDepth : Int) (contentName : Str) {cap : Nat}
    (fib : BoundedMap Str (FIBEntry caps) cap) : Prop :=
  if nameDepth contentName ≤ maxVirtualDepth then fib.Accepts contentName
  else
    let virtualPrefix := extractPrefix contentName maxVirtualDepth
    fib.Accepts virtualPrefix ∧
      (saveVirtualEntry virtualPrefix (nameDepth contentName) fib).Accepts contentName

instance (maxVirtualDepth : Int) (contentName : Str) {cap : Nat}
    (fib : BoundedMap Str (FIBEntry caps) cap) :
    Decidable (FitsFib maxVirtualDepth contentName fib) := by
  unfold FitsFib; infer_instance

/-- The call changes the routes and goes beyond no capacity of the RIB or the FIB. -/
def WithinCapacity (maxVirtualDepth : Int) (rib : MapRIB caps) : RouteOp → Prop
  | .addRoute contentName _ =>
    (contentName ∈ rib.tree ∨ rib.tree.keys.length < caps.ribEntries) ∧
      FitsFib maxVirtualDepth contentName rib.fibRepository
  | .removeRoute _ => True
  | _ => False

instance (maxVirtualDepth : Int) (rib : MapRIB caps) :
    ∀ op, Decidable (WithinCapacity maxVirtualDepth rib op)
  | .addRoute contentName _ => inferInstanceAs (Decidable (_ ∧ FitsFib _ contentName _))
  | .removeRoute _ => inferInstanceAs (Decidable True)
  | .find _ | .get _ => inferInstanceAs (Decidable False)

/-- An installed route is one more real entry. -/
theorem realEntries_installRoute_iff {m cap : Nat} {fib : BoundedMap Str (FIBEntry caps) cap}
    {contentName nextHopId k : Str} (hfits : FitsFib m contentName fib) :
    realEntries (PrefixTreeRIB.installRoute m contentName nextHopId fib).lookup k ≠ none ↔
      k = contentName ∨ realEntries fib.lookup k ≠ none := by
  rw [PrefixTreeRIB.installRoute]
  rw [FitsFib] at hfits
  by_cases hk : k = contentName
  · subst hk
    simp only [true_or, iff_true]
    split
    · -- a route down to `maxVirtualDepth` is one entry, a deeper one comes after its prefix mark
      next hle => rw [if_pos hle] at hfits; exact realEntries_save_self hfits
    · next hlt => rw [if_neg hlt] at hfits; exact realEntries_save_self hfits.2
  · simp only [hk, false_or]
    split
    · rw [realEntries, lookup_save_ne hk, realEntries]
    · rw [realEntries, lookup_save_ne hk]
      exact realEntries_saveVirtualEntry_iff _

theorem RouteInv.addRoute {m : Nat} {rib : MapRIB caps} (hinv : RouteInv m rib)
    {contentName nextHopId : Str} (hfits : WithinCapacity m rib (.addRoute contentName nextHopId)) :
    RouteInv m (rib.addRoute m contentName nextHopId) := by
  have hroom : ¬ (contentName ∉ rib.tree ∧ caps.ribEntries ≤ rib.tree.keys.length) := by
    rintro ⟨hnew, hfull⟩
    exact hfits.1.elim hnew fun h => absurd h (not_lt.mpr hfull)
  rw [PrefixTreeRIB.addRoute, if_neg hroom]
  refine ⟨hinv.cover.installRoute _ _, fun k => ?_⟩
  rw [realEntries_installRoute_iff hfits.2, hinv.real_iff k, AList.mem_insert]

/-! ## Removing a route

A removal takes out the entry of the route and, if no deeper route is left under it, that of the
prefix.  It harms another route where these two meet in one entry, and `KeepsOthers` leaves just
these removals out. -/

/-- Removing `contentName` leaves the other routes their entries: it is not the prefix of depth
`maxVirtualDepth` of a deeper route, and if it is the last deeper route under its own prefix, that
prefix is no route. -/
def KeepsOthers (maxVirtualDepth : Int) (rib : MapRIB caps) (contentName : Str) : Prop :=
  (∀ name ∈ rib.tree.keys, name ≠ contentName → nameDepth name > maxVirtualDepth →
    PrefixTreeRIB.extractPrefix name maxVirtualDepth ≠ contentName) ∧
  (nameDepth contentName > maxVirtualDepth →
    let virtualPrefix := PrefixTreeRIB.extractPrefix contentName maxVirtualDepth
    virtualPrefix ∈ rib.tree → PrefixTreeRIB.prefixStillNeeded maxVirtualDepth virtualPrefix
      (rib.tree.erase contentName) = true)

instance (maxVirtualDepth : Int) (rib : MapRIB caps) (contentName : Str) :
    Decidable (KeepsOthers maxVirtualDepth rib contentName) := by
  unfold KeepsOthers; infer_instance

/-- The removals of the run are of that kind. -/
def SafeRemoval (maxVirtualDepth : Int) (rib : MapRIB caps) : RouteOp → Prop
  | .removeRoute contentName => KeepsOthers maxVirtualDepth rib contentName
  | _ => True

instance (maxVirtualDepth : Int) (rib : MapRIB caps) :
    ∀ op, Decidable (SafeRemoval maxVirtualDepth rib op)
  | .removeRoute contentName => inferInstanceAs (Decidable (KeepsOthers _ rib contentName))
  | .addRoute _ _ | .find _ | .get _ => inferInstanceAs (Decidable True)

/-- An entry can go when no deeper entry is left below it. -/
theorem Cover.remove {m cap : Nat} {fib : BoundedMap Str (FIBEntry caps) cap}
    (hcov : Cover m fib.lookup) {name : Str}
    (hbelow : ∀ k e, k ≠ name → fib.lookup k = some e → m < depth slash k →
      cut slash k m ≠ name) :
    Cover m (LRUForwardingInformationBase.remove name fib).lookup := by
  have hold : ∀ {k e}, (LRUForwardingInformationBase.remove name fib).lookup k = some e →
      k ≠ name ∧ fib.lookup k = some e := by
    intro k e hk
    rw [lookup_remove] at hk
    split at hk
    · cases hk
    · next hne => exact ⟨hne, hk⟩
  constructor
  case virtual_depth => exact fun hk hv => hcov.virtual_depth (hold hk).2 hv
  case reach_depth => exact fun hk h1 h2 => hcov.reach_depth (hold hk).2 h1 h2
  case covered =>
    intro k e hk hlt
    obtain ⟨hne, hk⟩ := hold hk
    obtain ⟨e', he', hreach⟩ := hcov.covered hk hlt
    exact ⟨e', by rw [lookup_remove, if_neg (hbelow k e hne hk hlt)]; exact he', hreach⟩

theorem realEntries_remove_iff {cap : Nat} {fib : BoundedMap Str (FIBEntry caps) cap}
    {name k : Str} :
    realEntries (remove name fib).lookup k ≠ none ↔ k ≠ name ∧ realEntries fib.lookup k ≠ none := by
  rw [realEntries, lookup_remove, realEntries]
  by_cases hk : k = name <;> simp [hk]

/-- **What a removal does**: the route is gone from the RIB, its entry and possibly that of its
prefix are gone from the FIB, and the prefix is gone only when no deeper route needs it. -/
theorem removeRoute_cases (m : Nat) (rib : MapRIB caps) (contentName : Str) :
    (rib.removeRoute m contentName).tree = rib.tree.erase contentName ∧
    ((rib.removeRoute m contentName).fibRepository = remove contentName rib.fibRepository ∨
      (nameDepth contentName > (m : Int) ∧
        PrefixTreeRIB.prefixStillNeeded m (cut slash contentName m)
          (rib.tree.erase contentName) = false ∧
        (rib.removeRoute m contentName).fibRepository
          = remove (cut slash contentName m) (remove contentName rib.fibRepository))) := by
  rw [PrefixTreeRIB.removeRoute]
  dsimp only
  rw [rib_extractPrefix_eq_cut]
  by_cases hdeep : nameDepth contentName > (m : Int)
  · rw [if_pos hdeep]
    cases hneed : PrefixTreeRIB.prefixStillNeeded m (cut slash contentName m)
        (rib.tree.erase contentName) with
    | true => exact ⟨rfl, Or.inl rfl⟩
    | false => exact ⟨rfl, Or.inr ⟨hdeep, rfl, rfl⟩⟩
  · rw [if_neg hdeep]
    exact ⟨rfl, Or.inl rfl⟩

section Removal

variable {m : Nat} {rib : MapRIB caps} {contentName : Str}

/-- Removing a route's own entry keeps the cover: no deeper route lies below it. -/
theorem RouteInv.cover_remove (hinv : RouteInv m rib) (hkeep : KeepsOthers m rib contentName) :
    Cover m (remove contentName rib.fibRepository).lookup := by
  refine hinv.cover.remove fun k e hne hk hlt => ?_
  rw [← rib_extractPrefix_eq_cut]
  exact hkeep.1 k (hinv.mem_tree_of_deep hk hlt) hne (by rw [nameDepth_eq_depth]; omega)

/-- A prefix that no deeper route needs has no deeper entry below it. -/
theorem RouteInv.no_deep_below (hinv : RouteInv m rib) {k pfx : Str} {e : FIBEntry caps}
    (hneed : PrefixTreeRIB.prefixStillNeeded m pfx (rib.tree.erase contentName) = false)
    (hne : k ≠ contentName) (hk : rib.fibRepository.lookup k = some e) (hlt : m < depth slash k) :
    cut slash k m ≠ pfx := by
  intro heq
  have hmem : k ∈ rib.tree.erase contentName :=
    AList.mem_erase.mpr ⟨hne, hinv.mem_tree_of_deep hk hlt⟩
  have hany : PrefixTreeRIB.prefixStillNeeded m pfx (rib.tree.erase contentName) = true := by
    refine List.any_eq_true.mpr ⟨k, AList.mem_keys.mp hmem, ?_⟩
    rw [rib_extractPrefix_eq_cut, nameDepth_eq_depth]
    simpa using ⟨hlt, heq⟩
  rw [hneed] at hany
  cases hany

/-- **A safe removal keeps the invariant.** -/
theorem RouteInv.removeRoute (hinv : RouteInv m rib) (hkeep : KeepsOthers m rib contentName) :
    RouteInv m (rib.removeRoute m contentName) := by
  obtain ⟨htree, hfib⟩ := removeRoute_cases m rib contentName
  rcases hfib with hfib | ⟨hdeep, hneed, hfib⟩
  · refine ⟨by rw [hfib]; exact hinv.cover_remove hkeep, fun k => ?_⟩
    rw [hfib, htree, realEntries_remove_iff, hinv.real_iff, AList.mem_erase]
  · -- the prefix entry goes too: by `hkeep` the prefix is no route
    have hprefix : cut slash contentName m ∉ rib.tree := by
      intro hmem
      rw [← rib_extractPrefix_eq_cut] at hmem hneed
      have := hkeep.2 hdeep hmem
      rw [hneed] at this; cases this
    refine ⟨?_, fun k => ?_⟩
    · rw [hfib]
      -- what the second removal leaves uncovered would be a deeper route under the prefix
      refine (hinv.cover_remove hkeep).remove fun k e _ hk hlt => ?_
      rw [lookup_remove] at hk
      split at hk
      · cases hk
      · next hne => exact hinv.no_deep_below hneed hne hk hlt
    · rw [hfib, htree, realEntries_remove_iff, realEntries_remove_iff, hinv.real_iff,
        AList.mem_erase]
      constructor
      · exact fun h => h.2
      · exact fun h => ⟨fun heq => hprefix (heq ▸ h.2), h⟩

/-- The entries of the other routes are untouched. -/
theorem RouteInv.lookup_removeRoute (hinv : RouteInv m rib) (hkeep : KeepsOthers m rib contentName)
    {name : Str} (hname : name ∈ (rib.removeRoute m contentName).tree) :
    (rib.removeRoute m contentName).fibRepository.lookup name
      = rib.fibRepository.lookup name := by
  obtain ⟨htree, hfib⟩ := removeRoute_cases m rib contentName
  -- a route that is left has a real entry left, so it is not the removed prefix
  have hreal := ((hinv.removeRoute hkeep).real_iff name).mpr hname
  rw [htree] at hname
  have hne := (AList.mem_erase.mp hname).1
  rcases hfib with hfib | ⟨-, -, hfib⟩
  · rw [hfib, lookup_remove, if_neg hne]
  · rw [hfib] at hreal ⊢
    rw [lookup_remove, if_neg (realEntries_remove_iff.mp hreal).1, lookup_remove, if_neg hne]

end Removal

/-! ## Runs

The invariant along a run of calls within the capacities.  What a removal does is then stated for
the state it is made in. -/

/-- The next hops a lookup of the name gives. -/
def nextHopsOf (maxVirtualDepth : Int) (rib : MapRIB caps) (name : Str) : Option StdSet :=
  (fibLpmLookup name (nameDepth name) maxVirtualDepth rib.fibRepository).1.map
    fun e => e.nodeIds.toStdSet

/-- `removeRoute contentName` removes its own route only: every route left in the RIB is looked up
under its own name as before, and no real entry of `contentName` is left in the FIB. -/
def RemovesOnlyOwn (maxVirtualDepth : Int) (rib : MapRIB caps) (contentName : Str) : Prop :=
  let rib' := rib.removeRoute maxVirtualDepth contentName
  (∀ name ∈ rib'.tree.keys,
    nextHopsOf maxVirtualDepth rib' name = nextHopsOf maxVirtualDepth rib name ∧
      (slash ∈ name → (nextHopsOf maxVirtualDepth rib' name).isSome = true)) ∧
  realEntries rib'.fibRepository.lookup contentName = none

/-- **One call** within the capacities, and safe if it is a removal, keeps the invariant. -/
theorem RouteInv.step {m : Nat} {rib : MapRIB caps} {op : RouteOp} (hinv : RouteInv m rib)
    (hcap : WithinCapacity m rib op) (hsafe : SafeRemoval m rib op) :
    RouteInv m (routeStep m rib op).2 := by
  cases op with
  | addRoute contentName nextHopId => exact hinv.addRoute hcap
  | removeRoute contentName => exact hinv.removeRoute hsafe
  | find => exact hcap.elim
  | get => exact hcap.elim

theorem routeInv_run {m : Nat} {ops : List RouteOp}
    (hcap : StepRun.Along (routeStep m) (WithinCapacity m) (MapRIB.init caps) ops)
    (hsafe : StepRun.Along (routeStep m) (SafeRemoval m) (MapRIB.init caps) ops) :
    RouteInv m (StepRun.after (routeStep m) (MapRIB.init caps) ops) :=
  StepRun.after_invariant (fun _ _ hinv hop => hinv.step hop.1 hop.2) (routeInv_init m)
    (StepRun.along_and _ _ hcap hsafe)

/-- **Removing a route removes only it**, in every run within the capacities whose removals keep
the entries of the others. -/
theorem removeRoute_keeps_others (maxVirtualDepth : Int) (hM : 1 ≤ maxVirtualDepth)
    (ops : List RouteOp) (contentName : Str)
    (hcap : StepRun.Along (routeStep maxVirtualDepth) (WithinCapacity maxVirtualDepth)
      (MapRIB.init caps) ops)
    (hsafe : StepRun.Along (routeStep maxVirtualDepth) (SafeRemoval maxVirtualDepth)
      (MapRIB.init caps) (ops ++ [.removeRoute contentName])) :
    RemovesOnlyOwn maxVirtualDepth
      (StepRun.after (routeStep maxVirtualDepth) (MapRIB.init caps) ops) contentName := by
  -- `maxVirtualDepth` is an `int` of the source; from 1 on it is a depth
  obtain ⟨m, rfl⟩ := Int.eq_ofNat_of_zero_le (by omega : 0 ≤ maxVirtualDepth)
  have hm : 1 ≤ m := by omega
  obtain ⟨hsafe, hlast⟩ := (StepRun.along_append _ _ _ _ _).mp hsafe
  have hinv := routeInv_run hcap hsafe
  have hkeep : KeepsOthers m (StepRun.after (routeStep m) (MapRIB.init caps) ops) contentName :=
    hlast.1
  have hinv' := hinv.removeRoute hkeep
  generalize StepRun.after (routeStep m) (MapRIB.init caps) ops = rib at hinv hkeep hinv'
  have htree := (removeRoute_cases m rib contentName).1
  constructor
  · intro name hname
    have hname' : name ∈ rib.tree := by
      have : name ∈ (rib.removeRoute m contentName).tree := hname
      rw [htree] at this
      exact (AList.mem_erase.mp this).2
    rw [nextHopsOf, nextHopsOf, hinv'.lookup_own hm hname, hinv.lookup_own hm hname',
      hinv.lookup_removeRoute hkeep hname]
    refine ⟨rfl, fun hslash => ?_⟩
    -- a route has a real entry under its own name, before and after
    obtain ⟨e, he⟩ := Option.ne_none_iff_exists'.mp ((hinv.real_iff name).mpr hname')
    rw [if_pos hslash, (realEntries_eq_some_iff.mp he).1]; rfl
  · by_contra hne
    have hmem := (hinv'.real_iff contentName).mp hne
    rw [htree] at hmem
    exact (AList.mem_erase.mp hmem).1 rfl

/-- Of the two routes /a/b and /a/c under /a, removing one keeps the other. -/
theorem removeRoute_keeps_sibling :
    RemovesOnlyOwn 1
      (StepRun.after (routeStep 1) (MapRIB.init (.uniform 4 (by decide)))
        [.addRoute (ascii ['/', 'a', '/', 'b']) (ascii ['x']),
          .addRoute (ascii ['/', 'a', '/', 'c']) (ascii ['y'])])
      (ascii ['/', 'a', '/', 'b']) :=
  removeRoute_keeps_others 1 (by decide) _ _ (by decide) (by decide)

/-- With `maxVirtualDepth` 1, the entry of /a is also the prefix entry of /a/b: removing the route
/a leaves the route /a/b without a way to be found. -/
theorem not_removesOnlyOwn_prefix_route :
    ¬ ∀ (caps : BuildCapacity) (maxVirtualDepth : Int), 1 ≤ maxVirtualDepth →
      ∀ (ops : List RouteOp) (contentName : Str),
        StepRun.Along (routeStep maxVirtualDepth) (WithinCapacity maxVirtualDepth)
          (MapRIB.init caps) ops →
        RemovesOnlyOwn maxVirtualDepth
          (StepRun.after (routeStep maxVirtualDepth) (MapRIB.init caps) ops) contentName := by
  intro h
  have hbad := h (.uniform 4 (by decide)) 1 (by decide)
    [.addRoute (ascii ['/', 'a']) (ascii ['x']),
      .addRoute (ascii ['/', 'a', '/', 'b']) (ascii ['y'])]
    (ascii ['/', 'a']) (by decide)
  have hlost := (hbad.1 (ascii ['/', 'a', '/', 'b']) (by decide)).1
  revert hlost
  decide

end Icsn
