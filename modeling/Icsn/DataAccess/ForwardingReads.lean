import Icsn.DataAccess.PrefixTreeRIB
import Icsn.DataAccess.FixedSizeLRUCache
import Icsn.DataAccess.CacheIndex
import Icsn.Lib.StepRun

/-!
# Icsn — which lookups only read the forwarding table

The FIB on the node's own cache.  A lookup moves entries to the front of the use order, and `get`
writes its result back under the name it was asked for.

* **`routeStep_map`** — every call acts on the index of the cache alone: the use order decides
  nothing.
* **`GetKeepsFib`** — the `get`s whose write changes nothing; `index_fibGet_eq_iff` says that it is
  exactly these.
* **`reads_drop_out`** — in a run of such `get`s any lookup can be left out, and no remaining call
  can tell.
-/

namespace Icsn

open LRUForwardingInformationBase

variable {caps : BuildCapacity}

/-! ## The calls commute with a map of tables

A map between tables that no operation can tell apart carries every call of the FIB and the RIB
along.  With the index of the cache as this map, the use order is gone from all that follows. -/

section Hom

variable {T T' : Type} [Table T Str (FIBEntry caps)] [Table T' Str (FIBEntry caps)] {f : T → T'}
  (hf : Table.IsHom f)
include hf

theorem lookupEntry_map (name : Str) (d : Int) (t : T) :
    lookupEntry name d (f t) = Prod.map id f (lookupEntry name d t) := hf.get_eq _ t

theorem fibLpmStage1_map (name : Str) (nd M : Int) (pfx : Nat) (t : T) :
    fibLpmStage1 name nd M pfx (f t) = Prod.map id f (fibLpmStage1 name nd M pfx t) := by
  induction pfx generalizing t with
  | zero => rfl
  | succ pfx ih =>
    rw [fibLpmStage1, fibLpmStage1, lookupEntry_map hf]
    obtain ⟨answer, t'⟩ := lookupEntry name (pfx + 1 : Nat) t
    cases answer with
    | none => exact ih t'
    | some e =>
      dsimp only [Prod.map_apply, id_eq]
      split
      · rfl
      · split
        · rfl
        · -- a virtual entry is passed over on both sides
          exact ih t'

theorem fibLpmStage2_map (name : Str) (M : Int) (e1 : FIBEntry caps) (pfx : Nat) (t : T) :
    fibLpmStage2 name M e1 pfx (f t) = Prod.map id f (fibLpmStage2 name M e1 pfx t) := by
  induction pfx generalizing t with
  | zero => rfl
  | succ pfx ih =>
    rw [fibLpmStage2, fibLpmStage2, lookupEntry_map hf]
    split
    · rfl
    · obtain ⟨answer, t'⟩ := lookupEntry name (pfx + 1 : Nat) t
      cases answer with
      | none => exact ih t'
      | some e =>
        dsimp only [Prod.map_apply, id_eq]
        split
        · rfl
        · exact ih t'

theorem fibLpmLookup_map (name : Str) (nd M : Int) (t : T) :
    fibLpmLookup name nd M (f t) = Prod.map id f (fibLpmLookup name nd M t) := by
  rw [fibLpmLookup, fibLpmLookup, fibLpmStage1_map hf]
  obtain ⟨verdict, t'⟩ := fibLpmStage1 name nd M (min nd M).toNat t
  cases verdict with
  | miss => rfl
  | hit e => rfl
  | stage2 startPfx e1 => exact fibLpmStage2_map hf name M e1 _ t'

theorem save_map (p : FIBPair) (t : T) : save p (f t) = f (save p t) := by
  rw [save, save, hf.get_eq]
  obtain ⟨answer, t'⟩ := Table.get p.contentName t
  cases answer with
  | none => exact hf.put_snd _ _ t'
  | some e => exact hf.put_snd _ _ t'

theorem saveVirtualEntry_map (name : Str) (d : Int) (t : T) :
    saveVirtualEntry name d (f t) = f (saveVirtualEntry name d t) := by
  rw [saveVirtualEntry, saveVirtualEntry, hf.get_eq]
  obtain ⟨answer, t'⟩ := Table.get name t
  cases answer with
  | none => exact hf.put_snd _ _ t'
  | some e => exact hf.put_snd _ _ t'

theorem remove_map (name : Str) (t : T) : remove name (f t) = f (remove name t) := by
  rw [remove, remove, hf.contains_eq, hf.remove_eq]
  split <;> rfl

theorem find_map (M : Int) (name : Str) (t : T) :
    find M name (f t) = Prod.map id f (find M name t) := by
  rw [find, find, fibLpmLookup_map hf]; rfl

theorem get_map (M : Int) (name : Str) (t : T) :
    LRUForwardingInformationBase.get M name (f t)
      = Prod.map id f (LRUForwardingInformationBase.get M name t) := by
  rw [LRUForwardingInformationBase.get, LRUForwardingInformationBase.get, fibLpmLookup_map hf]
  obtain ⟨answer, t'⟩ := fibLpmLookup name (nameDepth name) M t
  cases answer with
  | none => rfl
  | some e =>
    show ((_ : StdSet), (Table.put name e (f t')).2) = _
    rw [hf.put_snd]; rfl

theorem installRoute_map (M : Int) (name hop : Str) (t : T) :
    PrefixTreeRIB.installRoute M name hop (f t) = f (PrefixTreeRIB.installRoute M name hop t) := by
  rw [PrefixTreeRIB.installRoute, PrefixTreeRIB.installRoute]
  split
  · exact save_map hf _ t
  · dsimp only
    rw [saveVirtualEntry_map hf, save_map hf]

omit [Table T Str (FIBEntry caps)] [Table T' Str (FIBEntry caps)] hf in
/-- The RIB with another table under it. -/
def PrefixTreeRIB.map (f : T → T') (rib : PrefixTreeRIB caps T) : PrefixTreeRIB caps T' :=
  { fibRepository := f rib.fibRepository, tree := rib.tree }

theorem addRoute_map (M : Int) (name hop : Str) (rib : PrefixTreeRIB caps T) :
    (rib.map f).addRoute M name hop = (rib.addRoute M name hop).map f := by
  rw [PrefixTreeRIB.addRoute, PrefixTreeRIB.addRoute]
  by_cases hfull : name ∉ rib.tree ∧ caps.ribEntries ≤ rib.tree.keys.length
  · have hfull' : name ∉ (rib.map f).tree ∧ caps.ribEntries ≤ (rib.map f).tree.keys.length := hfull
    rw [if_pos hfull, if_pos hfull']
  · have hfull' : ¬ (name ∉ (rib.map f).tree ∧
      caps.ribEntries ≤ (rib.map f).tree.keys.length) := hfull
    rw [if_neg hfull, if_neg hfull']
    show PrefixTreeRIB.mk (PrefixTreeRIB.installRoute M name hop (f rib.fibRepository)) _ = _
    rw [installRoute_map hf]; rfl

theorem removeRoute_map (M : Int) (name : Str) (rib : PrefixTreeRIB caps T) :
    (rib.map f).removeRoute M name = (rib.removeRoute M name).map f := by
  have htree : (rib.map f).tree = rib.tree := rfl
  have hfib : (rib.map f).fibRepository = f rib.fibRepository := rfl
  rw [PrefixTreeRIB.removeRoute, PrefixTreeRIB.removeRoute]
  dsimp only
  rw [htree, hfib, remove_map hf, remove_map hf]
  by_cases hdeep : nameDepth name > M
  · rw [if_pos hdeep, if_pos hdeep]
    split <;> rfl
  · rw [if_neg hdeep, if_neg hdeep]; rfl

/-- **Every call commutes with the map**: it gives the same answer on both tables. -/
theorem routeStep_map (M : Int) (rib : PrefixTreeRIB caps T) (op : RouteOp) :
    routeStep M (rib.map f) op = Prod.map id (PrefixTreeRIB.map f) (routeStep M rib op) := by
  cases op with
  | addRoute name hop => exact congrArg _ (addRoute_map hf M name hop rib)
  | removeRoute name => exact congrArg _ (removeRoute_map hf M name rib)
  | find name =>
    dsimp only [routeStep, PrefixTreeRIB.map]
    rw [find_map hf]; rfl
  | get name =>
    dsimp only [routeStep, PrefixTreeRIB.map]
    rw [get_map hf]; rfl

end Hom

/-! ## Lookups of a quiet table

On a table whose look-ups change nothing, as the index is one, the two stages change nothing either.
-/

section Quiet

variable {T : Type} [Table T Str (FIBEntry caps)] [Table.Quiet T]

theorem fibLpmStage1_snd (name : Str) (nd M : Int) (pfx : Nat) (t : T) :
    (fibLpmStage1 name nd M pfx t).2 = t := by
  induction pfx with
  | zero => rfl
  | succ pfx ih =>
    rw [fibLpmStage1, lookupEntry, Table.get_of_quiet]
    cases Table.lookup (extractPrefix name (pfx + 1 : Nat)) t with
    | none => exact ih
    | some e =>
      dsimp only
      split
      · rfl
      · split
        · rfl
        · exact ih

theorem fibLpmStage2_snd (name : Str) (M : Int) (e1 : FIBEntry caps) (pfx : Nat) (t : T) :
    (fibLpmStage2 name M e1 pfx t).2 = t := by
  induction pfx with
  | zero => rfl
  | succ pfx ih =>
    rw [fibLpmStage2, lookupEntry, Table.get_of_quiet]
    split
    · rfl
    · cases Table.lookup (extractPrefix name (pfx + 1 : Nat)) t with
      | none => exact ih
      | some e =>
        dsimp only
        split
        · rfl
        · exact ih

theorem fibLpmLookup_snd (name : Str) (nd M : Int) (t : T) :
    (fibLpmLookup name nd M t).2 = t := by
  have h1 := fibLpmStage1_snd name nd M (min nd M).toNat t
  rw [fibLpmLookup]
  revert h1
  obtain ⟨verdict, t'⟩ := fibLpmStage1 name nd M (min nd M).toNat t
  rintro rfl
  cases verdict with
  | miss => rfl
  | hit e => rfl
  | stage2 startPfx e1 => exact fibLpmStage2_snd name M e1 _ _

end Quiet

/-! ## What a `get` writes

A `get` of the FIB writes the entry it ends at under the name it was for.  That is nothing new if
the name has this very entry, or if the write is refused. -/

namespace CacheIndex

variable {V : Type} {maxSize : Nat} [NeZero maxSize] {x : CacheIndex V maxSize} {key : Str} {v : V}

/-- Writing the value a key has changes nothing. -/
theorem put_of_lookup_eq (h : x.lookup key = some v) : (x.put key v).2 = x := by
  obtain ⟨s, i, hs, rfl⟩ := lookup_eq_some_iff.mp h
  rw [put, hs]
  show x.overwrite i (x.value i) = x
  rw [overwrite, Function.update_eq_self]

/-- A put changes nothing exactly when the key has the value already, or is refused. -/
theorem put_snd_eq_self_iff (hx : x.Wf) :
    (x.put key v).2 = x ↔
      x.lookup key = some v ∨ (x.lookup key = none ∧ maxSize ≤ x.currentSize) := by
  constructor
  · intro heq
    cases hput : (x.put key v).1 with
    | false => exact Or.inr ((put_eq_false_iff hx v).mp hput)
    | true =>
      -- a put that went through has left the value there
      have := lookup_put_self hx hput
      rw [heq] at this
      exact Or.inl this
  · rintro (h | h)
    · exact put_of_lookup_eq h
    · exact put_of_refused hx ((put_eq_false_iff hx v).mpr h)

end CacheIndex

/-- The FIB of the node. -/
abbrev NodeFIB (caps : BuildCapacity) := FixedSizeLRUCache (FIBEntry caps) caps.fibEntries

/-- The RIB of the node. -/
abbrev NodeRIB (caps : BuildCapacity) := PrefixTreeRIB caps (NodeFIB caps)

/-- Before the first call. -/
def NodeRIB.init (caps : BuildCapacity) : NodeRIB caps := { fibRepository := .init }

/-- The entry the two stages end at, read off the stored entries. -/
def matchedEntry (maxVirtualDepth : Int) (name : Str)
    (fib : CacheIndex (FIBEntry caps) caps.fibEntries) : Option (FIBEntry caps) :=
  (fibLpmLookup name (nameDepth name) maxVirtualDepth fib).1

/-- A `get` of the name writes nothing new: it misses, or the entry it ends at is the one stored
under the name itself, or the name has no entry and the FIB is full. -/
def GetKeepsFib (maxVirtualDepth : Int) (name : Str)
    (fib : CacheIndex (FIBEntry caps) caps.fibEntries) : Prop :=
  ∀ result ∈ matchedEntry maxVirtualDepth name fib,
    fib.lookup name = some result ∨ (fib.lookup name = none ∧ caps.fibEntries ≤ fib.currentSize)

instance (maxVirtualDepth : Int) (name : Str)
    (fib : CacheIndex (FIBEntry caps) caps.fibEntries) :
    Decidable (GetKeepsFib maxVirtualDepth name fib) := by
  unfold GetKeepsFib
  cases matchedEntry maxVirtualDepth name fib with
  | none => exact isTrue fun _ h => by cases h
  | some e =>
    exact decidable_of_iff (fib.lookup name = some e ∨
      (fib.lookup name = none ∧ caps.fibEntries ≤ fib.currentSize)) (by simp)

theorem index_fibFind (M : Int) (name : Str) (fib : NodeFIB caps) :
    (find M name fib).2.index = fib.index := by
  have hmap := find_map FixedSizeLRUCache.isHom_index M name fib
  have hquiet : (find M name fib.index).2 = fib.index := fibLpmLookup_snd name _ M fib.index
  rw [← hquiet, hmap]; rfl

/-- The index after a `get`: the matched entry is put under the name. -/
theorem index_fibGet (M : Int) (name : Str) (fib : NodeFIB caps) :
    (LRUForwardingInformationBase.get M name fib).2.index
      = match matchedEntry M name fib.index with
        | some result => (fib.index.put name result).2
        | none => fib.index := by
  -- the index is a quiet table, so of the whole `get` only the write-back is left
  have hmap := get_map FixedSizeLRUCache.isHom_index M name fib
  have hquiet := fibLpmLookup_snd name (nameDepth name) M fib.index
  have hget : (LRUForwardingInformationBase.get M name fib).2.index
      = (LRUForwardingInformationBase.get M name fib.index).2 := by rw [hmap]; rfl
  rw [hget, LRUForwardingInformationBase.get, matchedEntry]
  revert hquiet
  obtain ⟨answer, x⟩ := fibLpmLookup name (nameDepth name) M fib.index
  rintro rfl
  cases answer <;> rfl

/-- **The harmless `get`s** are exactly those that meet the condition. -/
theorem index_fibGet_eq_iff {M : Int} {name : Str} {fib : NodeFIB caps} (hwf : fib.index.Wf) :
    (LRUForwardingInformationBase.get M name fib).2.index = fib.index ↔
      GetKeepsFib M name fib.index := by
  rw [index_fibGet, GetKeepsFib]
  cases matchedEntry M name fib.index with
  | none => simp
  | some result =>
    dsimp only
    rw [CacheIndex.put_snd_eq_self_iff hwf]
    simp

/-! ## Leaving lookups out of a run

A lookup that meets the condition leaves the index as it was, so the rest of the run, and any call
behind it, sees the same state.  The run with calls left out is then simulated by the full one, up
to the use order. -/

/-- What the outside sees of a call: its answer, the number of FIB entries after it and, after an
`addRoute`, whether the FIB holds the route. -/
structure RouteObs where
  answer : RouteAnswer
  fibSize : Nat
  installed : Option Bool
deriving DecidableEq

/-- The FIB holds a real entry under the name. -/
def holdsRoute {T : Type} [Table T Str (FIBEntry caps)] (name : Str) (fib : T) : Bool :=
  (Table.lookup name fib).any fun e => e.isVirtual = false

/-- `addRoute` was called, and this is whether the FIB holds the route. -/
def installedBy {T : Type} [Table T Str (FIBEntry caps)] (fib : T) : RouteOp → Option Bool
  | .addRoute contentName _ => some (holdsRoute contentName fib)
  | _ => none

/-- One call, observed. -/
def observedStep {T : Type} [Table T Str (FIBEntry caps)] (maxVirtualDepth : Int)
    (rib : PrefixTreeRIB caps T) (op : RouteOp) : RouteObs × PrefixTreeRIB caps T :=
  let r := routeStep maxVirtualDepth rib op
  ({ answer := r.1
     fibSize := Table.size r.2.fibRepository
     installed := installedBy r.2.fibRepository op }, r.2)

/-- The calls that look a name up. -/
def RouteOp.IsLookup : RouteOp → Prop
  | .find _ | .get _ => True
  | _ => False

/-- Every `get` writes nothing new. -/
def GetsKeepFib (maxVirtualDepth : Int) (rib : NodeRIB caps) : RouteOp → Prop
  | .get contentName => GetKeepsFib maxVirtualDepth contentName rib.fibRepository.index
  | _ => True

instance (maxVirtualDepth : Int) (rib : NodeRIB caps) :
    ∀ op, Decidable (GetsKeepFib maxVirtualDepth rib op)
  | .get contentName =>
    inferInstanceAs (Decidable (GetKeepsFib _ contentName rib.fibRepository.index))
  | .addRoute _ _ | .removeRoute _ | .find _ => inferInstanceAs (Decidable True)

theorem observedStep_map {T T' : Type} [Table T Str (FIBEntry caps)]
    [Table T' Str (FIBEntry caps)] {f : T → T'} (hf : Table.IsHom f) (M : Int)
    (rib : PrefixTreeRIB caps T) (op : RouteOp) :
    observedStep M (rib.map f) op = Prod.map id (PrefixTreeRIB.map f) (observedStep M rib op) := by
  have hlook : ∀ name t, holdsRoute name (f t) = holdsRoute name t := by
    intro name t
    rw [holdsRoute, holdsRoute, Table.lookup, Table.lookup, hf.get_eq]; rfl
  rw [observedStep, observedStep, routeStep_map hf]
  obtain ⟨answer, rib'⟩ := routeStep M rib op
  have hsize := hf.size_eq rib'.fibRepository
  dsimp only [Prod.map_apply, PrefixTreeRIB.map, id_eq]
  rw [hsize]
  cases op with
  | addRoute name hop => simp only [installedBy, hlook]
  | removeRoute => rfl
  | find => rfl
  | get => rfl

/-- Two states the calls cannot tell apart: they differ in the use order only. -/
def SameIndex (s t : NodeRIB caps) : Prop :=
  s.map FixedSizeLRUCache.index = t.map FixedSizeLRUCache.index

theorem SameIndex.step {s t : NodeRIB caps} (h : SameIndex s t) (M : Int) (op : RouteOp) :
    (observedStep M s op).1 = (observedStep M t op).1 ∧
      SameIndex (observedStep M s op).2 (observedStep M t op).2 := by
  have hs := observedStep_map FixedSizeLRUCache.isHom_index M s op
  have ht := observedStep_map FixedSizeLRUCache.isHom_index M t op
  rw [h, ht] at hs
  exact ⟨(congrArg Prod.fst hs).symm, (congrArg Prod.snd hs).symm⟩

/-- A lookup that meets the condition leaves the state as good as it was. -/
theorem SameIndex.lookup {s : NodeRIB caps} {M : Int} {op : RouteOp}
    (hkeeps : GetsKeepFib M s op) (hop : op.IsLookup) : SameIndex (observedStep M s op).2 s := by
  cases op with
  | addRoute => exact hop.elim
  | removeRoute => exact hop.elim
  | find name =>
    show PrefixTreeRIB.mk (find M name s.fibRepository).2.index s.tree = _
    rw [index_fibFind]; rfl
  | get name =>
    have hindex : (LRUForwardingInformationBase.get M name s.fibRepository).2.index
        = s.fibRepository.index := by
      rw [index_fibGet]
      cases hmatch : matchedEntry M name s.fibRepository.index with
      | none => rfl
      | some result =>
        -- written over itself, or refused
        rcases hkeeps result hmatch with hown | ⟨hnone, hfull⟩
        · exact CacheIndex.put_of_lookup_eq hown
        · dsimp only
          rw [CacheIndex.put, CacheIndex.lookup_eq_none_iff.mp hnone]
          exact congrArg Prod.snd (if_pos hfull)
    show PrefixTreeRIB.mk (LRUForwardingInformationBase.get M name s.fibRepository).2.index s.tree
      = _
    rw [hindex]
    rfl

/-- Leaving out the calls that `keep` does not mark cannot be noticed: the remaining calls show the
same, and so does any later call. -/
def DropsUnnoticed (caps : BuildCapacity) (maxVirtualDepth : Int) (keep : List Bool)
    (calls : List RouteOp) : Prop :=
  let kept := StepRun.select keep calls
  StepRun.trace (observedStep maxVirtualDepth) (NodeRIB.init caps) kept
      = StepRun.select keep
          (StepRun.trace (observedStep maxVirtualDepth) (NodeRIB.init caps) calls) ∧
    ∀ later, StepRun.outputs (observedStep maxVirtualDepth)
        (StepRun.after (observedStep maxVirtualDepth) (NodeRIB.init caps) kept) later
      = StepRun.outputs (observedStep maxVirtualDepth)
        (StepRun.after (observedStep maxVirtualDepth) (NodeRIB.init caps) calls) later

/-- **Lookups are read-only** in every run whose `get`s write nothing new: any of the `find` and
`get` calls can be left out. -/
theorem reads_drop_out (maxVirtualDepth : Int) (keep : List Bool) (calls : List RouteOp)
    (hdrop : StepRun.DropsOnly RouteOp.IsLookup keep calls)
    (hkeeps : StepRun.Along (observedStep maxVirtualDepth) (GetsKeepFib maxVirtualDepth)
      (NodeRIB.init caps) calls) :
    DropsUnnoticed caps maxVirtualDepth keep calls := by
  -- no output depends on the use order, and these lookups change nothing else
  have hsilent : ∀ (s t : NodeRIB caps) op, SameIndex s t → GetsKeepFib maxVirtualDepth s op →
      op.IsLookup → SameIndex (observedStep maxVirtualDepth s op).2 t :=
    fun s t op hR hP hop => (SameIndex.lookup hP hop).trans hR
  obtain ⟨htrace, hend⟩ := StepRun.trace_select (R := SameIndex)
    (fun s t op hR _ => hR.step maxVirtualDepth op) hsilent rfl hkeeps hdrop
  refine ⟨htrace, fun later => ?_⟩
  exact (StepRun.outputs_eq_of_simulation (R := SameIndex) (P := fun _ _ => True)
    (fun s t op hR _ => hR.step maxVirtualDepth op) hend.symm
    (StepRun.along_of_forall _ _ (fun _ _ => trivial) _ _)).1

/-- Looking the route /a up can be left out. -/
theorem reads_drop_out_own_name :
    DropsUnnoticed (.uniform 4 (by decide)) 1 [true, false, true]
      [.addRoute (ascii ['/', 'a']) (ascii ['x']), .get (ascii ['/', 'a']),
        .find (ascii ['/', 'a', '/', 'b'])] :=
  reads_drop_out 1 _ _ ⟨trivial, trivial⟩ (by decide)

/-- Looking up /a/b, which the route /a answers, stores /a/b: when the route /a is removed, /a/b is
still found.  Without the lookup it is not.  The names are not below `maxVirtualDepth` here. -/
theorem not_reads_drop_out_below_route :
    ¬ ∀ (caps : BuildCapacity) (maxVirtualDepth : Int) (keep : List Bool) (calls : List RouteOp),
      StepRun.DropsOnly RouteOp.IsLookup keep calls →
        DropsUnnoticed caps maxVirtualDepth keep calls := by
  intro h
  have hbad := (h (.uniform 4 (by decide)) 2 [true, false]
    [.addRoute (ascii ['/', 'a']) (ascii ['x']), .get (ascii ['/', 'a', '/', 'b']),
      .removeRoute (ascii ['/', 'a']), .find (ascii ['/', 'a', '/', 'b'])] ⟨trivial, trivial⟩).1
  revert hbad
  decide

end Icsn
