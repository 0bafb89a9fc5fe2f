import Icsn.DataAccess.RouteInstallation
import Icsn.DataAccess.RouteRemoval

/-!
# Icsn — the FIB while packets are forwarded

Every forwarded INTEREST writes the entry it ended at back into the FIB, under the name it asked
for.  The FIB fills up with such copies; this module says what they leave of the routes that
`addRoute` installed.

* **`Remembers`** — the FIB holds the entries of boot, and copies of them at names whose longest
  route they came from.
* **`Remembers.lookup`** — the two stages then give the next hops of the longest route of boot.
* **`Remembers.get`** — a write-back keeps this, unless it replaces the mark of deeper routes.
* **`cover_ribAfter`** — the FIB of boot meets the cover invariant, on the node's own cache.
-/

namespace Icsn

open SeparatedName (cut depth Covers longestMatch IsLongest)
open LRUForwardingInformationBase

variable {caps : BuildCapacity}

/-! ## Entries and copies

The boot has filled a table `look0`.  What it has later is related to that: nothing of boot is lost,
and every other entry is the copy of a route, at a name that this route is the longest one for.  So
copies change no answer. -/

/-- The FIB `look` holds the entries of `look0`, and copies of them at other names: each where it is
the entry of the longest route, and none that sends a lookup below depth `m`. -/
structure Remembers (m : Nat) (look0 look : Str → Option (FIBEntry caps)) : Prop where
  kept : ∀ k e, look0 k = some e → look k = some e
  copied_real : ∀ k e, look0 k = none → look k = some e → e.isVirtual = false
  copied_shallow : ∀ k e, look0 k = none → look k = some e → depth slash k ≤ m →
    e.maximumDepth ≤ (m : Int)
  copied_hops : ∀ k e, look0 k = none → look k = some e →
    (longestMatch slash (realEntries look0) k (depth slash k)).map FIBEntry.nodeIds
      = some e.nodeIds

namespace Remembers

variable {m : Nat} {look0 look : Str → Option (FIBEntry caps)} {name k : Str} {e : FIBEntry caps}

theorem refl (m : Nat) (look0 : Str → Option (FIBEntry caps)) : Remembers m look0 look0 where
  kept _ _ h := h
  copied_real k e h0 h := by rw [h0] at h; cases h
  copied_shallow k e h0 h := by rw [h0] at h; cases h
  copied_hops k e h0 h := by rw [h0] at h; cases h

/-- Down to depth `m`, only boot's entries at depth `m` send a lookup further down. -/
theorem reach_depth (h : Remembers m look0 look) (hcov : Cover m look0) (hk : look k = some e)
    (hlt : (m : Int) < e.maximumDepth) (hle : depth slash k ≤ m) :
    look0 k = some e ∧ depth slash k = m := by
  cases h0 : look0 k with
  | none => exact absurd (h.copied_shallow k e h0 hk hle) (not_le.mpr hlt)
  | some e0 =>
    have heq := h.kept k e0 h0
    rw [hk] at heq
    obtain rfl := Option.some.inj heq
    exact ⟨rfl, hcov.reach_depth h0 hlt hle⟩

/-- A route of boot is a real entry as long as the FIB holds it. -/
theorem real_of_boot (h : Remembers m look0 look) (h0 : realEntries look0 k = some e) :
    realEntries look k = some e := by
  obtain ⟨hlook, hreal⟩ := realEntries_eq_some_iff.mp h0
  exact realEntries_eq_some_iff.mpr ⟨h.kept k e hlook, hreal⟩

/-- **The copies change no longest match**, as far as next hops go. -/
theorem longestMatch_eq (h : Remembers m look0 look) {d : Nat} (hd : d ≤ depth slash name) :
    (longestMatch slash (realEntries look) name d).map FIBEntry.nodeIds
      = (longestMatch slash (realEntries look0) name d).map FIBEntry.nodeIds := by
  refine SeparatedName.longestMatch_remembered (fun k e h0 => h.real_of_boot h0)
    (fun k e h0 hk => ?_) hd
  obtain ⟨hlook, hreal⟩ := realEntries_eq_some_iff.mp hk
  cases hold : look0 k with
  | none => exact h.copied_hops k e hold hlook
  | some e0 =>
    -- an entry of boot that is no route is no route now
    have heq := h.kept k e0 hold
    rw [hlook] at heq
    obtain rfl := Option.some.inj heq
    rw [realEntries_eq_some_iff.mpr ⟨hold, hreal⟩] at h0
    cases h0

end Remembers

/-! ## Lookups

With copies about, a lookup may end earlier than it would have at boot, but at a copy with the same
next hops.  The induction is on the depth the search has come up to. -/

section Lookup

variable {T : Type} [Table T Str (FIBEntry caps)] [Table.Quiet T] {t : T} {m : Nat} {name : Str}
  {look0 : Str → Option (FIBEntry caps)}

/-- **The two stages** try the real entries from a depth `d` up, and no route of boot on the name is
deeper. -/
theorem Remembers.search (h : Remembers m look0 (Table.lookup (V := FIBEntry caps) · t))
    (hm : 1 ≤ m) (hcov : Cover m look0) (name : Str) :
    ∃ d, d ≤ depth slash name ∧
      fibLpmLookup name (nameDepth name) m t
        = (longestMatch slash (realEntries (Table.lookup · t)) name d, t) ∧
      ∀ f, d < f → f ≤ depth slash name → realEntries look0 (cut slash name f) = none := by
  have hdep : ∀ {p}, p ≤ depth slash name → depth slash (cut slash name p) = p := fun hp => by
    rw [SeparatedName.depth_cut, min_eq_left hp]
  -- a deeper route of boot is reached by the entry above it
  have hreached : ∀ f, m < f → f ≤ depth slash name → ∀ e,
      realEntries look0 (cut slash name f) = some e →
      ∃ e', Table.lookup (cut slash name m) t = some e' ∧ (f : Int) ≤ e'.maximumDepth := by
    intro f hmf hf e he
    obtain ⟨e', he', hreach⟩ := hcov.covered (realEntries_eq_some_iff.mp he).1
      (by rw [hdep hf]; exact hmf)
    rw [SeparatedName.cut_cut, min_eq_right hmf.le] at he'
    rw [hdep hf] at hreach
    exact ⟨e', h.kept _ _ he', hreach⟩
  rw [fibLpmLookup, nameDepth_eq_depth]
  by_cases hnd : depth slash name ≤ m
  · -- a name down to depth `m`: stage 1 alone
    refine ⟨depth slash name, le_rfl, ?_, fun f h1 h2 => by omega⟩
    rw [min_eq_left (by exact_mod_cast hnd), Int.toNat_natCast,
      fibLpmStage1_eq (m := m) name _ t _ (fun p _ _ e _ h => by omega)]
    cases longestMatch slash (realEntries (Table.lookup · t)) name (depth slash name) <;> rfl
  · rw [not_le] at hnd
    rw [min_eq_right (by exact_mod_cast hnd.le), Int.toNat_natCast]
    by_cases hreach : ∃ e, Table.lookup (cut slash name m) t = some e ∧ (m : Int) < e.maximumDepth
    · -- the entry at depth `m` sends the search to stage 2 at once
      obtain ⟨e, he, hlt⟩ := hreach
      obtain ⟨m', rfl⟩ : ∃ m', m = m' + 1 := ⟨m - 1, by omega⟩
      refine ⟨(min (depth slash name : Int) e.maximumDepth).toNat, by omega, ?_, ?_⟩
      · rw [fibLpmStage1, lookupEntry_eq, he]
        dsimp only
        rw [if_pos ⟨hlt, by exact_mod_cast hnd⟩]
        exact fibLpmStage2_eq (m := m' + 1) name t _ he
      · intro f h1 h2
        by_contra hne
        obtain ⟨e0, he0⟩ := Option.ne_none_iff_exists'.mp hne
        obtain ⟨e', he', hfe'⟩ := hreached f (by omega) h2 e0 he0
        rw [he] at he'
        obtain rfl := Option.some.inj he'
        omega
    · refine ⟨m, hnd.le, ?_, fun f h1 h2 => ?_⟩
      · rw [fibLpmStage1_eq (m := m) name _ t _ fun p hp1 hp2 e he hstay => hreach ?_]
        · cases longestMatch slash (realEntries (Table.lookup · t)) name m <;> rfl
        · have hpm := (h.reach_depth hcov he hstay.1 (by rw [hdep (by omega)]; exact hp2)).2
          rw [hdep (by omega)] at hpm
          subst hpm
          exact ⟨e, he, hstay.1⟩
      · by_contra hne
        obtain ⟨e0, he0⟩ := Option.ne_none_iff_exists'.mp hne
        obtain ⟨e', he', hfe'⟩ := hreached f h1 h2 e0 he0
        exact hreach ⟨e', he', by omega⟩

/-- **A lookup gives the next hops of the longest route of boot.** -/
theorem Remembers.lookup (h : Remembers m look0 (Table.lookup (V := FIBEntry caps) · t))
    (hm : 1 ≤ m) (hcov : Cover m look0) (name : Str) :
    (fibLpmLookup name (nameDepth name) m t).1.map FIBEntry.nodeIds
      = (longestMatch slash (realEntries look0) name (depth slash name)).map FIBEntry.nodeIds := by
  obtain ⟨d, hd, hsearch, hdeep⟩ := h.search hm hcov name
  rw [hsearch, SeparatedName.longestMatch_skip hd hdeep]
  exact h.longestMatch_eq hd

end Lookup

/-! ## Write-backs

What a lookup ended at is written under the name it was for.  That name has no entry of boot, or it
has a route, which the lookup then ended at. -/

section WriteBack

variable {T : Type} [Table T Str (FIBEntry caps)] [Table.Quiet T] {t : T} {m : Nat} {name : Str}
  {e : FIBEntry caps} {look0 : Str → Option (FIBEntry caps)}

/-- A lookup of one of boot's routes by its own name gives its own entry. -/
theorem Remembers.lookup_own (h : Remembers m look0 (Table.lookup (V := FIBEntry caps) · t))
    (hm : 1 ≤ m) (hcov : Cover m look0) {e0 : FIBEntry caps}
    (h0 : realEntries look0 name = some e0)
    (hfound : (fibLpmLookup name (nameDepth name) m t).1 = some e) : e = e0 := by
  obtain ⟨d, hd, hsearch, hdeep⟩ := h.search hm hcov name
  have hself : cut slash name (depth slash name) = name := SeparatedName.cut_of_depth_le le_rfl
  -- the search begins at the name itself
  have hend : d = depth slash name := by
    by_contra hne
    have := hdeep (depth slash name) (by omega) le_rfl
    rw [hself, h0] at this
    cases this
  rw [hsearch, hend] at hfound
  dsimp only at hfound
  cases hdepth : depth slash name with
  | zero =>
    rw [hdepth] at hfound
    cases hfound
  | succ p =>
    rw [hdepth] at hfound hself
    rw [longestMatch, hself, h.real_of_boot h0] at hfound
    exact (Option.some.inj hfound).symm

/-- The entry a lookup ends at is real, and at a name down to depth `m` without an entry of boot it
does not reach below `m`. -/
theorem Remembers.found (h : Remembers m look0 (Table.lookup (V := FIBEntry caps) · t))
    (hm : 1 ≤ m) (hcov : Cover m look0)
    (hfound : (fibLpmLookup name (nameDepth name) m t).1 = some e) :
    e.isVirtual = false ∧
      (look0 name = none → depth slash name ≤ m → e.maximumDepth ≤ (m : Int)) := by
  obtain ⟨d, hd, hsearch, -⟩ := h.search hm hcov name
  rw [hsearch] at hfound
  obtain ⟨f, -, hfd, hreal, -⟩ := SeparatedName.longestMatch_eq_some_iff.mp hfound
  obtain ⟨hlook, hv⟩ := realEntries_eq_some_iff.mp hreal
  refine ⟨hv, fun h0 hle => ?_⟩
  by_contra hlt
  rw [not_le] at hlt
  -- only an entry of boot at depth `m` reaches further, and the name has no entry of boot
  have hdep : depth slash (cut slash name f) = f := by
    rw [SeparatedName.depth_cut, min_eq_left (by omega)]
  obtain ⟨h0f, hfm⟩ := h.reach_depth hcov hlook hlt (by omega)
  rw [hdep] at hfm
  rw [SeparatedName.cut_of_depth_le (by omega)] at h0f
  rw [h0] at h0f
  cases h0f

/-- **A write-back** of what a lookup ended at, at a name that has no mark of boot. -/
theorem Remembers.writeBack (h : Remembers m look0 (Table.lookup (V := FIBEntry caps) · t))
    (hm : 1 ≤ m) (hcov : Cover m look0)
    (hfound : (fibLpmLookup name (nameDepth name) m t).1 = some e)
    (hmark : ∀ e0, look0 name = some e0 → e0.isVirtual = false) :
    Remembers m look0 fun k =>
      if k = name then some e else Table.lookup (V := FIBEntry caps) k t := by
  obtain ⟨hreal, hshallow⟩ := h.found hm hcov hfound
  constructor
  case kept =>
    intro k e0 h0
    by_cases hk : k = name
    · subst hk
      rw [if_pos rfl, h.lookup_own hm hcov
        (realEntries_eq_some_iff.mpr ⟨h0, hmark e0 h0⟩) hfound]
    · rw [if_neg hk]
      exact h.kept k e0 h0
  case copied_real =>
    intro k e1 h0 h1
    by_cases hk : k = name
    · rw [if_pos hk] at h1
      obtain rfl := Option.some.inj h1
      exact hreal
    · rw [if_neg hk] at h1
      exact h.copied_real k e1 h0 h1
  case copied_shallow =>
    intro k e1 h0 h1 hle
    by_cases hk : k = name
    · subst hk
      rw [if_pos rfl] at h1
      obtain rfl := Option.some.inj h1
      exact hshallow h0 hle
    · rw [if_neg hk] at h1
      exact h.copied_shallow k e1 h0 h1 hle
  case copied_hops =>
    intro k e1 h0 h1
    by_cases hk : k = name
    · subst hk
      rw [if_pos rfl] at h1
      obtain rfl := Option.some.inj h1
      rw [← h.lookup hm hcov k, hfound]
      rfl
    · rw [if_neg hk] at h1
      exact h.copied_hops k e1 h0 h1

end WriteBack

/-! ## The node's FIB

The `get` of the source is a lookup and a write to the cache, which may refuse it.  The condition on
the name leaves out a virtual entry of boot, since a write-back makes it real and may lower its
reach. -/

section NodeFib

variable {m : Nat} {look0 : Str → Option (FIBEntry caps)} {fib : NodeFIB caps} {name : Str}

/-- The name has no mark of deeper routes, or no lookup of it ends at a route. -/
def SparesMark (look0 : Str → Option (FIBEntry caps)) (name : Str) : Prop :=
  (∃ e0, look0 name = some e0 ∧ e0.isVirtual = true) →
    longestMatch slash (realEntries look0) name (depth slash name) = none

/-- **A `get` of the node** keeps the FIB a FIB of boot with copies, unless it replaces a mark. -/
theorem Remembers.get (h : Remembers m look0 fib.index.lookup) (hx : fib.index.Chained)
    (hm : 1 ≤ m) (hcov : Cover m look0) (hspares : SparesMark look0 name) :
    Remembers m look0 (LRUForwardingInformationBase.get m name fib).2.index.lookup := by
  rw [index_fibGet]
  cases hmatch : matchedEntry m name fib.index with
  | none => exact h
  | some e =>
    have h' : Remembers m look0 (Table.lookup (V := FIBEntry caps) · fib.index) := h
    have hmark : ∀ e0, look0 name = some e0 → e0.isVirtual = false := by
      intro e0 h0
      by_contra hv
      -- the lookup ended at a route
      have hhops := h'.lookup hm hcov name
      rw [hspares ⟨e0, h0, by simpa using hv⟩, show (fibLpmLookup name _ _ _).1 = _ from hmatch]
        at hhops
      cases hhops
    have hwritten := h'.writeBack hm hcov hmatch hmark
    by_cases hacc : fib.index.Accepts name
    · have hlook : (fib.index.put name e).2.lookup
          = fun k => if k = name then some e else fib.index.lookup k :=
        funext fun k => hx.lookup_put_of_accepts hacc e
      show Remembers m look0 (fib.index.put name e).2.lookup
      rw [hlook]
      exact hwritten
    · -- a full FIB refuses the copy
      have hrefused : (fib.index.put name e).1 = false := by
        rw [CacheIndex.put_eq_false_iff hx.toWf]
        unfold CacheIndex.Accepts at hacc
        rw [not_or, Bool.not_eq_true, Option.isSome_eq_false_iff, Option.isNone_iff_eq_none,
          not_lt] at hacc
        exact hacc
      show Remembers m look0 (fib.index.put name e).2.lookup
      rw [CacheIndex.put_of_refused hx.toWf hrefused]
      exact h

/-- Whether a `find` of the node succeeds. -/
theorem fibFind_fst (M : Int) (name : Str) (fib : NodeFIB caps) :
    (find M name fib).1 = (matchedEntry M name fib.index).isSome :=
  (congrArg Prod.fst (find_map FixedSizeLRUCache.isHom_index M name fib)).symm

/-- What a `get` of the node returns. -/
theorem fibGet_fst (M : Int) (name : Str) (fib : NodeFIB caps) :
    (LRUForwardingInformationBase.get M name fib).1
      = ((matchedEntry M name fib.index).map fun e => e.nodeIds.toStdSet).getD .empty := by
  have hmap := congrArg Prod.fst (get_map FixedSizeLRUCache.isHom_index M name fib)
  refine hmap.symm.trans ?_
  rw [LRUForwardingInformationBase.get, matchedEntry]
  obtain ⟨answer, x⟩ := fibLpmLookup name (nameDepth name) M fib.index
  cases answer <;> rfl

theorem chained_fibGet (hx : fib.index.Chained) (M : Int) (name : Str) :
    (LRUForwardingInformationBase.get M name fib).2.index.Chained := by
  rw [index_fibGet]
  cases matchedEntry M name fib.index with
  | none => exact hx
  | some e => exact hx.put name e

end NodeFib

/-! ## The FIB of boot

The lookup proofs are about a bounded map, the node has a cache.  `addRoute` removes nothing, so
along the calls of boot the cache stands for the map, and the cover invariant carries over. -/

/-- The cache under the node's FIB stands for the map under the RIB of the lookup proofs. -/
structure RibRel (rib : NodeRIB caps) (mapRib : MapRIB caps) : Prop where
  fib : CacheRel rib.fibRepository mapRib.fibRepository
  tree : rib.tree = mapRib.tree

theorem ribRel_init : RibRel (NodeRIB.init caps) (MapRIB.init caps) := ⟨cacheRel_init, rfl⟩

theorem CacheRel.save {fib : NodeFIB caps} {map : BoundedMap Str (FIBEntry caps) caps.fibEntries}
    (hR : CacheRel fib map) (p : FIBPair) : CacheRel (save p fib) (save p map) := by
  have hget : (Table.get p.contentName fib).1 = map.lookup p.contentName :=
    (FixedSizeLRUCache.get_fst p.contentName fib).trans (hR.lookup_eq _)
  have hR' : CacheRel (Table.get p.contentName fib).2 map :=
    cacheRel_step (.get p.contentName) hR trivial
  rw [LRUForwardingInformationBase.save, save_eq_put]
  revert hget hR'
  obtain ⟨answer, fib'⟩ := Table.get p.contentName fib
  rintro rfl hR'
  cases hold : map.lookup p.contentName with
  | none => exact (hR'.put _ _).2
  | some e => exact (hR'.put _ _).2

theorem CacheRel.saveVirtualEntry {fib : NodeFIB caps}
    {map : BoundedMap Str (FIBEntry caps) caps.fibEntries} (hR : CacheRel fib map) (name : Str)
    (d : Int) : CacheRel (saveVirtualEntry name d fib) (saveVirtualEntry name d map) := by
  have hget : (Table.get name fib).1 = map.lookup name :=
    (FixedSizeLRUCache.get_fst name fib).trans (hR.lookup_eq _)
  have hR' : CacheRel (Table.get name fib).2 map := cacheRel_step (.get name) hR trivial
  rw [LRUForwardingInformationBase.saveVirtualEntry, saveVirtualEntry_eq_put]
  revert hget hR'
  obtain ⟨answer, fib'⟩ := Table.get name fib
  rintro rfl hR'
  cases hold : map.lookup name with
  | none => exact (hR'.put _ _).2
  | some e => exact (hR'.put _ _).2

/-- **One call** writes the same to both. -/
theorem RibRel.addRoute {rib : NodeRIB caps} {mapRib : MapRIB caps} (hR : RibRel rib mapRib)
    (M : Int) (name hop : Str) : RibRel (rib.addRoute M name hop) (mapRib.addRoute M name hop) := by
  have hinstall : CacheRel (PrefixTreeRIB.installRoute M name hop rib.fibRepository)
      (PrefixTreeRIB.installRoute M name hop mapRib.fibRepository) := by
    rw [PrefixTreeRIB.installRoute, PrefixTreeRIB.installRoute]
    split
    · exact hR.fib.save _
    · exact (hR.fib.saveVirtualEntry _ _).save _
  rw [PrefixTreeRIB.addRoute, PrefixTreeRIB.addRoute, hR.tree]
  split
  · exact hR
  · exact ⟨hinstall, rfl⟩

/-- The RIB of the lookup proofs after the calls. -/
def mapRibAfter (caps : BuildCapacity) (M : Int) (calls : List (Str × Str)) : MapRIB caps :=
  StepRun.after (routeStep M) (MapRIB.init caps) (calls.map fun c => .addRoute c.1 c.2)

/-- **The calls of boot** lead to a cache that stands for the map. -/
theorem ribRel_after (M : Int) (calls : List (Str × Str)) :
    RibRel (ribAfter caps M calls) (mapRibAfter caps M calls) := by
  have hstep : ∀ (rib : NodeRIB caps) (mapRib : MapRIB caps) (op : RouteOp), RibRel rib mapRib →
      (∃ name hop, op = .addRoute name hop) →
      (routeStep M rib op).1 = (routeStep M mapRib op).1 ∧
        RibRel (routeStep M rib op).2 (routeStep M mapRib op).2 := by
    rintro rib mapRib op hR ⟨name, hop, rfl⟩
    exact ⟨rfl, hR.addRoute M name hop⟩
  refine (StepRun.outputs_eq_of_simulation hstep ribRel_init
    (StepRun.along_of_forall_mem _ (fun op hop => ?_) _)).2
  obtain ⟨c, -, rfl⟩ := List.mem_map.mp hop
  exact ⟨c.1, c.2, rfl⟩

/-- **The FIB of boot meets the cover invariant**, whatever the tables refuse. -/
theorem cover_ribAfter (m : Nat) (calls : List (Str × Str)) :
    Cover m (ribAfter caps m calls).fibRepository.index.lookup := by
  have hR : RibRel (ribAfter caps m calls) (mapRibAfter caps m calls) := ribRel_after m calls
  have hstep : ∀ (mapRib : MapRIB caps) (op : RouteOp), Cover m mapRib.fibRepository.lookup →
      (∃ name hop, op = .addRoute name hop) →
      Cover m (routeStep m mapRib op).2.fibRepository.lookup := by
    rintro mapRib op hcov ⟨name, hop, rfl⟩
    show Cover m (mapRib.addRoute m name hop).fibRepository.lookup
    rw [PrefixTreeRIB.addRoute]
    split
    · exact hcov
    · exact hcov.installRoute name hop
  have hcov : Cover m (mapRibAfter caps m calls).fibRepository.lookup := by
    refine StepRun.after_invariant hstep (lookupInv_init m).cover
      (StepRun.along_of_forall_mem _ (fun op hop => ?_) _)
    obtain ⟨c, -, rfl⟩ := List.mem_map.mp hop
    exact ⟨c.1, c.2, rfl⟩
  rw [show (ribAfter caps m calls).fibRepository.index.lookup = _ from funext hR.fib.lookup_eq]
  exact hcov

end Icsn
