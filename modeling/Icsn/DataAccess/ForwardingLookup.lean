import Icsn.DataAccess.PrefixTreeRIB
import Icsn.Lib.SeparatedName
import Icsn.Lib.StepRun

/-!
# Icsn — two-stage lookup is longest-prefix match

What the FIB looks up against what it holds.

* **`Cover`** — the invariant the two stages rest on: an entry that reaches below
  `maxVirtualDepth` sits at that depth, and every deeper entry has one above it that reaches it.
* **`fibLpmLookup_eq_longestMatch`** — under `Cover` the two stages try the real entries on the
  name from the deepest one up.
* **`Cover.installRoute`** — installing a route keeps `Cover`, whatever the table refuses.
* **`fibLpmLookup_isLongest`** — after any run of `addRoute` and `find` the lookup is
  longest-prefix match over the real entries.
-/

namespace Icsn

open SeparatedName (cut depth Covers longestMatch IsLongest)
open LRUForwardingInformationBase

variable {caps : BuildCapacity}

/-! ## Prefixes are cuts

`extractPrefix` walks over the characters of a name and counts separators.  Once it is known to be
the cut of `SeparatedName`, nothing below speaks of characters. -/

/-- The loop of `extractPrefix`, started in the middle of the name.  Induction on the rest; the
part before it is `before`, with `depth before` separators counted already. -/
theorem extractPrefixLoop_eq (before rest : Str) {d : Nat} (hd : depth slash before ≤ d) :
    extractPrefixLoop (before ++ rest) d rest (depth slash before) before.length
      = before ++ cut slash rest (d - depth slash before) := by
  induction rest generalizing before with
  | nil => simp [extractPrefixLoop]
  | cons c rest ih =>
    have hsnoc : before ++ c :: rest = (before ++ [c]) ++ rest := by simp
    have hlen : (before ++ [c]).length = before.length + 1 := by simp
    rw [extractPrefixLoop]
    by_cases hc : c = slash
    · subst hc
      have hdep : depth slash (before ++ [slash]) = depth slash before + 1 := by
        simp [SeparatedName.depth]
      rw [if_pos rfl]
      by_cases hcut : (depth slash before + 1 : Int) > d
      · rw [if_pos hcut, show d - depth slash before = 0 by omega]
        simp
      · have hstep := ih (before ++ [slash]) (by rw [hdep]; omega)
        rw [hdep, hlen, ← hsnoc] at hstep
        rw [if_neg hcut, hstep,
          show d - depth slash before = (d - (depth slash before + 1)) + 1 by omega]
        simp
    · have hdep : depth slash (before ++ [c]) = depth slash before := by
        simp [SeparatedName.depth, hc]
      have hstep := ih (before ++ [c]) (by rw [hdep]; exact hd)
      rw [hdep, hlen, ← hsnoc] at hstep
      rw [if_neg hc, hstep, SeparatedName.cut_cons_of_ne hc]
      simp

theorem extractPrefix_eq_cut (name : Str) (d : Nat) : extractPrefix name d = cut slash name d :=
  extractPrefixLoop_eq [] name (Nat.zero_le d)

theorem rib_extractPrefix_eq_cut (name : Str) (d : Nat) :
    PrefixTreeRIB.extractPrefix name d = cut slash name d := extractPrefix_eq_cut name d

theorem nameDepth_eq_depth (name : Str) : nameDepth name = depth slash name := rfl

/-! ## The cover invariant

What stage 1 reads off an entry has to be right: if a deeper route exists on the name, the entry at
depth `maxVirtualDepth` must say so, and far enough. -/

/-- The entries that are routes. -/
def realEntries (look : Str → Option (FIBEntry caps)) (name : Str) : Option (FIBEntry caps) :=
  (look name).filter fun e => e.isVirtual = false

theorem realEntries_eq_some_iff {look : Str → Option (FIBEntry caps)} {name : Str}
    {e : FIBEntry caps} :
    realEntries look name = some e ↔ look name = some e ∧ e.isVirtual = false := by
  simp [realEntries, Option.filter_eq_some_iff]

/-- The table of entries `look`, with `m` for `maxVirtualDepth`. -/
structure Cover (m : Nat) (look : Str → Option (FIBEntry caps)) : Prop where
  /-- Virtual entries sit at depth `m`. -/
  virtual_depth : ∀ {k e}, look k = some e → e.isVirtual = true → depth slash k = m
  /-- Of the entries down to depth `m`, only those at depth `m` reach below it. -/
  reach_depth : ∀ {k e}, look k = some e → (m : Int) < e.maximumDepth → depth slash k ≤ m →
    depth slash k = m
  /-- Above every deeper entry there is one at depth `m` that reaches it. -/
  covered : ∀ {k e}, look k = some e → m < depth slash k →
    ∃ e', look (cut slash k m) = some e' ∧ (depth slash k : Int) ≤ e'.maximumDepth

/-! ## The two stages

Each stage is shown to try the real entries from its start depth up.  Together they start deep
enough, since under the cover invariant no real entry is deeper than where stage 2 starts. -/

section Stages

variable {T : Type} [Table T Str (FIBEntry caps)] [Table.Quiet T] {t : T} {name : Str} {m : Nat}

theorem lookupEntry_eq (name : Str) (pfx : Nat) (t : T) :
    lookupEntry name pfx t = (Table.lookup (cut slash name pfx) t, t) := by
  rw [lookupEntry, extractPrefix_eq_cut, Table.get_of_quiet]

/-- While no prefix asks for stage 2, stage 1 tries the real entries from the deepest up. -/
theorem fibLpmStage1_eq (name : Str) (nd : Int) (t : T) (pfx : Nat)
    (hstay : ∀ p, 1 ≤ p → p ≤ pfx → ∀ e, Table.lookup (cut slash name p) t = some e →
      ¬ (e.maximumDepth > (m : Int) ∧ nd > (m : Int))) :
    fibLpmStage1 name nd m pfx t
      = (match longestMatch slash (realEntries (Table.lookup · t)) name pfx with
          | some e => .hit e
          | none => .miss, t) := by
  induction pfx with
  | zero => rfl
  | succ pfx ih =>
    have ih' := ih fun p h1 h2 => hstay p h1 (by omega)
    rw [fibLpmStage1, lookupEntry_eq, longestMatch, realEntries]
    cases hlook : Table.lookup (cut slash name (pfx + 1)) t with
    | none => exact ih'
    | some e =>
      have hno := hstay (pfx + 1) (by omega) le_rfl e hlook
      dsimp only
      rw [if_neg hno]
      cases hv : e.isVirtual with
      | false => simp [Option.filter, hv]
      | true => simpa [Option.filter, hv] using ih'

/-- Stage 2 tries the real entries from the deepest up, when `fibEntry1s` is what the table holds
at depth `m`. -/
theorem fibLpmStage2_eq (name : Str) {fibEntry1s : FIBEntry caps} (t : T) (pfx : Nat)
    (h1s : Table.lookup (cut slash name m) t = some fibEntry1s) :
    fibLpmStage2 name m fibEntry1s pfx t
      = (longestMatch slash (realEntries (Table.lookup · t)) name pfx, t) := by
  induction pfx with
  | zero => rfl
  | succ pfx ih =>
    rw [fibLpmStage2, lookupEntry_eq, longestMatch, realEntries]
    by_cases hm : ((pfx + 1 : Nat) : Int) = m ∧ fibEntry1s.isVirtual = false
    · -- the entry of stage 1 is the one a lookup at this depth gives
      obtain ⟨hpfx, hreal⟩ := hm
      rw [show pfx + 1 = m by omega, h1s, if_pos ⟨rfl, hreal⟩]
      simp [Option.filter, hreal]
    · rw [if_neg hm]
      cases hlook : Table.lookup (cut slash name (pfx + 1)) t with
      | none => exact ih
      | some e =>
        cases hv : e.isVirtual with
        | false => simp [Option.filter, hv]
        | true => simpa [Option.filter, hv] using ih

omit [Table.Quiet T] in
/-- No real entry on the name is deeper than what the entry at depth `m` reaches. -/
theorem realEntries_eq_none_of_deep (hcov : Cover m (Table.lookup (V := FIBEntry caps) · t))
    {f : Nat} (hmf : m < f) (hf : f ≤ depth slash name)
    (hshort : ∀ e, Table.lookup (cut slash name m) t = some e → e.maximumDepth < (f : Int)) :
    realEntries (Table.lookup (V := FIBEntry caps) · t) (cut slash name f) = none := by
  by_contra hne
  obtain ⟨e, he⟩ := Option.ne_none_iff_exists'.mp hne
  have hdep : depth slash (cut slash name f) = f := by
    rw [SeparatedName.depth_cut, min_eq_left hf]
  obtain ⟨e', he', hreach⟩ := hcov.covered (realEntries_eq_some_iff.mp he).1 (by omega)
  rw [SeparatedName.cut_cut, min_eq_right hmf.le] at he'
  have := hshort e' he'
  omega

/-- **The two stages are one search**: under the cover invariant the lookup tries the real entries
on the name from the deepest one up, and leaves a quiet table as it is. -/
theorem fibLpmLookup_eq_longestMatch (hm : 1 ≤ m)
    (hcov : Cover m (Table.lookup (V := FIBEntry caps) · t)) (name : Str) :
    fibLpmLookup name (nameDepth name) m t
      = (longestMatch slash (realEntries (Table.lookup · t)) name (depth slash name), t) := by
  have hdep : ∀ {p}, p ≤ depth slash name → depth slash (cut slash name p) = p := fun hp => by
    rw [SeparatedName.depth_cut, min_eq_left hp]
  rw [fibLpmLookup, nameDepth_eq_depth]
  by_cases hnd : depth slash name ≤ m
  · -- a name down to depth `m`: stage 1 alone
    rw [min_eq_left (by exact_mod_cast hnd), Int.toNat_natCast,
      fibLpmStage1_eq (m := m) name _ t _ (fun p _ _ e _ h => by omega)]
    cases longestMatch slash (realEntries (Table.lookup · t)) name (depth slash name) <;> rfl
  · rw [not_le] at hnd
    rw [min_eq_right (by exact_mod_cast hnd.le), Int.toNat_natCast]
    by_cases hreach : ∃ e, Table.lookup (cut slash name m) t = some e ∧ (m : Int) < e.maximumDepth
    · -- the entry at depth `m` sends the search to stage 2 at once
      obtain ⟨e, he, hlt⟩ := hreach
      obtain ⟨m', rfl⟩ : ∃ m', m = m' + 1 := ⟨m - 1, by omega⟩
      rw [fibLpmStage1, lookupEntry_eq, he]
      dsimp only
      rw [if_pos ⟨hlt, by exact_mod_cast hnd⟩]
      dsimp only
      rw [fibLpmStage2_eq (m := m' + 1) name t _ he,
        ← SeparatedName.longestMatch_skip (e := depth slash name) (by omega) fun f h1 h2 =>
          realEntries_eq_none_of_deep hcov (by omega) h2 fun e' he' => ?_]
      rw [he] at he'
      obtain rfl := Option.some.inj he'
      omega
    · -- nothing on the name is deeper than `m`
      have hshort : ∀ e, Table.lookup (cut slash name m) t = some e → e.maximumDepth ≤ (m : Int) :=
        fun e he => not_lt.mp fun hlt => hreach ⟨e, he, hlt⟩
      rw [fibLpmStage1_eq (m := m) name _ t _ fun p hp1 hp2 e he h => ?_]
      · rw [SeparatedName.longestMatch_skip hnd.le fun f h1 h2 =>
          realEntries_eq_none_of_deep hcov h1 h2 fun e he => by have := hshort e he; omega]
        cases longestMatch slash (realEntries (Table.lookup · t)) name m <;> rfl
      · have hpm := hcov.reach_depth he h.1 (by rw [hdep (by omega)]; exact hp2)
        rw [hdep (by omega)] at hpm
        subst hpm
        have := hshort e he
        omega

end Stages

/-! ## Adding a route keeps the cover

The prefix of a deep route is marked before the route is written.  So a full table may refuse the
mark, but then it refuses the new deep name as well, and no route is left without its mark. -/

section AddRoute

variable {cap m : Nat} {fib : BoundedMap Str (FIBEntry caps) cap} {name : Str}

/-- Writing one entry keeps the cover when the entry fits its depth, is reached when it is deep,
and reaches no less than the entry it replaces. -/
theorem Cover.put (hcov : Cover m fib.lookup) {e : FIBEntry caps}
    (hvirtual : e.isVirtual = true → depth slash name = m)
    (hreach : (m : Int) < e.maximumDepth → depth slash name ≤ m → depth slash name = m)
    (hdeep : fib.Accepts name → m < depth slash name →
      ∃ e', fib.lookup (cut slash name m) = some e' ∧ (depth slash name : Int) ≤ e'.maximumDepth)
    (hmono : ∀ e', fib.lookup name = some e' → e'.maximumDepth ≤ e.maximumDepth) :
    Cover m (fib.put name e).2.lookup := by
  -- a refused put changes nothing
  by_cases hacc : fib.Accepts name
  swap
  · rw [BoundedMap.put_of_not_accepts hacc]; exact hcov
  have hlook : ∀ k, (fib.put name e).2.lookup k = if k = name then some e else fib.lookup k := by
    intro k
    rw [BoundedMap.lookup_put]
    simp [hacc]
  -- an entry that covers a deep name still does, or is the one replaced, which reaches no less now
  have hcovered : ∀ {k}, m < depth slash k →
      (∃ e', fib.lookup (cut slash k m) = some e' ∧ (depth slash k : Int) ≤ e'.maximumDepth) →
      ∃ e', (fib.put name e).2.lookup (cut slash k m) = some e' ∧
        (depth slash k : Int) ≤ e'.maximumDepth := by
    rintro k - ⟨e', he', hle⟩
    by_cases hk : cut slash k m = name
    · rw [hk] at he'
      exact ⟨e, by rw [hlook, if_pos hk], hle.trans (hmono e' he')⟩
    · exact ⟨e', by rw [hlook, if_neg hk]; exact he', hle⟩
  constructor
  case virtual_depth =>
    intro k e₁ hk hv
    rw [hlook] at hk
    split at hk
    · next heq => obtain rfl := Option.some.inj hk; rw [heq]; exact hvirtual hv
    · exact hcov.virtual_depth hk hv
  case reach_depth =>
    intro k e₁ hk h1 h2
    rw [hlook] at hk
    split at hk
    · next heq => obtain rfl := Option.some.inj hk; rw [heq] at h2 ⊢; exact hreach h1 h2
    · exact hcov.reach_depth hk h1 h2
  case covered =>
    intro k e₁ hk hlt
    rw [hlook] at hk
    split at hk
    · next heq => subst heq; exact hcovered hlt (hdeep hacc hlt)
    · exact hcovered hlt (hcov.covered hk hlt)

theorem save_eq_put (p : FIBPair) (fib : BoundedMap Str (FIBEntry caps) cap) :
    save p fib = (fib.put p.contentName (match fib.lookup p.contentName with
      | some existing => savedOver existing p.destinationId
      | none => savedNew p.contentName p.destinationId)).2 := by
  rw [save, BoundedMap.table_get]
  cases fib.lookup p.contentName <;> rfl

theorem saveVirtualEntry_eq_put (name : Str) (d : Int)
    (fib : BoundedMap Str (FIBEntry caps) cap) :
    saveVirtualEntry name d fib = (fib.put name (match fib.lookup name with
      | some existing => raisedTo existing d
      | none => { isVirtual := true, maximumDepth := d })).2 := by
  rw [saveVirtualEntry, BoundedMap.table_get]
  cases fib.lookup name <;> rfl

/-- Saving a route keeps the cover, if a new deep route finds its prefix there. -/
theorem Cover.save (hcov : Cover m fib.lookup) (p : FIBPair)
    (hdeep : fib.Accepts p.contentName → fib.lookup p.contentName = none →
      m < depth slash p.contentName → ∃ e', fib.lookup (cut slash p.contentName m) = some e' ∧
        (depth slash p.contentName : Int) ≤ e'.maximumDepth) :
    Cover m (LRUForwardingInformationBase.save p fib).lookup := by
  rw [save_eq_put]
  cases hold : fib.lookup p.contentName with
  | some e =>
    refine hcov.put (fun h => ?_) (fun h1 h2 => hcov.reach_depth hold h1 h2)
      (fun _ hlt => hcov.covered hold hlt) (fun e' he' => ?_)
    · exact absurd h (by simp [savedOver])
    · rw [hold] at he'
      obtain rfl := Option.some.inj he'
      exact le_rfl
  | none =>
    refine hcov.put (fun h => ?_) (fun h1 h2 => ?_) (fun hacc hlt => hdeep hacc hold hlt)
      (fun e' he' => ?_)
    · exact absurd h (by simp [savedNew])
    · have hmax : (m : Int) < depth slash p.contentName := h1
      omega
    · rw [hold] at he'; cases he'

/-- Marking the prefix of a deep name keeps the cover. -/
theorem Cover.saveVirtualEntry (hcov : Cover m fib.lookup) (hdep : depth slash name = m) (d : Int) :
    Cover m (LRUForwardingInformationBase.saveVirtualEntry name d fib).lookup := by
  rw [saveVirtualEntry_eq_put]
  refine hcov.put (fun _ => hdep) (fun _ _ => hdep) (fun _ hlt => by omega) (fun e' he' => ?_)
  rw [he']
  exact le_max_left _ _

/-- The marked prefix reaches the depth it was marked with, unless there was no room for it. -/
theorem lookup_saveVirtualEntry_self (hacc : fib.Accepts name) (d : Int) :
    ∃ e, (saveVirtualEntry name d fib).lookup name = some e ∧ d ≤ e.maximumDepth := by
  rw [saveVirtualEntry_eq_put]
  refine ⟨_, BoundedMap.lookup_put_self hacc, ?_⟩
  cases fib.lookup name with
  | some e => exact le_max_right _ _
  | none => exact le_rfl

/-- A refused mark leaves the table as it was, full and without the prefix. -/
theorem saveVirtualEntry_of_refused (hacc : ¬ fib.Accepts name) (d : Int) :
    saveVirtualEntry name d fib = fib := by
  rw [saveVirtualEntry_eq_put, BoundedMap.put_of_not_accepts hacc]

/-- **Installing a route keeps the cover**, also when the table refuses an entry: a refused prefix
means a full table, which refuses the new name below it too. -/
theorem Cover.installRoute (hcov : Cover m fib.lookup) (contentName nextHopId : Str) :
    Cover m (PrefixTreeRIB.installRoute m contentName nextHopId fib).lookup := by
  rw [PrefixTreeRIB.installRoute, nameDepth_eq_depth]
  split
  · next hle => exact hcov.save _ fun _ _ hlt => absurd hle (by simpa using hlt)
  · next hlt =>
    have hlt' : m < depth slash contentName := by omega
    rw [rib_extractPrefix_eq_cut]
    have hdep : depth slash (cut slash contentName m) = m := by
      rw [SeparatedName.depth_cut, min_eq_left hlt'.le]
    refine (hcov.saveVirtualEntry hdep _).save _ fun hname hnew _ => ?_
    dsimp only at hname hnew ⊢
    by_cases hacc : fib.Accepts (cut slash contentName m)
    · exact lookup_saveVirtualEntry_self hacc _
    · rw [saveVirtualEntry_of_refused hacc] at hname hnew ⊢
      rw [BoundedMap.accepts_iff, not_or] at hacc
      rw [BoundedMap.accepts_iff, hnew] at hname
      exact absurd (hname.resolve_left (by simp)) hacc.2

/-- The names a route adds to the FIB contain a separator. -/
theorem depth_pos_installRoute (hm : 1 ≤ m) {contentName nextHopId : Str}
    (hslash : slash ∈ contentName)
    (hpos : ∀ k, fib.lookup k ≠ none → 1 ≤ depth slash k) :
    ∀ k, (PrefixTreeRIB.installRoute m contentName nextHopId fib).lookup k ≠ none →
      1 ≤ depth slash k := by
  have hname : 1 ≤ depth slash contentName := List.count_pos_iff.mpr hslash
  have hput : ∀ {fib : BoundedMap Str (FIBEntry caps) cap} {name : Str} {e : FIBEntry caps},
      1 ≤ depth slash name → (∀ k, fib.lookup k ≠ none → 1 ≤ depth slash k) →
      ∀ k, (fib.put name e).2.lookup k ≠ none → 1 ≤ depth slash k := by
    intro fib name e hn hfib k hk
    by_cases hkn : k = name
    · rw [hkn]; exact hn
    · exact hfib k (by rwa [BoundedMap.lookup_put_ne hkn] at hk)
  rw [PrefixTreeRIB.installRoute, nameDepth_eq_depth]
  split
  · rw [save_eq_put]
    exact hput hname hpos
  · next hlt =>
    rw [save_eq_put, rib_extractPrefix_eq_cut, saveVirtualEntry_eq_put]
    refine hput hname (hput ?_ hpos)
    rw [SeparatedName.depth_cut]
    omega

end AddRoute

/-! ## Longest-prefix match after any run

The names in the table contain a separator, as those of the routes do, so that each is a cut of
itself at some depth.  With the cover kept by every call, the lookup is the search of
`SeparatedName`. -/

/-- The calls that only add routes and look names up, on names with a separator. -/
def RouteOp.AddsOrFinds : RouteOp → Prop
  | .addRoute contentName _ => slash ∈ contentName
  | .find contentName => slash ∈ contentName
  | _ => False

instance : DecidablePred RouteOp.AddsOrFinds
  | .addRoute contentName _ => inferInstanceAs (Decidable (slash ∈ contentName))
  | .find contentName => inferInstanceAs (Decidable (slash ∈ contentName))
  | .removeRoute _ | .get _ => inferInstanceAs (Decidable False)

/-- The RIB over a bounded map. -/
abbrev MapRIB (caps : BuildCapacity) :=
  PrefixTreeRIB caps (BoundedMap Str (FIBEntry caps) caps.fibEntries)

/-- Before the first route. -/
def MapRIB.init (caps : BuildCapacity) : MapRIB caps := { fibRepository := .empty }

/-- What a run of `addRoute` and `find` keeps. -/
structure LookupInv (m : Nat) (rib : MapRIB caps) : Prop where
  cover : Cover m rib.fibRepository.lookup
  depth_pos : ∀ k, rib.fibRepository.lookup k ≠ none → 1 ≤ depth slash k

theorem lookupInv_init (m : Nat) : LookupInv m (MapRIB.init caps) where
  cover := ⟨fun h => (by cases h), fun h => (by cases h), fun h => (by cases h)⟩
  depth_pos k h := absurd rfl h

/-- **One call** keeps the invariant. -/
theorem LookupInv.step {m : Nat} (hm : 1 ≤ m) {rib : MapRIB caps} (hinv : LookupInv m rib)
    {op : RouteOp} (hop : op.AddsOrFinds) : LookupInv m (routeStep m rib op).2 := by
  cases op with
  | addRoute contentName nextHopId =>
    show LookupInv m (rib.addRoute m contentName nextHopId)
    rw [PrefixTreeRIB.addRoute]
    split
    · exact hinv
    · exact ⟨hinv.cover.installRoute _ _, depth_pos_installRoute hm hop hinv.depth_pos⟩
  | find contentName =>
    -- a lookup of the map leaves it as it is
    have hfib := fibLpmLookup_eq_longestMatch (t := rib.fibRepository) hm hinv.cover contentName
    show LookupInv m { rib with fibRepository := (find m contentName rib.fibRepository).2 }
    rw [find, hfib]
    exact hinv
  | removeRoute => exact hop.elim
  | get => exact hop.elim

theorem lookupInv_run {m : Nat} (hm : 1 ≤ m) {ops : List RouteOp}
    (hops : ∀ op ∈ ops, op.AddsOrFinds) :
    LookupInv m (StepRun.after (routeStep m) (MapRIB.init caps) ops) :=
  StepRun.after_invariant (fun _ _ hinv hop => hinv.step hm hop) (lookupInv_init m)
    (StepRun.along_of_forall_mem _ hops _)

/-- **Two-stage lookup is longest-prefix match.**  After any run of `addRoute` and `find` on names
with a separator, within or beyond the capacities, a lookup succeeds exactly when a real entry
covers the name, and gives the longest such entry. -/
theorem fibLpmLookup_isLongest (maxVirtualDepth : Int) (hM : 1 ≤ maxVirtualDepth)
    (ops : List RouteOp) (hops : ∀ op ∈ ops, op.AddsOrFinds) (name : Str) :
    let fib := (StepRun.after (routeStep maxVirtualDepth) (MapRIB.init caps) ops).fibRepository
    let result := (fibLpmLookup name (nameDepth name) maxVirtualDepth fib).1
    (result.isSome = true ↔
      ∃ r e, fib.lookup r = some e ∧ e.isVirtual = false ∧ Covers slash r name) ∧
    (∀ e, result = some e → ∃ r, fib.lookup r = some e ∧ e.isVirtual = false ∧
      Covers slash r name ∧ ∀ r' e', fib.lookup r' = some e' → e'.isVirtual = false →
        Covers slash r' name → r'.length ≤ r.length) := by
  obtain ⟨m, rfl⟩ := Int.eq_ofNat_of_zero_le (by omega : 0 ≤ maxVirtualDepth)
  have hm : 1 ≤ m := by omega
  intro fib result
  have hinv : LookupInv m (StepRun.after (routeStep m) (MapRIB.init caps) ops) :=
    lookupInv_run hm hops
  have hresult : result = longestMatch slash (realEntries fib.lookup) name (depth slash name) :=
    congrArg Prod.fst (fibLpmLookup_eq_longestMatch (t := fib) hm hinv.cover name)
  -- every real entry sits at a name with a separator
  have hreal : ∀ r, realEntries fib.lookup r ≠ none → 1 ≤ depth slash r := by
    intro r hr
    refine hinv.depth_pos r fun hnone => hr ?_
    show (fib.lookup r).filter _ = none
    rw [show fib.lookup r = none from hnone]; rfl
  constructor
  · rw [hresult, Option.isSome_iff_ne_none, SeparatedName.longestMatch_ne_none_iff hreal]
    constructor
    · rintro ⟨r, hr, hcov⟩
      obtain ⟨e, he⟩ := Option.ne_none_iff_exists'.mp hr
      have := realEntries_eq_some_iff.mp he
      exact ⟨r, e, this.1, this.2, hcov⟩
    · rintro ⟨r, e, he, hv, hcov⟩
      exact ⟨r, by rw [realEntries_eq_some_iff.mpr ⟨he, hv⟩]; simp, hcov⟩
  · intro e he
    rw [hresult] at he
    obtain ⟨r, hr, hcov, hlongest⟩ := (SeparatedName.longestMatch_eq_some_iff_longest hreal).mp he
    obtain ⟨hlook, hv⟩ := realEntries_eq_some_iff.mp hr
    refine ⟨r, hlook, hv, hcov, fun r' e' he' hv' hcov' => hlongest r' ?_ hcov'⟩
    rw [realEntries_eq_some_iff.mpr ⟨he', hv'⟩]; simp

/-- With `maxVirtualDepth` 1, the name /a/b/c is found through its deep prefix /a/b. -/
theorem fibLpmLookup_isLongest_deep :
    (fibLpmLookup (ascii ['/', 'a', '/', 'b', '/', 'c'])
      (nameDepth (ascii ['/', 'a', '/', 'b', '/', 'c'])) 1
      (StepRun.after (routeStep 1) (MapRIB.init (.uniform 4 (by decide)))
        [.addRoute (ascii ['/', 'a']) (ascii ['x']), .find (ascii ['/', 'a', '/', 'b']),
          .addRoute (ascii ['/', 'a', '/', 'b']) (ascii ['y'])]).fibRepository).1.isSome = true :=
  (fibLpmLookup_isLongest 1 (by decide) _ (by decide) _).1.mpr
    ⟨ascii ['/', 'a', '/', 'b'], _, rfl, rfl, by decide⟩

end Icsn
