import Icsn.DataAccess.CacheIndex
import Icsn.Lib.StepRun

/-!
# Icsn — the cache against the bounded finite map

The abstract model of `FixedSizeLRUCache` is `BoundedMap`: a finite map with room for `maxSize`
keys.  Both run on the same operations (`CacheOp`) and give the same kind of answers.

* **`CacheRel`** — the cache's index is chained, and it looks up what the map holds.
* **`cacheRel_step`** — one operation gives equal answers and related successors, as long as a
  `remove` empties no slot on the probe of another stored key.
* **`refinesMap_iff_removes_safe`** — a run cannot be told from a run of the map exactly when every
  `remove` in it is of that kind.
-/

namespace Icsn

variable {V : Type} {maxSize : Nat} [NeZero maxSize]

/-! ## Lookups of a chained index

The four facts about a `put` and a `remove` that the simulation asks for, in the form in which the
map has them. -/

namespace CacheIndex.Chained

variable {x : CacheIndex V maxSize} {key key' : Str}

/-- A lookup that succeeds nowhere among the valid entries fails. -/
theorem lookup_eq_none_iff (hx : x.Chained) :
    x.lookup key = none ↔ ∀ i, x.valid i = true → x.key i ≠ key := by
  constructor
  · intro hnone i hi hk
    exact hx.lookup_ne_none_of_valid hi (hk ▸ hnone)
  · intro h
    by_contra hne
    obtain ⟨v, hv⟩ := Option.ne_none_iff_exists'.mp hne
    obtain ⟨i, hi, hk, -⟩ := hx.lookup_eq_some_iff.mp hv
    exact h i hi hk

theorem lookup_put_ne (hx : x.Chained) (hne : key' ≠ key) (v : V) :
    (x.put key v).2.lookup key' = x.lookup key' := by
  cases hold : x.lookup key' with
  | some w => exact lookup_put_other hx.toWf hne v hold
  | none =>
    rw [(hx.put key v).lookup_eq_none_iff]
    intro j hj hk
    -- an entry of `key'` after the put was there before it
    have hbefore : x.valid j = true ∧ x.key j = key' := by
      -- overwritten, refused, or stored in an entry that is `key`'s now
      rcases put_cases hx.toWf key v with ⟨h, i, -, heq⟩ | ⟨-, -, heq⟩ | ⟨h, i, -, -, -, -, heq⟩
      · rw [heq] at hj hk; exact ⟨hj, hk⟩
      · rw [heq] at hj hk; exact ⟨hj, hk⟩
      · rw [heq] at hj hk
        have hji : j ≠ i := fun hji => hne (by rw [← hk, hji]; simp [store])
        exact ⟨by simpa [store, hji] using hj, by simpa [store, hji] using hk⟩
    exact hx.lookup_eq_none_iff.mp hold j hbefore.1 hbefore.2

/-- An entry that is valid after a remove was valid before, and is not the removed key's. -/
theorem valid_of_valid_remove (hx : x.Chained) {j : Fin maxSize}
    (hj : (x.remove key).2.valid j = true) :
    x.valid j = true ∧ (x.remove key).2.key j = x.key j ∧ x.key j ≠ key := by
  rcases remove_cases (x := x) key with ⟨hnone, heq⟩ | ⟨h, i, hs, heq⟩
  · rw [heq] at hj ⊢
    exact ⟨hj, rfl, hx.lookup_eq_none_iff.mp (CacheIndex.lookup_eq_none_iff.mpr hnone) j hj⟩
  · rw [heq] at hj ⊢
    have hji : j ≠ i := fun hji => by simp [unstore, hji] at hj
    have hvj : x.valid j = true := by simpa [unstore, hji] using hj
    obtain ⟨-, hvi, hki, -⟩ := findHashSlot_eq_some_iff.mp hs
    exact ⟨hvj, by simp [unstore, hji], fun hk => hji (hx.key_unique hvj hvi (by rw [hk, hki]))⟩

theorem lookup_remove_self (hx : x.Chained) (hsafe : x.RemoveSafe key) :
    (x.remove key).2.lookup key = none := by
  rw [(hx.remove hsafe).lookup_eq_none_iff]
  intro j hj hk
  obtain ⟨-, hkey, hne⟩ := hx.valid_of_valid_remove hj
  exact hne (by rw [← hkey, hk])

theorem lookup_remove_ne (hx : x.Chained) (hsafe : x.RemoveSafe key) (hne : key' ≠ key) :
    (x.remove key).2.lookup key' = x.lookup key' := by
  cases hold : x.lookup key' with
  | some w =>
    obtain ⟨i, hi, rfl, -⟩ := hx.lookup_eq_some_iff.mp hold
    exact lookup_remove_other hx.toWf hne (hsafe i hi) hold
  | none =>
    rw [(hx.remove hsafe).lookup_eq_none_iff]
    intro j hj hk
    obtain ⟨hvj, hkey, -⟩ := hx.valid_of_valid_remove hj
    exact hx.lookup_eq_none_iff.mp hold j hvj (by rw [← hkey, hk])

end CacheIndex.Chained

/-! ## Operations and answers

One type of operations for both levels, so that a run of the cache and a run of the map are runs
over the same list. -/

/-- The public operations of the cache. -/
inductive CacheOp (V : Type) where
  | put (key : Str) (value : V)
  | get (key : Str)
  | contains (key : Str)
  | remove (key : Str)
  | clear

/-- What an operation returns. -/
inductive CacheAnswer (V : Type) where
  | accepted (ok : Bool)
  | value (v : Option V)
  | found (present : Bool)
  | removed (present : Bool)
  | cleared
deriving DecidableEq

/-- One operation on the cache. -/
def FixedSizeLRUCache.step (c : FixedSizeLRUCache V maxSize) :
    CacheOp V → CacheAnswer V × FixedSizeLRUCache V maxSize
  | .put key value => (.accepted (c.put key value).1, (c.put key value).2)
  | .get key => (.value (c.get key).1, (c.get key).2)
  | .contains key => (.found (c.contains key), c)
  | .remove key => (.removed (c.remove key).1, (c.remove key).2)
  | .clear => (.cleared, c.clear)

/-- The same operation on the bounded map. -/
def mapStep (m : BoundedMap Str V maxSize) : CacheOp V → CacheAnswer V × BoundedMap Str V maxSize
  | .put key value => (.accepted (m.put key value).1, (m.put key value).2)
  | .get key => (.value (m.lookup key), m)
  | .contains key => (.found (m.lookup key).isSome, m)
  | .remove key => (.removed (m.remove key).1, (m.remove key).2)
  | .clear => (.cleared, .empty)

/-- A `remove` empties no slot on the probe of another stored key. -/
def SafeOp (c : FixedSizeLRUCache V maxSize) : CacheOp V → Prop
  | .remove key => c.index.RemoveSafe key
  | _ => True

instance (c : FixedSizeLRUCache V maxSize) : ∀ op, Decidable (SafeOp c op)
  | .remove key => inferInstanceAs (Decidable (c.index.RemoveSafe key))
  | .put _ _ | .get _ | .contains _ | .clear => inferInstanceAs (Decidable True)

/-! ## The simulation

The relation says that look-ups agree and that the sizes do, and that the index is chained.  A safe
operation keeps it; an unsafe `remove` makes a key disappear that the map still has, which the next
look-up shows. -/

/-- The cache stands for the map. -/
structure CacheRel (c : FixedSizeLRUCache V maxSize) (m : BoundedMap Str V maxSize) : Prop where
  chained : c.index.Chained
  lookup_eq : ∀ key, c.index.lookup key = m.lookup key
  size_eq : c.currentSize = m.size

theorem cacheRel_init [Inhabited V] :
    CacheRel (.init : FixedSizeLRUCache V maxSize) (.empty : BoundedMap Str V maxSize) where
  chained := CacheIndex.chained_init
  lookup_eq key := by simp
  size_eq := rfl

theorem CacheRel.put {c : FixedSizeLRUCache V maxSize} {m : BoundedMap Str V maxSize}
    (hR : CacheRel c m) (key : Str) (v : V) :
    (c.put key v).1 = (m.put key v).1 ∧ CacheRel (c.put key v).2 (m.put key v).2 := by
  obtain ⟨hfst, hsnd⟩ := FixedSizeLRUCache.index_put key v c
  have hwf := hR.chained.toWf
  have hsize : c.index.currentSize = m.size := hR.size_eq
  -- both refuse the same: an absent key when `maxSize` are present
  have haccept : (c.index.put key v).1 = true ↔ m.Accepts key := by
    rw [← Bool.not_eq_false, CacheIndex.put_eq_false_iff hwf, BoundedMap.accepts_iff,
      hR.lookup_eq key, hsize]
    simp only [Option.isSome_iff_ne_none, not_and_or, not_le, ne_eq]
  by_cases hacc : m.Accepts key
  · have hput := haccept.mpr hacc
    refine ⟨by rw [hfst, hput, BoundedMap.put_of_accepts hacc], ?_⟩
    refine ⟨by rw [hsnd]; exact hR.chained.put key v, fun key' => ?_, ?_⟩
    · rw [hsnd]
      by_cases hk : key' = key
      · subst hk
        rw [CacheIndex.lookup_put_self hwf hput, BoundedMap.lookup_put_self hacc]
      · rw [hR.chained.lookup_put_ne hk, BoundedMap.lookup_put_ne hk, hR.lookup_eq]
    · show (c.put key v).2.index.currentSize = _
      rw [hsnd, BoundedMap.size_put_of_accepts hacc, ← hR.lookup_eq key, ← hsize]
      rcases CacheIndex.put_cases hwf key v with
        ⟨h, i, hs, heq⟩ | ⟨-, -, heq⟩ | ⟨h, i, hs, -, -, -, heq⟩
      · rw [heq]; simp [CacheIndex.lookup, hs, CacheIndex.overwrite]
      · rw [heq] at hput; cases hput
      · rw [heq]; simp [CacheIndex.lookup, hs, CacheIndex.store]
  · have hput : (c.index.put key v).1 = false := by
      rw [← Bool.not_eq_true, haccept]; exact hacc
    rw [hfst, hput, BoundedMap.put_of_not_accepts hacc]
    -- a refused put leaves both as they were
    have hindex : (c.put key v).2.index = c.index := by
      rw [hsnd, CacheIndex.put_of_refused hwf hput]
    exact ⟨rfl, by rw [hindex]; exact hR.chained, by rw [hindex]; exact hR.lookup_eq,
      (congrArg CacheIndex.currentSize hindex).trans hR.size_eq⟩

theorem CacheRel.remove_fst {c : FixedSizeLRUCache V maxSize} {m : BoundedMap Str V maxSize}
    (hR : CacheRel c m) (key : Str) : (c.remove key).1 = (m.remove key).1 := by
  rw [(FixedSizeLRUCache.index_remove key c).1, BoundedMap.remove_fst, ← hR.lookup_eq key]
  rcases CacheIndex.remove_cases (x := c.index) key with ⟨hs, heq⟩ | ⟨h, i, hs, heq⟩
  · rw [heq]; simp [CacheIndex.lookup, hs]
  · rw [heq]; simp [CacheIndex.lookup, hs]

theorem CacheRel.remove {c : FixedSizeLRUCache V maxSize} {m : BoundedMap Str V maxSize}
    (hR : CacheRel c m) {key : Str} (hsafe : c.index.RemoveSafe key) :
    CacheRel (c.remove key).2 (m.remove key).2 := by
  have hsnd := (FixedSizeLRUCache.index_remove key c).2
  have hsize : c.index.currentSize = m.size := hR.size_eq
  refine ⟨by rw [hsnd]; exact hR.chained.remove hsafe, fun key' => ?_, ?_⟩
  · rw [hsnd]
    by_cases hk : key' = key
    · subst hk
      rw [hR.chained.lookup_remove_self hsafe, BoundedMap.lookup_remove_self]
    · rw [hR.chained.lookup_remove_ne hsafe hk, BoundedMap.lookup_remove_ne hk, hR.lookup_eq]
  · show (c.remove key).2.index.currentSize = _
    rw [hsnd, BoundedMap.size_remove, ← hR.lookup_eq key, ← hsize]
    rcases CacheIndex.remove_cases (x := c.index) key with ⟨hs, heq⟩ | ⟨h, i, hs, heq⟩
    · rw [heq]; simp [CacheIndex.lookup, hs]
    · rw [heq]; simp [CacheIndex.lookup, hs, CacheIndex.unstore]

/-- **One answer.**  Whatever the operation, the cache answers like the map. -/
theorem cacheRel_answer {c : FixedSizeLRUCache V maxSize} {m : BoundedMap Str V maxSize}
    (op : CacheOp V) (hR : CacheRel c m) : (c.step op).1 = (mapStep m op).1 := by
  cases op with
  | put key v => exact congrArg CacheAnswer.accepted (hR.put key v).1
  | get key =>
    show CacheAnswer.value (c.get key).1 = CacheAnswer.value (m.lookup key)
    rw [FixedSizeLRUCache.get_fst, hR.lookup_eq]
  | contains key =>
    show CacheAnswer.found (c.contains key) = CacheAnswer.found (m.lookup key).isSome
    rw [FixedSizeLRUCache.contains_eq, hR.lookup_eq]
  | remove key => exact congrArg CacheAnswer.removed (hR.remove_fst key)
  | clear => rfl

/-- **One step.**  A safe operation leaves the cache standing for the map. -/
theorem cacheRel_step {c : FixedSizeLRUCache V maxSize} {m : BoundedMap Str V maxSize}
    (op : CacheOp V) (hR : CacheRel c m) (hsafe : SafeOp c op) :
    CacheRel (c.step op).2 (mapStep m op).2 := by
  cases op with
  | put key v => exact (hR.put key v).2
  | get key =>
    -- only the use order changes
    have hindex := FixedSizeLRUCache.index_get key c
    show CacheRel (c.get key).2 m
    exact ⟨by rw [hindex]; exact hR.chained, by rw [hindex]; exact hR.lookup_eq,
      (congrArg CacheIndex.currentSize hindex).trans hR.size_eq⟩
  | contains key => exact hR
  | remove key => exact hR.remove hsafe
  | clear =>
    show CacheRel c.clear (.empty : BoundedMap Str V maxSize)
    exact ⟨CacheIndex.chained_clear c.index, fun key => CacheIndex.lookup_clear c.index key, rfl⟩

/-- A run of safe operations answers like the map and ends with the cache standing for it. -/
theorem cacheRel_run [Inhabited V] {ops : List (CacheOp V)}
    (hsafe : StepRun.Along FixedSizeLRUCache.step SafeOp
      (.init : FixedSizeLRUCache V maxSize) ops) :
    StepRun.outputs FixedSizeLRUCache.step (.init : FixedSizeLRUCache V maxSize) ops
        = StepRun.outputs mapStep (.empty : BoundedMap Str V maxSize) ops ∧
      CacheRel (StepRun.after FixedSizeLRUCache.step (.init : FixedSizeLRUCache V maxSize) ops)
        (StepRun.after mapStep (.empty : BoundedMap Str V maxSize) ops) := by
  refine StepRun.outputs_eq_of_simulation ?_ cacheRel_init hsafe
  exact fun _ _ op hR hop => ⟨cacheRel_answer op hR, cacheRel_step op hR hop⟩

/-- An unsafe remove loses a key that the map still has. -/
theorem exists_lost_key {c : FixedSizeLRUCache V maxSize} {m : BoundedMap Str V maxSize}
    (hR : CacheRel c m) {key : Str} (hcrossed : ¬ c.index.RemoveSafe key) :
    ∃ key', (c.remove key).2.contains key' = false ∧
      ((m.remove key).2.lookup key').isSome = true := by
  simp only [CacheIndex.RemoveSafe, not_forall, Bool.not_eq_false] at hcrossed
  obtain ⟨i, hi, hcross⟩ := hcrossed
  refine ⟨c.index.key i, ?_, ?_⟩
  · rw [FixedSizeLRUCache.contains_eq, (FixedSizeLRUCache.index_remove key c).2]
    rcases CacheIndex.remove_cases (x := c.index) key with ⟨hs, -⟩ | ⟨h, j, hs, heq⟩
    · simp [CacheIndex.crosses, hs] at hcross
    · rw [heq]
      -- the probe of the crossed key stops at the emptied slot
      have hlost := CacheIndex.findHashSlot_unstore_of_crosses hR.chained.toWf hs hcross
      simp [CacheIndex.lookup, hlost]
  · have hne : c.index.key i ≠ key := by
      rintro hk
      -- no probe passes its own slot
      rw [hk] at hcross
      cases hs : c.index.findHashSlot key with
      | none => simp [CacheIndex.crosses, hs] at hcross
      | some p => simp [CacheIndex.crosses, hs] at hcross
    rw [BoundedMap.lookup_remove_ne hne, ← hR.lookup_eq]
    exact Option.isSome_iff_ne_none.mpr (hR.chained.lookup_ne_none_of_valid hi)

/-! ## The refinement

Both directions of the equivalence are about whole runs: safe removals keep the relation to the end,
and the first unsafe one is found out by a `contains` behind it. -/

/-- **The cache refines the map along `ops`**: at no point of the run can an operation tell the
cache from the bounded map. -/
def RefinesMap (maxSize : Nat) [NeZero maxSize] [Inhabited V] (ops : List (CacheOp V)) : Prop :=
  ∀ pre, pre <+: ops → ∀ op,
    StepRun.outputs FixedSizeLRUCache.step (.init : FixedSizeLRUCache V maxSize) (pre ++ [op])
      = StepRun.outputs mapStep (.empty : BoundedMap Str V maxSize) (pre ++ [op])

/-- **The refinement, and its exact condition.**  From an empty cache the run cannot be told from
a run of the bounded map if and only if every `remove` in it is made in a state where it empties no
slot that the probe of another stored key passes. -/
theorem refinesMap_iff_removes_safe [Inhabited V] (ops : List (CacheOp V)) :
    RefinesMap maxSize ops ↔
      StepRun.Along FixedSizeLRUCache.step SafeOp (.init : FixedSizeLRUCache V maxSize) ops := by
  constructor
  · intro href
    by_contra hviol
    obtain ⟨pre, op, post, rfl, hpre, hop⟩ := StepRun.exists_first_violation _ _ hviol
    -- up to the first unsafe remove the cache stands for the map
    have hR := (cacheRel_run hpre).2
    cases op with
    | put | get | contains | clear => exact hop trivial
    | remove key =>
      obtain ⟨key', hlost, hkept⟩ := exists_lost_key hR hop
      have hprefix : pre ++ [.remove key] <+: pre ++ .remove key :: post :=
        (List.prefix_append_right_inj pre).mpr ⟨post, rfl⟩
      -- asked for the lost key after the remove, the two answer differently
      have hans := href _ hprefix (.contains key')
      rw [StepRun.outputs_concat _ _ (pre ++ [CacheOp.remove key]),
        StepRun.outputs_concat _ _ (pre ++ [CacheOp.remove key])] at hans
      have hlast := (List.append_inj' hans rfl).2
      rw [StepRun.after_concat, StepRun.after_concat, List.cons.injEq] at hlast
      have hfound := CacheAnswer.found.inj hlast.1
      exact absurd (hlost.symm.trans (hfound.trans hkept)) (by simp)
  · rintro hsafe pre ⟨post, rfl⟩ op
    obtain ⟨hout, hR⟩ := cacheRel_run ((StepRun.along_append _ _ _ _ _).mp hsafe).1
    rw [StepRun.outputs_concat, StepRun.outputs_concat, hout, cacheRel_answer op hR]

/-- Removing "e", which sits behind "a" on the same probe, is safe. -/
theorem refinesMap_of_safe_remove :
    RefinesMap 2
      [.put (ascii ['a']) 1, .put (ascii ['e']) 2, .remove (ascii ['e']), .get (ascii ['a'])] :=
  (refinesMap_iff_removes_safe _).mpr (by decide)

/-- "a" and "e" share a home slot of the four-slot table: after "a" is removed, "e" is stored and
not found. -/
theorem not_refinesMap_colliding_remove :
    ¬ ∀ (V : Type) [Inhabited V] (maxSize : Nat) [NeZero maxSize] (ops : List (CacheOp V)),
      RefinesMap maxSize ops := by
  intro h
  have hans := h Nat 2 [.put (ascii ['a']) 1, .put (ascii ['e']) 2, .remove (ascii ['a'])]
    _ (List.prefix_refl _) (.contains (ascii ['e']))
  revert hans
  decide

end Icsn
