import Icsn.DataAccess.FixedNodeIdSet
import Icsn.Lib.FirstDistinct

/-!
# Icsn — a set of node ids over its whole life

What a `FixedNodeIdSet` holds after any calls on it, the sets merged into it being of the same kind.

* **`NodeIdHistory`** — the calls that lead to a set, as a tree; **`offered`** lists the ids offered
  to it since it was cleared.
* **`holds_run`** — the set holds the first distinct of them, cut to `maxChars` characters.
* **`node_id_set_bounded`** — what follows for the answers of the calls.
-/

namespace Icsn

/-- The calls that lead to a set. -/
inductive NodeIdHistory where
  | init
  | clear (h : NodeIdHistory)
  | insert (h : NodeIdHistory) (id : Str)
  | insertFromStdSet (h : NodeIdHistory) (src : StdSet)
  | insertFromOther (h other : NodeIdHistory)

/-- The ids that are not empty, cut to `maxChars` characters. -/
def cutIds (maxChars : Nat) (ids : List Str) : List Str :=
  (ids.map fun id => id.take maxChars).filter fun id => decide (id ≠ [])

namespace NodeIdHistory

/-- The set that the calls lead to. -/
def run (maxItems maxChars : Nat) : NodeIdHistory → FixedNodeIdSet maxItems maxChars
  | init => .empty
  | clear _ => .empty
  | insert h id => ((h.run maxItems maxChars).insert id).2
  | insertFromStdSet h src => ((h.run maxItems maxChars).insertFromStdSet src).2
  | insertFromOther h other =>
    ((h.run maxItems maxChars).insertFromOther (other.run maxItems maxChars)).2

/-- The ids offered since the last `clear`, in order. -/
def offered (maxItems maxChars : Nat) : NodeIdHistory → List Str
  | init => []
  | clear _ => []
  | insert h id => h.offered maxItems maxChars ++ [id]
  | insertFromStdSet h src => h.offered maxItems maxChars ++ src.toList
  | insertFromOther h other => h.offered maxItems maxChars ++ (other.run maxItems maxChars).ids

/-- No id has a NUL in it. -/
def NulFree : NodeIdHistory → Prop
  | init => True
  | clear h => h.NulFree
  | insert h id => h.NulFree ∧ (0 : UInt8) ∉ id
  | insertFromStdSet h src => h.NulFree ∧ ∀ id ∈ src, (0 : UInt8) ∉ id
  | insertFromOther h other => h.NulFree ∧ other.NulFree

end NodeIdHistory

namespace FixedNodeIdSet

variable {maxItems maxChars : Nat} {s : FixedNodeIdSet maxItems maxChars} {id : Str}
  {ids offered : List Str}

/-! ## Cut ids

Cutting to `maxChars` is all that happens to an id without a NUL; the empty id is no id. -/

theorem normalize_eq_take (id : Str) : normalize maxChars id = id.take maxChars := by
  unfold normalize
  split
  · next h => exact (List.take_of_length_le h).symm
  · rfl

theorem stored_eq_take (h0 : 0 ∉ id) : stored maxChars id = id.take maxChars := by
  unfold stored
  rw [normalize_eq_take, cstr_of_zero_notMem fun h => h0 (List.mem_of_mem_take h)]

theorem cutIds_concat (ids : List Str) (id : Str) :
    cutIds maxChars (ids ++ [id])
      = if id.take maxChars = [] then cutIds maxChars ids
        else cutIds maxChars ids ++ [id.take maxChars] := by
  unfold cutIds
  rw [List.map_append, List.map_singleton, List.filter_append, List.filter_singleton]
  by_cases hne : id.take maxChars = []
  · rw [if_pos hne, hne]
    exact List.append_nil _
  · rw [if_neg hne, decide_eq_true hne]
    rfl

theorem nil_notMem_cutIds (ids : List Str) : [] ∉ cutIds maxChars ids := by
  intro h
  exact absurd rfl (of_decide_eq_true (List.mem_filter.mp h).2)

theorem mem_cutIds (hid : id ∈ ids) (hne : id.take maxChars ≠ []) :
    id.take maxChars ∈ cutIds maxChars ids :=
  List.mem_filter.mpr ⟨List.mem_map_of_mem hid, decide_eq_true hne⟩

/-! ## What the set holds

The invariant is one equation: the ids are the first distinct ones of those offered.  An insert
offers one more, so it is kept whether the insert adds the id or not. -/

/-- The set holds the first distinct ids of those offered. -/
def Holds (s : FixedNodeIdSet maxItems maxChars) (offered : List Str) : Prop :=
  s.ids = firstDistinct maxItems (cutIds maxChars offered)

theorem Holds.nil_notMem (h : s.Holds offered) : [] ∉ s.ids := by
  rw [show s.ids = _ from h]
  exact fun hmem => nil_notMem_cutIds offered (mem_of_mem_firstDistinct hmem)

/-- **One insert** offers one more id. -/
theorem Holds.insert (h : s.Holds offered) (h0 : 0 ∉ id) :
    (s.insert id).2.Holds (offered ++ [id]) := by
  have hs : s.ids = firstDistinct maxItems (cutIds maxChars offered) := h
  have hle := s.count_le
  have hcases := insert_cases s id
  rw [normalize_eq_take] at hcases
  unfold Admits at hcases
  rw [normalize_eq_take] at hcases
  unfold Holds
  rw [cutIds_concat]
  by_cases hne : id.take maxChars = []
  · rw [if_pos hne]
    rcases hcases with ⟨-, heq⟩ | ⟨hadm, -⟩ | ⟨hadm, -⟩
    · rw [heq]
      exact h
    · exact absurd hne hadm.1
    · exact absurd hne hadm.1
  · rw [if_neg hne, firstDistinct_concat, ← hs]
    rcases hcases with ⟨hnot, heq⟩ | ⟨-, hmem, heq⟩ | ⟨hadm, hmem, -, heq⟩
    · -- refused: there is no room for it
      have hfull : s.ids.length = maxItems := by
        by_contra hroom
        exact hnot ⟨hne, Or.inr (by omega)⟩
      rw [heq, if_pos (Or.inr hfull)]
    · rw [heq, if_pos (Or.inl hmem)]
    · have hroom := hadm.2.resolve_left hmem
      rw [heq, if_neg (not_or.mpr ⟨hmem, by omega⟩), stored_eq_take h0]

/-- **A bulk insert** offers its ids one after another. -/
theorem Holds.insertAll (h : s.Holds offered) (h0 : ∀ id ∈ ids, (0 : UInt8) ∉ id) :
    (s.insertAll ids).2.Holds (offered ++ ids) := by
  induction ids generalizing s offered with
  | nil =>
    rw [List.append_nil]
    exact h
  | cons id ids ih =>
    obtain ⟨hid, hids⟩ := List.forall_mem_cons.mp h0
    rw [List.append_cons]
    exact ih (h.insert hid) hids

/-! ## What the calls answer

The answers say of an id whether it is in the set afterwards, and a bulk insert how many are not.  A
set that refuses an id other than the empty one is full, and stays so for the rest of the call. -/

/-- **`insert` answers** whether the cut id is a member afterwards. -/
theorem insert_fst_iff (hnil : [] ∉ s.ids) (h0 : 0 ∉ id) :
    (s.insert id).1 = true ↔ id.take maxChars ∈ (s.insert id).2.ids := by
  have hcases := insert_cases s id
  rw [normalize_eq_take] at hcases
  unfold Admits at hcases
  rw [normalize_eq_take] at hcases
  rcases hcases with ⟨hnot, heq⟩ | ⟨-, hmem, heq⟩ | ⟨-, -, htrue, heq⟩
  · rw [heq]
    refine iff_of_false (fun h => Bool.noConfusion h) fun hmem =>
      hnot ⟨fun hempty => ?_, Or.inl hmem⟩
    rw [hempty] at hmem
    exact hnil hmem
  · rw [heq]
    exact iff_of_true rfl hmem
  · rw [htrue, heq, stored_eq_take h0]
    exact iff_of_true rfl (List.mem_append_right _ (List.mem_singleton_self _))

/-- A set that is full takes no more ids. -/
theorem insert_of_full (hfull : maxItems ≤ s.ids.length) : (s.insert id).2 = s := by
  rcases insert_cases s id with ⟨-, heq⟩ | ⟨-, -, heq⟩ | ⟨hadm, hmem, -⟩
  · rw [heq]
  · rw [heq]
  · have hroom := hadm.2.resolve_left hmem
    omega

theorem insertAll_of_full (hfull : maxItems ≤ s.ids.length) : (s.insertAll ids).2 = s := by
  induction ids with
  | nil => rfl
  | cons id ids ih =>
    show ((s.insert id).2.insertAll ids).2 = s
    rw [insert_of_full hfull, ih]

/-- An id that is refused is no member after the rest of a bulk insert either. -/
theorem notMem_insertAll_of_refused (hnil : [] ∉ s.ids) (h0 : ∀ id ∈ ids, (0 : UInt8) ∉ id)
    (hrefused : (s.insert id).1 = false) :
    id.take maxChars ∉ ((s.insert id).2.insertAll ids).2.ids := by
  rcases insert_cases s id with ⟨hnot, heq⟩ | ⟨-, -, heq⟩ | ⟨-, -, htrue, -⟩
  · rw [heq]
    rw [Admits, normalize_eq_take] at hnot
    by_cases hne : id.take maxChars = []
    · rw [hne]
      intro hmem
      rcases mem_or_exists_of_mem_insertAll hmem with hold | ⟨id', hid', hstored, hne'⟩
      · exact hnil hold
      · rw [stored_eq_take (h0 id' hid')] at hstored
        rw [normalize_eq_take] at hne'
        exact hne' hstored.symm
    · have hfull : maxItems ≤ s.ids.length := by
        by_contra hroom
        exact hnot ⟨hne, Or.inr (by omega)⟩
      rw [insertAll_of_full hfull]
      exact fun hmem => hnot ⟨hne, Or.inl hmem⟩
  · rw [heq] at hrefused
    cases hrefused
  · rw [htrue] at hrefused
    cases hrefused

/-- **A bulk insert counts** the ids that are no members afterwards. -/
theorem insertAll_fst (hnil : [] ∉ s.ids) (h0 : ∀ id ∈ ids, (0 : UInt8) ∉ id) :
    (s.insertAll ids).1
      = ids.countP fun id => decide (id.take maxChars ∉ (s.insertAll ids).2.ids) := by
  induction ids generalizing s with
  | nil => rfl
  | cons id ids ih =>
    obtain ⟨hid, hids⟩ := List.forall_mem_cons.mp h0
    have hnil' : [] ∉ (s.insert id).2.ids := by
      intro hmem
      rcases mem_or_eq_of_mem_insert hmem with hold | ⟨hstored, hne⟩
      · exact hnil hold
      · rw [stored_eq_take hid] at hstored
        rw [normalize_eq_take] at hne
        exact hne hstored.symm
    have hsnd : (s.insertAll (id :: ids)).2 = ((s.insert id).2.insertAll ids).2 := rfl
    have hrest := ih hnil' hids
    rw [List.countP_cons, hsnd]
    cases hanswer : (s.insert id).1 with
    | true =>
      -- a member stays one
      have hmem := mem_insertAll_of_mem (l := ids) ((insert_fst_iff hnil hid).mp hanswer)
      rw [if_neg (by simpa using hmem), Nat.add_zero, ← hrest]
      show (if (s.insert id).1 then _ else _) = _
      rw [hanswer, if_pos rfl]
    | false =>
      have hnot := notMem_insertAll_of_refused hnil hids hanswer
      rw [if_pos (by simpa using hnot), ← hrest]
      show (if (s.insert id).1 then _ else _) = _
      rw [hanswer, if_neg (fun h => Bool.noConfusion h)]

/-- An id offered before is a member, or there is no room for it: offering it again changes
nothing. -/
theorem Holds.insert_again (h : s.Holds offered) (hid : id ∈ offered) : (s.insert id).2 = s := by
  have hs : s.ids = firstDistinct maxItems (cutIds maxChars offered) := h
  rcases insert_cases s id with ⟨-, heq⟩ | ⟨-, -, heq⟩ | ⟨hadm, hmem, -, -⟩
  · rw [heq]
  · rw [heq]
  · rw [Admits] at hadm
    rw [normalize_eq_take] at hadm hmem
    have hroom := hadm.2.resolve_left hmem
    rcases mem_firstDistinct_or_full (n := maxItems) (mem_cutIds hid hadm.1) with hmem' | hfull
    · exact absurd (hs ▸ hmem') hmem
    · rw [← hs] at hfull
      omega

/-- **Merging a set into a copy of itself** changes nothing, and drops nothing. -/
theorem insertFromOther_self (hnil : [] ∉ s.ids) : s.insertFromOther s = (0, s) := by
  have hall : ∀ ids : List Str, (∀ id ∈ ids, id ∈ s.ids) → s.insertAll ids = (0, s) := by
    intro ids
    induction ids with
    | nil => exact fun _ => rfl
    | cons id ids ih =>
      intro hids
      obtain ⟨hid, hids⟩ := List.forall_mem_cons.mp hids
      have hnorm : normalize maxChars id = id := normalize_of_length_le (s.isCString id hid).1
      have hinsert : s.insert id = (true, s) := by
        rcases insert_cases s id with ⟨hnot, -⟩ | ⟨-, -, heq⟩ | ⟨-, hmem, -⟩
        · rw [Admits, hnorm] at hnot
          exact absurd ⟨fun hempty => hnil (hempty ▸ hid), Or.inl hid⟩ hnot
        · exact heq
        · rw [hnorm] at hmem
          exact absurd hid hmem
      rw [insertAll, hinsert]
      dsimp only
      rw [ih hids]
      rfl
  exact hall s.ids fun id hid => hid

end FixedNodeIdSet

/-! ## Histories

A set may be merged into another, which has a history of its own; so histories are trees, and the
induction is over them. -/

open FixedNodeIdSet

namespace NodeIdHistory

variable {maxItems maxChars : Nat} {h : NodeIdHistory}

/-- **The set holds** the first distinct ids offered since it was cleared. -/
theorem holds_run (hnul : h.NulFree) :
    (h.run maxItems maxChars).Holds (h.offered maxItems maxChars) := by
  have hempty : (empty : FixedNodeIdSet maxItems maxChars).Holds [] :=
    (List.take_nil : List.take maxItems ([] : List Str) = []).symm
  induction h with
  | init => exact hempty
  | clear h ih => exact hempty
  | insert h id ih => exact (ih hnul.1).insert hnul.2
  | insertFromStdSet h src ih => exact (ih hnul.1).insertAll hnul.2
  | insertFromOther h other ih ih' =>
    exact (ih hnul.1).insertAll fun id hid =>
      ((other.run maxItems maxChars).isCString id hid).2

end NodeIdHistory

theorem length_toStdSet {maxItems maxChars : Nat} {s : FixedNodeIdSet maxItems maxChars}
    (hnodup : s.ids.Nodup) : s.toStdSet.toList.length = s.size := by
  have hnodup' : s.toStdSet.toList.Nodup := s.toStdSet.sorted.imp fun h => h.ne
  have hle := hnodup.length_le_of_subset fun id hid => mem_toStdSet.mpr hid
  exact Nat.le_antisymm s.length_toStdSet_le hle

/-- **A `FixedNodeIdSet` is a bounded set**, whatever calls led to it: it holds the first `maxItems`
distinct ones of the ids offered since it was cleared, each cut to `maxChars` characters and none of
them empty.  An insert answers whether the cut id is a member afterwards, a bulk insert counts the
offered ids that are not; and to merge a copy of the set into it, or an id offered before, takes no
room. -/
theorem node_id_set_bounded (maxItems maxChars : Nat) (h : NodeIdHistory) (hnul : h.NulFree) :
    let s := h.run maxItems maxChars
    s.toStdSet = .ofList (firstDistinct maxItems (cutIds maxChars (h.offered maxItems maxChars))) ∧
    s.size = s.toStdSet.toList.length ∧
    (∀ id : Str, 0 ∉ id →
      ((s.insert id).1 = true ↔ id.take maxChars ∈ (s.insert id).2.toStdSet)) ∧
    (∀ src : StdSet, (∀ id ∈ src, (0 : UInt8) ∉ id) →
      (s.insertFromStdSet src).1 = src.toList.countP fun id =>
        decide (id.take maxChars ∉ (s.insertFromStdSet src).2.toStdSet)) ∧
    (∀ other : NodeIdHistory, other.NulFree →
      let o := other.run maxItems maxChars
      (s.insertFromOther o).1 = o.ids.countP fun id =>
        decide (id.take maxChars ∉ (s.insertFromOther o).2.toStdSet)) ∧
    s.insertFromOther s = (0, s) ∧
    ∀ id ∈ h.offered maxItems maxChars, (s.insert id).2 = s := by
  have hholds : (h.run maxItems maxChars).Holds (h.offered maxItems maxChars) :=
    NodeIdHistory.holds_run hnul
  have hnil := hholds.nil_notMem
  have hids : (h.run maxItems maxChars).ids
      = firstDistinct maxItems (cutIds maxChars (h.offered maxItems maxChars)) := hholds
  simp only [mem_toStdSet]
  refine ⟨congrArg OrderedSet.ofList hids, (length_toStdSet ?_).symm, fun id h0 =>
    insert_fst_iff hnil h0, fun src h0 => insertAll_fst hnil h0, fun other _ => ?_,
    insertFromOther_self hnil, fun id hid => hholds.insert_again hid⟩
  · rw [hids]
    exact nodup_firstDistinct _ _
  · -- the ids of the other set are stored ones, so none has a NUL
    exact insertAll_fst hnil fun id hid => ((other.run maxItems maxChars).isCString id hid).2

/-- Two ids with the same first character, and one that finds no room. -/
theorem node_id_set_bounded_cut :
    let s := NodeIdHistory.run 2 1 (.insert (.insert (.insert .init [97, 98]) [97, 99]) [98])
    s.size = 2 ∧ (s.insert [99]).1 = false ∧
      ((s.insert [99]).1 = true ↔ [99] ∈ (s.insert [99]).2.toStdSet) := by
  have h := node_id_set_bounded 2 1 (.insert (.insert (.insert .init [97, 98]) [97, 99]) [98])
    ⟨⟨⟨trivial, by decide⟩, by decide⟩, by decide⟩
  exact ⟨by decide, by decide, h.2.2.1 [99] (by decide)⟩

end Icsn
