import Icsn.Basic

/-!
# Icsn — the fixed-size set of node ids

`FixedNodeIdSet.hpp`: an array of at most `maxItems` C strings of at most `maxChars` characters.
The array is kept as the list of its first `count` strings; the bounds and the absence of NUL are
fields.

* **`stored`** — what an id becomes in the array: cut to `maxChars` and ended at its first NUL.
* `mem_insert_*` — an insert adds the stored form of the id, or nothing.
* **`mem_insertFromOther_empty`** — copying a set into an empty one loses no id but the empty one.
-/

namespace Icsn

/-- `FixedNodeIdSet<MaxItems, MaxChars>`. -/
structure FixedNodeIdSet (maxItems maxChars : Nat) where
  ids : List Str
  count_le : ids.length ≤ maxItems
  isCString : ∀ id ∈ ids, id.length ≤ maxChars ∧ (0 : UInt8) ∉ id
deriving DecidableEq

namespace FixedNodeIdSet

variable {maxItems maxChars : Nat}

/-! ## Operations

An insert answers whether the id is in the set afterwards; a bulk insert goes on after a refusal,
and counts them.  The standard set, sorted and without duplicates, comes in and goes out as a list
with these properties. -/

def normalize (maxChars : Nat) (id : Str) : Str :=
  if id.length ≤ maxChars then id else id.take maxChars

/-- What `strncpy` leaves of a normalized id in the array. -/
def stored (maxChars : Nat) (id : Str) : Str := cstr (normalize maxChars id)

def findIndex (s : FixedNodeIdSet maxItems maxChars) (id : Str) : Option Nat :=
  s.ids.findIdx? fun x => normalize maxChars id = x

/-- The constructor, and `clear`. -/
def empty : FixedNodeIdSet maxItems maxChars := ⟨[], Nat.zero_le _, by simp⟩

instance : Inhabited (FixedNodeIdSet maxItems maxChars) := ⟨empty⟩

def size (s : FixedNodeIdSet maxItems maxChars) : Nat := s.ids.length

theorem length_normalize_le (id : Str) : (normalize maxChars id).length ≤ maxChars := by
  unfold normalize
  split
  · assumption
  · rw [List.length_take]; exact Nat.min_le_left _ _

theorem stored_isCString (id : Str) :
    (stored maxChars id).length ≤ maxChars ∧ (0 : UInt8) ∉ stored maxChars id :=
  ⟨(length_cstr_le _).trans (length_normalize_le id), zero_notMem_cstr _⟩

/-- The two lines that write the next free string. -/
def append (s : FixedNodeIdSet maxItems maxChars) (id : Str) (h : s.ids.length < maxItems) :
    FixedNodeIdSet maxItems maxChars where
  ids := s.ids ++ [stored maxChars id]
  count_le := by rw [List.length_append, List.length_singleton]; exact h
  isCString := by
    intro x hx
    rcases List.mem_append.mp hx with hx | hx
    · exact s.isCString x hx
    · rw [List.mem_singleton.mp hx]; exact stored_isCString id

def insert (s : FixedNodeIdSet maxItems maxChars) (id : Str) :
    Bool × FixedNodeIdSet maxItems maxChars :=
  let normalized := normalize maxChars id
  if normalized = [] then (false, s)
  -- present already counts as inserted
  else if (s.findIndex normalized).isSome then (true, s)
  else if h : s.ids.length < maxItems then (true, s.append normalized h)
  else (false, s)

/-- The loop of the bulk inserts: insert one id after another and count the dropped ones. -/
def insertAll (s : FixedNodeIdSet maxItems maxChars) :
    List Str → Nat × FixedNodeIdSet maxItems maxChars
  | [] => (0, s)
  | id :: ids =>
    let rest := (s.insert id).2.insertAll ids
    (if (s.insert id).1 then rest.1 else rest.1 + 1, rest.2)

def insertFromStdSet (s : FixedNodeIdSet maxItems maxChars) (src : StdSet) :
    Nat × FixedNodeIdSet maxItems maxChars := s.insertAll src.toList

def insertFromOther (s other : FixedNodeIdSet maxItems maxChars) :
    Nat × FixedNodeIdSet maxItems maxChars := s.insertAll other.ids

def toStdSet (s : FixedNodeIdSet maxItems maxChars) : StdSet := .ofList s.ids

/-! ## Ids as they are stored

An id is cut twice, by `normalize` to the length and by the array at its first NUL.  The text of a
MAC has 17 characters and no NUL, so neither does anything to it where 17 are allowed. -/

theorem normalize_of_length_le {id : Str} (h : id.length ≤ maxChars) :
    normalize maxChars id = id := if_pos h

@[simp] theorem normalize_normalize (id : Str) :
    normalize maxChars (normalize maxChars id) = normalize maxChars id :=
  normalize_of_length_le (length_normalize_le id)

@[simp] theorem stored_normalize (id : Str) :
    stored maxChars (normalize maxChars id) = stored maxChars id := by
  rw [stored, normalize_normalize, stored]

/-- An id that is short enough and holds no NUL is stored as it is. -/
theorem stored_of_isCString {id : Str} (h : id.length ≤ maxChars ∧ (0 : UInt8) ∉ id) :
    stored maxChars id = id := by
  rw [stored, normalize_of_length_le h.1, cstr_of_zero_notMem h.2]

/-! ## Members after an insert

The members before are members after, and at most the stored form of the id comes to them.  Whether
it does depends on the room that is left. -/

variable {s : FixedNodeIdSet maxItems maxChars} {id x : Str}

theorem findIndex_isSome_iff :
    (s.findIndex (normalize maxChars id)).isSome = true ↔ normalize maxChars id ∈ s.ids := by
  unfold findIndex
  rw [List.findIdx?_isSome, normalize_normalize, List.any_eq_true]
  constructor
  · rintro ⟨x, hx, heq⟩
    rwa [of_decide_eq_true heq]
  · exact fun hmem => ⟨_, hmem, decide_eq_true rfl⟩

/-- The id is present already, or there is room for it. -/
def Admits (s : FixedNodeIdSet maxItems maxChars) (id : Str) : Prop :=
  normalize maxChars id ≠ [] ∧ (normalize maxChars id ∈ s.ids ∨ s.ids.length < maxItems)

instance (s : FixedNodeIdSet maxItems maxChars) (id : Str) : Decidable (s.Admits id) :=
  inferInstanceAs (Decidable (_ ∧ _))

/-- **The ways `insert` goes**: refused, present already, appended. -/
theorem insert_cases (s : FixedNodeIdSet maxItems maxChars) (id : Str) :
    (¬ s.Admits id ∧ s.insert id = (false, s)) ∨
    (s.Admits id ∧ normalize maxChars id ∈ s.ids ∧ s.insert id = (true, s)) ∨
    (s.Admits id ∧ normalize maxChars id ∉ s.ids ∧ (s.insert id).1 = true ∧
      (s.insert id).2.ids = s.ids ++ [stored maxChars id]) := by
  unfold insert Admits
  dsimp only
  by_cases hempty : normalize maxChars id = []
  · exact Or.inl ⟨fun h => h.1 hempty, if_pos hempty⟩
  · rw [if_neg hempty]
    by_cases hmem : normalize maxChars id ∈ s.ids
    · exact Or.inr (Or.inl ⟨⟨hempty, Or.inl hmem⟩, hmem, if_pos (findIndex_isSome_iff.mpr hmem)⟩)
    · rw [if_neg (fun h => hmem (findIndex_isSome_iff.mp h))]
      by_cases hroom : s.ids.length < maxItems
      · rw [dif_pos hroom]
        exact Or.inr (Or.inr ⟨⟨hempty, Or.inr hroom⟩, hmem, rfl, by simp [append]⟩)
      · rw [dif_neg hroom]
        exact Or.inl ⟨fun h => h.2.elim hmem hroom, rfl⟩

theorem mem_insert_of_mem (hx : x ∈ s.ids) : x ∈ (s.insert id).2.ids := by
  rcases insert_cases s id with ⟨-, heq⟩ | ⟨-, -, heq⟩ | ⟨-, -, -, heq⟩
  · rw [heq]; exact hx
  · rw [heq]; exact hx
  · rw [heq]; exact List.mem_append_left _ hx

/-- An id present as it is stays so: nothing but its stored form is ever added. -/
theorem mem_or_eq_of_mem_insert (hx : x ∈ (s.insert id).2.ids) :
    x ∈ s.ids ∨ (x = stored maxChars id ∧ normalize maxChars id ≠ []) := by
  rcases insert_cases s id with ⟨-, heq⟩ | ⟨-, -, heq⟩ | ⟨hadm, -, -, heq⟩
  · rw [heq] at hx; exact Or.inl hx
  · rw [heq] at hx; exact Or.inl hx
  · rw [heq] at hx
    exact (List.mem_append.mp hx).imp_right fun h => ⟨List.mem_singleton.mp h, hadm.1⟩

/-- An admitted id is found in its stored form. -/
theorem stored_mem_insert (hadm : s.Admits id) : stored maxChars id ∈ (s.insert id).2.ids := by
  rcases insert_cases s id with ⟨hnot, -⟩ | ⟨-, hmem, heq⟩ | ⟨-, -, -, heq⟩
  · exact absurd hadm hnot
  · rw [heq, stored, cstr_of_zero_notMem (s.isCString _ hmem).2]
    exact hmem
  · rw [heq]; exact List.mem_append_right _ (List.mem_singleton.mpr rfl)

theorem length_insert_le : (s.insert id).2.ids.length ≤ s.ids.length + 1 := by
  rcases insert_cases s id with ⟨-, heq⟩ | ⟨-, -, heq⟩ | ⟨-, -, -, heq⟩
  · rw [heq]; exact Nat.le_succ _
  · rw [heq]; exact Nat.le_succ _
  · rw [heq]; simp

/-! ## Members after a bulk insert

The same by induction over the ids.  An id that found no room is not offered again, so order matters
when the room does not suffice for all. -/

theorem mem_insertAll_of_mem {l : List Str} (hx : x ∈ s.ids) : x ∈ (s.insertAll l).2.ids := by
  induction l generalizing s with
  | nil => exact hx
  | cons id l ih => exact ih (mem_insert_of_mem hx)

theorem mem_or_exists_of_mem_insertAll {l : List Str} (hx : x ∈ (s.insertAll l).2.ids) :
    x ∈ s.ids ∨ ∃ id ∈ l, x = stored maxChars id ∧ normalize maxChars id ≠ [] := by
  induction l generalizing s with
  | nil => exact Or.inl hx
  | cons id l ih =>
    rcases ih hx with h | ⟨id', hmem, h⟩
    · rcases mem_or_eq_of_mem_insert h with h | h
      · exact Or.inl h
      · exact Or.inr ⟨id, List.mem_cons_self, h⟩
    · exact Or.inr ⟨id', List.mem_cons_of_mem _ hmem, h⟩

theorem length_insertAll_le (s : FixedNodeIdSet maxItems maxChars) (l : List Str) :
    (s.insertAll l).2.ids.length ≤ s.ids.length + l.length := by
  induction l generalizing s with
  | nil => exact Nat.le_refl _
  | cons id l ih =>
    have hrest := ih (s.insert id).2
    have hone : (s.insert id).2.ids.length ≤ s.ids.length + 1 := length_insert_le
    rw [List.length_cons]
    show ((s.insert id).2.insertAll l).2.ids.length ≤ _
    omega

/-- With room for the whole list, every id of it ends up stored. -/
theorem stored_mem_insertAll {l : List Str} (hroom : s.ids.length + l.length ≤ maxItems) {id : Str}
    (hmem : id ∈ l) (hne : normalize maxChars id ≠ []) :
    stored maxChars id ∈ (s.insertAll l).2.ids := by
  induction l generalizing s with
  | nil => cases hmem
  | cons id' l ih =>
    rw [List.length_cons] at hroom
    rcases List.mem_cons.mp hmem with rfl | hmem
    · have hadm : s.Admits id := ⟨hne, Or.inr (by omega)⟩
      exact mem_insertAll_of_mem (s := (s.insert id).2) (stored_mem_insert hadm)
    · have hlen : (s.insert id').2.ids.length ≤ s.ids.length + 1 := length_insert_le
      exact ih (s := (s.insert id').2) (by omega) hmem

/-- Distinct ids that are stored as they are fill the room left, in order. -/
theorem ids_insertAll {l : List Str} (hroom : s.ids.length + l.length ≤ maxItems)
    (hself : ∀ id ∈ l, id ≠ [] ∧ id.length ≤ maxChars ∧ (0 : UInt8) ∉ id)
    (hnodup : (s.ids ++ l).Nodup) : (s.insertAll l).2.ids = s.ids ++ l := by
  induction l generalizing s with
  | nil => exact (List.append_nil _).symm
  | cons id l ih =>
    rw [List.length_cons] at hroom
    obtain ⟨hne, hid⟩ := hself id List.mem_cons_self
    have hnorm : normalize maxChars id = id := normalize_of_length_le hid.1
    have hnew : id ∉ s.ids := fun hmem =>
      (List.nodup_append.mp hnodup).2.2 id hmem id List.mem_cons_self rfl
    have hinsert : (s.insert id).2.ids = s.ids ++ [id] := by
      rcases insert_cases s id with ⟨hnot, -⟩ | ⟨-, hmem, -⟩ | ⟨-, -, -, heq⟩
      · exact absurd ⟨by rwa [hnorm], Or.inr (by omega)⟩ hnot
      · rw [hnorm] at hmem; exact absurd hmem hnew
      · rw [heq, stored_of_isCString hid]
    have hrest : _ = (s.insert id).2.ids ++ l := ih
      (by rw [hinsert, List.length_append, List.length_singleton]; omega)
      (fun id' hid' => hself id' (List.mem_cons_of_mem id hid'))
      (by rw [hinsert, List.append_assoc]; exact hnodup)
    rw [insertAll, hrest, hinsert, List.append_assoc, List.singleton_append]

/-- A set of distinct ids, none of them empty, is copied as it is. -/
theorem ids_insertFromOther_empty {other : FixedNodeIdSet maxItems maxChars}
    (hne : [] ∉ other.ids) (hnodup : other.ids.Nodup) :
    (empty.insertFromOther other).2.ids = other.ids := by
  have hself : ∀ id ∈ other.ids, id ≠ [] ∧ id.length ≤ maxChars ∧ (0 : UInt8) ∉ id :=
    fun id hid => ⟨fun heq => hne (heq ▸ hid), other.isCString id hid⟩
  exact ids_insertAll (s := empty) (by simpa [empty] using other.count_le) hself hnodup

/-- **A copy into an empty set** keeps every id but the empty one. -/
theorem mem_insertFromOther_empty {other : FixedNodeIdSet maxItems maxChars} :
    x ∈ (empty.insertFromOther other).2.ids ↔ x ∈ other.ids ∧ x ≠ [] := by
  have hself : ∀ {id : Str}, id ∈ other.ids →
      normalize maxChars id = id ∧ stored maxChars id = id := fun hid =>
    ⟨normalize_of_length_le (other.isCString _ hid).1, stored_of_isCString (other.isCString _ hid)⟩
  constructor
  · intro hx
    rcases mem_or_exists_of_mem_insertAll hx with h | ⟨id, hid, rfl, hne⟩
    · cases h
    · rw [(hself hid).1] at hne
      rw [(hself hid).2]
      exact ⟨hid, hne⟩
  · rintro ⟨hx, hne⟩
    have hmem := stored_mem_insertAll (s := (empty : FixedNodeIdSet maxItems maxChars))
      (l := other.ids) (by simpa [empty] using other.count_le) hx (by rwa [(hself hx).1])
    rwa [(hself hx).2] at hmem

@[simp] theorem mem_toStdSet : x ∈ s.toStdSet ↔ x ∈ s.ids := OrderedSet.mem_ofList

theorem length_toStdSet_le (s : FixedNodeIdSet maxItems maxChars) :
    s.toStdSet.toList.length ≤ s.ids.length := OrderedSet.length_ofList_le s.ids

end FixedNodeIdSet

end Icsn
