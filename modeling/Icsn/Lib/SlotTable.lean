import Mathlib.Logic.Function.Basic
import Mathlib.Data.Fin.Tuple.Basic

/-!
# Tables of slots

A fixed array of slots, searched from the front, in which an entry is made for a key the first time
the key is asked for and kept for good.

* **`SlotKind`** — what a slot holds: its key, whether it is in use, and the entry made for a key.
* **`find`** / **`claim`** — the first slot of a key; that slot, or a free one made its own.
* **`entry`** — the entry of a key, the fresh one if it has none.  The lemmas about a table are
  about its entries: a claim changes none of them (`entry_claim`), a write at the slot of a key
  changes that key's alone (`entry_write_self`, `entry_write_ne`).
-/

/-- What the slots of a table hold. -/
structure SlotKind (K E : Type*) where
  key : E → K
  live : E → Bool
  fresh : K → E
  key_fresh : ∀ k, key (fresh k) = k
  live_fresh : ∀ k, live (fresh k) = true

namespace SlotKind

variable {K E : Type*} [DecidableEq K] {n : Nat} (S : SlotKind K E)

/-! ## Operations

Slots are searched from the front, and one that is in use stays with its key for good. -/

/-- The slot content is in use for the key. -/
def holds (k : K) (e : E) : Bool := S.live e && decide (S.key e = k)

/-- The first slot in use for the key. -/
def find (k : K) (t : Fin n → E) : Option (Fin n) := Fin.find? fun i => S.holds k (t i)

/-- The first slot that is free. -/
def findFree (t : Fin n → E) : Option (Fin n) := Fin.find? fun i => !S.live (t i)

/-- The slot of the key; a free one is made its slot if it has none. -/
def claim (k : K) (t : Fin n → E) : Option (Fin n) × (Fin n → E) :=
  match S.find k t with
  | some i => (some i, t)
  | none =>
    match S.findFree t with
    | some i => (some i, Function.update t i (S.fresh k))
    | none => (none, t)

/-- The entry of the key, the fresh one if it has no slot. -/
def entry (k : K) (t : Fin n → E) : E := ((S.find k t).map t).getD (S.fresh k)

/-- The key has a slot, or there is a free one for it. -/
def HasRoom (k : K) (t : Fin n → E) : Prop :=
  (S.find k t).isSome = true ∨ (S.findFree t).isSome = true

instance (k : K) (t : Fin n → E) : Decidable (S.HasRoom k t) := inferInstanceAs (Decidable (_ ∨ _))

/-! ## Slots

Which slot a key finds depends on the slots in use for it alone, so writes for other keys do not
matter. -/

variable {S} {k k' : K} {t : Fin n → E} {i : Fin n} {e : E}

theorem holds_iff : S.holds k e = true ↔ S.live e = true ∧ S.key e = k := by
  rw [holds, Bool.and_eq_true, decide_eq_true_eq]

/-- What is in use for one key is not in use for another. -/
theorem holds_eq_false_of_ne (hk : S.key e = k) (hne : k' ≠ k) : S.holds k' e = false := by
  rw [← Bool.not_eq_true, holds_iff, hk]
  exact fun h => hne h.2.symm

theorem holds_of_find (h : S.find k t = some i) : S.holds k (t i) = true :=
  Fin.eq_true_of_find?_eq_some h

omit [DecidableEq K] in
theorem live_of_findFree (h : S.findFree t = some i) : S.live (t i) = false := by
  rw [← Bool.not_eq_true']
  exact Fin.eq_true_of_find?_eq_some h

/-- A key looks for its slot among the slots in use for it, and no others matter. -/
theorem find_congr {t' : Fin n → E} (h : ∀ j, S.holds k (t' j) = S.holds k (t j)) :
    S.find k t' = S.find k t := by
  unfold find
  rw [funext h]

/-- A write that is in use for the key keeps the slot found for it. -/
theorem find_write_self (hfind : S.find k t = some i) (he : S.holds k e = true) :
    S.find k (Function.update t i e) = some i := by
  rw [← hfind]
  refine find_congr fun j => ?_
  by_cases hji : j = i
  · rw [hji, Function.update_self, he, holds_of_find hfind]
  · rw [Function.update_of_ne hji]

/-- A write of what is not in use for the key, over what was not, keeps its slot. -/
theorem find_write_ne (hold : S.holds k (t i) = false) (hnew : S.holds k e = false) :
    S.find k (Function.update t i e) = S.find k t := by
  refine find_congr fun j => ?_
  by_cases hji : j = i
  · rw [hji, Function.update_self, hold, hnew]
  · rw [Function.update_of_ne hji]

/-- The first slot made for a key that had none is the one found for it. -/
theorem find_write_new (hnone : S.find k t = none) (he : S.holds k e = true) :
    S.find k (Function.update t i e) = some i := by
  have hother : ∀ j, S.holds k (t j) = false := Fin.find?_eq_none_iff.mp hnone
  refine Fin.find?_eq_some_iff.mpr ⟨?_, fun j hj => ?_⟩
  · rw [Function.update_self]
    exact he
  · rw [Function.update_of_ne (Fin.ne_of_lt hj)]
    exact hother j

/-- A write at the slot of a key leaves the slots of all keys. -/
theorem find_write (hfind : S.find k t = some i) (he : S.holds k e = true) (k' : K) :
    S.find k' (Function.update t i e) = S.find k' t := by
  by_cases hk : k' = k
  · rw [hk, hfind]
    exact find_write_self hfind he
  · exact find_write_ne (holds_eq_false_of_ne (holds_iff.mp (holds_of_find hfind)).2 hk)
      (holds_eq_false_of_ne (holds_iff.mp he).2 hk)

/-! ## Entries

The entry of a key is what users of the table see.  It does not tell where the slot is, nor, if it
is still fresh, whether there is one. -/

theorem entry_of_find (h : S.find k t = some i) : S.entry k t = t i := by
  rw [entry, h]
  rfl

theorem entry_of_not_found (h : S.find k t = none) : S.entry k t = S.fresh k := by
  rw [entry, h]
  rfl

/-- A write of what is not in use for the key, over what was not, keeps its entry. -/
theorem entry_write_of_unheld (hold : S.holds k (t i) = false) (hnew : S.holds k e = false) :
    S.entry k (Function.update t i e) = S.entry k t := by
  have hsame := find_write_ne hold hnew
  cases hfind : S.find k t with
  | none => rw [entry_of_not_found hfind, entry_of_not_found (hsame.trans hfind)]
  | some j =>
    have hji : j ≠ i := fun hji => by
      rw [← hji, holds_of_find hfind] at hold
      cases hold
    rw [entry_of_find hfind, entry_of_find (hsame.trans hfind), Function.update_of_ne hji]

/-- **A write at the slot of a key** is that key's entry. -/
theorem entry_write_self (hfind : S.find k t = some i) (he : S.holds k e = true) :
    S.entry k (Function.update t i e) = e := by
  rw [entry_of_find (find_write_self hfind he), Function.update_self]

/-- **A write at the slot of a key** leaves every other entry alone. -/
theorem entry_write_ne (hfind : S.find k t = some i) (he : S.holds k e = true) (hne : k' ≠ k) :
    S.entry k' (Function.update t i e) = S.entry k' t :=
  entry_write_of_unheld (holds_eq_false_of_ne (holds_iff.mp (holds_of_find hfind)).2 hne)
    (holds_eq_false_of_ne (holds_iff.mp he).2 hne)

/-! ## Claims

A claim fails only when the key has no slot and none is free; what it makes of a free slot is an
entry that the key had anyway. -/

/-- **The three ways `claim` goes**: the slot is there, a free one is taken, there is none. -/
theorem claim_cases (S : SlotKind K E) (k : K) (t : Fin n → E) :
    (∃ i, S.find k t = some i ∧ S.claim k t = (some i, t)) ∨
    (∃ i, S.find k t = none ∧ S.findFree t = some i ∧
      S.claim k t = (some i, Function.update t i (S.fresh k))) ∨
    (S.find k t = none ∧ S.findFree t = none ∧ S.claim k t = (none, t)) := by
  unfold claim
  cases S.find k t with
  | some i => exact Or.inl ⟨i, rfl, rfl⟩
  | none =>
    cases S.findFree t with
    | some i => exact Or.inr (Or.inl ⟨i, rfl, rfl, rfl⟩)
    | none => exact Or.inr (Or.inr ⟨rfl, rfl, rfl⟩)

theorem holds_fresh (S : SlotKind K E) (k : K) : S.holds k (S.fresh k) = true :=
  holds_iff.mpr ⟨S.live_fresh k, S.key_fresh k⟩

/-- **A claim changes no entry.** -/
theorem entry_claim (S : SlotKind K E) (k k' : K) (t : Fin n → E) :
    S.entry k' (S.claim k t).2 = S.entry k' t := by
  rcases claim_cases S k t with ⟨i, -, heq⟩ | ⟨i, hnone, hfree, heq⟩ | ⟨-, -, heq⟩
  · rw [heq]
  · rw [heq]
    by_cases hk : k' = k
    · -- the key asked for gets the entry it had without a slot
      subst hk
      rw [entry_of_find (find_write_new hnone (holds_fresh S k')), Function.update_self,
        entry_of_not_found hnone]
    · have hold : S.holds k' (t i) = false := by
        rw [holds, live_of_findFree hfree, Bool.false_and]
      have hnew : S.holds k' (S.fresh k) = false := holds_eq_false_of_ne (S.key_fresh k) hk
      exact entry_write_of_unheld hold hnew
  · rw [heq]

/-- A claim that succeeds gives the slot of the key. -/
theorem find_claim (h : (S.claim k t).1 = some i) : S.find k (S.claim k t).2 = some i := by
  rcases claim_cases S k t with ⟨j, hfind, heq⟩ | ⟨j, hnone, -, heq⟩ | ⟨-, -, heq⟩
  · rw [heq] at h ⊢
    rw [hfind, ← h]
  · rw [heq] at h ⊢
    obtain rfl := Option.some.inj h
    exact find_write_new hnone (holds_fresh S k)
  · rw [heq] at h
    cases h

/-- **A claim takes no slot away.** -/
theorem find_claim_of_found (S : SlotKind K E) (k : K) (h : S.find k' t = some i) :
    S.find k' (S.claim k t).2 = some i := by
  rcases claim_cases S k t with ⟨j, -, heq⟩ | ⟨j, hnone, hfree, heq⟩ | ⟨-, -, heq⟩
  · rw [heq]
    exact h
  · have hk : k' ≠ k := fun hk => by
      rw [hk, hnone] at h
      cases h
    have hold : S.holds k' (t j) = false := by
      rw [holds, live_of_findFree hfree, Bool.false_and]
    rw [heq]
    exact (find_write_ne hold (holds_eq_false_of_ne (S.key_fresh k) hk)).trans h
  · rw [heq]
    exact h

/-- A claim succeeds exactly when there is room. -/
theorem claim_isSome_iff : (S.claim k t).1.isSome = true ↔ S.HasRoom k t := by
  unfold HasRoom
  rcases claim_cases S k t with ⟨i, hfind, heq⟩ | ⟨i, hnone, hfree, heq⟩ | ⟨hnone, hfree, heq⟩
  · rw [heq, hfind]
    exact iff_of_true rfl (Or.inl rfl)
  · rw [heq, hfree]
    exact iff_of_true rfl (Or.inr rfl)
  · rw [heq, hnone, hfree]
    simp

/-- A claim that fails changes nothing. -/
theorem claim_snd_of_none (h : (S.claim k t).1 = none) : (S.claim k t).2 = t := by
  rcases claim_cases S k t with ⟨i, -, heq⟩ | ⟨i, -, -, heq⟩ | ⟨-, -, heq⟩
  · rw [heq]
  · rw [heq] at h
    cases h
  · rw [heq]

/-- **A claim leaves the slots in use alone.** -/
theorem claim_of_live (S : SlotKind K E) (k : K) (hlive : S.live (t i) = true) :
    (S.claim k t).2 i = t i := by
  rcases claim_cases S k t with ⟨j, -, heq⟩ | ⟨j, -, hfree, heq⟩ | ⟨-, -, heq⟩
  · rw [heq]
  · rw [heq]
    refine Function.update_of_ne (fun hij => ?_) _ _
    rw [hij, live_of_findFree hfree] at hlive
    cases hlive
  · rw [heq]

/-- The slot of a key that has one is claimed again without a change. -/
theorem claim_of_found (h : S.find k t = some i) : S.claim k t = (some i, t) := by
  unfold claim
  rw [h]

/-! ## Which slots are whose

Two tables that have been through the same claims, whatever was written to their slots. -/

/-- The two tables have the same slots in use, for the same keys. -/
def SameSlots (S : SlotKind K E) (t t' : Fin n → E) : Prop :=
  ∀ i, S.live (t' i) = S.live (t i) ∧ S.key (t' i) = S.key (t i)

omit [DecidableEq K] in
theorem SameSlots.refl (S : SlotKind K E) (t : Fin n → E) : S.SameSlots t t := fun _ => ⟨rfl, rfl⟩

variable {t' t'' : Fin n → E}

omit [DecidableEq K] in
theorem SameSlots.trans (h : S.SameSlots t t') (h' : S.SameSlots t' t'') : S.SameSlots t t'' :=
  fun i => ⟨(h' i).1.trans (h i).1, (h' i).2.trans (h i).2⟩

theorem SameSlots.find_eq (h : S.SameSlots t t') (k : K) : S.find k t' = S.find k t :=
  find_congr fun i => by rw [holds, holds, (h i).1, (h i).2]

omit [DecidableEq K] in
theorem SameSlots.findFree_eq (h : S.SameSlots t t') : S.findFree t' = S.findFree t := by
  unfold findFree
  rw [funext fun i => congrArg not (h i).1]

theorem SameSlots.hasRoom_iff (h : S.SameSlots t t') (k : K) :
    S.HasRoom k t' ↔ S.HasRoom k t := by
  unfold HasRoom
  rw [h.find_eq, h.findFree_eq]

/-- **A claim finds or takes the same slot** in both. -/
theorem SameSlots.claim (h : S.SameSlots t t') (k : K) :
    S.SameSlots (S.claim k t).2 (S.claim k t').2 := by
  unfold SlotKind.claim
  rw [h.find_eq k, h.findFree_eq]
  cases S.find k t with
  | some i => exact h
  | none =>
    cases S.findFree t with
    | none => exact h
    | some i =>
      intro j
      show S.live (Function.update t' i (S.fresh k) j)
          = S.live (Function.update t i (S.fresh k) j) ∧
        S.key (Function.update t' i (S.fresh k) j) = S.key (Function.update t i (S.fresh k) j)
      by_cases hji : j = i
      · rw [hji, Function.update_self, Function.update_self]
        exact ⟨rfl, rfl⟩
      · rw [Function.update_of_ne hji, Function.update_of_ne hji]
        exact h j

/-- A write at the slot of a key takes no slot. -/
theorem sameSlots_write (hfind : S.find k t = some i) (he : S.holds k e = true) :
    S.SameSlots t (Function.update t i e) := by
  intro j
  by_cases hji : j = i
  · obtain ⟨hlive, hkey⟩ := holds_iff.mp (holds_of_find hfind)
    obtain ⟨hlive', hkey'⟩ := holds_iff.mp he
    rw [hji, Function.update_self, hlive, hkey]
    exact ⟨hlive', hkey'⟩
  · rw [Function.update_of_ne hji]
    exact ⟨rfl, rfl⟩

end SlotKind
