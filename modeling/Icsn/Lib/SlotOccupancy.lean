import Icsn.Lib.SlotTable
import Mathlib.Data.Fintype.Card

/-!
# Occupied slots

How many slots of a table are in use, and by which keys.

* **`Found`** / **`taken`** — the keys that have a slot, the slots in use.
* **`OneSlotEach`** / **`keysInUse`** — no key has two slots, so there are as many keys in use as
  slots; a claim adds its key (`keysInUse_claim`).
* **`Within`** — a table and a fuller one, in which some more keys have a slot.  A key that finds
  room in the fuller table finds it in the other (`Within.hasRoom`); a claim in both
  (`Within.claim`), or in the fuller one alone (`Within.claim_right`), leaves them so.
-/

namespace SlotKind

variable {K E : Type*} [DecidableEq K] {n : Nat} {S : SlotKind K E} {k k' : K}
  {t t' u u' : Fin n → E}

/-- The key has a slot. -/
def Found (S : SlotKind K E) (k : K) (t : Fin n → E) : Prop := (S.find k t).isSome = true

instance (k : K) (t : Fin n → E) : Decidable (S.Found k t) := inferInstanceAs (Decidable (_ = _))

omit [DecidableEq K] in
/-- The slots in use. -/
def taken (S : SlotKind K E) (t : Fin n → E) : Finset (Fin n) :=
  Finset.univ.filter fun i => S.live (t i) = true

theorem SameSlots.found_iff (h : S.SameSlots t t') (k : K) : S.Found k t' ↔ S.Found k t := by
  unfold Found
  rw [h.find_eq]

omit [DecidableEq K] in
theorem SameSlots.taken_eq (h : S.SameSlots t t') : S.taken t' = S.taken t := by
  unfold taken
  exact Finset.filter_congr fun i _ => by rw [(h i).1]

omit [DecidableEq K] in
/-- A slot is free exactly if not all are taken. -/
theorem findFree_isSome_iff : (S.findFree t).isSome = true ↔ (S.taken t).card < n := by
  have hle : (S.taken t).card ≤ n := (Finset.card_le_univ _).trans_eq (Fintype.card_fin n)
  have hfull : (S.taken t).card = n ↔ S.findFree t = none := by
    have huniv := Finset.card_eq_iff_eq_univ (S.taken t)
    rw [Fintype.card_fin] at huniv
    rw [huniv, Finset.eq_univ_iff_forall]
    unfold findFree taken
    rw [Fin.find?_eq_none_iff]
    simp
  rw [Option.isSome_iff_ne_none, ne_eq, ← hfull]
  omega

/-! ## Claims

A claim with room takes at most one slot more, and takes none away.  While not all slots are taken
there is room for everyone. -/

/-- A claim by a key that has a slot changes nothing. -/
theorem claim_snd_of_found (h : S.Found k t) : (S.claim k t).2 = t := by
  obtain ⟨i, hi⟩ := Option.isSome_iff_exists.mp h
  rw [claim_of_found hi]

/-- **A claim with room** gives the key a slot, and takes none away. -/
theorem found_claim (hroom : S.HasRoom k t) (k' : K) :
    S.Found k' (S.claim k t).2 ↔ S.Found k' t ∨ k' = k := by
  obtain ⟨i, hi⟩ := Option.isSome_iff_exists.mp (claim_isSome_iff.mpr hroom)
  have hself : S.Found k (S.claim k t).2 := Option.isSome_iff_exists.mpr ⟨i, find_claim hi⟩
  by_cases hk : k' = k
  · rw [hk]
    exact iff_of_true hself (Or.inr rfl)
  · rw [or_iff_left hk]
    rcases claim_cases S k t with ⟨j, -, heq⟩ | ⟨j, -, hfree, heq⟩ | ⟨-, -, heq⟩
    · rw [heq]
    · -- the new slot is not for this key
      have hold : S.holds k' (t j) = false := by
        rw [holds, live_of_findFree hfree, Bool.false_and]
      have hnew := find_write_ne hold (holds_eq_false_of_ne (S.key_fresh k) hk)
      rw [heq]
      unfold Found
      rw [hnew]
    · rw [heq]

/-- A claim by a key without a slot takes a free one. -/
theorem card_taken_claim (hfound : ¬ S.Found k t) (hroom : S.HasRoom k t) :
    (S.taken (S.claim k t).2).card = (S.taken t).card + 1 := by
  rcases claim_cases S k t with ⟨j, hfind, -⟩ | ⟨j, -, hfree, heq⟩ | ⟨hnone, hfull, -⟩
  · exact absurd (Option.isSome_iff_exists.mpr ⟨j, hfind⟩) hfound
  · have hnew : S.taken (Function.update t j (S.fresh k)) = insert j (S.taken t) := by
      ext i
      unfold taken
      rw [Finset.mem_insert, Finset.mem_filter, Finset.mem_filter]
      by_cases hij : i = j
      · simp [hij, S.live_fresh]
      · simp [hij]
    have hfreed : j ∉ S.taken t := by
      unfold taken
      rw [Finset.mem_filter, live_of_findFree hfree]
      exact fun h => absurd h.2 (by decide)
    rw [heq]
    exact (congrArg Finset.card hnew).trans (Finset.card_insert_of_notMem hfreed)
  · rcases hroom with h | h
    · exact absurd h hfound
    · rw [hfull] at h
      cases h

/-- A claim takes at most one more slot. -/
theorem card_taken_claim_le (S : SlotKind K E) (k : K) (t : Fin n → E) :
    (S.taken (S.claim k t).2).card ≤ (S.taken t).card + 1 := by
  by_cases hfound : S.Found k t
  · rw [claim_snd_of_found hfound]
    omega
  · by_cases hroom : S.HasRoom k t
    · exact (card_taken_claim hfound hroom).le
    · have hnone : (S.claim k t).1 = none := by
        rw [← claim_isSome_iff, Option.not_isSome_iff_eq_none] at hroom
        exact hroom
      rw [claim_snd_of_none hnone]
      omega

/-- There is room for every key while not all slots are taken. -/
theorem hasRoom_of_card_lt (h : (S.taken t).card < n) (k : K) : S.HasRoom k t :=
  Or.inr (findFree_isSome_iff.mpr h)

/-! ## Keys in use

With one slot a key, slots and keys are equally many, so that room can be counted in keys. -/

omit [DecidableEq K] in
/-- No key has two slots. -/
def OneSlotEach (S : SlotKind K E) (t : Fin n → E) : Prop :=
  ∀ i j, S.live (t i) = true → S.live (t j) = true → S.key (t i) = S.key (t j) → i = j

/-- The keys that have a slot. -/
def keysInUse (S : SlotKind K E) (t : Fin n → E) : Finset K :=
  (S.taken t).image fun i => S.key (t i)

theorem found_iff_exists : S.Found k t ↔ ∃ i, S.live (t i) = true ∧ S.key (t i) = k := by
  unfold Found find
  rw [Fin.isSome_find?_iff]
  simp only [holds_iff]

theorem mem_keysInUse : k ∈ S.keysInUse t ↔ S.Found k t := by
  unfold keysInUse taken
  rw [found_iff_exists]
  simp only [Finset.mem_image, Finset.mem_filter, Finset.mem_univ, true_and]

theorem OneSlotEach.card_keysInUse (h : S.OneSlotEach t) :
    (S.keysInUse t).card = (S.taken t).card := by
  apply Finset.card_image_of_injOn
  intro i hi j hj hkey
  exact h i j (Finset.mem_filter.mp hi).2 (Finset.mem_filter.mp hj).2 hkey

omit [DecidableEq K] in
theorem OneSlotEach.congr (h : S.OneSlotEach t) (hs : S.SameSlots t t') : S.OneSlotEach t' := by
  intro i j hi hj hkey
  rw [(hs i).1] at hi
  rw [(hs j).1] at hj
  rw [(hs i).2, (hs j).2] at hkey
  exact h i j hi hj hkey

/-- **A claim gives no key a second slot.** -/
theorem OneSlotEach.claim (h : S.OneSlotEach t) (k : K) : S.OneSlotEach (S.claim k t).2 := by
  rcases claim_cases S k t with ⟨i, -, heq⟩ | ⟨i, hnone, -, heq⟩ | ⟨-, -, heq⟩
  · rw [heq]
    exact h
  · -- the slot made for the key is its only one
    have hother : ∀ j, S.live (t j) = true → S.key (t j) ≠ k := by
      intro j hlive hkey
      have hfound : S.Found k t := found_iff_exists.mpr ⟨j, hlive, hkey⟩
      unfold Found at hfound
      rw [hnone] at hfound
      cases hfound
    rw [heq]
    intro a b ha hb hkey
    dsimp only at ha hb hkey
    by_cases hai : a = i
    · by_cases hbi : b = i
      · rw [hai, hbi]
      · rw [Function.update_of_ne hbi] at hb hkey
        rw [hai, Function.update_self, S.key_fresh] at hkey
        exact absurd hkey.symm (hother b hb)
    · rw [Function.update_of_ne hai] at ha hkey
      by_cases hbi : b = i
      · rw [hbi, Function.update_self, S.key_fresh] at hkey
        exact absurd hkey (hother a ha)
      · rw [Function.update_of_ne hbi] at hb hkey
        exact h a b ha hb hkey
  · rw [heq]
    exact h

theorem SameSlots.keysInUse_eq (h : S.SameSlots t t') : S.keysInUse t' = S.keysInUse t := by
  ext k
  rw [mem_keysInUse, mem_keysInUse, h.found_iff]

theorem keysInUse_claim (hroom : S.HasRoom k t) :
    S.keysInUse (S.claim k t).2 = insert k (S.keysInUse t) := by
  ext k'
  rw [mem_keysInUse, found_claim hroom, Finset.mem_insert, mem_keysInUse, or_comm]

/-- **There is room for a key** that has a slot, and for any while fewer keys are in use than there
are slots. -/
theorem OneSlotEach.hasRoom_iff (h : S.OneSlotEach t) (k : K) :
    S.HasRoom k t ↔ k ∈ S.keysInUse t ∨ (S.keysInUse t).card < n := by
  unfold HasRoom
  rw [mem_keysInUse, h.card_keysInUse, findFree_isSome_iff]
  rfl

/-! ## A table and a fuller one

For a comparison of two tables that have been through the same claims, but for some more in one of
them.  Room in the fuller one is room in the other, but not the other way round. -/

/-- The keys with a slot in `t'` are those with a slot in `t` and the `extra` ones, and there are
slots in use accordingly. -/
structure Within (S : SlotKind K E) (t t' : Fin n → E) (extra : Finset K) : Prop where
  found_iff : ∀ k, S.Found k t' ↔ S.Found k t ∨ k ∈ extra
  notFound : ∀ k ∈ extra, ¬ S.Found k t
  card_eq : (S.taken t').card = (S.taken t).card + extra.card

variable {extra : Finset K}

theorem Within.refl (S : SlotKind K E) (t : Fin n → E) : S.Within t t ∅ where
  found_iff k := by simp
  notFound k hk := absurd hk (Finset.notMem_empty k)
  card_eq := rfl

theorem Within.congr (h : S.Within t t' extra) (hu : S.SameSlots t u) (hu' : S.SameSlots t' u') :
    S.Within u u' extra where
  found_iff k := by rw [hu'.found_iff, hu.found_iff, h.found_iff]
  notFound k hk := by
    rw [hu.found_iff]
    exact h.notFound k hk
  card_eq := by rw [hu'.taken_eq, hu.taken_eq, h.card_eq]

/-- **Room in the fuller table** is room in the other. -/
theorem Within.hasRoom (h : S.Within t t' extra) (hroom : S.HasRoom k t') : S.HasRoom k t := by
  have hcard := h.card_eq
  rcases hroom with hfound | hfree
  · rcases (h.found_iff k).mp hfound with hold | hextra
    · exact Or.inl hold
    · -- the slot of the key in the fuller table is one that the other has free
      have hpos := Finset.card_pos.mpr ⟨k, hextra⟩
      have hle : (S.taken t').card ≤ n := (Finset.card_le_univ _).trans_eq (Fintype.card_fin n)
      exact Or.inr (findFree_isSome_iff.mpr (by omega))
  · have hlt := findFree_isSome_iff.mp hfree
    exact Or.inr (findFree_isSome_iff.mpr (by omega))

/-- **A claim in both tables.** -/
theorem Within.claim (h : S.Within t t' extra) (hroom : S.HasRoom k t') :
    S.Within (S.claim k t).2 (S.claim k t').2 (extra.erase k) := by
  have hcard := h.card_eq
  have hroom' := h.hasRoom hroom
  refine ⟨fun k' => ?_, fun k' hk' => ?_, ?_⟩
  · rw [found_claim hroom, found_claim hroom', h.found_iff, Finset.mem_erase]
    by_cases hk : k' = k <;> simp [hk]
  · rw [found_claim hroom', not_or]
    obtain ⟨hne, hextra⟩ := Finset.mem_erase.mp hk'
    exact ⟨h.notFound k' hextra, hne⟩
  · by_cases hfound : S.Found k t
    · have hnot : k ∉ extra := fun hextra => h.notFound k hextra hfound
      rw [claim_snd_of_found hfound, claim_snd_of_found ((h.found_iff k).mpr (Or.inl hfound)),
        Finset.erase_eq_of_notMem hnot, hcard]
    · have hleft := card_taken_claim hfound hroom'
      by_cases hextra : k ∈ extra
      · -- the fuller table has the slot already
        have hpos := Finset.card_pos.mpr ⟨k, hextra⟩
        rw [claim_snd_of_found ((h.found_iff k).mpr (Or.inr hextra)),
          Finset.card_erase_of_mem hextra, hleft]
        omega
      · have hfound' : ¬ S.Found k t' := by
          rw [h.found_iff, not_or]
          exact ⟨hfound, hextra⟩
        rw [card_taken_claim hfound' hroom, Finset.erase_eq_of_notMem hextra, hleft]
        omega

/-- **A claim in the fuller table alone.** -/
theorem Within.claim_right (h : S.Within t t' extra) (k : K) :
    ∃ extra', S.Within t (S.claim k t').2 extra' := by
  by_cases hfound : S.Found k t'
  · rw [claim_snd_of_found hfound]
    exact ⟨extra, h⟩
  · by_cases hroom : S.HasRoom k t'
    · obtain ⟨hnotFound, hextra⟩ := not_or.mp ((h.found_iff k).not.mp hfound)
      refine ⟨insert k extra, fun k' => ?_, fun k' hk' => ?_, ?_⟩
      · rw [found_claim hroom, h.found_iff, Finset.mem_insert, or_assoc, or_comm (b := k' = k)]
      · rcases Finset.mem_insert.mp hk' with rfl | hold
        · exact hnotFound
        · exact h.notFound k' hold
      · rw [card_taken_claim hfound hroom, h.card_eq, Finset.card_insert_of_notMem hextra,
          Nat.add_assoc]
    · have hnone : (S.claim k t').1 = none := by
        rw [← claim_isSome_iff, Bool.not_eq_true, Option.isSome_eq_false_iff,
          Option.isNone_iff_eq_none] at hroom
        exact hroom
      rw [claim_snd_of_none hnone]
      exact ⟨extra, h⟩

end SlotKind
