import Mathlib.Data.Fin.Basic
import Mathlib.Tactic.Linarith

/-!
# Circular scans

A loop that visits the slots of a circular array one after another, starting at an `origin`, and
stops at the first slot that gives a verdict or when it is back at the `origin`:

```
h = origin;
while (visit(h) has no verdict) { h = (h + 1) % m;  if (h == origin) break; }
```

Linear probing is such a scan.  The module turns the loop into an order: `dist origin s` is the
number of slots passed before `s`, and the scan answers with the verdict of the first slot in that
order (`scan_eq_some_iff`), or with nothing when no slot has one (`scan_eq_none_iff`).  Neither
depends on the fuel, as long as the fuel covers one round.
-/

namespace CircularScan

variable {m : Nat} {β : Type*}

/-! ## Positions on the circle

Positions are counted from the origin of the scan, so that the slots it visits are the numbers from
zero on. -/

/-- The slot after `h`, wrapping around. -/
def next (h : Fin m) : Fin m := ⟨(h.val + 1) % m, Nat.mod_lt _ h.pos⟩

/-- The slot `i` steps after `h`, wrapping around. -/
def shift (h : Fin m) (i : Nat) : Fin m := ⟨(h.val + i) % m, Nat.mod_lt _ h.pos⟩

/-- The number of steps from `h` forward to `s`. -/
def dist (h s : Fin m) : Nat := (s.val + m - h.val) % m

@[simp] theorem shift_zero (h : Fin m) : shift h 0 = h := by
  apply Fin.ext
  simp [shift, Nat.mod_eq_of_lt h.isLt]

theorem next_shift (h : Fin m) (i : Nat) : next (shift h i) = shift h (i + 1) := by
  apply Fin.ext
  simp [next, shift, Nat.add_assoc]

theorem dist_lt (h s : Fin m) : dist h s < m := Nat.mod_lt _ h.pos

@[simp] theorem dist_self (h : Fin m) : dist h h = 0 := by
  simp [dist]

/-- `dist` in the two cases the wrap-around distinguishes. -/
theorem dist_eq (h s : Fin m) :
    dist h s = if h.val ≤ s.val then s.val - h.val else s.val + m - h.val := by
  have hh := h.isLt
  have hs := s.isLt
  unfold dist
  split
  · rw [show s.val + m - h.val = (s.val - h.val) + m by omega, Nat.add_mod_right]
    exact Nat.mod_eq_of_lt (by omega)
  · exact Nat.mod_eq_of_lt (by omega)

/-- `shift` in the same two cases. -/
theorem shift_val (h : Fin m) {i : Nat} (hi : i < m) :
    (shift h i).val = if h.val + i < m then h.val + i else h.val + i - m := by
  have hh := h.isLt
  unfold shift
  split
  · exact Nat.mod_eq_of_lt ‹_›
  · show (h.val + i) % m = _
    rw [Nat.mod_eq_sub_mod (by omega)]
    exact Nat.mod_eq_of_lt (by omega)

@[simp] theorem shift_dist (h s : Fin m) : shift h (dist h s) = s := by
  apply Fin.ext
  have hh := h.isLt
  have hs := s.isLt
  rw [shift_val h (dist_lt h s), dist_eq]
  split <;> split <;> omega

theorem dist_shift (h : Fin m) {i : Nat} (hi : i < m) : dist h (shift h i) = i := by
  have hh := h.isLt
  rw [dist_eq, shift_val h hi]
  split <;> split <;> omega

theorem dist_injective (h : Fin m) : Function.Injective (dist h) := fun s t heq => by
  rw [← shift_dist h s, heq, shift_dist]

/-- The slot after `i < m` steps is followed by the origin exactly when the round is complete. -/
theorem next_shift_eq_origin_iff (h : Fin m) {i : Nat} (hi : i < m) :
    next (shift h i) = h ↔ i + 1 = m := by
  rw [next_shift]
  constructor
  · intro heq
    by_contra hne
    have h1 : dist h (shift h (i + 1)) = i + 1 := dist_shift h (by omega)
    rw [heq, dist_self] at h1
    omega
  · rintro rfl
    apply Fin.ext
    simp [shift, Nat.mod_eq_of_lt h.isLt]

/-! ## The scan

In terms of positions the scan is a search for the first number with a verdict.  One round visits
every slot, so that a scan that finds nothing has seen them all. -/

/-- The loop: the verdict of the first slot that has one, from `h` on and before the scan is back
at `origin`.  `fuel` bounds the number of visits. -/
def scan (visit : Fin m → Option β) (origin : Fin m) : Nat → Fin m → Option β
  | 0, _ => none
  | fuel + 1, h =>
    match visit h with
    | some b => some b
    | none => if next h = origin then none else scan visit origin fuel (next h)

/-- The scan from `i` steps past the origin, in terms of positions: it stops at the first position
from `i` on that has a verdict.  Induction on the fuel, which covers the rest of the round. -/
theorem scan_shift_eq_some_iff (visit : Fin m → Option β) (origin : Fin m) (b : β) :
    ∀ (fuel i : Nat), i < m → m ≤ fuel + i →
      (scan visit origin fuel (shift origin i) = some b ↔
        ∃ j, i ≤ j ∧ j < m ∧ visit (shift origin j) = some b ∧
          ∀ l, i ≤ l → l < j → visit (shift origin l) = none) := by
  intro fuel
  induction fuel with
  | zero => intro i hi hfuel; omega
  | succ fuel ih =>
    intro i hi hfuel
    unfold scan
    cases hv : visit (shift origin i) with
    | some c =>
      -- a verdict at `i` itself
      constructor
      · intro h
        exact ⟨i, le_rfl, hi, by rw [hv]; exact h, fun l h1 h2 => by omega⟩
      · rintro ⟨j, hij, hj, hvj, hbefore⟩
        rcases Nat.eq_or_lt_of_le hij with rfl | hlt
        · rw [hv] at hvj; exact hvj
        · have := hbefore i le_rfl hlt
          rw [hv] at this; cases this
    | none =>
      dsimp only
      by_cases hend : next (shift origin i) = origin
      · -- the round is complete: no position from `i` on is left
        have hm := (next_shift_eq_origin_iff origin hi).mp hend
        rw [if_pos hend]
        constructor
        · intro h; cases h
        · rintro ⟨j, hij, hj, hvj, -⟩
          obtain rfl : j = i := by omega
          rw [hv] at hvj; cases hvj
      · -- one step on, with one position fewer to look at
        have hne : i + 1 ≠ m := fun h => hend ((next_shift_eq_origin_iff origin hi).mpr h)
        rw [if_neg hend, next_shift, ih (i + 1) (by omega) (by omega)]
        constructor
        · rintro ⟨j, hij, hj, hvj, hbefore⟩
          refine ⟨j, by omega, hj, hvj, fun l h1 h2 => ?_⟩
          rcases Nat.eq_or_lt_of_le h1 with rfl | hlt
          · exact hv
          · exact hbefore l hlt h2
        · rintro ⟨j, hij, hj, hvj, hbefore⟩
          have hji : j ≠ i := by
            rintro rfl
            rw [hv] at hvj; cases hvj
          exact ⟨j, by omega, hj, hvj, fun l h1 h2 => hbefore l (by omega) h2⟩

/-- **The scan finds the first verdict.** -/
theorem scan_eq_some_iff {visit : Fin m → Option β} {origin : Fin m} {fuel : Nat}
    (hfuel : m ≤ fuel) {b : β} :
    scan visit origin fuel origin = some b ↔
      ∃ s, visit s = some b ∧ ∀ t, dist origin t < dist origin s → visit t = none := by
  have key := scan_shift_eq_some_iff visit origin b fuel 0 origin.pos (by omega)
  rw [shift_zero] at key
  rw [key]
  constructor
  · rintro ⟨j, -, hj, hvj, hbefore⟩
    refine ⟨shift origin j, hvj, fun t ht => ?_⟩
    rw [dist_shift origin hj] at ht
    -- `t` is the slot at its own distance
    have := hbefore (dist origin t) (Nat.zero_le _) ht
    rwa [shift_dist] at this
  · rintro ⟨s, hvs, hbefore⟩
    refine ⟨dist origin s, Nat.zero_le _, dist_lt origin s, by rwa [shift_dist], ?_⟩
    intro l _ hl
    have hlm : l < m := lt_trans hl (dist_lt origin s)
    exact hbefore _ (by rwa [dist_shift origin hlm])

/-- A slot with a verdict makes the scan succeed: the first such slot is found.  Strong induction
on the distance of the slot from the origin. -/
theorem exists_first {visit : Fin m → Option β} (origin : Fin m) {s : Fin m}
    (hs : visit s ≠ none) :
    ∃ s' b, visit s' = some b ∧ ∀ t, dist origin t < dist origin s' → visit t = none := by
  induction hd : dist origin s using Nat.strong_induction_on generalizing s with
  | _ d ih =>
    by_cases hbefore : ∀ t, dist origin t < dist origin s → visit t = none
    · obtain ⟨b, hb⟩ := Option.ne_none_iff_exists'.mp hs
      exact ⟨s, b, hb, hbefore⟩
    · push Not at hbefore
      -- an earlier slot has one, too: go on from there
      obtain ⟨t, ht, hvt⟩ := hbefore
      exact ih (dist origin t) (hd ▸ ht) hvt rfl

/-- **The scan fails only when no slot has a verdict.** -/
theorem scan_eq_none_iff {visit : Fin m → Option β} {origin : Fin m} {fuel : Nat}
    (hfuel : m ≤ fuel) :
    scan visit origin fuel origin = none ↔ ∀ s, visit s = none := by
  constructor
  · intro hnone s
    by_contra hs
    obtain ⟨s', b, hb, hbefore⟩ := exists_first origin hs
    rw [(scan_eq_some_iff hfuel).mpr ⟨s', hb, hbefore⟩] at hnone
    cases hnone
  · intro h
    by_contra hne
    obtain ⟨b, hb⟩ := Option.ne_none_iff_exists'.mp hne
    obtain ⟨s, hs, -⟩ := (scan_eq_some_iff hfuel).mp hb
    rw [h s] at hs; cases hs

end CircularScan
