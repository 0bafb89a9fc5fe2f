import Mathlib.Data.List.Induction
import Mathlib.Data.List.Nodup

/-!
# The first distinct members of a list

* **`firstDistinct`** — the first `n` distinct members, in the order they come in.
* **`firstDistinct_concat`** — one more member is added if it is new and there is room for it; this
  is the list as a collector of `n` items sees it.
-/

variable {α : Type*} [DecidableEq α] {n : Nat} {l : List α} {a : α}

/-- The first `n` distinct members of a list. -/
def firstDistinct (n : Nat) (l : List α) : List α := l.eraseDups.take n

theorem eraseDups_concat (l : List α) (a : α) :
    (l ++ [a]).eraseDups = if a ∈ l then l.eraseDups else l.eraseDups ++ [a] := by
  rw [List.eraseDups_append]
  by_cases ha : a ∈ l
  · rw [if_pos ha]
    simp [List.removeAll, ha]
  · rw [if_neg ha]
    simp [List.removeAll, ha, List.eraseDups_cons]

theorem eraseDups_filter (p : α → Bool) (l : List α) :
    (l.filter p).eraseDups = l.eraseDups.filter p := by
  induction l using List.reverseRecOn with
  | nil => rfl
  | append_singleton l a ih =>
    rw [List.filter_append, eraseDups_concat]
    by_cases ha : p a = true
    · rw [List.filter_singleton, ha, cond_true, eraseDups_concat]
      by_cases hmem : a ∈ l
      · rw [if_pos hmem, if_pos (List.mem_filter.mpr ⟨hmem, ha⟩), ih]
      · rw [if_neg hmem, if_neg fun h => hmem (List.mem_filter.mp h).1, ih, List.filter_append,
          List.filter_singleton, ha, cond_true]
    · rw [Bool.not_eq_true] at ha
      rw [List.filter_singleton, ha, cond_false, List.append_nil, ih]
      split
      · rfl
      · rw [List.filter_append, List.filter_singleton, ha, cond_false, List.append_nil]

theorem length_firstDistinct_le (n : Nat) (l : List α) : (firstDistinct n l).length ≤ n :=
  List.length_take_le _ _

theorem mem_of_mem_firstDistinct (h : a ∈ firstDistinct n l) : a ∈ l :=
  List.mem_eraseDups.mp (List.mem_of_mem_take h)

/-- With room left, all distinct members are there. -/
theorem firstDistinct_of_length_lt (h : (firstDistinct n l).length < n) :
    firstDistinct n l = l.eraseDups := by
  unfold firstDistinct at h ⊢
  rw [List.length_take] at h
  exact List.take_of_length_le (by omega)

/-- **A member that was offered** is there, or there is no room left. -/
theorem mem_firstDistinct_or_full (h : a ∈ l) :
    a ∈ firstDistinct n l ∨ (firstDistinct n l).length = n := by
  by_cases hroom : (firstDistinct n l).length < n
  · rw [firstDistinct_of_length_lt hroom, List.mem_eraseDups]
    exact Or.inl h
  · exact Or.inr (Nat.le_antisymm (length_firstDistinct_le n l) (Nat.not_lt.mp hroom))

/-- **One more member** is added if it is new and there is room. -/
theorem firstDistinct_concat (n : Nat) (l : List α) (a : α) :
    firstDistinct n (l ++ [a])
      = if a ∈ firstDistinct n l ∨ (firstDistinct n l).length = n then firstDistinct n l
        else firstDistinct n l ++ [a] := by
  by_cases ha : a ∈ l
  · rw [if_pos (mem_firstDistinct_or_full ha)]
    unfold firstDistinct
    rw [eraseDups_concat, if_pos ha]
  · have hnew : a ∉ firstDistinct n l := fun h => ha (mem_of_mem_firstDistinct h)
    by_cases hfull : (firstDistinct n l).length = n
    · have hlen : n ≤ l.eraseDups.length := by
        unfold firstDistinct at hfull
        rw [List.length_take] at hfull
        omega
      rw [if_pos (Or.inr hfull)]
      unfold firstDistinct
      rw [eraseDups_concat, if_neg ha, List.take_append_of_le_length hlen]
    · have hle := length_firstDistinct_le n l
      have hall := firstDistinct_of_length_lt (n := n) (l := l) (by omega)
      rw [if_neg (not_or.mpr ⟨hnew, hfull⟩), hall]
      rw [hall] at hfull hle
      unfold firstDistinct
      rw [eraseDups_concat, if_neg ha, List.take_of_length_le]
      rw [List.length_append, List.length_singleton]
      omega

theorem nodup_firstDistinct (n : Nat) (l : List α) : (firstDistinct n l).Nodup := by
  induction l using List.reverseRecOn with
  | nil => exact List.nodup_nil.sublist (List.take_sublist n [])
  | append_singleton l a ih =>
    rw [firstDistinct_concat]
    split
    · exact ih
    · next h =>
      rw [← List.concat_eq_append]
      exact ih.concat (not_or.mp h).1
