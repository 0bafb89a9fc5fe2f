import Mathlib.Data.List.DropRight

/-!
# Trimmed lists

A list without its members of one kind at either end, as `trim` of a string without its blanks.

* **`Trimmed`** — a list with no such member at an end.
* **`trim_of_blanks`** / **`exists_blanks_trim`** — a list is trimmed to the one trimmed list that
  has but blanks around it in it.
* **`cut_cases`** — a list cut at the first member of a value.
-/

namespace Trim

variable {α : Type*} (blank : α → Bool)

/-- The list without the blanks at its two ends. -/
def trim (s : List α) : List α := (s.dropWhile blank).rdropWhile blank

/-- All of the list is blank. -/
def Blank (s : List α) : Prop := ∀ c ∈ s, blank c = true

/-- No blank at either end. -/
structure Trimmed (s : List α) : Prop where
  head : ∀ c ∈ s.head?, blank c = false
  last : ∀ c ∈ s.getLast?, blank c = false

variable {blank} {s t a b : List α}

theorem Blank.nil : Blank blank [] := fun _ h => absurd h List.not_mem_nil

theorem Blank.append (ha : Blank blank a) (hb : Blank blank b) : Blank blank (a ++ b) :=
  fun c hc => (List.mem_append.mp hc).elim (ha c) (hb c)

/-- What is trimmed in front and behind is so as a whole. -/
theorem Trimmed.append (ht : Trimmed blank t) (hs : Trimmed blank s) (hne : t ≠ []) (hne' : s ≠ [])
    (gap : List α) : Trimmed blank (t ++ gap ++ s) where
  head c hc := by
    rw [List.append_assoc, List.head?_append_of_ne_nil _ hne] at hc
    exact ht.head c hc
  last c hc := by
    rw [List.getLast?_append_of_ne_nil _ hne'] at hc
    exact hs.last c hc

theorem dropWhile_append_of_blank (ha : Blank blank a) (s : List α) :
    (a ++ s).dropWhile blank = s.dropWhile blank :=
  List.dropWhile_append_of_pos ha

theorem rdropWhile_append_of_blank (hb : Blank blank b) (s : List α) :
    (s ++ b).rdropWhile blank = s.rdropWhile blank := by
  unfold List.rdropWhile
  rw [List.reverse_append, dropWhile_append_of_blank]
  exact fun c hc => hb c (List.mem_reverse.mp hc)

theorem Trimmed.dropWhile_eq (h : Trimmed blank s) : s.dropWhile blank = s := by
  cases s with
  | nil => rfl
  | cons c s => exact List.dropWhile_cons_of_neg (by rw [h.head c rfl]; decide)

theorem Trimmed.rdropWhile_eq (h : Trimmed blank s) : s.rdropWhile blank = s := by
  rw [List.rdropWhile_eq_self_iff]
  intro hne
  rw [h.last _ (List.getLast?_eq_some_getLast hne)]
  decide

/-- **Blanks around a trimmed list.** -/
theorem trim_of_blanks (ha : Blank blank a) (hs : Trimmed blank s) (hb : Blank blank b) :
    trim blank (a ++ s ++ b) = s := by
  unfold trim
  rw [List.append_assoc, dropWhile_append_of_blank ha]
  by_cases hne : s = []
  · rw [hne, List.nil_append, List.dropWhile_eq_nil_iff.mpr hb]
    rfl
  · rw [List.dropWhile_append, hs.dropWhile_eq, if_neg (by simpa using hne),
      rdropWhile_append_of_blank hb, hs.rdropWhile_eq]

theorem Trimmed.trim_eq (h : Trimmed blank s) : trim blank s = s := by
  have htrim := trim_of_blanks Blank.nil h Blank.nil
  rwa [List.nil_append, List.append_nil] at htrim

/-- **What `trim` takes away** is blank, and what it leaves is trimmed. -/
theorem exists_blanks_trim (blank : α → Bool) (s : List α) :
    ∃ a b, Blank blank a ∧ Blank blank b ∧ s = a ++ trim blank s ++ b ∧
      Trimmed blank (trim blank s) := by
  refine ⟨s.takeWhile blank, (s.dropWhile blank).rtakeWhile blank,
    fun c hc => List.mem_takeWhile_imp hc, fun c hc => List.mem_rtakeWhile_imp hc, ?_, ?_, ?_⟩
  · unfold trim
    rw [List.append_assoc, List.rdropWhile_append_rtakeWhile, List.takeWhile_append_dropWhile]
  · intro c hc
    -- the first member left is the first that was not dropped in front
    obtain ⟨rest, hrest⟩ : trim blank s <+: s.dropWhile blank := List.rdropWhile_prefix blank _
    have hne : trim blank s ≠ [] := fun h => by rw [h] at hc; cases hc
    have hfirst : (s.dropWhile blank).head? = some c := by
      rw [← hrest, List.head?_append_of_ne_nil _ hne]
      exact hc
    have hnot := List.head?_dropWhile_not blank s
    rw [hfirst] at hnot
    exact hnot
  · intro c hc
    have hne : trim blank s ≠ [] := fun h => by rw [h] at hc; cases hc
    have hlast := List.rdropWhile_last_not blank (s.dropWhile blank) hne
    obtain rfl := Option.some.inj ((List.getLast?_eq_some_getLast hne).symm.trans hc)
    exact Bool.eq_false_iff.mpr hlast

/-- **Two parts of a trimmed list** around a blank: none is blank, and blanks are at the inner ends
only. -/
theorem Trimmed.parts {c : α} {r : List α} (h : Trimmed blank (t ++ c :: r))
    (hc : blank c = true) :
    (trim blank t ≠ [] ∧ ∃ b, Blank blank b ∧ t = trim blank t ++ b) ∧
      trim blank r ≠ [] ∧ ∃ a, Blank blank a ∧ r = a ++ trim blank r := by
  constructor
  · -- nothing is taken away in front of the first part, which is not empty
    have hhead : ∀ d ∈ (t ++ [c]).head?, blank d = false := by
      intro d hd
      apply h.head d
      rw [← List.singleton_append, ← List.append_assoc,
        List.head?_append_of_ne_nil _ (by simp)]
      exact hd
    obtain ⟨a, b, ha, hb, ht, -⟩ := exists_blanks_trim blank t
    obtain rfl : a = [] := by
      cases a with
      | nil => rfl
      | cons d a =>
        have hnot := hhead d (by rw [ht]; rfl)
        exact absurd (hnot.symm.trans (ha d List.mem_cons_self)) (by decide)
    refine ⟨fun hnil => ?_, b, hb, ht⟩
    rw [hnil] at ht
    have hblank : Blank blank (t ++ [c]) := by
      rw [ht]
      exact hb.append fun d hd => by rw [List.mem_singleton.mp hd]; exact hc
    obtain ⟨d, hd⟩ : ∃ d, (t ++ [c]).head? = some d := by
      cases t with
      | nil => exact ⟨c, rfl⟩
      | cons d t => exact ⟨d, rfl⟩
    exact absurd ((hhead d hd).symm.trans (hblank d (List.mem_of_mem_head? hd))) (by decide)
  · have hlast : ∀ d ∈ (c :: r).getLast?, blank d = false := by
      intro d hd
      apply h.last d
      rw [List.getLast?_append_of_ne_nil _ (List.cons_ne_nil c r)]
      exact hd
    obtain ⟨a, b, ha, hb, hr, -⟩ := exists_blanks_trim blank r
    have hb' : b = [] := by
      cases hlen : b.getLast? with
      | none => exact List.getLast?_eq_none_iff.mp hlen
      | some d =>
        have hne : b ≠ [] := fun h => by rw [h] at hlen; cases hlen
        have hd : (c :: r).getLast? = some d := by
          rw [hr, ← List.cons_append, List.getLast?_append_of_ne_nil _ hne]
          exact hlen
        exact absurd ((hlast d hd).symm.trans (hb d (List.mem_of_getLast? hlen))) (by decide)
    subst hb'
    rw [List.append_nil] at hr
    refine ⟨fun hnil => ?_, a, ha, hr⟩
    rw [hnil, List.append_nil] at hr
    have hblank : Blank blank (c :: r) := by
      rw [hr]
      exact List.forall_mem_cons.mpr ⟨hc, ha⟩
    have hd := List.getLast?_eq_some_getLast (List.cons_ne_nil c r)
    exact absurd ((hlast _ hd).symm.trans (hblank _ (List.mem_of_getLast? hd))) (by decide)

/-! ## Cutting at a value

A list without the value stays whole; any other is its two parts, with the value between them. -/

variable [DecidableEq α]

/-- The part before the first `c`, and the part behind it. -/
def cut (c : α) (s : List α) : List α × List α :=
  match s.idxOf? c with
  | some i => (s.take i, s.drop (i + 1))
  | none => (s, [])

theorem cut_of_notMem {c : α} (h : c ∉ s) : cut c s = (s, []) := by
  unfold cut
  rw [List.idxOf?_eq_none_iff.mpr h]

theorem cut_append {c : α} (h : c ∉ s) (t : List α) : cut c (s ++ c :: t) = (s, t) := by
  unfold cut
  have hfirst : (s ++ c :: t).idxOf? c = some s.length := by
    rw [List.idxOf?_eq_some_iff]
    refine ⟨by simp, by simp, fun j hj heq => h ?_⟩
    rw [List.getElem_append_left hj] at heq
    exact heq ▸ List.getElem_mem hj
  rw [hfirst]
  simp

theorem cut_cases (c : α) (s : List α) :
    (c ∉ s ∧ cut c s = (s, [])) ∨ ∃ t rest, c ∉ t ∧ s = t ++ c :: rest ∧ cut c s = (t, rest) := by
  by_cases hmem : c ∈ s
  · obtain ⟨t, rest, rfl, ht⟩ := List.eq_append_cons_of_mem hmem
    exact Or.inr ⟨t, rest, ht, rfl, cut_append ht rest⟩
  · exact Or.inl ⟨hmem, cut_of_notMem hmem⟩

end Trim
