import Mathlib.Data.List.Count
import Mathlib.Tactic.Linarith

/-!
# Hierarchical names and longest-prefix match

A name is a word over any alphabet, cut into components by a separator: `/a/b/c` with separator
`/`.  A name covers the names that extend it by whole components.

* **`depth`** / **`cut`** — the number of separators, and the name cut down to a depth.
* **`Covers`** — `r` is the name itself or the name goes on with a separator after `r`;
  `covers_iff_cut_eq` makes it an equation.
* **`longestMatch`** — the lookup that tries the cuts of a name from the deepest one up;
  `longestMatch_eq_some_iff_longest` says that it is longest-prefix match.
* **`longestMatch_remembered`** — answers stored under the names they were given for change no
  answer.
-/

namespace SeparatedName

variable {α β : Type*} [DecidableEq α] (sep : α)

/-! ## Depth, cuts and cover

A name covers those that its components begin.  Since a cut is determined by its depth, the words
that cover a name are its cuts, one for each depth. -/

/-- The number of separators. -/
def depth (name : List α) : Nat := name.count sep

/-- The name before its separator number `d + 1`; all of it when there are fewer. -/
def cut : List α → Nat → List α
  | [], _ => []
  | c :: rest, d =>
    if c = sep then
      match d with
      | 0 => []
      | d + 1 => c :: cut rest d
    else c :: cut rest d

/-- `r` is the name, or the name goes on with a separator after `r`. -/
def Covers (r name : List α) : Prop := name = r ∨ r ++ [sep] <+: name

instance (r name : List α) : Decidable (Covers sep r name) := inferInstanceAs (Decidable (_ ∨ _))

variable {sep} {name r : List α} {d e : Nat}

@[simp] theorem depth_nil : depth sep ([] : List α) = 0 := rfl

theorem depth_cons (c : α) (rest : List α) :
    depth sep (c :: rest) = if c = sep then depth sep rest + 1 else depth sep rest := by
  unfold depth
  rw [List.count_cons]
  by_cases h : c = sep <;> simp [h]

@[simp] theorem cut_nil : cut sep ([] : List α) d = [] := rfl

theorem cut_cons_of_ne {c : α} (h : c ≠ sep) (rest : List α) (d : Nat) :
    cut sep (c :: rest) d = c :: cut sep rest d := by
  simp [cut, h]

@[simp] theorem cut_sep_zero (rest : List α) : cut sep (sep :: rest) 0 = [] := by
  simp [cut]

@[simp] theorem cut_sep_succ (rest : List α) (d : Nat) :
    cut sep (sep :: rest) (d + 1) = sep :: cut sep rest d := by
  simp [cut]

/-- A name is its own cut at its depth or deeper. -/
theorem cut_of_depth_le (h : depth sep name ≤ d) : cut sep name d = name := by
  induction name generalizing d with
  | nil => rfl
  | cons c rest ih =>
    rw [depth_cons] at h
    by_cases hc : c = sep
    · subst hc
      rw [if_pos rfl] at h
      cases d with
      | zero => omega
      | succ d => rw [cut_sep_succ, ih (by omega)]
    · rw [if_neg hc] at h
      rw [cut_cons_of_ne hc, ih h]

@[simp] theorem depth_cut : depth sep (cut sep name d) = min d (depth sep name) := by
  induction name generalizing d with
  | nil => simp
  | cons c rest ih =>
    by_cases hc : c = sep
    · subst hc
      cases d with
      | zero => simp
      | succ d =>
        rw [cut_sep_succ, depth_cons, if_pos rfl, depth_cons, if_pos rfl, ih]
        omega
    · rw [cut_cons_of_ne hc, depth_cons, if_neg hc, depth_cons, if_neg hc, ih]

/-- Cutting twice is cutting at the smaller depth. -/
@[simp] theorem cut_cut : cut sep (cut sep name d) e = cut sep name (min d e) := by
  induction name generalizing d e with
  | nil => rfl
  | cons c rest ih =>
    by_cases hc : c = sep
    · subst hc
      cases d with
      | zero => simp
      | succ d =>
        cases e with
        | zero => simp
        | succ e => rw [cut_sep_succ, cut_sep_succ, ih, Nat.add_min_add_right, cut_sep_succ]
    · rw [cut_cons_of_ne hc, cut_cons_of_ne hc, cut_cons_of_ne hc, ih]

/-- What follows a cut is nothing or begins with a separator. -/
theorem covers_cut : Covers sep (cut sep name d) name := by
  induction name generalizing d with
  | nil => exact Or.inl rfl
  | cons c rest ih =>
    by_cases hc : c = sep
    · subst hc
      cases d with
      | zero => exact Or.inr ⟨rest, by simp⟩
      | succ d =>
        rw [cut_sep_succ]
        rcases ih (d := d) with h | h
        · exact Or.inl (congrArg _ h)
        · exact Or.inr (List.cons_prefix_cons.mpr ⟨rfl, h⟩)
    · rw [cut_cons_of_ne hc]
      rcases ih (d := d) with h | h
      · exact Or.inl (congrArg _ h)
      · exact Or.inr (List.cons_prefix_cons.mpr ⟨rfl, h⟩)

/-- The cut at the depth of a word that a separator follows is that word. -/
theorem cut_append_sep (r rest : List α) : cut sep (r ++ sep :: rest) (depth sep r) = r := by
  induction r with
  | nil => simp
  | cons c r ih =>
    rw [List.cons_append, depth_cons]
    by_cases hc : c = sep
    · subst hc
      rw [if_pos rfl, cut_sep_succ, ih]
    · rw [if_neg hc, cut_cons_of_ne hc, ih]

/-- **Cover is a cut.** -/
theorem covers_iff_cut_eq : Covers sep r name ↔ cut sep name (depth sep r) = r := by
  constructor
  · rintro (rfl | ⟨rest, rfl⟩)
    · exact cut_of_depth_le le_rfl
    · rw [List.append_assoc]
      exact cut_append_sep r rest
  · intro h
    rw [← h]
    exact covers_cut

theorem Covers.depth_le (h : Covers sep r name) : depth sep r ≤ depth sep name := by
  rw [← covers_iff_cut_eq.mp h, depth_cut]
  exact Nat.min_le_right _ _

/-- Of two words that cover a name the deeper one is the longer one. -/
theorem Covers.length_le {r' : List α} (h : Covers sep r name) (h' : Covers sep r' name)
    (hle : depth sep r ≤ depth sep r') : r.length ≤ r'.length := by
  have hr : cut sep r' (depth sep r) = r := by
    rw [← covers_iff_cut_eq.mp h', cut_cut, min_eq_right hle, covers_iff_cut_eq.mp h]
  rcases covers_iff_cut_eq.mpr hr with heq | hpre
  · rw [heq]
  · have := hpre.length_le
    rw [List.length_append] at this
    omega

/-! ## Longest-prefix match

The search goes from the deepest cut up and stops at the first that has a value.  A deeper cut is a
longer word, so this is the longest match; a word without a separator is no cut that the search
tries. -/

variable {get : List α → Option β} {b : β}

/-- Try the cuts of a name at the depths `d`, `d - 1`, …, `1`. -/
def longestMatch (sep : α) (get : List α → Option β) (name : List α) : Nat → Option β
  | 0 => none
  | d + 1 =>
    match get (cut sep name (d + 1)) with
    | some b => some b
    | none => longestMatch sep get name d

theorem longestMatch_eq_some_iff :
    longestMatch sep get name d = some b ↔
      ∃ e, 1 ≤ e ∧ e ≤ d ∧ get (cut sep name e) = some b ∧
        ∀ f, e < f → f ≤ d → get (cut sep name f) = none := by
  induction d with
  | zero =>
    constructor
    · intro h; cases h
    · rintro ⟨e, h1, h2, -⟩; omega
  | succ d ih =>
    rw [longestMatch]
    cases hg : get (cut sep name (d + 1)) with
    -- the deepest cut has a value
    | some c =>
      constructor
      · intro h
        exact ⟨d + 1, by omega, le_rfl, by rw [hg]; exact h, fun f h1 h2 => by omega⟩
      · rintro ⟨e, -, he, hge, hbelow⟩
        rcases Nat.eq_or_lt_of_le he with rfl | hlt
        · rw [hg] at hge; exact hge
        · rw [hbelow (d + 1) hlt le_rfl] at hg; cases hg
    | none =>
      dsimp only
      rw [ih]
      constructor
      · rintro ⟨e, h1, he, hge, hbelow⟩
        refine ⟨e, h1, by omega, hge, fun f h2 h3 => ?_⟩
        rcases Nat.eq_or_lt_of_le h3 with rfl | hlt
        · exact hg
        · exact hbelow f h2 (by omega)
      · rintro ⟨e, h1, he, hge, hbelow⟩
        have hne : e ≠ d + 1 := by
          rintro rfl
          rw [hg] at hge; cases hge
        exact ⟨e, h1, by omega, hge, fun f h2 h3 => hbelow f h2 (by omega)⟩

/-- Depths without a match can be skipped. -/
theorem longestMatch_skip (hle : d ≤ e)
    (hnone : ∀ f, d < f → f ≤ e → get (cut sep name f) = none) :
    longestMatch sep get name e = longestMatch sep get name d := by
  induction e, hle using Nat.le_induction with
  | base => rfl
  | succ e he ih =>
    rw [longestMatch, hnone (e + 1) (by omega) le_rfl]
    exact ih fun f h1 h2 => hnone f h1 (by omega)

/-- `b` is held under the longest word with a value that covers the name. -/
def IsLongest (sep : α) (get : List α → Option β) (name : List α) (b : β) : Prop :=
  ∃ r, get r = some b ∧ Covers sep r name ∧
    ∀ r', get r' ≠ none → Covers sep r' name → r'.length ≤ r.length

/-- **Trying the cuts from the deepest up is longest-prefix match**, when every word with a value
contains a separator. -/
theorem longestMatch_eq_some_iff_longest (hpos : ∀ r, get r ≠ none → 1 ≤ depth sep r) :
    longestMatch sep get name (depth sep name) = some b ↔ IsLongest sep get name b := by
  rw [longestMatch_eq_some_iff]
  constructor
  · rintro ⟨e, -, he, hge, hbelow⟩
    refine ⟨cut sep name e, hge, covers_cut, fun r' hr' hcov => hcov.length_le covers_cut ?_⟩
    rw [depth_cut, min_eq_left he]
    by_contra hlt
    rw [not_le] at hlt
    have hnone := hbelow (depth sep r') hlt hcov.depth_le
    rw [covers_iff_cut_eq.mp hcov] at hnone
    exact hr' hnone
  · rintro ⟨r, hgr, hcov, hlongest⟩
    have hcut := covers_iff_cut_eq.mp hcov
    refine ⟨depth sep r, hpos r (by simp [hgr]), hcov.depth_le, by rw [hcut]; exact hgr,
      fun f h1 h2 => ?_⟩
    by_contra hf
    -- the cut at `f` has a value, so it is not longer than `r`, and it is deeper
    have hlen := hlongest _ hf covers_cut
    have hdf : depth sep (cut sep name f) = f := by rw [depth_cut, min_eq_left h2]
    have hle := hcov.length_le (covers_cut (d := f)) (by omega)
    have hpre : cut sep (cut sep name f) (depth sep r) = r := by
      rw [cut_cut, min_eq_right h1.le, hcut]
    rcases covers_iff_cut_eq.mpr hpre with heq | hlong
    · rw [heq] at hdf; omega
    · have := hlong.length_le
      rw [List.length_append, List.length_singleton] at this
      omega

theorem longestMatch_eq_none_iff :
    longestMatch sep get name d = none ↔ ∀ e, 1 ≤ e → e ≤ d → get (cut sep name e) = none := by
  induction d with
  | zero => exact ⟨fun _ e h1 h2 => by omega, fun _ => rfl⟩
  | succ d ih =>
    rw [longestMatch]
    cases hg : get (cut sep name (d + 1)) with
    | some b =>
      constructor
      · intro h; cases h
      · intro h
        rw [h (d + 1) (by omega) le_rfl] at hg; cases hg
    | none =>
      dsimp only
      rw [ih]
      constructor
      · intro h e h1 h2
        rcases Nat.eq_or_lt_of_le h2 with rfl | hlt
        · exact hg
        · exact h e h1 (by omega)
      · exact fun h e h1 h2 => h e h1 (by omega)

/-- The lookup succeeds exactly when some word with a value covers the name. -/
theorem longestMatch_ne_none_iff (hpos : ∀ r, get r ≠ none → 1 ≤ depth sep r) :
    longestMatch sep get name (depth sep name) ≠ none ↔
      ∃ r, get r ≠ none ∧ Covers sep r name := by
  rw [Ne, longestMatch_eq_none_iff]
  push Not
  constructor
  · rintro ⟨e, -, -, hge⟩
    exact ⟨_, hge, covers_cut⟩
  · rintro ⟨r, hgr, hcov⟩
    exact ⟨depth sep r, hpos r hgr, hcov.depth_le, by rwa [covers_iff_cut_eq.mp hcov]⟩

/-- `b` is held under the longest of the words with a value and a separator that cover the name. -/
def IsLongestSeparated (sep : α) (get : List α → Option β) (name : List α) (b : β) : Prop :=
  ∃ r, get r = some b ∧ sep ∈ r ∧ Covers sep r name ∧
    ∀ r', get r' ≠ none → sep ∈ r' → Covers sep r' name → r'.length ≤ r.length

/-- **Words without a separator are never tried**: of the others the lookup gives the longest. -/
theorem longestMatch_eq_some_iff_separated :
    longestMatch sep get name (depth sep name) = some b ↔ IsLongestSeparated sep get name b := by
  -- without the words that have no separator the search finds the same
  let get' : List α → Option β := fun r => if sep ∈ r then get r else none
  have hget' : ∀ r, get' r ≠ none ↔ get r ≠ none ∧ sep ∈ r := by
    intro r
    by_cases hr : sep ∈ r
    · simp [get', hr]
    · simp [get', hr]
  have hsame : ∀ d, d ≤ depth sep name →
      longestMatch sep get' name d = longestMatch sep get name d := by
    intro d hd
    induction d with
    | zero => rfl
    | succ d ih =>
      have hmem : sep ∈ cut sep name (d + 1) := by
        apply List.count_pos_iff.mp
        show 0 < depth sep (cut sep name (d + 1))
        rw [depth_cut, min_eq_left hd]
        exact Nat.succ_pos d
      rw [longestMatch, longestMatch, ih (by omega)]
      simp [get', hmem]
  have hpos : ∀ r, get' r ≠ none → 1 ≤ depth sep r := fun r hr =>
    List.count_pos_iff.mpr ((hget' r).mp hr).2
  rw [← hsame _ le_rfl, longestMatch_eq_some_iff_longest hpos]
  constructor
  · rintro ⟨r, hr, hcov, hlongest⟩
    have hsep := ((hget' r).mp (by rw [hr]; simp)).2
    exact ⟨r, by simpa [get', hsep] using hr, hsep, hcov,
      fun r' h1 h2 h3 => hlongest r' ((hget' r').mpr ⟨h1, h2⟩) h3⟩
  · rintro ⟨r, hr, hsep, hcov, hlongest⟩
    exact ⟨r, by simpa [get', hsep] using hr, hcov,
      fun r' h1 h2 => hlongest r' ((hget' r').mp h1).1 ((hget' r').mp h1).2 h2⟩

/-! ## Remembered answers

A table may take up its own answers, under the names it gave them for.  If an answer is stored under
a name, the longest match of a longer one that ends there is the same as it was. -/

/-- Down to the depth of a cut, the cut has the matches of the name. -/
theorem longestMatch_cut (he : e ≤ d) :
    longestMatch sep get (cut sep name d) e = longestMatch sep get name e := by
  induction e with
  | zero => rfl
  | succ e ih =>
    rw [longestMatch, longestMatch, cut_cut, min_eq_right he, ih (by omega)]

/-- **Remembering an answer under the name it was given for** changes no answer, if `v` is all that
is seen of one: the values of `get'` are those of `get`, and answers of `get` at names without
one. -/
theorem longestMatch_remembered {γ : Type*} {get' : List α → Option β} {v : β → γ}
    (hkept : ∀ k b, get k = some b → get' k = some b)
    (hcopied : ∀ k b, get k = none → get' k = some b →
      (longestMatch sep get k (depth sep k)).map v = some (v b))
    (hd : d ≤ depth sep name) :
    (longestMatch sep get' name d).map v = (longestMatch sep get name d).map v := by
  induction d with
  | zero => rfl
  | succ d ih =>
    rw [longestMatch, longestMatch]
    cases hget : get (cut sep name (d + 1)) with
    | some b => rw [hkept _ b hget]
    | none =>
      cases hget' : get' (cut sep name (d + 1)) with
      | none => exact ih (by omega)
      | some b =>
        -- what was remembered is the answer that the rest of the search gives
        have hrest := hcopied _ b hget hget'
        rw [depth_cut, min_eq_left hd, longestMatch_cut le_rfl, longestMatch, hget] at hrest
        exact hrest.symm

end SeparatedName
