import Icsn.Config.HexKeys

/-!
# Icsn — what `sscanf` takes for a field

The conversions `%x` and `%02X`, and several of them with a colon in between, as the shape of the
text they take.

* **`HexField`** / **`NarrowField`** — a field of `%x` and one of `%02X`
  (`hexField_iff`, `narrowField_iff`).
* **`colonFields_iff`** — the fields of a text are those read one after another.
* **`scanColons_colonPairs`** — pairs of digits are read as what they denote.
-/

namespace Icsn

/-! ## Fields of `sscanf`

The shape of what a conversion takes, stated without the conversion.  `%02X` stops after two
characters, so that there is no digit behind a prefix, and at most one behind a sign. -/

/-- The number that digits denote. -/
def hexNumber (digits : Str) : Nat :=
  (digits.filterMap hexDigitValue).foldl (fun acc d => 16 * acc + d) 0

/-- What `%x` takes at the start of `s`, with `rest` behind it: blanks, a sign, a prefix, and all
the digits there are. -/
structure HexParts (s blanks sign lead digits rest : Str) : Prop where
  eq_append : s = blanks ++ (sign ++ (lead ++ (digits ++ rest)))
  isSpace_blanks : ∀ c ∈ blanks, isSpace c = true
  sign_cases : sign = [] ∨ sign = [43] ∨ sign = [45]
  lead_cases : lead = [] ∨ lead = [48, 120] ∨ lead = [48, 88]
  digits_ne_nil : digits ≠ []
  isHexDigit_digits : ∀ c ∈ digits, IsHexDigit c
  head_rest : ∀ c, rest.head? = some c →
    ¬ IsHexDigit c ∧ (lead = [] → digits = [48] → c ≠ 120 ∧ c ≠ 88)

/-- A field of `%x` whose number has the property `Q`. -/
def HexField (Q : Nat → Prop) (s rest : Str) : Prop :=
  ∃ blanks sign lead digits, HexParts s blanks sign lead digits rest ∧ Q (hexNumber digits)

/-- A digit, two digits, or a sign and a digit, and no digits behind them that could be read. -/
def NarrowDigits (field rest : Str) : Prop :=
  (∃ c d, field = [c, d] ∧ (IsHexDigit c ∨ c = 43 ∨ c = 45) ∧ IsHexDigit d) ∨
  ∃ d, field = [d] ∧ IsHexDigit d ∧
    ∀ c, rest.head? = some c → ¬ IsHexDigit c ∧ (d = 48 → c ≠ 120 ∧ c ≠ 88)

/-- A field of `%02X`: blanks, and at most two characters behind them. -/
def NarrowField (s rest : Str) : Prop :=
  ∃ blanks field : Str, s = blanks ++ (field ++ rest) ∧ (∀ c ∈ blanks, isSpace c = true) ∧
    NarrowDigits field rest

/-- A text that starts with `n` fields, each behind a colon. -/
inductive ColonFields (field : Str → Str → Prop) : Nat → Str → Prop where
  | nil (s : Str) : ColonFields field 0 s
  | cons {n : Nat} {s rest : Str} (hfield : field s rest) (hrest : ColonFields field n rest) :
    ColonFields field (n + 1) (58 :: s)

/-- A text that starts with six fields and a colon in between. -/
def MacFields (field : Str → Str → Prop) (text : Str) : Prop := ColonFields field 6 (58 :: text)

/-- A number that ends in a zero byte, and fits. -/
def ZeroByte (n : Nat) : Prop := n < 2 ^ 32 ∧ n % 256 = 0

/-! ## What `%x` takes

A field is taken apart by the parts of the conversion one after the other: blanks, sign, prefix,
digits.  Each part ends where the next can begin, so the parts are determined. -/

theorem takeHexDigits_append {digits rest : Str} (hdigits : ∀ c ∈ digits, IsHexDigit c)
    (hrest : ∀ c, rest.head? = some c → ¬ IsHexDigit c) :
    takeHexDigits (digits ++ rest) = (digits.filterMap hexDigitValue, rest) := by
  induction digits with
  | nil =>
    cases rest with
    | nil => rfl
    | cons c rest =>
      have hc : hexDigitValue c = none := Option.not_isSome_iff_eq_none.mp (hrest c rfl)
      show takeHexDigits (c :: rest) = _
      rw [takeHexDigits, hc]
      rfl
  | cons c digits ih =>
    obtain ⟨hc, hdigits⟩ := List.forall_mem_cons.mp hdigits
    obtain ⟨d, hd⟩ := Option.isSome_iff_exists.mp hc
    rw [List.cons_append, takeHexDigits, hd, ih hdigits, List.filterMap_cons_some hd]

theorem takeHexDigits_spec (s : Str) :
    ∃ digits : Str, s = digits ++ (takeHexDigits s).2 ∧ (∀ c ∈ digits, IsHexDigit c) ∧
      (takeHexDigits s).1 = digits.filterMap hexDigitValue ∧
      ∀ c, (takeHexDigits s).2.head? = some c → ¬ IsHexDigit c := by
  induction s with
  | nil => exact ⟨[], rfl, List.forall_mem_nil _, rfl, fun c h => nomatch h⟩
  | cons c s ih =>
    rw [takeHexDigits]
    cases hd : hexDigitValue c with
    | some d =>
      obtain ⟨digits, hs, hdigits, hvalues, hrest⟩ := ih
      have hc : IsHexDigit c := by
        unfold IsHexDigit
        rw [hd]
        rfl
      refine ⟨c :: digits, ?_, List.forall_mem_cons.mpr ⟨hc, hdigits⟩, ?_, hrest⟩
      · exact congrArg (c :: ·) hs
      · rw [List.filterMap_cons_some hd]
        exact congrArg (d :: ·) hvalues
    | none =>
      refine ⟨[], rfl, List.forall_mem_nil _, rfl, fun c' hc' => ?_⟩
      obtain rfl := Option.some.inj hc'
      exact Option.not_isSome_iff_eq_none.mpr hd

theorem takeSign_append {sign s : Str} (hsign : sign = [] ∨ sign = [43] ∨ sign = [45])
    (hs : sign = [] → ∀ c, s.head? = some c → c ≠ 43 ∧ c ≠ 45) :
    takeSign (sign ++ s) = (decide (sign = [45]), s) := by
  rcases hsign with rfl | rfl | rfl
  · cases s with
    | nil => rfl
    | cons c s =>
      obtain ⟨hplus, hminus⟩ := hs rfl c rfl
      exact takeSign_of_ne hminus hplus s
  · rfl
  · rfl

theorem takeSign_spec (s : Str) :
    ∃ sign : Str, (sign = [] ∨ sign = [43] ∨ sign = [45]) ∧ s = sign ++ (takeSign s).2 := by
  by_cases hminus : ∃ s', s = 45 :: s'
  · obtain ⟨s', rfl⟩ := hminus
    exact ⟨[45], Or.inr (Or.inr rfl), rfl⟩
  · by_cases hplus : ∃ s', s = 43 :: s'
    · obtain ⟨s', rfl⟩ := hplus
      exact ⟨[43], Or.inr (Or.inl rfl), rfl⟩
    · refine ⟨[], Or.inl rfl, ?_⟩
      cases s with
      | nil => rfl
      | cons c s =>
        rw [takeSign_of_ne]
        · rfl
        · exact fun h => hminus ⟨s, by rw [h]⟩
        · exact fun h => hplus ⟨s, by rw [h]⟩

theorem dropHexPrefix_of_noPrefix {s : Str} (hx : ∀ s', s ≠ 48 :: 120 :: s')
    (hX : ∀ s', s ≠ 48 :: 88 :: s') : dropHexPrefix s = s := by
  unfold dropHexPrefix
  split
  · next s' => exact absurd rfl (hx s')
  · next s' => exact absurd rfl (hX s')
  · rfl

theorem dropHexPrefix_spec (s : Str) :
    ∃ lead : Str, (lead = [] ∨ lead = [48, 120] ∨ lead = [48, 88]) ∧ s = lead ++ dropHexPrefix s ∧
      (lead = [] → ∀ s', s ≠ 48 :: 120 :: s' ∧ s ≠ 48 :: 88 :: s') := by
  by_cases hx : ∃ s', s = 48 :: 120 :: s'
  · obtain ⟨s', rfl⟩ := hx
    exact ⟨[48, 120], Or.inr (Or.inl rfl), rfl, fun h => nomatch h⟩
  · by_cases hX : ∃ s', s = 48 :: 88 :: s'
    · obtain ⟨s', rfl⟩ := hX
      exact ⟨[48, 88], Or.inr (Or.inr rfl), rfl, fun h => nomatch h⟩
    · rw [not_exists] at hx hX
      refine ⟨[], Or.inl rfl, ?_, fun _ s' => ⟨hx s', hX s'⟩⟩
      rw [dropHexPrefix_of_noPrefix hx hX]
      rfl

section HexParts

variable {s blanks sign lead digits rest : Str}

/-- Behind the blanks stands no blank, and behind the sign no sign. -/
theorem HexParts.head_digits (h : HexParts s blanks sign lead digits rest) :
    ∀ c, (lead ++ (digits ++ rest)).head? = some c → ¬ isSpace c = true ∧ c ≠ 43 ∧ c ≠ 45 := by
  intro c hc
  obtain ⟨d, digits, rfl⟩ := List.exists_cons_of_ne_nil h.digits_ne_nil
  rcases h.lead_cases with rfl | rfl | rfl
  · obtain rfl := Option.some.inj hc
    obtain ⟨hspace, hplus, hminus, -⟩ :=
      not_special_of_digit (h.isHexDigit_digits d List.mem_cons_self)
    exact ⟨hspace, hplus, hminus⟩
  · obtain rfl := Option.some.inj hc
    decide
  · obtain rfl := Option.some.inj hc
    decide

theorem HexParts.dropWhile_eq (h : HexParts s blanks sign lead digits rest) :
    s.dropWhile isSpace = sign ++ (lead ++ (digits ++ rest)) := by
  have hspace : ∀ c, (sign ++ (lead ++ (digits ++ rest))).head? = some c →
      ¬ isSpace c = true := by
    intro c hc
    rcases h.sign_cases with rfl | rfl | rfl
    · exact (h.head_digits c hc).1
    · obtain rfl := Option.some.inj hc
      decide
    · obtain rfl := Option.some.inj hc
      decide
  rw [h.eq_append, List.dropWhile_append_of_pos h.isSpace_blanks]
  cases hs : sign ++ (lead ++ (digits ++ rest)) with
  | nil => rfl
  | cons c s => exact List.dropWhile_cons_of_neg (hspace c (by rw [hs]; rfl))

theorem HexParts.dropHexPrefix_eq (h : HexParts s blanks sign lead digits rest) :
    dropHexPrefix (lead ++ (digits ++ rest)) = digits ++ rest := by
  rcases h.lead_cases with rfl | rfl | rfl
  · -- without a prefix, no letter of one stands behind a first digit zero
    have hnone : ∀ x s', x = 120 ∨ x = 88 → digits ++ rest ≠ 48 :: x :: s' := by
      intro x s' hx heq
      match digits, h.digits_ne_nil, h.isHexDigit_digits, h.head_rest with
      | [d], _, _, hrest =>
        obtain ⟨hd, heq⟩ := List.cons.inj heq
        have hletter := (hrest x (by rw [show rest = x :: s' from heq]; rfl)).2 rfl (by rw [hd])
        exact hx.elim hletter.1 hletter.2
      | d :: d' :: digits, _, hdigits, _ =>
        obtain ⟨-, heq⟩ := List.cons.inj heq
        obtain ⟨hd', -⟩ := List.cons.inj heq
        obtain ⟨-, -, -, hletter⟩ := not_special_of_digit
          (hdigits d' (List.mem_cons_of_mem _ List.mem_cons_self))
        rw [hd'] at hletter
        exact hx.elim hletter.1 hletter.2
    exact dropHexPrefix_of_noPrefix (fun s' => hnone 120 s' (Or.inl rfl))
      (fun s' => hnone 88 s' (Or.inr rfl))
  · rfl
  · rfl

/-- **`scanHex` takes the field** that a string starts with. -/
theorem HexParts.scanHex_eq (h : HexParts s blanks sign lead digits rest) :
    scanHex s = some (hexValue (decide (sign = [45])) (digits.filterMap hexDigitValue), rest) := by
  have hsign : takeSign (sign ++ (lead ++ (digits ++ rest)))
      = (decide (sign = [45]), lead ++ (digits ++ rest)) :=
    takeSign_append h.sign_cases fun _ c hc => (h.head_digits c hc).2
  have hread := takeHexDigits_append h.isHexDigit_digits fun c hc => (h.head_rest c hc).1
  unfold scanHex
  rw [h.dropWhile_eq, hsign]
  dsimp only
  rw [h.dropHexPrefix_eq, hread]
  obtain ⟨d, digits, rfl⟩ := List.exists_cons_of_ne_nil h.digits_ne_nil
  obtain ⟨n, hn⟩ := Option.isSome_iff_exists.mp (h.isHexDigit_digits d List.mem_cons_self)
  rw [List.filterMap_cons_some hn]

/-- **What `scanHex` takes** is a field. -/
theorem hexParts_of_scanHex {value : Nat} (h : scanHex s = some (value, rest)) :
    ∃ blanks sign lead digits, HexParts s blanks sign lead digits rest := by
  obtain ⟨sign, hsign, hs⟩ := takeSign_spec (s.dropWhile isSpace)
  obtain ⟨lead, hlead, hs', hnone⟩ := dropHexPrefix_spec (takeSign (s.dropWhile isSpace)).2
  obtain ⟨digits, hs'', hdigits, hvalues, hrest⟩ :=
    takeHexDigits_spec (dropHexPrefix (takeSign (s.dropWhile isSpace)).2)
  unfold scanHex at h
  dsimp only at h
  generalize hread : takeHexDigits (dropHexPrefix (takeSign (s.dropWhile isSpace)).2) = read
    at h hs'' hvalues hrest
  obtain ⟨values, rest'⟩ := read
  dsimp only at hs'' hvalues hrest
  cases values with
  | nil => cases h
  | cons n values =>
    obtain ⟨-, rfl⟩ := Prod.mk.inj (Option.some.inj h)
    refine ⟨s.takeWhile isSpace, sign, lead, digits, ?_, ?_, hsign, hlead, ?_, hdigits,
      fun c hc => ⟨hrest c hc, fun hlead' hzero => ?_⟩⟩
    · rw [← hs'', ← hs', ← hs, List.takeWhile_append_dropWhile]
    · exact fun c hc => List.mem_takeWhile_imp hc
    · rintro rfl
      cases hvalues
    · -- a zero and the letter of a prefix would have been dropped
      have hnone := hnone hlead'
      rw [hs', hlead', hs'', hzero] at hnone
      cases hrest' : rest' with
      | nil =>
        rw [hrest'] at hc
        cases hc
      | cons c' rest'' =>
        rw [hrest'] at hc hnone
        obtain rfl := Option.some.inj hc
        have hne := hnone rest''
        exact ⟨fun hx => hne.1 (by rw [hx]; rfl), fun hX => hne.2 (by rw [hX]; rfl)⟩

/-- **The fields of `%x`**, with a property of the number that can be told from the value. -/
theorem hexField_iff {Q P : Nat → Prop}
    (hQ : ∀ negative digits, P (hexValue negative digits) ↔
      Q (digits.foldl (fun acc d => 16 * acc + d) 0)) :
    HexField Q s rest ↔ ∃ value, scanHex s = some (value, rest) ∧ P value := by
  constructor
  · rintro ⟨blanks, sign, lead, digits, hparts, hnumber⟩
    exact ⟨_, hparts.scanHex_eq, (hQ _ _).mpr hnumber⟩
  · rintro ⟨value, hscan, hP⟩
    obtain ⟨blanks, sign, lead, digits, hparts⟩ := hexParts_of_scanHex hscan
    rw [hparts.scanHex_eq] at hscan
    obtain ⟨rfl, -⟩ := Prod.mk.inj (Option.some.inj hscan)
    exact ⟨blanks, sign, lead, digits, hparts, (hQ _ _).mp hP⟩

end HexParts

/-- The byte stored for a number is zero exactly if the number ends in a zero byte and fits. -/
theorem hexValue_mod_iff (negative : Bool) (digits : List Nat) :
    hexValue negative digits % 256 = 0 ↔
      ZeroByte (digits.foldl (fun acc d => 16 * acc + d) 0) := by
  unfold hexValue ZeroByte
  generalize digits.foldl (fun acc d => 16 * acc + d) 0 = number
  dsimp only
  by_cases hfit : 2 ^ 32 ≤ number
  · rw [if_pos hfit]
    omega
  · rw [if_neg hfit]
    cases negative with
    | false =>
      rw [if_neg (fun h => Bool.noConfusion h)]
      omega
    | true =>
      rw [if_pos rfl]
      omega

/-! ## What `%02X` takes

The two characters behind the blanks are read as by `%x`, and what they leave is put back in front
of the rest. -/

theorem scanHexByte_blanks {blanks s rest : Str} {c : UInt8} {value : Nat}
    (hblanks : ∀ c ∈ blanks, isSpace c = true) (hc : ¬ isSpace c = true)
    (hread : scanHex ((c :: s).take 2) = some (value, rest)) :
    scanHexByte (blanks ++ c :: s) = some (value, rest ++ (c :: s).drop 2) := by
  unfold scanHexByte
  rw [List.dropWhile_append_of_pos hblanks, List.dropWhile_cons_of_neg hc]
  dsimp only
  rw [hread]

/-- **`scanHexByte` takes the field** that a string starts with. -/
theorem scanHexByte_of_narrowField {s rest : Str} (h : NarrowField s rest) :
    ∃ value, scanHexByte s = some (value, rest) := by
  obtain ⟨blanks, field, rfl, hblanks, hfield⟩ := h
  rcases hfield with ⟨c, d, rfl, hc | hc, hd⟩ | ⟨d, rfl, hd, hrest⟩
  · have hparts : HexParts [c, d] [] [] [] [c, d] [] :=
      ⟨rfl, List.forall_mem_nil _, Or.inl rfl, Or.inl rfl, List.cons_ne_nil _ _,
        List.forall_mem_cons.mpr ⟨hc, List.forall_mem_singleton.mpr hd⟩, fun c hc => nomatch hc⟩
    exact ⟨_, scanHexByte_blanks (s := d :: rest) hblanks (not_special_of_digit hc).1
      hparts.scanHex_eq⟩
  · have hparts : HexParts [c, d] [] [c] [] [d] [] := by
      refine ⟨rfl, List.forall_mem_nil _, Or.inr ?_, Or.inl rfl, List.cons_ne_nil _ _,
        List.forall_mem_singleton.mpr hd, fun c hc => nomatch hc⟩
      rw [List.singleton_inj, List.singleton_inj]
      exact hc
    have hspace : ¬ isSpace c = true := by
      rcases hc with rfl | rfl
      · decide
      · decide
    exact ⟨_, scanHexByte_blanks (s := d :: rest) hblanks hspace hparts.scanHex_eq⟩
  · -- one digit: what stands behind it is put back
    have hparts : HexParts ((d :: rest).take 2) [] [] [] [d] (rest.take 1) := by
      refine ⟨rfl, List.forall_mem_nil _, Or.inl rfl, Or.inl rfl, List.cons_ne_nil _ _,
        List.forall_mem_singleton.mpr hd, fun c hc => ?_⟩
      rw [List.head?_take, if_neg (by decide)] at hc
      exact (hrest c hc).imp_right fun h _ hzero => h (List.cons.inj hzero).1
    have hscan := scanHexByte_blanks hblanks (not_special_of_digit hd).1 hparts.scanHex_eq
    rw [show rest.take 1 ++ (d :: rest).drop 2 = rest from List.take_append_drop 1 rest] at hscan
    exact ⟨_, hscan⟩

/-- A field in two characters, the first no blank: a digit, two digits, or a sign and a digit. -/
theorem HexParts.cases_of_length {s blanks sign lead digits rest : Str}
    (h : HexParts s blanks sign lead digits rest) (hlen : s.length ≤ 2)
    (hs : ∀ c, s.head? = some c → ¬ isSpace c = true) :
    s = digits ++ rest ∧ lead = [] ∨ s = sign ++ digits ∧ rest = [] ∧ sign.length = 1 := by
  have hlength := congrArg List.length h.eq_append
  have hpos := List.length_pos_iff.mpr h.digits_ne_nil
  simp only [List.length_append] at hlength
  have hblanks : blanks = [] := by
    cases hblanks : blanks with
    | nil => rfl
    | cons b blanks' =>
      have hb := h.isSpace_blanks b (by rw [hblanks]; exact List.mem_cons_self)
      exact absurd hb (hs b (by rw [h.eq_append, hblanks]; rfl))
  have hlead : lead = [] := by
    rcases h.lead_cases with hlead | hlead | hlead
    · exact hlead
    all_goals
      rw [hlead] at hlength
      simp only [List.length_cons, List.length_nil] at hlength
      omega
  have heq := h.eq_append
  rw [hblanks, hlead, List.nil_append, List.nil_append] at heq
  by_cases hsign : sign = []
  · rw [hsign, List.nil_append] at heq
    exact Or.inl ⟨heq, hlead⟩
  · have hsignlen : sign.length = 1 := by
      rcases h.sign_cases with hnil | hone | hone
      · exact absurd hnil hsign
      · rw [hone, List.length_singleton]
      · rw [hone, List.length_singleton]
    have hrest : rest = [] := List.length_eq_zero_iff.mp (by omega)
    rw [hrest, List.append_nil] at heq
    exact Or.inr ⟨heq, hrest, hsignlen⟩

/-- **What is read in two characters**, with the rest of them put back. -/
theorem narrowDigits_of_scanHex {s rest : Str} {value : Nat}
    (hs : ∀ c, s.head? = some c → ¬ isSpace c = true)
    (hread : scanHex (s.take 2) = some (value, rest)) :
    ∃ field, s = field ++ (rest ++ s.drop 2) ∧ NarrowDigits field (rest ++ s.drop 2) := by
  obtain ⟨blanks, sign, lead, digits, hparts⟩ := hexParts_of_scanHex hread
  have hlen : (s.take 2).length ≤ 2 := List.length_take_le _ _
  have hsplit : s = s.take 2 ++ s.drop 2 := (List.take_append_drop 2 s).symm
  have hdigit := hparts.isHexDigit_digits
  have hcases := hparts.cases_of_length hlen fun c hc => by
    rw [List.head?_take, if_neg (by decide)] at hc
    exact hs c hc
  rcases hcases with ⟨htake, hlead⟩ | ⟨htake, rfl, hsign⟩
  · refine ⟨digits, by rw [← List.append_assoc, ← htake]; exact hsplit, ?_⟩
    rw [htake, List.length_append] at hlen
    match digits, hparts.digits_ne_nil with
    | [d], _ =>
      refine Or.inr ⟨d, rfl, hdigit d List.mem_cons_self, fun c hc => ?_⟩
      cases rest with
      | cons r rest =>
        exact (hparts.head_rest c hc).imp_right fun h hzero => h hlead (by rw [hzero])
      | nil =>
        -- nothing is put back only at the end of the string
        have hshort : s.length ≤ 1 := by
          have hone := congrArg List.length htake
          rw [List.length_take, List.append_nil, List.length_singleton] at hone
          omega
        rw [List.nil_append, List.drop_eq_nil_of_le (by omega)] at hc
        cases hc
    | [c, d], _ =>
      exact Or.inl ⟨c, d, rfl, Or.inl (hdigit c List.mem_cons_self),
        hdigit d (List.mem_cons_of_mem _ List.mem_cons_self)⟩
    | _ :: _ :: _ :: _, _ =>
      simp only [List.length_cons] at hlen
      omega
  · refine ⟨sign ++ digits, by rw [List.nil_append, ← htake]; exact hsplit, Or.inl ?_⟩
    rw [htake, List.length_append] at hlen
    have hpos := List.length_pos_iff.mpr hparts.digits_ne_nil
    obtain ⟨c, rfl⟩ := List.length_eq_one_iff.mp hsign
    obtain ⟨d, rfl⟩ := List.length_eq_one_iff.mp (show digits.length = 1 by omega)
    refine ⟨c, d, rfl, Or.inr ?_, hdigit d List.mem_cons_self⟩
    have hcases := hparts.sign_cases.resolve_left (List.cons_ne_nil _ _)
    rwa [List.singleton_inj, List.singleton_inj] at hcases

/-- **What `scanHexByte` takes** is a field. -/
theorem narrowField_of_scanHexByte {s rest : Str} {value : Nat}
    (h : scanHexByte s = some (value, rest)) : NarrowField s rest := by
  have hs : ∀ c, (s.dropWhile isSpace).head? = some c → ¬ isSpace c = true := by
    intro c hc
    have hnot := List.head?_dropWhile_not isSpace s
    rw [hc] at hnot
    simpa using hnot
  unfold scanHexByte at h
  dsimp only at h
  cases hread : scanHex ((s.dropWhile isSpace).take 2) with
  | none =>
    rw [hread] at h
    cases h
  | some r =>
    obtain ⟨value', rest'⟩ := r
    rw [hread] at h
    obtain ⟨-, rfl⟩ := Prod.mk.inj (Option.some.inj h)
    obtain ⟨field, hfield, hdigits⟩ := narrowDigits_of_scanHex hs hread
    refine ⟨s.takeWhile isSpace, field, ?_, fun c hc => List.mem_takeWhile_imp hc, hdigits⟩
    rw [← hfield, List.takeWhile_append_dropWhile]

/-- **The fields of `%02X`** are what `scanHexByte` reads. -/
theorem narrowField_iff {s rest : Str} :
    NarrowField s rest ↔ ∃ value, scanHexByte s = some (value, rest) :=
  ⟨scanHexByte_of_narrowField, fun ⟨_, h⟩ => narrowField_of_scanHexByte h⟩

/-! ## Two digits

The case that texts of a MAC are in: both conversions take the two, and stop at the colon behind
them. -/

/-- The number that two digits denote. -/
def pairNumber (p : UInt8 × UInt8) : Nat :=
  16 * (hexDigitValue p.1).getD 0 + (hexDigitValue p.2).getD 0

theorem pairNumber_lt {p : UInt8 × UInt8} (h : TwoDigits p) : pairNumber p < 256 := by
  obtain ⟨a, ha⟩ := Option.isSome_iff_exists.mp h.1
  obtain ⟨b, hb⟩ := Option.isSome_iff_exists.mp h.2
  have hlt := hexDigitValue_lt ha
  have hlt' := hexDigitValue_lt hb
  unfold pairNumber
  rw [ha, hb, Option.getD_some, Option.getD_some]
  omega

/-- Two digits and something else: behind no prefix, there are the two. -/
theorem takeHexDigits_of_twoDigits {p : UInt8 × UInt8} (h : TwoDigits p) {rest : Str}
    (hrest : takeHexDigits rest = ([], rest)) :
    ∃ digits : List Nat, takeHexDigits (dropHexPrefix (p.1 :: p.2 :: rest)) = (digits, rest) ∧
      digits ≠ [] ∧ digits.foldl (fun acc d => 16 * acc + d) 0 = pairNumber p := by
  obtain ⟨a, ha⟩ := Option.isSome_iff_exists.mp h.1
  obtain ⟨b, hb⟩ := Option.isSome_iff_exists.mp h.2
  obtain ⟨-, -, -, hx, hX⟩ := not_special_of_digit h.2
  refine ⟨[a, b], ?_, List.cons_ne_nil _ _, ?_⟩
  · rw [dropHexPrefix_of_ne hx hX]
    simp only [takeHexDigits, ha, hb, hrest]
  · unfold pairNumber
    rw [List.foldl_cons, List.foldl_cons, List.foldl_nil, ha, hb, Option.getD_some,
      Option.getD_some]
    omega

/-- `sscanf` reads two digits as what they denote. -/
theorem scanHex_of_twoDigits (p : UInt8 × UInt8) (rest : Str) (h : TwoDigits p)
    (hrest : takeHexDigits rest = ([], rest)) :
    scanHex (p.1 :: p.2 :: rest) = some (pairNumber p, rest) := by
  obtain ⟨digits, hdigits, hne, hfold⟩ := takeHexDigits_of_twoDigits h hrest
  have hlt := pairNumber_lt h
  unfold scanHex
  rw [takeSign_of_digit h.1]
  dsimp only
  rw [hdigits]
  cases digits with
  | nil => exact absurd rfl hne
  | cons d digits =>
    dsimp only
    rw [hexValue_of_lt hfold (by omega)]
    rfl

theorem scanHexByte_of_twoDigits (p : UInt8 × UInt8) (rest : Str) (h : TwoDigits p)
    (_ : takeHexDigits rest = ([], rest)) :
    scanHexByte (p.1 :: p.2 :: rest) = some (pairNumber p, rest) := by
  have hread := scanHex_of_twoDigits p [] h rfl
  exact scanHexByte_blanks (s := p.2 :: rest) (List.forall_mem_nil _)
    (not_special_of_digit h.1).1 hread

/-! ## Six fields

`sscanf` goes from one field to the next only at a colon, so what it reads of a text is a list of
fields, by induction over their number. -/

/-- `n` conversions `scan`, each behind a colon. -/
def scanColons (scan : Str → Option (Nat × Str)) : Nat → Str → Option (List Nat)
  | 0, _ => some []
  | n + 1, 58 :: s =>
    match scan s with
    | some (value, s) => (scanColons scan n s).map (value :: ·)
    | none => none
  | _ + 1, _ => none

/-- Pairs of characters, each behind a colon. -/
def colonPairs (ps : List (UInt8 × UInt8)) : Str := ps.flatMap fun p => [58, p.1, p.2]

section ScanColons

variable {scan : Str → Option (Nat × Str)}

theorem scanColons_cons {n value : Nat} {s rest : Str} (hscan : scan s = some (value, rest)) :
    scanColons scan (n + 1) (58 :: s) = (scanColons scan n rest).map (value :: ·) := by
  rw [scanColons, hscan]

/-- What was read, if `n + 1` conversions are done. -/
theorem scanColons_succ {n : Nat} {s : Str} {values : List Nat}
    (h : scanColons scan (n + 1) s = some values) :
    ∃ s' value rest values', s = 58 :: s' ∧ scan s' = some (value, rest) ∧
      scanColons scan n rest = some values' ∧ values = value :: values' := by
  unfold scanColons at h
  split at h
  · next heq => cases heq
  · next n' s' heq =>
    obtain rfl := Nat.succ.inj heq
    cases hscan : scan s' with
    | none =>
      rw [hscan] at h
      cases h
    | some r =>
      obtain ⟨value, rest⟩ := r
      rw [hscan] at h
      obtain ⟨values', hvalues, hcons⟩ := Option.map_eq_some_iff.mp h
      exact ⟨s', value, rest, values', rfl, hscan, hvalues, hcons.symm⟩
  · cases h

theorem length_scanColons {n : Nat} {s : Str} {values : List Nat}
    (h : scanColons scan n s = some values) : values.length = n := by
  induction n generalizing s values with
  | zero =>
    obtain rfl := Option.some.inj h
    rfl
  | succ n ih =>
    obtain ⟨s', value, rest, values', -, -, hvalues, rfl⟩ := scanColons_succ h
    exact congrArg (· + 1) (ih hvalues)

/-- **The fields of a text** are read one after another. -/
theorem colonFields_iff {field : Str → Str → Prop} {P : Nat → Prop}
    (hfield : ∀ s rest, field s rest ↔ ∃ value, scan s = some (value, rest) ∧ P value)
    {n : Nat} {s : Str} :
    ColonFields field n s ↔ ∃ values, scanColons scan n s = some values ∧ ∀ v ∈ values, P v := by
  constructor
  · intro h
    induction h with
    | nil s => exact ⟨[], rfl, List.forall_mem_nil _⟩
    | cons hf _ ih =>
      obtain ⟨value, hscan, hvalue⟩ := (hfield _ _).mp hf
      obtain ⟨values, hvalues, hall⟩ := ih
      refine ⟨value :: values, ?_, List.forall_mem_cons.mpr ⟨hvalue, hall⟩⟩
      rw [scanColons_cons hscan, hvalues]
      rfl
  · rintro ⟨values, h, hall⟩
    induction n generalizing s values with
    | zero => exact .nil s
    | succ n ih =>
      obtain ⟨s', value, rest, values', rfl, hscan, hvalues, rfl⟩ := scanColons_succ h
      obtain ⟨hvalue, hall⟩ := List.forall_mem_cons.mp hall
      exact .cons ((hfield _ _).mpr ⟨value, hscan, hvalue⟩) (ih values' hvalues hall)

/-- Pairs of digits are read as what they denote. -/
theorem scanColons_colonPairs
    (hscan : ∀ p rest, TwoDigits p → takeHexDigits rest = ([], rest) →
      scan (p.1 :: p.2 :: rest) = some (pairNumber p, rest))
    {ps : List (UInt8 × UInt8)} (hps : ∀ p ∈ ps, TwoDigits p) :
    scanColons scan ps.length (colonPairs ps) = some (ps.map pairNumber) := by
  induction ps with
  | nil => rfl
  | cons p ps ih =>
    obtain ⟨hp, hps⟩ := List.forall_mem_cons.mp hps
    have hrest : takeHexDigits (colonPairs ps) = ([], colonPairs ps) := by
      cases ps with
      | nil => rfl
      | cons p ps => rfl
    show scanColons scan (ps.length + 1) (58 :: p.1 :: p.2 :: colonPairs ps) = _
    rw [scanColons_cons (hscan p _ hp hrest), ih hps]
    rfl

end ScanColons

theorem scanColonHex_eq (n : Nat) (s : Str) : scanColonHex n s = scanColons scanHex n s := by
  fun_induction scanColonHex n s with
  | case1 => rfl
  | case2 n s value s' hscan ih => rw [scanColons_cons hscan, ih]
  | case3 n s hscan => rw [scanColons, hscan]
  | case4 n s hs =>
    rw [scanColons]
    exact hs

theorem scanColonHexByte_eq (n : Nat) (s : Str) :
    scanColonHexByte n s = scanColons scanHexByte n s := by
  fun_induction scanColonHexByte n s with
  | case1 => rfl
  | case2 n s value s' hscan ih => rw [scanColons_cons hscan, ih]
  | case3 n s hscan => rw [scanColons, hscan]
  | case4 n s hs =>
    rw [scanColons]
    exact hs

end Icsn
