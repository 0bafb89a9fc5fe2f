import Icsn.Config.KeyText

/-!
# Icsn — which texts are keys

`hexStringToBytes` leaves each pair of characters to `strtoul`, which reads more than digits.

* **`hexPairToByte_isSome_iff`** — the pairs it takes: two digits, or a blank or a sign in front of
  one (`BlankOrSign`).
* **`key_texts_exact_iff`** — the texts that are taken as keys are exactly the texts of keys, unless
  every pair is taken and one of them has a blank or a sign.
-/

namespace Icsn

/-! ## Pairs of characters

The loop takes a text two characters at a time, so a text is a list of pairs and all that matters is
which pairs `strtoul` takes in full. -/

def IsHexDigit (c : UInt8) : Prop := (hexDigitValue c).isSome = true

instance (c : UInt8) : Decidable (IsHexDigit c) := inferInstanceAs (Decidable (_ = _))

/-- A blank or a plus in front of a digit, or a minus in front of a zero. -/
def BlankOrSign (p : UInt8 × UInt8) : Prop :=
  (isSpace p.1 = true ∨ p.1 = 43) ∧ IsHexDigit p.2 ∨ p.1 = 45 ∧ p.2 = 48

instance (p : UInt8 × UInt8) : Decidable (BlankOrSign p) := inferInstanceAs (Decidable (_ ∨ _))

def TwoDigits (p : UInt8 × UInt8) : Prop := IsHexDigit p.1 ∧ IsHexDigit p.2

instance (p : UInt8 × UInt8) : Decidable (TwoDigits p) := inferInstanceAs (Decidable (_ ∧ _))

/-- The characters of a text, two by two. -/
def pairs : Str → List (UInt8 × UInt8)
  | c :: d :: text => (c, d) :: pairs text
  | _ => []

/-- The byte that two digits denote. -/
def pairValue (p : UInt8 × UInt8) : UInt8 :=
  UInt8.ofNat (16 * (hexDigitValue p.1).getD 0 + (hexDigitValue p.2).getD 0)

theorem hexDigitValue_lt {c : UInt8} {n : Nat} (h : hexDigitValue c = some n) : n < 16 := by
  unfold hexDigitValue at h
  have hle : c.toNat < 256 := c.toNat_lt
  simp only [UInt8.le_iff_toNat_le, UInt8.reduceToNat] at h
  split at h
  · obtain rfl := Option.some.inj h
    omega
  · split at h
    · obtain rfl := Option.some.inj h
      omega
    · split at h
      · obtain rfl := Option.some.inj h
        omega
      · cases h

/-- A blank is no digit, and neither is a sign or the letter of a prefix. -/
theorem hexDigitValue_of_special {c : UInt8}
    (h : isSpace c = true ∨ c = 43 ∨ c = 45 ∨ c = 120 ∨ c = 88) : hexDigitValue c = none := by
  rcases h with h | rfl | rfl | rfl | rfl
  · unfold isSpace at h
    simp only [Bool.or_eq_true, Bool.and_eq_true, beq_iff_eq, decide_eq_true_eq,
      UInt8.le_iff_toNat_le, UInt8.reduceToNat] at h
    unfold hexDigitValue
    simp only [UInt8.le_iff_toNat_le, UInt8.reduceToNat]
    have hle : c.toNat ≤ 32 := by
      rcases h with rfl | h
      · decide
      · omega
    rw [if_neg (by omega), if_neg (by omega), if_neg (by omega)]
  all_goals rfl

/-! ## What `strtoul` makes of a pair

By the first character: a digit, a blank, a sign, or something else.  In two characters a prefix
leaves no room for a digit, so it is never taken in full. -/

theorem hexValue_of_lt {digits : List Nat} {value : Nat}
    (hvalue : digits.foldl (fun acc d => 16 * acc + d) 0 = value) (hlt : value < 2 ^ 32)
    (negative : Bool) :
    hexValue negative digits = if negative then (2 ^ 32 - value) % 2 ^ 32 else value := by
  unfold hexValue
  rw [hvalue]
  exact if_neg (by omega)

/-- `strtoul` with digits behind the sign. -/
theorem strtoul16_of_digits {s rest : Str} {negative : Bool} {digits : List Nat}
    (hsign : takeSign (s.dropWhile isSpace) = (negative, rest)) {rest' : Str}
    (hdigits : takeHexDigits (dropHexPrefix rest) = (digits, rest')) (hne : digits ≠ []) :
    strtoul16 s = (hexValue negative digits, rest') := by
  unfold strtoul16
  rw [hsign]
  dsimp only
  rw [hdigits]
  cases digits with
  | nil => exact absurd rfl hne
  | cons d digits => rfl

theorem dropHexPrefix_singleton (d : UInt8) : dropHexPrefix [d] = [d] := by
  unfold dropHexPrefix
  split
  · next h => cases h
  · next h => cases h
  · rfl

/-- `strtoul` with at most one character behind the sign, and that no digit. -/
theorem strtoul16_of_no_digit {s rest : Str} {negative : Bool} {d : UInt8}
    (hsign : takeSign (s.dropWhile isSpace) = (negative, rest)) (hrest : rest = [] ∨ rest = [d])
    (hd : hexDigitValue d = none) : strtoul16 s = (0, s) := by
  have hnone : takeHexDigits [d] = ([], [d]) := by
    unfold takeHexDigits
    rw [hd]
  unfold strtoul16
  rw [hsign]
  dsimp only
  rcases hrest with rfl | rfl
  · rfl
  · rw [dropHexPrefix_singleton, hnone]

/-- A digit behind a sign. -/
theorem hexPairToByte_of_digit {c d : UInt8} {negative : Bool}
    (hsign : takeSign ([c, d].dropWhile isSpace) = (negative, [d])) {n : Nat}
    (hd : hexDigitValue d = some n) :
    (hexPairToByte [c, d]).isSome = true ↔ negative = false ∨ n = 0 := by
  have hlt := hexDigitValue_lt hd
  have hdigits : takeHexDigits (dropHexPrefix [d]) = ([n], []) := by
    rw [dropHexPrefix_singleton]
    unfold takeHexDigits
    rw [hd]
    rfl
  have hfold : [n].foldl (fun acc d => 16 * acc + d) 0 = n := by
    rw [List.foldl_cons, List.foldl_nil]
    omega
  unfold hexPairToByte
  rw [strtoul16_of_digits hsign hdigits (List.cons_ne_nil _ _), hexValue_of_lt hfold (by omega)]
  dsimp only
  cases negative with
  | false =>
    rw [if_neg (by simp; omega)]
    exact iff_of_true rfl (Or.inl rfl)
  | true =>
    rw [if_pos rfl]
    by_cases hzero : n = 0
    · subst hzero
      exact iff_of_true rfl (Or.inr rfl)
    · -- minus a digit wraps around
      rw [if_pos (Or.inr (by omega))]
      exact iff_of_false (by decide) (by simp [hzero])

theorem hexPairToByte_of_no_digit {c d : UInt8} {negative : Bool} {rest : Str}
    (hsign : takeSign ([c, d].dropWhile isSpace) = (negative, rest))
    (hrest : rest = [] ∨ rest = [d]) (hd : hexDigitValue d = none) :
    hexPairToByte [c, d] = none := by
  unfold hexPairToByte
  rw [strtoul16_of_no_digit hsign hrest hd]
  exact if_pos (Or.inl (List.cons_ne_nil _ _))

theorem hexPairToByte_of_twoDigits {p : UInt8 × UInt8} (h : TwoDigits p) :
    hexPairToByte [p.1, p.2] = some (pairValue p) := by
  obtain ⟨c, d⟩ := p
  obtain ⟨a, ha⟩ := Option.isSome_iff_exists.mp h.1
  obtain ⟨b, hb⟩ := Option.isSome_iff_exists.mp h.2
  dsimp only at ha hb ⊢
  -- the first is no blank and no sign, and the second no letter of a prefix
  have hplain : isSpace c = false ∧ c ≠ 45 ∧ c ≠ 43 := by
    refine ⟨?_, ?_, ?_⟩
    · rw [← Bool.not_eq_true]
      intro hspace
      rw [hexDigitValue_of_special (Or.inl hspace)] at ha
      cases ha
    · rintro rfl
      cases ha
    · rintro rfl
      cases ha
  have hd : d ≠ 120 ∧ d ≠ 88 := by
    constructor <;> rintro rfl <;> cases hb
  have hlt := hexDigitValue_lt ha
  have hlt' := hexDigitValue_lt hb
  have hfold : [a, b].foldl (fun acc d => 16 * acc + d) 0 = 16 * a + b := by
    rw [List.foldl_cons, List.foldl_cons, List.foldl_nil]
    omega
  have hsign : takeSign ([c, d].dropWhile isSpace) = (false, [c, d]) := by
    rw [List.dropWhile_cons_of_neg (by rw [hplain.1]; decide)]
    exact takeSign_of_ne hplain.2.1 hplain.2.2 _
  have hdigits : takeHexDigits (dropHexPrefix [c, d]) = ([a, b], []) := by
    rw [dropHexPrefix_of_ne hd.1 hd.2]
    simp only [takeHexDigits, ha, hb]
  have hread := strtoul16_of_digits hsign hdigits (List.cons_ne_nil _ _)
  rw [hexValue_of_lt hfold (by omega)] at hread
  unfold hexPairToByte pairValue
  rw [hread]
  rw [if_neg (by simp; omega), ha, hb]
  rfl

/-- Behind the blanks and the sign of a single character there is nothing or the character. -/
theorem takeSign_singleton (d : UInt8) :
    (takeSign ([d].dropWhile isSpace)).2 = [] ∨ (takeSign ([d].dropWhile isSpace)).2 = [d] := by
  by_cases hspace : isSpace d = true
  · rw [List.dropWhile_cons_of_pos hspace]
    exact Or.inl rfl
  · rw [List.dropWhile_cons_of_neg hspace]
    by_cases hminus : d = 45
    · subst hminus
      exact Or.inl rfl
    · by_cases hplus : d = 43
      · subst hplus
        exact Or.inl rfl
      · rw [takeSign_of_ne hminus hplus]
        exact Or.inr rfl

/-- A digit is neither a blank nor a sign, nor the letter of a prefix. -/
theorem not_special_of_digit {c : UInt8} (h : IsHexDigit c) :
    ¬ isSpace c = true ∧ c ≠ 43 ∧ c ≠ 45 ∧ c ≠ 120 ∧ c ≠ 88 := by
  have hnone := mt (@hexDigitValue_of_special c) (Option.isSome_iff_ne_none.mp h)
  simpa only [not_or] using hnone

theorem takeSign_of_digit {d : UInt8} (h : IsHexDigit d) (s : Str) :
    takeSign ((d :: s).dropWhile isSpace) = (false, d :: s) := by
  obtain ⟨hspace, hplus, hminus, -⟩ := not_special_of_digit h
  rw [List.dropWhile_cons_of_neg hspace]
  exact takeSign_of_ne hminus hplus s

/-- A digit in front of something else: the rest is left over. -/
theorem hexPairToByte_of_trailing {c d : UInt8} (hc : IsHexDigit c) (hd : ¬ IsHexDigit d) :
    hexPairToByte [c, d] = none := by
  obtain ⟨a, ha⟩ := Option.isSome_iff_exists.mp hc
  have hdnone : hexDigitValue d = none := Option.not_isSome_iff_eq_none.mp hd
  have hread : takeHexDigits [c, d] = ([a], [d]) := by
    simp only [takeHexDigits, ha, hdnone]
  have hleft : (strtoul16 [c, d]).2 = [d] := by
    unfold strtoul16
    rw [takeSign_of_digit hc]
    dsimp only
    by_cases hlead : dropHexPrefix [c, d] = [c, d]
    · rw [hlead, hread]
    · -- a prefix without digits is the digit zero and a letter
      have hempty : dropHexPrefix [c, d] = [] := by
        revert hlead
        unfold dropHexPrefix
        split
        · next h => exact fun _ => (List.cons.inj (List.cons.inj h).2).2.symm
        · next h => exact fun _ => (List.cons.inj (List.cons.inj h).2).2.symm
        · exact fun h => absurd rfl h
      rw [hempty, hread]
      rfl
  unfold hexPairToByte
  exact if_pos (Or.inl (by rw [hleft]; exact List.cons_ne_nil _ _))

/-- A sign in front of a character: a digit is taken behind a plus, a zero behind a minus. -/
theorem hexPairToByte_of_sign {c d : UInt8} {negative : Bool}
    (hsign : takeSign ([c, d].dropWhile isSpace) = (negative, [d])) :
    (hexPairToByte [c, d]).isSome = true ↔
      IsHexDigit d ∧ (negative = false ∨ hexDigitValue d = some 0) := by
  unfold IsHexDigit
  cases hd : hexDigitValue d with
  | none =>
    rw [hexPairToByte_of_no_digit hsign (Or.inr rfl) hd]
    exact iff_of_false (by decide) (fun h => absurd h.1 (by decide))
  | some n =>
    rw [hexPairToByte_of_digit hsign hd, Option.some.injEq]
    exact (and_iff_right rfl).symm

theorem hexPairToByte_of_blank {c d : UInt8} (hc : isSpace c = true) :
    (hexPairToByte [c, d]).isSome = true ↔ IsHexDigit d := by
  have hdrop : [c, d].dropWhile isSpace = [d].dropWhile isSpace := List.dropWhile_cons_of_pos hc
  by_cases hd : IsHexDigit d
  · have hsign : takeSign ([c, d].dropWhile isSpace) = (false, [d]) := by
      rw [hdrop, takeSign_of_digit hd]
    rw [hexPairToByte_of_sign hsign]
    exact and_iff_left (Or.inl rfl)
  · have hrest := takeSign_singleton d
    rw [← hdrop] at hrest
    rw [hexPairToByte_of_no_digit rfl hrest (Option.not_isSome_iff_eq_none.mp hd)]
    exact iff_of_false (by decide) hd

/-- Neither a digit nor a blank nor a sign: there is nothing to read. -/
theorem hexPairToByte_of_other {c d : UInt8} (hdigit : ¬ IsHexDigit c) (hspace : ¬ isSpace c = true)
    (hplus : c ≠ 43) (hminus : c ≠ 45) : hexPairToByte [c, d] = none := by
  have hnone : hexDigitValue c = none := Option.not_isSome_iff_eq_none.mp hdigit
  have hlead : dropHexPrefix [c, d] = [c, d] := by
    unfold dropHexPrefix
    split
    · next h =>
      obtain rfl := (List.cons.inj h).1
      cases hnone
    · next h =>
      obtain rfl := (List.cons.inj h).1
      cases hnone
    · rfl
  have hread : takeHexDigits [c, d] = ([], [c, d]) := by
    unfold takeHexDigits
    rw [hnone]
  have hleft : strtoul16 [c, d] = (0, [c, d]) := by
    unfold strtoul16
    rw [List.dropWhile_cons_of_neg hspace, takeSign_of_ne hminus hplus]
    dsimp only
    rw [hlead, hread]
  unfold hexPairToByte
  rw [hleft]
  exact if_pos (Or.inl (List.cons_ne_nil _ _))

/-- The only digit with the value zero. -/
theorem hexDigitValue_eq_zero_iff {d : UInt8} : hexDigitValue d = some 0 ↔ d = 48 := by
  constructor
  · intro h
    unfold hexDigitValue at h
    simp only [UInt8.le_iff_toNat_le, UInt8.reduceToNat] at h
    split at h
    · have hzero := Option.some.inj h
      exact UInt8.toNat_inj.mp (show d.toNat = 48 by omega)
    · split at h
      · have hzero := Option.some.inj h
        omega
      · split at h
        · have hzero := Option.some.inj h
          omega
        · cases h
  · rintro rfl
    rfl

theorem not_blankOrSign_of_digit {p : UInt8 × UInt8} (h : IsHexDigit p.1) : ¬ BlankOrSign p := by
  obtain ⟨hspace, hplus, hminus, -⟩ := not_special_of_digit h
  rintro (⟨hblank | hplus', -⟩ | ⟨hminus', -⟩)
  · exact hspace hblank
  · exact hplus hplus'
  · exact hminus hminus'

/-- **The pairs that `strtoul` takes.** -/
theorem hexPairToByte_isSome_iff (p : UInt8 × UInt8) :
    (hexPairToByte [p.1, p.2]).isSome = true ↔ TwoDigits p ∨ BlankOrSign p := by
  -- by the first character, and then by the second
  by_cases hdigit : IsHexDigit p.1
  · rw [or_iff_left (not_blankOrSign_of_digit hdigit)]
    by_cases hd : IsHexDigit p.2
    · rw [hexPairToByte_of_twoDigits ⟨hdigit, hd⟩]
      exact iff_of_true rfl ⟨hdigit, hd⟩
    · rw [hexPairToByte_of_trailing hdigit hd]
      exact iff_of_false (by decide) (fun h => hd h.2)
  · rw [or_iff_right fun h => hdigit h.1]
    unfold BlankOrSign
    by_cases hspace : isSpace p.1 = true
    · have hminus : p.1 ≠ 45 := fun h => by
        rw [h] at hspace
        cases hspace
      rw [hexPairToByte_of_blank hspace]
      simp [hspace, hminus]
    · by_cases hplus : p.1 = 43
      · have hsign : takeSign ([p.1, p.2].dropWhile isSpace) = (false, [p.2]) := by
          rw [hplus]
          rfl
        rw [hexPairToByte_of_sign hsign]
        simp [hplus]
      · by_cases hminus : p.1 = 45
        · have hsign : takeSign ([p.1, p.2].dropWhile isSpace) = (true, [p.2]) := by
            rw [hminus]
            rfl
          rw [hexPairToByte_of_sign hsign, hexDigitValue_eq_zero_iff]
          constructor
          · rintro ⟨-, hplain | hzero⟩
            · cases hplain
            · exact Or.inr ⟨hminus, hzero⟩
          · rintro (⟨hblank | hplus', -⟩ | ⟨-, hzero⟩)
            · exact absurd hblank hspace
            · exact absurd hplus' hplus
            · exact ⟨by rw [hzero]; decide, Or.inr hzero⟩
        · rw [hexPairToByte_of_other hdigit hspace hplus hminus]
          simp [hspace, hplus, hminus]

/-! ## Texts

From pairs to texts of even length, by an induction that takes two characters at a time.  What a
text of digits denotes is what the loop writes. -/

/-- The texts of `n` bytes: two digits for each, and nothing else. -/
structure IsHexText (n : Nat) (text : Str) : Prop where
  length_eq : text.length = n * 2
  digits : ∀ c ∈ text, IsHexDigit c

instance (n : Nat) (text : Str) : Decidable (IsHexText n text) :=
  have : Decidable (∀ c ∈ text, IsHexDigit c) := List.decidableBAll IsHexDigit text
  decidable_of_iff (text.length = n * 2 ∧ ∀ c ∈ text, IsHexDigit c)
    ⟨fun h => ⟨h.1, h.2⟩, fun h => ⟨h.1, h.2⟩⟩

/-- The bytes that a text of digits denotes. -/
def hexBytes (text : Str) : List UInt8 := (pairs text).map pairValue

/-- Induction over the pairs of a text of even length. -/
theorem pairs_induction {motive : Nat → Str → Prop} (nil : motive 0 [])
    (cons : ∀ n c d text, text.length = n * 2 → motive n text → motive (n + 1) (c :: d :: text)) :
    ∀ n text, text.length = n * 2 → motive n text := by
  intro n
  induction n with
  | zero =>
    intro text hlen
    obtain rfl := List.eq_nil_of_length_eq_zero hlen
    exact nil
  | succ n ih =>
    intro text hlen
    match text, hlen with
    | [], hlen => rw [List.length_nil] at hlen; omega
    | [_], hlen => rw [List.length_singleton] at hlen; omega
    | c :: d :: text, hlen =>
      rw [List.length_cons, List.length_cons] at hlen
      exact cons n c d text (by omega) (ih text (by omega))

/-- All characters are digits if all pairs are two digits. -/
theorem digits_iff_pairs : ∀ n text, text.length = n * 2 →
    ((∀ c ∈ text, IsHexDigit c) ↔ ∀ p ∈ pairs text, TwoDigits p) := by
  apply pairs_induction
  · exact iff_of_true (fun c hc => absurd hc List.not_mem_nil)
      (fun p hp => absurd hp List.not_mem_nil)
  · intro n c d text _ ih
    rw [pairs, List.forall_mem_cons, List.forall_mem_cons, List.forall_mem_cons, ih, ← and_assoc]
    rfl

theorem hexStringLoop_cons (n : Nat) (c d : UInt8) (text : Str) :
    hexStringLoop (n + 1) (c :: d :: text) = match hexPairToByte [c, d] with
      | none => (false, [])
      | some val => ((hexStringLoop n text).1, val :: (hexStringLoop n text).2) := rfl

/-- **The loop gets to the end** if `strtoul` takes every pair. -/
theorem hexStringLoop_fst : ∀ n text, text.length = n * 2 →
    ((hexStringLoop n text).1 = true ↔ ∀ p ∈ pairs text, TwoDigits p ∨ BlankOrSign p) := by
  apply pairs_induction
  · exact iff_of_true rfl fun p hp => absurd hp List.not_mem_nil
  · intro n c d text _ ih
    have hpair := hexPairToByte_isSome_iff (c, d)
    rw [pairs, List.forall_mem_cons, ← ih, ← hpair, hexStringLoop_cons]
    cases hexPairToByte [c, d] with
    | none => exact iff_of_false (fun h => Bool.noConfusion h) (fun h => Bool.noConfusion h.1)
    | some val => exact (and_iff_right rfl).symm

/-- The loop writes the bytes of the digits. -/
theorem hexStringLoop_snd : ∀ n text, text.length = n * 2 →
    (∀ p ∈ pairs text, TwoDigits p) → (hexStringLoop n text).2 = hexBytes text := by
  apply pairs_induction
  · exact fun _ => rfl
  · intro n c d text _ ih h
    rw [pairs, List.forall_mem_cons] at h
    have hpair := hexPairToByte_of_twoDigits h.1
    dsimp only at hpair
    rw [hexStringLoop_cons, hpair]
    exact congrArg (pairValue (c, d) :: ·) (ih h.2)

/-- The text is taken exactly if it is the text of `n` bytes, and these are written then. -/
def ParsedExactly (n : Nat) (text : Str) : Prop :=
  ∀ out : CharArray n, ((hexStringToBytes text out).1 = true ↔ IsHexText n (cstr text)) ∧
    (IsHexText n (cstr text) → (hexStringToBytes text out).2.toList = hexBytes (cstr text))

/-- What `hexStringToBytes` takes. -/
theorem hexStringToBytes_fst {n : Nat} (text : Str) (out : CharArray n) :
    (hexStringToBytes text out).1 = true ↔ (cstr text).length = n * 2 ∧
      ∀ p ∈ pairs (cstr text), TwoDigits p ∨ BlankOrSign p := by
  unfold hexStringToBytes
  by_cases hlen : (cstr text).length = n * 2
  · rw [if_neg (not_not.mpr hlen), and_iff_right hlen]
    exact hexStringLoop_fst n _ hlen
  · rw [if_pos hlen]
    exact iff_of_false (fun h => Bool.noConfusion h) (fun h => hlen h.1)

/-- What it writes for a text of digits. -/
theorem hexStringToBytes_snd {n : Nat} {text : Str} (h : IsHexText n (cstr text))
    (out : CharArray n) : (hexStringToBytes text out).2.toList = hexBytes (cstr text) := by
  have hpairs := (digits_iff_pairs n _ h.length_eq).mp h.digits
  have hloop := hexStringLoop_snd n _ h.length_eq hpairs
  have hdone := (hexStringLoop_fst n _ h.length_eq).mpr fun p hp => Or.inl (hpairs p hp)
  have hlen := length_hexStringLoop h.length_eq hdone
  unfold hexStringToBytes
  rw [if_neg (not_not.mpr h.length_eq)]
  show (((hexStringLoop n (cstr text)).2 ++ _).take n) = _
  rw [List.take_left' hlen, hloop]

/-- The digits that a key is written with denote it. -/
theorem hexBytes_flatMap_hexByte (bytes : List UInt8) :
    hexBytes (bytes.flatMap hexByte) = bytes := by
  induction bytes with
  | nil => rfl
  | cons b bytes ih =>
    have hvalue : pairValue (hexDigit (b.toNat / 16), hexDigit (b.toNat % 16)) = b := by
      have hlow : b.toNat % 16 < 16 := Nat.mod_lt _ (by decide)
      unfold pairValue
      rw [hexDigitValue_hexDigit (div_lt_sixteen b), hexDigitValue_hexDigit hlow]
      dsimp only [Option.getD_some]
      rw [Nat.div_add_mod]
      exact UInt8.ofNat_toNat
    exact congrArg₂ List.cons hvalue ih

theorem isHexText_flatMap_hexByte (bytes : List UInt8) :
    IsHexText bytes.length (bytes.flatMap hexByte) := by
  induction bytes with
  | nil => exact ⟨rfl, fun c hc => absurd hc List.not_mem_nil⟩
  | cons b bytes ih =>
    have hhigh : IsHexDigit (hexDigit (b.toNat / 16)) := by
      unfold IsHexDigit
      rw [hexDigitValue_hexDigit (div_lt_sixteen b)]
      rfl
    have hlow : IsHexDigit (hexDigit (b.toNat % 16)) := by
      unfold IsHexDigit
      rw [hexDigitValue_hexDigit (Nat.mod_lt _ (by decide))]
      rfl
    refine ⟨?_, ?_⟩
    · rw [List.flatMap_cons, List.length_append, ih.length_eq, List.length_cons]
      show 2 + _ = _
      omega
    · rw [List.flatMap_cons]
      exact List.forall_mem_cons.mpr ⟨hhigh, List.forall_mem_cons.mpr ⟨hlow, ih.digits⟩⟩

/-- **The text of every key is read back.** -/
theorem hexStringToBytes_flatMap_hexByte {n : Nat} (key out : CharArray n) :
    hexStringToBytes (key.toList.flatMap hexByte) out = (true, key) := by
  have hzero : (0 : UInt8) ∉ key.toList.flatMap hexByte := by
    intro hmem
    obtain ⟨b, -, hb⟩ := List.mem_flatMap.mp hmem
    exact zero_notMem_hexByte b hb
  have htext : IsHexText n (cstr (key.toList.flatMap hexByte)) := by
    have hkey := isHexText_flatMap_hexByte key.toList
    rw [key.toList_length] at hkey
    rw [cstr_of_zero_notMem hzero]
    exact hkey
  have hpairs := (digits_iff_pairs n _ htext.length_eq).mp htext.digits
  apply Prod.ext
  · exact (hexStringToBytes_fst _ out).mpr ⟨htext.length_eq, fun p hp => Or.inl (hpairs p hp)⟩
  · apply List.Vector.toList_injective
    rw [hexStringToBytes_snd htext, cstr_of_zero_notMem hzero, hexBytes_flatMap_hexByte]

/-- **Key texts are read exactly, but for blanks and signs.**  The text of every key is read back.
A text is taken as `n` bytes exactly if it is their text, unless it is `2 * n` characters long, some
pair of them is a blank or a sign in front of a digit that `strtoul` takes, and every other pair is
two digits or another such one. -/
theorem key_texts_exact_iff (n : Nat) (text : Str) :
    (∀ key out : CharArray n, hexStringToBytes (key.toList.flatMap hexByte) out = (true, key)) ∧
    (ParsedExactly n text ↔
      (cstr text).length ≠ n * 2 ∨ (∀ p ∈ pairs (cstr text), ¬ BlankOrSign p) ∨
        ∃ p ∈ pairs (cstr text), ¬ TwoDigits p ∧ ¬ BlankOrSign p) := by
  refine ⟨hexStringToBytes_flatMap_hexByte, fun h => ?_, fun h out => ⟨?_, ?_⟩⟩
  · -- a text that is taken in spite of a blank or a sign is no text of digits
    by_contra hnot
    simp only [not_or, not_not, not_forall, not_exists, not_and] at hnot
    obtain ⟨hlen, ⟨p, hp, hblank⟩, hall⟩ := hnot
    have htaken := (hexStringToBytes_fst text (List.Vector.replicate n 0)).mpr
      ⟨hlen, fun p hp => Classical.or_iff_not_imp_left.mpr fun hdigits => hall p hp hdigits⟩
    have htext := (h _).1.mp htaken
    exact not_blankOrSign_of_digit ((digits_iff_pairs n _ hlen).mp htext.digits p hp).1 hblank
  · rw [hexStringToBytes_fst]
    constructor
    · rintro ⟨hlen, hall⟩
      refine ⟨hlen, (digits_iff_pairs n _ hlen).mpr fun p hp => ?_⟩
      rcases h with hlen' | hnone | ⟨q, hq, hdigits, hblank⟩
      · exact absurd hlen hlen'
      · exact (hall p hp).resolve_right (hnone p hp)
      · exact absurd (hall q hq) (not_or.mpr ⟨hdigits, hblank⟩)
    · intro htext
      have hpairs := (digits_iff_pairs n _ htext.length_eq).mp htext.digits
      exact ⟨htext.length_eq, fun p hp => Or.inl (hpairs p hp)⟩
  · exact fun htext => hexStringToBytes_snd htext out

/-- A plus in front of the first digit of an otherwise zero key is taken. -/
theorem not_key_texts_exact : ¬ ∀ (n : Nat) (text : Str), ParsedExactly n text := by
  intro h
  have hbad := (h 16 (43 :: 49 :: List.replicate 30 48) (List.Vector.replicate 16 0)).1.mp
    (by decide)
  exact absurd (hbad.digits 43 (by decide)) (by decide)

end Icsn
