import Icsn.Config.ScanFields
import Mathlib.Data.List.GetD

/-!
# Icsn — three parsers of MACs

`parseMacAddress` of the command line (`main.cpp`), `macStringToBytes` of the configuration and
`macStringToArray` of the next hops.  The first looks at each of the 17 characters; the other two
leave the fields to `sscanf`, which asks for less.

* **`IsMacText`** — the texts of a MAC, which `parseMacAddress` takes
  (`parseMacAddress_of_colonPairs`, `isMacText_of_parseMacAddress`).
* **`mac_parsers_agree_iff`** — the parsers agree on the texts of a MAC and on those where `sscanf`
  finds no six fields either.
-/

namespace Icsn

/-! ## The parser of the command line

It checks the length, the colons and the digits character by character before it lets `strtol` have
the pair. -/

/-- `isHexDigit` of `main.cpp`. -/
def isHexDigit (c : UInt8) : Bool :=
  (c ≥ 48 && c ≤ 57) || (c ≥ 97 && c ≤ 102) || (c ≥ 65 && c ≤ 70)

/-- The `long` that `strtol` makes of a sign and digits. -/
def longValue (negative : Bool) (digits : List Nat) : Int :=
  let value : Nat := digits.foldl (fun acc d => 16 * acc + d) 0
  max (-2 ^ 31) (min (2 ^ 31 - 1) (if negative then -(value : Int) else value))

/-- `strtol(s, &end, 16)`: the value, and the string from `end` on. -/
def strtol16 (s : Str) : Int × Str :=
  let sign := takeSign (s.dropWhile isSpace)
  match takeHexDigits (dropHexPrefix sign.2) with
  | ([], _) =>
    match takeHexDigits sign.2 with
    | ([], _) => (0, s)
    | (digits, s) => (longValue sign.1 digits, s)
  | (digits, s) => (longValue sign.1 digits, s)

/-- `String::charAt`, which is zero from the end of the string on. -/
def charAt (text : Str) (i : Nat) : UInt8 := text.getD i 0

/-- The loop of `parseMacAddress`, with `n` turns to go: whether it gets to the end, and the bytes
it writes. -/
def parseMacLoop (text : Str) : Nat → Nat → Bool × List UInt8
  | 0, _ => (true, [])
  | n + 1, i =>
    let offset := i * 3
    if i > 0 ∧ charAt text (offset - 1) ≠ 58 then (false, [])
    else
      let hi := charAt text offset
      let lo := charAt text (offset + 1)
      if ¬ isHexDigit hi ∨ ¬ isHexDigit lo then (false, [])
      else
        let bytes := [hi, lo]
        let value := strtol16 bytes
        if value.2 = bytes ∨ value.2 ≠ [] ∨ value.1 < 0 ∨ value.1 > 255 then (false, [])
        else
          let r := parseMacLoop text n (i + 1)
          (r.1, UInt8.ofNat value.1.toNat :: r.2)

def parseMacAddress (text : Str) (outMac : Mac) : Bool × Mac :=
  if text.length ≠ 17 then (false, outMac)
  else
    let r := parseMacLoop text 6 0
    (r.1, overwrite r.2 outMac)

/-! ## Texts of a MAC

The texts that a MAC is written with, in either case, and what it means for the three parsers to
agree on a text. -/

/-- Six pairs of digits with a colon in between, and nothing else. -/
def IsMacText (text : Str) : Prop :=
  ∃ ps : List (UInt8 × UInt8), ps.length = 6 ∧ (∀ p ∈ ps, TwoDigits p) ∧ 58 :: text = colonPairs ps

/-- **The parsers agree on a text**: what `parseMacAddress` takes, the other two take for the same
MAC, and they take nothing else. -/
def MacParsersAgree (text : Str) : Prop :=
  ∀ out outMac : Mac,
    resultOf (macStringToBytes text out) = resultOf (parseMacAddress text outMac) ∧
    macStringToArray text = (resultOf (parseMacAddress text outMac)).getD Mac.zero

/-! ## `parseMacAddress` takes the texts of a MAC

Each turn of the loop takes one colon and one pair.  With a colon put in front of the text all turns
are alike, and the induction is over the turns that are left. -/

theorem isHexDigit_iff (c : UInt8) : isHexDigit c = true ↔ IsHexDigit c := by
  unfold isHexDigit IsHexDigit hexDigitValue
  simp only [Bool.or_eq_true, Bool.and_eq_true, decide_eq_true_eq, ge_iff_le]
  by_cases hdigit : 48 ≤ c ∧ c ≤ 57
  · simp [hdigit]
  · by_cases hlower : 97 ≤ c ∧ c ≤ 102
    · simp [hdigit, hlower]
    · by_cases hupper : 65 ≤ c ∧ c ≤ 70
      · simp [hdigit, hlower, hupper]
      · simp [hdigit, hlower, hupper]

theorem strtol16_of_twoDigits {p : UInt8 × UInt8} (h : TwoDigits p) :
    strtol16 [p.1, p.2] = ((pairNumber p : Int), []) := by
  have hnil : takeHexDigits [] = ([], []) := rfl
  obtain ⟨digits, hdigits, hne, hfold⟩ := takeHexDigits_of_twoDigits h hnil
  have hlt := pairNumber_lt h
  have hvalue : longValue false digits = pairNumber p := by
    unfold longValue
    rw [hfold]
    dsimp only
    rw [if_neg (fun h => Bool.noConfusion h)]
    omega
  unfold strtol16
  rw [takeSign_of_digit h.1]
  dsimp only
  rw [hdigits]
  cases digits with
  | nil => exact absurd rfl hne
  | cons d digits => exact congrArg (·, []) hvalue

@[simp] theorem length_colonPairs (ps : List (UInt8 × UInt8)) :
    (colonPairs ps).length = 3 * ps.length := by
  induction ps with
  | nil => rfl
  | cons p ps ih =>
    unfold colonPairs at ih ⊢
    rw [List.flatMap_cons, List.length_append, ih, List.length_cons, List.length_cons,
      List.length_cons, List.length_cons, List.length_nil]
    omega

theorem charAt_eq (text : Str) (i : Nat) : charAt text i = (58 :: text).getD (i + 1) 0 := rfl

/-- **One turn of the loop**: a colon, which the first turn does not look for, and two digits. -/
theorem parseMacLoop_succ {text : Str} {n i : Nat} {p : UInt8 × UInt8}
    (hcolon : (58 :: text).getD (i * 3) 0 = 58) (hi : charAt text (i * 3) = p.1)
    (hlo : charAt text (i * 3 + 1) = p.2) (h : TwoDigits p) :
    parseMacLoop text (n + 1) i
      = ((parseMacLoop text n (i + 1)).1, pairValue p :: (parseMacLoop text n (i + 1)).2) := by
  have hnotcolon : ¬ (i > 0 ∧ charAt text (i * 3 - 1) ≠ 58) := by
    rintro ⟨hpos, hne⟩
    apply hne
    rw [charAt_eq, Nat.sub_add_cancel (by omega), hcolon]
  have hdigits : ¬ (¬ isHexDigit p.1 = true ∨ ¬ isHexDigit p.2 = true) := by
    rw [isHexDigit_iff, isHexDigit_iff, not_or, not_not, not_not]
    exact h
  have hlt := pairNumber_lt h
  rw [parseMacLoop]
  dsimp only
  rw [if_neg hnotcolon, hi, hlo, if_neg hdigits, strtol16_of_twoDigits h, if_neg]
  · rfl
  · simp
    omega

/-- What a turn that goes on has seen. -/
theorem twoDigits_of_parseMacLoop {text : Str} {n i : Nat}
    (h : (parseMacLoop text (n + 1) i).1 = true) :
    (58 :: text).getD (i * 3) 0 = 58 ∧
      TwoDigits (charAt text (i * 3), charAt text (i * 3 + 1)) := by
  rw [parseMacLoop] at h
  dsimp only at h
  by_cases hcolon : i > 0 ∧ charAt text (i * 3 - 1) ≠ 58
  · rw [if_pos hcolon] at h
    cases h
  · rw [if_neg hcolon] at h
    by_cases hdigits : ¬ isHexDigit (charAt text (i * 3)) = true ∨
        ¬ isHexDigit (charAt text (i * 3 + 1)) = true
    · rw [if_pos hdigits] at h
      cases h
    · rw [not_or, not_not, not_not, isHexDigit_iff, isHexDigit_iff] at hdigits
      refine ⟨?_, hdigits⟩
      cases i with
      | zero => rfl
      | succ i =>
        by_contra hne
        apply hcolon
        rw [charAt_eq, Nat.sub_add_cancel (by omega)]
        exact ⟨by omega, hne⟩

/-- **The loop takes pairs of digits**, each behind a colon. -/
theorem parseMacLoop_of_colonPairs {text : Str} (ps seen : List (UInt8 × UInt8))
    (hps : ∀ p ∈ ps, TwoDigits p) (htext : 58 :: text = colonPairs (seen ++ ps)) :
    parseMacLoop text ps.length seen.length = (true, ps.map pairValue) := by
  induction ps generalizing seen with
  | nil => rfl
  | cons p ps ih =>
    obtain ⟨hp, hps⟩ := List.forall_mem_cons.mp hps
    have hget : ∀ k, (58 :: text).getD (seen.length * 3 + k) 0
        = (58 :: p.1 :: p.2 :: colonPairs ps).getD k 0 := by
      intro k
      have hlen : (colonPairs seen).length = seen.length * 3 := by
        rw [length_colonPairs, Nat.mul_comm]
      have hsplit : colonPairs (seen ++ p :: ps)
          = colonPairs seen ++ (58 :: p.1 :: p.2 :: colonPairs ps) := by
        unfold colonPairs
        rw [List.flatMap_append, List.flatMap_cons]
        rfl
      rw [htext, hsplit, List.getD_append_right _ _ _ _ (by omega), hlen, Nat.add_sub_cancel_left]
    have hrest := ih (seen ++ [p]) hps (by rw [htext, List.append_assoc]; rfl)
    rw [List.length_append, List.length_singleton] at hrest
    rw [List.length_cons, parseMacLoop_succ (hget 0) (hget 1) (hget 2) hp, hrest]
    rfl

/-- What is left of a text the loop takes is such pairs. -/
theorem colonPairs_of_parseMacLoop {text : Str} {n i : Nat}
    (h : (parseMacLoop text n i).1 = true) :
    ∃ ps : List (UInt8 × UInt8), ps.length = n ∧ (∀ p ∈ ps, TwoDigits p) ∧
      ((58 :: text).drop (i * 3)).take (n * 3) = colonPairs ps := by
  induction n generalizing i with
  | zero => exact ⟨[], rfl, List.forall_mem_nil _, by rw [Nat.zero_mul]; rfl⟩
  | succ n ih =>
    obtain ⟨hcolon, hdigits⟩ := twoDigits_of_parseMacLoop h
    rw [parseMacLoop_succ hcolon rfl rfl hdigits] at h
    obtain ⟨ps, hlen, hps, htake⟩ := ih h
    refine ⟨_ :: ps, congrArg (· + 1) hlen, List.forall_mem_cons.mpr ⟨hdigits, hps⟩, ?_⟩
    -- behind the end of the text there are no digits
    have hin : i * 3 + 1 < text.length := by
      by_contra hout
      have hlo := hdigits.2
      dsimp only [charAt] at hlo
      rw [List.getD_eq_default _ _ (by omega)] at hlo
      cases hlo
    have hdrop : (58 :: text).drop (i * 3) = 58 :: charAt text (i * 3) ::
        charAt text (i * 3 + 1) :: (58 :: text).drop ((i + 1) * 3) := by
      rw [List.drop_eq_getElem_cons (by rw [List.length_cons]; omega),
        List.drop_eq_getElem_cons (by rw [List.length_cons]; omega),
        List.drop_eq_getElem_cons (by rw [List.length_cons]; omega)]
      rw [List.getD_eq_getElem _ _ (by rw [List.length_cons]; omega)] at hcolon
      rw [hcolon, charAt_eq, charAt_eq, List.getD_eq_getElem _ _ (by rw [List.length_cons]; omega),
        List.getD_eq_getElem _ _ (by rw [List.length_cons]; omega)]
      congr 4
      omega
    rw [hdrop, Nat.succ_mul]
    show 58 :: _ :: _ :: List.take (n * 3) _ = _
    rw [htake]
    rfl

/-- **What `parseMacAddress` takes**, and for which MAC. -/
theorem parseMacAddress_of_colonPairs {text : Str} {ps : List (UInt8 × UInt8)}
    (hlen : ps.length = 6) (hps : ∀ p ∈ ps, TwoDigits p) (htext : 58 :: text = colonPairs ps)
    (outMac : Mac) :
    resultOf (parseMacAddress text outMac) = some ⟨ps.map pairValue, by simpa using hlen⟩ := by
  have hloop := parseMacLoop_of_colonPairs ps [] hps htext
  rw [hlen, List.length_nil] at hloop
  have hlength : text.length = 17 := by
    have := congrArg List.length htext
    rw [List.length_cons, length_colonPairs, hlen] at this
    omega
  unfold parseMacAddress
  rw [if_neg (not_not.mpr hlength), hloop]
  refine congrArg some (List.Vector.toList_injective ?_)
  show (ps.map pairValue ++ _).take 6 = ps.map pairValue
  exact List.take_left' (by rw [List.length_map, hlen])

theorem isMacText_of_parseMacAddress {text : Str} {outMac : Mac}
    (h : (parseMacAddress text outMac).1 = true) : IsMacText text := by
  unfold parseMacAddress at h
  by_cases hlength : text.length = 17
  · rw [if_neg (not_not.mpr hlength)] at h
    obtain ⟨ps, hlen, hps, htake⟩ := colonPairs_of_parseMacLoop h
    refine ⟨ps, hlen, hps, ?_⟩
    rw [← htake, Nat.zero_mul, List.drop_zero,
      List.take_of_length_le (by rw [List.length_cons]; omega)]
  · rw [if_pos hlength] at h
    cases h

/-! ## The parsers that use `sscanf`

Both ask for six fields and read nothing behind the last.  They differ in how wide a field may be.
-/

theorem exists_of_length_five {values : List Nat} (h : values.length = 5) :
    ∃ b1 b2 b3 b4 b5, values = [b1, b2, b3, b4, b5] := by
  rcases values with _ | ⟨b1, _ | ⟨b2, _ | ⟨b3, _ | ⟨b4, _ | ⟨b5, _ | ⟨b6, values⟩⟩⟩⟩⟩⟩
  all_goals simp only [List.length_nil, List.length_cons] at h
  all_goals first | omega | exact ⟨b1, b2, b3, b4, b5, rfl⟩

/-- **`macStringToBytes`** takes a text with six fields of `%02X`. -/
theorem resultOf_macStringToBytes_eq {text : Str} (h0 : 0 ∉ text) (out : Mac) :
    (resultOf (macStringToBytes text out)).map List.Vector.toList
      = (scanColons scanHexByte 6 (58 :: text)).map (·.map UInt8.ofNat) := by
  unfold macStringToBytes
  rw [cstr_of_zero_notMem h0, scanColons]
  cases hscan : scanHexByte text with
  | none => rfl
  | some r =>
    obtain ⟨b0, s⟩ := r
    dsimp only
    rw [scanColonHexByte_eq]
    cases hvalues : scanColons scanHexByte 5 s with
    | none => rfl
    | some values =>
      obtain ⟨b1, b2, b3, b4, b5, rfl⟩ := exists_of_length_five (length_scanColons hvalues)
      rfl

/-- **`macStringToArray`** takes a text with six fields of `%x`. -/
theorem macStringToArray_eq {text : Str} (h0 : 0 ∉ text) :
    (macStringToArray text).toList
      = ((scanColons scanHex 6 (58 :: text)).map (·.map UInt8.ofNat)).getD Mac.zero.toList := by
  unfold macStringToArray
  rw [cstr_of_zero_notMem h0, scanColons]
  cases hscan : scanHex text with
  | none => rfl
  | some r =>
    obtain ⟨value0, s⟩ := r
    dsimp only
    rw [scanColonHex_eq]
    cases hvalues : scanColons scanHex 5 s with
    | none => rfl
    | some values =>
      obtain ⟨value1, value2, value3, value4, value5, rfl⟩ :=
        exists_of_length_five (length_scanColons hvalues)
      rfl

/-! ## Agreement

On the texts of a MAC all three read the same.  On any other text the first refuses, so they agree
exactly if the others find no MAC in it either. -/

/-- **The parsers agree on the texts of a MAC.** -/
theorem macParsersAgree_of_isMacText {text : Str} (h0 : 0 ∉ text) (h : IsMacText text) :
    MacParsersAgree text := by
  obtain ⟨ps, hlen, hps, htext⟩ := h
  have hnarrow := scanColons_colonPairs scanHexByte_of_twoDigits hps
  have hwide := scanColons_colonPairs scanHex_of_twoDigits hps
  rw [hlen, ← htext] at hnarrow hwide
  have hmap : (ps.map pairNumber).map UInt8.ofNat = ps.map pairValue := List.map_map ..
  intro out outMac
  rw [parseMacAddress_of_colonPairs hlen hps htext]
  constructor
  · apply Option.map_injective List.Vector.toList_injective
    rw [resultOf_macStringToBytes_eq h0, hnarrow, Option.map_some]
    exact congrArg some hmap
  · apply List.Vector.toList_injective
    rw [macStringToArray_eq h0, hwide, Option.map_some]
    exact hmap

theorem macStringToBytes_fst {text : Str} (h0 : 0 ∉ text) (out : Mac) :
    (resultOf (macStringToBytes text out)).isSome = true ↔ MacFields NarrowField text := by
  have hfield : ∀ s rest, NarrowField s rest ↔
      ∃ value, scanHexByte s = some (value, rest) ∧ True := by
    intro s rest
    rw [narrowField_iff]
    simp only [and_true]
  have hfields := colonFields_iff hfield (n := 6) (s := 58 :: text)
  have hresult := congrArg Option.isSome (resultOf_macStringToBytes_eq h0 out)
  rw [Option.isSome_map, Option.isSome_map] at hresult
  unfold MacFields
  rw [hfields, hresult, Option.isSome_iff_exists]
  simp

/-- **The MAC `macStringToArray` finds is the zero MAC** exactly if it finds no fields, or numbers
that end in a zero byte. -/
theorem macStringToArray_eq_zero_iff {text : Str} (h0 : 0 ∉ text) :
    macStringToArray text = Mac.zero ↔
      (MacFields (HexField fun _ => True) text → MacFields (HexField ZeroByte) text) := by
  have hfield : ∀ s rest, HexField (fun _ => True) s rest ↔
      ∃ value, scanHex s = some (value, rest) ∧ True :=
    fun s rest => hexField_iff fun _ _ => Iff.rfl
  have hzero : ∀ s rest, HexField ZeroByte s rest ↔
      ∃ value, scanHex s = some (value, rest) ∧ value % 256 = 0 :=
    fun s rest => hexField_iff hexValue_mod_iff
  unfold MacFields
  rw [colonFields_iff hfield, colonFields_iff hzero, ← List.Vector.toList_injective.eq_iff,
    macStringToArray_eq h0]
  cases hvalues : scanColons scanHex 6 (58 :: text) with
  | none =>
    refine iff_of_true rfl fun h => ?_
    obtain ⟨values, h, -⟩ := h
    cases h
  | some values =>
    have hlen := length_scanColons hvalues
    -- a value is cut to a byte, so a zero byte may come from a larger number
    have hbyte : ∀ v : Nat, UInt8.ofNat v = 0 ↔ v % 256 = 0 := by
      intro v
      rw [← UInt8.toNat_inj, UInt8.toNat_ofNat']
      rfl
    show values.map UInt8.ofNat = List.replicate 6 0 ↔ _
    rw [List.eq_replicate_iff, List.length_map, and_iff_right hlen, List.forall_mem_map]
    constructor
    · exact fun hall _ => ⟨values, rfl, fun v hv => (hbyte v).mp (hall v hv)⟩
    · intro h v hv
      obtain ⟨values', hvalues', hall⟩ := h ⟨values, rfl, fun _ _ => trivial⟩
      obtain rfl := Option.some.inj hvalues'
      exact (hbyte v).mpr (hall v hv)

/-- **The parsers of MACs agree** on a text exactly if it is the text of a MAC, or `sscanf` finds no
six fields in it either: none of two characters, and none with another MAC than zero. -/
theorem mac_parsers_agree_iff (text : Str) (h0 : 0 ∉ text) :
    MacParsersAgree text ↔ IsMacText text ∨ (¬ MacFields NarrowField text ∧
      (MacFields (HexField fun _ => True) text → MacFields (HexField ZeroByte) text)) := by
  by_cases hmac : IsMacText text
  · exact iff_of_true (macParsersAgree_of_isMacText h0 hmac) (Or.inl hmac)
  · -- `parseMacAddress` refuses the text, and so must the other two
    have hrefused : ∀ outMac, resultOf (parseMacAddress text outMac) = none := by
      intro outMac
      rw [← Option.not_isSome_iff_eq_none, resultOf_isSome]
      exact mt isMacText_of_parseMacAddress hmac
    rw [or_iff_right hmac, ← macStringToBytes_fst h0 Mac.zero, ← macStringToArray_eq_zero_iff h0,
      Option.not_isSome_iff_eq_none]
    constructor
    · intro h
      obtain ⟨hbytes, harray⟩ := h Mac.zero Mac.zero
      rw [hrefused] at hbytes harray
      exact ⟨hbytes, harray⟩
    · rintro ⟨hbytes, harray⟩ out outMac
      rw [hrefused, resultOf_macStringToBytes, ← resultOf_macStringToBytes text Mac.zero]
      exact ⟨hbytes, harray⟩

theorem mac_parsers_agree_iff_written :
    (0 : UInt8) ∉ ascii ['C', 'C', ':', '7', 'B', ':', '5', 'C', ':', '9', 'A', ':', 'F', '3', ':',
      'C', '4'] ∧
    MacParsersAgree (ascii ['C', 'C', ':', '7', 'B', ':', '5', 'C', ':', '9', 'A', ':', 'F', '3',
      ':', 'C', '4']) :=
  ⟨by decide, (mac_parsers_agree_iff _ (by decide)).mpr (Or.inl
    ⟨[(67, 67), (55, 66), (53, 67), (57, 65), (70, 51), (67, 52)], rfl,
      by simp only [List.forall_mem_cons, List.not_mem_nil, false_imp_iff, implies_true]; decide,
      by decide⟩)⟩

/-- Single digits are refused on the command line only. -/
theorem not_mac_parsers_agree : ¬ ∀ text : Str, 0 ∉ text → MacParsersAgree text := by
  intro h
  have hbad := (h (ascii ['1', ':', '2', ':', '3', ':', '4', ':', '5', ':', '6']) (by decide)
    Mac.zero Mac.zero).1
  exact absurd (congrArg Option.isSome hbad) (by decide)

end Icsn
