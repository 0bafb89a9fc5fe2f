import Icsn.Basic

/-!
# Icsn — MAC addresses as text

`addressToString` writes a MAC the way the tables keep it; `macStringToArray` reads one with
`sscanf("%x:%x:%x:%x:%x:%x")`.  `scanHex` is what the C standard says of `%x`; for a number that
does not fit, where the standard says nothing, it is the largest value, as in the C library of the
boards.

* **`macStringToArray_addressToString`** — reading undoes writing.
-/

namespace Icsn

/-! ## Writing

Two digits a byte and colons between the bytes.  The separator is written in front of each byte but
the first, as the loop of the source does. -/

/-- A hexadecimal digit, in lower case. -/
def hexDigit (n : Nat) : UInt8 := if n < 10 then UInt8.ofNat (48 + n) else UInt8.ofNat (87 + n)

/-- A byte as `std::hex` with width 2 and fill `'0'` writes it. -/
def hexByte (b : UInt8) : Str := [hexDigit (b.toNat / 16), hexDigit (b.toNat % 16)]

/-- The bytes of a MAC, each behind its separator. -/
def hexBytesFrom : List UInt8 → Str
  | [] => []
  | b :: bs => 58 :: (hexByte b ++ hexBytesFrom bs)

/-- `addressToString`; only the first byte has no separator in front. -/
def addressToString (address : Mac) : Str := (hexBytesFrom address.toList).tail

/-! ## Reading

`sscanf` stops at the first conversion that fails, and the array is filled only after six of them.
A conversion takes as many digits as there are, with blanks and a sign in front; the value is cut to
a byte. -/

/-- `isspace` of the C locale. -/
def isSpace (c : UInt8) : Bool := c == 32 || (9 ≤ c && c ≤ 13)

/-- The value of a hexadecimal digit. -/
def hexDigitValue (c : UInt8) : Option Nat :=
  if 48 ≤ c ∧ c ≤ 57 then some (c.toNat - 48)
  else if 97 ≤ c ∧ c ≤ 102 then some (c.toNat - 87)
  else if 65 ≤ c ∧ c ≤ 70 then some (c.toNat - 55)
  else none

/-- The digits at the start of a string, and what follows them. -/
def takeHexDigits : Str → List Nat × Str
  | [] => ([], [])
  | c :: s =>
    match hexDigitValue c with
    | some d => (d :: (takeHexDigits s).1, (takeHexDigits s).2)
    | none => ([], c :: s)

/-- The sign at the start of a string: whether it is a minus, and what follows it. -/
def takeSign : Str → Bool × Str
  | 45 :: s => (true, s)
  | 43 :: s => (false, s)
  | s => (false, s)

/-- What follows the prefix `0x` of a string, if it has that prefix. -/
def dropHexPrefix : Str → Str
  | 48 :: 120 :: s => s
  | 48 :: 88 :: s => s
  | s => s

/-- The `unsigned int` that `%x` makes of a sign and digits. -/
def hexValue (negative : Bool) (digits : List Nat) : Nat :=
  let value := digits.foldl (fun acc d => 16 * acc + d) 0
  if 2 ^ 32 ≤ value then 2 ^ 32 - 1
  else if negative then (2 ^ 32 - value) % 2 ^ 32
  else value

/-- The conversion `%x`: blanks, a sign, a prefix, and at least one digit. -/
def scanHex (s : Str) : Option (Nat × Str) :=
  let sign := takeSign (s.dropWhile isSpace)
  match takeHexDigits (dropHexPrefix sign.2) with
  | ([], _) => none
  | (digits, s) => some (hexValue sign.1 digits, s)

/-- `n` times `:%x`. -/
def scanColonHex : Nat → Str → Option (List Nat)
  | 0, _ => some []
  | n + 1, 58 :: s =>
    match scanHex s with
    | some (value, s) => (scanColonHex n s).map (value :: ·)
    | none => none
  | _ + 1, _ => none

theorem length_macBytes (b0 b1 b2 b3 b4 b5 : Nat) :
    ([b0, b1, b2, b3, b4, b5].map UInt8.ofNat).length = 6 := rfl

def macStringToArray (macStr : Str) : Mac :=
  match scanHex (cstr macStr) with
  | none => Mac.zero
  | some (value0, s) =>
    match scanColonHex 5 s with
    | some [value1, value2, value3, value4, value5] =>
      ⟨[value0, value1, value2, value3, value4, value5].map UInt8.ofNat,
        length_macBytes value0 value1 value2 value3 value4 value5⟩
    | _ => Mac.zero

/-! ## Reading undoes writing

A written byte is two digits and ends at a colon or at the end of the text, so that each conversion
takes exactly it.  The induction is over the bytes that are left. -/

theorem hexDigitValue_hexDigit {n : Nat} (h : n < 16) : hexDigitValue (hexDigit n) = some n := by
  have hall : ∀ n : Fin 16, hexDigitValue (hexDigit n) = some n.val := by decide
  exact hall ⟨n, h⟩

/-- A digit is none of the characters that `%x` looks for in front of the digits. -/
theorem hexDigit_plain {n : Nat} (h : n < 16) :
    isSpace (hexDigit n) = false ∧ hexDigit n ≠ 45 ∧ hexDigit n ≠ 43 ∧
      hexDigit n ≠ 120 ∧ hexDigit n ≠ 88 ∧ hexDigit n ≠ 0 := by
  have hall : ∀ n : Fin 16, isSpace (hexDigit n) = false ∧ hexDigit n ≠ 45 ∧ hexDigit n ≠ 43 ∧
      hexDigit n ≠ 120 ∧ hexDigit n ≠ 88 ∧ hexDigit n ≠ 0 := by decide
  exact hall ⟨n, h⟩

theorem takeSign_of_ne {c : UInt8} (hminus : c ≠ 45) (hplus : c ≠ 43) (s : Str) :
    takeSign (c :: s) = (false, c :: s) := by
  unfold takeSign
  split
  · next h => exact absurd (List.cons.inj h).1 hminus
  · next h => exact absurd (List.cons.inj h).1 hplus
  · rfl

theorem dropHexPrefix_of_ne {d : UInt8} (hx : d ≠ 120) (hX : d ≠ 88) (c : UInt8) (s : Str) :
    dropHexPrefix (c :: d :: s) = c :: d :: s := by
  unfold dropHexPrefix
  split
  · next h => exact absurd (List.cons.inj (List.cons.inj h).2).1 hx
  · next h => exact absurd (List.cons.inj (List.cons.inj h).2).1 hX
  · rfl

theorem div_lt_sixteen (b : UInt8) : b.toNat / 16 < 16 := by
  have := b.toNat_lt
  omega

theorem takeHexDigits_hexByte (b : UInt8) (bs : List UInt8) :
    takeHexDigits (hexByte b ++ hexBytesFrom bs)
      = ([b.toNat / 16, b.toNat % 16], hexBytesFrom bs) := by
  have hrest : takeHexDigits (hexBytesFrom bs) = ([], hexBytesFrom bs) := by
    cases bs with
    | nil => rfl
    | cons b bs => rfl
  have hlow : b.toNat % 16 < 16 := Nat.mod_lt _ (by decide)
  simp only [hexByte, List.cons_append, List.nil_append, takeHexDigits,
    hexDigitValue_hexDigit (div_lt_sixteen b), hexDigitValue_hexDigit hlow, hrest]

/-- `%x` reads a written byte. -/
theorem scanHex_hexByte (b : UInt8) (bs : List UInt8) :
    scanHex (hexByte b ++ hexBytesFrom bs) = some (b.toNat, hexBytesFrom bs) := by
  obtain ⟨hspace, hminus, hplus, -⟩ := hexDigit_plain (div_lt_sixteen b)
  obtain ⟨-, -, -, hx, hX, -⟩ := hexDigit_plain (Nat.mod_lt b.toNat (by decide : 0 < 16))
  have hdrop : (hexByte b ++ hexBytesFrom bs).dropWhile isSpace = hexByte b ++ hexBytesFrom bs := by
    rw [hexByte, List.cons_append, List.dropWhile_cons, hspace]
    rfl
  have hsign : takeSign (hexByte b ++ hexBytesFrom bs) = (false, hexByte b ++ hexBytesFrom bs) :=
    takeSign_of_ne hminus hplus _
  have hprefix : dropHexPrefix (hexByte b ++ hexBytesFrom bs) = hexByte b ++ hexBytesFrom bs :=
    dropHexPrefix_of_ne hx hX _ _
  have hvalue : hexValue false [b.toNat / 16, b.toNat % 16] = b.toNat := by
    have hlt := b.toNat_lt
    have hsum : 16 * (16 * 0 + b.toNat / 16) + b.toNat % 16 = b.toNat := by omega
    unfold hexValue
    rw [List.foldl_cons, List.foldl_cons, List.foldl_nil, hsum, if_neg (by omega)]
    rfl
  unfold scanHex
  dsimp only
  rw [hdrop, hsign, hprefix, takeHexDigits_hexByte]
  dsimp only
  rw [hvalue]

theorem scanColonHex_hexBytesFrom (bs : List UInt8) :
    scanColonHex bs.length (hexBytesFrom bs) = some (bs.map UInt8.toNat) := by
  induction bs with
  | nil => rfl
  | cons b bs ih =>
    show (match scanHex (hexByte b ++ hexBytesFrom bs) with
      | some (value, s) => (scanColonHex bs.length s).map (value :: ·)
      | none => none) = _
    rw [scanHex_hexByte]
    dsimp only
    rw [ih]
    rfl

theorem zero_notMem_hexByte (b : UInt8) : (0 : UInt8) ∉ hexByte b := by
  obtain ⟨-, -, -, -, -, hhigh⟩ := hexDigit_plain (div_lt_sixteen b)
  obtain ⟨-, -, -, -, -, hlow⟩ := hexDigit_plain (Nat.mod_lt b.toNat (by decide : 0 < 16))
  simp [hexByte, hhigh.symm, hlow.symm]

theorem zero_notMem_hexBytesFrom (bs : List UInt8) : (0 : UInt8) ∉ hexBytesFrom bs := by
  induction bs with
  | nil => exact List.not_mem_nil
  | cons b bs ih =>
    simp only [hexBytesFrom, List.mem_cons, List.mem_append, not_or]
    exact ⟨by decide, zero_notMem_hexByte b, ih⟩

/-- **Reading undoes writing**, for every MAC. -/
theorem macStringToArray_addressToString (mac : Mac) :
    macStringToArray (addressToString mac) = mac := by
  obtain ⟨l, hl⟩ := mac
  match l, hl with
  | [b0, b1, b2, b3, b4, b5], hl =>
    have htext : addressToString ⟨[b0, b1, b2, b3, b4, b5], hl⟩
        = hexByte b0 ++ hexBytesFrom [b1, b2, b3, b4, b5] := rfl
    have hzero : (0 : UInt8) ∉ hexByte b0 ++ hexBytesFrom [b1, b2, b3, b4, b5] := by
      rw [List.mem_append, not_or]
      exact ⟨zero_notMem_hexByte b0, zero_notMem_hexBytesFrom _⟩
    have hcolons := scanColonHex_hexBytesFrom [b1, b2, b3, b4, b5]
    rw [List.length_cons, List.length_cons, List.length_cons, List.length_cons,
      List.length_singleton] at hcolons
    unfold macStringToArray
    rw [htext, cstr_of_zero_notMem hzero, scanHex_hexByte]
    dsimp only
    rw [hcolons]
    apply List.Vector.toList_injective
    show [_, _, _, _, _, _] = [b0, b1, b2, b3, b4, b5]
    simp only [UInt8.ofNat_toNat]

theorem addressToString_injective : Function.Injective addressToString :=
  Function.LeftInverse.injective macStringToArray_addressToString

/-- The text of a MAC is 17 characters long. -/
theorem length_addressToString (mac : Mac) : (addressToString mac).length = 17 := by
  obtain ⟨l, hl⟩ := mac
  match l, hl with
  | [b0, b1, b2, b3, b4, b5], hl => rfl

theorem zero_notMem_addressToString (mac : Mac) : (0 : UInt8) ∉ addressToString mac := fun h =>
  zero_notMem_hexBytesFrom mac.toList (List.mem_of_mem_tail h)

end Icsn
