import Icsn.Controller.MacText

/-!
# Icsn — keys and MACs in the configuration

`hexStringToBytes` and `macStringToBytes` of `Config.cpp`.  Both write into an array they are given,
and both may fail; the first may have written some bytes by then, the second none.  `strtoul` and
`sscanf` are as the C standard has them, with an `unsigned long` of 32 bits.

* **`parseHexString`** / **`parseMac`** — what a text stands for.  A text that parses leaves nothing
  of the array it is written to (`resultOf_hexStringToBytes`, `resultOf_macStringToBytes`).
-/

namespace Icsn

/-- `strtoul(s, &end, 16)`: the value, and the string from `end` on. -/
def strtoul16 (s : Str) : Nat × Str :=
  let sign := takeSign (s.dropWhile isSpace)
  match takeHexDigits (dropHexPrefix sign.2) with
  | ([], _) =>
    -- a prefix without digits behind it is the digit zero and an `x`
    match takeHexDigits sign.2 with
    | ([], _) => (0, s)
    | (digits, s) => (hexValue sign.1 digits, s)
  | (digits, s) => (hexValue sign.1 digits, s)

/-- One turn of the loop of `hexStringToBytes`: the byte for two characters. -/
def hexPairToByte (byteStr : Str) : Option UInt8 :=
  let val := strtoul16 byteStr
  if val.2 ≠ [] ∨ val.1 > 255 then none else some (UInt8.ofNat val.1)

/-- The loop of `hexStringToBytes`: whether it gets to the end, and the bytes it writes. -/
def hexStringLoop : Nat → Str → Bool × List UInt8
  | outLen + 1, c :: d :: hexStr =>
    match hexPairToByte [c, d] with
    | none => (false, [])
    | some val =>
      let r := hexStringLoop outLen hexStr
      (r.1, val :: r.2)
  | _, _ => (true, [])

/-- The array after `bytes` are written to its start. -/
def overwrite {n : Nat} (bytes : List UInt8) (out : CharArray n) : CharArray n :=
  ⟨(bytes ++ out.toList.drop bytes.length).take n, by
    rw [List.length_take, List.length_append, List.length_drop, List.Vector.toList_length]; omega⟩

def hexStringToBytes {outLen : Nat} (hexStr : Str) (out : CharArray outLen) :
    Bool × CharArray outLen :=
  if (cstr hexStr).length ≠ outLen * 2 then (false, out)
  else
    let r := hexStringLoop outLen (cstr hexStr)
    (r.1, overwrite r.2 out)

/-- The conversion `%02X`: at most two characters behind the blanks. -/
def scanHexByte (s : Str) : Option (Nat × Str) :=
  let s := s.dropWhile isSpace
  match scanHex (s.take 2) with
  | none => none
  | some (value, rest) => some (value, rest ++ s.drop 2)

/-- `n` times `:%02X`. -/
def scanColonHexByte : Nat → Str → Option (List Nat)
  | 0, _ => some []
  | n + 1, 58 :: s =>
    match scanHexByte s with
    | some (value, s) => (scanColonHexByte n s).map (value :: ·)
    | none => none
  | _ + 1, _ => none

def macStringToBytes (macStr : Str) (out : Mac) : Bool × Mac :=
  match scanHexByte (cstr macStr) with
  | none => (false, out)
  | some (b0, s) =>
    match scanColonHexByte 5 s with
    | some [b1, b2, b3, b4, b5] =>
      (true, ⟨[b0, b1, b2, b3, b4, b5].map UInt8.ofNat, length_macBytes b0 b1 b2 b3 b4 b5⟩)
    | _ => (false, out)

/-! ## What a text stands for

The arrays may hold something before.  A call that succeeds has written all of its array, so what it
wrote depends on the text alone. -/

section ResultOf

variable {α : Type*} {r : Bool × α} {a : α}

/-- What a call wrote, if it reports success. -/
def resultOf (r : Bool × α) : Option α := if r.1 then some r.2 else none

theorem resultOf_isSome (r : Bool × α) : (resultOf r).isSome = r.1 := by
  obtain ⟨ok, a⟩ := r
  cases ok <;> rfl

/-- Calls that write the same when they succeed have the same result. -/
theorem resultOf_congr {ok : Bool} {a a' : α} (h : ok = true → a = a') :
    resultOf (ok, a) = resultOf (ok, a') := by
  cases ok with
  | false => rfl
  | true => exact congrArg some (h rfl)

end ResultOf

/-- The bytes that a text stands for, if it parses. -/
def parseHexString (outLen : Nat) (hexStr : Str) : Option (CharArray outLen) :=
  resultOf (hexStringToBytes hexStr (List.Vector.replicate outLen 0))

/-- The MAC that a text stands for, if it parses. -/
def parseMac (macStr : Str) : Option Mac := resultOf (macStringToBytes macStr Mac.zero)

/-- A loop that gets to the end has written a byte for every two characters. -/
theorem length_hexStringLoop {outLen : Nat} {hexStr : Str} (hlen : hexStr.length = outLen * 2)
    (hdone : (hexStringLoop outLen hexStr).1 = true) :
    (hexStringLoop outLen hexStr).2.length = outLen := by
  induction outLen generalizing hexStr with
  | zero => rfl
  | succ outLen ih =>
    match hexStr, hlen with
    | [], hlen => rw [List.length_nil] at hlen; omega
    | [_], hlen => rw [List.length_singleton] at hlen; omega
    | c :: d :: hexStr, hlen =>
      rw [List.length_cons, List.length_cons] at hlen
      unfold hexStringLoop at hdone ⊢
      cases hpair : hexPairToByte [c, d] with
      | none =>
        rw [hpair] at hdone
        cases hdone
      | some val =>
        rw [hpair] at hdone
        exact congrArg (· + 1) (ih (by omega) hdone)

/-- Nothing is left of an array that is written in full. -/
theorem overwrite_eq {n : Nat} {bytes : List UInt8} (h : bytes.length = n)
    (out out' : CharArray n) : overwrite bytes out = overwrite bytes out' := by
  apply List.Vector.toList_injective
  show (bytes ++ out.toList.drop bytes.length).take n
    = (bytes ++ out'.toList.drop bytes.length).take n
  rw [List.take_left' h, List.take_left' h]

/-- **`hexStringToBytes`** writes what the text stands for, whatever the array held. -/
theorem resultOf_hexStringToBytes {outLen : Nat} (hexStr : Str) (out : CharArray outLen) :
    resultOf (hexStringToBytes hexStr out) = parseHexString outLen hexStr := by
  unfold parseHexString hexStringToBytes
  by_cases hlen : (cstr hexStr).length ≠ outLen * 2
  · rw [if_pos hlen, if_pos hlen]
    rfl
  · rw [if_neg hlen, if_neg hlen]
    apply resultOf_congr
    exact fun hdone => overwrite_eq (length_hexStringLoop (not_not.mp hlen) hdone) out _

/-- **`macStringToBytes`** writes what the text stands for. -/
theorem resultOf_macStringToBytes (macStr : Str) (out : Mac) :
    resultOf (macStringToBytes macStr out) = parseMac macStr := by
  unfold parseMac macStringToBytes
  split
  · rfl
  · split <;> rfl

end Icsn
