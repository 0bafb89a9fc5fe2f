import Icsn.Basic

/-!
# Icsn — JSON documents

What the configuration loader sees of a parsed document.  Parsing is outside; the access operators
are those of ArduinoJson 6: a look-up that fails gives `null`, `|` with a default takes the value
only if it has the default's type, and `|` of two values takes the first that converts to `true`.
-/

namespace Icsn

/-- A JSON value.  Of a floating-point number the code learns only whether it is zero. -/
inductive Json where
  | null
  | bool (b : Bool)
  | int (n : Int)
  | float (nonzero : Bool)
  | string (s : Str)
  | array (elements : List Json)
  | object (members : List (Str × Json))

namespace Json

/-- The value of a member, if the object has it. -/
def member? (key : Str) : Json → Option Json
  | object members => members.lookup key
  | _ => none

/-- `value[key]`. -/
def get (value : Json) (key : Str) : Json := (value.member? key).getD null

/-- `value.containsKey(key)`: a member that is `null` counts. -/
def containsKey (value : Json) (key : Str) : Bool := (value.member? key).isSome

/-- The elements that a loop over `value.as<JsonArrayConst>()` visits. -/
def elements : Json → List Json
  | array elements => elements
  | _ => []

/-- The conversion to `bool`. -/
def toBool : Json → Bool
  | null => false
  | bool b => b
  | int n => n ≠ 0
  | float nonzero => nonzero
  | _ => true

/-- `value | other` for two values. -/
def orElse (value other : Json) : Json := if value.toBool then value else other

/-- `value | ""`: the C string that the code gets to see. -/
def orEmpty : Json → Str
  | string s => cstr s
  | _ => []

/-- `value | false`. -/
def orFalse : Json → Bool
  | bool b => b
  | _ => false

/-- `value | n`, for an `int` of 32 bits. -/
def orInt (value : Json) (n : Int) : Int :=
  match value with
  | int k => if -2 ^ 31 ≤ k ∧ k < 2 ^ 31 then k else n
  | _ => n

end Json

end Icsn
