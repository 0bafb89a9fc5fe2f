import Icsn.Lib.OrderedSet
import Mathlib.Algebra.GroupWithZero.Nat
import Mathlib.Data.Vector.Basic
import Mathlib.Data.List.Lex
import Mathlib.Data.List.TakeWhile

/-!
# Icsn — bytes, C strings, build capacities and the system configuration

The data every layer of the node shares:

* `Str` — a `std::string`, any sequence of bytes; `CharArray n` — a `char[n]`; `cstr` / `strncpy`
  — how the code reads one as the other.
* `StdSet` — a `std::set<std::string>`, iterated in the byte order of its members.
* `Mac` / `Key` — the fixed-size byte arrays of peers and keys.
* `BuildCapacity` — the capacities the profile script writes into `BuildCapacity.hpp`.  The script
  rejects a capacity that is not positive, so that every capacity is positive is a field.
* `SystemConfig` — the run-time configuration read by every layer.
-/

instance UInt8.instByteOrder : LinearOrder UInt8 where
  le_refl := UInt8.le_refl
  le_trans _ _ _ := UInt8.le_trans
  lt_iff_le_not_ge a b := by simp only [UInt8.lt_iff_toNat_lt, UInt8.le_iff_toNat_le]; omega
  le_antisymm _ _ := UInt8.le_antisymm
  le_total := UInt8.le_total
  toDecidableLE := inferInstance
  toDecidableLT := inferInstance
  toDecidableEq := inferInstance

namespace Icsn

/-! ## Strings

Bytes throughout: a `std::string` may hold a NUL, a C string ends at its first one, and `strncpy`
fills up what is left of an array with zeroes. -/

/-- A `std::string`: any bytes, the zero byte included. -/
abbrev Str := List UInt8

instance Str.instLawfulBEq : LawfulBEq Str := inferInstance

/-- The bytes of an ASCII literal. -/
def ascii (cs : List Char) : Str := cs.map Char.toUInt8

/-- The C string at the start of a character buffer: the bytes before the first NUL. -/
def cstr (s : Str) : Str := s.takeWhile (· ≠ 0)

/-- A `char[n]` (or `uint8_t[n]`). -/
abbrev CharArray (n : Nat) := List.Vector UInt8 n

/-- The array `dst` after `strncpy(dst, src, n)`: the bytes of the C string `src`, at most `n` of
them, and then zeroes up to the end of the array. -/
def strncpy (m : Nat) (src : Str) (n : Nat) : CharArray m :=
  ⟨((cstr src).take n ++ List.replicate m 0).take m, by simp⟩

/-- A `std::set<std::string>`. -/
abbrev StdSet := OrderedSet Str

theorem zero_notMem_cstr (s : Str) : (0 : UInt8) ∉ cstr s := by
  intro h
  have := List.mem_takeWhile_imp h
  simp at this

/-- A string without NUL is its own C string. -/
theorem cstr_of_zero_notMem {s : Str} (h : (0 : UInt8) ∉ s) : cstr s = s := by
  apply List.takeWhile_eq_self_iff.mpr
  intro c hc
  simp only [ne_eq, decide_not, Bool.not_eq_eq_eq_not, Bool.not_true, decide_eq_false_iff_not]
  rintro rfl
  exact h hc

theorem length_cstr_le (s : Str) : (cstr s).length ≤ s.length :=
  (List.takeWhile_sublist _).length_le

/-! ## Fixed-size byte arrays

Vectors, so that the length is part of the type as it is in the source. -/

/-- A MAC address. -/
abbrev Mac := List.Vector UInt8 6

/-- A 16-byte key: a PMK, an LMK or an HMAC key. -/
abbrev Key := List.Vector UInt8 16

/-- `memset(key, 0, 16)`. -/
def Key.zero : Key := List.Vector.replicate 16 0

/-- `std::array<uint8_t, 6>{}`. -/
def Mac.zero : Mac := List.Vector.replicate 6 0

/-! ## Build capacities

They are chosen for each node before the build, so the model is over all of them.  That each is
positive is a field, as the generator of the build checks it. -/

/-- The constants of `namespace BuildCapacity`. -/
structure BuildCapacity where
  fibEntries : Nat
  pitEntries : Nat
  csEntries : Nat
  ribEntries : Nat
  fibNextHopsPerEntry : Nat
  pitRequestersPerEntry : Nat
  nodeIdMaxChars : Nat
  ribNextHopsPerNode : Nat
  fibEntries_pos : 0 < fibEntries
  pitEntries_pos : 0 < pitEntries
  csEntries_pos : 0 < csEntries
  ribEntries_pos : 0 < ribEntries
  fibNextHopsPerEntry_pos : 0 < fibNextHopsPerEntry
  pitRequestersPerEntry_pos : 0 < pitRequestersPerEntry
  nodeIdMaxChars_pos : 0 < nodeIdMaxChars
  ribNextHopsPerNode_pos : 0 < ribNextHopsPerNode

namespace BuildCapacity

/-- The profile with `n` for every capacity. -/
def uniform (n : Nat) (h : 0 < n) : BuildCapacity :=
  ⟨n, n, n, n, n, n, n, n, h, h, h, h, h, h, h, h⟩

variable (caps : BuildCapacity)

instance : NeZero caps.fibEntries := ⟨caps.fibEntries_pos.ne'⟩
instance : NeZero caps.pitEntries := ⟨caps.pitEntries_pos.ne'⟩
instance : NeZero caps.csEntries := ⟨caps.csEntries_pos.ne'⟩

end BuildCapacity

/-! ## System configuration

The settings as they are loaded: arrays with a count of the entries in use, and a flag for each key
that may be missing. -/

def maxPeerKeyEntries : Nat := 20

def maxFibInitEntries : Nat := 10

/-- A key configured for one peer. -/
structure PeerKeyConfig where
  mac : Mac := Mac.zero
  key : Key := Key.zero
  valid : Bool := false
deriving DecidableEq

/-- A route the configuration installs at start-up. -/
structure FibInitEntry where
  contentName : CharArray 64 := List.Vector.replicate 64 0
  nextHopMac : CharArray 18 := List.Vector.replicate 18 0
  valid : Bool := false
deriving DecidableEq

/-- The global `systemConfig`. -/
structure SystemConfig where
  maxVirtualDepth : Int := 5
  hopCountThreshold : Int := 10
  espNowEncryptionEnabled : Bool := false
  espNowPmk : Key := Key.zero
  espNowPmkConfigured : Bool := false
  espNowDefaultLmk : Key := Key.zero
  espNowDefaultLmkConfigured : Bool := false
  espNowPeerLmkEntries : List.Vector PeerKeyConfig maxPeerKeyEntries :=
    List.Vector.replicate _ {}
  espNowPeerLmkCount : Nat := 0
  hmacAuthenticationEnabled : Bool := false
  hmacDefaultKey : Key := Key.zero
  hmacDefaultKeyConfigured : Bool := false
  hmacPeerKeyEntries : List.Vector PeerKeyConfig maxPeerKeyEntries :=
    List.Vector.replicate _ {}
  hmacPeerKeyCount : Nat := 0
  fibInitEntries : List.Vector FibInitEntry maxFibInitEntries := List.Vector.replicate _ {}
  fibInitCount : Nat := 0

end Icsn
