import Icsn.Config.Config

/-!
# Icsn — node profiles

`generate_node_profile.py` turns the profile of a node into the constants of its build and the
document that its configuration loader reads.  Reading and writing of the texts is outside.

* **`loadProfile`** — `_load_profile`: the capacities, the run-time configuration and the memory
  policy, or the exception.
* **`legacyEspNowCfg`** / **`legacyIcsnCfg`** — the two sections made of a profile that has none.
-/

namespace Icsn

/-! ## Python values

A JSON value stands for the Python value it is read as.  The conversions that depend on more than
`Json` keeps are parameters. -/

/-- The exceptions of the script. -/
inductive PyError where
  | attributeError
  | typeError
  | valueError (message : Str)

/-- The built-in conversions, of values that `Json` keeps no text or number for, and of texts. -/
structure PyBuiltins where
  /-- `str(value)`, if the value is no text. -/
  str : Json → Str
  /-- `int(value)`, if the value is neither an integer nor a truth value. -/
  int : Json → Except PyError Int
  /-- `text.strip().lower()`. -/
  stripLower : Str → Str

namespace Json

/-- `bool(value)`. -/
def truthy : Json → Bool
  | null => false
  | bool b => b
  | int n => n ≠ 0
  | float nonzero => nonzero
  | string s => s ≠ []
  | array elements => !elements.isEmpty
  | object members => !members.isEmpty

/-- `members.get(key, default)` of a dictionary. -/
def dictGetD (members : List (Str × Json)) (key : Str) (default : Json) : Json :=
  (members.lookup key).getD default

/-- `value.get(key, default)`. -/
def dictGet (value : Json) (key : Str) (default : Json) : Except PyError Json :=
  match value with
  | object members => .ok (dictGetD members key default)
  | _ => .error .attributeError

@[simp] theorem dictGet_object (members : List (Str × Json)) (key : Str) (default : Json) :
    (object members).dictGet key default = .ok (dictGetD members key default) := rfl

/-- `for element in value`. -/
def iterate : Json → Except PyError (List Json)
  | array elements => .ok elements
  | object members => .ok (members.map fun member => string member.1)
  | string s => .ok (s.map fun c => string [c])
  | _ => .error .typeError

end Json

namespace PyBuiltins

variable (py : PyBuiltins)

/-- `str(value)`. -/
def toStr : Json → Str
  | .string s => s
  | value => py.str value

/-- `int(value)`. -/
def toInt : Json → Except PyError Int
  | .int n => .ok n
  | .bool b => .ok (if b then 1 else 0)
  | value => py.int value

end PyBuiltins

/-! ## Names -/

def buildName : Str := ascii ['b', 'u', 'i', 'l', 'd']

def runtimeName : Str := ascii ['r', 'u', 'n', 't', 'i', 'm', 'e']

def securityName : Str := ascii ['s', 'e', 'c', 'u', 'r', 'i', 't', 'y']

def enabledName : Str := ascii ['e', 'n', 'a', 'b', 'l', 'e', 'd']

def pmkName : Str := ascii ['p', 'm', 'k']

def defaultLmkName : Str := ascii ['d', 'e', 'f', 'a', 'u', 'l', 't', '_', 'l', 'm', 'k']

def macName : Str := ascii ['m', 'a', 'c']

def peerMacName : Str := ascii ['p', 'e', 'e', 'r', '_', 'm', 'a', 'c']

def hmacEnabledName : Str := ascii ['h', 'm', 'a', 'c', '_', 'e', 'n', 'a', 'b', 'l', 'e', 'd']

def defaultHmacKeyName : Str :=
  ascii ['d', 'e', 'f', 'a', 'u', 'l', 't', '_', 'h', 'm', 'a', 'c', '_', 'k', 'e', 'y']

def maxVirtualDepthName : Str :=
  ascii ['M', 'A', 'X', '_', 'V', 'I', 'R', 'T', 'U', 'A', 'L', '_', 'D', 'E', 'P', 'T', 'H']

def hopCountThresholdName : Str :=
  ascii ['H', 'O', 'P', '_', 'C', 'O', 'U', 'N', 'T', '_', 'T', 'H', 'R', 'E', 'S', 'H', 'O', 'L',
    'D']

def fibInitName : Str := ascii ['f', 'i', 'b', '_', 'i', 'n', 'i', 't']

/-! ## The script

The functions of the script in its order, each with the exception it may raise.  A profile may have
the new sections, the old ones, or one of each. -/

section Script

variable (py : PyBuiltins)

def toPositiveInt (value : Json) (fieldName : Str) : Except PyError Int :=
  match value with
  | .bool _ => .error (.valueError (fieldName ++ ascii [' ', 'm', 'u', 's', 't', ' ', 'b', 'e', ' ',
      'a', 'n', ' ', 'i', 'n', 't', 'e', 'g', 'e', 'r']))
  | value => do
    let ivalue ← py.toInt value
    if ivalue ≤ 0 then
      .error (.valueError (fieldName ++ ascii [' ', 'm', 'u', 's', 't', ' ', 'b', 'e', ' ', '>',
        ' ', '0']))
    else .ok ivalue

/-- `_normalize_peer_entries`: a peer may have its MAC and its key under other names. -/
def normalizePeerEntries (keyName : Str) : Json → List Json
  | .array peers => peers.filterMap fun peer =>
    match peer with
    | .object members =>
      let mac := Json.dictGetD members macName (Json.dictGetD members peerMacName (.string []))
      let key := Json.dictGetD members keyName
        (Json.dictGetD members lmkName (Json.dictGetD members hmacKeyName (.string [])))
      some (.object [(macName, .string (py.toStr mac)), (keyName, .string (py.toStr key))])
    | _ => none
  | _ => []

/-- The peers of a profile without sections, with the key under `keyName`. -/
def legacyPeerEntries (keyName : Str) (legacyPeers : List Json) : List Json :=
  legacyPeers.filterMap fun peer =>
    match peer with
    | .object members =>
      some (.object
        [(macName, .string (py.toStr (Json.dictGetD members macName (.string [])))),
          (keyName, .string (py.toStr (Json.dictGetD members lmkName (.string []))))])
    | _ => none

/-- `esp_now_cfg`, if the profile has the section. -/
def separatedEspNowCfg (espNowSecurity : Json) : Except PyError Json := do
  let enabled ← espNowSecurity.dictGet enabledName (.bool false)
  let pmk ← espNowSecurity.dictGet pmkName (.string [])
  let defaultLmk ← espNowSecurity.dictGet defaultLmkName (.string [])
  let peers ← espNowSecurity.dictGet peersName (.array [])
  return .object
    [(enabledName, .bool enabled.truthy),
      (pmkName, .string (py.toStr pmk)),
      (defaultLmkName, .string (py.toStr defaultLmk)),
      (peersName, .array (normalizePeerEntries py lmkName peers))]

/-- `esp_now_cfg`, if it does not. -/
def legacyEspNowCfg (security legacyPeers : Json) : Except PyError Json := do
  let lmk ← security.dictGet lmkName (.string [])
  let pmk ← security.dictGet pmkName (.string [])
  let peers ← legacyPeers.iterate
  return .object
    [(enabledName, .bool pmk.truthy),
      (pmkName, .string (py.toStr pmk)),
      (defaultLmkName, .string (py.toStr lmk)),
      (peersName, .array (legacyPeerEntries py lmkName peers))]

/-- `icsn_cfg`, if the profile has the section. -/
def separatedIcsnCfg (icsnSecurity : Json) : Except PyError Json := do
  let hmacEnabled ← icsnSecurity.dictGet hmacEnabledName (.bool false)
  let defaultHmacKey ← icsnSecurity.dictGet defaultHmacKeyName (.string [])
  let peers ← icsnSecurity.dictGet peersName (.array [])
  return .object
    [(hmacEnabledName, .bool hmacEnabled.truthy),
      (defaultHmacKeyName, .string (py.toStr defaultHmacKey)),
      (peersName, .array (normalizePeerEntries py hmacKeyName peers))]

/-- `icsn_cfg`, if it does not: the LMK was the HMAC key, too. -/
def legacyIcsnCfg (security legacyPeers : Json) : Except PyError Json := do
  let lmk ← security.dictGet lmkName (.string [])
  let peers ← legacyPeers.iterate
  return .object
    [(hmacEnabledName, .bool (py.toStr lmk ≠ [])),
      (defaultHmacKeyName, .string (py.toStr lmk)),
      (peersName, .array (legacyPeerEntries py hmacKeyName peers))]

def espNowCfg (espNowSecurity security legacyPeers : Json) : Except PyError Json :=
  if espNowSecurity.truthy then separatedEspNowCfg py espNowSecurity
  else legacyEspNowCfg py security legacyPeers

def icsnCfg (icsnSecurity security legacyPeers : Json) : Except PyError Json :=
  if icsnSecurity.truthy then separatedIcsnCfg py icsnSecurity
  else legacyIcsnCfg py security legacyPeers

structure ProfileCapacities where
  fib : Int
  pit : Int
  cs : Int
  rib : Int
  fibNextHopsPerEntry : Int
  pitRequestersPerEntry : Int
  nodeIdMaxChars : Int
  ribNextHopsPerNode : Int

/-- `_to_positive_int(build.get(key, default), "build.<key>")`. -/
def buildCapacity (build : Json) (key : Str) (default : Json) : Except PyError Int := do
  let value ← build.dictGet key default
  toPositiveInt py value (ascii ['b', 'u', 'i', 'l', 'd', '.'] ++ key)

def loadCapacities (build : Json) : Except PyError ProfileCapacities := do
  let fib ← buildCapacity py build
    (ascii ['f', 'i', 'b', '_', 'c', 'a', 'p', 'a', 'c', 'i', 't', 'y']) .null
  let pit ← buildCapacity py build
    (ascii ['p', 'i', 't', '_', 'c', 'a', 'p', 'a', 'c', 'i', 't', 'y']) .null
  let cs ← buildCapacity py build
    (ascii ['c', 's', '_', 'c', 'a', 'p', 'a', 'c', 'i', 't', 'y']) .null
  let rib ← buildCapacity py build
    (ascii ['r', 'i', 'b', '_', 'c', 'a', 'p', 'a', 'c', 'i', 't', 'y']) .null
  let fibNextHopsPerEntry ← buildCapacity py build
    (ascii ['f', 'i', 'b', '_', 'n', 'e', 'x', 't', '_', 'h', 'o', 'p', 's', '_', 'p', 'e', 'r',
      '_', 'e', 'n', 't', 'r', 'y']) (.int 4)
  let pitRequestersPerEntry ← buildCapacity py build
    (ascii ['p', 'i', 't', '_', 'r', 'e', 'q', 'u', 'e', 's', 't', 'e', 'r', 's', '_', 'p', 'e',
      'r', '_', 'e', 'n', 't', 'r', 'y']) (.int 4)
  let nodeIdMaxChars ← buildCapacity py build
    (ascii ['n', 'o', 'd', 'e', '_', 'i', 'd', '_', 'm', 'a', 'x', '_', 'c', 'h', 'a', 'r',
      's']) (.int 17)
  let ribNextHopsPerNode ← buildCapacity py build
    (ascii ['r', 'i', 'b', '_', 'n', 'e', 'x', 't', '_', 'h', 'o', 'p', 's', '_', 'p', 'e', 'r',
      '_', 'n', 'o', 'd', 'e']) (.int 4)
  return { fib, pit, cs, rib, fibNextHopsPerEntry, pitRequestersPerEntry, nodeIdMaxChars,
           ribNextHopsPerNode }

def loadProfile (profile : Json) : Except PyError (ProfileCapacities × Json × Str) := do
  let build ← profile.dictGet buildName (.object [])
  let runtime ← profile.dictGet runtimeName (.object [])
  let security ← runtime.dictGet securityName (.object [])
  let espNowSecurity ← runtime.dictGet espNowSecurityName (.object [])
  let icsnSecurity ← runtime.dictGet icsnSecurityName (.object [])
  let legacyPeers ← runtime.dictGet peersName (.array [])
  let espNowCfg ← espNowCfg py espNowSecurity security legacyPeers
  let icsnCfg ← icsnCfg py icsnSecurity security legacyPeers
  let capacities ← loadCapacities py build
  let csPayloadMemory ← build.dictGet
    (ascii ['c', 's', '_', 'p', 'a', 'y', 'l', 'o', 'a', 'd', '_', 'm', 'e', 'm', 'o', 'r',
      'y']) (.string (ascii ['a', 'u', 't', 'o']))
  let maxVirtualDepth ← runtime.dictGet
    (ascii ['m', 'a', 'x', '_', 'v', 'i', 'r', 't', 'u', 'a', 'l', '_', 'd', 'e', 'p', 't',
      'h']) (.int 5)
  let maxVirtualDepth ← py.toInt maxVirtualDepth
  let hopCountThreshold ← runtime.dictGet
    (ascii ['h', 'o', 'p', '_', 'c', 'o', 'u', 'n', 't', '_', 't', 'h', 'r', 'e', 's', 'h', 'o',
      'l', 'd']) (.int 10)
  let hopCountThreshold ← py.toInt hopCountThreshold
  let fibInit ← runtime.dictGet fibInitName (.array [])
  let runtimeConfig := .object
    [(maxVirtualDepthName, .int maxVirtualDepth),
      (hopCountThresholdName, .int hopCountThreshold),
      (espNowSecurityName, espNowCfg),
      (icsnSecurityName, icsnCfg),
      (fibInitName, fibInit)]
  return (capacities, runtimeConfig, py.stripLower (py.toStr csPayloadMemory))

end Script

/-- What a step of the script gave, if the script came to its end. -/
theorem bind_eq_ok_iff {α β : Type} {x : Except PyError α} {f : α → Except PyError β} {b : β} :
    (x >>= f) = .ok b ↔ ∃ a, x = .ok a ∧ f a = .ok b := by
  cases x with
  | error e =>
    refine ⟨fun h => ?_, fun ⟨a, ha, _⟩ => ?_⟩
    · cases h
    · cases ha
  | ok a =>
    refine ⟨fun h => ⟨a, rfl, h⟩, fun ⟨a', ha, h⟩ => ?_⟩
    rw [Except.ok.inj ha]
    exact h

/-- **The run-time configuration** has the sections made of the profile. -/
theorem loadProfile_sections {py : PyBuiltins} {profile runtimeConfig : Json}
    {capacities : ProfileCapacities} {memoryPolicy : Str}
    (h : loadProfile py profile = .ok (capacities, runtimeConfig, memoryPolicy)) :
    ∃ runtime security espNowSecurity icsnSecurity legacyPeers,
      profile.dictGet runtimeName (.object []) = .ok runtime ∧
      runtime.dictGet securityName (.object []) = .ok security ∧
      runtime.dictGet espNowSecurityName (.object []) = .ok espNowSecurity ∧
      runtime.dictGet icsnSecurityName (.object []) = .ok icsnSecurity ∧
      runtime.dictGet peersName (.array []) = .ok legacyPeers ∧
      espNowCfg py espNowSecurity security legacyPeers
        = .ok (runtimeConfig.get espNowSecurityName) ∧
      icsnCfg py icsnSecurity security legacyPeers
        = .ok (runtimeConfig.get icsnSecurityName) := by
  unfold loadProfile at h
  -- one step of the script after the other
  obtain ⟨build, -, h⟩ := bind_eq_ok_iff.mp h
  obtain ⟨runtime, hruntime, h⟩ := bind_eq_ok_iff.mp h
  obtain ⟨security, hsecurity, h⟩ := bind_eq_ok_iff.mp h
  obtain ⟨espNowSecurity, hespNow, h⟩ := bind_eq_ok_iff.mp h
  obtain ⟨icsnSecurity, hicsn, h⟩ := bind_eq_ok_iff.mp h
  obtain ⟨legacyPeers, hpeers, h⟩ := bind_eq_ok_iff.mp h
  obtain ⟨espNow, hespNowCfg, h⟩ := bind_eq_ok_iff.mp h
  obtain ⟨icsn, hicsnCfg, h⟩ := bind_eq_ok_iff.mp h
  refine ⟨runtime, security, espNowSecurity, icsnSecurity, legacyPeers, hruntime, hsecurity,
    hespNow, hicsn, hpeers, ?_⟩
  -- the rest of the script reads other members
  obtain ⟨_, -, h⟩ := bind_eq_ok_iff.mp h
  obtain ⟨_, -, h⟩ := bind_eq_ok_iff.mp h
  obtain ⟨_, -, h⟩ := bind_eq_ok_iff.mp h
  obtain ⟨_, -, h⟩ := bind_eq_ok_iff.mp h
  obtain ⟨_, -, h⟩ := bind_eq_ok_iff.mp h
  obtain ⟨_, -, h⟩ := bind_eq_ok_iff.mp h
  obtain ⟨_, -, h⟩ := bind_eq_ok_iff.mp h
  have hconfig : _ = runtimeConfig := congrArg (fun r => r.2.1) (Except.ok.inj h)
  rw [← hconfig, hespNowCfg, hicsnCfg]
  exact ⟨rfl, rfl⟩

end Icsn
