import Icsn.Config.Json
import Icsn.Config.KeyText

/-!
# Icsn — loading the configuration

`Config.cpp`: from a parsed document to the global `systemConfig`.  Warnings are left out; they
decide nothing.

* **`loadPeerKeys`** — the keys of the peers in a list of objects.
* **`loadSeparatedSecurityConfig`** / **`loadLegacySecurityConfig`** — the two layouts.
* **`loadSystemConfig`** — the whole of it.
* **`parsePeerKey`** — the key of a peer, if both its texts parse; `take_loadPeerKeys` says that
  these are the keys loaded.
-/

namespace Icsn

/-! ## Peers with keys

The loop writes a peer into the next entry while it parses it, and counts the entry only if both
texts were good.  `loadPeerKeys` takes the MAC and the key under more than one name. -/

/-- `peer["mac"] | peer["peer_mac"] | ""`. -/
def peerMacText (peer : Json) : Str :=
  ((peer.get (ascii ['m', 'a', 'c'])).orElse
    (peer.get (ascii ['p', 'e', 'e', 'r', '_', 'm', 'a', 'c']))).orEmpty

def lmkName : Str := ascii ['l', 'm', 'k']

def hmacKeyName : Str := ascii ['h', 'm', 'a', 'c', '_', 'k', 'e', 'y']

/-- `peer[keyName] | peer["lmk"] | peer["hmac_key"] | ""`. -/
def peerKeyText (keyName : Str) (peer : Json) : Str :=
  (((peer.get keyName).orElse (peer.get lmkName)).orElse (peer.get hmacKeyName)).orEmpty

/-- The `if` in the loop of `loadPeerKeys`: whether the entry is taken, and what is left in it. -/
def loadPeerKey (keyName : Str) (peer : Json) (entry : PeerKeyConfig) : Bool × PeerKeyConfig :=
  match macStringToBytes (peerMacText peer) entry.mac with
  | (false, mac) => (false, { entry with mac })
  | (true, mac) =>
    match hexStringToBytes (peerKeyText keyName peer) entry.key with
    | (false, key) => (false, { entry with mac, key })
    | (true, key) => (true, { mac, key, valid := true })

section PeerKeys

variable {maxEntries : Nat} (keyName : Str)

/-- The loop of `loadPeerKeys`, with `count` entries taken so far. -/
def loadPeerKeysLoop :
    List Json → Nat → List.Vector PeerKeyConfig maxEntries →
      Nat × List.Vector PeerKeyConfig maxEntries
  | [], count, outEntries => (count, outEntries)
  | peer :: peers, count, outEntries =>
    if h : count < maxEntries then
      let r := loadPeerKey keyName peer (outEntries.get ⟨count, h⟩)
      loadPeerKeysLoop peers (if r.1 then count + 1 else count) (outEntries.set ⟨count, h⟩ r.2)
    else (count, outEntries)

def loadPeerKeys (peersNode : Json) (outEntries : List.Vector PeerKeyConfig maxEntries) :
    Nat × List.Vector PeerKeyConfig maxEntries :=
  loadPeerKeysLoop keyName peersNode.elements 0 outEntries

end PeerKeys

/-! ## The keys loaded

The loop against a `filterMap`: what is counted are the keys of the peers that parse, in their
order.  What a peer that does not parse has left in the next entry is not among them. -/

/-- The key of a peer, if its two texts parse. -/
def parsePeerKey (keyName : Str) (peer : Json) : Option PeerKeyConfig :=
  match parseMac (peerMacText peer), parseHexString 16 (peerKeyText keyName peer) with
  | some mac, some key => some { mac, key, valid := true }
  | _, _ => none

section LoadedKeys

variable {maxEntries : Nat} (keyName : Str)

/-- **One peer**: its entry is taken if the two texts parse, and holds their values then. -/
theorem resultOf_loadPeerKey (peer : Json) (entry : PeerKeyConfig) :
    resultOf (loadPeerKey keyName peer entry) = parsePeerKey keyName peer := by
  have hmac := resultOf_macStringToBytes (peerMacText peer) entry.mac
  have hkey := resultOf_hexStringToBytes (peerKeyText keyName peer) entry.key
  unfold loadPeerKey parsePeerKey
  rw [← hmac, ← hkey]
  obtain ⟨macOk, mac⟩ := macStringToBytes (peerMacText peer) entry.mac
  obtain ⟨keyOk, key⟩ := hexStringToBytes (peerKeyText keyName peer) entry.key
  cases macOk <;> cases keyOk <;> rfl

/-- **The loop** appends the keys of the peers to those taken so far, while there is room. -/
theorem loadPeerKeysLoop_spec (peers : List Json) {count : Nat}
    (outEntries : List.Vector PeerKeyConfig maxEntries) (hcount : count ≤ maxEntries) :
    let r := loadPeerKeysLoop keyName peers count outEntries
    r.1 ≤ maxEntries ∧ r.2.toList.take r.1
      = (outEntries.toList.take count ++ peers.filterMap (parsePeerKey keyName)).take
          maxEntries := by
  -- over the peers that are left, from any number of entries taken on
  induction peers generalizing count outEntries with
  | nil =>
    refine ⟨hcount, ?_⟩
    rw [List.filterMap_nil, List.append_nil, List.take_take, Nat.min_eq_right hcount]
    rfl
  | cons peer peers ih =>
    have hlen : (outEntries.toList.take count).length = count := by
      rw [List.length_take, List.Vector.toList_length, Nat.min_eq_left hcount]
    unfold loadPeerKeysLoop
    split
    · next h =>
      have hresult := resultOf_loadPeerKey keyName peer (outEntries.get ⟨count, h⟩)
      revert hresult
      obtain ⟨taken, entry⟩ := loadPeerKey keyName peer (outEntries.get ⟨count, h⟩)
      intro hresult
      dsimp only
      cases taken with
      | false =>
        obtain ⟨hle, hloop⟩ := ih (outEntries.set ⟨count, h⟩ entry) hcount
        refine ⟨hle, hloop.trans ?_⟩
        -- what is left in the next entry is not among those taken
        rw [List.filterMap_cons_none hresult.symm, List.Vector.toList_set,
          List.take_set_of_le le_rfl]
      | true =>
        obtain ⟨hle, hloop⟩ := ih (outEntries.set ⟨count, h⟩ entry) h
        refine ⟨hle, hloop.trans ?_⟩
        have hset : count < (outEntries.toList.set count entry).length := by
          rw [List.length_set, List.Vector.toList_length]
          exact h
        have htake : (outEntries.toList.set count entry).take (count + 1)
            = outEntries.toList.take count ++ [entry] := by
          rw [List.take_succ_eq_append_getElem hset, List.getElem_set_self,
            List.take_set_of_le le_rfl]
        rw [List.filterMap_cons_some hresult.symm, List.Vector.toList_set]
        show (((outEntries.toList.set count entry).take (count + 1)) ++ _).take maxEntries = _
        rw [htake, List.append_assoc, List.singleton_append]
    · next h =>
      -- the array is full, and the loop ends
      obtain rfl : count = maxEntries := by omega
      refine ⟨hcount, ?_⟩
      rw [List.take_append_of_le_length hlen.ge, List.take_take, Nat.min_self]

/-- **`loadPeerKeys`** loads the keys of the peers in their order, up to the size of the array. -/
theorem take_loadPeerKeys (peersNode : Json) (outEntries : List.Vector PeerKeyConfig maxEntries) :
    let r := loadPeerKeys keyName peersNode outEntries
    r.2.toList.take r.1
      = (peersNode.elements.filterMap (parsePeerKey keyName)).take maxEntries :=
  (loadPeerKeysLoop_spec keyName peersNode.elements outEntries (Nat.zero_le _)).2

theorem loadPeerKeys_fst (peersNode : Json) (outEntries : List.Vector PeerKeyConfig maxEntries) :
    (loadPeerKeys keyName peersNode outEntries).1
      = min maxEntries (peersNode.elements.filterMap (parsePeerKey keyName)).length := by
  have hle := (loadPeerKeysLoop_spec keyName peersNode.elements outEntries (Nat.zero_le _)).1
  have hlen := congrArg List.length (take_loadPeerKeys keyName peersNode outEntries)
  rw [List.length_take, List.length_take, List.Vector.toList_length] at hlen
  exact (Nat.min_eq_left hle).symm.trans hlen

end LoadedKeys

/-! ## Security

The settings are reset before either layout is loaded.  A flag that is set without a usable key is
not taken, and the load goes on. -/

def resetSecurityConfig (systemConfig : SystemConfig) : SystemConfig :=
  { systemConfig with
    espNowEncryptionEnabled := false
    espNowPmkConfigured := false
    espNowPmk := Key.zero
    espNowDefaultLmkConfigured := false
    espNowDefaultLmk := Key.zero
    espNowPeerLmkCount := 0
    espNowPeerLmkEntries := List.Vector.replicate _ {}
    hmacAuthenticationEnabled := false
    hmacDefaultKeyConfigured := false
    hmacDefaultKey := Key.zero
    hmacPeerKeyCount := 0
    hmacPeerKeyEntries := List.Vector.replicate _ {} }

def peersName : Str := ascii ['p', 'e', 'e', 'r', 's']

def loadLegacySecurityConfig (doc : Json) (systemConfig : SystemConfig) : SystemConfig :=
  let pmkStr := (doc.get (ascii ['P', 'M', 'K'])).orEmpty
  let lmkStr := (doc.get (ascii ['L', 'M', 'K'])).orEmpty
  let pmk := hexStringToBytes pmkStr systemConfig.espNowPmk
  let lmk := hexStringToBytes lmkStr systemConfig.espNowDefaultLmk
  let systemConfig := { systemConfig with
    espNowPmk := pmk.2
    espNowDefaultLmk := lmk.2
    espNowPmkConfigured := pmk.1
    espNowDefaultLmkConfigured := lmk.1
    espNowEncryptionEnabled := pmk.1 }
  let systemConfig := if lmk.1 then
      { systemConfig with
        hmacDefaultKey := systemConfig.espNowDefaultLmk
        hmacDefaultKeyConfigured := true
        hmacAuthenticationEnabled := true }
    else systemConfig
  let espNowPeers := loadPeerKeys lmkName (doc.get peersName) systemConfig.espNowPeerLmkEntries
  let hmacPeers := loadPeerKeys lmkName (doc.get peersName) systemConfig.hmacPeerKeyEntries
  { systemConfig with
    espNowPeerLmkEntries := espNowPeers.2
    espNowPeerLmkCount := espNowPeers.1
    hmacPeerKeyEntries := hmacPeers.2
    hmacPeerKeyCount := hmacPeers.1 }

def espNowSecurityName : Str :=
  ascii ['e', 's', 'p', '_', 'n', 'o', 'w', '_', 's', 'e', 'c', 'u', 'r', 'i', 't', 'y']

def icsnSecurityName : Str :=
  ascii ['i', 'c', 's', 'n', '_', 's', 'e', 'c', 'u', 'r', 'i', 't', 'y']

/-- `icsnSecurity["hmac_enabled"] | false`. -/
def hmacEnabledFlag (icsnSecurity : Json) : Bool :=
  (icsnSecurity.get
    (ascii ['h', 'm', 'a', 'c', '_', 'e', 'n', 'a', 'b', 'l', 'e', 'd'])).orFalse

/-- `icsnSecurity["default_hmac_key"] | ""`. -/
def defaultHmacKeyStr (icsnSecurity : Json) : Str :=
  (icsnSecurity.get (ascii ['d', 'e', 'f', 'a', 'u', 'l', 't', '_', 'h', 'm', 'a', 'c', '_',
    'k', 'e', 'y'])).orEmpty

def loadSeparatedSecurityConfig (doc : Json) (systemConfig : SystemConfig) : SystemConfig :=
  let espNowSecurity := doc.get espNowSecurityName
  let icsnSecurity := doc.get icsnSecurityName
  let espNowEnabledFlag := (espNowSecurity.get
    (ascii ['e', 'n', 'a', 'b', 'l', 'e', 'd'])).orFalse
  let pmkStr := (espNowSecurity.get (ascii ['p', 'm', 'k'])).orEmpty
  let defaultLmkStr := (espNowSecurity.get
    (ascii ['d', 'e', 'f', 'a', 'u', 'l', 't', '_', 'l', 'm', 'k'])).orEmpty
  let pmk := hexStringToBytes pmkStr systemConfig.espNowPmk
  let defaultLmk := hexStringToBytes defaultLmkStr systemConfig.espNowDefaultLmk
  let espNowPeers := loadPeerKeys lmkName (espNowSecurity.get peersName)
    systemConfig.espNowPeerLmkEntries
  let defaultHmacKey := hexStringToBytes (defaultHmacKeyStr icsnSecurity)
    systemConfig.hmacDefaultKey
  let hmacPeers := loadPeerKeys hmacKeyName (icsnSecurity.get peersName)
    systemConfig.hmacPeerKeyEntries
  { systemConfig with
    espNowPmk := pmk.2
    espNowPmkConfigured := pmk.1
    espNowDefaultLmk := defaultLmk.2
    espNowDefaultLmkConfigured := defaultLmk.1
    espNowPeerLmkEntries := espNowPeers.2
    espNowPeerLmkCount := espNowPeers.1
    espNowEncryptionEnabled := espNowEnabledFlag && pmk.1
    hmacDefaultKey := defaultHmacKey.2
    hmacDefaultKeyConfigured := defaultHmacKey.1
    hmacPeerKeyEntries := hmacPeers.2
    hmacPeerKeyCount := hmacPeers.1
    -- a flag without a usable key does not enable HMAC
    hmacAuthenticationEnabled := hmacEnabledFlag icsnSecurity &&
      (defaultHmacKey.1 || decide (hmacPeers.1 > 0)) }

/-! ## Routes

An element with a missing text takes no entry, and the loop ends when the array is full. -/

/-- The loop over `fib_init`. -/
def loadFibInit : List Json → SystemConfig → SystemConfig
  | [], systemConfig => systemConfig
  | fibEntry :: fibArray, systemConfig =>
    if h : systemConfig.fibInitCount < maxFibInitEntries then
      let content := (fibEntry.get (ascii ['c', 'o', 'n', 't', 'e', 'n', 't'])).orEmpty
      let nextHop := (fibEntry.get (ascii ['n', 'e', 'x', 't', '_', 'h', 'o', 'p'])).orEmpty
      loadFibInit fibArray <|
        if content ≠ [] ∧ nextHop ≠ [] then
          { systemConfig with
            fibInitEntries := systemConfig.fibInitEntries.set ⟨systemConfig.fibInitCount, h⟩
              { contentName := strncpy 64 content 63
                nextHopMac := strncpy 18 nextHop 17
                valid := true }
            fibInitCount := systemConfig.fibInitCount + 1 }
        else systemConfig
    else systemConfig

/-! ## The whole document

A document with neither of the sections is loaded in the legacy layout.  Limits and routes are read
the same way in both. -/

/-- What the boot finds at the path: whether the file system mounts and the file opens, and the
document if `deserializeJson` reports no error. -/
structure ConfigFile where
  mounted : Bool
  opened : Bool
  parsed : Option Json

/-- The document that the loader gets to see. -/
def ConfigFile.document? (file : ConfigFile) : Option Json :=
  if file.mounted = false then none
  else if file.opened = false then none
  else file.parsed

def loadSystemConfig (file : ConfigFile) (systemConfig : SystemConfig) : Bool × SystemConfig :=
  match file.document? with
  | none => (false, systemConfig)
  | some doc =>
    let systemConfig := { systemConfig with
      maxVirtualDepth := (doc.get (ascii ['M', 'A', 'X', '_', 'V', 'I', 'R', 'T', 'U', 'A', 'L',
        '_', 'D', 'E', 'P', 'T', 'H'])).orInt 5
      hopCountThreshold := (doc.get (ascii ['H', 'O', 'P', '_', 'C', 'O', 'U', 'N', 'T', '_', 'T',
        'H', 'R', 'E', 'S', 'H', 'O', 'L', 'D'])).orInt 10 }
    let systemConfig := resetSecurityConfig systemConfig
    let systemConfig :=
      if doc.containsKey espNowSecurityName || doc.containsKey icsnSecurityName then
        loadSeparatedSecurityConfig doc systemConfig
      else loadLegacySecurityConfig doc systemConfig
    -- an absent list has no elements
    (true, loadFibInit (doc.get (ascii ['f', 'i', 'b', '_', 'i', 'n', 'i', 't'])).elements
      { systemConfig with fibInitCount := 0, fibInitEntries := List.Vector.replicate _ {} })

end Icsn
