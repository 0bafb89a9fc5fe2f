import Icsn.Config.NodeProfile
import Icsn.Controller.LegacyKeys

/-!
# Icsn — the migration of node profiles

A profile without the sections for security has one pair of keys and one list of peers.
`_load_profile` makes the sections of them; a document in the legacy layout with the same values is
loaded without.

* **`SecuritySettings`** — what a configuration says about security.
* **`securitySettings_legacy`** / **`securitySettings_migrated`** — what is loaded on each path.
* **`migration_preserves_iff`** — when this is the same.
-/

namespace Icsn

/-! ## Settings

What a configuration says about security, without what is left in entries that are not in use.  Two
loads mean the same if these agree. -/

/-- The switches, the default keys that are configured, and the keys of the peers. -/
@[ext] structure SecuritySettings where
  espNowEncryptionEnabled : Bool
  hmacAuthenticationEnabled : Bool
  espNowPmk : Option Key
  espNowDefaultLmk : Option Key
  hmacDefaultKey : Option Key
  espNowPeers : List PeerKeyConfig
  hmacPeers : List PeerKeyConfig
deriving DecidableEq

def SystemConfig.securitySettings (systemConfig : SystemConfig) : SecuritySettings where
  espNowEncryptionEnabled := systemConfig.espNowEncryptionEnabled
  hmacAuthenticationEnabled := systemConfig.hmacAuthenticationEnabled
  espNowPmk := if systemConfig.espNowPmkConfigured then some systemConfig.espNowPmk else none
  espNowDefaultLmk := systemConfig.espNowDefault
  hmacDefaultKey :=
    if systemConfig.hmacDefaultKeyConfigured then some systemConfig.hmacDefaultKey else none
  espNowPeers := systemConfig.espNowPeers
  hmacPeers := systemConfig.hmacPeers

/-- **The legacy layout.** -/
theorem securitySettings_legacy (doc : Json) (old : SystemConfig) :
    let pmk := parseHexString 16 (doc.get (ascii ['P', 'M', 'K'])).orEmpty
    let lmk := parseHexString 16 (doc.get (ascii ['L', 'M', 'K'])).orEmpty
    let peers := ((doc.get peersName).elements.filterMap (parsePeerKey lmkName)).take 20
    (loadLegacySecurityConfig doc (resetSecurityConfig old)).securitySettings
      = { espNowEncryptionEnabled := pmk.isSome
          hmacAuthenticationEnabled := lmk.isSome
          espNowPmk := pmk
          espNowDefaultLmk := lmk
          hmacDefaultKey := lmk
          espNowPeers := peers
          hmacPeers := peers } := by
  intro pmk lmk peers
  obtain ⟨pmkResult, hpmkResult⟩ : ∃ r, r = hexStringToBytes
    (doc.get (ascii ['P', 'M', 'K'])).orEmpty (resetSecurityConfig old).espNowPmk := ⟨_, rfl⟩
  obtain ⟨lmkResult, hlmkResult⟩ : ∃ r, r = hexStringToBytes
    (doc.get (ascii ['L', 'M', 'K'])).orEmpty (resetSecurityConfig old).espNowDefaultLmk := ⟨_, rfl⟩
  have hpmk : resultOf pmkResult = pmk := by
    rw [hpmkResult]; exact resultOf_hexStringToBytes _ _
  have hlmk : resultOf lmkResult = lmk := by
    rw [hlmkResult]; exact resultOf_hexStringToBytes _ _
  obtain ⟨hespNowPeers, hhmacPeers, hdefault, -⟩ := loadLegacySecurityConfig_keys doc old
  obtain ⟨r, hr⟩ : ∃ r, r = loadLegacySecurityConfig doc (resetSecurityConfig old) := ⟨_, rfl⟩
  rw [← hr] at hespNowPeers hhmacPeers hdefault ⊢
  unfold loadLegacySecurityConfig at hr
  dsimp only at hr
  rw [← hpmkResult, ← hlmkResult] at hr
  have hswitches : r.espNowEncryptionEnabled = pmkResult.1 ∧ r.espNowPmkConfigured = pmkResult.1 ∧
      r.espNowPmk = pmkResult.2 := by
    rw [hr]
    dsimp only
    split <;> exact ⟨rfl, rfl, rfl⟩
  -- the key of HMAC is the LMK, copied over only if its text is good
  have hhmac : r.hmacAuthenticationEnabled = lmkResult.1 ∧
      (if r.hmacDefaultKeyConfigured then some r.hmacDefaultKey else none)
        = resultOf lmkResult := by
    rw [hr]
    dsimp only
    obtain ⟨lmkValid, lmk'⟩ := lmkResult
    cases lmkValid <;> exact ⟨rfl, rfl⟩
  obtain ⟨henabled, hconfigured, hkey⟩ := hswitches
  apply SecuritySettings.ext
  · show r.espNowEncryptionEnabled = pmk.isSome
    rw [henabled, ← hpmk, resultOf_isSome]
  · show r.hmacAuthenticationEnabled = lmk.isSome
    rw [hhmac.1, ← hlmk, resultOf_isSome]
  · show (if r.espNowPmkConfigured then some r.espNowPmk else none) = pmk
    rw [hconfigured, hkey, ← hpmk]
    rfl
  · exact hdefault
  · exact hhmac.2.trans hlmk
  · exact hespNowPeers
  · exact hhmacPeers

/-- **The separated layout.** -/
theorem securitySettings_separated (doc : Json) (old : SystemConfig) :
    let espNow := doc.get espNowSecurityName
    let icsn := doc.get icsnSecurityName
    let pmk := parseHexString 16 (espNow.get pmkName).orEmpty
    let hmacKey := parseHexString 16 (icsn.get defaultHmacKeyName).orEmpty
    let hmacPeers := (icsn.get peersName).elements.filterMap (parsePeerKey hmacKeyName)
    (loadSeparatedSecurityConfig doc (resetSecurityConfig old)).securitySettings
      = { espNowEncryptionEnabled := (espNow.get enabledName).orFalse && pmk.isSome
          hmacAuthenticationEnabled :=
            (icsn.get hmacEnabledName).orFalse && (hmacKey.isSome || decide (hmacPeers ≠ []))
          espNowPmk := pmk
          espNowDefaultLmk := parseHexString 16 (espNow.get defaultLmkName).orEmpty
          hmacDefaultKey := hmacKey
          espNowPeers :=
            ((espNow.get peersName).elements.filterMap (parsePeerKey lmkName)).take 20
          hmacPeers := hmacPeers.take 20 } := by
  intro espNow icsn pmk hmacKey hmacPeers
  have hpmk : resultOf (hexStringToBytes (espNow.get pmkName).orEmpty
      (resetSecurityConfig old).espNowPmk) = pmk := resultOf_hexStringToBytes _ _
  have hhmacKey : resultOf (hexStringToBytes (icsn.get defaultHmacKeyName).orEmpty
      (resetSecurityConfig old).hmacDefaultKey) = hmacKey := resultOf_hexStringToBytes _ _
  have hcount := loadPeerKeys_fst hmacKeyName (icsn.get peersName)
    (resetSecurityConfig old).hmacPeerKeyEntries
  apply SecuritySettings.ext
  · show ((espNow.get enabledName).orFalse && _) = _
    rw [← hpmk, resultOf_isSome]
    rfl
  · -- there is a key for HMAC if the default one parses or some peer is counted
    show ((icsn.get hmacEnabledName).orFalse && (_ || decide (_ > 0))) = _
    rw [← hhmacKey, resultOf_isSome]
    congr 2
    rw [decide_eq_decide]
    show (loadPeerKeys hmacKeyName (icsn.get peersName) _).1 > 0 ↔ _
    rw [hcount]
    show 0 < min 20 hmacPeers.length ↔ _
    rw [Nat.lt_min, and_iff_right (by decide), List.length_pos_iff]
  · exact hpmk
  · exact resultOf_hexStringToBytes _ _
  · exact hhmacKey
  · exact take_loadPeerKeys lmkName (espNow.get peersName) _
  · exact take_loadPeerKeys hmacKeyName (icsn.get peersName) _

/-! ## Legacy profiles

Their texts as fields, so that the profile of the script and the document of the loader are made
from one value. -/

/-- An object with string fields. -/
def textObject (fields : List (Str × Str)) : Json :=
  .object (fields.map fun field => (field.1, .string field.2))

/-- A profile with `runtime.security` and `runtime.peers`, but no section of its own for the radio
or for ICSN.  A key that is absent is the empty text. -/
structure LegacyProfile where
  members : List (Str × Json)
  runtime : List (Str × Json)
  security : List (Str × Json)
  pmk : Str
  lmk : Str
  peers : List (List (Str × Str))
  runtime_eq : Json.dictGetD members runtimeName (.object []) = .object runtime
  security_eq : Json.dictGetD runtime securityName (.object []) = .object security
  pmk_eq : Json.dictGetD security pmkName (.string []) = .string pmk
  lmk_eq : Json.dictGetD security lmkName (.string []) = .string lmk
  peers_eq : Json.dictGetD runtime peersName (.array []) = .array (peers.map textObject)
  no_espNow : runtime.lookup espNowSecurityName = none
  no_icsn : runtime.lookup icsnSecurityName = none

namespace LegacyProfile

def json (profile : LegacyProfile) : Json := .object profile.members

/-- The document in the legacy layout with the same values. -/
def document (profile : LegacyProfile) : Json :=
  .object
    [(ascii ['P', 'M', 'K'], .string profile.pmk),
      (ascii ['L', 'M', 'K'], .string profile.lmk),
      (peersName, .array (profile.peers.map textObject))]

end LegacyProfile

/-! ## The peers of a profile

The script reads the MAC and the key of a legacy peer under one name each, the loader under more.  A
peer with both under the first names comes through; any other is lost, or was none. -/

section Peers

variable {fields : List (Str × Str)}

/-- The entry that two texts stand for, if both parse. -/
def parsePeer (macText keyText : Str) : Option PeerKeyConfig :=
  match parseMac macText, parseHexString 16 keyText with
  | some mac, some key => some { mac, key, valid := true }
  | _, _ => none

theorem parsePeerKey_eq (keyName : Str) (peer : Json) :
    parsePeerKey keyName peer = parsePeer (peerMacText peer) (peerKeyText keyName peer) := rfl

/-- The peer has both its MAC and its key under the first of their names. -/
def HasOwnFields (fields : List (Str × Str)) : Prop :=
  (fields.lookup macName).isSome = true ∧ (fields.lookup lmkName).isSome = true

instance : DecidablePred HasOwnFields := fun _ => inferInstanceAs (Decidable (_ ∧ _))

/-- The entry that the loader makes of the peer of a legacy document. -/
def legacyEntry (fields : List (Str × Str)) : Option PeerKeyConfig :=
  parsePeerKey lmkName (textObject fields)

theorem lookup_textObject (name : Str) (fields : List (Str × Str)) :
    (fields.map fun field => (field.1, Json.string field.2)).lookup name
      = (fields.lookup name).map Json.string := by
  induction fields with
  | nil => rfl
  | cons field fields ih =>
    rw [List.map_cons, List.lookup_cons, List.lookup_cons, ih]
    split <;> rfl

theorem get_textObject (name : Str) (fields : List (Str × Str)) :
    (textObject fields).get name = ((fields.lookup name).map Json.string).getD .null :=
  congrArg (·.getD .null) (lookup_textObject name fields)

/-- The peer that the script makes of one. -/
theorem legacyPeerEntries_textObject (py : PyBuiltins) (keyName : Str)
    (peers : List (List (Str × Str))) :
    legacyPeerEntries py keyName (peers.map textObject)
      = peers.map fun fields => textObject
          [(macName, (fields.lookup macName).getD []),
            (keyName, (fields.lookup lmkName).getD [])] := by
  have hstr : ∀ (name : Str) (fields : List (Str × Str)),
      py.toStr (Json.dictGetD (fields.map fun field => (field.1, Json.string field.2)) name
        (.string [])) = (fields.lookup name).getD [] := by
    intro name fields
    unfold Json.dictGetD
    rw [lookup_textObject]
    cases fields.lookup name with
    | none => rfl
    | some text => rfl
  unfold legacyPeerEntries
  rw [List.filterMap_map, ← List.filterMap_eq_map]
  apply List.filterMap_congr
  intro fields _
  show some _ = some _
  rw [hstr, hstr]
  rfl

theorem parsePeer_of_no_mac (keyText : Str) : parsePeer (cstr []) keyText = none := rfl

theorem parsePeer_of_no_key (macText : Str) : parsePeer macText (cstr []) = none := by
  unfold parsePeer
  rw [show parseHexString 16 (cstr []) = none from rfl]
  cases parseMac macText with
  | none => rfl
  | some mac => rfl

/-- What the loader makes of the peer that the script makes. -/
theorem parsePeerKey_migrated {keyName : Str} (hname : keyName ≠ macName) :
    parsePeerKey keyName (textObject [(macName, (fields.lookup macName).getD []),
        (keyName, (fields.lookup lmkName).getD [])])
      = if HasOwnFields fields then legacyEntry fields else none := by
  have hkeyText : ∀ macText keyText : Str, peerKeyText keyName
      (textObject [(macName, macText), (keyName, keyText)]) = cstr keyText := by
    intro macText keyText
    unfold peerKeyText
    rw [get_textObject, List.lookup_cons, beq_false_of_ne hname]
    simp [Json.orElse, Json.toBool, Json.orEmpty]
  -- the two texts stand under the names that the loader asks for first
  have hmigrated : ∀ macText keyText : Str, parsePeerKey keyName
      (textObject [(macName, macText), (keyName, keyText)])
        = parsePeer (cstr macText) (cstr keyText) := by
    intro macText keyText
    rw [parsePeerKey_eq, hkeyText]
    rfl
  rw [hmigrated]
  -- a text that is missing is written as the empty one, which does not parse
  cases hmac : fields.lookup macName with
  | none =>
    have hnot : ¬ HasOwnFields fields := fun h => by
      rw [HasOwnFields, hmac] at h
      exact Bool.noConfusion h.1
    rw [if_neg hnot]
    exact parsePeer_of_no_mac _
  | some mac =>
    cases hlmk : fields.lookup lmkName with
    | none =>
      have hnot : ¬ HasOwnFields fields := fun h => by
        rw [HasOwnFields, hlmk] at h
        exact Bool.noConfusion h.2
      rw [if_neg hnot]
      exact parsePeer_of_no_key _
    | some lmk =>
      have hown : HasOwnFields fields := by
        rw [HasOwnFields, hmac, hlmk]
        exact ⟨rfl, rfl⟩
      have hmacText : peerMacText (textObject fields) = cstr mac := by
        unfold peerMacText
        show (((textObject fields).get macName).orElse _).orEmpty = _
        rw [get_textObject, hmac]
        rfl
      have hlmkText : peerKeyText lmkName (textObject fields) = cstr lmk := by
        unfold peerKeyText
        rw [get_textObject, hlmk]
        rfl
      rw [if_pos hown, legacyEntry, parsePeerKey_eq, hmacText, hlmkText]
      rfl

/-- **The peers that are loaded of a migrated profile** are those with fields of their own. -/
theorem filterMap_migrated (py : PyBuiltins) {keyName : Str} (hname : keyName ≠ macName)
    (peers : List (List (Str × Str))) :
    (legacyPeerEntries py keyName (peers.map textObject)).filterMap (parsePeerKey keyName)
      = (peers.filter fun fields => decide (HasOwnFields fields)).filterMap legacyEntry := by
  rw [legacyPeerEntries_textObject, List.filterMap_map, List.filterMap_filter]
  apply List.filterMap_congr
  intro fields _
  rw [Function.comp_apply, parsePeerKey_migrated hname]
  simp only [decide_eq_true_eq]

end Peers

/-! ## The migration

Both ends are computed, the settings of the migrated profile and those of the legacy document, and
compared field by field. -/

section Migration

variable {py : PyBuiltins} {profile : LegacyProfile} {capacities : ProfileCapacities}
  {runtimeConfig : Json} {memoryPolicy : Str}

theorem legacyEspNowCfg_eq {security : List (Str × Json)} {pmk lmk : Str} {peers : List Json}
    (hpmk : Json.dictGetD security pmkName (.string []) = .string pmk)
    (hlmk : Json.dictGetD security lmkName (.string []) = .string lmk) :
    legacyEspNowCfg py (.object security) (.array peers)
      = .ok (.object
          [(enabledName, .bool (decide (pmk ≠ []))), (pmkName, .string pmk),
            (defaultLmkName, .string lmk),
            (peersName, .array (legacyPeerEntries py lmkName peers))]) := by
  unfold legacyEspNowCfg
  rw [Json.dictGet_object, Json.dictGet_object, hpmk, hlmk]
  rfl

theorem legacyIcsnCfg_eq {security : List (Str × Json)} {lmk : Str} {peers : List Json}
    (hlmk : Json.dictGetD security lmkName (.string []) = .string lmk) :
    legacyIcsnCfg py (.object security) (.array peers)
      = .ok (.object
          [(hmacEnabledName, .bool (decide (lmk ≠ []))), (defaultHmacKeyName, .string lmk),
            (peersName, .array (legacyPeerEntries py hmacKeyName peers))]) := by
  unfold legacyIcsnCfg
  rw [Json.dictGet_object, hlmk]
  rfl

/-- **The sections** that the script makes of a legacy profile. -/
theorem migrated_sections
    (h : loadProfile py profile.json = .ok (capacities, runtimeConfig, memoryPolicy)) :
    runtimeConfig.get espNowSecurityName = .object
        [(enabledName, .bool (decide (profile.pmk ≠ []))), (pmkName, .string profile.pmk),
          (defaultLmkName, .string profile.lmk),
          (peersName, .array (legacyPeerEntries py lmkName (profile.peers.map textObject)))] ∧
      runtimeConfig.get icsnSecurityName = .object
        [(hmacEnabledName, .bool (decide (profile.lmk ≠ []))),
          (defaultHmacKeyName, .string profile.lmk),
          (peersName, .array
            (legacyPeerEntries py hmacKeyName (profile.peers.map textObject)))] := by
  obtain ⟨runtime, security, espNowSecurity, icsnSecurity, legacyPeers, hruntime, hsecurity,
    hespNow, hicsn, hpeers, hespNowCfg, hicsnCfg⟩ := loadProfile_sections h
  obtain rfl : .object profile.runtime = runtime :=
    profile.runtime_eq.symm.trans (Except.ok.inj hruntime)
  obtain rfl : .object profile.security = security :=
    profile.security_eq.symm.trans (Except.ok.inj hsecurity)
  obtain rfl : .array (profile.peers.map textObject) = legacyPeers :=
    profile.peers_eq.symm.trans (Except.ok.inj hpeers)
  -- absent sections are empty dictionaries, and these are false
  have hnone : ∀ {name : Str}, profile.runtime.lookup name = none →
      Json.dictGetD profile.runtime name (.object []) = .object [] := fun hname => by
    unfold Json.dictGetD
    rw [hname]
    rfl
  obtain rfl : .object [] = espNowSecurity :=
    (hnone profile.no_espNow).symm.trans (Except.ok.inj hespNow)
  obtain rfl : .object [] = icsnSecurity :=
    (hnone profile.no_icsn).symm.trans (Except.ok.inj hicsn)
  have hespNowCfg' : legacyEspNowCfg py (.object profile.security)
    (.array (profile.peers.map textObject)) = _ := hespNowCfg
  have hicsnCfg' : legacyIcsnCfg py (.object profile.security)
    (.array (profile.peers.map textObject)) = _ := hicsnCfg
  rw [legacyEspNowCfg_eq profile.pmk_eq profile.lmk_eq] at hespNowCfg'
  rw [legacyIcsnCfg_eq profile.lmk_eq] at hicsnCfg'
  exact ⟨(Except.ok.inj hespNowCfg').symm, (Except.ok.inj hicsnCfg').symm⟩

/-- The entries of the peers with fields of their own. -/
def ownEntries (peers : List (List (Str × Str))) : List PeerKeyConfig :=
  (peers.filter fun fields => decide (HasOwnFields fields)).filterMap legacyEntry

/-- **What is loaded** of a migrated profile. -/
theorem securitySettings_migrated
    (h : loadProfile py profile.json = .ok (capacities, runtimeConfig, memoryPolicy))
    (old : SystemConfig) :
    let pmk := parseHexString 16 (cstr profile.pmk)
    let lmk := parseHexString 16 (cstr profile.lmk)
    (loadSeparatedSecurityConfig runtimeConfig (resetSecurityConfig old)).securitySettings
      = { espNowEncryptionEnabled := decide (profile.pmk ≠ []) && pmk.isSome
          hmacAuthenticationEnabled := decide (profile.lmk ≠ []) &&
            (lmk.isSome || decide (ownEntries profile.peers ≠ []))
          espNowPmk := pmk
          espNowDefaultLmk := lmk
          hmacDefaultKey := lmk
          espNowPeers := (ownEntries profile.peers).take 20
          hmacPeers := (ownEntries profile.peers).take 20 } := by
  intro pmk lmk
  obtain ⟨hespNow, hicsn⟩ := migrated_sections h
  have hsettings := securitySettings_separated runtimeConfig old
  have hlmkPeers := filterMap_migrated py (by decide : lmkName ≠ macName) profile.peers
  have hhmacPeers := filterMap_migrated py (by decide : hmacKeyName ≠ macName) profile.peers
  rw [hespNow, hicsn] at hsettings
  refine hsettings.trans ?_
  apply SecuritySettings.ext
  · rfl
  · show (_ && (_ || decide ((legacyPeerEntries py hmacKeyName (profile.peers.map
      textObject)).filterMap (parsePeerKey hmacKeyName) ≠ []))) = _
    rw [hhmacPeers]
    rfl
  · rfl
  · rfl
  · rfl
  · exact congrArg (List.take 20) hlmkPeers
  · exact congrArg (List.take 20) hhmacPeers

/-- **What is loaded** of a document in the legacy layout with the same values. -/
theorem securitySettings_document (profile : LegacyProfile) (old : SystemConfig) :
    let pmk := parseHexString 16 (cstr profile.pmk)
    let lmk := parseHexString 16 (cstr profile.lmk)
    let peers := (profile.peers.filterMap legacyEntry).take 20
    (loadLegacySecurityConfig profile.document (resetSecurityConfig old)).securitySettings
      = { espNowEncryptionEnabled := pmk.isSome
          hmacAuthenticationEnabled := lmk.isSome
          espNowPmk := pmk
          espNowDefaultLmk := lmk
          hmacDefaultKey := lmk
          espNowPeers := peers
          hmacPeers := peers } := by
  intro pmk lmk peers
  have hpeers : ((profile.peers.map textObject).filterMap (parsePeerKey lmkName)).take 20 = peers :=
    congrArg (List.take 20) List.filterMap_map
  refine (securitySettings_legacy profile.document old).trans ?_
  exact SecuritySettings.ext rfl rfl rfl rfl rfl hpeers hpeers

theorem ownEntries_eq_nil_iff (peers : List (List (Str × Str))) :
    ownEntries peers = [] ↔ ∀ fields ∈ peers, HasOwnFields fields → legacyEntry fields = none := by
  unfold ownEntries
  rw [List.filterMap_eq_nil_iff]
  constructor
  · intro h fields hmem hown
    exact h fields (List.mem_filter.mpr ⟨hmem, decide_eq_true hown⟩)
  · intro h fields hmem
    obtain ⟨hmem, hown⟩ := List.mem_filter.mp hmem
    exact h fields hmem (of_decide_eq_true hown)

theorem length_ownEntries_le (peers : List (List (Str × Str))) :
    (ownEntries peers).length ≤ (peers.filterMap legacyEntry).length :=
  (List.filter_sublist.filterMap legacyEntry).length_le

/-- No entry is missing exactly if every peer that gives one has fields of its own. -/
theorem ownEntries_eq_iff {peers : List (List (Str × Str))} :
    ownEntries peers = peers.filterMap legacyEntry ↔
      ∀ fields ∈ peers, legacyEntry fields ≠ none → HasOwnFields fields := by
  induction peers with
  | nil => exact iff_of_true rfl (fun _ hmem => absurd hmem List.not_mem_nil)
  | cons fields peers ih =>
    rw [List.forall_mem_cons, ← ih]
    cases hentry : legacyEntry fields with
    | none =>
      have hskip : ownEntries (fields :: peers) = ownEntries peers := by
        unfold ownEntries
        rw [List.filter_cons]
        split
        · rw [List.filterMap_cons_none hentry]
        · rfl
      rw [hskip, List.filterMap_cons_none hentry]
      simp
    | some entry =>
      rw [List.filterMap_cons_some hentry]
      by_cases hown : HasOwnFields fields
      · have htake : ownEntries (fields :: peers) = entry :: ownEntries peers := by
          unfold ownEntries
          rw [List.filter_cons, if_pos (decide_eq_true hown), List.filterMap_cons_some hentry]
        rw [htake, List.cons.injEq]
        simp [hown]
      · have hskip : ownEntries (fields :: peers) = ownEntries peers := by
          unfold ownEntries
          rw [List.filter_cons, if_neg (by simpa using hown)]
        rw [hskip]
        constructor
        · -- one entry is missing, and none is gained
          intro heq
          have hle := length_ownEntries_le peers
          rw [heq, List.length_cons] at hle
          omega
        · intro h
          exact absurd (h.1 (Option.some_ne_none entry)) hown

/-- **Up to twenty valid peers** all count: the first twenty entries are the same exactly if every
valid peer has fields of its own. -/
theorem take_ownEntries_eq_iff {peers : List (List (Str × Str))}
    (hfew : (peers.filterMap legacyEntry).length ≤ 20) :
    (ownEntries peers).take 20 = (peers.filterMap legacyEntry).take 20 ↔
      ∀ fields ∈ peers, legacyEntry fields ≠ none → HasOwnFields fields := by
  have hle := length_ownEntries_le peers
  rw [List.take_of_length_le (hle.trans hfew), List.take_of_length_le hfew, ownEntries_eq_iff]

/-- A flag that is set for every text but the empty one agrees with the text being valid, except
for a text that is neither empty nor valid and an entry that keeps the flag up. -/
theorem flag_eq_isSome_iff (text : Str) (entry : Prop) [Decidable entry] :
    (decide (text ≠ []) && ((parseHexString 16 (cstr text)).isSome || decide entry))
        = (parseHexString 16 (cstr text)).isSome ↔
      text = [] ∨ (parseHexString 16 (cstr text)).isSome = true ∨ ¬ entry := by
  cases text with
  | nil => exact iff_of_true rfl (Or.inl rfl)
  | cons c text =>
    rw [decide_eq_true (List.cons_ne_nil c text), Bool.true_and]
    cases (parseHexString 16 (cstr (c :: text))).isSome with
    | true => exact iff_of_true rfl (Or.inr (Or.inl rfl))
    | false =>
      rw [Bool.false_or, decide_eq_false_iff_not]
      simp

/-- **The migration keeps the meaning of a profile** exactly if its LMK is empty or valid, or no
peer with fields of its own has a valid MAC and a valid LMK, and if without the peers that have a
field only under its other name the first twenty entries are the same. -/
theorem migration_preserves_iff (py : PyBuiltins) (profile : LegacyProfile) (old : SystemConfig)
    {capacities : ProfileCapacities} {runtimeConfig : Json} {memoryPolicy : Str}
    (h : loadProfile py profile.json = .ok (capacities, runtimeConfig, memoryPolicy)) :
    (loadSeparatedSecurityConfig runtimeConfig (resetSecurityConfig old)).securitySettings
        = (loadLegacySecurityConfig profile.document (resetSecurityConfig old)).securitySettings ↔
      (profile.lmk = [] ∨ (parseHexString 16 (cstr profile.lmk)).isSome = true ∨
        ∀ fields ∈ profile.peers, HasOwnFields fields → legacyEntry fields = none) ∧
      ((profile.peers.filter fun fields => decide (HasOwnFields fields)).filterMap
          legacyEntry).take 20 = (profile.peers.filterMap legacyEntry).take 20 := by
  rw [securitySettings_migrated h, securitySettings_document, SecuritySettings.mk.injEq]
  -- encryption is switched on for a PMK that is not empty, and stays off if it does not parse
  have hespNow : (decide (profile.pmk ≠ []) && (parseHexString 16 (cstr profile.pmk)).isSome)
      = (parseHexString 16 (cstr profile.pmk)).isSome := by
    have hflag := (flag_eq_isSome_iff profile.pmk False).mpr (Or.inr (Or.inr not_false))
    rwa [decide_false, Bool.or_false] at hflag
  have hown := not_not.trans (ownEntries_eq_nil_iff profile.peers)
  -- HMAC is switched on for an LMK that is not empty, and then needs a key, its own or a peer's
  have hhmac := (flag_eq_isSome_iff profile.lmk (ownEntries profile.peers ≠ [])).trans
    (or_congr_right (or_congr_right hown))
  constructor
  · rintro ⟨-, hflag, -, -, -, -, hpeers⟩
    exact ⟨hhmac.mp hflag, hpeers⟩
  · intro ⟨hlmk, hpeers⟩
    exact ⟨hespNow, hhmac.mpr hlmk, rfl, rfl, rfl, hpeers, hpeers⟩

end Migration

/-! ## Two profiles

One that keeps its meaning and one that does not, under conversions that do what Python does on
them. -/

/-- The conversions, as far as integers and texts in lower case need them. -/
def plainBuiltins : PyBuiltins where
  str _ := []
  int _ := .error .typeError
  stripLower text := text

/-- A profile with capacities of one. -/
def smallProfile (pmk lmk : Str) (peers : List (List (Str × Str))) : LegacyProfile where
  members :=
    [(buildName, .object
        [(ascii ['f', 'i', 'b', '_', 'c', 'a', 'p', 'a', 'c', 'i', 't', 'y'], .int 1),
          (ascii ['p', 'i', 't', '_', 'c', 'a', 'p', 'a', 'c', 'i', 't', 'y'], .int 1),
          (ascii ['c', 's', '_', 'c', 'a', 'p', 'a', 'c', 'i', 't', 'y'], .int 1),
          (ascii ['r', 'i', 'b', '_', 'c', 'a', 'p', 'a', 'c', 'i', 't', 'y'], .int 1)]),
      (runtimeName, .object
        [(securityName, .object [(pmkName, .string pmk), (lmkName, .string lmk)]),
          (peersName, .array (peers.map textObject))])]
  runtime :=
    [(securityName, .object [(pmkName, .string pmk), (lmkName, .string lmk)]),
      (peersName, .array (peers.map textObject))]
  security := [(pmkName, .string pmk), (lmkName, .string lmk)]
  pmk := pmk
  lmk := lmk
  peers := peers
  runtime_eq := rfl
  security_eq := rfl
  pmk_eq := rfl
  lmk_eq := rfl
  peers_eq := rfl
  no_espNow := rfl
  no_icsn := rfl

/-- A profile with a valid PMK, a valid LMK and a peer with fields of its own keeps its meaning. -/
theorem migration_preserves_valid :
    let profile := smallProfile (List.replicate 32 48) (List.replicate 32 49)
      [[(macName, addressToString Mac.zero), (lmkName, List.replicate 32 50)]]
    ∃ capacities runtimeConfig memoryPolicy,
      loadProfile plainBuiltins profile.json = .ok (capacities, runtimeConfig, memoryPolicy) ∧
      (loadSeparatedSecurityConfig runtimeConfig (resetSecurityConfig {})).securitySettings
        = (loadLegacySecurityConfig profile.document
            (resetSecurityConfig {})).securitySettings := by
  intro profile
  exact ⟨_, _, _, rfl, (migration_preserves_iff plainBuiltins profile {} rfl).mpr
    ⟨by decide +kernel, by decide +kernel⟩⟩

/-- A malformed LMK, with a valid peer, turns HMAC on. -/
example :
    let profile := smallProfile [] [48]
      [[(macName, addressToString Mac.zero), (lmkName, List.replicate 32 50)]]
    (loadProfile plainBuiltins profile.json).toOption.map (fun r =>
        (loadSeparatedSecurityConfig r.2.1 (resetSecurityConfig {})).hmacAuthenticationEnabled)
      = some true ∧
    (loadLegacySecurityConfig profile.document
      (resetSecurityConfig {})).hmacAuthenticationEnabled = false := by
  decide +kernel

/-- A peer with its MAC under the other name is loaded from the legacy document alone. -/
theorem not_migration_preserves :
    ¬ ∀ (py : PyBuiltins) (profile : LegacyProfile) (old : SystemConfig)
      (capacities : ProfileCapacities) (runtimeConfig : Json) (memoryPolicy : Str),
      loadProfile py profile.json = .ok (capacities, runtimeConfig, memoryPolicy) →
      (loadSeparatedSecurityConfig runtimeConfig (resetSecurityConfig old)).securitySettings
        = (loadLegacySecurityConfig profile.document
            (resetSecurityConfig old)).securitySettings := by
  intro h
  have hbad := h plainBuiltins (smallProfile [] []
    [[(peerMacName, addressToString Mac.zero), (lmkName, List.replicate 32 50)]]) {} _ _ _ rfl
  revert hbad
  decide +kernel

end Icsn
