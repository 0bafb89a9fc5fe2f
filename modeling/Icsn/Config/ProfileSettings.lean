import Icsn.Config.ProfileMigration
import Icsn.Controller.ConfiguredRoutes

/-!
# Icsn — from a profile to the settings of a node

Whatever layout a profile has, in whichever of its sections: what the script writes of it, and what
the loader reads of that.

* **`RadioTexts`** / **`SectionTexts`** — what a profile says about security, as texts.
* **`espNowCfg_eq`** / **`icsnCfg_eq`** — what the script writes is these texts, each in its place.
* **`settingsOf`** — the settings that the texts stand for.
* **`profile_loaded`** — the main result: the document of an accepted profile, once it is parsed, is
  loaded with these settings and with the routes and limits of the profile, and its capacities are
  those of a build.
* **`sections_stable`** — what the script wrote it writes again.
-/

namespace Icsn

/-! ## What a profile says

The texts of a profile, wherever they stand in it.  From here on it does not matter which layout a
section came from. -/

/-- The member of a dictionary, or the default where there is none. -/
def Json.memberD (value : Json) (key : Str) (default : Json) : Json :=
  match value with
  | .object members => dictGetD members key default
  | _ => default

theorem Json.eq_memberD {value key default result} (h : Json.dictGet value key default
    = .ok result) : result = value.memberD key default := by
  cases value with
  | object members => exact (Except.ok.inj h).symm
  | _ => cases h

/-- What a profile says about one of the two layers: whether it is switched on, the default key, and
the MAC and the key of each peer. -/
structure SectionTexts where
  enabled : Bool
  defaultKey : Str
  peers : List (Str × Str)

/-- What it says about the radio. -/
structure RadioTexts extends SectionTexts where
  pmk : Str

section Texts

variable (py : PyBuiltins)

/-- A peer of a section. -/
def sectionPeer (keyName : Str) : Json → Option (Str × Str)
  | .object members =>
    some (py.toStr (Json.dictGetD members macName (Json.dictGetD members peerMacName (.string []))),
      py.toStr (Json.dictGetD members keyName
        (Json.dictGetD members lmkName (Json.dictGetD members hmacKeyName (.string [])))))
  | _ => none

/-- A peer of a profile without the section. -/
def legacyPeer : Json → Option (Str × Str)
  | .object members =>
    some (py.toStr (Json.dictGetD members macName (.string [])),
      py.toStr (Json.dictGetD members lmkName (.string [])))
  | _ => none

/-- What `runtime` says about the radio, in its section or, without one, in `security`. -/
def radioTexts (runtime : Json) : RadioTexts :=
  let espNowSecurity := runtime.memberD espNowSecurityName (.object [])
  let security := runtime.memberD securityName (.object [])
  if espNowSecurity.truthy then
    { enabled := (espNowSecurity.memberD enabledName (.bool false)).truthy
      pmk := py.toStr (espNowSecurity.memberD pmkName (.string []))
      defaultKey := py.toStr (espNowSecurity.memberD defaultLmkName (.string []))
      peers := (espNowSecurity.memberD peersName (.array [])).elements.filterMap
        (sectionPeer py lmkName) }
  else
    { enabled := (security.memberD pmkName (.string [])).truthy
      pmk := py.toStr (security.memberD pmkName (.string []))
      defaultKey := py.toStr (security.memberD lmkName (.string []))
      peers := (runtime.memberD peersName (.array [])).elements.filterMap (legacyPeer py) }

/-- What it says about ICSN. -/
def icsnTexts (runtime : Json) : SectionTexts :=
  let icsnSecurity := runtime.memberD icsnSecurityName (.object [])
  let security := runtime.memberD securityName (.object [])
  if icsnSecurity.truthy then
    { enabled := (icsnSecurity.memberD hmacEnabledName (.bool false)).truthy
      defaultKey := py.toStr (icsnSecurity.memberD defaultHmacKeyName (.string []))
      peers := (icsnSecurity.memberD peersName (.array [])).elements.filterMap
        (sectionPeer py hmacKeyName) }
  else
    { enabled := decide (py.toStr (security.memberD lmkName (.string [])) ≠ [])
      defaultKey := py.toStr (security.memberD lmkName (.string []))
      peers := (runtime.memberD peersName (.array [])).elements.filterMap (legacyPeer py) }

end Texts

/-! ## What the script writes

It writes the same members whatever the layout, each with its text or with the default. -/

/-- A peer as it is written. -/
def peerEntry (keyName : Str) (peer : Str × Str) : Json :=
  textObject [(macName, peer.1), (keyName, peer.2)]

/-- The section for the radio. -/
def RadioTexts.json (texts : RadioTexts) : Json :=
  .object
    [(enabledName, .bool texts.enabled), (pmkName, .string texts.pmk),
      (defaultLmkName, .string texts.defaultKey),
      (peersName, .array (texts.peers.map (peerEntry lmkName)))]

/-- The section for ICSN. -/
def SectionTexts.icsnJson (texts : SectionTexts) : Json :=
  .object
    [(hmacEnabledName, .bool texts.enabled), (defaultHmacKeyName, .string texts.defaultKey),
      (peersName, .array (texts.peers.map (peerEntry hmacKeyName)))]

section Script

variable {py : PyBuiltins} {keyName : Str}

theorem normalizePeerEntries_eq (peers : Json) :
    normalizePeerEntries py keyName peers
      = (peers.elements.filterMap (sectionPeer py keyName)).map (peerEntry keyName) := by
  unfold normalizePeerEntries Json.elements
  cases peers with
  | array elements =>
    rw [List.map_filterMap]
    refine List.filterMap_congr fun peer _ => ?_
    cases peer <;> rfl
  | _ => rfl

/-- Nothing but the elements of a list can be a dictionary. -/
theorem legacyPeerEntries_iterate {peers : Json} {iterated : List Json}
    (h : peers.iterate = .ok iterated) :
    legacyPeerEntries py keyName iterated
      = (peers.elements.filterMap (legacyPeer py)).map (peerEntry keyName) := by
  have hnone : ∀ {texts : List Str}, legacyPeerEntries py keyName (texts.map Json.string) = [] :=
    fun {texts} => List.filterMap_eq_nil_iff.mpr fun value hvalue => by
      obtain ⟨text, -, rfl⟩ := List.mem_map.mp hvalue
      rfl
  cases peers with
  | array elements =>
    obtain rfl := Except.ok.inj h
    unfold legacyPeerEntries Json.elements
    rw [List.map_filterMap]
    refine List.filterMap_congr fun peer _ => ?_
    cases peer <;> rfl
  | object members =>
    have hmap : members.map (fun member => Json.string member.1)
        = (members.map Prod.fst).map Json.string := List.map_map.symm
    rw [← Except.ok.inj h, hmap, hnone]
    rfl
  | string text =>
    have hmap : text.map (fun c => Json.string [c]) = (text.map fun c => [c]).map Json.string :=
      List.map_map.symm
    rw [← Except.ok.inj h, hmap, hnone]
    rfl
  | _ => cases h

/-- **The section for the radio** that the script writes. -/
theorem espNowCfg_eq {runtime security espNowSecurity legacyPeers cfg : Json}
    (hsecurity : security = runtime.memberD securityName (.object []))
    (hespNow : espNowSecurity = runtime.memberD espNowSecurityName (.object []))
    (hpeers : legacyPeers = runtime.memberD peersName (.array []))
    (h : espNowCfg py espNowSecurity security legacyPeers = .ok cfg) :
    cfg = (radioTexts py runtime).json := by
  unfold espNowCfg at h
  unfold radioTexts
  rw [← hsecurity, ← hespNow, ← hpeers]
  dsimp only
  split at h
  · next htruthy =>
    rw [if_pos htruthy]
    unfold separatedEspNowCfg at h
    obtain ⟨enabled, henabled, h⟩ := bind_eq_ok_iff.mp h
    obtain ⟨pmk, hpmk, h⟩ := bind_eq_ok_iff.mp h
    obtain ⟨defaultLmk, hdefault, h⟩ := bind_eq_ok_iff.mp h
    obtain ⟨peers, hentries, h⟩ := bind_eq_ok_iff.mp h
    rw [← Except.ok.inj h, Json.eq_memberD henabled, Json.eq_memberD hpmk,
      Json.eq_memberD hdefault, Json.eq_memberD hentries, normalizePeerEntries_eq]
    rfl
  · next hfalsy =>
    rw [if_neg hfalsy]
    unfold legacyEspNowCfg at h
    obtain ⟨lmk, hlmk, h⟩ := bind_eq_ok_iff.mp h
    obtain ⟨pmk, hpmk, h⟩ := bind_eq_ok_iff.mp h
    obtain ⟨iterated, hiterated, h⟩ := bind_eq_ok_iff.mp h
    rw [← Except.ok.inj h, Json.eq_memberD hlmk, Json.eq_memberD hpmk,
      legacyPeerEntries_iterate hiterated]
    rfl

/-- **The section for ICSN.** -/
theorem icsnCfg_eq {runtime security icsnSecurity legacyPeers cfg : Json}
    (hsecurity : security = runtime.memberD securityName (.object []))
    (hicsn : icsnSecurity = runtime.memberD icsnSecurityName (.object []))
    (hpeers : legacyPeers = runtime.memberD peersName (.array []))
    (h : icsnCfg py icsnSecurity security legacyPeers = .ok cfg) :
    cfg = (icsnTexts py runtime).icsnJson := by
  unfold icsnCfg at h
  unfold icsnTexts
  rw [← hsecurity, ← hicsn, ← hpeers]
  dsimp only
  split at h
  · next htruthy =>
    rw [if_pos htruthy]
    unfold separatedIcsnCfg at h
    obtain ⟨enabled, henabled, h⟩ := bind_eq_ok_iff.mp h
    obtain ⟨key, hkey, h⟩ := bind_eq_ok_iff.mp h
    obtain ⟨peers, hentries, h⟩ := bind_eq_ok_iff.mp h
    rw [← Except.ok.inj h, Json.eq_memberD henabled, Json.eq_memberD hkey,
      Json.eq_memberD hentries, normalizePeerEntries_eq]
    rfl
  · next hfalsy =>
    rw [if_neg hfalsy]
    unfold legacyIcsnCfg at h
    obtain ⟨lmk, hlmk, h⟩ := bind_eq_ok_iff.mp h
    obtain ⟨iterated, hiterated, h⟩ := bind_eq_ok_iff.mp h
    rw [← Except.ok.inj h, Json.eq_memberD hlmk, legacyPeerEntries_iterate hiterated]
    rfl

end Script

/-! ## What the loader reads

What was written is in the separated layout, and each text is read under the name it was written
under. -/

/-- The peers whose two texts parse. -/
def parsePeers (peers : List (Str × Str)) : List PeerKeyConfig :=
  peers.filterMap fun peer => parsePeer (cstr peer.1) (cstr peer.2)

/-- The settings that the texts stand for. -/
def settingsOf (radio : RadioTexts) (icsn : SectionTexts) : SecuritySettings :=
  let pmk := parseHexString 16 (cstr radio.pmk)
  let hmacKey := parseHexString 16 (cstr icsn.defaultKey)
  { espNowEncryptionEnabled := radio.enabled && pmk.isSome
    hmacAuthenticationEnabled :=
      icsn.enabled && (hmacKey.isSome || decide (parsePeers icsn.peers ≠ []))
    espNowPmk := pmk
    espNowDefaultLmk := parseHexString 16 (cstr radio.defaultKey)
    hmacDefaultKey := hmacKey
    espNowPeers := (parsePeers radio.peers).take maxPeerKeyEntries
    hmacPeers := (parsePeers icsn.peers).take maxPeerKeyEntries }

/-- The two texts of a peer are read as they were written. -/
theorem parsePeerKey_peerEntry {keyName : Str} (hname : keyName ≠ macName) (peer : Str × Str) :
    parsePeerKey keyName (peerEntry keyName peer) = parsePeer (cstr peer.1) (cstr peer.2) := by
  have hkey : peerKeyText keyName (peerEntry keyName peer) = cstr peer.2 := by
    unfold peerKeyText peerEntry
    rw [get_textObject, List.lookup_cons, beq_false_of_ne hname]
    simp [Json.orElse, Json.toBool, Json.orEmpty]
  rw [parsePeerKey_eq, hkey]
  rfl

theorem filterMap_parsePeerKey {keyName : Str} (hname : keyName ≠ macName)
    (peers : List (Str × Str)) :
    (peers.map (peerEntry keyName)).filterMap (parsePeerKey keyName) = parsePeers peers := by
  rw [List.filterMap_map]
  exact List.filterMap_congr fun peer _ => parsePeerKey_peerEntry hname peer

/-- A document with the two sections. -/
theorem securitySettings_sections {document : Json} {radio : RadioTexts} {icsn : SectionTexts}
    (hradio : document.get espNowSecurityName = radio.json)
    (hicsn : document.get icsnSecurityName = icsn.icsnJson) (old : SystemConfig) :
    (loadSeparatedSecurityConfig document (resetSecurityConfig old)).securitySettings
      = settingsOf radio icsn := by
  have hsettings := securitySettings_separated document old
  rw [hradio, hicsn] at hsettings
  refine hsettings.trans ?_
  have hlmkPeers := filterMap_parsePeerKey (by decide : lmkName ≠ macName) radio.peers
  have hhmacPeers := filterMap_parsePeerKey (by decide : hmacKeyName ≠ macName) icsn.peers
  apply SecuritySettings.ext
  · rfl
  · show (_ && (_ || decide ((icsn.peers.map (peerEntry hmacKeyName)).filterMap
      (parsePeerKey hmacKeyName) ≠ []))) = _
    rw [hhmacPeers]
    rfl
  · rfl
  · rfl
  · rfl
  · exact congrArg (List.take 20) hlmkPeers
  · exact congrArg (List.take 20) hhmacPeers

/-! ## The capacities

Each is checked to be positive, so a profile that is accepted gives the constants of a build. -/

section Capacities

variable {py : PyBuiltins}

theorem toPositiveInt_pos {value : Json} {fieldName : Str} {n : Int}
    (h : toPositiveInt py value fieldName = .ok n) : 0 < n := by
  unfold toPositiveInt at h
  split at h
  · cases h
  · obtain ⟨ivalue, -, h⟩ := bind_eq_ok_iff.mp h
    split at h
    · cases h
    · next hpos =>
      rw [← Except.ok.inj h]
      exact not_le.mp hpos

theorem buildCapacity_pos {build : Json} {key : Str} {default : Json} {n : Int}
    (h : buildCapacity py build key default = .ok n) : 0 < n := by
  obtain ⟨value, -, h⟩ := bind_eq_ok_iff.mp h
  exact toPositiveInt_pos h

/-- The constants of the build are those of the profile. -/
structure BuiltWith (capacities : ProfileCapacities) (caps : BuildCapacity) : Prop where
  fib : (caps.fibEntries : Int) = capacities.fib
  pit : (caps.pitEntries : Int) = capacities.pit
  cs : (caps.csEntries : Int) = capacities.cs
  rib : (caps.ribEntries : Int) = capacities.rib
  fibNextHops : (caps.fibNextHopsPerEntry : Int) = capacities.fibNextHopsPerEntry
  pitRequesters : (caps.pitRequestersPerEntry : Int) = capacities.pitRequestersPerEntry
  nodeIdChars : (caps.nodeIdMaxChars : Int) = capacities.nodeIdMaxChars
  ribNextHops : (caps.ribNextHopsPerNode : Int) = capacities.ribNextHopsPerNode

/-- **Accepted capacities** are those of a build. -/
theorem exists_builtWith {build : Json} {capacities : ProfileCapacities}
    (h : loadCapacities py build = .ok capacities) : ∃ caps, BuiltWith capacities caps := by
  unfold loadCapacities at h
  obtain ⟨fib, hfib, h⟩ := bind_eq_ok_iff.mp h
  obtain ⟨pit, hpit, h⟩ := bind_eq_ok_iff.mp h
  obtain ⟨cs, hcs, h⟩ := bind_eq_ok_iff.mp h
  obtain ⟨rib, hrib, h⟩ := bind_eq_ok_iff.mp h
  obtain ⟨fibNextHops, hfibNextHops, h⟩ := bind_eq_ok_iff.mp h
  obtain ⟨pitRequesters, hpitRequesters, h⟩ := bind_eq_ok_iff.mp h
  obtain ⟨nodeIdChars, hnodeIdChars, h⟩ := bind_eq_ok_iff.mp h
  obtain ⟨ribNextHops, hribNextHops, h⟩ := bind_eq_ok_iff.mp h
  obtain rfl := Except.ok.inj h
  have hpos : ∀ {n : Int}, 0 < n → 0 < n.toNat := fun hn => by omega
  have hcast : ∀ {n : Int}, 0 < n → (n.toNat : Int) = n := fun hn => Int.toNat_of_nonneg hn.le
  have hfib := buildCapacity_pos hfib
  have hpit := buildCapacity_pos hpit
  have hcs := buildCapacity_pos hcs
  have hrib := buildCapacity_pos hrib
  have hfibNextHops := buildCapacity_pos hfibNextHops
  have hpitRequesters := buildCapacity_pos hpitRequesters
  have hnodeIdChars := buildCapacity_pos hnodeIdChars
  have hribNextHops := buildCapacity_pos hribNextHops
  exact ⟨⟨fib.toNat, pit.toNat, cs.toNat, rib.toNat, fibNextHops.toNat, pitRequesters.toNat,
      nodeIdChars.toNat, ribNextHops.toNat, hpos hfib, hpos hpit, hpos hcs, hpos hrib,
      hpos hfibNextHops, hpos hpitRequesters, hpos hnodeIdChars, hpos hribNextHops⟩,
    ⟨hcast hfib, hcast hpit, hcast hcs, hcast hrib, hcast hfibNextHops, hcast hpitRequesters,
      hcast hnodeIdChars, hcast hribNextHops⟩⟩

end Capacities

/-! ## The whole profile

The parts put together, from the profile to the settings, routes and limits of the node. -/

section Profile

variable {py : PyBuiltins} {profile runtimeConfig : Json} {capacities : ProfileCapacities}
  {memoryPolicy : Str}

def profileDepthName : Str :=
  ascii ['m', 'a', 'x', '_', 'v', 'i', 'r', 't', 'u', 'a', 'l', '_', 'd', 'e', 'p', 't', 'h']

def profileThresholdName : Str :=
  ascii ['h', 'o', 'p', '_', 'c', 'o', 'u', 'n', 't', '_', 't', 'h', 'r', 'e', 's', 'h', 'o', 'l',
    'd']

/-- The `runtime` of a profile. -/
def profileRuntime (profile : Json) : Json := profile.memberD runtimeName (.object [])

/-- The document that the script writes for these limits. -/
def writtenDocument (py : PyBuiltins) (runtime : Json) (depth threshold : Int) : Json :=
  .object
    [(maxVirtualDepthName, .int depth), (hopCountThresholdName, .int threshold),
      (espNowSecurityName, (radioTexts py runtime).json),
      (icsnSecurityName, (icsnTexts py runtime).icsnJson),
      (fibInitName, runtime.memberD fibInitName (.array []))]

/-- **The script's output** for a profile it accepts. -/
theorem loadProfile_eq
    (h : loadProfile py profile = .ok (capacities, runtimeConfig, memoryPolicy)) :
    let runtime := profileRuntime profile
    loadCapacities py (profile.memberD buildName (.object [])) = .ok capacities ∧
      ∃ depth threshold,
        py.toInt (runtime.memberD profileDepthName (.int 5)) = .ok depth ∧
        py.toInt (runtime.memberD profileThresholdName (.int 10)) = .ok threshold ∧
        runtimeConfig = writtenDocument py runtime depth threshold := by
  unfold loadProfile at h
  obtain ⟨build, hbuild, h⟩ := bind_eq_ok_iff.mp h
  obtain ⟨runtime, hruntime, h⟩ := bind_eq_ok_iff.mp h
  obtain ⟨security, hsecurity, h⟩ := bind_eq_ok_iff.mp h
  obtain ⟨espNowSecurity, hespNow, h⟩ := bind_eq_ok_iff.mp h
  obtain ⟨icsnSecurity, hicsn, h⟩ := bind_eq_ok_iff.mp h
  obtain ⟨legacyPeers, hpeers, h⟩ := bind_eq_ok_iff.mp h
  obtain ⟨espNow, hespNowCfg, h⟩ := bind_eq_ok_iff.mp h
  obtain ⟨icsn, hicsnCfg, h⟩ := bind_eq_ok_iff.mp h
  obtain ⟨capacities', hcapacities, h⟩ := bind_eq_ok_iff.mp h
  obtain ⟨csPayloadMemory, -, h⟩ := bind_eq_ok_iff.mp h
  obtain ⟨depthValue, hdepthValue, h⟩ := bind_eq_ok_iff.mp h
  obtain ⟨depth, hdepth, h⟩ := bind_eq_ok_iff.mp h
  obtain ⟨thresholdValue, hthresholdValue, h⟩ := bind_eq_ok_iff.mp h
  obtain ⟨threshold, hthreshold, h⟩ := bind_eq_ok_iff.mp h
  obtain ⟨fibInit, hfibInit, h⟩ := bind_eq_ok_iff.mp h
  -- every step has succeeded, so the output is known, and each member was read or has its default
  obtain ⟨rfl, hwritten⟩ := Prod.mk.inj (Except.ok.inj h)
  obtain ⟨rfl, -⟩ := Prod.mk.inj hwritten
  obtain rfl := Json.eq_memberD hbuild
  obtain rfl := Json.eq_memberD hruntime
  obtain rfl := Json.eq_memberD hdepthValue
  obtain rfl := Json.eq_memberD hthresholdValue
  refine ⟨hcapacities, depth, threshold, hdepth, hthreshold, ?_⟩
  rw [espNowCfg_eq (Json.eq_memberD hsecurity) (Json.eq_memberD hespNow) (Json.eq_memberD hpeers)
      hespNowCfg, icsnCfg_eq (Json.eq_memberD hsecurity) (Json.eq_memberD hicsn)
      (Json.eq_memberD hpeers) hicsnCfg, Json.eq_memberD hfibInit]
  rfl

/-- **An accepted profile is loaded as it is meant.**  Whatever layout the profile has in each of
its sections, and once its document is parsed (which takes more than a profile that is accepted: the
document has to be there and to fit the 2048 bytes of the parser): the security settings are those
its texts stand for, the routes and the limits are its own, and its capacities are those of a
build. -/
theorem profile_loaded (py : PyBuiltins) (profile : Json) {capacities : ProfileCapacities}
    {runtimeConfig : Json} {memoryPolicy : Str}
    (h : loadProfile py profile = .ok (capacities, runtimeConfig, memoryPolicy))
    (old : SystemConfig) :
    let runtime := profileRuntime profile
    let r := loadSystemConfig { mounted := true, opened := true, parsed := some runtimeConfig } old
    r.1 = true ∧
    r.2.securitySettings = settingsOf (radioTexts py runtime) (icsnTexts py runtime) ∧
    r.2.fibInitRoutes = documentRoutes (runtime.memberD fibInitName (.array [])).elements ∧
    (∃ depth threshold,
      py.toInt (runtime.memberD profileDepthName (.int 5)) = .ok depth ∧
      py.toInt (runtime.memberD profileThresholdName (.int 10)) = .ok threshold ∧
      r.2.maxVirtualDepth = (Json.int depth).orInt 5 ∧
      r.2.hopCountThreshold = (Json.int threshold).orInt 10) ∧
    ∃ caps, BuiltWith capacities caps := by
  intro runtime r
  obtain ⟨hcapacities, depth, threshold, hdepth, hthreshold, rfl⟩ := loadProfile_eq h
  have hroutes : r.2.fibInitRoutes
      = documentRoutes (runtime.memberD fibInitName (.array [])).elements :=
    @fibInitRoutes_loadSystemConfig _ (writtenDocument py runtime depth threshold) rfl old
  -- the limits are read first, then the sections over a reset, and the routes last
  obtain ⟨start, hstart⟩ : ∃ start, start = { old with
    maxVirtualDepth := (Json.int depth).orInt 5
    hopCountThreshold := (Json.int threshold).orInt 10 } := ⟨_, rfl⟩
  obtain ⟨count, entries, hload⟩ := loadFibInit_eq
    (runtime.memberD fibInitName (.array [])).elements
    { loadSeparatedSecurityConfig (writtenDocument py runtime depth threshold)
        (resetSecurityConfig start) with
      fibInitCount := 0, fibInitEntries := List.Vector.replicate _ {} }
  have hr : r.2 = { loadSeparatedSecurityConfig (writtenDocument py runtime depth threshold)
      (resetSecurityConfig start) with fibInitCount := count, fibInitEntries := entries } := by
    rw [← hload, hstart]
    rfl
  refine ⟨rfl, ?_, hroutes, ⟨depth, threshold, hdepth, hthreshold, ?_, ?_⟩,
    exists_builtWith hcapacities⟩
  · rw [hr]
    exact securitySettings_sections rfl rfl start
  · rw [hr, hstart]
    rfl
  · rw [hr, hstart]
    rfl

/-- A profile in two layouts: legacy for the radio, and a section for ICSN in which a peer has its
MAC and its key under their other names. -/
def mixedProfile : Json :=
  .object
    [(buildName, .object
        [(ascii ['f', 'i', 'b', '_', 'c', 'a', 'p', 'a', 'c', 'i', 't', 'y'], .int 1),
          (ascii ['p', 'i', 't', '_', 'c', 'a', 'p', 'a', 'c', 'i', 't', 'y'], .int 1),
          (ascii ['c', 's', '_', 'c', 'a', 'p', 'a', 'c', 'i', 't', 'y'], .int 1),
          (ascii ['r', 'i', 'b', '_', 'c', 'a', 'p', 'a', 'c', 'i', 't', 'y'], .int 1)]),
      (runtimeName, .object
        [(securityName, .object [(pmkName, .string (List.replicate 32 48))]),
          (icsnSecurityName, .object
            [(hmacEnabledName, .bool true),
              (peersName, .array [textObject
                [(peerMacName, addressToString Mac.zero), (lmkName, List.replicate 32 50)]])])])]

/-- The peer's key alone switches HMAC on. -/
theorem profile_loaded_mixed :
    ∃ capacities runtimeConfig memoryPolicy,
      loadProfile plainBuiltins mixedProfile = .ok (capacities, runtimeConfig, memoryPolicy) ∧
      let loaded := (loadSystemConfig
        { mounted := true, opened := true, parsed := some runtimeConfig } {}).2.securitySettings
      loaded = settingsOf (radioTexts plainBuiltins (profileRuntime mixedProfile))
        (icsnTexts plainBuiltins (profileRuntime mixedProfile)) ∧
      loaded.hmacAuthenticationEnabled = true ∧ loaded.hmacDefaultKey = none := by
  refine ⟨_, _, _, rfl, ?_⟩
  intro loaded
  have hloaded : loaded = _ := (profile_loaded plainBuiltins mixedProfile rfl {}).2.1
  refine ⟨hloaded, ?_⟩
  rw [hloaded]
  decide +kernel

/-! ## Written again

What the script writes has sections, so a profile made of it is read from these.  It says what the
first profile said. -/

theorem filterMap_sectionPeer {keyName : Str} (hname : keyName ≠ macName)
    (peers : List (Str × Str)) :
    (peers.map (peerEntry keyName)).filterMap (sectionPeer py keyName) = peers := by
  rw [List.filterMap_map]
  refine (List.filterMap_congr fun peer _ => ?_).trans (List.filterMap_some (l := peers))
  have hkey : ∀ other : Json, Json.dictGetD [(macName, Json.string peer.1),
      (keyName, Json.string peer.2)] keyName other = .string peer.2 := by
    intro other
    unfold Json.dictGetD
    rw [List.lookup_cons, beq_false_of_ne hname, List.lookup_cons, beq_self_eq_true]
    rfl
  show some (_, py.toStr (Json.dictGetD [(macName, Json.string peer.1),
    (keyName, Json.string peer.2)] keyName _)) = some peer
  rw [hkey]
  rfl

theorem radioTexts_of_json {runtime : Json} {texts : RadioTexts}
    (h : runtime.memberD espNowSecurityName (.object []) = texts.json) :
    radioTexts py runtime = texts := by
  have hpeers := @filterMap_sectionPeer py lmkName (by decide) texts.peers
  have htruthy : texts.json.truthy = true := rfl
  obtain ⟨⟨enabled, defaultKey, peers⟩, pmk⟩ := texts
  unfold radioTexts
  dsimp only
  rw [h, if_pos htruthy]
  exact congrArg (fun peers => RadioTexts.mk ⟨enabled, defaultKey, peers⟩ pmk) hpeers

theorem icsnTexts_of_json {runtime : Json} {texts : SectionTexts}
    (h : runtime.memberD icsnSecurityName (.object []) = texts.icsnJson) :
    icsnTexts py runtime = texts := by
  have hpeers := @filterMap_sectionPeer py hmacKeyName (by decide) texts.peers
  have htruthy : texts.icsnJson.truthy = true := rfl
  obtain ⟨enabled, defaultKey, peers⟩ := texts
  unfold icsnTexts
  dsimp only
  rw [h, if_pos htruthy]
  exact congrArg (SectionTexts.mk enabled defaultKey) hpeers

/-- **The sections are stable.**  A profile that has the two sections as the script wrote them for
another profile, whatever else it has, gets the same two sections written. -/
theorem sections_stable (py : PyBuiltins) (profile profile' : Json)
    {capacities capacities' : ProfileCapacities} {runtimeConfig runtimeConfig' : Json}
    {memoryPolicy memoryPolicy' : Str}
    (h : loadProfile py profile = .ok (capacities, runtimeConfig, memoryPolicy))
    (h' : loadProfile py profile' = .ok (capacities', runtimeConfig', memoryPolicy'))
    (hespNow : (profileRuntime profile').memberD espNowSecurityName (.object [])
      = runtimeConfig.get espNowSecurityName)
    (hicsn : (profileRuntime profile').memberD icsnSecurityName (.object [])
      = runtimeConfig.get icsnSecurityName) :
    runtimeConfig'.get espNowSecurityName = runtimeConfig.get espNowSecurityName ∧
      runtimeConfig'.get icsnSecurityName = runtimeConfig.get icsnSecurityName := by
  obtain ⟨-, depth, threshold, -, -, rfl⟩ := loadProfile_eq h
  obtain ⟨-, depth', threshold', -, -, rfl⟩ := loadProfile_eq h'
  -- the texts read from a section are those it was written with
  have hradio : radioTexts py (profileRuntime profile') = radioTexts py (profileRuntime profile) :=
    radioTexts_of_json hespNow
  have hicsnTexts : icsnTexts py (profileRuntime profile')
      = icsnTexts py (profileRuntime profile) := icsnTexts_of_json hicsn
  show (radioTexts py (profileRuntime profile')).json = (radioTexts py _).json ∧
    (icsnTexts py (profileRuntime profile')).icsnJson = (icsnTexts py _).icsnJson
  rw [hradio, hicsnTexts]
  exact ⟨rfl, rfl⟩

/-- A legacy profile, and one that has the document written for it as its `runtime`. -/
theorem sections_stable_legacy :
    let profile := (smallProfile (List.replicate 32 48) [49]
      [[(macName, addressToString Mac.zero), (lmkName, List.replicate 32 50)]]).json
    let profile' := .object [(buildName, profile.memberD buildName .null),
      (runtimeName, writtenDocument plainBuiltins (profileRuntime profile) 5 10)]
    ∃ capacities runtimeConfig runtimeConfig' memoryPolicy,
      loadProfile plainBuiltins profile = .ok (capacities, runtimeConfig, memoryPolicy) ∧
      loadProfile plainBuiltins profile' = .ok (capacities, runtimeConfig', memoryPolicy) ∧
      runtimeConfig'.get espNowSecurityName = runtimeConfig.get espNowSecurityName ∧
      runtimeConfig'.get icsnSecurityName = runtimeConfig.get icsnSecurityName := by
  intro profile profile'
  exact ⟨_, _, _, _, rfl, rfl, sections_stable plainBuiltins profile profile' rfl rfl rfl rfl⟩

end Profile

end Icsn
