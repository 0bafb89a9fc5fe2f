import Icsn.Controller.ConfiguredHmac
import Icsn.Controller.PeerIsolation

/-!
# Icsn — the keys of a document in the legacy layout

One list of peers and one default key, for the encryption of the radio and for HMAC.  The first is
searched at each use, `resolveEspNowLmk` taking the first entry of a MAC; the second is written into
the table of peers at the start, a later entry over an earlier one, and needs a slot.

* **`legacyPeers`** / **`legacyDefault`** — the keys of the document.
* **`resolveEspNowLmk_legacy`** / **`hmacKeyFor_legacy`** — what each path makes of them.
* **`legacy_keys_agree_iff`** — the paths agree on a MAC exactly if its first and its last entry
  have the same key, and it has an entry unless there is a slot or no default key.
-/

namespace Icsn

open ESP_NOWController

/-! ## The document

One list and one default key serve both paths, so what follows can be said of the document alone.
Only entries whose MAC and key parse are loaded, and no more than twenty of them. -/

/-- The document has neither of the sections of the separated layout. -/
def IsLegacy (document : Json) : Prop :=
  document.containsKey espNowSecurityName = false ∧ document.containsKey icsnSecurityName = false

instance (document : Json) : Decidable (IsLegacy document) := inferInstanceAs (Decidable (_ ∧ _))

/-- The entries that are loaded: the first whose MAC and key texts both parse. -/
def legacyPeers (document : Json) : List PeerKeyConfig :=
  ((document.get peersName).elements.filterMap (parsePeerKey lmkName)).take maxPeerKeyEntries

/-- The default key, if its text parses. -/
def legacyDefault (document : Json) : Option Key :=
  parseHexString 16 (document.get (ascii ['L', 'M', 'K'])).orEmpty

/-- The keys that entries have for a MAC, in their order. -/
def keysOf (mac : Mac) (entries : List PeerKeyConfig) : List Key :=
  (entries.filter fun entry => decide (entry.mac = mac)).map PeerKeyConfig.key

/-- The MACs of entries. -/
def macsOf (entries : List PeerKeyConfig) : Finset Mac := (entries.map PeerKeyConfig.mac).toFinset

/-- The key that `computeHMAC` resolves for a MAC. -/
def PeerCounterManager.hmacKeyFor (mac : Mac) (m : PeerCounterManager) : Option Key :=
  match m.findOrCreatePeerIndex mac with
  | (none, _) => none
  | (some idx, m) => m.resolveLmk idx

/-! ## What is loaded

The loader writes the same entries and the same default key to the settings of the radio and to
those of HMAC.  From here on the two paths differ only in how they use them. -/

theorem valid_of_parsePeerKey {keyName : Str} {peer : Json} {entry : PeerKeyConfig}
    (h : parsePeerKey keyName peer = some entry) : entry.valid = true := by
  unfold parsePeerKey at h
  split at h
  · obtain rfl := Option.some.inj h
    rfl
  · cases h

theorem valid_of_mem_legacyPeers {document : Json} {entry : PeerKeyConfig}
    (h : entry ∈ legacyPeers document) : entry.valid = true := by
  obtain ⟨peer, -, hentry⟩ := List.mem_filterMap.mp (List.mem_of_mem_take h)
  exact valid_of_parsePeerKey hentry

/-- The entries for the radio that a configuration has in use. -/
def SystemConfig.espNowPeers (systemConfig : SystemConfig) : List PeerKeyConfig :=
  systemConfig.espNowPeerLmkEntries.toList.take systemConfig.espNowPeerLmkCount

/-- The default key for the radio that a configuration has in use. -/
def SystemConfig.espNowDefault (systemConfig : SystemConfig) : Option Key :=
  if systemConfig.espNowDefaultLmkConfigured then some systemConfig.espNowDefaultLmk else none

/-- **The legacy layout**: both paths get the same entries and the same default key. -/
theorem loadLegacySecurityConfig_keys (document : Json) (old : SystemConfig) :
    let r := loadLegacySecurityConfig document (resetSecurityConfig old)
    r.espNowPeers = legacyPeers document ∧ r.hmacPeers = legacyPeers document ∧
      r.espNowDefault = legacyDefault document ∧ r.hmacDefault = legacyDefault document := by
  have hdefault : resultOf (hexStringToBytes (document.get (ascii ['L', 'M', 'K'])).orEmpty
      (resetSecurityConfig old).espNowDefaultLmk) = legacyDefault document :=
    resultOf_hexStringToBytes _ _
  revert hdefault
  unfold loadLegacySecurityConfig
  dsimp only
  generalize hexStringToBytes (document.get (ascii ['L', 'M', 'K'])).orEmpty
    (resetSecurityConfig old).espNowDefaultLmk = lmk
  intro hdefault
  refine ⟨take_loadPeerKeys lmkName (document.get peersName) _,
    take_loadPeerKeys lmkName (document.get peersName) _, ?_⟩
  rw [← hdefault]
  obtain ⟨configured, key⟩ := lmk
  cases configured with
  | true => exact ⟨rfl, rfl⟩
  | false => exact ⟨rfl, rfl⟩

/-- **What is loaded** of a legacy document. -/
theorem loadSystemConfig_legacy {file : ConfigFile} {document : Json}
    (hdocument : file.document? = some document) (hlegacy : IsLegacy document)
    (old : SystemConfig) :
    let r := (loadSystemConfig file old).2
    r.espNowPeers = legacyPeers document ∧ r.hmacPeers = legacyPeers document ∧
      r.espNowDefault = legacyDefault document ∧ r.hmacDefault = legacyDefault document := by
  unfold loadSystemConfig
  rw [hdocument]
  dsimp only
  rw [hlegacy.1, hlegacy.2, if_neg (by decide)]
  obtain ⟨count, entries, hroutes⟩ := loadFibInit_eq
    (document.get (ascii ['f', 'i', 'b', '_', 'i', 'n', 'i', 't'])).elements _
  rw [hroutes]
  exact loadLegacySecurityConfig_keys document _

/-! ## The two paths

The radio searches the list from its head and stops at the first entry.  HMAC goes through the list
once, at the boot, each entry overwriting an earlier one of its MAC, and looks the key up in a slot,
of which there are twenty. -/

section Paths

variable {mac : Mac} {entries : List PeerKeyConfig}

/-- **`resolveEspNowLmk`** takes the first entry of the MAC. -/
theorem resolveEspNowLmk_eq {systemConfig : SystemConfig}
    (hvalid : ∀ entry ∈ systemConfig.espNowPeers, entry.valid = true) (mac : Mac) :
    resolveEspNowLmk systemConfig mac
      = ((keysOf mac systemConfig.espNowPeers).head?).or systemConfig.espNowDefault := by
  have hfind : systemConfig.espNowPeers.find?
        (fun entry => entry.valid && decide (entry.mac = mac))
      = (systemConfig.espNowPeers.filter fun entry => decide (entry.mac = mac)).head? := by
    rw [← List.head?_filter]
    refine congrArg List.head? (List.filter_congr fun entry hentry => ?_)
    rw [hvalid entry hentry, Bool.true_and]
  unfold resolveEspNowLmk keysOf
  rw [List.head?_map, ← hfind]
  have hpeers : systemConfig.espNowPeerLmkEntries.toList.take systemConfig.espNowPeerLmkCount
      = systemConfig.espNowPeers := rfl
  rw [hpeers]
  cases systemConfig.espNowPeers.find? fun entry => entry.valid && decide (entry.mac = mac) with
  | none => rfl
  | some entry => rfl

/-- The key written last is that of the last entry of the MAC. -/
theorem configuredKey_eq (hvalid : ∀ entry ∈ entries, entry.valid = true) :
    configuredKey mac entries = (keysOf mac entries).getLast? := by
  induction entries with
  | nil => rfl
  | cons entry entries ih =>
    obtain ⟨hentry, hentries⟩ := List.forall_mem_cons.mp hvalid
    unfold configuredKey keysOf
    rw [ih hentries]
    by_cases hmac : entry.mac = mac
    · rw [if_pos ⟨hentry, hmac⟩, List.filter_cons, if_pos (decide_eq_true hmac), List.map_cons,
        List.getLast?_cons]
      unfold keysOf
      generalize ((entries.filter fun entry => decide (entry.mac = mac)).map
        PeerKeyConfig.key).getLast? = last
      cases last with
      | none => rfl
      | some key => rfl
    · rw [if_neg fun h => hmac h.2, Option.or_none, List.filter_cons, if_neg (by simpa using hmac)]
      rfl

theorem keysOf_ne_nil_iff : keysOf mac entries ≠ [] ↔ mac ∈ macsOf entries := by
  unfold keysOf macsOf
  rw [ne_eq, List.map_eq_nil_iff, List.filter_eq_nil_iff, List.mem_toFinset, List.mem_map]
  simp

namespace PeerCounterManager

variable {m : PeerCounterManager}

theorem hmacKeyFor_eq (mac : Mac) (m : PeerCounterManager) :
    m.hmacKeyFor mac = if m.HasRoom mac then m.keyFor mac else none := by
  unfold hmacKeyFor
  rcases findOrCreatePeerIndex_cases mac m with
    ⟨hroom, heq⟩ | ⟨hroom, idx, m', heq, -, hslot, hsame⟩
  · rw [heq, if_neg hroom]
  · rw [heq, if_pos hroom]
    exact resolveLmk_eq hslot hsame

/-- It is the key under which `computeHMAC` computes. -/
theorem computeHMAC_eq (hmacSha256 : Key → List UInt8 → Hmac) (data : List UInt8) (mdOk : Bool) :
    (m.computeHMAC hmacSha256 mac data mdOk).1
      = if mdOk = true then (m.hmacKeyFor mac).map (hmacSha256 · data) else none := by
  unfold computeHMAC hmacKeyFor
  obtain ⟨answer, m'⟩ := m.findOrCreatePeerIndex mac
  cases answer with
  | none => cases mdOk <;> rfl
  | some idx =>
    dsimp only
    cases m'.resolveLmk idx with
    | none => cases mdOk <;> rfl
    | some lmk => cases mdOk <;> rfl

/-- **The loop over the entries** gives their MACs a slot, and no others. -/
theorem setPeerLMKs_slots (entries : List PeerKeyConfig)
    (hvalid : ∀ entry ∈ entries, entry.valid = true) (hunique : m.MacsUnique)
    (hslots : m.slotsTaken + entries.length ≤ maxPeers) :
    (m.setPeerLMKs entries).MacsUnique ∧
      (m.setPeerLMKs entries).activeMacs = macsOf entries ∪ m.activeMacs := by
  -- over the entries: each finds a slot, as there are no more entries than slots left
  induction entries generalizing m with
  | nil => exact ⟨hunique, (Finset.empty_union _).symm⟩
  | cons entry entries ih =>
    obtain ⟨hentry, hentries⟩ := List.forall_mem_cons.mp hvalid
    rw [List.length_cons] at hslots
    have htaken := m.slotsTaken_setPeerLMK_le entry.mac entry.key
    have hroom : slots.HasRoom entry.mac m.peers := by
      apply SlotKind.hasRoom_of_card_lt
      show m.slotsTaken < maxPeers
      omega
    have hone : slots.OneSlotEach m.peers := hunique
    have hsame := sameSlots_setPeerLMK entry.mac entry.key m
    have hunique' : (m.setPeerLMK entry.mac entry.key).2.MacsUnique := by
      have hclaim := hone.claim entry.mac
      rw [← peers_findOrCreatePeerIndex] at hclaim
      exact hclaim.congr hsame
    -- the slot is that of its MAC, new or not
    have hmacs : (m.setPeerLMK entry.mac entry.key).2.activeMacs
        = insert entry.mac m.activeMacs := by
      unfold activeMacs
      rw [SlotKind.SameSlots.keysInUse_eq hsame, peers_findOrCreatePeerIndex,
        SlotKind.keysInUse_claim hroom]
    obtain ⟨hunique'', hmacs'⟩ := ih hentries hunique' (by omega)
    rw [setPeerLMKs_cons, if_pos hentry]
    refine ⟨hunique'', hmacs'.trans ?_⟩
    rw [hmacs]
    unfold macsOf
    rw [List.map_cons, List.toFinset_cons, Finset.insert_union, Finset.union_insert]

/-- A table without peers has no MAC in use. -/
theorem activeMacs_of_no_peer (h : ∀ i, (m.peers i).active = false) : m.activeMacs = ∅ := by
  rw [Finset.eq_empty_iff_forall_notMem]
  intro mac hmac
  obtain ⟨i, hlive, -⟩ := SlotKind.found_iff_exists.mp (SlotKind.mem_keysInUse.mp hmac)
  exact absurd ((h i).symm.trans hlive) (by decide)

/-- **Room after the loop**: for the MACs of the entries, and for any if they are fewer than the
slots. -/
theorem hasRoom_setPeerLMKs (hempty : ∀ i, (m.peers i).active = false)
    (hvalid : ∀ entry ∈ entries, entry.valid = true) (hlen : entries.length ≤ maxPeers)
    (mac : Mac) :
    (m.setPeerLMKs entries).HasRoom mac ↔
      keysOf mac entries ≠ [] ∨ (macsOf entries).card < maxPeers := by
  have hunique : m.MacsUnique := fun i j hi => absurd ((hempty i).symm.trans hi) (by decide)
  have hslots : m.slotsTaken + entries.length ≤ maxPeers := by
    rw [slotsTaken_of_no_peer hempty, Nat.zero_add]
    exact hlen
  obtain ⟨hunique', hmacs⟩ := setPeerLMKs_slots entries hvalid hunique hslots
  rw [activeMacs_of_no_peer hempty, Finset.union_empty] at hmacs
  have hone : slots.OneSlotEach (m.setPeerLMKs entries).peers := hunique'
  rw [keysOf_ne_nil_iff, ← hmacs]
  exact hone.hasRoom_iff mac

end PeerCounterManager

/-- **The table after a boot** has a slot for each entry. -/
theorem hasRoom_boot {caps : BuildCapacity} {systemConfig : SystemConfig}
    (hvalid : ∀ entry ∈ systemConfig.hmacPeers, entry.valid = true) (mac : Mac) :
    (boot caps systemConfig).peerCounterManager.HasRoom mac ↔
      keysOf mac systemConfig.hmacPeers ≠ [] ∨ (macsOf systemConfig.hmacPeers).card < maxPeers := by
  have hlen := systemConfig.length_hmacPeers_le
  unfold boot
  rw [peerCounterManager_loadAndApplyConfig]
  cases systemConfig.hmacDefault with
  | none => exact PeerCounterManager.hasRoom_setPeerLMKs (fun _ => rfl) hvalid hlen mac
  | some key => exact PeerCounterManager.hasRoom_setPeerLMKs (fun _ => rfl) hvalid hlen mac

/-- **The key of the radio** after a legacy document is loaded. -/
theorem resolveEspNowLmk_legacy {file : ConfigFile} {document : Json}
    (hdocument : file.document? = some document) (hlegacy : IsLegacy document)
    (old : SystemConfig) (mac : Mac) :
    resolveEspNowLmk (loadSystemConfig file old).2 mac
      = ((keysOf mac (legacyPeers document)).head?).or (legacyDefault document) := by
  obtain ⟨hpeers, -, hdefault, -⟩ := loadSystemConfig_legacy hdocument hlegacy old
  rw [resolveEspNowLmk_eq, hpeers, hdefault]
  rw [hpeers]
  exact fun entry => valid_of_mem_legacyPeers

/-- **The key of HMAC** after a boot with a legacy document. -/
theorem hmacKeyFor_legacy {caps : BuildCapacity} {file : ConfigFile} {document : Json}
    (hdocument : file.document? = some document) (hlegacy : IsLegacy document)
    (old : SystemConfig) (mac : Mac) :
    (boot caps (loadSystemConfig file old).2).peerCounterManager.hmacKeyFor mac
      = if keysOf mac (legacyPeers document) ≠ [] ∨
            (macsOf (legacyPeers document)).card < maxPeers then
          ((keysOf mac (legacyPeers document)).getLast?).or (legacyDefault document)
        else none := by
  obtain ⟨-, hpeers, -, hdefault⟩ := loadSystemConfig_legacy hdocument hlegacy old
  have hvalid : ∀ entry ∈ (loadSystemConfig file old).2.hmacPeers, entry.valid = true := by
    rw [hpeers]
    exact fun entry => valid_of_mem_legacyPeers
  have hroom : (boot caps (loadSystemConfig file old).2).peerCounterManager.HasRoom mac ↔ _ :=
    hasRoom_boot hvalid mac
  rw [hpeers] at hroom
  rw [PeerCounterManager.hmacKeyFor_eq, if_congr hroom rfl rfl, keyFor_boot,
    configuredKey_eq hvalid, hpeers, hdefault]

end Paths

/-- **The two paths agree on a MAC** exactly if its first and its last entry, of the first twenty
that parse, have the same key, and without an entry for it there is a slot left or no default key:
then the key with which the radio encrypts for it is the key of its HMAC, or it has neither. -/
theorem legacy_keys_agree_iff {caps : BuildCapacity} (file : ConfigFile) (old : SystemConfig)
    (document : Json) (hdocument : file.document? = some document) (hlegacy : IsLegacy document)
    (systemConfig : SystemConfig) (c : ESP_NOWController caps)
    (happlied : loadAndApplyConfigFile file old (init caps) = (true, systemConfig, c))
    (mac : Mac) :
    resolveEspNowLmk systemConfig mac = c.peerCounterManager.hmacKeyFor mac ↔
      (keysOf mac (legacyPeers document)).head? = (keysOf mac (legacyPeers document)).getLast? ∧
      (keysOf mac (legacyPeers document) ≠ [] ∨ (macsOf (legacyPeers document)).card < 20 ∨
        legacyDefault document = none) := by
  obtain ⟨-, rfl, rfl⟩ := loadAndApplyConfigFile_eq_true happlied
  show _ = (boot caps (loadSystemConfig file old).2).peerCounterManager.hmacKeyFor mac ↔ _
  rw [resolveEspNowLmk_legacy hdocument hlegacy, hmacKeyFor_legacy hdocument hlegacy]
  by_cases hentry : keysOf mac (legacyPeers document) = []
  · -- no entry: the default key, for HMAC only with a slot
    rw [hentry]
    simp only [ne_eq, not_true_eq_false, false_or, List.head?_nil, List.getLast?_nil,
      Option.none_or, true_and]
    by_cases hslot : (macsOf (legacyPeers document)).card < maxPeers
    · rw [if_pos hslot]
      exact iff_of_true rfl (Or.inl hslot)
    · rw [if_neg hslot]
      exact (or_iff_right hslot).symm
  · rw [if_pos (Or.inl hentry), and_iff_left (Or.inl hentry)]
    cases hkeys : keysOf mac (legacyPeers document) with
    | nil => exact absurd hkeys hentry
    | cons key keys =>
      rw [List.head?_cons, List.getLast?_cons]
      exact Iff.rfl

/-- `{"LMK": lmk, "peers": [{"mac": "00:00:00:00:00:00", "lmk": text}, ...]}`. -/
def legacyDocument (lmk : Str) (texts : List Str) : Json :=
  .object [(ascii ['L', 'M', 'K'], .string lmk),
    (peersName, .array (texts.map fun text => .object
      [(ascii ['m', 'a', 'c'], .string (addressToString Mac.zero)), (lmkName, .string text)]))]

def legacyFile (lmk : Str) (texts : List Str) : ConfigFile where
  mounted := true
  opened := true
  parsed := some (legacyDocument lmk texts)

/-- Four entries for a MAC: the second does not parse, the third has another key, and the first and
the last have the same one. -/
theorem legacy_keys_agree_iff_same_ends :
    let texts := [List.replicate 32 48, ascii ['x', 'y', 'z'], List.replicate 32 49,
      List.replicate 32 48]
    let file := legacyFile (List.replicate 32 50) texts
    (keysOf Mac.zero (legacyPeers (legacyDocument (List.replicate 32 50) texts))).length = 3 ∧
    resolveEspNowLmk (loadSystemConfig file {}).2 Mac.zero
      = (boot (.uniform 1 (by decide)) (loadSystemConfig file {}).2).peerCounterManager.hmacKeyFor
          Mac.zero := by
  intro texts file
  refine ⟨by decide +kernel, ?_⟩
  exact (legacy_keys_agree_iff file {} (legacyDocument (List.replicate 32 50) texts) rfl
    (by decide +kernel) _ _ rfl Mac.zero).mpr ⟨by decide +kernel, by decide +kernel⟩

/-- A MAC with two entries has the key of the first on the radio and that of the second for HMAC. -/
theorem not_legacy_keys_agree :
    ¬ ∀ (caps : BuildCapacity) (file : ConfigFile) (old : SystemConfig) (document : Json),
      file.document? = some document → IsLegacy document →
      ∀ (systemConfig : SystemConfig) (c : ESP_NOWController caps),
      loadAndApplyConfigFile file old (init caps) = (true, systemConfig, c) →
      ∀ mac, resolveEspNowLmk systemConfig mac = c.peerCounterManager.hmacKeyFor mac := by
  intro h
  have hbad := h (.uniform 1 (by decide))
    (legacyFile [] [List.replicate 32 48, List.replicate 32 49]) {} _ rfl (by decide +kernel) _ _
    rfl Mac.zero
  revert hbad
  decide +kernel

end Icsn
