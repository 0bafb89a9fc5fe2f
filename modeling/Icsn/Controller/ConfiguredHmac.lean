import Icsn.Controller.ConfiguredKeys
import Icsn.Lib.StepRun

/-!
# Icsn — a configuration that asks for HMAC

What `icsn_security.hmac_enabled` brings about, from the document to the packets received.  A
document that asks for HMAC and has no usable key is loaded all the same, and HMAC stays off.

* **`documentKeys`** — the usable HMAC keys of a document.
* **`loadSystemConfig_hmac`** / **`mem_documentKeys_of_keyFor_boot`** — when HMAC is enabled, and
  where the keys come from.
* **`asked_hmac_verified`** — with a usable key, every packet processed has passed `verifyHMAC`
  under a key of the document.
-/

namespace Icsn

open StepRun

/-! ## The document

What counts as a usable key, stated of the document: a text that parses.  No text is usable for the
loader that is not so here, and the other way round, which is what the next section shows. -/

/-- The document has `icsn_security.hmac_enabled` set to `true`. -/
def asksForHmac (document : Json) : Bool := hmacEnabledFlag (document.get icsnSecurityName)

/-- The HMAC keys of the peers of a document, those whose MAC and key texts both parse. -/
def documentPeers (document : Json) : List PeerKeyConfig :=
  ((document.get icsnSecurityName).get peersName).elements.filterMap (parsePeerKey hmacKeyName)

/-- The default HMAC key of a document, if its text parses. -/
def documentDefault (document : Json) : Option Key :=
  parseHexString 16 (defaultHmacKeyStr (document.get icsnSecurityName))

/-- The usable HMAC keys of a document. -/
def documentKeys (document : Json) : List Key :=
  (documentDefault document).toList ++ (documentPeers document).map PeerKeyConfig.key

/-- A document that asks for HMAC has an `icsn_security`. -/
theorem containsKey_of_asksForHmac {document : Json} (h : asksForHmac document = true) :
    document.containsKey icsnSecurityName = true := by
  unfold asksForHmac hmacEnabledFlag at h
  unfold Json.get at h
  unfold Json.containsKey
  cases hmember : document.member? icsnSecurityName with
  | none =>
    rw [hmember] at h
    cases h
  | some _ => rfl

/-! ## What is loaded of it

The flag and the keys are loaded from the same object.  HMAC is enabled if the flag is set and at
least one key was usable; without a usable key the loader warns, and goes on with HMAC off. -/

/-- The routes leave the keys alone. -/
theorem loadFibInit_eq (fibArray : List Json) (systemConfig : SystemConfig) :
    ∃ count entries, loadFibInit fibArray systemConfig
      = { systemConfig with fibInitCount := count, fibInitEntries := entries } := by
  induction fibArray generalizing systemConfig with
  | nil => exact ⟨_, _, rfl⟩
  | cons fibEntry fibArray ih =>
    unfold loadFibInit
    dsimp only
    split
    · split
      · exact ih _
      · exact ih systemConfig
    · exact ⟨_, _, rfl⟩

theorem documentKeys_ne_nil_iff {document : Json} : documentKeys document ≠ [] ↔
    (documentDefault document).isSome = true ∨ 0 < (documentPeers document).length := by
  unfold documentKeys
  rw [ne_eq, List.append_eq_nil_iff, List.map_eq_nil_iff, List.length_pos_iff, not_and_or]
  exact or_congr_left (by cases documentDefault document <;> simp)

/-- **The separated layout**: HMAC is enabled by the flag with a usable key. -/
theorem loadSeparatedSecurityConfig_hmac (document : Json) (systemConfig : SystemConfig) :
    let r := loadSeparatedSecurityConfig document systemConfig
    (r.hmacAuthenticationEnabled = true ↔
        asksForHmac document = true ∧ documentKeys document ≠ []) ∧
      r.hmacDefault = (if r.hmacAuthenticationEnabled then documentDefault document else none) ∧
      r.hmacPeers = (documentPeers document).take maxPeerKeyEntries := by
  have hdefault : resultOf (hexStringToBytes (defaultHmacKeyStr (document.get icsnSecurityName))
      systemConfig.hmacDefaultKey) = documentDefault document := resultOf_hexStringToBytes _ _
  have hcount := loadPeerKeys_fst hmacKeyName ((document.get icsnSecurityName).get peersName)
    systemConfig.hmacPeerKeyEntries
  have hpeers := take_loadPeerKeys hmacKeyName ((document.get icsnSecurityName).get peersName)
    systemConfig.hmacPeerKeyEntries
  refine ⟨?_, ?_, hpeers⟩
  · show (asksForHmac document && (_ || decide (_ > 0))) = true ↔ _
    rw [Bool.and_eq_true, Bool.or_eq_true, decide_eq_true_iff, documentKeys_ne_nil_iff, ← hdefault,
      resultOf_isSome, hcount]
    show _ ∧ (_ ∨ 0 < min 20 (documentPeers document).length) ↔ _
    rw [Nat.lt_min, and_iff_right (by decide : 0 < 20)]
  · rw [← hdefault]
    unfold SystemConfig.hmacDefault
    by_cases henabled :
      (loadSeparatedSecurityConfig document systemConfig).hmacAuthenticationEnabled = true
    · rw [if_pos henabled]
      simp only [henabled, true_and]
      rfl
    · rw [if_neg henabled, if_neg fun h => henabled h.1]

/-- A document that asks for HMAC is loaded in the separated layout. -/
theorem loadSystemConfig_of_asksForHmac {file : ConfigFile} {document : Json}
    (hdocument : file.document? = some document) (hasked : asksForHmac document = true)
    (old : SystemConfig) :
    ∃ fibArray systemConfig, (loadSystemConfig file old).2
      = loadFibInit fibArray { loadSeparatedSecurityConfig document systemConfig with
          fibInitCount := 0, fibInitEntries := List.Vector.replicate _ {} } := by
  unfold loadSystemConfig
  rw [hdocument]
  dsimp only
  rw [containsKey_of_asksForHmac hasked, Bool.or_true, if_pos rfl]
  exact ⟨_, _, rfl⟩

/-- **What is loaded** of a document that asks for HMAC. -/
theorem loadSystemConfig_hmac {file : ConfigFile} {document : Json}
    (hdocument : file.document? = some document) (hasked : asksForHmac document = true)
    (old : SystemConfig) :
    let r := (loadSystemConfig file old).2
    (r.hmacAuthenticationEnabled = true ↔ documentKeys document ≠ []) ∧
      r.hmacDefault = (if r.hmacAuthenticationEnabled then documentDefault document else none) ∧
      r.hmacPeers = (documentPeers document).take maxPeerKeyEntries := by
  obtain ⟨fibArray, systemConfig, hload⟩ := loadSystemConfig_of_asksForHmac hdocument hasked old
  obtain ⟨count, entries, hroutes⟩ := loadFibInit_eq fibArray
    { loadSeparatedSecurityConfig document systemConfig with
      fibInitCount := 0, fibInitEntries := List.Vector.replicate _ {} }
  obtain ⟨henabled, hdefault, hpeers⟩ := loadSeparatedSecurityConfig_hmac document systemConfig
  dsimp only
  rw [hload, hroutes]
  rw [and_iff_right hasked] at henabled
  exact ⟨henabled, hdefault, hpeers⟩

/-! ## What the node does with it

After the boot every key of the table is one of the document, and events that set no key leave it at
that.  So what passes verification later has passed it under one of these. -/

namespace ESP_NOWController

variable {caps : BuildCapacity} (hmacSha256 : Key → List UInt8 → Hmac)

/-- `loadAndApplyConfig` from the file on: its answer, `systemConfig` and the controller. -/
def loadAndApplyConfigFile (file : ConfigFile) (old : SystemConfig) (c : ESP_NOWController caps) :
    Bool × SystemConfig × ESP_NOWController caps :=
  match loadSystemConfig file old with
  | (false, systemConfig) => (false, systemConfig, c)
  | (true, systemConfig) => (true, systemConfig, c.loadAndApplyConfig systemConfig)

/-- It succeeds with a document, and what it applies is what is loaded. -/
theorem loadAndApplyConfigFile_eq_true {file : ConfigFile} {old systemConfig : SystemConfig}
    {c c' : ESP_NOWController caps}
    (h : loadAndApplyConfigFile file old c = (true, systemConfig, c')) :
    (∃ document, file.document? = some document) ∧ systemConfig = (loadSystemConfig file old).2 ∧
      c' = c.loadAndApplyConfig systemConfig := by
  unfold loadAndApplyConfigFile at h
  unfold loadSystemConfig at h ⊢
  cases hdocument : file.document? with
  | none =>
    rw [hdocument] at h
    cases h
  | some document =>
    rw [hdocument] at h
    obtain ⟨-, rfl, rfl⟩ := Prod.mk.inj h
    exact ⟨⟨document, rfl⟩, rfl, rfl⟩

/-- **The keys of the node** are those of the document. -/
theorem mem_documentKeys_of_keyFor_boot {systemConfig : SystemConfig} {document : Json}
    (hdefault : systemConfig.hmacDefault
      = if systemConfig.hmacAuthenticationEnabled then documentDefault document else none)
    (hpeers : systemConfig.hmacPeers = (documentPeers document).take maxPeerKeyEntries)
    {mac : Mac} {key : Key}
    (hkey : (boot caps systemConfig).peerCounterManager.keyFor mac = some key) :
    key ∈ documentKeys document := by
  rw [keyFor_boot, hdefault, hpeers] at hkey
  unfold documentKeys
  rcases Option.or_eq_some_iff.mp hkey with hpeer | ⟨-, hrest⟩
  · obtain ⟨entry, hentry, -, -, rfl⟩ := exists_entry_of_configuredKey hpeer
    exact List.mem_append_right _ (List.mem_map_of_mem (List.mem_of_mem_take hentry))
  · split at hrest
    · exact List.mem_append_left _ (Option.mem_toList.mpr hrest)
    · cases hrest

/-- A packet processed with HMAC enabled has passed `verifyHMAC`. -/
theorem verifyHMAC_of_processed {systemConfig : SystemConfig} {myMac senderMac : Mac}
    {data : List UInt8} {env : ReceiveEnv} {c : ESP_NOWController caps}
    (henabled : c.hmacAuthenticationEnabled = true)
    (hprocessed : (c.processReceivedPacket hmacSha256 systemConfig myMac senderMac data
      env).1.processed = true) :
    ∃ packet key, CommunicationData.decode? data = some packet ∧
      c.peerCounterManager.keyFor senderMac = some key ∧
      (c.peerCounterManager.verifyHMAC hmacSha256 senderMac packet.hmacData packet.hmac
        env.mdOk).1 = true := by
  rcases processReceivedPacket_cases hmacSha256 systemConfig myMac senderMac data env henabled with
    ⟨hnot, -⟩ | ⟨-, packet, hdecode, ⟨key, hkey, -⟩, -⟩
  · exact absurd (hnot.symm.trans hprocessed) (by decide)
  · refine ⟨packet, key, hdecode, hkey, ?_⟩
    rw [processed_eq hmacSha256 systemConfig myMac senderMac hdecode env henabled,
      Bool.and_eq_true] at hprocessed
    -- `verifyIncomingPacket` asks `verifyHMAC` first
    rcases verifyIncomingPacket_cases hmacSha256 senderMac packet env.mdOk c.peerCounterManager with
      ⟨-, hrejected, -⟩ | ⟨⟨hroom, hmd, hhmac, -⟩, -⟩
    · exact absurd (hrejected.symm.trans hprocessed.2) (by decide)
    · rcases (c.peerCounterManager.verifyHMAC_cases hmacSha256 senderMac packet.hmacData packet.hmac
        env.mdOk).2 with ⟨hnot, -⟩ | ⟨-, -, -, -, hpassed⟩
      · exact absurd ⟨hroom, hmd, hhmac⟩ hnot
      · exact hpassed

/-- HMAC is enabled, with keys of the document alone. -/
structure RunsWith (keys : List Key) (c : ESP_NOWController caps) : Prop where
  enabled : c.hmacAuthenticationEnabled = true
  keys : ∀ mac key, c.peerCounterManager.keyFor mac = some key → key ∈ keys

/-- **One event** that sets no key. -/
theorem RunsWith.step {keys : List Key} {c : ESP_NOWController caps} (h : RunsWith keys c)
    (systemConfig : SystemConfig) (myMac : Mac) {event : ControllerEvent}
    (hevent : event.setsKey = false) :
    RunsWith keys (controllerStep hmacSha256 systemConfig myMac c event).2 := by
  obtain ⟨henabled, hkeys, -⟩ :=
    controllerStep_keeps hmacSha256 systemConfig myMac h.enabled event
  refine ⟨henabled, fun mac key hkey => ?_⟩
  rw [hkeys hevent mac] at hkey
  exact h.keys mac key hkey

end ESP_NOWController

open ESP_NOWController in
/-- **A configuration that asks for HMAC and has a usable key** is never run without it: when it is
loaded at the start, HMAC is enabled exactly if it has one, and then every packet that is processed,
after whatever events that set no key, has passed `verifyHMAC` under a key of the document. -/
theorem asked_hmac_verified {caps : BuildCapacity} (hmacSha256 : Key → List UInt8 → Hmac)
    (myMac : Mac) (file : ConfigFile) (old : SystemConfig) (document : Json)
    (hdocument : file.document? = some document) (hasked : asksForHmac document = true)
    (systemConfig : SystemConfig) (c : ESP_NOWController caps)
    (happlied : loadAndApplyConfigFile file old (init caps) = (true, systemConfig, c)) :
    (c.hmacAuthenticationEnabled = true ↔ documentKeys document ≠ []) ∧
    (documentKeys document ≠ [] → ∀ run, (∀ event ∈ run, event.setsKey = false) →
      let c' := after (controllerStep hmacSha256 systemConfig myMac) c run
      ∀ senderMac data env,
      (c'.processReceivedPacket hmacSha256 systemConfig myMac senderMac data env).1.processed
          = true →
        ∃ packet, ∃ key ∈ documentKeys document, CommunicationData.decode? data = some packet ∧
          c'.peerCounterManager.keyFor senderMac = some key ∧
          (c'.peerCounterManager.verifyHMAC hmacSha256 senderMac packet.hmacData packet.hmac
            env.mdOk).1 = true) := by
  obtain ⟨-, rfl, rfl⟩ := loadAndApplyConfigFile_eq_true happlied
  obtain ⟨henabled, hdefault, hpeers⟩ := loadSystemConfig_hmac hdocument hasked old
  refine ⟨(Bool.eq_iff_iff.mp (hmacEnabled_boot _)).trans henabled, fun husable run hrun => ?_⟩
  -- after the boot, and by the step after any run
  have hstart : RunsWith (documentKeys document) (boot caps (loadSystemConfig file old).2) :=
    ⟨(hmacEnabled_boot _).trans (henabled.mpr husable),
      fun mac key hkey => mem_documentKeys_of_keyFor_boot hdefault hpeers hkey⟩
  have hafter : RunsWith (documentKeys document)
      (after (controllerStep hmacSha256 (loadSystemConfig file old).2 myMac)
        (boot caps (loadSystemConfig file old).2) run) :=
    after_invariant (fun _ _ h hevent => h.step hmacSha256 _ myMac hevent) hstart
      (along_of_forall_mem _ hrun _)
  intro c' senderMac data env hprocessed
  obtain ⟨packet, key, hdecode, hkey, hpassed⟩ :=
    verifyHMAC_of_processed hmacSha256 hafter.enabled hprocessed
  exact ⟨packet, key, hafter.keys senderMac key hkey, hdecode, hkey, hpassed⟩

/-- A file with `{"icsn_security": {"hmac_enabled": true, "default_hmac_key": text}}`. -/
def hmacEnabledFile (text : Json) : ConfigFile where
  mounted := true
  opened := true
  parsed := some <| .object [(icsnSecurityName, .object
    [(ascii ['h', 'm', 'a', 'c', '_', 'e', 'n', 'a', 'b', 'l', 'e', 'd'], .bool true),
      (ascii ['d', 'e', 'f', 'a', 'u', 'l', 't', '_', 'h', 'm', 'a', 'c', '_', 'k', 'e', 'y'],
        text)])]

/-- With 32 zeroes for the key, the first INTEREST under the zero key is processed. -/
theorem asked_hmac_verified_default :
    let file := hmacEnabledFile (.string (List.replicate 32 48))
    let c := ESP_NOWController.boot (.uniform 1 (by decide)) (loadSystemConfig file {}).2
    c.hmacAuthenticationEnabled = true ∧
      ∀ document ∈ file.document?, ∃ packet, ∃ key ∈ documentKeys document,
        CommunicationData.decode? (interestPacket Key.zero (ascii ['/', 'a']) 1).toBytes
            = some packet ∧
          c.peerCounterManager.keyFor Mac.zero = some key ∧
          (c.peerCounterManager.verifyHMAC checksum Mac.zero packet.hmacData packet.hmac true).1
            = true := by
  intro file c
  have h := asked_hmac_verified checksum Mac.zero file {} _ rfl (by decide +kernel) _ c rfl
  have husable : documentKeys (file.document?.getD .null) ≠ [] := by decide +kernel
  refine ⟨h.1.mpr husable, fun document hdocument => ?_⟩
  obtain rfl := Option.some.inj hdocument
  exact h.2 husable [] (fun _ hevent => absurd hevent List.not_mem_nil) _ _ .good
    (by decide +kernel)

/-- **Not without a usable key**: the document is loaded, HMAC is off, and a packet that carries no
valid HMAC is processed. -/
theorem not_asked_hmac_verified :
    ¬ ∀ (caps : BuildCapacity) (hmacSha256 : Key → List UInt8 → Hmac) (myMac : Mac)
      (file : ConfigFile) (old : SystemConfig) (document : Json),
      file.document? = some document → asksForHmac document = true →
      ∀ (systemConfig : SystemConfig) (c : ESP_NOWController caps),
      ESP_NOWController.loadAndApplyConfigFile file old (.init caps) = (true, systemConfig, c) →
      ∀ run, (∀ event ∈ run, event.setsKey = false) →
      let c' := after (controllerStep hmacSha256 systemConfig myMac) c run
      ∀ senderMac data env,
      (c'.processReceivedPacket hmacSha256 systemConfig myMac senderMac data env).1.processed
          = true →
        ∃ packet, ∃ key ∈ documentKeys document, CommunicationData.decode? data = some packet ∧
          c'.peerCounterManager.keyFor senderMac = some key ∧
          (c'.peerCounterManager.verifyHMAC hmacSha256 senderMac packet.hmacData packet.hmac
            env.mdOk).1 = true := by
  intro h
  let file := hmacEnabledFile (.string [])
  have husable : documentKeys (file.document?.getD .null) = [] := by decide +kernel
  obtain ⟨-, key, hkey, -⟩ := h (.uniform 1 (by decide)) checksum Mac.zero file {} _ rfl
    (by decide +kernel) _ _ rfl [] (fun _ hevent => absurd hevent List.not_mem_nil) Mac.zero
    (interestPacket Key.zero (ascii ['/', 'a']) 1).toBytes .good (by decide +kernel)
  change key ∈ documentKeys (file.document?.getD .null) at hkey
  rw [husable] at hkey
  cases hkey

end Icsn
