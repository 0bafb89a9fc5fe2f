import Icsn.Config.ProfileMigration
import Icsn.Controller.RadioLinks

/-!
# Icsn — what encryption of the radio brings about

From the document to the peers that are registered, on a radio that answers as it is documented.  A
document that asks for encryption and has no usable PMK is loaded all the same, and the links stay
in the clear.

* **`linkKeys`** — what a document has for the links, in either layout.
* **`LinkKeys.Allows`** — what a peer is registered with under these keys.
* **`registerPeerIfNeeded_keepsLinks`** … **`radioStep_overLinks`** — every call registers peers as
  allowed, if any.
* **`links_encrypted`** — whatever happens to the boot and after it, a packet goes over a peer of
  its address that is registered as allowed.
-/

namespace Icsn

open StepRun
open ESP_NOWController (buildPacketForAddress verifyIncomingPacket interestData
  isBroadcastOrMulticast resolveEspNowLmk)

/-! ## The document

What a document asks for, read from it directly: the loader is not mentioned until `linkKeys_usedBy`
says that it puts just this to use.  The routes are loaded behind the keys and do not touch them. -/

/-- The keys for the links: the PMK if links are to be encrypted, and the LMKs. -/
structure LinkKeys where
  pmk : Option Key
  defaultLmk : Option Key
  peers : List PeerKeyConfig

/-- What a document has for the links. -/
def linkKeys (document : Json) : LinkKeys :=
  if document.containsKey espNowSecurityName || document.containsKey icsnSecurityName then
    let espNow := document.get espNowSecurityName
    { pmk := if (espNow.get enabledName).orFalse then parseHexString 16 (espNow.get pmkName).orEmpty
        else none
      defaultLmk := parseHexString 16 (espNow.get defaultLmkName).orEmpty
      peers := ((espNow.get peersName).elements.filterMap (parsePeerKey lmkName)).take
        maxPeerKeyEntries }
  else
    { pmk := parseHexString 16 (document.get (ascii ['P', 'M', 'K'])).orEmpty
      defaultLmk := parseHexString 16 (document.get (ascii ['L', 'M', 'K'])).orEmpty
      peers := ((document.get peersName).elements.filterMap (parsePeerKey lmkName)).take
        maxPeerKeyEntries }

namespace LinkKeys

/-- The LMK for a MAC: that of its first entry, else the default. -/
def lmkFor (mac : Mac) (keys : LinkKeys) : Option Key :=
  ((keysOf mac keys.peers).head?).or keys.defaultLmk

/-- A unicast peer is encrypted under its LMK if there is a PMK; all else is in the clear. -/
structure Allows (keys : LinkKeys) (peer : RadioPeer) : Prop where
  encrypt_eq : peer.encrypt = (keys.pmk.isSome && !isBroadcastOrMulticast peer.peerAddr)
  lmk_eq : peer.encrypt = true → keys.lmkFor peer.peerAddr = some peer.lmk

/-- The configuration has these keys in use. -/
structure UsedBy (keys : LinkKeys) (systemConfig : SystemConfig) : Prop where
  enabled_eq : systemConfig.espNowEncryptionEnabled = keys.pmk.isSome
  pmk_eq : (if systemConfig.espNowEncryptionEnabled ∧ systemConfig.espNowPmkConfigured then
    some systemConfig.espNowPmk else none) = keys.pmk
  resolve_eq : ∀ mac, resolveEspNowLmk systemConfig mac = keys.lmkFor mac

end LinkKeys

/-- The settings for the links. -/
theorem usedBy_of_settings {keys : LinkKeys} {systemConfig : SystemConfig}
    (henabled : systemConfig.securitySettings.espNowEncryptionEnabled = keys.pmk.isSome)
    (hpmk : keys.pmk = if systemConfig.securitySettings.espNowEncryptionEnabled then
      systemConfig.securitySettings.espNowPmk else none)
    (hdefault : systemConfig.securitySettings.espNowDefaultLmk = keys.defaultLmk)
    (hpeers : systemConfig.securitySettings.espNowPeers = keys.peers)
    (hvalid : ∀ entry ∈ keys.peers, entry.valid = true) : keys.UsedBy systemConfig where
  enabled_eq := henabled
  pmk_eq := by
    rw [hpmk]
    show _ = if systemConfig.espNowEncryptionEnabled then
      (if systemConfig.espNowPmkConfigured then some systemConfig.espNowPmk else none) else none
    cases systemConfig.espNowEncryptionEnabled <;> cases systemConfig.espNowPmkConfigured <;> rfl
  resolve_eq mac := by
    rw [resolveEspNowLmk_eq (fun entry hentry => hvalid entry (hpeers ▸ hentry)) mac]
    unfold LinkKeys.lmkFor
    rw [← hpeers, ← hdefault]
    rfl

theorem valid_of_mem_take_peers {peers : List Json} {count : Nat} {entry : PeerKeyConfig}
    (h : entry ∈ (peers.filterMap (parsePeerKey lmkName)).take count) : entry.valid = true := by
  obtain ⟨peer, -, hentry⟩ := List.mem_filterMap.mp (List.mem_of_mem_take h)
  exact valid_of_parsePeerKey hentry

/-- The routes leave the keys alone. -/
theorem LinkKeys.UsedBy.withRoutes {keys : LinkKeys} {systemConfig : SystemConfig}
    (h : keys.UsedBy systemConfig) (count : Nat)
    (entries : List.Vector FibInitEntry maxFibInitEntries) :
    keys.UsedBy { systemConfig with fibInitCount := count, fibInitEntries := entries } :=
  ⟨h.enabled_eq, h.pmk_eq, h.resolve_eq⟩

/-- **What is loaded** for the links. -/
theorem linkKeys_usedBy {file : ConfigFile} {document : Json}
    (hdocument : file.document? = some document) (old : SystemConfig) :
    (linkKeys document).UsedBy (loadSystemConfig file old).2 := by
  -- the routes come last and are written over the security settings
  have hload : ∃ start count entries, (loadSystemConfig file old).2
      = { (if document.containsKey espNowSecurityName || document.containsKey icsnSecurityName then
            loadSeparatedSecurityConfig document (resetSecurityConfig start)
          else loadLegacySecurityConfig document (resetSecurityConfig start)) with
          fibInitCount := count, fibInitEntries := entries } := by
    unfold loadSystemConfig
    rw [hdocument]
    obtain ⟨count, entries, hroutes⟩ := loadFibInit_eq
      (document.get (ascii ['f', 'i', 'b', '_', 'i', 'n', 'i', 't'])).elements _
    exact ⟨_, count, entries, hroutes⟩
  obtain ⟨start, count, entries, hload⟩ := hload
  rw [hload]
  refine LinkKeys.UsedBy.withRoutes ?_ count entries
  unfold linkKeys
  split
  · have hsettings := securitySettings_separated document start
    refine usedBy_of_settings ?enabled ?pmk
      (congrArg SecuritySettings.espNowDefaultLmk hsettings)
      (congrArg SecuritySettings.espNowPeers hsettings) fun _ => valid_of_mem_take_peers
    all_goals
      rw [hsettings]
      dsimp only
    case enabled => cases ((document.get espNowSecurityName).get enabledName).orFalse <;> rfl
    -- the PMK is used if encryption is asked for and its text parses
    case pmk =>
      cases ((document.get espNowSecurityName).get enabledName).orFalse with
      | false => rfl
      | true =>
        cases parseHexString 16 ((document.get espNowSecurityName).get pmkName).orEmpty <;> rfl
  · have hsettings := securitySettings_legacy document start
    refine usedBy_of_settings (congrArg SecuritySettings.espNowEncryptionEnabled hsettings) ?_
      (congrArg SecuritySettings.espNowDefaultLmk hsettings)
      (congrArg SecuritySettings.espNowPeers hsettings) fun _ => valid_of_mem_take_peers
    rw [hsettings]
    cases parseHexString 16 (document.get (ascii ['P', 'M', 'K'])).orEmpty <;> rfl

/-! ## The calls

The peers of the radio only grow, so a link that was made as the keys allow stays so.  Each call
either leaves them alone or adds one peer, with the LMK that `lmkFor` gives or, without a PMK, in
the clear; and nothing is sent before its peer is registered. -/

namespace RadioNode

variable {caps : BuildCapacity} {keys : LinkKeys} {systemConfig : SystemConfig}

/-- The node encrypts as the keys ask, and every peer was registered as allowed. -/
structure Secured (keys : LinkKeys) (s : RadioNode caps) : Prop where
  enabled_eq : s.controller.espNowEncryptionEnabled = keys.pmk.isSome
  allows : ∀ peer ∈ s.peers, keys.Allows peer

/-- Peers are added at most, and they stay registered as allowed. -/
structure KeepsLinks (keys : LinkKeys) (s s' : RadioNode caps) : Prop where
  isPrefix : s.peers <+: s'.peers
  secured : Secured keys s → Secured keys s'

theorem KeepsLinks.refl (s : RadioNode caps) : KeepsLinks keys s s := ⟨List.prefix_rfl, id⟩

theorem KeepsLinks.trans {s s' s'' : RadioNode caps} (h : KeepsLinks keys s s')
    (h' : KeepsLinks keys s' s'') : KeepsLinks keys s s'' :=
  ⟨h.isPrefix.trans h'.isPrefix, h'.secured ∘ h.secured⟩

/-- What the controller does to its counters and tables leaves the links alone. -/
theorem keepsLinks_of_controller {s : RadioNode caps} {c : ESP_NOWController caps}
    (h : c.espNowEncryptionEnabled = s.controller.espNowEncryptionEnabled) :
    KeepsLinks keys s { s with controller := c } :=
  ⟨List.prefix_rfl, fun hs => ⟨h.trans hs.enabled_eq, hs.allows⟩⟩

/-- A peer that is found stays the one that is found. -/
theorem KeepsLinks.peerOf_eq {s s' : RadioNode caps} (h : KeepsLinks keys s s') {mac : Mac}
    {peer : RadioPeer} (hpeer : s.peerOf mac = some peer) : s'.peerOf mac = some peer := by
  obtain ⟨rest, hrest⟩ := h.isPrefix
  unfold peerOf at hpeer ⊢
  rw [← hrest, List.find?_append, hpeer]
  rfl

/-- The peer of an address, registered as allowed. -/
def HasLink (keys : LinkKeys) (mac : Mac) (link : Option RadioPeer) : Prop :=
  ∃ peer, link = some peer ∧ peer.peerAddr = mac ∧ keys.Allows peer

theorem Secured.hasLink {s : RadioNode caps} (h : Secured keys s) {mac : Mac} {peer : RadioPeer}
    (hpeer : s.peerOf mac = some peer) : HasLink keys mac (s.peerOf mac) := by
  have haddr := List.find?_some hpeer
  rw [decide_eq_true_iff] at haddr
  exact ⟨peer, hpeer, haddr, h.allows peer (List.mem_of_find?_eq_some hpeer)⟩

/-- `esp_now_add_peer` with an allowed peer. -/
theorem addPeer_keepsLinks {peer : RadioPeer} (addPeerOk : Bool) {s : RadioNode caps}
    (hallows : Secured keys s → keys.Allows peer) :
    let r := s.addPeer peer addPeerOk
    KeepsLinks keys s r.2 ∧ (r.1 = true → (r.2.peerOf peer.peerAddr).isSome = true) := by
  unfold addPeer
  cases addPeerOk with
  | false => exact ⟨.refl s, fun h => Bool.noConfusion h⟩
  | true =>
    refine ⟨⟨List.prefix_append _ _, fun hs => ⟨hs.enabled_eq, fun other hother => ?_⟩⟩,
      fun _ => ?_⟩
    · rcases List.mem_append.mp hother with hold | hnew
      · exact hs.allows other hold
      · rw [List.mem_singleton.mp hnew]
        exact hallows hs
    · unfold peerOf
      rw [List.find?_isSome]
      exact ⟨peer, List.mem_append_right _ (List.mem_singleton.mpr rfl), decide_eq_true rfl⟩

variable (hmacSha256 : Key → List UInt8 → Hmac)
  {espNowIsPeerExist : List RadioPeer → Mac → Bool} (hradio : DocumentedPeers espNowIsPeerExist)
include hradio

/-- **`registerPeerIfNeeded`** adds an allowed peer at most, and answers whether there is one: a
peer that the radio knows already is one that was registered here. -/
theorem registerPeerIfNeeded_keepsLinks (hused : keys.UsedBy systemConfig) (mac : Mac)
    (addPeerOk : Bool) (s : RadioNode caps) :
    let r := s.registerPeerIfNeeded espNowIsPeerExist systemConfig mac addPeerOk
    KeepsLinks keys s r.2 ∧ (r.1 = true → (r.2.peerOf mac).isSome = true) := by
  unfold registerPeerIfNeeded
  dsimp only
  split
  · next hknown => exact ⟨.refl s, fun _ => (isPeerExist_eq hradio mac s).symm.trans hknown⟩
  · split
    · next hencrypt =>
      rw [Bool.and_eq_true, Bool.not_eq_true'] at hencrypt
      cases hlmk : resolveEspNowLmk systemConfig mac with
      | none => exact ⟨.refl s, fun h => Bool.noConfusion h⟩
      | some lmk =>
        refine addPeer_keepsLinks addPeerOk fun hs => ⟨?_, fun _ => ?_⟩
        · show true = _
          rw [← hs.enabled_eq, hencrypt.1]
          show true = !isBroadcastOrMulticast mac
          rw [hencrypt.2]
          rfl
        · exact (hused.resolve_eq mac).symm.trans hlmk
    · next hclear =>
      refine addPeer_keepsLinks addPeerOk fun hs => ⟨?_, fun h => Bool.noConfusion h⟩
      rw [← hs.enabled_eq]
      exact (Bool.not_eq_true _ |>.mp hclear).symm

/-- The loop of `registerConfiguredEspNowPeers`. -/
theorem registerConfiguredEspNowPeers_keepsLinks (hused : keys.UsedBy systemConfig)
    (addPeerOk : Fin maxPeerKeyEntries → Bool) (s : RadioNode caps) :
    KeepsLinks keys s
      (s.registerConfiguredEspNowPeers espNowIsPeerExist systemConfig addPeerOk).2 := by
  have hloop : ∀ (l : List (Fin maxPeerKeyEntries)) (acc : Bool × RadioNode caps),
      KeepsLinks keys s acc.2 →
      KeepsLinks keys s (l.foldl (fun acc i =>
        let entry := systemConfig.espNowPeerLmkEntries.get i
        if entry.valid = false then acc
        else
          let r := acc.2.registerPeerIfNeeded espNowIsPeerExist systemConfig entry.mac (addPeerOk i)
          (acc.1 && r.1, r.2)) acc).2 := by
    intro l
    induction l with
    | nil => exact fun _ h => h
    | cons i l ih =>
      intro acc h
      rw [List.foldl_cons]
      apply ih
      dsimp only
      split
      · exact h
      · exact h.trans (registerPeerIfNeeded_keepsLinks hradio hused _ (addPeerOk i) acc.2).1
  exact hloop _ (true, s) (.refl s)

/-- What a send has done: peers added at most, and each packet sent over the peer of its address. -/
structure SentOverLinks (keys : LinkKeys) (s : RadioNode caps) (report : RadioReport)
    (s' : RadioNode caps) : Prop where
  keeps : KeepsLinks keys s s'
  links : Secured keys s →
    List.Forall₂ (fun out link => HasLink keys out.1 link) report.sent report.links

omit hradio in
theorem SentOverLinks.after {s s' s'' : RadioNode caps} {report : RadioReport}
    (h : SentOverLinks keys s' report s'') (hkeeps : KeepsLinks keys s s') :
    SentOverLinks keys s report s'' :=
  ⟨hkeeps.trans h.keeps, fun hs => h.links (hkeeps.secured hs)⟩

/-- **One turn of a send.** -/
theorem SentOverLinks.step (hused : keys.UsedBy systemConfig) {s : RadioNode caps}
    {acc : RadioReport × RadioNode caps} (h : SentOverLinks keys s acc.1 acc.2)
    (data : ESP_NOWControlData) (addr : Mac) (env : SendEnv) :
    let r := sendPacketToAddress espNowIsPeerExist hmacSha256 systemConfig data addr env acc
    SentOverLinks keys s r.1 r.2 := by
  obtain ⟨report, s1⟩ := acc
  obtain ⟨hkeeps, hlinks⟩ := h
  unfold sendPacketToAddress
  dsimp only
  split
  · exact ⟨hkeeps, hlinks⟩
  · obtain ⟨answer, m⟩ := buildPacketForAddress hmacSha256 addr data true env.mdOk
      s1.controller.peerCounterManager
    -- building a packet leaves the peers of the radio alone
    have hbuilt : KeepsLinks keys s
        { s1 with controller := { s1.controller with peerCounterManager := m } } :=
      hkeeps.trans (keepsLinks_of_controller rfl)
    cases answer with
    | none => exact ⟨hbuilt, hlinks⟩
    | some packet =>
      obtain ⟨hregister, hknown⟩ := registerPeerIfNeeded_keepsLinks hradio hused addr env.addPeerOk
        { s1 with controller := { s1.controller with peerCounterManager := m } }
      have hregistered := hbuilt.trans hregister
      dsimp only
      split
      · exact ⟨hregistered, hlinks⟩
      · next hyes =>
        split
        · exact ⟨hregistered, hlinks⟩
        · -- sent: registration said there is a peer, and every peer is an allowed one
          refine ⟨hregistered, fun hs => List.rel_append (hlinks hs) (.cons ?_ .nil)⟩
          obtain ⟨peer, hpeer⟩ := Option.isSome_iff_exists.mp
            (hknown (Bool.not_eq_false _ |>.mp hyes))
          exact (hregistered.secured hs).hasLink hpeer

/-- **A send.** -/
theorem sendPacketToAddresses_overLinks (hused : keys.UsedBy systemConfig)
    (data : ESP_NOWControlData) (env : Fin maxTxAddresses → SendEnv) (s : RadioNode caps) :
    let r := s.sendPacketToAddresses espNowIsPeerExist hmacSha256 systemConfig data env
    SentOverLinks keys s r.1 r.2 := by
  have hloop : ∀ (l : List (Fin maxTxAddresses)) (acc : RadioReport × RadioNode caps),
      SentOverLinks keys s acc.1 acc.2 →
      let r := l.foldl (fun acc i =>
        sendPacketToAddress espNowIsPeerExist hmacSha256 systemConfig data (data.txAddress.get i)
          (env i) acc) acc
      SentOverLinks keys s r.1 r.2 := by
    intro l
    induction l with
    | nil => exact fun _ h => h
    | cons i l ih =>
      exact fun acc h => ih _
        (SentOverLinks.step hmacSha256 hradio hused h data (data.txAddress.get i) (env i))
  exact hloop _ ({}, s) ⟨.refl s, fun _ => .nil⟩

/-- **A reception**: what is processed came from a peer registered as allowed, and so goes the
answer. -/
theorem processReceivedPacket_overLinks (hused : keys.UsedBy systemConfig) (myMac senderMac : Mac)
    (data : List UInt8) (env : ReceiveEnv) (s : RadioNode caps) :
    let r := s.processReceivedPacket espNowIsPeerExist hmacSha256 systemConfig myMac senderMac data
      env
    SentOverLinks keys s r.1.2 r.2 ∧
      (r.1.1 = true → (r.2.peerOf senderMac).isSome = true) := by
  unfold processReceivedPacket acceptPacket
  -- each early return has added an allowed peer at most
  cases CommunicationData.decode? data with
  | none => exact ⟨⟨.refl s, fun _ => .nil⟩, fun h => Bool.noConfusion h⟩
  | some packet =>
    obtain ⟨hregister, hknown⟩ := registerPeerIfNeeded_keepsLinks hradio hused senderMac
      env.register.addPeerOk s
    dsimp only
    by_cases hyes : (s.registerPeerIfNeeded espNowIsPeerExist systemConfig senderMac
        env.register.addPeerOk).1 = false
    · rw [if_pos hyes]
      exact ⟨⟨hregister, fun _ => .nil⟩, fun h => Bool.noConfusion h⟩
    · rw [if_neg hyes]
      revert hregister hknown hyes
      generalize s.registerPeerIfNeeded espNowIsPeerExist systemConfig senderMac
        env.register.addPeerOk = r
      intro hregister hknown hyes
      generalize verifyIncomingPacket hmacSha256 r.2.controller.hmacAuthenticationEnabled senderMac
        packet env.mdOk r.2.controller.peerCounterManager = verified
      by_cases hrejected : r.2.controller.hmacAuthenticationEnabled = true ∧ verified.1 = false
      · rw [if_pos hrejected]
        exact ⟨⟨hregister.trans (keepsLinks_of_controller rfl), fun _ => .nil⟩,
          fun h => Bool.noConfusion h⟩
      · -- the handlers touch the tables only
        rw [if_neg hrejected]
        obtain ⟨peer, hpeer⟩ := Option.isSome_iff_exists.mp
          (hknown (Bool.not_eq_false _ |>.mp hyes))
        have hsend := @sendPacketToAddresses_overLinks caps keys systemConfig hmacSha256
          espNowIsPeerExist hradio hused
        exact ⟨(hsend _ _ _).after (hregister.trans (keepsLinks_of_controller rfl)), fun _ =>
          Option.isSome_iff_exists.mpr ⟨peer, (hsend _ _ _).keeps.peerOf_eq hpeer⟩⟩

end RadioNode

/-! ## Runs

The configuration does not change after the boot, so the invariant of the links is kept by every
event that follows.  It holds after a boot that fails, too, as that has registered allowed peers at
most. -/

section Runs

open RadioNode (Secured KeepsLinks SentOverLinks HasLink keepsLinks_of_controller)

variable {caps : BuildCapacity} {keys : LinkKeys} (hmacSha256 : Key → List UInt8 → Hmac)
  {espNowIsPeerExist : List RadioPeer → Mac → Bool}

/-- The packet that was processed came from a peer registered as allowed. -/
def ProcessedOverLink (keys : LinkKeys) (event : ControllerEvent) (s : RadioNode caps) : Prop :=
  ∃ senderMac data env, event = .processReceivedPacket senderMac data env ∧
    HasLink keys senderMac (s.peerOf senderMac)

/-- **One event** on a device. -/
theorem radioStep_overLinks (hradio : DocumentedPeers espNowIsPeerExist) {d : RadioDevice caps}
    (hused : keys.UsedBy d.systemConfig) (hsecured : Secured keys d.node)
    (event : ControllerEvent) :
    let r := radioStep espNowIsPeerExist hmacSha256 d event
    Secured keys r.2.node ∧
      List.Forall₂ (fun out link => HasLink keys out.1 link) r.1.sent r.1.links ∧
      (r.1.processed = true → d.callbacks = true ∧ ProcessedOverLink keys event r.2.node) := by
  cases event with
  | processReceivedPacket senderMac data env =>
    obtain ⟨hsent, hknown⟩ := RadioNode.processReceivedPacket_overLinks hmacSha256 hradio hused
      d.myMac senderMac data env d.node
    unfold radioStep
    dsimp only
    split
    · exact ⟨hsecured, .nil, fun h => Bool.noConfusion h⟩
    · next hcallbacks =>
      refine ⟨hsent.keeps.secured hsecured, hsent.links hsecured, fun hprocessed =>
        ⟨Bool.not_eq_false _ |>.mp hcallbacks, senderMac, data, env, rfl, ?_⟩⟩
      obtain ⟨peer, hpeer⟩ := Option.isSome_iff_exists.mp (hknown hprocessed)
      exact (hsent.keeps.secured hsecured).hasLink hpeer
  | sendPacketToAddresses data env =>
    have hsent := RadioNode.sendPacketToAddresses_overLinks hmacSha256 hradio hused data env d.node
    exact ⟨hsent.keeps.secured hsecured, hsent.links hsecured, fun h => Bool.noConfusion h⟩
  | sendInterest contentName targetMac hopCount env =>
    have hsent := RadioNode.sendPacketToAddresses_overLinks hmacSha256 hradio hused
      (interestData contentName targetMac hopCount) env d.node
    exact ⟨hsent.keeps.secured hsecured, hsent.links hsecured, fun h => Bool.noConfusion h⟩
  | _ => exact ⟨⟨hsecured.enabled_eq, hsecured.allows⟩, .nil, fun h => Bool.noConfusion h⟩

/-- What the controller keeps of a configuration for the radio. -/
theorem ESP_NOWController.copyPMK_loadAndApplyConfig (systemConfig : SystemConfig)
    (c : ESP_NOWController caps) :
    let c' := c.loadAndApplyConfig systemConfig
    c'.espNowEncryptionEnabled = systemConfig.espNowEncryptionEnabled ∧
      c'.pmk = if systemConfig.espNowEncryptionEnabled ∧ systemConfig.espNowPmkConfigured then
        systemConfig.espNowPmk else Key.zero := by
  -- keys for HMAC and routes are set without a look at either
  have hloop : ∀ {ε : Type} {f : ESP_NOWController caps → ε → ESP_NOWController caps},
      (∀ c entry, (f c entry).espNowEncryptionEnabled = c.espNowEncryptionEnabled ∧
        (f c entry).pmk = c.pmk) → ∀ (entries : List ε) (c : ESP_NOWController caps),
      (entries.foldl f c).espNowEncryptionEnabled = c.espNowEncryptionEnabled ∧
        (entries.foldl f c).pmk = c.pmk := by
    intro ε f hf entries
    induction entries with
    | nil => exact fun _ => ⟨rfl, rfl⟩
    | cons entry entries ih =>
      exact fun c => ⟨(ih _).1.trans (hf c entry).1, (ih _).2.trans (hf c entry).2⟩
  unfold loadAndApplyConfig
  dsimp only
  rw [(hloop ?routes _ _).1, (hloop ?peers _ _).1, (hloop ?routes _ _).2, (hloop ?peers _ _).2]
  case routes => intro c entry; split <;> exact ⟨rfl, rfl⟩
  case peers => intro c entry; split <;> exact ⟨rfl, rfl⟩
  split <;> split <;> exact ⟨rfl, rfl⟩

/-- **After the boot**, whether it succeeds or not. -/
theorem secured_initializeCommunication (hradio : DocumentedPeers espNowIsPeerExist)
    {file : ConfigFile} {document : Json} (hdocument : file.document? = some document)
    (env : BootEnv) :
    let r := (RadioDevice.powerOn caps).initializeCommunication espNowIsPeerExist file env
    (linkKeys document).UsedBy r.2.systemConfig ∧ Secured (linkKeys document) r.2.node ∧
      r.2.callbacks = r.1 ∧ (r.1 = true → r.2.radioPmk = (linkKeys document).pmk) := by
  have hused := linkKeys_usedBy hdocument (RadioDevice.powerOn caps).systemConfig
  obtain ⟨hconfig, hcallbacks, hpmk, hnode⟩ :=
    (RadioDevice.powerOn caps).initializeCommunication_cases espNowIsPeerExist hdocument env
  obtain ⟨henabled, hkey⟩ := ESP_NOWController.copyPMK_loadAndApplyConfig
    (loadSystemConfig file (RadioDevice.powerOn caps).systemConfig).2
    (RadioDevice.powerOn caps).node.controller
  -- before the first registration there are no peers
  have hconfigured : Secured (linkKeys document) ((RadioDevice.powerOn caps).configured file) :=
    ⟨henabled.trans hused.enabled_eq, fun _ hpeer => absurd hpeer List.not_mem_nil⟩
  dsimp only
  rw [hconfig, hcallbacks]
  refine ⟨hused, ?_, Bool.false_or _, fun hbooted => ?_⟩
  · rcases hnode with heq | heq
    · rw [heq]
      exact hconfigured
    · rw [heq]
      exact (RadioNode.registerConfiguredEspNowPeers_keepsLinks hradio hused env.addPeerOk
        _).secured hconfigured
  · -- the radio is given the PMK that `copyPMK` hands out
    rw [hpmk hbooted]
    show (ESP_NOWController.copyPMK _).or none = _
    unfold ESP_NOWController.copyPMK
    rw [Option.or_none]
    have hstart : ((RadioDevice.powerOn caps).configured file).controller
        = (RadioDevice.powerOn caps).node.controller.loadAndApplyConfig
          (loadSystemConfig file (RadioDevice.powerOn caps).systemConfig).2 := rfl
    rw [hstart, henabled, hkey, ← hused.pmk_eq]
    by_cases hon : (loadSystemConfig file
        (RadioDevice.powerOn caps).systemConfig).2.espNowEncryptionEnabled = true
    · -- encryption is switched on by a PMK only
      have hconfigured : (loadSystemConfig file
          (RadioDevice.powerOn caps).systemConfig).2.espNowPmkConfigured = true := by
        by_contra hnot
        have hnone := hused.pmk_eq
        rw [if_neg fun h => hnot h.2] at hnone
        rw [hused.enabled_eq, ← hnone] at hon
        cases hon
      rw [if_pos hon, if_pos ⟨hon, hconfigured⟩, if_pos ⟨hon, hconfigured⟩]
    · rw [if_neg hon, if_neg fun h => hon h.1]

/-- **Link encryption.**  On a radio that answers as it is documented, and whatever happens to the
boot and in any run after it: a packet is sent over a peer registered for its address, and one is
processed only if its sender is registered.  With each of these registrations a unicast peer is
encrypted exactly if the document gives a usable PMK, and then under the LMK of the document for
this peer; and a boot that succeeds has given the radio this PMK.  Nothing is processed after a boot
that fails. -/
theorem links_encrypted (hradio : DocumentedPeers espNowIsPeerExist) (file : ConfigFile)
    {document : Json} (hdocument : file.document? = some document) (env : BootEnv)
    (run : List ControllerEvent) (event : ControllerEvent) :
    let booted := (RadioDevice.powerOn caps).initializeCommunication espNowIsPeerExist file env
    let keys := linkKeys document
    let step := radioStep espNowIsPeerExist hmacSha256
    let r := step (after step booted.2 run) event
    (booted.1 = true → r.2.radioPmk = keys.pmk) ∧
      List.Forall₂ (fun out link => HasLink keys out.1 link) r.1.sent r.1.links ∧
      (r.1.processed = true → booted.1 = true ∧ ProcessedOverLink keys event r.2.node) := by
  intro booted keys step r
  obtain ⟨hused, hsecured, hcallbacks, hpmk⟩ :=
    @secured_initializeCommunication caps espNowIsPeerExist hradio file document hdocument env
  -- what the boot has set stays, and with it the keys that peers are registered under
  have hstep : ∀ d event, SameDevice booted.2 d ∧ Secured keys d.node → True →
      let d' := (step d event).2
      SameDevice booted.2 d' ∧ Secured keys d'.node := by
    rintro d event ⟨hsame, hlinks⟩ -
    exact ⟨hsame.trans (sameDevice_radioStep hmacSha256 d event),
      (radioStep_overLinks hmacSha256 hradio (by rw [hsame.systemConfig_eq]; exact hused) hlinks
        event).1⟩
  have hrun := after_invariant (P := fun _ _ => True) hstep ⟨.refl _, hsecured⟩
    (along_of_forall _ _ (fun _ _ => trivial) _ run)
  obtain ⟨hsame, hlinks⟩ := hrun
  obtain ⟨-, hsent, hprocessed⟩ := radioStep_overLinks hmacSha256 hradio
    (by rw [hsame.systemConfig_eq]; exact hused) hlinks event
  refine ⟨fun hbooted => ?_, hsent, fun h => ⟨?_, (hprocessed h).2⟩⟩
  · exact (sameDevice_radioStep hmacSha256 _ event).radioPmk_eq.trans
      (hsame.radioPmk_eq.trans (hpmk hbooted))
  · exact hcallbacks.symm.trans (hsame.callbacks_eq.symm.trans (hprocessed h).1)

/-- With a PMK, a unicast peer without an LMK has no link: nothing is sent to it, and nothing from
it is processed. -/
theorem lmkFor_of_hasLink {mac : Mac} {link : Option RadioPeer} (h : HasLink keys mac link)
    (hpmk : keys.pmk.isSome = true) (hunicast : isBroadcastOrMulticast mac = false) :
    (keys.lmkFor mac).isSome = true := by
  obtain ⟨peer, -, rfl, hallows⟩ := h
  have hencrypt := hallows.encrypt_eq
  rw [hpmk, hunicast] at hencrypt
  rw [hallows.lmk_eq hencrypt]
  rfl

end Runs

/-- An INTEREST to a peer that has the default LMK. -/
theorem links_encrypted_default :
    let caps := BuildCapacity.uniform 4 (by decide)
    let peer : Mac := List.Vector.replicate _ 2
    let keyText : Json := .string (ascii (List.replicate 32 '1'))
    let document : Json := .object
      [(espNowSecurityName, .object [(enabledName, .bool true), (pmkName, keyText),
        (defaultLmkName, keyText)]),
      (icsnSecurityName, .object [(hmacEnabledName, .bool true), (defaultHmacKeyName, keyText)])]
    let file : ConfigFile := { mounted := true, opened := true, parsed := some document }
    let event := ControllerEvent.sendInterest (ascii ['/', 'a']) peer 1 fun _ => .good
    let booted := (RadioDevice.powerOn caps).initializeCommunication lookUpPeer file (.good peer)
    let keys := linkKeys document
    let step := radioStep lookUpPeer checksum
    let r := step (after step booted.2 [event]) event
    keys.pmk.isSome = true ∧ r.1.links.length = 1 ∧
    (booted.1 = true → r.2.radioPmk = keys.pmk) ∧
    List.Forall₂ (fun out link => RadioNode.HasLink keys out.1 link) r.1.sent r.1.links ∧
    (r.1.processed = true → booted.1 = true ∧ ProcessedOverLink keys event r.2.node) := by
  intro caps peer keyText document file event
  have hencrypted := @links_encrypted caps checksum lookUpPeer documented_lookUpPeer file document
    rfl (.good peer) [event] event
  exact ⟨by decide +kernel, by decide +kernel, hencrypted⟩

end Icsn
