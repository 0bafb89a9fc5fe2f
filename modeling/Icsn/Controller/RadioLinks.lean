import Icsn.Controller.ConfiguredHmac
import Icsn.Controller.CounterUse

/-!
# Icsn — the peer list of the radio

The controller leaves the radio to its environment, each answer of it by itself.  Here the answers
hang together: the node records the peers that `esp_now_add_peer` took, a packet goes over the
record of its address, in the clear or under its LMK, and `esp_now_is_peer_exist` is a function of
the record.  The radio is not the firmware's own, so this function is a parameter, and what its
documentation says of it is a hypothesis where it is needed.

* **`RadioNode`** — a controller with the peers it registered.
* **`DocumentedPeers`** — `esp_now_is_peer_exist` finds the peers that were registered, no others.
* **`registerPeerIfNeeded`** … **`processReceivedPacket`** — the calls that meet the radio.
* **`RadioDevice`** / **`initializeCommunication`** — from power on to the callbacks.
* **`radioStep`** — one event on a device.
* **`answeredRun`** — a run with each answer of `esp_now_is_peer_exist` as the record has it then.
* **`radio_run_refines`** — on this run the controller does what the device does.
-/

namespace Icsn

open StepRun
open ESP_NOWController (SendReport ReceiveReport ReceiveProcessResult buildPacketForAddress
  verifyIncomingPacket receiveMessage inputOfPacket fieldIs interestData isBroadcastOrMulticast
  resolveEspNowLmk loadAndApplyConfigFile)

/-- What the controller fills in of an `esp_now_peer_info_t`. -/
structure RadioPeer where
  peerAddr : Mac
  lmk : Key := Key.zero
  encrypt : Bool := false
deriving DecidableEq

/-- A controller, and the peers that it registered, in order. -/
structure RadioNode (caps : BuildCapacity) where
  controller : ESP_NOWController caps
  peers : List RadioPeer

/-- `esp_now_is_peer_exist` as it is documented: of the peers that were registered, and were never
taken out, it finds each one, and it finds no other. -/
structure DocumentedPeers (espNowIsPeerExist : List RadioPeer → Mac → Bool) : Prop where
  of_registered : ∀ {peers peer}, peer ∈ peers → espNowIsPeerExist peers peer.peerAddr = true
  registered : ∀ {peers mac}, espNowIsPeerExist peers mac = true →
    ∃ peer ∈ peers, peer.peerAddr = mac

/-- A report, with the peer that each packet sent went over. -/
structure RadioReport extends SendReport where
  links : List (Option RadioPeer) := []

namespace RadioNode

variable {caps : BuildCapacity}

/-- The peer that was registered for an address, over which `esp_now_send` goes. -/
def peerOf (mac : Mac) (s : RadioNode caps) : Option RadioPeer :=
  s.peers.find? fun peer => decide (peer.peerAddr = mac)

theorem peerOf_isSome {mac : Mac} {s : RadioNode caps} :
    (s.peerOf mac).isSome = true ↔ ∃ peer ∈ s.peers, peer.peerAddr = mac := by
  unfold peerOf
  rw [List.find?_isSome]
  simp only [decide_eq_true_iff]

/-- The radio answers from the record. -/
theorem isPeerExist_eq {espNowIsPeerExist : List RadioPeer → Mac → Bool}
    (hradio : DocumentedPeers espNowIsPeerExist) (mac : Mac) (s : RadioNode caps) :
    espNowIsPeerExist s.peers mac = (s.peerOf mac).isSome := by
  rw [Bool.eq_iff_iff, peerOf_isSome]
  constructor
  · exact hradio.registered
  · rintro ⟨peer, hpeer, rfl⟩
    exact hradio.of_registered hpeer

/-- `esp_now_add_peer`; what it takes is recorded. -/
def addPeer (peer : RadioPeer) (addPeerOk : Bool) (s : RadioNode caps) : Bool × RadioNode caps :=
  if addPeerOk then (true, { s with peers := s.peers ++ [peer] }) else (false, s)

variable (espNowIsPeerExist : List RadioPeer → Mac → Bool)

def registerPeerIfNeeded (systemConfig : SystemConfig) (mac : Mac) (addPeerOk : Bool)
    (s : RadioNode caps) : Bool × RadioNode caps :=
  if espNowIsPeerExist s.peers mac then (true, s)
  else if s.controller.espNowEncryptionEnabled && !isBroadcastOrMulticast mac then
    match resolveEspNowLmk systemConfig mac with
    | none => (false, s)
    | some lmk => s.addPeer { peerAddr := mac, lmk, encrypt := true } addPeerOk
  else s.addPeer { peerAddr := mac } addPeerOk

/-- The loop of `registerConfiguredEspNowPeers`, which goes on after a failure. -/
def registerConfiguredEspNowPeers (systemConfig : SystemConfig)
    (addPeerOk : Fin maxPeerKeyEntries → Bool) (s : RadioNode caps) : Bool × RadioNode caps :=
  ((List.finRange maxPeerKeyEntries).take systemConfig.espNowPeerLmkCount).foldl
    (fun acc i =>
      let entry := systemConfig.espNowPeerLmkEntries.get i
      if entry.valid = false then acc
      else
        let r := acc.2.registerPeerIfNeeded espNowIsPeerExist systemConfig entry.mac (addPeerOk i)
        (acc.1 && r.1, r.2))
    (true, s)

section Packets

variable (hmacSha256 : Key → List UInt8 → Hmac) (systemConfig : SystemConfig)

/-- One turn of the loop of `sendPacketToAddresses`; of the environment, `isPeerExist` has no part
in it. -/
def sendPacketToAddress (data : ESP_NOWControlData) (addr : Mac) (env : SendEnv)
    (acc : RadioReport × RadioNode caps) : RadioReport × RadioNode caps :=
  let (report, s) := acc
  if addr = Mac.zero then (report, s)
  else
    match buildPacketForAddress hmacSha256 addr data true env.mdOk
      s.controller.peerCounterManager with
    | (none, m) => (report, { s with controller := { s.controller with peerCounterManager := m } })
    | (some packet, m) =>
      let s := { s with controller := { s.controller with peerCounterManager := m } }
      let report := { report with built := report.built ++ [(addr, packet)] }
      let r := s.registerPeerIfNeeded espNowIsPeerExist systemConfig addr env.addPeerOk
      if r.1 = false then (report, r.2)
      else if env.sendOk = false then (report, r.2)
      else
        ({ report with sentAny := true
                       sent := report.sent ++ [(addr, packet)]
                       links := report.links ++ [r.2.peerOf addr] }, r.2)

def sendPacketToAddresses (data : ESP_NOWControlData) (env : Fin maxTxAddresses → SendEnv)
    (s : RadioNode caps) : RadioReport × RadioNode caps :=
  (List.finRange maxTxAddresses).foldl
    (fun acc i => sendPacketToAddress espNowIsPeerExist hmacSha256 systemConfig data
      (data.txAddress.get i) (env i) acc)
    ({}, s)

def sendInterest (contentName : Str) (targetMac : Mac) (hopCount : UInt8)
    (env : Fin maxTxAddresses → SendEnv) (s : RadioNode caps) : RadioReport × RadioNode caps :=
  s.sendPacketToAddresses espNowIsPeerExist hmacSha256 systemConfig
    (interestData contentName targetMac hopCount) env

/-- `processReceivedPacket` up to its send: what is to be sent, if the packet is processed. -/
def acceptPacket (myMac senderMac : Mac) (data : List UInt8) (env : ReceiveEnv)
    (s : RadioNode caps) : Option ESP_NOWControlData × RadioNode caps :=
  match CommunicationData.decode? data with
  | none => (none, s)
  | some packet =>
    let r := s.registerPeerIfNeeded espNowIsPeerExist systemConfig senderMac env.register.addPeerOk
    let s := r.2
    if r.1 = false then (none, s)
    else
      let c := s.controller
      let verified := verifyIncomingPacket hmacSha256 c.hmacAuthenticationEnabled senderMac packet
        env.mdOk c.peerCounterManager
      let s := { s with controller := { c with peerCounterManager := verified.2 } }
      if c.hmacAuthenticationEnabled = true ∧ verified.1 = false then (none, s)
      else
        let answer := receiveMessage systemConfig myMac senderMac (inputOfPacket senderMac packet)
          env.alloc c.node
        (some answer.1, { s with controller := { s.controller with node := answer.2 } })

/-- `processReceivedPacket`; whether the packet was processed, and what was sent. -/
def processReceivedPacket (myMac senderMac : Mac) (data : List UInt8) (env : ReceiveEnv)
    (s : RadioNode caps) : (Bool × RadioReport) × RadioNode caps :=
  match s.acceptPacket espNowIsPeerExist hmacSha256 systemConfig myMac senderMac data env with
  | (none, s) => ((false, {}), s)
  | (some answer, s) =>
    let sends := s.sendPacketToAddresses espNowIsPeerExist hmacSha256 systemConfig answer env.sends
    ((true, sends.1), sends.2)

end Packets

end RadioNode

/-! ## The answers of the record

What `esp_now_is_peer_exist` answers to the controller at each of its calls: whether the record of
that moment has the address.  In a send the record grows from turn to turn, so each turn asks the
node that the turns before it leave. -/

/-- All but what the radio knows of the peer. -/
def SendEnv.forgetPeer (env : SendEnv) : SendEnv := { env with isPeerExist := false }

/-- All but what the radio knows of the peers. -/
def ReceiveEnv.forgetPeers (env : ReceiveEnv) : ReceiveEnv :=
  { env with register := { env.register with isPeerExist := false }
             sends := fun i => (env.sends i).forgetPeer }

/-- All but what the radio knows of the peers. -/
def ControllerEvent.forgetPeers : ControllerEvent → ControllerEvent
  | .processReceivedPacket senderMac data env =>
    .processReceivedPacket senderMac data env.forgetPeers
  | .sendPacketToAddresses data env => .sendPacketToAddresses data fun i => (env i).forgetPeer
  | .sendInterest contentName targetMac hopCount env =>
    .sendInterest contentName targetMac hopCount fun i => (env i).forgetPeer
  | event => event

namespace RadioNode

variable {caps : BuildCapacity} (espNowIsPeerExist : List RadioPeer → Mac → Bool)
  (hmacSha256 : Key → List UInt8 → Hmac) (systemConfig : SystemConfig)

/-- The node before turn `i` of a send. -/
def beforeTurn (data : ESP_NOWControlData) (env : Fin maxTxAddresses → SendEnv)
    (i : Fin maxTxAddresses) (s : RadioNode caps) : RadioNode caps :=
  (((List.finRange maxTxAddresses).take i).foldl
    (fun acc i => sendPacketToAddress espNowIsPeerExist hmacSha256 systemConfig data
      (data.txAddress.get i) (env i) acc)
    (({} : RadioReport), s)).2

/-- A send, each turn with the answer of the record. -/
def answeredSends (data : ESP_NOWControlData) (env : Fin maxTxAddresses → SendEnv)
    (s : RadioNode caps) : Fin maxTxAddresses → SendEnv :=
  fun i => { env i with
    isPeerExist := ((s.beforeTurn espNowIsPeerExist hmacSha256 systemConfig data env i).peerOf
      (data.txAddress.get i)).isSome }

/-- A reception, with the answers of the record to the registration of the sender and to the send of
what is accepted. -/
def answeredReception (myMac senderMac : Mac) (data : List UInt8) (env : ReceiveEnv)
    (s : RadioNode caps) : ReceiveEnv :=
  { env with
    register := { env.register with isPeerExist := (s.peerOf senderMac).isSome }
    sends :=
      match s.acceptPacket espNowIsPeerExist hmacSha256 systemConfig myMac senderMac data env with
      | (none, _) => env.sends
      | (some answer, s) =>
        s.answeredSends espNowIsPeerExist hmacSha256 systemConfig answer env.sends }

variable {espNowIsPeerExist}

/-- The controller registers a peer as the node does, behind the controller's back. -/
theorem registerPeerIfNeeded_refines (mac : Mac) (addPeerOk : Bool) (s : RadioNode caps) :
    let r := s.registerPeerIfNeeded espNowIsPeerExist systemConfig mac addPeerOk
    s.controller.registerPeerIfNeeded systemConfig mac
        { isPeerExist := espNowIsPeerExist s.peers mac, addPeerOk } = r.1 ∧
      r.2.controller = s.controller := by
  unfold registerPeerIfNeeded ESP_NOWController.registerPeerIfNeeded addPeer
  dsimp only
  split
  · exact ⟨rfl, rfl⟩
  · split
    · cases resolveEspNowLmk systemConfig mac with
      | none => exact ⟨rfl, rfl⟩
      | some lmk => cases addPeerOk <;> exact ⟨rfl, rfl⟩
    · cases addPeerOk <;> exact ⟨rfl, rfl⟩

/-- **One turn of a send.** -/
theorem sendPacketToAddress_refines (data : ESP_NOWControlData) (addr : Mac) (env : SendEnv)
    (acc : RadioReport × RadioNode caps) :
    let r := sendPacketToAddress espNowIsPeerExist hmacSha256 systemConfig data addr env acc
    ESP_NOWController.sendPacketToAddress hmacSha256 systemConfig data addr
        { env with isPeerExist := espNowIsPeerExist acc.2.peers addr }
        (acc.1.toSendReport, acc.2.controller)
      = (r.1.toSendReport, r.2.controller) := by
  obtain ⟨report, s⟩ := acc
  unfold sendPacketToAddress ESP_NOWController.sendPacketToAddress
  dsimp only
  split
  · rfl
  · obtain ⟨answer, m⟩ := buildPacketForAddress hmacSha256 addr data true env.mdOk
      s.controller.peerCounterManager
    cases answer with
    | none => rfl
    | some packet =>
      -- the counter is used before the peer is registered
      have hregister := @registerPeerIfNeeded_refines caps espNowIsPeerExist systemConfig addr
        env.addPeerOk { s with controller := { s.controller with peerCounterManager := m } }
      dsimp only at hregister ⊢
      revert hregister
      generalize registerPeerIfNeeded espNowIsPeerExist systemConfig addr env.addPeerOk
        { s with controller := { s.controller with peerCounterManager := m } } = r
      rintro ⟨hfst, hsnd⟩
      have hfst' : ESP_NOWController.registerPeerIfNeeded systemConfig addr
          { isPeerExist := espNowIsPeerExist s.peers addr, addPeerOk := env.addPeerOk }
          { s.controller with peerCounterManager := m } = r.1 := hfst
      rw [hfst', ← hsnd]
      split
      · rfl
      · split <;> rfl

variable (hradio : DocumentedPeers espNowIsPeerExist)
include hradio

/-- **A send.** -/
theorem sendPacketToAddresses_refines (data : ESP_NOWControlData)
    (env : Fin maxTxAddresses → SendEnv) (s : RadioNode caps) :
    let r := s.sendPacketToAddresses espNowIsPeerExist hmacSha256 systemConfig data env
    s.controller.sendPacketToAddresses hmacSha256 systemConfig data
        (s.answeredSends espNowIsPeerExist hmacSha256 systemConfig data env)
      = (r.1.toSendReport, r.2.controller) := by
  let turn (acc : RadioReport × RadioNode caps) (i : Fin maxTxAddresses) :=
    sendPacketToAddress espNowIsPeerExist hmacSha256 systemConfig data (data.txAddress.get i)
      (env i) acc
  -- induction on the turns that are left; those before them lead to `acc`
  have hloop : ∀ (rest before : List (Fin maxTxAddresses)),
      before ++ rest = List.finRange maxTxAddresses →
      ∀ acc, acc = before.foldl turn (({} : RadioReport), s) →
      rest.foldl (fun acc i => ESP_NOWController.sendPacketToAddress hmacSha256 systemConfig data
          (data.txAddress.get i)
          (s.answeredSends espNowIsPeerExist hmacSha256 systemConfig data env i) acc)
          (acc.1.toSendReport, acc.2.controller)
        = ((rest.foldl turn acc).1.toSendReport, (rest.foldl turn acc).2.controller) := by
    intro rest
    induction rest with
    | nil => exact fun _ _ _ _ => rfl
    | cons i rest ih =>
      intro before hsplit acc hacc
      have hbefore : (List.finRange maxTxAddresses).take i = before := by
        have hget : (List.finRange maxTxAddresses)[before.length]? = some i := by
          rw [← hsplit, List.getElem?_append_right le_rfl, Nat.sub_self]
          rfl
        obtain ⟨hlt, hval⟩ := List.getElem?_eq_some_iff.mp hget
        rw [List.getElem_finRange] at hval
        rw [← hsplit, ← congrArg Fin.val hval]
        exact List.take_left
      -- so the record that answers for turn `i` is the one of the node here
      have hanswer : s.answeredSends espNowIsPeerExist hmacSha256 systemConfig data env i
          = { env i with isPeerExist := espNowIsPeerExist acc.2.peers (data.txAddress.get i) } := by
        unfold answeredSends beforeTurn
        rw [hbefore, isPeerExist_eq hradio, hacc]
      rw [List.foldl_cons, List.foldl_cons, hanswer, sendPacketToAddress_refines hmacSha256
        systemConfig data (data.txAddress.get i) (env i) acc]
      refine ih (before ++ [i]) (by rw [List.append_assoc]; exact hsplit) (turn acc i) ?_
      rw [List.foldl_append, ← hacc]
      rfl
  exact hloop _ [] rfl ({}, s) rfl

/-- **A reception.** -/
theorem processReceivedPacket_refines (myMac senderMac : Mac) (data : List UInt8)
    (env : ReceiveEnv) (s : RadioNode caps) :
    let r := s.processReceivedPacket espNowIsPeerExist hmacSha256 systemConfig myMac senderMac data
      env
    let r' := s.controller.processReceivedPacket hmacSha256 systemConfig myMac senderMac data
      (s.answeredReception espNowIsPeerExist hmacSha256 systemConfig myMac senderMac data env)
    r'.1.processed = r.1.1 ∧ r'.1.sends = r.1.2.toSendReport ∧ r'.2 = r.2.controller := by
  unfold processReceivedPacket answeredReception acceptPacket
    ESP_NOWController.processReceivedPacket
  cases CommunicationData.decode? data with
  | none => exact ⟨rfl, rfl, rfl⟩
  | some packet =>
    have hregister := @registerPeerIfNeeded_refines caps espNowIsPeerExist systemConfig senderMac
      env.register.addPeerOk s
    -- the sender is looked for in the record before the packet
    rw [isPeerExist_eq hradio] at hregister
    dsimp only at hregister ⊢
    revert hregister
    generalize s.registerPeerIfNeeded espNowIsPeerExist systemConfig senderMac
      env.register.addPeerOk = r
    rintro ⟨hfst, hsnd⟩
    rw [hfst, ← hsnd]
    by_cases hregistered : r.1 = false
    · rw [if_pos hregistered, if_pos hregistered]
      exact ⟨rfl, rfl, rfl⟩
    · rw [if_neg hregistered, if_neg hregistered]
      -- the verification and the handlers meet the same counters and tables on both sides
      generalize verifyIncomingPacket hmacSha256 r.2.controller.hmacAuthenticationEnabled
        senderMac packet env.mdOk r.2.controller.peerCounterManager = verified
      by_cases hrejected : r.2.controller.hmacAuthenticationEnabled = true ∧ verified.1 = false
      · rw [if_pos hrejected, if_pos hrejected]
        exact ⟨rfl, rfl, rfl⟩
      · rw [if_neg hrejected, if_neg hrejected]
        unfold ESP_NOWController.dispatchPacket
        dsimp only
        generalize receiveMessage systemConfig myMac senderMac (inputOfPacket senderMac packet)
          env.alloc r.2.controller.node = answer
        have hsends := sendPacketToAddresses_refines hmacSha256 systemConfig hradio answer.1
          env.sends
          { r.2 with controller :=
              { r.2.controller with peerCounterManager := verified.2, node := answer.2 } }
        dsimp only at hsends
        rw [hsends]
        exact ⟨rfl, rfl, rfl⟩

end RadioNode

/-! ## A device

The globals of the firmware and its boot.  Every early return of `initializeCommunication` leaves
the device as far as it got, so a boot that fails has a configuration but no callbacks, and hears
nothing. -/

/-- What `initializeCommunication` meets: the Wi-Fi channel, `esp_now_init`, `esp_now_set_pmk`, the
registration of each configured peer, and the MAC that `esp_wifi_get_mac` reads. -/
structure BootEnv where
  setChannelOk : Bool
  espNowInitOk : Bool
  setPmkOk : Bool
  addPeerOk : Fin maxPeerKeyEntries → Bool
  getMac : Option Mac

/-- A boot where nothing fails. -/
def BootEnv.good (myMac : Mac) : BootEnv where
  setChannelOk := true
  espNowInitOk := true
  setPmkOk := true
  addPeerOk _ := true
  getMac := some myMac

/-- A node on its radio: the globals of the firmware, the PMK that the radio was given, and whether
the callbacks are registered. -/
structure RadioDevice (caps : BuildCapacity) where
  node : RadioNode caps
  systemConfig : SystemConfig
  radioPmk : Option Key
  myMac : Mac
  callbacks : Bool

namespace RadioDevice

variable {caps : BuildCapacity}

/-- Power on. -/
def powerOn (caps : BuildCapacity) : RadioDevice caps where
  node := { controller := .init caps, peers := [] }
  systemConfig := {}
  radioPmk := none
  myMac := Mac.zero
  callbacks := false

end RadioDevice

/-- `copyPMK`, where it succeeds. -/
def ESP_NOWController.copyPMK {caps : BuildCapacity} (c : ESP_NOWController caps) : Option Key :=
  if c.espNowEncryptionEnabled then some c.pmk else none

namespace RadioDevice

variable {caps : BuildCapacity} (espNowIsPeerExist : List RadioPeer → Mac → Bool)

/-- `initializeCommunication`; its caller passes no null pointers. -/
def initializeCommunication (file : ConfigFile) (env : BootEnv) (d : RadioDevice caps) :
    Bool × RadioDevice caps :=
  match loadAndApplyConfigFile file d.systemConfig d.node.controller with
  | (false, systemConfig, controller) =>
    (false, { d with systemConfig, node := { d.node with controller } })
  | (true, systemConfig, controller) =>
    let d := { d with systemConfig, node := { d.node with controller } }
    if env.setChannelOk = false then (false, d)
    else if env.espNowInitOk = false then (false, d)
    else if controller.copyPMK.isSome ∧ env.setPmkOk = false then (false, d)
    else
      let d := { d with radioPmk := controller.copyPMK.or d.radioPmk }
      let r := d.node.registerConfiguredEspNowPeers espNowIsPeerExist systemConfig env.addPeerOk
      let d := { d with node := r.2 }
      if r.1 = false then (false, d)
      else
        match env.getMac with
        | none => (false, { d with myMac := Mac.zero })
        | some myMac => (true, { d with myMac, callbacks := true })

/-- The node with the configuration applied, before its peers are registered. -/
def configured (file : ConfigFile) (d : RadioDevice caps) : RadioNode caps :=
  let systemConfig := (loadSystemConfig file d.systemConfig).2
  { d.node with controller := d.node.controller.loadAndApplyConfig systemConfig }

/-- **`initializeCommunication`** with a document, whatever fails behind it. -/
theorem initializeCommunication_cases {file : ConfigFile} {document : Json}
    (hdocument : file.document? = some document) (env : BootEnv) (d : RadioDevice caps) :
    let r := d.initializeCommunication espNowIsPeerExist file env
    let systemConfig := (loadSystemConfig file d.systemConfig).2
    r.2.systemConfig = systemConfig ∧ r.2.callbacks = (d.callbacks || r.1) ∧
      (r.1 = true → r.2.radioPmk = (d.configured file).controller.copyPMK.or d.radioPmk) ∧
      (r.2.node = d.configured file ∨
        r.2.node = ((d.configured file).registerConfiguredEspNowPeers espNowIsPeerExist systemConfig
          env.addPeerOk).2) := by
  have hload : loadAndApplyConfigFile file d.systemConfig d.node.controller
      = (true, (loadSystemConfig file d.systemConfig).2, (d.configured file).controller) := by
    unfold loadAndApplyConfigFile configured loadSystemConfig
    rw [hdocument]
  unfold initializeCommunication
  rw [hload]
  dsimp only
  have hfailed : d.callbacks = (d.callbacks || false) := (Bool.or_false _).symm
  -- one case for each early return, in the order of the source
  split
  · exact ⟨rfl, hfailed, fun h => Bool.noConfusion h, Or.inl rfl⟩
  · split
    · exact ⟨rfl, hfailed, fun h => Bool.noConfusion h, Or.inl rfl⟩
    · split
      · exact ⟨rfl, hfailed, fun h => Bool.noConfusion h, Or.inl rfl⟩
      · split
        · exact ⟨rfl, hfailed, fun h => Bool.noConfusion h, Or.inr rfl⟩
        · split
          · exact ⟨rfl, hfailed, fun h => Bool.noConfusion h, Or.inr rfl⟩
          · exact ⟨rfl, (Bool.or_true _).symm, fun _ => rfl, Or.inr rfl⟩

/-- Without a document nothing is registered. -/
theorem initializeCommunication_of_no_document {file : ConfigFile}
    (hdocument : file.document? = none) (env : BootEnv) (d : RadioDevice caps) :
    d.initializeCommunication espNowIsPeerExist file env = (false, d) := by
  unfold initializeCommunication loadAndApplyConfigFile loadSystemConfig
  rw [hdocument]

end RadioDevice

/-! ## Runs

A run of a device against a run of its controller.  The answers that the controller's run gives are
not chosen: each is computed from the record that the device has when the event, or the turn of a
send, comes up. -/

/-- What an event is seen to do, with the peer that each packet sent went over. -/
structure DeviceReport extends ControllerReport where
  links : List (Option RadioPeer) := []

section Steps

variable {caps : BuildCapacity} (espNowIsPeerExist : List RadioPeer → Mac → Bool)
  (hmacSha256 : Key → List UInt8 → Hmac)

/-- One event on a device.  Without the callbacks no packet is received. -/
def radioStep (d : RadioDevice caps) (event : ControllerEvent) : DeviceReport × RadioDevice caps :=
  match event with
  | .processReceivedPacket senderMac data env =>
    if d.callbacks = false then ({}, d)
    else
      let r := d.node.processReceivedPacket espNowIsPeerExist hmacSha256 d.systemConfig d.myMac
        senderMac data env
      ({ processed := r.1.1, built := r.1.2.built, sent := r.1.2.sent, links := r.1.2.links },
        { d with node := r.2 })
  | .sendPacketToAddresses data env =>
    let r := d.node.sendPacketToAddresses espNowIsPeerExist hmacSha256 d.systemConfig data env
    ({ built := r.1.built, sent := r.1.sent, links := r.1.links }, { d with node := r.2 })
  | .sendInterest contentName targetMac hopCount env =>
    let r := d.node.sendInterest espNowIsPeerExist hmacSha256 d.systemConfig contentName targetMac
      hopCount env
    ({ built := r.1.built, sent := r.1.sent, links := r.1.links }, { d with node := r.2 })
  | event =>
    let r := controllerStep hmacSha256 d.systemConfig d.myMac d.node.controller event
    ({ toControllerReport := r.1 }, { d with node := { d.node with controller := r.2 } })

/-- An event, with each answer of `esp_now_is_peer_exist` as the record of the device has it. -/
def answeredEvent (d : RadioDevice caps) : ControllerEvent → ControllerEvent
  | .processReceivedPacket senderMac data env =>
    .processReceivedPacket senderMac data (d.node.answeredReception espNowIsPeerExist hmacSha256
      d.systemConfig d.myMac senderMac data env)
  | .sendPacketToAddresses data env =>
    .sendPacketToAddresses data
      (d.node.answeredSends espNowIsPeerExist hmacSha256 d.systemConfig data env)
  | .sendInterest contentName targetMac hopCount env =>
    .sendInterest contentName targetMac hopCount (d.node.answeredSends espNowIsPeerExist hmacSha256
      d.systemConfig (interestData contentName targetMac hopCount) env)
  | event => event

/-- A run, each event with the answers of the record that the device has when it comes. -/
def answeredRun (d : RadioDevice caps) : List ControllerEvent → List ControllerEvent
  | [] => []
  | event :: run =>
    answeredEvent espNowIsPeerExist hmacSha256 d event ::
      answeredRun (radioStep espNowIsPeerExist hmacSha256 d event).2 run

end Steps

section Refinement

variable {caps : BuildCapacity} {espNowIsPeerExist : List RadioPeer → Mac → Bool}
  (hmacSha256 : Key → List UInt8 → Hmac) {d : RadioDevice caps}

/-- What happens to the device itself: nothing. -/
structure SameDevice (d d' : RadioDevice caps) : Prop where
  systemConfig_eq : d'.systemConfig = d.systemConfig
  radioPmk_eq : d'.radioPmk = d.radioPmk
  myMac_eq : d'.myMac = d.myMac
  callbacks_eq : d'.callbacks = d.callbacks

theorem SameDevice.refl (d : RadioDevice caps) : SameDevice d d := ⟨rfl, rfl, rfl, rfl⟩

theorem SameDevice.trans {d d' d'' : RadioDevice caps} (h : SameDevice d d')
    (h' : SameDevice d' d'') : SameDevice d d'' where
  systemConfig_eq := h'.systemConfig_eq.trans h.systemConfig_eq
  radioPmk_eq := h'.radioPmk_eq.trans h.radioPmk_eq
  myMac_eq := h'.myMac_eq.trans h.myMac_eq
  callbacks_eq := h'.callbacks_eq.trans h.callbacks_eq

/-- An event leaves all but the node as it was. -/
theorem sameDevice_radioStep (d : RadioDevice caps) (event : ControllerEvent) :
    SameDevice d (radioStep espNowIsPeerExist hmacSha256 d event).2 := by
  cases event with
  | processReceivedPacket senderMac data env =>
    unfold radioStep
    dsimp only
    split <;> exact ⟨rfl, rfl, rfl, rfl⟩
  | _ => exact ⟨rfl, rfl, rfl, rfl⟩

theorem sameDevice_after (d : RadioDevice caps) (run : List ControllerEvent) :
    SameDevice d (after (radioStep espNowIsPeerExist hmacSha256) d run) :=
  after_invariant (P := fun _ _ => True)
    (fun d' event h _ => SameDevice.trans h (sameDevice_radioStep hmacSha256 d' event)) (.refl d)
    (along_of_forall _ _ (fun _ _ => trivial) _ run)

/-- The answers are all that is changed of an event. -/
theorem forgetPeers_answeredEvent (event : ControllerEvent) :
    (answeredEvent espNowIsPeerExist hmacSha256 d event).forgetPeers = event.forgetPeers := by
  cases event with
  | processReceivedPacket senderMac data env =>
    have hsends : ∀ i, ((d.node.answeredReception espNowIsPeerExist hmacSha256 d.systemConfig
        d.myMac senderMac data env).sends i).forgetPeer = (env.sends i).forgetPeer := by
      intro i
      unfold RadioNode.answeredReception
      dsimp only
      generalize d.node.acceptPacket espNowIsPeerExist hmacSha256 d.systemConfig d.myMac senderMac
        data env = accepted
      obtain ⟨answer, s⟩ := accepted
      cases answer <;> rfl
    refine congrArg (ControllerEvent.processReceivedPacket senderMac data) ?_
    unfold ReceiveEnv.forgetPeers
    rw [funext hsends]
    rfl
  | _ => rfl

theorem forgetPeers_answeredRun (run : List ControllerEvent) :
    (answeredRun espNowIsPeerExist hmacSha256 d run).map ControllerEvent.forgetPeers
      = run.map ControllerEvent.forgetPeers := by
  induction run generalizing d with
  | nil => rfl
  | cons event run ih =>
    rw [answeredRun, List.map_cons, List.map_cons, forgetPeers_answeredEvent, ih]

variable (hradio : DocumentedPeers espNowIsPeerExist)
include hradio

/-- **One event** on a device whose callbacks are registered. -/
theorem radioStep_refines (hcallbacks : d.callbacks = true) (event : ControllerEvent) :
    let r := radioStep espNowIsPeerExist hmacSha256 d event
    controllerStep hmacSha256 d.systemConfig d.myMac d.node.controller
        (answeredEvent espNowIsPeerExist hmacSha256 d event)
      = (r.1.toControllerReport, r.2.node.controller) := by
  cases event with
  | processReceivedPacket senderMac data env =>
    obtain ⟨hprocessed, hsends, hcontroller⟩ := RadioNode.processReceivedPacket_refines hmacSha256
      d.systemConfig hradio d.myMac senderMac data env d.node
    unfold radioStep answeredEvent controllerStep
    dsimp only
    rw [if_neg (by rw [hcallbacks]; decide), hprocessed, hsends, hcontroller]
  | sendPacketToAddresses data env =>
    have hsend := RadioNode.sendPacketToAddresses_refines hmacSha256 d.systemConfig hradio data env
      d.node
    unfold radioStep answeredEvent controllerStep
    dsimp only
    rw [hsend]
  | sendInterest contentName targetMac hopCount env =>
    have hsend := RadioNode.sendPacketToAddresses_refines hmacSha256 d.systemConfig hradio
      (interestData contentName targetMac hopCount) env d.node
    unfold radioStep answeredEvent controllerStep RadioNode.sendInterest
    dsimp only
    rw [ESP_NOWController.sendInterest_eq, hsend]
  | _ => rfl

/-- **A run** of a device whose callbacks are registered is a run of its controller, in which the
radio answers each time from the record that the device has then. -/
theorem radio_run_refines (hcallbacks : d.callbacks = true) (run : List ControllerEvent) :
    let step := controllerStep hmacSha256 d.systemConfig d.myMac
    let run' := answeredRun espNowIsPeerExist hmacSha256 d run
    outputs step d.node.controller run'
        = (outputs (radioStep espNowIsPeerExist hmacSha256) d run).map
          DeviceReport.toControllerReport ∧
      after step d.node.controller run'
        = (after (radioStep espNowIsPeerExist hmacSha256) d run).node.controller := by
  induction run generalizing d with
  | nil => exact ⟨rfl, rfl⟩
  | cons event run ih =>
    have hsame := @sameDevice_radioStep caps espNowIsPeerExist hmacSha256 d event
    have hstep := radioStep_refines hmacSha256 hradio hcallbacks event
    obtain ⟨houtputs, hafter⟩ := ih (hsame.callbacks_eq.trans hcallbacks)
    rw [hsame.systemConfig_eq, hsame.myMac_eq] at houtputs hafter
    rw [answeredRun]
    refine ⟨?_, ?_⟩
    · rw [outputs_cons, outputs_cons, List.map_cons, hstep, houtputs]
    · rw [after_cons, after_cons, hstep, hafter]

end Refinement

/-! ## From power on

The registration of the configured peers changes the record and not the controller, so after a boot
that succeeds the controller is the one `boot` describes, and the run above starts there. -/

/-- The configured peers are registered behind the back of the controller. -/
theorem RadioNode.controller_registerConfiguredEspNowPeers {caps : BuildCapacity}
    {espNowIsPeerExist : List RadioPeer → Mac → Bool} (systemConfig : SystemConfig)
    (addPeerOk : Fin maxPeerKeyEntries → Bool) (s : RadioNode caps) :
    (s.registerConfiguredEspNowPeers espNowIsPeerExist systemConfig addPeerOk).2.controller
      = s.controller := by
  have hloop : ∀ (l : List (Fin maxPeerKeyEntries)) (acc : Bool × RadioNode caps),
      (l.foldl (fun acc i =>
        let entry := systemConfig.espNowPeerLmkEntries.get i
        if entry.valid = false then acc
        else
          let r := acc.2.registerPeerIfNeeded espNowIsPeerExist systemConfig entry.mac (addPeerOk i)
          (acc.1 && r.1, r.2)) acc).2.controller = acc.2.controller := by
    intro l
    induction l with
    | nil => exact fun _ => rfl
    | cons i l ih =>
      intro acc
      rw [List.foldl_cons, ih]
      dsimp only
      split
      · rfl
      · exact (registerPeerIfNeeded_refines systemConfig _ (addPeerOk i) acc.2).2
  exact hloop _ (true, s)

/-- **A device from power on.**  On a radio that answers as it is documented, and after a boot that
succeeds, with whatever file and whatever other answers of the radio: every run of the device is a
run of a controller booted with the configuration of the file.  The reports, the tables and the
counters are the same; in the controller's run each `esp_now_is_peer_exist` is answered from the
record that the device has at that point, and the environment is the run's own in all else. -/
theorem device_run_refines (caps : BuildCapacity) (hmacSha256 : Key → List UInt8 → Hmac)
    {espNowIsPeerExist : List RadioPeer → Mac → Bool} (hradio : DocumentedPeers espNowIsPeerExist)
    (file : ConfigFile) (env : BootEnv)
    (hbooted : ((RadioDevice.powerOn caps).initializeCommunication espNowIsPeerExist file env).1
      = true)
    (run : List ControllerEvent) :
    let d := ((RadioDevice.powerOn caps).initializeCommunication espNowIsPeerExist file env).2
    let systemConfig := (loadSystemConfig file {}).2
    let step := controllerStep hmacSha256 systemConfig d.myMac
    let start := ESP_NOWController.boot caps systemConfig
    let run' := answeredRun espNowIsPeerExist hmacSha256 d run
    run'.map ControllerEvent.forgetPeers = run.map ControllerEvent.forgetPeers ∧
      outputs step start run'
          = (outputs (radioStep espNowIsPeerExist hmacSha256) d run).map
            DeviceReport.toControllerReport ∧
        after step start run'
          = (after (radioStep espNowIsPeerExist hmacSha256) d run).node.controller := by
  intro d systemConfig step start run'
  cases hdocument : file.document? with
  | none =>
    rw [RadioDevice.initializeCommunication_of_no_document _ hdocument] at hbooted
    cases hbooted
  | some document =>
    obtain ⟨hconfig, hcallbacks, -, hnode⟩ :=
      (RadioDevice.powerOn caps).initializeCommunication_cases espNowIsPeerExist hdocument env
    -- with or without configured peers registered, the controller is the one booted
    have hcontroller : d.node.controller = start := by
      rcases hnode with heq | heq
      · exact congrArg RadioNode.controller heq
      · exact (congrArg RadioNode.controller heq).trans
          (RadioNode.controller_registerConfiguredEspNowPeers _ _ _)
    have hregistered : d.callbacks = true := hcallbacks.trans (by rw [hbooted, Bool.or_true])
    have hruns := radio_run_refines hmacSha256 hradio hregistered run
    rw [hcontroller, show d.systemConfig = systemConfig from hconfig] at hruns
    exact ⟨forgetPeers_answeredRun hmacSha256 run, hruns⟩

/-- A radio that looks its peers up in the record. -/
def lookUpPeer (peers : List RadioPeer) (mac : Mac) : Bool :=
  peers.any fun peer => decide (peer.peerAddr = mac)

theorem documented_lookUpPeer : DocumentedPeers lookUpPeer where
  of_registered hpeer := List.any_eq_true.mpr ⟨_, hpeer, decide_eq_true rfl⟩
  registered h := by
    obtain ⟨peer, hpeer, haddr⟩ := List.any_eq_true.mp h
    exact ⟨peer, hpeer, of_decide_eq_true haddr⟩

/-- A boot with an empty document, and an INTEREST that comes in twice: its sender is registered the
first time. -/
theorem device_run_refines_received :
    let caps := BuildCapacity.uniform 4 (by decide)
    let peer : Mac := List.Vector.replicate _ 2
    let file : ConfigFile := { mounted := true, opened := true, parsed := some (.object []) }
    let event := ControllerEvent.processReceivedPacket peer
      (interestPacket Key.zero (ascii ['/', 'a']) 1).toBytes .good
    let d := ((RadioDevice.powerOn caps).initializeCommunication lookUpPeer file (.good peer)).2
    let systemConfig := (loadSystemConfig file {}).2
    let step := controllerStep checksum systemConfig d.myMac
    let start := ESP_NOWController.boot caps systemConfig
    let run' := answeredRun lookUpPeer checksum d [event, event]
    (d.node.peerOf peer = none ∧
      (after (radioStep lookUpPeer checksum) d [event]).node.peerOf peer
        = some { peerAddr := peer }) ∧
    run'.map ControllerEvent.forgetPeers = [event, event].map ControllerEvent.forgetPeers ∧
      outputs step start run'
          = (outputs (radioStep lookUpPeer checksum) d [event, event]).map
            DeviceReport.toControllerReport ∧
        after step start run'
          = (after (radioStep lookUpPeer checksum) d [event, event]).node.controller := by
  intro caps peer file event
  have hbooted : ((RadioDevice.powerOn caps).initializeCommunication lookUpPeer file
      (.good peer)).1 = true := by
    decide +kernel
  have hrefines := device_run_refines caps checksum documented_lookUpPeer file (.good peer) hbooted
    [event, event]
  exact ⟨by decide +kernel, hrefines⟩

end Icsn
