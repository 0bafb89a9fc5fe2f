import Icsn.Controller.ControlData
import Icsn.Controller.MacText
import Icsn.UseCase.UseCaseInteractor

/-!
# Icsn — the controller

`ESP-NOWController.cpp`: packets in and out of a node, in the build without timing measurements.
The radio is outside: whether a peer is registered, can be registered, and whether a packet is taken
for sending are inputs (`RegisterEnv`, `SendEnv`), like the success of the crypto library.  No
pointer is null.

* **`buildPacketForAddress`** / **`verifyIncomingPacket`** — a packet for one peer, and the check of
  a packet from one.
* **`sendPacketToAddresses`** — one packet for each address, with what was built and what was sent.
* **`processReceivedPacket`** — from the bytes on the air to the node's handlers and out again.
* **`controllerStep`** — one event on a node.
-/

namespace Icsn

/-- The two lines `strncpy(dst, src, m - 1)` and `dst[m - 1] = '\0'`, for a zeroed `dst`. -/
def copyField (m : Nat) (src : Str) : CharArray m := strncpy m src (m - 1)

/-! ## The radio

What the controller asks of the radio, the crypto library and the allocator, and cannot know before.
Each answer is an input of the step that asks for it, so that a theorem for all inputs covers every
pattern of failures. -/

/-- `esp_now_is_peer_exist`, and whether `esp_now_add_peer` succeeds. -/
structure RegisterEnv where
  isPeerExist : Bool
  addPeerOk : Bool
deriving DecidableEq

/-- What one turn of the send loop meets. -/
structure SendEnv extends RegisterEnv where
  mdOk : Bool
  sendOk : Bool
deriving DecidableEq

/-- What a packet's reception meets: registration of its sender, the crypto library, memory for the
Content Store, and the send loop. -/
structure ReceiveEnv where
  register : RegisterEnv
  mdOk : Bool
  alloc : Option Bool
  sends : Fin maxTxAddresses → SendEnv

/-- A radio that does all it is asked. -/
def SendEnv.good : SendEnv :=
  { isPeerExist := false, addPeerOk := true, mdOk := true, sendOk := true }

/-- Reception where nothing fails. -/
def ReceiveEnv.good : ReceiveEnv where
  register := SendEnv.good.toRegisterEnv
  mdOk := true
  alloc := some false
  sends _ := .good

/-! ## The controller

The class with its members, and what the boot does with a configuration that is loaded: the keys
into the table of peers, the routes into the node. -/

/-- `ESP_NOWController`, with the node behind its two boundaries. -/
structure ESP_NOWController (caps : BuildCapacity) where
  node : NodeState caps
  peerCounterManager : PeerCounterManager
  espNowEncryptionEnabled : Bool
  hmacAuthenticationEnabled : Bool
  pmk : Key

namespace ESP_NOWController

variable {caps : BuildCapacity}

/-- The constructor. -/
def init (caps : BuildCapacity) : ESP_NOWController caps where
  node := .init caps
  peerCounterManager := .init
  espNowEncryptionEnabled := false
  hmacAuthenticationEnabled := false
  pmk := Key.zero

def setGlobalLMK (lmk : Key) (c : ESP_NOWController caps) : ESP_NOWController caps :=
  { c with peerCounterManager := c.peerCounterManager.setGlobalLMK lmk }

def setPeerLMK (mac : Mac) (lmk : Key) (c : ESP_NOWController caps) :
    Bool × ESP_NOWController caps :=
  let r := c.peerCounterManager.setPeerLMK mac lmk
  (r.1, { c with peerCounterManager := r.2 })

def initFIBEntry (systemConfig : SystemConfig) (contentName nextHopMac : Str)
    (c : ESP_NOWController caps) : ESP_NOWController caps :=
  { c with node := Icsn.initFIBEntry systemConfig contentName nextHopMac c.node }

/-- `loadAndApplyConfig`, once the file is loaded into `systemConfig`. -/
def loadAndApplyConfig (systemConfig : SystemConfig) (c : ESP_NOWController caps) :
    ESP_NOWController caps :=
  let c := { c with espNowEncryptionEnabled := systemConfig.espNowEncryptionEnabled
                    hmacAuthenticationEnabled := systemConfig.hmacAuthenticationEnabled
                    pmk := Key.zero }
  let c := if c.espNowEncryptionEnabled ∧ systemConfig.espNowPmkConfigured then
      { c with pmk := systemConfig.espNowPmk }
    else c
  -- the peers' keys below are set whether or not HMAC is enabled
  let c := if c.hmacAuthenticationEnabled ∧ systemConfig.hmacDefaultKeyConfigured then
      c.setGlobalLMK systemConfig.hmacDefaultKey
    else c
  let c := (systemConfig.hmacPeerKeyEntries.toList.take systemConfig.hmacPeerKeyCount).foldl
    (fun c entry => if entry.valid then (c.setPeerLMK entry.mac entry.key).2 else c) c
  (systemConfig.fibInitEntries.toList.take systemConfig.fibInitCount).foldl
    (fun c entry => if entry.valid then
        c.initFIBEntry systemConfig (cstr entry.contentName.toList) (cstr entry.nextHopMac.toList)
      else c) c

/-- A node after a boot with this configuration. -/
def boot (caps : BuildCapacity) (systemConfig : SystemConfig) : ESP_NOWController caps :=
  (init caps).loadAndApplyConfig systemConfig

/-! ## Peers of the radio

Before a packet is sent to a peer or accepted from it, the peer has to be registered with the radio;
with encryption on that needs an LMK, its own or the default one. -/

def isBroadcastOrMulticast (mac : Mac) : Bool :=
  mac.toList.all (· == 0xFF) || mac.head &&& 0x01 != 0

def resolveEspNowLmk (systemConfig : SystemConfig) (mac : Mac) : Option Key :=
  match (systemConfig.espNowPeerLmkEntries.toList.take systemConfig.espNowPeerLmkCount).find?
      fun entry => entry.valid && decide (entry.mac = mac) with
  | some entry => some entry.key
  | none =>
    if systemConfig.espNowDefaultLmkConfigured then some systemConfig.espNowDefaultLmk else none

def registerPeerIfNeeded (systemConfig : SystemConfig) (mac : Mac) (env : RegisterEnv)
    (c : ESP_NOWController caps) : Bool :=
  if env.isPeerExist then true
  else if c.espNowEncryptionEnabled && !isBroadcastOrMulticast mac then
    -- an encrypted peer is not added without an LMK
    match resolveEspNowLmk systemConfig mac with
    | none => false
    | some _ => env.addPeerOk
  else env.addPeerOk

/-! ## Packets

A packet is built for one address and checked for one source.  Both go to the record of that peer,
and take a slot for it if it has none. -/

section Packets

variable (hmacSha256 : Key → List UInt8 → Hmac)

/-- `buildPacketForAddress`; no packet where the source reports no success. -/
def buildPacketForAddress (txAddress : Mac) (data : ESP_NOWControlData) (applySecurity mdOk : Bool)
    (m : PeerCounterManager) : Option CommunicationData × PeerCounterManager :=
  let packet : CommunicationData :=
    { signalCode := copyField _ data.signalCode.toList
      hopCount := data.hopCount
      contentName := copyField _ data.contentName.toList
      content := copyField _ data.content.toList
      counter := 0
      hmac := List.Vector.replicate _ 0 }
  if applySecurity = false then (some packet, m)
  else
    -- the counter goes up before the HMAC is known to succeed
    match m.incrementTxCounter txAddress with
    | (none, m) => (none, m)
    | (some counter, m) =>
      let packet := { packet with counter }
      match m.computeHMAC hmacSha256 txAddress packet.hmacData mdOk with
      | (none, m) => (none, m)
      | (some hmac, m) => (some { packet with hmac }, m)

/-- `verifyIncomingPacket`: the HMAC first, then the counter. -/
def verifyIncomingPacket (hmacAuthenticationEnabled : Bool) (mac : Mac) (packet : CommunicationData)
    (mdOk : Bool) (m : PeerCounterManager) : Bool × PeerCounterManager :=
  if hmacAuthenticationEnabled = false then (true, m)
  else
    match m.verifyHMAC hmacSha256 mac packet.hmacData packet.hmac mdOk with
    | (false, m) => (false, m)
    | (true, m) => m.validateRxCounter mac packet.counter

/-! ## Sending

The loop over the addresses of control data.  The result of the C++ function is `sentAny`; the
report keeps the packets as well, those built and those sent, since a counter is used up by the
first. -/

/-- What `sendPacketToAddresses` did: the packets built, those the radio took, and the answer. -/
structure SendReport where
  sentAny : Bool := false
  built : List (Mac × CommunicationData) := []
  sent : List (Mac × CommunicationData) := []
deriving DecidableEq

/-- One turn of the loop of `sendPacketToAddresses`. -/
def sendPacketToAddress (systemConfig : SystemConfig) (data : ESP_NOWControlData) (addr : Mac)
    (env : SendEnv) (acc : SendReport × ESP_NOWController caps) :
    SendReport × ESP_NOWController caps :=
  let (report, c) := acc
  if addr = Mac.zero then (report, c)
  else
    match buildPacketForAddress hmacSha256 addr data true env.mdOk c.peerCounterManager with
    | (none, m) => (report, { c with peerCounterManager := m })
    | (some packet, m) =>
      let c := { c with peerCounterManager := m }
      -- the counter is spent even when the packet is not sent
      let report := { report with built := report.built ++ [(addr, packet)] }
      if c.registerPeerIfNeeded systemConfig addr env.toRegisterEnv = false then (report, c)
      else if env.sendOk = false then (report, c)
      else ({ report with sentAny := true, sent := report.sent ++ [(addr, packet)] }, c)

def sendPacketToAddresses (systemConfig : SystemConfig) (data : ESP_NOWControlData)
    (env : Fin maxTxAddresses → SendEnv) (c : ESP_NOWController caps) :
    SendReport × ESP_NOWController caps :=
  (List.finRange maxTxAddresses).foldl
    (fun acc i =>
      sendPacketToAddress hmacSha256 systemConfig data (data.txAddress.get i) (env i) acc)
    ({}, c)

def sendInterest (systemConfig : SystemConfig) (contentName : Str) (targetMac : Mac)
    (hopCount : UInt8) (env : Fin maxTxAddresses → SendEnv) (c : ESP_NOWController caps) :
    SendReport × ESP_NOWController caps :=
  let interest : ESP_NOWControlData :=
    { txAddress := (List.Vector.replicate _ Mac.zero).set ⟨0, maxTxAddresses_pos⟩ targetMac
      signalCode := copyField _ (SignalCode.toString .interest)
      hopCount
      contentName := copyField _ contentName
      content := copyField _ valueNA }
  c.sendPacketToAddresses hmacSha256 systemConfig interest env

/-! ## Messages

Between the control data of the controller and the `InputData` and `OutputData` of the handlers.
The texts are cut to their fields on the way in and on the way out. -/

def receiveSensorData (data : ESP_NOWControlData) (alloc : Option Bool)
    (c : ESP_NOWController caps) : ESP_NOWController caps :=
  let inputData : InputData :=
    { senderId := valueNA
      destId := .empty
      signalCode := cstr data.signalCode.toList
      hopCount := 0
      contentName := cstr data.contentName.toList
      content := cstr data.content.toList }
  { c with node := handleSensorDataReceive inputData alloc c.node }

def sendSensorData (contentName content : Str) (hopCount : UInt8) (alloc : Option Bool)
    (c : ESP_NOWController caps) : ESP_NOWController caps :=
  c.receiveSensorData
    { hopCount
      signalCode := copyField _ (SignalCode.toString .data)
      contentName := copyField _ contentName
      content := copyField _ content } alloc

/-- The control data that `receiveMessage` makes of a handler's answer. -/
def controlDataOf (outputData : OutputData) : ESP_NOWControlData where
  -- receivers behind the last place are left out, places behind the last receiver stay zero
  txAddress := ⟨((outputData.destId.toList.take maxTxAddresses).map macStringToArray
      ++ List.replicate maxTxAddresses Mac.zero).take maxTxAddresses, by
    rw [List.length_take, List.length_append, List.length_replicate]; omega⟩
  signalCode := copyField _ outputData.signalCode
  -- the hop count is an `int` in the handlers and a byte in the packet
  hopCount := UInt8.ofNat (outputData.hopCount % 256).toNat
  contentName := copyField _ outputData.contentName
  content := copyField _ outputData.content

def receiveMessage (systemConfig : SystemConfig) (rxAddress txAddress : Mac)
    (data : ESP_NOWControlData) (alloc : Option Bool) (node : NodeState caps) :
    ESP_NOWControlData × NodeState caps :=
  let inputData : InputData :=
    { senderId := addressToString txAddress
      destId := .singleton (addressToString rxAddress)
      signalCode := cstr data.signalCode.toList
      hopCount := data.hopCount.toNat
      contentName := cstr data.contentName.toList
      content := cstr data.content.toList }
  match SignalCode.fromString (cstr data.signalCode.toList) with
  | .interest =>
    let r := handleInterestReceive systemConfig inputData node
    (controlDataOf r.1, r.2)
  | .data =>
    let r := handleDataReceive inputData alloc node
    (controlDataOf r.1, r.2)
  | .invalid => ({}, node)

/-! ## Receiving

The checks come in the order of the source: length, registration of the sender, HMAC, counter.  Each
failure returns at once, and what was done before it stays done. -/

structure ReceiveProcessResult where
  validPacket : Bool := false
  isInterest : Bool := false
  isData : Bool := false
  securityCheckRequired : Bool := false
  securityCheckVerified : Bool := false
  forwarded : Bool := false
deriving DecidableEq

/-- What `processReceivedPacket` did: its answer, its result, and what it sent on. -/
structure ReceiveReport where
  processed : Bool := false
  result : ReceiveProcessResult := {}
  sends : SendReport := {}
deriving DecidableEq

/-- `strncmp(field, word, n) == 0`. -/
def fieldIs (n : Nat) (field word : Str) : Bool := decide ((cstr field).take n = (cstr word).take n)

/-- The control data `processReceivedPacket` hands to `receiveMessage`. -/
def inputOfPacket (senderMac : Mac) (packet : CommunicationData) : ESP_NOWControlData where
  txAddress := (List.Vector.replicate _ Mac.zero).set ⟨0, maxTxAddresses_pos⟩ senderMac
  signalCode := copyField _ packet.signalCode.toList
  hopCount := packet.hopCount
  contentName := copyField _ packet.contentName.toList
  content := copyField _ packet.content.toList

/-- The part of `processReceivedPacket` behind the checks. -/
def dispatchPacket (systemConfig : SystemConfig) (myMac senderMac : Mac)
    (packet : CommunicationData) (env : ReceiveEnv) (c : ESP_NOWController caps) :
    SendReport × ESP_NOWController caps :=
  let r := receiveMessage systemConfig myMac senderMac (inputOfPacket senderMac packet) env.alloc
    c.node
  sendPacketToAddresses hmacSha256 systemConfig r.1 env.sends { c with node := r.2 }

def processReceivedPacket (systemConfig : SystemConfig) (myMac senderMac : Mac)
    (data : List UInt8) (env : ReceiveEnv) (c : ESP_NOWController caps) :
    ReceiveReport × ESP_NOWController caps :=
  match CommunicationData.decode? data with
  | none => ({}, c)
  | some packet =>
    if c.registerPeerIfNeeded systemConfig senderMac env.register = false then ({}, c)
    else
      let result : ReceiveProcessResult :=
        { validPacket := true
          isInterest := fieldIs maxSignalCodeLength packet.signalCode.toList
            (SignalCode.toString .interest)
          isData := fieldIs maxSignalCodeLength packet.signalCode.toList (SignalCode.toString .data)
          securityCheckRequired := c.hmacAuthenticationEnabled }
      let verified := verifyIncomingPacket hmacSha256 c.hmacAuthenticationEnabled senderMac packet
        env.mdOk c.peerCounterManager
      -- a rejected packet may still have taken a slot for its sender
      let c : ESP_NOWController caps := { c with peerCounterManager := verified.2 }
      if c.hmacAuthenticationEnabled = true ∧ verified.1 = false then ({ result }, c)
      else
        let sends := c.dispatchPacket hmacSha256 systemConfig myMac senderMac packet env
        ({ processed := true
           result := { result with securityCheckVerified := c.hmacAuthenticationEnabled
                                   forwarded := sends.1.sentAny }
           sends := sends.1 }, sends.2)

end Packets

end ESP_NOWController

/-! ## Runs

All that can happen to a controller between two boots, as one step function for the invariants of
the modules above. -/

/-- An event on a node: a packet from the air, something to send, or a setting. -/
inductive ControllerEvent where
  | processReceivedPacket (senderMac : Mac) (data : List UInt8) (env : ReceiveEnv)
  | sendPacketToAddresses (data : ESP_NOWControlData) (env : Fin maxTxAddresses → SendEnv)
  | sendInterest (contentName : Str) (targetMac : Mac) (hopCount : UInt8)
      (env : Fin maxTxAddresses → SendEnv)
  | sendSensorData (contentName content : Str) (hopCount : UInt8) (alloc : Option Bool)
  | setPeerLMK (mac : Mac) (lmk : Key)
  | setGlobalLMK (lmk : Key)
  | initFIBEntry (contentName nextHopMac : Str)
  | clearCSCache
  | clearPITCache

/-- What an event is seen to do: whether a received packet was processed, what was built for whom,
and what the radio took. -/
structure ControllerReport where
  processed : Bool := false
  built : List (Mac × CommunicationData) := []
  sent : List (Mac × CommunicationData) := []
deriving DecidableEq

/-- One event on the node with MAC `myMac`. -/
def controllerStep {caps : BuildCapacity} (hmacSha256 : Key → List UInt8 → Hmac)
    (systemConfig : SystemConfig) (myMac : Mac) (c : ESP_NOWController caps) :
    ControllerEvent → ControllerReport × ESP_NOWController caps
  | .processReceivedPacket senderMac data env =>
    let r := c.processReceivedPacket hmacSha256 systemConfig myMac senderMac data env
    ({ processed := r.1.processed, built := r.1.sends.built, sent := r.1.sends.sent }, r.2)
  | .sendPacketToAddresses data env =>
    let r := c.sendPacketToAddresses hmacSha256 systemConfig data env
    ({ built := r.1.built, sent := r.1.sent }, r.2)
  | .sendInterest contentName targetMac hopCount env =>
    let r := c.sendInterest hmacSha256 systemConfig contentName targetMac hopCount env
    ({ built := r.1.built, sent := r.1.sent }, r.2)
  | .sendSensorData contentName content hopCount alloc =>
    ({}, c.sendSensorData contentName content hopCount alloc)
  | .setPeerLMK mac lmk => ({}, (c.setPeerLMK mac lmk).2)
  | .setGlobalLMK lmk => ({}, c.setGlobalLMK lmk)
  | .initFIBEntry contentName nextHopMac => ({}, c.initFIBEntry systemConfig contentName nextHopMac)
  | .clearCSCache => ({}, { c with node := Icsn.clearCSCache c.node })
  | .clearPITCache => ({}, { c with node := Icsn.clearPITCache c.node })

/-! ## Fixed inputs

For the runs on fixed inputs in the modules above: a checksum that `decide` can evaluate, and
packets and settings that go with it. -/

/-- A keyed checksum in the place of HMAC-SHA256. -/
def checksum (key : Key) (data : List UInt8) : Hmac :=
  List.Vector.replicate _ ((key.toList ++ data).foldl (· + ·) 0)

/-- A configuration with HMAC under one default key. -/
def SystemConfig.hmacWith (key : Key) : SystemConfig :=
  { hmacAuthenticationEnabled := true, hmacDefaultKey := key, hmacDefaultKeyConfigured := true }

/-- The INTEREST for a name with this counter, as `checksum` authenticates it under the key. -/
def interestPacket (key : Key) (contentName : Str) (counter : UInt32) : CommunicationData :=
  let packet : CommunicationData :=
    { signalCode := copyField _ (SignalCode.toString .interest)
      hopCount := 0
      contentName := copyField _ contentName
      content := copyField _ valueNA
      counter
      hmac := List.Vector.replicate _ 0 }
  { packet with hmac := checksum key packet.hmacData }

end Icsn
