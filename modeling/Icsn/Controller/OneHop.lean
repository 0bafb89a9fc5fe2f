import Icsn.Controller.MatchingConfigurations
import Icsn.Controller.PacketStorm
import Icsn.Controller.RejectedPackets
import Icsn.Controller.Replies
import Mathlib.Data.Vector.Mem

/-!
# Icsn — one hop

A node that accepts a packet from one peer and answers it to another, where nothing fails: one
packet comes in, one goes out, and two counters go up by one.

* **`OnlyTo`** — control data for one address; `sendPacketToAddresses_onlyTo` sends it once.
* **`Acceptable`** — a packet that passes the checks of a node.
* **`Hop`** — what a hop leaves behind (`hop_of_acceptable`).
* **`answerTo_cached`** / **`answerTo_forwarded`** / **`answerTo_returned`** — the three answers
  that go to one peer: from the Content Store, along a route, and back to a requester.
-/

namespace Icsn

open PeerCounterManager (SameSlots RecordSet)

namespace ESP_NOWController

variable {caps : BuildCapacity} (hmacSha256 : Key → List UInt8 → Hmac)
  {systemConfig : SystemConfig}

/-! ## Sending to one address

All twenty turns of a send are run, but only the first address of `OnlyTo` is not zero, and a zero
address is skipped.  So the send is one turn; and that turn builds, registers and sends, given a
key, a slot and a radio that takes the packet. -/

/-- Control data for this address alone. -/
def OnlyTo (addr : Mac) (data : ESP_NOWControlData) : Prop :=
  data.txAddress.toList = addr :: List.replicate (maxTxAddresses - 1) Mac.zero

/-- An answer to one MAC. -/
theorem onlyTo_controlDataOf {out : OutputData} {addr : Mac}
    (hdest : out.destId.toList = [addressToString addr]) : OnlyTo addr (controlDataOf out) := by
  show ((out.destId.toList.take maxTxAddresses).map macStringToArray
    ++ List.replicate maxTxAddresses Mac.zero).take maxTxAddresses = _
  rw [hdest]
  show macStringToArray (addressToString addr) :: List.replicate (maxTxAddresses - 1) Mac.zero = _
  rw [macStringToArray_addressToString]

theorem OnlyTo.get {addr : Mac} {data : ESP_NOWControlData} (h : OnlyTo addr data)
    (i : Fin maxTxAddresses) :
    data.txAddress.get i = if i = ⟨0, maxTxAddresses_pos⟩ then addr else Mac.zero := by
  have hread : data.txAddress.toList[i.val]? = some (data.txAddress.get i) := by
    rw [List.Vector.get_eq_get_toList]
    simp
  rw [h] at hread
  obtain ⟨n, hn⟩ := i
  cases n with
  | zero => exact (Option.some.inj hread).symm
  | succ n =>
    rw [if_neg (by simp)]
    have hzero := List.mem_of_getElem? (List.getElem?_cons_succ.symm.trans hread)
    exact List.eq_of_mem_replicate hzero

/-- **One address, one turn.** -/
theorem sendPacketToAddresses_onlyTo {addr : Mac} {data : ESP_NOWControlData}
    (h : OnlyTo addr data) (env : Fin maxTxAddresses → SendEnv) (c : ESP_NOWController caps) :
    c.sendPacketToAddresses hmacSha256 systemConfig data env
      = sendPacketToAddress hmacSha256 systemConfig data addr (env ⟨0, maxTxAddresses_pos⟩)
        ({}, c) := by
  have hrest : ∀ i ∈ (List.finRange maxTxAddresses).tail,
      data.txAddress.get i = Mac.zero := by
    intro i hi
    rw [h.get, if_neg]
    rintro rfl
    exact absurd hi (by decide)
  have hcons : List.finRange maxTxAddresses
      = ⟨0, maxTxAddresses_pos⟩ :: (List.finRange maxTxAddresses).tail := by decide
  unfold sendPacketToAddresses
  rw [hcons, List.foldl_cons, foldl_zero_turns hmacSha256 systemConfig hrest, h.get, if_pos rfl]

/-- **No address, no turn.** -/
theorem sendPacketToAddresses_silent {data : ESP_NOWControlData} (h : Silent data)
    (env : Fin maxTxAddresses → SendEnv) (c : ESP_NOWController caps) :
    c.sendPacketToAddresses hmacSha256 systemConfig data env = ({}, c) := by
  refine foldl_zero_turns hmacSha256 systemConfig (fun i _ => ?_) ({}, c)
  have hall := List.filter_eq_nil_iff.mp h _ (List.Vector.get_mem i data.txAddress)
  exact of_not_not fun hne => hall (decide_eq_true hne)

/-- The packet for control data with this counter, under this key. -/
def packetUnder (key : Key) (data : ESP_NOWControlData) (counter : UInt32) : CommunicationData :=
  let packet := packetOf data counter
  { packet with hmac := hmacSha256 key packet.hmacData }

theorem carries_packetUnder (key : Key) (data : ESP_NOWControlData) (counter : UInt32) :
    Carries data (packetUnder hmacSha256 key data counter) := ⟨rfl, rfl, rfl, rfl⟩

/-- The HMAC covers none of its own bytes. -/
theorem hmacData_packetUnder (key : Key) (data : ESP_NOWControlData) (counter : UInt32) :
    (packetUnder hmacSha256 key data counter).hmacData = (packetOf data counter).hmacData := by
  rw [CommunicationData.hmacData_eq, CommunicationData.hmacData_eq]
  rfl

/-- The peer can be registered with the radio: no encryption, or an LMK for it. -/
def Registrable (systemConfig : SystemConfig) (mac : Mac) (c : ESP_NOWController caps) : Prop :=
  c.registerPeerIfNeeded systemConfig mac SendEnv.good.toRegisterEnv = true

instance (systemConfig : SystemConfig) (mac : Mac) (c : ESP_NOWController caps) :
    Decidable (c.Registrable systemConfig mac) := inferInstanceAs (Decidable (_ = true))

/-- **A send to one peer** with room and a key, where nothing fails. -/
theorem send_onlyTo {addr : Mac} {data : ESP_NOWControlData} (h : OnlyTo addr data)
    (hne : addr ≠ Mac.zero) {key : Key} {c : ESP_NOWController caps}
    (hkey : c.peerCounterManager.keyFor addr = some key)
    (hroom : c.peerCounterManager.HasRoom addr) (hregister : c.Registrable systemConfig addr) :
    let r := c.sendPacketToAddresses hmacSha256 systemConfig data fun _ => .good
    let counter := (c.peerCounterManager.record addr).txCounter + 1
    r.1.sent = [(addr, packetUnder hmacSha256 key data counter)] ∧
    ∃ m, RecordSet addr { c.peerCounterManager.record addr with txCounter := counter }
        c.peerCounterManager m ∧
      SameSlots (c.peerCounterManager.findOrCreatePeerIndex addr).2 m ∧
      r.2 = { c with peerCounterManager := m } := by
  intro r counter
  have hturn : r = sendPacketToAddress hmacSha256 systemConfig data addr .good ({}, c) :=
    sendPacketToAddresses_onlyTo hmacSha256 h _ c
  -- there is room, so the build uses up the counter
  have hset : RecordSet addr { c.peerCounterManager.record addr with txCounter := counter }
      c.peerCounterManager
      (buildPacketForAddress hmacSha256 addr data true true c.peerCounterManager).2 := by
    rcases buildPacketForAddress_cases hmacSha256 addr data true c.peerCounterManager with
      ⟨hfull, -⟩ | ⟨-, hset, -⟩
    · exact absurd hroom hfull
    · exact hset
  have hslots := sameSlots_build hmacSha256 addr data true c.peerCounterManager
  have hbuild := buildPacketForAddress_fst hmacSha256 hroom data true
  -- and there is a key, so a packet comes out
  rw [if_pos rfl, hkey] at hbuild
  have hmd : SendEnv.good.mdOk = true := rfl
  rw [hturn]
  unfold sendPacketToAddress
  dsimp only
  rw [if_neg hne, hmd]
  revert hset hslots hbuild
  obtain ⟨answer, m⟩ := buildPacketForAddress hmacSha256 addr data true true c.peerCounterManager
  rintro hset hslots rfl
  have hregister' : registerPeerIfNeeded systemConfig addr SendEnv.good.toRegisterEnv
      { c with peerCounterManager := m } = true := hregister
  dsimp only [Option.map_some]
  rw [if_neg (by rw [hregister']; decide), if_neg (by decide)]
  exact ⟨rfl, m, hset, hslots, rfl⟩

/-! ## Receiving from one peer

The conditions under which a packet gets past length, registration, HMAC and counter.  They speak of
the node before the packet comes in, so that they can be shown for a packet another node has built.
-/

/-- The packet passes the node's checks: its sender can be registered and has room, its HMAC is the
one under the node's key for the sender, and its counter is the next one. -/
structure Acceptable (systemConfig : SystemConfig) (senderMac : Mac) (packet : CommunicationData)
    (c : ESP_NOWController caps) : Prop where
  enabled : c.hmacAuthenticationEnabled = true
  registrable : c.Registrable systemConfig senderMac
  room : c.peerCounterManager.HasRoom senderMac
  tagged : ∃ key, c.peerCounterManager.keyFor senderMac = some key ∧
    hmacSha256 key packet.hmacData = packet.hmac
  next : packet.counter = (c.peerCounterManager.record senderMac).rxCounter + 1

variable {hmacSha256} {senderMac : Mac} {packet : CommunicationData} {c : ESP_NOWController caps}

/-- **An acceptable packet is processed**, and what the handlers answer to it is sent. -/
theorem Acceptable.processed (h : Acceptable hmacSha256 systemConfig senderMac packet c)
    (myMac : Mac) :
    let r := c.processReceivedPacket hmacSha256 systemConfig myMac senderMac packet.toBytes .good
    let answer := answerTo systemConfig (inputFromPacket myMac senderMac packet) (some false) c.node
    r.1.processed = true ∧
    ∃ m, RecordSet senderMac
        { c.peerCounterManager.record senderMac with rxCounter := packet.counter }
        c.peerCounterManager m ∧
      SameSlots (c.peerCounterManager.findOrCreatePeerIndex senderMac).2 m ∧
      (r.1.sends, r.2) = sendPacketToAddresses hmacSha256 systemConfig answer.1 (fun _ => .good)
        { c with peerCounterManager := m, node := answer.2 } := by
  obtain ⟨node, m, encryption, enabled, pmk⟩ := c
  obtain ⟨henabled, hregister, hroom, htagged, hnext⟩ := h
  obtain rfl : enabled = true := henabled
  have hregister' : registerPeerIfNeeded systemConfig senderMac ReceiveEnv.good.register
      { node, peerCounterManager := m, espNowEncryptionEnabled := encryption,
        hmacAuthenticationEnabled := true, pmk : ESP_NOWController caps } = true := hregister
  have hslots := sameSlots_verify hmacSha256 senderMac packet true m
  unfold processReceivedPacket
  rw [CommunicationData.decode?_toBytes]
  dsimp only
  rw [if_neg (by rw [hregister']; decide)]
  -- the check cannot fail, and has recorded the counter
  rcases verifyIncomingPacket_cases hmacSha256 senderMac packet true m with
    ⟨hnot, -⟩ | ⟨-, hpassed, hset⟩
  · exact absurd ⟨hroom, rfl, htagged, hnext⟩ hnot
  · have hmd : ReceiveEnv.good.mdOk = true := rfl
    rw [hmd, if_neg (by rw [hpassed]; decide), dispatchPacket_answers]
    refine ⟨rfl, _, hset, hslots, ?_⟩
    dsimp only
    exact Prod.mk.eta

/-! ## One hop

Reception and send one after the other: the send starts from the table that the check has left, with
the receive counter recorded and perhaps a new slot.  What comes out is a structure about the node
before and after, which the induction along a path can work with. -/

/-- The node can take a packet from one peer and send one to another: keys and slots for both. -/
structure Ready (systemConfig : SystemConfig) (senderMac addr : Mac)
    (c : ESP_NOWController caps) : Prop where
  enabled : c.hmacAuthenticationEnabled = true
  registrable_sender : c.Registrable systemConfig senderMac
  registrable_addr : c.Registrable systemConfig addr
  key_sender : (c.peerCounterManager.keyFor senderMac).isSome = true
  key_addr : (c.peerCounterManager.keyFor addr).isSome = true
  room_sender : c.peerCounterManager.HasRoom senderMac
  room_addr : (c.peerCounterManager.findOrCreatePeerIndex senderMac).2.HasRoom addr

/-- What a hop leaves behind: the tables of the answer, one packet to the other peer, and counters
that have gone up by what came in and what went out. -/
structure Hop (hmacSha256 : Key → List UInt8 → Hmac) (senderMac addr : Mac)
    (data : ESP_NOWControlData) (node' : NodeState caps) (c c' : ESP_NOWController caps)
    (sent : List (Mac × CommunicationData)) : Prop where
  sent_eq : ∃ key, c.peerCounterManager.keyFor addr = some key ∧
    sent = [(addr, packetUnder hmacSha256 key data
      ((c.peerCounterManager.record addr).txCounter + 1))]
  node_eq : c'.node = node'
  enabled_eq : c'.hmacAuthenticationEnabled = c.hmacAuthenticationEnabled
  encryption_eq : c'.espNowEncryptionEnabled = c.espNowEncryptionEnabled
  keyFor_eq : ∀ mac, c'.peerCounterManager.keyFor mac = c.peerCounterManager.keyFor mac
  rxCounter_eq : ∀ mac, (c'.peerCounterManager.record mac).rxCounter
    = (c.peerCounterManager.record mac).rxCounter + if mac = senderMac then 1 else 0
  txCounter_eq : ∀ mac, (c'.peerCounterManager.record mac).txCounter
    = (c.peerCounterManager.record mac).txCounter + if mac = addr then 1 else 0
  known_sender : c'.peerCounterManager.Known senderMac
  known_addr : c'.peerCounterManager.Known addr

variable {addr : Mac} {data : ESP_NOWControlData} {node' : NodeState caps}

/-- **One hop.**  An acceptable packet whose answer is for one peer. -/
theorem hop_of_acceptable (h : Acceptable hmacSha256 systemConfig senderMac packet c)
    (hready : c.Ready systemConfig senderMac addr) {myMac : Mac}
    (hanswer : answerTo systemConfig (inputFromPacket myMac senderMac packet) (some false) c.node
      = (data, node')) (honly : OnlyTo addr data) (hne : addr ≠ Mac.zero) :
    let r := c.processReceivedPacket hmacSha256 systemConfig myMac senderMac packet.toBytes .good
    r.1.processed = true ∧ Hop hmacSha256 senderMac addr data node' c r.2 r.1.sends.sent := by
  have hprocess := h.processed myMac
  revert hprocess
  dsimp only
  rw [hanswer]
  generalize c.processReceivedPacket hmacSha256 systemConfig myMac senderMac packet.toBytes .good
    = r
  rintro ⟨hprocessed, m, hset, hslots, hsends⟩
  refine ⟨hprocessed, ?_⟩
  -- recording the counter kept the keys, and took the slot looked for
  have hkeys := hset.keyFor rfl rfl
  obtain ⟨key, hkey⟩ := Option.isSome_iff_exists.mp hready.key_addr
  have hregister : Registrable systemConfig addr
      { c with peerCounterManager := m, node := node' } := hready.registrable_addr
  have hkey' : m.keyFor addr = some key := (hkeys addr).trans hkey
  have hroom : m.HasRoom addr := (hslots.hasRoom_iff addr).mpr hready.room_addr
  have hsend := send_onlyTo hmacSha256 honly hne
    (c := { c with peerCounterManager := m, node := node' }) hkey' hroom hregister
  rw [← hsends] at hsend
  obtain ⟨hsent, m', hset', -, hsnd⟩ := hsend
  -- the send moves the send counter of the address only
  have hrecord : ∀ mac, (m'.record mac).rxCounter = (m.record mac).rxCounter ∧
      (m'.record mac).txCounter
        = (m.record mac).txCounter + if mac = addr then 1 else 0 := by
    intro mac
    by_cases hmac : mac = addr
    · rw [if_pos hmac, hmac, hset'.record_self]
      exact ⟨rfl, rfl⟩
    · rw [if_neg hmac, hset'.record_ne mac hmac, UInt32.add_zero]
      exact ⟨rfl, rfl⟩
  -- the check moved the receive counter of the sender only
  have hreceived : ∀ mac, (m.record mac).txCounter = (c.peerCounterManager.record mac).txCounter ∧
      (m.record mac).rxCounter = (c.peerCounterManager.record mac).rxCounter
        + if mac = senderMac then 1 else 0 := by
    intro mac
    by_cases hmac : mac = senderMac
    · rw [if_pos hmac, hmac, hset.record_self]
      exact ⟨rfl, h.next⟩
    · rw [if_neg hmac, hset.record_ne mac hmac, UInt32.add_zero]
      exact ⟨rfl, rfl⟩
  dsimp only at hsent hsnd
  rw [(hreceived addr).1] at hsent
  rw [hsnd]
  refine ⟨⟨key, hkey, hsent⟩, rfl, rfl, rfl, ?keyFor_eq, ?rxCounter_eq, ?txCounter_eq,
    ?known_sender, ?known_addr⟩
  case rxCounter_eq =>
    intro mac
    exact (hrecord mac).1.trans (hreceived mac).2
  case txCounter_eq =>
    intro mac
    rw [← (hreceived mac).1]
    exact (hrecord mac).2
  case keyFor_eq => exact fun mac => (hset'.keyFor rfl rfl mac).trans (hkeys mac)
  case known_sender => exact hset'.known senderMac hset.known_self
  case known_addr => exact hset'.known_self

/-- After a hop the node is ready for the way back. -/
theorem Hop.ready {sent : List (Mac × CommunicationData)} {c' : ESP_NOWController caps}
    (h : Hop hmacSha256 senderMac addr data node' c c' sent)
    (hready : c.Ready systemConfig senderMac addr) : c'.Ready systemConfig addr senderMac := by
  have hregister : ∀ mac, c.Registrable systemConfig mac → c'.Registrable systemConfig mac := by
    intro mac hmac
    unfold Registrable registerPeerIfNeeded at hmac ⊢
    rw [h.encryption_eq]
    exact hmac
  obtain ⟨idx, hidx⟩ := Option.isSome_iff_exists.mp h.known_addr
  refine ⟨h.enabled_eq.trans hready.enabled, hregister _ hready.registrable_addr,
    hregister _ hready.registrable_sender, ?_, ?_, h.known_addr.hasRoom, ?_⟩
  · rw [h.keyFor_eq]
    exact hready.key_addr
  · rw [h.keyFor_eq]
    exact hready.key_sender
  · rw [PeerCounterManager.findOrCreatePeerIndex_again hidx]
    exact h.known_sender.hasRoom

/-- A packet under the key that the node has for its sender, with the next counter, is
acceptable. -/
theorem Ready.acceptable (h : c.Ready systemConfig senderMac addr) {key : Key}
    (hkey : c.peerCounterManager.keyFor senderMac = some key) {counter : UInt32}
    (hnext : counter = (c.peerCounterManager.record senderMac).rxCounter + 1)
    (data : ESP_NOWControlData) :
    Acceptable hmacSha256 systemConfig senderMac (packetUnder hmacSha256 key data counter) c where
  enabled := h.enabled
  registrable := h.registrable_sender
  room := h.room_sender
  tagged := ⟨key, hkey, by rw [hmacData_packetUnder]; rfl⟩
  next := hnext

end ESP_NOWController

/-! ## What a packet says

Kind, name and hop count of a packet as the handlers will read them, so that the packet a node sends
can be handed to the next one without a word of its HMAC or its counter. -/

/-- The name that `receiveMessage` reads in a packet. -/
def CommunicationData.name (packet : CommunicationData) : Str :=
  cstr (copyField maxContentNameLength packet.contentName.toList).toList

/-- And the content. -/
def CommunicationData.text (packet : CommunicationData) : Str :=
  cstr (copyField maxContentLength packet.content.toList).toList

theorem CommunicationData.fits_name (packet : CommunicationData) :
    Fits maxContentNameLength packet.name := fits_cstr_copyField _ _

theorem CommunicationData.fits_text (packet : CommunicationData) :
    Fits maxContentLength packet.text := fits_cstr_copyField _ _

/-- The packet is of this kind, for this name, and has come this far. -/
structure CommunicationData.Reads (packet : CommunicationData) (code : SignalCode) (name : Str)
    (hops : UInt8) : Prop where
  code_eq : packet.code = code
  name_eq : packet.name = name
  hopCount_eq : packet.hopCount = hops

namespace ESP_NOWController

open LRUPendingInterestTable (index_save mergedDestinations)

variable {caps : BuildCapacity} {systemConfig : SystemConfig} {packet : CommunicationData}

/-- A packet that carries an answer says what the answer does, and its content is cut to the
field. -/
theorem Carries.reads {self name content : Str} {dest : StdSet} {code : SignalCode} {hop : Int}
    (hname : Fits maxContentNameLength name)
    (h : Carries (controlDataOf (makeOutput self dest code.toString hop name content)) packet) :
    packet.Reads code name (UInt8.ofNat (hop % 256).toNat) ∧
      packet.text = cstr (copyField maxContentLength content).toList := by
  have hinput := h.input_of_answer Mac.zero Mac.zero
  refine ⟨⟨h.code_eq rfl, ?_, h.hopCount_eq⟩, congrArg InputData.content hinput⟩
  exact (congrArg InputData.contentName hinput).trans hname.cstr_copyField

/-- One hop more, in the byte of the packet. -/
theorem hopCount_succ (myMac senderMac : Mac) (packet : CommunicationData) :
    UInt8.ofNat (((inputFromPacket myMac senderMac packet).hopCount + 1) % 256).toNat
      = packet.hopCount + 1 := by
  have hlt := packet.hopCount.toNat_lt
  have hread : (inputFromPacket myMac senderMac packet).hopCount = packet.hopCount.toNat := rfl
  rw [hread, ← UInt8.toNat_inj, UInt8.toNat_ofNat', UInt8.toNat_add]
  show (((packet.hopCount.toNat : Int) + 1) % 256).toNat % 2 ^ 8
    = (packet.hopCount.toNat + 1) % 2 ^ 8
  omega

/-! ## Three answers to one peer

When the handlers answer to exactly one peer: the name is stored, or its route has one next hop, or
one requester waits for it.  And a fourth, the DATA that nobody waits for. -/

section Answers

variable {node : NodeState caps} (inputData : InputData) (alloc : Option Bool) {content : Str}

/-- **From the Content Store**: the name is stored. -/
theorem answerTo_cached (hcode : SignalCode.fromString inputData.signalCode = .interest)
    (hhop : inputData.hopCount + 1 < systemConfig.hopCountThreshold)
    (hsound : node.csRepository.Sound)
    (hstored : node.csRepository.contentOf inputData.contentName = some content) :
    answerTo systemConfig inputData alloc node
      = (controlDataOf (makeOutput (inputData.destId.begin?.getD []) (.singleton inputData.senderId)
          (SignalCode.toString .data) 0 inputData.contentName content),
        { node with csRepository := (node.csRepository.get inputData.contentName).2 }) := by
  have hfind : node.csRepository.find inputData.contentName = true := by
    rw [← hsound.contentOf_isSome, hstored]
    rfl
  unfold answerTo
  rw [hcode]
  dsimp only
  rcases handleInterestReceive_cases systemConfig inputData node with
    ⟨hlimit, -⟩ | ⟨-, -, hout, hnode⟩ | ⟨-, hmiss, -⟩
  · omega
  · rw [hout, hnode, LRUContentStore.get_fst, hstored]
    rfl
  · rw [hfind] at hmiss
    cases hmiss

/-- The FIB sends an INTEREST for the name to this next hop alone. -/
def RoutesTo (systemConfig : SystemConfig) (name nextHop : Str) (node : NodeState caps) : Prop :=
  let found := LRUForwardingInformationBase.find systemConfig.maxVirtualDepth name
    node.fibRepository
  found.1 = true ∧
    (LRUForwardingInformationBase.get systemConfig.maxVirtualDepth name found.2).1
      = .singleton nextHop

instance (systemConfig : SystemConfig) (name nextHop : Str) (node : NodeState caps) :
    Decidable (RoutesTo systemConfig name nextHop node) := inferInstanceAs (Decidable (_ ∧ _))

/-- **Along a route**: the name is not stored, and its route has one next hop. -/
theorem answerTo_forwarded {nextHop : Str}
    (hcode : SignalCode.fromString inputData.signalCode = .interest)
    (hhop : inputData.hopCount + 1 < systemConfig.hopCountThreshold)
    (hmiss : node.csRepository.find inputData.contentName = false)
    (hroute : RoutesTo systemConfig inputData.contentName nextHop node) :
    ∃ node', answerTo systemConfig inputData alloc node
      = (controlDataOf (makeOutput (inputData.destId.begin?.getD []) (.singleton nextHop)
          (SignalCode.toString .interest) (inputData.hopCount + 1) inputData.contentName
          inputData.content), node') ∧
      node'.csRepository = node.csRepository ∧
      node'.pitRepository = LRUPendingInterestTable.save
        { contentName := inputData.contentName, destinationId := .singleton inputData.senderId }
        node.pitRepository := by
  obtain ⟨hfound, hnextHops⟩ := hroute
  unfold answerTo
  rw [hcode]
  rcases handleInterestReceive_of_miss hhop hmiss with ⟨-, heq⟩ | ⟨hnone, -⟩
  · dsimp only
    rw [heq, hnextHops]
    exact ⟨_, rfl, rfl, rfl⟩
  · rw [hfound] at hnone
    cases hnone

/-- **Back to the requester**: the PIT has one for the name. -/
theorem answerTo_returned {id : Str}
    (hcode : SignalCode.fromString inputData.signalCode = .data)
    {requesters : RequesterSet caps}
    (hlook : node.pitRepository.index.lookup inputData.contentName = some requesters)
    (hids : requesters.ids = [id]) :
    ∃ node', answerTo systemConfig inputData alloc node
      = (controlDataOf (makeOutput (inputData.destId.begin?.getD valueNA) (.singleton id)
          (SignalCode.toString .data) (inputData.hopCount + 1) inputData.contentName
          inputData.content), node') ∧
      node'.csRepository = node.csRepository.save
        { contentName := inputData.contentName, content := inputData.content } alloc := by
  unfold answerTo
  rw [hcode]
  rcases handleDataReceive_cases inputData alloc node with ⟨hmiss, -⟩ | ⟨-, hout, -, hcs⟩
  · rw [LRUPendingInterestTable.find_eq, hlook] at hmiss
    cases hmiss
  · have hdest : (LRUPendingInterestTable.get inputData.contentName node.pitRepository).1
        = .singleton id := by
      rw [LRUPendingInterestTable.get_fst, hlook]
      show OrderedSet.ofList requesters.ids = _
      rw [hids]
      rfl
    dsimp only
    rw [hout, hdest]
    exact ⟨_, rfl, hcs⟩

/-- **To nobody**: the PIT has no requester for the name. -/
theorem answerTo_dropped (hcode : SignalCode.fromString inputData.signalCode = .data)
    (hnone : node.pitRepository.index.lookup inputData.contentName = none) :
    answerTo systemConfig inputData alloc node
      = (controlDataOf (invalidOutput (inputData.hopCount + 1)), node) := by
  unfold answerTo
  rw [hcode]
  rcases handleDataReceive_cases inputData alloc node with ⟨-, heq⟩ | ⟨hfound, -⟩
  · dsimp only
    rw [heq]
  · rw [LRUPendingInterestTable.find_eq, hnone] at hfound
    cases hfound

/-- The PIT after the first INTEREST for a name has its sender, and nobody else. -/
theorem requester_saved {pit : LRUPendingInterestTable caps} {name : Str} (hwf : pit.index.Wf)
    (hnone : pit.index.lookup name = none) (hroom : pit.index.currentSize < caps.pitEntries)
    (hchars : 17 ≤ caps.nodeIdMaxChars) (mac : Mac) :
    ∃ requesters, (LRUPendingInterestTable.save
        { contentName := name, destinationId := .singleton (addressToString mac) }
        pit).index.lookup name = some requesters ∧
      requesters.ids = [addressToString mac] := by
  have hput : ∀ requesters : RequesterSet caps, (pit.index.put name requesters).1 = true := by
    intro requesters
    rw [← Bool.not_eq_false, CacheIndex.put_eq_false_iff hwf]
    exact fun hfull => absurd hfull.2 (Nat.not_le_of_lt hroom)
  refine ⟨_, by rw [index_save]; exact CacheIndex.lookup_put_self hwf (hput _), ?_⟩
  dsimp only
  rw [hnone]
  have hlists : Lists [mac] (mergedDestinations (none : Option (RequesterSet caps))
      (.singleton (addressToString mac))).ids :=
    lists_nil.insert hchars mac caps.pitRequestersPerEntry_pos
  have hone : (mergedDestinations (none : Option (RequesterSet caps))
      (.singleton (addressToString mac))).ids.length = 1 := hlists.length_eq
  obtain ⟨id, hid⟩ := List.length_eq_one_iff.mp hone
  have hmem := (hlists.mem_addressToString mac).mpr List.mem_cons_self
  rw [hid] at hmem ⊢
  rw [List.mem_singleton.mp hmem]

/-- A name that is new to a Content Store with room is stored. -/
theorem stored_of_room {store : LRUContentStore caps} (hsound : store.Sound)
    (hfree : store.findFreePayloadSlot ≠ none)
    (hroom : store.cache.index.currentSize < caps.csEntries) (p : CSPair) {inPsram : Bool} :
    (store.save p (some inPsram)).contentOf p.contentName = some p.content := by
  rcases hsound.notStored_or_storedAt p (some inPsram) with ⟨-, hindex, -⟩ | ⟨s, hst⟩
  · rcases LRUContentStore.save_cases p (some inPsram) store with
      ⟨hno | hno, -⟩ | ⟨s, -, hs, -, hput, -⟩
    · exact absurd hno hfree
    · cases hno
    · -- the free slot would have been the name's already
      have haccepted : (store.cache.index.put p.contentName (s.val : Int)).1 = true := by
        rw [← Bool.not_eq_false, CacheIndex.put_eq_false_iff hsound.chained.toWf]
        exact fun hfull => absurd hfull.2 (Nat.not_le_of_lt hroom)
      have hself := CacheIndex.lookup_put_self hsound.chained.toWf haccepted
      rw [← hput, hindex] at hself
      exact absurd rfl (hsound.slot_ne_free hs hself)
  · exact hst.contentOf_self hsound

end Answers

end ESP_NOWController

end Icsn
