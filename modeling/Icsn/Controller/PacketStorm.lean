import Icsn.Controller.ControllerSteps
import Icsn.Controller.PacketCodec
import Icsn.Lib.Relay
import Icsn.Lib.StepRun
import Icsn.UseCase.TrafficBalance

/-!
# Icsn — no packet storm

Nodes with any tables and any routes, whose PITs are empty at the start, and packets that are
delivered at most once each, in any order and to anyone.

* **`reception_traffic`** — what one reception sends: copies of an INTEREST with one hop more, to
  the next hops of a route; or DATA, paid for by requesters.
* **`AirNetwork`** / **`airStep`** — the nodes and the packets on the air, each with the INTERESTs
  it is a copy of.
* **`ChangesNode`** / **`TakesPacket`** — the two kinds of events (`airStep_cases`).
* **`AirNetwork.relay`** — the INTERESTs on the air as messages of a `Relay`, with the hops they
  have left for a budget; `relay_step` says that every event is a step of it or none.
* **`no_packet_storm`** — over every run, a bounded number of INTERESTs, and no more DATA than
  INTERESTs delivered.
-/

namespace Icsn

open StepRun

/-! ## One reception

What a node sends for a packet, in terms of three numbers that the rest of the module counts with:
the hops of what it sends, how many copies there are, and by how much the requesters that wait in
its PIT change.  The handlers say it of their answer; the send loop then sends at most one packet
for each address of the answer. -/

/-- The code that `receiveMessage` reads in a packet. -/
def CommunicationData.code (packet : CommunicationData) : SignalCode :=
  SignalCode.fromString (cstr (copyField maxSignalCodeLength packet.signalCode.toList).toList)

/-- The requester that an INTEREST adds. -/
def SignalCode.asked (code : SignalCode) : Nat := if code = .interest then 1 else 0

/-- The event hands packets to the radio. -/
def ControllerEvent.sends : ControllerEvent → Bool
  | .processReceivedPacket .. | .sendPacketToAddresses .. | .sendInterest .. => true
  | _ => false

namespace ESP_NOWController

variable {caps : BuildCapacity} (hmacSha256 : Key → List UInt8 → Hmac)
  (systemConfig : SystemConfig)

/-- **What the handlers answer to a message**: an INTEREST passed on, a DATA, or nothing. -/
theorem answerTo_traffic (inputData : InputData) (alloc : Option Bool) {node : NodeState caps}
    (hwf : node.pitRepository.index.Wf) :
    let r := answerTo systemConfig inputData alloc node
    let code := SignalCode.fromString inputData.signalCode
    let pending := pendingRequesters node.pitRepository
    let pending' := pendingRequesters r.2.pitRepository
    r.2.pitRepository.index.Wf ∧
    ((∃ out, r.1 = controlDataOf out ∧ code = .interest ∧
        Forwards caps systemConfig.hopCountThreshold inputData out ∧ pending' ≤ pending + 1) ∨
      (∃ out, r.1 = controlDataOf out ∧ out.signalCode = SignalCode.toString .data ∧
        out.destId.toList.length + pending' ≤ pending + code.asked) ∨
      (Silent r.1 ∧ pending' ≤ pending + code.asked)) := by
  unfold answerTo
  dsimp only
  cases hcode : SignalCode.fromString inputData.signalCode with
  -- passed on, answered from the store, or dropped
  | interest =>
    refine ⟨pitWf_step hwf (.interest inputData), ?_⟩
    rcases interest_traffic systemConfig inputData hwf with
      ⟨hforwards, hpending⟩ | ⟨hdata, hpending⟩ | ⟨⟨hop, hdrop⟩, hpending⟩
    · exact Or.inl ⟨_, rfl, rfl, hforwards, hpending⟩
    · exact Or.inr (Or.inl ⟨_, rfl, hdata, hpending⟩)
    · refine Or.inr (Or.inr ⟨?_, hpending⟩)
      dsimp only
      rw [hdrop]
      exact silent_invalidOutput hop
  -- on to those who wait for it, or dropped
  | data =>
    refine ⟨@pitWf_step caps systemConfig node hwf (.data inputData alloc), ?_⟩
    rcases data_traffic inputData alloc node with ⟨hdata, hpending⟩ | ⟨⟨hop, hdrop⟩, hpending⟩
    · exact Or.inr (Or.inl ⟨_, rfl, hdata, hpending⟩)
    · refine Or.inr (Or.inr ⟨?_, hpending⟩)
      dsimp only
      rw [hdrop]
      exact silent_invalidOutput hop
  | invalid => exact ⟨hwf, Or.inr (Or.inr ⟨silent_default, Nat.le_refl _⟩)⟩

/-- An answer has no more addresses than the handler gives it. -/
theorem length_addresses_le (out : OutputData) :
    ((controlDataOf out).txAddress.toList.filter (· ≠ Mac.zero)).length
      ≤ out.destId.toList.length := by
  show ((((out.destId.toList.take maxTxAddresses).map macStringToArray
    ++ List.replicate maxTxAddresses Mac.zero).take maxTxAddresses).filter _).length ≤ _
  have hzero : (List.replicate maxTxAddresses Mac.zero).filter (· ≠ Mac.zero) = [] :=
    List.filter_eq_nil_iff.mpr fun mac hmac => by simp [List.eq_of_mem_replicate hmac]
  calc _ ≤ (((out.destId.toList.take maxTxAddresses).map macStringToArray
        ++ List.replicate maxTxAddresses Mac.zero).filter (· ≠ Mac.zero)).length :=
        ((List.take_sublist _ _).filter _).length_le
    _ ≤ ((out.destId.toList.take maxTxAddresses).map macStringToArray).length := by
        rw [List.filter_append, hzero, List.append_nil]
        exact List.length_filter_le _ _
    _ ≤ out.destId.toList.length := by
        rw [List.length_map]
        exact (List.take_sublist _ _).length_le

variable {hmacSha256} {data : ESP_NOWControlData} {report : SendReport}

/-- A report has no more packets sent than its data has addresses. -/
theorem ReportOf.length_sent_le (h : ReportOf data data.txAddress.toList report) :
    report.sent.length ≤ (data.txAddress.toList.filter (· ≠ Mac.zero)).length := by
  have hbuilt := h.addrs_sublist.length_le
  rw [List.length_map] at hbuilt
  exact h.sent_sublist.length_le.trans hbuilt

/-- The packets that carry control data have its code. -/
theorem Carries.code_eq {packet : CommunicationData} {code : SignalCode} (h : Carries data packet)
    (hcode : data.signalCode = copyField _ code.toString) : packet.code = code := by
  have hread := congrArg InputData.signalCode (h.input_eq Mac.zero Mac.zero)
  have hsame : cstr (copyField maxSignalCodeLength packet.signalCode.toList).toList
      = cstr (copyField maxSignalCodeLength data.signalCode.toList).toList := hread
  unfold CommunicationData.code
  rw [hsame, hcode, cstr_copyField_copyField, (Fits.signalCode code).cstr_copyField]
  cases code <;> rfl

/-- The packets that carry an INTEREST passed on have one hop more, below the limit: the byte holds
the hop count whole. -/
theorem Carries.hopCount_succ {hopCountThreshold : Int} (hlimit : hopCountThreshold ≤ 256)
    {inputData : InputData} {hops : UInt8} (hhops : inputData.hopCount = hops.toNat)
    {out : OutputData} (hforwards : Forwards caps hopCountThreshold inputData out)
    {packet : CommunicationData} (h : Carries (controlDataOf out) packet) :
    packet.hopCount.toNat = hops.toNat + 1 ∧ (packet.hopCount.toNat : Int) < hopCountThreshold := by
  have hhop := hforwards.hopCount_eq
  have hlt := hforwards.hopCount_lt
  have hbyte : packet.hopCount.toNat = (out.hopCount % 256).toNat % 256 := by
    rw [h.hopCount_eq]
    exact UInt8.toNat_ofNat'
  omega

/-- What a report of an answer sends has the answer's code, and there are no more packets than the
handler gives addresses. -/
theorem ReportOf.answer {out : OutputData} {code : SignalCode}
    (hcode : out.signalCode = SignalCode.toString code)
    (h : ReportOf (controlDataOf out) (controlDataOf out).txAddress.toList report) :
    report.sent.length ≤ out.destId.toList.length ∧ ∀ sent ∈ report.sent, sent.2.code = code :=
  ⟨h.length_sent_le.trans (length_addresses_le out), fun sent hsent =>
    (h.carries sent (h.sent_sublist.subset hsent)).code_eq (congrArg (copyField _) hcode)⟩

/-- A report of an answer to nobody sends nothing. -/
theorem ReportOf.sent_of_silent (h : ReportOf data data.txAddress.toList report)
    (hsilent : Silent data) : report.sent = [] := by
  have hsub := h.sent_sublist
  rw [h.built_of_silent hsilent] at hsub
  exact List.sublist_nil.mp hsub

variable (hmacSha256)

/-- **What one reception sends**: INTERESTs, copies of the one received with one hop more, below the
limit, no more than a route has next hops; or DATA, each of which takes out a requester or is for
the one that asked. -/
theorem reception_traffic (myMac senderMac : Mac) (packet : CommunicationData) (env : ReceiveEnv)
    {c : ESP_NOWController caps} (hwf : c.node.pitRepository.index.Wf)
    (hlimit : systemConfig.hopCountThreshold ≤ 256) :
    let r := c.processReceivedPacket hmacSha256 systemConfig myMac senderMac packet.toBytes env
    let pending := pendingRequesters c.node.pitRepository
    let pending' := pendingRequesters r.2.node.pitRepository
    r.2.node.pitRepository.index.Wf ∧
    ((packet.code = .interest ∧ r.1.sends.sent.length ≤ caps.fibNextHopsPerEntry ∧
        pending' ≤ pending + 1 ∧ ∀ out ∈ r.1.sends.sent, out.2.code = .interest ∧
          out.2.hopCount.toNat = packet.hopCount.toNat + 1 ∧
          (out.2.hopCount.toNat : Int) < systemConfig.hopCountThreshold) ∨
      (r.1.sends.sent.length + pending' ≤ pending + packet.code.asked ∧
        ∀ out ∈ r.1.sends.sent, out.2.code = .data)) := by
  rcases processReceivedPacket_answers hmacSha256 systemConfig myMac senderMac packet.toBytes env c
    with ⟨-, hnone, hnode⟩ | ⟨-, inputData, m, hdecode, hsends⟩
  · -- nothing comes of it
    dsimp only
    rw [hnone, hnode]
    refine ⟨hwf, Or.inr ⟨?_, fun _ hout => absurd hout List.not_mem_nil⟩⟩
    exact (Nat.zero_add _).trans_le (Nat.le_add_right _ _)
  · obtain rfl : inputFromPacket myMac senderMac packet = inputData := by
      rw [decodePacket_toBytes] at hdecode
      exact Option.some.inj hdecode
    have hanswer := answerTo_traffic systemConfig (inputFromPacket myMac senderMac packet) env.alloc
      hwf
    generalize answerTo systemConfig (inputFromPacket myMac senderMac packet) env.alloc c.node
      = answer at hsends hanswer
    have hreport := sends_carry hmacSha256 systemConfig answer.1 env.sends
      { c with peerCounterManager := m, node := answer.2 }
    have hkeeps := sendsOnly_sendPacketToAddresses hmacSha256 systemConfig answer.1 env.sends
      { c with peerCounterManager := m, node := answer.2 }
    rw [← hsends] at hreport hkeeps
    have hnode := hkeeps.node_eq
    dsimp only at *
    rw [hnode]
    obtain ⟨hwf', ⟨out, heq, hcode, hforwards, hpending⟩ | ⟨out, heq, hdata, hpending⟩ |
      ⟨hsilent, hpending⟩⟩ := hanswer
    · -- an INTEREST is passed on
      rw [heq] at hreport
      obtain ⟨hlen, hsent⟩ := hreport.answer hforwards.signalCode_eq
      refine ⟨hwf', Or.inl ⟨hcode, hlen.trans hforwards.length_le, hpending, fun sent hmem => ?_⟩⟩
      have hcarries := hreport.carries sent (hreport.sent_sublist.subset hmem)
      exact ⟨hsent sent hmem, hcarries.hopCount_succ hlimit rfl hforwards⟩
    · -- a DATA goes to requesters
      rw [heq] at hreport
      obtain ⟨hlen, hsent⟩ := hreport.answer hdata
      exact ⟨hwf', Or.inr ⟨(Nat.add_le_add_right hlen _).trans hpending, hsent⟩⟩
    · -- nothing is sent
      rw [hreport.sent_of_silent hsilent]
      exact ⟨hwf', Or.inr ⟨(Nat.zero_add _).trans_le hpending,
        fun _ hout => absurd hout List.not_mem_nil⟩⟩

/-- **What an injection sends**: one INTEREST at most. -/
theorem injection_traffic (contentName : Str) (targetMac : Mac) (hopCount : UInt8)
    (env : Fin maxTxAddresses → SendEnv) (c : ESP_NOWController caps) :
    let r := c.sendInterest hmacSha256 systemConfig contentName targetMac hopCount env
    r.2.node = c.node ∧ r.1.sent.length ≤ 1 ∧ ∀ out ∈ r.1.sent, out.2.code = .interest := by
  have hreport := sends_carry hmacSha256 systemConfig (interestData contentName targetMac hopCount)
    env c
  have hnode := (sendsOnly_sendPacketToAddresses hmacSha256 systemConfig
    (interestData contentName targetMac hopCount) env c).node_eq
  have haddrs : (interestData contentName targetMac hopCount).txAddress.toList
      = targetMac :: List.replicate (maxTxAddresses - 1) Mac.zero := rfl
  have hzero : (List.replicate (maxTxAddresses - 1) Mac.zero).filter (· ≠ Mac.zero) = [] :=
    List.filter_eq_nil_iff.mpr fun mac hmac => by simp [List.eq_of_mem_replicate hmac]
  have hlen := hreport.length_sent_le
  rw [haddrs, ← List.singleton_append, List.filter_append, hzero, List.append_nil] at hlen
  exact ⟨hnode, hlen.trans (List.length_filter_le _ _), fun out hout =>
    (hreport.carries out (hreport.sent_sublist.subset hout)).code_eq rfl⟩

/-- An event that sends nothing adds no requester. -/
theorem quiet_traffic (myMac : Mac) {c : ESP_NOWController caps}
    (hwf : c.node.pitRepository.index.Wf) {event : ControllerEvent} (hquiet : event.sends = false) :
    let c' := (controllerStep hmacSha256 systemConfig myMac c event).2
    c'.node.pitRepository.index.Wf ∧
      pendingRequesters c'.node.pitRepository ≤ pendingRequesters c.node.pitRepository := by
  cases event with
  | processReceivedPacket => cases hquiet
  | sendPacketToAddresses => cases hquiet
  | sendInterest => cases hquiet
  | sendSensorData => exact ⟨hwf, Nat.le_refl _⟩
  | setPeerLMK => exact ⟨hwf, Nat.le_refl _⟩
  | setGlobalLMK => exact ⟨hwf, Nat.le_refl _⟩
  | initFIBEntry => exact ⟨hwf, Nat.le_refl _⟩
  | clearCSCache => exact ⟨hwf, Nat.le_refl _⟩
  | clearPITCache =>
    have hindex := FixedSizeLRUCache.index_clear c.node.pitRepository
    show (FixedSizeLRUCache.clear c.node.pitRepository).index.Wf ∧
      CacheIndex.total _ (FixedSizeLRUCache.clear c.node.pitRepository).index ≤ _
    rw [hindex, CacheIndex.total_clear]
    exact ⟨CacheIndex.wf_clear _, Nat.zero_le _⟩

end ESP_NOWController

/-! ## The network

All packets sent are on the air until they are delivered, so an order of delivery is a choice of
events and nothing needs to be said about it.  Each packet carries the INTERESTs it is a copy of:
the code has no such field, it is there for the statement that a chain of copies ends. -/

/-- A packet on the air, with its sender and the INTERESTs it is a copy of, the latest first. -/
structure AirPacket where
  senderMac : Mac
  txAddress : Mac
  packet : CommunicationData
  copyOf : List CommunicationData
deriving DecidableEq

namespace AirPacket

def isInterest (p : AirPacket) : Bool := decide (p.packet.code = .interest)

def isData (p : AirPacket) : Bool := decide (p.packet.code = .data)

/-- The hops that a packet has left below the limit. -/
def hopsLeft (hopCountThreshold : Int) (p : AirPacket) : Nat :=
  (hopCountThreshold - 1 - p.packet.hopCount.toNat).toNat

/-- Along the INTERESTs it is a copy of, the packet's hop count has grown by one each time, and a
copy is below the limit. -/
structure HopChain (hopCountThreshold : Int) (p : AirPacket) : Prop where
  grows : List.IsChain (fun later earlier : CommunicationData =>
    later.hopCount.toNat = earlier.hopCount.toNat + 1) (p.packet :: p.copyOf)
  copy_lt : p.copyOf ≠ [] → (p.packet.hopCount.toNat : Int) < hopCountThreshold

end AirPacket

/-- The node of each MAC, the packets on the air, and the history: all packets sent, and all
deliveries, each with its receiver. -/
structure AirNetwork (caps : Mac → BuildCapacity) where
  node : (mac : Mac) → ESP_NOWController (caps mac)
  inFlight : Multiset AirPacket
  sent : List AirPacket
  delivered : List (AirPacket × Mac)

/-- A user's INTEREST at a node, the delivery of a packet to a node, or another event at a node. -/
inductive AirEvent where
  | sendInterest (mac : Mac) (contentName : Str) (targetMac : Mac) (hopCount : UInt8)
      (env : Fin maxTxAddresses → SendEnv)
  | deliver (p : AirPacket) (receiver : Mac) (env : ReceiveEnv)
  | other (mac : Mac) (event : ControllerEvent)

def AirEvent.isInjection : AirEvent → Bool
  | .sendInterest .. => true
  | _ => false

section Network

variable {caps : Mac → BuildCapacity}

/-- The network after a node has changed and sent packets. -/
def AirNetwork.transmit (net : AirNetwork caps) (mac : Mac) (c : ESP_NOWController (caps mac))
    (sent : List AirPacket) : AirNetwork caps :=
  { net with node := Function.update net.node mac c
             inFlight := net.inFlight + (sent : Multiset AirPacket)
             sent := net.sent ++ sent }

/-- The network after a packet is taken off the air. -/
def AirNetwork.receive (net : AirNetwork caps) (p : AirPacket) (receiver : Mac) :
    AirNetwork caps :=
  { net with inFlight := net.inFlight.erase p
             delivered := net.delivered ++ [(p, receiver)] }

/-- What the packets sent on a delivery are copies of. -/
def AirPacket.copyFor (p : AirPacket) (packet : CommunicationData) : List CommunicationData :=
  if packet.code = .interest then p.packet :: p.copyOf else []

variable (hmacSha256 : Key → List UInt8 → Hmac) (systemConfig : Mac → SystemConfig)

/-- One event.  A packet that is not on the air is not delivered. -/
def airStep (net : AirNetwork caps) : AirEvent → List AirPacket × AirNetwork caps
  | .sendInterest mac contentName targetMac hopCount env =>
    let r := (net.node mac).sendInterest hmacSha256 (systemConfig mac) contentName targetMac
      hopCount env
    let sent := r.1.sent.map fun out => ⟨mac, out.1, out.2, []⟩
    (sent, net.transmit mac r.2 sent)
  | .deliver p receiver env =>
    if p ∈ net.inFlight then
      let r := (net.node receiver).processReceivedPacket hmacSha256 (systemConfig receiver) receiver
        p.senderMac p.packet.toBytes env
      let sent := r.1.sends.sent.map fun out => ⟨receiver, out.1, out.2, p.copyFor out.2⟩
      (sent, (net.receive p receiver).transmit receiver r.2 sent)
    else ([], net)
  | .other mac event =>
    if event.sends then ([], net)
    else
      let r := controllerStep hmacSha256 (systemConfig mac) mac (net.node mac) event
      ([], net.transmit mac r.2 [])

/-! ## What an event does to the network

The three arguments below, on INTERESTs, on DATA and on the history, need the same case analysis of
an event.  It is made once: an event changes a node without taking a packet, or takes one packet and
has its receiver send, with what is known of either kept in the two predicates. -/

/-- A node that keeps its PIT in order, with its requesters bounded. -/
structure PitWithin {caps : BuildCapacity} (c : ESP_NOWController caps) (bound : Nat) : Prop where
  wf : c.node.pitRepository.index.Wf
  pending_le : pendingRequesters c.node.pitRepository ≤ bound

/-- The PITs of all nodes are in order. -/
def AirNetwork.PitsWf (net : AirNetwork caps) : Prop :=
  ∀ mac, (net.node mac).node.pitRepository.index.Wf

/-- The requesters that wait at the node of a MAC. -/
def AirNetwork.pending (net : AirNetwork caps) (mac : Mac) : Nat :=
  pendingRequesters (net.node mac).node.pitRepository

/-- A node changes without taking a packet: it adds no requester, and sends one INTEREST at most, on
an injection. -/
def ChangesNode (net net' : AirNetwork caps) (injection : Bool) : Prop :=
  ∃ mac c sent, net' = net.transmit mac c sent ∧ PitWithin c (net.pending mac) ∧
    sent.length ≤ injection.toNat ∧
    ∀ p ∈ sent, p.senderMac = mac ∧ p.packet.code = .interest ∧ p.copyOf = []

/-- A packet is taken off the air, and its receiver sends copies of it with one hop more, or DATA
for requesters. -/
def TakesPacket (hopCountThreshold : Int) (net net' : AirNetwork caps) : Prop :=
  ∃ p receiver c sent, p ∈ net.inFlight ∧
    net' = (net.receive p receiver).transmit receiver c sent ∧
    (∀ q ∈ sent, q.senderMac = receiver) ∧
    ((p.packet.code = .interest ∧ sent.length ≤ (caps receiver).fibNextHopsPerEntry ∧
        PitWithin c (net.pending receiver + 1) ∧ ∀ q ∈ sent, q.packet.code = .interest ∧
          q.copyOf = p.packet :: p.copyOf ∧
          q.packet.hopCount.toNat = p.packet.hopCount.toNat + 1 ∧
          (q.packet.hopCount.toNat : Int) < hopCountThreshold) ∨
      (c.node.pitRepository.index.Wf ∧
        sent.length + pendingRequesters c.node.pitRepository
          ≤ net.pending receiver + p.packet.code.asked ∧
        ∀ q ∈ sent, q.packet.code = .data))

/-- A change of a node that sends nothing. -/
theorem changesNode_silent {net : AirNetwork caps} {mac : Mac} {c : ESP_NOWController (caps mac)}
    (hc : PitWithin c (net.pending mac)) (injection : Bool) :
    ChangesNode net (net.transmit mac c []) injection :=
  ⟨mac, c, [], rfl, hc, Nat.zero_le _, fun _ hp => absurd hp List.not_mem_nil⟩

/-- An event that does nothing changes no node. -/
theorem changesNode_refl {net : AirNetwork caps} (hwf : net.PitsWf) (injection : Bool) :
    ChangesNode net net injection := by
  have hstay := changesNode_silent ⟨hwf Mac.zero, Nat.le_refl _⟩ injection
  unfold AirNetwork.transmit at hstay
  rw [Function.update_eq_self, List.append_nil, Multiset.coe_nil, add_zero] at hstay
  exact hstay

theorem changesNode_sendInterest {net : AirNetwork caps} (hwf : net.PitsWf) (mac : Mac)
    (contentName : Str) (targetMac : Mac) (hopCount : UInt8) (env : Fin maxTxAddresses → SendEnv) :
    ChangesNode net (airStep hmacSha256 systemConfig net
      (.sendInterest mac contentName targetMac hopCount env)).2 true := by
  obtain ⟨hnode, hlen, hcode⟩ := ESP_NOWController.injection_traffic hmacSha256 (systemConfig mac)
    contentName targetMac hopCount env (net.node mac)
  refine ⟨mac, _, _, rfl, ⟨?_, ?_⟩, ?_, fun p hp => ?_⟩
  · rw [hnode]
    exact hwf mac
  · rw [hnode]
    exact Nat.le_refl _
  · rw [List.length_map]
    exact hlen
  · obtain ⟨out, hout, rfl⟩ := List.mem_map.mp hp
    exact ⟨rfl, hcode out hout, rfl⟩

theorem takesPacket_deliver {hopCountThreshold : Int} (hlimit : hopCountThreshold ≤ 256)
    (hcommon : ∀ mac, (systemConfig mac).hopCountThreshold = hopCountThreshold)
    {net : AirNetwork caps} (hwf : net.PitsWf) {p : AirPacket} (hp : p ∈ net.inFlight)
    (receiver : Mac) (env : ReceiveEnv) :
    TakesPacket hopCountThreshold net
      (airStep hmacSha256 systemConfig net (.deliver p receiver env)).2 := by
  have htraffic := ESP_NOWController.reception_traffic hmacSha256 (systemConfig receiver)
    receiver p.senderMac p.packet env (hwf receiver) ((hcommon receiver).trans_le hlimit)
  unfold airStep
  dsimp only at htraffic ⊢
  rw [if_pos hp]
  refine ⟨p, receiver, _, _, hp, rfl, fun q hq => ?_, ?_⟩
  · obtain ⟨out, -, rfl⟩ := List.mem_map.mp hq
    rfl
  · obtain ⟨hwf', ⟨hcode, hlen, hpending, hsent⟩ | ⟨hpending, hsent⟩⟩ := htraffic
    · refine Or.inl ⟨hcode, ?_, ⟨hwf', hpending⟩, fun q hq => ?_⟩
      · rw [List.length_map]
        exact hlen
      · obtain ⟨out, hout, rfl⟩ := List.mem_map.mp hq
        obtain ⟨hout, hhop, hlt⟩ := hsent out hout
        exact ⟨hout, if_pos hout, hhop, hlt.trans_eq (hcommon receiver)⟩
    · refine Or.inr ⟨hwf', ?_, fun q hq => ?_⟩
      · rw [List.length_map]
        exact hpending
      · obtain ⟨out, hout, rfl⟩ := List.mem_map.mp hq
        exact hsent out hout

/-- **The two kinds of events**: a node changes, or a packet is taken off the air. -/
theorem airStep_cases {hopCountThreshold : Int} (hlimit : hopCountThreshold ≤ 256)
    (hcommon : ∀ mac, (systemConfig mac).hopCountThreshold = hopCountThreshold)
    {net : AirNetwork caps} (hwf : net.PitsWf) (event : AirEvent) :
    let net' := (airStep hmacSha256 systemConfig net event).2
    ChangesNode net net' event.isInjection ∨
      (event.isInjection = false ∧ TakesPacket hopCountThreshold net net') := by
  cases event with
  | sendInterest mac contentName targetMac hopCount env =>
    exact Or.inl (changesNode_sendInterest hmacSha256 systemConfig hwf mac contentName targetMac
      hopCount env)
  | deliver p receiver env =>
    by_cases hp : p ∈ net.inFlight
    · exact Or.inr ⟨rfl, takesPacket_deliver hmacSha256 systemConfig hlimit hcommon hwf hp receiver
        env⟩
    · -- not on the air
      have hnone : airStep hmacSha256 systemConfig net (.deliver p receiver env) = ([], net) :=
        if_neg hp
      dsimp only
      rw [hnone]
      exact Or.inl (changesNode_refl hwf _)
  -- a send is no event of this kind, so that such an event does nothing
  | other mac event =>
    cases hsends : event.sends with
    | true =>
      have hnone : airStep hmacSha256 systemConfig net (.other mac event) = ([], net) :=
        if_pos hsends
      dsimp only
      rw [hnone]
      exact Or.inl (changesNode_refl hwf _)
    | false =>
      have hquiet := ESP_NOWController.quiet_traffic hmacSha256 (systemConfig mac) mac (hwf mac)
        hsends
      have hstep : airStep hmacSha256 systemConfig net (.other mac event)
          = ([], net.transmit mac (controllerStep hmacSha256 (systemConfig mac) mac (net.node mac)
            event).2 []) := if_neg (by rw [hsends]; decide)
      dsimp only
      rw [hstep]
      exact Or.inl (changesNode_silent ⟨hquiet.1, hquiet.2⟩ _)

/-! ## INTERESTs

INTERESTs are counted by the `Relay` of the library: a message is an INTEREST on the air, its budget
the hops it has left, and relaying it puts at most as many copies in its place as a route has next
hops.  DATA does not show there. -/

/-- The INTERESTs on the air, those delivered, and the number of injections. -/
def AirNetwork.relay (net : AirNetwork caps) (injected : Nat) : Relay AirPacket where
  pending := net.inFlight.filter fun p => p.isInterest = true
  taken := net.delivered.countP fun d => d.1.isInterest
  injected := injected

theorem relay_transmit (net : AirNetwork caps) {mac : Mac} (c : ESP_NOWController (caps mac))
    {sent : List AirPacket} (hsent : ∀ p ∈ sent, p.packet.code = .interest) (injected : Nat) :
    (net.transmit mac c sent).relay injected
      = { net.relay injected with pending := (net.relay injected).pending + sent } := by
  have hall : Multiset.filter (fun p => p.isInterest = true) (sent : Multiset AirPacket) = sent :=
    Multiset.filter_eq_self.mpr fun p hp => decide_eq_true (hsent p hp)
  show (⟨(net.inFlight + (sent : Multiset AirPacket)).filter _, _, _⟩ : Relay AirPacket) = _
  rw [Multiset.filter_add, hall]
  rfl

theorem relay_transmit_data (net : AirNetwork caps) {mac : Mac} (c : ESP_NOWController (caps mac))
    {sent : List AirPacket} (hsent : ∀ p ∈ sent, p.packet.code = .data) (injected : Nat) :
    (net.transmit mac c sent).relay injected = net.relay injected := by
  have hnone : Multiset.filter (fun p => p.isInterest = true) (sent : Multiset AirPacket) = 0 := by
    refine Multiset.filter_eq_nil.mpr fun p hp h => ?_
    rw [AirPacket.isInterest, hsent p hp] at h
    cases h
  show (⟨(net.inFlight + (sent : Multiset AirPacket)).filter _, _, _⟩ : Relay AirPacket) = _
  rw [Multiset.filter_add, hnone, add_zero]
  rfl

/-- A delivery takes an INTEREST out. -/
theorem relay_of_mem {net : AirNetwork caps} {p : AirPacket} (hp : p ∈ net.inFlight)
    (hcode : p.packet.code = .interest) (receiver : Mac) (injected : Nat) :
    ∃ rest taken, net.relay injected = ⟨p ::ₘ rest, taken, injected⟩ ∧
      (net.receive p receiver).relay injected = ⟨rest, taken + 1, injected⟩ := by
  have hinterest : p.isInterest = true := decide_eq_true hcode
  have hfilter : (p ::ₘ net.inFlight.erase p).filter (fun p => p.isInterest = true)
      = p ::ₘ (net.inFlight.erase p).filter fun p => p.isInterest = true :=
    Multiset.filter_cons_of_pos _ hinterest
  rw [Multiset.cons_erase hp] at hfilter
  refine ⟨(net.inFlight.erase p).filter fun p => p.isInterest = true,
    net.delivered.countP fun d => d.1.isInterest, ?_, ?_⟩
  · unfold AirNetwork.relay
    rw [hfilter]
  · unfold AirNetwork.relay AirNetwork.receive
    dsimp only
    rw [List.countP_append, List.countP_singleton, if_pos hinterest]

/-- The delivery of another packet does not show. -/
theorem relay_receive_of_ne {net : AirNetwork caps} {p : AirPacket} (hp : p ∈ net.inFlight)
    (hcode : p.packet.code ≠ .interest) (receiver : Mac) (injected : Nat) :
    (net.receive p receiver).relay injected = net.relay injected := by
  have hother : ¬ p.isInterest = true := fun h => hcode (of_decide_eq_true h)
  have hfilter : (p ::ₘ net.inFlight.erase p).filter (fun p => p.isInterest = true)
      = (net.inFlight.erase p).filter fun p => p.isInterest = true :=
    Multiset.filter_cons_of_neg _ hother
  rw [Multiset.cons_erase hp] at hfilter
  unfold AirNetwork.relay AirNetwork.receive
  dsimp only
  rw [List.countP_append, List.countP_singleton, if_neg hother, hfilter, Nat.add_zero]

/-- The INTEREST of an injection comes in. -/
theorem relay_changesNode {net net' : AirNetwork caps} {injection : Bool}
    (h : ChangesNode net net' injection) (hopCountThreshold : Int) (D injected : Nat) :
    Relation.ReflGen
      (Relay.Step (AirPacket.hopsLeft hopCountThreshold) D (hopCountThreshold - 1).toNat)
      (net.relay injected) (net'.relay (injected + injection.toNat)) := by
  obtain ⟨mac, c, sent, rfl, -, hlen, hsent⟩ := h
  rw [relay_transmit net c fun q hq => (hsent q hq).2.1]
  cases injection with
  | true =>
    refine .single (Relay.Step.inject (net.relay injected) sent hlen fun q _ => ?_)
    unfold AirPacket.hopsLeft
    omega
  | false =>
    obtain rfl := List.eq_nil_of_length_eq_zero (Nat.le_zero.mp hlen)
    rw [Multiset.coe_nil, add_zero]
    exact .refl

/-- An INTEREST delivered is relayed with one hop less left, to no more next hops than a route
has. -/
theorem relay_takesPacket {hopCountThreshold : Int} {net net' : AirNetwork caps}
    (h : TakesPacket hopCountThreshold net net') {D : Nat}
    (hD : ∀ mac, (caps mac).fibNextHopsPerEntry ≤ D) (injected : Nat) :
    Relation.ReflGen
      (Relay.Step (AirPacket.hopsLeft hopCountThreshold) D (hopCountThreshold - 1).toNat)
      (net.relay injected) (net'.relay injected) := by
  obtain ⟨p, receiver, c, sent, hp, rfl, -, hkind⟩ := h
  rcases hkind with ⟨hcode, hlen, -, hsent⟩ | ⟨-, -, hsent⟩
  · obtain ⟨rest, taken, hbefore, hafter⟩ := relay_of_mem hp hcode receiver injected
    rw [relay_transmit _ c fun q hq => (hsent q hq).1, hafter, hbefore]
    refine .single (Relay.Step.relay p rest sent taken injected (hlen.trans (hD receiver))
      fun q hq => ?_)
    obtain ⟨-, -, hhop, hlt⟩ := hsent q hq
    unfold AirPacket.hopsLeft
    omega
  · rw [relay_transmit_data _ c hsent]
    by_cases hcode : p.packet.code = .interest
    · -- answered or dropped: it is relayed to nobody
      obtain ⟨rest, taken, hbefore, hafter⟩ := relay_of_mem hp hcode receiver injected
      have hstep := @Relay.Step.relay AirPacket (AirPacket.hopsLeft hopCountThreshold) D
        (hopCountThreshold - 1).toNat p rest 0 taken injected (Nat.zero_le _)
        fun q hq => absurd hq (Multiset.notMem_zero q)
      rw [hafter, hbefore]
      rw [add_zero] at hstep
      exact .single hstep
    · rw [relay_receive_of_ne hp hcode]

/-- **Refinement**: an event is a step of the relay, or none.  The budget of an INTEREST is the hops
it has left. -/
theorem relay_step {hopCountThreshold : Int} (hlimit : hopCountThreshold ≤ 256)
    (hcommon : ∀ mac, (systemConfig mac).hopCountThreshold = hopCountThreshold) {D : Nat}
    (hD : ∀ mac, (caps mac).fibNextHopsPerEntry ≤ D) {net : AirNetwork caps} (hwf : net.PitsWf)
    (event : AirEvent) (injected : Nat) :
    Relation.ReflGen
      (Relay.Step (AirPacket.hopsLeft hopCountThreshold) D (hopCountThreshold - 1).toNat)
      (net.relay injected)
      ((airStep hmacSha256 systemConfig net event).2.relay
        (injected + event.isInjection.toNat)) := by
  rcases airStep_cases hmacSha256 systemConfig hlimit hcommon hwf event with
    hchange | ⟨hevent, htake⟩
  · exact relay_changesNode hchange hopCountThreshold D injected
  · rw [hevent]
    exact relay_takesPacket htake hD injected

/-! ## DATA

DATA is paid for at each node by the INTERESTs delivered to it.  Each of these adds one requester to
the PIT or is answered at once, and each requester gets one DATA at most; what a node still owes are
the requesters that wait. -/

/-- The DATA that the node of a MAC has sent. -/
def AirNetwork.dataFrom (net : AirNetwork caps) (mac : Mac) : Nat :=
  net.sent.countP fun p => p.isData && decide (p.senderMac = mac)

/-- The INTERESTs delivered to it. -/
def AirNetwork.interestsTo (net : AirNetwork caps) (mac : Mac) : Nat :=
  net.delivered.countP fun d => d.1.isInterest && decide (d.2 = mac)

/-- Each node has sent and still owes no more DATA than INTERESTs were delivered to it. -/
structure DataPaid (net : AirNetwork caps) : Prop where
  wf : net.PitsWf
  paid : ∀ mac, net.dataFrom mac + net.pending mac ≤ net.interestsTo mac

section Transmit

variable (net : AirNetwork caps) {mac mac' : Mac} (c : ESP_NOWController (caps mac))
  {sent : List AirPacket}

theorem node_transmit_self : (net.transmit mac c sent).node mac = c := Function.update_self ..

theorem node_transmit_ne (h : mac' ≠ mac) : (net.transmit mac c sent).node mac' = net.node mac' :=
  Function.update_of_ne h ..

theorem pending_transmit_self :
    (net.transmit mac c sent).pending mac = pendingRequesters c.node.pitRepository := by
  unfold AirNetwork.pending
  rw [node_transmit_self]

theorem pending_transmit_ne (h : mac' ≠ mac) :
    (net.transmit mac c sent).pending mac' = net.pending mac' := by
  unfold AirNetwork.pending
  rw [node_transmit_ne net c h]

theorem pitsWf_transmit (hwf : net.PitsWf) (hc : c.node.pitRepository.index.Wf) :
    (net.transmit mac c sent).PitsWf := by
  intro mac'
  by_cases h : mac' = mac
  · subst h
    rw [node_transmit_self]
    exact hc
  · rw [node_transmit_ne net c h]
    exact hwf mac'

theorem dataFrom_transmit (mac' : Mac) : (net.transmit mac c sent).dataFrom mac'
    = net.dataFrom mac' + sent.countP fun p => p.isData && decide (p.senderMac = mac') :=
  List.countP_append

/-- INTERESTs are no DATA. -/
theorem dataFrom_transmit_interest (h : ∀ p ∈ sent, p.packet.code = .interest) (mac' : Mac) :
    (net.transmit mac c sent).dataFrom mac' = net.dataFrom mac' := by
  rw [dataFrom_transmit, List.countP_eq_zero.mpr, Nat.add_zero]
  intro p hp hdata
  unfold AirPacket.isData at hdata
  rw [h p hp] at hdata
  cases hdata

/-- What one node sends is not sent by another. -/
theorem dataFrom_transmit_ne (h : ∀ p ∈ sent, p.senderMac = mac) (hne : mac' ≠ mac) :
    (net.transmit mac c sent).dataFrom mac' = net.dataFrom mac' := by
  rw [dataFrom_transmit, List.countP_eq_zero.mpr, Nat.add_zero]
  intro p hp hdata
  rw [Bool.and_eq_true, decide_eq_true_iff, h p hp] at hdata
  exact hne hdata.2.symm

end Transmit

theorem interestsTo_receive (net : AirNetwork caps) (p : AirPacket) (receiver mac : Mac) :
    (net.receive p receiver).interestsTo mac
      = net.interestsTo mac + if mac = receiver then p.packet.code.asked else 0 := by
  unfold AirNetwork.interestsTo AirNetwork.receive
  rw [List.countP_append, List.countP_singleton]
  congr 1
  unfold AirPacket.isInterest SignalCode.asked
  by_cases hmac : mac = receiver
  · rw [hmac, decide_eq_true rfl, Bool.and_true, if_pos rfl]
    exact if_congr decide_eq_true_iff rfl rfl
  · rw [decide_eq_false (Ne.symm hmac), Bool.and_false, if_neg hmac]
    rfl

theorem DataPaid.changesNode {net net' : AirNetwork caps} (h : DataPaid net) {injection : Bool}
    (hchange : ChangesNode net net' injection) : DataPaid net' := by
  obtain ⟨mac, c, sent, rfl, hpit, -, hsent⟩ := hchange
  refine ⟨pitsWf_transmit net c h.wf hpit.wf, fun mac' => ?_⟩
  have hpaid := h.paid mac'
  have hpending := hpit.pending_le
  rw [dataFrom_transmit_interest net c fun p hp => (hsent p hp).2.1]
  show _ ≤ net.interestsTo mac'
  by_cases hmac : mac' = mac
  · subst hmac
    rw [pending_transmit_self]
    omega
  · rw [pending_transmit_ne net c hmac]
    exact hpaid

/-- An INTEREST delivered pays for the requester it adds or the DATA it is answered with; other DATA
takes out the requesters it goes to. -/
theorem DataPaid.takesPacket {hopCountThreshold : Int} {net net' : AirNetwork caps}
    (h : DataPaid net) (htake : TakesPacket hopCountThreshold net net') : DataPaid net' := by
  obtain ⟨p, receiver, c, sent, -, rfl, hsender, hkind⟩ := htake
  have hwf : c.node.pitRepository.index.Wf := by
    rcases hkind with ⟨-, -, hpit, -⟩ | ⟨hwf, -⟩
    · exact hpit.wf
    · exact hwf
  refine ⟨pitsWf_transmit _ c h.wf hwf, fun mac => ?_⟩
  have hpaid := h.paid mac
  have hasked := interestsTo_receive net p receiver mac
  show _ ≤ (net.receive p receiver).interestsTo mac
  -- only the receiver is asked, owes and sends; every other account stays
  by_cases hmac : mac = receiver
  · subst hmac
    rw [if_pos rfl] at hasked
    rw [pending_transmit_self]
    rcases hkind with ⟨hcode, -, hpit, hsent⟩ | ⟨-, hpending, hsent⟩
    · -- an INTEREST passed on: one more was delivered here, and one more requester may wait
      have hpending := hpit.pending_le
      have hone : p.packet.code.asked = 1 := if_pos hcode
      rw [dataFrom_transmit_interest _ c fun q hq => (hsent q hq).1]
      show net.dataFrom mac + _ ≤ _
      omega
    · -- DATA: what is sent takes as many requesters out
      have hcount : (sent.countP fun p => p.isData && decide (p.senderMac = mac)) ≤ sent.length :=
        List.countP_le_length
      rw [dataFrom_transmit]
      show net.dataFrom mac + _ + _ ≤ _
      omega
  · rw [if_neg hmac] at hasked
    rw [pending_transmit_ne _ c hmac, dataFrom_transmit_ne _ c hsender hmac, hasked]
    exact hpaid

/-- **One event.** -/
theorem DataPaid.step {hopCountThreshold : Int} (hlimit : hopCountThreshold ≤ 256)
    (hcommon : ∀ mac, (systemConfig mac).hopCountThreshold = hopCountThreshold)
    {net : AirNetwork caps} (h : DataPaid net) (event : AirEvent) :
    DataPaid (airStep hmacSha256 systemConfig net event).2 := by
  rcases airStep_cases hmacSha256 systemConfig hlimit hcommon h.wf event with
    hchange | ⟨-, htake⟩
  · exact h.changesNode hchange
  · exact h.takesPacket htake

/-! ## History

The bounds are on all packets ever sent, so the network keeps them.  This invariant ties the list of
them to what is on the air and what was delivered, and says that the copies of an INTEREST count
their hops without a gap. -/

/-- What is known of the packets sent: they are INTERESTs and DATA, an INTEREST and those it is a
copy of are a chain, and what was sent and not delivered is on the air. -/
structure History (hopCountThreshold : Int) (net : AirNetwork caps) : Prop where
  inFlight_sent : ∀ p ∈ net.inFlight, p ∈ net.sent
  code : ∀ p ∈ net.sent, p.packet.code = .interest ∨ p.packet.code = .data
  chain : ∀ p ∈ net.sent, p.packet.code = .interest → p.HopChain hopCountThreshold
  count : net.sent.countP AirPacket.isInterest
    = (net.delivered.countP fun d => d.1.isInterest)
      + net.inFlight.countP fun p => p.isInterest = true

variable {hopCountThreshold : Int}

/-- Packets sent. -/
theorem History.transmit {net : AirNetwork caps} (h : History hopCountThreshold net) {mac : Mac}
    (c : ESP_NOWController (caps mac)) {sent : List AirPacket}
    (hcode : ∀ p ∈ sent, p.packet.code = .interest ∨ p.packet.code = .data)
    (hchain : ∀ p ∈ sent, p.packet.code = .interest → p.HopChain hopCountThreshold) :
    History hopCountThreshold (net.transmit mac c sent) where
  inFlight_sent p hp := by
    rcases Multiset.mem_add.mp hp with hold | hnew
    · exact List.mem_append_left sent (h.inFlight_sent p hold)
    · exact List.mem_append_right net.sent hnew
  code p hp := (List.mem_append.mp hp).elim (h.code p) (hcode p)
  chain p hp := (List.mem_append.mp hp).elim (h.chain p) (hchain p)
  count := by
    have hcount := h.count
    have hsent : (net.transmit mac c sent).sent.countP AirPacket.isInterest
        = net.sent.countP AirPacket.isInterest + sent.countP AirPacket.isInterest :=
      List.countP_append
    -- what is sent is on the air, too
    have hflight : (net.transmit mac c sent).inFlight.countP (fun p => p.isInterest = true)
        = net.inFlight.countP (fun p => p.isInterest = true)
          + sent.countP AirPacket.isInterest := by
      show (net.inFlight + (sent : Multiset AirPacket)).countP _ = _
      rw [Multiset.countP_add, Multiset.coe_countP]
      congr 2
      funext p
      exact Bool.decide_eq_true
    rw [hsent, hflight]
    show _ = net.delivered.countP (fun d => d.1.isInterest) + _
    omega

/-- A packet taken off the air. -/
theorem History.receive {net : AirNetwork caps} (h : History hopCountThreshold net)
    {p : AirPacket} (hp : p ∈ net.inFlight) (receiver : Mac) :
    History hopCountThreshold (net.receive p receiver) where
  inFlight_sent q hq := h.inFlight_sent q (Multiset.mem_of_mem_erase hq)
  code := h.code
  chain := h.chain
  count := by
    have hcount := h.count
    rw [← Multiset.cons_erase hp, Multiset.countP_cons] at hcount
    show net.sent.countP AirPacket.isInterest
      = (net.delivered ++ [(p, receiver)]).countP (fun d => d.1.isInterest)
        + (net.inFlight.erase p).countP fun p => p.isInterest = true
    rw [List.countP_append, List.countP_singleton]
    dsimp only
    omega

theorem History.changesNode {net net' : AirNetwork caps} (h : History hopCountThreshold net)
    {injection : Bool} (hchange : ChangesNode net net' injection) :
    History hopCountThreshold net' := by
  obtain ⟨mac, c, sent, rfl, -, -, hsent⟩ := hchange
  refine h.transmit c (fun p hp => Or.inl (hsent p hp).2.1) fun p hp _ => ?_
  obtain ⟨-, -, hfirst⟩ := hsent p hp
  refine ⟨?_, fun hcopy => absurd hfirst hcopy⟩
  rw [hfirst]
  exact List.isChain_singleton _

theorem History.takesPacket {net net' : AirNetwork caps} (h : History hopCountThreshold net)
    (htake : TakesPacket hopCountThreshold net net') : History hopCountThreshold net' := by
  obtain ⟨p, receiver, c, sent, hp, rfl, -, hkind⟩ := htake
  rcases hkind with ⟨hcode, -, -, hsent⟩ | ⟨-, -, hsent⟩
  · refine (h.receive hp receiver).transmit c (fun q hq => Or.inl (hsent q hq).1)
      fun q hq _ => ?_
    obtain ⟨-, hcopy, hhop, hlt⟩ := hsent q hq
    refine ⟨?_, fun _ => hlt⟩
    -- one more INTEREST in front of the chain of the one received
    rw [hcopy]
    exact List.isChain_cons_cons.mpr ⟨hhop, (h.chain p (h.inFlight_sent p hp) hcode).grows⟩
  · refine (h.receive hp receiver).transmit c (fun q hq => Or.inr (hsent q hq)) fun q hq hq' => ?_
    rw [hsent q hq] at hq'
    cases hq'

/-- **One event.** -/
theorem History.step (hlimit : hopCountThreshold ≤ 256)
    (hcommon : ∀ mac, (systemConfig mac).hopCountThreshold = hopCountThreshold)
    {net : AirNetwork caps} (h : History hopCountThreshold net) (hwf : net.PitsWf)
    (event : AirEvent) :
    History hopCountThreshold (airStep hmacSha256 systemConfig net event).2 := by
  rcases airStep_cases hmacSha256 systemConfig hlimit hcommon hwf event with
    hchange | ⟨-, htake⟩
  · exact h.changesNode hchange
  · exact h.takesPacket htake

/-! ## The run

The invariants are kept by every event, and the relay's bound holds over the run.  What remains is
counting: from the nodes one by one to the network, and from INTERESTs and DATA to all packets. -/

/-- Nothing is sent yet, and the PITs are empty. -/
structure AirNetwork.Fresh (net : AirNetwork caps) : Prop where
  inFlight_eq : net.inFlight = 0
  sent_eq : net.sent = []
  delivered_eq : net.delivered = []
  emptyPit : ∀ mac, EmptyPit (net.node mac).node.pitRepository

theorem AirNetwork.Fresh.dataPaid {net : AirNetwork caps} (h : net.Fresh) : DataPaid net where
  wf mac := (h.emptyPit mac).wf
  paid mac := by
    unfold AirNetwork.dataFrom AirNetwork.pending
    rw [h.sent_eq, (h.emptyPit mac).pendingRequesters_eq]
    exact Nat.zero_le _

theorem AirNetwork.Fresh.history {net : AirNetwork caps} (h : net.Fresh) :
    History hopCountThreshold net where
  inFlight_sent p hp := by
    rw [h.inFlight_eq] at hp
    exact absurd hp (Multiset.notMem_zero p)
  code p hp := by
    rw [h.sent_eq] at hp
    exact absurd hp List.not_mem_nil
  chain p hp := by
    rw [h.sent_eq] at hp
    exact absurd hp List.not_mem_nil
  count := by
    rw [h.sent_eq, h.delivered_eq, h.inFlight_eq]
    rfl

/-- **A run** is a run of the relay. -/
theorem relay_run (hlimit : hopCountThreshold ≤ 256)
    (hcommon : ∀ mac, (systemConfig mac).hopCountThreshold = hopCountThreshold) {D : Nat}
    (hD : ∀ mac, (caps mac).fibNextHopsPerEntry ≤ D) {net : AirNetwork caps} (h : DataPaid net)
    (injected : Nat) (run : List AirEvent) :
    Relation.ReflTransGen
      (Relay.Step (AirPacket.hopsLeft hopCountThreshold) D (hopCountThreshold - 1).toNat)
      (net.relay injected)
      ((after (airStep hmacSha256 systemConfig) net run).relay
        (injected + run.countP AirEvent.isInjection)) := by
  induction run generalizing net injected with
  | nil => exact .refl
  | cons event run ih =>
    have hstep := relay_step hmacSha256 systemConfig hlimit hcommon hD h.wf event injected
    have hrest := ih (h.step hmacSha256 systemConfig hlimit hcommon event)
      (injected + event.isInjection.toNat)
    have hcount : injected + (event :: run).countP AirEvent.isInjection
        = injected + event.isInjection.toNat + run.countP AirEvent.isInjection := by
      rw [List.countP_cons]
      cases event.isInjection with
      | true => exact (Nat.add_right_comm injected 1 _).symm
      | false => rfl
    rw [hcount]
    exact hstep.to_reflTransGen.trans hrest

/-- The elements with a property, counted by their keys. -/
theorem count_map_filter {α κ : Type*} [DecidableEq κ] (p : α → Bool) (f : α → κ) (l : List α)
    (k : κ) : ((l.filter p).map f).count k = l.countP fun a => p a && decide (f a = k) := by
  rw [List.count, List.countP_map, List.countP_filter]
  congr 1
  funext a
  exact Bool.and_comm _ _

/-- What is bounded for each key is bounded in all. -/
theorem countP_le_of_forall_key {α β κ : Type*} [DecidableEq κ] {p : α → Bool} {q : β → Bool}
    (f : α → κ) (g : β → κ) {l : List α} {l' : List β}
    (h : ∀ k, (l.countP fun a => p a && decide (f a = k))
      ≤ l'.countP fun b => q b && decide (g b = k)) : l.countP p ≤ l'.countP q := by
  have hle : (((l.filter p).map f : List κ) : Multiset κ) ≤ ((l'.filter q).map g : List κ) := by
    rw [Multiset.le_iff_count]
    intro k
    rw [Multiset.coe_count, Multiset.coe_count, count_map_filter, count_map_filter]
    exact h k
  have hcard := Multiset.card_le_card hle
  rw [Multiset.coe_card, Multiset.coe_card, List.length_map, List.length_map,
    ← List.countP_eq_length_filter, ← List.countP_eq_length_filter] at hcard
  exact hcard

/-- No more DATA was sent in all than INTERESTs were delivered. -/
theorem DataPaid.countP_data_le {net : AirNetwork caps} (h : DataPaid net) :
    net.sent.countP AirPacket.isData ≤ net.delivered.countP fun d => d.1.isInterest :=
  countP_le_of_forall_key AirPacket.senderMac Prod.snd fun mac =>
    (Nat.le_add_right _ _).trans (h.paid mac)

/-- INTERESTs and DATA are all that was sent. -/
theorem History.length_le {net : AirNetwork caps} (h : History hopCountThreshold net) :
    net.sent.length ≤ net.sent.countP AirPacket.isInterest + net.sent.countP AirPacket.isData := by
  rw [List.length_eq_countP_add_countP AirPacket.isInterest]
  refine Nat.add_le_add_left (List.countP_mono_left fun p hp hother => ?_) _
  rcases h.code p hp with hcode | hcode
  · exact absurd (decide_eq_true hcode) (of_decide_eq_true hother)
  · exact decide_eq_true hcode

/-- **No packet storm.**  For any nodes and routes, PITs empty at the start, a common hop limit that
fits the byte, and every run of injections, deliveries in any order and other events: along the
INTERESTs that one is a copy of the hop count grows by one each time and stays below the limit; the
INTERESTs are bounded by the injections; the DATA by the INTERESTs delivered; and so is the whole
number of packets. -/
theorem no_packet_storm (hlimit : hopCountThreshold ≤ 256)
    (hcommon : ∀ mac, (systemConfig mac).hopCountThreshold = hopCountThreshold) (D : Nat)
    (hD : ∀ mac, (caps mac).fibNextHopsPerEntry ≤ D) (start : AirNetwork caps)
    (hfresh : start.Fresh) (run : List AirEvent) :
    let net := after (airStep hmacSha256 systemConfig) start run
    let bound := run.countP AirEvent.isInjection * Relay.copies D (hopCountThreshold - 1).toNat
    (∀ p ∈ net.sent, p.isInterest = true → p.HopChain hopCountThreshold) ∧
    net.sent.countP AirPacket.isInterest ≤ bound ∧
    net.sent.countP AirPacket.isData ≤ (net.delivered.countP fun d => d.1.isInterest) ∧
    net.sent.length ≤ 2 * bound := by
  intro net bound
  -- the two invariants are kept together, the second with the PITs of the first in order
  have hstep : ∀ (net : AirNetwork caps) (event : AirEvent),
      (DataPaid net ∧ History hopCountThreshold net) → True →
      let net' := (airStep hmacSha256 systemConfig net event).2
      DataPaid net' ∧ History hopCountThreshold net' := fun net event h _ =>
    ⟨h.1.step hmacSha256 systemConfig hlimit hcommon event,
      h.2.step hmacSha256 systemConfig hlimit hcommon h.1.wf event⟩
  obtain ⟨hpaid, hhistory⟩ : DataPaid net ∧ History hopCountThreshold net :=
    after_invariant hstep ⟨hfresh.dataPaid, hfresh.history⟩
      (along_of_forall _ _ (fun _ _ => trivial) _ _)
  -- the INTERESTs sent are those taken out of the relay, and those in it
  have hinterests : net.sent.countP AirPacket.isInterest ≤ bound := by
    have hstart : Relay.Within (AirPacket.hopsLeft hopCountThreshold) D
        (hopCountThreshold - 1).toNat (start.relay 0) := by
      unfold AirNetwork.relay
      rw [hfresh.inFlight_eq, hfresh.delivered_eq]
      exact Nat.zero_le _
    have hrelay := Relay.taken_add_card_le _ D _ hstart
      (relay_run hmacSha256 systemConfig hlimit hcommon hD hfresh.dataPaid 0 run)
    rw [Nat.zero_add] at hrelay
    rw [hhistory.count, Multiset.countP_eq_card_filter]
    exact hrelay
  have hdata := hpaid.countP_data_le
  have hall := hhistory.length_le
  refine ⟨fun p hp hcode => hhistory.chain p hp (of_decide_eq_true hcode), hinterests, hdata, ?_⟩
  have hcount := hhistory.count
  omega

end Network

/-- Room for one of each, and for the text of a MAC. -/
def oneRoute : BuildCapacity :=
  { BuildCapacity.uniform 1 (by decide) with nodeIdMaxChars := 17, nodeIdMaxChars_pos := by decide }

/-- The nodes of all MACs after their boots, with one default key. -/
def bootedAir : AirNetwork fun _ => oneRoute where
  node _ := ESP_NOWController.boot _ (.hmacWith Key.zero)
  inFlight := 0
  sent := []
  delivered := []

/-- A node with a route to itself gets an INTEREST for it. -/
def selfRouteRun : List AirEvent :=
  let mac : Mac := List.Vector.replicate _ 1
  let name := ascii ['/', 'a']
  [.other mac (.initFIBEntry name (addressToString mac)),
    .sendInterest (List.Vector.replicate _ 2) name mac 0 fun _ => .good,
    .deliver ⟨List.Vector.replicate _ 2, mac, interestPacket Key.zero name 1, []⟩ mac .good]

/-- The INTEREST is sent on, by the node to itself; with ten hops and one route it can be sent nine
times in all. -/
theorem no_packet_storm_self_route :
    let net := after (airStep checksum fun _ => .hmacWith Key.zero) bootedAir selfRouteRun
    net.sent.map (fun p => p.packet.hopCount) = [0, 1] ∧
    (∀ p ∈ net.sent, p.isInterest = true → p.HopChain 10) ∧
    net.sent.countP AirPacket.isInterest ≤ 1 * Relay.copies 1 9 ∧
    net.sent.countP AirPacket.isData ≤ (net.delivered.countP fun d => d.1.isInterest) ∧
    net.sent.length ≤ 2 * (1 * Relay.copies 1 9) :=
  ⟨by decide +kernel, no_packet_storm checksum (fun _ => .hmacWith Key.zero) (by decide)
    (fun _ => rfl) 1 (fun _ => Nat.le_refl _) bootedAir
    ⟨rfl, rfl, rfl, fun _ => emptyPit_init⟩ selfRouteRun⟩

end Icsn
