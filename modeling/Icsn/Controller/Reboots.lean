import Icsn.Controller.LossyLink
import Icsn.Controller.MatchingConfigurations

/-!
# Icsn — counters after a reboot

The counters of a node live in its memory.  A node that reboots takes the packets of its neighbours
from the first one on again, and a neighbour of it takes none of its packets until they are past the
last one it took before.

* **`LetsIn`** — nothing but HMAC and counter holds a packet of the peer up.
* **`acceptedFrom_eq_admitted`** — a node accepts what a `SuccessorGate` admits of the packets with
  the right HMAC.
* **`session_replayed`** — the node reboots: what it accepted before is accepted again.
* **`rebooted_sender_passed_over`** — the peer reboots: as many of its packets are dropped as were
  accepted before.
-/

namespace Icsn

open StepRun SuccessorGate
open ESP_NOWController (boot registerPeerIfNeeded)

/-- The packet that an event brings in under this source. -/
def ControllerEvent.packetFrom (p : Mac) : ControllerEvent → Option CommunicationData
  | .processReceivedPacket senderMac data _ =>
    if senderMac = p then CommunicationData.decode? data else none
  | _ => none

/-- The packets that come in under this source, in order. -/
def packetsUnder (p : Mac) (events : List ControllerEvent) : List CommunicationData :=
  events.filterMap fun event => event.packetFrom p

/-- What comes in under `p` finds its sender registered, the crypto library working and a slot; and
no key is set. -/
def LetsIn {caps : BuildCapacity} (systemConfig : SystemConfig) (p : Mac)
    (c : ESP_NOWController caps) : ControllerEvent → Prop
  | .processReceivedPacket senderMac _ env => senderMac = p →
    c.registerPeerIfNeeded systemConfig p env.register = true ∧ env.mdOk = true ∧
      c.peerCounterManager.HasRoom p
  | event => event.setsKey = false

instance {caps : BuildCapacity} (systemConfig : SystemConfig) (p : Mac)
    (c : ESP_NOWController caps) : ∀ event, Decidable (LetsIn systemConfig p c event)
  | .processReceivedPacket senderMac _ env => inferInstanceAs (Decidable (senderMac = p →
    c.registerPeerIfNeeded systemConfig p env.register = true ∧ env.mdOk = true ∧
      c.peerCounterManager.HasRoom p))
  | .sendPacketToAddresses _ _ | .sendInterest _ _ _ _ | .sendSensorData _ _ _ _ | .setPeerLMK _ _
  | .setGlobalLMK _ | .initFIBEntry _ _ | .clearCSCache | .clearPITCache =>
    inferInstanceAs (Decidable (_ = _))

/-- The packet's HMAC is the one under this key. -/
def hasHmac (hmacSha256 : Key → List UInt8 → Hmac) (key : Key) (packet : CommunicationData) :
    Bool := decide (hmacSha256 key packet.hmacData = packet.hmac)

section Receiver

variable {caps : BuildCapacity} (hmacSha256 : Key → List UInt8 → Hmac)
  (systemConfig : SystemConfig) (myMac : Mac) {c : ESP_NOWController caps} {p : Mac} {key : Key}

theorem LetsIn.setsKey {event : ControllerEvent} (h : LetsIn systemConfig p c event) :
    event.setsKey = false := by
  cases event with
  | processReceivedPacket => rfl
  | _ => exact h

/-- **One packet** under `p` is accepted exactly if its HMAC is right and its counter is the next
one. -/
theorem acceptedPacket_eq (henabled : c.hmacAuthenticationEnabled = true)
    (hkey : c.peerCounterManager.keyFor p = some key) {event : ControllerEvent}
    {packet : CommunicationData} (hpacket : event.packetFrom p = some packet)
    (hlets : LetsIn systemConfig p c event) :
    let r := controllerStep hmacSha256 systemConfig myMac c event
    acceptedPacket p (event, r.1) = if hasHmac hmacSha256 key packet = true ∧
        packet.counter = rxCounterOf p c + 1 then some packet else none := by
  cases event with
  | processReceivedPacket senderMac data env =>
    unfold ControllerEvent.packetFrom at hpacket
    dsimp only at hpacket
    split at hpacket
    · rename_i hsender
      obtain rfl := hsender
      obtain ⟨hregister, hmd, hroom⟩ := hlets rfl
      have hprocessed := ESP_NOWController.processed_eq hmacSha256 systemConfig myMac senderMac
        hpacket env henabled
      rw [hregister, Bool.true_and] at hprocessed
      unfold acceptedPacket controllerStep rxCounterOf
      dsimp only
      rw [hprocessed, hpacket]
      -- the check has four parts, of which `LetsIn` and the key leave the HMAC and the counter
      rcases ESP_NOWController.verifyIncomingPacket_cases hmacSha256 senderMac packet env.mdOk
        c.peerCounterManager with ⟨hnot, hfst, -⟩ | ⟨⟨-, -, ⟨key', hkey', hhmac⟩, hnext⟩, hfst, -⟩
      · have hnot' : ¬ (hasHmac hmacSha256 key packet = true ∧
            packet.counter = (c.peerCounterManager.record senderMac).rxCounter + 1) :=
          fun hright => hnot ⟨hroom, hmd, ⟨key, hkey, of_decide_eq_true hright.1⟩, hright.2⟩
        rw [hfst, if_neg (fun hyes => Bool.noConfusion hyes.2), if_neg hnot']
      · obtain rfl := Option.some.inj (hkey.symm.trans hkey')
        rw [hfst, if_pos ⟨rfl, rfl⟩, if_pos ⟨decide_eq_true hhmac, hnext⟩]
    · cases hpacket
  | _ => cases hpacket

theorem acceptedPacket_of_packetFrom_eq_none {event : ControllerEvent}
    (hnone : event.packetFrom p = none) (report : ControllerReport) :
    acceptedPacket p (event, report) = none := by
  cases event with
  | processReceivedPacket senderMac data env =>
    unfold acceptedPacket
    unfold ControllerEvent.packetFrom at hnone
    dsimp only at hnone ⊢
    split
    · rename_i haccepted
      rwa [if_pos haccepted.1] at hnone
    · rfl
  | _ => rfl

/-- **What a node accepts** from a peer, over any run, is what a gate admits of the packets under
its MAC that have the right HMAC. -/
theorem acceptedFrom_eq_admitted (henabled : c.hmacAuthenticationEnabled = true)
    (hkey : c.peerCounterManager.keyFor p = some key) {events : List ControllerEvent}
    (hlets : Along (controllerStep hmacSha256 systemConfig myMac) (LetsIn systemConfig p) c
      events) :
    acceptedFrom p (trace (controllerStep hmacSha256 systemConfig myMac) c events)
      = admitted (· + 1) CommunicationData.counter (rxCounterOf p c)
        ((packetsUnder p events).filter (hasHmac hmacSha256 key)) := by
  -- over the events, from any receive counter on: an event under `p` is a turn of the gate
  induction events generalizing c with
  | nil => rfl
  | cons event events ih =>
    obtain ⟨hevent, hevents⟩ := hlets
    obtain ⟨henabled', hkeys, -⟩ :=
      controllerStep_keeps hmacSha256 systemConfig myMac henabled event
    have hkey' := (hkeys (hevent.setsKey systemConfig) p).trans hkey
    have hrest := ih henabled' hkey' hevents
    have hrx := (consecutive_step hmacSha256 systemConfig myMac henabled event).2 p
    rw [trace_cons]
    unfold acceptedFrom packetsUnder at hrest ⊢
    rw [List.filterMap_cons, List.filterMap_cons]
    cases hpacket : event.packetFrom p with
    -- nothing comes in under `p`, and the counter stays
    | none =>
      have hnone := @acceptedPacket_of_packetFrom_eq_none p event hpacket
      rw [hnone] at hrx ⊢
      rw [hrest, hrx.last_eq rfl]
    | some packet =>
      have haccepted := acceptedPacket_eq hmacSha256 systemConfig myMac henabled hkey hpacket hevent
      dsimp only at haccepted ⊢
      rw [haccepted] at hrx ⊢
      by_cases hnext : hasHmac hmacSha256 key packet = true ∧
          packet.counter = rxCounterOf p c + 1
      · rw [if_pos hnext] at hrx ⊢
        obtain ⟨-, hlast⟩ := hrx.of_cons rfl
        rw [List.filter_cons_of_pos hnext.1, admitted, if_pos hnext.2, hrest, hlast.last_eq rfl]
      · rw [if_neg hnext] at hrx ⊢
        rw [hrest, hrx.last_eq rfl]
        -- the gate sees a packet with the right HMAC, and turns it down for its counter
        by_cases hright : hasHmac hmacSha256 key packet = true
        · rw [List.filter_cons_of_pos hright, admitted, if_neg fun heq => hnext ⟨hright, heq⟩]
        · rw [List.filter_cons_of_neg hright]

/-- Nothing is accepted from a peer where nothing comes in. -/
theorem acceptedFrom_eq_nil {events : List ControllerEvent} (hnone : packetsUnder p events = []) :
    acceptedFrom p (trace (controllerStep hmacSha256 systemConfig myMac) c events) = [] := by
  refine List.filterMap_eq_nil_iff.mpr fun member hmember => ?_
  have hevent := List.mem_map_of_mem (f := Prod.fst) hmember
  rw [map_fst_trace] at hevent
  exact acceptedPacket_of_packetFrom_eq_none (List.filterMap_eq_nil_iff.mp hnone _ hevent) _

/-- **What was accepted** has the HMAC under the peer's key, in a run that sets no key. -/
theorem hasHmac_of_mem_acceptedFrom (henabled : c.hmacAuthenticationEnabled = true)
    {events : List ControllerEvent} (hevents : ∀ event ∈ events, event.setsKey = false)
    {packet : CommunicationData}
    (hpacket : packet ∈ acceptedFrom p (trace (controllerStep hmacSha256 systemConfig myMac) c
      events)) :
    ∃ key, c.peerCounterManager.keyFor p = some key ∧ hasHmac hmacSha256 key packet = true := by
  induction events generalizing c with
  | nil => cases hpacket
  | cons event events ih =>
    obtain ⟨hevent, hevents⟩ := List.forall_mem_cons.mp hevents
    obtain ⟨henabled', hkeys, -⟩ :=
      controllerStep_keeps hmacSha256 systemConfig myMac henabled event
    obtain ⟨member, hmember, haccepted⟩ := List.mem_filterMap.mp hpacket
    rw [trace_cons] at hmember
    -- accepted by this event, or by a later one under the same key
    rcases List.mem_cons.mp hmember with rfl | hmember
    · cases event with
      | processReceivedPacket senderMac data env =>
        unfold acceptedPacket controllerStep at haccepted
        dsimp only at haccepted
        rcases ESP_NOWController.processReceivedPacket_cases hmacSha256 systemConfig myMac
          senderMac data env henabled with
          ⟨hnot, -⟩ | ⟨hyes, packet', hdecode, ⟨key, hkey, hhmac⟩, -⟩
        · rw [hnot, if_neg fun h => Bool.noConfusion h.2] at haccepted
          cases haccepted
        · rw [hyes] at haccepted
          split at haccepted
          · rename_i hsender
            obtain rfl := Option.some.inj (hdecode.symm.trans haccepted)
            rw [← hsender.1]
            exact ⟨key, hkey, decide_eq_true hhmac⟩
          · cases haccepted
      | _ => cases haccepted
    · rw [← hkeys hevent p]
      exact ih henabled' hevents (List.mem_filterMap.mpr ⟨member, hmember, haccepted⟩)

end Receiver

/-! ## The receiver reboots

A node that reboots waits for the packet with counter 1 of each peer, as it did when it heard the
first.  So the packets it accepted then pass again in their order, from whomever they come. -/

/-- **A session replayed.**  A node with HMAC enabled, from its boot on, accepts some packets of a
peer.  It reboots with the same configuration.  When these packets, or the first of them, come in
under the peer's MAC again, in their order, between whatever else happens to the node, they are all
accepted again. -/
theorem session_replayed (caps : BuildCapacity) (hmacSha256 : Key → List UInt8 → Hmac)
    (systemConfig : SystemConfig) (henabled : systemConfig.hmacAuthenticationEnabled = true)
    (myMac p : Mac) (first again : List ControllerEvent)
    (hfirst : ∀ event ∈ first, event.setsKey = false)
    (hlets : Along (controllerStep hmacSha256 systemConfig myMac) (LetsIn systemConfig p)
      (boot caps systemConfig) again)
    (hreplayed : packetsUnder p again <+: acceptedFrom p
      (trace (controllerStep hmacSha256 systemConfig myMac) (boot caps systemConfig) first)) :
    acceptedFrom p
        (trace (controllerStep hmacSha256 systemConfig myMac) (boot caps systemConfig) again)
      = packetsUnder p again := by
  have henabled' : (boot caps systemConfig).hmacAuthenticationEnabled = true :=
    (ESP_NOWController.hmacEnabled_boot systemConfig).trans henabled
  have hright : ∀ packet ∈ packetsUnder p again, ∃ key,
      (boot caps systemConfig).peerCounterManager.keyFor p = some key ∧
        hasHmac hmacSha256 key packet = true := fun packet hpacket =>
    hasHmac_of_mem_acceptedFrom hmacSha256 systemConfig myMac henabled' hfirst
      (hreplayed.subset hpacket)
  cases hkey : (boot caps systemConfig).peerCounterManager.keyFor p with
  -- without a key nothing was accepted, so nothing comes in
  | none =>
    have hnothing : packetsUnder p again = [] := by
      refine List.eq_nil_iff_forall_not_mem.mpr fun packet hpacket => ?_
      obtain ⟨key, hsome, -⟩ := hright packet hpacket
      cases hkey.symm.trans hsome
    rw [hnothing]
    exact acceptedFrom_eq_nil hmacSha256 systemConfig myMac hnothing
  | some key =>
    rw [acceptedFrom_eq_admitted hmacSha256 systemConfig myMac henabled' hkey hlets]
    have hall : ∀ packet ∈ packetsUnder p again, hasHmac hmacSha256 key packet = true := by
      intro packet hpacket
      obtain ⟨key', hkey', hhmac⟩ := hright packet hpacket
      obtain rfl := Option.some.inj (hkey.symm.trans hkey')
      exact hhmac
    rw [List.filter_eq_self.mpr hall]
    obtain ⟨rest, hrest⟩ := hreplayed
    -- what was accepted has the counters 1, 2, 3, …, and the gate stands at 0 again
    have hguarded := (guarded_run caps hmacSha256 systemConfig henabled myMac first).consecutive p
    rw [← hrest] at hguarded
    unfold rxCounterOf
    rw [(ESP_NOWController.counters_boot systemConfig p).2]
    exact admitted_of_consecutive hguarded

/-- Two packets of peer 1, heard again after a reboot with a send between them. -/
theorem session_replayed_two :
    let peer : Mac := List.Vector.replicate _ 1
    let receive (counter : UInt32) := ControllerEvent.processReceivedPacket peer
      (interestPacket Key.zero (ascii ['/', 'a']) counter).toBytes .good
    let again := [receive 1, .sendInterest (ascii ['/', 'b']) peer 0 fun _ => .good, receive 2]
    acceptedFrom peer (trace
        (controllerStep checksum (.hmacWith Key.zero) (List.Vector.replicate _ 2))
        (boot (.uniform 4 (by decide)) (.hmacWith Key.zero)) again)
      = packetsUnder peer again := by
  intro peer receive again
  exact session_replayed (.uniform 4 (by decide)) checksum (.hmacWith Key.zero) rfl
    (List.Vector.replicate _ 2) peer [receive 1, receive 1, receive 2] again (by decide)
    (by decide +kernel) (by decide +kernel)

/-! ## The sender reboots

A peer that reboots numbers its packets from 1 again, while the node waits for the one after the
last it accepted.  The packets in between have a counter the node has seen, and are dropped one
after the other. -/

/-- The packets that a run of a node builds for an address, in order. -/
def builtFor {caps : BuildCapacity} (hmacSha256 : Key → List UInt8 → Hmac)
    (systemConfig : SystemConfig) (myMac addr : Mac) (c : ESP_NOWController caps)
    (events : List ControllerEvent) : List CommunicationData :=
  packetsFor addr ((outputs (controllerStep hmacSha256 systemConfig myMac) c events).flatMap
    ControllerReport.built)

/-- **A run** builds packets with the next counters and the right HMAC. -/
theorem builtFor_run {caps : BuildCapacity} (hmacSha256 : Key → List UInt8 → Hmac)
    (systemConfig : SystemConfig) (myMac addr : Mac) {key : Key} {c : ESP_NOWController caps}
    (henabled : c.hmacAuthenticationEnabled = true)
    (hkey : c.peerCounterManager.keyFor addr = some key) {events : List ControllerEvent}
    (hevents : ∀ event ∈ events, event.buildsOk = true ∧ event.setsKey = false) :
    let built := builtFor hmacSha256 systemConfig myMac addr c events
    Consecutive (· + 1) (txCounterOf addr c) (built.map CommunicationData.counter)
        (txCounterOf addr (after (controllerStep hmacSha256 systemConfig myMac) c events)) ∧
      ∀ packet ∈ built, hasHmac hmacSha256 key packet = true := by
  -- the counter and the key at the start of each event are those the one before left
  induction events generalizing c with
  | nil => exact ⟨.nil, fun packet hpacket => absurd hpacket List.not_mem_nil⟩
  | cons event events ih =>
    obtain ⟨⟨hbuilds, hsets⟩, hevents⟩ := List.forall_mem_cons.mp hevents
    obtain ⟨henabled', hkeys, htagged⟩ :=
      controllerStep_keeps hmacSha256 systemConfig myMac henabled event
    obtain ⟨hcounters, hright⟩ := ih henabled' ((hkeys hsets addr).trans hkey) hevents
    have hsome : (c.peerCounterManager.keyFor addr).isSome = true := by rw [hkey]; rfl
    have hnumbered := (numbered_controllerStep hmacSha256 systemConfig myMac henabled hsome
      hbuilds).counters
    unfold builtFor at hcounters hright ⊢
    rw [outputs_cons, List.flatMap_cons, packetsFor_append]
    constructor
    · rw [List.map_append]
      exact hnumbered.append hcounters
    · intro packet hpacket
      rcases List.mem_append.mp hpacket with hnew | hlater
      · obtain ⟨key', hkey', hhmac⟩ := htagged _ (mem_packetsFor.mp hnew)
        obtain rfl := Option.some.inj (hkey.symm.trans hkey')
        exact decide_eq_true hhmac
      · exact hright packet hlater

/-- **A rebooted sender is passed over.**  Node B has heard some packets of A since its own boot.
A reboots, and B goes on.  Of what A builds for B from then on, all of which gets to B in its order,
B drops as many packets as it had accepted before, and accepts the others. -/
theorem rebooted_sender_passed_over {capsA capsB : BuildCapacity}
    (hmacSha256 : Key → List UInt8 → Hmac) (systemConfigA systemConfigB : SystemConfig)
    (henabledA : systemConfigA.hmacAuthenticationEnabled = true)
    (henabledB : systemConfigB.hmacAuthenticationEnabled = true) (macA macB : Mac) (key : Key)
    (hkeyA : (boot capsA systemConfigA).peerCounterManager.keyFor macB = some key)
    (hkeyB : (boot capsB systemConfigB).peerCounterManager.keyFor macA = some key)
    (heard sends later : List ControllerEvent)
    (hheard : ∀ event ∈ heard, event.setsKey = false)
    (hsends : ∀ event ∈ sends, event.buildsOk = true ∧ event.setsKey = false) :
    let step := controllerStep hmacSha256 systemConfigB macB
    let before := acceptedFrom macA (trace step (boot capsB systemConfigB) heard)
    let b := after step (boot capsB systemConfigB) heard
    let built := builtFor hmacSha256 systemConfigA macA macB (boot capsA systemConfigA) sends
    before.length < 2 ^ 32 → built.length < 2 ^ 32 →
    Along step (LetsIn systemConfigB macA) b later →
    packetsUnder macA later <+: built →
    acceptedFrom macA (trace step b later) = (packetsUnder macA later).drop before.length := by
  intro step before b built hfewBefore hfewBuilt hlets hdelivered
  have hguarded := guarded_run capsB hmacSha256 systemConfigB henabledB macB heard
  have hkey : b.peerCounterManager.keyFor macA = some key :=
    ((ESP_NOWController.keysKept_run hmacSha256 systemConfigB macB _ hheard).keyFor_eq
      macA).trans hkeyB
  obtain ⟨hcounters, hright⟩ := builtFor_run hmacSha256 systemConfigA macA macB
    ((ESP_NOWController.hmacEnabled_boot systemConfigA).trans henabledA) hkeyA hsends
  -- B's receive counter is the number of packets it accepted
  have hbefore : (rxCounterOf macA b).toNat = before.length := by
    have hlast := ((hguarded.consecutive macA).map_toNat UInt32.toNat
      (fun _ => PeerCounterManager.toNat_counter_succ)
      (by rw [List.length_map]; exact (Nat.zero_add _).trans_lt hfewBefore)).2
    rw [List.length_map] at hlast
    exact hlast.trans (Nat.zero_add _)
  -- A's counters start anew
  obtain ⟨rest, hrest⟩ := hdelivered
  have hnumbers : (packetsUnder macA later).map (fun packet => packet.counter.toNat)
      = List.range' 1 (packetsUnder macA later).length := by
    -- what gets to B is part of what A built
    have hall := (hcounters.map_toNat UInt32.toNat
      (fun _ => PeerCounterManager.toNat_counter_succ) (by
        rw [List.length_map, (show txCounterOf macB (boot capsA systemConfigA) = 0 from
          (ESP_NOWController.counters_boot systemConfigA macB).1)]
        exact (Nat.zero_add _).trans_lt hfewBuilt)).1
    have hsplit : (packetsUnder macA later ++ rest).map (fun packet => packet.counter.toNat)
        = List.range' 1 (packetsUnder macA later).length
          ++ List.range' (1 + (packetsUnder macA later).length) rest.length := by
      rw [hrest, List.range'_append_1, ← List.length_append, hrest]
      rw [List.map_map, List.length_map, (show txCounterOf macB (boot capsA systemConfigA) = 0 from
        (ESP_NOWController.counters_boot systemConfigA macB).1)] at hall
      exact hall
    rw [List.map_append] at hsplit
    exact List.append_inj_left hsplit (by rw [List.length_map, List.length_range'])
  have hall : ∀ packet ∈ packetsUnder macA later, hasHmac hmacSha256 key packet = true := by
    intro packet hpacket
    refine hright packet ?_
    show packet ∈ built
    rw [← hrest]
    exact List.mem_append_left rest hpacket
  rw [acceptedFrom_eq_admitted hmacSha256 systemConfigB macB hguarded.enabled hkey hlets,
    List.filter_eq_self.mpr hall, admitted_eq_drop UInt32.toNat
      (fun _ _ hk => PeerCounterManager.eq_counter_succ_iff hk) hnumbers, hbefore]

/-- Node 2 has heard one packet of node 1, which reboots and sends two: the first is dropped. -/
theorem rebooted_sender_passed_over_once :
    let macA : Mac := List.Vector.replicate _ 1
    let macB : Mac := List.Vector.replicate _ 2
    let receive (counter : UInt32) := ControllerEvent.processReceivedPacket macA
      (interestPacket Key.zero (ascii ['/', 'a']) counter).toBytes .good
    let step := controllerStep checksum (.hmacWith Key.zero) macB
    let b := after step (boot (.uniform 4 (by decide)) (.hmacWith Key.zero)) [receive 1]
    acceptedFrom macA (trace step b [receive 1, receive 2])
      = (packetsUnder macA [receive 1, receive 2]).drop (acceptedFrom macA
        (trace step (boot (.uniform 4 (by decide)) (.hmacWith Key.zero)) [receive 1])).length := by
  intro macA macB receive step b
  let send := ControllerEvent.sendInterest (ascii ['/', 'a']) macB 0 fun _ => .good
  exact @rebooted_sender_passed_over (.uniform 4 (by decide)) (.uniform 4 (by decide)) checksum
    (.hmacWith Key.zero) (.hmacWith Key.zero) rfl rfl macA macB Key.zero (by decide +kernel)
    (by decide +kernel) [receive 1] [send, send] [receive 1, receive 2] (by decide) (by decide)
    (by decide +kernel) (by decide +kernel) (by decide +kernel) (by decide +kernel)

end Icsn
