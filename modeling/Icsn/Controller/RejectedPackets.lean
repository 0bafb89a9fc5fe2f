import Icsn.Controller.CounterUse
import Icsn.Lib.SlotOccupancy

/-!
# Icsn — what a rejected packet leaves behind

A packet that fails verification changes no counter, no key and no table of the node.  It can leave
one thing: a slot for its source, taken when the HMAC looked for the source's key.

* **`Fuller`** — the same records, and slots for some more MACs.
* **`rejects`** — the event is a packet that verification rejects.
* **`nobodyTurnedAway`** — nobody the event sends to, or sets a key for, lacks a slot.
* **`rejected_packets_forgotten`** — as long as nobody is, the rejected packets can be taken out of
  the history.
-/

namespace Icsn

open StepRun
open ESP_NOWController (SendReport sendPacketToAddress buildPacketForAddress verifyIncomingPacket
  receiveMessage inputOfPacket interestData)

namespace PeerCounterManager

variable {m m' m1 m1' : PeerCounterManager} {mac : Mac} {peer : PeerCounter}

/-! ## Fuller tables

The history with the rejected packets and the one without lead to two tables of peers that differ in
slots only.  The relation between them has to survive every change of a record, which is made in the
slot of its MAC in either table, wherever that is. -/

/-- The second table has the records and the global key of the first, and slots for some more
MACs. -/
structure Fuller (m m' : PeerCounterManager) : Prop where
  record_eq : ∀ mac, m'.record mac = m.record mac
  globalLmk_eq : m'.globalLmk = m.globalLmk
  globalLmkSet_eq : m'.globalLmkSet = m.globalLmkSet
  within : ∃ extra, slots.Within m.peers m'.peers extra

theorem Fuller.refl (m : PeerCounterManager) : Fuller m m :=
  ⟨fun _ => rfl, rfl, rfl, ∅, SlotKind.Within.refl _ _⟩

theorem Fuller.hasRoom (h : Fuller m m') (hroom : m'.HasRoom mac) : m.HasRoom mac := by
  obtain ⟨extra, hwithin⟩ := h.within
  exact hwithin.hasRoom hroom

theorem Fuller.keyFor_eq (h : Fuller m m') (mac : Mac) : m'.keyFor mac = m.keyFor mac := by
  unfold keyFor
  rw [h.record_eq, h.globalLmk_eq, h.globalLmkSet_eq]

/-- **The same change in both**: the record of one MAC, in the slot looked for. -/
theorem Fuller.recordSet (h : Fuller m m') (hroom : m'.HasRoom mac)
    (hset : RecordSet mac peer m m1) (hset' : RecordSet mac peer m' m1')
    (hs : SameSlots (m.findOrCreatePeerIndex mac).2 m1)
    (hs' : SameSlots (m'.findOrCreatePeerIndex mac).2 m1') : Fuller m1 m1' where
  record_eq mac' := by
    by_cases hmac : mac' = mac
    · rw [hmac, hset.record_self, hset'.record_self]
    · rw [hset.record_ne mac' hmac, hset'.record_ne mac' hmac, h.record_eq]
  globalLmk_eq := by rw [hset'.globalLmk_eq, hset.globalLmk_eq, h.globalLmk_eq]
  globalLmkSet_eq := by rw [hset'.globalLmkSet_eq, hset.globalLmkSet_eq, h.globalLmkSet_eq]
  within := by
    obtain ⟨extra, hwithin⟩ := h.within
    rw [findOrCreatePeerIndex_eq] at hs hs'
    exact ⟨_, (hwithin.claim hroom).congr hs hs'⟩

/-- **A slot taken in the fuller one alone.** -/
theorem Fuller.claim_right (h : Fuller m m') (hsame : SameRecords m' m1')
    (hs' : SameSlots (m'.findOrCreatePeerIndex mac).2 m1') : Fuller m m1' where
  record_eq mac' := (hsame.record_eq mac').trans (h.record_eq mac')
  globalLmk_eq := hsame.globalLmk_eq.trans h.globalLmk_eq
  globalLmkSet_eq := hsame.globalLmkSet_eq.trans h.globalLmkSet_eq
  within := by
    obtain ⟨extra, hwithin⟩ := h.within
    obtain ⟨extra', hwithin'⟩ := hwithin.claim_right mac
    rw [findOrCreatePeerIndex_eq] at hs'
    exact ⟨extra', hwithin'.congr (SlotKind.SameSlots.refl _ _) hs'⟩

/-! ## A slot looked for twice

A check and a build look for the slot of a MAC more than once, for the key and for the counter.  The
second look finds what the first left, so that as far as slots go either is a single look. -/

/-- A slot looked for is there, or the table is full. -/
theorem findOrCreatePeerIndex_twice (mac : Mac) (m : PeerCounterManager) :
    ((m.findOrCreatePeerIndex mac).2.findOrCreatePeerIndex mac).2
      = (m.findOrCreatePeerIndex mac).2 := by
  rcases findOrCreatePeerIndex_cases mac m with ⟨-, heq⟩ | ⟨-, idx, m', heq, hfind, -, -⟩
  · rw [heq, heq]
  · rw [heq, findOrCreatePeerIndex_again hfind]

end PeerCounterManager

open PeerCounterManager (Fuller SameSlots SameRecords RecordSet)

variable (hmacSha256 : Key → List UInt8 → Hmac)

/-- **A check** takes the slot looked for, and no other. -/
theorem sameSlots_verify (mac : Mac) (packet : CommunicationData) (mdOk : Bool)
    (m : PeerCounterManager) :
    SameSlots (m.findOrCreatePeerIndex mac).2
      (verifyIncomingPacket hmacSha256 true mac packet mdOk m).2 := by
  have hhmac := m.verifyHMAC_snd hmacSha256 mac packet.hmacData packet.hmac mdOk
  have htwice := m.findOrCreatePeerIndex_twice mac
  unfold ESP_NOWController.verifyIncomingPacket
  rw [if_neg (by decide)]
  revert hhmac
  obtain ⟨answer, m1⟩ := m.verifyHMAC hmacSha256 mac packet.hmacData packet.hmac mdOk
  intro hhmac
  obtain rfl : m1 = (m.findOrCreatePeerIndex mac).2 := hhmac
  cases answer with
  | false => exact .refl _
  | true =>
    have hrx := (m.findOrCreatePeerIndex mac).2.sameSlots_validateRxCounter mac packet.counter
    rw [htwice] at hrx
    exact hrx

variable {m m' : PeerCounterManager}

/-- **A check that passes** passes with fewer slots taken, too. -/
theorem verify_fuller (h : Fuller m m') {enabled : Bool} {mac : Mac} {packet : CommunicationData}
    {mdOk : Bool}
    (hpass : (verifyIncomingPacket hmacSha256 enabled mac packet mdOk m').1 = true) :
    (verifyIncomingPacket hmacSha256 enabled mac packet mdOk m).1 = true ∧
      Fuller (verifyIncomingPacket hmacSha256 enabled mac packet mdOk m).2
        (verifyIncomingPacket hmacSha256 enabled mac packet mdOk m').2 := by
  cases enabled with
  | false => exact ⟨rfl, h⟩
  | true =>
    rcases ESP_NOWController.verifyIncomingPacket_cases hmacSha256 mac packet mdOk m' with
      ⟨-, hfail, -⟩ | ⟨⟨hroom, hmd, hkey, hnext⟩, -, hset'⟩
    · exact absurd (hpass.symm.trans hfail) (by decide)
    · rw [h.keyFor_eq] at hkey
      rw [h.record_eq] at hnext hset'
      rcases ESP_NOWController.verifyIncomingPacket_cases hmacSha256 mac packet mdOk m with
        ⟨hnot, -, -⟩ | ⟨-, hpass', hset⟩
      · exact absurd ⟨h.hasRoom hroom, hmd, hkey, hnext⟩ hnot
      · exact ⟨hpass', h.recordSet hroom hset hset' (sameSlots_verify hmacSha256 mac packet mdOk m)
          (sameSlots_verify hmacSha256 mac packet mdOk m')⟩

/-- **A build** for a peer with room gives the same packet with fewer slots taken. -/
theorem build_fuller (h : Fuller m m') {addr : Mac} (hroom : m'.HasRoom addr)
    (data : ESP_NOWControlData) (mdOk : Bool) :
    (buildPacketForAddress hmacSha256 addr data true mdOk m').1
        = (buildPacketForAddress hmacSha256 addr data true mdOk m).1 ∧
      Fuller (buildPacketForAddress hmacSha256 addr data true mdOk m).2
        (buildPacketForAddress hmacSha256 addr data true mdOk m').2 := by
  have hroom0 := h.hasRoom hroom
  constructor
  · rw [ESP_NOWController.buildPacketForAddress_fst hmacSha256 hroom,
      ESP_NOWController.buildPacketForAddress_fst hmacSha256 hroom0, h.keyFor_eq, h.record_eq]
  · rcases ESP_NOWController.buildPacketForAddress_cases hmacSha256 addr data mdOk m' with
      ⟨hnot, -⟩ | ⟨-, hset', -⟩
    · exact absurd hroom hnot
    · rcases ESP_NOWController.buildPacketForAddress_cases hmacSha256 addr data mdOk m with
        ⟨hnot, -⟩ | ⟨-, hset, -⟩
      · exact absurd hroom0 hnot
      · rw [h.record_eq] at hset'
        exact h.recordSet hroom hset hset' (sameSlots_build hmacSha256 addr data mdOk m)
          (sameSlots_build hmacSha256 addr data mdOk m')

/-! ## Sending

A send to several addresses goes on with the table that the addresses before it left.  So whether
all of them find room is asked turn by turn, and the induction over the turns keeps the two tables
related. -/

/-- Every address of the turns has a slot, or finds a free one. -/
def allHaveRoom : PeerCounterManager → List (Mac × SendEnv) → Bool
  | _, [] => true
  | m, turn :: turns =>
    if turn.1 = Mac.zero then allHaveRoom m turns
    else decide (m.HasRoom turn.1) && allHaveRoom (m.findOrCreatePeerIndex turn.1).2 turns

theorem PeerCounterManager.SameSlots.allHaveRoom_eq (h : SameSlots m m')
    (turns : List (Mac × SendEnv)) : allHaveRoom m' turns = allHaveRoom m turns := by
  induction turns generalizing m m' with
  | nil => rfl
  | cons turn turns ih =>
    unfold allHaveRoom
    rw [ih h, ih (h.findOrCreate turn.1), decide_eq_decide.mpr (h.hasRoom_iff turn.1)]

variable {caps : BuildCapacity} (systemConfig : SystemConfig)

/-- **One turn** of a send, with the tables before and after. -/
theorem turn_fuller (h : Fuller m m') (report : SendReport) (c : ESP_NOWController caps)
    (data : ESP_NOWControlData) (turn : Mac × SendEnv)
    (hroom : turn.1 = Mac.zero ∨ m'.HasRoom turn.1) :
    ∃ report1 m1 m1',
      sendPacketToAddress hmacSha256 systemConfig data turn.1 turn.2
        (report, { c with peerCounterManager := m })
          = (report1, { c with peerCounterManager := m1 }) ∧
      sendPacketToAddress hmacSha256 systemConfig data turn.1 turn.2
        (report, { c with peerCounterManager := m' })
          = (report1, { c with peerCounterManager := m1' }) ∧
      Fuller m1 m1' ∧ (turn.1 = Mac.zero → m1' = m') ∧
      (turn.1 ≠ Mac.zero → SameSlots (m'.findOrCreatePeerIndex turn.1).2 m1') := by
  obtain ⟨addr, env⟩ := turn
  unfold ESP_NOWController.sendPacketToAddress
  dsimp only at hroom ⊢
  -- the zero address is skipped by both
  by_cases hzero : addr = Mac.zero
  · rw [if_pos hzero, if_pos hzero]
    exact ⟨report, m, m', rfl, rfl, h, fun _ => rfl, fun hne => absurd hzero hne⟩
  · rw [if_neg hzero, if_neg hzero]
    obtain ⟨hsame, hfuller⟩ := build_fuller hmacSha256 h (hroom.resolve_left hzero) data env.mdOk
    have hslots := sameSlots_build hmacSha256 addr data env.mdOk m'
    revert hsame hfuller hslots
    obtain ⟨answer, m1⟩ := buildPacketForAddress hmacSha256 addr data true env.mdOk m
    obtain ⟨answer', m1'⟩ := buildPacketForAddress hmacSha256 addr data true env.mdOk m'
    intro hsame hfuller hslots
    -- the packet is the same, and so are the registration and the radio that take it
    obtain rfl : answer' = answer := hsame
    cases answer' with
    | none => exact ⟨report, m1, m1', rfl, rfl, hfuller, fun hz => absurd hz hzero, fun _ => hslots⟩
    | some packet =>
      dsimp only
      rw [registerPeerIfNeeded_peers systemConfig addr _ c m1,
        registerPeerIfNeeded_peers systemConfig addr _ c m1']
      split
      · exact ⟨_, m1, m1', rfl, rfl, hfuller, fun hz => absurd hz hzero, fun _ => hslots⟩
      · split
        · exact ⟨_, m1, m1', rfl, rfl, hfuller, fun hz => absurd hz hzero, fun _ => hslots⟩
        · exact ⟨_, m1, m1', rfl, rfl, hfuller, fun hz => absurd hz hzero, fun _ => hslots⟩

/-- **A whole send** to addresses with room. -/
theorem turns_fuller (c : ESP_NOWController caps) (data : ESP_NOWControlData)
    (turns : List (Mac × SendEnv)) (report : SendReport) (h : Fuller m m')
    (hroom : allHaveRoom m' turns = true) :
    let send (acc : SendReport × ESP_NOWController caps) := turns.foldl
      (fun acc turn => sendPacketToAddress hmacSha256 systemConfig data turn.1 turn.2 acc) acc
    ∃ report1 m1 m1',
      send (report, { c with peerCounterManager := m })
        = (report1, { c with peerCounterManager := m1 }) ∧
      send (report, { c with peerCounterManager := m' })
        = (report1, { c with peerCounterManager := m1' }) ∧ Fuller m1 m1' := by
  induction turns generalizing report m m' with
  | nil => exact ⟨report, m, m', rfl, rfl, h⟩
  | cons turn turns ih =>
    dsimp only
    rw [List.foldl_cons, List.foldl_cons]
    unfold allHaveRoom at hroom
    -- room is asked of the table as this turn leaves it
    by_cases hzero : turn.1 = Mac.zero
    · rw [if_pos hzero] at hroom
      obtain ⟨report1, m1, m1', heq, heq', hfuller, hskip, -⟩ :=
        turn_fuller hmacSha256 systemConfig h report c data turn (Or.inl hzero)
      rw [heq, heq']
      apply ih report1 hfuller
      rw [hskip hzero]
      exact hroom
    · rw [if_neg hzero, Bool.and_eq_true, decide_eq_true_iff] at hroom
      obtain ⟨report1, m1, m1', heq, heq', hfuller, -, hslots⟩ :=
        turn_fuller hmacSha256 systemConfig h report c data turn (Or.inr hroom.1)
      rw [heq, heq']
      apply ih report1 hfuller
      rw [(hslots hzero).allHaveRoom_eq]
      exact hroom.2

/-! ## Events

A rejected packet moves the fuller node alone.  Every other event moves both nodes, gives the same
report, and keeps them related, provided that nobody it needs a slot for is turned away at the
fuller node. -/

/-- The event is a packet that reaches verification, and is rejected there. -/
def rejects (c : ESP_NOWController caps) : ControllerEvent → Bool
  | .processReceivedPacket senderMac data env =>
    match CommunicationData.decode? data with
    | none => false
    | some packet =>
      c.registerPeerIfNeeded systemConfig senderMac env.register &&
        !(verifyIncomingPacket hmacSha256 c.hmacAuthenticationEnabled senderMac packet env.mdOk
          c.peerCounterManager).1
  | _ => false

/-- Nobody the event sends to, or sets a key for, is turned away for lack of a slot. -/
def nobodyTurnedAway (myMac : Mac) (c : ESP_NOWController caps) : ControllerEvent → Bool
  | .processReceivedPacket senderMac data env =>
    match CommunicationData.decode? data with
    | none => true
    | some packet =>
      let answer := receiveMessage systemConfig myMac senderMac (inputOfPacket senderMac packet)
        env.alloc c.node
      let verified := verifyIncomingPacket hmacSha256 c.hmacAuthenticationEnabled senderMac packet
        env.mdOk c.peerCounterManager
      !c.registerPeerIfNeeded systemConfig senderMac env.register ||
        allHaveRoom verified.2 (turnsOf answer.1 env.sends)
  | .sendPacketToAddresses data env => allHaveRoom c.peerCounterManager (turnsOf data env)
  | .sendInterest contentName targetMac hopCount env =>
    allHaveRoom c.peerCounterManager (turnsOf (interestData contentName targetMac hopCount) env)
  | .setPeerLMK mac _ => decide (c.peerCounterManager.HasRoom mac)
  | _ => true

/-- The node on the left is the one on the right with slots for some more MACs. -/
structure FullerNode (c' c : ESP_NOWController caps) : Prop where
  fuller : Fuller c.peerCounterManager c'.peerCounterManager
  rest_eq : c' = { c with peerCounterManager := c'.peerCounterManager }

theorem FullerNode.refl (c : ESP_NOWController caps) : FullerNode c c := ⟨.refl _, rfl⟩

variable {c c' : ESP_NOWController caps}

/-- **A rejected packet**: the node does nothing, and keeps all its records; its source may have a
slot now. -/
theorem rejected_cases (myMac : Mac) {event : ControllerEvent}
    (hreject : rejects hmacSha256 systemConfig c event = true) :
    ∃ senderMac data env m, event = .processReceivedPacket senderMac data env ∧
      controllerStep hmacSha256 systemConfig myMac c event
        = ({}, { c with peerCounterManager := m }) ∧
      SameRecords c.peerCounterManager m ∧
      SameSlots (c.peerCounterManager.findOrCreatePeerIndex senderMac).2 m := by
  cases event with
  | processReceivedPacket senderMac data env =>
    unfold rejects at hreject
    dsimp only at hreject
    cases hdecode : CommunicationData.decode? data with
    | none =>
      rw [hdecode] at hreject
      cases hreject
    | some packet =>
      obtain ⟨node, m, encryption, enabled, pmk⟩ := c
      rw [hdecode, Bool.and_eq_true, Bool.not_eq_true'] at hreject
      obtain ⟨hregister, hfail⟩ := hreject
      -- with HMAC disabled verification passes everything
      cases enabled with
      | false => cases hfail
      | true =>
        refine ⟨senderMac, data, env, _, rfl, ?_, ?_,
          sameSlots_verify hmacSha256 senderMac packet env.mdOk m⟩
        · unfold controllerStep ESP_NOWController.processReceivedPacket
          dsimp only
          rw [hdecode]
          dsimp only
          rw [if_neg (by rw [hregister]; decide), if_pos ⟨rfl, hfail⟩]
        · -- a check that fails keeps all records
          rcases ESP_NOWController.verifyIncomingPacket_cases hmacSha256 senderMac packet env.mdOk m
            with ⟨-, -, hsame⟩ | ⟨-, hpass, -⟩
          · exact hsame
          · exact absurd (hfail.symm.trans hpass) (by decide)
  | sendPacketToAddresses | sendInterest | sendSensorData | setPeerLMK | setGlobalLMK
  | initFIBEntry | clearCSCache | clearPITCache => cases hreject

/-- So it takes a slot in the fuller node alone. -/
theorem FullerNode.of_rejected (h : FullerNode c' c) (myMac : Mac) {event : ControllerEvent}
    (hreject : rejects hmacSha256 systemConfig c' event = true) :
    FullerNode (controllerStep hmacSha256 systemConfig myMac c' event).2 c := by
  obtain ⟨senderMac, data, env, m, -, heq, hsame, hslots⟩ :=
    rejected_cases hmacSha256 systemConfig myMac hreject
  rw [heq]
  refine ⟨h.fuller.claim_right hsame hslots, ?_⟩
  rw [h.rest_eq]

/-- Nothing but the tables behind the boundaries changes, in the same way at both nodes. -/
theorem FullerNode.setNode (h : FullerNode c' c) (f : NodeState caps → NodeState caps) :
    FullerNode { c' with node := f c'.node } { c with node := f c.node } := by
  refine ⟨h.fuller, ?_⟩
  rw [h.rest_eq]

/-- **A send** by both nodes. -/
theorem FullerNode.send (h : FullerNode c' c) (data : ESP_NOWControlData)
    (env : Fin maxTxAddresses → SendEnv)
    (hroom : allHaveRoom c'.peerCounterManager (turnsOf data env) = true) :
    let r := c.sendPacketToAddresses hmacSha256 systemConfig data env
    let r' := c'.sendPacketToAddresses hmacSha256 systemConfig data env
    r'.1 = r.1 ∧ FullerNode r'.2 r.2 := by
  obtain ⟨report, m, m', heq, heq', hfuller⟩ := turns_fuller hmacSha256 systemConfig c data
    (turnsOf data env) {} h.fuller hroom
  have hsend : c.sendPacketToAddresses hmacSha256 systemConfig data env
      = (report, { c with peerCounterManager := m }) := by
    rw [sendPacketToAddresses_eq]
    exact heq
  have hsend' : c'.sendPacketToAddresses hmacSha256 systemConfig data env
      = (report, { c with peerCounterManager := m' }) := by
    rw [sendPacketToAddresses_eq, h.rest_eq]
    exact heq'
  dsimp only
  rw [hsend, hsend']
  exact ⟨rfl, hfuller, rfl⟩

/-- Behind the checks the two nodes answer the same, and send it from related tables. -/
theorem dispatch_fuller (hfuller : Fuller m m') (c : ESP_NOWController caps)
    (myMac senderMac : Mac) (packet : CommunicationData) (env : ReceiveEnv)
    (hroom : allHaveRoom m' (turnsOf (ESP_NOWController.answerTo systemConfig
      (ESP_NOWController.inputFromPacket myMac senderMac packet) env.alloc c.node).1 env.sends)
        = true) :
    let r := ESP_NOWController.dispatchPacket hmacSha256 systemConfig myMac senderMac packet env
      { c with peerCounterManager := m }
    let r' := ESP_NOWController.dispatchPacket hmacSha256 systemConfig myMac senderMac packet env
      { c with peerCounterManager := m' }
    r'.1 = r.1 ∧ FullerNode r'.2 r.2 := by
  rw [ESP_NOWController.dispatchPacket_answers, ESP_NOWController.dispatchPacket_answers]
  dsimp only
  generalize ESP_NOWController.answerTo systemConfig
    (ESP_NOWController.inputFromPacket myMac senderMac packet) env.alloc c.node = answer at hroom ⊢
  have hanswering : FullerNode { c with peerCounterManager := m', node := answer.2 }
      { c with peerCounterManager := m, node := answer.2 } := ⟨hfuller, rfl⟩
  exact hanswering.send hmacSha256 systemConfig answer.1 env.sends hroom

/-- **A packet** that is not rejected, at both nodes. -/
theorem FullerNode.receive (h : FullerNode c' c) (myMac senderMac : Mac) (data : List UInt8)
    (env : ReceiveEnv)
    (hkeep : rejects hmacSha256 systemConfig c' (.processReceivedPacket senderMac data env) = false)
    (hroom : nobodyTurnedAway hmacSha256 systemConfig myMac c'
      (.processReceivedPacket senderMac data env) = true) :
    let r := c.processReceivedPacket hmacSha256 systemConfig myMac senderMac data env
    let r' := c'.processReceivedPacket hmacSha256 systemConfig myMac senderMac data env
    r'.1 = r.1 ∧ FullerNode r'.2 r.2 := by
  obtain ⟨node, m, encryption, enabled, pmk⟩ := c
  obtain ⟨node', m', encryption', enabled', pmk'⟩ := c'
  obtain ⟨hfuller, hrest⟩ := h
  -- the nodes differ in their tables of peers alone
  obtain ⟨rfl, -, rfl, rfl, rfl⟩ := (ESP_NOWController.mk.injEq ..).mp hrest
  unfold rejects at hkeep
  unfold nobodyTurnedAway at hroom
  unfold ESP_NOWController.processReceivedPacket
  dsimp only at hfuller hkeep hroom ⊢
  cases hdecode : CommunicationData.decode? data with
  | none => exact ⟨rfl, hfuller, rfl⟩
  | some packet =>
    rw [hdecode] at hkeep hroom
    dsimp only at hkeep hroom ⊢
    -- registration does not read these tables
    have hregister : ∀ m, ESP_NOWController.registerPeerIfNeeded systemConfig senderMac env.register
        (⟨node', m, encryption', enabled', pmk'⟩ : ESP_NOWController caps)
          = ESP_NOWController.registerPeerIfNeeded systemConfig senderMac env.register
            (⟨node', m', encryption', enabled', pmk'⟩ : ESP_NOWController caps) := fun _ => rfl
    rw [hregister m]
    cases hregistered : ESP_NOWController.registerPeerIfNeeded systemConfig senderMac env.register
      (⟨node', m', encryption', enabled', pmk'⟩ : ESP_NOWController caps) with
    | false =>
      rw [if_pos rfl, if_pos rfl]
      exact ⟨rfl, hfuller, rfl⟩
    | true =>
      rw [hregistered, Bool.true_and, Bool.not_eq_false'] at hkeep
      rw [hregistered, Bool.not_true, Bool.false_or] at hroom
      -- the check passes at the fuller node, and so at the other
      obtain ⟨hpass, hfuller'⟩ := verify_fuller hmacSha256 hfuller hkeep
      have hnot : ¬ (enabled' = true ∧ (verifyIncomingPacket hmacSha256 enabled' senderMac packet
          env.mdOk m).1 = false) := fun hfail => absurd (hpass.symm.trans hfail.2) (by decide)
      have hnot' : ¬ (enabled' = true ∧ (verifyIncomingPacket hmacSha256 enabled' senderMac packet
          env.mdOk m').1 = false) := fun hfail => absurd (hkeep.symm.trans hfail.2) (by decide)
      rw [if_neg (by decide), if_neg hnot', if_neg (by decide), if_neg hnot]
      rw [ESP_NOWController.receiveMessage_eq] at hroom
      obtain ⟨hsends, hend⟩ := dispatch_fuller hmacSha256 systemConfig hfuller'
        (⟨node', m', encryption', enabled', pmk'⟩ : ESP_NOWController caps) myMac senderMac packet
        env hroom
      dsimp only at hsends hend ⊢
      rw [hsends]
      exact ⟨rfl, hend⟩

/-- **One event** that is not rejected, at both nodes. -/
theorem FullerNode.step (h : FullerNode c' c) (myMac : Mac) {event : ControllerEvent}
    (hkeep : rejects hmacSha256 systemConfig c' event = false)
    (hroom : nobodyTurnedAway hmacSha256 systemConfig myMac c' event = true) :
    let r := controllerStep hmacSha256 systemConfig myMac c event
    let r' := controllerStep hmacSha256 systemConfig myMac c' event
    r'.1 = r.1 ∧ FullerNode r'.2 r.2 := by
  cases event with
  | processReceivedPacket senderMac data env =>
    obtain ⟨hreport, hend⟩ := h.receive hmacSha256 systemConfig myMac senderMac data env hkeep hroom
    refine ⟨?_, hend⟩
    unfold controllerStep
    dsimp only
    rw [hreport]
  | sendPacketToAddresses data env =>
    obtain ⟨hreport, hend⟩ := h.send hmacSha256 systemConfig data env hroom
    refine ⟨?_, hend⟩
    unfold controllerStep
    dsimp only
    rw [hreport]
  | sendInterest contentName targetMac hopCount env =>
    obtain ⟨hreport, hend⟩ := h.send hmacSha256 systemConfig
      (interestData contentName targetMac hopCount) env hroom
    refine ⟨?_, hend⟩
    unfold controllerStep
    dsimp only
    rw [ESP_NOWController.sendInterest_eq, ESP_NOWController.sendInterest_eq, hreport]
  -- a key is set where there is room, in both
  | setPeerLMK mac lmk =>
    refine ⟨rfl, ?_, ?_⟩
    · rcases c'.peerCounterManager.setPeerLMK_cases mac lmk with ⟨hnot, -⟩ | ⟨hyes, -, hset'⟩
      · exact absurd (of_decide_eq_true hroom) hnot
      · rcases c.peerCounterManager.setPeerLMK_cases mac lmk with ⟨hnot, -⟩ | ⟨-, -, hset⟩
        · exact absurd (h.fuller.hasRoom hyes) hnot
        · rw [h.fuller.record_eq] at hset'
          exact h.fuller.recordSet hyes hset hset'
            (PeerCounterManager.sameSlots_setPeerLMK mac lmk _)
            (PeerCounterManager.sameSlots_setPeerLMK mac lmk _)
    · show ({ c' with peerCounterManager := _ } : ESP_NOWController caps) = _
      rw [h.rest_eq]
      rfl
  | setGlobalLMK lmk =>
    refine ⟨rfl, ⟨h.fuller.record_eq, rfl, rfl, h.fuller.within⟩, ?_⟩
    show ({ c' with peerCounterManager := _ } : ESP_NOWController caps) = _
    rw [h.rest_eq]
    rfl
  | sendSensorData contentName content hopCount alloc => exact ⟨rfl, h.setNode _⟩
  | initFIBEntry contentName nextHopMac => exact ⟨rfl, h.setNode _⟩
  | clearCSCache => exact ⟨rfl, h.setNode _⟩
  | clearPITCache => exact ⟨rfl, h.setNode _⟩

/-! ## Runs

Taking the rejected packets out of a history leaves the reports of all other events as they were.
The condition is on the run with the packets: without them there is only more room. -/

/-- Looking for a slot gives one to nobody else. -/
theorem known_of_findOrCreate {mac mac' : Mac}
    (h : (m.findOrCreatePeerIndex mac).2.Known mac') : mac' = mac ∨ m.Known mac' := by
  rw [PeerCounterManager.findOrCreatePeerIndex_eq] at h
  by_cases hroom : m.HasRoom mac
  · exact ((SlotKind.found_claim hroom mac').mp h).symm
  · have hnone : (PeerCounterManager.slots.claim mac m.peers).1 = none := by
      rw [← Option.not_isSome_iff_eq_none]
      exact fun hsome => hroom (SlotKind.claim_isSome_iff.mp hsome)
    rw [SlotKind.claim_snd_of_none hnone] at h
    exact Or.inr h

/-- **Rejected packets can be forgotten.**  A packet that verification rejects makes the node do
nothing, and leaves it every record, every key and every table it had; at most its source has a slot
now.  And in every run in which nobody is turned away for lack of a slot but the rejected packets,
these can be taken out: all the other events do what they did. -/
theorem rejected_packets_forgotten (caps : BuildCapacity) (myMac : Mac)
    (c : ESP_NOWController caps) (events : List ControllerEvent)
    (hroom : Along (controllerStep hmacSha256 systemConfig myMac)
      (fun c event => rejects hmacSha256 systemConfig c event = false →
        nobodyTurnedAway hmacSha256 systemConfig myMac c event = true) c events) :
    let step := controllerStep hmacSha256 systemConfig myMac
    let rejects := rejects hmacSha256 systemConfig
    (∀ (c : ESP_NOWController caps) event, rejects c event = true →
      ∃ senderMac data env m, event = .processReceivedPacket senderMac data env ∧
        step c event = ({}, { c with peerCounterManager := m }) ∧
        SameRecords c.peerCounterManager m ∧
        ∀ mac, m.Known mac → mac = senderMac ∨ c.peerCounterManager.Known mac) ∧
      trace step c (kept step rejects c events) = keptTrace step rejects c events := by
  refine ⟨fun c event hreject => ?_, ?_⟩
  · obtain ⟨senderMac, data, env, m, hevent, hstep, hsame, hslots⟩ :=
      rejected_cases hmacSha256 systemConfig myMac hreject
    refine ⟨senderMac, data, env, m, hevent, hstep, hsame, fun mac hknown => ?_⟩
    exact known_of_findOrCreate ((SlotKind.SameSlots.found_iff hslots mac).mp hknown)
  · exact (trace_kept (fun _ _ _ h _ hreject => h.of_rejected hmacSha256 systemConfig myMac hreject)
      (fun _ _ _ h hroom hkeep => h.step hmacSha256 systemConfig myMac hkeep (hroom hkeep))
      (FullerNode.refl c) hroom).1

/-- A configuration with HMAC under one default key, and 19 peers with keys of their own. -/
def SystemConfig.hmacWithPeers (key : Key) : SystemConfig :=
  { SystemConfig.hmacWith key with
    hmacPeerKeyEntries := List.Vector.ofFn fun i =>
      { mac := .replicate 6 (UInt8.ofNat (i.val + 1)), key, valid := true }
    hmacPeerKeyCount := 19 }

/-- A packet from a stranger, under another key than the node's; and then an INTEREST sent to a peer
without a key of its own. -/
def strangerThenInterest : List ControllerEvent :=
  [.processReceivedPacket (.replicate 6 98)
      (interestPacket (.replicate 16 1) (ascii ['/', 'a']) 1).toBytes .good,
    .sendInterest (ascii ['/', 'a']) (.replicate 6 99) 0 fun _ => .good]

/-- With no peers configured, the stranger's packet can be taken out. -/
theorem rejected_packets_forgotten_stranger :
    let c := ESP_NOWController.boot (.uniform 1 (by decide)) (.hmacWith Key.zero)
    let step := controllerStep checksum (.hmacWith Key.zero) Mac.zero
    let rejects := rejects checksum (.hmacWith Key.zero)
    trace step c (kept step rejects c strangerThenInterest)
        = keptTrace step rejects c strangerThenInterest ∧
      (kept step rejects c strangerThenInterest).length = 1 :=
  ⟨(rejected_packets_forgotten checksum (.hmacWith Key.zero) _ Mac.zero _ strangerThenInterest
    (by decide +kernel)).2, by decide +kernel⟩

/-- **Not always**: next to 19 configured peers the stranger's packet takes the last slot, and the
INTEREST cannot be sent; without the packet it is. -/
theorem not_rejected_packets_forgotten :
    ¬ ∀ (hmacSha256 : Key → List UInt8 → Hmac) (systemConfig : SystemConfig)
      (caps : BuildCapacity) (myMac : Mac) (c : ESP_NOWController caps)
      (events : List ControllerEvent), c.hmacAuthenticationEnabled = true →
      let step := controllerStep hmacSha256 systemConfig myMac
      let rejects := rejects hmacSha256 systemConfig
      trace step c (kept step rejects c events) = keptTrace step rejects c events := by
  intro h
  have hsame := congrArg (List.map fun t => t.2.sent.length)
    (h checksum (.hmacWithPeers Key.zero) (.uniform 1 (by decide)) Mac.zero
      (.boot _ (.hmacWithPeers Key.zero)) strangerThenInterest (by decide +kernel))
  revert hsame
  decide +kernel

end Icsn
