import Icsn.Controller.ESPNOWController

/-!
# Icsn — what the controller does to counters and keys

* **`KeepsReceiving`** — receive counters and resolved keys stay as they are, for every peer.
  Sending does no more to them, whatever fails on the way.
* **`Tagged`** — a packet carries the HMAC under the key resolved for its destination.
* **`KeepsGuard`** / **`KeepsCounters`** — HMAC stays enabled or disabled, and no receive counter,
  or no counter at all, changes: what a setting does.
* `*_cases` — everything a build, a check, a send or a reception can do.
-/

namespace Icsn

namespace PeerCounterManager

/-- A counter that does not wrap goes up by one. -/
theorem toNat_counter_succ {n : UInt32} (hn : n.toNat + 1 < 2 ^ 32) :
    (n + 1).toNat = n.toNat + 1 := by
  rw [UInt32.toNat_add]
  exact Nat.mod_eq_of_lt hn

/-- A counter other than zero is the next one if it is one larger. -/
theorem eq_counter_succ_iff {n k : UInt32} (hk : 0 < k.toNat) :
    k = n + 1 ↔ k.toNat = n.toNat + 1 := by
  have hlt := k.toNat_lt
  have hlt' := n.toNat_lt
  rw [← UInt32.toNat_inj, UInt32.toNat_add]
  show k.toNat = (n.toNat + 1) % 2 ^ 32 ↔ _
  omega

/-- Receive counters and resolved keys are the same. -/
structure KeepsReceiving (m m' : PeerCounterManager) : Prop where
  rxCounter_eq : ∀ mac, (m'.record mac).rxCounter = (m.record mac).rxCounter
  keyFor_eq : ∀ mac, m'.keyFor mac = m.keyFor mac

variable {m m' m'' : PeerCounterManager} {mac : Mac} {peer : PeerCounter}

theorem KeepsReceiving.refl (m : PeerCounterManager) : KeepsReceiving m m :=
  ⟨fun _ => rfl, fun _ => rfl⟩

theorem KeepsReceiving.trans (h : KeepsReceiving m m') (h' : KeepsReceiving m' m'') :
    KeepsReceiving m m'' :=
  ⟨fun mac => (h'.rxCounter_eq mac).trans (h.rxCounter_eq mac),
    fun mac => (h'.keyFor_eq mac).trans (h.keyFor_eq mac)⟩

theorem SameRecords.keepsReceiving (h : SameRecords m m') : KeepsReceiving m m' :=
  ⟨fun mac => by rw [h.record_eq], h.keyFor⟩

/-- A new record that differs in the send counter alone. -/
theorem RecordSet.keepsReceiving (h : RecordSet mac peer m m')
    (hrx : peer.rxCounter = (m.record mac).rxCounter) (hlmk : peer.lmk = (m.record mac).lmk)
    (hset : peer.lmkSet = (m.record mac).lmkSet) : KeepsReceiving m m' where
  rxCounter_eq mac' := by
    by_cases hmac : mac' = mac
    · rw [hmac, h.record_self, hrx]
    · rw [h.record_ne mac' hmac]
  keyFor_eq := h.keyFor hlmk hset

end PeerCounterManager

namespace ESP_NOWController

open PeerCounterManager (KeepsReceiving SameRecords RecordSet)

variable {caps : BuildCapacity} (hmacSha256 : Key → List UInt8 → Hmac)

/-- The packet carries the HMAC under the key resolved for its destination. -/
def Tagged (m : PeerCounterManager) (out : Mac × CommunicationData) : Prop :=
  ∃ key, m.keyFor out.1 = some key ∧ hmacSha256 key out.2.hmacData = out.2.hmac

/-! ## Building and checking a packet

Everything that either can do, said once as an inversion lemma: which record changes and how, and
what must hold for a packet to come out or to pass.  The modules about the controller cite these and
do not unfold the functions. -/

/-- **Building a packet**: the send counter is used up when the peer has room, and a packet comes
out when there is a key, too. -/
theorem buildPacketForAddress_cases (addr : Mac) (data : ESP_NOWControlData) (mdOk : Bool)
    (m : PeerCounterManager) :
    let r := buildPacketForAddress hmacSha256 addr data true mdOk m
    (¬ m.HasRoom addr ∧ r = (none, m)) ∨
    (m.HasRoom addr ∧
      RecordSet addr { m.record addr with txCounter := (m.record addr).txCounter + 1 } m r.2 ∧
      ((¬ (mdOk = true ∧ (m.keyFor addr).isSome = true) ∧ r.1 = none) ∨
        ∃ packet, r.1 = some packet ∧ Tagged hmacSha256 m (addr, packet) ∧
          packet.counter = (m.record addr).txCounter + 1)) := by
  unfold buildPacketForAddress
  dsimp only
  rw [if_neg (by decide)]
  rcases m.incrementTxCounter_cases addr with ⟨hroom, heq⟩ | ⟨hroom, hfst, hset⟩
  · rw [heq]
    exact Or.inl ⟨hroom, rfl⟩
  · refine Or.inr ⟨hroom, ?_⟩
    revert hfst hset
    obtain ⟨answer, m1⟩ := m.incrementTxCounter addr
    intro hfst hset
    dsimp only at hfst hset
    subst hfst
    dsimp only
    -- the HMAC is computed over bytes in which its own field is still zero
    generalize hcovered : CommunicationData.hmacData _ = covered
    have hcompute := m1.computeHMAC_cases hmacSha256 addr covered mdOk
    revert hcompute
    obtain ⟨answer, m2⟩ := m1.computeHMAC hmacSha256 addr covered mdOk
    -- counting the packet left the key as it was
    rw [hset.keyFor rfl rfl addr]
    rintro ⟨hs, ⟨hnot, rfl⟩ | ⟨-, -, -, key, hkey, rfl⟩⟩
    · exact ⟨hset.trans hs, Or.inl ⟨fun h => hnot ⟨hset.known_self.hasRoom, h⟩, rfl⟩⟩
    · refine ⟨hset.trans hs, Or.inr ⟨_, rfl, ⟨key, hkey, ?_⟩, rfl⟩⟩
      rw [← hcovered, CommunicationData.hmacData_eq, CommunicationData.hmacData_eq]

/-- The packet for control data with this counter, before its HMAC is computed. -/
def packetOf (data : ESP_NOWControlData) (counter : UInt32) : CommunicationData where
  signalCode := copyField _ data.signalCode.toList
  hopCount := data.hopCount
  contentName := copyField _ data.contentName.toList
  content := copyField _ data.content.toList
  counter
  hmac := List.Vector.replicate _ 0

/-- **The packet built**, where the peer has room: counter and key are those of the peer. -/
theorem buildPacketForAddress_fst {addr : Mac} {m : PeerCounterManager} (hroom : m.HasRoom addr)
    (data : ESP_NOWControlData) (mdOk : Bool) :
    (buildPacketForAddress hmacSha256 addr data true mdOk m).1
      = (if mdOk = true then m.keyFor addr else none).map fun key =>
        let packet := packetOf data ((m.record addr).txCounter + 1)
        { packet with hmac := hmacSha256 key packet.hmacData } := by
  unfold buildPacketForAddress
  dsimp only
  rw [if_neg (by decide)]
  rcases m.incrementTxCounter_cases addr with ⟨hnot, -⟩ | ⟨-, hfst, hset⟩
  · exact absurd hroom hnot
  · revert hfst hset
    obtain ⟨answer, m1⟩ := m.incrementTxCounter addr
    intro hfst hset
    dsimp only at hfst hset
    subst hfst
    dsimp only
    generalize hcovered : CommunicationData.hmacData _ = covered
    have hhmac := m1.computeHMAC_fst hmacSha256 hset.known_self.hasRoom covered mdOk
    rw [hset.keyFor rfl rfl addr] at hhmac
    revert hhmac
    obtain ⟨hmac, m2⟩ := m1.computeHMAC hmacSha256 addr covered mdOk
    intro hhmac
    obtain rfl : hmac = _ := hhmac
    subst hcovered
    cases mdOk with
    | false => rfl
    | true => cases m.keyFor addr <;> rfl

/-- **Checking a packet**: with HMAC enabled it passes when its HMAC is right and its counter is the
next one, and then the counter is recorded. -/
theorem verifyIncomingPacket_cases (mac : Mac) (packet : CommunicationData) (mdOk : Bool)
    (m : PeerCounterManager) :
    let r := verifyIncomingPacket hmacSha256 true mac packet mdOk m
    let passes := m.HasRoom mac ∧ mdOk = true ∧
      (∃ key, m.keyFor mac = some key ∧ hmacSha256 key packet.hmacData = packet.hmac) ∧
      packet.counter = (m.record mac).rxCounter + 1
    (¬ passes ∧ r.1 = false ∧ SameRecords m r.2) ∨
    (passes ∧ r.1 = true ∧
      RecordSet mac { m.record mac with rxCounter := packet.counter } m r.2) := by
  have hhmac := m.verifyHMAC_cases hmacSha256 mac packet.hmacData packet.hmac mdOk
  unfold verifyIncomingPacket
  dsimp only
  rw [if_neg (by decide)]
  revert hhmac
  obtain ⟨answer, m1⟩ := m.verifyHMAC hmacSha256 mac packet.hmacData packet.hmac mdOk
  rintro ⟨hs, ⟨hnot, rfl⟩ | ⟨hroom, hmd, hknown, hkey, rfl⟩⟩
  · exact Or.inl ⟨fun h => hnot ⟨h.1, h.2.1, h.2.2.1⟩, rfl, hs⟩
  · dsimp only
    rcases m1.validateRxCounter_cases mac packet.counter with
      ⟨hnot, hfst, hs'⟩ | ⟨-, hnext, hfst, hset⟩
    · -- the HMAC is right and the counter is not; the check of the HMAC left it as it was
      refine Or.inl ⟨fun h => hnot ⟨hknown.hasRoom, ?_⟩, hfst, hs.trans hs'⟩
      rw [hs.record_eq]
      exact h.2.2.2
    · rw [hs.record_eq] at hnext hset
      exact Or.inr ⟨⟨hroom, hmd, hkey, hnext⟩, hfst, hs.trans_recordSet hset⟩

/-! ## Sending

Sending goes on after a failure, so the statement is about what it never touches: tables, receive
counters, and the keys under which all its packets are tagged.  It is kept by one address and so by
the loop. -/

/-- What sending leaves alone, and what it sends: packets tagged under the keys at its start. -/
structure SendsOnly (c : ESP_NOWController caps) (built : List (Mac × CommunicationData))
    (c' : ESP_NOWController caps) : Prop where
  node_eq : c'.node = c.node
  hmacEnabled_eq : c'.hmacAuthenticationEnabled = c.hmacAuthenticationEnabled
  keeps : KeepsReceiving c.peerCounterManager c'.peerCounterManager
  tagged : ∀ out ∈ built, Tagged hmacSha256 c.peerCounterManager out

variable {hmacSha256} {systemConfig : SystemConfig} {c : ESP_NOWController caps}

theorem Tagged.of_keeps {m m' : PeerCounterManager} {out : Mac × CommunicationData}
    (h : Tagged hmacSha256 m' out) (hkeeps : KeepsReceiving m m') : Tagged hmacSha256 m out := by
  obtain ⟨key, hkey, htag⟩ := h
  exact ⟨key, by rw [← hkeeps.keyFor_eq]; exact hkey, htag⟩

/-- Nothing is sent yet. -/
theorem SendsOnly.start (c : ESP_NOWController caps) : SendsOnly hmacSha256 c [] c :=
  ⟨rfl, rfl, .refl _, fun _ hout => absurd hout List.not_mem_nil⟩

/-- **One address** of a send. -/
theorem SendsOnly.step {acc : SendReport × ESP_NOWController caps}
    (h : SendsOnly hmacSha256 c acc.1.built acc.2) (data : ESP_NOWControlData) (addr : Mac)
    (env : SendEnv) :
    let r := sendPacketToAddress hmacSha256 systemConfig data addr env acc
    SendsOnly hmacSha256 c r.1.built r.2 := by
  obtain ⟨report, c1⟩ := acc
  unfold sendPacketToAddress
  dsimp only
  by_cases haddr : addr = Mac.zero
  · rw [if_pos haddr]
    exact h
  · rw [if_neg haddr]
    have hbuild := buildPacketForAddress_cases hmacSha256 addr data env.mdOk c1.peerCounterManager
    revert hbuild
    obtain ⟨answer, m⟩ :=
      buildPacketForAddress hmacSha256 addr data true env.mdOk c1.peerCounterManager
    dsimp only
    rintro (⟨-, heq⟩ | ⟨-, hset, ⟨-, rfl⟩ | ⟨packet, rfl, htag, -⟩⟩)
    · -- no room for the peer
      obtain ⟨rfl, rfl⟩ := Prod.mk.inj heq
      exact h
    · -- no key, or the crypto library failed: the counter is used up all the same
      exact ⟨h.node_eq, h.hmacEnabled_eq, h.keeps.trans (hset.keepsReceiving rfl rfl rfl), h.tagged⟩
    · have hkeeps := h.keeps.trans (hset.keepsReceiving rfl rfl rfl)
      have htagged : ∀ out ∈ report.built ++ [(addr, packet)],
          Tagged hmacSha256 c.peerCounterManager out := by
        intro out hout
        rcases List.mem_append.mp hout with hold | hnew
        · exact h.tagged out hold
        · rw [List.mem_singleton.mp hnew]
          exact htag.of_keeps h.keeps
      dsimp only
      split
      · exact ⟨h.node_eq, h.hmacEnabled_eq, hkeeps, htagged⟩
      · split <;> exact ⟨h.node_eq, h.hmacEnabled_eq, hkeeps, htagged⟩

variable (hmacSha256)

/-- **A send** changes no table, no receive counter and no key, whatever fails on the way. -/
theorem sendsOnly_sendPacketToAddresses (systemConfig : SystemConfig) (data : ESP_NOWControlData)
    (env : Fin maxTxAddresses → SendEnv) (c : ESP_NOWController caps) :
    let r := c.sendPacketToAddresses hmacSha256 systemConfig data env
    SendsOnly hmacSha256 c r.1.built r.2 := by
  have hloop : ∀ (l : List (Fin maxTxAddresses)) (acc : SendReport × ESP_NOWController caps),
      SendsOnly hmacSha256 c acc.1.built acc.2 →
      let r := l.foldl (fun acc i =>
        sendPacketToAddress hmacSha256 systemConfig data (data.txAddress.get i) (env i) acc) acc
      SendsOnly hmacSha256 c r.1.built r.2 := by
    intro l
    induction l with
    | nil => exact fun _ h => h
    | cons i l ih => exact fun acc h => ih _ (h.step data (data.txAddress.get i) (env i))
  exact hloop _ _ (.start c)

/-! ## Receiving

With HMAC enabled a reception has two outcomes.  It is dropped, with all records as they were; or
the HMAC and the counter were right, the counter is recorded, and the rest of the reception is a
send. -/

/-- Behind the checks, the node's handlers answer and their answer is sent. -/
theorem dispatchPacket_eq (systemConfig : SystemConfig) (myMac senderMac : Mac)
    (packet : CommunicationData) (env : ReceiveEnv) (c : ESP_NOWController caps) :
    ∃ answer node, c.dispatchPacket hmacSha256 systemConfig myMac senderMac packet env
      = sendPacketToAddresses hmacSha256 systemConfig answer env.sends { c with node } :=
  ⟨_, _, rfl⟩

/-- **Receiving a packet** with HMAC enabled: it is dropped with no record touched and nothing sent;
or its HMAC and its counter are right, the counter is recorded, and what the node's handlers answer
is sent. -/
theorem processReceivedPacket_cases (systemConfig : SystemConfig) (myMac senderMac : Mac)
    (data : List UInt8) (env : ReceiveEnv) {c : ESP_NOWController caps}
    (henabled : c.hmacAuthenticationEnabled = true) :
    let r := c.processReceivedPacket hmacSha256 systemConfig myMac senderMac data env
    (r.1.processed = false ∧ r.1.sends = {} ∧
      ∃ m, SameRecords c.peerCounterManager m ∧ r.2 = { c with peerCounterManager := m }) ∨
    (r.1.processed = true ∧
      ∃ packet, CommunicationData.decode? data = some packet ∧
        (∃ key, c.peerCounterManager.keyFor senderMac = some key ∧
          hmacSha256 key packet.hmacData = packet.hmac) ∧
        packet.counter = (c.peerCounterManager.record senderMac).rxCounter + 1 ∧
        ∃ m answer node, RecordSet senderMac
            { c.peerCounterManager.record senderMac with rxCounter := packet.counter }
            c.peerCounterManager m ∧
          (r.1.sends, r.2) = sendPacketToAddresses hmacSha256 systemConfig answer env.sends
            { c with peerCounterManager := m, node }) := by
  obtain ⟨node, m, encryption, enabled, pmk⟩ := c
  obtain rfl : enabled = true := henabled
  unfold processReceivedPacket
  cases hdecode : CommunicationData.decode? data with
  -- not the length of a packet
  | none => exact Or.inl ⟨rfl, rfl, m, .refl m, rfl⟩
  | some packet =>
    dsimp only
    split
    · -- the sender cannot be registered
      exact Or.inl ⟨rfl, rfl, m, .refl m, rfl⟩
    · rcases verifyIncomingPacket_cases hmacSha256 senderMac packet env.mdOk m with
        ⟨-, hfst, hs⟩ | ⟨⟨-, -, hkey, hnext⟩, hfst, hset⟩
      · -- rejected, perhaps with a new slot for the sender
        rw [if_pos ⟨rfl, hfst⟩]
        exact Or.inl ⟨rfl, rfl, _, hs, rfl⟩
      · -- behind the checks: the table now holds the packet's counter
        rw [if_neg (by rw [hfst]; decide)]
        refine Or.inr ⟨rfl, packet, rfl, hkey, hnext,
          (verifyIncomingPacket hmacSha256 true senderMac packet env.mdOk m).2, ?_⟩
        generalize (verifyIncomingPacket hmacSha256 true senderMac packet env.mdOk m).2 = m1
          at hset ⊢
        obtain ⟨answer, node', hdispatch⟩ := dispatchPacket_eq hmacSha256 systemConfig myMac
          senderMac packet env
          { node, peerCounterManager := m1, espNowEncryptionEnabled := encryption
            hmacAuthenticationEnabled := true, pmk }
        rw [hdispatch]
        dsimp only
        exact ⟨answer, node', hset, Prod.mk.eta⟩

/-- With HMAC enabled, a packet of the right length is processed if its sender is registered and it
passes the check. -/
theorem processed_eq (systemConfig : SystemConfig) (myMac senderMac : Mac) {data : List UInt8}
    {packet : CommunicationData} (hdecode : CommunicationData.decode? data = some packet)
    (env : ReceiveEnv) {c : ESP_NOWController caps}
    (henabled : c.hmacAuthenticationEnabled = true) :
    (c.processReceivedPacket hmacSha256 systemConfig myMac senderMac data env).1.processed
      = (c.registerPeerIfNeeded systemConfig senderMac env.register
        && (verifyIncomingPacket hmacSha256 true senderMac packet env.mdOk
          c.peerCounterManager).1) := by
  obtain ⟨node, m, encryption, enabled, pmk⟩ := c
  obtain rfl : enabled = true := henabled
  unfold processReceivedPacket
  rw [hdecode]
  dsimp only
  split
  · rename_i hregister
    rw [hregister]
    rfl
  · rename_i hregister
    rw [Bool.not_eq_false] at hregister
    rw [hregister, Bool.true_and]
    split
    · rename_i hrejected
      exact hrejected.2.symm
    · rename_i hpassed
      exact (Bool.not_eq_false _ |>.mp fun h => hpassed ⟨rfl, h⟩).symm

/-- With HMAC enabled, reception keeps the keys, and tags what it sends under them. -/
theorem processReceivedPacket_keeps (systemConfig : SystemConfig) (myMac senderMac : Mac)
    (data : List UInt8) (env : ReceiveEnv) {c : ESP_NOWController caps}
    (henabled : c.hmacAuthenticationEnabled = true) :
    let r := c.processReceivedPacket hmacSha256 systemConfig myMac senderMac data env
    r.2.hmacAuthenticationEnabled = true ∧
      (∀ mac, r.2.peerCounterManager.keyFor mac = c.peerCounterManager.keyFor mac) ∧
      ∀ out ∈ r.1.sends.built, Tagged hmacSha256 c.peerCounterManager out := by
  rcases processReceivedPacket_cases hmacSha256 systemConfig myMac senderMac data env henabled with
    ⟨-, hsends, m, hs, heq⟩ | ⟨-, packet, -, -, -, m, answer, node, hset, heq⟩
  · dsimp only
    rw [hsends, heq]
    exact ⟨henabled, hs.keyFor, fun _ hout => absurd hout List.not_mem_nil⟩
  · have hsend := sendsOnly_sendPacketToAddresses hmacSha256 systemConfig answer env.sends
      { c with peerCounterManager := m, node }
    rw [← heq] at hsend
    -- recording the counter kept the keys
    have hkeys := hset.keyFor rfl rfl
    refine ⟨hsend.hmacEnabled_eq.trans henabled,
      fun mac => (hsend.keeps.keyFor_eq mac).trans (hkeys mac), fun out hout => ?_⟩
    obtain ⟨key, hkey, htag⟩ := hsend.tagged out hout
    exact ⟨key, (hkeys out.1).symm.trans hkey, htag⟩

/-- The receive counters after a reception: the source's is the accepted packet's. -/
theorem rxCounter_processReceivedPacket (systemConfig : SystemConfig) (myMac senderMac : Mac)
    (data : List UInt8) (env : ReceiveEnv) {c : ESP_NOWController caps}
    (henabled : c.hmacAuthenticationEnabled = true) (mac : Mac) :
    let r := c.processReceivedPacket hmacSha256 systemConfig myMac senderMac data env
    (r.2.peerCounterManager.record mac).rxCounter
      = (c.peerCounterManager.record mac).rxCounter
        + if mac = senderMac ∧ r.1.processed = true then 1 else 0 := by
  dsimp only
  rcases processReceivedPacket_cases hmacSha256 systemConfig myMac senderMac data env henabled with
    ⟨hnot, -, m, hs, heq⟩ | ⟨hyes, packet, -, -, hnext, m, answer, node, hset, heq⟩
  · rw [heq, if_neg (fun h => absurd (hnot.symm.trans h.2) (by decide)), UInt32.add_zero]
    exact congrArg PeerCounter.rxCounter (hs.record_eq mac)
  · have hsend := sendsOnly_sendPacketToAddresses hmacSha256 systemConfig answer env.sends
      { c with peerCounterManager := m, node }
    rw [← heq] at hsend
    -- sending the answer does not touch the receive counters
    refine (hsend.keeps.rxCounter_eq mac).trans ?_
    by_cases hmac : mac = senderMac
    · rw [if_pos ⟨hmac, hyes⟩, hmac]
      exact (congrArg PeerCounter.rxCounter hset.record_self).trans hnext
    · rw [if_neg (fun h => hmac h.1), UInt32.add_zero]
      exact congrArg PeerCounter.rxCounter (hset.record_ne mac hmac)

/-! ## Settings

What a configuration and the single settings do: counters stay, keys change.  The boot is one such
load on a controller that has counted nothing. -/

/-- HMAC is enabled or disabled as before, and no receive counter changed. -/
structure KeepsGuard (c c' : ESP_NOWController caps) : Prop where
  hmacEnabled_eq : c'.hmacAuthenticationEnabled = c.hmacAuthenticationEnabled
  rxCounter_eq : ∀ mac, (c'.peerCounterManager.record mac).rxCounter
    = (c.peerCounterManager.record mac).rxCounter

/-- And no send counter changed. -/
structure KeepsCounters (c c' : ESP_NOWController caps) : Prop extends KeepsGuard c c' where
  txCounter_eq : ∀ mac, (c'.peerCounterManager.record mac).txCounter
    = (c.peerCounterManager.record mac).txCounter

variable {c' c'' : ESP_NOWController caps}

theorem SendsOnly.keepsGuard {built : List (Mac × CommunicationData)}
    (h : SendsOnly hmacSha256 c built c') : KeepsGuard c c' :=
  ⟨h.hmacEnabled_eq, h.keeps.rxCounter_eq⟩

theorem KeepsCounters.refl (c : ESP_NOWController caps) : KeepsCounters c c :=
  ⟨⟨rfl, fun _ => rfl⟩, fun _ => rfl⟩

theorem KeepsCounters.trans (h : KeepsCounters c c') (h' : KeepsCounters c' c'') :
    KeepsCounters c c'' where
  hmacEnabled_eq := h'.hmacEnabled_eq.trans h.hmacEnabled_eq
  rxCounter_eq mac := (h'.rxCounter_eq mac).trans (h.rxCounter_eq mac)
  txCounter_eq mac := (h'.txCounter_eq mac).trans (h.txCounter_eq mac)

/-- A key update changes nothing but keys. -/
theorem keepsCounters_setPeerLMK (mac : Mac) (lmk : Key) (c : ESP_NOWController caps) :
    KeepsCounters c (c.setPeerLMK mac lmk).2 := by
  have hfield : ∀ {α : Type} (f : PeerCounter → α), (∀ peer : PeerCounter,
      f { peer with lmk, lmkSet := true } = f peer) → ∀ mac',
      f ((c.peerCounterManager.setPeerLMK mac lmk).2.record mac')
        = f (c.peerCounterManager.record mac') := by
    intro α f hf mac'
    rcases c.peerCounterManager.setPeerLMK_cases mac lmk with ⟨-, heq⟩ | ⟨-, -, hset⟩
    · rw [heq]
    · by_cases hmac : mac' = mac
      · rw [hmac, hset.record_self, hf]
      · rw [hset.record_ne mac' hmac]
  exact ⟨⟨rfl, hfield PeerCounter.rxCounter fun _ => rfl⟩,
    hfield PeerCounter.txCounter fun _ => rfl⟩

/-- A loop over settings. -/
theorem keepsCounters_foldl {ε : Type*} {f : ESP_NOWController caps → ε → ESP_NOWController caps}
    (hf : ∀ c entry, KeepsCounters c (f c entry)) (entries : List ε)
    (c : ESP_NOWController caps) : KeepsCounters c (entries.foldl f c) := by
  induction entries generalizing c with
  | nil => exact .refl c
  | cons entry entries ih => exact (hf c entry).trans (ih _)

/-- Loading a configuration sets whether HMAC is enabled. -/
theorem keepsCounters_loadAndApplyConfig (systemConfig : SystemConfig)
    (c : ESP_NOWController caps) :
    KeepsCounters
      { c with hmacAuthenticationEnabled := systemConfig.hmacAuthenticationEnabled }
      (c.loadAndApplyConfig systemConfig) := by
  unfold loadAndApplyConfig
  dsimp only
  refine .trans (.trans ?keys (keepsCounters_foldl ?peers _ _)) (keepsCounters_foldl ?routes _ _)
  case keys => split <;> split <;> exact ⟨⟨rfl, fun _ => rfl⟩, fun _ => rfl⟩
  case peers =>
    intro c entry
    split
    · exact keepsCounters_setPeerLMK entry.mac entry.key c
    · exact .refl c
  case routes =>
    intro c entry
    split <;> exact ⟨⟨rfl, fun _ => rfl⟩, fun _ => rfl⟩

/-- **A fresh boot** has sent nothing to anyone and received nothing from anyone. -/
theorem counters_boot (systemConfig : SystemConfig) (mac : Mac) :
    ((boot caps systemConfig).peerCounterManager.record mac).txCounter = 0 ∧
      ((boot caps systemConfig).peerCounterManager.record mac).rxCounter = 0 := by
  have hkeeps := keepsCounters_loadAndApplyConfig systemConfig (init caps)
  unfold boot
  rw [hkeeps.txCounter_eq, hkeeps.rxCounter_eq]
  show (PeerCounterManager.init.record mac).txCounter = 0 ∧
    (PeerCounterManager.init.record mac).rxCounter = 0
  rw [PeerCounterManager.record_init]
  exact ⟨rfl, rfl⟩

theorem hmacEnabled_boot (systemConfig : SystemConfig) :
    (boot caps systemConfig).hmacAuthenticationEnabled
      = systemConfig.hmacAuthenticationEnabled :=
  (keepsCounters_loadAndApplyConfig systemConfig (init caps)).hmacEnabled_eq

end ESP_NOWController

/-! ## One event

The three facts most invariants of a controller need in their step, for every event at once. -/

/-- The event changes a key. -/
def ControllerEvent.setsKey : ControllerEvent → Bool
  | .setPeerLMK _ _ | .setGlobalLMK _ => true
  | _ => false

open ESP_NOWController (Tagged SendsOnly sendsOnly_sendPacketToAddresses) in
/-- **One event** of a node with HMAC enabled: HMAC stays enabled, what is built is tagged under the
keys before the event, and only key updates change keys. -/
theorem controllerStep_keeps {caps : BuildCapacity} (hmacSha256 : Key → List UInt8 → Hmac)
    (systemConfig : SystemConfig) (myMac : Mac) {c : ESP_NOWController caps}
    (henabled : c.hmacAuthenticationEnabled = true) (event : ControllerEvent) :
    let r := controllerStep hmacSha256 systemConfig myMac c event
    r.2.hmacAuthenticationEnabled = true ∧
      (event.setsKey = false →
        ∀ mac, r.2.peerCounterManager.keyFor mac = c.peerCounterManager.keyFor mac) ∧
      ∀ out ∈ r.1.built, Tagged hmacSha256 c.peerCounterManager out := by
  have hnone : ∀ out ∈ ({} : ControllerReport).built,
      Tagged hmacSha256 c.peerCounterManager out := fun _ hout => absurd hout List.not_mem_nil
  -- a send keeps what the statement says, whatever it sends
  have hsends : ∀ {built c'}, SendsOnly hmacSha256 c built c' →
      c'.hmacAuthenticationEnabled = true ∧ (event.setsKey = false →
        ∀ mac, c'.peerCounterManager.keyFor mac = c.peerCounterManager.keyFor mac) ∧
      ∀ out ∈ built, Tagged hmacSha256 c.peerCounterManager out := fun h =>
    ⟨h.hmacEnabled_eq.trans henabled, fun _ => h.keeps.keyFor_eq, h.tagged⟩
  cases event with
  | processReceivedPacket senderMac data env =>
    obtain ⟨henabled', hkeys, htagged⟩ := ESP_NOWController.processReceivedPacket_keeps hmacSha256
      systemConfig myMac senderMac data env henabled
    exact ⟨henabled', fun _ => hkeys, htagged⟩
  | sendPacketToAddresses data env =>
    exact hsends (sendsOnly_sendPacketToAddresses hmacSha256 systemConfig data env c)
  | sendInterest contentName targetMac hopCount env =>
    exact hsends (sendsOnly_sendPacketToAddresses hmacSha256 systemConfig _ env c)
  | setPeerLMK => exact ⟨henabled, fun h => Bool.noConfusion h, hnone⟩
  | setGlobalLMK => exact ⟨henabled, fun h => Bool.noConfusion h, hnone⟩
  | sendSensorData => exact ⟨henabled, fun _ _ => rfl, hnone⟩
  | initFIBEntry => exact ⟨henabled, fun _ _ => rfl, hnone⟩
  | clearCSCache => exact ⟨henabled, fun _ _ => rfl, hnone⟩
  | clearPITCache => exact ⟨henabled, fun _ _ => rfl, hnone⟩

end Icsn
