import Icsn.Controller.ConfiguredKeys
import Icsn.Lib.StepRun

/-!
# Icsn — what an accepted packet says about its source

Any number of nodes with HMAC enabled, each with the keys it was configured with, and an adversary
who delivers any bytes to any node under any source MAC.  The HMAC is ideal: a tag verifies under a
key only if some node built a packet with the same covered bytes under that key.

* **`Network`** / **`networkStep`** — the nodes, and the packets built so far by whom for whom.
* **`Authentic`** — every packet built carries the HMAC under its builder's key for its destination.
* **`accepted_was_built`** — the main result: an accepted packet was built by a node, for a peer,
  with the key that the receiver resolves for the source; with a key of their own, by the source for
  the receiver or by the receiver for the source.
-/

namespace Icsn

open StepRun

/-- A packet, with the node that built it and the address it was built for. -/
structure BuiltPacket where
  myMac : Mac
  txAddress : Mac
  packet : CommunicationData
deriving DecidableEq

/-- The source and the bytes of a received packet. -/
def ControllerEvent.received? : ControllerEvent → Option (Mac × List UInt8)
  | .processReceivedPacket senderMac data _ => some (senderMac, data)
  | _ => none

/-- The node of each MAC, and all packets built so far. -/
structure Network (caps : Mac → BuildCapacity) where
  node : (mac : Mac) → ESP_NOWController (caps mac)
  built : List BuiltPacket

section Network

variable {caps : Mac → BuildCapacity} (hmacSha256 : Key → List UInt8 → Hmac)
  (systemConfig : Mac → SystemConfig)

/-- One event at one node. -/
def networkStep (net : Network caps) (event : Mac × ControllerEvent) :
    ControllerReport × Network caps :=
  let r := controllerStep hmacSha256 (systemConfig event.1) event.1 (net.node event.1) event.2
  (r.1, { node := Function.update net.node event.1 r.2
          built := net.built ++ r.1.built.map fun out => ⟨event.1, out.1, out.2⟩ })

theorem node_networkStep_self (net : Network caps) (mac : Mac) (event : ControllerEvent) :
    (networkStep hmacSha256 systemConfig net (mac, event)).2.node mac
      = (controllerStep hmacSha256 (systemConfig mac) mac (net.node mac) event).2 :=
  Function.update_self ..

theorem node_networkStep_ne (net : Network caps) {mac mac' : Mac} (hne : mac' ≠ mac)
    (event : ControllerEvent) :
    (networkStep hmacSha256 systemConfig net (mac, event)).2.node mac' = net.node mac' :=
  Function.update_of_ne hne ..

/-- The key that the node of one MAC resolves for another. -/
def Network.keyFor (net : Network caps) (mac peer : Mac) : Option Key :=
  (net.node mac).peerCounterManager.keyFor peer

/-- A packet with these covered bytes has been built under the key. -/
def Network.BuiltUnder (net : Network caps) (key : Key) (covered : List UInt8) : Prop :=
  ∃ entry ∈ net.built, net.keyFor entry.myMac entry.txAddress = some key ∧
    entry.packet.hmacData = covered

instance (net : Network caps) (key : Key) (covered : List UInt8) :
    Decidable (net.BuiltUnder key covered) := List.decidableBEx _ _

/-- Keys stay as configured, and the HMAC is ideal: the tag of a delivered packet verifies under the
key that the receiver resolves for the source only if a packet with the same covered bytes has been
built under that key. -/
def IdealMac (net : Network caps) (event : Mac × ControllerEvent) : Prop :=
  event.2.setsKey = false ∧
  ∀ received ∈ event.2.received?, ∀ packet ∈ CommunicationData.decode? received.2,
  ∀ key ∈ net.keyFor event.1 received.1, hmacSha256 key packet.hmacData = packet.hmac →
    net.BuiltUnder key packet.hmacData

instance (net : Network caps) (event : Mac × ControllerEvent) :
    Decidable (IdealMac hmacSha256 net event) :=
  -- the one key there is gets looked at, not every key there could be
  have (received : Mac × List UInt8) (packet : CommunicationData) :
      Decidable (∀ key ∈ net.keyFor event.1 received.1,
        hmacSha256 key packet.hmacData = packet.hmac → net.BuiltUnder key packet.hmacData) :=
    Option.decidableForallMem _
  inferInstanceAs (Decidable (_ ∧ _))

/-- HMAC is enabled everywhere, the keys are those of the start, and every packet built carries the
HMAC under its builder's key for its destination. -/
structure Authentic (start net : Network caps) : Prop where
  enabled : ∀ mac, (net.node mac).hmacAuthenticationEnabled = true
  keyFor_eq : ∀ mac peer, net.keyFor mac peer = start.keyFor mac peer
  tagged : ∀ entry ∈ net.built, ∃ key, start.keyFor entry.myMac entry.txAddress = some key ∧
    hmacSha256 key entry.packet.hmacData = entry.packet.hmac

variable {start net : Network caps}

/-- **One event** keeps it. -/
theorem Authentic.step (h : Authentic hmacSha256 start net) (event : Mac × ControllerEvent)
    (hevent : IdealMac hmacSha256 net event) :
    Authentic hmacSha256 start (networkStep hmacSha256 systemConfig net event).2 := by
  obtain ⟨mac, event⟩ := event
  obtain ⟨henabled, hkeys, htagged⟩ :=
    controllerStep_keeps hmacSha256 (systemConfig mac) mac (h.enabled mac) event
  refine ⟨fun mac' => ?_, fun mac' peer => ?_, fun entry hentry => ?_⟩
  · by_cases hmac : mac' = mac
    · rw [hmac, node_networkStep_self]
      exact henabled
    · rw [node_networkStep_ne _ _ _ hmac]
      exact h.enabled mac'
  · rw [← h.keyFor_eq]
    unfold Network.keyFor
    by_cases hmac : mac' = mac
    · rw [hmac, node_networkStep_self]
      exact hkeys hevent.1 peer
    · rw [node_networkStep_ne _ _ _ hmac]
  · rcases List.mem_append.mp hentry with hold | hnew
    · exact h.tagged entry hold
    · -- built in this event, under the key it started with
      obtain ⟨out, hout, rfl⟩ := List.mem_map.mp hnew
      obtain ⟨key, hkey, htag⟩ := htagged out hout
      exact ⟨key, (h.keyFor_eq mac out.1).symm.trans hkey, htag⟩

/-- **Acceptance.**  What a node accepts from a source was built under the key it resolves for the
source. -/
theorem Authentic.accepted (h : Authentic hmacSha256 start net) {mac senderMac : Mac}
    {data : List UInt8} {env : ReceiveEnv}
    (hideal : IdealMac hmacSha256 net (mac, .processReceivedPacket senderMac data env))
    (haccepted : (networkStep hmacSha256 systemConfig net
      (mac, .processReceivedPacket senderMac data env)).1.processed = true) :
    ∃ entry ∈ net.built, CommunicationData.decode? data = some entry.packet ∧
      start.keyFor entry.myMac entry.txAddress = start.keyFor mac senderMac := by
  rcases ESP_NOWController.processReceivedPacket_cases hmacSha256 (systemConfig mac) mac senderMac
    data env (h.enabled mac) with ⟨hnot, -⟩ | ⟨-, packet, hdecode, ⟨key, hkey, htag⟩, -⟩
  · exact absurd (hnot.symm.trans haccepted) (by decide)
  · obtain ⟨entry, hentry, hentryKey, hdata⟩ := hideal.2 _ rfl packet hdecode key hkey htag
    obtain ⟨key', hkey', htag'⟩ := h.tagged entry hentry
    rw [h.keyFor_eq, hkey'] at hentryKey
    obtain rfl := Option.some.inj hentryKey
    -- the same covered bytes under the same key: the same packet
    have hpacket : entry.packet = packet := by
      apply CommunicationData.eq_of_hmacData_eq hdata
      rw [← htag', ← htag, hdata]
    refine ⟨entry, hentry, by rw [hpacket]; exact hdecode, hkey'.trans ?_⟩
    rw [← h.keyFor_eq]
    exact hkey.symm

/-- **Source authentication.**  Nodes with HMAC enabled and any configured keys, an ideal HMAC, and
an adversary who delivers what it likes: whenever node B accepts a packet from source A, exactly
this packet was built earlier, by some node X for some peer Y, and X's key for Y is B's key for A.
If no other pair of nodes resolves this key, A built it for B, or B built it for A. -/
theorem accepted_was_built (start : Network caps)
    (henabled : ∀ mac, (start.node mac).hmacAuthenticationEnabled = true)
    (hstart : start.built = []) (run : List (Mac × ControllerEvent))
    (hideal : Along (networkStep hmacSha256 systemConfig) (IdealMac hmacSha256) start run)
    (pre : List (Mac × ControllerEvent)) (macB macA : Mac) (data : List UInt8) (env : ReceiveEnv)
    (post : List (Mac × ControllerEvent))
    (hrun : run = pre ++ (macB, .processReceivedPacket macA data env) :: post)
    (haccepted : (networkStep hmacSha256 systemConfig
      (after (networkStep hmacSha256 systemConfig) start pre)
      (macB, .processReceivedPacket macA data env)).1.processed = true) :
    ∃ entry ∈ (after (networkStep hmacSha256 systemConfig) start pre).built,
      CommunicationData.decode? data = some entry.packet ∧
      start.keyFor entry.myMac entry.txAddress = start.keyFor macB macA ∧
      ((∀ mac peer, start.keyFor mac peer = start.keyFor macB macA →
          (mac = macA ∧ peer = macB) ∨ (mac = macB ∧ peer = macA)) →
        (entry.myMac = macA ∧ entry.txAddress = macB) ∨
          (entry.myMac = macB ∧ entry.txAddress = macA)) := by
  -- what the invariant says before the reception, and what the ideal HMAC says about it
  obtain ⟨hpre, hevent, -⟩ := (along_append _ _ start pre _).mp (hrun ▸ hideal)
  have hauthentic : Authentic hmacSha256 start
      (after (networkStep hmacSha256 systemConfig) start pre) :=
    after_invariant (fun _ event h hideal => h.step hmacSha256 systemConfig event hideal)
      ⟨henabled, fun _ _ => rfl,
        fun entry hentry => absurd (hstart ▸ hentry) List.not_mem_nil⟩ hpre
  obtain ⟨entry, hentry, hdecode, hkey⟩ :=
    hauthentic.accepted hmacSha256 systemConfig hevent haccepted
  exact ⟨entry, hentry, hdecode, hkey, fun hprivate => hprivate _ _ hkey⟩

end Network

theorem bootedNetwork_size_pos : 0 < 4 := by decide

/-- The nodes of all MACs after their boots, with one default key. -/
def bootedNetwork : Network fun _ => .uniform 4 bootedNetwork_size_pos where
  node _ := ESP_NOWController.boot _ (.hmacWith Key.zero)
  built := []

/-- A configuration with HMAC under the default key zero, and another key for one peer. -/
def SystemConfig.hmacWithPeer (peer : Mac) (key : Key) : SystemConfig :=
  { SystemConfig.hmacWith Key.zero with
    hmacPeerKeyEntries := List.Vector.replicate _ { mac := peer, key, valid := true }
    hmacPeerKeyCount := 1 }

theorem keyFor_hmacWithPeer {caps : BuildCapacity} (other : Mac) (key : Key) (peer : Mac) :
    (ESP_NOWController.boot caps (.hmacWithPeer other key)).peerCounterManager.keyFor peer
      = if other = peer then some key else some Key.zero := by
  have hpeers : (SystemConfig.hmacWithPeer other key).hmacPeers
      = [{ mac := other, key, valid := true }] := by
    unfold SystemConfig.hmacPeers SystemConfig.hmacWithPeer
    rfl
  rw [ESP_NOWController.keyFor_boot, hpeers]
  unfold configuredKey configuredKey
  by_cases heq : other = peer
  · rw [if_pos ⟨rfl, heq⟩, if_pos heq]
    rfl
  · rw [if_neg fun h => heq h.2, if_neg heq]
    rfl

/-- Two MACs have a key for each other, all others the default key only. -/
def pairConfig (macA macB : Mac) (key : Key) (mac : Mac) : SystemConfig :=
  if mac = macA then .hmacWithPeer macB key
  else if mac = macB then .hmacWithPeer macA key
  else .hmacWith Key.zero

/-- The nodes of all MACs after their boots, two of them with a key for each other. -/
def pairedNetwork (macA macB : Mac) (key : Key) :
    Network fun _ => .uniform 4 bootedNetwork_size_pos where
  node mac := ESP_NOWController.boot _ (pairConfig macA macB key mac)
  built := []

/-- The key for the pair is resolved by no other pair of nodes. -/
theorem pair_of_keyFor_eq {macA macB : Mac} {key : Key} (hkey : key ≠ Key.zero) {mac peer : Mac}
    (h : (pairedNetwork macA macB key).keyFor mac peer = some key) :
    (mac = macA ∧ peer = macB) ∨ (mac = macB ∧ peer = macA) := by
  have hboot : (ESP_NOWController.boot (.uniform 4 bootedNetwork_size_pos)
      (pairConfig macA macB key mac)).peerCounterManager.keyFor peer = some key := h
  have hpeer : ∀ {other : Mac}, pairConfig macA macB key mac = .hmacWithPeer other key →
      peer = other := by
    intro other hconfig
    rw [hconfig, keyFor_hmacWithPeer] at hboot
    by_contra hne
    rw [if_neg fun heq => hne heq.symm] at hboot
    exact hkey (Option.some.inj hboot).symm
  by_cases hA : mac = macA
  · exact Or.inl ⟨hA, hpeer (if_pos hA)⟩
  · by_cases hB : mac = macB
    · exact Or.inr ⟨hB, hpeer ((if_neg hA).trans (if_pos hB))⟩
    · have hconfig : pairConfig macA macB key mac = .hmacWith Key.zero :=
        (if_neg hA).trans (if_neg hB)
      rw [hconfig, ESP_NOWController.keyFor_boot] at hboot
      exact absurd (Option.some.inj hboot).symm hkey

/-- Node 1 builds an INTEREST for node 3 and one for node 2, with which it has a key of their own;
node 2 accepts the second one from node 1, and the two are the only nodes that may have built it. -/
theorem accepted_was_built_for_pair :
    let macA : Mac := List.Vector.replicate _ 1
    let macB : Mac := List.Vector.replicate _ 2
    let key : Key := List.Vector.replicate _ 5
    let name := ascii ['/', 'a']
    let packet := interestPacket key name 1
    let send (addr : Mac) : Mac × ControllerEvent :=
      (macA, .sendInterest name addr 0 fun _ => .good)
    let start := pairedNetwork macA macB key
    let pre := [send (List.Vector.replicate _ 3), send macB]
    ∃ entry ∈ (after (networkStep checksum (pairConfig macA macB key)) start pre).built,
      CommunicationData.decode? packet.toBytes = some entry.packet ∧
      start.keyFor entry.myMac entry.txAddress = start.keyFor macB macA ∧
      ((entry.myMac = macA ∧ entry.txAddress = macB) ∨
        (entry.myMac = macB ∧ entry.txAddress = macA)) := by
  intro macA macB key name packet send start pre
  have henabled : ∀ mac, (start.node mac).hmacAuthenticationEnabled = true := by
    intro mac
    refine (ESP_NOWController.hmacEnabled_boot (pairConfig macA macB key mac)).trans ?_
    unfold pairConfig
    split
    · rfl
    · split <;> rfl
  obtain ⟨entry, hentry, hdecode, hkey, hpair⟩ := accepted_was_built checksum
    (pairConfig macA macB key) start henabled rfl
    (pre ++ [(macB, .processReceivedPacket macA packet.toBytes .good)]) (by decide +kernel) pre macB
    macA packet.toBytes .good [] rfl (by decide +kernel)
  have hshared : start.keyFor macB macA = some key := by decide +kernel
  exact ⟨entry, hentry, hdecode, hkey, hpair fun mac peer h =>
    pair_of_keyFor_eq (by decide) (h.trans hshared)⟩

/-- The packet that node 2 accepts from node 1 was not built for node 2. -/
theorem not_accepted_was_built_for_receiver :
    let step := networkStep checksum fun _ => .hmacWith Key.zero
    ¬ ∀ run, Along step (IdealMac checksum) bootedNetwork run →
      ∀ pre macB macA data env post,
        run = pre ++ (macB, .processReceivedPacket macA data env) :: post →
        (step (after step bootedNetwork pre)
          (macB, .processReceivedPacket macA data env)).1.processed = true →
        ∃ entry ∈ (after step bootedNetwork pre).built, entry.myMac = macA ∧
          entry.txAddress = macB ∧ CommunicationData.decode? data = some entry.packet := by
  intro step hall
  let name := ascii ['/', 'a']
  let send : Mac × ControllerEvent := (List.Vector.replicate _ 1,
    .sendInterest name (List.Vector.replicate _ 3) 0 fun _ => .good)
  obtain ⟨entry, hentry, -, haddr, -⟩ := hall
    [send, (List.Vector.replicate _ 2, .processReceivedPacket (List.Vector.replicate _ 1)
      (interestPacket Key.zero name 1).toBytes .good)]
    (by decide +kernel) [send] _ _ _ .good [] rfl (by decide +kernel)
  -- all that was built is for node 3
  have hbuilt : ∀ entry ∈ (after step bootedNetwork [send]).built,
      entry.txAddress = List.Vector.replicate _ 3 := by decide +kernel
  rw [hbuilt entry hentry] at haddr
  exact absurd haddr (by decide)

end Icsn
