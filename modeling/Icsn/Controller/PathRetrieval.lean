import Icsn.Controller.OneHop

/-!
# Icsn — retrieval along a path

A user asks for a name that the last node of a path has stored.  The INTEREST goes down the path
from route to route, the DATA comes back up from requester to requester, whatever the length of the
path.

* **`Follows`** / **`InStep`** — two neighbours share a key, and expect each other's next counter.
* **`PathTo`** — the nodes of a path: relays with a route to the next one, and a producer.
* **`deliver_hop`** — one packet on its way is delivered, and the next one is on its way.
* **`Answered`** — the DATA is on its way back, the relays have stored the content, and all
  neighbours are in step again; `path_answers` goes down the path and up again.
* **`content_retrieved`** — from the user's INTEREST to the user's DATA.
-/

namespace Icsn

open StepRun
open ESP_NOWController (Ready RoutesTo OnlyTo Carries Hop Acceptable inputFromPacket answerTo
  hop_of_acceptable packetUnder hmacData_packetUnder carries_packetUnder controlDataOf interestData
  answerTo_forwarded answerTo_cached answerTo_returned onlyTo_controlDataOf requester_saved
  stored_of_room hopCount_succ send_onlyTo sendInterest_eq answerTo_dropped
  sendPacketToAddresses_silent silent_invalidOutput)
open PeerCounterManager (RecordSet)

variable {caps : Mac → BuildCapacity} (hmacSha256 : Key → List UInt8 → Hmac)
  (systemConfig : Mac → SystemConfig)

/-! ## Neighbours

All that two neighbours have to agree on for a packet to be accepted: the key, and that the counter
the sender uses next is the one the receiver waits for.  A hop uses up one counter on each side of a
link, so the relation between neighbours has to be kept apart for the two directions and put
together again at the end. -/

/-- The second node expects the counter that the first one sends it next, under the same key. -/
structure Follows (net : AirNetwork caps) (mac addr : Mac) : Prop where
  key_eq : (net.node mac).peerCounterManager.keyFor addr
    = (net.node addr).peerCounterManager.keyFor mac
  counter_eq : ((net.node mac).peerCounterManager.record addr).txCounter
    = ((net.node addr).peerCounterManager.record mac).rxCounter

/-- Both nodes do. -/
def InStep (net : AirNetwork caps) (mac addr : Mac) : Prop :=
  Follows net mac addr ∧ Follows net addr mac

theorem Follows.congr {net net' : AirNetwork caps} {mac addr : Mac} (h : Follows net mac addr)
    (hmac : net'.node mac = net.node mac) (haddr : net'.node addr = net.node addr) :
    Follows net' mac addr := by
  refine ⟨?_, ?_⟩
  · rw [hmac, haddr]
    exact h.key_eq
  · rw [hmac, haddr]
    exact h.counter_eq

/-- The packet is on the air to a node that will accept it. -/
structure OnItsWay (net : AirNetwork caps) (p : AirPacket) (senderMac addr : Mac) : Prop where
  inFlight : p ∈ net.inFlight
  senderMac_eq : p.senderMac = senderMac
  txAddress_eq : p.txAddress = addr
  tagged : ∃ key, (net.node addr).peerCounterManager.keyFor senderMac = some key ∧
    hmacSha256 key p.packet.hmacData = p.packet.hmac
  next : p.packet.counter
    = ((net.node addr).peerCounterManager.record senderMac).rxCounter + 1

variable {hmacSha256} {systemConfig} {net : AirNetwork caps} {p : AirPacket}
  {senderMac mac addr : Mac}

theorem OnItsWay.acceptable (h : OnItsWay hmacSha256 net p senderMac mac)
    (hready : (net.node mac).Ready (systemConfig mac) senderMac addr) :
    Acceptable hmacSha256 (systemConfig mac) senderMac p.packet (net.node mac) where
  enabled := hready.enabled
  registrable := hready.registrable_sender
  room := hready.room_sender
  tagged := h.tagged
  next := h.next

/-- A packet that a node sends under its key and with its next counter is on its way. -/
theorem onItsWay_transmit (hfollows : Follows net mac addr) (hself : addr ≠ mac) {key : Key}
    (hkey : (net.node mac).peerCounterManager.keyFor addr = some key)
    (c : ESP_NOWController (caps mac)) (data : ESP_NOWControlData)
    (copyOf : List CommunicationData) :
    let q : AirPacket := ⟨mac, addr, packetUnder hmacSha256 key data
      (((net.node mac).peerCounterManager.record addr).txCounter + 1), copyOf⟩
    OnItsWay hmacSha256 (net.transmit mac c [q]) q mac addr where
  inFlight := Multiset.mem_add.mpr (Or.inr (Multiset.mem_coe.mpr List.mem_cons_self))
  senderMac_eq := rfl
  txAddress_eq := rfl
  tagged := by
    rw [node_transmit_ne net c hself]
    refine ⟨key, hfollows.key_eq.symm.trans hkey, ?_⟩
    dsimp only
    rw [hmacData_packetUnder]
    rfl
  next := by
    rw [node_transmit_ne net c hself, ← hfollows.counter_eq]
    rfl

/-- **One delivery.**  A packet on its way to a node that answers to one peer: the answer is on its
way to that peer, and no other node changes. -/
theorem deliver_hop (h : OnItsWay hmacSha256 net p senderMac mac)
    (hready : (net.node mac).Ready (systemConfig mac) senderMac addr)
    {data : ESP_NOWControlData} {node' : NodeState (caps mac)}
    (hanswer : answerTo (systemConfig mac) (inputFromPacket mac senderMac p.packet) (some false)
      (net.node mac).node = (data, node'))
    (honly : OnlyTo addr data) (hzero : addr ≠ Mac.zero) (hself : addr ≠ mac)
    (hfollows : Follows net mac addr) :
    let net' := (airStep hmacSha256 systemConfig net (.deliver p mac .good)).2
    ∃ q, OnItsWay hmacSha256 net' q mac addr ∧ Carries data q.packet ∧
      Hop hmacSha256 senderMac addr data node' (net.node mac) (net'.node mac)
        [(addr, q.packet)] ∧
      ∀ other, other ≠ mac → net'.node other = net.node other := by
  -- the node accepts the packet and answers it to one address
  obtain ⟨-, hhop⟩ := hop_of_acceptable (h.acceptable hready) hready hanswer honly hzero
  obtain ⟨key, hkey, hsent⟩ := hhop.sent_eq
  -- the packet is on the air, so the step delivers it
  have hstep : airStep hmacSha256 systemConfig net (.deliver p mac .good) = _ := if_pos h.inFlight
  rw [h.senderMac_eq] at hstep
  dsimp only
  rw [hstep]
  revert hhop hsent
  generalize (net.node mac).processReceivedPacket hmacSha256 (systemConfig mac) mac senderMac
    p.packet.toBytes .good = r
  intro hhop hsent
  rw [hsent] at hhop ⊢
  -- taking the packet off the air changes no node
  have hfollows' : Follows (net.receive p mac) mac addr := ⟨hfollows.key_eq, hfollows.counter_eq⟩
  refine ⟨_, onItsWay_transmit hfollows' hself hkey r.2 data _, carries_packetUnder .., ?_,
    fun other hne => node_transmit_ne (net.receive p mac) r.2 hne⟩
  rw [node_transmit_self]
  exact hhop

/-! ## The nodes of a path

What a node has to bring to its place on the path, as a predicate on its own controller: nothing
here speaks of other nodes, so that a delivery elsewhere leaves it true.  Each of the three places
gets one lemma that says what the delivery of the packet meant for it does, from `deliver_hop` and
the answer of the handlers. -/

/-- The tables have room for one more requester and one more content, for a name new to both. -/
structure RoomFor {caps : BuildCapacity} (name : Str) (node : NodeState caps) : Prop where
  sound : node.csRepository.Sound
  notStored : node.csRepository.find name = false
  freeSlot : node.csRepository.findFreePayloadSlot ≠ none
  storeRoom : node.csRepository.cache.index.currentSize < caps.csEntries
  pitWf : node.pitRepository.index.Wf
  notAsked : node.pitRepository.index.lookup name = none
  pitRoom : node.pitRepository.index.currentSize < caps.pitEntries
  nodeIdRoom : 17 ≤ caps.nodeIdMaxChars

/-- The name is not stored, and one node waits for it. -/
structure Awaits {caps : BuildCapacity} (name : Str) (requester : Mac) (node : NodeState caps) :
    Prop where
  sound : node.csRepository.Sound
  freeSlot : node.csRepository.findFreePayloadSlot ≠ none
  storeRoom : node.csRepository.cache.index.currentSize < caps.csEntries
  asked : ∃ requesters, node.pitRepository.index.lookup name = some requesters ∧
    requesters.ids = [addressToString requester]

/-- A node in the middle of a path. -/
structure Relays {caps : BuildCapacity} (systemConfig : SystemConfig) (name : Str)
    (senderMac next : Mac) (c : ESP_NOWController caps) : Prop where
  ready : c.Ready systemConfig senderMac next
  routes : RoutesTo systemConfig name (addressToString next) c.node
  room : RoomFor name c.node

/-- The node at the end of a path. -/
structure Produces {caps : BuildCapacity} (systemConfig : SystemConfig) (name content : Str)
    (senderMac : Mac) (c : ESP_NOWController caps) : Prop where
  ready : c.Ready systemConfig senderMac senderMac
  sound : c.node.csRepository.Sound
  stored : c.node.csRepository.contentOf name = some content

/-- The counters of a node after a packet from one peer and one to another. -/
def Hopped {caps : BuildCapacity} (hmacSha256 : Key → List UInt8 → Hmac) (senderMac addr : Mac)
    (c c' : ESP_NOWController caps) : Prop :=
  ∃ data node' sent, Hop hmacSha256 senderMac addr data node' c c' sent

/-- The content that a DATA brings: as much of it as the field holds. -/
def carried (content : Str) : Str := cstr (copyField maxContentLength content).toList

variable {name content : Str} {hops : UInt8}

/-- **Down the path**: a relay passes an INTEREST on, and waits for the DATA. -/
theorem Relays.forward {next : Mac}
    (h : Relays (systemConfig mac) name senderMac next (net.node mac))
    (hway : OnItsWay hmacSha256 net p senderMac mac) (hreads : p.packet.Reads .interest name hops)
    (hhop : (hops.toNat + 1 : Int) < (systemConfig mac).hopCountThreshold)
    (hzero : next ≠ Mac.zero) (hself : next ≠ mac) (hfollows : Follows net mac next) :
    let net' := (airStep hmacSha256 systemConfig net (.deliver p mac .good)).2
    ∃ q, OnItsWay hmacSha256 net' q mac next ∧ q.packet.Reads .interest name (hops + 1) ∧
      Hopped hmacSha256 senderMac next (net.node mac) (net'.node mac) ∧
      Awaits name senderMac (net'.node mac).node ∧
      ∀ other, other ≠ mac → net'.node other = net.node other := by
  obtain ⟨hcode, rfl, rfl⟩ := hreads
  -- the handlers forward it to the one next hop, and leave the Content Store alone
  obtain ⟨node', hanswer, hcs, hpit⟩ := answerTo_forwarded
    (inputFromPacket mac senderMac p.packet) (some false) hcode hhop h.room.notStored h.routes
  obtain ⟨q, hq, hcarries, hhopped, hframe⟩ := deliver_hop hway h.ready hanswer
    (onlyTo_controlDataOf rfl) hzero hself hfollows
  refine ⟨q, hq, ?_, ⟨_, _, _, hhopped⟩, ?_, hframe⟩
  · -- the packet is the same INTEREST with one more hop
    have hreads := (hcarries.reads p.packet.fits_name).1
    rw [hopCount_succ] at hreads
    exact hreads
  · -- and the sender is the one requester of the new PIT entry
    rw [hhopped.node_eq]
    refine ⟨by rw [hcs]; exact h.room.sound, by rw [hcs]; exact h.room.freeSlot,
      by rw [hcs]; exact h.room.storeRoom, ?_⟩
    rw [hpit]
    exact requester_saved h.room.pitWf h.room.notAsked h.room.pitRoom h.room.nodeIdRoom senderMac

/-- **Up the path**: a node that one other waits for passes a DATA on, and stores its content. -/
theorem return_hop {prev : Mac} (hready : (net.node mac).Ready (systemConfig mac) senderMac prev)
    (hawaits : Awaits name prev (net.node mac).node)
    (hway : OnItsWay hmacSha256 net p senderMac mac) (hreads : p.packet.Reads .data name hops)
    (hzero : prev ≠ Mac.zero) (hself : prev ≠ mac) (hfollows : Follows net mac prev) :
    let net' := (airStep hmacSha256 systemConfig net (.deliver p mac .good)).2
    ∃ q, OnItsWay hmacSha256 net' q mac prev ∧ q.packet.Reads .data name (hops + 1) ∧
      q.packet.text = p.packet.text ∧
      Hopped hmacSha256 senderMac prev (net.node mac) (net'.node mac) ∧
      (net'.node mac).node.csRepository.contentOf name = some p.packet.text ∧
      ∀ other, other ≠ mac → net'.node other = net.node other := by
  obtain ⟨hcode, rfl, rfl⟩ := hreads
  obtain ⟨requesters, hlook, hids⟩ := hawaits.asked
  -- the one requester gets the DATA, and the store has room for its content
  obtain ⟨node', hanswer, hcs⟩ := answerTo_returned (inputFromPacket mac senderMac p.packet)
    (some false) hcode hlook hids
  obtain ⟨q, hq, hcarries, hhopped, hframe⟩ := deliver_hop hway hready hanswer
    (onlyTo_controlDataOf rfl) hzero hself hfollows
  obtain ⟨hreads, htext⟩ := hcarries.reads p.packet.fits_name
  rw [hopCount_succ] at hreads
  refine ⟨q, hq, hreads, htext.trans p.packet.fits_text.cstr_copyField, ⟨_, _, _, hhopped⟩, ?_,
    hframe⟩
  rw [hhopped.node_eq, hcs]
  exact stored_of_room hawaits.sound hawaits.freeSlot hawaits.storeRoom
    { contentName := p.packet.name, content := p.packet.text }

/-- **At the end of the path**: the INTEREST is answered from the Content Store. -/
theorem Produces.reply (h : Produces (systemConfig mac) name content senderMac (net.node mac))
    (hway : OnItsWay hmacSha256 net p senderMac mac) (hreads : p.packet.Reads .interest name hops)
    (hhop : (hops.toNat + 1 : Int) < (systemConfig mac).hopCountThreshold)
    (hzero : senderMac ≠ Mac.zero) (hself : senderMac ≠ mac)
    (hfollows : Follows net mac senderMac) :
    let net' := (airStep hmacSha256 systemConfig net (.deliver p mac .good)).2
    ∃ q, OnItsWay hmacSha256 net' q mac senderMac ∧ q.packet.Reads .data name 0 ∧
      q.packet.text = carried content ∧
      Hopped hmacSha256 senderMac senderMac (net.node mac) (net'.node mac) ∧
      ∀ other, other ≠ mac → net'.node other = net.node other := by
  obtain ⟨hcode, rfl, rfl⟩ := hreads
  -- the content is answered from the store, over no hops
  have hanswer := answerTo_cached (inputFromPacket mac senderMac p.packet) (some false) hcode hhop
    h.sound h.stored
  obtain ⟨q, hq, hcarries, hhopped, hframe⟩ := deliver_hop hway h.ready hanswer
    (onlyTo_controlDataOf rfl) hzero hself hfollows
  obtain ⟨hreads, htext⟩ := hcarries.reads p.packet.fits_name
  exact ⟨q, hq, hreads, htext, ⟨_, _, _, hhopped⟩, hframe⟩

/-! ## Counters along a path

A relay takes part in two hops, the INTEREST on its way down and the DATA on its way up.  Between
them the counters of each link stand one apart in one direction; after both, one packet has gone
each way over it and the two ends agree again. -/

/-- One packet came from the peer, and one went to it. -/
structure Exchanged {caps : BuildCapacity} (peer : Mac) (c c' : ESP_NOWController caps) : Prop where
  keyFor_eq : ∀ mac, c'.peerCounterManager.keyFor mac = c.peerCounterManager.keyFor mac
  rxCounter_eq : (c'.peerCounterManager.record peer).rxCounter
    = (c.peerCounterManager.record peer).rxCounter + 1
  txCounter_eq : (c'.peerCounterManager.record peer).txCounter
    = (c.peerCounterManager.record peer).txCounter + 1

section Counters

variable {caps : BuildCapacity} {c c' c'' : ESP_NOWController caps}

/-- A packet from a peer that is answered to it. -/
theorem Hopped.exchanged (h : Hopped hmacSha256 senderMac senderMac c c') :
    Exchanged senderMac c c' := by
  obtain ⟨data, node', sent, h⟩ := h
  refine ⟨h.keyFor_eq, ?_, ?_⟩
  · rw [h.rxCounter_eq, if_pos rfl]
  · rw [h.txCounter_eq, if_pos rfl]

/-- A packet passed on, and its answer passed back. -/
theorem Hopped.exchanged_both (h : Hopped hmacSha256 senderMac addr c c')
    (h' : Hopped hmacSha256 addr senderMac c' c'') (hne : senderMac ≠ addr) :
    Exchanged senderMac c c'' ∧ Exchanged addr c c'' := by
  obtain ⟨data, node', sent, h⟩ := h
  obtain ⟨data', node'', sent', h'⟩ := h'
  have hkeys : ∀ mac, c''.peerCounterManager.keyFor mac = c.peerCounterManager.keyFor mac :=
    fun mac => (h'.keyFor_eq mac).trans (h.keyFor_eq mac)
  -- each counter moves in one of the two hops and stays in the other
  refine ⟨⟨hkeys, ?_, ?_⟩, hkeys, ?_, ?_⟩
  · rw [h'.rxCounter_eq, if_neg hne, UInt32.add_zero, h.rxCounter_eq, if_pos rfl]
  · rw [h'.txCounter_eq, if_pos rfl, h.txCounter_eq, if_neg hne, UInt32.add_zero]
  · rw [h'.rxCounter_eq, if_pos rfl, h.rxCounter_eq, if_neg hne.symm, UInt32.add_zero]
  · rw [h'.txCounter_eq, if_neg hne.symm, UInt32.add_zero, h.txCounter_eq, if_pos rfl]

end Counters

/-- Neighbours that have exchanged one packet each way are in step again. -/
theorem InStep.exchanged {net' : AirNetwork caps} (h : InStep net mac addr)
    (hmac : Exchanged addr (net.node mac) (net'.node mac))
    (haddr : Exchanged mac (net.node addr) (net'.node addr)) : InStep net' mac addr := by
  refine ⟨⟨?_, ?_⟩, ?_, ?_⟩
  · rw [hmac.keyFor_eq, haddr.keyFor_eq]
    exact h.1.key_eq
  · rw [hmac.txCounter_eq, haddr.rxCounter_eq, h.1.counter_eq]
  · rw [hmac.keyFor_eq, haddr.keyFor_eq]
    exact h.2.key_eq
  · rw [haddr.txCounter_eq, hmac.rxCounter_eq, h.2.counter_eq]

/-! ## Paths

The path is inductive in the list of its nodes, with the hop count of the INTEREST as an index,
since each relay checks it against its own limit.  What comes back is a structure with one field for
each part of the result, so that the induction below can hand each part on by itself. -/

/-- A path for the name, from the node that sends the INTEREST with this hop count: relays, each in
step with the next one, and a producer; the hop limits let the INTEREST through. -/
inductive PathTo (systemConfig : Mac → SystemConfig) (net : AirNetwork caps) (name content : Str) :
    UInt8 → Mac → List Mac → Prop
  | producer {hops : UInt8} {senderMac mac : Mac}
      (hhop : (hops.toNat + 1 : Int) < (systemConfig mac).hopCountThreshold)
      (hproduces : Produces (systemConfig mac) name content senderMac (net.node mac)) :
      PathTo systemConfig net name content hops senderMac [mac]
  | relay {hops : UInt8} {senderMac mac next : Mac} {rest : List Mac}
      (hhop : (hops.toNat + 1 : Int) < (systemConfig mac).hopCountThreshold)
      (hrelays : Relays (systemConfig mac) name senderMac next (net.node mac))
      (hstep : InStep net mac next)
      (hrest : PathTo systemConfig net name content (hops + 1) mac (next :: rest)) :
      PathTo systemConfig net name content hops senderMac (mac :: next :: rest)

/-- A path is a matter of its own nodes. -/
theorem PathTo.congr {path : List Mac}
    (h : PathTo systemConfig net name content hops senderMac path) {net' : AirNetwork caps}
    (hsame : ∀ mac ∈ path, net'.node mac = net.node mac) :
    PathTo systemConfig net' name content hops senderMac path := by
  induction h with
  | producer hhop hproduces =>
    refine .producer hhop ?_
    rw [hsame _ List.mem_cons_self]
    exact hproduces
  | relay hhop hrelays hstep _ ih =>
    have hmac := hsame _ List.mem_cons_self
    have hnext := hsame _ (List.mem_cons_of_mem _ List.mem_cons_self)
    -- the link to the next node is in step still, as neither end has changed
    refine .relay hhop ?_ ⟨hstep.1.congr hmac hnext, hstep.2.congr hnext hmac⟩
      (ih fun mac hmem => hsame mac (List.mem_cons_of_mem _ hmem))
    rw [hmac]
    exact hrelays

/-- The DATA is on its way back from the first node of a path, its relays have stored the content,
and nobody else has changed. -/
structure Answered (hmacSha256 : Key → List UInt8 → Hmac) (net net' : AirNetwork caps)
    (name content : Str) (senderMac mac : Mac) (rest : List Mac) (q : AirPacket) : Prop where
  onItsWay : OnItsWay hmacSha256 net' q mac senderMac
  reads : q.packet.Reads .data name (UInt8.ofNat rest.length)
  text_eq : q.packet.text = carried content
  exchanged : Exchanged senderMac (net.node mac) (net'.node mac)
  stored : ∀ relay ∈ (mac :: rest).dropLast,
    (net'.node relay).node.csRepository.contentOf name = some (carried content)
  inStep : (mac :: rest).IsChain (InStep net')
  frame : ∀ other, other ∉ mac :: rest → net'.node other = net.node other

def AirEvent.isDelivery : AirEvent → Bool
  | .deliver .. => true
  | _ => false

/-! ## Down the path and up again

The induction is on the path from its near end.  A relay's turn has three parts: it passes the
INTEREST on, the rest of the path answers by the induction hypothesis, and it passes the DATA back.
The first leaves the rest of the path in place (`PathTo.congr`), and the frame of the second says
that the relay itself has not changed meanwhile. -/

/-- The end of a path answers. -/
theorem Answered.of_producer {net' : AirNetwork caps} {q : AirPacket}
    (hway : OnItsWay hmacSha256 net' q mac senderMac) (hreads : q.packet.Reads .data name 0)
    (htext : q.packet.text = carried content)
    (hhopped : Hopped hmacSha256 senderMac senderMac (net.node mac) (net'.node mac))
    (hframe : ∀ other, other ≠ mac → net'.node other = net.node other) :
    Answered hmacSha256 net net' name content senderMac mac [] q where
  onItsWay := hway
  reads := hreads
  text_eq := htext
  exchanged := hhopped.exchanged
  stored _ hrelay := absurd hrelay List.not_mem_nil
  inStep := List.isChain_singleton _
  frame other hother := hframe other fun heq => hother (heq ▸ List.mem_cons_self)

/-- A relay in front of a path that has answered passes the DATA on. -/
theorem Answered.cons {net₁ net₂ net₃ : AirNetwork caps} {next : Mac} {rest : List Mac}
    {q r : AirPacket} (h : Answered hmacSha256 net₁ net₂ name content mac next rest q)
    (hnodup : (senderMac :: mac :: next :: rest).Nodup) (hstep : InStep net mac next)
    (hdown : Hopped hmacSha256 senderMac next (net.node mac) (net₁.node mac))
    (hframe₁ : ∀ other, other ≠ mac → net₁.node other = net.node other)
    (hup : Hopped hmacSha256 next senderMac (net₂.node mac) (net₃.node mac))
    (hframe₃ : ∀ other, other ≠ mac → net₃.node other = net₂.node other)
    (hway : OnItsWay hmacSha256 net₃ r mac senderMac)
    (hreads : r.packet.Reads .data name (UInt8.ofNat rest.length + 1))
    (htext : r.packet.text = carried content)
    (hstored : (net₃.node mac).node.csRepository.contentOf name = some (carried content)) :
    Answered hmacSha256 net net₃ name content senderMac mac (next :: rest) r := by
  obtain ⟨hsender, hmac, -⟩ := List.nodup_cons.mp hnodup |>.imp_right List.nodup_cons.mp
  have hsn : senderMac ≠ next := by
    rintro rfl
    exact hsender (List.mem_cons_of_mem _ List.mem_cons_self)
  have hlater : ∀ other ∈ next :: rest, net₃.node other = net₂.node other := by
    intro other hother
    exact hframe₃ other fun heq => hmac (heq ▸ hother)
  -- the relay is off the path behind it, so it goes up from where it went down
  rw [h.frame mac hmac] at hup
  obtain ⟨hsenderMac, hnext⟩ := hdown.exchanged_both hup hsn
  -- the next node exchanged with the relay, before the DATA went up
  have hfirst : Exchanged mac (net.node next) (net₃.node next) := by
    have hex := h.exchanged
    rw [hframe₁ next fun heq => hmac (heq ▸ List.mem_cons_self)] at hex
    rw [hlater next List.mem_cons_self]
    exact hex
  constructor
  case onItsWay => exact hway
  case reads =>
    have hlength : UInt8.ofNat (next :: rest).length = UInt8.ofNat rest.length + 1 :=
      UInt8.ofNat_add rest.length 1
    rw [hlength]
    exact hreads
  case text_eq => exact htext
  case exchanged => exact hsenderMac
  case stored =>
    intro relay hrelay
    rw [List.dropLast_cons_cons] at hrelay
    rcases List.mem_cons.mp hrelay with rfl | hrelay
    · exact hstored
    · rw [hlater relay (List.mem_of_mem_dropLast hrelay)]
      exact h.stored relay hrelay
  case inStep =>
    -- the relay is in step with the next node, and the links behind are as they were answered
    refine List.isChain_cons_cons.mpr ⟨hstep.exchanged hnext hfirst, ?_⟩
    refine h.inStep.imp_of_mem_imp fun a b ha hb hab => ?_
    exact ⟨hab.1.congr (hlater a ha) (hlater b hb), hab.2.congr (hlater b hb) (hlater a ha)⟩
  case frame =>
    intro other hother
    obtain ⟨hne, hrest⟩ := not_or.mp (fun h => hother (List.mem_cons.mpr h))
    rw [hframe₃ other hne, h.frame other hrest, hframe₁ other hne]

/-- **Down the path and up again**: an INTEREST on its way to the first node of a path is followed
by deliveries that bring the DATA back from it. -/
theorem path_answers {rest : List Mac} {net : AirNetwork caps} {hops : UInt8}
    {senderMac mac : Mac} {p : AirPacket}
    (hpath : PathTo systemConfig net name content hops senderMac (mac :: rest))
    (hnodup : (senderMac :: mac :: rest).Nodup)
    (hzero : ∀ node ∈ senderMac :: mac :: rest, node ≠ Mac.zero)
    (hway : OnItsWay hmacSha256 net p senderMac mac) (hreads : p.packet.Reads .interest name hops)
    (hback : Follows net mac senderMac) :
    ∃ run q, run.length = 2 * rest.length + 1 ∧ (∀ event ∈ run, event.isDelivery = true) ∧
      Answered hmacSha256 net (after (airStep hmacSha256 systemConfig) net run) name content
        senderMac mac rest q := by
  have hsender := hzero senderMac List.mem_cons_self
  have hself : senderMac ≠ mac := fun heq => (List.nodup_cons.mp hnodup).1
    (heq ▸ List.mem_cons_self)
  induction rest generalizing net hops senderMac mac p with
  | nil =>
    cases hpath with
    | producer hhop hproduces =>
      -- the producer alone: one delivery
      obtain ⟨q, hq, hdata, htext, hhopped, hframe⟩ := hproduces.reply hway hreads hhop hsender
        hself hback
      refine ⟨[.deliver p mac .good], q, rfl, fun event hevent => ?_,
        .of_producer hq hdata htext hhopped hframe⟩
      rw [List.mem_singleton.mp hevent]
      rfl
  | cons next rest ih =>
    cases hpath with
    | relay hhop hrelays hstep hrest =>
      obtain ⟨hsenderMac, htail⟩ := List.nodup_cons.mp hnodup
      obtain ⟨hmac, -⟩ := List.nodup_cons.mp htail
      have hnext : next ≠ mac := fun heq => hmac (heq ▸ List.mem_cons_self)
      have hsn : senderMac ≠ next := fun heq =>
        hsenderMac (heq ▸ List.mem_cons_of_mem _ List.mem_cons_self)
      -- the INTEREST goes one node down
      obtain ⟨p₁, hp₁, hinterest, hdown, hawaits, hframe₁⟩ := hrelays.forward hway hreads hhop
        (hzero next (List.mem_cons_of_mem _ (List.mem_cons_of_mem _ List.mem_cons_self))) hnext
        hstep.1
      generalize hnet₁ : (airStep hmacSha256 systemConfig net (.deliver p mac .good)).2 = net₁
        at hp₁ hdown hawaits hframe₁
      have hpath₁ : PathTo systemConfig net₁ name content (hops + 1) mac (next :: rest) :=
        hrest.congr fun other hother => hframe₁ other fun heq => hmac (heq ▸ hother)
      -- the counter towards the next node is used, the one back from it is not
      have hback₁ : Follows net₁ next mac := by
        obtain ⟨data, node', sent, hhop₁⟩ := hdown
        refine ⟨?_, ?_⟩
        · rw [hframe₁ next hnext, hhop₁.keyFor_eq]
          exact hstep.2.key_eq
        · rw [hframe₁ next hnext, hhop₁.rxCounter_eq, if_neg hsn.symm, UInt32.add_zero]
          exact hstep.2.counter_eq
      -- the rest of the path answers
      obtain ⟨run, q, hlength, hdeliveries, hanswered⟩ := ih hpath₁ htail
        (fun node hnode => hzero node (List.mem_cons_of_mem _ hnode)) hp₁ hinterest hback₁
        (hzero mac (List.mem_cons_of_mem _ List.mem_cons_self)) hnext.symm
      generalize hnet₂ : after (airStep hmacSha256 systemConfig) net₁ run = net₂ at hanswered
      -- and the DATA goes one node up
      have hmac₂ := hanswered.frame mac hmac
      -- in the meantime nothing has happened to the relay, and its keys and slots are those of
      -- before
      have hready₂ : (net₂.node mac).Ready (systemConfig mac) next senderMac := by
        obtain ⟨data, node', sent, hhop₁⟩ := hdown
        rw [hmac₂]
        exact hhop₁.ready hrelays.ready
      have hback₂ : Follows net₂ mac senderMac := by
        obtain ⟨data, node', sent, hhop₁⟩ := hdown
        have hstay : net₂.node senderMac = net.node senderMac :=
          (hanswered.frame senderMac fun h => hsenderMac (List.mem_cons_of_mem _ h)).trans
            (hframe₁ senderMac hself)
        refine ⟨?_, ?_⟩
        · rw [hstay, hmac₂, hhop₁.keyFor_eq]
          exact hback.key_eq
        · rw [hstay, hmac₂, hhop₁.txCounter_eq, if_neg hsn, UInt32.add_zero]
          exact hback.counter_eq
      obtain ⟨r, hr, hdata, htext, hup, hstored, hframe₃⟩ := return_hop hready₂
        (by rw [hmac₂]; exact hawaits) hanswered.onItsWay hanswered.reads hsender hself hback₂
      rw [hanswered.text_eq] at htext hstored
      -- one delivery before those of the rest, and one behind them
      refine ⟨.deliver p mac .good :: run ++ [.deliver q mac .good], r, ?_, ?_, ?_⟩
      · rw [List.length_append, List.length_cons, hlength, List.length_cons]
        show 2 * rest.length + 1 + 1 + 1 = 2 * (rest.length + 1) + 1
        omega
      · intro event hevent
        rcases List.mem_append.mp hevent with hevent | hevent
        · rcases List.mem_cons.mp hevent with rfl | hevent
          · rfl
          · exact hdeliveries event hevent
        · rw [List.mem_singleton.mp hevent]
          rfl
      · rw [after_concat, after_cons, hnet₁, hnet₂]
        exact hanswered.cons hnodup hstep hdown hframe₁ hup hframe₃ hr hdata htext hstored

/-! ## The user

The user is not on the path: it has no route for the name, sends by command and does not wait in its
own PIT.  So its part is stated for itself, the send and the reception around what the path does in
between. -/

/-- A node that asks the first node of a path. -/
structure Consumes {caps : BuildCapacity} (systemConfig : SystemConfig) (name : Str) (first : Mac)
    (c : ESP_NOWController caps) : Prop where
  ready : c.Ready systemConfig first first
  notAsked : c.node.pitRepository.index.lookup name = none

variable {user first : Mac}

/-- **The user asks.** -/
theorem Consumes.ask (h : Consumes (systemConfig user) name first (net.node user))
    (hfits : Fits maxContentNameLength name) (hops : UInt8) (hzero : first ≠ Mac.zero)
    (hself : first ≠ user) (hfollows : Follows net user first) :
    let net' := (airStep hmacSha256 systemConfig net
      (.sendInterest user name first hops fun _ => .good)).2
    ∃ p m, OnItsWay hmacSha256 net' p user first ∧ p.packet.Reads .interest name hops ∧
      RecordSet first
        { (net.node user).peerCounterManager.record first with
          txCounter := ((net.node user).peerCounterManager.record first).txCounter + 1 }
        (net.node user).peerCounterManager m ∧
      net'.node user = { net.node user with peerCounterManager := m } ∧
      ∀ other, other ≠ user → net'.node other = net.node other := by
  obtain ⟨key, hkey⟩ := Option.isSome_iff_exists.mp h.ready.key_addr
  -- one packet, under the key for the first hop
  have hsend := send_onlyTo hmacSha256 (c := net.node user)
    (rfl : OnlyTo first (interestData name first hops)) hzero hkey h.ready.room_sender
    h.ready.registrable_addr
  rw [← sendInterest_eq] at hsend
  unfold airStep
  dsimp only at hsend ⊢
  revert hsend
  generalize (net.node user).sendInterest hmacSha256 (systemConfig user) name first hops
    (fun _ => .good) = r
  rintro ⟨hsent, m, hset, -, hsnd⟩
  rw [hsent]
  refine ⟨_, m, onItsWay_transmit hfollows hself hkey r.2 _ _, ?_, hset, ?_,
    fun other hne => node_transmit_ne net r.2 hne⟩
  · -- the name fits its field, so that the two copies keep all of it
    have hcarries := carries_packetUnder hmacSha256 key (interestData name first hops)
      (((net.node user).peerCounterManager.record first).txCounter + 1)
    refine ⟨hcarries.code_eq rfl, ?_, rfl⟩
    show cstr (copyField _ (copyField _ (copyField _ name).toList).toList).toList = name
    rw [cstr_copyField_copyField, cstr_copyField_copyField, hfits.cstr_copyField]
  · rw [node_transmit_self, hsnd]

/-- The user is ready for the answer. -/
theorem Consumes.asked {caps : BuildCapacity} {systemConfig : SystemConfig}
    {c : ESP_NOWController caps} (h : Consumes systemConfig name first c) {m : PeerCounterManager}
    (hask : RecordSet first { c.peerCounterManager.record first with
      txCounter := (c.peerCounterManager.record first).txCounter + 1 } c.peerCounterManager m) :
    Consumes systemConfig name first { c with peerCounterManager := m } where
  ready := by
    have hkey : (m.keyFor first).isSome = true := by
      rw [hask.keyFor rfl rfl]
      exact h.ready.key_addr
    obtain ⟨idx, hidx⟩ := Option.isSome_iff_exists.mp hask.known_self
    refine ⟨h.ready.enabled, h.ready.registrable_addr, h.ready.registrable_addr, hkey, hkey,
      hask.known_self.hasRoom, ?_⟩
    rw [PeerCounterManager.findOrCreatePeerIndex_again hidx]
    exact hask.known_self.hasRoom
  notAsked := h.notAsked

/-- **And takes the answer**, which goes no further. -/
theorem Consumes.take {q : AirPacket} {hops : UInt8}
    (h : Consumes (systemConfig user) name first (net.node user))
    (hway : OnItsWay hmacSha256 net q first user) (hreads : q.packet.Reads .data name hops) :
    let net' := (airStep hmacSha256 systemConfig net (.deliver q user .good)).2
    ((net.node user).processReceivedPacket hmacSha256 (systemConfig user) user first
      q.packet.toBytes .good).1.processed = true ∧
    ∃ m, RecordSet first
        { (net.node user).peerCounterManager.record first with
          rxCounter := ((net.node user).peerCounterManager.record first).rxCounter + 1 }
        (net.node user).peerCounterManager m ∧
      net'.node user = { net.node user with peerCounterManager := m } ∧
      ∀ other, other ≠ user → net'.node other = net.node other := by
  obtain ⟨hcode, rfl, -⟩ := hreads
  -- the user has no PIT entry, so the handlers drop the DATA: it is accepted and goes no further
  have hprocess := (hway.acceptable h.ready).processed user
  rw [answerTo_dropped (inputFromPacket user first q.packet) (some false) hcode h.notAsked]
    at hprocess
  have hstep : airStep hmacSha256 systemConfig net (.deliver q user .good) = _ :=
    if_pos hway.inFlight
  rw [hway.senderMac_eq] at hstep
  dsimp only at hprocess ⊢
  rw [hstep]
  revert hprocess
  generalize (net.node user).processReceivedPacket hmacSha256 (systemConfig user) user first
    q.packet.toBytes .good = r
  rintro ⟨hprocessed, m, hset, -, hsends⟩
  -- nothing is sent for it
  rw [sendPacketToAddresses_silent hmacSha256 (silent_invalidOutput _)] at hsends
  obtain ⟨-, hsnd⟩ := Prod.mk.inj hsends
  rw [hway.next] at hset
  refine ⟨hprocessed, m, hset, ?_, fun other hne => node_transmit_ne (net.receive q user) r.2 hne⟩
  rw [node_transmit_self, hsnd]

/-- The INTEREST and the DATA that the user exchanges with the first node. -/
theorem exchanged_of_ask_take {caps : BuildCapacity} {c : ESP_NOWController caps}
    {m m' : PeerCounterManager}
    (hask : RecordSet first { c.peerCounterManager.record first with
      txCounter := (c.peerCounterManager.record first).txCounter + 1 } c.peerCounterManager m)
    (htake : RecordSet first { m.record first with rxCounter := (m.record first).rxCounter + 1 }
      m m') : Exchanged first c { c with peerCounterManager := m' } where
  keyFor_eq mac := (htake.keyFor rfl rfl mac).trans (hask.keyFor rfl rfl mac)
  rxCounter_eq := by
    dsimp only
    rw [htake.record_self, hask.record_self]
  txCounter_eq := by
    dsimp only
    rw [htake.record_self, hask.record_self]

/-- The packet `q` has brought the content to the user: it was on the air and was accepted, every
relay of the path has stored the content, neighbours are in step as before, and nobody off the path
has changed. -/
structure Retrieved (hmacSha256 : Key → List UInt8 → Hmac) (systemConfig : Mac → SystemConfig)
    (net before after : AirNetwork caps) (name content : Str) (user first : Mac) (rest : List Mac)
    (q : AirPacket) : Prop where
  inFlight : q ∈ before.inFlight ∧ q.senderMac = first ∧ q.txAddress = user
  reads : q.packet.Reads .data name (UInt8.ofNat rest.length)
  text_eq : q.packet.text = carried content
  accepted : ((before.node user).processReceivedPacket hmacSha256 (systemConfig user) user first
    q.packet.toBytes .good).1.processed = true
  stored : ∀ relay ∈ (first :: rest).dropLast,
    (after.node relay).node.csRepository.contentOf name = some (carried content)
  inStep : (user :: first :: rest).IsChain (InStep after)
  frame : ∀ other, other ∉ user :: first :: rest → after.node other = net.node other

/-- **Retrieval along a path of any length.**  A user asks for a name.  From the user's first hop
on, each relay has a route for the name to the next one, keys for its neighbours, room in its
tables, and counters in step; the last node has stored a content; and the hop limits let the
INTEREST through.  Then the deliveries of the INTEREST down the path and of the DATA up again, two
for each relay and one for the producer, bring the content to the user, who accepts it, with one hop
for each relay; all relays have stored it, all neighbours are in step again, and nobody else has
changed. -/
theorem content_retrieved (hmacSha256 : Key → List UInt8 → Hmac)
    (systemConfig : Mac → SystemConfig) (net : AirNetwork caps) (name content : Str)
    (hfits : Fits maxContentNameLength name) (hops : UInt8) (user first : Mac) (rest : List Mac)
    (hnodup : (user :: first :: rest).Nodup)
    (hzero : ∀ mac ∈ user :: first :: rest, mac ≠ Mac.zero)
    (huser : Consumes (systemConfig user) name first (net.node user))
    (hstep : InStep net user first)
    (hpath : PathTo systemConfig net name content hops user (first :: rest)) :
    ∃ run q, run.length = 2 * rest.length + 1 ∧ (∀ event ∈ run, event.isDelivery = true) ∧
      let ask := AirEvent.sendInterest user name first hops fun _ => .good
      let before := after (airStep hmacSha256 systemConfig) net (ask :: run)
      Retrieved hmacSha256 systemConfig net before
        (airStep hmacSha256 systemConfig before (.deliver q user .good)).2 name content user first
        rest q := by
  -- the user is off the path: what it does leaves the path in place, and the other way round
  obtain ⟨huserOff, htail⟩ := List.nodup_cons.mp hnodup
  have hfirst : first ≠ user := fun heq => huserOff (heq ▸ List.mem_cons_self)
  -- the user asks
  obtain ⟨p, m, hp, hinterest, hask, huser₁, hframe₁⟩ := huser.ask hfits hops
    (hzero first (List.mem_cons_of_mem _ List.mem_cons_self)) hfirst hstep.1
  generalize hnet₁ : (airStep hmacSha256 systemConfig net
    (.sendInterest user name first hops fun _ => .good)).2 = net₁ at hp huser₁ hframe₁
  have hpath₁ := hpath.congr fun mac hmac => hframe₁ mac fun heq => huserOff (heq ▸ hmac)
  -- the ask used the counter towards the first hop; the one back is untouched
  have hback₁ : Follows net₁ first user := by
    refine ⟨?_, ?_⟩
    · rw [hframe₁ first hfirst, huser₁]
      exact hstep.2.key_eq.trans (hask.keyFor rfl rfl first).symm
    · rw [hframe₁ first hfirst, huser₁]
      dsimp only
      rw [hask.record_self]
      exact hstep.2.counter_eq
  -- the path answers
  obtain ⟨run, q, hlength, hdeliveries, hanswered⟩ := path_answers hpath₁ hnodup hzero hp hinterest
    hback₁
  refine ⟨run, q, hlength, hdeliveries, ?_⟩
  intro ask before
  have hbefore : before = after (airStep hmacSha256 systemConfig) net₁ run := by
    show after _ (airStep hmacSha256 systemConfig net ask).2 run = _
    rw [hnet₁]
  rw [← hbefore] at hanswered
  -- and the user takes the answer
  have huser₂ : before.node user = { net.node user with peerCounterManager := m } :=
    (hanswered.frame user huserOff).trans huser₁
  have hconsumes : Consumes (systemConfig user) name first (before.node user) := by
    rw [huser₂]
    exact huser.asked hask
  obtain ⟨haccepted, m', htake, huser₃, hframe₃⟩ := hconsumes.take hanswered.onItsWay
    hanswered.reads
  generalize (airStep hmacSha256 systemConfig before (.deliver q user .good)).2 = net₃
    at huser₃ hframe₃
  rw [huser₂] at htake huser₃
  -- the last delivery is to the user, and the path stays as it answered
  have hpathSame : ∀ mac ∈ first :: rest, net₃.node mac = before.node mac :=
    fun mac hmac => hframe₃ mac fun heq => huserOff (heq ▸ hmac)
  constructor
  case inFlight =>
    exact ⟨hanswered.onItsWay.inFlight, hanswered.onItsWay.senderMac_eq,
      hanswered.onItsWay.txAddress_eq⟩
  case reads => exact hanswered.reads
  case text_eq => exact hanswered.text_eq
  case accepted => exact haccepted
  case stored =>
    intro relay hrelay
    rw [hpathSame relay (List.mem_of_mem_dropLast hrelay)]
    exact hanswered.stored relay hrelay
  case inStep =>
    -- the link of the user: one INTEREST out, one DATA in
    refine List.isChain_cons_cons.mpr ⟨hstep.exchanged ?_ ?_, ?_⟩
    · rw [huser₃]
      exact exchanged_of_ask_take hask htake
    · rw [hpathSame first List.mem_cons_self, ← hframe₁ first hfirst]
      exact hanswered.exchanged
    · refine hanswered.inStep.imp_of_mem_imp fun a b ha hb hab => ?_
      exact ⟨hab.1.congr (hpathSame a ha) (hpathSame b hb),
        hab.2.congr (hpathSame b hb) (hpathSame a ha)⟩
  case frame =>
    intro other hother
    obtain ⟨huserNe, hpathOff⟩ := not_or.mp (fun h => hother (List.mem_cons.mpr h))
    rw [hframe₃ other huserNe, hanswered.frame other hpathOff, hframe₁ other huserNe]

/-- A user, a relay and a producer. -/
def pathMac (n : Fin 3) : Mac := List.Vector.replicate _ (UInt8.ofNat (n.val + 1))

/-- The nodes after their boots, with one default key; the relay has a route for /a, and the
producer a reading. -/
def pathNode (mac : Mac) : ESP_NOWController oneRoute :=
  let c := ESP_NOWController.boot _ (.hmacWith Key.zero)
  let name := ascii ['/', 'a']
  if mac = pathMac 1 then c.initFIBEntry (.hmacWith Key.zero) name (addressToString (pathMac 2))
  else if mac = pathMac 2 then c.sendSensorData name (ascii ['2', '1']) 0 (some false)
  else c

def pathNetwork : AirNetwork fun _ => oneRoute where
  node := pathNode
  inFlight := 0
  sent := []
  delivered := []

theorem sound_sendSensorData {caps : BuildCapacity} {c : ESP_NOWController caps}
    (h : c.node.csRepository.Sound) (contentName content : Str) (hopCount : UInt8)
    (alloc : Option Bool) :
    (c.sendSensorData contentName content hopCount alloc).node.csRepository.Sound := (h.save _ _).1

theorem pathTo_reading : PathTo (fun _ => .hmacWith Key.zero) pathNetwork (ascii ['/', 'a'])
    (ascii ['2', '1']) 0 (pathMac 0) [pathMac 1, pathMac 2] := by
  -- one relay and the producer; what evaluates is decided, the rest are its invariants from boot on
  refine .relay (by decide) ⟨?ready, by decide +kernel, ?room⟩
    ⟨⟨by decide +kernel, by decide +kernel⟩, by decide +kernel, by decide +kernel⟩
    (.producer (by decide) ⟨?ready', ?sound, by decide +kernel⟩)
  case ready =>
    constructor <;> decide +kernel
  case ready' =>
    constructor <;> decide +kernel
  case room =>
    have hrelay : pathNode (pathMac 1)
        = (ESP_NOWController.boot oneRoute (.hmacWith Key.zero)).initFIBEntry (.hmacWith Key.zero)
          (ascii ['/', 'a']) (addressToString (pathMac 2)) := by
      unfold pathNode
      exact if_pos rfl
    show RoomFor _ (pathNode (pathMac 1)).node
    rw [hrelay]
    exact ⟨LRUContentStore.sound_init, by decide +kernel, by decide +kernel, by decide +kernel,
      emptyPit_init.wf, by decide +kernel, by decide +kernel, by decide⟩
  case sound =>
    have hproducer : pathNode (pathMac 2)
        = (ESP_NOWController.boot oneRoute (.hmacWith Key.zero)).sendSensorData (ascii ['/', 'a'])
          (ascii ['2', '1']) 0 (some false) := by
      unfold pathNode
      exact (if_neg (by decide)).trans (if_pos rfl)
    show (pathNode (pathMac 2)).node.csRepository.Sound
    rw [hproducer]
    exact sound_sendSensorData LRUContentStore.sound_init _ _ _ _

/-- The user gets the reading over one relay. -/
theorem content_retrieved_one_relay :
    let name := ascii ['/', 'a']
    ∃ run q, run.length = 2 * 1 + 1 ∧ (∀ event ∈ run, event.isDelivery = true) ∧
      let ask := AirEvent.sendInterest (pathMac 0) name (pathMac 1) 0 fun _ => .good
      let config : Mac → SystemConfig := fun _ => .hmacWith Key.zero
      let before := after (airStep checksum config) pathNetwork (ask :: run)
      Retrieved checksum config pathNetwork before
        (airStep checksum config before (.deliver q (pathMac 0) .good)).2 name
        (ascii ['2', '1']) (pathMac 0) (pathMac 1) [pathMac 2] q := by
  intro name
  have huser : Consumes (.hmacWith Key.zero) name (pathMac 1) (pathNetwork.node (pathMac 0)) :=
    ⟨by constructor <;> decide +kernel, by decide +kernel⟩
  have hzero : ∀ mac ∈ [pathMac 0, pathMac 1, pathMac 2], mac ≠ Mac.zero :=
    List.forall_mem_cons.mpr ⟨by decide, List.forall_mem_cons.mpr ⟨by decide,
      List.forall_mem_singleton.mpr (by decide)⟩⟩
  exact content_retrieved checksum (fun _ => .hmacWith Key.zero) pathNetwork name
    (ascii ['2', '1']) ⟨by decide, by decide⟩ 0 (pathMac 0) (pathMac 1) [pathMac 2] (by decide)
    hzero huser ⟨⟨by decide +kernel, by decide +kernel⟩, by decide +kernel, by decide +kernel⟩
    pathTo_reading

end Icsn
