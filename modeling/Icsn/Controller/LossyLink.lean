import Icsn.Controller.ReplaySafety

/-!
# Icsn — two nodes and a channel that loses packets

Node A sends to node B over a channel that keeps the order of the packets and may lose any of them.
Both nodes may do anything else in between.

* **`Numbered`** — what one event of A builds for B carries the next send counters.
* **`LossyLink`** / **`linkStep`** — the two nodes and the packets on their way.
* **`Linked`** — along every run, the counters are those of a `SuccessorGate.Link`.
* **`accepts_iff_none_lost`** — the main result: a packet that arrives is accepted exactly if no
  earlier one was lost.
-/

namespace Icsn

open StepRun SuccessorGate
open ESP_NOWController (SendReport SendsOnly sendPacketToAddress sendPacketToAddresses)

/-! ## What a node builds for one peer

A send counter is used up when a packet is built and not when it gets out, so what a node builds for
a peer and what its radio takes are kept apart: the first carries every number, the second some of
them.  The fact is shown for one address of a send, by induction for the loop over the addresses,
and from there for any event of the node. -/

/-- The packets for one address, in order. -/
def packetsFor (addr : Mac) (out : List (Mac × CommunicationData)) : List CommunicationData :=
  (out.filter fun o => decide (o.1 = addr)).map Prod.snd

/-- The send counter kept for a peer. -/
def txCounterOf {caps : BuildCapacity} (mac : Mac) (c : ESP_NOWController caps) : UInt32 :=
  (c.peerCounterManager.record mac).txCounter

/-- The crypto library serves every packet the event builds. -/
def ControllerEvent.buildsOk : ControllerEvent → Bool
  | .processReceivedPacket _ _ env => decide (∀ i, (env.sends i).mdOk = true)
  | .sendPacketToAddresses _ env => decide (∀ i, (env i).mdOk = true)
  | .sendInterest _ _ _ env => decide (∀ i, (env i).mdOk = true)
  | _ => true

theorem packetsFor_append (addr : Mac) (out out' : List (Mac × CommunicationData)) :
    packetsFor addr (out ++ out') = packetsFor addr out ++ packetsFor addr out' := by
  unfold packetsFor
  rw [List.filter_append, List.map_append]

theorem packetsFor_singleton (addr addr' : Mac) (packet : CommunicationData) :
    packetsFor addr [(addr', packet)] = if addr' = addr then [packet] else [] := by
  unfold packetsFor
  by_cases h : addr' = addr <;> simp [h]

theorem mem_packetsFor {addr : Mac} {out : List (Mac × CommunicationData)}
    {packet : CommunicationData} : packet ∈ packetsFor addr out ↔ (addr, packet) ∈ out := by
  unfold packetsFor
  rw [List.mem_map]
  constructor
  · intro ⟨o, ho, heq⟩
    obtain ⟨hmem, haddr⟩ := List.mem_filter.mp ho
    rwa [← of_decide_eq_true haddr, ← heq]
  · exact fun h => ⟨_, List.mem_filter.mpr ⟨h, decide_eq_true rfl⟩, rfl⟩

/-- The packets built for `addr` carry the next counters, and those sent are some of them. -/
structure Numbered {caps : BuildCapacity} (addr : Mac) (c c' : ESP_NOWController caps)
    (built sent : List (Mac × CommunicationData)) : Prop where
  counters : Consecutive (· + 1) (txCounterOf addr c)
    ((packetsFor addr built).map CommunicationData.counter) (txCounterOf addr c')
  sent_sublist : (packetsFor addr sent).Sublist (packetsFor addr built)

section Numbers

variable {caps : BuildCapacity} {hmacSha256 : Key → List UInt8 → Hmac}
  {systemConfig : SystemConfig} {addr : Mac} {c c' : ESP_NOWController caps}
  {built sent : List (Mac × CommunicationData)}

/-- Nothing is built, and the counter stays. -/
theorem Numbered.nothing (h : txCounterOf addr c' = txCounterOf addr c) :
    Numbered addr c c' [] [] where
  counters := by
    rw [h]
    exact .nil
  sent_sublist := .refl _

theorem Numbered.append {c'' : ESP_NOWController caps}
    {built' sent' : List (Mac × CommunicationData)} (h : Numbered addr c c' built sent)
    (h' : Numbered addr c' c'' built' sent') :
    Numbered addr c c'' (built ++ built') (sent ++ sent') where
  counters := by
    rw [packetsFor_append, List.map_append]
    exact h.counters.append h'.counters
  sent_sublist := by
    rw [packetsFor_append, packetsFor_append]
    exact h.sent_sublist.append h'.sent_sublist

/-- One packet is built, and sent or not. -/
theorem Numbered.packet {addr' : Mac} {packet : CommunicationData}
    (hset : PeerCounterManager.RecordSet addr'
      { c.peerCounterManager.record addr' with
        txCounter := (c.peerCounterManager.record addr').txCounter + 1 }
      c.peerCounterManager c'.peerCounterManager)
    (hcounter : packet.counter = (c.peerCounterManager.record addr').txCounter + 1)
    (hsent : sent.Sublist [(addr', packet)]) :
    Numbered addr c c' [(addr', packet)] sent where
  counters := by
    rw [packetsFor_singleton]
    unfold txCounterOf
    by_cases haddr : addr' = addr
    · subst haddr
      rw [if_pos rfl, hset.record_self, List.map_singleton, hcounter]
      exact .snoc .nil
    · rw [if_neg haddr, hset.record_ne addr (Ne.symm haddr)]
      exact .nil
  sent_sublist := (hsent.filter _).map _

/-- **One address** of a send. -/
theorem Numbered.step {acc : SendReport × ESP_NOWController caps}
    (h : Numbered addr c acc.2 acc.1.built acc.1.sent)
    (hkey : (acc.2.peerCounterManager.keyFor addr).isSome = true) (data : ESP_NOWControlData)
    (addr' : Mac) {env : SendEnv} (hmd : env.mdOk = true) :
    let r := sendPacketToAddress hmacSha256 systemConfig data addr' env acc
    Numbered addr c r.2 r.1.built r.1.sent := by
  obtain ⟨report, c1⟩ := acc
  unfold sendPacketToAddress
  dsimp only
  by_cases hzero : addr' = Mac.zero
  · -- an empty slot of the address list is skipped
    rw [if_pos hzero]
    exact h
  · rw [if_neg hzero]
    have hbuild := ESP_NOWController.buildPacketForAddress_cases hmacSha256 addr' data env.mdOk
      c1.peerCounterManager
    revert hbuild
    obtain ⟨answer, m⟩ := ESP_NOWController.buildPacketForAddress hmacSha256 addr' data true
      env.mdOk c1.peerCounterManager
    dsimp only
    rintro (⟨-, heq⟩ | ⟨-, hset, ⟨hnot, rfl⟩ | ⟨packet, rfl, -, hcounter⟩⟩)
    · -- no slot: no counter is used
      obtain ⟨rfl, rfl⟩ := Prod.mk.inj heq
      exact h
    · -- no key: this cannot be the address in question
      have hne : addr ≠ addr' := fun haddr => hnot ⟨hmd, haddr ▸ hkey⟩
      have hstays : Numbered addr c1 { c1 with peerCounterManager := m } [] [] :=
        .nothing (congrArg PeerCounter.txCounter (hset.record_ne addr hne))
      have happ := h.append hstays
      rw [List.append_nil, List.append_nil] at happ
      exact happ
    · -- a packet is built, whether the radio then takes it or not
      have hone : Numbered addr c1 { c1 with peerCounterManager := m } [(addr', packet)] [] :=
        .packet hset hcounter (List.nil_sublist _)
      have hunsent := h.append hone
      rw [List.append_nil] at hunsent
      dsimp only
      split
      · exact hunsent
      · split
        · exact hunsent
        · exact h.append (Numbered.packet hset hcounter (.refl _))

variable (hmacSha256 systemConfig)

/-- **A send** gives the packets for `addr` the next counters. -/
theorem numbered_sendPacketToAddresses (hkey : (c.peerCounterManager.keyFor addr).isSome = true)
    (data : ESP_NOWControlData) {env : Fin maxTxAddresses → SendEnv}
    (hmd : ∀ i, (env i).mdOk = true) :
    let r := c.sendPacketToAddresses hmacSha256 systemConfig data env
    Numbered addr c r.2 r.1.built r.1.sent := by
  have hloop : ∀ (l : List (Fin maxTxAddresses)) (acc : SendReport × ESP_NOWController caps),
      Numbered addr c acc.2 acc.1.built acc.1.sent →
      SendsOnly hmacSha256 c acc.1.built acc.2 →
      let r := l.foldl (fun acc i => sendPacketToAddress hmacSha256 systemConfig data
        (data.txAddress.get i) (env i) acc) acc
      Numbered addr c r.2 r.1.built r.1.sent := by
    intro l
    induction l with
    | nil => exact fun _ h _ => h
    | cons i l ih =>
      intro acc h hsends
      -- the loop so far has kept the key
      have hkey' : (acc.2.peerCounterManager.keyFor addr).isSome = true := by
        rw [hsends.keeps.keyFor_eq]
        exact hkey
      exact ih _ (h.step hkey' data _ (hmd i)) (hsends.step data _ (env i))
  exact hloop _ _ (.nothing rfl) (.start c)

/-- **One event** of a node with HMAC enabled gives the packets for `addr` the next counters. -/
theorem numbered_controllerStep (myMac : Mac) (henabled : c.hmacAuthenticationEnabled = true)
    (hkey : (c.peerCounterManager.keyFor addr).isSome = true) {event : ControllerEvent}
    (hbuilds : event.buildsOk = true) :
    let r := controllerStep hmacSha256 systemConfig myMac c event
    Numbered addr c r.2 r.1.built r.1.sent := by
  -- only a packet that comes in and the two kinds of sends build anything
  cases event with
  | processReceivedPacket senderMac data env =>
    -- the packet is dropped, or it is accepted and answered
    rcases ESP_NOWController.processReceivedPacket_cases hmacSha256 systemConfig myMac senderMac
      data env henabled with
      ⟨-, hsends, m, hs, heq⟩ | ⟨-, packet, -, -, -, m, answer, node, hset, heq⟩
    · unfold controllerStep
      dsimp only
      rw [hsends, heq]
      exact .nothing (congrArg PeerCounter.txCounter (hs.record_eq addr))
    · -- recording the receive counter keeps the send counter and the key
      let c1 : ESP_NOWController caps := { c with peerCounterManager := m, node }
      have htx : txCounterOf addr c1 = txCounterOf addr c := by
        show (m.record addr).txCounter = (c.peerCounterManager.record addr).txCounter
        by_cases haddr : addr = senderMac
        · rw [haddr, hset.record_self]
        · rw [hset.record_ne addr haddr]
      have hkey1 : (c1.peerCounterManager.keyFor addr).isSome = true := by
        rw [← hkey]
        exact congrArg Option.isSome (hset.keyFor rfl rfl addr)
      have hsend := numbered_sendPacketToAddresses hmacSha256 systemConfig hkey1 answer
        (of_decide_eq_true hbuilds)
      rw [← heq] at hsend
      have hstart : Numbered addr c c1 [] [] := .nothing htx
      exact hstart.append hsend
  | sendPacketToAddresses data env =>
    exact numbered_sendPacketToAddresses hmacSha256 systemConfig hkey data
      (of_decide_eq_true hbuilds)
  | sendInterest contentName targetMac hopCount env =>
    exact numbered_sendPacketToAddresses hmacSha256 systemConfig hkey _
      (of_decide_eq_true hbuilds)
  | setPeerLMK mac lmk =>
    exact .nothing ((ESP_NOWController.keepsCounters_setPeerLMK mac lmk c).txCounter_eq addr)
  | sendSensorData => exact .nothing rfl
  | setGlobalLMK => exact .nothing rfl
  | initFIBEntry => exact .nothing rfl
  | clearCSCache => exact .nothing rfl
  | clearPITCache => exact .nothing rfl

end Numbers

/-! ## The link

Only packets of A for B are on the link; what B sends and what A has for others is left out, since
no counter that the check at B reads depends on it.  The invariant has the counters of the packets
as machine words, and, as long as fewer than 2^32 were built, as the numbers of an abstract link,
for which the order of arrivals is argued in `SuccessorGate`. -/

/-- Two nodes, and the packets of the first for the second on their way, the oldest first. -/
structure LossyLink (capsA capsB : BuildCapacity) where
  a : ESP_NOWController capsA
  b : ESP_NOWController capsB
  inFlight : List CommunicationData

/-- Something happens at one of the nodes, or to a packet on its way. -/
inductive LinkEvent where
  | atA (event : ControllerEvent)
  | atB (event : ControllerEvent)
  | lose (position : Nat)
  | deliver (env : ReceiveEnv)

/-- What A built for B, and what `verifyIncomingPacket` said of a packet that got to it. -/
structure LinkReport where
  built : List CommunicationData := []
  checked : Option (CommunicationData × Bool) := none
deriving DecidableEq

/-- The packets A built for B, in order. -/
def builtIn (tr : List (LinkEvent × LinkReport)) : List CommunicationData :=
  tr.flatMap fun t => t.2.built

/-- The packets that got to `verifyIncomingPacket` at B, in order. -/
def arrivedIn (tr : List (LinkEvent × LinkReport)) : List CommunicationData :=
  tr.flatMap fun t => (t.2.checked.map Prod.fst).toList

section Link

variable {capsA capsB : BuildCapacity} (hmacSha256 : Key → List UInt8 → Hmac)
  (systemConfigA systemConfigB : SystemConfig) (macA macB : Mac) (key : Key)

/-- One event.  What the radio of A took for B is on its way; the oldest packet is delivered
first. -/
def linkStep (s : LossyLink capsA capsB) : LinkEvent → LinkReport × LossyLink capsA capsB
  | .atA event =>
    let r := controllerStep hmacSha256 systemConfigA macA s.a event
    ({ built := packetsFor macB r.1.built },
      { s with a := r.2, inFlight := s.inFlight ++ packetsFor macB r.1.sent })
  | .atB event =>
    ({}, { s with b := (controllerStep hmacSha256 systemConfigB macB s.b event).2 })
  | .lose position => ({}, { s with inFlight := s.inFlight.eraseIdx position })
  | .deliver env =>
    match s.inFlight with
    | [] => ({}, s)
    | packet :: inFlight =>
      let b := (s.b.processReceivedPacket hmacSha256 systemConfigB macB macA packet.toBytes env).2
      let verified := (ESP_NOWController.verifyIncomingPacket hmacSha256
        s.b.hmacAuthenticationEnabled macA packet env.mdOk s.b.peerCounterManager).1
      -- a packet from a sender that cannot be registered is dropped before the check
      ({ checked := if s.b.registerPeerIfNeeded systemConfigB macA env.register then
            some (packet, verified)
          else none },
        { s with b, inFlight })

/-- The nodes agree on the key, the crypto library serves them, B has a slot for A, and no one else
sends to B in A's name. -/
def Honest (s : LossyLink capsA capsB) (event : LinkEvent) : Prop :=
  s.a.peerCounterManager.keyFor macB = some key ∧ s.b.peerCounterManager.keyFor macA = some key ∧
  match event with
  | .atA event => event.buildsOk = true
  | .atB event => event.isFrom macA = false
  | .lose _ => True
  | .deliver env => env.mdOk = true ∧ s.b.peerCounterManager.HasRoom macA

instance (s : LossyLink capsA capsB) (event : LinkEvent) :
    Decidable (Honest macA macB key s event) :=
  match event with
  | .atA _ | .atB _ | .lose _ | .deliver _ => inferInstanceAs (Decidable (_ ∧ _ ∧ _))

/-- The numbers of a trace and of the state it led to. -/
def numbersOf (tr : List (LinkEvent × LinkReport)) (s : LossyLink capsA capsB) :
    SuccessorGate.Link where
  used := (builtIn tr).length
  inFlight := s.inFlight.map fun packet => packet.counter.toNat
  arrived := (arrivedIn tr).map fun packet => packet.counter.toNat
  accepted := (rxCounterOf macA s.b).toNat

/-- The counters follow one another; what is on its way and what arrived was built for B; and the
numbers are those of a link. -/
structure Linked (tr : List (LinkEvent × LinkReport)) (s : LossyLink capsA capsB) : Prop where
  enabledA : s.a.hmacAuthenticationEnabled = true
  enabledB : s.b.hmacAuthenticationEnabled = true
  counters : Consecutive (· + 1) 0 ((builtIn tr).map CommunicationData.counter)
    (txCounterOf macB s.a)
  tagged : ∀ packet ∈ s.inFlight, hmacSha256 key packet.hmacData = packet.hmac
  inFlight_built : ∀ packet ∈ s.inFlight, packet ∈ builtIn tr
  arrived_built : ∀ packet ∈ arrivedIn tr, packet ∈ builtIn tr
  numbers : (builtIn tr).length < 2 ^ 32 → (numbersOf macA tr s).Inv

end Link

/-! ## One event on the link

One lemma for each kind of event.  What builds nothing and checks nothing is `Linked.quiet`,
whatever it loses on the way; an event at A adds packets, and a delivery that gets to the check is a
delivery of the abstract link. -/

section Step

variable {capsA capsB : BuildCapacity} {hmacSha256 : Key → List UInt8 → Hmac}
  {systemConfigA systemConfigB : SystemConfig} {macA macB : Mac} {key : Key}
  {tr : List (LinkEvent × LinkReport)} {s : LossyLink capsA capsB}

@[simp] theorem builtIn_concat (tr : List (LinkEvent × LinkReport))
    (last : LinkEvent × LinkReport) : builtIn (tr ++ [last]) = builtIn tr ++ last.2.built := by
  unfold builtIn
  rw [List.flatMap_append, List.flatMap_singleton]

@[simp] theorem arrivedIn_concat (tr : List (LinkEvent × LinkReport))
    (last : LinkEvent × LinkReport) :
    arrivedIn (tr ++ [last]) = arrivedIn tr ++ (last.2.checked.map Prod.fst).toList := by
  unfold arrivedIn
  rw [List.flatMap_append, List.flatMap_singleton]

/-- The counters built so far, as numbers. -/
theorem Linked.built_numbers (h : Linked hmacSha256 macA macB key tr s)
    (hfew : (builtIn tr).length < 2 ^ 32) :
    (builtIn tr).map (fun packet => packet.counter.toNat) = List.range' 1 (builtIn tr).length ∧
      (txCounterOf macB s.a).toNat = (builtIn tr).length := by
  have hnumbers := h.counters.map_toNat UInt32.toNat
    (fun _ => PeerCounterManager.toNat_counter_succ)
    (by rw [List.length_map]; exact (Nat.zero_add _).trans_lt hfew)
  rw [List.map_map, List.length_map] at hnumbers
  exact ⟨hnumbers.1, hnumbers.2.trans (Nat.zero_add _)⟩

/-- The numbers of a trace after which nothing was built. -/
theorem numbersOf_concat {s' : LossyLink capsA capsB} (event : LinkEvent)
    (checked : Option (CommunicationData × Bool)) :
    numbersOf macA (tr ++ [(event, ({ checked } : LinkReport))]) s' =
      { used := (builtIn tr).length
        inFlight := s'.inFlight.map fun packet => packet.counter.toNat
        arrived := (arrivedIn tr).map (fun packet => packet.counter.toNat)
          ++ (checked.map Prod.fst).toList.map fun packet => packet.counter.toNat
        accepted := (rxCounterOf macA s'.b).toNat } := by
  unfold numbersOf
  rw [builtIn_concat, arrivedIn_concat, List.append_nil, List.map_append]

/-- **Nothing built, nothing checked**: packets on their way may be lost. -/
theorem Linked.quiet (h : Linked hmacSha256 macA macB key tr s) {s' : LossyLink capsA capsB}
    (event : LinkEvent) (ha : s'.a = s.a) (henabled : s'.b.hmacAuthenticationEnabled = true)
    (hrx : rxCounterOf macA s'.b = rxCounterOf macA s.b)
    (hsub : s'.inFlight.Sublist s.inFlight) :
    Linked hmacSha256 macA macB key (tr ++ [(event, ({} : LinkReport))]) s' where
  enabledA := by
    rw [ha]
    exact h.enabledA
  enabledB := henabled
  counters := by
    rw [builtIn_concat, List.append_nil, ha]
    exact h.counters
  tagged packet hpacket := h.tagged packet (hsub.subset hpacket)
  inFlight_built packet hpacket := by
    rw [builtIn_concat, List.append_nil]
    exact h.inFlight_built packet (hsub.subset hpacket)
  arrived_built := by
    rw [builtIn_concat, arrivedIn_concat, List.append_nil]
    show ∀ packet ∈ arrivedIn tr ++ [], _
    rw [List.append_nil]
    exact h.arrived_built
  numbers hfew := by
    rw [builtIn_concat, List.append_nil] at hfew
    rw [numbersOf_concat, hrx]
    show Link.Inv { used := _, inFlight := _, arrived := _ ++ [], accepted := _ }
    rw [List.append_nil]
    exact (h.numbers hfew).lose (hsub.map _)

/-- The numbers after packets are built, of which some get on their way. -/
theorem Linked.numbers_send (h : Linked hmacSha256 macA macB key tr s)
    {built sent : List CommunicationData} {last : UInt32}
    (hcounters : Consecutive (· + 1) (txCounterOf macB s.a)
      (built.map CommunicationData.counter) last)
    (hsent : sent.Sublist built) (hfew : (builtIn tr).length + built.length < 2 ^ 32) :
    Link.Inv { numbersOf macA tr s with
      used := (builtIn tr).length + built.length
      inFlight := (numbersOf macA tr s).inFlight
        ++ sent.map fun packet => packet.counter.toNat } := by
  have hold : (builtIn tr).length < 2 ^ 32 := by omega
  have htx := (h.built_numbers hold).2
  -- the new packets carry the numbers after those used before
  have hnew := (hcounters.map_toNat UInt32.toNat
    (fun _ => PeerCounterManager.toNat_counter_succ)
    (by rw [List.length_map, htx]; exact hfew)).1
  rw [List.map_map, List.length_map, htx] at hnew
  have hsub : (sent.map fun packet => packet.counter.toNat).Sublist
      (List.range' ((builtIn tr).length + 1) built.length) := hnew ▸ hsent.map _
  exact (h.numbers hold).steps (Link.steps_sends built.length (numbersOf macA tr s) _ hsub)

/-- **At A**: what is built takes the next numbers, and some of it gets on its way. -/
theorem Linked.atA (h : Linked hmacSha256 macA macB key tr s) {event : ControllerEvent}
    (hhonest : Honest macA macB key s (.atA event)) :
    let r := linkStep hmacSha256 systemConfigA systemConfigB macA macB s (.atA event)
    Linked hmacSha256 macA macB key (tr ++ [(.atA event, r.1)]) r.2 := by
  obtain ⟨hkey, -, hbuilds⟩ := hhonest
  obtain ⟨henabled, -, htagged⟩ :=
    controllerStep_keeps hmacSha256 systemConfigA macA h.enabledA event
  have hnumbered := numbered_controllerStep hmacSha256 systemConfigA macA h.enabledA
    (by rw [hkey]; rfl) hbuilds
  unfold linkStep
  dsimp only
  revert henabled htagged hnumbered
  obtain ⟨report, a⟩ := controllerStep hmacSha256 systemConfigA macA s.a event
  intro henabled htagged hnumbered
  dsimp only at henabled htagged hnumbered ⊢
  -- what is on its way now was so before, or has just been built
  have hsent : ∀ packet ∈ s.inFlight ++ packetsFor macB report.sent,
      packet ∈ s.inFlight ∨ packet ∈ packetsFor macB report.built := fun packet hpacket =>
    (List.mem_append.mp hpacket).imp_right fun hnew => hnumbered.sent_sublist.subset hnew
  refine ⟨henabled, h.enabledB, ?_, ?_, ?_, ?_, ?_⟩
  · -- the counters go on where they were
    rw [builtIn_concat, List.map_append]
    exact h.counters.append hnumbered.counters
  · -- a new packet has the HMAC under the key that A keeps for B
    intro packet hpacket
    rcases hsent packet hpacket with hold | hnew
    · exact h.tagged packet hold
    · obtain ⟨key', hkey', htag⟩ := htagged _ (mem_packetsFor.mp hnew)
      rw [hkey] at hkey'
      rwa [← Option.some.inj hkey'] at htag
  · intro packet hpacket
    rw [builtIn_concat]
    exact List.mem_append.mpr ((hsent packet hpacket).imp_left (h.inFlight_built packet))
  · intro packet hpacket
    rw [arrivedIn_concat] at hpacket
    rw [builtIn_concat]
    exact List.mem_append_left _ (h.arrived_built packet (by simpa using hpacket))
  · intro hfew
    rw [builtIn_concat, List.length_append] at hfew
    have hinv := h.numbers_send hnumbered.counters hnumbered.sent_sublist hfew
    unfold numbersOf at hinv ⊢
    rw [builtIn_concat, arrivedIn_concat, List.length_append, List.map_append]
    simpa using hinv

/-- **At B**: what does not come from A leaves A's counter alone. -/
theorem Linked.atB (h : Linked hmacSha256 macA macB key tr s) {event : ControllerEvent}
    (hhonest : Honest macA macB key s (.atB event)) :
    let r := linkStep hmacSha256 systemConfigA systemConfigB macA macB s (.atB event)
    Linked hmacSha256 macA macB key (tr ++ [(.atB event, r.1)]) r.2 := by
  have henabled := (controllerStep_keeps hmacSha256 systemConfigB macB h.enabledB event).1
  have hrx := rxCounterOf_controllerStep hmacSha256 systemConfigB macB h.enabledB hhonest.2.2
  exact h.quiet _ rfl henabled hrx (.refl _)

/-- **A loss.** -/
theorem Linked.lose (h : Linked hmacSha256 macA macB key tr s) (position : Nat) :
    let r := linkStep hmacSha256 systemConfigA systemConfigB macA macB s (.lose position)
    Linked hmacSha256 macA macB key (tr ++ [(.lose position, r.1)]) r.2 :=
  h.quiet _ rfl h.enabledB rfl (List.eraseIdx_sublist s.inFlight position)

section Deliver

variable {packet : CommunicationData} {inFlight : List CommunicationData} {env : ReceiveEnv}

/-- The number of the next packet. -/
theorem inFlight_numbersOf (hnext : s.inFlight = packet :: inFlight) :
    (numbersOf macA tr s).inFlight = packet.counter.toNat
      :: inFlight.map fun packet => packet.counter.toNat := by
  show s.inFlight.map _ = _
  rw [hnext, List.map_cons]

/-- The packet that arrives next passes if its number is the one after the last number accepted. -/
theorem Linked.verified_iff (h : Linked hmacSha256 macA macB key tr s)
    (hfew : (builtIn tr).length < 2 ^ 32) (hnext : s.inFlight = packet :: inFlight)
    (hhonest : Honest macA macB key s (.deliver env)) :
    (ESP_NOWController.verifyIncomingPacket hmacSha256 s.b.hmacAuthenticationEnabled macA packet
        env.mdOk s.b.peerCounterManager).1 = true
      ↔ packet.counter.toNat = (rxCounterOf macA s.b).toNat + 1 := by
  obtain ⟨-, hkey, hmd, hroom⟩ := hhonest
  have hmem : packet ∈ s.inFlight := by
    rw [hnext]
    exact List.mem_cons_self
  -- a counter on its way is never 0, so the successor at B does not wrap onto it
  have hpos : 0 < packet.counter.toNat :=
    (h.numbers hfew).pos _ (List.mem_map_of_mem hmem)
  rw [h.enabledB, ← PeerCounterManager.eq_counter_succ_iff hpos]
  rcases ESP_NOWController.verifyIncomingPacket_cases hmacSha256 macA packet env.mdOk
    s.b.peerCounterManager with ⟨hnot, hfst, -⟩ | ⟨hpasses, hfst, -⟩
  · -- all but the counter is in order
    rw [hfst]
    exact iff_of_false (by decide)
      fun hcounter => hnot ⟨hroom, hmd, ⟨key, hkey, h.tagged packet hmem⟩, hcounter⟩
  · exact iff_of_true hfst hpasses.2.2.2

/-- B's counter after a packet of A is received. -/
theorem rxCounterOf_deliver (henabled : s.b.hmacAuthenticationEnabled = true) :
    rxCounterOf macA
        (s.b.processReceivedPacket hmacSha256 systemConfigB macB macA packet.toBytes env).2
      = rxCounterOf macA s.b
        + if s.b.registerPeerIfNeeded systemConfigB macA env.register = true ∧
            (ESP_NOWController.verifyIncomingPacket hmacSha256 s.b.hmacAuthenticationEnabled macA
              packet env.mdOk s.b.peerCounterManager).1 = true then 1 else 0 := by
  have hrx := ESP_NOWController.rxCounter_processReceivedPacket hmacSha256 systemConfigB macB macA
    packet.toBytes env henabled macA
  have hprocessed := ESP_NOWController.processed_eq hmacSha256 systemConfigB macB macA
    (CommunicationData.decode?_toBytes packet) env henabled
  dsimp only at hrx
  rw [hprocessed] at hrx
  rw [henabled]
  refine hrx.trans ?_
  simp only [true_and, Bool.and_eq_true]
  rfl

/-- **The check** of the next packet is a delivery of the link. -/
theorem Linked.checked (h : Linked hmacSha256 macA macB key tr s)
    (hnext : s.inFlight = packet :: inFlight) (hhonest : Honest macA macB key s (.deliver env))
    (hregister : s.b.registerPeerIfNeeded systemConfigB macA env.register = true) :
    Linked hmacSha256 macA macB key
      (tr ++ [(.deliver env, ({ checked := some (packet,
        (ESP_NOWController.verifyIncomingPacket hmacSha256 s.b.hmacAuthenticationEnabled macA
          packet env.mdOk s.b.peerCounterManager).1) } : LinkReport))])
      { s with
        b := (s.b.processReceivedPacket hmacSha256 systemConfigB macB macA packet.toBytes env).2
        inFlight } where
  enabledA := h.enabledA
  enabledB := (ESP_NOWController.processReceivedPacket_keeps hmacSha256 systemConfigB macB macA
    packet.toBytes env h.enabledB).1
  counters := by
    rw [builtIn_concat, List.append_nil]
    exact h.counters
  tagged q hq := h.tagged q (hnext ▸ List.mem_cons_of_mem packet hq)
  inFlight_built q hq := by
    rw [builtIn_concat, List.append_nil]
    exact h.inFlight_built q (hnext ▸ List.mem_cons_of_mem packet hq)
  arrived_built q hq := by
    rw [arrivedIn_concat] at hq
    rw [builtIn_concat, List.append_nil]
    rcases List.mem_append.mp hq with hold | hnew
    · exact h.arrived_built q hold
    · rw [List.mem_singleton.mp hnew]
      exact h.inFlight_built packet (hnext ▸ List.mem_cons_self)
  numbers hfew := by
    rw [builtIn_concat, List.append_nil] at hfew
    have hverified := h.verified_iff hfew hnext hhonest
    have hrx : rxCounterOf macA (s.b.processReceivedPacket hmacSha256 systemConfigB macB macA
        packet.toBytes env).2 = _ := rxCounterOf_deliver h.enabledB
    -- B's new counter is what the link takes
    have haccepted : (rxCounterOf macA (s.b.processReceivedPacket hmacSha256 systemConfigB macB macA
        packet.toBytes env).2).toNat = (numbersOf macA tr s).take packet.counter.toNat := by
      unfold Link.take
      show _ = if packet.counter.toNat = (rxCounterOf macA s.b).toNat + 1 then _ else
        (rxCounterOf macA s.b).toNat
      by_cases hpass : packet.counter.toNat = (rxCounterOf macA s.b).toNat + 1
      · rw [hrx, if_pos ⟨hregister, hverified.mpr hpass⟩, if_pos hpass, hpass]
        exact PeerCounterManager.toNat_counter_succ (hpass ▸ packet.counter.toNat_lt)
      · rw [hrx, if_neg (fun h => hpass (hverified.mp h.2)), if_neg hpass, UInt32.add_zero]
    rw [numbersOf_concat, haccepted]
    exact (h.numbers hfew).deliver (inFlight_numbersOf hnext)

/-- **A delivery** is one of the link, or a loss where A cannot be registered at B. -/
theorem Linked.deliver (h : Linked hmacSha256 macA macB key tr s)
    (hhonest : Honest macA macB key s (.deliver env)) :
    let r := linkStep hmacSha256 systemConfigA systemConfigB macA macB s (.deliver env)
    Linked hmacSha256 macA macB key (tr ++ [(.deliver env, r.1)]) r.2 := by
  unfold linkStep
  cases hnext : s.inFlight with
  -- nothing is on its way
  | nil => exact h.quiet _ rfl h.enabledB rfl (.refl _)
  | cons packet inFlight =>
    dsimp only
    cases hregister : s.b.registerPeerIfNeeded systemConfigB macA env.register with
    | true =>
      rw [if_pos rfl]
      exact h.checked hnext hhonest hregister
    | false =>
      -- the packet is dropped before the check, which is a loss to the link
      have henabled := (ESP_NOWController.processReceivedPacket_keeps hmacSha256 systemConfigB macB
        macA packet.toBytes env h.enabledB).1
      have hrx : rxCounterOf macA (s.b.processReceivedPacket hmacSha256 systemConfigB macB macA
          packet.toBytes env).2 = _ := rxCounterOf_deliver h.enabledB
      rw [hregister, if_neg (fun h => absurd h.1 (by decide)), UInt32.add_zero] at hrx
      rw [if_neg (by decide)]
      exact h.quiet _ rfl henabled hrx (hnext ▸ List.sublist_cons_self packet inFlight)

end Deliver

/-- A packet is checked when the oldest one is delivered. -/
theorem deliver_of_checked {event : LinkEvent} {packet : CommunicationData} {accepted : Bool}
    (hchecked : (linkStep hmacSha256 systemConfigA systemConfigB macA macB s event).1.checked
      = some (packet, accepted)) :
    ∃ env inFlight, event = .deliver env ∧ s.inFlight = packet :: inFlight ∧
      accepted = (ESP_NOWController.verifyIncomingPacket hmacSha256 s.b.hmacAuthenticationEnabled
        macA packet env.mdOk s.b.peerCounterManager).1 := by
  cases event with
  | atA => cases hchecked
  | atB => cases hchecked
  | lose => cases hchecked
  | deliver env =>
    unfold linkStep at hchecked
    cases hnext : s.inFlight with
    | nil =>
      rw [hnext] at hchecked
      cases hchecked
    | cons first inFlight =>
      rw [hnext] at hchecked
      dsimp only at hchecked
      split at hchecked
      · obtain ⟨rfl, rfl⟩ := Prod.mk.inj (Option.some.inj hchecked)
        exact ⟨env, inFlight, rfl, rfl, rfl⟩
      · cases hchecked

/-- **What is accepted next**: the next packet passes exactly if all packets built before it arrived
before it. -/
theorem Linked.verified_iff_arrived (h : Linked hmacSha256 macA macB key tr s)
    (hfew : (builtIn tr).length < 2 ^ 32) {packet : CommunicationData}
    {inFlight : List CommunicationData} (hnext : s.inFlight = packet :: inFlight) {env : ReceiveEnv}
    (hhonest : Honest macA macB key s (.deliver env)) :
    (ESP_NOWController.verifyIncomingPacket hmacSha256 s.b.hmacAuthenticationEnabled macA packet
        env.mdOk s.b.peerCounterManager).1 = true
      ↔ ∀ earlier ∈ builtIn tr, earlier.counter < packet.counter → earlier ∈ arrivedIn tr := by
  have hnumbers := (h.built_numbers hfew).1
  have hmem : packet ∈ builtIn tr := h.inFlight_built packet (hnext ▸ List.mem_cons_self)
  -- a built packet is known by its number
  have hrange : ∀ q ∈ builtIn tr, q.counter.toNat ∈ List.range' 1 (builtIn tr).length :=
    fun q hq => hnumbers ▸ List.mem_map_of_mem hq
  have hinj : ∀ q ∈ builtIn tr, ∀ q' ∈ builtIn tr, q.counter.toNat = q'.counter.toNat → q = q' := by
    have hnodup : ((builtIn tr).map fun packet => packet.counter.toNat).Nodup := by
      rw [hnumbers]
      exact List.nodup_range'
    exact fun q hq q' hq' => List.inj_on_of_nodup_map hnodup hq hq'
  rw [h.verified_iff hfew hnext hhonest]
  refine ((h.numbers hfew).next_iff (inFlight_numbersOf hnext)).trans ⟨?_, ?_⟩
  · intro hall q hq hlt
    have hpos := List.mem_range'_1.mp (hrange q hq)
    obtain ⟨q', hq', heq⟩ := List.mem_map.mp
      (hall q.counter.toNat (by omega) (UInt32.lt_iff_toNat_lt.mp hlt))
    rwa [← hinj q' (h.arrived_built q' hq') q hq heq]
  · intro hall j hpos hj
    -- some built packet has this number
    have hle := List.mem_range'_1.mp (hrange packet hmem)
    have hbuilt : j ∈ (builtIn tr).map fun packet => packet.counter.toNat := by
      rw [hnumbers]
      exact List.mem_range'_1.mpr ⟨hpos, by omega⟩
    obtain ⟨q, hq, rfl⟩ := List.mem_map.mp hbuilt
    exact List.mem_map_of_mem (hall q hq (UInt32.lt_iff_toNat_lt.mpr hj))

/-- **One event** keeps the two nodes linked. -/
theorem Linked.step (h : Linked hmacSha256 macA macB key tr s) (event : LinkEvent)
    (hhonest : Honest macA macB key s event) :
    let r := linkStep hmacSha256 systemConfigA systemConfigB macA macB s event
    Linked hmacSha256 macA macB key (tr ++ [(event, r.1)]) r.2 := by
  cases event with
  | atA event => exact h.atA hhonest
  | atB event => exact h.atB hhonest
  | lose position => exact h.lose position
  | deliver env => exact h.deliver hhonest

end Step

/-! ## Runs of the link

The invariant holds at the start for nodes that have not heard of each other, and after any run by
`trace_invariant`.  The main result reads it off at the moment of one delivery, which splits the run
in two. -/

section Runs

variable {capsA capsB : BuildCapacity} (hmacSha256 : Key → List UInt8 → Hmac)
  (systemConfigA systemConfigB : SystemConfig) (macA macB : Mac) (key : Key)

/-- Two nodes with HMAC enabled that have not yet heard of each other, and nothing on its way. -/
structure FreshLink (s : LossyLink capsA capsB) : Prop where
  enabledA : s.a.hmacAuthenticationEnabled = true
  enabledB : s.b.hmacAuthenticationEnabled = true
  txCounter_eq : txCounterOf macB s.a = 0
  rxCounter_eq : rxCounterOf macA s.b = 0
  inFlight_eq : s.inFlight = []

variable {macA macB} in
theorem FreshLink.linked {s : LossyLink capsA capsB} (h : FreshLink macA macB s) :
    Linked hmacSha256 macA macB key [] s where
  enabledA := h.enabledA
  enabledB := h.enabledB
  counters := by
    rw [h.txCounter_eq]
    exact .nil
  tagged packet hpacket := by
    rw [h.inFlight_eq] at hpacket
    exact absurd hpacket List.not_mem_nil
  inFlight_built packet hpacket := by
    rw [h.inFlight_eq] at hpacket
    exact absurd hpacket List.not_mem_nil
  arrived_built _ hpacket := absurd hpacket List.not_mem_nil
  numbers _ := by
    unfold numbersOf
    rw [h.inFlight_eq, h.rxCounter_eq]
    exact Link.inv_start

variable {macA macB} in
/-- **Along every run** of honest nodes the link holds. -/
theorem linked_run {start : LossyLink capsA capsB} (hfresh : FreshLink macA macB start)
    (run : List LinkEvent)
    (hhonest : Along (linkStep hmacSha256 systemConfigA systemConfigB macA macB)
      (Honest macA macB key) start run) :
    let step := linkStep hmacSha256 systemConfigA systemConfigB macA macB
    Linked hmacSha256 macA macB key (trace step start run) (after step start run) :=
  trace_invariant (fun _ _ event h hevent => h.step event hevent)
    (hfresh.linked hmacSha256 key) run hhonest

/-- **Losses.**  Two nodes with HMAC enabled and agreeing keys, fresh to each other; fewer than 2^32
packets built.  The packets built for B are numbered 1, 2, 3, …; and one of them that gets to
`verifyIncomingPacket` at B is accepted exactly if every packet built before it got there before. -/
theorem accepts_iff_none_lost (start : LossyLink capsA capsB) (hfresh : FreshLink macA macB start)
    (run : List LinkEvent)
    (hhonest : Along (linkStep hmacSha256 systemConfigA systemConfigB macA macB)
      (Honest macA macB key) start run)
    (hfew : (builtIn (trace (linkStep hmacSha256 systemConfigA systemConfigB macA macB) start
      run)).length < 2 ^ 32) :
    let step := linkStep hmacSha256 systemConfigA systemConfigB macA macB
    (builtIn (trace step start run)).map (fun packet => packet.counter.toNat)
      = List.range' 1 (builtIn (trace step start run)).length ∧
    ∀ pre event post packet accepted, run = pre ++ event :: post →
      (step (after step start pre) event).1.checked = some (packet, accepted) →
      let built := builtIn (trace step start pre)
      packet ∈ built ∧
      (accepted = true ↔ ∀ earlier ∈ built, earlier.counter < packet.counter →
        earlier ∈ arrivedIn (trace step start pre)) := by
  intro step
  have hlinked := linked_run hmacSha256 systemConfigA systemConfigB key hfresh
  refine ⟨((hlinked run hhonest).built_numbers hfew).1, ?_⟩
  intro pre event post packet accepted hrun hchecked
  obtain ⟨hpre, hevent, -⟩ := (along_append _ _ start pre (event :: post)).mp (hrun ▸ hhonest)
  obtain ⟨env, inFlight, rfl, hnext, rfl⟩ := deliver_of_checked hchecked
  have hlink := hlinked pre hpre
  -- the run up to here has built no more than the whole run
  have hfewPre : (builtIn (trace step start pre)).length < 2 ^ 32 := by
    refine Nat.lt_of_le_of_lt ?_ hfew
    rw [hrun, trace_append]
    unfold builtIn
    rw [List.flatMap_append, List.length_append]
    exact Nat.le_add_right _ _
  exact ⟨hlink.inFlight_built packet (hnext ▸ List.mem_cons_self),
    hlink.verified_iff_arrived hfewPre hnext hevent⟩

end Runs

/-- Two nodes after their boots, with one default key. -/
def bootedLink : LossyLink (.uniform 4 (by decide)) (.uniform 4 (by decide)) where
  a := ESP_NOWController.boot _ (.hmacWith Key.zero)
  b := ESP_NOWController.boot _ (.hmacWith Key.zero)
  inFlight := []

theorem freshLink_booted (macA macB : Mac) : FreshLink macA macB bootedLink where
  enabledA := ESP_NOWController.hmacEnabled_boot _
  enabledB := ESP_NOWController.hmacEnabled_boot _
  txCounter_eq := (ESP_NOWController.counters_boot _ macB).1
  rxCounter_eq := (ESP_NOWController.counters_boot _ macA).2
  inFlight_eq := rfl

/-- Node 1 sends three INTERESTs to node 2, of which the second is lost. -/
theorem accepts_iff_none_lost_second :
    let step := linkStep checksum (.hmacWith Key.zero) (.hmacWith Key.zero)
      (List.Vector.replicate _ 1) (List.Vector.replicate _ 2)
    let send := LinkEvent.atA
      (.sendInterest (ascii ['/', 'a']) (List.Vector.replicate _ 2) 0 fun _ => .good)
    let run := [send, send, .deliver .good, send, .lose 0, .deliver .good]
    let built := builtIn (trace step bootedLink run)
    built.length = 3 ∧
    built.map (fun packet => packet.counter.toNat) = List.range' 1 built.length ∧
    ∀ pre event post packet accepted, run = pre ++ event :: post →
      (step (after step bootedLink pre) event).1.checked = some (packet, accepted) →
      let built := builtIn (trace step bootedLink pre)
      packet ∈ built ∧
      (accepted = true ↔ ∀ earlier ∈ built, earlier.counter < packet.counter →
        earlier ∈ arrivedIn (trace step bootedLink pre)) := by
  intro step send run built
  have hlen : built.length = 3 := by decide +kernel
  exact ⟨hlen, accepts_iff_none_lost checksum (.hmacWith Key.zero) (.hmacWith Key.zero)
    (List.Vector.replicate _ 1) (List.Vector.replicate _ 2) Key.zero bootedLink
    (freshLink_booted _ _) run (by decide +kernel) (by rw [show _ = 3 from hlen]; decide)⟩

/-- Node 1 sends two INTERESTs to node 2; the first is lost, and the second is not accepted. -/
theorem not_every_arrival_accepted :
    let macA : Mac := List.Vector.replicate _ 1
    let macB : Mac := List.Vector.replicate _ 2
    let step := linkStep checksum (.hmacWith Key.zero) (.hmacWith Key.zero) macA macB
    ¬ ∀ run : List LinkEvent, Along step (Honest macA macB Key.zero) bootedLink run →
      (builtIn (trace step bootedLink run)).length < 2 ^ 32 →
      ∀ report ∈ outputs step bootedLink run, ∀ packet accepted,
        report.checked = some (packet, accepted) → accepted = true := by
  intro macA macB step hall
  have h := hall [.atA (.sendInterest (ascii ['/', 'a']) macB 0 fun _ => .good), .lose 0,
    .atA (.sendInterest (ascii ['/', 'a']) macB 0 fun _ => .good), .deliver .good]
    (by decide +kernel) (by decide +kernel)
    { checked := some (interestPacket Key.zero (ascii ['/', 'a']) 2, false) } (by decide +kernel)
    _ _ rfl
  cases h

end Icsn
