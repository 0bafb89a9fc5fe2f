import Icsn.Controller.ConfiguredRoutes
import Icsn.Controller.SourceAuthentication
import Icsn.DataAccess.CacheTotals
import Icsn.UseCase.CachedAnswers
import Icsn.UseCase.PendingRequesters

/-!
# Icsn — where messages come from

The network of `SourceAuthentication`, with an adversary who delivers what it likes, and with nodes
that may reboot at any time.  A message goes from node to node in packets, and waits in the tables
of the nodes it passes.

* **`ControllerEvent.originates`** — the messages that an application hands to its node.
* **`Backed`** — what a node has stored and what it has pending are among the messages said so far.
  `Backed.step` is one event of the handlers, `Backed.controllerStep` one of the controller.
* **`messages_originated`** — the main result: nothing is stored, pending, built or accepted
  anywhere that was not handed to some node by its own application before.
-/

namespace Icsn

open StepRun

/-! ## Messages

A message is what the text fields of a packet say: signal code, content name and content.  Hop
count, counter and HMAC change on the way and are left out.  A packet keeps a message only if its
texts fit their fields, so the origin of a message is argued for messages that fit. -/

/-- What a packet says, apart from its hops and its counter. -/
structure Message where
  code : SignalCode
  contentName : Str
  content : Str
deriving DecidableEq

/-- The message in three text fields, as a receiver reads it. -/
def messageOf (signalCode contentName content : Str) : Message where
  code := SignalCode.fromString (cstr (copyField maxSignalCodeLength signalCode).toList)
  contentName := cstr (copyField maxContentNameLength contentName).toList
  content := cstr (copyField maxContentLength content).toList

def CommunicationData.message (packet : CommunicationData) : Message :=
  messageOf packet.signalCode.toList packet.contentName.toList packet.content.toList

def ESP_NOWControlData.message (data : ESP_NOWControlData) : Message :=
  messageOf data.signalCode.toList data.contentName.toList data.content.toList

/-- The texts of the message are no longer than a packet's fields. -/
structure Message.Fits (message : Message) : Prop where
  contentName_fits : Icsn.Fits maxContentNameLength message.contentName
  content_fits : Icsn.Fits maxContentLength message.content

theorem fits_messageOf (signalCode contentName content : Str) :
    (messageOf signalCode contentName content).Fits :=
  ⟨fits_cstr_copyField _ _, fits_cstr_copyField _ _⟩

/-- A packet says what the control data says that it carries. -/
theorem ESP_NOWController.Carries.message_eq {data : ESP_NOWControlData}
    {packet : CommunicationData} (h : ESP_NOWController.Carries data packet) :
    packet.message = data.message := by
  unfold CommunicationData.message ESP_NOWControlData.message messageOf
  rw [h.signalCode_eq, h.contentName_eq, h.content_eq, cstr_copyField_copyField,
    cstr_copyField_copyField, cstr_copyField_copyField]

/-- A handler's answer says what the handler gives it, if that fits. -/
theorem message_controlDataOf {out : OutputData} {message : Message} (hfits : message.Fits)
    (hcode : out.signalCode = message.code.toString) (hname : out.contentName = message.contentName)
    (hcontent : out.content = message.content) :
    (ESP_NOWController.controlDataOf out).message = message := by
  obtain ⟨code, contentName, content⟩ := message
  obtain ⟨hnameFits, hcontentFits⟩ := hfits
  dsimp only at hcode hname hcontent hnameFits hcontentFits
  unfold ESP_NOWControlData.message ESP_NOWController.controlDataOf messageOf
  dsimp only
  rw [cstr_copyField_copyField, cstr_copyField_copyField, cstr_copyField_copyField, hcode, hname,
    hcontent, (Fits.signalCode code).cstr_copyField, hnameFits.cstr_copyField,
    hcontentFits.cstr_copyField]
  cases code <;> rfl

/-! ## One node

The invariant of one node is about a predicate `said` on messages, which the network below
instantiates with the messages originated so far.  What the node stores it may answer with later,
and what it has pending it was asked for; so both are said, and with them all that it builds. -/

/-- The message of an event on the handlers. -/
def NodeEvent.message? : NodeEvent → Option Message
  | .interest inputData => some ⟨.interest, inputData.contentName, inputData.content⟩
  | .data inputData _ | .sensorData inputData _ =>
    some ⟨.data, inputData.contentName, inputData.content⟩
  | _ => none

/-- The node answers a message that was said, or nothing. -/
def Said (said : Message → Prop) (out : OutputData) : Prop :=
  (∃ hop, out = invalidOutput hop) ∨ ∃ message, said message ∧
    out.signalCode = message.code.toString ∧ out.contentName = message.contentName ∧
    out.content = message.content

/-- What the node has stored was said, and what it has pending was asked for. -/
structure Backed {caps : BuildCapacity} (said : Message → Prop) (node : NodeState caps) : Prop where
  sound : node.csRepository.Sound
  stored : ∀ {name content}, node.csRepository.contentOf name = some content →
    said ⟨.data, name, content⟩
  wf : node.pitRepository.index.Wf
  pending : node.pitRepository.index.Holds fun name _ =>
    ∃ content, said ⟨.interest, name, content⟩

section Node

variable {caps : BuildCapacity} {systemConfig : SystemConfig} {said : Message → Prop}
  {node : NodeState caps}

theorem backed_init (said : Message → Prop) : Backed said (NodeState.init caps) where
  sound := LRUContentStore.sound_init
  stored h := by
    rw [NodeState.init, LRUContentStore.contentOf, LRUContentStore.init,
      FixedSizeLRUCache.index_init, CacheIndex.lookup_init] at h
    cases h
  wf := CacheIndex.wf_init
  pending := CacheIndex.holds_init _

/-- More may have been said. -/
theorem Backed.mono {said' : Message → Prop} (h : Backed said node)
    (hsaid : ∀ message, said message → said' message) : Backed said' node where
  sound := h.sound
  stored hstored := hsaid _ (h.stored hstored)
  wf := h.wf
  pending i hi := by
    obtain ⟨content, hcontent⟩ := h.pending i hi
    exact ⟨content, hsaid _ hcontent⟩

/-- What an event is recorded to write is its message. -/
theorem message?_of_written {name content : Str} {event : NodeEvent} {out : Option OutputData}
    (h : written name (event, out) = some content) :
    event.message? = some ⟨.data, name, content⟩ := by
  cases event with
  | sensorData inputData alloc =>
    unfold written at h
    dsimp only at h
    split at h
    · next hname =>
      rw [NodeEvent.message?, hname, Option.some.inj h]
    · cases h
  | data inputData alloc =>
    cases out with
    | none => cases h
    | some out =>
      unfold written at h
      dsimp only at h
      split at h
      · next hwritten => rw [NodeEvent.message?, hwritten.2, Option.some.inj h]
      · cases h
  | _ => cases h

/-- **One event of the handlers** with a message that was said. -/
theorem Backed.step (h : Backed said node) (event : NodeEvent)
    (hevent : ∀ message ∈ event.message?, said message) :
    Backed said (nodeStep systemConfig node event).2 := by
  -- the Content Store is left alone, looked up in, cleared, or given one content
  have hstore : (nodeStep systemConfig node event).2.csRepository.Sound ∧
      ∀ {name content}, (nodeStep systemConfig node event).2.csRepository.contentOf name
        = some content → said ⟨.data, name, content⟩ := by
    rcases contentStore_step systemConfig node event with
      ⟨-, heq | ⟨name', heq⟩ | heq⟩ | ⟨inputData, alloc, -, -, hwritten, heq⟩
    · rw [heq]
      exact ⟨h.sound, h.stored⟩
    · rw [heq]
      refine ⟨h.sound.get name', fun {name content} hstored => ?_⟩
      rw [LRUContentStore.contentOf_get] at hstored
      exact h.stored hstored
    · rw [heq]
      refine ⟨LRUContentStore.sound_clear _, fun {name content} hstored => ?_⟩
      rw [LRUContentStore.contentOf_clear] at hstored
      cases hstored
    · -- a save: the new content is the event's, and any other was there before
      rw [heq]
      obtain ⟨hsound, hother⟩ := h.sound.save
        { contentName := inputData.contentName, content := inputData.content } alloc
      refine ⟨hsound, fun {name content} hstored => ?_⟩
      by_cases hname : name = inputData.contentName
      · subst hname
        rcases h.sound.contentOf_save_self
          { contentName := inputData.contentName, content := inputData.content } alloc with
          hnew | ⟨hold, -⟩
        · obtain rfl : inputData.content = content := Option.some.inj (hnew.symm.trans hstored)
          have hnow := (hwritten inputData.contentName).trans (if_pos rfl)
          exact hevent _ (message?_of_written hnow)
        · exact h.stored (hold.symm.trans hstored)
      · exact h.stored ((hother name hname).symm.trans hstored)
  -- a name gets into the PIT by an INTEREST for it, and by nothing else
  have hpending : (nodeStep systemConfig node event).2.pitRepository.index.Holds fun name _ =>
      ∃ content, said ⟨.interest, name, content⟩ := by
    rcases pitIndex_step node event with heq | ⟨inputData, rfl, heq⟩ | ⟨_, _, -, heq⟩ | ⟨-, heq⟩
    · rw [heq]
      exact h.pending
    · rw [heq]
      exact h.pending.put h.wf ⟨inputData.content, hevent _ rfl⟩
    · rw [heq]
      exact h.pending.remove _
    · rw [heq]
      exact CacheIndex.holds_clear _ _
  exact ⟨hstore.1, hstore.2, pitWf_step h.wf event, hpending⟩

/-- **The answers**: the message that came in, or for an INTEREST the content stored. -/
theorem Backed.answer (h : Backed said node) (event : NodeEvent)
    (hevent : ∀ message ∈ event.message?, said message) :
    ∀ out ∈ (nodeStep systemConfig node event).1, Said said out := by
  cases event with
  -- an INTEREST is answered with stored content, or passed on with its own name
  | interest inputData =>
    intro out hout
    obtain rfl := Option.some.inj hout
    have hinput := hevent _ rfl
    by_cases hhop : inputData.hopCount + 1 < systemConfig.hopCountThreshold
    · cases hfind : node.csRepository.find inputData.contentName with
      | true =>
        rw [← h.sound.contentOf_isSome] at hfind
        -- what is found was stored, and so was said
        obtain ⟨content, hcontent⟩ := Option.isSome_iff_exists.mp hfind
        refine Or.inr ⟨⟨.data, inputData.contentName, content⟩, h.stored hcontent, ?_⟩
        rcases handleInterestReceive_cases systemConfig inputData node with
          ⟨hlimit, -⟩ | ⟨-, -, hanswer, -⟩ | ⟨-, hmiss, -⟩
        · omega
        · rw [hanswer]
          refine ⟨rfl, rfl, ?_⟩
          show (node.csRepository.get inputData.contentName).1 = content
          rw [LRUContentStore.get_fst, hcontent]
          rfl
        · rw [h.sound.contentOf_isSome, hmiss] at hfind
          cases hfind
      | false =>
        rcases handleInterestReceive_of_miss hhop hfind with ⟨-, heq⟩ | ⟨-, heq⟩
        · rw [heq]
          exact Or.inr ⟨_, hinput, rfl, rfl, rfl⟩
        · rw [heq]
          exact Or.inl ⟨_, rfl⟩
    · -- over the hop limit
      have hdrop : handleInterestReceive systemConfig inputData node
          = (invalidOutput (inputData.hopCount + 1), node) := if_pos (not_lt.mp hhop)
      rw [hdrop]
      exact Or.inl ⟨_, rfl⟩
  -- DATA is passed on as it came, or is dropped
  | data inputData alloc =>
    intro out hout
    obtain rfl := Option.some.inj hout
    rcases handleDataReceive_cases inputData alloc node with ⟨-, heq⟩ | ⟨-, hanswer, -⟩
    · rw [heq]
      exact Or.inl ⟨_, rfl⟩
    · rw [hanswer]
      exact Or.inr ⟨_, hevent _ rfl, rfl, rfl, rfl⟩
  | _ => exact fun _ hout => nomatch hout

end Node

/-- The message that an application hands to its node, if the event is one of those. -/
def ControllerEvent.originates : ControllerEvent → Option Message
  | .sendPacketToAddresses data _ => some data.message
  | .sendInterest contentName _ _ _ =>
    some (messageOf (SignalCode.toString .interest) contentName valueNA)
  | .sendSensorData contentName content _ _ =>
    some (messageOf (SignalCode.toString .data) contentName content)
  | _ => none

section Controller

variable {caps : BuildCapacity} (hmacSha256 : Key → List UInt8 → Hmac)
  (systemConfig : SystemConfig) (myMac : Mac) {said : Message → Prop} {c : ESP_NOWController caps}

open ESP_NOWController (sends_carry sendsOnly_sendPacketToAddresses)

theorem backed_boot (said : Message → Prop) :
    Backed said (ESP_NOWController.boot caps systemConfig).node := by
  unfold ESP_NOWController.boot
  rw [ESP_NOWController.node_loadAndApplyConfig]
  refine after_invariant (P := fun _ event => event.message? = none) ?_ (backed_init said)
    (along_of_forall_mem _ ?_ _)
  · intro node event h hnone
    exact h.step event fun message hmessage => nomatch hnone.symm.trans hmessage
  · intro event hevent
    obtain ⟨route, -, rfl⟩ := List.mem_map.mp hevent
    rfl

/-- **A send** of a message that was said, or to nobody. -/
theorem Backed.sendPacketToAddresses (h : Backed said c.node) (data : ESP_NOWControlData)
    (env : Fin maxTxAddresses → SendEnv)
    (hdata : ESP_NOWController.Silent data ∨ said data.message) :
    let r := c.sendPacketToAddresses hmacSha256 systemConfig data env
    Backed said r.2.node ∧ ∀ out ∈ r.1.built, said out.2.message := by
  have hreport := sends_carry hmacSha256 systemConfig data env c
  refine ⟨?_, fun out hout => ?_⟩
  · rw [(sendsOnly_sendPacketToAddresses hmacSha256 systemConfig data env c).node_eq]
    exact h
  · rcases hdata with hsilent | hsaid
    · rw [hreport.built_of_silent hsilent] at hout
      cases hout
    · rw [(hreport.carries out hout).message_eq]
      exact hsaid

/-- What is answered to a message that was said. -/
theorem Backed.answerTo (h : Backed said c.node) (hfits : ∀ message, said message → message.Fits)
    (senderMac : Mac) (packet : CommunicationData) (alloc : Option Bool)
    (hpacket : said packet.message) :
    let r := ESP_NOWController.answerTo systemConfig
      (ESP_NOWController.inputFromPacket myMac senderMac packet) alloc c.node
    Backed said r.2 ∧ (ESP_NOWController.Silent r.1 ∨ said r.1.message) := by
  -- a said answer fits the control data, and an invalid one is sent to nobody
  have hanswer : ∀ {out}, Said said out →
      ESP_NOWController.Silent (ESP_NOWController.controlDataOf out) ∨
        said (ESP_NOWController.controlDataOf out).message := by
    rintro out (⟨hop, rfl⟩ | ⟨message, hsaid, hcode, hname, hcontent⟩)
    · exact Or.inl (ESP_NOWController.silent_invalidOutput hop)
    · rw [message_controlDataOf (hfits message hsaid) hcode hname hcontent]
      exact Or.inr hsaid
  generalize hinput : ESP_NOWController.inputFromPacket myMac senderMac packet = inputData
  have hmessage : packet.message = ⟨SignalCode.fromString inputData.signalCode,
      inputData.contentName, inputData.content⟩ := by
    rw [← hinput]
    rfl
  rw [hmessage] at hpacket
  unfold ESP_NOWController.answerTo
  dsimp only
  cases hcode : SignalCode.fromString inputData.signalCode with
  | interest =>
    rw [hcode] at hpacket
    have hevent : ∀ message ∈ (NodeEvent.interest inputData).message?, said message :=
      fun message hmessage => Option.some.inj hmessage ▸ hpacket
    exact ⟨h.step _ hevent, hanswer (h.answer _ hevent _ rfl)⟩
  | data =>
    rw [hcode] at hpacket
    have hevent : ∀ message ∈ (NodeEvent.data inputData alloc).message?, said message :=
      fun message hmessage => Option.some.inj hmessage ▸ hpacket
    exact ⟨@Backed.step caps systemConfig said c.node h _ hevent,
      hanswer (@Backed.answer caps systemConfig said c.node h _ hevent _ rfl)⟩
  | invalid => exact ⟨h, Or.inl ESP_NOWController.silent_default⟩

/-- **One event of the controller**, where what it accepts and what its application hands to it was
said: what it builds was said, too. -/
theorem Backed.controllerStep (h : Backed said c.node)
    (hfits : ∀ message, said message → message.Fits) (event : ControllerEvent)
    (horiginates : ∀ message ∈ event.originates, said message)
    (haccepted : (Icsn.controllerStep hmacSha256 systemConfig myMac c event).1.processed = true →
      ∀ received ∈ event.received?, ∀ packet ∈ CommunicationData.decode? received.2,
        said packet.message) :
    let r := Icsn.controllerStep hmacSha256 systemConfig myMac c event
    Backed said r.2.node ∧ ∀ out ∈ r.1.built, said out.2.message := by
  have hnothing : ∀ out ∈ ({} : ControllerReport).built, said out.2.message :=
    fun _ hout => nomatch hout
  -- the events that bring no message
  have hquiet : ∀ event : NodeEvent, event.message? = none →
      Backed said (nodeStep systemConfig c.node event).2 := fun event hnone =>
    h.step event fun message hmessage => nomatch hnone.symm.trans hmessage
  -- a packet that comes in is said since it was accepted; the rest comes from the application
  cases event with
  | processReceivedPacket senderMac data env =>
    rcases ESP_NOWController.processReceivedPacket_answers hmacSha256 systemConfig myMac senderMac
      data env c with ⟨-, hnone, hnode⟩ | ⟨hprocessed, inputData, m, hdecode, hsends⟩
    · unfold Icsn.controllerStep
      dsimp only
      rw [hnone, hnode]
      exact ⟨h, hnothing⟩
    · obtain ⟨packet, hpacket, rfl⟩ := Option.map_eq_some_iff.mp hdecode
      obtain ⟨hnode, hanswer⟩ := h.answerTo systemConfig myMac hfits senderMac packet env.alloc
        (haccepted hprocessed _ rfl packet hpacket)
      have hsent := Backed.sendPacketToAddresses hmacSha256 systemConfig
        (c := { c with peerCounterManager := m, node := _ }) hnode _ env.sends hanswer
      rw [← hsends] at hsent
      exact hsent
  | sendPacketToAddresses data env =>
    exact h.sendPacketToAddresses hmacSha256 systemConfig data env
      (Or.inr (horiginates _ rfl))
  | sendInterest contentName targetMac hopCount env =>
    refine h.sendPacketToAddresses hmacSha256 systemConfig _ env (Or.inr ?_)
    have hdata : (ESP_NOWController.interestData contentName targetMac hopCount).message
        = messageOf (SignalCode.toString .interest) contentName valueNA := by
      unfold ESP_NOWControlData.message ESP_NOWController.interestData messageOf
      dsimp only
      rw [cstr_copyField_copyField, cstr_copyField_copyField, cstr_copyField_copyField]
    exact hdata ▸ horiginates _ rfl
  | sendSensorData contentName content hopCount alloc =>
    refine ⟨@Backed.step caps systemConfig said c.node h (.sensorData _ alloc) ?_, hnothing⟩
    exact fun message hmessage => Option.some.inj hmessage ▸ horiginates _ rfl
  | initFIBEntry contentName nextHopMac => exact ⟨hquiet (.initFIBEntry _ _) rfl, hnothing⟩
  | clearCSCache => exact ⟨hquiet .clearCSCache rfl, hnothing⟩
  | clearPITCache => exact ⟨hquiet .clearPITCache rfl, hnothing⟩
  | setPeerLMK | setGlobalLMK => exact ⟨h, hnothing⟩

end Controller

/-! ## The network

A reboot is an event of its own: it puts the node back to its boot, while the packets built before
stay with the adversary, who may deliver them at any time.  The keys come back with the
configuration, so that the HMAC of an old packet still says who built it. -/

/-- A node reboots, or handles an event. -/
inductive NetworkEvent where
  | reboot (mac : Mac)
  | handle (mac : Mac) (event : ControllerEvent)

/-- An application handed the message to its node in this run. -/
def Originated (run : List NetworkEvent) (message : Message) : Prop :=
  ∃ mac event, NetworkEvent.handle mac event ∈ run ∧ event.originates = some message

theorem Originated.fits {run : List NetworkEvent} {message : Message}
    (h : Originated run message) : message.Fits := by
  obtain ⟨mac, event, -, horiginates⟩ := h
  cases event with
  | sendPacketToAddresses | sendInterest | sendSensorData =>
    rw [← Option.some.inj horiginates]
    exact fits_messageOf _ _ _
  | _ => cases horiginates

theorem Originated.mono {run run' : List NetworkEvent} (hrun : run ⊆ run') {message : Message}
    (h : Originated run message) : Originated run' message := by
  obtain ⟨mac, event, hmember, horiginates⟩ := h
  exact ⟨mac, event, hrun hmember, horiginates⟩

section Network

variable {caps : Mac → BuildCapacity} (hmacSha256 : Key → List UInt8 → Hmac)
  (systemConfig : Mac → SystemConfig)

/-- All nodes after their boots. -/
def Network.boot (caps : Mac → BuildCapacity) (systemConfig : Mac → SystemConfig) :
    Network caps where
  node mac := .boot (caps mac) (systemConfig mac)
  built := []

/-- One event.  A reboot loses all that the node has in memory. -/
def rebootStep (net : Network caps) : NetworkEvent → ControllerReport × Network caps
  | .reboot mac =>
    ({}, { net with node := Function.update net.node mac (.boot (caps mac) (systemConfig mac)) })
  | .handle mac event => networkStep hmacSha256 systemConfig net (mac, event)

/-- The HMAC is ideal, and keys stay as configured. -/
def IdealMacAt (net : Network caps) : NetworkEvent → Prop
  | .reboot _ => True
  | .handle mac event => IdealMac hmacSha256 net (mac, event)

instance (net : Network caps) : ∀ event, Decidable (IdealMacAt hmacSha256 net event)
  | .reboot _ => inferInstanceAs (Decidable True)
  | .handle mac event => inferInstanceAs (Decidable (IdealMac hmacSha256 net (mac, event)))

/-- All that is in the network was originated in the run. -/
structure Original (start : Network caps) (run : List NetworkEvent) (net : Network caps) :
    Prop where
  authentic : Authentic hmacSha256 start net
  backed : ∀ mac, Backed (Originated run) (net.node mac).node
  built : ∀ entry ∈ net.built, Originated run entry.packet.message

variable {start net : Network caps} {run : List NetworkEvent}

theorem original_boot (henabled : ∀ mac, (systemConfig mac).hmacAuthenticationEnabled = true) :
    Original hmacSha256 (Network.boot caps systemConfig) [] (.boot caps systemConfig) where
  authentic :=
    { enabled := fun mac => (ESP_NOWController.hmacEnabled_boot _).trans (henabled mac)
      keyFor_eq := fun _ _ => rfl
      tagged := fun _ hentry => nomatch hentry }
  backed mac := backed_boot (systemConfig mac) _
  built _ hentry := nomatch hentry

/-- **What a node accepts** was originated: it was built by some node. -/
theorem Original.accepted (h : Original hmacSha256 start run net) {mac senderMac : Mac}
    {data : List UInt8} {env : ReceiveEnv}
    (hideal : IdealMac hmacSha256 net (mac, .processReceivedPacket senderMac data env))
    (hprocessed : (networkStep hmacSha256 systemConfig net
      (mac, .processReceivedPacket senderMac data env)).1.processed = true) :
    ∃ packet, CommunicationData.decode? data = some packet ∧ Originated run packet.message := by
  obtain ⟨entry, hentry, hdecode, -⟩ :=
    h.authentic.accepted hmacSha256 systemConfig hideal hprocessed
  exact ⟨entry.packet, hdecode, h.built entry hentry⟩

/-- **A reboot** leaves nothing behind, and the keys as they were. -/
theorem Original.reboot (h : Original hmacSha256 (.boot caps systemConfig) run net)
    (henabled : ∀ mac, (systemConfig mac).hmacAuthenticationEnabled = true) (mac : Mac) :
    Original hmacSha256 (.boot caps systemConfig) run
      (rebootStep hmacSha256 systemConfig net (.reboot mac)).2 := by
  have hself : (rebootStep hmacSha256 systemConfig net (.reboot mac)).2.node mac
      = .boot (caps mac) (systemConfig mac) := Function.update_self ..
  have hother : ∀ {mac'}, mac' ≠ mac →
      (rebootStep hmacSha256 systemConfig net (.reboot mac)).2.node mac' = net.node mac' :=
    fun hne => Function.update_of_ne hne ..
  refine ⟨⟨fun mac' => ?_, fun mac' peer => ?_, h.authentic.tagged⟩, fun mac' => ?_, h.built⟩
  · by_cases hmac : mac' = mac
    · rw [hmac, hself]
      exact (ESP_NOWController.hmacEnabled_boot _).trans (henabled mac)
    · rw [hother hmac]
      exact h.authentic.enabled mac'
  · unfold Network.keyFor
    by_cases hmac : mac' = mac
    · rw [hmac, hself]
      rfl
    · rw [hother hmac]
      exact h.authentic.keyFor_eq mac' peer
  · by_cases hmac : mac' = mac
    · rw [hmac, hself]
      exact backed_boot (systemConfig mac) _
    · rw [hother hmac]
      exact h.backed mac'

/-- **An event at a node**. -/
theorem Original.handle (h : Original hmacSha256 start run net) (mac : Mac)
    (event : ControllerEvent) (hideal : IdealMac hmacSha256 net (mac, event)) :
    Original hmacSha256 start (run ++ [.handle mac event])
      (networkStep hmacSha256 systemConfig net (mac, event)).2 := by
  have hgrows : ∀ message, Originated run message →
      Originated (run ++ [.handle mac event]) message :=
    fun _ => Originated.mono (List.subset_append_left _ _)
  obtain ⟨hnode, hbuilt⟩ := ((h.backed mac).mono hgrows).controllerStep hmacSha256
    (systemConfig mac) mac (fun _ hmessage => hmessage.fits) event
    (fun message hmessage => ⟨mac, event, List.mem_append_right _ List.mem_cons_self, hmessage⟩)
    (by
      intro hprocessed received hreceived packet hpacket
      cases event with
      | processReceivedPacket senderMac data env =>
        obtain rfl := Option.some.inj hreceived
        obtain ⟨packet', hdecode, horiginated⟩ :=
          h.accepted hmacSha256 systemConfig hideal hprocessed
        obtain rfl := Option.some.inj (hdecode.symm.trans hpacket)
        exact hgrows _ horiginated
      | _ => exact nomatch hreceived)
  refine ⟨h.authentic.step hmacSha256 systemConfig (mac, event) hideal, fun mac' => ?_,
    fun entry hentry => ?_⟩
  · -- the other nodes are as before
    by_cases hmac : mac' = mac
    · rw [hmac, node_networkStep_self]
      exact hnode
    · rw [node_networkStep_ne _ _ _ hmac]
      exact (h.backed mac').mono hgrows
  · -- what was built before the event, and what the event built
    rcases List.mem_append.mp hentry with hold | hnew
    · exact hgrows _ (h.built entry hold)
    · obtain ⟨out, hout, rfl⟩ := List.mem_map.mp hnew
      exact hbuilt out hout

/-- **No message is invented.**  Nodes with HMAC enabled and any configured keys and routes, an
ideal HMAC, an adversary who delivers what it likes to whom it likes under any source MAC, and
reboots at any time: every packet built, every content stored, every name pending and every packet
accepted anywhere says what an application handed to its own node earlier in the run. -/
theorem messages_originated (caps : Mac → BuildCapacity) (hmacSha256 : Key → List UInt8 → Hmac)
    (systemConfig : Mac → SystemConfig)
    (henabled : ∀ mac, (systemConfig mac).hmacAuthenticationEnabled = true)
    (run : List NetworkEvent)
    (hideal : Along (rebootStep hmacSha256 systemConfig) (IdealMacAt hmacSha256)
      (Network.boot caps systemConfig) run) :
    let net := after (rebootStep hmacSha256 systemConfig) (Network.boot caps systemConfig) run
    (∀ entry ∈ net.built, Originated run entry.packet.message) ∧
    (∀ mac name content, (net.node mac).node.csRepository.contentOf name = some content →
      Originated run ⟨.data, name, content⟩) ∧
    (∀ mac name, LRUPendingInterestTable.find name (net.node mac).node.pitRepository = true →
      ∃ content, Originated run ⟨.interest, name, content⟩) ∧
    ∀ macB macA data env,
      IdealMac hmacSha256 net (macB, .processReceivedPacket macA data env) →
      (networkStep hmacSha256 systemConfig net
        (macB, .processReceivedPacket macA data env)).1.processed = true →
      ∃ packet, CommunicationData.decode? data = some packet ∧
        Originated run packet.message := by
  intro net
  -- along a run the invariant is about the events so far, so it is kept over the trace
  have hstep : ∀ (tr : List (NetworkEvent × ControllerReport)) net event,
      Original hmacSha256 (.boot caps systemConfig) (tr.map Prod.fst) net →
      IdealMacAt hmacSha256 net event →
      Original hmacSha256 (.boot caps systemConfig)
        ((tr ++ [(event, (rebootStep hmacSha256 systemConfig net event).1)]).map Prod.fst)
        (rebootStep hmacSha256 systemConfig net event).2 := by
    intro tr net event h hevent
    rw [List.map_append]
    cases event with
    | reboot mac =>
      obtain ⟨hauthentic, hbacked, hbuilt⟩ := h.reboot hmacSha256 systemConfig henabled mac
      have hgrows := @Originated.mono (tr.map Prod.fst) _
        (List.subset_append_left _ [NetworkEvent.reboot mac])
      exact ⟨hauthentic, fun mac' => (hbacked mac').mono fun _ => hgrows,
        fun entry hentry => hgrows (hbuilt entry hentry)⟩
    | handle mac event => exact h.handle hmacSha256 systemConfig mac event hevent
  have horiginal : Original hmacSha256 (.boot caps systemConfig) run net := by
    have hrun := trace_invariant hstep (original_boot hmacSha256 systemConfig henabled) run hideal
    rwa [map_fst_trace] at hrun
  refine ⟨horiginal.built, fun mac name content hstored => (horiginal.backed mac).stored hstored,
    fun mac name hpending => ?_, fun macB macA data env hideal hprocessed =>
      horiginal.accepted hmacSha256 systemConfig hideal hprocessed⟩
  -- what is found in the PIT is in its index
  rw [LRUPendingInterestTable.find_eq] at hpending
  obtain ⟨requesters, hlook⟩ := Option.isSome_iff_exists.mp hpending
  exact (horiginal.backed mac).pending.of_lookup hlook

end Network

/-- Node 1 has a reading, node 2 asks for it; node 1 answers and reboots. -/
theorem messages_originated_answer :
    let mac (n : UInt8) : Mac := List.Vector.replicate _ n
    let name := ascii ['/', 'a']
    let step := @rebootStep (fun _ => .uniform 4 bootedNetwork_size_pos) checksum
      fun _ => .hmacWith Key.zero
    let run : List NetworkEvent := [.handle (mac 1) (.sendSensorData name (ascii ['7']) 0 true),
      .handle (mac 2) (.sendInterest name (mac 1) 0 fun _ => .good),
      .handle (mac 1) (.processReceivedPacket (mac 2) (interestPacket Key.zero name 1).toBytes
        .good),
      .reboot (mac 1)]
    let net := after step (Network.boot _ fun _ => .hmacWith Key.zero) run
    net.built.length = 2 ∧ ∀ entry ∈ net.built, Originated run entry.packet.message := by
  intro mac name step run net
  exact ⟨by decide +kernel, (messages_originated (fun _ => .uniform 4 bootedNetwork_size_pos)
    checksum (fun _ => .hmacWith Key.zero) (fun _ => rfl) run (by decide +kernel)).1⟩

end Icsn
