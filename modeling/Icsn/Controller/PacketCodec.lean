import Icsn.Controller.ESPNOWController
import Mathlib.Logic.Relation

/-!
# Icsn — the packet codec

A text goes through a field of `m` bytes six times on its way to the next node: into a packet, out
of it, into a string, and back.  Every copy keeps the first `m - 1` bytes of the text.

* **`Fits`** — a text a field holds whole: no NUL, and room for one behind it.  What is read out of
  a field fits, and what fits is read back as it was written.
* **`Carries`** — a packet has the fields of the control data it was built from.
* **`sends_carry`** — so do all the packets `sendPacketToAddresses` builds.
* **`name_relayed`** — a packet sent because of another has its name.
* **`packet_codec_roundtrip`** — round trip, and nothing is shortened twice.
-/

namespace Icsn

/-! ## Fields

Every field is written by `strncpy` and read as a C string, so all that follows about packets comes
down to one equation: reading gives the first `m - 1` bytes of the text written.  A text that is
read out of a field fits a field of that size, and from then on nothing is cut off. -/

/-- The field of `m` bytes holds the text whole. -/
def Fits (m : Nat) (s : Str) : Prop := (0 : UInt8) ∉ s ∧ s.length ≤ m - 1

/-- Bytes up to a NUL are the C string. -/
theorem cstr_append_zero {s : Str} (h : (0 : UInt8) ∉ s) (rest : Str) :
    cstr (s ++ 0 :: rest) = s := by
  have hstop : cstr (0 :: rest) = [] := rfl
  unfold cstr at hstop ⊢
  rw [List.takeWhile_append_of_pos, hstop, List.append_nil]
  intro c hc
  have hne : c ≠ 0 := fun h0 => h (h0 ▸ hc)
  simpa using hne

theorem zero_notMem_take_cstr (s : Str) (n : Nat) : (0 : UInt8) ∉ (cstr s).take n := fun h =>
  zero_notMem_cstr s (List.mem_of_mem_take h)

/-- **Reading a field**: the first `m - 1` bytes of the text that was written. -/
theorem cstr_copyField (m : Nat) (s : Str) :
    cstr (copyField m s).toList = (cstr s).take (m - 1) := by
  show cstr (((cstr s).take (m - 1) ++ List.replicate m 0).take m) = (cstr s).take (m - 1)
  cases m with
  | zero => rfl
  | succ m =>
    have hlen : ((cstr s).take m).length ≤ m := List.length_take_le m _
    have hpad : ((cstr s).take m ++ List.replicate (m + 1) 0).take (m + 1)
        = (cstr s).take m ++ 0 :: List.replicate (m - ((cstr s).take m).length) 0 := by
      have hroom : m + 1 - ((cstr s).take m).length
          = m - ((cstr s).take m).length + 1 := by omega
      rw [List.take_append, List.take_of_length_le (by omega), List.take_replicate,
        Nat.min_eq_left (by omega), hroom, List.replicate_succ]
    show cstr (((cstr s).take m ++ List.replicate (m + 1) 0).take (m + 1)) = _
    rw [hpad]
    exact cstr_append_zero (zero_notMem_take_cstr s m) _

/-- What is read out of a field fits it. -/
theorem fits_cstr_copyField (m : Nat) (s : Str) : Fits m (cstr (copyField m s).toList) := by
  rw [cstr_copyField]
  exact ⟨zero_notMem_take_cstr s _, List.length_take_le _ _⟩

/-- **What fits is read back as it was written.** -/
theorem Fits.cstr_copyField {m : Nat} {s : Str} (h : Fits m s) :
    cstr (copyField m s).toList = s := by
  rw [Icsn.cstr_copyField, cstr_of_zero_notMem h.1]
  exact List.take_of_length_le h.2

/-- A second copy changes nothing. -/
theorem cstr_copyField_copyField (m : Nat) (s : Str) :
    cstr (copyField m (copyField m s).toList).toList = cstr (copyField m s).toList := by
  rw [cstr_copyField m (copyField m s).toList]
  exact List.take_of_length_le (fits_cstr_copyField m s).2

/-- The text in a terminated array fits a field of its size. -/
theorem fits_cstr {m : Nat} (field : CharArray m) (h : (0 : UInt8) ∈ field.toList) :
    Fits m (cstr field.toList) := by
  refine ⟨zero_notMem_cstr _, ?_⟩
  have hlen : (cstr field.toList).length ≤ m :=
    (length_cstr_le field.toList).trans_eq field.toList_length
  have hne : (cstr field.toList).length ≠ m := by
    -- a text as long as the array would be the whole array, its NUL included
    intro heq
    have hwhole : cstr field.toList = field.toList :=
      (List.takeWhile_prefix _).eq_of_length (heq.trans field.toList_length.symm)
    exact zero_notMem_cstr field.toList (hwhole.symm ▸ h)
  omega

/-- So a field that is copied keeps it whole. -/
theorem cstr_copyField_of_mem {m : Nat} (field : CharArray m) (h : (0 : UInt8) ∈ field.toList) :
    cstr (copyField m field.toList).toList = cstr field.toList := by
  rw [cstr_copyField]
  exact List.take_of_length_le (fits_cstr field h).2

theorem Fits.signalCode (code : SignalCode) : Fits maxSignalCodeLength code.toString := by
  cases code <;> exact ⟨by decide, by decide⟩

namespace ESP_NOWController

variable {caps : BuildCapacity}

/-! ## What a message hands over

`receiveMessage` and the part of `processReceivedPacket` before it, put as two functions: from a
packet to the `InputData` of the handlers, and from there to the control data of their answer. -/

/-- The `InputData` that `receiveMessage` makes. -/
def receivedInput (rxAddress txAddress : Mac) (data : ESP_NOWControlData) : InputData where
  senderId := addressToString txAddress
  destId := .singleton (addressToString rxAddress)
  signalCode := cstr data.signalCode.toList
  hopCount := data.hopCount.toNat
  contentName := cstr data.contentName.toList
  content := cstr data.content.toList

/-- What the input boundary answers to it. -/
def answerTo (systemConfig : SystemConfig) (inputData : InputData) (alloc : Option Bool)
    (node : NodeState caps) : ESP_NOWControlData × NodeState caps :=
  match SignalCode.fromString inputData.signalCode with
  | .interest =>
    let r := handleInterestReceive systemConfig inputData node
    (controlDataOf r.1, r.2)
  | .data =>
    let r := handleDataReceive inputData alloc node
    (controlDataOf r.1, r.2)
  | .invalid => ({}, node)

theorem receiveMessage_eq (systemConfig : SystemConfig) (rxAddress txAddress : Mac)
    (data : ESP_NOWControlData) (alloc : Option Bool) (node : NodeState caps) :
    receiveMessage systemConfig rxAddress txAddress data alloc node
      = answerTo systemConfig (receivedInput rxAddress txAddress data) alloc node := rfl

/-- The `InputData` that `processReceivedPacket` and `receiveMessage` make of a packet. -/
def inputFromPacket (myMac senderMac : Mac) (packet : CommunicationData) : InputData :=
  receivedInput myMac senderMac (inputOfPacket senderMac packet)

/-- The control data that `sendInterest` sends. -/
def interestData (contentName : Str) (targetMac : Mac) (hopCount : UInt8) :
    ESP_NOWControlData where
  txAddress := (List.Vector.replicate _ Mac.zero).set ⟨0, maxTxAddresses_pos⟩ targetMac
  signalCode := copyField _ (SignalCode.toString .interest)
  hopCount
  contentName := copyField _ contentName
  content := copyField _ valueNA

theorem sendInterest_eq (hmacSha256 : Key → List UInt8 → Hmac) (systemConfig : SystemConfig)
    (contentName : Str) (targetMac : Mac) (hopCount : UInt8) (env : Fin maxTxAddresses → SendEnv)
    (c : ESP_NOWController caps) :
    c.sendInterest hmacSha256 systemConfig contentName targetMac hopCount env
      = c.sendPacketToAddresses hmacSha256 systemConfig
        (interestData contentName targetMac hopCount) env := rfl

/-- The three texts of an `InputData` fit their fields. -/
structure FitsPacket (signalCode contentName content : Str) : Prop where
  signalCode_fits : Fits maxSignalCodeLength signalCode
  contentName_fits : Fits maxContentNameLength contentName
  content_fits : Fits maxContentLength content

theorem fitsPacket_inputFromPacket (myMac senderMac : Mac) (packet : CommunicationData) :
    let inputData := inputFromPacket myMac senderMac packet
    FitsPacket inputData.signalCode inputData.contentName inputData.content :=
  ⟨fits_cstr_copyField _ _, fits_cstr_copyField _ _, fits_cstr_copyField _ _⟩

/-! ## What a packet carries

A packet is related to the control data it was built from field by field.  Counter and HMAC are left
out, so the relation holds of the packets for all addresses of one send. -/

/-- The packet has the fields of the control data. -/
structure Carries (data : ESP_NOWControlData) (packet : CommunicationData) : Prop where
  signalCode_eq : packet.signalCode = copyField _ data.signalCode.toList
  hopCount_eq : packet.hopCount = data.hopCount
  contentName_eq : packet.contentName = copyField _ data.contentName.toList
  content_eq : packet.content = copyField _ data.content.toList

variable (hmacSha256 : Key → List UInt8 → Hmac)

/-- The counter and the HMAC are all that a build adds. -/
theorem carries_of_build {addr : Mac} {data : ESP_NOWControlData} {applySecurity mdOk : Bool}
    {m m' : PeerCounterManager} {packet : CommunicationData}
    (h : buildPacketForAddress hmacSha256 addr data applySecurity mdOk m = (some packet, m')) :
    Carries data packet := by
  unfold buildPacketForAddress at h
  dsimp only at h
  split at h
  · cases h
    exact ⟨rfl, rfl, rfl, rfl⟩
  · split at h
    · cases h
    · split at h
      · cases h
      · cases h
        exact ⟨rfl, rfl, rfl, rfl⟩

variable {hmacSha256} {data : ESP_NOWControlData} {packet : CommunicationData}

/-- The fields of control data, decoded from a packet that carries them: what the first copy
kept. -/
theorem Carries.input_eq (h : Carries data packet) (myMac senderMac : Mac) :
    inputFromPacket myMac senderMac packet =
      { senderId := addressToString senderMac
        destId := .singleton (addressToString myMac)
        signalCode := cstr (copyField maxSignalCodeLength data.signalCode.toList).toList
        hopCount := data.hopCount.toNat
        contentName := cstr (copyField maxContentNameLength data.contentName.toList).toList
        content := cstr (copyField maxContentLength data.content.toList).toList } := by
  show (⟨_, _, cstr (copyField _ packet.signalCode.toList).toList, packet.hopCount.toNat,
    cstr (copyField _ packet.contentName.toList).toList,
    cstr (copyField _ packet.content.toList).toList⟩ : InputData) = _
  rw [h.signalCode_eq, h.hopCount_eq, h.contentName_eq, h.content_eq, cstr_copyField_copyField,
    cstr_copyField_copyField, cstr_copyField_copyField]

/-- And of a handler's answer, whose texts went through one more copy. -/
theorem Carries.input_of_answer {outputData : OutputData}
    (h : Carries (controlDataOf outputData) packet) (myMac senderMac : Mac) :
    inputFromPacket myMac senderMac packet =
      { senderId := addressToString senderMac
        destId := .singleton (addressToString myMac)
        signalCode := cstr (copyField maxSignalCodeLength outputData.signalCode).toList
        hopCount := (UInt8.ofNat (outputData.hopCount % 256).toNat).toNat
        contentName := cstr (copyField maxContentNameLength outputData.contentName).toList
        content := cstr (copyField maxContentLength outputData.content).toList } := by
  rw [h.input_eq myMac senderMac]
  show (⟨_, _, cstr (copyField _ (copyField _ outputData.signalCode).toList).toList, _,
    cstr (copyField _ (copyField _ outputData.contentName).toList).toList,
    cstr (copyField _ (copyField _ outputData.content).toList).toList⟩ : InputData) = _
  rw [cstr_copyField_copyField, cstr_copyField_copyField, cstr_copyField_copyField]
  rfl

/-! ## What a send puts on the air

`ReportOf` is the invariant of the send loop: it relates the report so far to the addresses already
done.  One turn adds its address, with no packet, a packet built or a packet sent. -/

/-- A report of sending control data to these addresses: each packet carries the data, goes to one
of the addresses in their order, none of them zero, and is sent only after it is built. -/
structure ReportOf (data : ESP_NOWControlData) (addrs : List Mac) (report : SendReport) :
    Prop where
  carries : ∀ out ∈ report.built, Carries data out.2
  addrs_sublist : (report.built.map Prod.fst).Sublist (addrs.filter (· ≠ Mac.zero))
  sent_sublist : report.sent.Sublist report.built
  sentAny_iff : report.sentAny = true ↔ report.sent ≠ []

theorem ReportOf.start (data : ESP_NOWControlData) : ReportOf data [] {} where
  carries _ h := absurd h List.not_mem_nil
  addrs_sublist := .slnil
  sent_sublist := .slnil
  sentAny_iff := ⟨fun h => absurd h (by decide), fun h => absurd rfl h⟩

variable {systemConfig : SystemConfig} {addrs : List Mac} {report : SendReport}

/-- An address passed over, the zero address or one for which no packet is built. -/
theorem ReportOf.skip (h : ReportOf data addrs report) (addr : Mac) :
    ReportOf data (addrs ++ [addr]) report where
  carries := h.carries
  addrs_sublist := by
    rw [List.filter_append]
    exact h.addrs_sublist.trans (List.sublist_append_left _ _)
  sent_sublist := h.sent_sublist
  sentAny_iff := h.sentAny_iff

/-- A packet built. -/
theorem ReportOf.build (h : ReportOf data addrs report) {addr : Mac} (hne : addr ≠ Mac.zero)
    (hcarries : Carries data packet) :
    ReportOf data (addrs ++ [addr]) { report with built := report.built ++ [(addr, packet)] } where
  carries out hout := by
    rcases List.mem_append.mp hout with hold | hnew
    · exact h.carries out hold
    · rw [List.mem_singleton.mp hnew]
      exact hcarries
  addrs_sublist := by
    have hkept : [addr].filter (· ≠ Mac.zero) = [addr] :=
      List.filter_eq_self.mpr fun a ha => by simpa [List.mem_singleton.mp ha] using hne
    show ((report.built ++ [(addr, packet)]).map Prod.fst).Sublist _
    rw [List.map_append, List.filter_append, hkept]
    exact h.addrs_sublist.append (.refl _)
  sent_sublist := h.sent_sublist.trans (List.sublist_append_left _ _)
  sentAny_iff := h.sentAny_iff

/-- And sent. -/
theorem ReportOf.send (h : ReportOf data addrs report) {addr : Mac} (hne : addr ≠ Mac.zero)
    (hcarries : Carries data packet) :
    ReportOf data (addrs ++ [addr])
      { sentAny := true
        built := report.built ++ [(addr, packet)]
        sent := report.sent ++ [(addr, packet)] } where
  carries := (h.build hne hcarries).carries
  addrs_sublist := (h.build hne hcarries).addrs_sublist
  sent_sublist := h.sent_sublist.append (.refl _)
  sentAny_iff := ⟨fun _ => by simp, fun _ => rfl⟩

variable (hmacSha256)

/-- **One turn of the loop.** -/
theorem ReportOf.step {acc : SendReport × ESP_NOWController caps} (h : ReportOf data addrs acc.1)
    (systemConfig : SystemConfig) (addr : Mac) (env : SendEnv) :
    ReportOf data (addrs ++ [addr])
      (sendPacketToAddress hmacSha256 systemConfig data addr env acc).1 := by
  obtain ⟨report, c⟩ := acc
  have hold : ReportOf data addrs report := h
  unfold sendPacketToAddress
  dsimp only
  split
  · exact hold.skip addr
  · next hne =>
    split
    · exact hold.skip addr
    · next packet m hbuild =>
      have hcarries := carries_of_build hmacSha256 hbuild
      split
      · exact hold.build hne hcarries
      · split
        · exact hold.build hne hcarries
        · exact hold.send hne hcarries

/-- The turns of a send are those of its addresses, in order. -/
theorem map_get_txAddress (data : ESP_NOWControlData) :
    (List.finRange maxTxAddresses).map data.txAddress.get = data.txAddress.toList := by
  rw [← List.ofFn_eq_map, ← List.Vector.toList_ofFn, List.Vector.ofFn_get]

/-- **What `sendPacketToAddresses` builds and sends.** -/
theorem sends_carry (systemConfig : SystemConfig) (data : ESP_NOWControlData)
    (env : Fin maxTxAddresses → SendEnv) (c : ESP_NOWController caps) :
    ReportOf data data.txAddress.toList
      (c.sendPacketToAddresses hmacSha256 systemConfig data env).1 := by
  have hloop : ∀ (l : List (Fin maxTxAddresses)) (addrs : List Mac)
      (acc : SendReport × ESP_NOWController caps), ReportOf data addrs acc.1 →
      ReportOf data (addrs ++ l.map data.txAddress.get) (l.foldl (fun acc i =>
        sendPacketToAddress hmacSha256 systemConfig data (data.txAddress.get i) (env i) acc)
        acc).1 := by
    intro l
    induction l with
    | nil =>
      intro addrs acc h
      rw [List.map_nil, List.append_nil]
      exact h
    | cons i l ih =>
      intro addrs acc h
      rw [List.map_cons, List.append_cons]
      exact ih _ _ (h.step hmacSha256 systemConfig (data.txAddress.get i) (env i))
  rw [← map_get_txAddress data]
  exact hloop (List.finRange maxTxAddresses) [] ({}, c) (.start data)

/-! ## From packet to packet

A packet sent while another is processed carries the handlers' answer, and that has the name of what
came in.  One hop is shown to keep name and content; any number of hops then does by induction on
the chain of packets. -/

/-- Control data for nobody. -/
def Silent (data : ESP_NOWControlData) : Prop :=
  data.txAddress.toList.filter (· ≠ Mac.zero) = []

variable {hmacSha256} in
theorem ReportOf.built_of_silent (h : ReportOf data data.txAddress.toList report)
    (hsilent : Silent data) : report.built = [] := by
  have hsub := h.addrs_sublist
  rw [hsilent, List.sublist_nil, List.map_eq_nil_iff] at hsub
  exact hsub

theorem silent_default : Silent {} := by
  unfold Silent
  decide

/-- The answer of a dropped packet has the text `N/A` for its only address, which reads as the zero
address. -/
theorem silent_invalidOutput (hop : Int) : Silent (controlDataOf (invalidOutput hop)) := by
  have haddrs : (controlDataOf (invalidOutput hop)).txAddress.toList
      = (([valueNA].map macStringToArray) ++ List.replicate maxTxAddresses Mac.zero).take
        maxTxAddresses := rfl
  unfold Silent
  rw [haddrs]
  decide

/-- **Every answer is for the name of the message**, or for nobody; an answer of the same kind as
the message has its content, too. -/
theorem answerTo_name (systemConfig : SystemConfig) (inputData : InputData) (alloc : Option Bool)
    (node : NodeState caps) :
    let answer := (answerTo systemConfig inputData alloc node).1
    Silent answer ∨ ∃ outputData, answer = controlDataOf outputData ∧
      Fits maxSignalCodeLength outputData.signalCode ∧
      outputData.contentName = inputData.contentName ∧
      (outputData.signalCode = inputData.signalCode → outputData.content = inputData.content) := by
  have hcode : ∀ {code}, SignalCode.fromString inputData.signalCode = code → code ≠ .invalid →
      inputData.signalCode = code.toString := fun h hne => SignalCode.eq_toString h hne
  unfold answerTo
  dsimp only
  -- the two kinds of messages, and a code that is neither
  split
  · next hinterest =>
    by_cases hhop : inputData.hopCount + 1 < systemConfig.hopCountThreshold
    · rcases handleInterestReceive_cases systemConfig inputData node with
        ⟨hlimit, -⟩ | ⟨-, -, hanswer, -⟩ | ⟨-, hmiss, -⟩
      · omega
      · -- from the Content Store: a DATA for an INTEREST, with content of its own
        refine Or.inr ⟨_, rfl, by rw [hanswer]; exact .signalCode .data, by rw [hanswer]; rfl,
          fun hsame => ?_⟩
        rw [hanswer, hcode hinterest (by decide)] at hsame
        have hsame' : SignalCode.toString .data = SignalCode.toString .interest := hsame
        exact absurd (SignalCode.toString_injective hsame') (by decide)
      · -- passed on as it came, or dropped for want of a route
        rcases handleInterestReceive_of_miss hhop hmiss with ⟨-, heq⟩ | ⟨-, heq⟩
        · exact Or.inr ⟨_, rfl, by rw [heq]; exact .signalCode .interest, by rw [heq]; rfl,
            fun _ => by rw [heq]; rfl⟩
        · exact Or.inl (by dsimp only; rw [heq]; exact silent_invalidOutput _)
    · refine Or.inl ?_
      have hdrop : handleInterestReceive systemConfig inputData node
          = (invalidOutput (inputData.hopCount + 1), node) := if_pos (not_lt.mp hhop)
      dsimp only
      rw [hdrop]
      exact silent_invalidOutput _
  · rcases handleDataReceive_cases inputData alloc node with ⟨-, heq⟩ | ⟨-, hanswer, -⟩
    · exact Or.inl (by dsimp only; rw [heq]; exact silent_invalidOutput _)
    · exact Or.inr ⟨_, rfl, by rw [hanswer]; exact .signalCode .data, by rw [hanswer]; rfl,
        fun _ => by rw [hanswer]; rfl⟩
  · exact Or.inl silent_default

/-- What a node decodes of the bytes of a packet. -/
def decodePacket (myMac senderMac : Mac) (data : List UInt8) : Option InputData :=
  (CommunicationData.decode? data).map (inputFromPacket myMac senderMac)

theorem decodePacket_toBytes (myMac senderMac : Mac) (packet : CommunicationData) :
    decodePacket myMac senderMac packet.toBytes
      = some (inputFromPacket myMac senderMac packet) := by
  unfold decodePacket
  rw [CommunicationData.decode?_toBytes, Option.map_some]

theorem dispatchPacket_answers (systemConfig : SystemConfig) (myMac senderMac : Mac)
    (packet : CommunicationData) (env : ReceiveEnv) (c : ESP_NOWController caps) :
    let inputData := inputFromPacket myMac senderMac packet
    c.dispatchPacket hmacSha256 systemConfig myMac senderMac packet env
      = sendPacketToAddresses hmacSha256 systemConfig
        (answerTo systemConfig inputData env.alloc c.node).1 env.sends
        { c with node := (answerTo systemConfig inputData env.alloc c.node).2 } := rfl

/-- **Processing a packet**: nothing is sent, or what the input boundary answers to the decoded
packet is. -/
theorem processReceivedPacket_answers (systemConfig : SystemConfig) (myMac senderMac : Mac)
    (data : List UInt8) (env : ReceiveEnv) (c : ESP_NOWController caps) :
    let r := c.processReceivedPacket hmacSha256 systemConfig myMac senderMac data env
    (r.1.processed = false ∧ r.1.sends = {} ∧ r.2.node = c.node) ∨
    (r.1.processed = true ∧ ∃ inputData m, decodePacket myMac senderMac data = some inputData ∧
      (r.1.sends, r.2) = sendPacketToAddresses hmacSha256 systemConfig
        (answerTo systemConfig inputData env.alloc c.node).1 env.sends
        { c with peerCounterManager := m
                 node := (answerTo systemConfig inputData env.alloc c.node).2 }) := by
  obtain ⟨node, m, encryption, enabled, pmk⟩ := c
  unfold processReceivedPacket decodePacket
  cases hdecode : CommunicationData.decode? data with
  | none => exact Or.inl ⟨rfl, rfl, rfl⟩
  | some packet =>
    dsimp only
    split
    · exact Or.inl ⟨rfl, rfl, rfl⟩
    · generalize verifyIncomingPacket hmacSha256 _ senderMac packet env.mdOk _ = verified
      split
      · exact Or.inl ⟨rfl, rfl, rfl⟩
      · rw [dispatchPacket_answers]
        refine Or.inr ⟨rfl, inputFromPacket myMac senderMac packet, verified.2, rfl, ?_⟩
        dsimp only

/-- Some node sends `packet'` while it processes `packet`. -/
def SentFor (packet packet' : CommunicationData) : Prop :=
  ∃ (caps : BuildCapacity) (c : ESP_NOWController caps) (systemConfig : SystemConfig)
    (myMac senderMac addr : Mac) (env : ReceiveEnv),
    (addr, packet') ∈ (c.processReceivedPacket hmacSha256 systemConfig myMac senderMac
      packet.toBytes env).1.sends.sent

/-- And it has the same signal code: an INTEREST or a DATA passed on. -/
def PassedOn (packet packet' : CommunicationData) : Prop :=
  SentFor hmacSha256 packet packet' ∧ ∀ me sender me' sender' : Mac,
    (inputFromPacket me' sender' packet').signalCode = (inputFromPacket me sender packet).signalCode

variable {hmacSha256} {packet' : CommunicationData}

/-- **One hop** keeps the name, and the content of a packet passed on. -/
theorem SentFor.input_eq (h : SentFor hmacSha256 packet packet') (me sender me' sender' : Mac) :
    (inputFromPacket me' sender' packet').contentName
        = (inputFromPacket me sender packet).contentName ∧
      ((inputFromPacket me' sender' packet').signalCode
          = (inputFromPacket me sender packet).signalCode →
        (inputFromPacket me' sender' packet').content
          = (inputFromPacket me sender packet).content) := by
  obtain ⟨caps, c, systemConfig, myMac, senderMac, addr, env, hsent⟩ := h
  rcases processReceivedPacket_answers hmacSha256 systemConfig myMac senderMac packet.toBytes env c
    with ⟨-, hnone, -⟩ | ⟨-, inputData, m, hdecode, hsends⟩
  · rw [hnone] at hsent
    exact absurd hsent List.not_mem_nil
  · obtain rfl : inputFromPacket myMac senderMac packet = inputData := by
      rw [decodePacket_toBytes] at hdecode
      exact Option.some.inj hdecode
    obtain ⟨-, hnameFits, hcontentFits⟩ := fitsPacket_inputFromPacket myMac senderMac packet
    have hanswer := answerTo_name systemConfig (inputFromPacket myMac senderMac packet) env.alloc
      c.node
    generalize answerTo systemConfig (inputFromPacket myMac senderMac packet) env.alloc c.node
      = answer at hsends hanswer
    have hreport := sends_carry hmacSha256 systemConfig answer.1 env.sends
      { c with peerCounterManager := m, node := answer.2 }
    rw [← hsends] at hreport
    have hbuilt := hreport.sent_sublist.subset hsent
    -- an answer to nobody is not sent
    rcases hanswer with hsilent | ⟨outputData, hanswer, hcode, hname, hcontent⟩
    · rw [hreport.built_of_silent hsilent] at hbuilt
      exact absurd hbuilt List.not_mem_nil
    · have hcarries := hreport.carries _ hbuilt
      rw [hanswer] at hcarries
      -- what the first node decoded fits, so the second one reads it back
      rw [hcarries.input_of_answer me' sender']
      refine ⟨?_, fun hsame => ?_⟩
      · show cstr (copyField _ outputData.contentName).toList
          = (inputFromPacket myMac senderMac packet).contentName
        rw [hname, hnameFits.cstr_copyField]
      · -- the content is kept where the signal code is the same
        have hsame' : cstr (copyField _ outputData.signalCode).toList
          = (inputFromPacket myMac senderMac packet).signalCode := hsame
        rw [hcode.cstr_copyField] at hsame'
        show cstr (copyField _ outputData.content).toList
          = (inputFromPacket myMac senderMac packet).content
        rw [hcontent hsame', hcontentFits.cstr_copyField]

/-- **Any number of hops** keeps the name. -/
theorem name_relayed (h : Relation.ReflTransGen (SentFor hmacSha256) packet packet')
    (me sender me' sender' : Mac) :
    (inputFromPacket me' sender' packet').contentName
      = (inputFromPacket me sender packet).contentName := by
  induction h with
  | refl => rfl
  | tail _ hlast ih => exact (hlast.input_eq me sender me' sender').1.trans ih

/-- And, passed on as the packet it is, the content. -/
theorem content_relayed (h : Relation.ReflTransGen (PassedOn hmacSha256) packet packet')
    (me sender me' sender' : Mac) :
    (inputFromPacket me' sender' packet').content
      = (inputFromPacket me sender packet).content := by
  induction h with
  | refl => rfl
  | tail _ hlast ih =>
    exact ((hlast.1.input_eq me sender me' sender').2 (hlast.2 me sender me' sender')).trans ih

/-! ## Round trip

The texts of control data must end within their arrays for the first half, as they do for all that
the controller makes.  The second half starts from any bytes of the right length: what is decoded
from them fits, so it is kept from then on. -/

/-- The three texts end within their arrays. -/
structure Terminated (data : ESP_NOWControlData) : Prop where
  signalCode : (0 : UInt8) ∈ data.signalCode.toList
  contentName : (0 : UInt8) ∈ data.contentName.toList
  content : (0 : UInt8) ∈ data.content.toList

/-- The handlers' answer that repeats a message's fields. -/
def echo (inputData : InputData) : OutputData where
  senderId := inputData.senderId
  destId := inputData.destId
  signalCode := inputData.signalCode
  hopCount := inputData.hopCount
  contentName := inputData.contentName
  content := inputData.content

/-- A message's fields that are encoded again decode to the same message. -/
theorem decodePacket_echo {hmacSha256 : Key → List UInt8 → Hmac} {addr : Mac}
    {applySecurity mdOk : Bool} {m m' : PeerCounterManager} (myMac senderMac : Mac)
    {packet packet' : CommunicationData}
    (hbuild : buildPacketForAddress hmacSha256 addr
      (controlDataOf (echo (inputFromPacket myMac senderMac packet))) applySecurity mdOk m
        = (some packet', m')) :
    decodePacket myMac senderMac packet'.toBytes
      = some (inputFromPacket myMac senderMac packet) := by
  have hfits := fitsPacket_inputFromPacket myMac senderMac packet
  have hhop := packet.hopCount.toNat_lt
  -- the hop count of a packet is below 256
  have hbyte : (UInt8.ofNat (((packet.hopCount.toNat : Int) % 256).toNat)).toNat
      = packet.hopCount.toNat := by
    rw [UInt8.toNat_ofNat']
    omega
  have hcarries := carries_of_build hmacSha256 hbuild
  rw [decodePacket_toBytes, hcarries.input_of_answer myMac senderMac]
  refine congrArg some ?_
  show (⟨_, _, cstr (copyField _ (inputFromPacket myMac senderMac packet).signalCode).toList,
    ((UInt8.ofNat (((packet.hopCount.toNat : Int) % 256).toNat)).toNat : Int),
    cstr (copyField _ (inputFromPacket myMac senderMac packet).contentName).toList,
    cstr (copyField _ (inputFromPacket myMac senderMac packet).content).toList⟩ : InputData) = _
  rw [hfits.signalCode_fits.cstr_copyField, hfits.contentName_fits.cstr_copyField,
    hfits.content_fits.cstr_copyField, hbyte]
  rfl

/-- **The packet codec.**  The packet built for terminated control data decodes to its fields.
Whatever the bytes of a packet, the fields decoded from it, encoded again, decode to the same
fields; and after any number of hops through any nodes the packets sent because of it decode to its
name, and those that pass it on to its content. -/
theorem packet_codec_roundtrip (hmacSha256 : Key → List UInt8 → Hmac) (myMac senderMac : Mac) :
    (∀ (data : ESP_NOWControlData) (addr : Mac) (applySecurity mdOk : Bool)
      (m m' : PeerCounterManager) (packet : CommunicationData), Terminated data →
      buildPacketForAddress hmacSha256 addr data applySecurity mdOk m = (some packet, m') →
      decodePacket myMac senderMac packet.toBytes = some
        { senderId := addressToString senderMac
          destId := .singleton (addressToString myMac)
          signalCode := cstr data.signalCode.toList
          hopCount := data.hopCount.toNat
          contentName := cstr data.contentName.toList
          content := cstr data.content.toList }) ∧
    ∀ bytes : List UInt8, bytes.length = sizeofCommunicationData →
      ∃ packet inputData, packet.toBytes = bytes ∧
        decodePacket myMac senderMac bytes = some inputData ∧
        (∀ (addr : Mac) (applySecurity mdOk : Bool) (m m' : PeerCounterManager)
          (packet' : CommunicationData),
          buildPacketForAddress hmacSha256 addr (controlDataOf (echo inputData)) applySecurity mdOk
            m = (some packet', m') →
          decodePacket myMac senderMac packet'.toBytes = some inputData) ∧
        ∀ (packet' : CommunicationData) (me sender : Mac) (inputData' : InputData),
          decodePacket me sender packet'.toBytes = some inputData' →
          (Relation.ReflTransGen (SentFor hmacSha256) packet packet' →
            inputData'.contentName = inputData.contentName) ∧
          (Relation.ReflTransGen (PassedOn hmacSha256) packet packet' →
            inputData'.content = inputData.content) := by
  refine ⟨?built, fun bytes hlen => ?any⟩
  case built =>
    intro data addr applySecurity mdOk m m' packet hterm hbuild
    rw [decodePacket_toBytes, (carries_of_build hmacSha256 hbuild).input_eq myMac senderMac,
      cstr_copyField_of_mem data.signalCode hterm.signalCode,
      cstr_copyField_of_mem data.contentName hterm.contentName,
      cstr_copyField_of_mem data.content hterm.content]
  case any =>
    -- any bytes of this length are those of a packet
    have hbytes := CommunicationData.toBytes_ofBytes ⟨bytes, hlen⟩
    generalize CommunicationData.ofBytes ⟨bytes, hlen⟩ = packet at hbytes
    obtain rfl : packet.toBytes = bytes := hbytes
    refine ⟨packet, _, rfl, decodePacket_toBytes myMac senderMac packet, ?again, ?later⟩
    case again =>
      intro addr applySecurity mdOk m m' packet' hbuild
      exact decodePacket_echo myMac senderMac hbuild
    case later =>
      intro packet' me sender inputData' hlater
      rw [decodePacket_toBytes] at hlater
      obtain rfl := Option.some.inj hlater
      exact ⟨fun h => name_relayed h myMac senderMac me sender,
        fun h => content_relayed h myMac senderMac me sender⟩

/-- Control data of zeroes; and a packet of `a`s, whose name and content the first hop shortens to
99 and 19 bytes, as they then stay. -/
theorem packet_codec_roundtrip_full :
    (∀ packet m', buildPacketForAddress checksum Mac.zero {} false true .init = (some packet, m') →
      (decodePacket Mac.zero Mac.zero packet.toBytes).map InputData.contentName = some []) ∧
    ∃ inputData, decodePacket Mac.zero Mac.zero (List.replicate 167 97) = some inputData ∧
      inputData.contentName = List.replicate 99 97 ∧ inputData.content = List.replicate 19 97 ∧
      ∀ packet m', buildPacketForAddress checksum Mac.zero (controlDataOf (echo inputData)) false
          true .init = (some packet, m') →
        decodePacket Mac.zero Mac.zero packet.toBytes = some inputData := by
  obtain ⟨hbuilt, hany⟩ := packet_codec_roundtrip checksum Mac.zero Mac.zero
  obtain ⟨packet, inputData, -, hdecode, hagain, -⟩ := hany (List.replicate 167 97)
    List.length_replicate
  have htexts : (decodePacket Mac.zero Mac.zero (List.replicate 167 97)).map
      (fun inputData => (inputData.contentName, inputData.content))
        = some (List.replicate 99 97, List.replicate 19 97) := by decide +kernel
  rw [hdecode] at htexts
  obtain ⟨hname, hcontent⟩ := Prod.mk.inj (Option.some.inj htexts)
  refine ⟨fun packet m' hbuild => ?_, inputData, hdecode, hname, hcontent,
    fun packet m' hbuild => hagain _ _ _ _ m' packet hbuild⟩
  rw [hbuilt {} _ _ _ _ m' packet ⟨by decide, by decide, by decide⟩ hbuild]
  decide

end ESP_NOWController

end Icsn
