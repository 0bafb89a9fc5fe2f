import Icsn.Controller.ConfiguredKeys
import Icsn.Controller.PacketCodec
import Icsn.Lib.StepRun

/-!
# Icsn — two nodes with matching configurations

An INTEREST from one node to another, which has the same setting of HMAC and, with HMAC enabled,
the same key.  Verification asks whether HMAC is enabled; sending does not, and needs a key.

* **`keysKept_run`** — no event but a key update changes a key or enables or disables HMAC.
* **`sendInterest_sent`** — what `sendInterest` hands to the radio, where nothing fails.
* **`interest_processed`** — when the other node processes it.
* **`matching_nodes_talk_iff`** — with HMAC enabled they talk; with HMAC disabled exactly if the
  sender has a key for the receiver all the same.
-/

namespace Icsn

open StepRun

namespace ESP_NOWController

open PeerCounterManager (KeepsReceiving)

variable {caps : BuildCapacity} (hmacSha256 : Key → List UInt8 → Hmac)
  (systemConfig : SystemConfig)

/-! ## Keys over a run

The keys that the two nodes resolve have to be those of their boots when the INTEREST is sent,
whatever happened in between.  With HMAC enabled this is part of what a step is known to keep; with
HMAC disabled a received packet takes another way through `processReceivedPacket`, which has to be
looked at by itself. -/

/-- HMAC is enabled or disabled as before, with the same keys. -/
structure KeysKept (c c' : ESP_NOWController caps) : Prop where
  hmacEnabled_eq : c'.hmacAuthenticationEnabled = c.hmacAuthenticationEnabled
  keyFor_eq : ∀ mac, c'.peerCounterManager.keyFor mac = c.peerCounterManager.keyFor mac

variable {c c' c'' : ESP_NOWController caps}

theorem KeysKept.trans (h : KeysKept c c') (h' : KeysKept c' c'') : KeysKept c c'' where
  hmacEnabled_eq := h'.hmacEnabled_eq.trans h.hmacEnabled_eq
  keyFor_eq mac := (h'.keyFor_eq mac).trans (h.keyFor_eq mac)

/-- **Reception with HMAC disabled**: a packet of the right length from a registered sender is
processed, and the tables of keys and counters change only by what is sent. -/
theorem processReceivedPacket_of_disabled (myMac senderMac : Mac) (data : List UInt8)
    (env : ReceiveEnv) (hdisabled : c.hmacAuthenticationEnabled = false) :
    let r := c.processReceivedPacket hmacSha256 systemConfig myMac senderMac data env
    (r.1.processed = ((CommunicationData.decode? data).isSome
      && c.registerPeerIfNeeded systemConfig senderMac env.register)) ∧ KeysKept c r.2 := by
  -- the flag is a field of the state: taken apart, the checks of it evaluate
  obtain ⟨node, m, encryption, enabled, pmk⟩ := c
  obtain rfl : enabled = false := hdisabled
  unfold processReceivedPacket
  cases hdecode : CommunicationData.decode? data with
  | none => exact ⟨rfl, rfl, fun _ => rfl⟩
  | some packet =>
    dsimp only
    split
    · next hregister =>
      rw [hregister]
      exact ⟨rfl, rfl, fun _ => rfl⟩
    · next hregister =>
      rw [Bool.not_eq_false] at hregister
      rw [hregister, if_neg fun h => Bool.noConfusion h.1]
      -- the verification lets everything pass, and no counter moves
      have hverify : verifyIncomingPacket hmacSha256 false senderMac packet env.mdOk m
          = (true, m) := if_pos rfl
      rw [hverify]
      obtain ⟨answer, node', hdispatch⟩ := dispatchPacket_eq hmacSha256 systemConfig myMac
        senderMac packet env (⟨node, m, encryption, false, pmk⟩ : ESP_NOWController caps)
      rw [hdispatch]
      -- what the handlers answer is sent, which touches counters but no keys
      have hsend := sendsOnly_sendPacketToAddresses hmacSha256 systemConfig answer env.sends
        (⟨node', m, encryption, false, pmk⟩ : ESP_NOWController caps)
      exact ⟨rfl, hsend.hmacEnabled_eq, hsend.keeps.keyFor_eq⟩

/-- **One event** that sets no key. -/
theorem keysKept_controllerStep (myMac : Mac) (c : ESP_NOWController caps) {event : ControllerEvent}
    (hevent : event.setsKey = false) :
    KeysKept c (controllerStep hmacSha256 systemConfig myMac c event).2 := by
  cases hflag : c.hmacAuthenticationEnabled with
  | true =>
    obtain ⟨henabled, hkeys, -⟩ := controllerStep_keeps hmacSha256 systemConfig myMac hflag event
    exact ⟨henabled.trans hflag.symm, hkeys hevent⟩
  | false =>
    cases event with
    | processReceivedPacket senderMac data env =>
      exact (processReceivedPacket_of_disabled hmacSha256 systemConfig myMac senderMac data env
        hflag).2
    | sendPacketToAddresses data env =>
      have hsend := sendsOnly_sendPacketToAddresses hmacSha256 systemConfig data env c
      exact ⟨hsend.hmacEnabled_eq, hsend.keeps.keyFor_eq⟩
    | sendInterest contentName targetMac hopCount env =>
      have hsend := sendsOnly_sendPacketToAddresses hmacSha256 systemConfig
        (interestData contentName targetMac hopCount) env c
      exact ⟨hsend.hmacEnabled_eq, hsend.keeps.keyFor_eq⟩
    | setPeerLMK => exact Bool.noConfusion hevent
    | setGlobalLMK => exact Bool.noConfusion hevent
    | sendSensorData => exact ⟨rfl, fun _ => rfl⟩
    | initFIBEntry => exact ⟨rfl, fun _ => rfl⟩
    | clearCSCache => exact ⟨rfl, fun _ => rfl⟩
    | clearPITCache => exact ⟨rfl, fun _ => rfl⟩

/-- **A run** of such events. -/
theorem keysKept_run (myMac : Mac) (c : ESP_NOWController caps) {run : List ControllerEvent}
    (hrun : ∀ event ∈ run, event.setsKey = false) :
    KeysKept c (after (controllerStep hmacSha256 systemConfig myMac) c run) :=
  after_invariant
    (fun c' _ h hevent => h.trans (keysKept_controllerStep hmacSha256 systemConfig myMac c' hevent))
    ⟨rfl, fun _ => rfl⟩ (along_of_forall_mem _ hrun _)

/-! ## An INTEREST sent

Of the addresses in the control data of an INTEREST only the first one is not zero, so the send loop
comes down to one turn.  What that turn does depends on the key alone once the slot, the crypto
library, the registration and the radio are taken care of by the hypotheses. -/

/-- Turns for the zero address do nothing. -/
theorem foldl_zero_turns {data : ESP_NOWControlData} {env : Fin maxTxAddresses → SendEnv}
    {turns : List (Fin maxTxAddresses)} (h : ∀ i ∈ turns, data.txAddress.get i = Mac.zero)
    (acc : SendReport × ESP_NOWController caps) :
    turns.foldl (fun acc i =>
      sendPacketToAddress hmacSha256 systemConfig data (data.txAddress.get i) (env i) acc) acc
      = acc := by
  induction turns generalizing acc with
  | nil => rfl
  | cons i turns ih =>
    have hskip : sendPacketToAddress hmacSha256 systemConfig data (data.txAddress.get i) (env i) acc
        = acc := if_pos (h i List.mem_cons_self)
    rw [List.foldl_cons, hskip]
    exact ih (fun j hj => h j (List.mem_cons_of_mem i hj)) acc

/-- `sendInterest` has one address to send to. -/
theorem sendInterest_turn (contentName : Str) (targetMac : Mac) (hopCount : UInt8)
    (env : Fin maxTxAddresses → SendEnv) (c : ESP_NOWController caps) :
    c.sendInterest hmacSha256 systemConfig contentName targetMac hopCount env
      = sendPacketToAddress hmacSha256 systemConfig (interestData contentName targetMac hopCount)
        targetMac (env ⟨0, by decide⟩) ({}, c) := by
  -- the other nineteen addresses are zero
  have hrest : ∀ i ∈ (List.finRange maxTxAddresses).tail,
      (interestData contentName targetMac hopCount).txAddress.get i = Mac.zero := by
    intro i hi
    have hne : (⟨0, by decide⟩ : Fin maxTxAddresses) ≠ i := by
      rintro rfl
      exact absurd hi (by decide)
    show ((List.Vector.replicate maxTxAddresses Mac.zero).set _ targetMac).get i = _
    rw [List.Vector.get_set_of_ne hne, List.Vector.get_replicate]
  have htarget : (interestData contentName targetMac hopCount).txAddress.get ⟨0, by decide⟩
      = targetMac := List.Vector.get_set_same _ _ _
  have hcons : List.finRange maxTxAddresses
      = ⟨0, by decide⟩ :: (List.finRange maxTxAddresses).tail := by decide
  rw [sendInterest_eq]
  unfold sendPacketToAddresses
  rw [hcons, List.foldl_cons, foldl_zero_turns hmacSha256 systemConfig hrest, htarget]

/-- The INTEREST for a name with this hop count, counter and key. -/
def interestFor (key : Key) (contentName : Str) (targetMac : Mac) (hopCount : UInt8)
    (counter : UInt32) : CommunicationData :=
  let packet := packetOf (interestData contentName targetMac hopCount) counter
  { packet with hmac := hmacSha256 key packet.hmacData }

/-- **What `sendInterest` hands to the radio**, where nothing fails: with a key for the target, the
INTEREST under it. -/
theorem sendInterest_sent (contentName : Str) {targetMac : Mac} (hopCount : UInt8)
    {env : Fin maxTxAddresses → SendEnv} {c : ESP_NOWController caps}
    (hroom : c.peerCounterManager.HasRoom targetMac)
    (hmd : (env ⟨0, by decide⟩).mdOk = true)
    (hregister : c.registerPeerIfNeeded systemConfig targetMac
      (env ⟨0, by decide⟩).toRegisterEnv = true)
    (hsend : (env ⟨0, by decide⟩).sendOk = true) :
    (c.sendInterest hmacSha256 systemConfig contentName targetMac hopCount env).1.sent
      = if targetMac = Mac.zero then []
        else ((c.peerCounterManager.keyFor targetMac).map fun key =>
          (targetMac, interestFor hmacSha256 key contentName targetMac hopCount
            ((c.peerCounterManager.record targetMac).txCounter + 1))).toList := by
  rw [sendInterest_turn]
  unfold sendPacketToAddress
  dsimp only
  split
  · rfl
  · -- with a slot, building asks for nothing but the key
    have hbuild := buildPacketForAddress_fst hmacSha256 hroom
      (interestData contentName targetMac hopCount) true
    rw [if_pos rfl] at hbuild
    rw [hmd]
    revert hbuild
    obtain ⟨answer, m⟩ := buildPacketForAddress hmacSha256 targetMac
      (interestData contentName targetMac hopCount) true true c.peerCounterManager
    rintro rfl
    cases c.peerCounterManager.keyFor targetMac with
    | none => rfl
    | some key =>
      dsimp only [Option.map_some]
      have hregister' : registerPeerIfNeeded systemConfig targetMac
          (env ⟨0, by decide⟩).toRegisterEnv { c with peerCounterManager := m } = true := hregister
      rw [if_neg (by rw [hregister']; decide), if_neg (by rw [hsend]; decide)]
      rfl

/-! ## And received

The receiver meets the packet as bytes.  It is decoded as it was built, and the checks ask for the
very key and counter that it was built with. -/

/-- **When it is processed**: its sender is registered, and with HMAC enabled the receiver has the
key it was built under, and expects its counter. -/
theorem interest_processed {key : Key} {contentName : Str} {targetMac : Mac} {hopCount : UInt8}
    {counter : UInt32} {myMac senderMac : Mac} {env : ReceiveEnv} {c : ESP_NOWController caps}
    (hregister : c.registerPeerIfNeeded systemConfig senderMac env.register = true)
    (hchecks : c.hmacAuthenticationEnabled = true →
      c.peerCounterManager.HasRoom senderMac ∧ env.mdOk = true ∧
      c.peerCounterManager.keyFor senderMac = some key ∧
      counter = (c.peerCounterManager.record senderMac).rxCounter + 1) :
    (c.processReceivedPacket hmacSha256 systemConfig myMac senderMac
      (interestFor hmacSha256 key contentName targetMac hopCount counter).toBytes env).1.processed
      = true := by
  have hdecode := CommunicationData.decode?_toBytes
    (interestFor hmacSha256 key contentName targetMac hopCount counter)
  cases hflag : c.hmacAuthenticationEnabled with
  | false =>
    rw [(processReceivedPacket_of_disabled hmacSha256 systemConfig myMac senderMac _ env hflag).1,
      hdecode, hregister]
    rfl
  | true =>
    -- the verification passes or else one of its checks fails, and none does
    obtain ⟨hroom, hmd, hkey, hcounter⟩ := hchecks hflag
    rw [processed_eq hmacSha256 systemConfig myMac senderMac hdecode env hflag, hregister,
      Bool.true_and]
    rcases verifyIncomingPacket_cases hmacSha256 senderMac
      (interestFor hmacSha256 key contentName targetMac hopCount counter) env.mdOk
      c.peerCounterManager with ⟨hnot, -⟩ | ⟨-, hpassed, -⟩
    · refine absurd ⟨hroom, hmd, ⟨key, hkey, ?_⟩, hcounter⟩ hnot
      -- the HMAC covers none of its own bytes
      have hcovered : (interestFor hmacSha256 key contentName targetMac hopCount counter).hmacData
          = (packetOf (interestData contentName targetMac hopCount) counter).hmacData := by
        rw [CommunicationData.hmacData_eq, CommunicationData.hmacData_eq]
        rfl
      exact congrArg (hmacSha256 key) hcovered
    · exact hpassed

end ESP_NOWController

/-! ## Two nodes

What the sender lacks when HMAC is disabled: `loadAndApplyConfig` installs the default key only with
HMAC enabled, while the keys of the peers are installed in any case, and `sendPacketToAddresses`
asks for a key in any case. -/

/-- A node that has a key for a peer if HMAC is enabled has one exactly if HMAC is enabled or its
configuration has a key for the peer: without HMAC the default key is not installed. -/
theorem keyed_iff {config : SystemConfig} {mac : Mac}
    (henabled : config.hmacAuthenticationEnabled = true →
      ((configuredKey mac config.hmacPeers).or config.hmacDefault).isSome = true) :
    ((configuredKey mac config.hmacPeers).or config.hmacDefault).isSome = true ↔
      config.hmacAuthenticationEnabled = true ∨
        ∃ entry ∈ config.hmacPeers, entry.valid = true ∧ entry.mac = mac := by
  rw [← configuredKey_isSome_iff]
  cases hflag : config.hmacAuthenticationEnabled with
  | true => exact iff_of_true (henabled hflag) (Or.inl rfl)
  -- without HMAC the default key is not installed, so what is left are the keys of the peers
  | false =>
    have hnone : config.hmacDefault = none := by
      unfold SystemConfig.hmacDefault
      exact if_neg fun h => absurd (hflag.symm.trans h.1) (by decide)
    rw [hnone, Option.or_none, or_iff_right (by decide)]

open ESP_NOWController in
/-- **Matching configurations talk exactly if the sender has a key.**  Two nodes with the same
setting of HMAC and, with HMAC enabled, the same key for each other, each after any run without key
updates, with fresh counters for each other, room, and a radio and a crypto library that do what
they are asked: for every name and hop count, an INTEREST from A is handed to the radio and
processed by B if and only if B's MAC is not zero, and HMAC is enabled or A's configuration has a
key for B. -/
theorem matching_nodes_talk_iff (hmacSha256 : Key → List UInt8 → Hmac) {capsA capsB : BuildCapacity}
    (configA configB : SystemConfig) (macA macB : Mac) (runA runB : List ControllerEvent)
    (hrunA : ∀ event ∈ runA, event.setsKey = false)
    (hrunB : ∀ event ∈ runB, event.setsKey = false)
    (hflag : configB.hmacAuthenticationEnabled = configA.hmacAuthenticationEnabled) :
    let a := after (controllerStep hmacSha256 configA macA) (boot capsA configA) runA
    let b := after (controllerStep hmacSha256 configB macB) (boot capsB configB) runB
    (configA.hmacAuthenticationEnabled = true → ∃ key, a.peerCounterManager.keyFor macB = some key ∧
      b.peerCounterManager.keyFor macA = some key) →
    (a.peerCounterManager.record macB).txCounter = 0 →
    (b.peerCounterManager.record macA).rxCounter = 0 →
    a.peerCounterManager.HasRoom macB → b.peerCounterManager.HasRoom macA →
    ∀ (env : Fin maxTxAddresses → SendEnv) (receiveEnv : ReceiveEnv),
    a.registerPeerIfNeeded configA macB (env ⟨0, by decide⟩).toRegisterEnv = true →
    (env ⟨0, by decide⟩).mdOk = true → (env ⟨0, by decide⟩).sendOk = true →
    b.registerPeerIfNeeded configB macA receiveEnv.register = true → receiveEnv.mdOk = true →
    ∀ (contentName : Str) (hopCount : UInt8),
    (∃ packet,
      (a.sendInterest hmacSha256 configA contentName macB hopCount env).1.sent = [(macB, packet)] ∧
      (b.processReceivedPacket hmacSha256 configB macB macA packet.toBytes
        receiveEnv).1.processed = true) ↔
    macB ≠ Mac.zero ∧ (configA.hmacAuthenticationEnabled = true ∨
      ∃ entry ∈ configA.hmacPeers, entry.valid = true ∧ entry.mac = macB) := by
  intro a b hkey htx hrx hroomA hroomB env receiveEnv hregisterA hmdA hsend hregisterB hmdB
    contentName hopCount
  -- both nodes resolve the keys of their boots
  have hkeptA : KeysKept (boot capsA configA) a := keysKept_run hmacSha256 configA macA _ hrunA
  have hkeptB : KeysKept (boot capsB configB) b := keysKept_run hmacSha256 configB macB _ hrunB
  have hkeyA : a.peerCounterManager.keyFor macB
      = (configuredKey macB configA.hmacPeers).or configA.hmacDefault :=
    (hkeptA.keyFor_eq macB).trans (keyFor_boot configA macB)
  -- so what A hands to the radio is known, with the first counter
  have hsent := sendInterest_sent hmacSha256 configA contentName hopCount hroomA hmdA hregisterA
    hsend
  rw [htx] at hsent
  rw [hsent]
  by_cases hzero : macB = Mac.zero
  · -- the zero address is skipped
    rw [if_pos hzero]
    exact iff_of_false (fun ⟨_, h, _⟩ => List.cons_ne_nil _ _ h.symm) (fun h => h.1 hzero)
  · -- for another address all depends on whether A has a key for B
    have hkeyed := @keyed_iff configA macB fun henabled => by
      obtain ⟨key, hkeyAB, -⟩ := hkey henabled
      rw [← hkeyA, hkeyAB]
      rfl
    rw [if_neg hzero, and_iff_right hzero, ← hkeyed, ← hkeyA]
    cases hfound : a.peerCounterManager.keyFor macB with
    | none =>
      -- nothing is built without a key
      exact iff_of_false (fun ⟨_, h, _⟩ => List.cons_ne_nil _ _ h.symm) (by decide)
    | some key =>
      -- with a key the packet is built and sent, and B has to accept it: it checks it only with
      -- HMAC enabled, and then it has this key and expects this counter
      refine iff_of_true ⟨_, rfl, ?_⟩ rfl
      refine interest_processed hmacSha256 configB hregisterB fun henabled => ?_
      rw [hkeptB.hmacEnabled_eq, hmacEnabled_boot, hflag] at henabled
      obtain ⟨key', hkeyAB, hkeyBA⟩ := hkey henabled
      rw [hfound] at hkeyAB
      rw [hrx]
      exact ⟨hroomB, hmdB, hkeyBA.trans hkeyAB.symm, rfl⟩

/-- Two nodes booted with one default key. -/
theorem matching_nodes_talk_default :
    let a := ESP_NOWController.boot (.uniform 1 (by decide)) (.hmacWith Key.zero)
    let macA : Mac := List.Vector.replicate _ 1
    let macB : Mac := List.Vector.replicate _ 2
    ∀ (contentName : Str) (hopCount : UInt8), ∃ packet,
      (a.sendInterest checksum (.hmacWith Key.zero) contentName macB hopCount
        fun _ => .good).1.sent = [(macB, packet)] ∧
      (a.processReceivedPacket checksum (.hmacWith Key.zero) macB macA packet.toBytes
        .good).1.processed = true := by
  intro a macA macB contentName hopCount
  exact (matching_nodes_talk_iff checksum (.hmacWith Key.zero) (.hmacWith Key.zero) macA macB [] []
    (fun _ hevent => absurd hevent List.not_mem_nil)
    (fun _ hevent => absurd hevent List.not_mem_nil) rfl
    (fun _ => ⟨Key.zero, by decide +kernel, by decide +kernel⟩) (by decide +kernel)
    (by decide +kernel) (by decide +kernel) (by decide +kernel) (fun _ => .good) .good
    (by decide +kernel) rfl rfl (by decide +kernel) rfl contentName hopCount).mpr
    ⟨by decide +kernel, Or.inl rfl⟩

/-- **With HMAC disabled they do not**: two nodes with one configuration, which has HMAC disabled
and a default key.  The sender makes no use of the key, and nothing is handed to the radio. -/
theorem not_matching_nodes_talk :
    ¬ ∀ (hmacSha256 : Key → List UInt8 → Hmac) (capsA capsB : BuildCapacity)
      (configA configB : SystemConfig) (macA macB : Mac) (runA runB : List ControllerEvent),
      (∀ event ∈ runA, event.setsKey = false) → (∀ event ∈ runB, event.setsKey = false) →
      configB.hmacAuthenticationEnabled = configA.hmacAuthenticationEnabled →
      let a := after (controllerStep hmacSha256 configA macA) (.boot capsA configA) runA
      let b := after (controllerStep hmacSha256 configB macB) (.boot capsB configB) runB
      (configA.hmacAuthenticationEnabled = true → ∃ key,
        a.peerCounterManager.keyFor macB = some key ∧
          b.peerCounterManager.keyFor macA = some key) →
      (a.peerCounterManager.record macB).txCounter = 0 →
      (b.peerCounterManager.record macA).rxCounter = 0 →
      a.peerCounterManager.HasRoom macB → b.peerCounterManager.HasRoom macA →
      ∀ (env : Fin maxTxAddresses → SendEnv) (receiveEnv : ReceiveEnv),
      a.registerPeerIfNeeded configA macB (env ⟨0, by decide⟩).toRegisterEnv = true →
      (env ⟨0, by decide⟩).mdOk = true → (env ⟨0, by decide⟩).sendOk = true →
      b.registerPeerIfNeeded configB macA receiveEnv.register = true → receiveEnv.mdOk = true →
      ∀ (contentName : Str) (hopCount : UInt8), ∃ packet,
        (a.sendInterest hmacSha256 configA contentName macB hopCount env).1.sent
            = [(macB, packet)] ∧
          (b.processReceivedPacket hmacSha256 configB macB macA packet.toBytes
            receiveEnv).1.processed = true := by
  intro h
  -- HMAC disabled, and a default key that is therefore not installed
  let config : SystemConfig := { hmacDefaultKeyConfigured := true }
  let macB : Mac := List.Vector.replicate _ 2
  obtain ⟨packet, hsent, -⟩ := h checksum (.uniform 1 (by decide)) (.uniform 1 (by decide)) config
    config (List.Vector.replicate _ 1) macB [] [] (fun _ hevent => absurd hevent List.not_mem_nil)
    (fun _ hevent => absurd hevent List.not_mem_nil) rfl (fun henabled => Bool.noConfusion henabled)
    (by decide +kernel) (by decide +kernel) (by decide +kernel) (by decide +kernel)
    (fun _ => .good) .good (by decide +kernel) rfl rfl (by decide +kernel) rfl
    (ascii ['/', 'a']) 0
  have hnone : ((ESP_NOWController.boot (.uniform 1 (by decide)) config).sendInterest checksum
      config (ascii ['/', 'a']) macB 0 fun _ => .good).1.sent = [] := by decide +kernel
  exact List.cons_ne_nil _ _ (hsent.symm.trans hnone)

end Icsn
