import Icsn.Controller.ControllerSteps
import Icsn.Lib.StepRun
import Icsn.Lib.SuccessorGate

/-!
# Icsn — no packet is accepted twice

A node with HMAC enabled, from its boot on, under any events: packets of any bytes from any source,
sends, key updates, and what else can happen to it.

* **`acceptedFrom`** — the packets of one peer that reached the node's handlers, in order.
* **`Guarded`** — their counters follow one another, and the peer's receive counter is the last of
  them.  Every event keeps it.
* **`replay_safety`** — the main result.
-/

namespace Icsn

open StepRun SuccessorGate
open ESP_NOWController (boot KeepsGuard)

/-- The packet of peer `p` that an event brought to `receiveMessage`. -/
def acceptedPacket (p : Mac) : ControllerEvent × ControllerReport → Option CommunicationData
  | (.processReceivedPacket senderMac data _, report) =>
    if senderMac = p ∧ report.processed = true then CommunicationData.decode? data else none
  | _ => none

/-- A packet comes in under this source. -/
def ControllerEvent.isFrom (mac : Mac) : ControllerEvent → Bool
  | .processReceivedPacket senderMac _ _ => decide (senderMac = mac)
  | _ => false

/-- The packets of peer `p` that reached `receiveMessage`, in order. -/
def acceptedFrom (p : Mac) (tr : List (ControllerEvent × ControllerReport)) :
    List CommunicationData :=
  tr.filterMap (acceptedPacket p)

/-- The receive counter kept for a peer. -/
def rxCounterOf {caps : BuildCapacity} (mac : Mac) (c : ESP_NOWController caps) : UInt32 :=
  (c.peerCounterManager.record mac).rxCounter

/-! ## One event

Only a received packet can move a receive counter, and only that of its source, by one, to the
counter that was accepted.  Every other event is shown to leave the receive counters alone. -/

section Step

variable {caps : BuildCapacity} (hmacSha256 : Key → List UInt8 → Hmac)
  (systemConfig : SystemConfig) (myMac : Mac) {c c' : ESP_NOWController caps}

/-- What leaves the receive counters alone has accepted nothing. -/
theorem consecutive_of_keepsGuard (h : KeepsGuard c c') (p : Mac) :
    Consecutive (· + 1) (rxCounterOf p c) [] (rxCounterOf p c') := by
  unfold rxCounterOf
  rw [h.rxCounter_eq]
  exact .nil

/-- A received packet is accepted from its source with the next counter, or from no one. -/
theorem consecutive_receive (henabled : c.hmacAuthenticationEnabled = true) (senderMac : Mac)
    (data : List UInt8) (env : ReceiveEnv) (p : Mac) :
    let event := ControllerEvent.processReceivedPacket senderMac data env
    let r := controllerStep hmacSha256 systemConfig myMac c event
    Consecutive (· + 1) (rxCounterOf p c)
      ((acceptedPacket p (event, r.1)).toList.map CommunicationData.counter)
      (rxCounterOf p r.2) := by
  have hrx := ESP_NOWController.rxCounter_processReceivedPacket hmacSha256 systemConfig myMac
    senderMac data env henabled p
  unfold controllerStep acceptedPacket rxCounterOf
  dsimp only at hrx ⊢
  rw [hrx]
  rcases ESP_NOWController.processReceivedPacket_cases hmacSha256 systemConfig myMac senderMac data
    env henabled with ⟨hnot, -⟩ | ⟨hyes, packet, hdecode, -, hnext, -⟩
  · -- dropped
    rw [hnot, if_neg (by simp), if_neg (by simp), UInt32.add_zero]
    exact .nil
  · rw [hyes]
    by_cases hp : senderMac = p
    · -- accepted from `p`
      rw [if_pos ⟨hp, rfl⟩, if_pos ⟨hp.symm, rfl⟩, hdecode, ← hp, ← hnext]
      show Consecutive (· + 1) _ [packet.counter] packet.counter
      rw [hnext]
      exact .snoc .nil
    · -- accepted from another peer
      rw [if_neg (fun h => hp h.1), if_neg (fun h => hp h.1.symm), UInt32.add_zero]
      exact .nil

/-- **One event** accepts from each peer the next counter, or nothing, and HMAC stays enabled. -/
theorem consecutive_step (henabled : c.hmacAuthenticationEnabled = true) (event : ControllerEvent) :
    let r := controllerStep hmacSha256 systemConfig myMac c event
    r.2.hmacAuthenticationEnabled = true ∧
      ∀ p, Consecutive (· + 1) (rxCounterOf p c)
        ((acceptedPacket p (event, r.1)).toList.map CommunicationData.counter)
        (rxCounterOf p r.2) := by
  have hquiet : ∀ c', KeepsGuard c c' → c'.hmacAuthenticationEnabled = true ∧
      ∀ p, Consecutive (· + 1) (rxCounterOf p c) [] (rxCounterOf p c') := fun c' h =>
    ⟨h.hmacEnabled_eq.trans henabled, consecutive_of_keepsGuard h⟩
  cases event with
  | processReceivedPacket senderMac data env =>
    exact ⟨(ESP_NOWController.processReceivedPacket_keeps hmacSha256 systemConfig myMac senderMac
      data env henabled).1, consecutive_receive hmacSha256 systemConfig myMac henabled senderMac
      data env⟩
  | sendPacketToAddresses data env =>
    exact hquiet _ (ESP_NOWController.sendsOnly_sendPacketToAddresses hmacSha256 systemConfig data
      env c).keepsGuard
  | sendInterest contentName targetMac hopCount env =>
    exact hquiet _ (ESP_NOWController.sendsOnly_sendPacketToAddresses hmacSha256 systemConfig _
      env c).keepsGuard
  | setPeerLMK mac lmk =>
    exact hquiet _ (ESP_NOWController.keepsCounters_setPeerLMK mac lmk c).toKeepsGuard
  | sendSensorData => exact hquiet _ ⟨rfl, fun _ => rfl⟩
  | setGlobalLMK => exact hquiet _ ⟨rfl, fun _ => rfl⟩
  | initFIBEntry => exact hquiet _ ⟨rfl, fun _ => rfl⟩
  | clearCSCache => exact hquiet _ ⟨rfl, fun _ => rfl⟩
  | clearPITCache => exact hquiet _ ⟨rfl, fun _ => rfl⟩

/-- **No packet from a peer**, no change of its receive counter. -/
theorem rxCounterOf_controllerStep (henabled : c.hmacAuthenticationEnabled = true) {p : Mac}
    {event : ControllerEvent} (hother : event.isFrom p = false) :
    rxCounterOf p (controllerStep hmacSha256 systemConfig myMac c event).2 = rxCounterOf p c := by
  refine ((consecutive_step hmacSha256 systemConfig myMac henabled event).2 p).last_eq ?_
  cases event with
  | processReceivedPacket senderMac data env =>
    have hne : ¬ senderMac = p := of_decide_eq_false hother
    unfold acceptedPacket
    dsimp only
    rw [if_neg (fun h => hne h.1)]
    rfl
  | _ => rfl

end Step

/-! ## Runs

The invariant is kept over the trace, as it speaks of all packets accepted so far.  The main result
then turns consecutive counters into numbers, which takes that fewer than 2^32 were accepted. -/

/-- HMAC is enabled, and the counters accepted from each peer follow one another up to its receive
counter. -/
structure Guarded {caps : BuildCapacity} (tr : List (ControllerEvent × ControllerReport))
    (c : ESP_NOWController caps) : Prop where
  enabled : c.hmacAuthenticationEnabled = true
  consecutive : ∀ p, Consecutive (· + 1) 0 ((acceptedFrom p tr).map CommunicationData.counter)
    (rxCounterOf p c)

section Runs

variable (caps : BuildCapacity) (hmacSha256 : Key → List UInt8 → Hmac)
  (systemConfig : SystemConfig) (henabled : systemConfig.hmacAuthenticationEnabled = true)
  (myMac : Mac)

include henabled in
theorem guarded_boot : Guarded [] (boot caps systemConfig) where
  enabled := (ESP_NOWController.hmacEnabled_boot systemConfig).trans henabled
  consecutive p := by
    unfold rxCounterOf
    rw [(ESP_NOWController.counters_boot systemConfig p).2]
    exact .nil

variable {caps} in
theorem Guarded.step {tr : List (ControllerEvent × ControllerReport)} {c : ESP_NOWController caps}
    (h : Guarded tr c) (event : ControllerEvent) :
    let r := controllerStep hmacSha256 systemConfig myMac c event
    Guarded (tr ++ [(event, r.1)]) r.2 := by
  obtain ⟨henabled', hnew⟩ :=
    consecutive_step hmacSha256 systemConfig myMac h.enabled event
  refine ⟨henabled', fun p => ?_⟩
  -- the trace's new member adds what this event accepted from `p`
  have hacc : ∀ last, acceptedFrom p (tr ++ [last])
      = acceptedFrom p tr ++ (acceptedPacket p last).toList := by
    intro last
    unfold acceptedFrom
    rw [List.filterMap_append]
    cases hlast : acceptedPacket p last <;> simp [hlast]
  rw [hacc, List.map_append]
  exact (h.consecutive p).append (hnew p)

include henabled in
/-- **Along a run** from the boot, the counters accepted from each peer follow one another. -/
theorem guarded_run (run : List ControllerEvent) :
    let step := controllerStep hmacSha256 systemConfig myMac
    let start := boot caps systemConfig
    Guarded (trace step start run) (after step start run) :=
  trace_invariant (P := fun _ _ => True)
    (fun _ _ event h _ => h.step hmacSha256 systemConfig myMac event)
    (guarded_boot caps systemConfig henabled) run (along_of_forall _ _ (fun _ _ => trivial) _ _)

include henabled in
/-- **Replay safety.**  From the boot of a node with HMAC enabled on, and for a peer `p` from which
fewer than 2^32 packets are accepted: the counters of the packets that reach `receiveMessage` are
1, 2, 3, … in order; each such packet carries the HMAC under the key resolved for its source at that
moment; and any other packet changes neither table nor receive counter. -/
theorem replay_safety (run : List ControllerEvent) (p : Mac)
    (hfew : (acceptedFrom p (trace (controllerStep hmacSha256 systemConfig myMac)
      (boot caps systemConfig) run)).length < 2 ^ 32) :
    let step := controllerStep hmacSha256 systemConfig myMac
    let start := boot caps systemConfig
    let accepted := acceptedFrom p (trace step start run)
    accepted.map (fun packet => packet.counter.toNat) = List.range' 1 accepted.length ∧
    ∀ pre senderMac data env post,
      run = pre ++ .processReceivedPacket senderMac data env :: post →
      let c := after step start pre
      let r := step c (.processReceivedPacket senderMac data env)
      (r.1.processed = true → ∃ packet key, CommunicationData.decode? data = some packet ∧
        c.peerCounterManager.keyFor senderMac = some key ∧
        hmacSha256 key packet.hmacData = packet.hmac) ∧
      (r.1.processed = false → r.2.node = c.node ∧
        ∀ mac, rxCounterOf mac r.2 = rxCounterOf mac c) := by
  intro step start accepted
  have hguard := guarded_run caps hmacSha256 systemConfig henabled myMac
  constructor
  · -- fewer than 2^32 successors of 0 do not wrap, so they are 1, 2, 3, … as numbers
    have hcounters := ((hguard run).consecutive p).map_toNat UInt32.toNat
      (fun _ => PeerCounterManager.toNat_counter_succ)
      (by rw [List.length_map]; exact (Nat.zero_add _).trans_lt hfew)
    rw [List.map_map, List.length_map] at hcounters
    exact hcounters.1
  · intro pre senderMac data env post _ c r
    rcases ESP_NOWController.processReceivedPacket_cases hmacSha256 systemConfig myMac
      senderMac data env (hguard pre).enabled with
      ⟨hnot, -, m, hs, heq⟩ | ⟨hyes, packet, hdecode, ⟨key, hkey, hhmac⟩, -⟩
    · -- dropped: only a slot may have been taken, and no record is changed by that
      have hend : r.2 = { c with peerCounterManager := m } := heq
      refine ⟨fun h => absurd (hnot.symm.trans h) (by decide), fun _ => ⟨?_, fun mac => ?_⟩⟩
      · rw [hend]
      · unfold rxCounterOf
        rw [hend]
        exact congrArg PeerCounter.rxCounter (hs.record_eq mac)
    · exact ⟨fun _ => ⟨packet, key, hdecode, hkey, hhmac⟩,
        fun h => absurd (hyes.symm.trans h) (by decide)⟩

end Runs

/-- Peer 1 sends its first packet, which comes in twice, and its second one. -/
theorem replay_safety_replayed :
    let peer : Mac := List.Vector.replicate _ 1
    let step := controllerStep checksum (.hmacWith Key.zero) (List.Vector.replicate _ 2)
    let start := boot (.uniform 4 (by decide)) (.hmacWith Key.zero)
    let receive (counter : UInt32) := ControllerEvent.processReceivedPacket peer
      (interestPacket Key.zero (ascii ['/', 'a']) counter).toBytes .good
    let run := [receive 1, receive 1,
      .sendInterest (ascii ['/', 'b']) peer 0 fun _ => .good, receive 2]
    let accepted := acceptedFrom peer (trace step start run)
    accepted.length = 2 ∧
    accepted.map (fun packet => packet.counter.toNat) = List.range' 1 accepted.length ∧
    ∀ pre senderMac data env post,
      run = pre ++ .processReceivedPacket senderMac data env :: post →
      let c := after step start pre
      let r := step c (.processReceivedPacket senderMac data env)
      (r.1.processed = true → ∃ packet key, CommunicationData.decode? data = some packet ∧
        c.peerCounterManager.keyFor senderMac = some key ∧
        checksum key packet.hmacData = packet.hmac) ∧
      (r.1.processed = false → r.2.node = c.node ∧
        ∀ mac, rxCounterOf mac r.2 = rxCounterOf mac c) := by
  intro peer step start receive run accepted
  have hlen : accepted.length = 2 := by decide +kernel
  exact ⟨hlen, replay_safety (.uniform 4 (by decide)) checksum (.hmacWith Key.zero) rfl
    (List.Vector.replicate _ 2) run peer (by rw [show _ = 2 from hlen]; decide)⟩

end Icsn
