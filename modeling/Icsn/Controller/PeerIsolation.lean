import Icsn.Controller.PeerCounterManager
import Icsn.Lib.SlotOccupancy
import Icsn.Lib.StepRun

/-!
# Icsn — peers do not get into each other's way

Any calls on a `PeerCounterManager`, for any MACs, from the constructor on.

* **`peerStep_slots`** — a call takes the slot it looks for, and no other; from it come the slots
  with distinct MACs (`macsUnique_peerStep`) and the MAC that a slot keeps (`peerStep_keeps_mac`).
* **`peerStep_frame`** — a call changes no record but that of its MAC.
* **`lacksSlot_iff`** — a call finds no slot exactly if its MAC is unknown and twenty are known.
* **`peers_isolated`** — all of it, after any run.
-/

namespace Icsn

open StepRun

/-- A call on the table, with what the crypto library makes of it. -/
inductive PeerCall where
  | setGlobalLMK (lmk : Key)
  | setPeerLMK (mac : Mac) (lmk : Key)
  | incrementTxCounter (mac : Mac)
  | validateRxCounter (mac : Mac) (receivedCounter : UInt32)
  | computeHMAC (mac : Mac) (data : List UInt8) (mdOk : Bool)
  | verifyHMAC (mac : Mac) (data : List UInt8) (expectedHmac : Hmac) (mdOk : Bool)

namespace PeerCall

/-- The MAC that a call is about. -/
def mac? : PeerCall → Option Mac
  | setGlobalLMK _ => none
  | setPeerLMK mac _ => some mac
  | incrementTxCounter mac => some mac
  | validateRxCounter mac _ => some mac
  | computeHMAC mac _ _ => some mac
  | verifyHMAC mac _ _ _ => some mac

/-- The call may count. -/
def counts : PeerCall → Bool
  | incrementTxCounter _ => true
  | validateRxCounter _ _ => true
  | _ => false

end PeerCall

namespace PeerCounterManager

/-- The MACs with a slot. -/
def activeMacs (m : PeerCounterManager) : Finset Mac := slots.keysInUse m.peers

/-- No two active slots have the same MAC. -/
def MacsUnique (m : PeerCounterManager) : Prop :=
  ∀ i j, (m.peers i).active = true → (m.peers j).active = true →
    (m.peers i).peerMac = (m.peers j).peerMac → i = j

/-- No slot is found for the MAC, and none is made. -/
def LacksSlot (mac : Mac) (m : PeerCounterManager) : Prop := (m.findOrCreatePeerIndex mac).1 = none

section PeerStep

variable (hmacSha256 : Key → List UInt8 → Hmac)

/-- One call: whether it reports success, and the table after it. -/
def peerStep (m : PeerCounterManager) : PeerCall → Bool × PeerCounterManager
  | .setGlobalLMK lmk => (true, m.setGlobalLMK lmk)
  | .setPeerLMK mac lmk => m.setPeerLMK mac lmk
  | .incrementTxCounter mac =>
    let r := m.incrementTxCounter mac
    (r.1.isSome, r.2)
  | .validateRxCounter mac receivedCounter => m.validateRxCounter mac receivedCounter
  | .computeHMAC mac data mdOk =>
    let r := m.computeHMAC hmacSha256 mac data mdOk
    (r.1.isSome, r.2)
  | .verifyHMAC mac data expectedHmac mdOk => m.verifyHMAC hmacSha256 mac data expectedHmac mdOk

variable {m : PeerCounterManager} {call : PeerCall} {mac mac' : Mac}

/-! ## Slots

All calls treat slots alike, as they all begin with the same look.  So distinct MACs, and a MAC that
stays in its slot, are shown for that look and hold for every call. -/

/-- **A call takes the slot it looks for**, and no other. -/
theorem peerStep_slots (hmac : call.mac? = some mac) :
    SameSlots (m.findOrCreatePeerIndex mac).2 (peerStep hmacSha256 m call).2 := by
  cases call with
  | setGlobalLMK lmk => cases hmac
  | setPeerLMK mac lmk =>
    obtain rfl := Option.some.inj hmac
    exact sameSlots_setPeerLMK mac lmk m
  | incrementTxCounter mac =>
    obtain rfl := Option.some.inj hmac
    exact sameSlots_incrementTxCounter mac m
  | validateRxCounter mac receivedCounter =>
    obtain rfl := Option.some.inj hmac
    exact sameSlots_validateRxCounter mac receivedCounter m
  | computeHMAC mac data mdOk =>
    obtain rfl := Option.some.inj hmac
    rw [peerStep, computeHMAC_snd]
    exact .refl _
  | verifyHMAC mac data expectedHmac mdOk =>
    obtain rfl := Option.some.inj hmac
    rw [peerStep, verifyHMAC_snd]
    exact .refl _

/-- The one call without a MAC leaves all slots alone. -/
theorem peers_peerStep_of_no_mac (hmac : call.mac? = none) :
    (peerStep hmacSha256 m call).2.peers = m.peers := by
  cases call with
  | setGlobalLMK lmk => rfl
  | _ => cases hmac

theorem peers_findOrCreatePeerIndex (mac : Mac) (m : PeerCounterManager) :
    (m.findOrCreatePeerIndex mac).2.peers = (slots.claim mac m.peers).2 := by
  rw [findOrCreatePeerIndex_eq]

/-- **A slot in use keeps its MAC**, and stays in use. -/
theorem peerStep_keeps_mac {i : Fin maxPeers} (hactive : (m.peers i).active = true) :
    ((peerStep hmacSha256 m call).2.peers i).active = true ∧
      ((peerStep hmacSha256 m call).2.peers i).peerMac = (m.peers i).peerMac := by
  cases hmac : call.mac? with
  | none =>
    rw [peers_peerStep_of_no_mac hmacSha256 hmac]
    exact ⟨hactive, rfl⟩
  | some mac =>
    obtain ⟨hlive, hkey⟩ := peerStep_slots hmacSha256 (m := m) hmac i
    have hclaim := SlotKind.claim_of_live slots mac (t := m.peers) (i := i) hactive
    rw [peers_findOrCreatePeerIndex, hclaim] at hlive hkey
    exact ⟨hlive.trans hactive, hkey⟩

/-- **No MAC gets a second slot.** -/
theorem macsUnique_peerStep (h : m.MacsUnique) : (peerStep hmacSha256 m call).2.MacsUnique := by
  cases hmac : call.mac? with
  | none =>
    unfold MacsUnique
    rw [peers_peerStep_of_no_mac hmacSha256 hmac]
    exact h
  | some mac =>
    have hone : slots.OneSlotEach m.peers := h
    have hclaim : slots.OneSlotEach (m.findOrCreatePeerIndex mac).2.peers := by
      rw [peers_findOrCreatePeerIndex]
      exact hone.claim mac
    exact hclaim.congr (peerStep_slots hmacSha256 hmac)

/-! ## Records

A call about one MAC is seen by no other: its record stays, and so does whether it has a slot. -/

/-- What a call does to the records: those of other MACs stay, and so do the counters of its own
unless it counts. -/
theorem peerStep_records (hmac : call.mac? = some mac) :
    (∀ mac', mac' ≠ mac → (peerStep hmacSha256 m call).2.record mac' = m.record mac') ∧
      (call.counts = false →
        ((peerStep hmacSha256 m call).2.record mac).txCounter = (m.record mac).txCounter ∧
        ((peerStep hmacSha256 m call).2.record mac).rxCounter = (m.record mac).rxCounter) := by
  -- each call by its lemma about records: no room and no change, or one record set
  cases call with
  | setGlobalLMK lmk => cases hmac
  | setPeerLMK mac lmk =>
    obtain rfl := Option.some.inj hmac
    rw [peerStep]
    rcases m.setPeerLMK_cases mac lmk with ⟨-, heq⟩ | ⟨-, -, hset⟩
    · rw [heq]
      exact ⟨fun _ _ => rfl, fun _ => ⟨rfl, rfl⟩⟩
    · rw [hset.record_self]
      exact ⟨hset.record_ne, fun _ => ⟨rfl, rfl⟩⟩
  | incrementTxCounter mac =>
    obtain rfl := Option.some.inj hmac
    refine ⟨?_, fun hcounts => Bool.noConfusion hcounts⟩
    rw [peerStep]
    rcases m.incrementTxCounter_cases mac with ⟨-, heq⟩ | ⟨-, -, hset⟩
    · rw [heq]
      exact fun _ _ => rfl
    · exact hset.record_ne
  | validateRxCounter mac receivedCounter =>
    obtain rfl := Option.some.inj hmac
    refine ⟨?_, fun hcounts => Bool.noConfusion hcounts⟩
    rw [peerStep]
    rcases m.validateRxCounter_cases mac receivedCounter with ⟨-, -, hsame⟩ | ⟨-, -, -, hset⟩
    · exact fun mac' _ => hsame.record_eq mac'
    · exact hset.record_ne
  | computeHMAC mac data mdOk =>
    have hsame := (m.computeHMAC_cases hmacSha256 mac data mdOk).1
    rw [peerStep]
    dsimp only
    refine ⟨fun mac' _ => hsame.record_eq mac', fun _ => ?_⟩
    rw [hsame.record_eq]
    exact ⟨rfl, rfl⟩
  | verifyHMAC mac data expectedHmac mdOk =>
    have hsame := (m.verifyHMAC_cases hmacSha256 mac data expectedHmac mdOk).1
    rw [peerStep]
    refine ⟨fun mac' _ => hsame.record_eq mac', fun _ => ?_⟩
    rw [hsame.record_eq]
    exact ⟨rfl, rfl⟩

/-- The record of a MAC follows from the slots. -/
theorem record_congr {m' : PeerCounterManager} (h : m'.peers = m.peers) (mac : Mac) :
    m'.record mac = m.record mac := by
  unfold record
  rw [h]

/-- **A call for another MAC**: the record stays, and whether there is a slot for it. -/
theorem peerStep_frame (hne : call.mac? ≠ some mac') :
    (peerStep hmacSha256 m call).2.record mac' = m.record mac' ∧
      (mac' ∈ (peerStep hmacSha256 m call).2.activeMacs ↔ mac' ∈ m.activeMacs) := by
  cases hmac : call.mac? with
  | none =>
    have hpeers := peers_peerStep_of_no_mac hmacSha256 (m := m) hmac
    refine ⟨record_congr hpeers mac', ?_⟩
    unfold activeMacs
    rw [hpeers]
  | some mac =>
    have hmac' : mac' ≠ mac := by
      intro h
      rw [h] at hne
      exact hne hmac
    refine ⟨(peerStep_records hmacSha256 hmac).1 mac' hmac', ?_⟩
    have hslots := SlotKind.SameSlots.keysInUse_eq (peerStep_slots hmacSha256 (m := m) hmac)
    unfold activeMacs
    rw [hslots, peers_findOrCreatePeerIndex]
    by_cases hroom : slots.HasRoom mac m.peers
    · rw [SlotKind.keysInUse_claim hroom, Finset.mem_insert, or_iff_right hmac']
    · rw [← SlotKind.claim_isSome_iff, Option.not_isSome_iff_eq_none] at hroom
      rw [SlotKind.claim_snd_of_none hroom]

/-- **A call that does not count** leaves all counters alone. -/
theorem peerStep_counters (hcounts : call.counts = false) (mac' : Mac) :
    ((peerStep hmacSha256 m call).2.record mac').txCounter = (m.record mac').txCounter ∧
      ((peerStep hmacSha256 m call).2.record mac').rxCounter = (m.record mac').rxCounter := by
  by_cases hmac : call.mac? = some mac'
  · exact (peerStep_records hmacSha256 hmac).2 hcounts
  · rw [(peerStep_frame hmacSha256 hmac).1]
    exact ⟨rfl, rfl⟩

/-! ## No slot left

The one way in which peers meet is the number of slots.  With all of them taken, a call for a MAC
without one fails, and leaves the table as it is. -/

theorem lacksSlot_iff_not_hasRoom : m.LacksSlot mac ↔ ¬ m.HasRoom mac := by
  unfold LacksSlot HasRoom
  rw [← SlotKind.claim_isSome_iff, Option.not_isSome_iff_eq_none, findOrCreatePeerIndex_eq]

/-- **No slot is found** exactly if the MAC is unknown, with twenty others known. -/
theorem lacksSlot_iff (h : m.MacsUnique) :
    m.LacksSlot mac ↔ mac ∉ m.activeMacs ∧ m.activeMacs.card = maxPeers := by
  have hone : slots.OneSlotEach m.peers := h
  have hle : m.activeMacs.card ≤ maxPeers := by
    unfold activeMacs
    rw [hone.card_keysInUse]
    exact (Finset.card_le_univ _).trans_eq (Fintype.card_fin _)
  rw [lacksSlot_iff_not_hasRoom]
  unfold HasRoom
  rw [hone.hasRoom_iff, not_or, Nat.not_lt]
  exact and_congr_right fun _ => ⟨hle.antisymm, ge_of_eq⟩

/-- Setting a key fails only for lack of a slot. -/
theorem setPeerLMK_fails_iff (lmk : Key) : (m.setPeerLMK mac lmk).1 = false ↔ m.LacksSlot mac := by
  rw [lacksSlot_iff_not_hasRoom]
  rcases m.setPeerLMK_cases mac lmk with ⟨hroom, heq⟩ | ⟨hroom, htrue, -⟩
  · rw [heq]
    exact iff_of_true rfl hroom
  · rw [htrue]
    exact iff_of_false (by decide) (not_not.mpr hroom)

/-- So does counting a packet. -/
theorem incrementTxCounter_fails_iff : (m.incrementTxCounter mac).1 = none ↔ m.LacksSlot mac := by
  rw [lacksSlot_iff_not_hasRoom]
  rcases m.incrementTxCounter_cases mac with ⟨hroom, heq⟩ | ⟨hroom, hsome, -⟩
  · rw [heq]
    exact iff_of_true rfl hroom
  · rw [hsome]
    exact iff_of_false (fun h => nomatch h) (not_not.mpr hroom)

/-- A call without a slot fails and changes nothing. -/
theorem peerStep_of_lacksSlot (hmac : call.mac? = some mac) (h : m.LacksSlot mac) :
    peerStep hmacSha256 m call = (false, m) := by
  have hroom := lacksSlot_iff_not_hasRoom.mp h
  -- the look fails, and with it whatever begins with it
  have hfind : m.findOrCreatePeerIndex mac = (none, m) := by
    rcases findOrCreatePeerIndex_cases mac m with ⟨-, heq⟩ | ⟨hroom', -⟩
    · exact heq
    · exact absurd hroom' hroom
  have hcompute : ∀ data mdOk, m.computeHMAC hmacSha256 mac data mdOk = (none, m) := by
    intro data mdOk
    unfold computeHMAC
    rw [hfind]
  cases call with
  | setGlobalLMK lmk => cases hmac
  | setPeerLMK mac lmk =>
    obtain rfl := Option.some.inj hmac
    show m.setPeerLMK mac lmk = _
    unfold setPeerLMK
    rw [hfind]
  | incrementTxCounter mac =>
    obtain rfl := Option.some.inj hmac
    have hnone : m.incrementTxCounter mac = (none, m) := by
      unfold incrementTxCounter
      rw [hfind]
    rw [peerStep, hnone]
    rfl
  | validateRxCounter mac receivedCounter =>
    obtain rfl := Option.some.inj hmac
    show m.validateRxCounter mac receivedCounter = _
    unfold validateRxCounter
    rw [hfind]
  | computeHMAC mac data mdOk =>
    obtain rfl := Option.some.inj hmac
    rw [peerStep, hcompute]
    rfl
  | verifyHMAC mac data expectedHmac mdOk =>
    obtain rfl := Option.some.inj hmac
    show m.verifyHMAC hmacSha256 mac data expectedHmac mdOk = _
    unfold verifyHMAC
    rw [hcompute]

/-! ## Runs

The facts about one call, after any calls from the constructor on. -/

theorem macsUnique_after (calls : List PeerCall) :
    (after (peerStep hmacSha256) init calls).MacsUnique := by
  have hstart : init.MacsUnique := fun i j hi => Bool.noConfusion hi
  exact after_invariant (P := fun _ _ => True) (fun _ _ h _ => macsUnique_peerStep hmacSha256 h)
    hstart (along_of_forall _ _ (fun _ _ => trivial) _ _)

theorem after_keeps_mac {i : Fin maxPeers} (hactive : (m.peers i).active = true)
    (calls : List PeerCall) :
    ((after (peerStep hmacSha256) m calls).peers i).active = true ∧
      ((after (peerStep hmacSha256) m calls).peers i).peerMac = (m.peers i).peerMac := by
  induction calls generalizing m with
  | nil => exact ⟨hactive, rfl⟩
  | cons call calls ih =>
    obtain ⟨hactive', hmac⟩ : ((peerStep hmacSha256 m call).2.peers i).active = true ∧ _ :=
      peerStep_keeps_mac hmacSha256 hactive
    obtain ⟨hactive'', hmac'⟩ := ih hactive'
    exact ⟨hactive'', hmac'.trans hmac⟩

end PeerStep

end PeerCounterManager

open PeerCounterManager in
/-- **Peers do not get into each other's way**, after any calls from the constructor on: active
slots have distinct MACs and keep them for ever; a call leaves the records of other MACs alone, and
all counters unless it counts; and it lacks a slot exactly if its MAC is unknown and twenty others
have one, and then it fails and changes nothing.  Setting a key and counting a packet fail in no
other way. -/
theorem peers_isolated (hmacSha256 : Key → List UInt8 → Hmac) (calls : List PeerCall) :
    let m := after (peerStep hmacSha256) init calls
    (∀ i j, (m.peers i).active = true → (m.peers j).active = true →
      (m.peers i).peerMac = (m.peers j).peerMac → i = j) ∧
    (∀ later i, (m.peers i).active = true →
      ((after (peerStep hmacSha256) m later).peers i).active = true ∧
        ((after (peerStep hmacSha256) m later).peers i).peerMac = (m.peers i).peerMac) ∧
    (∀ call mac', call.mac? ≠ some mac' →
      (peerStep hmacSha256 m call).2.record mac' = m.record mac' ∧
        (mac' ∈ (peerStep hmacSha256 m call).2.activeMacs ↔ mac' ∈ m.activeMacs)) ∧
    (∀ call mac', call.counts = false →
      ((peerStep hmacSha256 m call).2.record mac').txCounter = (m.record mac').txCounter ∧
        ((peerStep hmacSha256 m call).2.record mac').rxCounter = (m.record mac').rxCounter) ∧
    (∀ mac, (m.LacksSlot mac ↔ mac ∉ m.activeMacs ∧ m.activeMacs.card = 20) ∧
      (∀ lmk, (m.setPeerLMK mac lmk).1 = false ↔ m.LacksSlot mac) ∧
      ((m.incrementTxCounter mac).1 = none ↔ m.LacksSlot mac)) ∧
    ∀ call mac, call.mac? = some mac → m.LacksSlot mac →
      peerStep hmacSha256 m call = (false, m) := by
  have hunique := macsUnique_after hmacSha256 calls
  refine ⟨hunique, fun later i hactive => after_keeps_mac hmacSha256 hactive later,
    fun call mac' => peerStep_frame hmacSha256, fun call mac' hcounts => ?_,
    fun mac => ⟨lacksSlot_iff hunique, setPeerLMK_fails_iff, incrementTxCounter_fails_iff⟩,
    fun call mac => peerStep_of_lacksSlot hmacSha256⟩
  exact peerStep_counters hmacSha256 hcounts mac'

end Icsn
