import Icsn.Controller.LossyLink
import Icsn.Controller.PacketCodec

/-!
# Icsn — what a send does to the send counters

`sendPacketToAddresses` takes a counter at the start of each turn of its loop, before the HMAC is
computed, the peer registered and the packet handed to the radio.  Whatever fails after that, the
counter stays used.

* **`counted`** — the turns that use a counter: those whose address has a slot or gets one.
* **`Served`** — nothing fails in the turn.
* **`Outcome`** — counters and packets of one peer after some turns.
* **`counters_match_sends_iff`** — the counters are those of the packets sent exactly if every
  counted turn is served.
-/

namespace Icsn

open SuccessorGate (Consecutive)
open ESP_NOWController (SendReport sendPacketToAddress buildPacketForAddress)

variable {caps : BuildCapacity}

/-! ## Turns

Whether a turn uses a counter depends on the slots that the turns before it have taken, so the
counted turns are found by going through the table turn by turn.  Whether it is served depends on
keys and settings, which no turn changes. -/

/-- The turns of a send: each address with what its turn meets. -/
def turnsOf (data : ESP_NOWControlData) (env : Fin maxTxAddresses → SendEnv) :
    List (Mac × SendEnv) :=
  (List.finRange maxTxAddresses).map fun i => (data.txAddress.get i, env i)

/-- The turns that use a counter: the address is not zero, and has a slot or takes a free one. -/
def counted : PeerCounterManager → List (Mac × SendEnv) → List (Mac × SendEnv)
  | _, [] => []
  | m, turn :: turns =>
    if turn.1 = Mac.zero then counted m turns
    else if m.HasRoom turn.1 then turn :: counted (m.findOrCreatePeerIndex turn.1).2 turns
    else counted m turns

/-- Nothing fails in the turn: there is a key, the crypto library works, the peer is registered, and
the radio takes the packet. -/
def Served (systemConfig : SystemConfig) (c : ESP_NOWController caps) (turn : Mac × SendEnv) :
    Prop :=
  (c.peerCounterManager.keyFor turn.1).isSome = true ∧ turn.2.mdOk = true ∧
    c.registerPeerIfNeeded systemConfig turn.1 turn.2.toRegisterEnv = true ∧ turn.2.sendOk = true

instance (systemConfig : SystemConfig) (c : ESP_NOWController caps) (turn : Mac × SendEnv) :
    Decidable (Served systemConfig c turn) := inferInstanceAs (Decidable (_ ∧ _))

theorem length_counted_le (m : PeerCounterManager) (turns : List (Mac × SendEnv)) :
    (counted m turns).length ≤ turns.length := by
  induction turns generalizing m with
  | nil => exact Nat.le_refl _
  | cons turn turns ih =>
    unfold counted
    rw [List.length_cons]
    split
    · exact (ih m).trans (Nat.le_succ _)
    · split
      · exact Nat.succ_le_succ (ih _)
      · exact (ih m).trans (Nat.le_succ _)

/-- Tables with the same slots count the same turns. -/
theorem PeerCounterManager.SameSlots.counted_eq {m m' : PeerCounterManager}
    (h : PeerCounterManager.SameSlots m m') (turns : List (Mac × SendEnv)) :
    counted m' turns = counted m turns := by
  induction turns generalizing m m' with
  | nil => rfl
  | cons turn turns ih =>
    unfold counted
    rw [ih h, ih (h.findOrCreate turn.1), if_congr (h.hasRoom_iff turn.1) rfl rfl]

/-- **A build** takes the slot looked for, and no other. -/
theorem sameSlots_build (hmacSha256 : Key → List UInt8 → Hmac) (addr : Mac)
    (data : ESP_NOWControlData) (mdOk : Bool) (m : PeerCounterManager) :
    PeerCounterManager.SameSlots (m.findOrCreatePeerIndex addr).2
      (buildPacketForAddress hmacSha256 addr data true mdOk m).2 := by
  have hcounted := m.sameSlots_incrementTxCounter addr
  have hcases := m.incrementTxCounter_cases addr
  unfold ESP_NOWController.buildPacketForAddress
  dsimp only
  rw [if_neg (by decide)]
  revert hcounted hcases
  obtain ⟨answer, m1⟩ := m.incrementTxCounter addr
  intro hcounted hcases
  cases answer with
  | none => exact hcounted
  | some counter =>
    rcases hcases with ⟨-, heq⟩ | ⟨-, -, hset⟩
    · cases heq
    · -- the slot is there when the HMAC looks for it
      obtain ⟨idx, hfind⟩ := Option.isSome_iff_exists.mp hset.known_self
      dsimp only
      generalize CommunicationData.hmacData _ = covered
      have hsnd := m1.computeHMAC_snd hmacSha256 addr covered mdOk
      rw [PeerCounterManager.findOrCreatePeerIndex_again hfind] at hsnd
      revert hsnd
      obtain ⟨hmac, m2⟩ := m1.computeHMAC hmacSha256 addr covered mdOk
      intro hsnd
      obtain rfl : m2 = m1 := hsnd
      cases hmac <;> exact hcounted

/-- No packet comes out of a build in which the crypto library fails. -/
theorem mdOk_of_build {hmacSha256 : Key → List UInt8 → Hmac} {addr : Mac}
    {data : ESP_NOWControlData} {mdOk : Bool} {m : PeerCounterManager}
    {packet : CommunicationData} (hroom : m.HasRoom addr)
    (h : (buildPacketForAddress hmacSha256 addr data true mdOk m).1 = some packet) :
    mdOk = true := by
  rw [ESP_NOWController.buildPacketForAddress_fst hmacSha256 hroom] at h
  cases mdOk with
  | true => rfl
  | false =>
    rw [if_neg (by decide), Option.map_none] at h
    cases h

/-! ## What turns do to one peer

The account of a single peer: how far its counter went up, how many packets were sent to it, and, if
all turns were served, with which counters.  Accounts of consecutive turns add up. -/

/-- Counters and packets of one peer after turns of which `turns` used a counter: the counter has
gone up by those for the peer, the served ones of them sent a packet, and if all did the packets
carry the numbers in between. -/
structure Outcome (served : Mac × SendEnv → Bool) (mac : Mac) (turns : List (Mac × SendEnv))
    (c c' : ESP_NOWController caps) (sent : List (Mac × CommunicationData)) : Prop where
  txCounter_eq : txCounterOf mac c'
    = txCounterOf mac c + UInt32.ofNat (turns.countP fun turn => decide (turn.1 = mac))
  sent_length : (packetsFor mac sent).length
    = turns.countP fun turn => served turn && decide (turn.1 = mac)
  numbers : (∀ turn ∈ turns, served turn = true) → Consecutive (· + 1) (txCounterOf mac c)
    ((packetsFor mac sent).map CommunicationData.counter) (txCounterOf mac c')

variable {served : Mac × SendEnv → Bool} {mac : Mac} {c c' c'' : ESP_NOWController caps}

theorem Outcome.nothing (served : Mac × SendEnv → Bool) (mac : Mac) (c : ESP_NOWController caps) :
    Outcome served mac [] c c [] where
  txCounter_eq := (UInt32.add_zero _).symm
  sent_length := rfl
  numbers _ := .nil

theorem Outcome.append {turns turns' : List (Mac × SendEnv)}
    {sent sent' : List (Mac × CommunicationData)} (h : Outcome served mac turns c c' sent)
    (h' : Outcome served mac turns' c' c'' sent') :
    Outcome served mac (turns ++ turns') c c'' (sent ++ sent') where
  txCounter_eq := by
    rw [h'.txCounter_eq, h.txCounter_eq, List.countP_append, UInt32.ofNat_add, UInt32.add_assoc]
  sent_length := by
    rw [packetsFor_append, List.length_append, List.countP_append, h.sent_length, h'.sent_length]
  numbers hserved := by
    rw [packetsFor_append, List.map_append]
    exact (h.numbers fun turn hturn => hserved turn (List.mem_append_left _ hturn)).append
      (h'.numbers fun turn hturn => hserved turn (List.mem_append_right _ hturn))

/-- **One counted turn**: not served, it sends nothing; served, a packet with the new counter. -/
theorem Outcome.turn {turn : Mac × SendEnv} {sent : List (Mac × CommunicationData)}
    (hset : PeerCounterManager.RecordSet turn.1
      { c.peerCounterManager.record turn.1 with
        txCounter := (c.peerCounterManager.record turn.1).txCounter + 1 }
      c.peerCounterManager c'.peerCounterManager)
    (hsent : (served turn = false ∧ sent = []) ∨ ∃ packet, served turn = true ∧
      sent = [(turn.1, packet)] ∧
      packet.counter = (c.peerCounterManager.record turn.1).txCounter + 1) :
    Outcome served mac [turn] c c' sent := by
  -- the account of the peer of this turn
  by_cases hmac : turn.1 = mac
  · have hnext : txCounterOf mac c' = txCounterOf mac c + 1 := by
      unfold txCounterOf
      rw [← hmac, hset.record_self]
    rcases hsent with ⟨hserved, rfl⟩ | ⟨packet, hserved, rfl, hcounter⟩
    · refine ⟨by simp [hmac, hnext], by simp [packetsFor, hserved], fun hall => ?_⟩
      have hyes := hall turn (List.mem_singleton.mpr rfl)
      rw [hserved] at hyes
      cases hyes
    · refine ⟨by simp [hmac, hnext], by simp [packetsFor_singleton, hmac, hserved], fun _ => ?_⟩
      rw [packetsFor_singleton, if_pos hmac, List.map_singleton, hcounter, hmac, hnext]
      exact .snoc .nil
  · -- a turn for somebody else
    have hsame : txCounterOf mac c' = txCounterOf mac c := by
      unfold txCounterOf
      rw [hset.record_ne mac (Ne.symm hmac)]
    have hnone : packetsFor mac sent = [] := by
      rcases hsent with ⟨-, rfl⟩ | ⟨packet, -, rfl, -⟩
      · rfl
      · rw [packetsFor_singleton, if_neg hmac]
    refine ⟨by simp [hmac, hsame], by simp [hnone, hmac], fun _ => ?_⟩
    rw [hnone, hsame]
    exact .nil

/-! ## The loop

One turn is counted or not, and served or not; the loop is the sum of its turns.  The induction
carries the table as the turn leaves it, which is the one the next turn is counted against. -/

variable {systemConfig : SystemConfig}

/-- Registration does not look at the peers' counters and keys. -/
theorem registerPeerIfNeeded_peers (systemConfig : SystemConfig) (mac : Mac) (env : RegisterEnv)
    (c : ESP_NOWController caps) (m : PeerCounterManager) :
    ESP_NOWController.registerPeerIfNeeded systemConfig mac env { c with peerCounterManager := m }
      = c.registerPeerIfNeeded systemConfig mac env := rfl

/-- Keys and radio settings decide whether a turn is served. -/
theorem Served.congr {m : PeerCounterManager}
    (hkeys : ∀ mac, m.keyFor mac = c.peerCounterManager.keyFor mac) (turn : Mac × SendEnv) :
    Served systemConfig { c with peerCounterManager := m } turn ↔ Served systemConfig c turn := by
  unfold Served
  rw [registerPeerIfNeeded_peers, hkeys turn.1]

/-- What one turn adds to the loop: the counted turns, the packets sent, and the state after. -/
structure Turned (systemConfig : SystemConfig) (served : Mac × SendEnv → Bool)
    (turn : Mac × SendEnv) (acc acc' : SendReport × ESP_NOWController caps) : Prop where
  served_iff : ∀ turn, Served systemConfig acc'.2 turn ↔ Served systemConfig acc.2 turn
  adds : ∃ now sent, acc'.1.sent = acc.1.sent ++ sent ∧
    (∀ mac, Outcome served mac now acc.2 acc'.2 sent) ∧
    ∀ turns, counted acc.2.peerCounterManager (turn :: turns)
      = now ++ counted acc'.2.peerCounterManager turns

/-- A turn that uses no counter does nothing. -/
theorem Turned.skip {turn : Mac × SendEnv} {acc : SendReport × ESP_NOWController caps}
    (hskip : turn.1 = Mac.zero ∨ ¬ acc.2.peerCounterManager.HasRoom turn.1) :
    Turned systemConfig served turn acc acc where
  served_iff _ := Iff.rfl
  adds := by
    refine ⟨[], [], (List.append_nil _).symm, fun mac => .nothing served mac acc.2,
      fun turns => ?_⟩
    rw [counted, List.nil_append]
    split
    · rfl
    · next hne => rw [if_neg (hskip.resolve_left hne)]

/-- A turn that uses a counter: not served, it sends nothing; served, a packet with the new
counter. -/
theorem Turned.counted {turn : Mac × SendEnv} {report report' : SendReport}
    {m : PeerCounterManager} {sent : List (Mac × CommunicationData)}
    (hserved : ∀ turn, served turn = true ↔ Served systemConfig c turn)
    (hzero : turn.1 ≠ Mac.zero) (hroom : c.peerCounterManager.HasRoom turn.1)
    (hset : PeerCounterManager.RecordSet turn.1
      { c.peerCounterManager.record turn.1 with
        txCounter := (c.peerCounterManager.record turn.1).txCounter + 1 } c.peerCounterManager m)
    (hslots : PeerCounterManager.SameSlots (c.peerCounterManager.findOrCreatePeerIndex turn.1).2 m)
    (hreport : report'.sent = report.sent ++ sent)
    (hsent : (¬ Served systemConfig c turn ∧ sent = []) ∨
      ∃ packet, Served systemConfig c turn ∧ sent = [(turn.1, packet)] ∧
        packet.counter = (c.peerCounterManager.record turn.1).txCounter + 1) :
    Turned systemConfig served turn (report, c) (report', { c with peerCounterManager := m }) where
  served_iff := Served.congr (hset.keyFor rfl rfl)
  adds := by
    refine ⟨[turn], sent, hreport, fun mac => ?_, fun turns => ?_⟩
    · apply Outcome.turn hset
      refine hsent.imp (fun ⟨hnot, hnil⟩ => ⟨?_, hnil⟩)
        (fun ⟨packet, hyes, h⟩ => ⟨packet, (hserved _).mpr hyes, h⟩)
      rw [← Bool.not_eq_true, hserved]
      exact hnot
    · show Icsn.counted c.peerCounterManager (turn :: turns) = turn :: Icsn.counted m turns
      rw [Icsn.counted, if_neg hzero, if_pos hroom, hslots.counted_eq]

variable (hmacSha256 : Key → List UInt8 → Hmac)

/-- **One turn of the loop.** -/
theorem turned_sendPacketToAddress {acc : SendReport × ESP_NOWController caps}
    (hserved : ∀ turn, served turn = true ↔ Served systemConfig acc.2 turn)
    (data : ESP_NOWControlData) (turn : Mac × SendEnv) :
    Turned systemConfig served turn acc
      (sendPacketToAddress hmacSha256 systemConfig data turn.1 turn.2 acc) := by
  obtain ⟨addr, env⟩ := turn
  obtain ⟨report, c⟩ := acc
  unfold ESP_NOWController.sendPacketToAddress
  dsimp only
  by_cases hzero : addr = Mac.zero
  · rw [if_pos hzero]
    exact .skip (Or.inl hzero)
  · rw [if_neg hzero]
    have hslots := sameSlots_build hmacSha256 addr data env.mdOk c.peerCounterManager
    have hmdOk := fun packet hroom => @mdOk_of_build hmacSha256 addr data env.mdOk
      c.peerCounterManager packet hroom
    rcases ESP_NOWController.buildPacketForAddress_cases hmacSha256 addr data env.mdOk
      c.peerCounterManager with ⟨hroom, heq⟩ | ⟨hroom, hset, hanswer⟩
    · -- no slot: no counter is used
      rw [heq]
      exact .skip (Or.inr hroom)
    · -- a counter is used: what is sent depends on what fails
      revert hslots hmdOk hset hanswer
      obtain ⟨answer, m⟩ := buildPacketForAddress hmacSha256 addr data true env.mdOk
        c.peerCounterManager
      dsimp only
      intro hslots hmdOk hset hanswer
      -- no key or no digest, no registration, no send: each is one way not to be served
      rcases hanswer with ⟨hnot, rfl⟩ | ⟨packet, rfl, ⟨key, hkey, -⟩, hcounter⟩
      · exact .counted hserved hzero hroom hset hslots (List.append_nil _).symm
          (Or.inl ⟨fun h => hnot ⟨h.2.1, h.1⟩, rfl⟩)
      · have hkeyed : (c.peerCounterManager.keyFor addr).isSome = true := by rw [hkey]; rfl
        have hmd := hmdOk packet hroom rfl
        dsimp only
        rw [registerPeerIfNeeded_peers]
        split
        · next hunregistered =>
          refine .counted hserved hzero hroom hset hslots (List.append_nil _).symm
            (Or.inl ⟨fun h => ?_, rfl⟩)
          exact absurd (hunregistered.symm.trans h.2.2.1) (by decide)
        · next hregistered =>
          split
          · next hunsent =>
            refine .counted hserved hzero hroom hset hslots (List.append_nil _).symm
              (Or.inl ⟨fun h => ?_, rfl⟩)
            exact absurd (hunsent.symm.trans h.2.2.2) (by decide)
          · next hsent =>
            rw [Bool.not_eq_false] at hregistered hsent
            exact .counted hserved hzero hroom hset hslots rfl
              (Or.inr ⟨packet, ⟨hkeyed, hmd, hregistered, hsent⟩, rfl, hcounter⟩)

/-- **The whole loop.** -/
theorem outcome_loop (data : ESP_NOWControlData) (turns : List (Mac × SendEnv))
    (acc : SendReport × ESP_NOWController caps)
    (hserved : ∀ turn, served turn = true ↔ Served systemConfig acc.2 turn) :
    let acc' := turns.foldl
      (fun acc turn => sendPacketToAddress hmacSha256 systemConfig data turn.1 turn.2 acc) acc
    ∃ sent, acc'.1.sent = acc.1.sent ++ sent ∧
      ∀ mac, Outcome served mac (counted acc.2.peerCounterManager turns) acc.2 acc'.2 sent := by
  induction turns generalizing acc with
  | nil => exact ⟨[], (List.append_nil _).symm, fun mac => .nothing served mac acc.2⟩
  | cons turn turns ih =>
    obtain ⟨hiff, now, sent, hsent, hnow, hcounted⟩ :=
      turned_sendPacketToAddress hmacSha256 hserved data turn
    obtain ⟨sent', hsent', hlater⟩ := ih _ fun turn => (hserved turn).trans (hiff turn).symm
    refine ⟨sent ++ sent', ?_, fun mac => ?_⟩
    · rw [List.foldl_cons, hsent', hsent, List.append_assoc]
    · rw [hcounted turns]
      exact (hnow mac).append (hlater mac)

/-! ## The counters of a send

For each peer the counter went up by its counted turns and the packets sent are its served ones.  So
the two numbers agree exactly if all its counted turns are served; at most twenty turns are too few
for a wrap to hide a difference. -/

/-- The send counter of every peer goes up by the packets sent to it, which carry the numbers in
between. -/
structure CountersMatchSends (c c' : ESP_NOWController caps)
    (sent : List (Mac × CommunicationData)) : Prop where
  grown : ∀ mac, txCounterOf mac c'
    = txCounterOf mac c + UInt32.ofNat (packetsFor mac sent).length
  consecutive : ∀ mac, Consecutive (· + 1) (txCounterOf mac c)
    ((packetsFor mac sent).map CommunicationData.counter) (txCounterOf mac c')

theorem sendPacketToAddresses_eq (systemConfig : SystemConfig) (data : ESP_NOWControlData)
    (env : Fin maxTxAddresses → SendEnv) (c : ESP_NOWController caps) :
    c.sendPacketToAddresses hmacSha256 systemConfig data env = (turnsOf data env).foldl
      (fun acc turn => sendPacketToAddress hmacSha256 systemConfig data turn.1 turn.2 acc)
      ({}, c) := by
  unfold ESP_NOWController.sendPacketToAddresses turnsOf
  rw [List.foldl_map]

/-- Two counts of at most twenty turns are told apart by a counter. -/
theorem eq_of_add_ofNat_eq {n : UInt32} {k k' : ℕ} (hk : k ≤ maxTxAddresses)
    (hk' : k' ≤ maxTxAddresses) (h : n + UInt32.ofNat k = n + UInt32.ofNat k') : k = k' := by
  have hmax : maxTxAddresses = 20 := rfl
  have hnat := congrArg UInt32.toNat h
  rw [UInt32.toNat_add, UInt32.toNat_add, UInt32.toNat_ofNat', UInt32.toNat_ofNat'] at hnat
  omega

theorem length_turnsOf (data : ESP_NOWControlData) (env : Fin maxTxAddresses → SendEnv) :
    (turnsOf data env).length = maxTxAddresses := by
  rw [turnsOf, List.length_map, List.length_finRange]

/-- **Counters follow the radio exactly if nothing fails.**  For every state, control data and
pattern of failures: each peer's send counter has gone up by the packets the radio took for it,
which carry consecutive counters, and the answer is true exactly if it took one, if and only if no
turn fails whose address has a slot or gets one. -/
theorem counters_match_sends_iff (caps : BuildCapacity) (systemConfig : SystemConfig)
    (data : ESP_NOWControlData) (env : Fin maxTxAddresses → SendEnv) (c : ESP_NOWController caps) :
    let r := c.sendPacketToAddresses hmacSha256 systemConfig data env
    (CountersMatchSends c r.2 r.1.sent ∧ (r.1.sentAny = true ↔ r.1.sent ≠ [])) ↔
      ∀ turn ∈ counted c.peerCounterManager (turnsOf data env), Served systemConfig c turn := by
  intro r
  have hany := (ESP_NOWController.sends_carry hmacSha256 systemConfig data env c).sentAny_iff
  have hserved : ∀ turn, decide (Served systemConfig c turn) = true ↔ Served systemConfig c turn :=
    fun turn => decide_eq_true_iff
  -- the loop starts with nothing sent, so what it adds is all there is
  obtain ⟨sent, hsent, houtcome⟩ := outcome_loop hmacSha256 data (turnsOf data env) ({}, c) hserved
  rw [← sendPacketToAddresses_eq, List.nil_append] at hsent
  rw [← sendPacketToAddresses_eq, ← hsent] at houtcome
  have hfew : (counted c.peerCounterManager (turnsOf data env)).length ≤ maxTxAddresses :=
    (length_counted_le _ _).trans_eq (length_turnsOf data env)
  generalize counted c.peerCounterManager (turnsOf data env) = turns at houtcome hfew
  constructor
  · intro hmatch turn hturn
    -- of the turns for this peer, as many are served as there are
    have hcount := eq_of_add_ofNat_eq (List.countP_le_length.trans hfew)
      (((houtcome turn.1).sent_length.trans_le List.countP_le_length).trans hfew)
      ((houtcome turn.1).txCounter_eq.symm.trans (hmatch.1.grown turn.1))
    rw [(houtcome turn.1).sent_length, ← List.countP_filter, List.countP_eq_length_filter] at hcount
    have hmem : turn ∈ turns.filter fun t => decide (t.1 = turn.1) :=
      List.mem_filter.mpr ⟨hturn, decide_eq_true rfl⟩
    exact of_decide_eq_true (List.countP_eq_length.mp hcount.symm turn hmem)
  · intro hall
    -- all are served, so counting the served ones is counting them all
    have hyes : ∀ turn ∈ turns, decide (Served systemConfig c turn) = true := fun turn hturn =>
      decide_eq_true (hall turn hturn)
    refine ⟨⟨fun mac => ?_, fun mac => (houtcome mac).numbers hyes⟩, hany⟩
    have hsame : (turns.countP fun turn => decide (turn.1 = mac)) = turns.countP fun turn =>
        decide (Served systemConfig c turn) && decide (turn.1 = mac) := by
      apply List.countP_congr
      intro turn hturn
      rw [hyes turn hturn, Bool.true_and]
    rw [(houtcome mac).txCounter_eq, (houtcome mac).sent_length, hsame]

/-- **Not every send does that**: a node that asks a peer for /a, while its radio takes no packet,
uses up the counter 1. -/
theorem not_counters_match_sends :
    ¬ ∀ (hmacSha256 : Key → List UInt8 → Hmac) (caps : BuildCapacity)
      (systemConfig : SystemConfig) (data : ESP_NOWControlData)
      (env : Fin maxTxAddresses → SendEnv) (c : ESP_NOWController caps),
      let r := c.sendPacketToAddresses hmacSha256 systemConfig data env
      CountersMatchSends c r.2 r.1.sent ∧ (r.1.sentAny = true ↔ r.1.sent ≠ []) := by
  intro h
  have hgrown := (h checksum (.uniform 1 (by decide)) (.hmacWith Key.zero)
    { txAddress := (List.Vector.replicate _ Mac.zero).set ⟨0, by decide⟩ (.replicate 6 1)
      signalCode := copyField _ (SignalCode.toString .interest)
      contentName := copyField _ (ascii ['/', 'a']) }
    (fun _ => { SendEnv.good with sendOk := false }) (.boot _ (.hmacWith Key.zero))).1.grown
    (.replicate 6 1)
  revert hgrown
  decide +kernel

end Icsn
