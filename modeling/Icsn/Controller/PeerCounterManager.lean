import Icsn.Basic
import Icsn.Lib.SlotTable

/-!
# Icsn — counters and keys of the peers

`PeerCounterManager.hpp`: the send and receive counters and the key of each peer, in a table of
twenty slots.  HMAC-SHA256 itself is a parameter (`hmacSha256`); whether the calls into the crypto
library succeed is an input (`mdOk`).

* **`record`** — what the table holds for a MAC; a MAC without a slot has zero counters and no key.
* **`keyFor`** — the key resolved for a MAC: its own, else the global one.
* `*_cases` — what each operation answers, and that it changes the record of its own MAC alone.
-/

namespace Icsn

/-- An HMAC-SHA256 value. -/
abbrev Hmac := List.Vector UInt8 32

structure PeerCounter where
  peerMac : Mac := Mac.zero
  txCounter : UInt32 := 0
  rxCounter : UInt32 := 0
  lmk : Key := Key.zero
  lmkSet : Bool := false
  active : Bool := false
deriving DecidableEq

def maxPeers : Nat := 20

structure PeerCounterManager where
  peers : Fin maxPeers → PeerCounter
  globalLmk : Key
  globalLmkSet : Bool

namespace PeerCounterManager

/-! ## Operations

The methods of the class, on its array of slots.  What concerns a peer first looks for the slot of
its MAC, and takes a free one if it has none; when all are taken it fails. -/

/-- The constructor. -/
def init : PeerCounterManager :=
  { peers := fun _ => {}, globalLmk := Key.zero, globalLmkSet := false }

/-- Write one slot. -/
def setPeer (idx : Fin maxPeers) (peer : PeerCounter) (m : PeerCounterManager) :
    PeerCounterManager :=
  { m with peers := Function.update m.peers idx peer }

def findPeerIndex (mac : Mac) (m : PeerCounterManager) : Option (Fin maxPeers) :=
  Fin.find? fun i => (m.peers i).active && decide ((m.peers i).peerMac = mac)

def findOrCreatePeerIndex (mac : Mac) (m : PeerCounterManager) :
    Option (Fin maxPeers) × PeerCounterManager :=
  match m.findPeerIndex mac with
  | some idx => (some idx, m)
  | none =>
    match Fin.find? fun i => !(m.peers i).active with
    | some i =>
      (some i, m.setPeer i { peerMac := mac, txCounter := 0, rxCounter := 0, lmk := Key.zero
                             lmkSet := false, active := true })
    | none => (none, m)

def resolveLmk (idx : Fin maxPeers) (m : PeerCounterManager) : Option Key :=
  if (m.peers idx).lmkSet then some (m.peers idx).lmk
  else if m.globalLmkSet then some m.globalLmk
  else none

def setGlobalLMK (lmk : Key) (m : PeerCounterManager) : PeerCounterManager :=
  { m with globalLmk := lmk, globalLmkSet := true }

def setPeerLMK (mac : Mac) (lmk : Key) (m : PeerCounterManager) : Bool × PeerCounterManager :=
  match m.findOrCreatePeerIndex mac with
  | (none, m) => (false, m)
  | (some idx, m) => (true, m.setPeer idx { m.peers idx with lmk, lmkSet := true })

/-- `incrementTxCounter`; no value where the source reports no success. -/
def incrementTxCounter (mac : Mac) (m : PeerCounterManager) : Option UInt32 × PeerCounterManager :=
  match m.findOrCreatePeerIndex mac with
  | (none, m) => (none, m)
  | (some idx, m) =>
    let txCounter := (m.peers idx).txCounter + 1
    (some txCounter, m.setPeer idx { m.peers idx with txCounter })

def validateRxCounter (mac : Mac) (receivedCounter : UInt32) (m : PeerCounterManager) :
    Bool × PeerCounterManager :=
  match m.findOrCreatePeerIndex mac with
  | (none, m) => (false, m)
  | (some idx, m) =>
    let expected := (m.peers idx).rxCounter + 1
    if receivedCounter = expected then
      (true, m.setPeer idx { m.peers idx with rxCounter := receivedCounter })
    else (false, m)

section Crypto

variable (hmacSha256 : Key → List UInt8 → Hmac)

/-- `computeHMAC`; no value where the source reports no success. -/
def computeHMAC (mac : Mac) (data : List UInt8) (mdOk : Bool) (m : PeerCounterManager) :
    Option Hmac × PeerCounterManager :=
  match m.findOrCreatePeerIndex mac with
  | (none, m) => (none, m)
  | (some idx, m) =>
    match m.resolveLmk idx with
    | none => (none, m)
    | some lmk => if mdOk then (some (hmacSha256 lmk data), m) else (none, m)

/-- The loop of `verifyHMAC`: all differing bits of the two values. -/
def hmacDiff (computed expectedHmac : Hmac) : UInt8 :=
  (List.zipWith (· ^^^ ·) computed.toList expectedHmac.toList).foldl (· ||| ·) 0

def verifyHMAC (mac : Mac) (data : List UInt8) (expectedHmac : Hmac) (mdOk : Bool)
    (m : PeerCounterManager) : Bool × PeerCounterManager :=
  match m.computeHMAC hmacSha256 mac data mdOk with
  | (none, m) => (false, m)
  | (some computed, m) => (hmacDiff computed expectedHmac == 0, m)

end Crypto

/-! ## Records

Where a peer's slot is does not matter to anything outside, so the operations are described by the
record of a MAC.  A change is then an update of one record, or of none. -/

/-- The slots as a table: a new slot has zero counters and no key. -/
def slots : SlotKind Mac PeerCounter where
  key := PeerCounter.peerMac
  live := PeerCounter.active
  fresh mac := { peerMac := mac, active := true }
  key_fresh _ := rfl
  live_fresh _ := rfl

/-- What the table holds for a MAC. -/
def record (mac : Mac) (m : PeerCounterManager) : PeerCounter := slots.entry mac m.peers

/-- The MAC has a slot. -/
def Known (mac : Mac) (m : PeerCounterManager) : Prop := (m.findPeerIndex mac).isSome = true

/-- The MAC has a slot, or there is a free one for it. -/
def HasRoom (mac : Mac) (m : PeerCounterManager) : Prop := slots.HasRoom mac m.peers

instance (mac : Mac) (m : PeerCounterManager) : Decidable (m.HasRoom mac) :=
  inferInstanceAs (Decidable (slots.HasRoom mac m.peers))

/-- The key resolved for a MAC, if it has a slot or gets one. -/
def keyFor (mac : Mac) (m : PeerCounterManager) : Option Key :=
  if (m.record mac).lmkSet then some (m.record mac).lmk
  else if m.globalLmkSet then some m.globalLmk
  else none

/-- The second table has the records and the global key of the first, and its slots. -/
structure SameRecords (m m' : PeerCounterManager) : Prop where
  record_eq : ∀ mac, m'.record mac = m.record mac
  known : ∀ mac, m.Known mac → m'.Known mac
  globalLmk_eq : m'.globalLmk = m.globalLmk
  globalLmkSet_eq : m'.globalLmkSet = m.globalLmkSet

/-- The second table differs from the first in the record of one MAC, which has a slot. -/
structure RecordSet (mac : Mac) (peer : PeerCounter) (m m' : PeerCounterManager) : Prop where
  record_self : m'.record mac = peer
  record_ne : ∀ mac', mac' ≠ mac → m'.record mac' = m.record mac'
  known_self : m'.Known mac
  known : ∀ mac', m.Known mac' → m'.Known mac'
  globalLmk_eq : m'.globalLmk = m.globalLmk
  globalLmkSet_eq : m'.globalLmkSet = m.globalLmkSet

variable {m m' m'' : PeerCounterManager} {mac mac' : Mac} {idx : Fin maxPeers}

theorem Known.hasRoom (h : m.Known mac) : m.HasRoom mac := Or.inl h

theorem SameRecords.refl (m : PeerCounterManager) : SameRecords m m :=
  ⟨fun _ => rfl, fun _ h => h, rfl, rfl⟩

theorem SameRecords.trans (h : SameRecords m m') (h' : SameRecords m' m'') : SameRecords m m'' where
  record_eq mac := (h'.record_eq mac).trans (h.record_eq mac)
  known mac hk := h'.known mac (h.known mac hk)
  globalLmk_eq := h'.globalLmk_eq.trans h.globalLmk_eq
  globalLmkSet_eq := h'.globalLmkSet_eq.trans h.globalLmkSet_eq

theorem SameRecords.keyFor (h : SameRecords m m') (mac : Mac) : m'.keyFor mac = m.keyFor mac := by
  unfold PeerCounterManager.keyFor
  rw [h.record_eq, h.globalLmk_eq, h.globalLmkSet_eq]

theorem RecordSet.trans {peer : PeerCounter} (h : RecordSet mac peer m m')
    (h' : SameRecords m' m'') : RecordSet mac peer m m'' where
  record_self := (h'.record_eq mac).trans h.record_self
  record_ne mac' hne := (h'.record_eq mac').trans (h.record_ne mac' hne)
  known_self := h'.known mac h.known_self
  known mac' hk := h'.known mac' (h.known mac' hk)
  globalLmk_eq := h'.globalLmk_eq.trans h.globalLmk_eq
  globalLmkSet_eq := h'.globalLmkSet_eq.trans h.globalLmkSet_eq

theorem SameRecords.trans_recordSet {peer : PeerCounter} (h : SameRecords m m')
    (h' : RecordSet mac peer m' m'') : RecordSet mac peer m m'' where
  record_self := h'.record_self
  record_ne mac' hne := (h'.record_ne mac' hne).trans (h.record_eq mac')
  known_self := h'.known_self
  known mac' hk := h'.known mac' (h.known mac' hk)
  globalLmk_eq := h'.globalLmk_eq.trans h.globalLmk_eq
  globalLmkSet_eq := h'.globalLmkSet_eq.trans h.globalLmkSet_eq

/-- A record with the same key resolves to the same key. -/
theorem RecordSet.keyFor {peer : PeerCounter} (h : RecordSet mac peer m m')
    (hlmk : peer.lmk = (m.record mac).lmk) (hset : peer.lmkSet = (m.record mac).lmkSet)
    (mac' : Mac) : m'.keyFor mac' = m.keyFor mac' := by
  unfold PeerCounterManager.keyFor
  by_cases hmac : mac' = mac
  · rw [hmac, h.record_self, h.globalLmk_eq, h.globalLmkSet_eq, hlmk, hset]
  · rw [h.record_ne mac' hmac, h.globalLmk_eq, h.globalLmkSet_eq]

/-! ## What each operation does to the records

One lemma an operation, with all its outcomes.  The modules above use these, and do not go back to
slots or indices. -/

theorem findOrCreatePeerIndex_eq (mac : Mac) (m : PeerCounterManager) :
    m.findOrCreatePeerIndex mac
      = ((slots.claim mac m.peers).1, { m with peers := (slots.claim mac m.peers).2 }) := by
  unfold findOrCreatePeerIndex SlotKind.claim
  show (match slots.find mac m.peers with
    | some idx => (some idx, m)
    | none => match slots.findFree m.peers with
      | some i => (some i, m.setPeer i (slots.fresh mac))
      | none => (none, m)) = _
  cases slots.find mac m.peers with
  | some i => rfl
  | none => cases slots.findFree m.peers <;> rfl

/-- **The two ways a peer's slot is looked for**: there is no room and nothing changes; or the slot
holds the peer's record, and all records are what they were. -/
theorem findOrCreatePeerIndex_cases (mac : Mac) (m : PeerCounterManager) :
    (¬ m.HasRoom mac ∧ m.findOrCreatePeerIndex mac = (none, m)) ∨
    (m.HasRoom mac ∧ ∃ idx m', m.findOrCreatePeerIndex mac = (some idx, m') ∧
      slots.find mac m'.peers = some idx ∧ m'.peers idx = m.record mac ∧ SameRecords m m') := by
  rw [findOrCreatePeerIndex_eq]
  unfold HasRoom
  rw [← SlotKind.claim_isSome_iff]
  cases hclaim : (slots.claim mac m.peers).1 with
  | none => exact Or.inl ⟨by simp, by rw [SlotKind.claim_snd_of_none hclaim]⟩
  | some idx =>
    have hfind := SlotKind.find_claim hclaim
    have hentries := fun mac' => SlotKind.entry_claim slots mac mac' m.peers
    have hknown : ∀ mac', m.Known mac' →
        Known mac' { m with peers := (slots.claim mac m.peers).2 } := fun mac' h => by
      obtain ⟨i, hi⟩ := Option.isSome_iff_exists.mp h
      exact Option.isSome_iff_exists.mpr ⟨i, SlotKind.find_claim_of_found slots mac hi⟩
    -- a claimed slot starts as the record a MAC without a slot has, so no record changes
    refine Or.inr ⟨rfl, idx, _, rfl, hfind, ?_, ⟨hentries, hknown, rfl, rfl⟩⟩
    rw [record, ← hentries mac, SlotKind.entry_of_find hfind]

/-- A record is in use for its MAC. -/
theorem holds_record (mac : Mac) (m : PeerCounterManager) :
    slots.holds mac (m.record mac) = true := by
  unfold record
  cases hfind : slots.find mac m.peers with
  | none =>
    rw [SlotKind.entry_of_not_found hfind]
    exact SlotKind.holds_fresh slots mac
  | some i =>
    rw [SlotKind.entry_of_find hfind]
    exact SlotKind.holds_of_find hfind

/-- A write to the slot that was found sets the peer's record. -/
theorem recordSet_setPeer {peer : PeerCounter} (hfind : slots.find mac m'.peers = some idx)
    (hpeer : slots.holds mac peer = true) (hsame : SameRecords m m') :
    RecordSet mac peer m (m'.setPeer idx peer) where
  record_self := SlotKind.entry_write_self hfind hpeer
  record_ne mac' hne := (SlotKind.entry_write_ne hfind hpeer hne).trans (hsame.record_eq mac')
  known_self := Option.isSome_iff_exists.mpr ⟨idx, SlotKind.find_write_self hfind hpeer⟩
  known mac' hk := (congrArg Option.isSome (SlotKind.find_write hfind hpeer mac')).trans
    (hsame.known mac' hk)
  globalLmk_eq := hsame.globalLmk_eq
  globalLmkSet_eq := hsame.globalLmkSet_eq

/-- The key resolved at a peer's slot is the one of its record. -/
theorem resolveLmk_eq (hslot : m'.peers idx = m.record mac) (hsame : SameRecords m m') :
    m'.resolveLmk idx = m.keyFor mac := by
  unfold resolveLmk keyFor
  rw [hslot, hsame.globalLmk_eq, hsame.globalLmkSet_eq]

theorem record_init (mac : Mac) : init.record mac = { peerMac := mac, active := true } :=
  SlotKind.entry_of_not_found (Fin.find?_eq_none_iff.mpr fun _ => rfl)

/-- **Setting a peer's key** changes the key of its record. -/
theorem setPeerLMK_cases (mac : Mac) (lmk : Key) (m : PeerCounterManager) :
    (¬ m.HasRoom mac ∧ m.setPeerLMK mac lmk = (false, m)) ∨
    (m.HasRoom mac ∧ (m.setPeerLMK mac lmk).1 = true ∧
      RecordSet mac { m.record mac with lmk, lmkSet := true } m (m.setPeerLMK mac lmk).2) := by
  unfold setPeerLMK
  rcases findOrCreatePeerIndex_cases mac m with
    ⟨hroom, heq⟩ | ⟨hroom, idx, m', heq, hfind, hslot, hs⟩
  · rw [heq]
    exact Or.inl ⟨hroom, rfl⟩
  · rw [heq]
    dsimp only
    rw [hslot]
    exact Or.inr ⟨hroom, rfl, recordSet_setPeer hfind (holds_record mac m) hs⟩

/-- **Counting a packet sent** changes the send counter of its record. -/
theorem incrementTxCounter_cases (mac : Mac) (m : PeerCounterManager) :
    (¬ m.HasRoom mac ∧ m.incrementTxCounter mac = (none, m)) ∨
    (m.HasRoom mac ∧ (m.incrementTxCounter mac).1 = some ((m.record mac).txCounter + 1) ∧
      RecordSet mac { m.record mac with txCounter := (m.record mac).txCounter + 1 } m
        (m.incrementTxCounter mac).2) := by
  unfold incrementTxCounter
  rcases findOrCreatePeerIndex_cases mac m with
    ⟨hroom, heq⟩ | ⟨hroom, idx, m', heq, hfind, hslot, hs⟩
  · rw [heq]
    exact Or.inl ⟨hroom, rfl⟩
  · rw [heq]
    dsimp only
    rw [hslot]
    exact Or.inr ⟨hroom, rfl, recordSet_setPeer hfind (holds_record mac m) hs⟩

/-- **The counter check** passes for the next counter alone, and then records it. -/
theorem validateRxCounter_cases (mac : Mac) (received : UInt32) (m : PeerCounterManager) :
    (¬ (m.HasRoom mac ∧ received = (m.record mac).rxCounter + 1) ∧
      (m.validateRxCounter mac received).1 = false ∧
      SameRecords m (m.validateRxCounter mac received).2) ∨
    (m.HasRoom mac ∧ received = (m.record mac).rxCounter + 1 ∧
      (m.validateRxCounter mac received).1 = true ∧
      RecordSet mac { m.record mac with rxCounter := received } m
        (m.validateRxCounter mac received).2) := by
  unfold validateRxCounter
  rcases findOrCreatePeerIndex_cases mac m with
    ⟨hroom, heq⟩ | ⟨hroom, idx, m', heq, hfind, hslot, hs⟩
  · rw [heq]
    exact Or.inl ⟨fun h => hroom h.1, rfl, .refl m⟩
  · rw [heq]
    dsimp only
    rw [hslot]
    by_cases hnext : received = (m.record mac).rxCounter + 1
    · rw [if_pos hnext]
      exact Or.inr ⟨hroom, hnext, rfl, recordSet_setPeer hfind (holds_record mac m) hs⟩
    · rw [if_neg hnext]
      exact Or.inl ⟨fun h => hnext h.2, rfl, hs⟩

section Crypto

variable (hmacSha256 : Key → List UInt8 → Hmac)

/-- A peer whose slot was found is known. -/
theorem known_of_find (hfind : slots.find mac m.peers = some idx) : m.Known mac :=
  Option.isSome_iff_exists.mpr ⟨idx, hfind⟩

/-- **Computing an HMAC** takes the key resolved for the peer, and changes no record. -/
theorem computeHMAC_cases (mac : Mac) (data : List UInt8) (mdOk : Bool) (m : PeerCounterManager) :
    SameRecords m (m.computeHMAC hmacSha256 mac data mdOk).2 ∧
    ((¬ (m.HasRoom mac ∧ mdOk = true ∧ (m.keyFor mac).isSome = true) ∧
        (m.computeHMAC hmacSha256 mac data mdOk).1 = none) ∨
      (m.HasRoom mac ∧ mdOk = true ∧ (m.computeHMAC hmacSha256 mac data mdOk).2.Known mac ∧
        ∃ key, m.keyFor mac = some key ∧
          (m.computeHMAC hmacSha256 mac data mdOk).1 = some (hmacSha256 key data))) := by
  unfold computeHMAC
  rcases findOrCreatePeerIndex_cases mac m with
    ⟨hroom, heq⟩ | ⟨hroom, idx, m', heq, hfind, hslot, hs⟩
  · rw [heq]
    exact ⟨.refl m, Or.inl ⟨fun h => hroom h.1, rfl⟩⟩
  · rw [heq]
    dsimp only
    rw [resolveLmk_eq hslot hs]
    cases hkey : m.keyFor mac with
    | none => exact ⟨hs, Or.inl ⟨fun h => absurd h.2.2 (by decide), rfl⟩⟩
    | some key =>
      cases mdOk with
      | false => exact ⟨hs, Or.inl ⟨fun h => absurd h.2.1 (by decide), rfl⟩⟩
      | true => exact ⟨hs, Or.inr ⟨hroom, rfl, known_of_find hfind, key, rfl, rfl⟩⟩

/-- With room for the peer, the HMAC is the one under its key, if it has one. -/
theorem computeHMAC_fst (hroom : m.HasRoom mac) (data : List UInt8) (mdOk : Bool) :
    (m.computeHMAC hmacSha256 mac data mdOk).1
      = (if mdOk = true then m.keyFor mac else none).map (hmacSha256 · data) := by
  rcases (m.computeHMAC_cases hmacSha256 mac data mdOk).2 with
    ⟨hnot, hnone⟩ | ⟨-, rfl, -, key, hkey, hsome⟩
  · rw [hnone]
    by_cases hmd : mdOk = true
    · have hnokey : m.keyFor mac = none := by
        rw [← Option.not_isSome_iff_eq_none]
        exact fun hkey => hnot ⟨hroom, hmd, hkey⟩
      rw [if_pos hmd, hnokey]
      rfl
    · rw [if_neg hmd]
      rfl
  · rw [hsome, if_pos rfl, hkey]
    rfl

/-- The accumulated bits are zero when every byte is. -/
theorem foldl_or_eq_zero_iff (l : List UInt8) (acc : UInt8) :
    l.foldl (· ||| ·) acc = 0 ↔ acc = 0 ∧ ∀ b ∈ l, b = 0 := by
  induction l generalizing acc with
  | nil => simp
  | cons b l ih =>
    rw [List.foldl_cons, ih, UInt8.or_eq_zero_iff, and_assoc, List.forall_mem_cons]

theorem forall_xor_eq_zero_iff {l l' : List UInt8} (hlen : l.length = l'.length) :
    (∀ b ∈ List.zipWith (· ^^^ ·) l l', b = 0) ↔ l = l' := by
  induction l generalizing l' with
  | nil =>
    rw [List.length_eq_zero_iff.mp hlen.symm]
    simp
  | cons a l ih =>
    cases l' with
    | nil => cases hlen
    | cons a' l' =>
      rw [List.zipWith_cons_cons, List.forall_mem_cons, UInt8.xor_eq_zero_iff,
        ih (Nat.succ.inj hlen), List.cons.injEq]

/-- The comparison finds every difference. -/
theorem hmacDiff_eq_zero_iff {computed expected : Hmac} :
    hmacDiff computed expected = 0 ↔ computed = expected := by
  have hlen : computed.toList.length = expected.toList.length := by
    rw [List.Vector.toList_length, List.Vector.toList_length]
  unfold hmacDiff
  rw [foldl_or_eq_zero_iff, forall_xor_eq_zero_iff hlen, List.Vector.toList_injective.eq_iff]
  exact and_iff_right rfl

/-- **The HMAC check** passes when the packet carries the HMAC under the key resolved for the
sender; it changes no record. -/
theorem verifyHMAC_cases (mac : Mac) (data : List UInt8) (expected : Hmac) (mdOk : Bool)
    (m : PeerCounterManager) :
    SameRecords m (m.verifyHMAC hmacSha256 mac data expected mdOk).2 ∧
    ((¬ (m.HasRoom mac ∧ mdOk = true ∧
          ∃ key, m.keyFor mac = some key ∧ hmacSha256 key data = expected) ∧
        (m.verifyHMAC hmacSha256 mac data expected mdOk).1 = false) ∨
      (m.HasRoom mac ∧ mdOk = true ∧
        (m.verifyHMAC hmacSha256 mac data expected mdOk).2.Known mac ∧
        (∃ key, m.keyFor mac = some key ∧ hmacSha256 key data = expected) ∧
        (m.verifyHMAC hmacSha256 mac data expected mdOk).1 = true)) := by
  have hcases := computeHMAC_cases hmacSha256 mac data mdOk m
  unfold verifyHMAC
  revert hcases
  obtain ⟨answer, m'⟩ := m.computeHMAC hmacSha256 mac data mdOk
  rintro ⟨hs, ⟨hnot, rfl⟩ | ⟨hroom, hmd, hknown, key, hkey, rfl⟩⟩
  · -- nothing was computed
    refine ⟨hs, Or.inl ⟨fun h => hnot ⟨h.1, h.2.1, ?_⟩, rfl⟩⟩
    obtain ⟨key, hkey, -⟩ := h.2.2
    rw [hkey]
    rfl
  · refine ⟨hs, ?_⟩
    dsimp only
    -- computed: the comparison tells the two values apart
    by_cases heq : hmacSha256 key data = expected
    · refine Or.inr ⟨hroom, hmd, hknown, ⟨key, hkey, heq⟩, ?_⟩
      rw [beq_iff_eq, hmacDiff_eq_zero_iff]
      exact heq
    · refine Or.inl ⟨fun ⟨_, _, key', hkey', heq'⟩ => ?_, ?_⟩
      · rw [hkey] at hkey'
        obtain rfl := Option.some.inj hkey'
        exact heq heq'
      · rw [beq_eq_false_iff_ne, ne_eq, hmacDiff_eq_zero_iff]
        exact heq

end Crypto

/-! ## Slots taken

Records do not say which MACs have a slot, and a failure for lack of one depends on just that.
Every operation takes the slot that a look for its MAC would take. -/

/-- The two tables have the same slots in use, for the same MACs. -/
def SameSlots (m m' : PeerCounterManager) : Prop := slots.SameSlots m.peers m'.peers

theorem SameSlots.refl (m : PeerCounterManager) : SameSlots m m := SlotKind.SameSlots.refl _ _

theorem SameSlots.trans (h : SameSlots m m') (h' : SameSlots m' m'') : SameSlots m m'' :=
  SlotKind.SameSlots.trans h h'

theorem SameSlots.hasRoom_iff (h : SameSlots m m') (mac : Mac) : m'.HasRoom mac ↔ m.HasRoom mac :=
  SlotKind.SameSlots.hasRoom_iff h mac

/-- Looking for a peer's slot takes the same slot in both. -/
theorem SameSlots.findOrCreate (h : SameSlots m m') (mac : Mac) :
    SameSlots (m.findOrCreatePeerIndex mac).2 (m'.findOrCreatePeerIndex mac).2 := by
  rw [findOrCreatePeerIndex_eq, findOrCreatePeerIndex_eq]
  exact SlotKind.SameSlots.claim h mac

/-- Looking again takes no further slot. -/
theorem findOrCreatePeerIndex_again (hfind : slots.find mac m.peers = some idx) :
    m.findOrCreatePeerIndex mac = (some idx, m) := by
  rw [findOrCreatePeerIndex_eq, SlotKind.claim_of_found hfind]

theorem sameSlots_setPeer {peer : PeerCounter} (hfind : slots.find mac m.peers = some idx)
    (hpeer : slots.holds mac peer = true) : SameSlots m (m.setPeer idx peer) :=
  SlotKind.sameSlots_write hfind hpeer

/-- **Counting a packet** takes the slot looked for, and no other. -/
theorem sameSlots_incrementTxCounter (mac : Mac) (m : PeerCounterManager) :
    SameSlots (m.findOrCreatePeerIndex mac).2 (m.incrementTxCounter mac).2 := by
  unfold incrementTxCounter
  rcases findOrCreatePeerIndex_cases mac m with
    ⟨-, heq⟩ | ⟨-, idx, m', heq, hfind, hslot, -⟩
  · rw [heq]
    exact .refl m
  · rw [heq]
    dsimp only
    rw [hslot]
    exact sameSlots_setPeer hfind (holds_record mac m)

/-- So does setting a key. -/
theorem sameSlots_setPeerLMK (mac : Mac) (lmk : Key) (m : PeerCounterManager) :
    SameSlots (m.findOrCreatePeerIndex mac).2 (m.setPeerLMK mac lmk).2 := by
  unfold setPeerLMK
  rcases findOrCreatePeerIndex_cases mac m with
    ⟨-, heq⟩ | ⟨-, idx, m', heq, hfind, hslot, -⟩
  · rw [heq]
    exact .refl m
  · rw [heq]
    dsimp only
    rw [hslot]
    exact sameSlots_setPeer hfind (holds_record mac m)

/-- So does checking a counter. -/
theorem sameSlots_validateRxCounter (mac : Mac) (received : UInt32) (m : PeerCounterManager) :
    SameSlots (m.findOrCreatePeerIndex mac).2 (m.validateRxCounter mac received).2 := by
  unfold validateRxCounter
  rcases findOrCreatePeerIndex_cases mac m with
    ⟨-, heq⟩ | ⟨-, idx, m', heq, hfind, hslot, -⟩
  · rw [heq]
    exact .refl m
  · rw [heq]
    dsimp only
    rw [hslot]
    split
    · exact sameSlots_setPeer hfind (holds_record mac m)
    · exact .refl m'

/-- So does computing an HMAC. -/
theorem computeHMAC_snd (hmacSha256 : Key → List UInt8 → Hmac) (mac : Mac) (data : List UInt8)
    (mdOk : Bool) (m : PeerCounterManager) :
    (m.computeHMAC hmacSha256 mac data mdOk).2 = (m.findOrCreatePeerIndex mac).2 := by
  unfold computeHMAC
  obtain ⟨answer, m'⟩ := m.findOrCreatePeerIndex mac
  cases answer with
  | none => rfl
  | some idx =>
    dsimp only
    cases m'.resolveLmk idx with
    | none => rfl
    | some lmk => cases mdOk <;> rfl

/-- So does checking one. -/
theorem verifyHMAC_snd (hmacSha256 : Key → List UInt8 → Hmac) (mac : Mac) (data : List UInt8)
    (expected : Hmac) (mdOk : Bool) (m : PeerCounterManager) :
    (m.verifyHMAC hmacSha256 mac data expected mdOk).2 = (m.findOrCreatePeerIndex mac).2 := by
  rw [← m.computeHMAC_snd hmacSha256 mac data mdOk]
  unfold verifyHMAC
  obtain ⟨answer, m'⟩ := m.computeHMAC hmacSha256 mac data mdOk
  cases answer <;> rfl

end PeerCounterManager

end Icsn
