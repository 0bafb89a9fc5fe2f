import Icsn.Config.Config
import Icsn.Controller.ControllerSteps
import Icsn.Lib.SlotOccupancy

/-!
# Icsn — the keys of a boot

* **`configuredKey`** — the key that a list of entries gives a MAC.
* **`keyFor_boot`** — the key that a node resolves after its boot: the one configured for the MAC,
  else the default key if HMAC is enabled.  The table has a slot for every entry there can be.
-/

namespace Icsn

/-- The key that entries give a MAC; a later entry goes over an earlier one. -/
def configuredKey (mac : Mac) : List PeerKeyConfig → Option Key
  | [] => none
  | entry :: entries =>
    (configuredKey mac entries).or (if entry.valid ∧ entry.mac = mac then some entry.key else none)

/-- The entries for peers that a configuration has in use. -/
def SystemConfig.hmacPeers (systemConfig : SystemConfig) : List PeerKeyConfig :=
  systemConfig.hmacPeerKeyEntries.toList.take systemConfig.hmacPeerKeyCount

theorem SystemConfig.length_hmacPeers_le (systemConfig : SystemConfig) :
    systemConfig.hmacPeers.length ≤ maxPeers := by
  unfold SystemConfig.hmacPeers
  rw [List.length_take, List.Vector.toList_length]
  exact Nat.min_le_right _ _

/-- The default key that a configuration has in use. -/
def SystemConfig.hmacDefault (systemConfig : SystemConfig) : Option Key :=
  if systemConfig.hmacAuthenticationEnabled ∧ systemConfig.hmacDefaultKeyConfigured then
    some systemConfig.hmacDefaultKey
  else none

/-- A configured key is the key of an entry for the MAC. -/
theorem exists_entry_of_configuredKey {mac : Mac} {key : Key} {entries : List PeerKeyConfig}
    (h : configuredKey mac entries = some key) :
    ∃ entry ∈ entries, entry.valid = true ∧ entry.mac = mac ∧ entry.key = key := by
  induction entries with
  | nil => cases h
  | cons entry entries ih =>
    unfold configuredKey at h
    rcases Option.or_eq_some_iff.mp h with hlater | ⟨-, hthis⟩
    · obtain ⟨entry', hmem, hentry'⟩ := ih hlater
      exact ⟨entry', List.mem_cons_of_mem entry hmem, hentry'⟩
    · split at hthis
      · next hentry => exact ⟨entry, List.mem_cons_self, hentry.1, hentry.2, Option.some.inj hthis⟩
      · cases hthis

/-- An entry for the MAC gives it a key. -/
theorem configuredKey_isSome_iff {mac : Mac} {entries : List PeerKeyConfig} :
    (configuredKey mac entries).isSome = true ↔
      ∃ entry ∈ entries, entry.valid = true ∧ entry.mac = mac := by
  induction entries with
  | nil => exact iff_of_false (fun h => Bool.noConfusion h) (fun ⟨_, hmem, _⟩ => by cases hmem)
  | cons entry entries ih =>
    unfold configuredKey
    rw [Option.isSome_or, Bool.or_eq_true, ih, List.exists_mem_cons_iff, or_comm]
    refine or_congr_left ?_
    split
    · next hentry => exact iff_of_true rfl hentry
    · next hentry => exact iff_of_false (by decide) hentry

namespace PeerCounterManager

/-- The loop over the entries in `loadAndApplyConfig`. -/
def setPeerLMKs (entries : List PeerKeyConfig) (m : PeerCounterManager) : PeerCounterManager :=
  entries.foldl (fun m entry => if entry.valid then (m.setPeerLMK entry.mac entry.key).2 else m) m

theorem setPeerLMKs_cons (entry : PeerKeyConfig) (entries : List PeerKeyConfig)
    (m : PeerCounterManager) :
    m.setPeerLMKs (entry :: entries)
      = (if entry.valid then (m.setPeerLMK entry.mac entry.key).2 else m).setPeerLMKs entries := rfl

/-- The number of slots in use. -/
def slotsTaken (m : PeerCounterManager) : Nat := (slots.taken m.peers).card

theorem slotsTaken_of_no_peer {m : PeerCounterManager}
    (h : ∀ i, (m.peers i).active = false) : m.slotsTaken = 0 := by
  unfold slotsTaken SlotKind.taken
  rw [Finset.card_eq_zero, Finset.filter_eq_empty_iff]
  intro i _
  show ¬ (m.peers i).active = true
  rw [h i]
  decide

/-- Without peers every MAC has the default key. -/
theorem keyFor_of_no_peer {m : PeerCounterManager} (h : ∀ i, (m.peers i).active = false)
    {mac : Mac} : m.keyFor mac = if m.globalLmkSet then some m.globalLmk else none := by
  have hfind : slots.find mac m.peers = none := by
    apply Fin.find?_eq_none_iff.mpr
    intro i
    show ((m.peers i).active && _) = false
    rw [h i, Bool.false_and]
  unfold keyFor record
  rw [SlotKind.entry_of_not_found hfind]
  rfl

theorem slotsTaken_setPeerLMK_le (mac : Mac) (lmk : Key) (m : PeerCounterManager) :
    (m.setPeerLMK mac lmk).2.slotsTaken ≤ m.slotsTaken + 1 := by
  have hslots := SlotKind.SameSlots.taken_eq (sameSlots_setPeerLMK mac lmk m)
  unfold slotsTaken
  rw [hslots, findOrCreatePeerIndex_eq]
  exact SlotKind.card_taken_claim_le slots mac m.peers

/-- Setting a key with room for it changes the key of that MAC. -/
theorem keyFor_setPeerLMK {mac : Mac} {m : PeerCounterManager} (hroom : m.HasRoom mac) (lmk : Key)
    (mac' : Mac) :
    (m.setPeerLMK mac lmk).2.keyFor mac' = if mac = mac' then some lmk else m.keyFor mac' := by
  rcases m.setPeerLMK_cases mac lmk with ⟨hnot, -⟩ | ⟨-, -, hset⟩
  · exact absurd hroom hnot
  · unfold keyFor
    by_cases hmac : mac = mac'
    · rw [if_pos hmac, ← hmac, hset.record_self]
      rfl
    · rw [if_neg hmac, hset.record_ne mac' (Ne.symm hmac), hset.globalLmk_eq, hset.globalLmkSet_eq]

/-- **The loop over the entries**, with a slot for each of them: the entries' keys go over those
there were. -/
theorem keyFor_setPeerLMKs (entries : List PeerKeyConfig) {m : PeerCounterManager}
    (hslots : m.slotsTaken + entries.length ≤ maxPeers) (mac : Mac) :
    (m.setPeerLMKs entries).keyFor mac = (configuredKey mac entries).or (m.keyFor mac) := by
  induction entries generalizing m with
  | nil => rfl
  | cons entry entries ih =>
    rw [List.length_cons] at hslots
    rw [setPeerLMKs_cons]
    unfold configuredKey
    by_cases hvalid : entry.valid = true
    · have htaken := m.slotsTaken_setPeerLMK_le entry.mac entry.key
      have hroom : m.HasRoom entry.mac := by
        apply SlotKind.hasRoom_of_card_lt
        show m.slotsTaken < maxPeers
        omega
      rw [if_pos hvalid, ih (by omega), keyFor_setPeerLMK hroom, Option.or_assoc]
      by_cases hmac : entry.mac = mac
      · rw [if_pos hmac, if_pos ⟨hvalid, hmac⟩]
        rfl
      · rw [if_neg hmac, if_neg fun h => hmac h.2]
        rfl
    · rw [if_neg hvalid, ih (by omega), if_neg fun h => hvalid h.1, Option.or_none]

end PeerCounterManager

namespace ESP_NOWController

variable {caps : BuildCapacity}

/-- A configuration sets the default key, then those of the peers. -/
theorem peerCounterManager_loadAndApplyConfig (systemConfig : SystemConfig)
    (c : ESP_NOWController caps) :
    (c.loadAndApplyConfig systemConfig).peerCounterManager
      = (match systemConfig.hmacDefault with
          | some key => c.peerCounterManager.setGlobalLMK key
          | none => c.peerCounterManager).setPeerLMKs systemConfig.hmacPeers := by
  -- the loop over the keys is that of the table
  have hpeers : ∀ (entries : List PeerKeyConfig) (c : ESP_NOWController caps),
      (entries.foldl (fun c entry =>
        if entry.valid then (c.setPeerLMK entry.mac entry.key).2 else c) c).peerCounterManager
        = c.peerCounterManager.setPeerLMKs entries := by
    intro entries
    induction entries with
    | nil => exact fun _ => rfl
    | cons entry entries ih =>
      intro c
      rw [List.foldl_cons, ih]
      rw [PeerCounterManager.setPeerLMKs_cons]
      by_cases hvalid : entry.valid = true
      · rw [if_pos hvalid, if_pos hvalid]
        rfl
      · rw [if_neg hvalid, if_neg hvalid]
  -- the loop over the routes does not touch the table
  have hroutes : ∀ (entries : List FibInitEntry) (c : ESP_NOWController caps),
      (entries.foldl (fun c entry => if entry.valid then
        c.initFIBEntry systemConfig (cstr entry.contentName.toList) (cstr entry.nextHopMac.toList)
        else c) c).peerCounterManager = c.peerCounterManager := by
    intro entries
    induction entries with
    | nil => exact fun _ => rfl
    | cons entry entries ih =>
      intro c
      rw [List.foldl_cons, ih]
      split <;> rfl
  unfold loadAndApplyConfig SystemConfig.hmacDefault
  dsimp only
  rw [hroutes, hpeers]
  show PeerCounterManager.setPeerLMKs systemConfig.hmacPeers _ = _
  congr 1
  split <;> split <;> simp_all <;> rfl

/-- **The key after a boot**: the one configured for the MAC, else the default. -/
theorem keyFor_boot (systemConfig : SystemConfig) (mac : Mac) :
    (boot caps systemConfig).peerCounterManager.keyFor mac
      = (configuredKey mac systemConfig.hmacPeers).or systemConfig.hmacDefault := by
  unfold boot
  rw [peerCounterManager_loadAndApplyConfig, PeerCounterManager.keyFor_setPeerLMKs]
  · -- no peer has a key of its own before the loop
    congr 1
    cases systemConfig.hmacDefault with
    | none => exact PeerCounterManager.keyFor_of_no_peer fun _ => rfl
    | some key => exact PeerCounterManager.keyFor_of_no_peer fun _ => rfl
  · rw [PeerCounterManager.slotsTaken_of_no_peer, Nat.zero_add]
    · exact systemConfig.length_hmacPeers_le
    · cases systemConfig.hmacDefault <;> exact fun _ => rfl

end ESP_NOWController

end Icsn
