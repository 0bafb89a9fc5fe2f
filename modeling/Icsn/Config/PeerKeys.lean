import Icsn.Config.Config

/-!
# Icsn — the peers that are loaded

`loadPeerKeys` writes a peer into the next entry before it knows whether both texts parse, and
writes the following peer over it if they do not.

* **`loadPeerKeys_peers`** — the entries counted are the peers that parse, in their order; none of
  the others is marked valid.
-/

namespace Icsn

variable {maxEntries : Nat} (keyName : Str)

/-- A peer that is not taken leaves the mark of the entry as it was. -/
theorem valid_loadPeerKey {peer : Json} {entry : PeerKeyConfig}
    (hfail : (loadPeerKey keyName peer entry).1 = false) :
    (loadPeerKey keyName peer entry).2.valid = entry.valid := by
  revert hfail
  unfold loadPeerKey
  obtain ⟨macOk, mac⟩ := macStringToBytes (peerMacText peer) entry.mac
  cases macOk with
  | false => exact fun _ => rfl
  | true =>
    dsimp only
    obtain ⟨keyOk, key⟩ := hexStringToBytes (peerKeyText keyName peer) entry.key
    cases keyOk with
    | false => exact fun _ => rfl
    | true => exact fun hfail => Bool.noConfusion hfail

/-- No entry from `count` on is marked valid. -/
def UnmarkedFrom (count : Nat) (entries : List.Vector PeerKeyConfig maxEntries) : Prop :=
  ∀ i : Fin maxEntries, count ≤ i.val → (entries.get i).valid = false

/-- Writing an entry that is not marked, or in front of the rest, keeps the rest unmarked. -/
theorem UnmarkedFrom.set {count : Nat} {entries : List.Vector PeerKeyConfig maxEntries}
    (h : UnmarkedFrom count entries) {count' : Nat} (hle : count ≤ count') {j : Fin maxEntries}
    {entry : PeerKeyConfig} (hentry : j.val < count' ∨ entry.valid = false) :
    UnmarkedFrom count' (entries.set j entry) := by
  intro i hi
  by_cases hij : j = i
  · subst hij
    rw [List.Vector.get_set_same]
    exact hentry.resolve_left (by omega)
  · rw [List.Vector.get_set_of_ne hij]
    exact h i (hle.trans hi)

/-- **The loop** marks no entry that it does not count. -/
theorem unmarked_loadPeerKeysLoop (peers : List Json) {count : Nat}
    {outEntries : List.Vector PeerKeyConfig maxEntries} (h : UnmarkedFrom count outEntries) :
    let r := loadPeerKeysLoop keyName peers count outEntries
    UnmarkedFrom r.1 r.2 := by
  induction peers generalizing count outEntries with
  | nil => exact h
  | cons peer peers ih =>
    unfold loadPeerKeysLoop
    split
    · next hcount =>
      apply ih
      cases htaken : (loadPeerKey keyName peer (outEntries.get ⟨count, hcount⟩)).1 with
      | false =>
        refine h.set (Nat.le_refl _) (Or.inr ?_)
        rw [valid_loadPeerKey keyName htaken]
        exact h _ (Nat.le_refl _)
      | true => exact h.set (Nat.le_succ _) (Or.inl (Nat.lt_succ_self _))
    · exact h

/-- **`loadPeerKeys` never mixes peers.**  On a zeroed array of any size: as many entries are
counted as there are peers whose two texts parse, up to the size; they are the MAC and the key of
those peers, each pair from one peer, in the order of the list and marked valid; and no entry behind
them is marked valid. -/
theorem loadPeerKeys_peers (peersNode : Json) :
    let r := loadPeerKeys keyName peersNode (List.Vector.replicate maxEntries {})
    let parsed := peersNode.elements.filterMap (parsePeerKey keyName)
    r.1 = min maxEntries parsed.length ∧
    r.2.toList.take r.1 = parsed.take maxEntries ∧
    ∀ i : Fin maxEntries, r.1 ≤ i.val → (r.2.get i).valid = false := by
  refine ⟨loadPeerKeys_fst keyName _ _, take_loadPeerKeys keyName _ _, ?_⟩
  apply unmarked_loadPeerKeysLoop
  intro i _
  rw [List.Vector.get_replicate]

end Icsn
