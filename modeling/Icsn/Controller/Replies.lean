import Icsn.Controller.ESPNOWController
import Icsn.UseCase.PendingRequesters

/-!
# Icsn — replies go to the nodes that asked

A MAC becomes text when its INTEREST comes in, waits in a PIT entry, and becomes a MAC again in the
control data of the DATA.

* **`Lists`** — a requester set holds the texts of these MACs, each of them once.
* **`asked_interest`** — an INTEREST adds its sender, as long as the set has room for the distinct
  senders.
* **`count_txAddress`** — the control data of a DATA repeats what the entry lists.
* **`replies_to_requesters`** — from an empty PIT, over any INTERESTs for the name.
-/

namespace Icsn

open ESP_NOWController (receiveMessage controlDataOf)
open LRUPendingInterestTable (knownRequesters index_save)

variable {caps : BuildCapacity} {systemConfig : SystemConfig}

/-! ## Requesters listed

The set of an entry holds texts, the statement is about MACs.  `addressToString` is injective, so
the relation between the two is kept by an insert whichever way it goes: a MAC that is listed
already, or a new one behind the last. -/

/-- The ids are the texts of the MACs that asked, each of them once. -/
structure Lists (asked : List Mac) (ids : List Str) : Prop where
  nodup : ids.Nodup
  mem_iff : ∀ id, id ∈ ids ↔ ∃ mac ∈ asked, id = addressToString mac

theorem lists_nil : Lists [] [] :=
  ⟨.nil, fun _ => ⟨fun h => absurd h List.not_mem_nil,
    fun ⟨_, h, _⟩ => absurd h List.not_mem_nil⟩⟩

variable {asked : List Mac} {ids : List Str}

theorem Lists.mem_addressToString (h : Lists asked ids) (mac : Mac) :
    addressToString mac ∈ ids ↔ mac ∈ asked := by
  rw [h.mem_iff]
  refine ⟨fun ⟨mac', hmac', heq⟩ => ?_, fun hmac => ⟨mac, hmac, rfl⟩⟩
  rw [addressToString_injective heq]
  exact hmac'

/-- There are as many ids as there are distinct MACs. -/
theorem Lists.length_eq (h : Lists asked ids) : ids.length = asked.dedup.length := by
  have hperm : ids.Perm (asked.dedup.map addressToString) := by
    rw [List.perm_ext_iff_of_nodup h.nodup
      (asked.nodup_dedup.map addressToString_injective)]
    intro id
    rw [h.mem_iff, List.mem_map]
    exact ⟨fun ⟨mac, hmac, heq⟩ => ⟨mac, List.mem_dedup.mpr hmac, heq.symm⟩,
      fun ⟨mac, hmac, heq⟩ => ⟨mac, List.mem_dedup.mp hmac, heq.symm⟩⟩
  rw [hperm.length_eq, List.length_map]

theorem Lists.empty_notMem (h : Lists asked ids) : [] ∉ ids := by
  intro hmem
  obtain ⟨mac, -, heq⟩ := (h.mem_iff []).mp hmem
  have hlen := length_addressToString mac
  rw [← heq] at hlen
  exact absurd hlen (by decide)

/-- The text of a MAC is stored whole where 17 characters have room. -/
theorem stored_addressToString {maxChars : Nat} (hchars : 17 ≤ maxChars) (mac : Mac) :
    FixedNodeIdSet.normalize maxChars (addressToString mac) = addressToString mac ∧
      FixedNodeIdSet.stored maxChars (addressToString mac) = addressToString mac := by
  have hlen : (addressToString mac).length ≤ maxChars :=
    (length_addressToString mac).trans_le hchars
  exact ⟨FixedNodeIdSet.normalize_of_length_le hlen,
    FixedNodeIdSet.stored_of_isCString ⟨hlen, zero_notMem_addressToString mac⟩⟩

/-- A MAC that asks again is listed already. -/
theorem Lists.cons_of_mem (h : Lists asked ids) {mac : Mac} (hmac : mac ∈ asked) :
    Lists (mac :: asked) ids where
  nodup := h.nodup
  mem_iff id := by
    rw [h.mem_iff id, List.exists_mem_cons_iff]
    exact (or_iff_right_of_imp fun heq => ⟨mac, hmac, heq⟩).symm

/-- A MAC that asks for the first time goes to the end. -/
theorem Lists.append (h : Lists asked ids) {mac : Mac} (hnew : addressToString mac ∉ ids) :
    Lists (mac :: asked) (ids ++ [addressToString mac]) where
  nodup := by
    rw [List.nodup_append]
    refine ⟨h.nodup, List.nodup_singleton _, fun a ha b hb heq => hnew ?_⟩
    rw [← List.mem_singleton.mp hb, ← heq]
    exact ha
  mem_iff id := by
    rw [List.mem_append, List.mem_singleton, h.mem_iff id, List.exists_mem_cons_iff, or_comm]

/-- **One more requester**: appended if it is new, and there is room for it. -/
theorem Lists.insert {maxItems maxChars : Nat} {s : FixedNodeIdSet maxItems maxChars}
    (h : Lists asked s.ids) (hchars : 17 ≤ maxChars) (mac : Mac)
    (hroom : (mac :: asked).dedup.length ≤ maxItems) :
    Lists (mac :: asked) (s.insert (addressToString mac)).2.ids := by
  obtain ⟨hnormal, hstored⟩ := stored_addressToString hchars mac
  have hmemiff := h.mem_addressToString mac
  -- a MAC that has asked before changes nothing; a new one finds room, as the distinct ones have
  by_cases hmac : mac ∈ asked
  · have hids : (s.insert (addressToString mac)).2.ids = s.ids := by
      rcases FixedNodeIdSet.insert_cases s (addressToString mac) with
        ⟨-, heq⟩ | ⟨-, -, heq⟩ | ⟨-, hnew, -⟩
      · rw [heq]
      · rw [heq]
      · rw [hnormal] at hnew
        exact absurd (hmemiff.mpr hmac) hnew
    rw [hids]
    exact h.cons_of_mem hmac
  · have hnew : addressToString mac ∉ s.ids := fun hmem => hmac (hmemiff.mp hmem)
    have hlen : s.ids.length < maxItems := by
      rw [h.length_eq]
      rw [List.dedup_cons_of_notMem hmac, List.length_cons] at hroom
      omega
    have hids : (s.insert (addressToString mac)).2.ids = s.ids ++ [addressToString mac] := by
      rcases FixedNodeIdSet.insert_cases s (addressToString mac) with
        ⟨hnot, -⟩ | ⟨-, hold, -⟩ | ⟨-, -, -, heq⟩
      · refine absurd ⟨?_, Or.inr hlen⟩ hnot
        rw [hnormal]
        exact List.ne_nil_of_length_pos (by rw [length_addressToString]; omega)
      · rw [hnormal] at hold
        exact absurd hold hnew
      · rw [heq, hstored]
    rw [hids]
    exact h.append hnew

theorem length_dedup_le {l l' : List Mac} (h : l ⊆ l') : l.dedup.length ≤ l'.dedup.length :=
  ((List.nodup_dedup l).subperm fun _ hmac =>
    List.mem_dedup.mpr (h (List.mem_dedup.mp hmac))).length_le

/-! ## The entry of a name

From an empty PIT the first INTEREST makes the entry of the name, and every later one finds it
there.  The invariant has these two cases. -/

/-- The PIT has an entry for the name that lists the MACs; or it is empty, and nobody has asked. -/
structure Asked (name : Str) (asked : List Mac) (pit : LRUPendingInterestTable caps) : Prop where
  wf : pit.index.Wf
  entry : (asked = [] ∧ pit.currentSize = 0) ∨
    ∃ requesters, pit.index.lookup name = some requesters ∧ Lists asked requesters.ids

theorem Asked.known {name : Str} {pit : LRUPendingInterestTable caps} (h : Asked name asked pit) :
    Lists asked (knownRequesters (pit.index.lookup name)).ids := by
  rcases h.entry with ⟨hasked, hsize⟩ | ⟨requesters, hlook, hlists⟩
  · rw [h.wf.lookup_of_size_zero hsize, hasked]
    exact lists_nil
  · -- the copy that `save` makes is the set itself
    have hcopy : (knownRequesters (some requesters)).ids = requesters.ids :=
      FixedNodeIdSet.ids_insertFromOther_empty hlists.empty_notMem hlists.nodup
    rw [hlook, hcopy]
    exact hlists

/-- A put for the name finds the entry, or an empty table. -/
theorem Asked.put {name : Str} {pit : LRUPendingInterestTable caps} (h : Asked name asked pit)
    (requesters : RequesterSet caps) : (pit.index.put name requesters).1 = true := by
  rw [← Bool.not_eq_false, CacheIndex.put_eq_false_iff h.wf]
  intro ⟨hnone, hfull⟩
  rcases h.entry with ⟨-, hsize⟩ | ⟨requesters, hlook, -⟩
  · have hempty : pit.index.currentSize = 0 := hsize
    have hpos := caps.pitEntries_pos
    omega
  · rw [hlook] at hnone
    cases hnone

/-- **Saving an INTEREST** for the name. -/
theorem Asked.save {name : Str} {pit : LRUPendingInterestTable caps} (h : Asked name asked pit)
    (hchars : 17 ≤ caps.nodeIdMaxChars) (mac : Mac)
    (hroom : (mac :: asked).dedup.length ≤ caps.pitRequestersPerEntry) :
    Asked name (mac :: asked) (LRUPendingInterestTable.save
      { contentName := name, destinationId := .singleton (addressToString mac) } pit) where
  wf := by
    rw [index_save]
    exact h.wf.put _ _
  entry := by
    refine Or.inr ⟨_, by rw [index_save]; exact CacheIndex.lookup_put_self h.wf (h.put _), ?_⟩
    show Lists (mac :: asked) (LRUPendingInterestTable.mergedDestinations
      (pit.index.lookup name) (.singleton (addressToString mac))).ids
    rw [LRUPendingInterestTable.mergedDestinations_singleton]
    exact h.known.insert hchars mac hroom

/-! ## INTERESTs and the DATA

The induction is over the INTERESTs, with the senders so far as its invariant.  The DATA then takes
the entry out, and its texts are read back into the addresses of the control data. -/

/-- An INTEREST for the name, below the hop limit. -/
structure IsInterestFor (systemConfig : SystemConfig) (name : Str) (data : ESP_NOWControlData) :
    Prop where
  signalCode : SignalCode.fromString (cstr data.signalCode.toList) = .interest
  contentName : cstr data.contentName.toList = name
  hopCount : (data.hopCount.toNat : Int) + 1 < systemConfig.hopCountThreshold

/-- A DATA for the name. -/
structure IsDataFor (name : Str) (data : ESP_NOWControlData) : Prop where
  signalCode : SignalCode.fromString (cstr data.signalCode.toList) = .data
  contentName : cstr data.contentName.toList = name

/-- **One INTEREST** from a MAC: the name stays out of the Content Store, and the MAC is listed. -/
theorem asked_interest {node : NodeState caps} {name : Str} {data : ESP_NOWControlData}
    (hasked : Asked name asked node.pitRepository) (hmiss : node.csRepository.find name = false)
    (hinterest : IsInterestFor systemConfig name data) (hchars : 17 ≤ caps.nodeIdMaxChars)
    (myMac mac : Mac) (alloc : Option Bool)
    (hroom : (mac :: asked).dedup.length ≤ caps.pitRequestersPerEntry) :
    let node' := (receiveMessage systemConfig myMac mac data alloc node).2
    Asked name (mac :: asked) node'.pitRepository ∧ node'.csRepository.find name = false := by
  obtain ⟨hcode, rfl, hhop⟩ := hinterest
  unfold ESP_NOWController.receiveMessage
  rw [hcode]
  dsimp only
  generalize hinput : InputData.mk _ _ _ _ _ _ = inputData
  have hname : inputData.contentName = cstr data.contentName.toList := by rw [← hinput]
  have hsender : inputData.senderId = addressToString mac := by rw [← hinput]
  have hbelow : inputData.hopCount + 1 < systemConfig.hopCountThreshold := by
    rw [← hinput]
    exact hhop
  -- below the limit and not stored, so the INTEREST gets to the PIT
  rcases handleInterestReceive_cases systemConfig inputData node with
    ⟨hlimit, -⟩ | ⟨-, hhit, -⟩ | ⟨-, -, -, hcs, hpit⟩
  · omega
  · rw [hname, hmiss] at hhit
    cases hhit
  · rw [hcs, hpit, hname, hsender]
    exact ⟨hasked.save hchars mac hroom, hmiss⟩

/-- The node after these INTERESTs. -/
def afterInterests (systemConfig : SystemConfig) (myMac : Mac) (node : NodeState caps)
    (requests : List (Mac × ESP_NOWControlData)) : NodeState caps :=
  requests.foldl
    (fun node request => (receiveMessage systemConfig myMac request.1 request.2 none node).2) node

/-- **Any INTERESTs** for the name, with room for their distinct senders. -/
theorem asked_interests (hchars : 17 ≤ caps.nodeIdMaxChars) (myMac : Mac) {name : Str}
    (requests : List (Mac × ESP_NOWControlData)) {node : NodeState caps} {asked : List Mac}
    (hasked : Asked name asked node.pitRepository) (hmiss : node.csRepository.find name = false)
    (hinterests : ∀ request ∈ requests, IsInterestFor systemConfig name request.2)
    (hroom : ((requests.map Prod.fst).reverse ++ asked).dedup.length
      ≤ caps.pitRequestersPerEntry) :
    Asked name ((requests.map Prod.fst).reverse ++ asked)
      (afterInterests systemConfig myMac node requests).pitRepository := by
  induction requests generalizing node asked with
  | nil => exact hasked
  | cons request requests ih =>
    rw [List.map_cons, List.reverse_cons, List.append_assoc, List.singleton_append] at hroom ⊢
    have hfirst : (request.1 :: asked).dedup.length ≤ caps.pitRequestersPerEntry :=
      (length_dedup_le (List.subset_append_right _ _)).trans hroom
    obtain ⟨hasked', hmiss'⟩ := asked_interest hasked hmiss
      (hinterests request List.mem_cons_self) hchars myMac request.1 none hfirst
    exact ih hasked' hmiss'
      (fun request hmem => hinterests request (List.mem_cons_of_mem _ hmem)) hroom

/-- Up to 20 texts of MACs, in the order of the set, are the first addresses; zero addresses
follow. -/
theorem txAddress_eq {outputData : OutputData} (hlists : Lists asked outputData.destId.toList)
    (hroom : asked.dedup.length ≤ maxTxAddresses) :
    (controlDataOf outputData).txAddress.toList
      = outputData.destId.toList.map macStringToArray
        ++ List.replicate (maxTxAddresses - asked.dedup.length) Mac.zero := by
  have hlen := hlists.length_eq
  have hall : outputData.destId.toList.take maxTxAddresses = outputData.destId.toList :=
    List.take_of_length_le (by omega)
  show ((outputData.destId.toList.take maxTxAddresses).map macStringToArray
    ++ List.replicate maxTxAddresses Mac.zero).take maxTxAddresses = _
  rw [hall, List.take_append, List.length_map, hlen, List.take_replicate,
    List.take_of_length_le (by rw [List.length_map]; omega), Nat.min_eq_left (Nat.sub_le _ _)]

/-- **The addresses of an answer** to listed MACs: each once, and otherwise zero addresses. -/
theorem count_txAddress {outputData : OutputData} (hlists : Lists asked outputData.destId.toList)
    (hroom : asked.dedup.length ≤ maxTxAddresses) :
    (∀ mac ∈ asked, mac ≠ Mac.zero → (controlDataOf outputData).txAddress.toList.count mac = 1) ∧
      ∀ mac ∈ (controlDataOf outputData).txAddress.toList, mac ∈ asked ∨ mac = Mac.zero := by
  -- reading the texts gives the MACs, each once
  have hread : ∀ mac, mac ∈ outputData.destId.toList.map macStringToArray ↔ mac ∈ asked := by
    intro mac
    rw [List.mem_map]
    refine ⟨fun ⟨id, hid, heq⟩ => ?_, fun hmac => ?_⟩
    · obtain ⟨mac', hmac', rfl⟩ := (hlists.mem_iff id).mp hid
      rw [← heq, macStringToArray_addressToString]
      exact hmac'
    · exact ⟨addressToString mac, (hlists.mem_addressToString mac).mpr hmac,
        macStringToArray_addressToString mac⟩
  have hnodup : (outputData.destId.toList.map macStringToArray).Nodup := by
    refine List.Nodup.map_on (fun id hid id' hid' heq => ?_) hlists.nodup
    obtain ⟨mac, -, rfl⟩ := (hlists.mem_iff id).mp hid
    obtain ⟨mac', -, rfl⟩ := (hlists.mem_iff id').mp hid'
    rw [macStringToArray_addressToString, macStringToArray_addressToString] at heq
    rw [heq]
  rw [txAddress_eq hlists hroom]
  refine ⟨fun mac hmac hne => ?_, fun mac hmac => ?_⟩
  · rw [List.count_append, List.count_eq_one_of_mem hnodup ((hread mac).mpr hmac),
      List.count_eq_zero_of_not_mem fun hpad => hne (List.eq_of_mem_replicate hpad)]
  · rcases List.mem_append.mp hmac with hlisted | hpad
    · exact Or.inl ((hread mac).mp hlisted)
    · exact Or.inr (List.eq_of_mem_replicate hpad)

/-- The DATA is answered for the requesters of the entry. -/
theorem answer_eq (systemConfig : SystemConfig) {node : NodeState caps} {name : Str}
    {reply : ESP_NOWControlData} (hreply : IsDataFor name reply) {requesters : RequesterSet caps}
    (hlook : node.pitRepository.index.lookup name = some requesters) (myMac sender : Mac)
    (alloc : Option Bool) :
    ∃ outputData, (receiveMessage systemConfig myMac sender reply alloc node).1
        = controlDataOf outputData ∧ outputData.destId = requesters.toStdSet ∧
      outputData.signalCode = SignalCode.toString .data ∧ outputData.contentName = name := by
  obtain ⟨hcode, rfl⟩ := hreply
  unfold ESP_NOWController.receiveMessage
  rw [hcode]
  dsimp only
  generalize hinput : InputData.mk _ _ _ _ _ _ = inputData
  have hname : inputData.contentName = cstr reply.contentName.toList := by rw [← hinput]
  -- the entry is there, so the DATA is answered for it
  rcases handleDataReceive_cases inputData alloc node with ⟨hmiss, -⟩ | ⟨-, hanswer, -⟩
  · rw [LRUPendingInterestTable.find_eq, hname, hlook] at hmiss
    cases hmiss
  · refine ⟨_, rfl, ?_, ?_, ?_⟩
    · rw [hanswer, hname]
      show (LRUPendingInterestTable.get _ node.pitRepository).1 = _
      rw [LRUPendingInterestTable.get_fst, hlook]
      rfl
    · rw [hanswer]
      rfl
    · rw [hanswer, hname]
      rfl

/-- **Replies go to exactly the nodes that asked.**  With room for the texts of MACs and no more
requesters an entry than addresses in the control data: after INTERESTs for a name that come into an
empty PIT, the DATA for the name is answered for each of their senders once, and for nobody else;
and a MAC read from its text is that MAC. -/
theorem replies_to_requesters (caps : BuildCapacity) (hchars : 17 ≤ caps.nodeIdMaxChars)
    (hrequesters : caps.pitRequestersPerEntry ≤ maxTxAddresses) (systemConfig : SystemConfig)
    (events : List NodeEvent) (myMac : Mac) (name : Str)
    (hempty : (nodeAfter caps systemConfig events).pitRepository.currentSize = 0)
    (hmiss : (nodeAfter caps systemConfig events).csRepository.find name = false)
    (requests : List (Mac × ESP_NOWControlData)) (hne : requests ≠ [])
    (hsenders : ∀ request ∈ requests, request.1 ≠ Mac.zero)
    (hinterests : ∀ request ∈ requests, IsInterestFor systemConfig name request.2)
    (hroom : (requests.map Prod.fst).dedup.length ≤ caps.pitRequestersPerEntry)
    (reply : ESP_NOWControlData) (hreply : IsDataFor name reply) (sender : Mac)
    (alloc : Option Bool) :
    let node := afterInterests systemConfig myMac (nodeAfter caps systemConfig events) requests
    let txAddress := (receiveMessage systemConfig myMac sender reply alloc node).1.txAddress.toList
    (∀ request ∈ requests, txAddress.count request.1 = 1) ∧
      (∀ mac ∈ txAddress, mac ∈ requests.map Prod.fst ∨ mac = Mac.zero) ∧
      ∀ mac, macStringToArray (addressToString mac) = mac := by
  intro node txAddress
  have hstart : Asked name [] (nodeAfter caps systemConfig events).pitRepository :=
    ⟨pitWf_run caps systemConfig events, Or.inl ⟨rfl, hempty⟩⟩
  have hsame : (requests.map Prod.fst).reverse ++ [] ⊆ requests.map Prod.fst := by
    rw [List.append_nil]
    exact fun mac hmac => List.mem_reverse.mp hmac
  have hasked : Asked name _ node.pitRepository := asked_interests hchars myMac requests hstart
    hmiss hinterests ((length_dedup_le hsame).trans hroom)
  rcases hasked.entry with ⟨hnobody, -⟩ | ⟨requesters, hlook, hlists⟩
  · -- somebody asked
    rw [List.append_nil, List.reverse_eq_nil_iff, List.map_eq_nil_iff] at hnobody
    exact absurd hnobody hne
  · obtain ⟨outputData, hanswer, hdest, -, -⟩ := answer_eq systemConfig hreply
      hlook myMac sender alloc
    -- the set handed over is sorted, so the order of the requests is lost, and nothing else
    have hset : Lists ((requests.map Prod.fst).reverse ++ []) outputData.destId.toList := by
      rw [hdest]
      refine ⟨requesters.toStdSet.sorted.imp fun h => h.ne, fun id => ?_⟩
      rw [← hlists.mem_iff id]
      exact FixedNodeIdSet.mem_toStdSet
    obtain ⟨hcount, helse⟩ := count_txAddress hset
      (((length_dedup_le hsame).trans hroom).trans hrequesters)
    have htx : txAddress = (controlDataOf outputData).txAddress.toList := by
      show (receiveMessage systemConfig myMac sender reply alloc node).1.txAddress.toList = _
      rw [hanswer]
    rw [htx]
    refine ⟨fun request hmem => ?_, fun mac hmac => ?_, macStringToArray_addressToString⟩
    · refine hcount request.1 ?_ (hsenders request hmem)
      rw [List.append_nil, List.mem_reverse]
      exact List.mem_map_of_mem hmem
    · exact (helse mac hmac).imp_left fun hlisted => hsame hlisted

/-- A message for /a. -/
def messageForA (code : SignalCode) : ESP_NOWControlData :=
  { signalCode := copyField _ code.toString, contentName := copyField _ (ascii ['/', 'a']) }

/-- Two nodes ask for /a, one of them twice. -/
theorem replies_to_requesters_two :
    let caps := BuildCapacity.uniform 17 (by decide)
    let requests : List (Mac × ESP_NOWControlData) :=
      [(.replicate 6 1, messageForA .interest), (.replicate 6 2, messageForA .interest),
        (.replicate 6 1, messageForA .interest)]
    let node := afterInterests {} Mac.zero (nodeAfter caps {} []) requests
    let txAddress :=
      (receiveMessage {} Mac.zero Mac.zero (messageForA .data) none node).1.txAddress.toList
    ∀ request ∈ requests, txAddress.count request.1 = 1 := by
  intro caps requests node txAddress
  have hfirst : (List.Vector.replicate 6 1 : Mac) ≠ Mac.zero := by decide
  have hsecond : (List.Vector.replicate 6 2 : Mac) ≠ Mac.zero := by decide
  have hinterest : IsInterestFor {} (ascii ['/', 'a']) (messageForA .interest) :=
    ⟨by decide, by decide, by decide⟩
  exact (replies_to_requesters caps (by decide) (by decide) {} [] Mac.zero (ascii ['/', 'a']) rfl
    (by decide) requests (List.cons_ne_nil _ _)
    (List.forall_mem_cons.mpr ⟨hfirst, List.forall_mem_cons.mpr ⟨hsecond,
      List.forall_mem_singleton.mpr hfirst⟩⟩)
    (List.forall_mem_cons.mpr ⟨hinterest, List.forall_mem_cons.mpr ⟨hinterest,
      List.forall_mem_singleton.mpr hinterest⟩⟩)
    (by decide) (messageForA .data) ⟨by decide, by decide⟩ Mac.zero none).1

end Icsn
