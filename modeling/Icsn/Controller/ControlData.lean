import Icsn.Controller.PeerCounterManager

/-!
# Icsn — control data and packets

`ESP-NOWControlData.hpp`: what the application sends and receives, and the packet on the air, a
packed structure of 167 bytes whose first 135 are what the HMAC covers.

* **`toBytes`** / **`ofBytes`** — the packet in memory, and back: inverse to each other.
* **`eq_of_hmacData_eq`** — a packet is its covered bytes and its HMAC.
-/

namespace Icsn

def maxTxAddresses : Nat := 20

theorem maxTxAddresses_pos : 0 < maxTxAddresses := by decide

def maxSignalCodeLength : Nat := 10

def maxContentNameLength : Nat := 100

def maxContentLength : Nat := 20

/-- `ESP_NOWControlData`; the default value is the zeroed one. -/
structure ESP_NOWControlData where
  txAddress : List.Vector Mac maxTxAddresses := List.Vector.replicate _ Mac.zero
  signalCode : CharArray maxSignalCodeLength := List.Vector.replicate _ 0
  hopCount : UInt8 := 0
  contentName : CharArray maxContentNameLength := List.Vector.replicate _ 0
  content : CharArray maxContentLength := List.Vector.replicate _ 0
deriving DecidableEq

structure CommunicationData where
  signalCode : CharArray maxSignalCodeLength
  hopCount : UInt8
  contentName : CharArray maxContentNameLength
  content : CharArray maxContentLength
  counter : UInt32
  hmac : Hmac
deriving DecidableEq

def sizeofCommunicationData : Nat :=
  maxSignalCodeLength + 1 + maxContentNameLength + maxContentLength + 4 + 32

def commDataHmacDataLen : Nat := sizeofCommunicationData - 32

/-- The four bytes of a counter, the lowest first. -/
def counterBytes (c : UInt32) : List UInt8 :=
  [UInt8.ofNat c.toNat, UInt8.ofNat (c.toNat / 256), UInt8.ofNat (c.toNat / 65536),
    UInt8.ofNat (c.toNat / 16777216)]

/-- The counter with these four bytes. -/
def counterOfBytes (b : List.Vector UInt8 4) : UInt32 :=
  UInt32.ofNat ((b.get 0).toNat + 256 * (b.get 1).toNat + 65536 * (b.get 2).toNat
    + 16777216 * (b.get 3).toNat)

/-- The `n` bytes from position `pos` on. -/
def slice {m : Nat} (data : List.Vector UInt8 m) (pos n : Nat) (h : pos + n ≤ m) :
    List.Vector UInt8 n :=
  ⟨(data.toList.drop pos).take n, by
    rw [List.length_take, List.length_drop, List.Vector.toList_length]; omega⟩

namespace CommunicationData

/-- The packet in memory. -/
def toBytes (p : CommunicationData) : List UInt8 :=
  p.signalCode.toList ++ [p.hopCount] ++ p.contentName.toList ++ p.content.toList
    ++ counterBytes p.counter ++ p.hmac.toList

/-- The packet `memcpy` makes of 167 bytes. -/
def ofBytes (data : List.Vector UInt8 sizeofCommunicationData) : CommunicationData where
  signalCode := slice data 0 maxSignalCodeLength (by decide)
  hopCount := (slice data 10 1 (by decide)).head
  contentName := slice data 11 maxContentNameLength (by decide)
  content := slice data 111 maxContentLength (by decide)
  counter := counterOfBytes (slice data 131 4 (by decide))
  hmac := slice data 135 32 (by decide)

/-- The bytes the HMAC covers. -/
def hmacData (p : CommunicationData) : List UInt8 := p.toBytes.take commDataHmacDataLen

/-- The packet a buffer holds, if it has a packet's length. -/
def decode? (data : List UInt8) : Option CommunicationData :=
  if h : data.length = sizeofCommunicationData then some (ofBytes ⟨data, h⟩) else none

/-! ## Codec

The fields follow one another without gaps, so the packet in memory is their concatenation and each
field a slice of it.  A field ends where the next begins, by its fixed length, so the codec goes
both ways. -/

theorem counterOfBytes_counterBytes (c : UInt32) (h : (counterBytes c).length = 4) :
    counterOfBytes ⟨counterBytes c, h⟩ = c := by
  have hlt := c.toNat_lt
  apply UInt32.toNat_inj.mp
  show (UInt32.ofNat ((UInt8.ofNat c.toNat).toNat + 256 * (UInt8.ofNat (c.toNat / 256)).toNat
    + 65536 * (UInt8.ofNat (c.toNat / 65536)).toNat
    + 16777216 * (UInt8.ofNat (c.toNat / 16777216)).toNat)).toNat = c.toNat
  simp only [UInt8.toNat_ofNat', UInt32.toNat_ofNat']
  omega

theorem uint8_ofNat_eq {n : Nat} {b : UInt8} (h : n % 256 = b.toNat) : UInt8.ofNat n = b := by
  apply UInt8.toNat_inj.mp
  rw [UInt8.toNat_ofNat']
  exact h

theorem counterBytes_counterOfBytes (b : List.Vector UInt8 4) :
    counterBytes (counterOfBytes b) = b.toList := by
  obtain ⟨l, hl⟩ := b
  match l, hl with
  | [b0, b1, b2, b3], hl =>
    have h0 := b0.toNat_lt
    have h1 := b1.toNat_lt
    have h2 := b2.toNat_lt
    have h3 := b3.toNat_lt
    have hval : (counterOfBytes ⟨[b0, b1, b2, b3], hl⟩).toNat
        = b0.toNat + 256 * b1.toNat + 65536 * b2.toNat + 16777216 * b3.toNat := by
      show (UInt32.ofNat (b0.toNat + 256 * b1.toNat + 65536 * b2.toNat
        + 16777216 * b3.toNat)).toNat = _
      rw [UInt32.toNat_ofNat']
      omega
    unfold counterBytes
    rw [hval, uint8_ofNat_eq (b := b0) (by omega), uint8_ofNat_eq (b := b1) (by omega),
      uint8_ofNat_eq (b := b2) (by omega), uint8_ofNat_eq (b := b3) (by omega)]
    rfl

theorem length_toBytes (p : CommunicationData) : p.toBytes.length = sizeofCommunicationData := by
  simp only [toBytes, counterBytes, List.length_append, List.Vector.toList_length,
    List.length_cons, List.length_nil]
  rfl

/-- A slice of an append is the part at its position. -/
theorem slice_eq {m : Nat} {l : List UInt8} (hl : l.length = m) (pos n : Nat) (h : pos + n ≤ m)
    (before after : List UInt8) (part : List.Vector UInt8 n)
    (hdata : l = before ++ (part.toList ++ after)) (hpos : before.length = pos) :
    slice ⟨l, hl⟩ pos n h = part := by
  apply List.Vector.toList_injective
  show (l.drop pos).take n = part.toList
  rw [hdata, List.drop_left' hpos, List.take_left' part.toList_length]

theorem ofBytes_toBytes (p : CommunicationData) : ofBytes ⟨p.toBytes, p.length_toBytes⟩ = p := by
  have hlen := p.length_toBytes
  have hsignal := p.signalCode.toList_length
  have hname := p.contentName.toList_length
  have hcontent := p.content.toList_length
  -- each field is the slice behind the fields before it
  have h1 := slice_eq hlen 0 maxSignalCodeLength (by decide) [] ([p.hopCount]
    ++ (p.contentName.toList ++ (p.content.toList ++ (counterBytes p.counter ++ p.hmac.toList))))
    p.signalCode (by simp [toBytes]) rfl
  have h2 := slice_eq hlen 10 1 (by decide) p.signalCode.toList (p.contentName.toList
    ++ (p.content.toList ++ (counterBytes p.counter ++ p.hmac.toList))) ⟨[p.hopCount], rfl⟩
    (by simp [toBytes]) hsignal
  have h3 := slice_eq hlen 11 maxContentNameLength (by decide) (p.signalCode.toList ++ [p.hopCount])
    (p.content.toList ++ (counterBytes p.counter ++ p.hmac.toList)) p.contentName
    (by simp [toBytes]) (by rw [List.length_append, hsignal]; rfl)
  have h4 := slice_eq hlen 111 maxContentLength (by decide) (p.signalCode.toList ++ [p.hopCount]
    ++ p.contentName.toList) (counterBytes p.counter ++ p.hmac.toList) p.content
    (by simp [toBytes]) (by rw [List.length_append, List.length_append, hsignal, hname]; rfl)
  have h5 := slice_eq hlen 131 4 (by decide) (p.signalCode.toList ++ [p.hopCount]
    ++ p.contentName.toList ++ p.content.toList) p.hmac.toList ⟨counterBytes p.counter, rfl⟩
    (by simp [toBytes]; rfl) (by simp only [List.length_append, hsignal, hname, hcontent]; rfl)
  have h6 := slice_eq hlen 135 32 (by decide) (p.signalCode.toList ++ [p.hopCount]
    ++ p.contentName.toList ++ p.content.toList ++ counterBytes p.counter) [] p.hmac
    (by simp [toBytes]) (by simp only [List.length_append, hsignal, hname, hcontent]; rfl)
  have hcounter := counterOfBytes_counterBytes p.counter rfl
  unfold ofBytes
  rw [h1, h2, h3, h4, h5, h6, hcounter]
  rfl

/-- Consecutive slices put together. -/
theorem take_append_slice {m : Nat} (data : List.Vector UInt8 m) (pos n stop : Nat)
    (h : pos + n ≤ m) (hstop : pos + n = stop) :
    data.toList.take pos ++ (slice data pos n h).toList = data.toList.take stop := by
  rw [← hstop]
  exact List.take_add.symm

theorem toBytes_ofBytes (data : List.Vector UInt8 sizeofCommunicationData) :
    (ofBytes data).toBytes = data.toList := by
  have hhop : [(slice data 10 1 (by decide)).head] = (slice data 10 1 (by decide)).toList := by
    obtain ⟨l, hl⟩ := slice data 10 1 (by decide)
    obtain ⟨b, rfl⟩ := List.length_eq_one_iff.mp hl
    rfl
  have hsignal : (slice data 0 maxSignalCodeLength (by decide)).toList = data.toList.take 10 := rfl
  unfold toBytes ofBytes
  dsimp only
  rw [counterBytes_counterOfBytes, hhop, hsignal, take_append_slice data 10 1 11 _ rfl,
    take_append_slice data 11 maxContentNameLength 111 _ rfl,
    take_append_slice data 111 maxContentLength 131 _ rfl,
    take_append_slice data 131 4 135 _ rfl, take_append_slice data 135 32 167 _ rfl]
  exact List.take_of_length_le (by rw [List.Vector.toList_length]; decide)

theorem decode?_toBytes (p : CommunicationData) : decode? p.toBytes = some p := by
  rw [decode?, dif_pos p.length_toBytes, ofBytes_toBytes]

theorem toBytes_injective : Function.Injective toBytes := by
  intro p q h
  have hp := decode?_toBytes p
  rw [h, decode?_toBytes] at hp
  exact (Option.some.inj hp).symm

/-- The covered bytes are all the fields in front of the HMAC. -/
theorem hmacData_eq (p : CommunicationData) :
    p.hmacData = p.signalCode.toList ++ [p.hopCount] ++ p.contentName.toList ++ p.content.toList
      ++ counterBytes p.counter := by
  refine List.take_left' ?_
  simp only [List.length_append, List.Vector.toList_length]
  rfl

theorem toBytes_eq_append (p : CommunicationData) : p.toBytes = p.hmacData ++ p.hmac.toList := by
  rw [hmacData_eq, toBytes]

/-- **A packet is its covered bytes and its HMAC.** -/
theorem eq_of_hmacData_eq {p q : CommunicationData} (hdata : p.hmacData = q.hmacData)
    (hhmac : p.hmac = q.hmac) : p = q := by
  apply toBytes_injective
  rw [toBytes_eq_append, toBytes_eq_append, hdata, hhmac]

end CommunicationData

end Icsn
