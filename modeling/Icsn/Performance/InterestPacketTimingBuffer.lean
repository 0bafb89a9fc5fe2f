import Icsn.Controller.ESPNOWController
import Icsn.Lib.StepRun

/-!
# Icsn — timing samples of INTERESTs

`InterestPacketTimingBuffer.cpp`, and the calls that `processReceivedPacket` makes on it in the
build with timing measurements.  The timer is an input.  The buffer is memory from its first entry
on; each call reports the entries it writes, so that one outside the 200 would show.

* **`SampleOpen`** — the invariant: the sample under way, if there is one, is the entry behind the
  complete ones.
* **`timingStep_spec`** — what one call does to the count and to the entries.
* **`timing_samples_final`** — over any calls: all writes are in bounds, each complete sample is
  paid for by an INTEREST received, and it stays as it is until a reset.
-/

namespace Icsn

open StepRun

structure InterestPacketTimingEntry where
  interestRxUs : UInt32 := 0
  securityCheckStartUs : UInt32 := 0
  securityCheckEndUs : UInt32 := 0
  fibLookupUs : UInt32 := 0
  forwardTxUs : UInt32 := 0
deriving DecidableEq

def maxMeasurements : UInt16 := 200

structure InterestPacketTimingBuffer where
  buffer : UInt16 → InterestPacketTimingEntry
  index : UInt16
  pendingSeq : UInt16

/-- `static_cast<uint32_t>(esp_timer_get_time())`. -/
def timestamp (time : Int64) : UInt32 := time.toUInt64.toUInt32

namespace InterestPacketTimingBuffer

/-! ## Operations

An INTEREST opens a sample if there is room; the other calls write to the sample under way, and do
nothing without one.  What a call writes is reported, so that a write behind the last entry would be
seen. -/

def init : InterestPacketTimingBuffer where
  buffer _ := {}
  index := 0
  pendingSeq := 0xFFFF

def recordInterestRx (time : Int64) (b : InterestPacketTimingBuffer) :
    List UInt16 × InterestPacketTimingBuffer :=
  if b.index ≥ maxMeasurements then ([], b)
  else
    ([b.index], { b with
      buffer := Function.update b.buffer b.index { interestRxUs := timestamp time }
      pendingSeq := b.index })

/-- A time stamp written to the sample under way. -/
def stamp (write : InterestPacketTimingEntry → InterestPacketTimingEntry)
    (b : InterestPacketTimingBuffer) : List UInt16 × InterestPacketTimingBuffer :=
  if b.pendingSeq ≥ maxMeasurements then ([], b)
  else
    ([b.pendingSeq],
      { b with buffer := Function.update b.buffer b.pendingSeq (write (b.buffer b.pendingSeq)) })

def recordSecurityCheckStart (time : Int64) (b : InterestPacketTimingBuffer) :
    List UInt16 × InterestPacketTimingBuffer :=
  b.stamp fun entry => { entry with securityCheckStartUs := timestamp time }

def recordSecurityCheckEnd (time : Int64) (b : InterestPacketTimingBuffer) :
    List UInt16 × InterestPacketTimingBuffer :=
  b.stamp fun entry => { entry with securityCheckEndUs := timestamp time }

def recordFibLookup (time : Int64) (b : InterestPacketTimingBuffer) :
    List UInt16 × InterestPacketTimingBuffer :=
  b.stamp fun entry => { entry with fibLookupUs := timestamp time }

def recordForwardTx (time : Int64) (b : InterestPacketTimingBuffer) :
    List UInt16 × InterestPacketTimingBuffer :=
  if b.pendingSeq ≥ maxMeasurements then ([], b)
  else
    ([b.pendingSeq], {
      buffer := Function.update b.buffer b.pendingSeq
        { b.buffer b.pendingSeq with forwardTxUs := timestamp time }
      index := b.index + 1
      pendingSeq := 0xFFFF })

def getCount (b : InterestPacketTimingBuffer) : UInt16 := b.index

def reset (b : InterestPacketTimingBuffer) : InterestPacketTimingBuffer :=
  { b with index := 0, pendingSeq := 0xFFFF }

end InterestPacketTimingBuffer

/-- A call on the buffer, with the time at which it is made. -/
inductive TimingCall where
  | recordInterestRx (time : Int64)
  | recordSecurityCheckStart (time : Int64)
  | recordSecurityCheckEnd (time : Int64)
  | recordFibLookup (time : Int64)
  | recordForwardTx (time : Int64)
  | reset
deriving DecidableEq

namespace TimingCall

def isInterestRx : TimingCall → Bool
  | recordInterestRx _ => true
  | _ => false

def isReset : TimingCall → Bool
  | reset => true
  | _ => false

end TimingCall

/-- One call: the entries it writes, and the buffer after it. -/
def timingStep (b : InterestPacketTimingBuffer) :
    TimingCall → List UInt16 × InterestPacketTimingBuffer
  | .recordInterestRx time => b.recordInterestRx time
  | .recordSecurityCheckStart time => b.recordSecurityCheckStart time
  | .recordSecurityCheckEnd time => b.recordSecurityCheckEnd time
  | .recordFibLookup time => b.recordFibLookup time
  | .recordForwardTx time => b.recordForwardTx time
  | .reset => ([], b.reset)

/-! ## Calls of a packet received

Which calls are made depends on how far the packet gets.  A packet that is dropped leaves its sample
open, and the next INTEREST starts over on it. -/

/-- The times at which `processReceivedPacket` makes its calls. -/
structure ReceiveTimes where
  interestRx : Int64
  securityCheckStart : Int64
  securityCheckEnd : Int64
  fibLookup : Int64
  forwardTx : Int64

/-- The calls that `processReceivedPacket` makes, by what becomes of the packet. -/
def timingCalls (times : ReceiveTimes) (report : ESP_NOWController.ReceiveReport) :
    List TimingCall :=
  if report.result.isInterest = false then []
  else
    .recordInterestRx times.interestRx ::
      ((if report.result.securityCheckRequired then
          .recordSecurityCheckStart times.securityCheckStart ::
            (if report.result.securityCheckVerified then
              [.recordSecurityCheckEnd times.securityCheckEnd]
            else [])
        else []) ++
      -- a packet that is rejected gets no further
      (if report.processed then
        .recordFibLookup times.fibLookup ::
          (if report.result.forwarded then [.recordForwardTx times.forwardTx] else [])
      else []))

/-! ## One call

A call writes to the entry behind the complete samples or to none, so that complete ones never
change.  The count goes up by a forwarding alone, and only with a sample open. -/

namespace InterestPacketTimingBuffer

variable {b : InterestPacketTimingBuffer}

/-- The sample under way, if there is one, is the entry behind the complete ones. -/
structure SampleOpen (b : InterestPacketTimingBuffer) : Prop where
  index_le : b.index.toNat ≤ 200
  pending : b.pendingSeq = 0xFFFF ∨ (b.pendingSeq = b.index ∧ b.index.toNat < 200)

/-- The number of samples under way. -/
def openCount (b : InterestPacketTimingBuffer) : Nat := if b.pendingSeq = 0xFFFF then 0 else 1

/-- The later buffer has the complete samples of the first, and maybe more. -/
structure Extends (b b' : InterestPacketTimingBuffer) : Prop where
  index_le : b.index.toNat ≤ b'.index.toNat
  buffer_eq : ∀ i : UInt16, i.toNat < b.index.toNat → b'.buffer i = b.buffer i

/-- What a call that is no reset does: it writes entries of the buffer alone, keeps the complete
samples, and adds `opened` samples at most. -/
structure Records (opened : Nat) (b : InterestPacketTimingBuffer)
    (r : List UInt16 × InterestPacketTimingBuffer) : Prop where
  inBounds : ∀ i ∈ r.1, i.toNat < 200
  sampleOpen : r.2.SampleOpen
  keeps : b.Extends r.2
  count_le : r.2.index.toNat + r.2.openCount ≤ b.index.toNat + b.openCount + opened

theorem sampleOpen_init : SampleOpen init := ⟨by decide, Or.inl rfl⟩

theorem Extends.refl (b : InterestPacketTimingBuffer) : b.Extends b := ⟨le_rfl, fun _ _ => rfl⟩

theorem Extends.trans {b' b'' : InterestPacketTimingBuffer} (h : b.Extends b')
    (h' : b'.Extends b'') : b.Extends b'' where
  index_le := h.index_le.trans h'.index_le
  buffer_eq i hi := (h'.buffer_eq i (hi.trans_le h.index_le)).trans (h.buffer_eq i hi)

/-- A call that returns at once. -/
theorem SampleOpen.records_nil (h : b.SampleOpen) (opened : Nat) : Records opened b ([], b) where
  inBounds _ hi := absurd hi List.not_mem_nil
  sampleOpen := h
  keeps := .refl b
  count_le := Nat.le_add_right _ _

/-- A write to the entry behind the complete samples keeps them. -/
theorem update_index_of_lt (entry : InterestPacketTimingEntry) {i : UInt16}
    (hi : i.toNat < b.index.toNat) : Function.update b.buffer b.index entry i = b.buffer i := by
  apply Function.update_of_ne
  intro heq
  rw [heq] at hi
  exact Nat.lt_irrefl _ hi

theorem toNat_lt_of_not_ge {i : UInt16} (h : ¬ i ≥ maxMeasurements) : i.toNat < 200 := by
  rw [ge_iff_le, UInt16.le_iff_toNat_le] at h
  exact Nat.not_le.mp h

/-- A sample under way is the entry behind the complete ones. -/
theorem SampleOpen.pending_of_not_ge (h : b.SampleOpen)
    (hpending : ¬ b.pendingSeq ≥ maxMeasurements) :
    b.pendingSeq = b.index ∧ b.index.toNat < 200 := by
  rcases h.pending with hnone | hopen
  · rw [hnone] at hpending
    exact absurd (by decide) hpending
  · exact hopen

theorem openCount_of_not_ge (hpending : ¬ b.pendingSeq ≥ maxMeasurements) : b.openCount = 1 := by
  unfold openCount
  rw [if_neg]
  intro heq
  rw [heq] at hpending
  exact hpending (by decide)

/-- A write to the entry behind the complete samples, which is under way from then on. -/
theorem SampleOpen.records_write (h : b.SampleOpen) (hlt : b.index.toNat < 200)
    (entry : InterestPacketTimingEntry) {opened : Nat} (hopened : 1 ≤ b.openCount + opened) :
    Records opened b ([b.index], { b with
      buffer := Function.update b.buffer b.index entry
      pendingSeq := b.index }) := by
  refine ⟨fun i hi => ?_, ⟨h.index_le, Or.inr ⟨rfl, hlt⟩⟩,
    ⟨le_rfl, fun i hi => update_index_of_lt _ hi⟩, ?_⟩
  · rw [List.mem_singleton.mp hi]
    exact hlt
  · show b.index.toNat + (if _ then 0 else 1) ≤ _
    split
    · omega
    · omega

/-- An INTEREST received opens a sample, over one that was under way. -/
theorem recordInterestRx_records (h : b.SampleOpen) (time : Int64) :
    Records 1 b (b.recordInterestRx time) := by
  unfold recordInterestRx
  by_cases hfull : b.index ≥ maxMeasurements
  · rw [if_pos hfull]
    exact h.records_nil 1
  · rw [if_neg hfull]
    exact h.records_write (toNat_lt_of_not_ge hfull) _ (Nat.le_add_left 1 _)

/-- A time stamp goes to the sample under way. -/
theorem stamp_records (h : b.SampleOpen)
    (write : InterestPacketTimingEntry → InterestPacketTimingEntry) :
    Records 0 b (b.stamp write) := by
  unfold stamp
  by_cases hnone : b.pendingSeq ≥ maxMeasurements
  · rw [if_pos hnone]
    exact h.records_nil 0
  · obtain ⟨hpending, hlt⟩ := h.pending_of_not_ge hnone
    have hopen := openCount_of_not_ge hnone
    rw [if_neg hnone, hpending]
    exact h.records_write hlt _ hopen.ge

/-- An INTEREST forwarded completes the sample under way. -/
theorem recordForwardTx_records (h : b.SampleOpen) (time : Int64) :
    Records 0 b (b.recordForwardTx time) := by
  unfold recordForwardTx
  by_cases hnone : b.pendingSeq ≥ maxMeasurements
  · rw [if_pos hnone]
    exact h.records_nil 0
  · obtain ⟨hpending, hlt⟩ := h.pending_of_not_ge hnone
    have hindex : (b.index + 1).toNat = b.index.toNat + 1 := by
      rw [UInt16.toNat_add]
      exact Nat.mod_eq_of_lt (by show b.index.toNat + 1 < 65536; omega)
    have hopen := openCount_of_not_ge hnone
    rw [if_neg hnone, hpending]
    refine ⟨fun i hi => ?_, ⟨?_, Or.inl rfl⟩, ⟨?_, fun i hi => update_index_of_lt _ hi⟩, ?_⟩
    · rw [List.mem_singleton.mp hi]
      exact hlt
    · show (b.index + 1).toNat ≤ 200
      omega
    · show b.index.toNat ≤ (b.index + 1).toNat
      omega
    · show (b.index + 1).toNat + 0 ≤ _
      omega

/-- **One call** that is no reset. -/
theorem timingStep_records (h : b.SampleOpen) {call : TimingCall} (hcall : call.isReset = false) :
    Records (if call.isInterestRx then 1 else 0) b (timingStep b call) := by
  cases call with
  | recordInterestRx time => exact recordInterestRx_records h time
  | recordSecurityCheckStart time =>
    exact stamp_records h fun entry => { entry with securityCheckStartUs := timestamp time }
  | recordSecurityCheckEnd time =>
    exact stamp_records h fun entry => { entry with securityCheckEndUs := timestamp time }
  | recordFibLookup time =>
    exact stamp_records h fun entry => { entry with fibLookupUs := timestamp time }
  | recordForwardTx time => exact recordForwardTx_records h time
  | reset => cases hcall

/-- A reset closes the sample under way and forgets the others. -/
theorem sampleOpen_reset (b : InterestPacketTimingBuffer) : b.reset.SampleOpen :=
  ⟨Nat.zero_le _, Or.inl rfl⟩

/-- **One call**, whichever it is. -/
theorem timingStep_spec (h : b.SampleOpen) (call : TimingCall) :
    let r := timingStep b call
    (∀ i ∈ r.1, i.toNat < 200) ∧ r.2.SampleOpen ∧
      r.2.index.toNat + r.2.openCount
        ≤ b.index.toNat + b.openCount + (if call.isInterestRx then 1 else 0) := by
  cases hreset : call.isReset with
  | false =>
    have hrecords := timingStep_records h hreset
    exact ⟨hrecords.inBounds, hrecords.sampleOpen, hrecords.count_le⟩
  | true =>
    cases call with
    | reset => exact ⟨List.forall_mem_nil _, sampleOpen_reset b, Nat.zero_le _⟩
    | _ => cases hreset

/-! ## Runs

Induction over the calls.  Samples that are complete at some point are there after any later calls,
up to a reset. -/

theorem sampleOpen_after (h : b.SampleOpen) (calls : List TimingCall) :
    (after timingStep b calls).SampleOpen := by
  induction calls generalizing b with
  | nil => exact h
  | cons call calls ih => exact ih (timingStep_spec h call).2.1

/-- **All writes of a run** are in bounds. -/
theorem inBounds_outputs (h : b.SampleOpen) (calls : List TimingCall) :
    ∀ written ∈ outputs timingStep b calls, ∀ i ∈ written, i.toNat < 200 := by
  induction calls generalizing b with
  | nil => exact List.forall_mem_nil _
  | cons call calls ih =>
    obtain ⟨hwritten, hopen, -⟩ := timingStep_spec h call
    exact List.forall_mem_cons.mpr ⟨hwritten, ih hopen⟩

/-- **The samples of a run** are paid for by INTERESTs received. -/
theorem count_after_le (h : b.SampleOpen) (calls : List TimingCall) :
    (after timingStep b calls).index.toNat + (after timingStep b calls).openCount
      ≤ b.index.toNat + b.openCount + calls.countP TimingCall.isInterestRx := by
  induction calls generalizing b with
  | nil => exact Nat.le_refl _
  | cons call calls ih =>
    obtain ⟨-, hopen, hcount⟩ := timingStep_spec h call
    have hrest := ih hopen
    rw [List.countP_cons]
    rw [after_cons]
    omega

/-- **Complete samples stay** as they are until a reset. -/
theorem extends_after (h : b.SampleOpen) {calls : List TimingCall}
    (hcalls : ∀ call ∈ calls, call.isReset = false) : b.Extends (after timingStep b calls) := by
  induction calls generalizing b with
  | nil => exact .refl b
  | cons call calls ih =>
    obtain ⟨hcall, hcalls⟩ := List.forall_mem_cons.mp hcalls
    have hrecords := timingStep_records h hcall
    exact hrecords.keeps.trans (ih hrecords.sampleOpen hcalls)

/-- The count changes by a sample completed or by a reset alone. -/
theorem index_after_of_no_forwardTx {calls : List TimingCall}
    (hcalls : ∀ call ∈ calls, call.isReset = false ∧ ∀ time, call ≠ .recordForwardTx time) :
    (after timingStep b calls).index = b.index := by
  induction calls generalizing b with
  | nil => rfl
  | cons call calls ih =>
    obtain ⟨⟨hreset, hforward⟩, hcalls⟩ := List.forall_mem_cons.mp hcalls
    have hstamp : ∀ write, (b.stamp write).2.index = b.index := by
      intro write
      unfold stamp
      split
      · rfl
      · rfl
    have hindex : (timingStep b call).2.index = b.index := by
      cases call with
      | recordInterestRx time =>
        show (b.recordInterestRx time).2.index = b.index
        unfold recordInterestRx
        split
        · rfl
        · rfl
      | recordSecurityCheckStart time => exact hstamp _
      | recordSecurityCheckEnd time => exact hstamp _
      | recordFibLookup time => exact hstamp _
      | recordForwardTx time => exact absurd rfl (hforward time)
      | reset => cases hreset
    exact (ih hcalls).trans hindex

/-! ## Packets received

The calls of one packet are a short run; what a run does is then what a packet does. -/

theorem forall_mem_ite {α : Type*} {P : α → Prop} {c : Prop} [Decidable c] {l : List α}
    (h : c → ∀ a ∈ l, P a) : ∀ a ∈ (if c then l else []), P a := by
  split
  · next hc => exact h hc
  · exact List.forall_mem_nil P

/-- **The calls of a packet** are no resets, and a sample is completed for a packet that is
processed and forwarded alone. -/
theorem mem_timingCalls (times : ReceiveTimes) (report : ESP_NOWController.ReceiveReport) :
    ∀ call ∈ timingCalls times report, call.isReset = false ∧
      ∀ time, call = .recordForwardTx time →
        report.processed = true ∧ report.result.forwarded = true := by
  have hother : ∀ call : TimingCall, (∀ time, call ≠ .recordForwardTx time) →
      call.isReset = false → call.isReset = false ∧ ∀ time, call = .recordForwardTx time →
        report.processed = true ∧ report.result.forwarded = true :=
    fun call hne hreset => ⟨hreset, fun time heq => absurd heq (hne time)⟩
  unfold timingCalls
  split
  · exact List.forall_mem_nil _
  · refine List.forall_mem_cons.mpr ⟨hother _ (fun _ h => nomatch h) rfl, ?_⟩
    rw [List.forall_mem_append]
    constructor
    · refine forall_mem_ite fun _ => List.forall_mem_cons.mpr
        ⟨hother _ (fun _ h => nomatch h) rfl, forall_mem_ite fun _ => ?_⟩
      exact List.forall_mem_singleton.mpr (hother _ (fun _ h => nomatch h) rfl)
    · refine forall_mem_ite fun hprocessed => List.forall_mem_cons.mpr
        ⟨hother _ (fun _ h => nomatch h) rfl, forall_mem_ite fun hforwarded => ?_⟩
      exact List.forall_mem_singleton.mpr ⟨rfl, fun _ _ => ⟨hprocessed, hforwarded⟩⟩

end InterestPacketTimingBuffer

open InterestPacketTimingBuffer

/-- **Completed samples are final**, after any calls: all writes are to the 200 entries; the count
is at most 200, and the sample under way, if there is one, is the entry behind; every further sample
is paid for by an INTEREST received, but for the one under way; and the entries that are counted
stay as they are until a reset.  A packet that is rejected or not forwarded completes no sample. -/
theorem timing_samples_final (calls : List TimingCall) :
    let b := after timingStep init calls
    (∀ written ∈ outputs timingStep init calls, ∀ i ∈ written, i.toNat < 200) ∧
    b.getCount.toNat ≤ 200 ∧
    (b.pendingSeq = 0xFFFF ∨ b.pendingSeq = b.getCount) ∧
    (∀ later, (after timingStep b later).getCount.toNat + (after timingStep b later).openCount
      ≤ b.getCount.toNat + b.openCount + later.countP TimingCall.isInterestRx) ∧
    (∀ later, (∀ call ∈ later, call.isReset = false) →
      b.getCount.toNat ≤ (after timingStep b later).getCount.toNat ∧
        ∀ i : UInt16, i.toNat < b.getCount.toNat →
          (after timingStep b later).buffer i = b.buffer i) ∧
    ∀ {caps : BuildCapacity} (hmacSha256 : Key → List UInt8 → Hmac) (systemConfig : SystemConfig)
      (myMac senderMac : Mac) (data : List UInt8) (env : ReceiveEnv)
      (c : ESP_NOWController caps) (times : ReceiveTimes),
      let report := (c.processReceivedPacket hmacSha256 systemConfig myMac senderMac data env).1
      let b' := after timingStep b (timingCalls times report)
      report.processed = false ∨ report.result.forwarded = false →
        b'.getCount = b.getCount ∧
          ∀ i : UInt16, i.toNat < b.getCount.toNat → b'.buffer i = b.buffer i := by
  have hopen : (after timingStep init calls).SampleOpen := sampleOpen_after sampleOpen_init calls
  refine ⟨inBounds_outputs sampleOpen_init calls, hopen.index_le,
    hopen.pending.imp_right And.left, count_after_le hopen, fun later hlater => ?_, ?_⟩
  · have hextends := extends_after hopen hlater
    exact ⟨hextends.index_le, hextends.buffer_eq⟩
  · -- the calls of a packet that is not forwarded have no `recordForwardTx` among them
    intro caps hmacSha256 systemConfig myMac senderMac data env c times report b' hnot
    have hcalls := mem_timingCalls times report
    have hreset : ∀ call ∈ timingCalls times report, call.isReset = false :=
      fun call hcall => (hcalls call hcall).1
    refine ⟨index_after_of_no_forwardTx fun call hcall => ⟨hreset call hcall, fun time heq => ?_⟩,
      (extends_after hopen hreset).buffer_eq⟩
    obtain ⟨hprocessed, hforwarded⟩ := (hcalls call hcall).2 time heq
    rcases hnot with hrejected | hkept
    · exact absurd (hrejected.symm.trans hprocessed) (by decide)
    · exact absurd (hkept.symm.trans hforwarded) (by decide)

example : (after timingStep init [.recordInterestRx 7, .recordInterestRx 8, .recordFibLookup 9,
    .recordForwardTx 10, .recordForwardTx 11]).getCount = 1 := by decide

end Icsn
