import Icsn.Performance.InterestPacketTimingBuffer

/-!
# Icsn — the samples that are dumped

The build with timing measurements, from the packets received to the rows that
`dumpPerformanceData` prints.  The time stamps have 32 bits; their differences are those of the
timer, modulo 2^32.

* **`perfStep`** — one event on a controller with its buffer.
* **`samples_after_timingCalls`** — what one packet does to the complete samples.
* **`timing_dump_faithful`** — over any run, the rows are those of the first 200 INTERESTs since the
  last reset for which a packet was sent, in their order.

`forwarded` is the flag of the source: a packet was sent for the one received, be it the INTEREST
passed on or a DATA from the Content Store.
-/

namespace Icsn

open StepRun

/-! ## The dump

The rows in the order of the samples, with the differences of time stamps as the loop prints them.
-/

/-- A row of the dump; the last one has no separator. -/
structure MeasurementRow where
  i : UInt16
  securityCheckUs : UInt32
  fibUs : UInt32
  totalUs : UInt32
  separator : Bool
deriving DecidableEq

def InterestPacketTimingBuffer.getEntry (i : UInt16) (b : InterestPacketTimingBuffer) :
    InterestPacketTimingEntry := b.buffer i

/-- A turn of the loop of `dumpPerformanceData`. -/
def measurementRow (cnt i : UInt16) (m : InterestPacketTimingEntry) : MeasurementRow where
  i
  securityCheckUs := m.securityCheckEndUs - m.securityCheckStartUs
  fibUs := if m.securityCheckEndUs > 0 then m.fibLookupUs - m.securityCheckEndUs
    else m.fibLookupUs - m.interestRxUs
  totalUs := m.forwardTxUs - m.interestRxUs
  separator := decide ((i.toNat : Int) < cnt.toNat - 1)

def dumpPerformanceData (b : InterestPacketTimingBuffer) : List MeasurementRow :=
  (List.range b.getCount.toNat).map fun i =>
    measurementRow b.getCount (UInt16.ofNat i) (b.getEntry (UInt16.ofNat i))

/-! ## The controller with its buffer

The controller does what it does without measurements.  Its report tells which calls were made on
the buffer; the times of these calls are inputs of the event. -/

/-- A controller in the build with timing measurements. -/
structure PerfController (caps : BuildCapacity) where
  controller : ESP_NOWController caps
  interestTiming : InterestPacketTimingBuffer

/-- An event on it, with the times at which a reception looks at the timer. -/
inductive PerfEvent where
  | controller (event : ControllerEvent) (times : ReceiveTimes)
  | resetPerformanceData

/-- One event, with the report of a reception. -/
def perfStep {caps : BuildCapacity} (hmacSha256 : Key → List UInt8 → Hmac)
    (systemConfig : SystemConfig) (myMac : Mac) (s : PerfController caps) :
    PerfEvent → Option ESP_NOWController.ReceiveReport × PerfController caps
  | .controller (.processReceivedPacket senderMac data env) times =>
    let r := s.controller.processReceivedPacket hmacSha256 systemConfig myMac senderMac data env
    (some r.1, {
      controller := r.2
      interestTiming := after timingStep s.interestTiming (timingCalls times r.1) })
  | .controller event _ =>
    (none, { s with
      controller := (controllerStep hmacSha256 systemConfig myMac s.controller event).2 })
  | .resetPerformanceData => (none, { s with interestTiming := s.interestTiming.reset })

/-- An INTEREST for which a packet was sent, forwarded or answered: whether its HMAC was checked,
and the times. -/
structure ForwardedInterest where
  hmacChecked : Bool
  times : ReceiveTimes

/-- The INTEREST of an event, if a packet was sent for it. -/
def forwardedInterest : PerfEvent × Option ESP_NOWController.ReceiveReport →
    Option ForwardedInterest
  | (.controller _ times, some report) =>
    if report.result.isInterest ∧ report.result.forwarded then
      some { hmacChecked := report.result.securityCheckRequired, times }
    else none
  | _ => none

/-- The INTERESTs since the last reset for which a packet was sent, forwarded or answered. -/
def forwardedInterests (tr : List (PerfEvent × Option ESP_NOWController.ReceiveReport)) :
    List ForwardedInterest :=
  tr.foldl (fun seen member => match member.1 with
    | .resetPerformanceData => []
    | .controller _ _ => seen ++ (forwardedInterest member).toList) []

/-! ## The sample of a packet

With room left and a sample open, each call writes one field of it; with 200 samples nothing is
written any more. -/

namespace InterestPacketTimingBuffer

variable {b : InterestPacketTimingBuffer}

/-- The sample under way is this one. -/
def opened (entry : InterestPacketTimingEntry) (b : InterestPacketTimingBuffer) :
    InterestPacketTimingBuffer :=
  { b with buffer := Function.update b.buffer b.index entry, pendingSeq := b.index }

/-- The sample is complete. -/
def completed (entry : InterestPacketTimingEntry) (b : InterestPacketTimingBuffer) :
    InterestPacketTimingBuffer where
  buffer := Function.update b.buffer b.index entry
  index := b.index + 1
  pendingSeq := 0xFFFF

theorem not_ge_of_toNat_lt {i : UInt16} (h : i.toNat < 200) : ¬ i ≥ maxMeasurements := by
  rw [ge_iff_le, UInt16.le_iff_toNat_le]
  exact Nat.not_le.mpr h

theorem recordInterestRx_of_lt (h : b.index.toNat < 200) (time : Int64) :
    (b.recordInterestRx time).2 = b.opened { interestRxUs := timestamp time } := by
  unfold recordInterestRx
  rw [if_neg (not_ge_of_toNat_lt h)]
  rfl

theorem stamp_opened (h : b.index.toNat < 200) (entry : InterestPacketTimingEntry)
    (write : InterestPacketTimingEntry → InterestPacketTimingEntry) :
    ((b.opened entry).stamp write).2 = b.opened (write entry) := by
  have hpending : ¬ (b.opened entry).pendingSeq ≥ maxMeasurements := not_ge_of_toNat_lt h
  unfold stamp
  rw [if_neg hpending]
  unfold opened
  simp

theorem recordForwardTx_opened (h : b.index.toNat < 200) (entry : InterestPacketTimingEntry)
    (time : Int64) : ((b.opened entry).recordForwardTx time).2
      = b.completed { entry with forwardTxUs := timestamp time } := by
  have hpending : ¬ (b.opened entry).pendingSeq ≥ maxMeasurements := not_ge_of_toNat_lt h
  unfold recordForwardTx
  rw [if_neg hpending]
  unfold opened completed
  simp

/-- With 200 samples no call but a reset does anything. -/
theorem timingStep_of_full (h : b.SampleOpen) (hfull : 200 ≤ b.index.toNat) {call : TimingCall}
    (hcall : call.isReset = false) : (timingStep b call).2 = b := by
  have hindex : b.index ≥ maxMeasurements := by
    rw [ge_iff_le, UInt16.le_iff_toNat_le]
    exact hfull
  have hpending : b.pendingSeq ≥ maxMeasurements := by
    rcases h.pending with hnone | ⟨-, hlt⟩
    · rw [hnone]
      decide
    · omega
  have hstamp : ∀ write, (b.stamp write).2 = b := by
    intro write
    unfold stamp
    rw [if_pos hpending]
  cases call with
  | recordInterestRx time =>
    show (b.recordInterestRx time).2 = b
    unfold recordInterestRx
    rw [if_pos hindex]
  | recordSecurityCheckStart time => exact hstamp _
  | recordSecurityCheckEnd time => exact hstamp _
  | recordFibLookup time => exact hstamp _
  | recordForwardTx time =>
    show (b.recordForwardTx time).2 = b
    unfold recordForwardTx
    rw [if_pos hpending]
  | reset => cases hcall

theorem after_of_full (h : b.SampleOpen) (hfull : 200 ≤ b.index.toNat) {calls : List TimingCall}
    (hcalls : ∀ call ∈ calls, call.isReset = false) : after timingStep b calls = b := by
  induction calls with
  | nil => rfl
  | cons call calls ih =>
    obtain ⟨hcall, hcalls⟩ := List.forall_mem_cons.mp hcalls
    rw [after_cons, timingStep_of_full h hfull hcall]
    exact ih hcalls

/-- The complete samples. -/
def samples (b : InterestPacketTimingBuffer) : List InterestPacketTimingEntry :=
  (List.range b.index.toNat).map fun i => b.buffer (UInt16.ofNat i)

theorem length_samples (b : InterestPacketTimingBuffer) : b.samples.length = b.index.toNat := by
  unfold samples
  rw [List.length_map, List.length_range]

/-- A write behind the complete samples. -/
theorem map_update_index (entry : InterestPacketTimingEntry) :
    ((List.range b.index.toNat).map fun i =>
      Function.update b.buffer b.index entry (UInt16.ofNat i)) = b.samples := by
  refine List.map_congr_left fun i hi => update_index_of_lt entry ?_
  have hlt := List.mem_range.mp hi
  rw [UInt16.toNat_ofNat_of_lt' (hlt.trans b.index.toNat_lt)]
  exact hlt

theorem samples_opened (entry : InterestPacketTimingEntry) (b : InterestPacketTimingBuffer) :
    (b.opened entry).samples = b.samples := map_update_index entry

theorem samples_completed (h : b.index.toNat < 200) (entry : InterestPacketTimingEntry) :
    (b.completed entry).samples = b.samples ++ [entry] := by
  have hindex : (b.index + 1).toNat = b.index.toNat + 1 := by
    rw [UInt16.toNat_add]
    exact Nat.mod_eq_of_lt (by show b.index.toNat + 1 < 65536; omega)
  show (List.range (b.index + 1).toNat).map (fun i =>
    Function.update b.buffer b.index entry (UInt16.ofNat i)) = _
  rw [hindex, List.range_succ, List.map_append, map_update_index, List.map_singleton,
    UInt16.ofNat_toNat, Function.update_self]

end InterestPacketTimingBuffer

/-! ## One packet

The calls of an INTEREST for which a packet was sent complete its sample, with its own times.  Those
of any other packet complete none. -/

/-- The sample of such an INTEREST. -/
def ForwardedInterest.entry (interest : ForwardedInterest) : InterestPacketTimingEntry :=
  let times := interest.times
  { interestRxUs := timestamp times.interestRx
    securityCheckStartUs := if interest.hmacChecked then timestamp times.securityCheckStart else 0
    securityCheckEndUs := if interest.hmacChecked then timestamp times.securityCheckEnd else 0
    fibLookupUs := timestamp times.fibLookup
    forwardTxUs := timestamp times.forwardTx }

/-- What a packet is reported to be: something was sent for it only if it was processed, and it was
processed only if verified where that is required. -/
structure ReportsInOrder (report : ESP_NOWController.ReceiveReport) : Prop where
  processed : report.result.forwarded = true → report.processed = true
  verified : report.processed = true →
    report.result.securityCheckVerified = report.result.securityCheckRequired

theorem reportsInOrder {caps : BuildCapacity} (hmacSha256 : Key → List UInt8 → Hmac)
    (systemConfig : SystemConfig) (myMac senderMac : Mac) (data : List UInt8) (env : ReceiveEnv)
    (c : ESP_NOWController caps) :
    ReportsInOrder
      (c.processReceivedPacket hmacSha256 systemConfig myMac senderMac data env).1 := by
  unfold ESP_NOWController.processReceivedPacket
  cases CommunicationData.decode? data with
  | none => exact ⟨fun h => Bool.noConfusion h, fun h => Bool.noConfusion h⟩
  | some packet =>
    dsimp only
    split
    · exact ⟨fun h => Bool.noConfusion h, fun h => Bool.noConfusion h⟩
    · split
      · exact ⟨fun h => Bool.noConfusion h, fun h => Bool.noConfusion h⟩
      · exact ⟨fun _ => rfl, fun _ => rfl⟩

open InterestPacketTimingBuffer

section Packets

variable {b : InterestPacketTimingBuffer}

/-- The calls around the check leave the sample open. -/
theorem exists_opened_after_check (h : b.index.toNat < 200) (entry : InterestPacketTimingEntry)
    (times : ReceiveTimes) (required verified : Bool) :
    ∃ entry', after timingStep (b.opened entry) (if required then
        .recordSecurityCheckStart times.securityCheckStart ::
          (if verified then [.recordSecurityCheckEnd times.securityCheckEnd] else [])
      else []) = b.opened entry' := by
  have hstart : (timingStep (b.opened entry)
      (.recordSecurityCheckStart times.securityCheckStart)).2 = b.opened _ := stamp_opened h entry _
  cases required with
  | false => exact ⟨entry, rfl⟩
  | true =>
    cases verified with
    | false => exact ⟨_, hstart⟩
    | true =>
      have hend : ∀ entry, (timingStep (b.opened entry)
          (.recordSecurityCheckEnd times.securityCheckEnd)).2 = b.opened
            { entry with securityCheckEndUs := timestamp times.securityCheckEnd } :=
        fun entry => stamp_opened h entry _
      exact ⟨_, (congrArg (fun b => (timingStep b _).2) hstart).trans (hend _)⟩

/-- **The calls of an INTEREST** for which a packet was sent complete its sample. -/
theorem after_calls_of_forwarded (h : b.index.toNat < 200) (times : ReceiveTimes)
    (hmacChecked : Bool) :
    after timingStep b (.recordInterestRx times.interestRx ::
      ((if hmacChecked then [.recordSecurityCheckStart times.securityCheckStart,
        .recordSecurityCheckEnd times.securityCheckEnd] else []) ++
        [.recordFibLookup times.fibLookup, .recordForwardTx times.forwardTx]))
      = b.completed (ForwardedInterest.entry ⟨hmacChecked, times⟩) := by
  have hrx : (timingStep b (.recordInterestRx times.interestRx)).2
      = b.opened { interestRxUs := timestamp times.interestRx } :=
    recordInterestRx_of_lt h times.interestRx
  have hstart : ∀ entry, (timingStep (b.opened entry)
      (.recordSecurityCheckStart times.securityCheckStart)).2 = b.opened
        { entry with securityCheckStartUs := timestamp times.securityCheckStart } :=
    fun entry => stamp_opened h entry _
  have hend : ∀ entry, (timingStep (b.opened entry)
      (.recordSecurityCheckEnd times.securityCheckEnd)).2 = b.opened
        { entry with securityCheckEndUs := timestamp times.securityCheckEnd } :=
    fun entry => stamp_opened h entry _
  have hfib : ∀ entry, (timingStep (b.opened entry) (.recordFibLookup times.fibLookup)).2
      = b.opened { entry with fibLookupUs := timestamp times.fibLookup } :=
    fun entry => stamp_opened h entry _
  have htx : ∀ entry, (timingStep (b.opened entry) (.recordForwardTx times.forwardTx)).2
      = b.completed { entry with forwardTxUs := timestamp times.forwardTx } :=
    fun entry => recordForwardTx_opened h entry _
  cases hmacChecked with
  | false =>
    show (timingStep (timingStep (timingStep b _).2 _).2 _).2 = _
    rw [hrx, hfib, htx]
    rfl
  | true =>
    show (timingStep (timingStep (timingStep (timingStep (timingStep b _).2 _).2 _).2 _).2 _).2 = _
    rw [hrx, hstart, hend, hfib, htx]
    rfl

/-- **What one packet does to the samples**: an INTEREST for which a packet was sent adds its own,
while there is room. -/
theorem samples_after_timingCalls (h : b.SampleOpen) (times : ReceiveTimes)
    {report : ESP_NOWController.ReceiveReport} (hreport : ReportsInOrder report) :
    (after timingStep b (timingCalls times report)).samples
      = if report.result.isInterest ∧ report.result.forwarded ∧ b.index.toNat < 200 then
          b.samples ++ [ForwardedInterest.entry ⟨report.result.securityCheckRequired, times⟩]
        else b.samples := by
  by_cases hfull : 200 ≤ b.index.toNat
  · rw [after_of_full h hfull fun call hcall => (mem_timingCalls times report call hcall).1,
      if_neg fun hadded => Nat.not_le.mpr hadded.2.2 hfull]
  · have hlt := Nat.not_le.mp hfull
    obtain ⟨processed, ⟨validPacket, isInterest, isData, required, verified, forwarded⟩, sends⟩ :=
      report
    obtain ⟨hprocessed, hverified⟩ := hreport
    dsimp only at hprocessed hverified ⊢
    unfold timingCalls
    dsimp only
    cases isInterest with
    | false => rfl
    | true =>
      cases forwarded with
      | true =>
        -- processed and verified, if that was required
        obtain rfl := hprocessed rfl
        obtain rfl := hverified rfl
        have hadded : true = true ∧ true = true ∧ b.index.toNat < 200 := ⟨rfl, rfl, hlt⟩
        rw [if_neg (by decide), if_pos hadded, ← samples_completed hlt,
          ← after_calls_of_forwarded hlt times verified]
        cases verified <;> rfl
      -- the sample is opened, and stays open
      | false =>
        have hnone : ¬ (true = true ∧ false = true ∧ b.index.toNat < 200) :=
          fun hadded => Bool.noConfusion hadded.2.1
        rw [if_neg (by decide), if_neg hnone, after_cons, after_append]
        have hrx : (timingStep b (.recordInterestRx times.interestRx)).2
            = b.opened { interestRxUs := timestamp times.interestRx } :=
          recordInterestRx_of_lt hlt times.interestRx
        rw [hrx]
        obtain ⟨entry, hcheck⟩ := exists_opened_after_check hlt
          { interestRxUs := timestamp times.interestRx } times required verified
        rw [hcheck]
        cases processed with
        | false => exact samples_opened entry b
        | true =>
          show ((b.opened entry).recordFibLookup times.fibLookup).2.samples = _
          rw [recordFibLookup, stamp_opened hlt, samples_opened]

end Packets

/-! ## Runs

The samples are compared with the INTERESTs of the trace, event by event. -/

section Run

variable {caps : BuildCapacity} (hmacSha256 : Key → List UInt8 → Hmac)
  (systemConfig : SystemConfig) (myMac : Mac)

/-- The buffer holds the samples of the first 200 INTERESTs since the last reset for which a packet
was sent. -/
structure Measures (tr : List (PerfEvent × Option ESP_NOWController.ReceiveReport))
    (b : InterestPacketTimingBuffer) : Prop where
  sampleOpen : b.SampleOpen
  samples_eq : b.samples = ((forwardedInterests tr).take 200).map ForwardedInterest.entry

theorem forwardedInterests_concat
    (tr : List (PerfEvent × Option ESP_NOWController.ReceiveReport)) (event : ControllerEvent)
    (times : ReceiveTimes) (report : Option ESP_NOWController.ReceiveReport) :
    forwardedInterests (tr ++ [(.controller event times, report)])
      = forwardedInterests tr ++ (forwardedInterest (.controller event times, report)).toList := by
  unfold forwardedInterests
  rw [List.foldl_append]
  rfl

theorem forwardedInterests_reset
    (tr : List (PerfEvent × Option ESP_NOWController.ReceiveReport))
    (report : Option ESP_NOWController.ReceiveReport) :
    forwardedInterests (tr ++ [(.resetPerformanceData, report)]) = [] := by
  unfold forwardedInterests
  rw [List.foldl_append]
  rfl

/-- **One packet received.** -/
theorem Measures.timingCalls {tr : List (PerfEvent × Option ESP_NOWController.ReceiveReport)}
    {b : InterestPacketTimingBuffer} (h : Measures tr b) (event : ControllerEvent)
    (times : ReceiveTimes) {report : ESP_NOWController.ReceiveReport}
    (hreport : ReportsInOrder report) :
    Measures (tr ++ [(.controller event times, some report)])
      (after timingStep b (Icsn.timingCalls times report)) := by
  obtain ⟨hopen, hsamples⟩ := h
  have hcount : b.index.toNat = min 200 (forwardedInterests tr).length := by
    rw [← length_samples, hsamples, List.length_map, List.length_take]
  refine ⟨sampleOpen_after hopen _, ?_⟩
  rw [samples_after_timingCalls hopen times hreport, hsamples, forwardedInterests_concat]
  unfold forwardedInterest
  dsimp only
  by_cases hforwarded : report.result.isInterest = true ∧ report.result.forwarded = true
  · rw [if_pos hforwarded, Option.toList_some, List.take_append]
    by_cases hlt : b.index.toNat < 200
    · have hroom : 200 - (forwardedInterests tr).length
          = 199 - (forwardedInterests tr).length + 1 := by omega
      rw [if_pos ⟨hforwarded.1, hforwarded.2, hlt⟩, hroom, List.take_succ_cons, List.take_nil,
        List.map_append, List.map_singleton]
    · have hfull : 200 - (forwardedInterests tr).length = 0 := by omega
      rw [if_neg fun hadded => hlt hadded.2.2, hfull, List.take_zero, List.append_nil]
  · rw [if_neg hforwarded, if_neg fun hadded => hforwarded ⟨hadded.1, hadded.2.1⟩,
      Option.toList_none, List.append_nil]

/-- **One event.** -/
theorem measures_perfStep (tr : List (PerfEvent × Option ESP_NOWController.ReceiveReport))
    (s : PerfController caps) (event : PerfEvent) (h : Measures tr s.interestTiming) :
    let r := perfStep hmacSha256 systemConfig myMac s event
    Measures (tr ++ [(event, r.1)]) r.2.interestTiming := by
  have hquiet : ∀ (event : ControllerEvent) (times : ReceiveTimes),
      Measures (tr ++ [(.controller event times, none)]) s.interestTiming := by
    intro event times
    refine ⟨h.sampleOpen, ?_⟩
    rw [forwardedInterests_concat]
    unfold forwardedInterest
    rw [Option.toList_none, List.append_nil]
    exact h.samples_eq
  cases event with
  | controller event times =>
    cases event with
    | processReceivedPacket senderMac data env =>
      exact h.timingCalls _ times
        (reportsInOrder hmacSha256 systemConfig myMac senderMac data env s.controller)
    | _ => exact hquiet _ times
  | resetPerformanceData =>
    refine ⟨sampleOpen_reset _, ?_⟩
    rw [forwardedInterests_reset]
    rfl

/-- **A run** from the boot of the buffer on. -/
theorem measures_after (controller : ESP_NOWController caps) (events : List PerfEvent) :
    let step := perfStep hmacSha256 systemConfig myMac
    let s : PerfController caps := { controller, interestTiming := .init }
    Measures (trace step s events) (after step s events).interestTiming := by
  intro step s
  exact @trace_invariant _ _ _ step (fun _ _ => True)
    (fun tr s => Measures tr s.interestTiming) s
    (fun tr s event h _ => measures_perfStep hmacSha256 systemConfig myMac tr s event h)
    ⟨sampleOpen_init, rfl⟩ events (along_of_forall _ _ (fun _ _ => trivial) _ _)

end Run

/-! ## The rows

A row holds differences of 32-bit time stamps, which are the differences of the timer modulo 2^32.
The dump is then the list of samples, read row by row. -/

/-- The microseconds between two times, modulo 2^32. -/
def elapsed (earlier later : Int64) : UInt32 := UInt32.ofInt (later.toInt - earlier.toInt)

theorem timestamp_sub (earlier later : Int64) :
    timestamp later - timestamp earlier = elapsed earlier later := by
  have hstamp : ∀ time : Int64, ((timestamp time).toNat : Int) = time.toInt % 2 ^ 32 := by
    intro time
    have hnat : (timestamp time).toNat = time.toBitVec.toNat % 2 ^ 32 := rfl
    have hint : time.toInt = time.toBitVec.toInt := rfl
    rw [hnat, hint, BitVec.toInt_eq_toNat_cond]
    split
    · omega
    · omega
  have hlater := hstamp later
  have hearlier := hstamp earlier
  have hofInt : (elapsed earlier later).toNat
      = ((later.toInt - earlier.toInt) % 2 ^ 32).toNat % 2 ^ 32 := UInt32.toNat_ofNat
  apply UInt32.toNat.inj
  rw [UInt32.toNat_sub, hofInt]
  omega

/-- The row of an INTEREST that is the `i`-th of `n`.  The time of the look-up counts from the end
of the check, but from the reception if that end has the time stamp 0. -/
def ForwardedInterest.row (n i : Nat) (interest : ForwardedInterest) : MeasurementRow :=
  let times := interest.times
  { i := UInt16.ofNat i
    securityCheckUs :=
      if interest.hmacChecked then elapsed times.securityCheckStart times.securityCheckEnd else 0
    fibUs :=
      if interest.hmacChecked ∧ timestamp times.securityCheckEnd ≠ 0 then
        elapsed times.securityCheckEnd times.fibLookup
      else elapsed times.interestRx times.fibLookup
    totalUs := elapsed times.interestRx times.forwardTx
    separator := decide (i + 1 < n) }

theorem measurementRow_entry {n i : Nat} (hi : i < n) (hn : n ≤ 200)
    (interest : ForwardedInterest) :
    measurementRow (UInt16.ofNat n) (UInt16.ofNat i) interest.entry = interest.row n i := by
  obtain ⟨hmacChecked, times⟩ := interest
  have hseparator : decide (((UInt16.ofNat i).toNat : Int) < (UInt16.ofNat n).toNat - 1)
      = decide (i + 1 < n) := by
    rw [UInt16.toNat_ofNat_of_lt' (by show i < 65536; omega),
      UInt16.toNat_ofNat_of_lt' (by show n < 65536; omega)]
    exact decide_eq_decide.mpr (by omega)
  unfold measurementRow ForwardedInterest.row ForwardedInterest.entry
  dsimp only
  rw [hseparator]
  cases hmacChecked with
  | false =>
    have hnone : ¬ (0 : UInt32) > 0 := by decide
    have hzero : (0 : UInt32) - 0 = 0 := rfl
    simp only [Bool.false_eq_true, if_false, false_and, if_neg hnone, timestamp_sub, hzero]
  | true =>
    have hpos : timestamp times.securityCheckEnd > 0
        ↔ timestamp times.securityCheckEnd ≠ 0 := UInt32.pos_iff_ne_zero
    simp only [if_true, true_and, hpos, timestamp_sub]

theorem dumpPerformanceData_eq (b : InterestPacketTimingBuffer) :
    dumpPerformanceData b
      = b.samples.mapIdx fun i entry => measurementRow b.getCount (UInt16.ofNat i) entry := by
  unfold dumpPerformanceData samples getEntry getCount
  refine List.ext_getElem ?_ fun i hi hi' => ?_
  · rw [List.length_mapIdx, List.length_map, List.length_map]
  · rw [List.getElem_mapIdx, List.getElem_map, List.getElem_map, List.getElem_range]

theorem getCount_eq (b : InterestPacketTimingBuffer) :
    b.getCount = UInt16.ofNat b.samples.length := by
  rw [length_samples, UInt16.ofNat_toNat]
  rfl

/-- **The timing dump.**  Whatever the controller is, and over any events, the dump has one row for
each of the first 200 INTERESTs since the last reset for which a packet was sent, forwarded or
answered, in their order, with the times of that packet. -/
theorem timing_dump_faithful {caps : BuildCapacity} (hmacSha256 : Key → List UInt8 → Hmac)
    (systemConfig : SystemConfig) (myMac : Mac) (controller : ESP_NOWController caps)
    (events : List PerfEvent) :
    let step := perfStep hmacSha256 systemConfig myMac
    let s : PerfController caps := { controller, interestTiming := .init }
    let measured := (forwardedInterests (trace step s events)).take 200
    dumpPerformanceData (after step s events).interestTiming
      = measured.mapIdx fun i interest => interest.row measured.length i := by
  intro step s measured
  have hsamples : (after step s events).interestTiming.samples
      = measured.map ForwardedInterest.entry :=
    (measures_after hmacSha256 systemConfig myMac controller events).samples_eq
  have hle : measured.length ≤ 200 := List.length_take_le _ _
  rw [dumpPerformanceData_eq, getCount_eq, hsamples, List.length_map]
  -- row by row, as a row depends on its place: the last has no separator
  refine List.ext_getElem ?_ fun i hi hi' => ?_
  · rw [List.length_mapIdx, List.length_mapIdx, List.length_map]
  · have hlt : i < measured.length := by rwa [List.length_mapIdx] at hi'
    rw [List.getElem_mapIdx, List.getElem_mapIdx, List.getElem_map]
    exact measurementRow_entry hlt hle _

end Icsn
