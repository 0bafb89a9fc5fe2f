import Icsn.Controller.LinkEncryption
import Icsn.Controller.OneHop
import Icsn.Firmware.SerialCommands

/-!
# Icsn — the firmware

`main.cpp`: the device under `setup` and `loop`, with the timers and their flags.  The callbacks of
the radio and of the timers come between the turns of `loop`, each as a whole.  What a turn prints
is left out but for the answers of `send_interest`, and so are the calls that only print or reset
measurements.

* **`setup`** / **`loop`** / **`firmwareStep`** — the entry points.
* **`SerialCommand.controllerEvents`** / **`FirmwareEvent.controllerEvents`** — what a command and a
  callback ask of the controller.
* **`firmware_run_refines`** — the firmware does what its callbacks and its commands ask, and its
  timers nothing.
* **`firmware_originates`** — it starts no exchange but for a command to do so.
-/

namespace Icsn

open StepRun
open ESP_NOWController (Carries ReportOf map_get_txAddress interestData)

/-! ## State

The globals of `main.cpp`, and the functions that the entry points are made of.  A turn of `loop`
works off the flags first, one after the other, and the line last. -/

def autoSensorEnabled : Bool := false

def autoInterestEnabled : Bool := false

/-- The globals of the firmware: the device, whether each `Ticker` is attached, the flags that the
timers set, and the target of periodic INTERESTs. -/
structure Firmware (caps : BuildCapacity) where
  device : RadioDevice caps
  sensorTicker : Bool
  interestTicker : Bool
  autoInterestTicker : Bool
  sensorReadRequested : Bool
  interestSendRequested : Bool
  autoInterestStartRequested : Bool
  interestTargetMac : Option Mac

/-- What a turn of `loop` meets: memory for the Content Store and the radio, for what a flag asks
and for what the line asks. -/
structure TurnEnv where
  flagAlloc : Option Bool
  flagSends : Fin maxTxAddresses → SendEnv
  lineAlloc : Option Bool
  lineSends : Fin maxTxAddresses → SendEnv

/-- A turn where nothing fails. -/
def TurnEnv.good : TurnEnv where
  flagAlloc := some false
  flagSends _ := .good
  lineAlloc := some false
  lineSends _ := .good

/-- The calls of the controller, each with its report, and the lines that `send_interest` prints. -/
structure TurnReport where
  calls : List (ControllerEvent × DeviceReport) := []
  answer : List Str := []

namespace Firmware

variable {caps : BuildCapacity}

def powerOn (caps : BuildCapacity) : Firmware caps where
  device := .powerOn caps
  sensorTicker := false
  interestTicker := false
  autoInterestTicker := false
  sensorReadRequested := false
  interestSendRequested := false
  autoInterestStartRequested := false
  interestTargetMac := none

def cancelAutoInterestStart (f : Firmware caps) : Firmware caps :=
  { f with autoInterestTicker := false, autoInterestStartRequested := false }

def stopInterestTicker (f : Firmware caps) : Firmware caps :=
  { f with interestTicker := false, interestSendRequested := false }

variable (espNowIsPeerExist : List RadioPeer → Mac → Bool)

def setup (file : ConfigFile) (env : BootEnv) (f : Firmware caps) : Firmware caps :=
  let r := f.device.initializeCommunication espNowIsPeerExist file env
  let f := { f with device := r.2 }
  if r.1 = false then f
  else
    let f := if autoSensorEnabled then { f with sensorTicker := true, sensorReadRequested := true }
      else f
    if autoInterestEnabled then { f with autoInterestTicker := true } else f

section Loop

variable (hmacSha256 : Key → List UInt8 → Hmac)

/-- A call of the controller. -/
def call (event : ControllerEvent) (acc : TurnReport × Firmware caps) :
    TurnReport × Firmware caps :=
  let r := radioStep espNowIsPeerExist hmacSha256 acc.2.device event
  ({ acc.1 with calls := acc.1.calls ++ [(event, r.1)] }, { acc.2 with device := r.2 })

def readSensorData (alloc : Option Bool) :
    TurnReport × Firmware caps → TurnReport × Firmware caps :=
  call espNowIsPeerExist hmacSha256
    (.sendSensorData sensorContentName (ascii ['2', '6', '.', '5', 'C']) 1 alloc)

def periodicSendInterest (env : Fin maxTxAddresses → SendEnv) (acc : TurnReport × Firmware caps) :
    TurnReport × Firmware caps :=
  match acc.2.interestTargetMac with
  | none => acc
  | some targetMac =>
    call espNowIsPeerExist hmacSha256 (.sendInterest sensorContentName targetMac 1 env) acc

/-- The command of a turn.  Some commands call the controller and ask nothing of it: `show_fib`,
`show_counters`, `dump_perf` and `perf_count` only print, and `reset_perf` only resets the
measurements.  These calls are left out. -/
def runCommand (command : SerialCommand) (env : TurnEnv) (acc : TurnReport × Firmware caps) :
    TurnReport × Firmware caps :=
  match command with
  | .sendInterest request =>
    let acc := match request with
      | .send targetMac contentName =>
        let event := ControllerEvent.sendInterest contentName targetMac 1 env.lineSends
        let sent := decide ((radioStep espNowIsPeerExist hmacSha256 acc.2.device event).1.sent ≠ [])
        let acc := call espNowIsPeerExist hmacSha256 event acc
        ({ acc.1 with answer := request.answer sent }, acc.2)
      | request => ({ acc.1 with answer := request.answer false }, acc.2)
    (acc.1, acc.2.cancelAutoInterestStart.stopInterestTicker)
  | .stopInterest => (acc.1, acc.2.stopInterestTicker.cancelAutoInterestStart)
  | .readSensor => readSensorData espNowIsPeerExist hmacSha256 env.lineAlloc acc
  | .clearCache =>
    call espNowIsPeerExist hmacSha256 .clearPITCache
      (call espNowIsPeerExist hmacSha256 .clearCSCache acc)
  | _ => acc

/-- A turn of `loop`. -/
def loop (line : Option SerialLine) (env : TurnEnv) (f : Firmware caps) :
    TurnReport × Firmware caps :=
  let f := if f.autoInterestStartRequested then
      { f with autoInterestStartRequested := false }.cancelAutoInterestStart
    else f
  let acc : TurnReport × Firmware caps := ({}, f)
  let acc := if acc.2.sensorReadRequested then
      readSensorData espNowIsPeerExist hmacSha256 env.flagAlloc
        (acc.1, { acc.2 with sensorReadRequested := false })
    else acc
  let acc := if acc.2.interestSendRequested then
      periodicSendInterest espNowIsPeerExist hmacSha256 env.flagSends
        (acc.1, { acc.2 with interestSendRequested := false })
    else acc
  match line with
  | none => acc
  | some line => runCommand espNowIsPeerExist hmacSha256 (commandOf line.text) env acc

end Loop

end Firmware

/-! ## Runs

Callbacks interrupt `loop` on the board; here they come between its turns.  They set a flag or hand
a packet to the controller. -/

/-- What happens to the firmware behind `setup`. -/
inductive FirmwareEvent where
  | onDataReceive (senderMac : Mac) (data : List UInt8) (env : ReceiveEnv)
  | onSensorTicker
  | onInterestTicker
  | onAutoInterestTicker
  | loop (line : Option SerialLine) (env : TurnEnv)

/-- One event.  Nothing is received without the callbacks, which a boot that fails does not
register.  A timer that is not attached does not fire, and the last one fires once. -/
def firmwareStep {caps : BuildCapacity} (espNowIsPeerExist : List RadioPeer → Mac → Bool)
    (hmacSha256 : Key → List UInt8 → Hmac) (f : Firmware caps) (event : FirmwareEvent) :
    TurnReport × Firmware caps :=
  match event with
  | .onDataReceive senderMac data env =>
    if f.device.callbacks = false then ({}, f)
    else
      Firmware.call espNowIsPeerExist hmacSha256 (.processReceivedPacket senderMac data env) ({}, f)
  | .onSensorTicker => ({}, if f.sensorTicker then { f with sensorReadRequested := true } else f)
  | .onInterestTicker =>
    ({}, if f.interestTicker then { f with interestSendRequested := true } else f)
  | .onAutoInterestTicker =>
    ({}, if f.autoInterestTicker then
      { f with autoInterestTicker := false, autoInterestStartRequested := true } else f)
  | .loop line env => f.loop espNowIsPeerExist hmacSha256 line env

/-! ## What is asked of the controller

The build has neither timer on by itself, and no command attaches one.  So the flags stay clear, and
what reaches the controller comes from the radio or from a line, which `controllerEvents` lists. -/

/-- What a command asks of the controller. -/
def SerialCommand.controllerEvents (env : TurnEnv) : SerialCommand → List ControllerEvent
  | .sendInterest (.send targetMac contentName) =>
    [.sendInterest contentName targetMac 1 env.lineSends]
  | .readSensor =>
    [.sendSensorData sensorContentName (ascii ['2', '6', '.', '5', 'C']) 1 env.lineAlloc]
  | .clearCache => [.clearCSCache, .clearPITCache]
  | _ => []

/-- What an event asks of the controller; whether the callbacks are registered is all that it takes
of the state. -/
def FirmwareEvent.controllerEvents (callbacks : Bool) : FirmwareEvent → List ControllerEvent
  | .onDataReceive senderMac data env =>
    if callbacks then [.processReceivedPacket senderMac data env] else []
  | .loop (some line) env => (commandOf line.text).controllerEvents env
  | _ => []

/-- No timer is attached, and no flag is set. -/
structure Idle {caps : BuildCapacity} (f : Firmware caps) : Prop where
  sensorTicker : f.sensorTicker = false
  interestTicker : f.interestTicker = false
  autoInterestTicker : f.autoInterestTicker = false
  sensorReadRequested : f.sensorReadRequested = false
  interestSendRequested : f.interestSendRequested = false
  autoInterestStartRequested : f.autoInterestStartRequested = false

section Batches

variable {caps : BuildCapacity} (espNowIsPeerExist : List RadioPeer → Mac → Bool)
  (hmacSha256 : Key → List UInt8 → Hmac)

/-- `setup` attaches no timer. -/
theorem idle_setup (file : ConfigFile) (env : BootEnv) :
    Idle ((Firmware.powerOn caps).setup espNowIsPeerExist file env) := by
  unfold Firmware.setup
  dsimp only
  split <;> exact ⟨rfl, rfl, rfl, rfl, rfl, rfl⟩

theorem device_setup (file : ConfigFile) (env : BootEnv) (f : Firmware caps) :
    (f.setup espNowIsPeerExist file env).device
      = (f.device.initializeCommunication espNowIsPeerExist file env).2 := by
  unfold Firmware.setup
  dsimp only
  split <;> rfl

/-- The callbacks are registered by a boot that succeeds. -/
theorem callbacks_initializeCommunication (file : ConfigFile) (env : BootEnv) :
    let booted := (RadioDevice.powerOn caps).initializeCommunication espNowIsPeerExist file env
    booted.2.callbacks = booted.1 := by
  cases hdocument : file.document? with
  | none =>
    rw [RadioDevice.initializeCommunication_of_no_document _ hdocument]
    rfl
  | some document =>
    obtain ⟨-, hcallbacks, -⟩ :=
      (RadioDevice.powerOn caps).initializeCommunication_cases espNowIsPeerExist hdocument env
    exact hcallbacks.trans (Bool.false_or _)

variable {f : Firmware caps}

/-- Only the device is another one. -/
theorem Idle.withDevice (h : Idle f) (device : RadioDevice caps) : Idle { f with device } :=
  ⟨h.sensorTicker, h.interestTicker, h.autoInterestTicker, h.sensorReadRequested,
    h.interestSendRequested, h.autoInterestStartRequested⟩

/-- What a turn without a flag set and a callback leave behind. -/
structure Batch (f : Firmware caps) (events : List ControllerEvent)
    (r : TurnReport × Firmware caps) : Prop where
  idle : Idle r.2
  calls_eq : r.1.calls = trace (radioStep espNowIsPeerExist hmacSha256) f.device events
  device_eq : r.2.device = after (radioStep espNowIsPeerExist hmacSha256) f.device events

theorem Batch.nothing (h : Idle f) {report : TurnReport} (hcalls : report.calls = []) :
    Batch espNowIsPeerExist hmacSha256 f [] (report, f) := ⟨h, hcalls, rfl⟩

/-- **A command.** -/
theorem batch_runCommand (h : Idle f) (command : SerialCommand) (env : TurnEnv) :
    Batch espNowIsPeerExist hmacSha256 f (command.controllerEvents env)
      (Firmware.runCommand espNowIsPeerExist hmacSha256 command env ({}, f)) := by
  cases command with
  | sendInterest request =>
    cases request with
    | send targetMac contentName =>
      exact ⟨⟨h.sensorTicker, rfl, rfl, h.sensorReadRequested, rfl, rfl⟩, rfl, rfl⟩
    | _ => exact ⟨⟨h.sensorTicker, rfl, rfl, h.sensorReadRequested, rfl, rfl⟩, rfl, rfl⟩
  | stopInterest => exact ⟨⟨h.sensorTicker, rfl, rfl, h.sensorReadRequested, rfl, rfl⟩, rfl, rfl⟩
  | readSensor => exact ⟨h.withDevice _, rfl, rfl⟩
  | clearCache => exact ⟨h.withDevice _, rfl, rfl⟩
  | _ => exact .nothing espNowIsPeerExist hmacSha256 h rfl

/-- **One event** of a firmware without timers. -/
theorem batch_firmwareStep (h : Idle f) (event : FirmwareEvent) :
    Batch espNowIsPeerExist hmacSha256 f (event.controllerEvents f.device.callbacks)
      (firmwareStep espNowIsPeerExist hmacSha256 f event) := by
  cases event with
  | onDataReceive senderMac data env =>
    unfold firmwareStep FirmwareEvent.controllerEvents
    dsimp only
    by_cases hcallbacks : f.device.callbacks = true
    · rw [if_pos hcallbacks, if_neg (by rw [hcallbacks]; decide)]
      exact ⟨h.withDevice _, rfl, rfl⟩
    · -- a device that the radio does not call back
      rw [if_neg hcallbacks, if_pos (Bool.not_eq_true _ |>.mp hcallbacks)]
      exact .nothing espNowIsPeerExist hmacSha256 h rfl
  | onSensorTicker =>
    unfold firmwareStep
    rw [h.sensorTicker]
    exact .nothing espNowIsPeerExist hmacSha256 h rfl
  | onInterestTicker =>
    unfold firmwareStep
    rw [h.interestTicker]
    exact .nothing espNowIsPeerExist hmacSha256 h rfl
  | onAutoInterestTicker =>
    unfold firmwareStep
    rw [h.autoInterestTicker]
    exact .nothing espNowIsPeerExist hmacSha256 h rfl
  -- no flag is set, so of a turn there is the line left
  | loop line env =>
    have hturn : firmwareStep espNowIsPeerExist hmacSha256 f (.loop line env) = match line with
        | none => ({}, f)
        | some line =>
          Firmware.runCommand espNowIsPeerExist hmacSha256 (commandOf line.text) env ({}, f) := by
      unfold firmwareStep Firmware.loop
      simp only [h.autoInterestStartRequested, h.sensorReadRequested, h.interestSendRequested,
        Bool.false_eq_true, if_false]
    rw [hturn]
    cases line with
    | none => exact .nothing espNowIsPeerExist hmacSha256 h rfl
    | some line => exact batch_runCommand espNowIsPeerExist hmacSha256 h (commandOf line.text) env

/-- **A run** of a firmware without timers. -/
theorem batch_run (h : Idle f) (events : List FirmwareEvent) :
    let step := firmwareStep espNowIsPeerExist hmacSha256
    let calls := events.flatMap (FirmwareEvent.controllerEvents f.device.callbacks)
    Idle (after step f events) ∧
      (outputs step f events).flatMap TurnReport.calls
        = trace (radioStep espNowIsPeerExist hmacSha256) f.device calls ∧
      (after step f events).device
        = after (radioStep espNowIsPeerExist hmacSha256) f.device calls := by
  intro step calls
  -- no call takes the callbacks away
  have hstep : ∀ f' event, Idle f' ∧ f'.device.callbacks = f.device.callbacks →
      (Idle (step f' event).2 ∧ (step f' event).2.device.callbacks = f.device.callbacks) ∧
      (step f' event).1.calls = trace (radioStep espNowIsPeerExist hmacSha256) f'.device
        (event.controllerEvents f.device.callbacks) ∧
      (step f' event).2.device = after (radioStep espNowIsPeerExist hmacSha256) f'.device
        (event.controllerEvents f.device.callbacks) := by
    rintro f' event ⟨hidle, hcallbacks⟩
    have hbatch := batch_firmwareStep espNowIsPeerExist hmacSha256 hidle event
    rw [hcallbacks] at hbatch
    refine ⟨⟨hbatch.idle, ?_⟩, hbatch.calls_eq, hbatch.device_eq⟩
    show (firmwareStep espNowIsPeerExist hmacSha256 f' event).2.device.callbacks = _
    rw [hbatch.device_eq]
    exact (sameDevice_after hmacSha256 f'.device _).callbacks_eq.trans hcallbacks
  obtain ⟨⟨hidle, -⟩, hcalls, hend⟩ := trace_flatMap hstep ⟨h, rfl⟩ events
  exact ⟨hidle, hcalls, hend⟩

/-- **The firmware and its device.**  From power on, with whatever file, whatever outcome of the
boot and whatever comes in: the firmware calls the controller for what is received, if the boot
succeeded, and for what the commands ask, in this order, and for nothing else; the device ends where
these calls lead. -/
theorem firmware_run_refines (file : ConfigFile) (env : BootEnv) (events : List FirmwareEvent) :
    let start := (Firmware.powerOn caps).setup espNowIsPeerExist file env
    let booted := (RadioDevice.powerOn caps).initializeCommunication espNowIsPeerExist file env
    let calls := events.flatMap (FirmwareEvent.controllerEvents booted.1)
    let step := firmwareStep espNowIsPeerExist hmacSha256
    (outputs step start events).flatMap TurnReport.calls
        = trace (radioStep espNowIsPeerExist hmacSha256) booted.2 calls ∧
      (after step start events).device
        = after (radioStep espNowIsPeerExist hmacSha256) booted.2 calls := by
  intro start booted calls step
  have hdevice : start.device = booted.2 := device_setup espNowIsPeerExist file env _
  -- whether packets are received is settled by the boot
  have hcallbacks : booted.2.callbacks = booted.1 :=
    callbacks_initializeCommunication espNowIsPeerExist file env
  obtain ⟨-, hcalls, hend⟩ := batch_run espNowIsPeerExist hmacSha256
    (f := start) (idle_setup espNowIsPeerExist file env) events
  rw [hdevice, hcallbacks] at hcalls hend
  exact ⟨hcalls, hend⟩

end Batches

/-! ## What the firmware starts

Of the commands, `send_interest` alone makes the controller send, and of `send_interest` only a line
that passes the checks.  The packets it builds are read back, so that the statement ends in what
goes on the air. -/

section Originates

variable {caps : BuildCapacity} (espNowIsPeerExist : List RadioPeer → Mac → Bool)
  (hmacSha256 : Key → List UInt8 → Hmac)

/-- **The packet of an INTEREST** for a name, which is cut to the field. -/
theorem reads_of_interestData {name : Str} {mac : Mac} {hops : UInt8} {packet : CommunicationData}
    (h : Carries (interestData name mac hops) packet) :
    packet.Reads .interest ((cstr name).take (maxContentNameLength - 1)) hops ∧
      packet.text = valueNA := by
  have hinput := h.input_eq Mac.zero Mac.zero
  refine ⟨⟨h.code_eq rfl, ?_, h.hopCount_eq⟩, ?_⟩
  · refine (congrArg InputData.contentName hinput).trans ?_
    show cstr (copyField _ (copyField _ name).toList).toList = _
    rw [cstr_copyField_copyField, cstr_copyField]
  · refine (congrArg InputData.content hinput).trans ?_
    show cstr (copyField _ (copyField _ valueNA).toList).toList = _
    rw [cstr_copyField_copyField]
    exact Fits.cstr_copyField ⟨by decide, by decide⟩

/-- A send of a device builds what one of its controller does. -/
theorem reportOf_radioSends (systemConfig : SystemConfig) (data : ESP_NOWControlData)
    (env : Fin maxTxAddresses → SendEnv) (s : RadioNode caps) :
    ReportOf data data.txAddress.toList
      (s.sendPacketToAddresses espNowIsPeerExist hmacSha256 systemConfig data
        env).1.toSendReport := by
  have hloop : ∀ (l : List (Fin maxTxAddresses)) (addrs : List Mac)
      (acc : RadioReport × RadioNode caps), ReportOf data addrs acc.1.toSendReport →
      ReportOf data (addrs ++ l.map data.txAddress.get) (l.foldl (fun acc i =>
        RadioNode.sendPacketToAddress espNowIsPeerExist hmacSha256 systemConfig data
          (data.txAddress.get i) (env i) acc) acc).1.toSendReport := by
    intro l
    induction l with
    | nil =>
      intro addrs acc h
      rw [List.map_nil, List.append_nil]
      exact h
    | cons i l ih =>
      intro addrs acc h
      rw [List.map_cons, List.append_cons]
      have hturn := @RadioNode.sendPacketToAddress_refines caps espNowIsPeerExist hmacSha256
        systemConfig data (data.txAddress.get i) (env i) acc
      refine ih _ _ ?_
      show ReportOf data _ (RadioNode.sendPacketToAddress espNowIsPeerExist hmacSha256 systemConfig
        data (data.txAddress.get i) (env i) acc).1.toSendReport
      have hreport : _ = (RadioNode.sendPacketToAddress espNowIsPeerExist hmacSha256 systemConfig
        data (data.txAddress.get i) (env i) acc).1.toSendReport := congrArg Prod.fst hturn
      rw [← hreport]
      exact ReportOf.step hmacSha256 h systemConfig (data.txAddress.get i) _
  rw [← map_get_txAddress data]
  exact hloop (List.finRange maxTxAddresses) [] ({}, s) (.start data)

/-- **What a device builds** for an INTEREST: packets for the target alone. -/
theorem built_sendInterest (d : RadioDevice caps) (name : Str) (mac : Mac) (hops : UInt8)
    (env : Fin maxTxAddresses → SendEnv) :
    let r := radioStep espNowIsPeerExist hmacSha256 d (.sendInterest name mac hops env)
    ∀ out ∈ r.1.built, out.1 = mac ∧
      out.2.Reads .interest ((cstr name).take (maxContentNameLength - 1)) hops ∧
      out.2.text = valueNA := by
  intro r out hout
  have hreport := reportOf_radioSends espNowIsPeerExist hmacSha256 d.systemConfig
    (interestData name mac hops) env d.node
  refine ⟨?_, reads_of_interestData (hreport.carries out hout)⟩
  obtain ⟨hmem, hne⟩ := List.mem_filter.mp
    (hreport.addrs_sublist.subset (List.mem_map_of_mem hout))
  rcases List.mem_cons.mp hmem with heq | hzero
  · exact heq
  · exact absurd (List.eq_of_mem_replicate hzero) (by simpa using hne)

/-- **The firmware starts an exchange on command only.**  From power on, with whatever file,
whatever outcome of the boot and whatever came in: every packet built in a turn of `loop` is an
INTEREST with hop count 1 for the MAC and the name of the `send_interest` line of that turn, a
single peer other than zero, and a name that starts with a slash, cut to the field. -/
theorem firmware_originates (file : ConfigFile) (env : BootEnv) (events : List FirmwareEvent)
    (line : Option SerialLine) (turnEnv : TurnEnv) :
    let step := firmwareStep espNowIsPeerExist hmacSha256
    let f := after step ((Firmware.powerOn caps).setup espNowIsPeerExist file env) events
    let r := step f (.loop line turnEnv)
    ∀ call ∈ r.1.calls, ∀ out ∈ call.2.built, ∃ typed mac name, line = some typed ∧
      IsTarget mac ∧ IsInterestLine typed.text mac name ∧ out.1 = mac ∧
      out.2.Reads .interest (name.take (maxContentNameLength - 1)) 1 ∧ out.2.text = valueNA := by
  intro step f r call hcall out hout
  have hidle : Idle f := (batch_run espNowIsPeerExist hmacSha256
    (idle_setup espNowIsPeerExist file env) events).1
  have hbatch := batch_firmwareStep espNowIsPeerExist hmacSha256 hidle (.loop line turnEnv)
  rw [show r.1.calls = _ from hbatch.calls_eq] at hcall
  cases line with
  | none => cases hcall
  | some typed =>
    have hevents : call ∈ trace (radioStep espNowIsPeerExist hmacSha256) f.device
      ((commandOf typed.text).controllerEvents turnEnv) := hcall
    -- the commands that call the controller: a send, a reading, and the clearing of the caches
    cases hcommand : commandOf typed.text with
    | sendInterest request =>
      rw [hcommand] at hevents
      cases request with
      | send mac name =>
        obtain rfl := List.mem_singleton.mp hevents
        obtain ⟨htarget, hline⟩ := isInterestLine_of_commandOf hcommand
        obtain ⟨haddr, hreads⟩ := built_sendInterest espNowIsPeerExist hmacSha256 f.device name
          mac 1 turnEnv.lineSends out hout
        rw [cstr_of_zero_notMem (hline.zero_notMem typed.no_nul)] at hreads
        exact ⟨typed, mac, name, rfl, htarget, hline, haddr, hreads⟩
      | _ => cases hevents
    | readSensor =>
      rw [hcommand] at hevents
      obtain rfl := List.mem_singleton.mp hevents
      cases hout
    | clearCache =>
      rw [hcommand] at hevents
      rcases List.mem_cons.mp hevents with rfl | hevents
      · cases hout
      · obtain rfl := List.mem_singleton.mp hevents
        cases hout
    | _ =>
      rw [hcommand] at hevents
      cases hevents

end Originates

/-- A command for a peer with keys. -/
theorem firmware_originates_typed :
    let caps := BuildCapacity.uniform 4 (by decide)
    let peer : Mac := List.Vector.replicate _ 2
    let keyText : Json := .string (ascii (List.replicate 32 '1'))
    let document : Json := .object
      [(icsnSecurityName, .object [(hmacEnabledName, .bool true), (defaultHmacKeyName, keyText)])]
    let file : ConfigFile := { mounted := true, opened := true, parsed := some document }
    let typed : SerialLine :=
      { text := sendInterestWord ++ [32] ++ formatMac peer ++ [32] ++ ascii ['/', 'a'] ++ [13]
        no_nul := by decide
        no_newline := by decide }
    let step := firmwareStep lookUpPeer checksum
    let f := after step ((Firmware.powerOn caps).setup lookUpPeer file (.good peer)) []
    let r := step f (.loop (some typed) .good)
    (r.1.calls.map fun call => call.2.built.length) = [1] ∧
    ∀ call ∈ r.1.calls, ∀ out ∈ call.2.built, ∃ typed' mac name, some typed = some typed' ∧
      IsTarget mac ∧ IsInterestLine typed'.text mac name ∧ out.1 = mac ∧
      out.2.Reads .interest (name.take (maxContentNameLength - 1)) 1 ∧ out.2.text = valueNA := by
  intro caps peer keyText document file typed
  have horiginates := @firmware_originates caps lookUpPeer checksum file (.good peer) []
    (some typed) .good
  exact ⟨by decide +kernel, horiginates⟩

end Icsn
