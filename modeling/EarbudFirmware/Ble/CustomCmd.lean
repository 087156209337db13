import EarbudFirmware.Tota.CmdHandler

/-!
# Custom commands over the data path

The commands of the data path server stand in a table that the linker puts together. A command that
needs a response is supervised by the same list and timer as the commands of TOTA. Three things are
different: a refresh asserts that time is left for every entry, a response takes out the entry whose
index is its command code, and the lookup of an entry's index divides the words of the table by the
bytes of an entry.

## Main definitions

* `CustomCmdBuild` — the command table
* `CustomCmdBuild.getEntryIndexFromCmdCode` — the lookup before a command is sent
* `refreshSupervisorEnv`, `removeWaitingRsp`, `addWaitingRsp` — the operations on the list
* `sendCustomCommand`, `getResponse`, `rspSupervisionTimerCb` — a command, a response, an expiry
* `customCmdStep` — one event

## Main results

* `getEntryIndexFromCmdCode_eq_iff` — the commands that the lookup finds
-/

namespace EarbudFirmware.CustomCmd

open Tota (CmdInstance SupervisorBuild Supervisor WaitingRsp CmdRsp HandlerCall)

/-- `BLE_CUSTOM_CMD_WAITING_RSP_TIMEOUT_COUNT`. -/
def waitingRspTimeoutCount : Nat := 8

/-- `OP_COMMAND_COUNT`. -/
def opCommandCount : Nat := 8

/-- `INVALID_CUSTOM_ENTRY_INDEX`. -/
def invalidCustomEntryIndex : Nat := 0xFFFF

/-- `BLE_CUSTOM_CMD_MAXIMUM_PAYLOAD_SIZE`. -/
def maximumPayloadSize : Nat := 20

/-- The size of `BLE_CUSTOM_CMD_PAYLOAD_T.param`. -/
def sizeofParam : Nat := maximumPayloadSize - 2 * 2

/-- `sizeof(BLE_CUSTOM_CMD_RSP_T)`. -/
def sizeofRsp : Nat := 3 * 2 + (maximumPayloadSize - 5 * 2)

/-- `sizeof(BLE_CUSTOM_CMD_INSTANCE_T)`. -/
def sizeofInstance : Nat := 16

/-- `BLE_CUSTOM_CMD_INSTANCE_T`, without the handler of a received command. -/
structure CustomCmdInstance extends CmdInstance where
  isNeedResponse : Bool

/-- `BLE_CUSTOM_CMD_RET_STATUS_E`, as far as sending a command returns it. -/
inductive RetStatus where
  | noError
  | invalidCmdCode
  | parameterLengthOutOfRange
  deriving DecidableEq

/-- `BLE_CUSTOM_CMD_TRANSMISSION_PATH_E`. -/
inductive TransmissionPath where
  | viaNotification
  | viaIndication
  | viaWriteCmd
  | viaWriteReq
  deriving DecidableEq

/-- `BLE_CUSTOM_CMD_PAYLOAD_T`. -/
structure Payload where
  cmdCode : Nat
  param : List UInt8
  deriving DecidableEq

/-- The bytes of a payload that are sent out. -/
def Payload.length (p : Payload) : Nat := 2 * 2 + p.param.length

/-- `.custom_handler_table`, and the clocks. -/
structure CustomCmdBuild where
  table : List CustomCmdInstance
  ticksPerMs : Nat
  phase : Nat
  ticksPerMs_pos : 0 < ticksPerMs

namespace CustomCmdBuild

variable (b : CustomCmdBuild)

/-- What the supervision reads of the table. -/
def supervisor : SupervisorBuild where
  table := b.table.map (·.toCmdInstance)
  ticksPerMs := b.ticksPerMs
  phase := b.phase
  ticksPerMs_pos := b.ticksPerMs_pos

/-- `BLE_custom_command_get_entry_pointer_from_cmd_code`; the pointer is the place in the table. -/
def getEntryPointerFromCmdCode (cmdCode : Nat) : Option Nat :=
  b.table.findIdx? (·.cmdCode = cmdCode)

/-- `(__custom_handler_table_end - __custom_handler_table_start) / sizeof(..)`, where the difference
of the pointers counts words. -/
def lookupCount : Nat := b.table.length * sizeofInstance / 4 / sizeofInstance

/-- `BLE_custom_command_get_entry_index_from_cmd_code`. -/
def getEntryIndexFromCmdCode (cmdCode : Nat) : Nat :=
  match (b.table.take b.lookupCount).findIdx? (·.cmdCode = cmdCode) with
  | some index => index % 0x10000
  | none => invalidCustomEntryIndex

theorem lookupCount_eq : b.lookupCount = b.table.length / 4 := by
  unfold lookupCount sizeofInstance
  omega

/-- The lookup finds the commands in the first quarter of the table. -/
theorem getEntryIndexFromCmdCode_eq_iff {cmdCode i : Nat} (hlen : b.table.length ≤ 0xFFFF)
    (hi : b.getEntryPointerFromCmdCode cmdCode = some i) :
    b.getEntryIndexFromCmdCode cmdCode = i ↔ i < b.table.length / 4 := by
  have hlt : i < b.table.length := (List.findIdx?_eq_some_iff_getElem.1 hi).1
  have htake := @List.findIdx?_take _ b.table b.lookupCount fun x => decide (x.cmdCode = cmdCode)
  unfold getEntryPointerFromCmdCode at hi
  rw [hi, lookupCount_eq] at htake
  unfold getEntryIndexFromCmdCode
  rw [lookupCount_eq, htake]
  by_cases hquarter : i < b.table.length / 4
  · simp [Option.guard, hquarter, Nat.mod_eq_of_lt (show i < 0x10000 by omega)]
  · simp [Option.guard, hquarter, invalidCustomEntryIndex]
    omega

end CustomCmdBuild

section Supervisor

variable (s : Supervisor)

/-- `ble_custom_cmd_refresh_supervisor_env`, `none` when its assertion fails. -/
def refreshSupervisorEnv (b : SupervisorBuild) (t u : Nat) : Option Supervisor :=
  if ∀ x ∈ s.waiting, s.passedTicks t / b.ticksPerMs < x.msTillTimeout then some (s.refresh b t u)
  else none

/-- `BLE_remove_waiting_rsp_timeout_supervision`, `none` when an assertion fails. -/
def removeWaitingRsp (b : SupervisorBuild) (entryIndex t u : Nat) : Option Supervisor :=
  if s.waiting = [] then none
  else
    match s.waiting.findIdx? (·.entryIndex = entryIndex) with
    | none => some s
    | some index =>
      let s := { s with waiting := s.waiting.eraseIdx index }
      if s.waiting = [] then some { s with timer := none }
      else (refreshSupervisorEnv s b t u).map fun s => s.startForFirst b u

/-- `BLE_add_waiting_rsp_timeout_supervision`, `none` when an assertion fails. The loop always runs
to its end, so the entry is always put behind the last one. -/
def addWaitingRsp (b : SupervisorBuild) (entryIndex t u : Nat) : Option Supervisor := do
  if waitingRspTimeoutCount ≤ s.waiting.length then none
  let s ← refreshSupervisorEnv s b t u
  let pInstance ← b.table[entryIndex]?
  let timeout := pInstance.timeoutWaitingRspInMs
  let s := { s with
    waiting := Supervisor.insertLoop entryIndex timeout s.waiting ++
      [WaitingRsp.mk entryIndex timeout] }
  pure (s.startForFirst b u)

/-- `ble_custom_cmd_rsp_supervision_timer_cb`, `none` also when it calls a missing handler. -/
def rspSupervisionTimerCb (b : SupervisorBuild) (t u : Nat) :
    Option (Supervisor × List HandlerCall) := do
  let first ← s.waiting.head?
  let s ← removeWaitingRsp s b first.entryIndex t u
  let pInstance ← b.table[first.entryIndex]?
  if pInstance.hasCmdRspHandler then pure (s, [.timeout first.entryIndex]) else none

variable (b : CustomCmdBuild)

/-- `BLE_get_response_handler`. -/
def getResponse (rsp : CmdRsp) (paramLen t u : Nat) : Option (Supervisor × List HandlerCall) :=
  if sizeofRsp < paramLen then some (s, [])
  else if s.waiting = [] then some (s, [])
  else
    match b.getEntryPointerFromCmdCode rsp.cmdCodeToRsp with
    | none => some (s, [])
    | some ptCmdInstance => do
      -- the entries are found by their index, and this is the code of the command
      let s ← removeWaitingRsp s b.supervisor rsp.cmdCodeToRsp t u
      let cmd ← b.table[ptCmdInstance]?
      if cmd.hasCmdRspHandler then pure (s, [.response ptCmdInstance rsp]) else pure (s, [])

/-- `BLE_send_custom_command`, with what is sent out; `none` also when the index that the lookup
returns is of no entry. -/
def sendCustomCommand (cmdCode : Nat) (param : List UInt8) (path : TransmissionPath) (t u : Nat) :
    Option (Supervisor × Option (TransmissionPath × Payload) × RetStatus) :=
  if opCommandCount ≤ cmdCode then some (s, none, .invalidCmdCode)
  else if sizeofParam < param.length then some (s, none, .parameterLengthOutOfRange)
  else do
    let entryIndex := b.getEntryIndexFromCmdCode cmdCode
    let pInstance ← b.table[entryIndex]?
    let s ←
      (if pInstance.isNeedResponse then addWaitingRsp s b.supervisor entryIndex t u else some s)
    pure (s, some (path, ⟨cmdCode, param⟩), .noError)

end Supervisor

/-- What can happen: a command is sent, a response arrives, the timer runs out, and the timer thread
runs the callback. -/
inductive CustomCmdOp where
  | send (cmdCode : Nat) (param : List UInt8) (path : TransmissionPath)
  | response (rsp : CmdRsp) (paramLen : Nat)
  | expire
  | callback

/-- An event comes `wait` ticks after the last one. The two readings of the system timer are `lag`
ticks apart. -/
structure CustomCmdEvent where
  wait : Nat
  lag : Nat
  op : CustomCmdOp

/-- One event, with the response handlers that it calls. -/
def customCmdStep (b : CustomCmdBuild) (s : Supervisor) (e : CustomCmdEvent) :
    Option (Supervisor × List HandlerCall) :=
  let t := s.now + e.wait
  let u := t + e.lag
  let s := { s with now := u }
  match e.op with
  | .send cmdCode param path => (sendCustomCommand s b cmdCode param path t u).map (·.1, [])
  | .response rsp paramLen => getResponse s b rsp paramLen t u
  | .expire =>
    match s.timer with
    | none => none
    | some timer =>
      if timer.start + timer.delay ≤ b.supervisor.osTick u then
        some ({ s with timer := none, queued := s.queued + 1 }, [])
      else none
  | .callback =>
    if s.queued = 0 then none
    else rspSupervisionTimerCb { s with queued := s.queued - 1 } b.supervisor t u

end EarbudFirmware.CustomCmd
