import Mathlib.Data.List.Nodup
import Mathlib.Logic.Function.Basic

/-!
# Commands that wait for a response

A command that needs a response is supervised: it stands in a list with the milliseconds that are
left for it, and one timer runs for the first entry. The clock counts ticks since the start; the
system timer is a counter of 32 bits, and a timer of the operating system runs out when the tick of
the operating system has been counted as often as it was told. Its callback is then queued for the
timer thread, and runs later.

## Main definitions

* `CmdInstance`, `SupervisorBuild` — the command table and the clocks
* `Supervisor` — the list, the timer and the clock
* `Supervisor.addWaitingRsp`, `Supervisor.removeWaitingRsp` — the operations on the list
* `Supervisor.getCmdResponse`, `Supervisor.timerCallback` — a response and an expiry
* `supervisorStep` — one event
-/

namespace EarbudFirmware.Tota

/-- `APP_TOTA_CMD_HANDLER_WAITING_RSP_TIMEOUT_SUPERVISOR_COUNT`. -/
def supervisorCount : Nat := 8

/-- `sizeof(APP_TOTA_CMD_RSP_T)`. -/
def sizeofCmdRsp : Nat := 3 * 2 + (660 - 5 * 2)

/-- `APP_TOTA_CMD_INSTANCE_T`, without what the supervision does not read. -/
structure CmdInstance where
  cmdCode : Nat
  timeoutWaitingRspInMs : Nat
  hasCmdRspHandler : Bool

/-- The command table, the ticks of the system timer in a millisecond, and how far the tick of the
operating system is ahead of the start. -/
structure SupervisorBuild where
  table : List CmdInstance
  ticksPerMs : Nat
  phase : Nat
  ticksPerMs_pos : 0 < ticksPerMs

namespace SupervisorBuild

variable (b : SupervisorBuild)

/-- `hal_sys_timer_get`, at the time `t`. -/
def sysTimer (t : Nat) : Nat := t % 0x100000000

/-- The tick of the operating system at the time `t`. -/
def osTick (t : Nat) : Nat := (t + b.phase) / b.ticksPerMs

/-- `app_tota_cmd_handler_get_entry_index_from_cmd_code`. -/
def entryIndexFromCmdCode (cmdCode : Nat) : Option Nat :=
  b.table.findIdx? (·.cmdCode = cmdCode)

end SupervisorBuild

/-- `APP_TOTA_CMD_WAITING_RSP_SUPERVISOR_T`. -/
structure WaitingRsp where
  entryIndex : Nat
  msTillTimeout : Nat
  deriving DecidableEq

/-- `APP_TOTA_CMD_RSP_T`. -/
structure CmdRsp where
  cmdCodeToRsp : Nat
  cmdRetStatus : Nat
  rspData : List UInt8
  deriving DecidableEq

/-- A call of a response handler, with a response or with `TOTA_WAITING_RSP_TIMEOUT`. -/
inductive HandlerCall where
  | response (entryIndex : Nat) (rsp : CmdRsp)
  | timeout (entryIndex : Nat)
  deriving DecidableEq

/-- The command that a call is for. -/
def HandlerCall.entryIndex : HandlerCall → Nat
  | .response i _ => i
  | .timeout i => i

/-- A running timer: the tick at which it was started, and its delay. -/
structure OsTimer where
  start : Nat
  delay : Nat
  deriving DecidableEq

/-- `tota_cmd_handler_env` with its timer, the callbacks that are queued for the timer thread, and
the time. The list holds the first `timeoutSupervisorCount` entries. -/
structure Supervisor where
  waiting : List WaitingRsp
  lastSysTicks : Nat
  timer : Option OsTimer
  queued : Nat
  now : Nat
  deriving DecidableEq

namespace Supervisor

variable (b : SupervisorBuild) (s : Supervisor)

/-- The state that `app_tota_cmd_handler_init` sets up. -/
def initial : Supervisor := ⟨[], 0, none, 0, 0⟩

/-- The ticks since the last refresh, at the time `t`. -/
def passedTicks (t : Nat) : Nat :=
  if s.lastSysTicks ≤ SupervisorBuild.sysTimer t then
    SupervisorBuild.sysTimer t - s.lastSysTicks
  else 0xFFFFFFFF - s.lastSysTicks + 1 + SupervisorBuild.sysTimer t

/-- What a refresh at the time `t` leaves of an entry's time. -/
def msLeft (t : Nat) (x : WaitingRsp) : Nat := x.msTillTimeout - s.passedTicks t / b.ticksPerMs

/-- `app_tota_cmd_refresh_supervisor_env`; the system timer is read at `t`, and again at `u`. -/
def refresh (t u : Nat) : Supervisor :=
  { s with
    waiting := s.waiting.map fun x => { x with msTillTimeout := s.msLeft b t x }
    lastSysTicks := SupervisorBuild.sysTimer u }

/-- `osTimerStart`, which refuses a delay of 0. -/
def osTimerStart (u delay : Nat) : Supervisor :=
  if delay = 0 then s else { s with timer := some ⟨b.osTick u, delay⟩ }

/-- The timer is started for the first entry. -/
def startForFirst (u : Nat) : Supervisor :=
  match s.waiting with
  | [] => s
  | x :: _ => s.osTimerStart b u x.msTillTimeout

/-- `app_tota_cmd_handler_remove_waiting_rsp_timeout_supervision`, `none` when its assertion
fails. -/
def removeWaitingRsp (entryIndex t u : Nat) : Option Supervisor :=
  if s.waiting = [] then none
  else
    match s.waiting.findIdx? (·.entryIndex = entryIndex) with
    | none => some s
    | some i =>
      let s := { s with waiting := s.waiting.eraseIdx i }
      if s.waiting = [] then some { s with timer := none }
      else some ((s.refresh b t u).startForFirst b u)

/-- The loop of `app_tota_cmd_handler_add_waiting_rsp_timeout_supervision`. -/
def insertLoop (entryIndex timeout : Nat) : List WaitingRsp → List WaitingRsp
  | [] => []
  | x :: xs =>
    if x.entryIndex ≠ entryIndex ∧ x.msTillTimeout ≤ timeout then
      x :: insertLoop entryIndex timeout xs
    else if timeout < x.msTillTimeout then
      ⟨entryIndex, timeout⟩ :: insertLoop entryIndex timeout xs
    else insertLoop entryIndex timeout xs

/-- `app_tota_cmd_handler_add_waiting_rsp_timeout_supervision`, `none` when its assertion fails. The
loop always runs to its end, so the entry is always put behind the last one. -/
def addWaitingRsp (entryIndex t u : Nat) : Option Supervisor := do
  if supervisorCount ≤ s.waiting.length then none
  let pInstance ← b.table[entryIndex]?
  let s := s.refresh b t u
  let timeout := pInstance.timeoutWaitingRspInMs
  let s := { s with
    waiting := insertLoop entryIndex timeout s.waiting ++ [WaitingRsp.mk entryIndex timeout] }
  pure (s.startForFirst b u)

/-- `app_tota_get_cmd_response_handler`. -/
def getCmdResponse (rsp : CmdRsp) (paramLen t u : Nat) : Option (Supervisor × List HandlerCall) :=
  if sizeofCmdRsp < paramLen then some (s, [])
  else if s.waiting = [] then some (s, [])
  else
    match b.entryIndexFromCmdCode rsp.cmdCodeToRsp with
    | none => some (s, [])
    | some entryIndex => do
      let s ← s.removeWaitingRsp b entryIndex t u
      let ptCmdInstance ← b.table[entryIndex]?
      if ptCmdInstance.hasCmdRspHandler then pure (s, [.response entryIndex rsp]) else pure (s, [])

/-- `app_tota_cmd_handler_rsp_supervision_timer_cb`, `none` also when it calls a missing handler. -/
def timerCallback (t u : Nat) : Option (Supervisor × List HandlerCall) := do
  let first ← s.waiting.head?
  let s ← s.removeWaitingRsp b first.entryIndex t u
  let ptCmdInstance ← b.table[first.entryIndex]?
  if ptCmdInstance.hasCmdRspHandler then pure (s, [.timeout first.entryIndex]) else none

end Supervisor

/-- What can happen: a command is sent, a response arrives, the timer runs out, and the timer thread
runs the callback. -/
inductive SupervisorOp where
  | add (entryIndex : Nat)
  | response (rsp : CmdRsp) (paramLen : Nat)
  | expire
  | callback

/-- An event comes `wait` ticks after the last one. The two readings of the system timer are `lag`
ticks apart. -/
structure SupervisorEvent where
  wait : Nat
  lag : Nat
  op : SupervisorOp

/-- One event, with the response handlers that it calls. -/
def supervisorStep (b : SupervisorBuild) (s : Supervisor) (e : SupervisorEvent) :
    Option (Supervisor × List HandlerCall) :=
  let t := s.now + e.wait
  let u := t + e.lag
  let s := { s with now := u }
  match e.op with
  | .add i => (s.addWaitingRsp b i t u).map (·, [])
  | .response rsp paramLen => s.getCmdResponse b rsp paramLen t u
  | .expire =>
    match s.timer with
    | none => none
    | some timer =>
      if timer.start + timer.delay ≤ b.osTick u then
        some ({ s with timer := none, queued := s.queued + 1 }, [])
      else none
  | .callback =>
    if s.queued = 0 then none else { s with queued := s.queued - 1 }.timerCallback b t u

end EarbudFirmware.Tota
