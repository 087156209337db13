import Mathlib.Data.Nat.Init

/-!
# Updates of the connection parameters

A connection has the update in progress, one that waits, and a timer. A failed update is repeated,
or gives way to the one that waits; a successful one leaves the one that waits to the timer. The
timer thread posts the failure handler, which runs later, maybe on another connection.

## Main definitions

* `ConnContext` — what the updates use of a connection's context
* `ConnContext.pushUpdateCiList` — a request is recorded
* `ConnContext.updateCiFailHandle`, `ConnContext.updateCiSuccessHandle` — the end of an update
* `ConnContext.step` — one event, with the command that it sends
-/

namespace EarbudFirmware.ConnUpdate

/-- `APP_BLE_UPDATE_CI_TIMEOUT_INTERVEL`, in milliseconds. -/
def updateCiTimeoutInterval : Nat := 5000

/-- `APP_BLE_UPDATE_CI_MAX_TIMES`. -/
def updateCiMaxTimes : Nat := 3

/-- `LL_ERR_CON_TIMEOUT`. -/
def llErrConTimeout : Nat := 0x98

/-- `APP_BLE_CONN_PARAM_T`. -/
structure ConnParam where
  conInterval : Nat
  conLatency : Nat
  supTo : Nat
  deriving DecidableEq

/-- The arguments of `l2cap_update_param_in_standard_unit`; the timeout is in milliseconds. -/
structure Request where
  minInterval : Nat
  maxInterval : Nat
  supTimeout : Nat
  slaveLatency : Nat
  deriving DecidableEq

/-- `APP_BLE_UPDATE_CI_T`. -/
structure UpdateCI where
  minInterval : Nat
  maxInterval : Nat
  conLatency : Nat
  supTO : Nat
  exist : Bool
  ciUpdateTimes : Nat
  deriving DecidableEq

/-- `struct gapc_param_update_cmd`, without what is the same in all of them. -/
structure ParamUpdateCmd where
  intvMin : Nat
  intvMax : Nat
  latency : Nat
  timeOut : Nat
  deriving DecidableEq

/-- `appm_update_param`. -/
def appmUpdateParam (minInterval maxInterval timeOut slaveLatency : Nat) : ParamUpdateCmd where
  intvMin := minInterval % 0x10000
  intvMax := maxInterval % 0x10000
  latency := slaveLatency
  timeOut := timeOut / 10 % 0x10000

/-- The command that an update sends. -/
def UpdateCI.cmd (ci : UpdateCI) : ParamUpdateCmd :=
  appmUpdateParam ci.minInterval ci.maxInterval ci.supTO ci.conLatency

/-- The record of a request. -/
def Request.toCI (r : Request) : UpdateCI where
  minInterval := r.minInterval % 0x10000
  maxInterval := r.maxInterval % 0x10000
  conLatency := r.slaveLatency
  supTO := r.supTimeout % 0x10000
  exist := true
  ciUpdateTimes := 0

/-- `APP_BLE_CONN_CONTEXT_T`, as far as updates use it: `timerId` tells whether the timer has been
created, `timer` is the delay that it runs with, and `posted` counts the failure handlers that have
been posted to the other thread. -/
structure ConnContext where
  connected : Bool
  connParam : ConnParam
  ongoingCI : UpdateCI
  pendingCI : UpdateCI
  timerId : Bool
  timer : Option Nat
  posted : Nat
  deriving DecidableEq

namespace ConnContext

variable (c : ConnContext)

/-- `osTimerStart`, which needs a timer. -/
def osTimerStart (delay : Nat) : ConnContext :=
  if c.timerId then { c with timer := some delay } else c

/-- `osTimerStop`. -/
def osTimerStop : ConnContext := { c with timer := none }

/-- The parameters in use are what is requested. -/
def InUse (r : Request) : Prop :=
  ¬(c.connParam.conInterval < r.minInterval ∨ r.maxInterval < c.connParam.conInterval ∨
    c.connParam.supTo ≠ r.supTimeout / 10 ∨ c.connParam.conLatency ≠ r.slaveLatency)

instance (r : Request) : Decidable (c.InUse r) := inferInstanceAs (Decidable (¬_))

/-- The comparison with the update in progress. -/
def SameAsOngoing (r : Request) : Prop :=
  ¬(c.ongoingCI.minInterval ≠ r.minInterval ∨ c.ongoingCI.maxInterval ≠ r.maxInterval ∨
    c.ongoingCI.supTO ≠ r.supTimeout / 10 ∨ c.ongoingCI.conLatency ≠ r.slaveLatency)

instance (r : Request) : Decidable (c.SameAsOngoing r) := inferInstanceAs (Decidable (¬_))

/-- `app_ble_push_update_ci_list`. -/
def pushUpdateCiList (r : Request) : ConnContext × Bool :=
  if c.ongoingCI.exist = false then
    if c.InUse r then (c, false)
    else
      ({ c with
        ongoingCI := r.toCI
        timerId := true
        timer := some updateCiTimeoutInterval }, true)
  else if c.SameAsOngoing r then (c, false)
  else
    ({ c with
      pendingCI := r.toCI
      timerId := true
      timer := some updateCiTimeoutInterval }, false)

/-- `l2cap_update_param_in_standard_unit`. -/
def l2capUpdateParam (r : Request) : ConnContext × Option ParamUpdateCmd :=
  match c.pushUpdateCiList r with
  | (c, false) => (c, none)
  | (c, true) =>
    (c, some (appmUpdateParam r.minInterval r.maxInterval r.supTimeout r.slaveLatency))

/-- The update in progress is sent, and the timer runs for it. -/
def sendOngoing : ConnContext × Option ParamUpdateCmd :=
  (c.osTimerStop.osTimerStart updateCiTimeoutInterval, some c.ongoingCI.cmd)

/-- The update that waits takes the place of the one in progress. -/
def takePending : ConnContext :=
  { c with
    ongoingCI := c.pendingCI
    pendingCI := { c.pendingCI with exist := false } }

/-- `app_ble_update_ci_fail_handle`. -/
def updateCiFailHandle (errCode : Nat) : ConnContext × Option ParamUpdateCmd :=
  if c.pendingCI.exist then c.takePending.sendOngoing
  else
    let times := (c.ongoingCI.ciUpdateTimes + 1) % 0x100
    if updateCiMaxTimes < times ∨ c.connected = false ∨ errCode = llErrConTimeout then
      ({ c with
        ongoingCI := { c.ongoingCI with
          exist := false
          ciUpdateTimes := times } }, none)
    else { c with ongoingCI := { c.ongoingCI with ciUpdateTimes := times } }.sendOngoing

/-- `app_ble_update_ci_success_handle`. -/
def updateCiSuccessHandle : ConnContext :=
  if c.pendingCI.exist then c.takePending.osTimerStop.osTimerStart 100
  else { c with ongoingCI := { c.ongoingCI with exist := false } }.osTimerStop

/-- `app_ble_clear_update_ci_list`. -/
def clearUpdateCiList : ConnContext :=
  { c with
    ongoingCI := { c.ongoingCI with exist := false }
    pendingCI := { c.pendingCI with exist := false } }.osTimerStop

end ConnContext

/-- What can happen: a request; the stack reports an update or that one failed; the timer runs out,
and its callback finds this connection by its handle, or another one that had it; the posted handler
runs; the connection ends, and another one begins. -/
inductive UpdateEvent where
  | request (r : Request)
  | success (p : ConnParam)
  | failure (errCode : Nat)
  | expire (own : Bool)
  | callback
  | disconnect
  | connect (p : ConnParam)

/-- One event, with the command that it sends, if it can happen. -/
def ConnContext.step (c : ConnContext) : UpdateEvent → Option (ConnContext × Option ParamUpdateCmd)
  | .request r => some (c.l2capUpdateParam r)
  | .success p => some ({ c with connParam := p }.updateCiSuccessHandle, none)
  | .failure errCode => some (c.updateCiFailHandle errCode)
  | .expire own =>
    if c.timer = none then none
    else
      some ({ c with
        timer := none
        posted := if own then c.posted + 1 else c.posted }, none)
  | .callback =>
    if c.posted = 0 then none else some ({ c with posted := c.posted - 1 }.updateCiFailHandle 0)
  | .disconnect =>
    if c.connected then
      some ({ c with
        connected := false
        connParam := ⟨0, 0, 0⟩ }.clearUpdateCiList, none)
    else none
  | .connect p =>
    if c.connected then none
    else
      some ({ c with
        connected := true
        connParam := p }.clearUpdateCiList, none)

/-- The context before the first connection. -/
def ConnContext.initial : ConnContext :=
  ⟨false, ⟨0, 0, 0⟩, ⟨0, 0, 0, 0, false, 0⟩, ⟨0, 0, 0, 0, false, 0⟩, false, none, 0⟩

end EarbudFirmware.ConnUpdate
