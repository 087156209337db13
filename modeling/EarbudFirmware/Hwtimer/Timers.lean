import EarbudFirmware.Lib.DeltaList
import Mathlib.Logic.Function.Basic

/-!
# Software timers

All software timers share one hardware timer. The timers that are active form a delta list, whose
first entry is the one that the hardware timer runs for. The hardware timer counts down from its
load to 0 and stops there; its interrupt can be served any time later. The handler moves the timers
that are due to a second list, and runs their callbacks one after another with interrupts enabled.

## Main definitions

* `Hwtimers` — the timers, the hardware timer and the time
* `Hwtimers.start`, `Hwtimers.stop` — `hwtimer_start` and `hwtimer_stop`
* `Hwtimers.handler`, `Hwtimers.runCallback`, `Hwtimers.callbackReturns` — `hwtimer_handler`
* `hwtimerStep` — one event
-/

namespace EarbudFirmware.Hwtimer

/-- `HAL_TIMER_LOAD_DELTA`. -/
def loadDelta : Nat := 1

/-- `HWTIMER_STATE_T`. -/
inductive TimerState where
  | free | alloc | active | fired | callback
  deriving DecidableEq

/-- `E_HWTIMER_T`, as far as it is returned for a valid timer. -/
inductive HwtimerRet where
  | ok | invalSt | inCallback
  deriving DecidableEq

/-- `hwtimer_list` with the hardware timer: the time at which it was started, what it was loaded
with, and whether it is enabled. `starts` counts the calls of `hal_timer_start`. While the handler
runs, `current` is the timer whose callback runs. The time counts ticks, and does not wrap. -/
structure Hwtimers (ι : Type*) where
  state : ι → TimerState
  active : List (ι × Nat)
  fired : List ι
  inHandler : Bool
  current : Option ι
  startTime : Nat
  load : Nat
  enabled : Bool
  starts : Nat
  now : Nat

namespace Hwtimers

variable {ι : Type*} (s : Hwtimers ι)

/-! ### The hardware timer -/

/-- What `hal_timer_common_reload` loads. -/
def reloadValue (load : Nat) : Nat := if load > loadDelta then load - loadDelta else loadDelta

/-- `hal_timer_start`. -/
def halTimerStart (load : Nat) : Hwtimers ι :=
  { s with
    startTime := s.now
    load := reloadValue load
    enabled := true
    starts := s.starts + 1 }

/-- `hal_timer_stop`. -/
def halTimerStop : Hwtimers ι := { s with enabled := false }

/-- `hal_timer_get_raw_value`: the count, which stays at 0. -/
def rawValue : Nat := s.load - (s.now - s.startTime)

/-- `hal_timer_get_elapsed_time`, a number of 32 bits. -/
def elapsedTime : Nat := (s.now - s.startTime) % 0x100000000

/-! ### The operations -/

section Operations

variable [DecidableEq ι]

/-- The loop of `hwtimer_stop` over the timers behind the first one. -/
def removeBehind (t : ι) : List (ι × Nat) → List (ι × Nat)
  | [] => []
  | (x, u) :: l =>
    if x = t then
      match l with
      | [] => []
      | (y, v) :: l => (y, (v + u) % 0x100000000) :: l
    else (x, u) :: removeBehind t l

/-- `hwtimer_start`, `none` when its assertion fails. -/
def start (t : ι) (ticks : Nat) : Option (HwtimerRet × Hwtimers ι) :=
  let ticks := if ticks < loadDelta then loadDelta else ticks
  if s.state t ≠ .alloc ∧ s.state t ≠ .callback then some (.invalSt, s)
  else
    let s' := { s with state := Function.update s.state t .active }
    match s.active with
    | [] => some (.ok, { s' with active := [(t, ticks)] }.halTimerStart ticks)
    | (x, u) :: rest =>
      let curTime := s.rawValue
      if u < curTime ∧ loadDelta < curTime then none
      else if ticks < curTime then
        some (.ok,
          { s' with
            active := (t, ticks) :: (x, curTime - ticks) :: rest }.halTimerStop.halTimerStart
            ticks)
      else
        some (.ok,
          { s' with active := (x, u) :: DeltaList.insertBehind t (ticks - curTime) rest })

/-- The part of `hwtimer_stop` for the first active timer, with `u` ticks, which is `t`. -/
def stopFirst (t : ι) (u : Nat) (rest : List (ι × Nat)) : Option (Hwtimers ι) :=
  let curTime := s.rawValue
  if u < curTime ∧ loadDelta < curTime then none
  else
    let s' := { s with state := Function.update s.state t .alloc }.halTimerStop
    match rest with
    | [] => some { s' with active := [] }
    | (y, v) :: rest =>
      if curTime = 0 then
        if (s.elapsedTime + loadDelta) % 0x100000000 < u then none
        else
          let elapsed := s.elapsedTime - u
          let next := if v ≤ elapsed then 0 else v - elapsed
          some ({ s' with active := DeltaList.advance ((y, v) :: rest) elapsed }.halTimerStart next)
      else
        let next := (v + curTime) % 0x100000000
        some ({ s' with active := (y, next) :: rest }.halTimerStart next)

/-- `hwtimer_stop`, `none` when one of its assertions fails. -/
def stop (t : ι) : Option (HwtimerRet × Hwtimers ι) :=
  match s.state t with
  | .alloc => some (.ok, s)
  | .active =>
    match s.active with
    | [] => none
    | (x, u) :: rest =>
      if x = t then (s.stopFirst t u rest).map (HwtimerRet.ok, ·)
      else if t ∈ rest.map Prod.fst then
        some (.ok, { s with
          state := Function.update s.state t .alloc
          active := (x, u) :: removeBehind t rest })
      else none
  | .fired =>
    if t ∈ s.fired then
      some (.ok, { s with
        state := Function.update s.state t .alloc
        fired := s.fired.erase t })
    else none
  | .callback => some (.inCallback, s)
  | .free => some (.invalSt, s)

/-- The first part of `hwtimer_handler`: the timers that are due are moved to the other list. `none`
when an assertion fails. -/
def handler : Option (Hwtimers ι) :=
  match s.active with
  | [] => if s.enabled then none else some s
  | (x, u) :: rest =>
    if (s.elapsedTime + loadDelta) % 0x100000000 < u then if s.enabled then some s else none
    else
      let due := DeltaList.expire rest (s.elapsedTime - u)
      let s' := { s with
        state := fun t => if t ∈ x :: due.1 then .fired else s.state t
        fired := x :: due.1
        active := due.2
        inHandler := true }
      match due.2 with
      | [] => some s'.halTimerStop
      | (_, v) :: _ => some (s'.halTimerStart v)

/-- The loop of `hwtimer_handler` takes the next timer and calls its callback, or ends. -/
def runCallback : Hwtimers ι :=
  match s.fired with
  | [] => { s with inHandler := false }
  | t :: fired =>
    { s with
      state := Function.update s.state t .callback
      fired := fired
      current := some t }

/-- The callback of `t` returns to `hwtimer_handler`. -/
def callbackReturns (t : ι) : Hwtimers ι :=
  { s with
    state := if s.state t = .callback then Function.update s.state t .alloc else s.state
    current := none }

end Operations

end Hwtimers

/-- What can happen: a timer is started or stopped, the handler is entered, it calls a callback or
ends, and a callback returns. -/
inductive HwtimerOp (ι : Type*) where
  | start (t : ι) (ticks : UInt32)
  | stop (t : ι)
  | handler
  | runCallback
  | callbackReturns

/-- An event, `wait` ticks after the last one. -/
structure HwtimerEvent (ι : Type*) where
  wait : Nat
  op : HwtimerOp ι

/-- One event. The handler is not entered again before it has ended. -/
def hwtimerStep {ι : Type*} [DecidableEq ι] (s : Hwtimers ι) (e : HwtimerEvent ι) :
    Option (Hwtimers ι) :=
  let s := { s with now := s.now + e.wait }
  match e.op with
  | .start t ticks => (s.start t ticks.toNat).map Prod.snd
  | .stop t => (s.stop t).map Prod.snd
  | .handler => if s.inHandler then none else s.handler
  | .runCallback => if s.inHandler ∧ s.current = none then some s.runCallback else none
  | .callbackReturns => s.current.map s.callbackReturns

end EarbudFirmware.Hwtimer
