import EarbudFirmware.Hwtimer.Timers
import EarbudFirmware.Lib.LinkedList

/-!
# Software timers, with their pointers

The timers are an array. Three pointers lead to the free timers, the active ones and those whose
callbacks are to be called, and each timer has a pointer to the next one of its list. This is the
code with its pointers and its loops over them; `Hwtimers` has lists in their place.

## Main definitions

* `TimerHeap` — the timers, their pointers, the handler and the hardware timer
* `TimerHeap.start`, `TimerHeap.stop`, `TimerHeap.handler`, … — the functions of the source
* `heapStep` — one event
-/

namespace EarbudFirmware.Hwtimer

/-- The assertions of the source, and a loop that does not end. -/
inductive HwtimerAssert where
  | allocState
  | startCollapsed
  | stopCollapsed
  | notFound
  | activeNull
  | irqEarly
  | endless
  deriving DecidableEq

/-- `hwtimer_list` with its `num` timers, and the hardware timer. A timer in `allocating` has been
taken from the free list by a `hwtimer_alloc` that has not set its state yet; for one in `settling`
it has set the state, but not yet the rest. While the handler runs, `current` is the timer whose
callback runs. `κ` are the callbacks and `π` their parameters. -/
structure TimerHeap (num : Nat) (κ π : Type*) where
  state : Fin num → TimerState
  next : Fin num → Option (Fin num)
  time : Fin num → Nat
  callback : Fin num → Option κ
  param : Fin num → Option π
  free : Option (Fin num)
  active : Option (Fin num)
  fired : Option (Fin num)
  allocating : List (Fin num)
  settling : List (Fin num)
  inHandler : Bool
  current : Option (Fin num)
  startTime : Nat
  load : Nat
  enabled : Bool
  starts : Nat
  now : Nat

namespace TimerHeap

variable {num : Nat} {κ π : Type*} (h : TimerHeap num κ π)

/-- `hwtimer_init`. -/
def init (num : Nat) (κ π : Type*) : TimerHeap num κ π where
  state _ := .free
  next i := if hi : i.val + 1 < num then some ⟨i.val + 1, hi⟩ else none
  time _ := 0
  callback _ := none
  param _ := none
  free := if hpos : 0 < num then some ⟨0, hpos⟩ else none
  active := none
  fired := none
  allocating := []
  settling := []
  inHandler := false
  current := none
  startTime := 0
  load := 0
  enabled := false
  starts := 0
  now := 0

/-! ### The hardware timer -/

/-- `hal_timer_start`. -/
def halTimerStart (load : Nat) : TimerHeap num κ π :=
  { h with
    startTime := h.now
    load := Hwtimers.reloadValue load
    enabled := true
    starts := h.starts + 1 }

/-- `hal_timer_stop`. -/
def halTimerStop : TimerHeap num κ π := { h with enabled := false }

/-- `hal_timer_get_raw_value`. -/
def rawValue : Nat := h.load - (h.now - h.startTime)

/-- `hal_timer_get_elapsed_time`. -/
def elapsedTime : Nat := (h.now - h.startTime) % 0x100000000

/-! ### Allocation -/

/-- The locked part of `hwtimer_alloc`: the first free timer is taken out. -/
def allocTake : TimerHeap num κ π :=
  match h.free with
  | none => h
  | some t => { h with free := h.next t, allocating := t :: h.allocating }

/-- The part behind it, with interrupts enabled: the assertion and the state. -/
def allocState (t : Fin num) : Except HwtimerAssert (TimerHeap num κ π) :=
  if h.state t ≠ .free then .error .allocState
  else
    .ok { h with
      state := Function.update h.state t .alloc
      allocating := h.allocating.erase t
      settling := t :: h.settling }

/-- The end of `hwtimer_alloc`, which returns the timer then. -/
def allocFields (t : Fin num) (callback : Option κ) (param : Option π) : TimerHeap num κ π :=
  { h with
    callback := Function.update h.callback t callback
    param := Function.update h.param t param
    next := Function.update h.next t none
    settling := h.settling.erase t }

/-- `hwtimer_free`. -/
def release (t : Fin num) : HwtimerRet × TimerHeap num κ π :=
  if h.state t ≠ .alloc then (.invalSt, h)
  else
    (.ok, { h with
      state := Function.update h.state t .free
      next := Function.update h.next t h.free
      free := some t })

/-- `hwtimer_update`. -/
def update (t : Fin num) (callback : Option κ) (param : Option π) :
    HwtimerRet × TimerHeap num κ π :=
  if h.state t = .alloc ∨ h.state t = .callback then
    (.ok, { h with
      callback := Function.update h.callback t callback
      param := Function.update h.param t param })
  else (.invalSt, h)

/-! ### Starting a timer -/

/-- `while (next && next->time < ticks)`: the locals `pre`, `next` and `ticks` behind the loop. -/
def walkBefore : Nat → Fin num → Option (Fin num) → Nat →
    Except HwtimerAssert (Fin num × Option (Fin num) × Nat)
  | 0, _, _, _ => .error .endless
  | fuel + 1, pre, next, ticks =>
    match next with
    | none => .ok (pre, none, ticks)
    | some n =>
      if h.time n < ticks then walkBefore fuel n (h.next n) (ticks - h.time n)
      else .ok (pre, some n, ticks)

/-- The end of `__hwtimer_start_int` behind that loop. -/
def linkBehind (t pre : Fin num) (next : Option (Fin num)) (ticks : Nat) : TimerHeap num κ π :=
  let time := match next with
    | none => h.time
    | some n => Function.update h.time n (h.time n - ticks)
  { h with
    next := Function.update (Function.update h.next pre (some t)) t next
    time := Function.update time t ticks }

/-- `if (update)` of `__hwtimer_start_int`: `hwtimer_update_then_start` brings a new callback and a
new parameter, `hwtimer_start` brings none. -/
def changed (t : Fin num) : Option (Option κ × Option π) → TimerHeap num κ π
  | none => h
  | some (callback, param) => { h with
      callback := Function.update h.callback t callback
      param := Function.update h.param t param }

/-- `__hwtimer_start_int`. -/
def start (t : Fin num) (change : Option (Option κ × Option π)) (ticks : Nat) :
    Except HwtimerAssert (HwtimerRet × TimerHeap num κ π) :=
  let ticks := if ticks < loadDelta then loadDelta else ticks
  if h.state t ≠ .alloc ∧ h.state t ≠ .callback then .ok (.invalSt, h)
  else
    let h' := changed { h with state := Function.update h.state t .active } t change
    match h.active with
    | none =>
      .ok (.ok, halTimerStart { h' with
        next := Function.update h.next t none
        active := some t
        time := Function.update h.time t ticks } ticks)
    | some a =>
      let curTime := h.rawValue
      if h.time a < curTime ∧ loadDelta < curTime then .error .startCollapsed
      else if curTime > ticks then
        .ok (.ok, halTimerStart (halTimerStop { h' with
          next := Function.update h.next t (some a)
          active := some t
          time := Function.update (Function.update h.time a (curTime - ticks)) t ticks }) ticks)
      else
        match h.walkBefore (num + 1) a (h.next a) (ticks - curTime) with
        | .error e => .error e
        | .ok (pre, next, ticks) => .ok (.ok, h'.linkBehind t pre next ticks)

/-! ### Stopping a timer -/

/-- `while (pre && pre->time <= elapsed_time)` and the subtraction behind it: the times that are
left. -/
def walkOverdue : Nat → Option (Fin num) → Nat → (Fin num → Nat) →
    Except HwtimerAssert (Fin num → Nat)
  | 0, _, _, _ => .error .endless
  | fuel + 1, pre, elapsed, time =>
    match pre with
    | none => .ok time
    | some n =>
      if time n ≤ elapsed then
        walkOverdue fuel (h.next n) (elapsed - time n) (Function.update time n 0)
      else .ok (Function.update time n (time n - elapsed))

/-- `while (next && next != timer)`: the locals `pre` and `next` behind the loop. -/
def walkTo (t : Fin num) : Nat → Fin num → Option (Fin num) →
    Except HwtimerAssert (Fin num × Option (Fin num))
  | 0, _, _ => .error .endless
  | fuel + 1, pre, next =>
    match next with
    | none => .ok (pre, none)
    | some n => if n ≠ t then walkTo t fuel n (h.next n) else .ok (pre, some n)

/-- The branch of `hwtimer_stop` for the first active timer `t`. -/
def stopFirst (t : Fin num) : Except HwtimerAssert (TimerHeap num κ π) :=
  let curTime := h.rawValue
  if h.time t < curTime ∧ loadDelta < curTime then .error .stopCollapsed
  else
    match h.next t with
    | none => .ok { h.halTimerStop with active := none }
    | some n =>
      if curTime = 0 then
        if (h.elapsedTime + loadDelta) % 0x100000000 < h.time t then .error .stopCollapsed
        else
          let elapsed := if h.elapsedTime > h.time t then h.elapsedTime - h.time t else 0
          match h.walkOverdue (num + 1) (some n) elapsed h.time with
          | .error e => .error e
          | .ok time =>
            .ok { halTimerStart { h.halTimerStop with time := time } (time n) with
              active := some n }
      else
        let time := Function.update h.time n ((h.time n + curTime) % 0x100000000)
        .ok { halTimerStart { h.halTimerStop with time := time } (time n) with active := some n }

/-- The branch for an active timer behind the first one, `a`. -/
def stopBehind (a t : Fin num) : Except HwtimerAssert (TimerHeap num κ π) :=
  match h.walkTo t (num + 1) a (h.next a) with
  | .error e => .error e
  | .ok (_, none) => .error .notFound
  | .ok (pre, some n) =>
    let time := match h.next n with
      | none => h.time
      | some m => Function.update h.time m ((h.time m + h.time t) % 0x100000000)
    .ok { h with next := Function.update h.next pre (h.next n), time := time }

/-- The branch for a timer that waits for its callback. -/
def stopFired (t : Fin num) : Except HwtimerAssert (TimerHeap num κ π) :=
  match h.fired with
  | none => .error .notFound
  | some f =>
    if f = t then .ok { h with fired := h.next f }
    else
      match h.walkTo t (num + 1) f (h.next f) with
      | .error e => .error e
      | .ok (_, none) => .error .notFound
      | .ok (pre, some n) => .ok { h with next := Function.update h.next pre (h.next n) }

/-- The end of `hwtimer_stop` when the timer has been taken out of its list. -/
def stopped (t : Fin num) : TimerHeap num κ π :=
  { h with
    state := Function.update h.state t .alloc
    next := Function.update h.next t none }

/-- `hwtimer_stop`. -/
def stop (t : Fin num) : Except HwtimerAssert (HwtimerRet × TimerHeap num κ π) :=
  match h.state t with
  | .alloc => .ok (.ok, h)
  | .active =>
    match h.active with
    | none => .error .notFound
    | some a =>
      (if a = t then h.stopFirst t else h.stopBehind a t).map fun h' => (.ok, h'.stopped t)
  | .fired => (h.stopFired t).map fun h' => (.ok, h'.stopped t)
  | .callback => .ok (.inCallback, h)
  | .free => .ok (.invalSt, h)

/-! ### The handler -/

/-- `while (last && last->time <= elapsed)`: the locals `pre`, `last` and `elapsed` behind the loop,
and the states. -/
def walkDue : Nat → Fin num → Option (Fin num) → Nat → (Fin num → TimerState) →
    Except HwtimerAssert (Fin num × Option (Fin num) × Nat × (Fin num → TimerState))
  | 0, _, _, _, _ => .error .endless
  | fuel + 1, pre, last, elapsed, state =>
    match last with
    | none => .ok (pre, none, elapsed, state)
    | some n =>
      if h.time n ≤ elapsed then
        walkDue fuel n (h.next n) (elapsed - h.time n) (Function.update state n .fired)
      else .ok (pre, some n, elapsed, state)

/-- The first part of `hwtimer_handler`. -/
def handler : Except HwtimerAssert (TimerHeap num κ π) :=
  match h.active with
  | none => if h.enabled then .error .activeNull else .ok h
  | some a =>
    if (h.elapsedTime + loadDelta) % 0x100000000 < h.time a then
      if h.enabled then .ok h else .error .irqEarly
    else
      let elapsed := if h.elapsedTime > h.time a then h.elapsedTime - h.time a else 0
      match h.walkDue (num + 1) a (h.next a) elapsed (Function.update h.state a .fired) with
      | .error e => .error e
      | .ok (pre, last, elapsed, state) =>
        let h' := { h with
          state := state
          next := Function.update h.next pre none
          fired := some a
          active := last
          inHandler := true }
        match last with
        | none => .ok h'.halTimerStop
        | some n =>
          let time := Function.update h.time n (h.time n - elapsed)
          .ok (halTimerStart { h' with time := time } (time n))

/-- The end of one round of the loop in `hwtimer_handler`. -/
def endRound (t : Fin num) : TimerHeap num κ π :=
  { h with
    state := if h.state t = .callback then Function.update h.state t .alloc else h.state
    current := none }

/-- The loop of `hwtimer_handler` takes the next timer and calls its callback, or ends. -/
def runCallback : TimerHeap num κ π :=
  match h.fired with
  | none => { h with inHandler := false }
  | some t =>
    let h' := { h with
      state := Function.update h.state t .callback
      next := Function.update h.next t none
      fired := h.next t
      current := some t }
    match h.callback t with
    | none => h'.endRound t
    | some _ => h'

end TimerHeap

/-- What can happen. `hwtimer_alloc` is three events, as interrupts are enabled in between, and a
callback is two: anything can happen until it returns. -/
inductive HeapOp (num : Nat) (κ π : Type*) where
  | allocTake
  | allocState (t : Fin num)
  | allocFields (t : Fin num) (callback : Option κ) (param : Option π)
  | release (t : Fin num)
  | update (t : Fin num) (callback : Option κ) (param : Option π)
  | start (t : Fin num) (change : Option (Option κ × Option π)) (ticks : UInt32)
  | stop (t : Fin num)
  | handler
  | runCallback
  | callbackReturns

/-- An event, `wait` ticks after the last one. -/
structure HeapEvent (num : Nat) (κ π : Type*) where
  wait : Nat
  op : HeapOp num κ π

/-- One event. The handler is not entered again before it has ended; what cannot happen changes
nothing. -/
def heapStep {num : Nat} {κ π : Type*} (h : TimerHeap num κ π) (e : HeapEvent num κ π) :
    Except HwtimerAssert (TimerHeap num κ π) :=
  let h := { h with now := h.now + e.wait }
  match e.op with
  | .allocTake => .ok h.allocTake
  | .allocState t => if t ∈ h.allocating then h.allocState t else .ok h
  | .allocFields t callback param =>
    if t ∈ h.settling then .ok (h.allocFields t callback param) else .ok h
  | .release t => .ok (h.release t).2
  | .update t callback param => .ok (h.update t callback param).2
  | .start t change ticks => (h.start t change ticks.toNat).map Prod.snd
  | .stop t => (h.stop t).map Prod.snd
  | .handler => if h.inHandler then .ok h else h.handler
  | .runCallback => if h.inHandler ∧ h.current = none then .ok h.runCallback else .ok h
  | .callbackReturns =>
    match h.current with
    | none => .ok h
    | some t => .ok (h.endRound t)

end EarbudFirmware.Hwtimer
