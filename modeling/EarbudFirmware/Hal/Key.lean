import Mathlib.Data.List.Basic

/-!
# Keys

The debounce handler turns the keys that are down, with the time of each call, into events: up and
down events of each key, long presses, and clicks of a combination of keys.

## Main definitions

* `KeyStatus` — what the handler keeps between two calls
* `debounceHandler` — one call of the handler
* `KeyStatus.run` — the events of all calls
* `PressTracker` — presses of combinations, without the counting of clicks
-/

namespace EarbudFirmware.Hal

/-- `HAL_KEY_CODE_T`: a bit for each key. -/
abbrev KeyCode := BitVec 32

/-- `HAL_KEY_EVENT_T`, as far as the handler uses it; `click cnt` is `HAL_KEY_EVENT_CLICK + cnt`. -/
inductive KeyEvent where
  | none
  | down
  | firstDown
  | continuedDown
  | up
  | upAfterLongpress
  | longpress
  | longlongpress
  | click (cnt : Nat)
  | repeated
  deriving DecidableEq

/-- `MAX_KEY_CLICK_COUNT`. -/
def maxKeyClickCount : Nat := 4

/-- The thresholds of a board, in ticks of the timer. -/
structure KeyConfig where
  doubleclickThreshold : UInt32
  longpressThreshold : UInt32
  longlongpressThreshold : UInt32
  longpressRepeatThreshold : UInt32
  checkerInterval : UInt32

/-- `HAL_KEY_STATUS_T`. -/
structure KeyStatus where
  codeDown : KeyCode
  codeReady : KeyCode
  codeClick : KeyCode
  event : KeyEvent
  timeUpdown : UInt32
  timeClick : UInt32
  cntRepeat : UInt8
  cntClick : Nat
  deriving DecidableEq

/-- An event with its code. -/
abbrev KeyReport := KeyCode × KeyEvent

/-- The keys of a code. -/
def keyBits (map : KeyCode) : List KeyCode :=
  ((List.range 32).filter fun index => map.getLsbD index).map fun index => 1#32 <<< index

/-- The keys that were not down before. -/
def downNew (old codeDown : KeyCode) : KeyCode := codeDown &&& ~~~old

/-- The keys that are not down any more. -/
def upNew (old codeDown : KeyCode) : KeyCode := ~~~codeDown &&& old

namespace KeyStatus

variable (s : KeyStatus)

/-- `memset(&key_status, 0, sizeof(key_status))`. -/
def zero : KeyStatus := ⟨0, 0, 0, .none, 0, 0, 0, 0⟩

/-- A press has become long. -/
def IsLong : Prop := s.event = .longpress ∨ s.event = .longlongpress

instance : Decidable s.IsLong := inferInstanceAs (Decidable (_ ∨ _))

/-- "Check newly up keys". -/
def releaseKeys (codeDown : KeyCode) (time : UInt32) : KeyStatus × List KeyReport :=
  let sent := (keyBits (upNew s.codeDown codeDown)).flatMap fun key =>
    (key, .up) :: if s.IsLong then [(key, .upAfterLongpress)] else []
  if upNew s.codeDown codeDown ≠ 0 then
    ({ s with
        timeUpdown := time
        event :=
          if s.IsLong then if codeDown &&& s.codeReady = 0 then .none else s.event
          else if s.event = .down then .up
          else s.event }, sent)
  else (s, sent)

/-- A first click of the combination, behind the clicks of another one, or one more click. -/
def addClick (upNew : KeyCode) (time : UInt32) : KeyStatus × List KeyReport :=
  if s.codeClick = 0 ∨ s.codeClick ≠ s.codeReady then
    ({ s with codeClick := s.codeReady, cntClick := 0, timeClick := time },
      if s.codeClick ≠ 0 then [(s.codeClick, .click s.cntClick)] else [])
  else if upNew ≠ 0 ∧ upNew ||| s.codeDown = s.codeClick then
    ({ s with cntClick := s.cntClick + 1, timeClick := time }, [])
  else (s, [])

/-- The clicks are reported when no other one may follow. -/
def reportClick (cfg : KeyConfig) (time : UInt32) : KeyStatus × List KeyReport :=
  if cfg.doubleclickThreshold ≤ time - s.timeClick ∨ maxKeyClickCount ≤ s.cntClick then
    ({ s with codeClick := 0, cntClick := 0, event := .none }, [(s.codeClick, .click s.cntClick)])
  else (s, [])

/-- The handling of clicks; `code_down` of the status is still the one of the last call. -/
def countClicks (cfg : KeyConfig) (upNew : KeyCode) (time : UInt32) : KeyStatus × List KeyReport :=
  if s.event = .up then
    let (added, sent) := s.addClick upNew time
    let (reported, sent') := added.reportClick cfg time
    (reported, sent ++ sent')
  else (s, [])

/-- "Check newly down keys and update key_status.code_ready". -/
def pressKeys (codeDown : KeyCode) (time : UInt32) : KeyStatus × List KeyReport :=
  let sent := (keyBits (downNew s.codeDown codeDown)).flatMap fun key =>
    [(key, .down), (key, if s.event = .none then .firstDown else .continuedDown)]
  if downNew s.codeDown codeDown ≠ 0 then
    ({ s with
        codeDown := codeDown
        codeReady :=
          if s.event = .none ∨ s.event = .down ∨ s.event = .up then codeDown else s.codeReady
        timeUpdown := time
        event := if s.event = .none ∨ s.event = .up then .down else s.event }, sent)
  else ({ s with codeDown := codeDown }, sent)

/-- A repeat is reported at every `KEY_LONGPRESS_REPEAT_THRESHOLD`. -/
def repeatKeys (cfg : KeyConfig) : KeyStatus × List KeyReport :=
  if (s.cntRepeat + 1).toUInt32 = cfg.longpressRepeatThreshold / cfg.checkerInterval then
    ({ s with cntRepeat := 0 }, [(s.codeReady, .repeated)])
  else ({ s with cntRepeat := s.cntRepeat + 1 }, [])

/-- "LongPress should be stopped if any key is released". -/
def holdKeys (cfg : KeyConfig) (time : UInt32) : KeyStatus × List KeyReport :=
  if s.codeDown &&& s.codeReady = s.codeReady then
    if s.event = .down then
      if cfg.longpressThreshold ≤ time - s.timeUpdown then
        ({ s with cntRepeat := 0, event := .longpress }, [(s.codeReady, .longpress)])
      else (s, [])
    else if s.IsLong then
      let (held, sent) := s.repeatKeys cfg
      if held.event = .longpress ∧ cfg.longlongpressThreshold ≤ time - held.timeUpdown then
        ({ held with event := .longlongpress }, sent ++ [(held.codeReady, .longlongpress)])
      else (held, sent)
    else (s, [])
  else (s, [])

/-- `hal_key_debounce_handler`, from the keys that are down. -/
def debounceHandler (cfg : KeyConfig) (codeDown : KeyCode) (time : UInt32) :
    KeyStatus × List KeyReport :=
  let (released, sent₁) := s.releaseKeys codeDown time
  let (clicked, sent₂) := released.countClicks cfg (upNew s.codeDown codeDown) time
  let (pressed, sent₃) := clicked.pressKeys codeDown time
  let (held, sent₄) := pressed.holdKeys cfg time
  (held, sent₁ ++ sent₂ ++ sent₃ ++ sent₄)

/-- All calls of the handler, each with the keys that are down and the time. -/
def run (cfg : KeyConfig) (s : KeyStatus) : List (KeyCode × UInt32) → KeyStatus × List KeyReport
  | [] => (s, [])
  | (codeDown, time) :: calls =>
    let (t, sent) := s.debounceHandler cfg codeDown time
    let (u, sent') := run cfg t calls
    (u, sent ++ sent')

end KeyStatus

/-! ### Presses -/

/-- A completed short press of a combination, with the number of presses that had become long
before it. -/
structure Press where
  combo : KeyCode
  start : UInt32
  release : UInt32
  longs : Nat
  deriving DecidableEq

/-- No key is pressed that counts, a combination is pressed, or its press has become long. -/
inductive PressPhase where
  | released
  | pressed (combo : KeyCode) (start : UInt32)
  | long (combo : KeyCode)
  deriving DecidableEq

/-- Presses of combinations. A press starts with the first key, it takes in every key that is
added, and it ends with the first key that is released; a press that has become long ends when all
its keys are released. -/
structure PressTracker where
  keys : KeyCode
  since : UInt32
  phase : PressPhase
  presses : List Press
  longs : Nat
  deriving DecidableEq

namespace PressTracker

variable (tr : PressTracker)

/-- Nothing has been pressed. -/
def zero : PressTracker := ⟨0, 0, .released, [], 0⟩

/-- Keys are released. -/
def release (codeDown : KeyCode) (time : UInt32) : PressTracker :=
  if upNew tr.keys codeDown = 0 then tr
  else
    match tr.phase with
    | .released => { tr with since := time }
    | .pressed combo start =>
      { tr with
        since := time
        phase := .released
        presses := tr.presses ++ [⟨combo, start, time, tr.longs⟩] }
    | .long combo =>
      { tr with since := time, phase := if codeDown &&& combo = 0 then .released else .long combo }

/-- Keys are pressed. -/
def press (codeDown : KeyCode) (time : UInt32) : PressTracker :=
  if downNew tr.keys codeDown = 0 then { tr with keys := codeDown }
  else
    { tr with
      keys := codeDown
      since := time
      phase :=
        match tr.phase with
        | .released => .pressed codeDown time
        | .pressed _ start => .pressed codeDown start
        | .long combo => .long combo }

/-- A press becomes long. -/
def hold (cfg : KeyConfig) (time : UInt32) : PressTracker :=
  match tr.phase with
  | .pressed combo _ =>
    if cfg.longpressThreshold ≤ time - tr.since then
      { tr with phase := .long combo, longs := tr.longs + 1 }
    else tr
  | _ => tr

/-- The presses of all calls. -/
def run (cfg : KeyConfig) (tr : PressTracker) : List (KeyCode × UInt32) → PressTracker
  | [] => tr
  | (codeDown, time) :: calls =>
    run cfg (((tr.release codeDown time).press codeDown time).hold cfg time) calls

end PressTracker

end EarbudFirmware.Hal
