import EarbudFirmware.Lib.Transition

/-!
# BLE operations, one at a time

Scanning, advertising, connecting and the lists of the controller are changed by operations of which
one is under way at a time. A request that finds BLE busy leaves a flag behind; the end of an
operation posts the function of the next flag to the BT thread. The scan has an activity in the
stack, which is created, started, stopped and deleted by commands.

## Main definitions

* `BleMode` — the flags, the posted functions, the scan activity and what the stack scans with
* `executePendingOp` — the end of an operation, and the next one
* `bleStep` — a request, the BT thread, or an answer of the stack
* `Quiet` — no operation is posted, in progress or pending

## Main results

* `Dispatched.step` — at most one operation is posted or in progress, and none when BLE is not busy
-/

namespace EarbudFirmware.Ble

/-- `BLE_SCAN_PARAM_T`. -/
structure ScanParam where
  scanType : UInt8
  scanWindow : UInt16
  scanInterval : UInt16
  deriving DecidableEq

/-- `ble_bdaddr_t`. -/
structure BdAddr where
  addr : BitVec 48
  addrType : UInt8
  deriving DecidableEq

/-- `BLE_ACTV_ACTION_E`. -/
inductive ActvAction where
  | idle
  | startingAdv
  | stoppingAdv
  | startingScan
  | stoppingScan
  | connecting
  | stopConnecting
  | disconnecting
  | setWhiteList
  | addResloList
  deriving DecidableEq

/-- The functions that are posted to the BT thread. -/
inductive BtFunction where
  | stopConnecting
  | disconnect (conIdx : Nat)
  | setAllWhiteList
  | addReslovingList
  | startConnect
  | startScan
  | stopScanning
  | startAdv
  deriving DecidableEq

/-- `BLE_WHITE_LIST_USER_E`. -/
inductive WhiteListUser where
  | tws
  | mobile
  deriving DecidableEq

/-- `WHITE_LIST_MAX_NUM`, which is also the size of the array that joins the lists. -/
def whiteListMaxNum : Nat := 8

/-- `BLE_WHITE_LIST_PARAM_T`: `bdaddr` holds the first `size` entries. -/
structure WhiteListParam where
  enable : Bool
  bdaddr : List BdAddr
  length_le : bdaddr.length ≤ whiteListMaxNum

/-- The states of the scan activity. -/
inductive ScanState where
  | creating
  | starting
  | started
  | stopping
  | deleting
  deriving DecidableEq

/-- The commands for the scan activity that the stack has not completed. A start carries the
parameters it was built from. -/
inductive ScanCmd where
  | create
  | start (p : ScanParam)
  | stop
  | delete
  deriving DecidableEq

/-- `bleModeEnv` with the functions posted to the BT thread; the scan activity of `app_env`, if it
has an index, and the parameters there; the commands in flight, what the stack scans with, and the
white list passed last. `requestedScan` and `whiteListChanged` record the calls. -/
structure BleMode where
  bleIsBusy : Bool
  bleActvAction : ActvAction
  bleOpActvIdx : UInt8
  posted : List BtFunction
  pendingStopConnecting : Bool
  pendingDisconnect : Nat → Bool
  pendingSetWhiteList : Bool
  pendingAddReslovingList : Bool
  pendingConnect : Nat → Bool
  scanHasPendingOp : Bool
  scanHasPendingStopOp : Bool
  advHasPendingOp : Bool
  scanCurrentInfo : ScanParam
  scanPendingInfo : ScanParam
  bleWhiteList : WhiteListUser → WhiteListParam
  scanActv : Option ScanState
  scanParam : ScanParam
  needRestartScan : Bool
  gapmCmds : List ScanCmd
  scanning : Option ScanParam
  passedWhiteList : Option (List BdAddr)
  requestedScan : Option ScanParam
  whiteListChanged : Bool

/-- What `app_ble_start_adv` finds to do. -/
inductive AdvWork where
  | nothing
  | start
  | stop (actvIdx : UInt8)
  deriving DecidableEq

/-- A request, the next posted function, the end of an operation that is not about the scan, the
white list of an operation in progress, or the completion of a command for the scan. -/
inductive BleEvent where
  | startScan (p : ScanParam)
  | stopScan
  | setWhiteList (user : WhiteListUser) (bdaddr : List BdAddr)
  | clearWhiteList (user : WhiteListUser)
  | clearAllWhiteList
  | addReslovingList
  | startConnect (index : Nat)
  | cancelConnecting
  | startDisconnect (conIdx : Nat)
  | refreshAdv
  | run (adv : AdvWork)
  | finish (action : ActvAction) (actvIdx : UInt8)
  | advStartingFailed (actvIdx : UInt8)
  | appmSetWhiteList
  | gapmComplete (ok : Bool)
  deriving DecidableEq

/-- An empty list of a user who is not enabled. -/
def WhiteListParam.cleared : WhiteListParam := ⟨false, [], Nat.zero_le _⟩

/-- The state behind `app_ble_mode_init`. -/
def BleMode.init : BleMode where
  bleIsBusy := false
  bleActvAction := .idle
  bleOpActvIdx := 0
  posted := []
  pendingStopConnecting := false
  pendingDisconnect := fun _ => false
  pendingSetWhiteList := false
  pendingAddReslovingList := false
  pendingConnect := fun _ => false
  scanHasPendingOp := false
  scanHasPendingStopOp := false
  advHasPendingOp := false
  scanCurrentInfo := ⟨0, 0, 0⟩
  scanPendingInfo := ⟨0, 0, 0⟩
  bleWhiteList := fun _ => .cleared
  scanActv := none
  scanParam := ⟨0, 0, 0⟩
  needRestartScan := false
  gapmCmds := []
  scanning := none
  passedWhiteList := none
  requestedScan := none
  whiteListChanged := false

variable (connectionMax : Nat)

namespace BleMode

variable (s : BleMode)

/-! ### Operations -/

/-- `app_bt_start_custom_function_in_bt_thread`. -/
def post (f : BtFunction) : BleMode := { s with posted := s.posted ++ [f] }

/-- `ble_set_actv_action`. -/
def setActvAction (action : ActvAction) (actvIdx : UInt8) : BleMode :=
  { s with
    bleActvAction := action
    bleOpActvIdx := actvIdx }

/-- `ble_clear_actv_action`. -/
def clearActvAction (action : ActvAction) (actvIdx : UInt8) : Option BleMode :=
  if action = s.bleActvAction then
    if s.bleActvAction = .idle then some s
    else if action = .stoppingAdv ∧ s.bleOpActvIdx ≠ actvIdx then none
    else some (s.setActvAction .idle 0xFF)
  else none

/-- `app_ble_index_pending_to_disconnect`. -/
def indexPendingToDisconnect : Option Nat := (List.range connectionMax).find? s.pendingDisconnect

/-- `app_ble_pending_to_connect`, with the index that `ble_start_connect` takes. -/
def pendingToConnect : Option Nat := (List.range connectionMax).find? s.pendingConnect

/-- The choice of the next operation in `ble_execute_pending_op`. -/
def postPendingOp : BleMode :=
  if s.pendingStopConnecting then
    { s with pendingStopConnecting := false }.post .stopConnecting
  else
    match s.indexPendingToDisconnect connectionMax with
    | some index =>
      { s with
        pendingDisconnect := fun i =>
          if i = index then false else s.pendingDisconnect i }.post (.disconnect index)
    | none =>
      if s.pendingSetWhiteList then s.post .setAllWhiteList
      else if s.pendingAddReslovingList then s.post .addReslovingList
      else if (s.pendingToConnect connectionMax).isSome then s.post .startConnect
      else if s.scanHasPendingOp then { s with scanHasPendingOp := false }.post .startScan
      else if s.scanHasPendingStopOp then
        { s with scanHasPendingStopOp := false }.post .stopScanning
      else if s.advHasPendingOp then { s with advHasPendingOp := false }.post .startAdv
      else { s with bleIsBusy := false }

/-- `ble_execute_pending_op`. -/
def executePendingOp (finishAction : ActvAction) (actvIdx : UInt8) : BleMode :=
  match s.clearActvAction finishAction actvIdx with
  | none => s
  | some s => s.postPendingOp connectionMax

/-- Posts a function if BLE is not busy, and otherwise leaves a flag. -/
def request (f : BtFunction) (pending : BleMode) : BleMode :=
  if s.bleIsBusy then pending else { s with bleIsBusy := true }.post f

/-! ### The scan activity -/

/-- `appm_kick_off_scanning`. -/
def appmKickOffScanning : BleMode :=
  { s with
    gapmCmds := s.gapmCmds ++ [.start s.scanParam]
    scanActv := some .starting }

/-- `appm_stop_scanning`. -/
def appmStopScanning : BleMode :=
  match s.scanActv with
  | some .started =>
    { s with
      gapmCmds := s.gapmCmds ++ [ScanCmd.stop]
      scanActv := some .stopping }
  | some .stopping | some .deleting => s
  | _ => s.executePendingOp connectionMax .stoppingScan 0xFF

/-- `BLE_SCAN_ALLOW_ADV_ALL_AND_INIT_RPA`. -/
def scanAllowAdvAllAndInitRpa : UInt8 := 2

/-- `appm_start_scanning`. -/
def appmStartScanning (p : ScanParam) : BleMode :=
  match s.scanActv with
  | none =>
    { s with
      scanParam := p
      gapmCmds := s.gapmCmds ++ [ScanCmd.create] }
  | some _ =>
    if (p.scanType ^^^ s.scanParam.scanType) &&& scanAllowAdvAllAndInitRpa ≠ 0 then
      { s with
        scanParam := p
        needRestartScan := true }.appmStopScanning connectionMax
    else { s with scanParam := p }.appmKickOffScanning

/-- `ble_start_scan`. -/
def bleStartScan : BleMode :=
  if s.scanActv = some .started ∧ s.scanCurrentInfo = s.scanPendingInfo then
    s.executePendingOp connectionMax .idle 0xFF
  else
    ({ s with scanCurrentInfo := s.scanPendingInfo }.setActvAction .startingScan
      0xFF).appmStartScanning connectionMax s.scanPendingInfo

/-- `ble_stop_scanning`. -/
def bleStopScanning : BleMode :=
  (s.setActvAction .stoppingScan 0xFF).appmStopScanning connectionMax

/-- `appm_actv_fsm_next` for the scan activity. The lists that wait for the scan to stop do not
find it started. -/
def appmActvFsmNext (ok : Bool) : BleMode :=
  match s.scanActv with
  | some .creating => s.appmKickOffScanning
  | some .starting =>
    let s :=
      if ok then { s with scanActv := some .started }
      else
        { s with
          scanActv := some .deleting
          gapmCmds := s.gapmCmds ++ [.delete] }
    s.executePendingOp connectionMax .startingScan 0xFF
  | some .stopping =>
    { s with
      scanActv := some .deleting
      gapmCmds := s.gapmCmds ++ [ScanCmd.delete] }
  | some .deleting =>
    if s.needRestartScan then
      { s with
        scanActv := none
        needRestartScan := false }.appmStartScanning connectionMax s.scanParam
    else { s with scanActv := none }.executePendingOp connectionMax .stoppingScan 0xFF
  | _ => s

/-- The stack has completed a command. -/
def completed (cmds : List ScanCmd) (ok : Bool) : ScanCmd → BleMode
  | .create =>
    { s with
      gapmCmds := cmds
      scanActv := some .creating }
  | .start p =>
    { s with
      gapmCmds := cmds
      scanning := if ok then some p else s.scanning }
  | .stop | .delete =>
    { s with
      gapmCmds := cmds
      scanning := none }

/-- The stack completes the oldest command for the scan. -/
def gapmComplete (ok : Bool) : BleMode :=
  match s.gapmCmds with
  | [] => s
  | cmd :: cmds => (s.completed cmds ok cmd).appmActvFsmNext connectionMax ok

/-! ### The white lists -/

/-- The loop of `_app_ble_set_all_white_list`, with what it has copied so far. There is no result
when it copies to behind the end of its array. -/
def joinWhiteLists : List WhiteListParam → List BdAddr → Option (List BdAddr)
  | [], bdaddr => some bdaddr
  | p :: ps, bdaddr =>
    if p.enable then
      if bdaddr.length + p.bdaddr.length ≤ whiteListMaxNum then
        joinWhiteLists ps (bdaddr ++ p.bdaddr)
      else none
    else joinWhiteLists ps bdaddr

/-- The lists of the users, in their order. -/
def whiteLists : List WhiteListParam := [s.bleWhiteList .tws, s.bleWhiteList .mobile]

/-- `app_ble_set_all_white_list`. -/
def appBleSetAllWhiteList : BleMode :=
  s.request .setAllWhiteList { s with pendingSetWhiteList := true }

/-- Gives a user a list. -/
def putWhiteList (user : WhiteListUser) (p : WhiteListParam) : BleMode :=
  { s with
    bleWhiteList := fun u => if u = user then p else s.bleWhiteList u
    whiteListChanged := true }

/-- `app_ble_set_white_list`. -/
def appBleSetWhiteList (user : WhiteListUser) (bdaddr : List BdAddr) : BleMode :=
  (s.putWhiteList user
    ⟨true, bdaddr.take whiteListMaxNum, List.length_take_le _ _⟩).appBleSetAllWhiteList

/-- `app_ble_clear_white_list`. -/
def appBleClearWhiteList (user : WhiteListUser) : BleMode :=
  (s.putWhiteList user .cleared).appBleSetAllWhiteList

/-- `app_ble_clear_all_white_list`. -/
def appBleClearAllWhiteList : BleMode :=
  ((s.putWhiteList .tws .cleared).putWhiteList .mobile .cleared).appBleSetAllWhiteList

/-! ### Steps -/

/-- The BT thread calls a posted function. `none` is the assertion of `ble_start_connect`. -/
def call (adv : AdvWork) : BtFunction → Option BleMode
  | .stopConnecting => some (s.setActvAction .stopConnecting 0xFF)
  | .disconnect _ => some (s.setActvAction .disconnecting 0xFF)
  | .setAllWhiteList =>
    some ({ s with
      pendingSetWhiteList := false
      passedWhiteList := joinWhiteLists s.whiteLists [] }.setActvAction .setWhiteList 0xFF)
  | .addReslovingList =>
    some ({ s with pendingAddReslovingList := false }.setActvAction .addResloList 0xFF)
  | .startConnect =>
    (s.pendingToConnect connectionMax).map fun index =>
      { s with
        pendingConnect := fun i =>
          if i = index then false else s.pendingConnect i }.setActvAction .connecting 0xFF
  | .startScan => some (s.bleStartScan connectionMax)
  | .stopScanning => some (s.bleStopScanning connectionMax)
  | .startAdv =>
    match adv with
    | .nothing => some (s.executePendingOp connectionMax .idle 0xFF)
    | .start => some (s.setActvAction .startingAdv 0xFF)
    | .stop actvIdx => some (s.setActvAction .stoppingAdv actvIdx)

end BleMode

/-- One event; `none` when it cannot happen in this state. -/
def bleStep (s : BleMode) : BleEvent → Option BleMode
  | .startScan p =>
    let s := { s with
      scanPendingInfo := p
      requestedScan := some p }
    some (s.request .startScan { s with scanHasPendingOp := true })
  | .stopScan =>
    let s := { s with requestedScan := none }
    some (s.request .stopScanning { s with scanHasPendingStopOp := true })
  | .setWhiteList user bdaddr => some (s.appBleSetWhiteList user bdaddr)
  | .clearWhiteList user => some (s.appBleClearWhiteList user)
  | .clearAllWhiteList => some s.appBleClearAllWhiteList
  | .addReslovingList =>
    some (s.request .addReslovingList { s with pendingAddReslovingList := true })
  | .startConnect index =>
    let s := { s with pendingConnect := fun i => if i = index then true else s.pendingConnect i }
    some (s.request .startConnect s)
  | .cancelConnecting =>
    some (s.request .stopConnecting { s with pendingStopConnecting := true })
  | .startDisconnect conIdx =>
    some (s.request (.disconnect conIdx)
      { s with pendingDisconnect := fun i => if i = conIdx then true else s.pendingDisconnect i })
  | .refreshAdv => some (s.request .startAdv { s with advHasPendingOp := true })
  | .run adv =>
    match s.posted with
    | [] => none
    | f :: fs => { s with posted := fs }.call connectionMax adv f
  | .finish action actvIdx =>
    if action = .idle ∨ action = .startingScan ∨ action = .stoppingScan then none
    else some (s.executePendingOp connectionMax action actvIdx)
  | .advStartingFailed actvIdx =>
    if s.bleActvAction = .startingAdv then some (s.setActvAction .stoppingAdv actvIdx) else none
  | .appmSetWhiteList =>
    if s.bleActvAction = .setWhiteList then
      some (if s.scanActv = some .started then s.appmStopScanning connectionMax else s)
    else none
  | .gapmComplete ok => some (s.gapmComplete connectionMax ok)

/-- No operation is posted, in progress or pending. -/
structure Quiet (s : BleMode) : Prop where
  busy : s.bleIsBusy = false
  posted : s.posted = []
  action : s.bleActvAction = .idle
  whiteList : s.pendingSetWhiteList = false
  scan : s.scanHasPendingOp = false
  scanStop : s.scanHasPendingStopOp = false
  others : s.pendingStopConnecting = false ∧ s.pendingAddReslovingList = false ∧
    s.advHasPendingOp = false ∧
    ∀ i < connectionMax, s.pendingDisconnect i = false ∧ s.pendingConnect i = false

variable {connectionMax} {s t : BleMode} {e : BleEvent} {a : ActvAction} {f : BtFunction}
  {i : UInt8} {ok : Bool}

/-! ### The scan activity in the states it can be found in -/

theorem appmStopScanning_of_none (h : s.scanActv = none) :
    s.appmStopScanning connectionMax = s.executePendingOp connectionMax .stoppingScan 0xFF := by
  rw [BleMode.appmStopScanning]
  split
  case h_4 => rfl
  all_goals simp_all only [reduceCtorEq]

theorem appmStopScanning_of_started (h : s.scanActv = some .started) :
    s.appmStopScanning connectionMax = { s with
      gapmCmds := s.gapmCmds ++ [.stop]
      scanActv := some .stopping } := by
  rw [BleMode.appmStopScanning]
  split
  case h_1 => rfl
  all_goals simp_all only [reduceCtorEq, Option.some.injEq]
  contradiction

theorem appmStartScanning_of_none (h : s.scanActv = none) (p : ScanParam) :
    s.appmStartScanning connectionMax p = { s with
      scanParam := p
      gapmCmds := s.gapmCmds ++ [.create] } := by
  rw [BleMode.appmStartScanning]
  split
  case h_1 => rfl
  case h_2 hsome =>
    rw [h] at hsome
    cases hsome

/-- A started activity gets the new parameters, or is stopped because its own address changes. -/
theorem appmStartScanning_of_started (h : s.scanActv = some .started) (p : ScanParam) :
    s.appmStartScanning connectionMax p =
      if (p.scanType ^^^ s.scanParam.scanType) &&& BleMode.scanAllowAdvAllAndInitRpa ≠ 0 then
        { s with
          scanParam := p
          needRestartScan := true
          gapmCmds := s.gapmCmds ++ [.stop]
          scanActv := some .stopping }
      else
        { s with
          scanParam := p
          gapmCmds := s.gapmCmds ++ [.start p]
          scanActv := some .starting } := by
  rw [BleMode.appmStartScanning]
  split
  case h_1 hnone =>
    rw [h] at hnone
    cases hnone
  case h_2 =>
    congr 1
    apply appmStopScanning_of_started
    exact h

theorem gapmComplete_of_nil (h : s.gapmCmds = []) : s.gapmComplete connectionMax ok = s := by
  rw [BleMode.gapmComplete, h]

theorem gapmComplete_of_cons {cmd : ScanCmd} {cmds : List ScanCmd} (h : s.gapmCmds = cmd :: cmds) :
    s.gapmComplete connectionMax ok =
      (s.completed cmds ok cmd).appmActvFsmNext connectionMax ok := by
  rw [BleMode.gapmComplete, h]

/-! ### The next operation -/

/-- What `ble_execute_pending_op` does when it goes on: it posts a function that is not about the
scan, it posts one that is, or BLE is not busy any more. -/
inductive NextOp (s : BleMode) : BleMode → Prop
  | other (f : BtFunction) (hf : f ≠ .startScan ∧ f ≠ .stopScanning) (p v : Bool)
      (d : Nat → Bool) :
      NextOp s { s with
        posted := s.posted ++ [f]
        pendingStopConnecting := p
        pendingDisconnect := d
        advHasPendingOp := v }
  | startScan (h : s.scanHasPendingOp = true) :
      NextOp s { s with
        posted := s.posted ++ [.startScan]
        scanHasPendingOp := false }
  | stopScan (h : s.scanHasPendingOp = false) (hstop : s.scanHasPendingStopOp = true) :
      NextOp s { s with
        posted := s.posted ++ [.stopScanning]
        scanHasPendingStopOp := false }
  | free (h : s.scanHasPendingOp = false) (hstop : s.scanHasPendingStopOp = false)
      (hlist : s.pendingSetWhiteList = false) :
      NextOp s { s with bleIsBusy := false }

theorem nextOp_postPendingOp (s : BleMode) : NextOp s (s.postPendingOp connectionMax) := by
  unfold BleMode.postPendingOp
  split
  · exact .other .stopConnecting (by decide) _ _ _
  split
  · rename_i index _
    exact .other (.disconnect index) ⟨BtFunction.noConfusion, BtFunction.noConfusion⟩ _ _ _
  split
  · exact .other .setAllWhiteList (by decide) _ _ _
  rename_i hlist
  split
  · exact .other .addReslovingList (by decide) _ _ _
  split
  · exact .other .startConnect (by decide) _ _ _
  split
  · exact .startScan ‹_›
  rename_i hscan
  split
  · exact .stopScan (eq_false_of_ne_true hscan) ‹_›
  rename_i hstop
  split
  · exact .other .startAdv (by decide) _ _ _
  · exact .free (eq_false_of_ne_true hscan) (eq_false_of_ne_true hstop)
      (eq_false_of_ne_true hlist)

/-- The end of another operation than the one in progress changes nothing. -/
theorem executePendingOp_of_ne (h : a ≠ s.bleActvAction) :
    s.executePendingOp connectionMax a i = s := by
  rw [BleMode.executePendingOp, BleMode.clearActvAction, if_neg h]

/-- The end of the operation in progress, or of a function that found nothing to do. -/
theorem executePendingOp_of_eq (h : a = s.bleActvAction) (ha : a ≠ .stoppingAdv) :
    ∃ idx, NextOp { s with
        bleActvAction := .idle
        bleOpActvIdx := idx } (s.executePendingOp connectionMax a i) := by
  rw [BleMode.executePendingOp, BleMode.clearActvAction, if_pos h]
  by_cases hidle : s.bleActvAction = .idle
  · rw [if_pos hidle]
    refine ⟨s.bleOpActvIdx, ?_⟩
    rw [← hidle]
    exact nextOp_postPendingOp s
  · rw [if_neg hidle, if_neg fun hadv => ha hadv.1]
    exact ⟨0xFF, nextOp_postPendingOp _⟩

/-- The end of any operation. -/
theorem executePendingOp_cases (s : BleMode) (a : ActvAction) (i : UInt8) :
    s.executePendingOp connectionMax a i = s ∨
      a = s.bleActvAction ∧ ∃ idx, NextOp { s with
        bleActvAction := .idle
        bleOpActvIdx := idx } (s.executePendingOp connectionMax a i) := by
  by_cases h : a = s.bleActvAction
  · by_cases hadv : a = .stoppingAdv ∧ s.bleOpActvIdx ≠ i
    · left
      have hne : s.bleActvAction ≠ .idle := by
        rw [← h, hadv.1]
        exact ActvAction.noConfusion
      rw [BleMode.executePendingOp, BleMode.clearActvAction, if_pos h, if_neg hne, if_pos hadv]
    · refine .inr ⟨h, ?_⟩
      rw [BleMode.executePendingOp, BleMode.clearActvAction, if_pos h]
      by_cases hidle : s.bleActvAction = .idle
      · rw [if_pos hidle]
        refine ⟨s.bleOpActvIdx, ?_⟩
        rw [← hidle]
        exact nextOp_postPendingOp s
      · rw [if_neg hidle, if_neg hadv]
        exact ⟨0xFF, nextOp_postPendingOp _⟩
  · exact .inl (executePendingOp_of_ne h)

/-! ### One operation at a time -/

/-- At most one operation is posted or in progress, and none when BLE is not busy. -/
structure Dispatched (s : BleMode) : Prop where
  free : s.bleIsBusy = false → s.posted = [] ∧ s.bleActvAction = .idle ∧
    s.scanHasPendingOp = false ∧ s.scanHasPendingStopOp = false ∧ s.pendingSetWhiteList = false
  one : s.posted = [] ∨ (∃ f, s.posted = [f]) ∧ s.bleActvAction = .idle

namespace Dispatched

theorem init : Dispatched .init := ⟨fun _ => ⟨rfl, rfl, rfl, rfl, rfl⟩, .inl rfl⟩

/-- While BLE is busy, only the operation counts. -/
theorem of_busy (hbusy : s.bleIsBusy = true)
    (hone : s.posted = [] ∨ (∃ f, s.posted = [f]) ∧ s.bleActvAction = .idle) : Dispatched s :=
  ⟨fun h => absurd (hbusy.symm.trans h) (by decide), hone⟩

theorem busy_of_action (h : Dispatched s) (ha : s.bleActvAction ≠ .idle) :
    s.bleIsBusy = true ∧ s.posted = [] := by
  constructor
  · by_contra hbusy
    exact ha (h.free (eq_false_of_ne_true hbusy)).2.1
  · rcases h.one with hnil | ⟨-, hidle⟩
    · exact hnil
    · exact absurd hidle ha

/-- A function that is about to run is the only one, and nothing is in progress. -/
theorem of_posted (h : Dispatched s) {fs : List BtFunction} (hp : s.posted = f :: fs) :
    fs = [] ∧ s.bleActvAction = .idle ∧ s.bleIsBusy = true := by
  refine ⟨?_, ?_, ?_⟩
  · rcases h.one with hnil | ⟨⟨g, hg⟩, -⟩
    · rw [hp] at hnil
      cases hnil
    · rw [hp] at hg
      exact (List.cons.inj hg).2
  · rcases h.one with hnil | ⟨-, hidle⟩
    · rw [hp] at hnil
      cases hnil
    · exact hidle
  · by_contra hbusy
    have hnil := (h.free (eq_false_of_ne_true hbusy)).1
    rw [hp] at hnil
    cases hnil

theorem next (h : NextOp s t) (hp : s.posted = []) (hidle : s.bleActvAction = .idle)
    (hbusy : s.bleIsBusy = true) : Dispatched t := by
  cases h with
  | other f => exact of_busy hbusy (.inr ⟨⟨f, by simp [hp]⟩, hidle⟩)
  | startScan => exact of_busy hbusy (.inr ⟨⟨.startScan, by simp [hp]⟩, hidle⟩)
  | stopScan => exact of_busy hbusy (.inr ⟨⟨.stopScanning, by simp [hp]⟩, hidle⟩)
  | free hscan hstop hlist => exact ⟨fun _ => ⟨hp, hidle, hscan, hstop, hlist⟩, .inl hp⟩

/-- The end of an operation, also of one that was not in progress. -/
theorem executePendingOp (h : Dispatched s) (ha : a ≠ .idle) :
    Dispatched (s.executePendingOp connectionMax a i) := by
  rcases executePendingOp_cases s a i with hsame | ⟨haction, idx, hnext⟩
  · rw [hsame]
    exact h
  · have hbusy := h.busy_of_action (haction ▸ ha)
    exact next hnext hbusy.2 rfl hbusy.1

/-- A function that runs finds nothing to do. -/
theorem executePendingOp_idle (hp : s.posted = []) (hidle : s.bleActvAction = .idle)
    (hbusy : s.bleIsBusy = true) : Dispatched (s.executePendingOp connectionMax .idle i) := by
  obtain ⟨idx, hnext⟩ := executePendingOp_of_eq hidle.symm (by decide)
  exact next hnext hp rfl hbusy

/-- A request of a function, which leaves a flag when BLE is busy. -/
theorem request {u : BleMode} (h : Dispatched s) (hbusy : u.bleIsBusy = s.bleIsBusy)
    (hp : u.posted = s.posted) (haction : u.bleActvAction = s.bleActvAction) :
    Dispatched (s.request f u) := by
  rw [BleMode.request]
  split
  · rename_i hb
    refine of_busy (hbusy.trans hb) ?_
    rw [hp, haction]
    exact h.one
  · rename_i hb
    have hfree := h.free (eq_false_of_ne_true hb)
    exact of_busy rfl (.inr ⟨⟨f, by simp [BleMode.post, hfree.1]⟩, hfree.2.1⟩)

/-! ### The scan activity does not post -/

theorem congr (h : Dispatched s) (hbusy : t.bleIsBusy = s.bleIsBusy) (hp : t.posted = s.posted)
    (haction : t.bleActvAction = s.bleActvAction) (hscan : t.scanHasPendingOp = s.scanHasPendingOp)
    (hstop : t.scanHasPendingStopOp = s.scanHasPendingStopOp)
    (hlist : t.pendingSetWhiteList = s.pendingSetWhiteList) : Dispatched t := by
  constructor
  · rw [hbusy, hp, haction, hscan, hstop, hlist]
    exact h.free
  · rw [hp, haction]
    exact h.one

theorem appmKickOffScanning (h : Dispatched s) : Dispatched s.appmKickOffScanning :=
  h.congr rfl rfl rfl rfl rfl rfl

theorem appmStopScanning (h : Dispatched s) : Dispatched (s.appmStopScanning connectionMax) := by
  unfold BleMode.appmStopScanning
  split
  · exact h.congr rfl rfl rfl rfl rfl rfl
  · exact h
  · exact h
  · exact h.executePendingOp (by decide)

theorem appmStartScanning (h : Dispatched s) (p : ScanParam) :
    Dispatched (s.appmStartScanning connectionMax p) := by
  unfold BleMode.appmStartScanning
  split
  · exact h.congr rfl rfl rfl rfl rfl rfl
  · split
    · apply appmStopScanning
      · exact h.congr rfl rfl rfl rfl rfl rfl
    · apply appmKickOffScanning
      · exact h.congr rfl rfl rfl rfl rfl rfl

theorem appmActvFsmNext (h : Dispatched s) : Dispatched (s.appmActvFsmNext connectionMax ok) := by
  unfold BleMode.appmActvFsmNext
  split
  · exact h.appmKickOffScanning
  · apply executePendingOp
    · split <;> exact h.congr rfl rfl rfl rfl rfl rfl
    · decide
  · exact h.congr rfl rfl rfl rfl rfl rfl
  · split
    · apply appmStartScanning
      · exact h.congr rfl rfl rfl rfl rfl rfl
    · apply executePendingOp
      · exact h.congr rfl rfl rfl rfl rfl rfl
      · decide
  · exact h

theorem gapmComplete (h : Dispatched s) : Dispatched (s.gapmComplete connectionMax ok) := by
  unfold BleMode.gapmComplete
  split
  · exact h
  · rename_i cmd cmds _
    apply appmActvFsmNext
    cases cmd <;> exact h.congr rfl rfl rfl rfl rfl rfl

/-- An operation begins when nothing else is posted. -/
theorem setActvAction (hp : s.posted = []) (hbusy : s.bleIsBusy = true) :
    Dispatched (s.setActvAction a i) :=
  of_busy hbusy (.inl hp)

/-- A posted function runs. -/
theorem call {adv : AdvWork} (ht : s.call connectionMax adv f = some t) (hp : s.posted = [])
    (hidle : s.bleActvAction = .idle) (hbusy : s.bleIsBusy = true) : Dispatched t := by
  cases f with
  | startConnect =>
    simp only [BleMode.call, Option.map_eq_some_iff] at ht
    obtain ⟨index, -, rfl⟩ := ht
    exact setActvAction hp hbusy
  | startScan =>
    obtain rfl := Option.some.inj ht
    unfold BleMode.bleStartScan
    split
    · exact executePendingOp_idle hp hidle hbusy
    · apply appmStartScanning
      exact setActvAction hp hbusy
  | stopScanning =>
    obtain rfl := Option.some.inj ht
    apply appmStopScanning
    exact setActvAction hp hbusy
  | startAdv =>
    cases adv with
    | nothing =>
      obtain rfl := Option.some.inj ht
      exact executePendingOp_idle hp hidle hbusy
    | start | stop =>
      obtain rfl := Option.some.inj ht
      exact setActvAction hp hbusy
  | stopConnecting | disconnect | setAllWhiteList | addReslovingList =>
    obtain rfl := Option.some.inj ht
    exact setActvAction hp hbusy

/-- An event keeps to one operation. -/
theorem step (h : Dispatched s) (ht : bleStep connectionMax s e = some t) : Dispatched t := by
  cases e with
  | startScan | stopScan | startConnect =>
    obtain rfl := Option.some.inj ht
    refine request ?_ rfl rfl rfl
    exact h.congr rfl rfl rfl rfl rfl rfl
  | setWhiteList | clearWhiteList | clearAllWhiteList =>
    obtain rfl := Option.some.inj ht
    refine request ?_ rfl rfl rfl
    exact h.congr rfl rfl rfl rfl rfl rfl
  | addReslovingList | cancelConnecting | startDisconnect | refreshAdv =>
    obtain rfl := Option.some.inj ht
    exact h.request rfl rfl rfl
  | run adv =>
    rw [bleStep] at ht
    split at ht
    · cases ht
    · rename_i f fs hp
      obtain ⟨rfl, hidle, hbusy⟩ := h.of_posted hp
      exact call ht rfl hidle hbusy
  | finish a i =>
    rw [bleStep] at ht
    split at ht
    · cases ht
    · rename_i hother
      obtain rfl := Option.some.inj ht
      exact h.executePendingOp fun hidle => hother (.inl hidle)
  | advStartingFailed i =>
    rw [bleStep] at ht
    split at ht
    · rename_i haction
      obtain rfl := Option.some.inj ht
      have hbusy := h.busy_of_action (by rw [haction]; exact ActvAction.noConfusion)
      exact setActvAction hbusy.2 hbusy.1
    · cases ht
  | appmSetWhiteList =>
    rw [bleStep] at ht
    split at ht
    · obtain rfl := Option.some.inj ht
      split
      · exact h.appmStopScanning
      · exact h
    · cases ht
  | gapmComplete ok =>
    obtain rfl := Option.some.inj ht
    exact h.gapmComplete

end Dispatched

end EarbudFirmware.Ble
