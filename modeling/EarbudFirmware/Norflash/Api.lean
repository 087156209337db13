import EarbudFirmware.Norflash.Queue

/-!
# Flash service: flushing and the interface

`_opera_flush` executes the oldest operation of a module, one HAL call at a time. The answers of the
HAL and of the flush-allowed callback are arguments. A function returns `none` when an assertion
fails, or when it asks for an answer that the arguments do not hold (a synchronous call that is
still polling the callback).

## Main definitions

* `operaFlush`, `norflashApiFlush` — one flush step of a module, of the service
* `syncDrain` — what a synchronous call does before it calls the HAL
* `norflashApiRead`, `norflashApiErase`, `norflashApiWrite`, `norflashApiRegister`
* `Event`, `step` — the service as a transition system
-/

namespace EarbudFirmware.Norflash

open NorMemory (Content Op)

/-! ### The HAL -/

/-- What the HAL reports for an operation it executes. A suspended operation leaves the device with
the content `cells`. -/
inductive HalAnswer where
  | ok
  | suspended (cells : Content)

/-- `HAL_NORFLASH_RET_T`, as far as the modelled calls return it. -/
inductive HalRet where
  | ok | suspended | badOp | badAddr | badLen
  deriving DecidableEq

/-- The HAL works on an operation until it is complete or suspended. -/
def halRun (s : FlashApi) (d : FlashId) (op : Op) (suspend : Bool) (ans : HalAnswer) :
    Option (FlashApi × HalRet) :=
  match ans with
  | .ok => some ((s.setFlash d (op.apply (s.flash d))).setSuspendState d false, .ok)
  | .suspended cells =>
    if suspend then some ((s.setFlash d cells).setSuspendState d true, .suspended) else none

/-- `hal_norflash_write_suspend` and `hal_norflash_erase_suspend`. -/
def halIssue (pf : Platform) (s : FlashApi) (d : FlashId) (op : Op) (addr len : Nat)
    (suspend : Bool) (ans : HalAnswer) : Option (FlashApi × HalRet) :=
  if s.suspendState d then some (s, .badOp)
  else if pf.totalSize d ≤ physAddr addr then some (s, .badAddr)
  else if len > pf.totalSize d - physAddr addr then some (s, .badLen)
  else halRun s d op suspend ans

/-- `hal_norflash_write_resume` and `hal_norflash_erase_resume`. -/
def halResume (s : FlashApi) (d : FlashId) (op : Op) (suspend : Bool) (ans : HalAnswer) :
    Option (FlashApi × HalRet) :=
  if s.suspendState d then halRun s d op suspend ans else some (s, .badOp)

/-! ### Flushing -/

inductive OperationType where
  | writting | erasing
  deriving DecidableEq

/-- `NORFLASH_API_OPERA_RESULT`, the argument of a module's callback. -/
structure OperaResult where
  type : OperationType
  addr : Nat
  len : Nat
  remainNum : Nat
  result : ApiRet
  suspendNum : Nat

/-- `_get_tail`, stored in `cur_opera_info`. -/
def ModuleInfo.getTail (mi : ModuleInfo) : ModuleInfo :=
  { mi with
    operaInfo := lockTail mi.operaInfo
    curOperaInfo := mi.operaInfo.getLast?.map (·.slot) }

/-- The state of a module whose operation `n` is suspended. -/
def OperaInfo.suspendedState (n : OperaInfo) : ApiState :=
  match n.opera with
  | .writting .. => .writtingSuspend
  | .erasing => .eraseSuspend

/-- The HAL call that `_opera_flush` makes for the node `n`. -/
def flushCall (pf : Platform) (s : FlashApi) (m : ModuleId) (n : OperaInfo) (suspend : Bool)
    (ans : HalAnswer) : Option (FlashApi × HalRet) :=
  let mi := s.modInfo m
  match mi.state with
  | .idle =>
    let s := { s with suspendNumber := 0 }
    match n.opera with
    | .writting wOffs wLen _ =>
      if wLen > 0 then halIssue pf s mi.devId n.physOp (n.addr + wOffs) wLen suspend ans
      else some (s, .ok)
    | .erasing => halIssue pf s mi.devId n.physOp n.addr n.len suspend ans
  | st =>
    if st = n.suspendedState then
      halResume { s with suspendNumber := s.suspendNumber + 1 } mi.devId n.physOp suspend ans
    else none

/-- What the callback of the module is told about the completed node `n`. -/
def operaResult (s : FlashApi) (mi : ModuleInfo) (n : OperaInfo) (nosuspend : Bool) :
    Option OperaResult :=
  if nosuspend || !mi.cbFunc then none
  else match n.opera with
    | .writting wOffs wLen _ =>
      if wLen > 0 then
        some { type := .writting, addr := n.addr + wOffs, len := wLen,
               remainNum := mi.operaInfo.length - 1, result := .ok, suspendNum := s.suspendNumber }
      else none
    | .erasing =>
      if n.len > 0 then
        some { type := .erasing, addr := n.addr, len := n.len,
               remainNum := mi.operaInfo.length - 1, result := .ok, suspendNum := s.suspendNumber }
      else none

/-- `_opera_flush`, once `cur_opera_info` has been chosen. -/
def flushCur (pf : Platform) (s : FlashApi) (m : ModuleId) (nosuspend : Bool) (ans : HalAnswer) :
    Option (FlashApi × Bool × Option OperaResult) :=
  let suspend := if nosuspend then false else pf.flashSuspend
  match (s.modInfo m).curOperaInfo with
  | none => some (s, false, none)
  | some slot =>
    match operaDel (s.modInfo m).operaInfo slot with
    | none => none
    | some (rest, n) =>
      match flushCall pf s m n suspend ans with
      | some (s, .ok) =>
        let mi := s.modInfo m
        let s' := s.setModule m
          { mi with state := .idle, operaInfo := rest, curOperaInfo := none }
        some (s'.setPools mi.devId ((s.pools mi.devId).freeNode n), true,
          operaResult s mi n nosuspend)
      | some (s, .suspended) =>
        some (s.setModule m { s.modInfo m with state := n.suspendedState }, true, none)
      | _ => none

/-- `_opera_flush`, with the argument of the module's callback when it is called. -/
def operaFlush (pf : Platform) (s : FlashApi) (m : ModuleId) (nosuspend : Bool) (ans : HalAnswer) :
    Option (FlashApi × Bool × Option OperaResult) :=
  let s :=
    if (s.modInfo m).curOperaInfo = none then s.setModule m (s.modInfo m).getTail else s
  flushCur pf s m nosuspend ans

/-- `_flush_is_allowed`: a callback that agrees is removed. The list holds the answers that the
callback is still going to give. -/
def flushIsAllowed (s : FlashApi) (polls : List Bool) : Option (Bool × FlashApi × List Bool) :=
  if s.allowedCb then
    match polls with
    | [] => none
    | true :: polls => some (true, { s with allowedCb := false }, polls)
    | false :: polls => some (false, s, polls)
  else some (true, s, polls)

/-- The module numbers in the order in which `_get_cur_mod` looks at them. -/
def scanOrder : Nat → Nat → List Nat
  | 0, _ => []
  | k + 1, i =>
    let i' := if i + 1 ≥ ModuleId.count then 0 else i + 1
    i' :: scanOrder k i'

/-- `_get_cur_mod`. -/
def getCurMod (s : FlashApi) : Option ModuleId :=
  match s.curMod with
  | some m => some m
  | none =>
    ((scanOrder ModuleId.count s.curModId).filterMap (ModuleId.all[·]?)).find? fun m =>
      (s.modInfo m).isRegistered && (s.modInfo m).operaInfo.length > 0

/-- `_norflash_api_flush`; the result is `true` while operations are pending. -/
def norflashApiFlush (pf : Platform) (s : FlashApi) (polls : List Bool) (ans : HalAnswer) :
    Option (FlashApi × Bool) :=
  if !s.isInited then some (s, false)
  else match flushIsAllowed s polls with
    | none => none
    | some (false, s, _) => some (s, false)
    | some (true, s, _) =>
      match getCurMod s with
      | none => some (s, false)
      | some m =>
        match operaFlush pf { s with curModId := m.toNat, curMod := some m } m false ans with
        | none => none
        | some (s, more, _) =>
          let s := if more then s else { s with curMod := none }
          some (s, (getCurMod s).isSome)

/-! ### Synchronous calls -/

/-- The loop that completes the suspended operation of the current module `c`. `bresult` is the
local variable of the caller. -/
def drainCurMod (pf : Platform) (c : ModuleId) :
    Nat → FlashApi → List Bool → Bool → Option (FlashApi × List Bool × Bool)
  | 0, _, _, _ => none
  | fuel + 1, s, polls, bresult =>
    if (s.modInfo c).state = .idle then some (s, polls, bresult)
    else match flushIsAllowed s polls with
      | none => none
      | some (false, s, polls) => drainCurMod pf c fuel s polls bresult
      | some (true, s, polls) =>
        match operaFlush pf s c true .ok with
        | none => none
        | some (s, bresult, _) =>
          drainCurMod pf c fuel (if bresult then s else { s with curMod := none }) polls bresult

/-- The loop that flushes the queue of the module `m`. When the callback refuses, `continue` goes
on to the loop condition, which is the `bresult` of an earlier flush. -/
def drainModule (pf : Platform) (m : ModuleId) :
    Nat → FlashApi → List Bool → Bool → Option FlashApi
  | 0, _, _, _ => none
  | fuel + 1, s, polls, bresult =>
    match flushIsAllowed s polls with
    | none => none
    | some (false, s, polls) =>
      if bresult then drainModule pf m fuel s polls bresult else some s
    | some (true, s, polls) =>
      match operaFlush pf s m true .ok with
      | none => none
      | some (s, bresult, _) => if bresult then drainModule pf m fuel s polls bresult else some s

/-- What a synchronous call on `m` does before it calls the HAL: a bound on the number of rounds of
the loops is the number of polls and of queued operations. -/
def syncDrain (pf : Platform) (s : FlashApi) (m : ModuleId) (polls : List Bool) :
    Option FlashApi :=
  let fuel := polls.length + (s.modInfo m).operaInfo.length + 2
  match s.curMod with
  | some c =>
    if m = c then drainModule pf m fuel s polls false
    else match drainCurMod pf c fuel s polls false with
      | none => none
      | some (s, polls, bresult) => drainModule pf m fuel s polls bresult
  | none => drainModule pf m fuel s polls false

/-- The return value of a synchronous call. -/
def HalRet.toApiRet : HalRet → ApiRet
  | .ok => .ok
  | .badAddr => .badAddr
  | .badLen => .badLen
  | .suspended => .err
  | .badOp => .err

/-! ### The interface -/

/-- `ADDR_IS_VALIDE`, in 32-bit arithmetic. -/
def addrIsValide (modBaseAddr modLen startAddr len : Nat) : Bool :=
  physAddr startAddr ≥ physAddr modBaseAddr &&
    (physAddr startAddr + len) % 2 ^ 32 ≤ (physAddr modBaseAddr + modLen) % 2 ^ 32

/-- `IN_ONE_SECTOR`, in 32-bit arithmetic. -/
def inOneSector (addr len secSize : Nat) : Bool :=
  physAddr addr / secSize == ((physAddr addr + len - 1) % 2 ^ 32) / secSize

/-- The checks of `norflash_api_read` and `norflash_api_write`. -/
def checkAccess (pf : Platform) (s : FlashApi) (mi : ModuleInfo) (addr len : Nat) :
    Except ApiRet Unit := do
  if !s.isInited then throw .errUninit
  if !mi.isRegistered then throw .errUninit
  if !addrIsValide mi.modBaseAddr mi.modLen addr len then throw .badAddr
  if len == 0 || !inOneSector addr len (pf.sectorSize mi.devId) then throw .badLen

/-- The checks of `norflash_api_erase`. -/
def checkErase (s : FlashApi) (mi : ModuleInfo) (addr len : Nat) : Except ApiRet Unit := do
  if !s.isInited then throw .errUninit
  if !mi.isRegistered then throw .errUninit
  if !addrIsValide mi.modBaseAddr mi.modLen addr len then throw .badAddr
  if addr / mi.modSectorLen * mi.modSectorLen != addr then throw .badAddr
  if len != mi.modSectorLen && len != mi.modBlockLen then throw .badLen

/-- `norflash_api_read`: the bytes copied to the caller's buffer. -/
def norflashApiRead (pf : Platform) (s : FlashApi) (m : ModuleId) (startAddr len : Nat) :
    Except ApiRet (Nat → UInt8) := do
  let mi := s.modInfo m
  checkAccess pf s mi startAddr len
  return operaRead (s.flash mi.devId) mi.operaInfo mi.modSectorLen startAddr

/-- `norflash_api_erase`. -/
def norflashApiErase (pf : Platform) (s : FlashApi) (m : ModuleId) (startAddr len : Nat)
    (async : Bool) (polls : List Bool) : Option (FlashApi × ApiRet) :=
  let mi := s.modInfo m
  match checkErase s mi startAddr len with
  | .error e => some (s, e)
  | .ok () =>
    if async then
      let (p, q, ok) := eOperaAdd (s.pools mi.devId) mi.operaInfo startAddr len
      some ((s.setPools mi.devId p).setModule m { mi with operaInfo := q },
        if ok then .ok else .bufferFull)
    else do
      let s ← syncDrain pf s m polls
      let (s, result) ←
        halIssue pf s mi.devId (.erase (physAddr startAddr) len) startAddr len false .ok
      return (s, result.toApiRet)

/-- `norflash_api_write`. -/
def norflashApiWrite (pf : Platform) (s : FlashApi) (m : ModuleId) (startAddr : Nat)
    (buffer : Nat → UInt8) (len : Nat) (async : Bool) (polls : List Bool) :
    Option (FlashApi × ApiRet) :=
  let mi := s.modInfo m
  match checkAccess pf s mi startAddr len with
  | .error e => some (s, e)
  | .ok () =>
    if async then do
      let (p, q, ok) ← wOperaAdd (pf.sectorSize mi.devId) (s.flash mi.devId) (s.pools mi.devId)
        mi.operaInfo mi.modSectorLen startAddr len buffer
      return ((s.setPools mi.devId p).setModule m { mi with operaInfo := q },
        if ok then .ok else .bufferFull)
    else do
      let s ← syncDrain pf s m polls
      let (s, result) ←
        halIssue pf s mi.devId (.program (physAddr startAddr) len buffer) startAddr len false .ok
      return (s, result.toApiRet)

/-- `norflash_api_register`. -/
def norflashApiRegister (s : FlashApi) (m : ModuleId) (devId : FlashId)
    (modBaseAddr modLen modBlockLen modSectorLen modPageLen bufferLen : Nat) (cbFunc : Bool) :
    FlashApi × ApiRet :=
  if !s.isInited then (s, .errUninit)
  else if bufferLen < modSectorLen || bufferLen / modSectorLen * modSectorLen != bufferLen then
    (s, .badBuffLen)
  else if (s.modInfo m).isRegistered then (s, .ok)
  else
    (s.setModule m
      { isRegistered := true, devId, modBaseAddr, modLen, modBlockLen, modSectorLen, modPageLen,
        buffLen := bufferLen, cbFunc, operaInfo := [], curOperaInfo := none, state := .idle }, .ok)

/-- `norflash_api_flush_disable`; `cb` tells whether the callback is not null. -/
def norflashApiFlushDisable (s : FlashApi) (cb : Bool) : FlashApi :=
  if !s.isInited then s else { s with allowedCb := cb }

/-- `norflash_api_flush_enable`. -/
def norflashApiFlushEnable (s : FlashApi) : FlashApi :=
  if !s.isInited then s else { s with allowedCb := false }

/-! ### The service as a transition system -/

/-- A call of the interface, with the answers its environment gives. -/
inductive Event where
  | register (m : ModuleId) (devId : FlashId)
      (modBaseAddr modLen modBlockLen modSectorLen modPageLen bufferLen : Nat) (cbFunc : Bool)
  | erase (m : ModuleId) (startAddr len : Nat) (async : Bool) (polls : List Bool)
  | write (m : ModuleId) (startAddr : Nat) (buffer : Nat → UInt8) (len : Nat) (async : Bool)
      (polls : List Bool)
  | flush (polls : List Bool) (ans : HalAnswer)
  | flushDisable (cb : Bool)
  | flushEnable

/-- Executes a call; the second component is its return value. -/
def call (pf : Platform) (s : FlashApi) : Event → Option (FlashApi × ApiRet)
  | .register m d base len block sector page bufferLen cb =>
    some (norflashApiRegister s m d base len block sector page bufferLen cb)
  | .erase m addr len async polls => norflashApiErase pf s m addr len async polls
  | .write m addr buffer len async polls => norflashApiWrite pf s m addr buffer len async polls
  | .flush polls ans => (norflashApiFlush pf s polls ans).map fun r => (r.1, .ok)
  | .flushDisable cb => some (norflashApiFlushDisable s cb, .ok)
  | .flushEnable => some (norflashApiFlushEnable s, .ok)

/-- The step function of the service. -/
def step (pf : Platform) (s : FlashApi) (e : Event) : Option FlashApi :=
  (call pf s e).map Prod.fst

/-! ### A board -/

/-- A board with 4 KiB sectors, suspension, and the pools of `FLASH_API_HIGHPERFORMANCE`. -/
def board : Platform where
  totalSize := fun _ => 0x800000
  sectorSize := fun _ => 0x1000
  flashSuspend := true
  bufferNum := fun _ => 4

/-- The registration of the user data area of the board. -/
def registerUserdata : Event :=
  .register .userdata .id0 0x3C700000 0x20000 0x8000 0x1000 0x100 0x2000 true

end EarbudFirmware.Norflash
