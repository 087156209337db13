import EarbudFirmware.Lib.NorMemory
import Mathlib.Logic.Function.Basic

/-!
# Flash service: data model

The data of `norflash_api.cpp` in the build with `FLASH_API_NORMAL` or `FLASH_API_HIGHPERFORMANCE`
and without `FLASH_REMAP`. Addresses and lengths are natural numbers; the places where a `uint32_t`
sum can wrap reduce it explicitly. A flash cell is indexed by its offset on the device, that is by
the address masked with `HAL_NORFLASH_ADDR_MASK`.

## Main definitions

* `OperaInfo` — a queued operation (`OPRA_INFO`)
* `ModuleInfo` — a registered module with its queue (`MODULE_INFO`)
* `Pools` — the `is_used` flags of the node and buffer pools of one device
* `FlashApi` — `norflash_api_info`, the pools, and the flash devices
-/

namespace EarbudFirmware.Norflash

open NorMemory (Content Op)

/-- `HAL_NORFLASH_ADDR_MASK + 1`. -/
def addrSpan : Nat := 0x4000000

/-- `addr & HAL_NORFLASH_ADDR_MASK`. -/
def physAddr (addr : Nat) : Nat := addr % addrSpan

theorem addrSpan_pos : 0 < addrSpan := by decide

theorem addrSpan_lt : addrSpan < 2 ^ 31 := by decide

inductive FlashId where
  | id0 | id1
  deriving DecidableEq

inductive ModuleId where
  | logDump | userdata | bootupInfo | ota | upgradeLog | crashDump | coredump | ramdump
  | factory | hotwordModel | interactionOta | gmaOta | audio | prompt | anc | test1 | test2
  deriving DecidableEq

namespace ModuleId

/-- The identifiers in the order of their numbers. -/
def all : List ModuleId :=
  [logDump, userdata, bootupInfo, ota, upgradeLog, crashDump, coredump, ramdump, factory,
    hotwordModel, interactionOta, gmaOta, audio, prompt, anc, test1, test2]

/-- `NORFLASH_API_MODULE_ID_COUNT`. -/
def count : Nat := all.length

/-- The number of an identifier. -/
def toNat (m : ModuleId) : Nat := all.idxOf m

theorem mem_all (m : ModuleId) : m ∈ all := by cases m <;> decide

theorem nodup_all : all.Nodup := by decide

end ModuleId

/-- `NORFLASH_API_RET_T`, as far as the modelled functions return it. -/
inductive ApiRet where
  | ok | bufferFull | badAddr | badLen | badBuffLen | errUninit | err
  deriving DecidableEq

inductive ApiState where
  | uninited | idle | writting | writtingSuspend | writtingResume
  | erase | eraseSuspend | eraseResume
  deriving DecidableEq

/-- A sector buffer: its index in the buffer pool and its content. -/
structure SectorBuffer where
  slot : Nat
  bytes : Nat → UInt8

/-- The type of a queued operation with the fields that only this type uses. In an erase node
`w_offs` and `w_len` are zero and `buff` is null. -/
inductive Opera where
  | writting (wOffs wLen : Nat) (buff : SectorBuffer)
  | erasing

/-- A queued operation. `slot` is the index in the node pool, the identity of the node. -/
structure OperaInfo where
  slot : Nat
  addr : Nat
  len : Nat
  lock : Bool
  opera : Opera

namespace OperaInfo

def isErasing (n : OperaInfo) : Bool :=
  match n.opera with
  | .writting .. => false
  | .erasing => true

/-- The entry of the node pool that the node occupies. -/
def nodeSlot (n : OperaInfo) : Option Nat := some n.slot

/-- The entry of the buffer pool that the node's buffer occupies. -/
def buffSlot (n : OperaInfo) : Option Nat :=
  match n.opera with
  | .writting _ _ buff => some buff.slot
  | .erasing => none

/-- The operation that the HAL is asked for, in unmasked addresses. -/
def op (n : OperaInfo) : Op :=
  match n.opera with
  | .writting wOffs wLen buff => .program (n.addr + wOffs) wLen fun i => buff.bytes (wOffs + i)
  | .erasing => .erase n.addr n.len

/-- The operation on the cells of the device. -/
def physOp (n : OperaInfo) : Op :=
  match n.opera with
  | .writting wOffs wLen buff =>
    .program (physAddr (n.addr + wOffs)) wLen fun i => buff.bytes (wOffs + i)
  | .erasing => .erase (physAddr n.addr) n.len

end OperaInfo

/-- `MODULE_INFO`. The list `operaInfo` starts with the newest node; `curOperaInfo` points to a
node by its slot. -/
structure ModuleInfo where
  isRegistered : Bool
  devId : FlashId
  modBaseAddr : Nat
  modLen : Nat
  modBlockLen : Nat
  modSectorLen : Nat
  modPageLen : Nat
  buffLen : Nat
  /-- `cb_func` is not null. -/
  cbFunc : Bool
  operaInfo : List OperaInfo
  curOperaInfo : Option Nat
  state : ApiState

/-- The `is_used` flags of `_sys_opera_list` and `_sys_buffer_list` (of `_data_opera_list` and
`_data_buffer_list` for the second device). -/
structure Pools where
  operaList : List Bool
  bufferList : List Bool

/-- The board: what `hal_norflash_get_size` reports for a device, whether operations are issued
with suspension (`FLASH_SUSPEND`), and the number of sector buffers of a device. -/
structure Platform where
  totalSize : FlashId → Nat
  sectorSize : FlashId → Nat
  flashSuspend : Bool
  bufferNum : FlashId → Nat

/-- `norflash_api_info` with the static data around it, the cells of the flash devices, and the
HAL's `suspend_state` of each device (`true` while an operation is suspended). The array
`allowed_cb` has one entry, for `NORFLASH_API_USER_CP`. -/
structure FlashApi where
  isInited : Bool
  modInfo : ModuleId → ModuleInfo
  curModId : Nat
  curMod : Option ModuleId
  allowedCb : Bool
  pools : FlashId → Pools
  suspendNumber : Nat
  flash : FlashId → Content
  suspendState : FlashId → Bool

namespace FlashApi

variable (s : FlashApi)

def setModule (m : ModuleId) (mi : ModuleInfo) : FlashApi :=
  { s with modInfo := Function.update s.modInfo m mi }

def setPools (d : FlashId) (p : Pools) : FlashApi :=
  { s with pools := Function.update s.pools d p }

def setFlash (d : FlashId) (f : Content) : FlashApi :=
  { s with flash := Function.update s.flash d f }

def setSuspendState (d : FlashId) (b : Bool) : FlashApi :=
  { s with suspendState := Function.update s.suspendState d b }

end FlashApi

/-- A pool entry is taken: `_norflash_api_malloc` returns the first unused one. -/
def allocSlot (used : List Bool) : Option (Nat × List Bool) :=
  match used.findIdx? (· == false) with
  | some i => some (i, used.set i true)
  | none => none

/-- A pool entry is given back. -/
def freeSlot (used : List Bool) (i : Nat) : List Bool := used.set i false

namespace Pools

/-- Frees a node, and its buffer if it has one. -/
def freeNode (p : Pools) (n : OperaInfo) : Pools where
  operaList := freeSlot p.operaList n.slot
  bufferList :=
    match n.buffSlot with
    | some b => freeSlot p.bufferList b
    | none => p.bufferList

end Pools

/-- `norflash_api_init`: no module is registered, no node and no buffer is used. The build has
three nodes for each sector buffer and three more. -/
def init (pf : Platform) (flash : FlashId → Content) : FlashApi where
  isInited := true
  modInfo := fun _ =>
    { isRegistered := false, devId := .id0, modBaseAddr := 0, modLen := 0, modBlockLen := 0,
      modSectorLen := 0, modPageLen := 0, buffLen := 0, cbFunc := false, operaInfo := [],
      curOperaInfo := none, state := .uninited }
  curModId := ModuleId.count
  curMod := none
  allowedCb := false
  pools := fun d =>
    { operaList := List.replicate ((pf.bufferNum d + 1) * 3) false
      bufferList := List.replicate (pf.bufferNum d) false }
  suspendNumber := 0
  flash := flash
  suspendState := fun _ => false

end EarbudFirmware.Norflash
