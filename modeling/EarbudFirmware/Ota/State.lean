import Mathlib.Logic.Function.Basic
import EarbudFirmware.Utils.Bytes
import EarbudFirmware.Utils.CQueue
import EarbudFirmware.Utils.Crc32

/-!
# The state of the OTA service

`ota_control.cpp` in the standalone build without combo image. Counters are `uint32_t`; they are
numbers here, with the wrap-around of an addition or a subtraction written out.

## Main definitions

* `Build` — what depends on the build
* `Env` — `ota_control_env` and the static variables beside it
* `OtaState` — the whole state: the environment, the data buffer, the flash modules and the queue
* `resetEnv` — `ota_control_reset_env`
-/

namespace EarbudFirmware.Ota

open NorMemory (Content overlay)

/-- `FLASH_SECTOR_SIZE_IN_BYTES`, also `OTA_DATA_BUFFER_SIZE_FOR_BURNING`. -/
def sectorSize : Nat := 4096

/-- `MIN_SEG_ALIGN`. -/
def minSegAlign : Nat := 256

/-- `BES_OTA_START_MAGIC_CODE`. -/
def magicCode : Nat := 0x54534542

/-- `NORMAL_BOOT`. -/
def normalBoot : Nat := 0xBE57EC1C

/-- `MAX_SET_VERIFY_RETRY`. -/
def maxSetVerifyRetry : Nat := 3

/-- Addition of `uint32_t`. -/
def add32 (a b : Nat) : Nat := (a + b) % 2 ^ 32

/-- Subtraction of `uint32_t`. -/
def sub32 (a b : Nat) : Nat := (a + 2 ^ 32 - b) % 2 ^ 32

/-! ### Users -/

/-- The flash modules of the users. -/
inductive FlashModule where
  | ota | bootupInfo | upgradeLog
  deriving DecidableEq

/-- `BES_OTA_USER_INVALID`. -/
def userInvalid : UInt8 := 0

/-- `BES_OTA_USER_FIRMWARE`. -/
def userFirmware : UInt8 := 1

/-- `BES_OTA_USER_LANGUAGE_PACKAGE`. -/
def userLanguagePackage : UInt8 := 2

/-- `BES_OTA_USER_BOOTUP_INFO`. -/
def userBootupInfo : UInt8 := 4

/-- `BES_OTA_USER_UPGRADE_LOG`. -/
def userUpgradeLog : UInt8 := 5

/-- `OTA_PACKET_STRUCTURE_LEGACY` and `OTA_PACKET_STRUCTURE_TLV`. -/
inductive PacketStructure where
  | legacy | tlv
  deriving DecidableEq

/-! ### Builds -/

/-- `ota_control_env` and the static variables beside it. -/
structure Env where
  dstFlashOffsetForNewImage : Nat
  offsetInDataBufferForBurning : Nat
  offsetInFlashToProgram : Nat
  totalImageSize : Nat
  alreadyReceivedDataSizeOfImage : Nat
  offsetInFlashOfCurrentSegment : Nat
  offsetOfImageOfCurrentSegment : Nat
  crc32OfImage : UInt32
  crc32OfSegment : UInt32
  isOTAInProgress : Bool
  isPendingForReboot : Bool
  configuration : Content
  alreadyReceivedConfigurationLength : Nat
  resumeAtBreakpoint : Bool
  breakPoint : Nat
  iLog : Nat
  packetStructureType : PacketStructure
  currentUser : UInt8
  isInBesOtaState : Bool
  segVerifyRetry : Nat
  permissionToApply : Bool

/-- What depends on the build: the flash layout, `MAX_IMAGE_SIZE`,
`BES_OTA_BT_DATA_PACKET_MAX_SIZE` and `PROMPT_IN_FLASH`. `overrun` is whatever happens when a
configuration longer than its buffer is copied over the variables behind it. -/
structure Build where
  length : FlashModule → Nat
  startAddr : FlashModule → Nat
  maxImageSize : Nat
  packetMaxSize : Nat
  promptInFlash : Bool
  overrun : Env → Content → Nat → Env
  maxImageSize_lt : maxImageSize < 2 ^ 31
  packetMaxSize_pos : 0 < packetMaxSize

/-- A build with small modules, for examples. -/
def Build.small : Build where
  length _ := 2 * sectorSize
  startAddr _ := 0
  maxImageSize := 2 * sectorSize
  packetMaxSize := 64
  promptInFlash := true
  overrun e _ _ := e
  maxImageSize_lt := by decide
  packetMaxSize_pos := by decide

/-- What `_get_user_flash_module` finds in the user table of `bes_ota_init_handler`. -/
def getUserFlashModule (b : Build) (user : UInt8) : Option FlashModule :=
  if user = userFirmware then some .ota
  else if user = userBootupInfo then some .bootupInfo
  else if user = userUpgradeLog then some .upgradeLog
  else if user = userLanguagePackage ∧ b.promptInFlash then some .ota
  else none

/-! ### The state -/

/-- The data buffer and the content of the flash modules, with the queued operations executed. -/
structure Mem where
  dataBufferForBurning : Content
  flash : FlashModule → Content

/-- The OTA service. -/
structure OtaState where
  env : Env
  mem : Mem
  otaCmdQueue : CQueue
  extractedOtaRequestBuf : Content
  isOnceInitOtaCmdQueue : Bool
  stopReceive : Bool

/-- The static variables after a start. -/
def Env.initial : Env where
  dstFlashOffsetForNewImage := 0
  offsetInDataBufferForBurning := 0
  offsetInFlashToProgram := 0
  totalImageSize := 0
  alreadyReceivedDataSizeOfImage := 0
  offsetInFlashOfCurrentSegment := 0
  offsetOfImageOfCurrentSegment := 0
  crc32OfImage := 0
  crc32OfSegment := 0
  isOTAInProgress := false
  isPendingForReboot := false
  configuration := fun _ => 0
  alreadyReceivedConfigurationLength := 0
  resumeAtBreakpoint := false
  breakPoint := 0
  iLog := 0
  packetStructureType := .legacy
  currentUser := userInvalid
  isInBesOtaState := false
  segVerifyRetry := maxSetVerifyRetry
  permissionToApply := false

/-- The state after a start. -/
def OtaState.initial (flash : FlashModule → Content) : OtaState where
  env := .initial
  mem := ⟨fun _ => 0, flash⟩
  otaCmdQueue := .initCQueue 0 fun _ => 0
  extractedOtaRequestBuf := fun _ => 0
  isOnceInitOtaCmdQueue := false
  stopReceive := false

/-- `InitCQueue(&otaCmdQueue, …)`. -/
def OtaState.initOtaCmdQueue (b : Build) (s : OtaState) : OtaState :=
  { s with otaCmdQueue := .initCQueue (2 * b.packetMaxSize) s.otaCmdQueue.base }

/-- The configuration after a reset: `lengthOfFollowingData` is zero and of the flags in byte 8
only `isToClearUserData` is set. -/
def resetConfiguration (c : Content) : Content := fun i =>
  if i < 4 then 0 else if i = 8 then c i &&& 0xE0 ||| 1 else c i

/-- The part of `ota_control_reset_env` that is about variables. -/
def Env.reset (e : Env) (resetUser : Bool) : Env :=
  { e with
    configuration := resetConfiguration e.configuration
    alreadyReceivedConfigurationLength := 0
    crc32OfSegment := 0
    crc32OfImage := 0
    offsetInDataBufferForBurning := 0
    alreadyReceivedDataSizeOfImage := 0
    offsetOfImageOfCurrentSegment := 0
    isOTAInProgress := false
    isPendingForReboot := false
    breakPoint := if e.resumeAtBreakpoint then e.breakPoint else 0
    iLog := if e.resumeAtBreakpoint then e.iLog else 2 ^ 32 - 1
    packetStructureType := if resetUser then .legacy else e.packetStructureType
    currentUser := if resetUser then userInvalid else e.currentUser }

/-- `ota_control_reset_env`. -/
def resetEnv (b : Build) (s : OtaState) (resetUser : Bool) : OtaState :=
  { s.initOtaCmdQueue b with env := s.env.reset resetUser }

/-- `Bes_exit_ota_state`. -/
def exitOtaState (b : Build) (s : OtaState) : OtaState :=
  if s.env.isInBesOtaState then
    let s := resetEnv b s true
    { s with env := { s.env with isInBesOtaState := false } }
  else s

/-- The user of a transmission is the firmware user when none has been set. -/
def Env.user (e : Env) : UInt8 :=
  if e.currentUser = userInvalid then userFirmware else e.currentUser

/-- `_init_flash_offset`. -/
def initFlashOffset (b : Build) (e : Env) : Env :=
  let e := { e with currentUser := e.user }
  match getUserFlashModule b e.currentUser with
  | some x =>
    { e with
      offsetInFlashToProgram := 0
      offsetInFlashOfCurrentSegment := 0
      dstFlashOffsetForNewImage := b.startAddr x % 2 ^ 24 }
  | none => e

/-! ### Packets -/

/-- The packet types that `_handle_received_data` handles in this build. -/
inductive PacketType where
  | data | segmentVerify | start | resumeVerify | configOta | getOtaResult | readFlashContent
  | getVersion | sideSelection | imageApply | getOtaVersion | setUser | other
  deriving DecidableEq

/-- `OTA_CONTROL_PACKET_TYPE_E`. -/
def packetType (t : UInt8) : PacketType :=
  if t = 0x85 then .data
  else if t = 0x82 then .segmentVerify
  else if t = 0x80 then .start
  else if t = 0x8C then .resumeVerify
  else if t = 0x86 then .configOta
  else if t = 0x88 then .getOtaResult
  else if t = 0x89 then .readFlashContent
  else if t = 0x8E then .getVersion
  else if t = 0x90 then .sideSelection
  else if t = 0x92 then .imageApply
  else if t = 0x99 then .getOtaVersion
  else if t = 0x97 then .setUser
  else .other

/-- A packet as the handler sees it: the type byte, the memory behind it, and the number of payload
bytes. A handler may read fields behind the end of the payload. -/
structure Packet where
  type : UInt8
  payload : Content
  length : Nat

/-- A packet with the given payload. -/
def Packet.ofBytes (type : UInt8) (bytes : List UInt8) : Packet :=
  ⟨type, fun i => bytes.getD i 0, bytes.length⟩

/-- A 32-bit field of a packet. -/
def Packet.field (p : Packet) (a : Nat) : Nat := le p.payload a 4

/-- `payload.cmdOtaStart`, `cmdSegmentVerify`, `cmdResumeBreakpoint` and `cmdApply` all start with
the magic code. -/
def Packet.HasMagicCode (p : Packet) : Prop := p.field 0 = magicCode

instance (p : Packet) : Decidable p.HasMagicCode := inferInstanceAs (Decidable (_ = _))

/-- What a handler reads from elsewhere: the upgrade log through its memory-mapped address, before
and after it is destroyed, and the random code for a new transmission. -/
structure Reads where
  log : Content
  logDestroyed : Content
  randomCode : Content

/-- The upgrade log is empty. -/
def Reads.empty : Reads := ⟨fun _ => 0xFF, fun _ => 0xFF, fun _ => 0⟩

/-- What a handler does besides changing the state: responses to the phone, the verdict of the
image check, and the boot information that `app_update_ota_boot_info` stores. -/
inductive Output where
  | startResponse
  | resultResponse (result : Nat)
  | segmentVerificationResponse (isPass : Bool)
  | resumeResponse (breakPoint : Nat)
  | configurationResponse (isDone : Bool)
  | imageApplyResponse (success : Bool)
  | setUserResponse
  | otaVersionResponse
  | versionResponse
  | sideSelectionResponse
  | readFlashContentResponse
  | imageVerified (imageSize : Nat) (imageCrc : UInt32)
  | bootInfo (imageSize : Nat) (imageCrc : UInt32) (newImageFlashOffset : Nat)
  | reset
  deriving DecidableEq

end EarbudFirmware.Ota
