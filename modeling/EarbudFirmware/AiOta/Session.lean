import EarbudFirmware.Lib.Transition

/-!
# A download session and its record

The assistants download an image through one environment: a BEGIN command sets it up, data is
collected in a cache of one sector and programmed sector by sector, and an APPLY or an ABORT
command resets it. For each device a record in the user data says which image is being downloaded
and how far it has come, so that a download can be resumed after the session, or the power, is
lost.

The flash of a device is what was programmed last at each offset since its sector was erased. A
byte of an image is its image and its number.

## Main definitions

* `OtaEnv`, `NvOtaInfo`, `Download` — the environment, the record, and both with the flash
* `flushDataToFlash`, `copyData` — the way from the received data to the flash
* `nvRecordOtaUpdateInfo`, `nvRecordOtaUpdateBreakpoint` — the updates of the record
* `Download.commandReceived`, `Download.fwDataWrite` — a command and a chunk of data
* `otaStep` — one event
-/

namespace EarbudFirmware.AiOta

/-- A version string, up to its terminating zero. -/
abbrev Version := List UInt8

/-- `FLASH_SECTOR_SIZE_IN_BYTES`, which is `OTA_DATA_CACHE_BUFFER_SIZE` as well. -/
def sectorSize : Nat := 4096

/-- `OTA_BREAKPOINT_STORE_GRANULARITY`. -/
def breakPointGranularity : Nat := 256 * 1024

/-- `INVALID_VERSION_STR`: the letters of `BESTECHNIC`. -/
def invalidVersionStr : Version := [66, 69, 83, 84, 69, 67, 72, 78, 73, 67]

/-- `OTA_STAGE_E`, without the stage that nothing sets. -/
inductive OtaStage where
  | idle | ongoing | done
  deriving DecidableEq

/-- `OTA_USER_E`; `OTA_USER_NUM` is `none`. -/
inductive OtaUser where
  | bes | colorful | orange | red | green | mi
  deriving DecidableEq

/-- `OTA_DEVICE_E`. -/
inductive OtaDevice where
  | app | hotword
  deriving DecidableEq

/-- `OTA_STATUS_E`. -/
inductive OtaStatus where
  | ok | error | errorRelayTimeout | errorChecksum | errorNotAllowed
  deriving DecidableEq

/-- An image, as a session names it. -/
structure Image where
  version : Version
  size : Nat
  deriving DecidableEq

/-- A programmed byte: byte `i` of an image, or a byte of `NORMAL_BOOT`. -/
inductive FlashByte where
  | image (m : Image) (i : Nat)
  | normalBoot
  deriving DecidableEq

/-- The flash of a device, by the offset in its module; `none` is erased. -/
abbrev Flash := Nat → Option FlashByte

/-- `OTA_BEGIN_PARAM_T`, without the path and what is meant for the custom handler. -/
structure BeginParam where
  user : OtaUser
  device : OtaDevice
  imageSize : Nat
  flashOffset : Nat
  startOffset : Nat
  version : Version
  imageSize_lt : imageSize < 0x100000000

/-- The image that a BEGIN command announces. -/
def BeginParam.image (p : BeginParam) : Image := ⟨p.version, p.imageSize⟩

/-- `OTA_COMMON_ENV_T`, as far as a session reads it. -/
structure OtaEnv where
  currentUser : Option OtaUser
  currentStage : OtaStage
  deviceId : OtaDevice
  sanityCheckEnable : Bool
  totalImageSize : Nat
  version : Version
  receivedDataSize : Nat
  breakPoint : Nat
  dataCacheBuffer : Nat → Option FlashByte
  dataCacheBufferOffset : Nat
  newImageFlashOffset : Nat
  newImageProgramOffset : Nat

/-- The image of the session. -/
def OtaEnv.image (e : OtaEnv) : Image := ⟨e.version, e.totalImageSize⟩

/-- What a BEGIN command sets in the environment. -/
def OtaEnv.openSession (e : OtaEnv) (p : BeginParam) : OtaEnv :=
  { e with
    totalImageSize := p.imageSize
    newImageProgramOffset := p.startOffset
    receivedDataSize := p.startOffset
    deviceId := p.device
    version := p.version
    newImageFlashOffset := p.flashOffset
    currentStage := .ongoing }

/-- `_reset_env`: all zero, and no user. -/
def resetEnv : OtaEnv :=
  ⟨none, .idle, .app, false, 0, [], 0, 0, fun _ => none, 0, 0, 0⟩

/-- `NV_OTA_INFO_T`. -/
structure NvOtaInfo where
  imageSize : Nat
  breakPoint : Nat
  version : Version
  otaStatus : OtaStage
  user : Option OtaUser
  deriving DecidableEq

/-! ### Programming -/

/-- `app_flash_program`. -/
def programFlash (f : Flash) (offset : Nat) (src : Nat → Option FlashByte) (n : Nat) : Flash :=
  fun x => if offset ≤ x ∧ x < offset + n then src (x - offset) else f x

/-- `app_flash_sector_erase`. -/
def eraseSector (f : Flash) (offset : Nat) : Flash :=
  fun x => if x / sectorSize = offset / sectorSize then none else f x

/-- The loop over the whole sectors from `sectorIndex` on: `n` sectors of `src`. -/
def programSectors (f : Flash) (sectorIndex : Nat) (src : Nat → Option FlashByte) : Nat → Flash
  | 0 => f
  | n + 1 =>
    let f := programSectors f sectorIndex src n
    let offset := (sectorIndex + n) * sectorSize
    programFlash (eraseSector f offset) offset (fun i => src (n * sectorSize + i)) sectorSize

/-- `_flush_data_to_flash`: bytes up to a sector boundary are programmed into their sector as it is,
the others into sectors that are erased before. -/
def flushDataToFlash (f : Flash) (src : Nat → Option FlashByte) (lengthToBurn offset : Nat) :
    Flash :=
  let toBoundary := (sectorSize - offset % sectorSize) % sectorSize
  let preBytes := if lengthToBurn < toBoundary then lengthToBurn else toBoundary
  let middleBytes :=
    if preBytes < lengthToBurn then (lengthToBurn - preBytes) / sectorSize * sectorSize else 0
  let postBytes :=
    if preBytes + middleBytes < lengthToBurn then (offset + lengthToBurn) % sectorSize else 0
  let f := if 0 < preBytes then programFlash f offset src preBytes else f
  let sectorIndex := (offset + preBytes) / sectorSize
  let sectorCnt := middleBytes / sectorSize
  let f := programSectors f sectorIndex (fun i => src (preBytes + i)) sectorCnt
  let last := (sectorIndex + sectorCnt) * sectorSize
  if 0 < postBytes then
    programFlash (eraseSector f last) last (fun i => src (preBytes + middleBytes + i)) postBytes
  else f

/-- One pass of the loop of `ota_common_fw_data_write`: what fits of the data goes to the cache, and
a full cache is flushed. The rest of the data is left for the next pass. -/
def copyPass (e : OtaEnv) (f : Flash) (data : List FlashByte) :
    (OtaEnv × Flash) × List FlashByte :=
  let bytesToCopy :=
    if sectorSize < e.dataCacheBufferOffset + data.length then
      sectorSize - e.dataCacheBufferOffset
    else data.length
  let cached : OtaEnv :=
    { e with
      dataCacheBuffer :=
        programFlash e.dataCacheBuffer e.dataCacheBufferOffset (data[·]?) bytesToCopy
      dataCacheBufferOffset := e.dataCacheBufferOffset + bytesToCopy }
  if cached.dataCacheBufferOffset = sectorSize then
    (({ cached with
        newImageProgramOffset := e.newImageProgramOffset + sectorSize
        dataCacheBufferOffset := 0 },
      flushDataToFlash f cached.dataCacheBuffer sectorSize
        (e.newImageProgramOffset + e.newImageFlashOffset)), data.drop bytesToCopy)
  else ((cached, f), data.drop bytesToCopy)

/-- The loop. A pass that leaves data has copied a byte, so that `fuel` passes are enough for as
many bytes. -/
def copyLoop : Nat → OtaEnv × Flash → List FlashByte → OtaEnv × Flash
  | 0, w, _ => w
  | fuel + 1, w, data =>
    let next := copyPass w.1 w.2 data
    if next.2 = [] then next.1 else copyLoop fuel next.1 next.2

/-- The data of one call goes to the cache and to the flash. -/
def copyData (w : OtaEnv × Flash) (data : List FlashByte) : OtaEnv × Flash :=
  copyLoop (data.length + 1) w data

/-- `_update_magic_number`: the first sector is read, changed and written back. -/
def updateMagicNumber (f : Flash) : Flash :=
  programFlash (eraseSector f 0) 0 (fun i => if i < 4 then some .normalBoot else f i) sectorSize

/-! ### The record -/

/-- `nv_record_ota_update_info`, where `ret` says whether the update is allowed; `none` is a failed
assertion. A version that is the one of the record is cleared. -/
def nvRecordOtaUpdateInfo (ret : Bool) (r : NvOtaInfo) (status : OtaStage) (totalImageSize : Nat)
    (session : Version) : Option NvOtaInfo :=
  if ret then
    let r := if r.version = session then { r with version := [] } else r
    let r := { r with otaStatus := status }
    match status with
    | .idle => some { r with breakPoint := 0 }
    | .ongoing => if totalImageSize = 0 then none else some { r with imageSize := totalImageSize }
    | .done =>
      if totalImageSize = r.imageSize then some { r with breakPoint := totalImageSize } else none
  else some r

/-- `nv_record_ota_update_breakpoint`. -/
def nvRecordOtaUpdateBreakpoint (r : NvOtaInfo) (user : Option OtaUser) (otaOffset : Nat) :
    Option NvOtaInfo :=
  if r.otaStatus = .ongoing then some { r with user := user, breakPoint := otaOffset } else none

/-- Whether `nv_record_ota_update_info` may update: only a hotword model of one user is refused, by
`insertAllowed`, the answer of `nv_record_gsound_rec_is_model_insert_allowed`. -/
def updateAllowed (user : Option OtaUser) (device : OtaDevice) (insertAllowed : Bool) : Bool :=
  if user = some .colorful ∧ device = .hotword then insertAllowed else true

/-! ### The environment with the records and the flash -/

/-- The environment, and the record and the flash of each device. -/
structure Download where
  env : OtaEnv
  nv : OtaDevice → NvOtaInfo
  flash : OtaDevice → Flash

/-- `OTA_COMMAND_E`; a BEGIN command with its parameters. -/
inductive OtaCommand where
  | begin (p : BeginParam)
  | data
  | apply
  | abort

/-- How the image that was received is found: the outcome of `_image_sanity_check` and of
`_compute_whole_image_crc`, and what reading the image leaves in the cache. -/
structure Verification where
  sanityOk : Bool
  crcOk : Bool
  buffer : Nat → Option FlashByte

namespace Download

variable (s : Download)

/-- The record of the device of the session. -/
def record : NvOtaInfo := s.nv s.env.deviceId

/-- The flash of the device of the session. -/
def deviceFlash : Flash := s.flash s.env.deviceId

/-- The record of the session's device is replaced. -/
def setRecord (r : NvOtaInfo) : Download := { s with nv := Function.update s.nv s.env.deviceId r }

/-- The flash of the session's device is replaced. -/
def setFlash (f : Flash) : Download :=
  { s with flash := Function.update s.flash s.env.deviceId f }

/-- `_update_ota_user` with a user. -/
def updateOtaUser (user : OtaUser) : Option Download :=
  if s.env.currentUser = none then some { s with env.currentUser := some user } else none

/-- The first part of `ota_common_command_received_handler`, for a BEGIN command. -/
def begin (p : BeginParam) : Option Download :=
  if s.env.currentStage ≠ .idle then none
  else do
    let s ← s.updateOtaUser p.user
    if p.startOffset % sectorSize ≠ 0 then none
    else some { s with env := s.env.openSession p }

/-- The update of the record that `ota_common_command_received_handler` makes when the custom
handler, if there is one, has answered with `OTA_STATUS_OK`. -/
def updateInfo (custom : Option OtaStatus) (insertAllowed : Bool) : Option (OtaStatus × Download) :=
  match custom.getD .ok with
  | .ok => do
    let ret := updateAllowed s.env.currentUser s.env.deviceId insertAllowed
    let r ← nvRecordOtaUpdateInfo ret s.record s.env.currentStage s.env.totalImageSize s.env.version
    some (if ret then .ok else .error, s.setRecord r)
  | status => some (status, s)

/-- `ota_common_command_received_handler`; `custom` is the answer of the custom handler. -/
def commandReceived (cmd : OtaCommand) (custom : Option OtaStatus) (insertAllowed : Bool) :
    Option (OtaStatus × Download) :=
  match cmd with
  | .begin p => do (← s.begin p).updateInfo custom insertAllowed
  | .data => s.updateInfo custom insertAllowed
  | .apply | .abort => do
    let (status, s) ← s.updateInfo custom insertAllowed
    some (status, { s with env := resetEnv })

/-- Whether the sanity check of the image passes, or is not required. -/
def sane (v : Verification) : Bool := !s.env.sanityCheckEnable || v.sanityOk

/-- Whether the verification of the image passes. An image for another device than the application
processor is not verified. -/
def passes (v : Verification) : Bool :=
  match s.env.deviceId with
  | .app => s.sane v && v.crcOk
  | .hotword => true

/-- The cache and the flash after the verification: an image that is sane is made bootable before
its checksum is computed. -/
def verified (v : Verification) : (Nat → Option FlashByte) × Flash :=
  match s.env.deviceId with
  | .app =>
    if s.sane v then (v.buffer, updateMagicNumber s.deviceFlash)
    else (s.env.dataCacheBuffer, s.deviceFlash)
  | .hotword => (s.env.dataCacheBuffer, s.deviceFlash)

/-- The flash after a partial cache is flushed; the cache is not emptied. -/
def flushRest : Flash :=
  if s.env.dataCacheBufferOffset ≠ 0 then
    flushDataToFlash s.deviceFlash s.env.dataCacheBuffer s.env.dataCacheBufferOffset
      (s.env.newImageProgramOffset + s.env.newImageFlashOffset)
  else s.deviceFlash

/-- The complete image is verified: the rest of the cache is flushed before, and the session's stage
says how it ended. -/
def verifyImage (v : Verification) : Download :=
  let s := s.setFlash s.flushRest
  { s.setFlash (s.verified v).2 with
    env.dataCacheBuffer := (s.verified v).1
    env.currentStage := if s.passes v then .done else .idle }

/-- The update of the record after the verification. -/
def recordOutcome (insertAllowed : Bool) : Option (OtaStatus × Download) :=
  let ret := updateAllowed s.env.currentUser s.env.deviceId insertAllowed
  if s.env.currentStage = .idle then do
    let r ← nvRecordOtaUpdateInfo ret s.record s.env.currentStage 0 invalidVersionStr
    some (.errorChecksum, s.setRecord r)
  else do
    let r ← nvRecordOtaUpdateInfo ret s.record s.env.currentStage s.env.totalImageSize s.env.version
    some (.ok, s.setRecord r)

/-- The end of `ota_common_fw_data_write` when the image is not complete. The difference is one of
32 bits. -/
def storeBreakPoint : Option (OtaStatus × Download) :=
  let e := s.env
  if breakPointGranularity ≤ (e.receivedDataSize + 0x100000000 - e.breakPoint) % 0x100000000 then do
    let breakPoint := e.receivedDataSize / breakPointGranularity * breakPointGranularity
    let r ← nvRecordOtaUpdateBreakpoint s.record e.currentUser breakPoint
    let s : Download := { s with env.breakPoint := breakPoint }
    some (.ok, s.setRecord r)
  else some (.ok, s)

/-- The data has been copied. -/
def received (data : List FlashByte) : Download :=
  let w := copyData (s.env, s.deviceFlash) data
  { s.setFlash w.2 with
    env := { w.1 with
      receivedDataSize := (w.1.receivedDataSize + data.length) % 0x100000000 } }

/-- `ota_common_fw_data_write`. -/
def fwDataWrite (data : List FlashByte) (v : Verification) (insertAllowed : Bool) :
    Option (OtaStatus × Download) :=
  let s := s.received data
  if s.env.receivedDataSize = s.env.totalImageSize then
    (s.verifyImage v).recordOutcome insertAllowed
  else s.storeBreakPoint

end Download

/-! ### Runs -/

/-- `n` bytes of an image, from byte `start` on. -/
def Image.chunk (m : Image) (start n : Nat) : List FlashByte :=
  (List.range' start n).map (FlashByte.image m)

/-- An event: a command with what the custom handler and the hotword records answer, the next `len`
bytes of the session's image, or a custom handler that switches the sanity check. -/
inductive OtaEvent where
  | command (cmd : OtaCommand) (custom : Option OtaStatus) (insertAllowed : Bool)
  | fwDataWrite (len : Nat) (v : Verification) (insertAllowed : Bool)
  | enableSanityCheck (enable : Bool)

/-- One event; `none` is a failed assertion. -/
def otaStep (s : Download) : OtaEvent → Option Download
  | .command cmd custom insertAllowed => (s.commandReceived cmd custom insertAllowed).map Prod.snd
  | .fwDataWrite len v insertAllowed =>
    (s.fwDataWrite (s.env.image.chunk s.env.receivedDataSize len) v insertAllowed).map Prod.snd
  | .enableSanityCheck enable => some { s with env.sanityCheckEnable := enable }

end EarbudFirmware.AiOta
