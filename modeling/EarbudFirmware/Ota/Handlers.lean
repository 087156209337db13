import EarbudFirmware.Ota.Flash

/-!
# Packet handlers

The branches of `_handle_received_data`, each with the functions it calls. A handler answers `none`
when an assertion fails or a loop does not end.

## Main definitions

* `handleData`, `handleSegmentVerify`, … — one handler for each packet type
* `handleReceivedData` — `_handle_received_data`
* `tracedStep` — a packet of a run, with the outputs recorded
-/

namespace EarbudFirmware.Ota

open NorMemory (Content overlay)

variable (b : Build)

/-- The flash module of the current user. -/
def OtaState.module (s : OtaState) : Option FlashModule := getUserFlashModule b s.env.currentUser

/-! ### The upgrade log

The log starts with the random code, the image size and the image checksum; the sizes that have been
verified follow, each in an entry of its own. -/

/-- `OTAUPLOG_HEADSIZE`. -/
def logHeadSize : Nat := 40

/-- The number of entries of `upgradeSize`. -/
def logEntries : Nat := 1014

/-- An entry that has not been written. -/
def emptyEntry : Nat := 2 ^ 32 - 1

/-- An entry of `upgradeSize`. -/
def upgradeSize (log : Content) (i : Nat) : Nat := le log (logHeadSize + 4 * i) 4

/-- The binary search of `get_upgradeSize_log`. -/
def searchUpgradeSize (log : Content) : (fuel left right : Nat) → Nat
  | 0, left, _ => left
  | fuel + 1, left, right =>
    if left < right then
      let mid := (left + right) / 2
      if upgradeSize log mid = emptyEntry then searchUpgradeSize log fuel left (mid - 1)
      else searchUpgradeSize log fuel (mid + 1) right
    else left

/-- The entry that `get_upgradeSize_log` settles on; `none` is the index -1. -/
def lastEntry (log : Content) : Option Nat :=
  let left :=
    if upgradeSize log 0 ≠ emptyEntry then searchUpgradeSize log logEntries 0 (logEntries - 1)
    else 0
  if upgradeSize log left ≠ emptyEntry then some left
  else if left = 0 then none
  else some (left - 1)

/-- The breakpoint that the log holds. -/
def logBreakPoint (log : Content) : Nat := (lastEntry log).elim 0 (upgradeSize log)

/-- `get_upgradeSize_log`. -/
def getUpgradeSizeLog (log : Content) (e : Env) : Env :=
  { e with
    iLog := (lastEntry log).getD (2 ^ 32 - 1)
    breakPoint := logBreakPoint log
    resumeAtBreakpoint := decide (logBreakPoint log ≠ 0) }

/-- `ota_upgradeLog_destroy`. -/
def upgradeLogDestroy (s : OtaState) : Option OtaState := do
  let m ← appFlashSectorErase b (some .upgradeLog) 0 s.mem
  some { s with mem := m, env := { s.env with resumeAtBreakpoint := false } }

/-- `ota_upgradeSize_log`. When all entries are used, the log starts again behind its head. -/
def upgradeSizeLog (s : OtaState) : Option OtaState := do
  let iLog := add32 s.env.iLog 1
  if logEntries ≤ iLog then
    let m ← appFlashRead b (some .upgradeLog) 0 logHeadSize s.mem
    let m ← burnSector b (some .upgradeLog) 0 m.dataBufferForBurning logHeadSize m
    let m ← appFlashProgram b (some .upgradeLog) logHeadSize
      (leByte s.env.alreadyReceivedDataSizeOfImage) 4 m
    some { s with mem := m, env := { s.env with iLog := 0 } }
  else
    let m ← appFlashProgram b (some .upgradeLog) (logHeadSize + 4 * iLog)
      (leByte s.env.alreadyReceivedDataSizeOfImage) 4 s.mem
    some { s with mem := m, env := { s.env with iLog } }

/-- `ota_update_start_message`. -/
def updateStartMessage (log : Content) (s : OtaState) : Option OtaState :=
  if le log 32 4 ≠ s.env.totalImageSize ∨ le log 36 4 ≠ s.env.crc32OfImage.toNat then do
    let m ← appFlashProgram b (some .upgradeLog) 32 (leByte s.env.totalImageSize) 4 s.mem
    let m ← appFlashProgram b (some .upgradeLog) 36 (leByte s.env.crc32OfImage.toNat) 4 m
    some { s with mem := m }
  else some s

/-- `ota_randomCode_log`. -/
def randomCodeLog (randomCode : Content) (s : OtaState) : Option OtaState := do
  let m ← burnSector b (some .upgradeLog) 0 randomCode 32 s.mem
  some { s with mem := m }

/-! ### Image data -/

/-- The first check of `IMAGE_RECV_FLASH_CHECK` fails. -/
def Env.OffsetError (e : Env) : Prop :=
  e.offsetInFlashToProgram > e.totalImageSize ∨ e.totalImageSize > b.maxImageSize ∨
    e.offsetInFlashToProgram % minSegAlign ≠ 0

instance (e : Env) : Decidable (e.OffsetError b) := inferInstanceAs (Decidable (_ ∨ _))

/-- The data of a packet fills the data buffer at most. -/
def bytesToCopy (inDataBuffer left : Nat) : Nat :=
  if inDataBuffer + left > sectorSize then sectorSize - inDataBuffer else left

/-- `memcpy` into the data buffer. -/
def Mem.copyToBuffer (m : Mem) (inDataBuffer len : Nat) (ptr : Content) : Mem :=
  { m with dataBufferForBurning := overlay inDataBuffer len ptr m.dataBufferForBurning }

/-- The loop of the data packet: `left` bytes of `rawData` have not been copied to the data buffer
yet. A full buffer is programmed. The answer is whether the check was passed. -/
def dataLoop (x : Option FlashModule) (rawData : Content) (rawDataSize : Nat) :
    (fuel left : Nat) → Env → Mem → Option (Env × Mem × Bool)
  | 0, _, _, _ => none
  | fuel + 1, left, e, m =>
    let now := bytesToCopy e.offsetInDataBufferForBurning left
    let m := m.copyToBuffer e.offsetInDataBufferForBurning now
      fun i => rawData (rawDataSize - left + i)
    let e := { e with offsetInDataBufferForBurning := e.offsetInDataBufferForBurning + now }
    let left := left - now
    if sectorSize ≤ e.offsetInDataBufferForBurning then
      if e.OffsetError b then some (e, m, false)
      else do
        let m ← flushDataToFlash b x sectorSize e.offsetInFlashToProgram m
        let e :=
          { e with offsetInFlashToProgram := add32 e.offsetInFlashToProgram sectorSize
                   offsetInDataBufferForBurning := 0 }
        if 0 < left then dataLoop x rawData rawDataSize fuel left e m else some (e, m, true)
    else if 0 < left then dataLoop x rawData rawDataSize fuel left e m
    else some (e, m, true)

/-- `OTA_DATA_PACKET`. -/
def handleData (s : OtaState) (p : Packet) : Option (OtaState × List Output) :=
  if s.env.isOTAInProgress then do
    let (e, m, ok) ←
      dataLoop b (s.module b) p.payload p.length (2 * p.length + 2) p.length s.env s.mem
    if ok then
      let e :=
        { e with alreadyReceivedDataSizeOfImage :=
                   add32 e.alreadyReceivedDataSizeOfImage p.length }
      if e.alreadyReceivedDataSizeOfImage > e.totalImageSize ∨
          e.totalImageSize > b.maxImageSize then
        some ({ s with env := e, mem := m }, [.resultResponse 2])
      else some ({ s with env := e, mem := m }, [])
    else some ({ s with env := e, mem := m }, [.resultResponse 3])
  else some (s, [.resultResponse 0])

/-! ### Segments -/

/-- The rest of the data buffer is programmed; the counters stay. -/
def burnRest (s : OtaState) : Option OtaState :=
  if s.env.offsetInDataBufferForBurning ≠ 0 then do
    let m ← flushDataToFlash b (s.module b) s.env.offsetInDataBufferForBurning
      s.env.offsetInFlashToProgram s.mem
    some { s with mem := m }
  else some s

/-- The rest of the data buffer is programmed at the end of a segment. -/
def flushRest (s : OtaState) : Option OtaState := do
  let s ← burnRest b s
  some { s with env := { s.env with
    offsetInFlashToProgram :=
      add32 s.env.offsetInFlashToProgram s.env.offsetInDataBufferForBurning
    offsetInDataBufferForBurning := 0 } }

/-- The segment has the checksum that the phone sent. -/
def segmentPassed (s : OtaState) : OtaState × List Output :=
  ({ s with env := { s.env with
      offsetInFlashOfCurrentSegment := s.env.offsetInFlashToProgram
      offsetOfImageOfCurrentSegment := s.env.alreadyReceivedDataSizeOfImage
      isOTAInProgress := true
      segVerifyRetry := maxSetVerifyRetry } },
    [.segmentVerificationResponse true])

/-- The segment is erased and received again, or the transmission is given up. -/
def segmentFailed (s : OtaState) (startFlashAddr lengthToDoCrcCheck : Nat) :
    Option (OtaState × List Output) :=
  if sub32 s.env.segVerifyRetry 1 = 0 then do
    let s ← upgradeLogDestroy b
      { s with env := { s.env with segVerifyRetry := maxSetVerifyRetry } }
    some (s, [.resultResponse 4])
  else do
    let m ← eraseSegment b (s.module b) startFlashAddr lengthToDoCrcCheck s.mem
    some ({ s with
        mem := m
        env := { s.env with
          segVerifyRetry := sub32 s.env.segVerifyRetry 1
          offsetInFlashToProgram := s.env.offsetInFlashOfCurrentSegment
          alreadyReceivedDataSizeOfImage := s.env.offsetOfImageOfCurrentSegment } },
      [.segmentVerificationResponse false])

/-- No data has come since the last segment: the phone repeats its command. -/
def Env.NoNewData (e : Env) : Prop :=
  e.offsetInDataBufferForBurning = 0 ∧
    e.alreadyReceivedDataSizeOfImage = e.offsetOfImageOfCurrentSegment

instance (e : Env) : Decidable e.NoNewData := inferInstanceAs (Decidable (_ ∧ _))

/-- `OTA_COMMAND_SEGMENT_VERIFY`. -/
def handleSegmentVerify (s : OtaState) (p : Packet) : Option (OtaState × List Output) :=
  if ¬s.env.isInBesOtaState then some (s, [])
  else if s.env.NoNewData then
    if p.HasMagicCode ∧ p.field 4 = s.env.crc32OfSegment.toNat then some (s, [])
    else some (s, [.segmentVerificationResponse false])
  else if s.env.OffsetError b then some (s, [.resultResponse 3])
  else do
    let s ← flushRest b s
    let lengthToDoCrcCheck :=
      sub32 s.env.alreadyReceivedDataSizeOfImage s.env.offsetOfImageOfCurrentSegment
    let startFlashAddr := s.env.offsetOfImageOfCurrentSegment
    let (m, crc) ← calcuteSegmentCrc32 b (s.module b) startFlashAddr lengthToDoCrcCheck 0 s.mem
    let s := { s with mem := m, env := { s.env with crc32OfSegment := crc } }
    if p.HasMagicCode ∧ p.field 4 = crc.toNat then do
      let s ← upgradeSizeLog b s
      some (segmentPassed s)
    else segmentFailed b s startFlashAddr lengthToDoCrcCheck

/-! ### The start of a transmission -/

/-- The environment of a new transmission. -/
def startTransmission (s : OtaState) (p : Packet) : OtaState :=
  let s := resetEnv b s false
  { s with env := { s.env with
      totalImageSize := p.field 4
      crc32OfImage := (p.field 8).toUInt32
      isOTAInProgress := true
      alreadyReceivedConfigurationLength := 0
      segVerifyRetry := maxSetVerifyRetry } }

/-- `OTA_COMMAND_START`. No user has a start callback. -/
def handleStart (r : Reads) (s : OtaState) (p : Packet) : Option (OtaState × List Output) :=
  if p.HasMagicCode then do
    let s ← updateStartMessage b r.log (startTransmission b s p)
    some (s, [.startResponse])
  else some (s, [])

/-- The checksum of the random code and the segment size is right. -/
def Packet.ResumeCrcOk (p : Packet) : Prop :=
  p.field 40 = (crc32C 0 ((List.range 36).map fun i => p.payload (4 + i))).toNat

instance (p : Packet) : Decidable p.ResumeCrcOk := inferInstanceAs (Decidable (_ = _))

/-- The log belongs to the transmission that the phone resumes. -/
def randomCodeMatches (log : Content) (p : Packet) : Prop :=
  (List.range 32).map log = ((List.range 32).map fun i => p.payload (4 + i)) ∧
    (List.range 32).map log ≠ List.replicate 32 0

instance (log : Content) (p : Packet) : Decidable (randomCodeMatches log p) :=
  inferInstanceAs (Decidable (_ ∧ _))

/-- The breakpoint is read from the log; a log with a breakpoint that is not aligned is
destroyed. -/
def readBreakPoint (r : Reads) (s : OtaState) : Option OtaState :=
  let s := { s with env := getUpgradeSizeLog r.log s.env }
  if s.env.breakPoint % minSegAlign ≠ 0 then do
    let s ← upgradeLogDestroy b s
    some { s with env := getUpgradeSizeLog r.logDestroyed s.env }
  else some s

/-- The log as it is read once the breakpoint is known. -/
def Reads.currentLog (r : Reads) : Content :=
  if logBreakPoint r.log % minSegAlign ≠ 0 then r.logDestroyed else r.log

/-- The transmission is resumed: `ota_get_start_message` reads the image from the log. -/
def resumeTransmission (log : Content) (s : OtaState) : OtaState :=
  let s := resetEnv b s false
  { s with env := { s.env with
      isOTAInProgress := true
      totalImageSize := le log 32 4
      crc32OfImage := (le log 36 4).toUInt32 } }

/-- The first bytes of the data buffer, where the random code is built. -/
def OtaState.setRandomCode (s : OtaState) (randomCode : Content) : OtaState :=
  let buf := overlay 0 32 randomCode s.mem.dataBufferForBurning
  { s with mem := { s.mem with dataBufferForBurning := buf } }

/-- The log is not used: a new transmission gets a new random code. -/
def newTransmission (r : Reads) (s : OtaState) : Option OtaState :=
  let s :=
    if s.env.breakPoint ≠ 0 then
      { s with env := { s.env with breakPoint := 0, resumeAtBreakpoint := false } }
    else s
  randomCodeLog b r.randomCode (s.setRandomCode r.randomCode)

/-- `OTA_COMMAND_RESUME_VERIFY`. The flash offsets are reset whatever the packet contains. -/
def handleResumeVerify (r : Reads) (s : OtaState) (p : Packet) : Option (OtaState × List Output) :=
  let s := { s with env := initFlashOffset b s.env }
  if p.HasMagicCode then
    let s := s.setRandomCode fun _ => 0
    if p.ResumeCrcOk then do
      let s ← readBreakPoint b r s
      if s.env.breakPoint ≠ 0 ∧ randomCodeMatches r.currentLog p then
        some (resumeTransmission b r.currentLog s, [.resumeResponse s.env.breakPoint])
      else
        let s ← newTransmission b r s
        some (s, [.resumeResponse 0])
    else some (s, [.resumeResponse (2 ^ 32 - 1)])
  else some (s, [])

/-! ### Configuration -/

/-- `sizeof(OTA_FLOW_CONFIGURATION_T)`. -/
def configurationSize : Nat := 92

/-- The configuration is copied without a check of its length. -/
def copyConfiguration (e : Env) (p : Packet) : Env :=
  if p.length ≤ configurationSize then
    { e with configuration := overlay 0 p.length p.payload e.configuration
             alreadyReceivedConfigurationLength := p.length }
  else b.overrun e p.payload p.length

/-- The counters start at the breakpoint when the transmission is resumed. -/
def Env.resume (e : Env) : Env :=
  if e.resumeAtBreakpoint then
    { e with
      alreadyReceivedDataSizeOfImage := e.breakPoint
      offsetOfImageOfCurrentSegment := e.breakPoint
      offsetInFlashOfCurrentSegment := e.breakPoint
      offsetInFlashToProgram := e.breakPoint }
  else e

/-- The configuration is complete and has its checksum. -/
def Env.ConfigurationOk (e : Env) : Prop :=
  le e.configuration 88 4 = (crc32C 0 ((List.range 88).map e.configuration)).toNat

instance (e : Env) : Decidable e.ConfigurationOk := inferInstanceAs (Decidable (_ = _))

/-- `OTA_COMMAND_CONFIG_OTA`. -/
def handleConfigOta (s : OtaState) (p : Packet) : Option (OtaState × List Output) :=
  let s := { s with env := copyConfiguration b { s.env with isInBesOtaState := true } p }
  if add32 (le s.env.configuration 0 4) 4 ≤ s.env.alreadyReceivedConfigurationLength then
    if s.env.ConfigurationOk then
      if s.env.totalImageSize > b.maxImageSize then some (s, [.resultResponse 6])
      else if s.env.breakPoint > s.env.totalImageSize then do
        let s ← upgradeLogDestroy b s
        some (s, [.resultResponse 5])
      else some ({ s with env := s.env.resume }, [.configurationResponse true])
    else some (s, [.configurationResponse false])
  else some (s, [])

/-! ### The end of a transmission -/

/-- `ota_data_check_image_crc_handler`. -/
def dataCheckImageCrcHandler (s : OtaState) (ret : Bool) : Option (OtaState × List Output) :=
  if ret then do
    let s ← upgradeLogDestroy b { s with env := { s.env with isPendingForReboot := true } }
    some (s, [.imageVerified s.env.totalImageSize s.env.crc32OfImage, .resultResponse 1])
  else do
    let s ← upgradeLogDestroy b (exitOtaState b s)
    some (resetEnv b s true, [.resultResponse 0, .resultResponse 0])

/-- `ota_data_reception_languange_check`. -/
def languageCheck (s : OtaState) : Option (OtaState × List Output) := do
  let (m, crc) ← crcLoop b (s.module b) 0 s.env.totalImageSize (fun _ => sectorSize)
    (fun _ => some) s.env.totalImageSize 0 s.mem 0
  some ({ s with mem := m }, [.resultResponse (if crc = some s.env.crc32OfImage then 1 else 0)])

/-- The checks of a firmware image: first the checksum in its tail, then the whole image with its
start word. -/
def checkFirmware (s : OtaState) : Option (Mem × Bool) := do
  let (m, ok) ← checkImageDataSanityCrc b (s.module b) s.env.totalImageSize s.mem
  if ok then
    let m ← updateMagicNumberOfAppImage b (s.module b) normalBoot m
    checkImageCrc b (s.module b) s.env.totalImageSize s.env.crc32OfImage m
  else some (m, false)

/-- `ota_data_reception_done`. Only the firmware is verified here. -/
def dataReceptionDone (s : OtaState) : Option (OtaState × List Output) := do
  let s ← burnRest b s
  if s.env.currentUser = userFirmware then
    let (m, ok) ← checkFirmware b s
    dataCheckImageCrcHandler b { s with mem := m } ok
  else
    let s := { s with env := { s.env with isPendingForReboot := true } }
    if s.env.currentUser = userLanguagePackage ∧ b.promptInFlash then languageCheck b s
    else some (s, [])

/-- `OTA_COMMAND_GET_OTA_RESULT`. -/
def handleGetOtaResult (s : OtaState) : Option (OtaState × List Output) :=
  if s.env.alreadyReceivedDataSizeOfImage = s.env.totalImageSize then dataReceptionDone b s
  else some (s, [.resultResponse 0])

/-! ### Applying -/

/-- `COPY_NEW_IMAGE`. -/
def copyNewImage : Nat := 0x5A5A5A5A

/-- The bytes of `FLASH_OTA_BOOT_INFO_T`; `boot_word` stays. -/
def bootInfoBytes (e : Env) (old : Content) : Content := fun i =>
  if i < 4 then leByte copyNewImage i
  else if i < 8 then leByte e.totalImageSize (i - 4)
  else if i < 12 then leByte e.crc32OfImage.toNat (i - 8)
  else if i < 16 then leByte e.dstFlashOffsetForNewImage (i - 12)
  else old i

/-- `app_update_ota_boot_info` without flash remap. -/
def updateOtaBootInfo (s : OtaState) : Option (OtaState × List Output) := do
  let m ← burnSector b (some .bootupInfo) 0 (bootInfoBytes s.env (s.mem.flash .bootupInfo)) 20 s.mem
  some ({ s with mem := m },
    [.bootInfo s.env.totalImageSize s.env.crc32OfImage s.env.dstFlashOffsetForNewImage])

/-- The restart that the apply callbacks end with. -/
def OtaState.restart (s : OtaState) : List Output :=
  if s.env.permissionToApply ∧ s.env.isPendingForReboot then [.reset] else []

/-- `ota_apply`: the apply callback of the current user. -/
def otaApply (s : OtaState) : Option (OtaState × List Output) :=
  if s.env.currentUser = userFirmware then do
    let (s, out) ← updateOtaBootInfo b s
    some (s, out ++ s.restart)
  else if s.env.currentUser = userLanguagePackage ∧ b.promptInFlash then some (s, s.restart)
  else some (s, [])

/-- `OTA_COMMAND_IMAGE_APPLY`. -/
def handleImageApply (s : OtaState) (p : Packet) : Option (OtaState × List Output) :=
  if p.HasMagicCode ∧ s.env.isPendingForReboot then do
    let (s, out) ← otaApply b { s with env := { s.env with permissionToApply := true } }
    some (s, .imageApplyResponse true :: out)
  else
    some (exitOtaState b { s with env := { s.env with permissionToApply := false } },
      [.imageApplyResponse false])

/-! ### All packets -/

/-- `_handle_received_data`. -/
def handleReceivedData (r : Reads) (s : OtaState) (p : Packet) : Option (OtaState × List Output) :=
  match packetType p.type with
  | .data => handleData b s p
  | .segmentVerify => handleSegmentVerify b s p
  | .start => handleStart b r s p
  | .resumeVerify => handleResumeVerify b r s p
  | .configOta => handleConfigOta b s p
  | .getOtaResult => handleGetOtaResult b s
  | .readFlashContent => some (s, [.readFlashContentResponse])
  | .getVersion => some (s, if p.HasMagicCode then [.versionResponse] else [])
  | .sideSelection => some (s, [.sideSelectionResponse])
  | .imageApply => handleImageApply b s p
  | .getOtaVersion => some (s, [.otaVersionResponse])
  | .setUser =>
    some ({ s with env := { s.env with currentUser := p.payload 0 } }, [.setUserResponse])
  | .other => some (s, [])

/-- One packet of a run, with what its handler reads from elsewhere. The outputs are recorded, the
latest first. -/
def tracedStep (t : OtaState × List Output) (e : Reads × Packet) :
    Option (OtaState × List Output) :=
  (handleReceivedData b e.1 t.1 e.2).map fun u => (u.1, u.2.reverse ++ t.2)

end EarbudFirmware.Ota
