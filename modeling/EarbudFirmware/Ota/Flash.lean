import EarbudFirmware.Ota.State

/-!
# Flash access of the OTA service

Programming, erasing and checking the flash module of the current user. `none` is a failed
assertion, after which the device restarts. `norflash_api_read` sees queued operations, so the
content of a module is the one with the queued operations executed.

## Main definitions

* `appFlashRead`, `appFlashSectorErase`, `appFlashProgram` — `app_flash_api.cpp`
* `flushDataToFlash` — `ota_control_flush_data_to_flash`
* `eraseSegment` — `erase_segment`
* `crcLoop` — the loop of the three checksum functions
* `checkImageCrc`, `checkImageDataSanityCrc`, `calcuteSegmentCrc32`

## Main results

* `checkImageCrc_verified` — an image that passes the check is verified
-/

namespace EarbudFirmware.Ota

open NorMemory (Content Op InRange overlay)

/-! ### The flash API -/

section

variable (b : Build) (x : Option FlashModule)

/-- `app_flash_read` into the data buffer. -/
def appFlashRead (offset len : Nat) (m : Mem) : Option Mem :=
  x.bind fun x =>
    if offset + len ≤ b.length x then
      some { m with dataBufferForBurning :=
               overlay 0 len (fun i => m.flash x (offset + i)) m.dataBufferForBurning }
    else none

/-- A completed operation on a module. -/
def Mem.apply (m : Mem) (x : FlashModule) (op : Op) : Mem :=
  { m with flash := Function.update m.flash x (op.apply (m.flash x)) }

/-- `app_flash_sector_erase`. -/
def appFlashSectorErase (offset : Nat) (m : Mem) : Option Mem :=
  x.bind fun x =>
    if offset % sectorSize = 0 ∧ offset + sectorSize ≤ b.length x then
      some (m.apply x (.erase offset sectorSize))
    else none

/-- `app_flash_program`. -/
def appFlashProgram (offset : Nat) (ptr : Content) (len : Nat) (m : Mem) : Option Mem :=
  x.bind fun x =>
    if offset + len ≤ b.length x then some (m.apply x (.program offset len ptr)) else none

/-- Erasing a sector and programming `len` bytes from its start on. -/
def burnSector (sectorIndexInFlash : Nat) (ptr : Content) (len : Nat) (m : Mem) : Option Mem := do
  let m ← appFlashSectorErase b x (sectorIndexInFlash * sectorSize) m
  appFlashProgram b x (sectorIndexInFlash * sectorSize) ptr len m

/-- `ota_control_flush_data_to_flash` from the data buffer: the rest of a sector that has been
begun, whole sectors, and the begin of the last one. -/
def flushDataToFlash (lengthToBurn offsetInFlashToProgram : Nat) (m : Mem) : Option Mem := do
  let src := m.dataBufferForBurning
  let preBytes :=
    min lengthToBurn ((sectorSize - offsetInFlashToProgram % sectorSize) % sectorSize)
  let middleBytes :=
    if lengthToBurn > preBytes then (lengthToBurn - preBytes) / sectorSize * sectorSize else 0
  let postBytes :=
    if lengthToBurn > preBytes + middleBytes then
      (offsetInFlashToProgram + lengthToBurn) % sectorSize
    else 0
  let m ← if preBytes > 0 then appFlashProgram b x offsetInFlashToProgram src preBytes m else some m
  let sectorIndexInFlash := (offsetInFlashToProgram + preBytes) / sectorSize
  let m ← (List.range (middleBytes / sectorSize)).foldlM (fun m sector =>
    burnSector b x (sectorIndexInFlash + sector)
      (fun i => src (preBytes + sector * sectorSize + i)) sectorSize m) m
  if postBytes > 0 then
    burnSector b x (sectorIndexInFlash + middleBytes / sectorSize)
      (fun i => src (preBytes + middleBytes + i)) postBytes m
  else some m

/-- `erase_segment`. Its loop counts in 8 bits, so it does not end when there are more sectors. -/
def eraseSegment (addr length : Nat) (m : Mem) : Option Mem :=
  let bytes := addr % sectorSize
  let sectorNum := add32 bytes length / sectorSize + 1
  if sectorNum < 2 ^ 8 then
    (List.range sectorNum).foldlM (fun m i =>
      appFlashSectorErase b x (addr - bytes + i * sectorSize) m) m
  else none

/-! ### Checksums -/

/-- The checksum of the module from `start` on, read into the data buffer in pieces of at most one
sector. `fuel` bounds the number of pieces. `prepare` is what is done with the buffer before a piece
enters the checksum; the loop ends with no checksum when it fails. -/
def crcLoop (start len : Nat) (readLen : Nat → Nat) (prepare : Nat → Content → Option Content) :
    (fuel done : Nat) → Mem → UInt32 → Option (Mem × Option UInt32)
  | 0, _, m, crc => some (m, some crc)
  | fuel + 1, done, m, crc =>
    if done < len then do
      let now := min (len - done) sectorSize
      let m ← appFlashRead b x (start + done) (readLen now) m
      match prepare done m.dataBufferForBurning with
      | none => some (m, none)
      | some buf =>
        crcLoop start len readLen prepare fuel (done + now) { m with dataBufferForBurning := buf }
          (crc32C crc ((List.range now).map buf))
    else some (m, some crc)

/-- `_calcute_segment_crc32(0)`: the checksum of the current segment, added to `crc`. -/
def calcuteSegmentCrc32 (startFlashAddr lengthToDoCrcCheck : Nat) (crc : UInt32) (m : Mem) :
    Option (Mem × UInt32) :=
  (crcLoop b x startFlashAddr lengthToDoCrcCheck id (fun _ => some) lengthToDoCrcCheck 0 m crc).map
    fun r => (r.1, r.2.getD crc)

/-- The start word of the image as it enters the checksum. -/
def hideStartWord (buf : Content) : Content := fun i => if i < 4 then 0xFF else buf i

/-- What `ota_control_check_image_crc` does with the first piece. -/
def prepareImage (done : Nat) (buf : Content) : Option Content :=
  if done = 0 then
    if le buf 0 4 = normalBoot then some (hideStartWord buf) else none
  else some buf

/-- `ota_control_check_image_crc`. -/
def checkImageCrc (totalImageSize : Nat) (crc32OfImage : UInt32) (m : Mem) :
    Option (Mem × Bool) := do
  let m ← appFlashRead b x 0 sectorSize m
  if le m.dataBufferForBurning 0 4 = normalBoot then
    let (m, crc) ← crcLoop b x 0 totalImageSize (fun _ => sectorSize) prepareImage totalImageSize 0
      m 0
    some (m, decide (crc = some crc32OfImage))
  else some (m, false)

/-- `image_info_sanity_crc_key_word`. -/
def sanityCrcKeyWord : List UInt8 :=
  [0x43, 0x52, 0x43, 0x33, 0x32, 0x5F, 0x4F, 0x46, 0x5F, 0x49, 0x4D, 0x41, 0x47, 0x45, 0x3D, 0x30,
    0x78]

/-- `LEN_OF_IMAGE_TAIL_TO_FIND_SANITY_CRC`. -/
def lenOfImageTail : Nat := 512

/-- `find_key_word`. -/
def findKeyWord (target : Content) (targetLen : Nat) (keyWord : List UInt8) : Option Nat :=
  if 0 < keyWord.length ∧ keyWord.length ≤ targetLen then
    (List.range targetLen).find? fun i =>
      (List.range keyWord.length).map (fun j => target (i + j)) == keyWord
  else none

/-- `asciiToHex`. -/
def asciiToHex (c : UInt8) : UInt8 :=
  if 0x30 ≤ c ∧ c ≤ 0x39 then c - 0x30
  else if 0x61 ≤ c ∧ c ≤ 0x66 then c - 0x61 + 10
  else if 0x41 ≤ c ∧ c ≤ 0x46 then c - 0x41 + 10
  else 0xFF

/-- The checksum behind the key word. -/
def sanityCrc (crcString : Nat → UInt8) : UInt32 :=
  (List.range 8).foldl (fun crc i =>
    crc ||| (asciiToHex (crcString i)).toUInt32 <<< (28 - 4 * i).toUInt32) 0

/-- `ota_check_image_data_sanity_crc`. -/
def checkImageDataSanityCrc (totalImageSize : Nat) (m : Mem) : Option (Mem × Bool) := do
  let m ← appFlashRead b x (sub32 totalImageSize lenOfImageTail) lenOfImageTail m
  match findKeyWord m.dataBufferForBurning lenOfImageTail sanityCrcKeyWord with
  | none => some (m, true)
  | some location =>
    let expected :=
      sanityCrc fun i => m.dataBufferForBurning (location + sanityCrcKeyWord.length + i)
    let len := location + totalImageSize - lenOfImageTail + sanityCrcKeyWord.length
    let (m, crc) ← crcLoop b x 0 len id (fun _ => some) len 0 m 0
    some (m, decide (crc = some expected))

/-- `app_update_magic_number_of_app_image`. -/
def updateMagicNumberOfAppImage (newMagicNumber : Nat) (m : Mem) : Option Mem := do
  let m ← appFlashRead b x 0 sectorSize m
  let buf := overlay 0 4 (leByte newMagicNumber) m.dataBufferForBurning
  burnSector b x 0 buf sectorSize { m with dataBufferForBurning := buf }

end

/-! ### Verified images -/

/-- The image in the flash has the checksum: its start word is `NORMAL_BOOT` and enters the checksum
as erased bytes. -/
def Verified (flash : Content) (imageSize : Nat) (imageCrc : UInt32) : Prop :=
  le flash 0 4 = normalBoot ∧ crc32C 0 ((List.range imageSize).map (hideStartWord flash)) = imageCrc

variable {b : Build} {x : FlashModule} {m m' : Mem}

theorem appFlashRead_eq_some {offset len : Nat}
    (h : appFlashRead b (some x) offset len m = some m') :
    m'.flash = m.flash ∧ ∀ i < len, m'.dataBufferForBurning i = m.flash x (offset + i) := by
  unfold appFlashRead at h
  rw [Option.bind_some] at h
  split_ifs at h
  obtain rfl := Option.some.inj h
  refine ⟨rfl, fun i hi => ?_⟩
  have hr : InRange 0 len i := ⟨Nat.zero_le i, by omega⟩
  show overlay 0 len (fun i => m.flash x (offset + i)) m.dataBufferForBurning i = _
  rw [NorMemory.overlay_of_inRange hr, Nat.sub_zero]

/-- The loop computes the checksum of the bytes that the prepared pieces stand for. All pieces but
the last one are whole sectors. -/
theorem crcLoop_eq_some {start len : Nat} {readLen : Nat → Nat}
    {prepare : Nat → Content → Option Content} {image : Content} {fuel done : Nat} {crc c : UInt32}
    (hprepare : ∀ done buf buf', sectorSize ∣ done →
      (∀ i < readLen (min (len - done) sectorSize), buf i = m.flash x (start + done + i)) →
      prepare done buf = some buf' →
      ∀ i < min (len - done) sectorSize, buf' i = image (done + i))
    (hfuel : len ≤ done + fuel) (hdone : sectorSize ∣ done ∧ done ≤ len ∨ done = len)
    (hcrc : crc = crc32C 0 ((List.range done).map image))
    (h : crcLoop b (some x) start len readLen prepare fuel done m crc = some (m', some c)) :
    m'.flash = m.flash ∧ c = crc32C 0 ((List.range len).map image) := by
  induction fuel generalizing done m crc with
  | zero =>
    obtain rfl : done = len := by omega
    obtain ⟨rfl, rfl⟩ : m = m' ∧ crc = c := by simpa [crcLoop] using h
    exact ⟨rfl, hcrc⟩
  | succ fuel ih =>
    unfold crcLoop at h
    split_ifs at h with hlt
    · obtain ⟨m₁, hm₁, h⟩ := Option.bind_eq_some_iff.1 h
      obtain ⟨hflash, hbuf⟩ := appFlashRead_eq_some hm₁
      have hdvd : sectorSize ∣ done := by
        rcases hdone with hdone | rfl
        · exact hdone.1
        · exact absurd hlt (lt_irrefl _)
      cases hp : prepare done m₁.dataBufferForBurning with
      | none => simp [hp] at h
      | some buf =>
        simp only [hp] at h
        have hpiece := hprepare _ _ _ hdvd hbuf hp
        refine (ih ?_ ?_ ?_ ?_ h).imp_left fun h' => h'.trans hflash
        · simpa [hflash] using hprepare
        · unfold sectorSize at *
          omega
        · rcases le_total sectorSize (len - done) with hle | hle
          · rw [min_eq_right hle]
            exact .inl ⟨Nat.dvd_add hdvd (Nat.dvd_refl _), by omega⟩
          · rw [min_eq_left hle]
            exact .inr (by omega)
        · -- the piece extends the checksum of what has been read
          rw [hcrc, ← crc32C_append, List.range_add, List.map_append, List.map_map]
          congr 2
          exact List.map_congr_left fun i hi => hpiece i (List.mem_range.1 hi)
    · obtain rfl : done = len := by omega
      obtain ⟨rfl, rfl⟩ : m = m' ∧ crc = c := by simpa using h
      exact ⟨rfl, hcrc⟩

/-- The pieces of an image, prepared, are the image with its start word hidden. -/
theorem prepareImage_eq_some {flash buf buf' : Content} {done n : Nat} (hdvd : sectorSize ∣ done)
    (hbuf : ∀ i < sectorSize, buf i = flash (done + i)) (h : prepareImage done buf = some buf')
    (hn : n ≤ sectorSize) : ∀ i < n, buf' i = hideStartWord flash (done + i) := by
  intro i hi
  unfold prepareImage at h
  split_ifs at h with hzero
  · obtain rfl := Option.some.inj h
    rw [hzero, hideStartWord, hideStartWord, Nat.zero_add, hbuf i (by omega), hzero, Nat.zero_add]
  · obtain rfl := Option.some.inj h
    have hle : sectorSize ≤ done := Nat.le_of_dvd (Nat.pos_of_ne_zero hzero) hdvd
    rw [hideStartWord, if_neg (by unfold sectorSize at hle; omega), hbuf i (by omega)]

/-- An image that passes the check is verified. -/
theorem checkImageCrc_verified {imageSize : Nat} {imageCrc : UInt32}
    (h : checkImageCrc b (some x) imageSize imageCrc m = some (m', true)) :
    m'.flash = m.flash ∧ Verified (m'.flash x) imageSize imageCrc := by
  obtain ⟨m₁, hm₁, h⟩ := Option.bind_eq_some_iff.1 h
  obtain ⟨hflash, hbuf⟩ := appFlashRead_eq_some hm₁
  split_ifs at h with hboot
  · obtain ⟨⟨m₂, crc⟩, hloop, h⟩ := Option.bind_eq_some_iff.1 h
    obtain ⟨rfl, hcrc⟩ : m₂ = m' ∧ crc = some imageCrc := by simpa using h
    subst hcrc
    have hprepare : ∀ done buf buf', sectorSize ∣ done →
        (∀ i < sectorSize, buf i = m₁.flash x (0 + done + i)) → prepareImage done buf = some buf' →
        ∀ i < min (imageSize - done) sectorSize,
          buf' i = hideStartWord (m₁.flash x) (done + i) := by
      intro done buf buf' hdvd hb hp
      refine prepareImage_eq_some hdvd ?_ hp (min_le_right _ _)
      simpa using hb
    obtain ⟨hflash', hc⟩ := crcLoop_eq_some hprepare (by omega) (.inl ⟨dvd_zero _, Nat.zero_le _⟩)
      (by simp) hloop
    refine ⟨hflash'.trans hflash, ?_, ?_⟩
    · rw [hflash', hflash, ← hboot]
      exact le_congr fun i hi => by
        have := hi.2
        rw [hbuf i (by unfold sectorSize; omega), Nat.zero_add]
    · rw [hflash', ← hc]
  · simp at h

end EarbudFirmware.Ota
