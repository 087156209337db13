import EarbudFirmware.Lib.InOrder
import EarbudFirmware.Ota.Flash

/-!
# Installing a compressed image

The image in the source area is the boot magic, chunks and a trailer. A chunk is its length, with
the highest byte first, and LZMA data. The chunks are decompressed one after the other to the
destination area. Then the checksum of the source and the one that the decompressed image carries
decide whether the header gets its magic, whether the boot info is set and whether the source is
erased. The flash operations are recorded.

## Main definitions

* `Installer` — the areas, the pool and the decompressor
* `findKeyWord` — `find_key_word`
* `Copying` — the variables of the loop
* `copyChunk`, `copyLoop` — the loop over the chunks
* `otaCopyCompressedImage` — `ota_copy_compressed_image`
-/

namespace EarbudFirmware.Lzma

open NorMemory (Content Op overlay)
open Ota (sectorSize normalBoot sanityCrcKeyWord sanityCrc)

/-- The size of `decompressed`. -/
def decompressedSize : Nat := 128 * 1024

/-- `sizeof(struct boot_hdr_t)`. -/
def sizeofBootHdr : Nat := 16

/-- `"CRC32_OF_IMAGE="`. -/
def crcMark : List UInt8 :=
  [0x43, 0x52, 0x43, 0x33, 0x32, 0x5F, 0x4F, 0x46, 0x5F, 0x49, 0x4D, 0x41, 0x47, 0x45, 0x3D]

/-- The addresses of the boot info and of the two areas, the size of the largest block that
`bes_lzma_malloc` gives, which is a part of the RAM, and `bes_lzma_dec_buf`: its result and what it
has put into the output. -/
structure Installer where
  bootInfo : Nat
  srcFlashOffset : Nat
  dstFlashOffset : Nat
  poolSize : Nat
  lzmaDecBuf : List UInt8 → Int × List UInt8
  poolSize_lt : poolSize < 0x40000000
  length_lzmaDecBuf : ∀ z, (lzmaDecBuf z).2.length ≤ decompressedSize

/-- The bytes of the flash. -/
def readFlash (f : Content) (a n : Nat) : List UInt8 := (List.range n).map fun i => f (a + i)

/-- A number with its highest byte first. -/
def be (l : List UInt8) : Nat := l.foldl (fun v b => v * 256 + b.toNat) 0

/-- `FLASH_OTA_BOOT_INFO_T`, without the fields that the copy does not read. -/
structure FlashOtaBootInfo where
  imageSize : Nat
  imageCrc : UInt32
  deriving DecidableEq

/-! ### The key word -/

/-- The inner loop of `find_key_word`, `none` when it reads behind the array. -/
def compareAt : List UInt8 → List UInt8 → Option Bool
  | _, [] => some true
  | [], _ :: _ => none
  | t :: ts, k :: ks => if t ≠ k then some false else compareAt ts ks

/-- The outer loop of `find_key_word`, from `targetIndex` on. -/
def findFrom (keyWordArray : List UInt8) : List UInt8 → Nat → Option (Option Nat)
  | [], _ => some none
  | t :: ts, targetIndex =>
    match compareAt (t :: ts) keyWordArray with
    | none => none
    | some true => some (some targetIndex)
    | some false => findFrom keyWordArray ts (targetIndex + 1)

/-- `find_key_word`; the inner `none` is -1. -/
def findKeyWord (targetArray keyWordArray : List UInt8) : Option (Option Nat) :=
  if 0 < keyWordArray.length ∧ keyWordArray.length ≤ targetArray.length then
    findFrom keyWordArray targetArray 0
  else some none

/-- Where the digits of the checksum are taken from: with the location -1, from 16 on. -/
def digitsStart : Option Nat → Nat
  | some location => location + sanityCrcKeyWord.length
  | none => sanityCrcKeyWord.length - 1

/-! ### The copy -/

/-- The variables of `ota_copy_compressed_image`, and the flash operations so far. -/
structure Copying where
  flash : Content
  ops : List Op
  readOffset : Nat
  wrtieOffset : Nat
  crcValue : UInt32
  crcValueDcom : UInt32
  sanityCrc32 : UInt32
  bakupHdr : Option (List UInt8)

/-- A flash operation. -/
def Copying.exec (c : Copying) (op : Op) : Copying :=
  { c with flash := op.apply c.flash, ops := c.ops ++ [op] }

/-- `hal_norflash_erase`, which erases every sector that it touches. -/
def eraseOp (a n : Nat) : Op :=
  if n = 0 then .erase a 0
  else
    .erase (a / sectorSize * sectorSize)
      ((a + n + sectorSize - 1) / sectorSize * sectorSize - a / sectorSize * sectorSize)

/-- `hal_norflash_write`. -/
def writeOp (a : Nat) (buf : List UInt8) : Op := .program a buf.length fun i => buf.getD i 0

variable (m : Installer)

/-- `otaBootInfoInFlash`. -/
def Installer.otaBootInfo (f : Content) : FlashOtaBootInfo :=
  ⟨le f (m.bootInfo + 4) 4, (le f (m.bootInfo + 8) 4).toUInt32⟩

/-- `bes_lzma_malloc` gives a block. -/
def Installer.lzmaMalloc (size : Nat) : Bool := size ≤ m.poolSize

/-- `memcpy` from the source area, `none` when it reads outside the image. -/
def Installer.srcRead (info : FlashOtaBootInfo) (f : Content) (offset n : Nat) :
    Option (List UInt8) :=
  if offset + n ≤ info.imageSize then some (readFlash f (m.srcFlashOffset + offset) n) else none

/-- What `bes_lzma_dec_buf` puts into the output; its result is ignored. -/
def Installer.output (srcbuf : List UInt8) : List UInt8 := (m.lzmaDecBuf srcbuf).2

/-- A chunk is decompressed and written. Behind the output the buffer has zeros. -/
def writeChunk (size srcbuf : List UInt8) (c : Copying) : Copying :=
  let output := m.output srcbuf
  let decompressed := output ++ List.replicate (decompressedSize - output.length) 0
  let dst := m.dstFlashOffset + c.wrtieOffset
  let c := { c with
    readOffset := c.readOffset + 4 + srcbuf.length
    crcValue := crc32C (crc32C c.crcValue size) srcbuf
    bakupHdr := if c.wrtieOffset = 0 then some (decompressed.take sizeofBootHdr) else c.bakupHdr }
  let c := (c.exec (eraseOp dst output.length)).exec (writeOp dst output)
  { c with wrtieOffset := c.wrtieOffset + output.length }

/-- The checksum in the output of the last chunk, `none` when it is read outside the output. -/
def readSanityCrc (output : List UInt8) (c : Copying) : Option Copying := do
  let location ← findKeyWord output sanityCrcKeyWord
  let start := digitsStart location
  if start + 8 ≤ output.length then
    some { c with
      sanityCrc32 := sanityCrc fun i => output.getD (start + i) 0
      crcValueDcom := crc32C c.crcValueDcom (output.take start) }
  else none

/-- A round of the loop, and whether it is the last one. `none` is an access outside the image, the
buffers and the output, or through the null pointer that `bes_lzma_malloc` has given. The offsets
stay within the image, so that they do not exceed 32 bits. -/
def copyChunk (info : FlashOtaBootInfo) (c : Copying) : Option (Copying × Bool) := do
  let size ← m.srcRead info c.flash c.readOffset 4
  if m.lzmaMalloc (be size) then
    let srcbuf ← m.srcRead info c.flash (c.readOffset + 4) (be size)
    let c := writeChunk m size srcbuf c
    let crcMarkStr ← m.srcRead info c.flash c.readOffset 16
    if crcMarkStr.take 15 = crcMark then (readSanityCrc (m.output srcbuf) c).map (·, true)
    else some ({ c with crcValueDcom := crc32C c.crcValueDcom (m.output srcbuf) }, false)
  else none

/-- The loop. Every round reads at least four bytes of the image, whose size bounds the rounds. -/
def copyLoop (info : FlashOtaBootInfo) : (fuel : Nat) → Copying → Option Copying
  | 0, c => some c
  | fuel + 1, c =>
    if c.readOffset < info.imageSize then
      (copyChunk m info c).bind fun r => if r.2 then some r.1 else copyLoop info fuel r.1
    else some c

/-- The end of `ota_copy_compressed_image` before the boot info is set: the header gets its magic.
`none` when there is no header. -/
def setHeader (c : Copying) : Option Copying :=
  c.bakupHdr.map fun hdr =>
    let decompressed := leBytes 4 normalBoot ++ hdr.drop 4 ++
      (readFlash c.flash m.dstFlashOffset sectorSize).drop sizeofBootHdr
    (c.exec (eraseOp m.dstFlashOffset sectorSize)).exec (writeOp m.dstFlashOffset decompressed)

/-- `update_magic_number`. -/
def updateMagicNumber (newMagicNumber : Nat) (c : Copying) : Copying :=
  (c.exec (eraseOp m.bootInfo sectorSize)).exec (writeOp m.bootInfo (leBytes 4 newMagicNumber))

/-- The source is erased, sector by sector. -/
def eraseSource (info : FlashOtaBootInfo) (c : Copying) : Copying :=
  (List.range ((info.imageSize + sectorSize - 1) / sectorSize)).foldl
    (fun c k => c.exec (eraseOp (m.srcFlashOffset + k * sectorSize) sectorSize)) c

/-- What is left of the image enters the checksum when there is a buffer for it. -/
def addRemain (info : FlashOtaBootInfo) (c : Copying) : Option Copying :=
  let remain := (info.imageSize + 0x100000000 - c.readOffset) % 0x100000000
  if m.lzmaMalloc remain then
    (m.srcRead info c.flash c.readOffset remain).map fun srcbuf =>
      { c with crcValue := crc32C c.crcValue srcbuf }
  else some c

/-- The variables at the start, when the bytes of the magic count as erased. -/
def startCopying (f : Content) : Copying :=
  ⟨f, [], 4, 0, crc32C 0 (List.replicate 4 0xFF), 0, 0, none⟩

/-- `ota_copy_compressed_image`, and whether the device reboots at its end. `none` is an access
outside the image, the buffers and the output, or through a null pointer. -/
def otaCopyCompressedImage (f : Content) : Option (Copying × Bool) := do
  let info := m.otaBootInfo f
  let c := startCopying f
  let magic ← m.srcRead info f 0 4
  if leAt magic 0 4 ≠ normalBoot then pure (c, false)
  else
    let c ← copyLoop m info info.imageSize c
    let c ← addRemain m info c
    if c.crcValue = info.imageCrc ∧ (c.sanityCrc32 = c.crcValueDcom ∨ c.sanityCrc32 = 0) then
      let c ← setHeader m c
      pure (eraseSource m info (updateMagicNumber m normalBoot c), true)
    else pure (c, decide (c.crcValue = info.imageCrc))

end EarbudFirmware.Lzma
