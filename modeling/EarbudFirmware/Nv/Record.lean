import EarbudFirmware.Lib.NorMemory
import EarbudFirmware.Utils.Bytes
import EarbudFirmware.Utils.Crc32

/-!
# NV records

The record of the user data is kept in two flash sectors, `main` and `bak`. A sector starts with a
header, which holds the length and the checksum of the data behind it.

## Main definitions

* `NvConfig` — what depends on the build
* `dataIsValid` — `nv_record_data_is_valid`
* `record` — the data of a sector
* `recordBytes` — the bytes of the record in RAM

## Main results

* `dataIsValid_recordBytes` — the assertion before a record is burnt holds
* `dataIsValid_congr`, `record_congr` — only the bytes of the record matter
-/

namespace EarbudFirmware.Nv

open NorMemory (Content InRange)

/-- `NV_EXTENSION_SIZE`, one flash sector. -/
def extensionSize : Nat := 0x1000

/-- `NV_EXTENSION_HEADER_SIZE`. -/
def headerSize : Nat := 16

/-- `NV_EXTENSION_MAGIC_NUMBER`. -/
def magicNumber : Nat := 0x4E455854

/-- `NV_EXTENSION_MAJOR_VERSION`. -/
def majorVersion : Nat := 15

/-- `NV_EXTENSION_MINOR_VERSION`. -/
def minorVersion : Nat := 3

/-- What depends on the build: the start of the user data in flash, `NV_EXTENSION_VALID_LEN`, the
data that RAM starts with and the data that `nv_record_set_default` builds. The bound is the one
that `nv_record_extension_init` asserts. -/
structure NvConfig where
  userdataStart : Nat
  validLen : Nat
  initial : Nat → UInt8
  defaults : Nat → UInt8
  validLen_lt : validLen < extensionSize - headerSize

/-- The two sectors. -/
inductive Sector where
  | main | bak
  deriving DecidableEq

namespace NvConfig

variable (nv : NvConfig)

/-- `_user_data_main_start` and `_user_data_bak_start`. -/
def start : Sector → Nat
  | .main => nv.userdataStart
  | .bak => nv.userdataStart + extensionSize

/-- The content of a sector. -/
def sector (f : Content) (x : Sector) : Content := fun i => f (nv.start x + i)

/-- `sizeof(NV_EXTENSION_RECORD_T)`. -/
def recordSize : Nat := headerSize + nv.validLen

end NvConfig

/-! ### Headers -/

/-- `validLen` in the header. -/
def headerValidLen (c : Content) : Nat := le c 8 4

/-- The data of a sector: the bytes that the header counts. -/
def record (c : Content) : List UInt8 :=
  (List.range (headerValidLen c)).map fun i => c (headerSize + i)

/-- `nv_record_data_is_valid`. -/
def dataIsValid (nv : NvConfig) (c : Content) : Bool :=
  le c 4 2 == majorVersion && le c 0 4 == magicNumber &&
    decide (headerValidLen c ≤ extensionSize - headerSize) &&
    (crc32C 0 (record c)).toNat == le c 12 4 && !decide (nv.validLen < headerValidLen c)

/-- The payload of the record in RAM. -/
def ramRecord (nv : NvConfig) (ram : Nat → UInt8) : List UInt8 :=
  (List.range nv.validLen).map ram

/-- The record in RAM, its header updated: `nvrecord_extension_p` before it is copied. -/
def recordBytes (nv : NvConfig) (ram : Nat → UInt8) : Content := fun i =>
  if i < 4 then leByte magicNumber i
  else if i < 6 then leByte majorVersion (i - 4)
  else if i < 8 then leByte minorVersion (i - 6)
  else if i < 12 then leByte nv.validLen (i - 8)
  else if i < 16 then leByte (crc32C 0 (ramRecord nv ram)).toNat (i - 12)
  else ram (i - headerSize)

/-! ### The header of the record in RAM -/

variable {nv : NvConfig} {c d : Content} {ram : Nat → UInt8}

theorem NvConfig.validLen_lt_pow (nv : NvConfig) : nv.validLen < 256 ^ 4 := by
  have := nv.validLen_lt
  unfold extensionSize headerSize at this
  omega

/-- A header field is read back from the record in RAM. -/
theorem le_recordBytes {v a n : Nat} (hv : v < 256 ^ n)
    (h : ∀ i < n, recordBytes nv ram (a + i) = leByte v i) : le (recordBytes nv ram) a n = v := by
  have := le_leByte (c := recordBytes nv ram) (v := v) (a := a) (n := n) (k := 0)
    (by simpa using h)
  rwa [pow_zero, Nat.div_one, Nat.mod_eq_of_lt hv] at this

theorem headerValidLen_recordBytes : headerValidLen (recordBytes nv ram) = nv.validLen := by
  refine le_recordBytes nv.validLen_lt_pow fun i hi => ?_
  unfold recordBytes
  rw [if_neg (by omega), if_neg (by omega), if_neg (by omega), if_pos (by omega)]
  congr 1
  omega

/-- The payload is behind the header. -/
@[simp] theorem recordBytes_payload {i : Nat} : recordBytes nv ram (headerSize + i) = ram i := by
  unfold recordBytes headerSize
  rw [if_neg (by omega), if_neg (by omega), if_neg (by omega), if_neg (by omega),
    if_neg (by omega), Nat.add_sub_cancel_left]

@[simp] theorem record_recordBytes : record (recordBytes nv ram) = ramRecord nv ram := by
  rw [record, headerValidLen_recordBytes, ramRecord]
  exact List.map_congr_left fun i _ => recordBytes_payload

/-- The checksum in the header. -/
theorem crc32_recordBytes :
    le (recordBytes nv ram) 12 4 = (crc32C 0 (ramRecord nv ram)).toNat := by
  refine le_recordBytes (UInt32.toNat_lt _) fun i hi => ?_
  rw [recordBytes, if_neg (by omega), if_neg (by omega), if_neg (by omega), if_neg (by omega),
    if_pos (by omega), Nat.add_sub_cancel_left]

/-- The assertion before a record is burnt holds. -/
theorem dataIsValid_recordBytes : dataIsValid nv (recordBytes nv ram) = true := by
  have hmagic : le (recordBytes nv ram) 0 4 = magicNumber := by
    refine le_recordBytes (by decide) fun i hi => ?_
    rw [recordBytes, if_pos (by omega), Nat.zero_add]
  have hmajor : le (recordBytes nv ram) 4 2 = majorVersion := by
    refine le_recordBytes (by decide) fun i hi => ?_
    rw [recordBytes, if_neg (by omega), if_pos (by omega), Nat.add_sub_cancel_left]
  have hlen := nv.validLen_lt
  simp [dataIsValid, hmagic, hmajor, crc32_recordBytes, headerValidLen_recordBytes, hlen.le]

/-! ### Sectors that hold the same record -/

/-- A valid sector holds no more data than the record in RAM. -/
theorem headerValidLen_le (h : dataIsValid nv c = true) : headerValidLen c ≤ nv.validLen := by
  simp only [dataIsValid, Bool.and_eq_true, Bool.not_eq_true', decide_eq_false_iff_not] at h
  omega

/-- A sector of erased bytes is not valid. -/
theorem dataIsValid_of_erased (h : ∀ i < headerSize, c i = 0xFF) : dataIsValid nv c = false := by
  have hmajor : le c 4 2 ≠ majorVersion := by
    simp only [le, h 4 (by decide), h 5 (by decide)]
    decide
  simp [dataIsValid, hmajor]

theorem headerValidLen_congr (h : ∀ i < nv.recordSize, c i = d i) :
    headerValidLen c = headerValidLen d :=
  le_congr fun i hi => h i (by have := hi.2; unfold NvConfig.recordSize headerSize; omega)

/-- Only the bytes of the record matter for its data. -/
theorem record_congr (h : ∀ i < nv.recordSize, c i = d i) (hlen : headerValidLen d ≤ nv.validLen) :
    record c = record d := by
  rw [record, headerValidLen_congr h, record]
  refine List.map_congr_left fun i hi => h _ ?_
  have := List.mem_range.1 hi
  unfold NvConfig.recordSize
  omega

/-- Only the bytes of the record matter for its validity. -/
theorem dataIsValid_congr (h : ∀ i < nv.recordSize, c i = d i) (hd : dataIsValid nv d = true) :
    dataIsValid nv c = true := by
  have hle : ∀ a n, a + n ≤ headerSize → le c a n = le d a n := fun a n han =>
    le_congr fun i hi => h i (by have := hi.2; unfold NvConfig.recordSize; omega)
  rw [dataIsValid, headerValidLen_congr h, record_congr h (headerValidLen_le hd),
    hle 4 2 (by decide), hle 0 4 (by decide), hle 12 4 (by decide)]
  exact hd

end EarbudFirmware.Nv
