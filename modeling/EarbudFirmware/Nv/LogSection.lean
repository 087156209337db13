import EarbudFirmware.Lib.FirstMax
import EarbudFirmware.Lib.Ring
import EarbudFirmware.Lib.Transition
import Mathlib.Data.List.Chain
import Mathlib.Data.List.Infix
import Mathlib.Logic.Function.Basic

/-!
# The log section

Log output is collected in a ring of sector buffers. `log_dump_output_handler` fills them at its own
index and gives every buffer a number when it opens it; `log_dump_flush` writes the full ones to the
log area of the flash at an index of its own, one sector after the other around the area. A later
start resumes behind the sector with the largest number.

## Main definitions

* `LogDump` — the buffers, both indices, the log area, and what was written to it
* `getSeqnum` — where a start resumes
* `LogDump.flush`, `LogDump.output` — the two operations
* `InOrder` — the sectors are stored in the order of their numbers

## Main results

* `getSeqnum_of_newest` — a start resumes behind the newest sector
-/

namespace EarbudFirmware.LogSection

open Function (update)

/-- `LOG_DUMP_SECTOR_SIZE`. -/
def logDumpSectorSize : Nat := 0x1000

/-- `LOG_DUMP_SECTOR_BUFFER_COUNT`. -/
def logDumpSectorBufferCount : Nat := 16

/-- `DUMP_LOG_MAGIC`. -/
def dumpLogMagic : UInt32 := 0xd5151001

/-- `DUMP_LOG_VERSION`. -/
def dumpLogVersion : UInt32 := 0x00010001

/-- The size of a `LOG_DUMP_HEADER`. -/
def logDumpHeaderSize : Nat := 16

/-- `LOG_DUMP_PREFIX`, `__LOG_DUMP:`. -/
def logDumpPrefix : List UInt8 := [95, 95, 76, 79, 71, 95, 68, 85, 77, 80, 58]

/-- `LOG_DUMP_HEADER`. -/
structure LogDumpHeader where
  magic : UInt32
  version : UInt32
  seqnum : UInt32
  isBootup : UInt8
  reseved : Vector UInt8 3
  deriving DecidableEq

/-- The bytes of a sector: its first sixteen ones as a header, and the others. -/
structure Sector where
  header : LogDumpHeader
  body : List UInt8
  deriving DecidableEq

def Sector.erased : Sector where
  header := ⟨0xffffffff, 0xffffffff, 0xffffffff, 0xff, .replicate 3 0xff⟩
  body := .replicate (logDumpSectorSize - logDumpHeaderSize) 0xff

/-- The sector has the header of a log sector. -/
def Sector.valid (sec : Sector) : Bool :=
  sec.header.magic = dumpLogMagic ∧ sec.header.version = dumpLogVersion

/-- The values of `state` in a `DATA_BUFFER`. -/
inductive DataBufferState where
  | free
  | writting
  | written
  deriving DecidableEq

/-- `DATA_BUFFER`; `body` are the bytes from the header up to `offset`, and zeros follow. -/
structure DataBuffer where
  state : DataBufferState
  offset : Nat
  header : LogDumpHeader
  body : List UInt8
  deriving DecidableEq

/-- A cleared buffer. -/
def DataBuffer.zero (state : DataBufferState) : DataBuffer :=
  ⟨state, 0, ⟨0, 0, 0, 0, .replicate 3 0⟩, []⟩

/-- `LOG_DUMP_FLUSH_STATE`, as far as it is used. -/
inductive LogDumpFlushState where
  | idle
  | erased
  | writting
  deriving DecidableEq

/-- The loop of `_get_seqnum`: whether there is a log sector, and the largest number with the first
sector that has it. -/
def scanSector (acc : Bool × UInt32 × Nat) (x : Sector × Nat) : Bool × UInt32 × Nat :=
  if x.1.valid then
    (true, if acc.2.1 < x.1.header.seqnum then (x.1.header.seqnum, x.2) else acc.2)
  else acc

/-- `_get_seqnum`: the next number and the next sector. The number is the one before it
overflows. -/
def getSeqnum (flash : List Sector) : Nat × Nat :=
  let acc := flash.zipIdx.foldl scanSector (false, 0, 0)
  if acc.1 then
    (acc.2.1.toNat + 1, if flash.length ≤ acc.2.2 + 1 then 0 else acc.2.2 + 1)
  else (0, 0)

/-- The log section. The first sixteen buffers of `dataBufferList` are used. `curDumpSeqnum` counts
without overflow; the headers hold it modulo `2 ^ 32`, as `log_dump_cur_dump_seqnum` does. `flash`
is the log area behind the operations that the flash service has accepted. `stored` and `given` are
the history: the sectors written since the start, with their places, and all output. -/
structure LogDump where
  dataBufferList : Nat → DataBuffer
  wSeqnum : Nat
  fSeqnum : Nat
  flashOffs : Nat
  curDumpSeqnum : Nat
  isBootup : Bool
  isImmediately : Bool
  flashState : LogDumpFlushState
  flash : List Sector
  stored : List (Nat × Sector)
  given : List UInt8

/-- `log_dump_init`. -/
def logDumpInit (flash : List Sector) : LogDump where
  dataBufferList _ := .zero .free
  wSeqnum := 0
  fSeqnum := 0
  flashOffs := (getSeqnum flash).2 * logDumpSectorSize
  curDumpSeqnum := (getSeqnum flash).1
  isBootup := true
  isImmediately := false
  flashState := .idle
  flash := flash
  stored := []
  given := []

/-- The index behind `i` in the ring. -/
def nextSeqnum (i : Nat) : Nat := if i + 1 = logDumpSectorBufferCount then 0 else i + 1

namespace LogDump

/-- The buffer that the output is written to. -/
def wBuffer (s : LogDump) : DataBuffer := s.dataBufferList s.wSeqnum

/-- The buffer that is flushed next. -/
def fBuffer (s : LogDump) : DataBuffer := s.dataBufferList s.fSeqnum

/-- The sector that is erased and written next. -/
def sector (s : LogDump) : Nat := s.flashOffs / logDumpSectorSize

/-! ### Flushing -/

def eraseSector (s : LogDump) : Option LogDump :=
  if s.sector < s.flash.length then
    some { s with flash := s.flash.set s.sector .erased, flashState := .erased }
  else none

/-- The buffer is written to the flash, and both go on by one. -/
def writeSector (s : LogDump) : Option LogDump :=
  match s.flash[s.sector]? with
  | some old =>
    let b := s.fBuffer
    let sec : Sector := ⟨b.header, b.body ++ old.body.drop b.body.length⟩
    some { s with
      flash := s.flash.set s.sector sec
      stored := s.stored ++ [(s.sector, sec)]
      dataBufferList := update s.dataBufferList s.fSeqnum { b with state := .free }
      fSeqnum := nextSeqnum s.fSeqnum
      flashOffs :=
        if s.flash.length * logDumpSectorSize ≤ s.flashOffs + b.offset then 0
        else s.flashOffs + b.offset
      flashState := .idle }
  | none => none

/-- `_log_dump_flush`, for the buffers in the states `buffState`. `accepted` is whether the flash
service takes the operation or has no room for it; any other result fails an assertion. -/
def flushBuffer (s : LogDump) (buffState : DataBufferState → Bool) (accepted : Bool) :
    Option LogDump :=
  if s.flashState = .idle ∧ s.flashOffs % logDumpSectorSize = 0 then
    if accepted then s.eraseSector else some s
  else if s.flashState = .erased ∨ s.flashState = .writting then
    if buffState s.fBuffer.state ∧ 0 < s.fBuffer.offset then
      if accepted then s.writeSector else some { s with flashState := .writting }
    else some s
  else some s

/-- `log_dump_flush`. An immediate operation waits until there is room. -/
def flush (s : LogDump) (accepted : Bool) : Option LogDump :=
  s.flushBuffer (· = .written) (accepted || s.isImmediately)

/-! ### Output -/

/-- The header of a buffer that is opened. -/
def logHeader (s : LogDump) : LogDumpHeader :=
  ⟨dumpLogMagic, dumpLogVersion, .ofNat s.curDumpSeqnum, if s.isBootup then 1 else 0, #v[0, 0, 10]⟩

/-- The first part of a round of `log_dump_output_handler`: a buffer that is not being written is
cleared and gets a header with the next number. -/
def openBuffer (s : LogDump) : LogDump :=
  let b := if s.wBuffer.state = .free ∨ s.wBuffer.state = .written then .zero .writting
    else s.wBuffer
  if b.offset = 0 then
    { s with
      dataBufferList := update s.dataBufferList s.wSeqnum
        { b with offset := logDumpHeaderSize, header := s.logHeader }
      isBootup := false
      curDumpSeqnum := s.curDumpSeqnum + 1 }
  else { s with dataBufferList := update s.dataBufferList s.wSeqnum b }

/-- The length that a round copies; the sum is a `uint32_t`. -/
def writeLen (s : LogDump) (buf : List UInt8) : Nat :=
  if logDumpSectorSize < (s.wBuffer.offset + buf.length) % 0x100000000 then
    logDumpSectorSize - s.wBuffer.offset
  else buf.length

/-- The second part of a round: output is copied to the buffer. `none` is an access out of its
bounds. -/
def fillBuffer (s : LogDump) (buf : List UInt8) : Option LogDump :=
  let offset := s.wBuffer.offset + s.writeLen buf
  if offset ≤ logDumpSectorSize then
    some { s with
      dataBufferList := update s.dataBufferList s.wSeqnum { s.wBuffer with
        state := if offset = logDumpSectorSize then .written else s.wBuffer.state
        offset := offset
        body := s.wBuffer.body ++ buf.take (s.writeLen buf) } }
  else none

/-- The rounds of `log_dump_output_handler`. A round that fills a buffer goes on to the next one, or
ends the output when that one is to be flushed next. `none` is a failing assertion. -/
def outputRounds : Nat → LogDump → List UInt8 → Option LogDump
  | 0, _, _ => none
  | fuel + 1, s, buf =>
    let s := s.openBuffer
    match s.fillBuffer buf with
    | none => none
    | some t =>
      let rest := buf.drop (s.writeLen buf)
      if t.wBuffer.offset = logDumpSectorSize then
        let t := { t with wSeqnum := nextSeqnum t.wSeqnum }
        if t.wSeqnum = t.fSeqnum then some t
        else if t.wBuffer.state = .writting then none
        else if rest = [] then some t
        else outputRounds fuel t rest
      else if rest = [] then some t
      else outputRounds fuel t rest

/-- `log_dump_output_handler`; a buffer with the prefix of the module's own traces is ignored. -/
def output (s : LogDump) (buf : List UInt8) : Option LogDump :=
  if logDumpPrefix <:+: buf.takeWhile (· ≠ 0) then some s
  else (outputRounds (buf.length + 1) s buf).map fun t => { t with given := s.given ++ buf }

end LogDump

/-- A call of one of the two operations. -/
inductive LogEvent where
  | output (buf : List UInt8)
  | flush (accepted : Bool)
  deriving DecidableEq

def LogDump.step (s : LogDump) : LogEvent → Option LogDump
  | .output buf => s.output buf
  | .flush accepted => s.flush accepted

/-! ### Specification -/

/-- The sectors written since the start have increasing numbers and lie one behind the other around
the log area, a later start resumes behind the newest one with a larger number than all stored ones,
and their contents are output in the order in which it was given. -/
structure InOrder (s : LogDump) : Prop where
  increasing : (s.stored.map fun x => x.2.header.seqnum).Pairwise (· < ·)
  around : s.stored.IsChain fun x y => y.1 = (x.1 + 1) % s.flash.length
  kept : ∀ x, s.stored.getLast? = some x → s.flash.length ≠ 1 → s.flash[x.1]? = some x.2
  resumes : ∀ x, s.stored.getLast? = some x → s.flash[x.1]? = some x.2 →
    getSeqnum s.flash = (x.2.header.seqnum.toNat + 1, (x.1 + 1) % s.flash.length)
  larger : s.stored ≠ [] → ∀ sec ∈ s.flash, sec.valid →
    sec.header.seqnum.toNat < (getSeqnum s.flash).1 % 0x100000000
  data : (s.stored.map fun x => x.2.body).flatten.Sublist s.given

/-! ### The search for the newest sector -/

/-- The loop is a search for the largest number. -/
theorem scanSector_eq : scanSector = FirstMax.scan Sector.valid fun sec => sec.header.seqnum := rfl

/-- The loop keeps the largest number, and a sector that has it. -/
theorem foldl_scanSector (l : List Sector) (j : Nat) (acc : Bool × UInt32 × Nat) :
    ((l.zipIdx j).foldl scanSector acc).1 = (acc.1 || l.any Sector.valid) ∧
      acc.2.1 ≤ ((l.zipIdx j).foldl scanSector acc).2.1 ∧
      (∀ sec ∈ l, sec.valid → sec.header.seqnum ≤ ((l.zipIdx j).foldl scanSector acc).2.1) ∧
      (((l.zipIdx j).foldl scanSector acc).2 = acc.2 ∨
        ∃ k sec, l[k]? = some sec ∧ sec.valid ∧ acc.2.1 < sec.header.seqnum ∧
          ((l.zipIdx j).foldl scanSector acc).2 = (sec.header.seqnum, j + k)) := by
  rw [scanSector_eq]
  exact FirstMax.foldl_scan _ _ l j acc

theorem fst_getSeqnum (flash : List Sector) :
    (getSeqnum flash).1 = if (flash.zipIdx.foldl scanSector (false, 0, 0)).1 then
      (flash.zipIdx.foldl scanSector (false, 0, 0)).2.1.toNat + 1 else 0 := by
  simp only [getSeqnum]
  split <;> rfl

/-- The next sector lies in the log area. -/
theorem snd_getSeqnum (flash : List Sector) :
    (getSeqnum flash).2 = 0 ∨ (getSeqnum flash).2 < flash.length := by
  simp only [getSeqnum]
  split_ifs with hfound hlen
  · exact .inl rfl
  · exact .inr (Nat.not_le.1 hlen)
  · exact .inl rfl

/-- The number 0 is given in the first sector only. -/
theorem snd_getSeqnum_of_zero {flash : List Sector} (h : (getSeqnum flash).1 = 0) :
    (getSeqnum flash).2 = 0 := by
  simp only [getSeqnum] at h ⊢
  split_ifs at h ⊢
  rfl

/-- No log sector has a number that a start would give. -/
theorem lt_getSeqnum {flash : List Sector} {sec : Sector} (hsec : sec ∈ flash) (hv : sec.valid) :
    sec.header.seqnum.toNat < (getSeqnum flash).1 := by
  obtain ⟨hex, -, hall, -⟩ := foldl_scanSector flash 0 (false, 0, 0)
  have hany : flash.any Sector.valid = true := List.any_eq_true.2 ⟨sec, hsec, hv⟩
  have hfound : (flash.zipIdx.foldl scanSector (false, 0, 0)).1 = true := by simp [hex, hany]
  unfold getSeqnum
  simp only [hfound, if_true]
  exact Nat.lt_succ_of_le (hall sec hsec hv)

/-- A start resumes behind the newest sector. Number 0 has to be in the first one. -/
theorem getSeqnum_of_newest {flash : List Sector} {i : Nat} {sec : Sector}
    (hi : flash[i]? = some sec) (hv : sec.valid) (hzero : sec.header.seqnum = 0 → i = 0)
    (hnewest : ∀ j x, flash[j]? = some x → x.valid → j ≠ i → x.header.seqnum < sec.header.seqnum) :
    getSeqnum flash = (sec.header.seqnum.toNat + 1, (i + 1) % flash.length) := by
  have hlt : i < flash.length := (List.getElem?_eq_some_iff.1 hi).1
  have hresult : flash.zipIdx.foldl scanSector (false, 0, 0) = (true, sec.header.seqnum, i) :=
    FirstMax.foldl_scan_of_newest (fun _ => UInt32.zero_le) hi hv hzero hnewest
  unfold getSeqnum
  simp only [hresult, if_true]
  refine Prod.ext rfl ?_
  change (if flash.length ≤ i + 1 then 0 else i + 1) = (i + 1) % flash.length
  split_ifs with h
  · rw [show i + 1 = flash.length by omega, Nat.mod_self]
  · rw [Nat.mod_eq_of_lt (by omega)]

end EarbudFirmware.LogSection
