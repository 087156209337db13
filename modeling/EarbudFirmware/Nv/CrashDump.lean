import EarbudFirmware.Lib.FirstMax
import EarbudFirmware.Lib.Pieces
import EarbudFirmware.Lib.Ring
import EarbudFirmware.Lib.Transition
import Mathlib.Data.List.Infix

/-!
# The crash dump section

The output of a crash is collected in a buffer of one sector. A full buffer is written to the dump
area of the flash, one sector after the other around the area, and the end of the crash writes what
is left. A boot resumes behind the sector with the largest number.

## Main definitions

* `CrashDump` — the buffer, the places where it goes on, and the dump area
* `getSeqnum` — where a boot resumes
* `fault`, `notify` — output is added, and the crash ends
* `Boot` — a boot, and the crash that ends it
* `Stored` — what the sectors of one crash hold

## Main results

* `Progress.fault` — the sectors so far depend on the output so far only
* `stores_iff` — a crash is stored when its last sector is not full
* `dumps_iff` — every crash is stored, in the runs whose crashes all leave room in their last sector
-/

namespace EarbudFirmware.CrashDumpSection

/-- `CRASH_DUMP_SECTOR_SIZE`, and `CRASH_DUMP_BUFFER_LEN`. -/
def crashDumpSectorSize : Nat := 0x1000

/-- `CRASH_DUMP_MAGIC_CODE`. -/
def crashDumpMagicCode : UInt32 := 0x504D5544

/-- `CRASH_DUMP_VERSION`. -/
def crashDumpVersion : UInt32 := 0x00010001

/-- The size of a `CRASH_DUMP_HEADER_T`. -/
def crashDumpHeaderSize : Nat := 16

/-- The bytes of a sector behind its header. -/
def payloadSize : Nat := 4080

theorem payloadSize_pos : 0 < payloadSize := by decide

/-- `CRASH_DUMP_PREFIX`, `__CRASH_DUMP:`. -/
def crashDumpPrefix : List UInt8 := [95, 95, 67, 82, 65, 83, 72, 95, 68, 85, 77, 80, 58]

/-- `CRASH_DUMP_HEADER_T`. -/
structure CrashDumpHeader where
  magic : UInt32
  version : UInt32
  seqnum : UInt32
  reseved : Vector UInt8 4
  deriving DecidableEq

/-- The bytes of a sector: its first sixteen ones as a header, and the others. -/
structure Sector where
  header : CrashDumpHeader
  body : List UInt8
  deriving DecidableEq

def Sector.erased : Sector where
  header := ⟨0xffffffff, 0xffffffff, 0xffffffff, .replicate 4 0xff⟩
  body := .replicate payloadSize 0xff

/-- The sector has the header of a dump. -/
def Sector.valid (sec : Sector) : Bool :=
  sec.header.magic = crashDumpMagicCode ∧ sec.header.version = crashDumpVersion

/-- The states of `HAL_TRACE_STATE_T` that are notified. -/
inductive HalTraceState where
  | crashAssertStart
  | crashFaultStart
  | crashEnd
  deriving DecidableEq

/-- The loop of `_crash_dump_get_seqnum`: whether there is a dump, and the largest number with the
first sector that has it. -/
def scanHeader (acc : Bool × UInt32 × Nat) (x : Sector × Nat) : Bool × UInt32 × Nat :=
  if x.1.valid then
    (true, if acc.2.1 < x.1.header.seqnum then (x.1.header.seqnum, x.2) else acc.2)
  else acc

/-- `_crash_dump_get_seqnum`: the next number and the next sector. -/
def getSeqnum (flash : List Sector) : UInt32 × Nat :=
  let acc := flash.zipIdx.foldl scanHeader (false, 0, 0)
  if acc.1 then (acc.2.1 + 1, if flash.length ≤ acc.2.2 + 1 then 0 else acc.2.2 + 1) else (0, 0)

/-- The state of a crash. `offset`, `header` and `body` are `crash_data_buffer`, with the bytes from
the header up to `offset`. `flash` is the dump area; `erased` are the sectors that the crash has
erased, and a history. The section is initialised. -/
structure CrashDump where
  flash : List Sector
  erased : List Nat
  flashOffs : Nat
  curDumpSeqnum : UInt32
  offset : Nat
  header : CrashDumpHeader
  body : List UInt8
  deriving DecidableEq

/-- `crash_dump_init`. -/
def crashDumpInit (flash : List Sector) : CrashDump where
  flash := flash
  erased := []
  flashOffs := (getSeqnum flash).2 * crashDumpSectorSize
  curDumpSeqnum := (getSeqnum flash).1
  offset := 0
  header := ⟨0, 0, 0, .replicate 4 0⟩
  body := []

/-- A piece of output, `buf` with its length, and the memory behind it, which `strstr` may read.
The address space of 32 bits has room for `crash_data_buffer` beside it. -/
structure Chunk where
  buf : List UInt8
  behind : List UInt8
  beside : buf.length + crashDumpSectorSize ≤ 0x100000000

/-- `strstr` finds the prefix of the traces of this module. -/
def Chunk.HasPrefix (c : Chunk) : Prop :=
  crashDumpPrefix <:+: (c.buf ++ c.behind).takeWhile (· ≠ 0)

instance (c : Chunk) : Decidable c.HasPrefix := inferInstanceAs (Decidable (_ <:+: _))

namespace CrashDump

/-- What `crash_dump_write` stores of the buffer. Nothing is written when the length is zero. -/
def sectorOf (s : CrashDump) : Sector :=
  if s.offset = 0 then .erased
  else ⟨s.header, s.body ++ Sector.erased.body.drop s.body.length⟩

/-- `crash_dump_write` of the buffer to the current sector, which is erased before. An address that
is not aligned, or is outside of the area, is refused. -/
def crashDumpWrite (s : CrashDump) : CrashDump :=
  let sector := s.flashOffs / crashDumpSectorSize
  if s.flashOffs % crashDumpSectorSize = 0 ∧ sector < s.flash.length then
    { s with
      flash := s.flash.set sector s.sectorOf
      erased := s.erased ++ [sector] }
  else s

/-- The first part of a round of `_crash_dump_fault`: an empty buffer gets a header with the next
number. -/
def openBuffer (s : CrashDump) : CrashDump :=
  if s.offset = 0 then
    { s with
      header := ⟨crashDumpMagicCode, crashDumpVersion, s.curDumpSeqnum, #v[0, 0, 0, 10]⟩
      body := []
      offset := crashDumpHeaderSize
      curDumpSeqnum := s.curDumpSeqnum + 1 }
  else s

/-- The length that a round copies; the sum is a `uint32_t`. -/
def uintLen (s : CrashDump) (remainLen : Nat) : Nat :=
  if crashDumpSectorSize < (s.offset + remainLen) % 0x100000000 then crashDumpSectorSize - s.offset
  else remainLen

/-- The second part of a round: output is copied to the buffer. `none` is an access out of its
bounds. -/
def fillBuffer (s : CrashDump) (buf : List UInt8) : Option CrashDump :=
  let offset := s.offset + s.uintLen buf.length
  if offset ≤ crashDumpSectorSize then
    some { s with
      offset := offset
      body := s.body ++ buf.take (s.uintLen buf.length) }
  else none

/-- The third part of a round: a full buffer is written, and the next sector is the one behind. -/
def writeFull (s : CrashDump) : CrashDump :=
  if s.offset = crashDumpSectorSize then
    { s.crashDumpWrite with
      flashOffs :=
        if s.flash.length * crashDumpSectorSize ≤ s.flashOffs + s.offset then 0
        else s.flashOffs + s.offset
      offset := 0 }
  else s

/-- The rounds of `_crash_dump_fault`, until nothing of the output remains. -/
def faultRounds : Nat → CrashDump → List UInt8 → Option CrashDump
  | 0, _, _ => none
  | fuel + 1, s, buf =>
    let s := s.openBuffer
    match s.fillBuffer buf with
    | none => none
    | some t =>
      let remain := buf.drop (s.uintLen buf.length)
      if remain = [] then some t.writeFull else faultRounds fuel t.writeFull remain

/-- `_crash_dump_fault`; the module's own traces are left out. -/
def fault (s : CrashDump) (c : Chunk) : Option CrashDump :=
  if c.HasPrefix then some s else faultRounds (c.buf.length + 1) s c.buf

/-- `_crash_dump_notify`. -/
def notify (s : CrashDump) (state : HalTraceState) : CrashDump :=
  if state = .crashEnd then s.crashDumpWrite else s

end CrashDump

/-- The dump area with the sectors that the last crash has erased. -/
structure DumpArea where
  flash : List Sector
  erased : List Nat

/-- A crash gives its output in pieces without the prefix. -/
structure Crash where
  start : HalTraceState
  chunks : List Chunk
  notEnd : start ≠ .crashEnd
  noPrefix : ∀ c ∈ chunks, ¬c.HasPrefix

/-- All output of the crash. -/
def Crash.output (c : Crash) : List UInt8 := c.chunks.flatMap Chunk.buf

/-- A boot, which may end in a crash. -/
inductive Boot where
  | quiet
  | crash (c : Crash)

/-- The crash after a boot: it starts, gives its output, and ends. -/
def Crash.run (c : Crash) (flash : List Sector) : Option CrashDump :=
  (c.chunks.foldlM CrashDump.fault ((crashDumpInit flash).notify c.start)).map (·.notify .crashEnd)

/-- One boot. -/
def DumpArea.boot (s : DumpArea) : Boot → Option DumpArea
  | .quiet => some ⟨s.flash, []⟩
  | .crash c => (c.run s.flash).map fun t => ⟨t.flash, t.erased⟩

/-! ### Specification -/

/-- A crash goes on at sector `p` with number `q`: behind the sector with the largest number, or
with the first sector and number when there is no dump. -/
inductive GoesOn (flash : List Sector) : Nat → Nat → Prop
  | first (hnone : ∀ sec ∈ flash, ¬sec.valid) : GoesOn flash 0 0
  | behind {i : Nat} {sec : Sector} (hi : flash[i]? = some sec) (hv : sec.valid)
      (hmax : ∀ x ∈ flash, x.valid → x.header.seqnum ≤ sec.header.seqnum) :
      GoesOn flash ((i + 1) % flash.length) (sec.header.seqnum.toNat + 1)

/-- The number of sectors that output takes. -/
def sectorCount (d : List UInt8) : Nat := Pieces.count payloadSize d

/-- The payload of a sector of the area. -/
def payload (flash : List Sector) (i : Nat) : List UInt8 := flash[i]?.elim [] Sector.body

/-- The output `d` of a crash is stored from sector `p` on, with the numbers from `q` on: its
sectors lie one behind the other around the area and have consecutive numbers, and their payloads
are the output, with erased bytes behind its end. When there is no room for all of them, the first
`lost` ones are written over. All other sectors are as they were, and not erased. -/
structure Stored (flash flash' : List Sector) (erased : List Nat) (p q : Nat) (d : List UInt8) :
    Prop where
  length_eq : flash'.length = flash.length
  numbered : ∀ j < sectorCount d, sectorCount d ≤ j + flash.length →
    ∃ sec, flash'[(p + j) % flash.length]? = some sec ∧ sec.valid ∧
      sec.header.seqnum.toNat = q + j
  payloads : ∀ lost, lost = sectorCount d - flash.length →
    ((List.range' lost (sectorCount d - lost)).flatMap fun j =>
        payload flash' ((p + j) % flash.length)) =
      (d ++ List.replicate (sectorCount d * payloadSize - d.length) 0xff).drop (lost * payloadSize)
  kept : ∀ i, (∀ j < sectorCount d, i ≠ (p + j) % flash.length) → flash'[i]? = flash[i]?
  erased_inside : ∀ i ∈ erased, ∃ j < sectorCount d, i = (p + j) % flash.length

/-- A boot leaves the area as it is, or stores the output of the crash that ends it. -/
def Boot.Stores (s : DumpArea) : Boot → DumpArea → Prop
  | .quiet, t => t.flash = s.flash ∧ t.erased = []
  | .crash c, t => ∃ p q, GoesOn s.flash p q ∧ Stored s.flash t.flash t.erased p q c.output

/-- The last sector of the crash is not full, and the numbers of its sectors do not overflow. -/
def Boot.Fits (s : DumpArea) : Boot → Prop
  | .quiet => True
  | .crash c => ¬payloadSize ∣ c.output.length ∧ sectorCount c.output ≤ 0x100000000 ∧
      ∀ sec ∈ s.flash, sec.valid →
        sec.header.seqnum.toNat + 1 + sectorCount c.output ≤ 0x100000000

/-- A dump area without dumps, inside the address space. -/
structure BlankArea where
  sectors : List Sector
  nonempty : sectors ≠ []
  inside : sectors.length * crashDumpSectorSize ≤ 0x100000000
  blank : ∀ sec ∈ sectors, ¬sec.valid

/-- No crash was dumped yet. -/
def BlankArea.initial (a : BlankArea) : DumpArea := ⟨a.sectors, []⟩

/-! ### Where a boot resumes -/

/-- A boot resumes at sector `p` with number `q`, and there is no doubt which sector is the
newest. -/
structure Resumes (flash : List Sector) (p q : Nat) : Prop where
  pos : 0 < flash.length
  inside : flash.length * crashDumpSectorSize ≤ 0x100000000
  newest : (p = 0 ∧ q = 0 ∧ ∀ sec ∈ flash, ¬sec.valid) ∨
    ∃ i sec, flash[i]? = some sec ∧ sec.valid ∧ (sec.header.seqnum = 0 → i = 0) ∧
      (∀ j x, flash[j]? = some x → x.valid → j ≠ i → x.header.seqnum < sec.header.seqnum) ∧
      p = (i + 1) % flash.length ∧ q = sec.header.seqnum.toNat + 1

namespace Resumes

variable {flash : List Sector} {p q : Nat}

theorem lt (h : Resumes flash p q) : p < flash.length := by
  rcases h.newest with ⟨hp, -⟩ | ⟨i, sec, -, -, -, -, hp, -⟩
  · rw [hp]
    exact h.pos
  · rw [hp]
    exact Nat.mod_lt _ h.pos

/-- A dump that starts with number 0 starts with the first sector. -/
theorem eq_zero (h : Resumes flash p q) (hq : q = 0) : p = 0 := by
  rcases h.newest with ⟨hp, -⟩ | ⟨i, sec, -, -, -, -, -, hq'⟩
  · exact hp
  · exact absurd (hq'.symm.trans hq) (Nat.succ_ne_zero _)

/-- The numbers of the area are smaller than the next one. -/
theorem numbers (h : Resumes flash p q) {sec : Sector} (hsec : sec ∈ flash) (hv : sec.valid) :
    sec.header.seqnum.toNat < q := by
  obtain ⟨j, hj⟩ := List.getElem?_of_mem hsec
  rcases h.newest with ⟨-, -, hnone⟩ | ⟨i, x, hi, -, -, hnewest, -, hq⟩
  · exact absurd hv (hnone sec hsec)
  · rw [hq]
    by_cases hji : j = i
    · subst hji
      obtain rfl := Option.some.inj (hi.symm.trans hj)
      exact Nat.lt_succ_self _
    · exact Nat.lt_succ_of_lt (UInt32.lt_iff_toNat_lt.mp (hnewest j sec hj hv hji))

/-- The search of a boot finds the newest sector. -/
theorem getSeqnum_eq (h : Resumes flash p q) : getSeqnum flash = (.ofNat q, p) := by
  have hscan : scanHeader = FirstMax.scan Sector.valid fun sec => sec.header.seqnum := rfl
  unfold getSeqnum
  rw [hscan]
  rcases h.newest with ⟨hp, hq, hnone⟩ | ⟨i, sec, hi, hv, hzero, hnewest, hp, hq⟩
  · rw [FirstMax.foldl_scan_of_none fun sec hsec => Bool.eq_false_iff.mpr (hnone sec hsec), hp, hq]
    rfl
  · have hlt := (List.getElem?_eq_some_iff.mp hi).1
    rw [FirstMax.foldl_scan_of_newest (fun _ => UInt32.zero_le) hi hv hzero hnewest, hp, hq]
    refine Prod.ext ?_ ?_
    · change sec.header.seqnum + 1 = _
      rw [UInt32.ofNat_add, UInt32.ofNat_toNat]
      rfl
    · change (if flash.length ≤ i + 1 then 0 else i + 1) = (i + 1) % flash.length
      split_ifs with hend
      · rw [Nat.le_antisymm hend hlt, Nat.mod_self]
      · rw [Nat.mod_eq_of_lt (Nat.lt_of_not_le hend)]

theorem goesOn (h : Resumes flash p q) : GoesOn flash p q := by
  rcases h.newest with ⟨rfl, rfl, hnone⟩ | ⟨i, sec, hi, hv, hzero, hnewest, rfl, rfl⟩
  · exact .first hnone
  · refine .behind hi hv fun x hx hxv => ?_
    have hlt := h.numbers hx hxv
    exact UInt32.le_iff_toNat_le.mpr (Nat.le_of_lt_succ hlt)

/-- There is one place to go on. -/
theorem unique (h : Resumes flash p q) {p' q' : Nat} (h' : GoesOn flash p' q') :
    p' = p ∧ q' = q := by
  rcases h.newest with ⟨rfl, rfl, hnone⟩ | ⟨i, sec, hi, hv, hzero, hnewest, rfl, rfl⟩
  · cases h' with
    | first => exact ⟨rfl, rfl⟩
    | behind hi hv => exact absurd hv (hnone _ (List.mem_of_getElem? hi))
  · cases h' with
    | first hnone => exact absurd hv (hnone sec (List.mem_of_getElem? hi))
    | @behind j x hj hxv hmax =>
      have hle := hmax sec (List.mem_of_getElem? hi) hv
      by_cases hji : j = i
      · subst hji
        obtain rfl := Option.some.inj (hi.symm.trans hj)
        exact ⟨rfl, rfl⟩
      · exact absurd (hnewest j x hj hxv hji) (UInt32.not_lt.mpr hle)

/-- The numbers of a dump do not overflow, said without the next number. -/
theorem fits_iff (h : Resumes flash p q) (n : Nat) :
    (n ≤ 0x100000000 ∧ ∀ sec ∈ flash, sec.valid →
      sec.header.seqnum.toNat + 1 + n ≤ 0x100000000) ↔ q + n ≤ 0x100000000 := by
  constructor
  · rintro ⟨hn, hall⟩
    rcases h.newest with ⟨-, rfl, -⟩ | ⟨i, sec, hi, hv, -, -, -, rfl⟩
    · rwa [Nat.zero_add]
    · exact hall sec (List.mem_of_getElem? hi) hv
  · intro hq
    refine ⟨Nat.le_trans (Nat.le_add_left _ _) hq, fun sec hsec hv => ?_⟩
    exact Nat.le_trans (Nat.add_le_add_right (h.numbers hsec hv) n) hq

end Resumes

/-- A blank area is filled from its first sector on. -/
theorem BlankArea.resumes (a : BlankArea) : Resumes a.sectors 0 0 :=
  ⟨List.length_pos_iff.mpr a.nonempty, a.inside, .inl ⟨rfl, rfl, a.blank⟩⟩

/-! ### The sectors of a crash -/

/-- The header of sector `j` of a crash that starts with number `q`. -/
def dumpHeader (q j : Nat) : CrashDumpHeader :=
  ⟨crashDumpMagicCode, crashDumpVersion, .ofNat (q + j), #v[0, 0, 0, 10]⟩

/-- Sector `j` of a crash with the output `d` that starts with number `q`. -/
def dumpSector (q : Nat) (d : List UInt8) (j : Nat) : Sector :=
  ⟨dumpHeader q j, Pieces.piece payloadSize d j ++
    Sector.erased.body.drop (Pieces.piece payloadSize d j).length⟩

theorem valid_dumpSector (q : Nat) (d : List UInt8) (j : Nat) : (dumpSector q d j).valid :=
  decide_eq_true ⟨rfl, rfl⟩

theorem seqnum_dumpSector {q j : Nat} (d : List UInt8) (h : q + j < 0x100000000) :
    (dumpSector q d j).header.seqnum.toNat = q + j :=
  UInt32.toNat_ofNat_of_lt h

/-- The payload of a sector is a piece of the output with the erased bytes behind it. -/
theorem body_dumpSector (q : Nat) {d : List UInt8} {j : Nat} (hj : j < sectorCount d) :
    (dumpSector q d j).body =
      Pieces.piece payloadSize (Pieces.filled payloadSize 0xff d) j := by
  rw [Pieces.piece_filled payloadSize_pos hj]
  exact congrArg _ List.drop_replicate

/-- Sectors that are full do not change with more output. -/
theorem dumpSector_append {q j : Nat} {d x : List UInt8} (h : (j + 1) * payloadSize ≤ d.length) :
    dumpSector q (d ++ x) j = dumpSector q d j := by
  unfold dumpSector
  rw [Pieces.piece_append h]

theorem writeAround_append {flash : List Sector} {p q m : Nat} {d : List UInt8} (x : List UInt8)
    (h : m * payloadSize ≤ d.length) :
    Ring.writeAround flash p (dumpSector q (d ++ x)) m =
      Ring.writeAround flash p (dumpSector q d) m :=
  Ring.writeAround_congr fun _ hj =>
    dumpSector_append (Nat.le_trans (Nat.mul_le_mul_right _ hj) h)

/-! ### The rounds of a crash -/

/-- The buffer holds the output `d` behind its first `m` sectors. -/
structure Opened (q m : Nat) (d : List UInt8) (s : CrashDump) : Prop where
  length_eq : d.length + crashDumpHeaderSize = m * payloadSize + s.offset
  header_le : crashDumpHeaderSize ≤ s.offset
  offset_le : s.offset ≤ crashDumpSectorSize
  header_eq : s.header = dumpHeader q m
  body_eq : s.body = d.drop (m * payloadSize)
  next : s.curDumpSeqnum = .ofNat (q + m + 1)

/-- Of the output `d`, the first `m` sectors are written, from sector `p` and number `q` on. -/
structure Written (flash : List Sector) (p q m : Nat) (d : List UInt8) (s : CrashDump) : Prop where
  flash_eq : s.flash = Ring.writeAround flash p (dumpSector q d) m
  erased_eq : s.erased = (List.range m).map fun j => (p + j) % flash.length
  offs_eq : s.flashOffs = (p + m) % flash.length * crashDumpSectorSize

/-- The output `d` is in the sectors that are written and in the buffer, which may not be opened. -/
structure Progress (flash : List Sector) (p q m : Nat) (d : List UInt8) (s : CrashDump) : Prop
    extends Written flash p q m d s where
  buffer : (s.offset = 0 ∧ d.length = m * payloadSize ∧ s.curDumpSeqnum = .ofNat (q + m)) ∨
    Opened q m d s ∧ s.offset < crashDumpSectorSize

section rounds

variable {flash : List Sector} {p q m : Nat} {d : List UInt8} {s : CrashDump}

theorem Progress.length_le (h : Progress flash p q m d s) : m * payloadSize ≤ d.length := by
  rcases h.buffer with ⟨-, hlen, -⟩ | ⟨hopen, -⟩
  · exact Nat.le_of_eq hlen.symm
  · have hlen := hopen.length_eq
    have hhead := hopen.header_le
    omega

theorem Progress.lt_length (h : Progress flash p q m d s) : d.length < (m + 1) * payloadSize := by
  rw [Nat.succ_mul]
  rcases h.buffer with ⟨-, hlen, -⟩ | ⟨hopen, hlt⟩
  · rw [hlen]
    exact Nat.lt_add_of_pos_right payloadSize_pos
  · have hlen := hopen.length_eq
    simp only [crashDumpHeaderSize, crashDumpSectorSize, payloadSize] at *
    omega

/-- After the first part of a round the buffer is open. -/
theorem Progress.openBuffer (h : Progress flash p q m d s) :
    Written flash p q m d s.openBuffer ∧ Opened q m d s.openBuffer ∧
      s.openBuffer.offset < crashDumpSectorSize := by
  have hroom : crashDumpHeaderSize < crashDumpSectorSize := by decide
  unfold CrashDump.openBuffer
  rcases h.buffer with ⟨hoff, hlen, hnum⟩ | ⟨hopen, hlt⟩
  · rw [if_pos hoff]
    refine ⟨⟨h.flash_eq, h.erased_eq, h.offs_eq⟩, ?_, hroom⟩
    refine ⟨congrArg (· + crashDumpHeaderSize) hlen, Nat.le_refl _, Nat.le_of_lt hroom, ?_, ?_, ?_⟩
    · change CrashDumpHeader.mk _ _ s.curDumpSeqnum _ = _
      rw [hnum]
      rfl
    · rw [List.drop_eq_nil_of_le (Nat.le_of_eq hlen)]
    · change s.curDumpSeqnum + 1 = _
      rw [hnum, UInt32.ofNat_add (q + m)]
      rfl
  · have hne : s.offset ≠ 0 := by
      have hhead := hopen.header_le
      simp only [crashDumpHeaderSize] at hhead
      omega
    rw [if_neg hne]
    exact ⟨h.toWritten, hopen, hlt⟩

/-- The length of a round: all of the output, or what fills the buffer. -/
theorem uintLen_eq (hlt : s.offset < crashDumpSectorSize) {n : Nat}
    (hn : n + crashDumpSectorSize ≤ 0x100000000) :
    s.uintLen n = min n (crashDumpSectorSize - s.offset) := by
  unfold CrashDump.uintLen
  rw [Nat.mod_eq_of_lt (by omega)]
  split_ifs <;> omega

/-- An aligned sector of the area is erased and written. -/
theorem crashDumpWrite_eq {i : Nat} (hi : i < s.flash.length)
    (hoff : s.flashOffs = i * crashDumpSectorSize) :
    s.crashDumpWrite = { s with
      flash := s.flash.set i s.sectorOf
      erased := s.erased ++ [i] } := by
  have hpos : 0 < crashDumpSectorSize := by decide
  have hdiv : s.flashOffs / crashDumpSectorSize = i := by rw [hoff, Nat.mul_div_cancel _ hpos]
  have hmod : s.flashOffs % crashDumpSectorSize = 0 := by rw [hoff, Nat.mul_mod_left]
  unfold CrashDump.crashDumpWrite
  simp only [hdiv, hmod, hi, and_self, if_true]

/-- Writing the buffer to the sector behind those that are written. -/
theorem Written.crashDumpWrite (h : Written flash p q m d s) (hpos : 0 < flash.length) :
    s.crashDumpWrite.flash =
        (Ring.writeAround flash p (dumpSector q d) m).set ((p + m) % flash.length) s.sectorOf ∧
      s.crashDumpWrite.erased = (List.range (m + 1)).map fun j => (p + j) % flash.length := by
  have hlt : (p + m) % flash.length < s.flash.length := by
    rw [h.flash_eq, Ring.length_writeAround]
    exact Nat.mod_lt _ hpos
  rw [crashDumpWrite_eq hlt h.offs_eq]
  refine ⟨?_, ?_⟩
  · change s.flash.set _ _ = _
    rw [h.flash_eq]
  · change s.erased ++ _ = _
    rw [h.erased_eq, List.range_succ, List.map_append, List.map_singleton]

/-- The open buffer is stored as the next sector. -/
theorem Opened.sectorOf (h : Opened q m d s) : s.sectorOf = dumpSector q d m := by
  have hne : s.offset ≠ 0 := by
    have hhead := h.header_le
    simp only [crashDumpHeaderSize] at hhead
    omega
  have hpiece : Pieces.piece payloadSize d m = d.drop (m * payloadSize) := by
    refine Pieces.piece_eq_drop ?_
    have hlen := h.length_eq
    have hle := h.offset_le
    simp only [crashDumpHeaderSize, crashDumpSectorSize, payloadSize] at *
    omega
  rw [CrashDump.sectorOf, if_neg hne, h.header_eq, h.body_eq, dumpSector, hpiece]

/-- The second part of a round moves output to the buffer. -/
theorem Opened.fillBuffer (h : Opened q m d s) {buf : List UInt8}
    (hbuf : s.uintLen buf.length = min buf.length (crashDumpSectorSize - s.offset)) :
    ∃ t, s.fillBuffer buf = some t ∧ Opened q m (d ++ buf.take (s.uintLen buf.length)) t ∧
      t.flash = s.flash ∧ t.erased = s.erased ∧ t.flashOffs = s.flashOffs := by
  have hle := h.offset_le
  have hlen := h.length_eq
  have hhead := h.header_le
  have hroom : s.offset + s.uintLen buf.length ≤ crashDumpSectorSize := by omega
  refine ⟨_, if_pos hroom, ⟨?_, ?_, hroom, h.header_eq, ?_, h.next⟩, rfl, rfl, rfl⟩
  · rw [List.length_append, List.length_take]
    change _ = m * payloadSize + (s.offset + s.uintLen buf.length)
    omega
  · exact Nat.le_trans hhead (Nat.le_add_right _ _)
  · change s.body ++ _ = _
    rw [h.body_eq, List.drop_append_of_le_length]
    omega

/-- More output in the buffer does not change the sectors that are written. -/
theorem Written.append (h : Written flash p q m d s) (hlen : m * payloadSize ≤ d.length)
    (x : List UInt8) {t : CrashDump} (hflash : t.flash = s.flash) (herased : t.erased = s.erased)
    (hoffs : t.flashOffs = s.flashOffs) : Written flash p q m (d ++ x) t := by
  refine ⟨?_, herased.trans h.erased_eq, hoffs.trans h.offs_eq⟩
  rw [hflash, h.flash_eq, writeAround_append x hlen]

theorem curDumpSeqnum_crashDumpWrite (s : CrashDump) :
    s.crashDumpWrite.curDumpSeqnum = s.curDumpSeqnum := by
  unfold CrashDump.crashDumpWrite
  dsimp only
  split <;> rfl

/-- The next sector is the one behind, around the area. -/
theorem nextOffs_eq {n i : Nat} (hi : i < n) :
    (if n * crashDumpSectorSize ≤ i * crashDumpSectorSize + crashDumpSectorSize then 0
      else i * crashDumpSectorSize + crashDumpSectorSize) =
      (i + 1) % n * crashDumpSectorSize := by
  rw [← Nat.succ_mul]
  split_ifs with hend
  · have hle : n ≤ i + 1 := Nat.le_of_mul_le_mul_right hend (by decide)
    rw [Nat.le_antisymm hle hi, Nat.mod_self, Nat.zero_mul]
  · have hlt : i + 1 < n := Nat.lt_of_le_of_ne hi fun heq => hend (by rw [← heq])
    rw [Nat.mod_eq_of_lt hlt]

/-- The third part of a round writes the buffer when it is full. -/
theorem Written.writeFull (h : Written flash p q m d s) (hopen : Opened q m d s)
    (hpos : 0 < flash.length) : ∃ m', Progress flash p q m' d s.writeFull := by
  unfold CrashDump.writeFull
  by_cases hfull : s.offset = crashDumpSectorSize
  · rw [if_pos hfull]
    have hwrite := h.crashDumpWrite hpos
    have hlen := hopen.length_eq
    have hbuf : d.length = (m + 1) * payloadSize := by
      rw [Nat.succ_mul]
      simp only [crashDumpHeaderSize, crashDumpSectorSize, payloadSize] at *
      omega
    have hsize : s.flash.length = flash.length := by rw [h.flash_eq, Ring.length_writeAround]
    refine ⟨m + 1, ⟨?_, hwrite.2, ?_⟩, .inl ⟨rfl, hbuf, ?_⟩⟩
    · rw [Ring.writeAround, ← hopen.sectorOf]
      exact hwrite.1
    · change (if _ then _ else _) = _
      rw [hsize, h.offs_eq, hfull, nextOffs_eq (Nat.mod_lt _ hpos), Nat.mod_add_mod]
      rfl
    · exact (curDumpSeqnum_crashDumpWrite s).trans hopen.next
  · rw [if_neg hfull]
    exact ⟨m, h, .inr ⟨hopen, Nat.lt_of_le_of_ne hopen.offset_le hfull⟩⟩

/-- The rounds go on with the output, and stop. -/
theorem Progress.faultRounds (hpos : 0 < flash.length) {buf : List UInt8} {fuel : Nat}
    (h : Progress flash p q m d s) (hbuf : buf.length + crashDumpSectorSize ≤ 0x100000000)
    (hfuel : buf.length < fuel) :
    ∃ t m', s.faultRounds fuel buf = some t ∧ Progress flash p q m' (d ++ buf) t := by
  induction fuel generalizing s m d buf with
  | zero => exact absurd hfuel (Nat.not_lt_zero _)
  | succ fuel ih =>
    obtain ⟨hwritten, hopen, hroom⟩ := h.openBuffer
    have hlen := uintLen_eq hroom hbuf
    obtain ⟨t, ht, hopen', hflash, herased, hoffs⟩ := hopen.fillBuffer hlen
    obtain ⟨m', hprogress⟩ :=
      (hwritten.append h.length_le _ hflash herased hoffs).writeFull hopen' hpos
    unfold CrashDump.faultRounds
    simp only [ht]
    split_ifs with hdone
    · refine ⟨t.writeFull, m', rfl, ?_⟩
      rwa [List.take_of_length_le (List.drop_eq_nil_iff.mp hdone)] at hprogress
    · -- a round that does not finish the output has moved something
      have hshort : (buf.drop (s.openBuffer.uintLen buf.length)).length < buf.length := by
        have hne : ¬buf.length ≤ s.openBuffer.uintLen buf.length :=
          fun hle => hdone (List.drop_eq_nil_iff.mpr hle)
        rw [List.length_drop]
        omega
      obtain ⟨u, m'', hu, hrest⟩ := ih hprogress
        (Nat.le_trans (Nat.add_le_add_right (Nat.le_of_lt hshort) _) hbuf)
        (Nat.lt_of_lt_of_le hshort (Nat.le_of_lt_succ hfuel))
      refine ⟨u, m'', hu, ?_⟩
      rwa [List.append_assoc, List.take_append_drop] at hrest

theorem Progress.fault (hpos : 0 < flash.length) (h : Progress flash p q m d s) {c : Chunk}
    (hc : ¬c.HasPrefix) :
    ∃ t m', s.fault c = some t ∧ Progress flash p q m' (d ++ c.buf) t := by
  rw [CrashDump.fault, if_neg hc]
  exact h.faultRounds hpos c.beside (Nat.lt_succ_self _)

/-- The sectors so far depend on the output so far, and not on its pieces. -/
theorem Progress.foldlM_fault (hpos : 0 < flash.length) {chunks : List Chunk}
    (h : Progress flash p q m d s) (hchunks : ∀ c ∈ chunks, ¬c.HasPrefix) :
    ∃ t m', chunks.foldlM CrashDump.fault s = some t ∧
      Progress flash p q m' (d ++ chunks.flatMap Chunk.buf) t := by
  induction chunks generalizing s m d with
  | nil => exact ⟨s, m, rfl, by simpa using h⟩
  | cons c chunks ih =>
    obtain ⟨t, m', ht, hprogress⟩ := h.fault hpos (hchunks c List.mem_cons_self)
    obtain ⟨u, m'', hu, hrest⟩ := ih hprogress fun x hx => hchunks x (List.mem_cons_of_mem _ hx)
    refine ⟨u, m'', ?_, ?_⟩
    · rw [List.foldlM_cons, ht]
      exact hu
    · rwa [List.flatMap_cons, ← List.append_assoc]

/-- A boot starts a dump without output. -/
theorem Resumes.progress (h : Resumes flash p q) :
    Progress flash p q 0 [] (crashDumpInit flash) := by
  refine ⟨⟨rfl, rfl, ?_⟩, .inl ⟨rfl, (Nat.zero_mul _).symm, congrArg Prod.fst h.getSeqnum_eq⟩⟩
  change (getSeqnum flash).2 * _ = _
  rw [h.getSeqnum_eq, Nat.add_zero, Nat.mod_eq_of_lt h.lt]

/-! ### The end of a crash -/

/-- What a crash with the output `d` leaves: the sectors that are full, and `last` behind them. -/
structure Ended (flash : List Sector) (p q m : Nat) (d : List UInt8) (last : Sector)
    (t : CrashDump) : Prop where
  flash_eq : t.flash =
    (Ring.writeAround flash p (dumpSector q d) m).set ((p + m) % flash.length) last
  erased_eq : t.erased = (List.range (m + 1)).map fun j => (p + j) % flash.length
  length_le : m * payloadSize ≤ d.length
  lt_length : d.length < (m + 1) * payloadSize
  last_cases : last = dumpSector q d m ∨ d.length = m * payloadSize ∧ last = .erased

theorem Progress.notify (hpos : 0 < flash.length) (h : Progress flash p q m d s) :
    Ended flash p q m d s.sectorOf (s.notify .crashEnd) := by
  obtain ⟨hflash, herased⟩ := h.crashDumpWrite hpos
  refine ⟨hflash, herased, h.length_le, h.lt_length, ?_⟩
  rcases h.buffer with ⟨hoff, hlen, -⟩ | ⟨hopen, -⟩
  · exact .inr ⟨hlen, if_pos hoff⟩
  · exact .inl hopen.sectorOf

/-- Every crash ends. -/
theorem Resumes.run (h : Resumes flash p q) (c : Crash) :
    ∃ t m last, c.run flash = some t ∧ Ended flash p q m c.output last t := by
  have hstart : (crashDumpInit flash).notify c.start = crashDumpInit flash := if_neg c.notEnd
  obtain ⟨t, m, ht, hprogress⟩ := h.progress.foldlM_fault h.pos c.noPrefix
  refine ⟨t.notify .crashEnd, m, t.sectorOf, ?_, hprogress.notify h.pos⟩
  rw [Crash.run, hstart, ht]
  rfl

/-- The crash is stored when its last sector is not full. -/
theorem Ended.stored {last : Sector} (h : Ended flash p q m d last s)
    (hdvd : ¬payloadSize ∣ d.length) (hfits : q + sectorCount d ≤ 0x100000000) :
    s.flash = Ring.writeAround flash p (dumpSector q d) (sectorCount d) ∧
      Stored flash s.flash s.erased p q d := by
  have hm : d.length / payloadSize = m :=
    Nat.div_eq_of_lt_le h.length_le h.lt_length
  have hcount : sectorCount d = m + 1 := by
    rw [sectorCount, Pieces.count_of_not_dvd payloadSize_pos hdvd, hm]
  have hlast : last = dumpSector q d m := by
    rcases h.last_cases with hlast | ⟨hlen, -⟩
    · exact hlast
    · exact absurd ⟨m, hlen.trans (Nat.mul_comm _ _)⟩ hdvd
  have hflash : s.flash = Ring.writeAround flash p (dumpSector q d) (sectorCount d) := by
    rw [h.flash_eq, hlast, hcount, Ring.writeAround]
  refine ⟨hflash, ?_, fun j hj hlate => ?_, fun lost hlost => ?_, fun i hi => ?_, fun i hi => ?_⟩
  · rw [hflash, Ring.length_writeAround]
  · refine ⟨dumpSector q d j, ?_, valid_dumpSector q d j, seqnum_dumpSector d (by omega)⟩
    rw [hflash, Ring.getElem?_writeAround_newest hj hlate]
  · have hpieces : ((List.range' lost (sectorCount d - lost)).flatMap fun j =>
        payload s.flash ((p + j) % flash.length)) =
        (List.range' lost (sectorCount d - lost)).flatMap
          (Pieces.piece payloadSize (Pieces.filled payloadSize 0xff d)) := by
      refine List.flatMap_congr fun j hj => ?_
      obtain ⟨hge, hlt⟩ := List.mem_range'_1.mp hj
      have hj' : j < sectorCount d := by omega
      rw [payload, hflash, Ring.getElem?_writeAround_newest hj' (by omega)]
      exact body_dumpSector q hj'
    rw [hpieces, Pieces.flatMap_piece]
    refine List.take_of_length_le ?_
    rw [List.length_drop, Pieces.length_filled payloadSize_pos, Nat.sub_mul]
    exact Nat.le_refl _
  · rw [hflash, Ring.getElem?_writeAround_frame hi]
  · rw [h.erased_eq, ← hcount] at hi
    obtain ⟨j, hj, rfl⟩ := List.mem_map.mp hi
    exact ⟨j, List.mem_range.mp hj, rfl⟩

/-- The next boot resumes behind the crash. -/
theorem Resumes.writeAround (h : Resumes flash p q) {n : Nat} (hn : q + (n + 1) ≤ 0x100000000)
    (d : List UInt8) :
    Resumes (Ring.writeAround flash p (dumpSector q d) (n + 1))
      ((p + (n + 1)) % flash.length) (q + (n + 1)) := by
  refine ⟨?_, ?_, .inr ⟨(p + n) % flash.length, dumpSector q d n, ?_, valid_dumpSector q d n,
    fun hzero => ?_, fun j x hj hv hne => ?_, ?_, ?_⟩⟩
  · rw [Ring.length_writeAround]
    exact h.pos
  · rw [Ring.length_writeAround]
    exact h.inside
  · exact Ring.getElem?_writeAround_newest (Nat.lt_succ_self n)
      (Nat.add_le_add_left h.pos n)
  · have hnum := seqnum_dumpSector d (q := q) (j := n) (by omega)
    rw [hzero] at hnum
    have hq : q + n = 0 := hnum.symm
    rw [h.eq_zero (by omega), show n = 0 by omega, Nat.zero_add, Nat.zero_mod]
  · rw [UInt32.lt_iff_toNat_lt, seqnum_dumpSector d (by omega)]
    rcases Ring.getElem?_writeAround_cases hj with ⟨i, hi, rfl, rfl⟩ | hold
    · have hin : i ≠ n := fun heq => hne (by rw [heq])
      rw [seqnum_dumpSector d (by omega)]
      omega
    · have hlt := h.numbers (List.mem_of_getElem? hold) hv
      omega
  · rw [Ring.length_writeAround, Nat.mod_add_mod]
    rfl
  · rw [seqnum_dumpSector d (by omega)]
    rfl

/-- A last sector that is full has another one erased behind it, which is outside, or holds the
oldest part of the dump that still has room. -/
theorem Ended.not_dvd {last : Sector} (h : Ended flash p q m d last s) (hr : Resumes flash p q)
    (hstored : Stored flash s.flash s.erased p q d) : ¬payloadSize ∣ d.length := by
  intro hdvd
  have hm : d.length / payloadSize = m := Nat.div_eq_of_lt_le h.length_le h.lt_length
  have hcount : sectorCount d = m := by
    rw [sectorCount, Pieces.count_of_dvd payloadSize_pos hdvd, hm]
  have herased : (p + m) % flash.length ∈ s.erased := by
    rw [h.erased_eq]
    exact List.mem_map_of_mem List.self_mem_range_succ
  obtain ⟨j, hj, hplace⟩ := hstored.erased_inside _ herased
  rw [hcount] at hj
  have hround : j + flash.length ≤ m := Ring.add_size_le hplace.symm hj
  have hpos := hr.pos
  have hinside := hr.inside
  simp only [crashDumpSectorSize] at hinside
  -- sector `m` has come round to this one
  have hsame : (p + m) % flash.length = (p + (m - flash.length)) % flash.length := by
    rw [show p + m = p + (m - flash.length) + flash.length by omega, Nat.add_mod_right]
  obtain ⟨sec, hsec, hv, hnum⟩ := hstored.numbered (m - flash.length) (by omega) (by omega)
  rw [← hsame, h.flash_eq, List.getElem?_set_self] at hsec
  · obtain rfl := Option.some.inj hsec
    rcases h.last_cases with hlast | ⟨-, hlast⟩
    · rw [hlast] at hnum
      have hmod : (q + m) % 0x100000000 = q + (m - flash.length) := hnum
      omega
    · rw [hlast] at hv
      exact absurd hv (by decide)
  · rw [Ring.length_writeAround]
    exact Nat.mod_lt _ hpos

/-- The numbers of a dump that is stored do not overflow. -/
theorem Stored.fits {flash' : List Sector} {erased : List Nat}
    (h : Stored flash flash' erased p q d) (hpos : 0 < flash.length)
    (hcount : 0 < sectorCount d) : q + sectorCount d ≤ 0x100000000 := by
  obtain ⟨sec, -, -, hnum⟩ := h.numbered (sectorCount d - 1) (by omega) (by omega)
  have hlt : sec.header.seqnum.toNat < 0x100000000 := sec.header.seqnum.toNat_lt
  omega

end rounds

/-! ### Boots -/

/-- A crash is stored exactly when its last sector is not full and its numbers do not overflow. -/
theorem stores_iff {s : DumpArea} {p q : Nat} (h : Resumes s.flash p q) (b : Boot) :
    (∃ t, s.boot b = some t ∧ b.Stores s t) ↔ b.Fits s := by
  cases b with
  | quiet => exact iff_of_true ⟨_, rfl, rfl, rfl⟩ trivial
  | crash c =>
    obtain ⟨t, m, last, ht, hended⟩ := h.run c
    have hboot : s.boot (.crash c) = some ⟨t.flash, t.erased⟩ := by
      rw [DumpArea.boot, ht]
      rfl
    constructor
    · rintro ⟨u, hu, p', q', hgo, hstored⟩
      obtain rfl := Option.some.inj (hboot.symm.trans hu)
      obtain ⟨rfl, rfl⟩ := h.unique hgo
      have hdvd := hended.not_dvd h hstored
      refine ⟨hdvd, (h.fits_iff _).mpr (hstored.fits h.pos ?_)⟩
      rw [sectorCount, Pieces.count_of_not_dvd payloadSize_pos hdvd]
      exact Nat.succ_pos _
    · rintro ⟨hdvd, hfits⟩
      exact ⟨_, hboot, p, q, h.goesOn, (hended.stored hdvd ((h.fits_iff _).mp hfits)).2⟩

/-- A boot that stores its crash leaves no doubt where the next one resumes. -/
theorem Resumes.boot {s t : DumpArea} {p q : Nat} (h : Resumes s.flash p q) {b : Boot}
    (ht : s.boot b = some t) (hstores : b.Stores s t) : ∃ p' q', Resumes t.flash p' q' := by
  have hfits : b.Fits s := (stores_iff h b).mp ⟨t, ht, hstores⟩
  cases b with
  | quiet =>
    refine ⟨p, q, ?_⟩
    rw [hstores.1]
    exact h
  | crash c =>
    obtain ⟨u, m, last, hu, hended⟩ := h.run c
    rw [DumpArea.boot, hu] at ht
    obtain rfl := Option.some.inj ht
    obtain ⟨hdvd, hnum⟩ := hfits
    have hq := (h.fits_iff _).mp hnum
    have hflash : u.flash = _ := (hended.stored hdvd hq).1
    rw [sectorCount, Pieces.count_of_not_dvd payloadSize_pos hdvd] at hq hflash
    change ∃ p' q', Resumes u.flash p' q'
    rw [hflash]
    exact ⟨_, _, h.writeAround hq _⟩

theorem Resumes.lawful_iff {s : DumpArea} {p q : Nat} (h : Resumes s.flash p q)
    (boots : List Boot) :
    Transition.Lawful DumpArea.boot (fun _ s b t => b.Stores s t) [] s boots ↔
      Transition.Along DumpArea.boot (fun s b => b.Fits s) s boots :=
  @Transition.lawful_iff_along _ _ DumpArea.boot (fun s b => b.Fits s)
    (fun _ s b t => b.Stores s t) (fun _ s => ∃ p q, Resumes s.flash p q)
    (fun _ _ b ⟨_, _, hr⟩ => stores_iff hr b) (fun _ _ _ _ ⟨_, _, hr⟩ ht hlaw => hr.boot ht hlaw)
    [] _ ⟨p, q, h⟩ boots

/-- From a blank area on, every crash is stored behind the one before, exactly in the runs whose
crashes all end inside of a sector and have numbers left. -/
theorem dumps_iff (a : BlankArea) (boots : List Boot) :
    Transition.Lawful DumpArea.boot (fun _ s b t => b.Stores s t) [] a.initial boots ↔
      Transition.Along DumpArea.boot (fun s b => b.Fits s) a.initial boots :=
  Resumes.lawful_iff a.resumes boots

/-- An area of two erased sectors. -/
def BlankArea.two : BlankArea where
  sectors := [.erased, .erased]
  nonempty := List.cons_ne_nil _ _
  inside := by decide
  blank sec hsec := by
    rw [show sec = .erased by simpa using hsec]
    decide

/-- Output of `n` letters. -/
def Chunk.letters (n : Nat) (hn : n ≤ 0x1000) : Chunk where
  buf := .replicate n 65
  behind := []
  beside := by
    rw [List.length_replicate, crashDumpSectorSize]
    omega

theorem Chunk.letters_noPrefix {n : Nat} (hn : n ≤ 0x1000) : ¬(Chunk.letters n hn).HasPrefix := by
  intro h
  have hmem : (95 : UInt8) ∈ (Chunk.letters n hn).buf ++ (Chunk.letters n hn).behind :=
    (List.takeWhile_sublist _).subset (h.subset List.mem_cons_self)
  rw [show (Chunk.letters n hn).buf ++ (Chunk.letters n hn).behind = List.replicate n 65 from
    List.append_nil _] at hmem
  exact absurd (List.eq_of_mem_replicate hmem) (by decide)

/-- A failing assertion with `n` letters of output. -/
def Crash.letters (n : Nat) (hn : n ≤ 0x1000) : Crash where
  start := .crashAssertStart
  chunks := [.letters n hn]
  notEnd := HalTraceState.noConfusion
  noPrefix c hc := by
    rw [List.mem_singleton.mp hc]
    exact Chunk.letters_noPrefix hn

theorem Crash.length_output_letters {n : Nat} (hn : n ≤ 0x1000) :
    (Crash.letters n hn).output.length = n := by
  rw [show (Crash.letters n hn).output = List.replicate n 65 ++ [] from rfl, List.append_nil,
    List.length_replicate]

/-- Two crashes, the first one with two sectors. The second crash fills the first sector with its
output, and erases the other one too, with the end of the first crash in it. -/
theorem full_sector_not_stored :
    ¬Transition.Lawful DumpArea.boot (fun _ s b t => b.Stores s t) [] BlankArea.two.initial
      [.crash (.letters 4090 (by decide)), .crash (.letters 4080 (by decide))] := by
  intro h
  obtain ⟨t, ht, hstores, hrest⟩ := Transition.lawful_cons.mp h
  obtain ⟨p, q, hr⟩ := Resumes.boot BlankArea.two.resumes ht hstores
  obtain ⟨u, hu, hstores', -⟩ := Transition.lawful_cons.mp hrest
  have hfits := (stores_iff hr _).mp ⟨u, hu, hstores'⟩
  refine hfits.1 ?_
  rw [Crash.length_output_letters]
  decide

end EarbudFirmware.CrashDumpSection
