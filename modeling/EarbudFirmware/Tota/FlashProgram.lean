import EarbudFirmware.Lib.NorMemory

/-!
# Reading, modifying and writing the flash

A range of the flash is written or erased in three steps: the end of the sector in which it starts,
the whole sectors, and the begin of the last one. What the first and the last sector hold besides is
saved in a buffer and programmed again. Addresses are taken not to wrap.

## Main definitions

* `flashSplit` — the bytes of the three steps
* `writeFlash`, `totaWriteFlash`, `eraseFlash` — `_write_flash`, `tota_write_flash`, `_erase_flash`
* `Replaces` — a range gets its data, and nothing else changes

## Main results

* `Wrote.trans` — steps one behind the other
* `rangesReplaced` — writing and erasing change only the range
-/

namespace EarbudFirmware.Tota

open NorMemory (Content Op InRange overlay)

/-- `FLASH_SECTOR_SIZE_IN_BYTES`. -/
def sectorSize : Nat := 4096

/-- The flash as it is read, `sector_buffer`, and the calls of `hal_norflash_erase` and
`hal_norflash_write`. -/
structure FlashState where
  flash : Content
  sectorBuffer : Content
  calls : List Op

namespace FlashState

/-- A call that erases or programs. -/
def hal (s : FlashState) (op : Op) : FlashState :=
  { s with
    flash := op.apply s.flash
    calls := s.calls ++ [op] }

/-- `memcpy(sector_buffer, (uint8_t*)addr, len)`. -/
def save (s : FlashState) (addr len : Nat) : FlashState :=
  { s with sectorBuffer := overlay 0 len (fun i => s.flash (addr + i)) s.sectorBuffer }

/-- `memcpy` and `memset` to `sector_buffer+offset`. -/
def patch (s : FlashState) (offset len : Nat) (data : Nat → UInt8) : FlashState :=
  { s with sectorBuffer := overlay offset len data s.sectorBuffer }

end FlashState

/-- The locals `base1`, `base2`, `pre_bytes`, `middle_bytes` and `post_bytes`. -/
structure FlashSplit where
  base1 : Nat
  base2 : Nat
  preBytes : Nat
  middleBytes : Nat
  postBytes : Nat

/-- How the three functions split a range. -/
def flashSplit (startAddr dataLen : Nat) : FlashSplit :=
  let base1 := startAddr - startAddr % sectorSize
  let base2 := startAddr + dataLen - (startAddr + dataLen) % sectorSize
  if startAddr % sectorSize = 0 then
    let middleBytes := dataLen - dataLen % sectorSize
    ⟨base1, base2, 0, middleBytes, dataLen - middleBytes⟩
  else if base1 = base2 then ⟨base1, base2, dataLen, 0, 0⟩
  else
    ⟨base1, base2, sectorSize - startAddr % sectorSize, base2 - base1 - sectorSize,
      startAddr + dataLen - base2⟩

namespace FlashSplit

/-- `middle_start_addr`. -/
def middleStartAddr (p : FlashSplit) (startAddr : Nat) : Nat :=
  if p.base1 ≠ startAddr then p.base1 + sectorSize else p.base1

/-- The sector in which the range starts, with the data in its place. -/
def pre (p : FlashSplit) (startAddr dataLen : Nat) (data : Nat → UInt8) (s : FlashState) :
    FlashState :=
  if p.preBytes ≠ 0 then
    let s := s.save p.base1 sectorSize
    let s := s.patch (startAddr - p.base1)
      (if p.base1 = p.base2 then dataLen else sectorSize - (startAddr - p.base1)) data
    let s := s.hal (.erase p.base1 sectorSize)
    s.hal (.program p.base1 sectorSize s.sectorBuffer)
  else s

/-- The whole sectors, of which `sector` is one. -/
def middle (p : FlashSplit) (startAddr : Nat) (sector : Nat → FlashState → FlashState)
    (s : FlashState) : FlashState :=
  (List.range (p.middleBytes / sectorSize)).foldl
    (fun s i => sector (p.middleStartAddr startAddr + i * sectorSize) s) s

/-- The sector in which the range ends. `begin` programs the bytes of the range. -/
def post (p : FlashSplit) (begin : FlashState → FlashState) (s : FlashState) : FlashState :=
  if p.postBytes ≠ 0 then
    let existBytes := sectorSize - p.postBytes
    let s := s.save (p.base2 + p.postBytes) existBytes
    let s := begin (s.hal (.erase p.base2 sectorSize))
    s.hal (.program (p.base2 + p.postBytes) existBytes s.sectorBuffer)
  else s

end FlashSplit

/-- `_write_flash`, and `tota_write_flash` up to its check. -/
def writeFlash (startAddr : Nat) (dataBuf : Nat → UInt8) (dataLen : Nat) (s : FlashState) :
    FlashState :=
  let p := flashSplit startAddr dataLen
  let s := p.pre startAddr dataLen dataBuf s
  let s := p.middle startAddr (fun addr s =>
    let s := s.hal (.erase addr sectorSize)
    -- `buffer_offset + i*sector_size` is how far the sector is from the start
    s.hal (.program addr sectorSize fun i => dataBuf (addr - startAddr + i))) s
  p.post (fun s =>
    s.hal (.program p.base2 p.postBytes fun i => dataBuf (p.base2 - startAddr + i))) s

/-- `tota_write_flash`. -/
def totaWriteFlash (startAddr : Nat) (dataBuf : Nat → UInt8) (dataLen : Nat) (s : FlashState) :
    Bool × FlashState :=
  let s := writeFlash startAddr dataBuf dataLen s
  ((List.range dataLen).all fun i => dataBuf i == s.flash (startAddr + i), s)

/-- `_erase_flash`. -/
def eraseFlash (startAddr dataLen : Nat) (s : FlashState) : FlashState :=
  let p := flashSplit startAddr dataLen
  let s := p.pre startAddr dataLen (fun _ => 0xFF) s
  let s := p.middle startAddr (fun addr s => s.hal (.erase addr sectorSize)) s
  p.post id s

/-! ### The contract -/

/-- Every program call stays in the sector that was erased last; `base` is that sector. -/
def Confined : (base : Option Nat) → List Op → Prop
  | _, [] => True
  | _, .erase a n :: ops => n = sectorSize ∧ Confined (some a) ops
  | base, .program a n _ :: ops =>
    (∃ b, base = some b ∧ b ≤ a ∧ a + n ≤ b + sectorSize) ∧ Confined base ops

/-- The range gets its data, nothing else changes, and program calls stay in erased sectors. -/
structure Replaces (startAddr dataLen : Nat) (data : Nat → UInt8) (s t : FlashState) : Prop where
  inside : ∀ i < dataLen, t.flash (startAddr + i) = data i
  outside : ∀ x, ¬InRange startAddr dataLen x → t.flash x = s.flash x
  confined : ∃ calls, t.calls = s.calls ++ calls ∧ Confined none calls

variable {startAddr dataLen : Nat} {data : Nat → UInt8} {s t u : FlashState}

/-! ### The split -/

/-- The three steps are one behind the other. -/
structure FlashSplit.Splits (p : FlashSplit) (startAddr dataLen : Nat) : Prop where
  total : p.preBytes + p.middleBytes + p.postBytes = dataLen
  first : p.preBytes ≠ 0 → p.base1 ≤ startAddr ∧ startAddr + p.preBytes ≤ p.base1 + sectorSize ∧
    p.preBytes = if p.base1 = p.base2 then dataLen else sectorSize - (startAddr - p.base1)
  whole : p.middleBytes / sectorSize * sectorSize = p.middleBytes
  middle : p.middleBytes ≠ 0 → p.middleStartAddr startAddr = startAddr + p.preBytes
  last : p.postBytes ≠ 0 → p.base2 = startAddr + p.preBytes + p.middleBytes
  short : p.postBytes ≤ sectorSize

theorem flashSplit_splits (startAddr dataLen : Nat) :
    (flashSplit startAddr dataLen).Splits startAddr dataLen := by
  rw [flashSplit]
  split_ifs with haligned hone
  · have hbase : ¬startAddr - startAddr % sectorSize ≠ startAddr := by omega
    refine ⟨?_, ?_, ?_, ?_, ?_, ?_⟩ <;> dsimp only [FlashSplit.middleStartAddr]
    · omega
    · exact fun h => absurd rfl h
    · simp only [sectorSize]
      omega
    · rw [if_neg hbase]
      omega
    · simp only [sectorSize] at *
      omega
    · simp only [sectorSize]
      omega
  · refine ⟨?_, ?_, ?_, ?_, ?_, ?_⟩ <;> dsimp only
    · rfl
    · have hend : startAddr + dataLen ≤ startAddr - startAddr % sectorSize + sectorSize := by
        simp only [sectorSize] at *
        omega
      exact fun _ => ⟨Nat.sub_le _ _, hend, (if_pos hone).symm⟩
    · rfl
    · exact fun h => absurd rfl h
    · exact fun h => absurd rfl h
    · exact Nat.zero_le _
  · have hbase : startAddr - startAddr % sectorSize ≠ startAddr := by
      have := Nat.mod_le startAddr sectorSize
      omega
    refine ⟨?_, ?_, ?_, ?_, ?_, ?_⟩ <;> dsimp only [FlashSplit.middleStartAddr]
    · simp only [sectorSize] at *
      omega
    · rw [if_neg hone]
      simp only [sectorSize] at *
      omega
    · simp only [sectorSize] at *
      omega
    · rw [if_pos hbase]
      simp only [sectorSize] at *
      omega
    · simp only [sectorSize] at *
      omega
    · simp only [sectorSize] at *
      omega

/-! ### Steps -/

theorem Confined.of_none {ops : List Op} (h : Confined none ops) (base : Option Nat) :
    Confined base ops := by
  cases ops with
  | nil => trivial
  | cons op ops =>
    cases op with
    | erase a n => exact h
    | program a n d =>
      obtain ⟨b, hb, -⟩ := h.1
      exact absurd hb.symm (Option.some_ne_none b)

theorem Confined.append {base : Option Nat} {ops ops' : List Op} (h : Confined base ops)
    (h' : Confined none ops') : Confined base (ops ++ ops') := by
  induction ops generalizing base with
  | nil => exact h'.of_none base
  | cons op ops ih =>
    cases op with
    | erase a n => exact ⟨h.1, ih h.2⟩
    | program a n d => exact ⟨h.1, ih h.2⟩

/-- A step that writes `n` bytes of data from `a` on. -/
structure Wrote (a n : Nat) (d : Nat → UInt8) (s t : FlashState) : Prop where
  flash : t.flash = overlay a n d s.flash
  confined : ∃ calls, t.calls = s.calls ++ calls ∧ Confined none calls

theorem Wrote.refl (a : Nat) (d : Nat → UInt8) (s : FlashState) : Wrote a 0 d s s :=
  ⟨(NorMemory.overlay_none a d s.flash).symm, [], (List.append_nil _).symm, trivial⟩

/-- Steps one behind the other. -/
theorem Wrote.trans {a n m : Nat} (h : Wrote a n data s t)
    (h' : Wrote (a + n) m (fun i => data (n + i)) t u) : Wrote a (n + m) data s u := by
  obtain ⟨calls, hcalls, hconfined⟩ := h.confined
  obtain ⟨calls', hcalls', hconfined'⟩ := h'.confined
  refine ⟨?_, calls ++ calls', ?_, hconfined.append hconfined'⟩
  · rw [h'.flash, h.flash, NorMemory.overlay_append]
  · rw [hcalls', hcalls, List.append_assoc]

/-- What a step wrote is the contract of a range. -/
theorem Wrote.replaces (h : Wrote startAddr dataLen data s t) :
    Replaces startAddr dataLen data s t := by
  refine ⟨fun i hi => ?_, fun x hx => ?_, h.confined⟩
  · rw [h.flash, NorMemory.overlay_of_inRange ⟨Nat.le_add_right _ _, Nat.add_lt_add_left hi _⟩,
      Nat.add_sub_cancel_left]
  · rw [h.flash, NorMemory.overlay_of_not_inRange hx]

/-- Erasing a sector writes `0xFF`. -/
theorem wrote_erase (a : Nat) (s : FlashState) :
    Wrote a sectorSize (fun _ => 0xFF) s (s.hal (.erase a sectorSize)) :=
  ⟨rfl, [.erase a sectorSize], rfl, rfl, trivial⟩

/-- Erasing a sector and programming it writes the data. -/
theorem wrote_sector (a : Nat) (d : Nat → UInt8) (s : FlashState) :
    Wrote a sectorSize d s
      ((s.hal (.erase a sectorSize)).hal (.program a sectorSize d)) := by
  refine ⟨?_, [.erase a sectorSize, .program a sectorSize d], ?_, rfl,
    ⟨a, rfl, Nat.le_refl a, Nat.le_refl _⟩, trivial⟩
  · funext x
    by_cases hx : InRange a sectorSize x
    · have hbyte : (Op.program a sectorSize d).byteAt x 0xFF = d (x - a) := by
        rw [Op.byteAt, if_pos hx, NorMemory.erased_and]
      rw [NorMemory.overlay_of_inRange hx, ← hbyte]
      exact congrArg ((Op.program a sectorSize d).byteAt x) (if_pos hx)
    · rw [NorMemory.overlay_of_not_inRange hx]
      exact (if_neg hx).trans (if_neg hx)
  · exact List.append_assoc _ _ _

/-- The first step: the saved sector gets the data in its place. -/
theorem FlashSplit.Splits.wrote_pre {p : FlashSplit} (h : p.Splits startAddr dataLen) :
    Wrote startAddr p.preBytes data s (p.pre startAddr dataLen data s) := by
  rw [FlashSplit.pre]
  by_cases hpre : p.preBytes ≠ 0
  · obtain ⟨hbase, hend, hlen⟩ := h.first hpre
    rw [if_pos hpre, ← hlen]
    obtain ⟨hflash, calls, hcalls, hconfined⟩ := wrote_sector p.base1
      (overlay (startAddr - p.base1) p.preBytes data
        (overlay 0 sectorSize (fun i => s.flash (p.base1 + i)) s.sectorBuffer)) s
    refine ⟨?_, calls, hcalls, hconfined⟩
    refine hflash.trans (funext fun x => ?_)
    by_cases hx : InRange p.base1 sectorSize x
    · rw [NorMemory.overlay_of_inRange hx]
      by_cases hin : InRange startAddr p.preBytes x
      · have hplace : InRange (startAddr - p.base1) p.preBytes (x - p.base1) := by
          obtain ⟨hlo, hhi⟩ := hin
          constructor <;> omega
        rw [NorMemory.overlay_of_inRange hplace, NorMemory.overlay_of_inRange hin]
        congr 1
        omega
      · have hplace : ¬InRange (startAddr - p.base1) p.preBytes (x - p.base1) := by
          rintro ⟨hlo, hhi⟩
          have := hx.1
          exact hin ⟨by omega, by omega⟩
        have hsaved : InRange 0 sectorSize (x - p.base1) := ⟨Nat.zero_le _, by
          have := hx.1
          have := hx.2
          omega⟩
        rw [NorMemory.overlay_of_not_inRange hplace, NorMemory.overlay_of_inRange hsaved,
          NorMemory.overlay_of_not_inRange hin, Nat.sub_zero, Nat.add_sub_cancel' hx.1]
    · have hout : ¬InRange startAddr p.preBytes x := by
        rintro ⟨hlo, hhi⟩
        exact hx ⟨by omega, by omega⟩
      rw [NorMemory.overlay_of_not_inRange hx, NorMemory.overlay_of_not_inRange hout]
  · rw [if_neg hpre, not_not.mp hpre]
    exact .refl startAddr data s

/-- The loop over whole sectors. -/
theorem wrote_sectors (a : Nat) (d : Nat → UInt8) {sector : Nat → FlashState → FlashState}
    (hsector : ∀ i s, Wrote (a + i) sectorSize (fun j => d (i + j)) s (sector (a + i) s))
    (n : Nat) (s : FlashState) :
    Wrote a (n * sectorSize) d s
      ((List.range n).foldl (fun s i => sector (a + i * sectorSize) s) s) := by
  induction n with
  | zero =>
    rw [Nat.zero_mul]
    exact .refl a d s
  | succ n ih =>
    rw [List.range_succ, List.foldl_append, Nat.succ_mul]
    exact ih.trans (hsector (n * sectorSize) _)

/-- The second step. -/
theorem FlashSplit.Splits.wrote_middle {p : FlashSplit} (h : p.Splits startAddr dataLen)
    {sector : Nat → FlashState → FlashState}
    (hsector : ∀ i s, Wrote (startAddr + i) sectorSize (fun j => data (i + j)) s
      (sector (startAddr + i) s)) :
    Wrote (startAddr + p.preBytes) p.middleBytes (fun i => data (p.preBytes + i)) s
      (p.middle startAddr sector s) := by
  rw [FlashSplit.middle]
  by_cases hmiddle : p.middleBytes = 0
  · rw [hmiddle]
    exact .refl _ _ s
  · rw [h.middle hmiddle]
    have hloop := wrote_sectors (startAddr + p.preBytes) (fun i => data (p.preBytes + i))
      (fun i s => by
        have hnext := hsector (p.preBytes + i) s
        rw [← Nat.add_assoc] at hnext
        simpa only [Nat.add_assoc] using hnext) (p.middleBytes / sectorSize) s
    rwa [h.whole] at hloop

/-- What programs the bytes of the range in the last sector, once it is erased. -/
structure Begins (a n : Nat) (d : Nat → UInt8) (begin : FlashState → FlashState) : Prop where
  sectorBuffer : ∀ s, (begin s).sectorBuffer = s.sectorBuffer
  flash : ∀ s, (∀ x, InRange a sectorSize x → s.flash x = 0xFF) →
    (begin s).flash = overlay a n d s.flash
  confined : ∃ calls, (∀ s, (begin s).calls = s.calls ++ calls) ∧
    ∀ ops, Confined (some a) ops → Confined (some a) (calls ++ ops)

/-- The third step: what is behind the range is programmed again. -/
theorem wrote_post {p : FlashSplit} {d : Nat → UInt8} {begin : FlashState → FlashState}
    (hshort : p.postBytes ≤ sectorSize) (h : Begins p.base2 p.postBytes d begin) :
    Wrote p.base2 p.postBytes d s (p.post begin s) := by
  rw [FlashSplit.post]
  by_cases hpost : p.postBytes ≠ 0
  · rw [if_pos hpost]
    obtain ⟨calls, hcalls, hconfined⟩ := h.confined
    obtain ⟨b, hb⟩ : ∃ b : Nat → UInt8, b = overlay 0 (sectorSize - p.postBytes)
      (fun i => s.flash (p.base2 + p.postBytes + i)) s.sectorBuffer := ⟨_, rfl⟩
    refine ⟨?_, .erase p.base2 sectorSize :: (calls ++
      [.program (p.base2 + p.postBytes) (sectorSize - p.postBytes) b]), ?_, rfl, ?_⟩
    · dsimp only [FlashState.hal]
      rw [h.sectorBuffer, h.flash _ fun x hx => if_pos hx]
      funext x
      by_cases hin : InRange p.base2 p.postBytes x
      · have hout : ¬InRange (p.base2 + p.postBytes) (sectorSize - p.postBytes) x :=
          fun hx => Nat.not_lt.mpr hx.1 hin.2
        rw [NorMemory.overlay_of_inRange hin]
        exact (if_neg hout).trans (NorMemory.overlay_of_inRange hin _ _)
      · rw [NorMemory.overlay_of_not_inRange hin]
        by_cases hbehind : InRange (p.base2 + p.postBytes) (sectorSize - p.postBytes) x
        · -- the cell is erased, and gets what was saved
          have hsector : InRange p.base2 sectorSize x := by
            obtain ⟨hlo, hhi⟩ := hbehind
            constructor <;> omega
          have hsaved : InRange 0 (sectorSize - p.postBytes) (x - (p.base2 + p.postBytes)) := by
            obtain ⟨hlo, hhi⟩ := hbehind
            constructor <;> omega
          refine (if_pos hbehind).trans ?_
          rw [NorMemory.overlay_of_not_inRange hin]
          refine (congrArg (· &&& _) (if_pos hsector)).trans ?_
          rw [NorMemory.erased_and]
          refine (NorMemory.overlay_of_inRange hsaved
            (fun i => s.flash (p.base2 + p.postBytes + i)) s.sectorBuffer).trans ?_
          rw [Nat.sub_zero, Nat.add_sub_cancel' hbehind.1]
        · have hsector : ¬InRange p.base2 sectorSize x := by
            rintro ⟨hlo, hhi⟩
            rcases Nat.lt_or_ge x (p.base2 + p.postBytes) with hlt | hge
            · exact hin ⟨hlo, hlt⟩
            · exact hbehind ⟨hge, by omega⟩
          refine (if_neg hbehind).trans ?_
          rw [NorMemory.overlay_of_not_inRange hin]
          exact if_neg hsector
    · dsimp only [FlashState.hal]
      rw [h.sectorBuffer, hcalls, hb]
      simp [FlashState.save]
    · refine hconfined _ ⟨⟨p.base2, rfl, Nat.le_add_right _ _, ?_⟩, trivial⟩
      omega
  · rw [if_neg hpost, not_not.mp hpost]
    exact .refl _ _ s

/-- The three steps write the range. -/
theorem wrote_steps (startAddr dataLen : Nat) (data : Nat → UInt8)
    {sector : Nat → FlashState → FlashState} {begin : FlashState → FlashState}
    (hsector : ∀ i s, Wrote (startAddr + i) sectorSize (fun j => data (i + j)) s
      (sector (startAddr + i) s))
    (hbegin : Begins (flashSplit startAddr dataLen).base2 (flashSplit startAddr dataLen).postBytes
      (fun i => data ((flashSplit startAddr dataLen).base2 - startAddr + i)) begin)
    (s : FlashState) :
    Wrote startAddr dataLen data s
      ((flashSplit startAddr dataLen).post begin
        ((flashSplit startAddr dataLen).middle startAddr sector
          ((flashSplit startAddr dataLen).pre startAddr dataLen data s))) := by
  have hsplit := flashSplit_splits startAddr dataLen
  generalize flashSplit startAddr dataLen = p at hsplit hbegin ⊢
  have hfront := hsplit.wrote_pre.trans
    (hsplit.wrote_middle (s := p.pre startAddr dataLen data s) hsector)
  have hlast := wrote_post (s := p.middle startAddr sector (p.pre startAddr dataLen data s))
    hsplit.short hbegin
  by_cases hpost : p.postBytes = 0
  · have htotal : p.preBytes + p.middleBytes = dataLen := by
      rw [← hsplit.total, hpost, Nat.add_zero]
    rw [htotal] at hfront
    rwa [FlashSplit.post, if_neg (not_not.mpr hpost)]
  · have hbase : p.base2 = startAddr + (p.preBytes + p.middleBytes) := by
      rw [hsplit.last hpost, Nat.add_assoc]
    rw [hbase, Nat.add_sub_cancel_left] at hlast
    have hall := hfront.trans hlast
    rwa [hsplit.total] at hall

/-- On erased cells programming writes the data. -/
theorem begins_program {a n : Nat} (d : Nat → UInt8) (h : n ≤ sectorSize) :
    Begins a n d fun s => s.hal (.program a n d) where
  sectorBuffer _ := rfl
  flash s hs := by
    funext x
    by_cases hx : InRange a n x
    · have herased : s.flash x = 0xFF := hs x ⟨hx.1, Nat.lt_of_lt_of_le hx.2 (by omega)⟩
      refine (if_pos hx).trans ?_
      rw [herased, NorMemory.erased_and, NorMemory.overlay_of_inRange hx]
    · exact (if_neg hx).trans (NorMemory.overlay_of_not_inRange hx _ _).symm
  confined := ⟨[.program a n d], fun _ => rfl, fun _ hops =>
    ⟨⟨a, rfl, Nat.le_refl a, Nat.add_le_add_left h a⟩, hops⟩⟩

/-- Erased cells are `0xFF` already. -/
theorem begins_id {a n : Nat} (h : n ≤ sectorSize) : Begins a n (fun _ => 0xFF) id where
  sectorBuffer _ := rfl
  flash s hs := by
    funext x
    by_cases hx : InRange a n x
    · rw [NorMemory.overlay_of_inRange hx]
      exact hs x ⟨hx.1, Nat.lt_of_lt_of_le hx.2 (by omega)⟩
    · rw [NorMemory.overlay_of_not_inRange hx]
      rfl
  confined := ⟨[], fun _ => (List.append_nil _).symm, fun _ hops => hops⟩

theorem writeFlash_wrote (startAddr dataLen : Nat) (dataBuf : Nat → UInt8) (s : FlashState) :
    Wrote startAddr dataLen dataBuf s (writeFlash startAddr dataBuf dataLen s) := by
  refine wrote_steps startAddr dataLen dataBuf (fun i s => ?_)
    (begins_program _ (flashSplit_splits startAddr dataLen).short) s
  rw [Nat.add_sub_cancel_left]
  exact wrote_sector (startAddr + i) _ s

theorem eraseFlash_wrote (startAddr dataLen : Nat) (s : FlashState) :
    Wrote startAddr dataLen (fun _ => 0xFF) s (eraseFlash startAddr dataLen s) :=
  wrote_steps startAddr dataLen (fun _ => 0xFF) (fun i s => wrote_erase (startAddr + i) s)
    (begins_id (flashSplit_splits startAddr dataLen).short) s

/-- What was written is read back. -/
theorem totaWriteFlash_eq (startAddr dataLen : Nat) (dataBuf : Nat → UInt8) (s : FlashState) :
    totaWriteFlash startAddr dataBuf dataLen s =
      (true, writeFlash startAddr dataBuf dataLen s) := by
  have hwrite := (writeFlash_wrote startAddr dataLen dataBuf s).replaces
  refine Prod.ext (List.all_eq_true.mpr fun i hi => ?_) rfl
  rw [hwrite.inside i (List.mem_range.mp hi)]
  exact beq_self_eq_true _

/-- Whatever the flash holds and wherever a range starts and ends: writing it changes the range to
the data, which is read back, erasing it changes the range to `0xFF`, and nothing else changes. -/
theorem rangesReplaced (startAddr dataLen : Nat) (dataBuf : Nat → UInt8) (s : FlashState) :
    (Replaces startAddr dataLen dataBuf s (totaWriteFlash startAddr dataBuf dataLen s).2 ∧
      (totaWriteFlash startAddr dataBuf dataLen s).1 = true) ∧
    Replaces startAddr dataLen dataBuf s (writeFlash startAddr dataBuf dataLen s) ∧
    Replaces startAddr dataLen (fun _ => 0xFF) s (eraseFlash startAddr dataLen s) := by
  have hwrite := (writeFlash_wrote startAddr dataLen dataBuf s).replaces
  rw [totaWriteFlash_eq]
  exact ⟨⟨hwrite, rfl⟩, hwrite, (eraseFlash_wrote startAddr dataLen s).replaces⟩

end EarbudFirmware.Tota
