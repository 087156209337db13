import EarbudFirmware.Norflash.State
import EarbudFirmware.Utils.Crc32

/-!
# The audio sections

The audio area of the flash holds one section for each device, one behind the other, by a table of
their lengths. A configuration is stored with a head that has its checksum, its device and its
length; the section is erased by the length in the table and written by the length of the caller.

## Main definitions

* `AudioArea` — where the area is, and its sectors
* `audioSectionStoreCfg`, `audioSectionLoadCfg` — a configuration is stored and loaded
* `RoundTrips` — what is stored is loaded, a load of another length or of a damaged section is an
  error, and nothing else in the flash has changed
* `FitsSection` — the configuration has room for its head, and what is written behind the section
  changes nothing there

## Main results

* `eraseLoop_ok`, `writeLoop_some` — what is erased and written
* `store_some` — the flash behind a store that returns zero
* `roundTrips_iff` — a stored configuration round-trips exactly when it fits its section
-/

namespace EarbudFirmware.AudioSection

open NorMemory (Content InRange Op overlay)
open Norflash (ApiRet)

/-- `section_device_length`. -/
def sectionDeviceLength : List Nat := [0, 1024 * 8, 1024 * 8]

/-- `AUDIO_SECTION_DEVICE_NUM`. -/
def audioSectionDeviceNum : Nat := 3

/-- `MAGIC_NUMBER`. -/
def magicNumber : Nat := 0xBE57

/-- `USERDATA_VERSION`. -/
def userdataVersion : Nat := 1

/-- `AUDIO_SECTION_HEAD_LEN`. -/
def audioSectionHeadLen : Nat := 16

/-! ### Offsets of the fields of `audio_section_t` -/

def headMagic : Nat := 0
def headVersion : Nat := 2
def headCrc : Nat := 4
def fieldDevice : Nat := 16
def fieldCfgLen : Nat := 20

/-- The audio area from `__aud_start` to `__aud_end`, in sectors of `sSize` bytes, a power of
two. -/
structure AudioArea where
  start : Nat
  len : Nat
  sSize : Nat
  sSize_pos : 0 < sSize
  sSize_le : sSize ≤ 0x10000
  len_le : len ≤ 0x4000000
  devices_le : 1024 * 16 ≤ len
  end_le : start + len ≤ 0x100000000

/-- The flash chip: what an operation returns, and what it leaves. One that succeeds is carried
out. -/
structure HalNorflash where
  run : Op → Content → ApiRet × Content
  run_ok : ∀ op f, (run op f).1 = .ok → (run op f).2 = op.apply f

/-- `norflash_api_erase` of the module for the area, not asynchronous. -/
def norflashApiErase (area : AudioArea) (hal : HalNorflash) (f : Content) (startAddr len : Nat) :
    ApiRet × Content :=
  if ¬(area.start ≤ startAddr ∧ startAddr + len ≤ area.start + area.len) then (.badAddr, f)
  else if startAddr / area.sSize * area.sSize ≠ startAddr then (.badAddr, f)
  else hal.run (.erase startAddr len) f

/-- `norflash_api_write` of the module for the area, not asynchronous. -/
def norflashApiWrite (area : AudioArea) (hal : HalNorflash) (f : Content) (startAddr : Nat)
    (buffer : Content) (len : Nat) : ApiRet × Content :=
  if ¬(area.start ≤ startAddr ∧ startAddr + len ≤ area.start + area.len) then (.badAddr, f)
  else if len = 0 ∨ startAddr / area.sSize ≠ (startAddr + len - 1) / area.sSize then (.badLen, f)
  else hal.run (.program startAddr len buffer) f

/-- The loop of `audio_section_erase`, for at most `fuel` sectors. -/
def eraseLoop (area : AudioArea) (hal : HalNorflash) :
    Nat → Content → Nat → Nat → Option (ApiRet × Content)
  | 0, _, _, _ => none
  | fuel + 1, f, startAddr, len =>
    let r := norflashApiErase area hal f startAddr area.sSize
    if r.1 ≠ .ok then some r
    else
      let len := (len + 0x100000000 - area.sSize) % 0x100000000
      if len = 0 then some r else eraseLoop area hal fuel r.2 (startAddr + area.sSize) len

/-- `audio_section_erase`; an address or a length that is not aligned is an assertion. The area has
fewer sectors than the fuel. -/
def audioSectionErase (area : AudioArea) (hal : HalNorflash) (f : Content) (startAddr len : Nat) :
    Option (ApiRet × Content) :=
  if startAddr % area.sSize ≠ 0 ∨ len % area.sSize ≠ 0 then none
  else eraseLoop area hal (area.len / area.sSize + 1) f startAddr len

/-- The loop of `audio_section_write`, for `n` more sectors. A call that is not asynchronous does
not find a buffer full, and another error is an assertion. -/
def writeLoop (area : AudioArea) (hal : HalNorflash) (startAddr : Nat) (ptr : Content) (len : Nat) :
    Nat → Content → Nat → Option Content
  | 0, f, _ => some f
  | n + 1, f, writtenLen =>
    let writeLen := if len - writtenLen > area.sSize then area.sSize else len - writtenLen
    let r := norflashApiWrite area hal f (startAddr + writtenLen) (fun i => ptr (writtenLen + i))
      writeLen
    if r.1 = .ok then writeLoop area hal startAddr ptr len n r.2 (writtenLen + writeLen) else none

/-- `audio_section_write`. -/
def audioSectionWrite (area : AudioArea) (hal : HalNorflash) (f : Content) (startAddr : Nat)
    (ptr : Content) (len : Nat) : Option Content :=
  if startAddr % area.sSize ≠ 0 then none
  else
    let secNum := (len + area.sSize - 1) % 0x100000000 / area.sSize
    writeLoop area hal startAddr ptr len secNum f 0

/-- `audio_section_get_device_addr_offset` of a device. -/
def deviceAddrOffset (device : Nat) : Nat := (sectionDeviceLength.take device).foldl (· + ·) 0

/-- `section_device_length[device]`. -/
def sectionLen (device : Nat) : Nat := sectionDeviceLength.getD device 0

/-- The address of the section of a device. -/
def AudioArea.sectionPtr (area : AudioArea) (device : Nat) : Nat :=
  area.start + deviceAddrOffset device

/-- `len - AUDIO_SECTION_HEAD_LEN`. -/
def checkedLen (len : Nat) : Nat := (len + 0x100000000 - audioSectionHeadLen) % 0x100000000

/-- The configuration with its head filled in, but for the checksum. -/
def withoutCrc (device : Nat) (cfg : Content) (len : Nat) : Content :=
  overlay fieldCfgLen 4 (leByte len) <| overlay fieldDevice 4 (leByte device) <|
    overlay headVersion 2 (leByte userdataVersion) <| overlay headMagic 2 (leByte magicNumber) cfg

/-- The configuration as it is stored. -/
def stored (device : Nat) (cfg : Content) (len : Nat) : Content :=
  overlay headCrc 4
    (leByte (crcOver (withoutCrc device cfg len) audioSectionHeadLen (checkedLen len)).toNat)
    (withoutCrc device cfg len)

/-- `audio_section_store_cfg`: what it returns, the flash, and the caller's buffer. It does not
return from an assertion. -/
def audioSectionStoreCfg (area : AudioArea) (hal : HalNorflash) (f : Content) (device : Nat)
    (cfg : Content) (len : Nat) : Option (ApiRet × Content × Content) :=
  let buf := stored device cfg len
  if device ≥ audioSectionDeviceNum then none
  else if deviceAddrOffset device % area.sSize ≠ 0 then none
  else
    let addrStart := area.sectionPtr device
    match audioSectionErase area hal f addrStart (sectionLen device) with
    | none => none
    | some (.ok, f) =>
      match audioSectionWrite area hal f addrStart buf len with
      | none => none
      | some f => some (.ok, f, buf)
    | some (ret, f) => some (ret, f, buf)

/-- `audio_section_load_cfg`: what it returns, and the caller's buffer. -/
def audioSectionLoadCfg (area : AudioArea) (f : Content) (device : Nat) (cfg : Content)
    (len : Nat) : Option (Int × Content) :=
  if device ≥ audioSectionDeviceNum then none
  else
    let ptr := area.sectionPtr device
    if le f (ptr + headMagic) 2 ≠ magicNumber then some (-1, cfg)
    else if le f (ptr + headCrc) 4 ≠
        (crcOver f (ptr + audioSectionHeadLen) (checkedLen len)).toNat then some (-2, cfg)
    else if le f (ptr + fieldDevice) 4 ≠ device then some (-3, cfg)
    else if le f (ptr + fieldCfgLen) 4 ≠ len then some (-4, cfg)
    else some (0, overlay 0 len (fun i => f ((ptr + i) % 0x100000000)) cfg)

/-! ### What is asked of a store -/

/-- The bytes that the magic number or the checksum protects: those but the version and the reserved
words of the head. -/
def Protected (len p : Nat) : Prop :=
  p < headVersion ∨ headCrc ≤ p ∧ p < headCrc + 4 ∨ audioSectionHeadLen ≤ p ∧ p < len

/-- The store of `buf` has turned the flash `f` into `f'`. A load of that device and length gives
the stored bytes, one of another length or of a section with a damaged byte is an error, errors
leave the caller's buffer alone, and the other sections and the flash outside of the area are the
same. -/
structure RoundTrips (area : AudioArea) (f f' : Content) (device : Nat) (buf : Content)
    (len : Nat) : Prop where
  loads : ∀ out, audioSectionLoadCfg area f' device out len = some (0, overlay 0 len buf out)
  otherLen : ∀ out len', len' < 0x100000000 → len' ≠ len →
    ∃ ret, ret ≠ 0 ∧ audioSectionLoadCfg area f' device out len' = some (ret, out)
  damaged : ∀ g p, Protected len p →
    g (area.sectionPtr device + p) ≠ f' (area.sectionPtr device + p) →
    (∀ q < len, q ≠ p → g (area.sectionPtr device + q) = f' (area.sectionPtr device + q)) →
    ∀ out, ∃ ret, ret ≠ 0 ∧ audioSectionLoadCfg area g device out len = some (ret, out)
  unchanged : ∀ g out out' len' ret,
    audioSectionLoadCfg area g device out len' = some (ret, out') → ret ≠ 0 → out' = out
  others : ∀ d < audioSectionDeviceNum, d ≠ device → ∀ i < sectionLen d,
    f' (area.sectionPtr d + i) = f (area.sectionPtr d + i)
  outside : ∀ x, ¬InRange area.start area.len x → f' x = f x

/-- The configuration has room for `audio_section_t`, and lies in the area. The flash behind the
section has all bits of what is written there, and in the section of another device just these. -/
structure FitsSection (area : AudioArea) (f : Content) (device : Nat) (cfg : Content)
    (len : Nat) : Prop where
  head : fieldCfgLen + 4 ≤ len
  inside : len ≤ area.len
  behind : ∀ i, sectionLen device ≤ i → i < len →
    f (area.sectionPtr device + i) &&& cfg i = cfg i ∧
      ∀ d < audioSectionDeviceNum, d ≠ device →
        InRange (area.sectionPtr d) (sectionLen d) (area.sectionPtr device + i) →
        f (area.sectionPtr device + i) = cfg i

variable {area : AudioArea} {hal : HalNorflash} {f f' g cfg buf : Content}
  {device len a n m x : Nat}

/-! ### Erasing and writing -/

theorem norflashApiErase_ok {r : ApiRet × Content} (hr : norflashApiErase area hal f a n = r)
    (hok : r.1 = .ok) :
    area.start ≤ a ∧ a + n ≤ area.start + area.len ∧ r.2 = (Op.erase a n).apply f := by
  subst hr
  rw [norflashApiErase] at hok ⊢
  by_cases hin : area.start ≤ a ∧ a + n ≤ area.start + area.len
  · rw [if_neg (not_not.mpr hin)] at hok ⊢
    by_cases halign : a / area.sSize * area.sSize = a
    · rw [if_neg (not_not.mpr halign)] at hok ⊢
      exact ⟨hin.1, hin.2, hal.run_ok _ _ hok⟩
    · rw [if_pos halign] at hok
      cases hok
  · rw [if_pos hin] at hok
    cases hok

theorem norflashApiWrite_ok {r : ApiRet × Content}
    (hr : norflashApiWrite area hal f a buf n = r) (hok : r.1 = .ok) :
    a + n ≤ area.start + area.len ∧ r.2 = (Op.program a n buf).apply f := by
  subst hr
  rw [norflashApiWrite] at hok ⊢
  by_cases hin : area.start ≤ a ∧ a + n ≤ area.start + area.len
  · rw [if_neg (not_not.mpr hin)] at hok ⊢
    by_cases hlen : n = 0 ∨ a / area.sSize ≠ (a + n - 1) / area.sSize
    · rw [if_pos hlen] at hok
      cases hok
    · rw [if_neg hlen] at hok ⊢
      exact ⟨hin.2, hal.run_ok _ _ hok⟩
  · rw [if_pos hin] at hok
    cases hok

theorem inRange_add : InRange a (n + m) x ↔ InRange a n x ∨ InRange (a + n) m x := by
  unfold InRange
  omega

theorem not_inRange_of_behind (h : InRange (a + n) m x) : ¬InRange a n x := by
  unfold InRange at h ⊢
  omega

/-- Two ranges erased one behind the other. -/
theorem erase_append :
    (Op.erase (a + n) m).apply ((Op.erase a n).apply f) = (Op.erase a (n + m)).apply f := by
  funext x
  change (if InRange (a + n) m x then 0xFF else if InRange a n x then 0xFF else f x) =
    if InRange a (n + m) x then 0xFF else f x
  by_cases h : InRange (a + n) m x
  · rw [if_pos h, if_pos (inRange_add.mpr (.inr h))]
  · rw [if_neg h]
    exact if_congr (by rw [inRange_add, or_iff_left h]) rfl rfl

/-- An erasing that ends well has erased one range, of a length that is `len` in 32 bits, and inside
of the area. -/
theorem eraseLoop_ok {fuel : Nat} (hlen : len < 0x100000000)
    (h : eraseLoop area hal fuel f a len = some (.ok, f')) :
    ∃ total, 0 < total ∧ total % 0x100000000 = len ∧ a + total ≤ area.start + area.len ∧
      f' = (Op.erase a total).apply f := by
  induction fuel generalizing f a len with
  | zero => cases h
  | succ fuel ih =>
    have hpos := area.sSize_pos
    have hsize := area.sSize_le
    rw [eraseLoop] at h
    dsimp only at h
    by_cases hok : (norflashApiErase area hal f a area.sSize).1 = .ok
    · obtain ⟨-, hend, hf⟩ := norflashApiErase_ok rfl hok
      rw [if_neg (not_not.mpr hok)] at h
      by_cases hlast : (len + 0x100000000 - area.sSize) % 0x100000000 = 0
      · rw [if_pos hlast] at h
        obtain rfl : f' = _ := (congrArg Prod.snd (Option.some.inj h)).symm
        refine ⟨area.sSize, hpos, ?_, hend, hf⟩
        omega
      · rw [if_neg hlast] at h
        obtain ⟨total, htotal, hmod, hend', rfl⟩ := ih (Nat.mod_lt _ (by decide)) h
        refine ⟨area.sSize + total, by omega, by omega, by omega, ?_⟩
        rw [hf, erase_append]
    · rw [if_pos hok] at h
      exact absurd (congrArg Prod.fst (Option.some.inj h)) hok

/-- The area has fewer sectors than the loop has rounds. -/
theorem eraseLoop_ne_none {fuel : Nat} (hle : a ≤ area.start + area.len)
    (hfuel : area.start + area.len < a + fuel * area.sSize) :
    eraseLoop area hal fuel f a len ≠ none := by
  induction fuel generalizing f a len with
  | zero => omega
  | succ fuel ih =>
    rw [eraseLoop]
    dsimp only
    by_cases hok : (norflashApiErase area hal f a area.sSize).1 = .ok
    · obtain ⟨-, hend, -⟩ := norflashApiErase_ok rfl hok
      rw [if_neg (not_not.mpr hok)]
      split
      · exact Option.some_ne_none _
      · rw [Nat.succ_mul] at hfuel
        exact ih hend (by omega)
    · rw [if_pos hok]
      exact Option.some_ne_none _

/-- Two ranges programmed one behind the other, from one buffer. -/
theorem program_append :
    (Op.program (a + n) m fun i => buf (n + i)).apply ((Op.program a n buf).apply f) =
      (Op.program a (n + m) buf).apply f := by
  funext x
  change (if InRange (a + n) m x then
      (if InRange a n x then f x &&& buf (x - a) else f x) &&& buf (n + (x - (a + n)))
    else if InRange a n x then f x &&& buf (x - a) else f x) =
    if InRange a (n + m) x then f x &&& buf (x - a) else f x
  by_cases h : InRange (a + n) m x
  · have hsub : n + (x - (a + n)) = x - a := by
      have hle := h.1
      omega
    rw [if_pos h, if_neg (not_inRange_of_behind h), if_pos (inRange_add.mpr (.inr h)), hsub]
  · rw [if_neg h]
    exact if_congr (by rw [inRange_add, or_iff_left h]) rfl rfl

/-- The sectors that are left are written, inside of the area. -/
theorem writeLoop_some {written : Nat} (hle : written ≤ len)
    (hn : n = (len - written + area.sSize - 1) / area.sSize)
    (h : writeLoop area hal a buf len n f written = some f') :
    (written < len → a + len ≤ area.start + area.len) ∧
      f' = (Op.program (a + written) (len - written) fun i => buf (written + i)).apply f := by
  have hpos := area.sSize_pos
  induction n generalizing f written with
  | zero =>
    have hend : len - written = 0 := by
      rw [eq_comm, Nat.div_eq_zero_iff] at hn
      omega
    obtain rfl := Option.some.inj h
    refine ⟨fun hlt => by omega, ?_⟩
    rw [hend]
    funext x
    exact (if_neg fun h => Nat.not_lt.mpr h.1 h.2).symm
  | succ n ih =>
    rw [writeLoop] at h
    generalize hpiece : (if len - written > area.sSize then area.sSize else len - written) = k at h
    have hk : k ≤ len - written ∧ k ≤ area.sSize := by
      split at hpiece <;> omega
    have hlt : 0 < len - written := by
      by_contra hzero
      have hsum : len - written + area.sSize - 1 < area.sSize := by omega
      rw [Nat.div_eq_of_lt hsum] at hn
      cases hn
    have hrest : n = (len - (written + k) + area.sSize - 1) / area.sSize := by
      split at hpiece
      · have hsub : len - written + area.sSize - 1 =
            len - (written + k) + area.sSize - 1 + area.sSize := by omega
        rw [hsub, Nat.add_div_right _ hpos] at hn
        omega
      · have hdiv : (len - written + area.sSize - 1) / area.sSize = 1 := by
          rw [Nat.div_eq_of_lt_le] <;> omega
        have hzero : len - (written + k) = 0 := by omega
        rw [hzero, Nat.zero_add, Nat.div_eq_of_lt (by omega)]
        omega
    split at h
    · rename_i hok
      obtain ⟨hend, hf⟩ := norflashApiWrite_ok rfl hok
      obtain ⟨hinside, rfl⟩ := ih (by omega) hrest h
      constructor
      · intro _
        by_cases hmore : written + k < len
        · exact hinside hmore
        · omega
      · have hsum : len - written = k + (len - (written + k)) := by omega
        rw [hf, hsum, ← program_append, ← Nat.add_assoc]
        simp only [Nat.add_assoc]
    · cases h

/-! ### A store -/

/-- The section erased. -/
def AudioArea.erased (area : AudioArea) (f : Content) (device : Nat) : Content :=
  (Op.erase (area.sectionPtr device) (sectionLen device)).apply f

theorem sectionLen_lt (device : Nat) : sectionLen device < 0x100000000 := by
  match device with
  | 0 | 1 | 2 => decide
  | n + 3 => exact Nat.zero_lt_succ _

/-- A section of length zero is not erased: its loop leaves the area. -/
theorem audioSectionErase_ok (ha : area.start ≤ a)
    (h : audioSectionErase area hal f a (sectionLen device) = some (.ok, f')) :
    0 < sectionLen device ∧ a + sectionLen device ≤ area.start + area.len ∧
      f' = (Op.erase a (sectionLen device)).apply f := by
  rw [audioSectionErase] at h
  split at h
  · cases h
  · obtain ⟨total, hpos, hmod, hend, hf⟩ := eraseLoop_ok (sectionLen_lt device) h
    have hlen := area.len_le
    rw [Nat.mod_eq_of_lt (by omega)] at hmod
    rw [hmod] at hpos hend hf
    exact ⟨hpos, hend, hf⟩

/-- A length within a sector of 2^32 is written as no sector at all. -/
theorem audioSectionWrite_some (hlen : len < 0x100000000)
    (h : audioSectionWrite area hal f a buf len = some f') :
    (len + area.sSize - 1 < 0x100000000 ∧ (0 < len → a + len ≤ area.start + area.len) ∧
        f' = (Op.program a len buf).apply f) ∨
      (0x100000000 ≤ len + area.sSize - 1 ∧ f' = f) := by
  have hpos := area.sSize_pos
  have hsize := area.sSize_le
  rw [audioSectionWrite] at h
  split at h
  · cases h
  · by_cases hwrap : len + area.sSize - 1 < 0x100000000
    · rw [Nat.mod_eq_of_lt hwrap] at h
      obtain ⟨hend, hf⟩ := writeLoop_some (Nat.zero_le len) rfl h
      refine .inl ⟨hwrap, hend, ?_⟩
      rw [hf, Nat.add_zero, Nat.sub_zero]
      congr 2
      funext i
      rw [Nat.zero_add]
    · have hsec : (len + area.sSize - 1) % 0x100000000 / area.sSize = 0 :=
        Nat.div_eq_of_lt (by omega)
      rw [hsec] at h
      exact .inr ⟨Nat.le_of_not_lt hwrap, (Option.some.inj h).symm⟩

/-- The flash behind a store that returns zero. -/
theorem store_some (hlen : len < 0x100000000)
    (h : audioSectionStoreCfg area hal f device cfg len = some (.ok, f', buf)) :
    device < audioSectionDeviceNum ∧ buf = stored device cfg len ∧ 0 < sectionLen device ∧
      area.sectionPtr device + sectionLen device ≤ area.start + area.len ∧
      ((len + area.sSize - 1 < 0x100000000 ∧
          (0 < len → area.sectionPtr device + len ≤ area.start + area.len) ∧
          f' = (Op.program (area.sectionPtr device) len buf).apply (area.erased f device)) ∨
        (0x100000000 ≤ len + area.sSize - 1 ∧ f' = area.erased f device)) := by
  have hptr : area.start ≤ area.sectionPtr device := Nat.le_add_right _ _
  rw [audioSectionStoreCfg] at h
  dsimp only at h
  split at h
  · cases h
  · rename_i hdevice
    split at h
    · cases h
    · split at h
      · cases h
      · rename_i herase
        obtain ⟨hpos, hend, rfl⟩ := audioSectionErase_ok hptr herase
        split at h
        · cases h
        · rename_i hwrite
          obtain ⟨-, rfl, rfl⟩ := Prod.mk.inj (Option.some.inj h) |>.imp_right Prod.mk.inj
          exact ⟨Nat.lt_of_not_le hdevice, rfl, hpos, hend, audioSectionWrite_some hlen hwrite⟩
      · rename_i hret _
        exact (hret (congrArg Prod.fst (Option.some.inj h))).elim

/-! ### A load -/

/-- What `audio_section_load_cfg` checks. -/
structure Intact (area : AudioArea) (f : Content) (device len : Nat) : Prop where
  magic : le f (area.sectionPtr device + headMagic) 2 = magicNumber
  crc : le f (area.sectionPtr device + headCrc) 4 =
    (crcOver f (area.sectionPtr device + audioSectionHeadLen) (checkedLen len)).toNat
  owner : le f (area.sectionPtr device + fieldDevice) 4 = device
  cfgLen : le f (area.sectionPtr device + fieldCfgLen) 4 = len

theorem load_of_intact (hdevice : device < audioSectionDeviceNum) (h : Intact area f device len)
    (out : Content) :
    audioSectionLoadCfg area f device out len =
      some (0, overlay 0 len (fun i => f ((area.sectionPtr device + i) % 0x100000000)) out) := by
  rw [audioSectionLoadCfg, if_neg (Nat.not_le.mpr hdevice)]
  dsimp only
  rw [if_neg (not_not.mpr h.magic), if_neg (not_not.mpr h.crc), if_neg (not_not.mpr h.owner),
    if_neg (not_not.mpr h.cfgLen)]

theorem load_of_not_intact (hdevice : device < audioSectionDeviceNum)
    (h : ¬Intact area f device len) (out : Content) :
    ∃ ret, ret ≠ 0 ∧ audioSectionLoadCfg area f device out len = some (ret, out) := by
  rw [audioSectionLoadCfg, if_neg (Nat.not_le.mpr hdevice)]
  dsimp only
  split
  · exact ⟨-1, by decide, rfl⟩
  · split
    · exact ⟨-2, by decide, rfl⟩
    · split
      · exact ⟨-3, by decide, rfl⟩
      · split
        · exact ⟨-4, by decide, rfl⟩
        · exact absurd ⟨not_not.mp ‹_›, not_not.mp ‹_›, not_not.mp ‹_›, not_not.mp ‹_›⟩ h

/-- An error leaves the caller's buffer alone. -/
theorem load_unchanged {out out' : Content} {ret : Int}
    (h : audioSectionLoadCfg area f device out len = some (ret, out')) (hret : ret ≠ 0) :
    out' = out := by
  by_cases hdevice : device < audioSectionDeviceNum
  · by_cases hintact : Intact area f device len
    · rw [load_of_intact hdevice hintact] at h
      exact absurd (congrArg Prod.fst (Option.some.inj h)).symm hret
    · obtain ⟨ret', -, hload⟩ := load_of_not_intact hdevice hintact out
      rw [hload] at h
      exact (congrArg Prod.snd (Option.some.inj h)).symm
  · rw [audioSectionLoadCfg, if_pos (Nat.le_of_not_lt hdevice)] at h
    cases h

/-! ### The stored bytes -/

theorem stored_le_magic : le (stored device cfg len) headMagic 2 = magicNumber := by
  rw [stored, withoutCrc, le_overlay_of_disjoint (by decide), le_overlay_of_disjoint (by decide),
    le_overlay_of_disjoint (by decide), le_overlay_of_disjoint (by decide), le_overlay]
  rfl

theorem stored_le_device (hdevice : device < audioSectionDeviceNum) :
    le (stored device cfg len) fieldDevice 4 = device := by
  rw [stored, withoutCrc, le_overlay_of_disjoint (by decide), le_overlay_of_disjoint (by decide),
    le_overlay]
  exact Nat.mod_eq_of_lt (Nat.lt_trans hdevice (by decide))

theorem stored_le_cfgLen (hlen : len < 0x100000000) :
    le (stored device cfg len) fieldCfgLen 4 = len := by
  rw [stored, withoutCrc, le_overlay_of_disjoint (by decide), le_overlay]
  exact Nat.mod_eq_of_lt hlen

theorem stored_le_crc : le (stored device cfg len) headCrc 4 =
    (crcOver (withoutCrc device cfg len) audioSectionHeadLen (checkedLen len)).toNat := by
  rw [stored, le_overlay]
  exact Nat.mod_eq_of_lt (UInt32.toNat_lt _)

/-- Behind the head, what is stored is what the checksum was made of. -/
theorem stored_of_head_le (hx : headCrc + 4 ≤ x) :
    stored device cfg len x = withoutCrc device cfg len x :=
  NorMemory.overlay_of_not_inRange (fun h => Nat.not_lt.mpr hx h.2) _ _

/-- The configuration is stored behind `audio_section_t`. -/
theorem stored_of_le (hx : fieldCfgLen + 4 ≤ x) : stored device cfg len x = cfg x := by
  have hout : ∀ b m, b + m ≤ fieldCfgLen + 4 → ¬InRange b m x :=
    fun b m hb h => Nat.not_lt.mpr (Nat.le_trans hb hx) h.2
  rw [stored, withoutCrc, NorMemory.overlay_of_not_inRange (hout _ _ (by decide)),
    NorMemory.overlay_of_not_inRange (hout _ _ (by decide)),
    NorMemory.overlay_of_not_inRange (hout _ _ (by decide)),
    NorMemory.overlay_of_not_inRange (hout _ _ (by decide)),
    NorMemory.overlay_of_not_inRange (hout _ _ (by decide))]

/-! ### The section behind a store -/

/-- Addresses of the area do not wrap around. -/
theorem mod_of_lt {p : Nat} (h : area.sectionPtr device + p < area.start + area.len) :
    (area.sectionPtr device + p) % 0x100000000 = area.sectionPtr device + p :=
  Nat.mod_eq_of_lt (Nat.lt_of_lt_of_le h area.end_le)

theorem checkedLen_eq (hhead : audioSectionHeadLen ≤ len) (hlen : len < 0x100000000) :
    checkedLen len = len - audioSectionHeadLen := by
  unfold checkedLen
  unfold audioSectionHeadLen at *
  omega

/-- A section that holds the stored bytes is intact. -/
theorem intact_of_stored (hdevice : device < audioSectionDeviceNum) (hlen : len < 0x100000000)
    (hhead : fieldCfgLen + 4 ≤ len) (hend : area.sectionPtr device + len ≤ area.start + area.len)
    (h : ∀ p < len, f (area.sectionPtr device + p) = stored device cfg len p) :
    Intact area f device len := by
  have hle : ∀ k n, k + n ≤ fieldCfgLen + 4 →
      le f (area.sectionPtr device + k) n = le (stored device cfg len) k n := by
    intro k n hk
    rw [le_add]
    refine le_congr fun i hi => h i ?_
    have hlt := hi.2
    omega
  have hcrc : crcOver f (area.sectionPtr device + audioSectionHeadLen) (checkedLen len) =
      crcOver (withoutCrc device cfg len) audioSectionHeadLen (checkedLen len) := by
    rw [checkedLen_eq (Nat.le_trans (by decide) hhead) hlen, crcOver, crcOver, bytesFrom, bytesFrom]
    refine congrArg _ (List.map_congr_left fun i hi => ?_)
    have hlt := List.mem_range.mp hi
    have hsmall : audioSectionHeadLen + i < len := by omega
    rw [Nat.add_assoc, mod_of_lt (by omega), h _ hsmall,
      Nat.mod_eq_of_lt (Nat.lt_trans hsmall hlen), stored_of_head_le]
    exact Nat.le_trans (by decide) (Nat.le_add_right _ i)
  refine ⟨?_, ?_, ?_, ?_⟩
  · rw [hle _ _ (by decide), stored_le_magic]
  · rw [hle _ _ (by decide), stored_le_crc, hcrc]
  · rw [hle _ _ (by decide), stored_le_device hdevice]
  · rw [hle _ _ (by decide), stored_le_cfgLen hlen]

/-- A section with one damaged byte is not. -/
theorem not_intact_of_damaged {p : Nat} (hf : Intact area f device len)
    (hlen : len < 0x100000000) (hhead : fieldCfgLen + 4 ≤ len)
    (hend : area.sectionPtr device + len ≤ area.start + area.len) (hp : Protected len p)
    (hne : g (area.sectionPtr device + p) ≠ f (area.sectionPtr device + p))
    (hsame : ∀ q < len, q ≠ p → g (area.sectionPtr device + q) = f (area.sectionPtr device + q)) :
    ¬Intact area g device len := by
  intro hg
  have hlt : p < len := by
    unfold Protected headVersion headCrc audioSectionHeadLen at hp
    unfold fieldCfgLen at hhead
    omega
  -- a number of the head with the damaged byte
  have hfield : ∀ k n, k + n ≤ len → k ≤ p → p < k + n →
      le g (area.sectionPtr device + k) n ≠ le f (area.sectionPtr device + k) n := by
    intro k n hkn hle hlt
    rw [le_add, le_add]
    exact le_ne_of_byte_ne ⟨hle, hlt⟩ hne fun q hq hqp => hsame q (by have := hq.2; omega) hqp
  have hcheck := checkedLen_eq (Nat.le_trans (by decide) hhead) hlen
  rcases hp with hmagic | ⟨hle, hcrc⟩ | ⟨hle, -⟩
  · refine hfield headMagic 2 (Nat.le_trans (by decide) hhead) (Nat.zero_le p) hmagic ?_
    rw [hg.magic, hf.magic]
  · refine hfield headCrc 4 (Nat.le_trans (by decide) hhead) hle hcrc ?_
    rw [hg.crc, hf.crc]
    refine congrArg _ (crcOver_congr fun i hi => ?_)
    rw [hcheck] at hi
    rw [Nat.add_assoc, mod_of_lt (by omega)]
    refine hsame _ (by omega) ?_
    unfold headCrc at hcrc
    unfold audioSectionHeadLen
    omega
  · have hstored : le g (area.sectionPtr device + headCrc) 4 =
        le f (area.sectionPtr device + headCrc) 4 := by
      rw [le_add, le_add]
      refine le_congr fun q hq => hsame q ?_ ?_
      · have hlt := hq.2
        unfold headCrc at hlt
        unfold fieldCfgLen at hhead
        omega
      · have hlt := hq.2
        unfold headCrc at hlt
        unfold audioSectionHeadLen at hle
        omega
    rw [hg.crc, hf.crc] at hstored
    have hindex : area.sectionPtr device + audioSectionHeadLen + (p - audioSectionHeadLen) =
        area.sectionPtr device + p := by omega
    refine crcOver_ne_of_byte_ne (m := p - audioSectionHeadLen) ?_ ?_ ?_
      (UInt32.toNat_inj.mp hstored)
    · rw [hcheck]
      omega
    · rw [hindex, mod_of_lt (by omega)]
      exact hne
    · intro i hi hip
      rw [hcheck] at hi
      rw [Nat.add_assoc, mod_of_lt (by omega)]
      exact hsame _ (by omega) (by omega)

/-- A section that a store may return zero for. -/
theorem sectionLen_of_pos (hdevice : device < audioSectionDeviceNum)
    (hpos : 0 < sectionLen device) : sectionLen device = 1024 * 8 := by
  match device with
  | 0 => exact absurd hpos (by decide)
  | 1 | 2 => rfl
  | n + 3 => exact absurd hdevice (Nat.not_lt.mpr (Nat.le_add_left 3 n))

/-- The sections do not overlap. -/
theorem not_inRange_of_ne {d : Nat} (hd : d < audioSectionDeviceNum)
    (hdevice : device < audioSectionDeviceNum) (hne : d ≠ device)
    (hx : InRange (area.sectionPtr d) (sectionLen d) x) :
    ¬InRange (area.sectionPtr device) (sectionLen device) x := by
  rintro ⟨hle', hlt'⟩
  obtain ⟨hle, hlt⟩ := hx
  have hoffsets : deviceAddrOffset 0 = 0 ∧ deviceAddrOffset 1 = 0 ∧ deviceAddrOffset 2 = 8192 := by
    decide
  have hlens : sectionLen 0 = 0 ∧ sectionLen 1 = 8192 ∧ sectionLen 2 = 8192 := by decide
  unfold AudioArea.sectionPtr at *
  unfold audioSectionDeviceNum at *
  have hcases : ∀ k < 3, k = 0 ∨ k = 1 ∨ k = 2 := by omega
  rcases hcases d hd with rfl | rfl | rfl <;> rcases hcases device hdevice with rfl | rfl | rfl <;>
    omega

theorem section_le {d : Nat} (hd : d < audioSectionDeviceNum) :
    area.sectionPtr d + sectionLen d ≤ area.start + area.len := by
  have hsum : ∀ k < 3, deviceAddrOffset k + sectionLen k ≤ 1024 * 16 := by decide
  have hle := area.devices_le
  have hdle := hsum d hd
  unfold AudioArea.sectionPtr
  omega

theorem erased_of_inRange (hx : InRange (area.sectionPtr device) (sectionLen device) x) :
    area.erased f device x = 0xFF := if_pos hx

theorem erased_of_not_inRange (hx : ¬InRange (area.sectionPtr device) (sectionLen device) x) :
    area.erased f device x = f x := if_neg hx

theorem programmed_of_inRange {c : Content} {i : Nat} (hi : i < len) :
    (Op.program a len buf).apply c (a + i) = c (a + i) &&& buf i := by
  have hin : InRange a len (a + i) := ⟨Nat.le_add_right _ _, Nat.add_lt_add_left hi a⟩
  refine (if_pos hin).trans ?_
  rw [Nat.add_sub_cancel_left]

theorem programmed_of_not_inRange {c : Content} (hx : ¬InRange a len x) :
    (Op.program a len buf).apply c x = c x := if_neg hx

/-- A byte of the section that is written holds what is stored, and one behind the section what is
left of it. -/
theorem programmed_erased {i : Nat} (hi : i < len) :
    (Op.program (area.sectionPtr device) len buf).apply (area.erased f device)
        (area.sectionPtr device + i) =
      if i < sectionLen device then buf i else f (area.sectionPtr device + i) &&& buf i := by
  rw [programmed_of_inRange hi]
  by_cases hin : i < sectionLen device
  · rw [if_pos hin, erased_of_inRange ⟨Nat.le_add_right _ _, Nat.add_lt_add_left hin _⟩,
      NorMemory.erased_and]
  · rw [if_neg hin, erased_of_not_inRange fun h => hin (Nat.lt_of_add_lt_add_left h.2)]

/-- A store that fits. -/
theorem roundTrips_of_fits (hlen : len < 0x100000000)
    (h : audioSectionStoreCfg area hal f device cfg len = some (.ok, f', buf))
    (hfits : FitsSection area f device cfg len) : RoundTrips area f f' device buf len := by
  obtain ⟨hdevice, rfl, hpos, -, ⟨-, hend, hf⟩ | ⟨hwrap, -⟩⟩ := store_some hlen h
  · have hinside := hend (Nat.lt_of_lt_of_le (by decide) hfits.head)
    have hsection := sectionLen_of_pos hdevice hpos
    have hbehind : ∀ i, sectionLen device ≤ i → stored device cfg len i = cfg i := by
      intro i hi
      rw [hsection] at hi
      exact stored_of_le (Nat.le_trans (by decide) hi)
    have hstored : ∀ p < len, f' (area.sectionPtr device + p) = stored device cfg len p := by
      intro p hp
      rw [hf, programmed_erased hp]
      split
      · rfl
      · rename_i hout
        have hle := Nat.le_of_not_lt hout
        rw [hbehind p hle]
        exact (hfits.behind p hle hp).1
    have hintact := intact_of_stored hdevice hlen hfits.head hinside hstored
    refine ⟨fun out => ?_, fun out len' _ hne => ?_, fun g p hp hne hsame out => ?_,
      fun g out out' len' ret hload hret => load_unchanged hload hret,
      fun d hd hne i hi => ?_, fun x hx => ?_⟩
    · rw [load_of_intact hdevice hintact]
      congr 2
      funext x
      by_cases hx : InRange 0 len x
      · have hlt : x < len := by
          have hlt := hx.2
          rwa [Nat.zero_add] at hlt
        rw [NorMemory.overlay_of_inRange hx, NorMemory.overlay_of_inRange hx, Nat.sub_zero,
          mod_of_lt (by omega), hstored x hlt]
      · rw [NorMemory.overlay_of_not_inRange hx, NorMemory.overlay_of_not_inRange hx]
    · refine load_of_not_intact hdevice (fun hother => hne ?_) out
      exact hother.cfgLen.symm.trans hintact.cfgLen
    · exact load_of_not_intact hdevice
        (not_intact_of_damaged hintact hlen hfits.head hinside hp hne hsame) out
    · have hin : InRange (area.sectionPtr d) (sectionLen d) (area.sectionPtr d + i) :=
        ⟨Nat.le_add_right _ _, Nat.add_lt_add_left hi _⟩
      have hown := not_inRange_of_ne hd hdevice hne hin
      by_cases hwritten : InRange (area.sectionPtr device) len (area.sectionPtr d + i)
      · obtain ⟨j, hj⟩ := Nat.exists_eq_add_of_le hwritten.1
        rw [hj] at hin hown hwritten ⊢
        have hjlen := Nat.lt_of_add_lt_add_left hwritten.2
        have hjout : ¬j < sectionLen device := fun hlt =>
          hown ⟨Nat.le_add_right _ _, Nat.add_lt_add_left hlt _⟩
        have hle := Nat.le_of_not_lt hjout
        have hsame := (hfits.behind j hle hjlen).2 d hd hne hin
        rw [hf, programmed_erased hjlen, if_neg hjout, hbehind j hle, hsame, UInt8.and_self]
      · rw [hf, programmed_of_not_inRange hwritten, erased_of_not_inRange hown]
    · rw [hf, programmed_of_not_inRange, erased_of_not_inRange]
      · rintro ⟨hle, hlt⟩
        have hsec := @section_le area _ hdevice
        exact hx ⟨Nat.le_trans (Nat.le_add_right _ _) hle, by omega⟩
      · rintro ⟨hle, hlt⟩
        exact hx ⟨Nat.le_trans (Nat.le_add_right _ _) hle, by omega⟩
  · have hin := hfits.inside
    have hsize := area.sSize_le
    have hmax := area.len_le
    omega

/-- What a store that round-trips tells about the flash before. -/
theorem fits_of_roundTrips (hlen : len < 0x100000000)
    (h : audioSectionStoreCfg area hal f device cfg len = some (.ok, f', buf))
    (hr : RoundTrips area f f' device buf len) : FitsSection area f device cfg len := by
  obtain ⟨hdevice, rfl, hpos, -, hcases⟩ := store_some hlen h
  have hsection := sectionLen_of_pos hdevice hpos
  have hintact : Intact area f' device len := by
    by_contra hnot
    obtain ⟨ret, hret, hload⟩ := load_of_not_intact hdevice hnot cfg
    rw [hr.loads] at hload
    exact hret (congrArg Prod.fst (Option.some.inj hload)).symm
  have hin : ∀ p < 1024 * 8, InRange (area.sectionPtr device) (sectionLen device)
      (area.sectionPtr device + p) := fun p hp =>
    ⟨Nat.le_add_right _ _, Nat.add_lt_add_left (by rwa [hsection]) _⟩
  rcases hcases with ⟨-, hend, hf⟩ | ⟨-, hf⟩
  · -- the last byte of the length is stored
    have hhead : fieldCfgLen + 4 ≤ len := by
      by_contra hshort
      have herased : f' (area.sectionPtr device + fieldCfgLen + 3) = 0xFF := by
        rw [hf, programmed_of_not_inRange, Nat.add_assoc, erased_of_inRange (hin _ (by decide))]
        rintro ⟨-, hlt⟩
        omega
      have hbyte := @byte_mul_le f' (area.sectionPtr device + fieldCfgLen) 3 4 (by decide)
      rw [herased, hintact.cfgLen] at hbyte
      change 0xFF * 256 ^ 3 ≤ len at hbyte
      unfold fieldCfgLen at hshort
      omega
    have hinside := hend (Nat.lt_of_lt_of_le (by decide) hhead)
    have hread : ∀ i < len, f' (area.sectionPtr device + i) = stored device cfg len i := by
      intro i hi
      have hload := hr.loads cfg
      rw [load_of_intact hdevice hintact] at hload
      have hout := congrFun (congrArg Prod.snd (Option.some.inj hload)) i
      have hrange : InRange 0 len i := ⟨Nat.zero_le i, by rwa [Nat.zero_add]⟩
      dsimp only at hout
      rw [NorMemory.overlay_of_inRange hrange, NorMemory.overlay_of_inRange hrange, Nat.sub_zero,
        mod_of_lt (by omega)] at hout
      exact hout
    refine ⟨hhead, ?_, fun i hi hlt => ?_⟩
    · have hle : area.start ≤ area.sectionPtr device := Nat.le_add_right _ _
      omega
    · have hcfg : stored device cfg len i = cfg i := by
        rw [hsection] at hi
        exact stored_of_le (Nat.le_trans (by decide) hi)
      have hat : f' (area.sectionPtr device + i) = f (area.sectionPtr device + i) &&& cfg i := by
        rw [hf, programmed_erased hlt, if_neg (Nat.not_lt.mpr hi), hcfg]
      have hall := hread i hlt
      rw [hat, hcfg] at hall
      refine ⟨hall, fun d hd hne hother => ?_⟩
      obtain ⟨j, hj⟩ := Nat.exists_eq_add_of_le hother.1
      have hkept := hr.others d hd hne j (by
        have hjlt := hother.2
        omega)
      rw [← hj, hat, hall] at hkept
      exact hkept.symm
  · -- nothing was written
    have herased : f' (area.sectionPtr device + fieldDevice + 0) = 0xFF := by
      rw [hf, Nat.add_zero]
      exact erased_of_inRange (hin fieldDevice (by decide))
    have hbyte := @byte_mul_le f' (area.sectionPtr device + fieldDevice) 0 4 (by decide)
    rw [herased, hintact.owner] at hbyte
    change 0xFF * 256 ^ 0 ≤ device at hbyte
    unfold audioSectionDeviceNum at hdevice
    omega

/-- A configuration that is stored with result zero round-trips, and leaves the rest of the flash
alone, exactly when it has room for `audio_section_t` and either fits its section or finds the bytes
behind it so that nothing is changed. -/
theorem roundTrips_iff (hlen : len < 0x100000000)
    (h : audioSectionStoreCfg area hal f device cfg len = some (.ok, f', buf)) :
    RoundTrips area f f' device buf len ↔ FitsSection area f device cfg len :=
  ⟨fits_of_roundTrips hlen h, roundTrips_of_fits hlen h⟩

theorem boardArea_sSize_pos : 0 < 0x1000 := by decide

theorem boardArea_sSize_le : 0x1000 ≤ 0x10000 := by decide

theorem boardArea_len_le : 0x8000 ≤ 0x4000000 := by decide

theorem boardArea_devices_le : 1024 * 16 ≤ 0x8000 := by decide

theorem boardArea_end_le : 0x300000 + 0x8000 ≤ 0x100000000 := by decide

/-- An area of eight sectors. -/
def boardArea : AudioArea where
  start := 0x300000
  len := 0x8000
  sSize := 0x1000
  sSize_pos := boardArea_sSize_pos
  sSize_le := boardArea_sSize_le
  len_le := boardArea_len_le
  devices_le := boardArea_devices_le
  end_le := boardArea_end_le

theorem apply_run_ok (op : Op) (f : Content) (_ : ApiRet.ok = ApiRet.ok) :
    op.apply f = op.apply f := rfl

/-- A chip without errors. -/
def boardNorflash : HalNorflash where
  run op f := (.ok, op.apply f)
  run_ok := apply_run_ok

/-- The shortest configuration. -/
theorem roundTrips_iff_shortest :
    ∃ f' buf, audioSectionStoreCfg boardArea boardNorflash (fun _ => 0xFF) 2 (fun _ => 0) 24 =
        some (.ok, f', buf) ∧ RoundTrips boardArea (fun _ => 0xFF) f' 2 buf 24 := by
  have hstore : ∃ f' buf, audioSectionStoreCfg boardArea boardNorflash (fun _ => 0xFF) 2
      (fun _ => 0) 24 = some (.ok, f', buf) := ⟨_, _, rfl⟩
  obtain ⟨f', buf, h⟩ := hstore
  refine ⟨f', buf, h, (roundTrips_iff (by decide) h).mpr ⟨by decide, by decide, fun i hi hlt => ?_⟩⟩
  exact absurd (Nat.lt_of_le_of_lt hi hlt) (by decide)

/-- A configuration one byte longer than the audio section writes to the speech section. -/
theorem not_roundTrips :
    ∃ f' buf, audioSectionStoreCfg boardArea boardNorflash (fun _ => 0xFF) 1 (fun _ => 0) 8193 =
        some (.ok, f', buf) ∧ ¬RoundTrips boardArea (fun _ => 0xFF) f' 1 buf 8193 := by
  have hstore : ∃ f' buf, audioSectionStoreCfg boardArea boardNorflash (fun _ => 0xFF) 1
      (fun _ => 0) 8193 = some (.ok, f', buf) := ⟨_, _, rfl⟩
  obtain ⟨f', buf, h⟩ := hstore
  refine ⟨f', buf, h, fun hr => ?_⟩
  have hbehind := (fits_of_roundTrips (by decide) h hr).behind 8192 (by decide) (by decide)
  exact absurd (hbehind.2 2 (by decide) (by decide) (by decide)) (by decide)

end EarbudFirmware.AudioSection
