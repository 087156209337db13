import Mathlib.Data.List.Find
import EarbudFirmware.Ota.Applied
import EarbudFirmware.Ota.Segments

/-!
# Repeated queries for the result

A query for the result programs the rest of the data buffer, and then the image is checked through
the same buffer. The counters stay, so a second query programs what the check has left there, in
place of the rest of the image.

## Main definitions

* `ImageReceived` — all bytes of a firmware image have been received
* `Idempotent` — further queries leave the flash and the verdict as they are
* `Repeatable` — what it takes

## Main results

* `handleGetOtaResult_passed`, `handleGetOtaResult_failed` — what a query does
* `idempotent_iff` — the states in which the query is idempotent
-/

namespace EarbudFirmware.Ota

open NorMemory (Content overlay)
open SectorFill (Op)

/-! ### Specification -/

/-- All bytes of a firmware image have been received, and the counters say so. -/
structure ImageCounted (b : Build) (s : OtaState) : Prop where
  user : s.env.currentUser = userFirmware
  received : s.env.alreadyReceivedDataSizeOfImage = s.env.totalImageSize
  programmed : s.env.offsetInFlashToProgram + s.env.offsetInDataBufferForBurning =
    s.env.totalImageSize
  flash_aligned : s.env.offsetInFlashToProgram % minSegAlign = 0
  buffer_lt : s.env.offsetInDataBufferForBurning < sectorSize
  total_le : s.env.totalImageSize ≤ b.maxImageSize
  inModule : (s.env.totalImageSize + (sectorSize - 1)) / sectorSize * sectorSize ≤ b.length .ota
  length_lt : b.length .ota < 0x100000000
  log : sectorSize ≤ b.length .upgradeLog

/-- All bytes of a firmware image have been received. They are in the flash, or in the data buffer,
and the flash is ready for the latter. -/
structure ImageReceived (b : Build) (s : OtaState) : Prop extends ImageCounted b s where
  ready : ∀ i < s.env.offsetInDataBufferForBurning,
    s.env.offsetInFlashToProgram % sectorSize ≠ 0 →
    s.env.offsetInFlashToProgram % sectorSize + i < sectorSize →
    s.mem.flash .ota (s.env.offsetInFlashToProgram + i) &&& s.mem.dataBufferForBurning i =
      s.mem.dataBufferForBurning i

/-- The session has not been reset: its user is still set. -/
def OtaState.InSession (s : OtaState) : Prop := s.env.currentUser = userFirmware

/-- `n` queries. -/
def queries (b : Build) : Nat → OtaState → Option OtaState
  | 0, s => some s
  | n + 1, s => (queries b n s).bind fun s => (handleGetOtaResult b s).map Prod.fst

/-- The query ends, and so do all further ones. They leave the flash as the first one did, and give
its verdict as long as the session is not reset. -/
def Idempotent (b : Build) (s : OtaState) : Prop :=
  ∃ s₁ out₁, handleGetOtaResult b s = some (s₁, out₁) ∧
    ∀ n, ∃ s₂ s₃ out₂, queries b n s₁ = some s₂ ∧ handleGetOtaResult b s₂ = some (s₃, out₂) ∧
      s₃.mem.flash .ota = s₁.mem.flash .ota ∧ (s₂.InSession → out₂ = out₁)

/-- The data buffer with the last 512 bytes of the image. -/
def tailBuffer (buf flash : Content) (total : Nat) : Content :=
  overlay 0 lenOfImageTail (fun i => flash (total - lenOfImageTail + i)) buf

/-- Where the key word is in the tail of the image. -/
def tailLocation (buf flash : Content) (total : Nat) : Option Nat :=
  findKeyWord (tailBuffer buf flash total) lenOfImageTail sanityCrcKeyWord

/-- The number of bytes that the checksum in the tail is about. -/
def sanityLength (total location : Nat) : Nat :=
  location + total - lenOfImageTail + sanityCrcKeyWord.length

/-- The bytes that the checksum in the tail is about are in the module. -/
def SanityInside (b : Build) (buf flash : Content) (total : Nat) : Prop :=
  ∀ location, tailLocation buf flash total = some location →
    sanityLength total location ≤ b.length .ota

/-- The checksum in the tail of the image is right. An image without one is not checked by it. -/
def SanityOk (buf flash : Content) (total : Nat) : Prop :=
  ∀ location, tailLocation buf flash total = some location →
    crc32C 0 ((List.range (sanityLength total location)).map flash) =
      sanityCrc fun i => tailBuffer buf flash total (location + sanityCrcKeyWord.length + i)

/-- The flash with `NORMAL_BOOT` as the start word of the image. -/
def withStartWord (flash : Content) : Content := overlay 0 4 (leByte normalBoot) flash

/-- The start of the last sector of the image. -/
def lastSector (total : Nat) : Nat := (total - 1) / sectorSize * sectorSize

/-- What `ota_control_check_image_crc` leaves in the data buffer. -/
def lastPiece (flash : Content) (total : Nat) : Content := fun i =>
  hideStartWord flash (lastSector total + i)

/-- The `rest` bytes at `offset` stay when `ptr` is programmed over them: in the sector that they
begin in, bits are only cleared; the next one is erased before. -/
def KeepsRest (flash ptr : Content) (rest offset : Nat) : Prop :=
  offset % sectorSize = 0 ∨ ∀ i < rest,
    if offset % sectorSize + i < sectorSize then
      flash (offset + i) &&& ptr i = flash (offset + i)
    else ptr i = flash (offset + i)

/-- The image when it is checked again. A rest from the start of the flash on has lost its start
word. -/
def imageAgain (flash : Content) (rest offset : Nat) : Content :=
  if offset = 0 ∧ rest ≠ 0 then hideStartWord flash else flash

/-- The flash of the image when the rest of the data buffer has been programmed. -/
def OtaState.restBurnt (s : OtaState) : Content :=
  burnt (flushOps s.mem.dataBufferForBurning s.env.offsetInDataBufferForBurning
    s.env.offsetInFlashToProgram) (s.mem.flash .ota)

/-- The image passes both checks. -/
def Passes (buf flash : Content) (total : Nat) (crc : UInt32) : Prop :=
  SanityOk buf flash total ∧ Verified (withStartWord flash) total crc

/-- The flash when the image has passed its check for the first time. -/
def OtaState.image (s : OtaState) : Content := withStartWord s.restBurnt

/-- The rest of the image stays when a second query programs what it finds in the data buffer, and
the checksum in the tail is right for the image that is read then. -/
structure PassesAgain (b : Build) (s : OtaState) : Prop where
  keeps : KeepsRest s.image (lastPiece s.image s.env.totalImageSize)
    s.env.offsetInDataBufferForBurning s.env.offsetInFlashToProgram
  inside : SanityInside b (lastPiece s.image s.env.totalImageSize)
    (imageAgain s.image s.env.offsetInDataBufferForBurning s.env.offsetInFlashToProgram)
    s.env.totalImageSize
  sanity : SanityOk (lastPiece s.image s.env.totalImageSize)
    (imageAgain s.image s.env.offsetInDataBufferForBurning s.env.offsetInFlashToProgram)
    s.env.totalImageSize

/-- The tail of the image is in the module, and the image fails its check at once or passes it
again. -/
structure Repeatable (b : Build) (s : OtaState) : Prop where
  long : lenOfImageTail ≤ s.env.totalImageSize
  inside : SanityInside b s.mem.dataBufferForBurning s.restBurnt s.env.totalImageSize
  again : Passes s.mem.dataBufferForBurning s.restBurnt s.env.totalImageSize s.env.crc32OfImage →
    PassesAgain b s

variable {b : Build} {x : FlashModule} {m m' : Mem} {s s' : OtaState} {ptr f : Content}
variable {rest offset total : Nat}

/-! ### The rest of the data buffer -/

/-- Less than a sector is programmed by a head in the sector that has been begun, and a tail in the
next one. -/
theorem flushOps_rest (ptr : Content) (offset : Nat) (hrest : rest < sectorSize) :
    flushOps ptr rest offset =
      let pre := min rest ((sectorSize - offset % sectorSize) % sectorSize)
      (if pre > 0 then [.program offset pre ptr] else []) ++
        (if rest > pre then
          [.erase (offset + pre), .program (offset + pre) (rest - pre) fun i => ptr (pre + i)]
        else []) := by
  have hpre : (if rest < (sectorSize - offset % sectorSize) % sectorSize then rest
      else (sectorSize - offset % sectorSize) % sectorSize) =
        min rest ((sectorSize - offset % sectorSize) % sectorSize) := by
    split_ifs <;> omega
  unfold flushOps
  dsimp only
  rw [hpre]
  generalize hp : min rest ((sectorSize - offset % sectorSize) % sectorSize) = pre
  have hmiddle : (if rest > pre then (rest - pre) / sectorSize * sectorSize else 0) = 0 := by
    rw [Nat.div_eq_of_lt (by omega), Nat.zero_mul, ite_self]
  rw [hmiddle, Nat.zero_div, List.range_zero, List.flatMap_nil, List.append_nil, Nat.add_zero]
  refine congrArg (HAppend.hAppend _) ?_
  by_cases hmore : rest > pre
  · have hpost : (offset + rest) % sectorSize = rest - pre := by
      unfold sectorSize at *
      omega
    have hat : (offset + pre) / sectorSize * sectorSize = offset + pre := by
      unfold sectorSize at *
      omega
    rw [if_pos hmore, if_pos hmore, hpost, if_pos (by omega), Nat.add_zero, hat]
  · rw [if_neg hmore, if_neg hmore, if_neg (by omega)]

/-- The flash behind it. -/
theorem burnt_flushOps_rest (ptr f : Content) (offset : Nat) (hrest : rest < sectorSize) (y : Nat) :
    burnt (flushOps ptr rest offset) f y =
      let pre := min rest ((sectorSize - offset % sectorSize) % sectorSize)
      if y < offset then f y
      else if y < offset + pre then f y &&& ptr (y - offset)
      else if y < offset + rest then ptr (y - offset)
      else if pre < rest ∧ y < offset + pre + sectorSize then 0xFF
      else f y := by
  rw [flushOps_rest ptr offset hrest]
  dsimp only
  generalize min rest ((sectorSize - offset % sectorSize) % sectorSize) = pre
  rw [burnt_append]
  have hhead : burnt (if pre > 0 then [Op.program offset pre ptr] else []) f y =
      if offset ≤ y ∧ y < offset + pre then f y &&& ptr (y - offset) else f y := by
    obtain rfl | hpos := Nat.eq_zero_or_pos pre
    · rw [if_neg (Nat.lt_irrefl 0), if_neg (by omega)]
      rfl
    · rw [if_pos hpos]
      rfl
  by_cases hmore : rest > pre
  · -- the next sector is erased
    rw [if_pos hmore]
    show (if offset + pre ≤ y ∧ y < offset + pre + (rest - pre) then
      (if offset + pre ≤ y ∧ y < offset + pre + sectorSize then 0xFF else _) &&&
        ptr (pre + (y - (offset + pre)))
      else if offset + pre ≤ y ∧ y < offset + pre + sectorSize then 0xFF else _) = _
    rw [hhead]
    rcases Nat.lt_or_ge y (offset + pre) with hy | hy
    · rw [if_neg (by omega), if_neg (by omega)]
      split_ifs <;> first | rfl | omega
    · rw [if_neg (by omega : ¬y < offset), if_neg (by omega : ¬y < offset + pre)]
      by_cases hin : y < offset + rest
      · rw [if_pos (by omega), if_pos (by omega), if_pos hin, NorMemory.erased_and,
          show pre + (y - (offset + pre)) = y - offset by omega]
      · rw [if_neg (by omega), if_neg hin, if_neg (by omega : ¬(offset ≤ y ∧ y < offset + pre))]
        exact if_congr (by omega) rfl rfl
  · rw [if_neg hmore]
    refine hhead.trans ?_
    split_ifs <;> first | rfl | omega

/-- The bytes of the rest. -/
theorem burnt_rest (ptr f : Content) (offset : Nat) (hrest : rest < sectorSize) {i : Nat}
    (hi : i < rest) :
    burnt (flushOps ptr rest offset) f (offset + i) =
      if offset % sectorSize ≠ 0 ∧ offset % sectorSize + i < sectorSize then
        f (offset + i) &&& ptr i
      else ptr i := by
  rw [burnt_flushOps_rest ptr f offset hrest, Nat.add_sub_cancel_left]
  dsimp only
  have hhead : offset + i < offset + min rest ((sectorSize - offset % sectorSize) % sectorSize) ↔
      offset % sectorSize ≠ 0 ∧ offset % sectorSize + i < sectorSize := by
    unfold sectorSize
    omega
  rw [if_neg (by omega), if_congr hhead rfl rfl, if_pos (by omega : offset + i < offset + rest)]

/-! ### The start word -/

variable {y : Nat}

theorem withStartWord_of_lt (f : Content) (hy : y < 4) :
    withStartWord f y = leByte normalBoot y :=
  NorMemory.overlay_of_inRange ⟨Nat.zero_le y, by omega⟩ _ _

theorem withStartWord_of_le (f : Content) (hy : 4 ≤ y) : withStartWord f y = f y :=
  NorMemory.overlay_of_not_inRange (fun h => by have := h.2; omega) _ _

/-- The start word is all that `withStartWord` changes. -/
theorem withStartWord_eq_iff {g : Content} (hf : withStartWord f = f) :
    withStartWord g = f ↔ ∀ y, 4 ≤ y → g y = f y := by
  constructor
  · rintro rfl y hy
    exact (withStartWord_of_le g hy).symm
  · intro h
    funext y
    rcases Nat.lt_or_ge y 4 with hy | hy
    · rw [← hf, withStartWord_of_lt _ hy, withStartWord_of_lt _ hy]
    · rw [withStartWord_of_le _ hy, h y hy]

theorem withStartWord_withStartWord (f : Content) :
    withStartWord (withStartWord f) = withStartWord f := by
  funext y
  rcases Nat.lt_or_ge y 4 with hy | hy
  · rw [withStartWord_of_lt _ hy, withStartWord_of_lt _ hy]
  · rw [withStartWord_of_le _ hy]

theorem hideStartWord_of_le (f : Content) (hy : 4 ≤ y) : hideStartWord f y = f y :=
  if_neg (by omega)

/-! ### The same rest again -/

/-- A flash that a rest has been programmed into: it has its start word, and the sector that was
erased for the end of the rest is erased behind it. -/
structure Programmed (f : Content) (rest offset : Nat) : Prop where
  start : withStartWord f = f
  erased : min rest ((sectorSize - offset % sectorSize) % sectorSize) < rest →
    ∀ y, offset + rest ≤ y →
      y < offset + min rest ((sectorSize - offset % sectorSize) % sectorSize) + sectorSize →
      f y = 0xFF

theorem programmed_burnt (ptr f : Content) (offset : Nat) (hrest : rest < sectorSize)
    (hlong : 4 ≤ offset + rest) :
    Programmed (withStartWord (burnt (flushOps ptr rest offset) f)) rest offset where
  start := withStartWord_withStartWord _
  erased hmore y hlo hhi := by
    rw [withStartWord_of_le _ (by omega), burnt_flushOps_rest ptr f offset hrest]
    dsimp only
    rw [if_neg (by omega), if_neg (by omega), if_neg (by omega), if_pos ⟨hmore, hhi⟩]

/-- Programming another rest changes only the bytes of the rest. -/
theorem Programmed.burnt_of_not_rest (h : Programmed f rest offset) (ptr : Content)
    (hrest : rest < sectorSize) (hy : ¬(offset ≤ y ∧ y < offset + rest)) :
    burnt (flushOps ptr rest offset) f y = f y := by
  rw [burnt_flushOps_rest ptr f offset hrest]
  dsimp only
  rcases Nat.lt_or_ge y offset with hlo | hlo
  · rw [if_pos hlo]
  · rw [if_neg (by omega), if_neg (by omega), if_neg (by omega)]
    split_ifs with herased
    · exact (h.erased herased.1 y (by omega) herased.2).symm
    · rfl

/-- The image stays in the flash, but for its start word, if and only if the rest stays. -/
theorem Programmed.keepsRest_iff (h : Programmed f rest offset) (hrest : rest < sectorSize)
    (hat : offset % minSegAlign = 0)
    (hptr : offset % sectorSize = 0 → ∀ i < rest, ptr i = hideStartWord f (offset + i)) :
    withStartWord (burnt (flushOps ptr rest offset) f) = f ↔ KeepsRest f ptr rest offset := by
  rw [withStartWord_eq_iff h.start]
  by_cases haligned : offset % sectorSize = 0
  · refine ⟨fun _ => .inl haligned, fun _ y hy => ?_⟩
    by_cases hin : offset ≤ y ∧ y < offset + rest
    · obtain ⟨i, rfl⟩ := Nat.exists_eq_add_of_le hin.1
      rw [burnt_rest ptr f offset hrest (by omega), if_neg (fun h => h.1 haligned),
        hptr haligned i (by omega)]
      exact if_neg (by omega)
    · exact h.burnt_of_not_rest ptr hrest hin
  · have hbehind : 4 ≤ offset := by
      unfold minSegAlign sectorSize at *
      omega
    have hbyte : ∀ i < rest, (burnt (flushOps ptr rest offset) f (offset + i) = f (offset + i) ↔
        if offset % sectorSize + i < sectorSize then
          f (offset + i) &&& ptr i = f (offset + i)
        else ptr i = f (offset + i)) := by
      intro i hi
      rw [burnt_rest ptr f offset hrest hi]
      by_cases hin : offset % sectorSize + i < sectorSize
      · rw [if_pos ⟨haligned, hin⟩, if_pos hin]
      · rw [if_neg (fun h => hin h.2), if_neg hin]
    constructor
    · exact fun heq => .inr fun i hi => (hbyte i hi).1 (heq _ (by omega))
    · intro hkeeps y hy
      by_cases hin : offset ≤ y ∧ y < offset + rest
      · obtain ⟨i, rfl⟩ := Nat.exists_eq_add_of_le hin.1
        exact (hbyte i (by omega)).2 (hkeeps.resolve_left haligned i (by omega))
      · exact h.burnt_of_not_rest ptr hrest hin

/-- The image that is checked again. -/
theorem Programmed.burnt_eq (h : Programmed f rest offset) (hrest : rest < sectorSize)
    (hat : offset % minSegAlign = 0)
    (hptr : offset % sectorSize = 0 → ∀ i < rest, ptr i = hideStartWord f (offset + i))
    (hlong : 4 ≤ offset + rest) (hkeeps : KeepsRest f ptr rest offset) :
    burnt (flushOps ptr rest offset) f = imageAgain f rest offset := by
  have heq := (withStartWord_eq_iff h.start).1 ((h.keepsRest_iff hrest hat hptr).2 hkeeps)
  funext y
  unfold imageAgain
  rcases Nat.lt_or_ge y 4 with hy | hy
  · split_ifs with hzero
    · obtain ⟨rfl, -⟩ := hzero
      have hbyte := burnt_rest ptr f 0 hrest (show y < rest by omega)
      rw [Nat.zero_add, if_neg (fun h => h.1 (Nat.zero_mod _)),
        hptr (Nat.zero_mod _) y (by omega), Nat.zero_add] at hbyte
      exact hbyte
    · refine h.burnt_of_not_rest ptr hrest fun hin => hzero ?_
      unfold minSegAlign at hat
      omega
  · rw [heq y hy]
    split_ifs
    · exact (if_neg (by omega)).symm
    · rfl

theorem lastPiece_eq (f : Content) (hrest : rest < sectorSize) (hat : offset % sectorSize = 0)
    {i : Nat} (hi : i < rest) : lastPiece f (offset + rest) i = hideStartWord f (offset + i) := by
  have hlast : lastSector (offset + rest) = offset := by
    unfold lastSector sectorSize at *
    omega
  unfold lastPiece
  rw [hlast]

/-! ### The checks of the image -/

theorem appFlashRead_of_le {off len : Nat} (hle : off + len ≤ b.length x) (m : Mem) :
    appFlashRead b (some x) off len m = some { m with
      dataBufferForBurning :=
        overlay 0 len (fun i => m.flash x (off + i)) m.dataBufferForBurning } :=
  if_pos hle

/-- A checksum of bytes that are not all in the module is not computed. -/
theorem crcLoop_eq_none {len fuel done : Nat} {crc : UInt32} (hlen : b.length x < len)
    (hfuel : len ≤ done + fuel) (hdone : done < len) (m : Mem) :
    crcLoop b (some x) 0 len id (fun _ => some) fuel done m crc = none := by
  induction fuel generalizing done m crc with
  | zero => omega
  | succ fuel ih =>
    unfold crcLoop
    rw [if_pos hdone]
    dsimp only [id_eq]
    by_cases hin : 0 + done + min (len - done) sectorSize ≤ b.length x
    · rw [appFlashRead_of_le hin]
      have hpos : 0 < sectorSize := by decide
      exact ih (by omega) (by omega) _
    · have hnone : appFlashRead b (some x) (0 + done) (min (len - done) sectorSize) m = none :=
        if_neg hin
      rw [hnone]
      rfl

/-- The checksum of bytes that are in the module. -/
theorem crcLoop_id {len : Nat} (hlen : len ≤ b.length x) (m : Mem) :
    ∃ m', crcLoop b (some x) 0 len id (fun _ => some) len 0 m 0 =
        some (m', some (crc32C 0 ((List.range len).map (m.flash x)))) ∧ m'.flash = m.flash := by
  obtain ⟨m', c, hloop⟩ := exists_crcLoop len 0 (show 0 + len ≤ b.length x by omega) m 0
  have hprepare : ∀ (done : Nat) (buf buf' : Content), sectorSize ∣ done →
      (∀ i < id (min (len - done) sectorSize), buf i = m.flash x (0 + done + i)) →
      some buf = some buf' →
      ∀ i < min (len - done) sectorSize, buf' i = m.flash x (done + i) := by
    intro done buf buf' _ hbuf heq i hi
    rw [← Option.some.inj heq, hbuf i hi, Nat.zero_add]
  obtain ⟨hflash, hc⟩ := crcLoop_eq_some hprepare (by omega) (.inl ⟨dvd_zero _, Nat.zero_le _⟩)
    (by simp) hloop
  exact ⟨m', hc ▸ hloop, hflash⟩

/-- The check of the checksum in the tail of the image. -/
theorem checkImageDataSanityCrc_spec (hlong : lenOfImageTail ≤ total) (hmax : total < 0x80000000)
    (hin : total ≤ b.length .ota) (m : Mem) :
    (¬SanityInside b m.dataBufferForBurning (m.flash .ota) total →
      checkImageDataSanityCrc b (some .ota) total m = none) ∧
    (SanityInside b m.dataBufferForBurning (m.flash .ota) total →
      ∃ m' ok, checkImageDataSanityCrc b (some .ota) total m = some (m', ok) ∧
        m'.flash = m.flash ∧
        (ok = true ↔ SanityOk m.dataBufferForBurning (m.flash .ota) total)) := by
  have hoff : sub32 total lenOfImageTail = total - lenOfImageTail := by
    unfold sub32 lenOfImageTail at *
    omega
  have hread := appFlashRead_of_le (b := b) (x := .ota)
    (show total - lenOfImageTail + lenOfImageTail ≤ _ by omega) m
  unfold checkImageDataSanityCrc
  rw [hoff, hread, Option.bind_eq_bind, Option.bind_some]
  unfold SanityInside SanityOk tailLocation tailBuffer
  dsimp only
  cases findKeyWord (overlay 0 lenOfImageTail (fun i => m.flash .ota (total - lenOfImageTail + i))
      m.dataBufferForBurning) lenOfImageTail sanityCrcKeyWord with
  | none =>
    have hempty : ∀ location, (none : Option Nat) ≠ some location := fun _ hloc =>
      Option.some_ne_none _ hloc.symm
    refine ⟨fun hout => absurd (fun _ hloc => absurd hloc (hempty _)) hout, fun _ => ?_⟩
    exact ⟨_, true, rfl, rfl, fun _ _ hloc => absurd hloc (hempty _), fun _ => rfl⟩
  | some location =>
    dsimp only
    rw [show location + total - lenOfImageTail + sanityCrcKeyWord.length =
      sanityLength total location from rfl]
    refine ⟨fun hout => ?_, fun hinside => ?_⟩
    · have hlt : b.length .ota < sanityLength total location := by
        by_contra hge
        exact hout fun _ hloc => Option.some.inj hloc ▸ Nat.le_of_not_lt hge
      rw [crcLoop_eq_none hlt (Nat.le_add_left _ _) (by omega)]
      rfl
    · obtain ⟨m', hloop, hflash⟩ := crcLoop_id (hinside location rfl) { m with
        dataBufferForBurning := overlay 0 lenOfImageTail
          (fun i => m.flash .ota (total - lenOfImageTail + i)) m.dataBufferForBurning }
      rw [hloop]
      refine ⟨m', _, rfl, hflash, ?_⟩
      rw [decide_eq_true_iff, Option.some.injEq]
      exact ⟨fun heq _ hloc => Option.some.inj hloc ▸ heq, fun hok => hok location rfl⟩

/-- `app_update_magic_number_of_app_image` changes the start word only. -/
theorem updateMagicNumber_spec (hin : sectorSize ≤ b.length .ota) (m : Mem) :
    ∃ m', updateMagicNumberOfAppImage b (some .ota) normalBoot m = some m' ∧
      m'.flash .ota = withStartWord (m.flash .ota) := by
  have hread := appFlashRead_of_le (b := b) (x := .ota) (show 0 + sectorSize ≤ _ by omega) m
  unfold updateMagicNumberOfAppImage
  rw [hread, Option.bind_eq_bind, Option.bind_some]
  dsimp only
  generalize hbuf : overlay 0 4 (leByte normalBoot) (overlay 0 sectorSize
    (fun i => m.flash .ota (0 + i)) m.dataBufferForBurning) = buf
  have herase : ∀ m, appFlashSectorErase b (some .ota) (0 * sectorSize) m =
      some (m.apply .ota (.erase (0 * sectorSize) sectorSize)) :=
    fun m => if_pos ⟨by rw [Nat.zero_mul, Nat.zero_mod], by omega⟩
  have hprogram : ∀ m, appFlashProgram b (some .ota) (0 * sectorSize) buf sectorSize m =
      some (m.apply .ota (.program (0 * sectorSize) sectorSize buf)) :=
    fun m => if_pos (by omega)
  unfold burnSector
  rw [herase, Option.bind_eq_bind, Option.bind_some, hprogram]
  refine ⟨_, rfl, ?_⟩
  funext y
  simp only [Mem.apply, Function.update_self, NorMemory.Op.apply_apply, NorMemory.Op.byteAt,
    Nat.zero_mul]
  by_cases hy : NorMemory.InRange 0 sectorSize y
  · rw [if_pos hy, if_pos hy, NorMemory.erased_and, Nat.sub_zero, ← hbuf]
    rcases Nat.lt_or_ge y 4 with hlt | hge
    · rw [withStartWord_of_lt _ hlt]
      exact NorMemory.overlay_of_inRange ⟨Nat.zero_le y, by omega⟩ _ _
    · rw [withStartWord_of_le _ hge,
        NorMemory.overlay_of_not_inRange (fun h => by have := h.2; omega),
        NorMemory.overlay_of_inRange hy, Nat.sub_zero, Nat.zero_add]
  · rw [if_neg hy, if_neg hy]
    refine (withStartWord_of_le _ ?_).symm
    by_contra hlt
    exact hy ⟨Nat.zero_le y, by unfold sectorSize; omega⟩

/-- A piece of an image with `NORMAL_BOOT` as its start word is prepared. -/
theorem exists_prepareImage {flash : Content} {done : Nat} (buf : Content)
    (hboot : le flash 0 4 = normalBoot) (hdvd : sectorSize ∣ done)
    (hbuf : ∀ i < sectorSize, buf i = flash (done + i)) :
    ∃ buf', prepareImage done buf = some buf' ∧
      ∀ i < sectorSize, buf' i = hideStartWord flash (done + i) := by
  obtain ⟨buf', hbuf'⟩ : ∃ buf', prepareImage done buf = some buf' := by
    unfold prepareImage
    by_cases hzero : done = 0
    · have hword : le buf 0 4 = normalBoot := by
        rw [← hboot]
        refine le_congr fun i hi => ?_
        rw [hbuf i (hi.2.trans_le (by decide)), hzero, Nat.zero_add]
      rw [if_pos hzero, if_pos hword]
      exact ⟨_, rfl⟩
    · rw [if_neg hzero]
      exact ⟨_, rfl⟩
  exact ⟨buf', hbuf', prepareImage_eq_some hdvd hbuf hbuf' (Nat.le_refl _)⟩

/-- The loop over an image with `NORMAL_BOOT` as its start word leaves the last piece in the data
buffer. -/
theorem exists_imageLoop {fuel done : Nat} (crc : UInt32) (hboot : le (m.flash x) 0 4 = normalBoot)
    (hin : (total + (sectorSize - 1)) / sectorSize * sectorSize ≤ b.length x)
    (hdvd : sectorSize ∣ done) (hlt : done < total) (hfuel : total ≤ done + fuel) :
    ∃ m' c, crcLoop b (some x) 0 total (fun _ => sectorSize) prepareImage fuel done m crc =
        some (m', some c) ∧
      ∀ i < sectorSize, m'.dataBufferForBurning i = lastPiece (m.flash x) total i := by
  induction fuel generalizing done m crc with
  | zero => omega
  | succ fuel ih =>
    have hread := appFlashRead_of_le
      (show 0 + done + sectorSize ≤ b.length x by unfold sectorSize at *; omega) m
    obtain ⟨buf, hbuf, hpiece⟩ := exists_prepareImage (overlay 0 sectorSize
      (fun i => m.flash x (0 + done + i)) m.dataBufferForBurning) hboot hdvd fun i hi => by
        rw [NorMemory.overlay_of_inRange ⟨Nat.zero_le i, by omega⟩, Nat.sub_zero, Nat.zero_add]
    unfold crcLoop
    rw [if_pos hlt]
    dsimp only
    rw [hread, Option.bind_eq_bind, Option.bind_some]
    dsimp only
    rw [hbuf]
    dsimp only
    by_cases hmore : done + min (total - done) sectorSize < total
    · have hfull : min (total - done) sectorSize = sectorSize := by omega
      rw [hfull] at hmore ⊢
      have hpos : 0 < sectorSize := by decide
      exact ih _ hboot (Nat.dvd_add hdvd (Nat.dvd_refl _)) hmore (by omega)
    · rw [crcLoop_of_le (by omega)]
      refine ⟨_, _, rfl, fun i hi => (hpiece i hi).trans ?_⟩
      have hlast : lastSector total = done := by
        unfold lastSector sectorSize at *
        omega
      unfold lastPiece
      rw [hlast]

/-- The check of the whole image. -/
theorem checkImageCrc_spec (crc : UInt32) (hboot : le (m.flash x) 0 4 = normalBoot)
    (hpos : 0 < total)
    (hin : (total + (sectorSize - 1)) / sectorSize * sectorSize ≤ b.length x) :
    ∃ m' ok, checkImageCrc b (some x) total crc m = some (m', ok) ∧ m'.flash = m.flash ∧
      (∀ i < sectorSize, m'.dataBufferForBurning i = lastPiece (m.flash x) total i) ∧
      (ok = true ↔ Verified (m.flash x) total crc) := by
  have hread := appFlashRead_of_le
    (show 0 + sectorSize ≤ b.length x by unfold sectorSize at *; omega) m
  unfold checkImageCrc
  rw [hread, Option.bind_eq_bind, Option.bind_some]
  dsimp only
  generalize hbuf : overlay 0 sectorSize (fun i => m.flash x (0 + i)) m.dataBufferForBurning = buf
  have hword : le buf 0 4 = normalBoot := by
    rw [← hboot, ← hbuf]
    refine le_congr fun i hi => ?_
    rw [NorMemory.overlay_of_inRange ⟨hi.1, hi.2.trans_le (by decide)⟩, Nat.sub_zero, Nat.zero_add]
  rw [if_pos hword]
  obtain ⟨m', c, hloop, hlast⟩ := exists_imageLoop (b := b) (x := x)
    (m := { m with dataBufferForBurning := buf }) 0 hboot hin (dvd_zero _) hpos
    (Nat.le_add_left _ _)
  have hprepare : ∀ (done : Nat) (buf buf' : Content), sectorSize ∣ done →
      (∀ i < sectorSize, buf i = m.flash x (0 + done + i)) → prepareImage done buf = some buf' →
      ∀ i < min (total - done) sectorSize, buf' i = hideStartWord (m.flash x) (done + i) :=
    fun done buf buf' hdvd hb hp =>
      prepareImage_eq_some hdvd (by simpa using hb) hp (Nat.min_le_right _ _)
  obtain ⟨hflash, hc⟩ := crcLoop_eq_some hprepare (Nat.le_add_left _ _)
    (.inl ⟨dvd_zero _, Nat.zero_le _⟩) (by simp) hloop
  rw [hloop]
  refine ⟨m', _, rfl, hflash, hlast, ?_⟩
  rw [decide_eq_true_iff, Option.some.injEq, hc]
  exact ⟨fun heq => ⟨hboot, heq⟩, fun h => h.2⟩

/-! ### A query -/

/-- The state when the image has passed. -/
def OtaState.passed (s : OtaState) (m : Mem) : OtaState :=
  { s with
    mem := m
    env := { s.env with isPendingForReboot := true, resumeAtBreakpoint := false } }

/-- The answer when the image has passed. -/
def OtaState.passedOutput (s : OtaState) : List Output :=
  [.imageVerified s.env.totalImageSize s.env.crc32OfImage, .resultResponse 1]

theorem ImageCounted.module (h : ImageCounted b s) : s.module b = some .ota :=
  module_firmware h.user

theorem ImageCounted.total_lt (h : ImageCounted b s) : s.env.totalImageSize < 0x80000000 :=
  Nat.lt_of_le_of_lt h.total_le b.maxImageSize_lt

theorem ImageCounted.total_le_length (h : ImageCounted b s) :
    s.env.totalImageSize ≤ b.length .ota := by
  refine Nat.le_trans ?_ h.inModule
  unfold sectorSize
  omega

theorem ImageCounted.exists_burnRest (h : ImageCounted b s) :
    ∃ m, burnRest b s = some { s with mem := m } ∧ m.flash .ota = s.restBurnt ∧
      m.dataBufferForBurning = s.mem.dataBufferForBurning := by
  have hend : s.env.offsetInFlashToProgram + s.env.offsetInDataBufferForBurning ≤
      (s.env.totalImageSize + (sectorSize - 1)) / sectorSize * sectorSize := by
    rw [h.programmed]
    unfold sectorSize
    omega
  exact Ota.exists_burnRest h.module hend (Nat.mul_mod_left _ _) h.inModule

theorem upgradeLogDestroy_of_le (hlog : sectorSize ≤ b.length .upgradeLog) (s : OtaState) :
    upgradeLogDestroy b s = some { s with
      mem := s.mem.apply .upgradeLog (.erase 0 sectorSize)
      env := { s.env with resumeAtBreakpoint := false } } := by
  have herase : appFlashSectorErase b (some .upgradeLog) 0 s.mem =
      some (s.mem.apply .upgradeLog (.erase 0 sectorSize)) :=
    if_pos ⟨Nat.zero_mod _, by omega⟩
  unfold upgradeLogDestroy
  rw [herase]
  rfl

/-- The check does not end if the bytes that the tail is about are not in the module. If it ends,
the answer is whether the image passes. -/
theorem ImageCounted.checkFirmware_spec (h : ImageCounted b s) (s' : OtaState)
    (huser : s'.env = s.env) (hbuf : s'.mem.dataBufferForBurning = s.mem.dataBufferForBurning)
    (hflash : s'.mem.flash .ota = s.restBurnt) (hlong : lenOfImageTail ≤ s.env.totalImageSize) :
    (¬SanityInside b s.mem.dataBufferForBurning s.restBurnt s.env.totalImageSize →
      checkFirmware b s' = none) ∧
    (SanityInside b s.mem.dataBufferForBurning s.restBurnt s.env.totalImageSize →
      ∃ m ok, checkFirmware b s' = some (m, ok) ∧
        (ok = true ↔ Passes s.mem.dataBufferForBurning s.restBurnt s.env.totalImageSize
          s.env.crc32OfImage) ∧
        (ok = true → m.flash .ota = withStartWord s.restBurnt ∧ ∀ i < sectorSize,
          m.dataBufferForBurning i =
            lastPiece (withStartWord s.restBurnt) s.env.totalImageSize i)) := by
  obtain ⟨hout, hinside⟩ := checkImageDataSanityCrc_spec hlong h.total_lt h.total_le_length s'.mem
  have hmodule : s'.module b = some .ota := by
    unfold OtaState.module
    rw [huser]
    exact h.module
  rw [hbuf, hflash] at hout hinside
  unfold checkFirmware
  rw [hmodule, huser]
  refine ⟨fun hnot => ?_, fun hin => ?_⟩
  · rw [hout hnot]
    rfl
  · obtain ⟨m₁, ok₁, hsanity, hflash₁, hok₁⟩ := hinside hin
    rw [hsanity, Option.bind_eq_bind, Option.bind_some]
    dsimp only
    by_cases hok : ok₁ = true
    · have hpos : 0 < s.env.totalImageSize := by
        unfold lenOfImageTail at hlong
        omega
      have hsector : sectorSize ≤ b.length .ota := by
        refine Nat.le_trans ?_ h.inModule
        unfold sectorSize
        omega
      obtain ⟨m₂, hupdate, hflash₂⟩ := updateMagicNumber_spec hsector m₁
      rw [hflash₁, hflash] at hflash₂
      have hboot : le (m₂.flash .ota) 0 4 = normalBoot := by
        rw [hflash₂]
        refine (le_leByte (v := normalBoot) (k := 0) fun i hi => ?_).trans (by decide)
        rw [Nat.zero_add]
        exact withStartWord_of_lt _ hi
      obtain ⟨m₃, ok₃, hcheck, hflash₃, hbuf₃, hok₃⟩ :=
        checkImageCrc_spec s.env.crc32OfImage hboot hpos h.inModule
      rw [if_pos hok, hupdate, Option.bind_eq_bind, Option.bind_some, hcheck]
      refine ⟨m₃, ok₃, rfl, ?_, fun _ => ⟨?_, ?_⟩⟩
      · rw [hok₃, hflash₂]
        exact ⟨fun hver => ⟨hok₁.1 hok, hver⟩, fun hpass => hpass.2⟩
      · rw [hflash₃, hflash₂]
      · rw [← hflash₂]
        exact hbuf₃
    · rw [if_neg hok]
      exact ⟨m₁, false, rfl, ⟨fun hf => absurd hf Bool.false_ne_true,
        fun hpass => absurd (hok₁.2 hpass.1) hok⟩, fun hf => absurd hf Bool.false_ne_true⟩

theorem ImageCounted.handleGetOtaResult_eq (h : ImageCounted b s) :
    ∃ m, m.flash .ota = s.restBurnt ∧ m.dataBufferForBurning = s.mem.dataBufferForBurning ∧
      handleGetOtaResult b s = (checkFirmware b { s with mem := m }).bind fun r =>
        dataCheckImageCrcHandler b { s with mem := r.1 } r.2 := by
  obtain ⟨m, hm, hflash, hbuf⟩ := h.exists_burnRest
  refine ⟨m, hflash, hbuf, ?_⟩
  unfold handleGetOtaResult dataReceptionDone
  rw [if_pos h.received, hm, Option.bind_eq_bind, Option.bind_some, if_pos h.user]
  rfl

/-- The tail of a shorter image is not in the module. -/
theorem ImageCounted.handleGetOtaResult_short (h : ImageCounted b s)
    (hshort : s.env.totalImageSize < lenOfImageTail) : handleGetOtaResult b s = none := by
  obtain ⟨m, -, -, heq⟩ := h.handleGetOtaResult_eq
  have hlarge : ¬sub32 s.env.totalImageSize lenOfImageTail + lenOfImageTail ≤ b.length .ota := by
    have hlt := h.length_lt
    unfold sub32 lenOfImageTail at *
    omega
  have hread : appFlashRead b (some .ota) (sub32 s.env.totalImageSize lenOfImageTail) lenOfImageTail
      m = none := by
    unfold appFlashRead
    rw [Option.bind_some, if_neg hlarge]
  rw [heq]
  unfold checkFirmware checkImageDataSanityCrc
  rw [show OtaState.module b { s with mem := m } = some .ota from h.module, hread]
  rfl

theorem ImageCounted.handleGetOtaResult_outside (h : ImageCounted b s)
    (hlong : lenOfImageTail ≤ s.env.totalImageSize)
    (hout : ¬SanityInside b s.mem.dataBufferForBurning s.restBurnt s.env.totalImageSize) :
    handleGetOtaResult b s = none := by
  obtain ⟨m, hflash, hbuf, heq⟩ := h.handleGetOtaResult_eq
  have hnone := (h.checkFirmware_spec { s with mem := m } rfl hbuf hflash hlong).1 hout
  rw [heq, hnone]
  rfl

/-- An image that passes leaves its last piece in the data buffer. -/
theorem ImageCounted.handleGetOtaResult_passed (h : ImageCounted b s)
    (hlong : lenOfImageTail ≤ s.env.totalImageSize)
    (hin : SanityInside b s.mem.dataBufferForBurning s.restBurnt s.env.totalImageSize)
    (hpass : Passes s.mem.dataBufferForBurning s.restBurnt s.env.totalImageSize
      s.env.crc32OfImage) :
    ∃ m, handleGetOtaResult b s = some (s.passed m, s.passedOutput) ∧
      m.flash .ota = withStartWord s.restBurnt ∧ ∀ i < sectorSize,
        m.dataBufferForBurning i =
          lastPiece (withStartWord s.restBurnt) s.env.totalImageSize i := by
  obtain ⟨m, hflash, hbuf, heq⟩ := h.handleGetOtaResult_eq
  obtain ⟨m', ok, hcheck, hok, hleft⟩ :=
    (h.checkFirmware_spec { s with mem := m } rfl hbuf hflash hlong).2 hin
  obtain rfl := hok.2 hpass
  obtain ⟨hflash', hbuf'⟩ := hleft rfl
  refine ⟨m'.apply .upgradeLog (.erase 0 sectorSize), ?_, ?_, hbuf'⟩
  · rw [heq, hcheck, Option.bind_some]
    unfold dataCheckImageCrcHandler
    rw [if_pos rfl, upgradeLogDestroy_of_le h.log]
    rfl
  · exact (Mem.flash_apply_of_ne ota_ne_upgradeLog _).trans hflash'

/-- An image that does not pass ends the session. -/
theorem ImageCounted.handleGetOtaResult_failed (h : ImageCounted b s)
    (hlong : lenOfImageTail ≤ s.env.totalImageSize)
    (hin : SanityInside b s.mem.dataBufferForBurning s.restBurnt s.env.totalImageSize)
    (hfail : ¬Passes s.mem.dataBufferForBurning s.restBurnt s.env.totalImageSize
      s.env.crc32OfImage) :
    ∃ s', handleGetOtaResult b s = some (s', [.resultResponse 0, .resultResponse 0]) ∧
      s'.env.currentUser = userInvalid ∧
      s'.env.alreadyReceivedDataSizeOfImage ≠ s'.env.totalImageSize := by
  obtain ⟨m, hflash, hbuf, heq⟩ := h.handleGetOtaResult_eq
  obtain ⟨m', ok, hcheck, hok, -⟩ :=
    (h.checkFirmware_spec { s with mem := m } rfl hbuf hflash hlong).2 hin
  have hne : ok ≠ true := fun htrue => hfail (hok.1 htrue)
  have htotal : (exitOtaState b { s with mem := m' }).env.totalImageSize =
      s.env.totalImageSize := by
    unfold exitOtaState
    split_ifs <;> rfl
  rw [heq, hcheck, Option.bind_some]
  unfold dataCheckImageCrcHandler
  rw [if_neg hne, upgradeLogDestroy_of_le h.log]
  refine ⟨_, rfl, rfl, ?_⟩
  show 0 ≠ (exitOtaState b { s with mem := m' }).env.totalImageSize
  unfold lenOfImageTail at hlong
  omega

/-! ### Further queries -/

/-- When the session has been reset, further queries change nothing. -/
theorem queries_of_reset (hne : s.env.alreadyReceivedDataSizeOfImage ≠ s.env.totalImageSize)
    (n : Nat) : queries b n s = some s ∧
      handleGetOtaResult b s = some (s, [.resultResponse 0]) := by
  have hquery : handleGetOtaResult b s = some (s, [.resultResponse 0]) := if_neg hne
  refine ⟨?_, hquery⟩
  induction n with
  | zero => rfl
  | succ n ih =>
    unfold queries
    rw [ih, Option.bind_some, hquery]
    rfl

theorem burnt_congr {ptr' : Content} (f : Content) (offset : Nat) (hrest : rest < sectorSize)
    (heq : ∀ i < rest, ptr i = ptr' i) :
    burnt (flushOps ptr rest offset) f = burnt (flushOps ptr' rest offset) f := by
  funext y
  rw [burnt_flushOps_rest ptr f offset hrest, burnt_flushOps_rest ptr' f offset hrest]
  dsimp only
  by_cases hin : offset ≤ y ∧ y < offset + rest
  · rw [heq (y - offset) (by omega)]
  · rcases Nat.lt_or_ge y offset with hlo | hlo
    · rw [if_pos hlo, if_pos hlo]
    · have hpre : ¬y < offset +
          min rest ((sectorSize - offset % sectorSize) % sectorSize) := by omega
      have hbehind : ¬y < offset + rest := by omega
      rw [if_neg (Nat.not_lt.2 hlo), if_neg hpre, if_neg hbehind, if_neg (Nat.not_lt.2 hlo),
        if_neg hpre, if_neg hbehind]

/-- The key word is looked for in the first bytes only. -/
theorem findKeyWord_congr {target target' : Content} {n : Nat} (keyWord : List UInt8)
    (heq : ∀ i < n + keyWord.length, target i = target' i) :
    findKeyWord target n keyWord = findKeyWord target' n keyWord := by
  unfold findKeyWord
  refine if_congr Iff.rfl (List.find?_congr fun i hi => ?_) rfl
  have hbytes : ((List.range keyWord.length).map fun j => target (i + j)) =
      (List.range keyWord.length).map fun j => target' (i + j) := by
    refine List.map_congr_left fun j hj => heq _ ?_
    have := List.mem_range.1 hi
    have := List.mem_range.1 hj
    omega
  rw [hbytes]

theorem tailBuffer_congr {buf buf' : Content} (flash : Content) (total : Nat) {n : Nat}
    (heq : ∀ i < n, buf i = buf' i) (i : Nat) (hi : i < n) :
    tailBuffer buf flash total i = tailBuffer buf' flash total i := by
  unfold tailBuffer overlay
  rw [heq i hi]

theorem tailLocation_congr {buf buf' : Content} (flash : Content) (total : Nat)
    (heq : ∀ i < sectorSize, buf i = buf' i) :
    tailLocation buf flash total = tailLocation buf' flash total :=
  findKeyWord_congr _ fun i hi => tailBuffer_congr flash total heq i (hi.trans (by decide))

theorem tailLocation_lt {buf flash : Content} {location : Nat}
    (hloc : tailLocation buf flash total = some location) : location < lenOfImageTail := by
  unfold tailLocation findKeyWord at hloc
  split_ifs at hloc
  exact List.mem_range.1 (List.mem_of_find?_eq_some hloc)

theorem sanityInside_congr {buf buf' : Content} (flash : Content) (total : Nat)
    (heq : ∀ i < sectorSize, buf i = buf' i) :
    SanityInside b buf flash total ↔ SanityInside b buf' flash total := by
  unfold SanityInside
  rw [tailLocation_congr flash total heq]

theorem sanityOk_congr {buf buf' : Content} (flash : Content) (total : Nat)
    (heq : ∀ i < sectorSize, buf i = buf' i) :
    SanityOk buf flash total ↔ SanityOk buf' flash total := by
  unfold SanityOk
  rw [tailLocation_congr flash total heq]
  refine forall₂_congr fun location hloc => ?_
  have hlt := tailLocation_lt hloc
  have hdigits : (sanityCrc fun i =>
      tailBuffer buf flash total (location + sanityCrcKeyWord.length + i)) =
      sanityCrc fun i =>
        tailBuffer buf' flash total (location + sanityCrcKeyWord.length + i) := by
    refine List.foldl_ext _ _ _ fun c i hi => ?_
    have hinside : location + sanityCrcKeyWord.length + i < sectorSize := by
      have hi' := List.mem_range.1 hi
      have hword : sanityCrcKeyWord.length = 17 := rfl
      unfold lenOfImageTail at hlt
      unfold sectorSize
      omega
    dsimp only
    rw [tailBuffer_congr flash total heq _ hinside]
  rw [hdigits]

/-- `t` is `s` when the image has passed its check. -/
structure HasPassed (s t : OtaState) : Prop where
  eq : t = s.passed t.mem
  flash : t.mem.flash .ota = s.image
  buffer : ∀ i < sectorSize,
    t.mem.dataBufferForBurning i = lastPiece s.image s.env.totalImageSize i

variable {t : OtaState}

theorem HasPassed.counted (h : HasPassed s t) (hs : ImageCounted b s) : ImageCounted b t := by
  rw [h.eq]
  exact ⟨hs.user, hs.received, hs.programmed, hs.flash_aligned, hs.buffer_lt, hs.total_le,
    hs.inModule, hs.length_lt, hs.log⟩

theorem ImageCounted.lastPiece_eq (h : ImageCounted b s) (f : Content)
    (hat : s.env.offsetInFlashToProgram % sectorSize = 0) (i : Nat)
    (hi : i < s.env.offsetInDataBufferForBurning) :
    lastPiece f s.env.totalImageSize i =
      hideStartWord f (s.env.offsetInFlashToProgram + i) := by
  rw [← h.programmed]
  exact Ota.lastPiece_eq f h.buffer_lt hat hi

theorem ImageCounted.programmed_image (h : ImageCounted b s)
    (hlong : lenOfImageTail ≤ s.env.totalImageSize) :
    Programmed s.image s.env.offsetInDataBufferForBurning s.env.offsetInFlashToProgram := by
  refine programmed_burnt _ _ _ h.buffer_lt ?_
  rw [h.programmed]
  exact Nat.le_trans (by decide) hlong

/-- What a further query programs over the rest. -/
theorem HasPassed.restBurnt_eq (h : HasPassed s t) (hs : ImageCounted b s) :
    t.restBurnt = burnt (flushOps (lastPiece s.image s.env.totalImageSize)
      s.env.offsetInDataBufferForBurning s.env.offsetInFlashToProgram) s.image := by
  have hrest : t.env.offsetInDataBufferForBurning = s.env.offsetInDataBufferForBurning := by
    rw [h.eq]
    rfl
  have hoffset : t.env.offsetInFlashToProgram = s.env.offsetInFlashToProgram := by
    rw [h.eq]
    rfl
  unfold OtaState.restBurnt
  rw [hrest, hoffset, h.flash]
  exact burnt_congr _ _ hs.buffer_lt fun i hi => h.buffer i (hi.trans hs.buffer_lt)

theorem HasPassed.total_eq (h : HasPassed s t) :
    t.env.totalImageSize = s.env.totalImageSize := by
  rw [h.eq]
  rfl

/-- A further query gives the same verdict if and only if the checksum in the tail is right for what
it reads. -/
theorem HasPassed.passes_iff (h : HasPassed s t)
    (hver : Verified s.image s.env.totalImageSize s.env.crc32OfImage)
    (hsame : withStartWord t.restBurnt = s.image) :
    Passes t.mem.dataBufferForBurning t.restBurnt t.env.totalImageSize t.env.crc32OfImage ↔
      SanityOk (lastPiece s.image s.env.totalImageSize) t.restBurnt s.env.totalImageSize := by
  have hcrc : t.env.crc32OfImage = s.env.crc32OfImage := by
    rw [h.eq]
    rfl
  unfold Passes
  rw [hsame, h.total_eq, hcrc, sanityOk_congr _ _ h.buffer]
  exact and_iff_left hver

/-- A query that passes again. -/
theorem PassesAgain.query (hagain : PassesAgain b s) (h : HasPassed s t) (hs : ImageCounted b s)
    (hlong : lenOfImageTail ≤ s.env.totalImageSize)
    (hver : Verified s.image s.env.totalImageSize s.env.crc32OfImage) :
    ∃ t', handleGetOtaResult b t = some (t', s.passedOutput) ∧ HasPassed s t' := by
  have hprog := hs.programmed_image hlong
  have hpiece := hs.lastPiece_eq s.image
  have hsame := (hprog.keepsRest_iff hs.buffer_lt hs.flash_aligned hpiece).2 hagain.keeps
  have hburnt := hprog.burnt_eq hs.buffer_lt hs.flash_aligned hpiece
    (by rw [hs.programmed]; exact Nat.le_trans (by decide) hlong) hagain.keeps
  rw [← h.restBurnt_eq hs] at hsame hburnt
  have hinside : SanityInside b t.mem.dataBufferForBurning t.restBurnt t.env.totalImageSize := by
    rw [h.total_eq, sanityInside_congr _ _ h.buffer, hburnt]
    exact hagain.inside
  have hpass := (h.passes_iff hver hsame).2 (hburnt ▸ hagain.sanity)
  obtain ⟨m, hquery, hflash, hbuf⟩ := (h.counted hs).handleGetOtaResult_passed
    (h.total_eq.symm ▸ hlong) hinside hpass
  have hstate : t.passed m = s.passed m := by
    rw [h.eq]
    rfl
  have hout : t.passedOutput = s.passedOutput := by
    rw [h.eq]
    rfl
  rw [hsame] at hflash hbuf
  refine ⟨s.passed m, ?_, rfl, hflash, fun i hi => ?_⟩
  · rw [hquery, hstate, hout]
  · rw [← h.total_eq]
    exact hbuf i hi

/-- A run of queries that pass. -/
theorem PassesAgain.queries (hagain : PassesAgain b s) (h : HasPassed s t) (hs : ImageCounted b s)
    (hlong : lenOfImageTail ≤ s.env.totalImageSize)
    (hver : Verified s.image s.env.totalImageSize s.env.crc32OfImage) (n : Nat) :
    ∃ t', Ota.queries b n t = some t' ∧ HasPassed s t' := by
  induction n with
  | zero => exact ⟨t, rfl, h⟩
  | succ n ih =>
    obtain ⟨t₁, hrun, h₁⟩ := ih
    obtain ⟨t₂, hquery, h₂⟩ := hagain.query h₁ hs hlong hver
    refine ⟨t₂, ?_, h₂⟩
    unfold Ota.queries
    rw [hrun, Option.bind_some, hquery]
    rfl

/-- A query that gives the verdict of the first one and leaves the same flash. -/
theorem PassesAgain.of_query (h : HasPassed s t) (hs : ImageCounted b s)
    (hlong : lenOfImageTail ≤ s.env.totalImageSize) {t' : OtaState}
    (hquery : handleGetOtaResult b t = some (t', s.passedOutput))
    (hflash : t'.mem.flash .ota = s.image)
    (hver : Verified s.image s.env.totalImageSize s.env.crc32OfImage) : PassesAgain b s := by
  have ht := h.counted hs
  have hlong' : lenOfImageTail ≤ t.env.totalImageSize := h.total_eq.symm ▸ hlong
  have hinside : SanityInside b t.mem.dataBufferForBurning t.restBurnt t.env.totalImageSize := by
    by_contra hout
    rw [ht.handleGetOtaResult_outside hlong' hout] at hquery
    cases hquery
  have hpass : Passes t.mem.dataBufferForBurning t.restBurnt t.env.totalImageSize
      t.env.crc32OfImage := by
    by_contra hfail
    obtain ⟨t₁, hfailed, -, -⟩ := ht.handleGetOtaResult_failed hlong' hinside hfail
    rw [hfailed] at hquery
    cases (Prod.mk.inj (Option.some.inj hquery)).2
  have hsame : withStartWord t.restBurnt = s.image := by
    obtain ⟨m, hpassed, hflash', -⟩ := ht.handleGetOtaResult_passed hlong' hinside hpass
    rw [hpassed] at hquery
    obtain ⟨rfl, -⟩ := Prod.mk.inj (Option.some.inj hquery)
    rw [← hflash', ← hflash]
    rfl
  have hsanity := (h.passes_iff hver hsame).1 hpass
  rw [h.total_eq, sanityInside_congr _ _ h.buffer] at hinside
  have hprog := hs.programmed_image hlong
  have hpiece := hs.lastPiece_eq s.image
  rw [h.restBurnt_eq hs] at hsame hinside hsanity
  have hkeeps := (hprog.keepsRest_iff hs.buffer_lt hs.flash_aligned hpiece).1 hsame
  rw [hprog.burnt_eq hs.buffer_lt hs.flash_aligned hpiece
    (by rw [hs.programmed]; exact Nat.le_trans (by decide) hlong) hkeeps] at hinside hsanity
  exact ⟨hkeeps, hinside, hsanity⟩

theorem Repeatable.idempotent (h : Repeatable b s) (hs : ImageCounted b s) : Idempotent b s := by
  by_cases hpass : Passes s.mem.dataBufferForBurning s.restBurnt s.env.totalImageSize
      s.env.crc32OfImage
  · obtain ⟨m, hquery, hflash, hbuf⟩ := hs.handleGetOtaResult_passed h.long h.inside hpass
    have hpassed : HasPassed s (s.passed m) := ⟨rfl, hflash, hbuf⟩
    refine ⟨_, _, hquery, fun n => ?_⟩
    obtain ⟨t, hrun, ht⟩ := (h.again hpass).queries hpassed hs h.long hpass.2 n
    obtain ⟨t', hquery', ht'⟩ := (h.again hpass).query ht hs h.long hpass.2
    exact ⟨t, t', _, hrun, hquery', ht'.flash.trans hpassed.flash.symm, fun _ => rfl⟩
  · obtain ⟨s₁, hquery, huser, hne⟩ := hs.handleGetOtaResult_failed h.long h.inside hpass
    refine ⟨_, _, hquery, fun n => ?_⟩
    obtain ⟨hrun, hquery'⟩ := queries_of_reset (b := b) hne n
    refine ⟨s₁, s₁, _, hrun, hquery', rfl, fun hopen => ?_⟩
    exact absurd (huser.symm.trans hopen) (by decide)

theorem Idempotent.repeatable (h : Idempotent b s) (hs : ImageCounted b s) : Repeatable b s := by
  obtain ⟨s₁, out₁, hquery, hmore⟩ := h
  have hlong : lenOfImageTail ≤ s.env.totalImageSize := by
    by_contra hshort
    rw [hs.handleGetOtaResult_short (Nat.lt_of_not_le hshort)] at hquery
    cases hquery
  have hinside : SanityInside b s.mem.dataBufferForBurning s.restBurnt s.env.totalImageSize := by
    by_contra hout
    rw [hs.handleGetOtaResult_outside hlong hout] at hquery
    cases hquery
  refine ⟨hlong, hinside, fun hpass => ?_⟩
  obtain ⟨m, hpassed, hflash, hbuf⟩ := hs.handleGetOtaResult_passed hlong hinside hpass
  rw [hpassed] at hquery
  obtain ⟨rfl, rfl⟩ := Prod.mk.inj (Option.some.inj hquery)
  obtain ⟨s₂, s₃, out₂, hrun, hquery₂, hsame, hverdict⟩ := hmore 0
  obtain rfl := Option.some.inj hrun
  rw [hverdict hs.user] at hquery₂
  exact .of_query ⟨rfl, hflash, hbuf⟩ hs hlong hquery₂ (hsame.trans hflash) hpass.2

/-- Queries for the result are idempotent in exactly the states in which the image fails its check
at once, or passes it again. -/
theorem idempotent_iff (h : ImageReceived b s) : Idempotent b s ↔ Repeatable b s :=
  ⟨fun hidem => hidem.repeatable h.toImageCounted, fun hrep => hrep.idempotent h.toImageCounted⟩

/-! ### Examples -/

theorem tailLocation_of_ne {buf flash : Content} (total : Nat) (h : ∀ i, flash i ≠ 0x43) :
    tailLocation buf flash total = none := by
  refine findKeyWord_of_not_mem fun i hi => ?_
  unfold tailBuffer
  rw [NorMemory.overlay_of_inRange ⟨Nat.zero_le i, by omega⟩]
  exact h _

theorem withStartWord_smallImage_ne (i : Nat) : withStartWord smallImage i ≠ 0x43 := by
  have hstart : ∀ i < 4, leByte normalBoot i ≠ 0x43 := by decide
  rcases Nat.lt_or_ge i 4 with hi | hi
  · rw [withStartWord_of_lt _ hi]
    exact hstart i hi
  · rw [withStartWord_of_le _ hi]
    exact smallImage_ne i

/-- An image that is in the flash as a whole. -/
def writtenImage : OtaState :=
  { receivedImage with env := { receivedImage.env with offsetInFlashToProgram := 512 } }

/-- Queries for it are idempotent. -/
theorem idempotent_writtenImage : Idempotent .small writtenImage := by
  have hreceived : ImageReceived .small writtenImage :=
    { user := rfl
      received := rfl
      programmed := rfl
      flash_aligned := rfl
      buffer_lt := show 0 < sectorSize by decide
      total_le := show 512 ≤ 2 * sectorSize by decide
      inModule := show (512 + (sectorSize - 1)) / sectorSize * sectorSize ≤ 2 * sectorSize by
        decide
      length_lt := show 2 * sectorSize < 0x100000000 by decide
      log := show sectorSize ≤ 2 * sectorSize by decide
      ready := fun i hi => absurd hi (Nat.not_lt_zero i) }
  have hnone (buf : Content) : ∀ location,
      tailLocation buf (withStartWord smallImage) 512 ≠ some location := fun location hloc =>
    Option.some_ne_none _ (hloc.symm.trans (tailLocation_of_ne 512 withStartWord_smallImage_ne))
  have hfirst (buf : Content) : ∀ location, tailLocation buf smallImage 512 ≠ some location :=
    fun location hloc =>
      Option.some_ne_none _ (hloc.symm.trans (tailLocation_of_ne 512 smallImage_ne))
  refine (idempotent_iff hreceived).2 ⟨show 512 ≤ 512 by decide, fun location hloc => ?_,
    fun _ => ⟨.inr fun i hi => absurd hi (Nat.not_lt_zero i), fun location hloc => ?_,
      fun location hloc => ?_⟩⟩
  · exact absurd hloc (hfirst _ location)
  · exact absurd hloc (hnone _ location)
  · exact absurd hloc (hnone _ location)

/-- An image with a checksum over its start word and the key word. -/
def keyImage : Content := fun i =>
  if i < 4 then leByte normalBoot i
  else (sanityCrcKeyWord ++ [0x35, 0x39, 0x65, 0x36, 0x62, 0x30, 0x38, 0x62]).getD (i - 4) 0

def keyImageCrc : UInt32 := crc32C 0 ((List.range 516).map (hideStartWord keyImage))

/-- The start of the transmission of an image of 516 bytes. -/
def startPacket (crc : UInt32) : Packet where
  type := 0x80
  payload i :=
    if i < 4 then leByte magicCode i
    else if i < 8 then leByte 516 (i - 4)
    else leByte crc.toNat (i - 8)
  length := 12

/-- The transmission of an image of 516 bytes in one data packet. -/
def imagePackets (image : Content) (crc : UInt32) : List (Reads × Packet) :=
  [(.empty, .ofBytes 0x97 [1]), (.empty, startPacket crc), (.empty, ⟨0x85, image, 516⟩)]

/-- A field of a packet that holds a number. -/
theorem field_eq {pk : Packet} {a v : Nat} (hv : v < 256 ^ 4)
    (hbytes : ∀ i < 4, pk.payload (a + i) = leByte v i) : pk.field a = v := by
  refine (le_leByte (v := v) (k := 0) fun i hi => ?_).trans ?_
  · rw [hbytes i hi, Nat.zero_add]
  · rw [pow_zero, Nat.div_one]
    exact Nat.mod_eq_of_lt hv

theorem exists_handleStart {pk : Packet} (r : Reads) (hmagic : pk.HasMagicCode)
    (hlog : sectorSize ≤ b.length .upgradeLog) (s : OtaState) :
    ∃ s', handleStart b r s pk = some (s', [.startResponse]) ∧
      LogOnly (startTransmission b s pk) s' := by
  obtain ⟨s', hs'⟩ : ∃ s', handleStart b r s pk = some (s', [.startResponse]) := by
    have hprogram : ∀ a ptr m, a + 4 ≤ sectorSize →
        ∃ m', appFlashProgram b (some .upgradeLog) a ptr 4 m = some m' :=
      fun a ptr m ha => ⟨_, if_pos (Nat.le_trans ha hlog)⟩
    unfold handleStart updateStartMessage
    rw [if_pos hmagic]
    split_ifs
    · obtain ⟨m₁, h₁⟩ := hprogram 32
        (leByte (startTransmission b s pk).env.totalImageSize) (startTransmission b s pk).mem
        (by decide)
      obtain ⟨m₂, h₂⟩ := hprogram 36
        (leByte (startTransmission b s pk).env.crc32OfImage.toNat) m₁ (by decide)
      rw [h₁, Option.bind_eq_bind, Option.bind_eq_bind, Option.bind_some, h₂]
      exact ⟨_, rfl⟩
    · exact ⟨_, rfl⟩
  refine ⟨s', hs', ?_⟩
  obtain ⟨hnot, -⟩ | ⟨-, hlogOnly, -⟩ := handleStart_cases hs'
  · exact absurd hmagic hnot
  · exact hlogOnly

/-- A packet that does not fill the data buffer. -/
theorem handleData_short (pk : Packet) (hprogress : s.env.isOTAInProgress = true)
    (hroom : s.env.offsetInDataBufferForBurning + pk.length < sectorSize)
    (hfit : add32 s.env.alreadyReceivedDataSizeOfImage pk.length ≤ s.env.totalImageSize)
    (hmax : s.env.totalImageSize ≤ b.maxImageSize) :
    handleData b s pk = some ({ s with
      env := { s.env with
        offsetInDataBufferForBurning := s.env.offsetInDataBufferForBurning + pk.length
        alreadyReceivedDataSizeOfImage :=
          add32 s.env.alreadyReceivedDataSizeOfImage pk.length }
      mem := s.mem.copyToBuffer s.env.offsetInDataBufferForBurning pk.length fun i =>
        pk.payload (pk.length - pk.length + i) }, []) := by
  have hnow : bytesToCopy s.env.offsetInDataBufferForBurning pk.length = pk.length :=
    if_neg (by omega)
  unfold handleData
  rw [if_pos hprogress]
  unfold dataLoop
  dsimp only
  rw [hnow, if_neg (by omega), Nat.sub_self, if_neg (Nat.lt_irrefl 0), Option.bind_eq_bind,
    Option.bind_some]
  dsimp only
  rw [if_pos rfl, if_neg (by omega)]

theorem startPacket_magic (crc : UInt32) : (startPacket crc).HasMagicCode :=
  field_eq (by decide) fun i hi => by
    rw [Nat.zero_add]
    exact if_pos hi

theorem startPacket_size (crc : UInt32) : (startPacket crc).field 4 = 516 :=
  field_eq (by decide) fun i hi => by
    refine (if_neg (by omega)).trans ((if_pos (by omega)).trans ?_)
    rw [Nat.add_sub_cancel_left]

theorem startPacket_crc (crc : UInt32) : ((startPacket crc).field 8).toUInt32 = crc := by
  have hfield : (startPacket crc).field 8 = crc.toNat :=
    field_eq crc.toNat_lt fun i hi => by
      refine (if_neg (by omega)).trans ((if_neg (by omega)).trans ?_)
      rw [Nat.add_sub_cancel_left]
  rw [hfield]
  exact UInt32.ofNat_toNat

/-- A packet at the front of a run. -/
theorem tracedRun_cons {u v : OtaState × List Output} (r : Reads) (pk : Packet)
    {out : List Output} {es : List (Reads × Packet)}
    (h : handleReceivedData b r u.1 pk = some (s', out))
    (hrun : es.foldlM (tracedStep b) (s', out.reverse ++ u.2) = some v) :
    ((r, pk) :: es).foldlM (tracedStep b) u = some v := by
  have hstep : tracedStep b u (r, pk) = some (s', out.reverse ++ u.2) := by
    unfold tracedStep
    rw [h]
    rfl
  rw [List.foldlM_cons, hstep]
  exact hrun

theorem run_imagePackets (image : Content) (crc : UInt32) :
    ∃ t, (imagePackets image crc).foldlM (tracedStep .small) (.initial fun _ _ => 0xFF, []) =
        some t ∧
      ImageReceived .small t.1 ∧ t.1.env.totalImageSize = 516 ∧
      t.1.env.offsetInFlashToProgram = 0 ∧ t.1.env.offsetInDataBufferForBurning = 516 ∧
      t.1.env.crc32OfImage = crc ∧ ∀ i < 516, t.1.mem.dataBufferForBurning i = image i := by
  have hlog : sectorSize ≤ Build.small.length .upgradeLog := by decide
  generalize hs₁ : ({ OtaState.initial fun _ _ => 0xFF with
    env := { Env.initial with currentUser := userFirmware } } : OtaState) = s₁
  have huser : handleReceivedData .small .empty (.initial fun _ _ => 0xFF) (.ofBytes 0x97 [1]) =
      some (s₁, [.setUserResponse]) := hs₁ ▸ rfl
  obtain ⟨s₂, hstart, m, iLog, breakPoint, resume, -, rfl⟩ :=
    exists_handleStart .empty (startPacket_magic crc) hlog s₁
  have hsize : (startTransmission .small s₁ (startPacket crc)).env.totalImageSize = 516 :=
    startPacket_size crc
  have hdata := handleData_short (b := .small) ⟨0x85, image, 516⟩ (s := { startTransmission
    .small s₁ (startPacket crc) with
      mem := m
      env := { (startTransmission .small s₁ (startPacket crc)).env with
        iLog := iLog, breakPoint := breakPoint, resumeAtBreakpoint := resume } })
    rfl (show 0 + 516 < sectorSize by decide)
    (show add32 0 516 ≤ (startPacket crc).field 4 by rw [startPacket_size]; decide)
    (show (startPacket crc).field 4 ≤ 2 * sectorSize by rw [startPacket_size]; decide)
  have hrun := tracedRun_cons (u := (_, [])) .empty _ huser
    (tracedRun_cons .empty (startPacket crc) hstart
      (tracedRun_cons .empty ⟨0x85, image, 516⟩ hdata List.foldlM_nil))
  refine ⟨_, hrun, ?_, hsize, ?_, rfl, startPacket_crc crc, fun i hi => ?_⟩
  · exact
    { user := by rw [← hs₁]; rfl
      received := show add32 0 516 = (startPacket crc).field 4 by
        rw [startPacket_size]; decide
      programmed := by
        rw [← hs₁]
        show 0 + 516 = (startPacket crc).field 4
        rw [startPacket_size]
      flash_aligned := by rw [← hs₁]; rfl
      buffer_lt := show 516 < sectorSize by decide
      total_le := show (startPacket crc).field 4 ≤ 2 * sectorSize by
        rw [startPacket_size]; decide
      inModule := by
        show ((startPacket crc).field 4 + (sectorSize - 1)) / sectorSize * sectorSize ≤
          2 * sectorSize
        rw [startPacket_size]
        decide
      length_lt := by decide
      log := hlog
      ready := fun i _ hne => absurd (by rw [← hs₁]; rfl) hne }
  · rw [← hs₁]
    rfl
  · show overlay 0 516 (fun i => image (516 - 516 + i)) m.dataBufferForBurning i = image i
    rw [NorMemory.overlay_of_inRange ⟨Nat.zero_le i, by omega⟩]
    exact congrArg image (by omega)

/-- The key word at the begin of the tail. -/
theorem tailLocation_of_start {buf flash : Content}
    (h : (List.range sanityCrcKeyWord.length).map (fun j => flash (total - lenOfImageTail + j)) =
      sanityCrcKeyWord) : tailLocation buf flash total = some 0 := by
  have hbytes : ((List.range sanityCrcKeyWord.length).map fun j =>
      tailBuffer buf flash total (0 + j)) = sanityCrcKeyWord := by
    rw [← h]
    refine List.map_congr_left fun j hj => ?_
    have hlt : j < 17 := List.mem_range.1 hj
    unfold tailBuffer
    rw [Nat.zero_add, NorMemory.overlay_of_inRange ⟨Nat.zero_le j, by
      unfold lenOfImageTail
      omega⟩, Nat.sub_zero]
  unfold tailLocation findKeyWord
  rw [if_pos (by decide), show lenOfImageTail = 511 + 1 from rfl, List.range_succ_eq_map,
    List.find?_cons_of_pos (by rw [hbytes]; exact beq_self_eq_true _)]

/-- The checksum of an image with these bytes is about the start word and the key word. -/
theorem sanityOk_keyImage_iff {buf flash : Content} (start : Content)
    (hstart : ∀ i < 4, flash i = start i) (hkey : ∀ i < 516, 4 ≤ i → flash i = keyImage i) :
    SanityOk buf flash 516 ↔
      crc32C 0 ((List.range 4).map start ++ sanityCrcKeyWord) = 0x59e6b08b := by
  have hword : (List.range sanityCrcKeyWord.length).map (fun j => keyImage (4 + j)) =
      sanityCrcKeyWord := by decide +kernel
  have hloc : tailLocation buf flash 516 = some 0 := by
    refine tailLocation_of_start ((List.map_congr_left fun j hj => ?_).trans hword)
    have hj' : j < 17 := List.mem_range.1 hj
    exact hkey (4 + j) (by omega) (by omega)
  have hbytes : (List.range (sanityLength 516 0)).map flash =
      (List.range 4).map start ++ sanityCrcKeyWord := by
    rw [show sanityLength 516 0 = 4 + 17 from rfl, SectorFill.map_range_add]
    refine congrArg₂ _ (List.map_congr_left fun i hi => hstart i (List.mem_range.1 hi))
      ((List.map_congr_left fun j hj => ?_).trans hword)
    have hj' := List.mem_range.1 hj
    exact hkey (4 + j) (by omega) (by omega)
  have hdigits : (sanityCrc fun i =>
      tailBuffer buf flash 516 (0 + sanityCrcKeyWord.length + i)) = 0x59e6b08b := by
    have hkeyDigits : (sanityCrc fun i => keyImage (21 + i)) = 0x59e6b08b := by decide +kernel
    rw [← hkeyDigits]
    refine List.foldl_ext _ _ _ fun c i hi => ?_
    have hi' := List.mem_range.1 hi
    have hbyte : tailBuffer buf flash 516 (0 + sanityCrcKeyWord.length + i) =
        keyImage (21 + i) := by
      have hinside : NorMemory.InRange 0 lenOfImageTail (0 + sanityCrcKeyWord.length + i) :=
        ⟨Nat.zero_le _, show 0 + 17 + i < 0 + 512 by omega⟩
      have hindex : 516 - lenOfImageTail + (0 + sanityCrcKeyWord.length + i - 0) = 21 + i := by
        show 4 + (0 + 17 + i - 0) = 21 + i
        omega
      unfold tailBuffer
      rw [NorMemory.overlay_of_inRange hinside, hindex]
      exact hkey _ (by omega) (by omega)
    dsimp only
    rw [hbyte]
  unfold SanityOk
  rw [hloc, hbytes.symm, ← hdigits]
  exact ⟨fun h => h 0 rfl, fun h location heq => Option.some.inj heq ▸ h⟩

/-- The second verdict on it differs from the first one. -/
theorem not_idempotent : ¬∀ (b : Build) (flash : FlashModule → Content)
    (es : List (Reads × Packet)) (t : OtaState × List Output),
    es.foldlM (tracedStep b) (.initial flash, []) = some t → ImageReceived b t.1 →
      Idempotent b t.1 := by
  intro hall
  obtain ⟨t, hrun, hreceived, htotal, hoffset, hrest, hcrc, hbuf⟩ :=
    run_imagePackets keyImage keyImageCrc
  have hrep := (hall _ _ _ t hrun hreceived).repeatable hreceived.toImageCounted
  have hburnt : ∀ i < 516, t.1.restBurnt i = keyImage i := by
    intro i hi
    unfold OtaState.restBurnt
    rw [hrest, hoffset]
    have hbyte := burnt_rest t.1.mem.dataBufferForBurning (t.1.mem.flash .ota) 0
      (show 516 < sectorSize by decide) hi
    rw [Nat.zero_add, if_neg fun h => h.1 (Nat.zero_mod _)] at hbyte
    exact hbyte.trans (hbuf i hi)
  have himage : ∀ i < 516, t.1.image i = keyImage i := by
    intro i hi
    unfold OtaState.image
    rcases Nat.lt_or_ge i 4 with hlt | hge
    · rw [withStartWord_of_lt _ hlt]
      exact (if_pos hlt).symm
    · rw [withStartWord_of_le _ hge, hburnt i hi]
  have hpass : Passes t.1.mem.dataBufferForBurning t.1.restBurnt t.1.env.totalImageSize
      t.1.env.crc32OfImage := by
    rw [htotal, hcrc]
    refine ⟨(sanityOk_keyImage_iff (leByte normalBoot) (fun i hi => ?_)
      fun i hi _ => hburnt i hi).2 (by decide +kernel), ?_, ?_⟩
    · rw [hburnt i (by omega)]
      exact if_pos hi
    · refine (le_leByte (v := normalBoot) (k := 0) fun i hi => ?_).trans (by decide)
      rw [Nat.zero_add]
      exact withStartWord_of_lt _ hi
    · unfold keyImageCrc
      refine congrArg (crc32C 0) (List.map_congr_left fun i hi => ?_)
      unfold hideStartWord
      exact if_congr Iff.rfl rfl (himage i (List.mem_range.1 hi))
  have hsanity := (hrep.again hpass).sanity
  rw [htotal, hoffset, hrest] at hsanity
  have hagain : imageAgain t.1.image 516 0 = hideStartWord t.1.image := if_pos ⟨rfl, by decide⟩
  rw [hagain] at hsanity
  have hword := (sanityOk_keyImage_iff (fun _ => 0xFF) (fun i hi => if_pos hi)
    fun i hi hge => (hideStartWord_of_le _ hge).trans (himage i hi)).1 hsanity
  revert hword
  decide +kernel

end EarbudFirmware.Ota
