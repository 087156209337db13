import Mathlib.Data.Nat.Bitwise
import EarbudFirmware.Norflash.State

/-!
# Flash service: the remap brackets

A build with `FLASH_REMAP` has two copies of the code area, one behind the other. The flash
controller maps the addresses of the first copy to the second one while its remap bit is set, and
the service turns the bit over around every access, so that the access reaches the copy that the
processor is not running from.

## Main definitions

* `RemapReg`, `configRemap` — the remap bits of the controller, what it accepts as remap area
* `flashRemapStart`, `flashRemapDone` — the two ends of a bracket
* `bracketed` — an access between the two
* `RemapBuild.Whole` — a range inside a half of the remap area, or outside of both

## Main results

* `bracketed_status_iff` — the bracket gives the status back unless the range is in the second half
* `accesses_status` — over any sequence of accesses that keep out of the second half
-/

namespace EarbudFirmware.Norflash

/-- The bits of `REG_0B0` that the remap functions use. -/
structure RemapReg where
  glbRemapEn : Bool
  addr0RemapEn : Bool
deriving Repr, DecidableEq

namespace RemapReg

/-- `norflaship_enable_remap` for `HAL_NORFLASH_REMAP_ID_0`. -/
def enableRemap (_r : RemapReg) : RemapReg := { glbRemapEn := true, addr0RemapEn := true }

/-- `norflaship_disable_remap`. The global bit stays. -/
def disableRemap (r : RemapReg) : RemapReg := { r with addr0RemapEn := false }

/-- `norflaship_get_remap_status`. -/
def getRemapStatus (r : RemapReg) : Bool := r.addr0RemapEn

/-- What both ends of a bracket do to the controller. -/
def turnOver (r : RemapReg) : RemapReg :=
  if !r.getRemapStatus then r.enableRemap else r.disableRemap

@[simp] theorem getRemapStatus_turnOver (r : RemapReg) :
    r.turnOver.getRemapStatus = !r.getRemapStatus := by
  unfold turnOver
  split <;> simp_all [enableRemap, disableRemap, getRemapStatus]

end RemapReg

/-- `HAL_NORFLASH_ADDR_MASK`. -/
def norflashAddrMask : UInt32 := 0x03FFFFFF

theorem toNat_and_mask (a : UInt32) : (a &&& norflashAddrMask).toNat = physAddr a.toNat := by
  rw [UInt32.toNat_and]
  exact Nat.and_two_pow_sub_one_eq_mod a.toNat 26

/-- The build options of the remap area. -/
structure RemapBuild where
  otaCodeOffset : UInt32
  otaRemapOffset : UInt32
deriving Repr

namespace RemapBuild

variable (b : RemapBuild)

/-- The local `remap_addr` of the source. -/
def remapAddr : UInt32 := b.otaCodeOffset &&& norflashAddrMask

/-- The local `remap_len` of the source. -/
def remapLen : UInt32 := b.otaRemapOffset

end RemapBuild

/-- The answers of `hal_norflash_config_remap`. -/
inductive RemapRet where
  | ok
  | badLen
  | badAddr
  | badRemapOffset
deriving Repr, DecidableEq

/-- The checks of `_config_remap`, with the arguments of `_flash_remap_config`: the length and the
offset are both `OTA_REMAP_OFFSET`. `blockSize` is the erase block, `flashSize` the usable size. -/
def configRemap (b : RemapBuild) (blockSize flashSize : UInt32) : RemapRet :=
  let offset := b.otaRemapOffset
  let remapFrom := b.remapAddr
  if offset = 0 ∨ offset ≥ flashSize ∨ offset &&& (blockSize - 1) ≠ 0 then .badRemapOffset
  else
    let len := (b.otaRemapOffset + 0xFFF) &&& ~~~0xFFF
    if len > offset then .badLen
    else if remapFrom + offset + len > flashSize then .badAddr
    else .ok

/-- `_flash_remap_config` at the start of the service; `none` is a failed assertion. -/
def flashRemapConfig (b : RemapBuild) (blockSize flashSize : UInt32) (r : RemapReg) :
    Option RemapReg :=
  if !r.getRemapStatus then
    if configRemap b blockSize flashSize = .ok then some r else none
  else some r

/-- `_flash_remap_start`; `none` is a failed assertion. -/
def flashRemapStart (b : RemapBuild) (r : RemapReg) (addr len : UInt32) : Option RemapReg :=
  let startAddr := addr &&& norflashAddrMask
  if startAddr + len ≤ b.remapAddr ∨ startAddr ≥ b.remapAddr + 2 * b.remapLen then some r
  else if (startAddr < b.remapAddr ∧ startAddr + len > b.remapAddr) ∨
      (startAddr < b.remapAddr + b.remapLen ∧ startAddr + len > b.remapAddr + b.remapLen) then none
  else some r.turnOver

/-- `_flash_remap_done`. Its first test ends the remap area after the first half. -/
def flashRemapDone (b : RemapBuild) (r : RemapReg) (addr len : UInt32) : Option RemapReg :=
  let startAddr := addr &&& norflashAddrMask
  if startAddr + len ≤ b.remapAddr ∨ startAddr ≥ b.remapAddr + b.remapLen then some r
  else if (startAddr < b.remapAddr ∧ startAddr + len > b.remapAddr) ∨
      (startAddr < b.remapAddr + b.remapLen ∧ startAddr + len > b.remapAddr + b.remapLen) ∨
      (startAddr ≥ b.remapAddr + b.remapLen ∧ startAddr < b.remapAddr + 2 * b.remapLen) then none
  else some r.turnOver

/-- A read, program or erase of the service: `body` sees the controller as the start left it. -/
def bracketed {α : Type*} (b : RemapBuild) (body : RemapReg → α) (r : RemapReg)
    (addr len : UInt32) : Option (α × RemapReg) :=
  match flashRemapStart b r addr len with
  | none => none
  | some r₁ =>
    match flashRemapDone b r₁ addr len with
    | none => none
    | some r₂ => some (body r₁, r₂)

namespace RemapBuild

variable (b : RemapBuild)

/-- The two halves lie in the 32-bit address space. -/
def Fits : Prop := b.remapAddr.toNat + 2 * b.remapLen.toNat < 2 ^ 32

/-- The range straddles no boundary of the halves: it is before them, in the first one, in the
second one, or behind them. -/
def Whole (addr len : UInt32) : Prop :=
  physAddr addr.toNat + len.toNat ≤ b.remapAddr.toNat ∨
  (b.remapAddr.toNat ≤ physAddr addr.toNat ∧
    physAddr addr.toNat + len.toNat ≤ b.remapAddr.toNat + b.remapLen.toNat) ∨
  (b.remapAddr.toNat + b.remapLen.toNat ≤ physAddr addr.toNat ∧
    physAddr addr.toNat + len.toNat ≤ b.remapAddr.toNat + 2 * b.remapLen.toNat) ∨
  b.remapAddr.toNat + 2 * b.remapLen.toNat ≤ physAddr addr.toNat

/-- The range begins in the second half. -/
def InSecondHalf (addr : UInt32) : Prop :=
  b.remapAddr.toNat + b.remapLen.toNat ≤ physAddr addr.toNat ∧
    physAddr addr.toNat < b.remapAddr.toNat + 2 * b.remapLen.toNat

variable {b}

/-- A remap area that the flash driver accepts fits: it ends within the address window of a
flash device. -/
theorem fits_of_configRemap {blockSize flashSize : UInt32} (hsize : flashSize.toNat ≤ addrSpan)
    (h : configRemap b blockSize flashSize = .ok) : b.Fits := by
  have hlt : b.otaRemapOffset < flashSize := by
    unfold configRemap at h
    by_contra hge
    rw [if_pos (Or.inr (Or.inl (UInt32.not_lt.mp hge)))] at h
    cases h
  have hmask : b.remapAddr.toNat = physAddr b.otaCodeOffset.toNat := toNat_and_mask _
  have hphys := Nat.mod_lt b.otaCodeOffset.toNat addrSpan_pos
  have hlen := UInt32.lt_iff_toNat_lt.mp hlt
  unfold Fits remapLen
  unfold physAddr at hmask
  unfold addrSpan at *
  omega

/-- The start of the service checks it, unless the boot code enabled the remap before. -/
theorem fits_of_flashRemapConfig {blockSize flashSize : UInt32} {r r' : RemapReg}
    (hsize : flashSize.toNat ≤ addrSpan) (hr : r.getRemapStatus = false)
    (h : flashRemapConfig b blockSize flashSize r = some r') : b.Fits := by
  unfold flashRemapConfig at h
  rw [if_pos (by simp [hr])] at h
  by_cases hok : configRemap b blockSize flashSize = .ok
  · exact fits_of_configRemap hsize hok
  · rw [if_neg hok] at h
    cases h

theorem toNat_remapEnd (hfit : b.Fits) :
    (b.remapAddr + b.remapLen).toNat = b.remapAddr.toNat + b.remapLen.toNat ∧
      (b.remapAddr + 2 * b.remapLen).toNat = b.remapAddr.toNat + 2 * b.remapLen.toNat := by
  unfold Fits at hfit
  rw [UInt32.toNat_add, UInt32.toNat_add, UInt32.toNat_mul]
  change (_ + _) % 2 ^ 32 = _ ∧ (_ + 2 * _ % 2 ^ 32) % 2 ^ 32 = _
  omega

/-- The start of a bracket on a whole range turns the status over in both halves. -/
theorem flashRemapStart_eq (hfit : b.Fits) {addr len : UInt32} (hw : b.Whole addr len)
    (r : RemapReg) :
    flashRemapStart b r addr len = some (
      if physAddr addr.toNat + len.toNat ≤ b.remapAddr.toNat ∨
        b.remapAddr.toNat + 2 * b.remapLen.toNat ≤ physAddr addr.toNat then r else r.turnOver) := by
  obtain ⟨hmid, hend⟩ := toNat_remapEnd hfit
  have hs := toNat_and_mask addr
  have hsum := UInt32.toNat_add (addr &&& norflashAddrMask) len
  unfold Fits at hfit
  unfold Whole at hw
  unfold flashRemapStart
  simp only [UInt32.le_iff_toNat_le, UInt32.lt_iff_toNat_lt, ge_iff_le, gt_iff_lt, hmid, hend, hs]
  rw [hs] at hsum
  split_ifs <;> first | rfl | (exfalso; omega)

/-- The end of a bracket on a whole range turns it over in the first half only. -/
theorem flashRemapDone_eq (hfit : b.Fits) {addr len : UInt32} (hw : b.Whole addr len)
    (r : RemapReg) :
    flashRemapDone b r addr len = some (
      if physAddr addr.toNat + len.toNat ≤ b.remapAddr.toNat ∨
        b.remapAddr.toNat + b.remapLen.toNat ≤ physAddr addr.toNat then r else r.turnOver) := by
  obtain ⟨hmid, hend⟩ := toNat_remapEnd hfit
  have hs := toNat_and_mask addr
  have hsum := UInt32.toNat_add (addr &&& norflashAddrMask) len
  unfold Fits at hfit
  unfold Whole at hw
  unfold flashRemapDone
  simp only [UInt32.le_iff_toNat_le, UInt32.lt_iff_toNat_lt, ge_iff_le, gt_iff_lt, hmid, hend, hs]
  rw [hs] at hsum
  split_ifs <;> first | rfl | (exfalso; omega)

end RemapBuild

section Brackets

variable {α : Type*} {b : RemapBuild}

/-- No whole range fails an assertion, and a range in the second half is the one that leaves the
status turned over. -/
theorem bracketed_spec (hfit : b.Fits) {addr len : UInt32} (hw : b.Whole addr len)
    (body : RemapReg → α) (r : RemapReg) :
    ∃ x r', bracketed b body r addr len = some (x, r') ∧
      (r'.getRemapStatus = r.getRemapStatus ↔ ¬ b.InSecondHalf addr) := by
  have hstart := RemapBuild.flashRemapStart_eq hfit hw r
  have hdone := RemapBuild.flashRemapDone_eq hfit hw
  unfold bracketed
  simp only [hstart, hdone]
  refine ⟨_, _, rfl, ?_⟩
  unfold RemapBuild.Whole at hw
  unfold RemapBuild.InSecondHalf
  -- outside both tests agree; in the first half the two turns cancel
  split_ifs <;> simp <;> omega

/-- The bracket gives the status back unless its range is in the second half. -/
theorem bracketed_status_iff (hfit : b.Fits) {addr len : UInt32} (hw : b.Whole addr len)
    (body : RemapReg → α) (r : RemapReg) :
    (∃ x r', bracketed b body r addr len = some (x, r') ∧
      r'.getRemapStatus = r.getRemapStatus) ↔ ¬ b.InSecondHalf addr := by
  obtain ⟨x, r', hrun, hstatus⟩ := bracketed_spec hfit hw body r
  rw [hrun]
  constructor
  · rintro ⟨y, r'', heq, hsame⟩
    obtain ⟨-, rfl⟩ := Prod.mk.inj (Option.some.inj heq)
    exact hstatus.mp hsame
  · intro hsecond
    exact ⟨x, r', rfl, hstatus.mpr hsecond⟩

/-- The image areas of a flash of 4 MiB. -/
def remap4M : RemapBuild := { otaCodeOffset := 0x20000, otaRemapOffset := 0x1E0000 }

theorem bracketed_status_first_half :
    configRemap remap4M 0x8000 0x400000 = .ok ∧
      ∃ x r', bracketed remap4M RemapReg.getRemapStatus ⟨false, false⟩ 0x3C020000 0x1000
        = some (x, r') ∧ r'.getRemapStatus = false := by
  have hok : configRemap remap4M 0x8000 0x400000 = .ok := by decide
  have hfit : remap4M.Fits := RemapBuild.fits_of_configRemap (by decide) hok
  refine ⟨hok, (bracketed_status_iff hfit ?_ _ _).mpr ?_⟩
  · unfold RemapBuild.Whole
    decide
  · unfold RemapBuild.InSecondHalf
    decide

/-- A sector of the second half: the remap stays enabled after the access. -/
theorem not_bracketed_status_second_half :
    remap4M.Fits ∧ remap4M.Whole 0x3C200000 0x1000 ∧
      ¬ ∃ x r', bracketed remap4M RemapReg.getRemapStatus ⟨false, false⟩ 0x3C200000 0x1000
        = some (x, r') ∧ r'.getRemapStatus = RemapReg.getRemapStatus ⟨false, false⟩ := by
  have hrun : bracketed remap4M RemapReg.getRemapStatus ⟨false, false⟩ 0x3C200000 0x1000
      = some (true, ⟨true, true⟩) := by decide
  have hok : configRemap remap4M 0x8000 0x400000 = .ok := by decide
  refine ⟨RemapBuild.fits_of_configRemap (by decide) hok, ?_, ?_⟩
  · unfold RemapBuild.Whole
    decide
  · rintro ⟨x, r', heq, hsame⟩
    rw [hrun] at heq
    obtain ⟨-, rfl⟩ := Prod.mk.inj (Option.some.inj heq)
    cases hsame

/-- A sequence of accesses, one bracket after the other. -/
def accesses (b : RemapBuild) (r : RemapReg) :
    List (UInt32 × UInt32 × (RemapReg → α)) → Option (List α × RemapReg)
  | [] => some ([], r)
  | (addr, len, body) :: rest =>
    match bracketed b body r addr len with
    | none => none
    | some (x, r') =>
      match accesses b r' rest with
      | none => none
      | some (xs, r'') => some (x :: xs, r'')

/-- Accesses that keep out of the second half leave the mapping as it was, in any number. -/
theorem accesses_status (hfit : b.Fits) (l : List (UInt32 × UInt32 × (RemapReg → α)))
    (hw : ∀ a ∈ l, b.Whole a.1 a.2.1 ∧ ¬ b.InSecondHalf a.1) (r : RemapReg) :
    ∃ xs r', accesses b r l = some (xs, r') ∧ r'.getRemapStatus = r.getRemapStatus := by
  induction l generalizing r with
  | nil => exact ⟨[], r, rfl, rfl⟩
  | cons a rest ih =>
    obtain ⟨addr, len, body⟩ := a
    obtain ⟨hwhole, hfirst⟩ := hw _ List.mem_cons_self
    obtain ⟨x, r₁, hrun, hsame⟩ := bracketed_spec hfit hwhole body r
    obtain ⟨xs, r₂, hrest, hstatus⟩ := ih (fun a ha => hw a (List.mem_cons_of_mem _ ha)) r₁
    refine ⟨x :: xs, r₂, ?_, ?_⟩
    · simp only [accesses, hrun, hrest]
    · rw [hstatus, hsame.mpr hfirst]

end Brackets

end EarbudFirmware.Norflash
