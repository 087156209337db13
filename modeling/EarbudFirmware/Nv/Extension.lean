import EarbudFirmware.Nv.Integrity

/-!
# A record of an older firmware

New items are appended to the record, so that a sector of an older firmware is valid and shorter.
`nv_record_extension_init` copies as many bytes as the running firmware has, not as many as the
sector has: behind the old payload it loads whatever the flash holds there.

## Main definitions

* `loadExtension` — the record in RAM after `nv_record_extension_init` has found a valid sector
* `Extended` — the history is kept and the new items have their initial content

## Main results

* `dataIsValid_mono` — a sector that is valid for an older firmware is valid
* `recordBytes_init` — what `nv_record_extension_init` leaves in RAM
* `extended_iff` — the new items are right when the bytes behind the old payload are
-/

namespace EarbudFirmware.Nv

open NorMemory (Content InRange overlay)

variable {nv old : NvConfig} {c : Content} {f : Content} {s : NvSystem}

/-! ### Loading -/

/-- `local_extension_data` before the checksum is set. -/
def localExtensionData (nv : NvConfig) : Content :=
  overlay 12 4 (fun _ => 0) (recordBytes nv nv.initial)

/-- The payload of a record. -/
def payload (nv : NvConfig) (r : Content) : List UInt8 :=
  (List.range nv.validLen).map fun i => r (headerSize + i)

/-- The data of a valid sector are copied over `local_extension_data`, and the checksum is set. -/
def loadExtension (nv : NvConfig) (c : Content) : Content :=
  let r := overlay headerSize nv.validLen (fun i => c (headerSize + i)) (localExtensionData nv)
  overlay 12 4 (leByte (crc32C 0 (payload nv r)).toNat) r

/-- The payload that is loaded. -/
theorem loadExtension_payload {i : Nat} (hi : i < nv.validLen) :
    loadExtension nv c (headerSize + i) = c (headerSize + i) := by
  have hhdr : ¬InRange 12 4 (headerSize + i) := fun h => by
    have := h.2
    unfold headerSize at this
    omega
  unfold loadExtension
  rw [NorMemory.overlay_of_not_inRange hhdr,
    NorMemory.overlay_of_inRange ⟨by omega, by omega⟩, Nat.add_sub_cancel_left]

theorem init_ram (hvalid : dataIsValid nv (nv.sector f (loadedSector nv f)) = true)
    (hinit : nvRecordExtensionInit nv f = some s) :
    s.ram = overlay 0 nv.validLen
      (fun i => nv.sector f (loadedSector nv f) (headerSize + i)) nv.initial := by
  rw [nvRecordExtensionInit_eq hvalid] at hinit
  split_ifs at hinit
  · exact flushSync_ram hinit
  · exact flushSync_ram hinit
  · exact Option.some.inj hinit ▸ rfl

/-- `nv_record_extension_init` leaves this record in RAM. -/
theorem recordBytes_init (hvalid : dataIsValid nv (nv.sector f (loadedSector nv f)) = true)
    (hinit : nvRecordExtensionInit nv f = some s) {i : Nat} (hi : i < nv.recordSize) :
    recordBytes nv s.ram i = loadExtension nv (nv.sector f (loadedSector nv f)) i := by
  have hram : ∀ j < nv.validLen,
      s.ram j = nv.sector f (loadedSector nv f) (headerSize + j) := fun j hj => by
    rw [init_ram hvalid hinit, NorMemory.overlay_of_inRange ⟨Nat.zero_le j, by omega⟩, Nat.sub_zero]
  by_cases hpay : headerSize ≤ i
  · obtain ⟨j, rfl⟩ := Nat.exists_eq_add_of_le hpay
    have hj : j < nv.validLen := by
      unfold NvConfig.recordSize at hi
      omega
    rw [recordBytes_payload, loadExtension_payload hj, hram j hj]
  · have hnot : ¬InRange headerSize nv.validLen i := fun h => hpay h.1
    unfold headerSize at hpay
    unfold loadExtension
    by_cases hcrc : 12 ≤ i
    · -- the checksum is that of the payload in RAM
      have hpayload : payload nv (overlay headerSize nv.validLen
          (fun j => nv.sector f (loadedSector nv f) (headerSize + j)) (localExtensionData nv)) =
          ramRecord nv s.ram := by
        refine List.map_congr_left fun j hj => ?_
        have hj := List.mem_range.1 hj
        rw [hram j hj, NorMemory.overlay_of_inRange ⟨by omega, by omega⟩, Nat.add_sub_cancel_left]
      rw [NorMemory.overlay_of_inRange ⟨hcrc, by omega⟩, hpayload, recordBytes,
        if_neg (by omega), if_neg (by omega), if_neg (by omega), if_neg (by omega),
        if_pos (by omega)]
    · have hnotcrc : ¬InRange 12 4 i := fun h => hcrc h.1
      rw [NorMemory.overlay_of_not_inRange hnotcrc, NorMemory.overlay_of_not_inRange hnot,
        localExtensionData, NorMemory.overlay_of_not_inRange hnotcrc]
      -- the rest of the header does not depend on the payload
      have hlt : i < 12 := by omega
      unfold recordBytes
      split_ifs <;> rfl

/-! ### Older firmware -/

/-- A sector that is valid for a firmware with a shorter record is valid. -/
theorem dataIsValid_mono (hlen : old.validLen ≤ nv.validLen) (h : dataIsValid old c = true) :
    dataIsValid nv c = true := by
  have hle := headerValidLen_le h
  simp only [dataIsValid, Bool.and_eq_true, Bool.not_eq_true', decide_eq_false_iff_not] at h ⊢
  exact ⟨h.1, by omega⟩

/-- `r` has the payload of the sector `c`, the initial content of the new items and the checksum of
both. -/
structure Extended (nv : NvConfig) (c r : Content) : Prop where
  history : ∀ i < headerValidLen c, r (headerSize + i) = c (headerSize + i)
  initial : ∀ i, headerValidLen c ≤ i → i < nv.validLen → r (headerSize + i) = nv.initial i
  crc32 : le r 12 4 = (crc32C 0 (payload nv r)).toNat

/-- A valid sector is extended as it should be just when the bytes behind its payload are the
initial content of the new items. -/
theorem extended_iff (hvalid : dataIsValid nv (nv.sector f (loadedSector nv f)) = true)
    (hinit : nvRecordExtensionInit nv f = some s) :
    Extended nv (nv.sector f (loadedSector nv f)) (recordBytes nv s.ram) ↔
      ∀ i, headerValidLen (nv.sector f (loadedSector nv f)) ≤ i → i < nv.validLen →
        nv.sector f (loadedSector nv f) (headerSize + i) = nv.initial i := by
  have hle := headerValidLen_le hvalid
  have hload : ∀ i < nv.validLen, recordBytes nv s.ram (headerSize + i) =
      nv.sector f (loadedSector nv f) (headerSize + i) := by
    intro i hi
    rw [recordBytes_init hvalid hinit (by unfold NvConfig.recordSize; omega),
      loadExtension_payload hi]
  constructor
  · intro h i hlo hhi
    rw [← hload i hhi]
    exact h.initial i hlo hhi
  · intro h
    refine ⟨fun i hi => hload i (by omega), fun i hlo hhi => ?_, ?_⟩
    · rw [hload i hhi]
      exact h i hlo hhi
    · have hpayload : payload nv (recordBytes nv s.ram) = ramRecord nv s.ram :=
        List.map_congr_left fun i _ => recordBytes_payload
      rw [crc32_recordBytes, hpayload]

/-! ### An upgrade -/

/-- A firmware with one item, and one that has appended another item, with initial contents 0. -/
def oldConfig : NvConfig := ⟨0, 1, fun _ => 0, fun _ => 0, by decide⟩

/-- The firmware with the appended item. -/
def newConfig : NvConfig := ⟨0, 2, fun _ => 0, fun _ => 0, by decide⟩

/-- Both sectors hold the record of the older firmware, with `rest` behind it. -/
def oldSectors (rest : UInt8) : Content := fun p =>
  if p % extensionSize < oldConfig.recordSize then
    recordBytes oldConfig (fun _ => 7) (p % extensionSize)
  else rest

theorem sector_oldSectors (rest : UInt8) (x : Sector) {i : Nat} (hi : i < oldConfig.recordSize) :
    newConfig.sector (oldSectors rest) x i = recordBytes oldConfig (fun _ => 7) i := by
  have hsize := oldConfig.recordSize_le
  have hmod : (newConfig.start x + i) % extensionSize = i := by
    cases x <;> simp only [NvConfig.start, newConfig, extensionSize] at * <;> omega
  rw [NvConfig.sector, oldSectors, hmod, if_pos hi]

theorem dataIsValid_oldSectors (rest : UInt8) (x : Sector) :
    dataIsValid newConfig (newConfig.sector (oldSectors rest) x) = true := by
  have hlen : oldConfig.validLen ≤ newConfig.validLen := by decide
  have hvalid : dataIsValid oldConfig (recordBytes oldConfig fun _ => 7) = true :=
    dataIsValid_recordBytes
  exact dataIsValid_mono hlen
    (dataIsValid_congr (fun i hi => sector_oldSectors rest x hi) hvalid)

theorem loadedSector_oldSectors (rest : UInt8) :
    loadedSector newConfig (oldSectors rest) = .main := if_pos (dataIsValid_oldSectors rest .main)

theorem init_oldSectors (rest : UInt8) :
    nvRecordExtensionInit newConfig (oldSectors rest) =
      some (booted newConfig (oldSectors rest) false .idle) := by
  rw [nvRecordExtensionInit_eq (dataIsValid_oldSectors rest _),
    if_neg (by simp [dataIsValid_oldSectors]), if_neg (by simp [dataIsValid_oldSectors])]

theorem headerValidLen_oldSectors (rest : UInt8) :
    headerValidLen (newConfig.sector (oldSectors rest) .main) = 1 :=
  (headerValidLen_congr fun _ hi => sector_oldSectors rest .main hi).trans
    headerValidLen_recordBytes

/-- The byte behind the old payload. -/
theorem oldSectors_behind (rest : UInt8) :
    newConfig.sector (oldSectors rest) .main (headerSize + 1) = rest := rfl

/-- With erased flash behind the old record the appended item is not 0. -/
theorem not_extended_erased :
    dataIsValid newConfig (newConfig.sector (oldSectors 0xFF) .main) = true ∧
      ∃ s, nvRecordExtensionInit newConfig (oldSectors 0xFF) = some s ∧
        ¬Extended newConfig (newConfig.sector (oldSectors 0xFF) .main)
          (recordBytes newConfig s.ram) := by
  refine ⟨dataIsValid_oldSectors _ _, _, init_oldSectors _, fun h => ?_⟩
  have hinitial := h.initial 1 (Nat.le_of_eq (headerValidLen_oldSectors _)) (by decide)
  rw [recordBytes_init (dataIsValid_oldSectors _ _) (init_oldSectors _) (by decide),
    loadExtension_payload (by decide), loadedSector_oldSectors, oldSectors_behind] at hinitial
  exact absurd hinitial (by decide)

/-- When the flash holds the initial content already, the record is extended. -/
theorem extended_zeros :
    Extended newConfig
      (newConfig.sector (oldSectors 0) (loadedSector newConfig (oldSectors 0)))
      (recordBytes newConfig (booted newConfig (oldSectors 0) false .idle).ram) := by
  refine (extended_iff (dataIsValid_oldSectors 0 _) (init_oldSectors 0)).2 fun i hlo hhi => ?_
  rw [loadedSector_oldSectors, headerValidLen_oldSectors] at hlo
  obtain rfl : i = 1 := Nat.le_antisymm (Nat.le_of_lt_succ hhi) hlo
  rw [loadedSector_oldSectors, oldSectors_behind]
  rfl

end EarbudFirmware.Nv
