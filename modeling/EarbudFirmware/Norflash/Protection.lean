import EarbudFirmware.Lib.FirstMax
import EarbudFirmware.Norflash.Remap

/-!
# Flash service: write protection

The flash chip protects a region that its block-protection bits choose from a fixed set. The service
builds a map of these regions once, and before every program or erase it sets the bits of the
largest region of the map that leaves the cells about to be modified alone.

## Main definitions

* `BpEntry`, `protectionBpInit` — the map and its builders
* `protectionPart` — the choice before a program or erase
* `Modified` — the ranges that the service programs or erases
* `LeavesAlone` — the chosen region does not meet the range

## Main results

* `protectionPart_spec` — the choice is the first of the largest regions that pass the test
* `leavesAlone_iff` — the chosen region leaves the range alone unless the range begins at the last
  cell of the flash or of a region that reaches into the upper half
-/

namespace EarbudFirmware.Norflash

/-! ### The map -/

/-- `FLASH_BP_MAP_T`. The end address belongs to the region. -/
structure BpEntry where
  bp : UInt32
  startAddr : UInt32
  endAddr : UInt32
deriving Repr, DecidableEq

/-- `FLASH_BP_NONE`. -/
def flashBpNone : UInt32 := 0x0000

/-- `FLASH_BP_ALL`. -/
def flashBpAll : UInt32 := 0x007C

/-- `FLASH_BP_MAP_LEN_MAX`. -/
def flashBpMapLenMax : Nat := 64

/-- What `hal_norflash_get_id` reads. -/
structure DeviceId where
  b₀ : UInt8
  b₁ : UInt8
  b₂ : UInt8
deriving Repr, DecidableEq

namespace DeviceId

def isGd25d20_40 (d : DeviceId) : Bool :=
  d.b₀ == 0xC8 && d.b₁ == 0x40 && (d.b₂ == 0x12 || d.b₂ == 0x13)

def isXt25q08b (d : DeviceId) : Bool := d.b₀ == 0x0B && d.b₁ == 0x60 && d.b₂ == 0x14

def isGd25le255 (d : DeviceId) : Bool := d.b₀ == 0xC8 && d.b₁ == 0x60 && d.b₂ == 0x19

end DeviceId

/-- One `while(1)` loop of the builders: it adds an entry for each size in turn and breaks at the
first one that is too large. `none` means that the fuel did not suffice. -/
def addRegions (size : UInt32 → UInt32) (tooLarge : UInt32 → Bool)
    (entry : UInt32 → UInt32 → BpEntry) : Nat → UInt32 → Option (List BpEntry)
  | 0, _ => none
  | fuel + 1, i =>
    if tooLarge (size i) then some []
    else (addRegions size tooLarge entry fuel (i + 1)).map (entry i (size i) :: ·)

/-- More rounds than a size has bits. -/
def bpFuel : Nat := 33

/-- The sizes `n*multi*1024` with `n = first<<i`, as long as two of them fit the flash. -/
def addHalving (first multi totalSize : UInt32) (entry : UInt32 → UInt32 → BpEntry) :
    Option (List BpEntry) :=
  addRegions (fun i => (first <<< i) * multi * 1024) (fun p => p * 2 > totalSize) entry bpFuel 0

/-- The sizes `n*1024` with `n = first<<i`, up to 32 KiB. -/
def addSmall (first : UInt32) (entry : UInt32 → UInt32 → BpEntry) : Option (List BpEntry) :=
  addRegions (fun i => (first <<< i) * 1024) (fun p => p > 32 * 1024) entry bpFuel 0

/-- The bits of a region: the complement bit and the code of the region. -/
def bpBits (cmp code : UInt32) : UInt32 := cmp ||| (code <<< 2)

/-- The first two entries of every map. -/
def bpHead (totalSize : UInt32) : List BpEntry :=
  [⟨flashBpNone, 0, 0⟩, ⟨flashBpAll, 0, totalSize - 1⟩]

/-- `_bp_init_2m_128m`. -/
def bpInit2m128m (dual : Bool) (totalSize : UInt32) : Option (List BpEntry) := do
  let multi : UInt32 := 1 <<< ((totalSize / 0x800000) % 0x2000000)
  let multi := if dual then multi >>> (totalSize / 0x2000000) else multi
  let first : UInt32 := if dual then 8 else 4
  -- CMP = 0
  let upper ← addHalving 64 multi totalSize fun i p =>
    ⟨bpBits 0x0000 (i + 1), totalSize - p, totalSize - 1⟩
  let lower ← addHalving 64 multi totalSize fun i p => ⟨bpBits 0x0000 (i + 9), 0, p - 1⟩
  let top ← addSmall first fun i p =>
    ⟨bpBits 0x0000 (0x10 ||| (i + 1)), totalSize - p, totalSize - 1⟩
  let bottom ← addSmall first fun i p =>
    ⟨bpBits 0x0000 (0x10 ||| (i + 9)), 0, p - 1⟩
  -- CMP = 1
  let cmpLower ← addHalving 64 multi totalSize fun i p =>
    ⟨bpBits 0x4000 (i + 1), 0, totalSize - p - 1⟩
  let cmpUpper ← addHalving 64 multi totalSize fun i p =>
    ⟨bpBits 0x4000 (i + 9), p, totalSize - 1⟩
  let cmpTop ← addSmall first fun i p =>
    ⟨bpBits 0x4000 (0x10 ||| (i + 1)), 0, totalSize - p - 1⟩
  let cmpBottom ← addSmall first fun i p =>
    ⟨bpBits 0x4000 (0x10 ||| (i + 9)), p, totalSize - 1⟩
  return bpHead totalSize ++ upper ++ lower ++ top ++ bottom ++ cmpLower ++ cmpUpper ++ cmpTop ++
    cmpBottom

/-- `_bp_init_256m`. The chip GD25LE255 has no CMP bit. -/
def bpInit256m (dual : Bool) (flashId : DeviceId) (totalSize : UInt32) : Option (List BpEntry) := do
  let multi : UInt32 := 1 <<< ((totalSize / 0x800000) % 2000000)
  let first : UInt32 := if dual then 2 else 4
  -- CMP = 0
  let upper ← addHalving first multi totalSize fun i p =>
    ⟨bpBits 0x0000 (i + 1), totalSize - p, totalSize - 1⟩
  let lower ← addHalving first multi totalSize fun i p =>
    ⟨0x40 + bpBits 0x0000 (i + 1), 0, p - 1⟩
  if flashId.isGd25le255 then return bpHead totalSize ++ upper ++ lower
  -- CMP = 1
  let cmpLower ← addHalving first multi totalSize fun i p =>
    ⟨bpBits 0x4000 (i + 1), 0, totalSize - p - 1⟩
  let cmpUpper ← addHalving first multi totalSize fun i p =>
    ⟨bpBits 0x4000 (i + 9), p, totalSize - 1⟩
  return bpHead totalSize ++ upper ++ lower ++ cmpLower ++ cmpUpper

/-- `_bp_init_gd25d20_40`. -/
def bpInitGd25d20_40 (dual : Bool) (totalSize : UInt32) : Option (List BpEntry) := do
  let multi : UInt32 := 1 <<< ((totalSize / 0x800000) % 2000000)
  let cmpLower ← addHalving (if dual then 16 else 8) multi totalSize fun i p =>
    ⟨bpBits 0 (i + 1), 0, totalSize - p - 1⟩
  return bpHead totalSize ++ cmpLower

/-- `_bp_init_xt25q08b`. -/
def bpInitXt25q08b (totalSize : UInt32) : Option (List BpEntry) := do
  let multi : UInt32 := 1 <<< ((totalSize / 0x800000) % 2000000)
  let upper ← addHalving 64 multi totalSize fun i p =>
    ⟨bpBits 0x0000 (i + 1), totalSize - p, totalSize - 1⟩
  let lower ← addHalving 64 multi totalSize fun i p => ⟨bpBits 0x4000 (i + 1), 0, p - 1⟩
  return bpHead totalSize ++ upper ++ lower

/-- The map in its array; `none` stands for a write behind the end of the array. -/
def storeMap (m : Option (List BpEntry)) : Option (List BpEntry) :=
  m.filter (·.length ≤ flashBpMapLenMax)

/-- The first test of the single-chip branch: the map that it stores, if it stores one. -/
def bpInitFirst (flashId : DeviceId) (totalSize : UInt32) : Option (Option (List BpEntry)) :=
  if flashId.isGd25d20_40 then (storeMap (bpInitGd25d20_40 false totalSize)).map some
  else some none

/-- `norflash_api_protection_bp_init`; `none` is a failed assertion or a write behind the map. The
map of GD25D20/40 is built again: the `else` belongs to the test for XT25Q08B alone. -/
def protectionBpInit (dual : Bool) (flashId : DeviceId) (totalSize : UInt32) :
    Option (List BpEntry) :=
  if dual then
    if 0x20000 ≤ totalSize ∧ totalSize ≤ 0x2000000 then storeMap (bpInit2m128m true totalSize)
    else none
  else
    match bpInitFirst flashId totalSize with
    | none => none
    | some map =>
      if flashId.isXt25q08b then storeMap (bpInitXt25q08b totalSize)
      else if 0x10000 ≤ totalSize ∧ totalSize < 0x2000000 then
        storeMap (bpInit2m128m false totalSize)
      else if totalSize = 0x2000000 then storeMap (bpInit256m false flashId totalSize)
      else map

/-! ### The choice -/

/-- The locals `max_size`, `bp` and `bp_i` of `_protection_part`. -/
structure BpChoice where
  maxSize : UInt32
  bp : UInt32
  bpI : Nat
deriving Repr, DecidableEq

/-- The values before the loop. -/
def BpChoice.start : BpChoice := ⟨0, flashBpAll, 0⟩

/-- The test of the loop. The first comparison takes the end address for one past the region. -/
def BpEntry.Passes (addr size : UInt32) (e : BpEntry) : Prop :=
  addr ≥ e.endAddr ∨ addr + size ≤ e.startAddr

instance (addr size : UInt32) : DecidablePred (BpEntry.Passes addr size) :=
  fun _ => inferInstanceAs (Decidable (_ ∨ _))

/-- The local `tmp_size`. -/
def BpEntry.size (e : BpEntry) : UInt32 := e.endAddr - e.startAddr

/-- The loop of `_protection_part`, from entry number `i` on. -/
def scanMap (addr size : UInt32) : List BpEntry → Nat → BpChoice → BpChoice
  | [], _, c => c
  | e :: rest, i, c =>
    scanMap addr size rest (i + 1)
      (if e.Passes addr size ∧ e.size > c.maxSize then ⟨e.size, e.bp, i⟩ else c)

/-- `_protection_part` in a build without `FLASH_REMAP`: the bits that it sets and the number of
their entry; `none` is a failed assertion. -/
def protectionPart (map : List BpEntry) (startAddr size : UInt32) : Option (UInt32 × Nat) :=
  let addr := startAddr &&& norflashAddrMask
  let c := scanMap addr size map 0 .start
  if c.bp ≠ flashBpAll then some (c.bp, c.bpI) else none

section Choice

variable {addr size : UInt32} {done map : List BpEntry} {c : BpChoice}

/-- What the loop holds after the entries `done`: nothing, as no entry with more than one cell
passes the test, or the first of the largest entries that pass. -/
def Chosen (addr size : UInt32) (done : List BpEntry) (c : BpChoice) : Prop :=
  (c = .start ∧ ∀ e ∈ done, e.Passes addr size → e.size.toNat = 0) ∨
  ∃ e, FirstMax (BpEntry.Passes addr size) (·.size.toNat) done c.bpI e ∧ c.bp = e.bp ∧
    c.maxSize = e.size ∧ 0 < e.size.toNat

theorem Chosen.step (h : Chosen addr size done c) (e : BpEntry) :
    Chosen addr size (done ++ [e])
      (if e.Passes addr size ∧ e.size > c.maxSize then ⟨e.size, e.bp, done.length⟩ else c) := by
  have hlt : e.size > c.maxSize ↔ c.maxSize.toNat < e.size.toNat := UInt32.lt_iff_toNat_lt
  rcases h with ⟨rfl, hnone⟩ | ⟨b, hmax, hbp, hsize, hpos⟩
  · have hzero : BpChoice.start.maxSize.toNat = 0 := rfl
    split
    · rename_i htake
      have hpos : 0 < e.size.toNat := by have := hlt.mp htake.2; omega
      refine Or.inr ⟨e, FirstMax.take ?_ htake.1, rfl, rfl, hpos⟩
      intro y hy hpy
      rw [hnone y hy hpy]
      exact hpos
    · rename_i hkeep
      refine Or.inl ⟨rfl, ?_⟩
      intro y hy hpy
      rcases List.mem_append.mp hy with hl | hl
      · exact hnone y hl hpy
      · obtain rfl := List.mem_singleton.mp hl
        rw [hlt] at hkeep
        exact Nat.eq_zero_of_not_pos fun h => hkeep ⟨hpy, h⟩
  · rw [hsize] at hlt ⊢
    split
    · rename_i htake
      have hgt := hlt.mp htake.2
      refine Or.inr ⟨e, FirstMax.take ?_ htake.1, rfl, rfl, by omega⟩
      intro y hy hpy
      have := hmax.le y hy hpy
      omega
    · rename_i hkeep
      refine Or.inr ⟨b, hmax.keep ?_, hbp, hsize, hpos⟩
      intro hpe
      rw [hlt] at hkeep
      exact Nat.le_of_not_lt fun h => hkeep ⟨hpe, h⟩

theorem Chosen.scan (h : Chosen addr size done c) (rest : List BpEntry) :
    Chosen addr size (done ++ rest) (scanMap addr size rest done.length c) := by
  induction rest generalizing done c with
  | nil =>
    rw [List.append_nil]
    exact h
  | cons e rest ih =>
    have hstep := ih (h.step e)
    rw [List.append_assoc, List.length_append] at hstep
    exact hstep

/-- The loop ends with the first of the largest regions that pass its test. -/
theorem chosen_scanMap (addr size : UInt32) (map : List BpEntry) :
    Chosen addr size map (scanMap addr size map 0 .start) :=
  Chosen.scan (Or.inl ⟨rfl, fun _ he => absurd he List.not_mem_nil⟩) map

/-- With one region of two cells or more that passes the test, the first of the largest is set, and
the assertion is about its bits. -/
theorem protectionPart_spec {startAddr : UInt32} (haddr : addr = startAddr &&& norflashAddrMask)
    {e₀ : BpEntry} (hmem : e₀ ∈ map) (hpass : e₀.Passes addr size) (hpos : 0 < e₀.size.toNat) :
    ∃ i e, FirstMax (BpEntry.Passes addr size) (·.size.toNat) map i e ∧
      protectionPart map startAddr size = if e.bp ≠ flashBpAll then some (e.bp, i) else none := by
  subst haddr
  rcases chosen_scanMap (startAddr &&& norflashAddrMask) size map with
    ⟨-, hnone⟩ | ⟨e, hmax, hbp, -⟩
  · have := hnone e₀ hmem hpass
    omega
  · refine ⟨_, e, hmax, ?_⟩
    unfold protectionPart
    simp only [hbp]

end Choice

/-! ### The maps of the supported flash sizes -/

/-- The builder whose map is in force, as far as the shape of the map goes. -/
inductive BpMapKind where
  /-- `_bp_init_2m_128m`. -/
  | fine (dual : Bool)
  /-- `_bp_init_256m` on a chip with a CMP bit. -/
  | coarse
  /-- `_bp_init_256m` without the CMP bit, `_bp_init_xt25q08b`. -/
  | noCmp
deriving Repr, DecidableEq

/-- Which map the service uses for a chip. -/
def bpMapKind (dual : Bool) (flashId : DeviceId) (totalSize : UInt32) : BpMapKind :=
  if dual then .fine true
  else if flashId.isXt25q08b then .noCmp
  else if totalSize < 0x2000000 then .fine false
  else if flashId.isGd25le255 then .noCmp
  else .coarse

/-- The map has a region that leaves out the last `d` cells alone, fewer than half of the flash. -/
def BpMapKind.LeavesOut (kind : BpMapKind) (totalSize d : Nat) : Prop :=
  2 * d < totalSize ∧ (∃ i < 26, d = 2 ^ i) ∧
    match kind with
    | .fine dual =>
      (if dual then 0x2000 else 0x1000) ≤ d ∧ (d ≤ 0x8000 ∨ max 0x10000 (totalSize / 64) ≤ d)
    | .coarse => 0x10000 ≤ d
    | .noCmp => False

instance (kind : BpMapKind) (totalSize d : Nat) : Decidable (kind.LeavesOut totalSize d) := by
  unfold BpMapKind.LeavesOut
  cases kind <;> infer_instance

/-- Everything, or a proper part at one of the two ends. -/
def BpEntry.Shaped (totalSize : UInt32) (e : BpEntry) : Prop :=
  e = ⟨flashBpAll, 0, totalSize - 1⟩ ∨
  e.bp ≠ flashBpAll ∧
    (e.startAddr = 0 ∧ e.endAddr < totalSize - 1 ∨
      0 < e.startAddr ∧ e.startAddr < totalSize - 1 ∧ e.endAddr = totalSize - 1)

instance (totalSize : UInt32) (e : BpEntry) : Decidable (e.Shaped totalSize) :=
  inferInstanceAs (Decidable (_ ∨ _))

/-- What the choice relies on. Of the two halves the upper one comes first. -/
structure BpShape (kind : BpMapKind) (totalSize : UInt32) (map : List BpEntry) : Prop where
  shaped : ∀ e ∈ map, e.Shaped totalSize
  all : ⟨flashBpAll, 0, totalSize - 1⟩ ∈ map
  upper : (map.find? fun e => e.size.toNat = totalSize.toNat / 2 - 1).map
    (fun e => (e.startAddr, e.endAddr)) = some (totalSize / 2, totalSize - 1)
  lower : ∃ e ∈ map, e.startAddr = 0 ∧ e.endAddr = totalSize / 2 - 1
  leavesOut : ∀ e ∈ map, totalSize.toNat / 2 ≤ e.endAddr.toNat →
    e.endAddr.toNat + 1 = totalSize.toNat ∨
      kind.LeavesOut totalSize.toNat (totalSize.toNat - (e.endAddr.toNat + 1))
  exists_of_leavesOut : ∀ i < 26, kind.LeavesOut totalSize.toNat (2 ^ i) →
    ∃ e ∈ map, e.startAddr = 0 ∧ e.endAddr.toNat + 1 + 2 ^ i = totalSize.toNat

theorem bpShape_iff (kind : BpMapKind) (totalSize : UInt32) (map : List BpEntry) :
    BpShape kind totalSize map ↔
      (∀ e ∈ map, e.Shaped totalSize) ∧
      ⟨flashBpAll, 0, totalSize - 1⟩ ∈ map ∧
      (map.find? fun e => e.size.toNat = totalSize.toNat / 2 - 1).map
        (fun e => (e.startAddr, e.endAddr)) = some (totalSize / 2, totalSize - 1) ∧
      (∃ e ∈ map, e.startAddr = 0 ∧ e.endAddr = totalSize / 2 - 1) ∧
      (∀ e ∈ map, totalSize.toNat / 2 ≤ e.endAddr.toNat →
        e.endAddr.toNat + 1 = totalSize.toNat ∨
          kind.LeavesOut totalSize.toNat (totalSize.toNat - (e.endAddr.toNat + 1))) ∧
      ∀ i < 26, kind.LeavesOut totalSize.toNat (2 ^ i) →
        ∃ e ∈ map, e.startAddr = 0 ∧ e.endAddr.toNat + 1 + 2 ^ i = totalSize.toNat :=
  ⟨fun ⟨h₁, h₂, h₃, h₄, h₅, h₆⟩ => ⟨h₁, h₂, h₃, h₄, h₅, h₆⟩,
    fun ⟨h₁, h₂, h₃, h₄, h₅, h₆⟩ => ⟨h₁, h₂, h₃, h₄, h₅, h₆⟩⟩

instance (kind : BpMapKind) (totalSize : UInt32) (map : List BpEntry) :
    Decidable (BpShape kind totalSize map) :=
  decidable_of_iff' _ (bpShape_iff kind totalSize map)

/-- The builder ends with a map of that shape, within its array. -/
def HasShape (kind : BpMapKind) (totalSize : UInt32) : Option (List BpEntry) → Prop
  | none => False
  | some map => map.length ≤ flashBpMapLenMax ∧ BpShape kind totalSize map

instance (kind : BpMapKind) (totalSize : UInt32) (m : Option (List BpEntry)) :
    Decidable (HasShape kind totalSize m) := by
  unfold HasShape
  cases m <;> infer_instance

/-- The builders at the sizes that are powers of two. -/
theorem hasShape_powers :
    (∀ k ∈ List.range' 17 8,
      HasShape (.fine false) (.ofNat (2 ^ k)) (storeMap (bpInit2m128m false (.ofNat (2 ^ k))))) ∧
    (∀ k ∈ List.range' 18 8,
      HasShape (.fine true) (.ofNat (2 ^ k)) (storeMap (bpInit2m128m true (.ofNat (2 ^ k))))) ∧
    (∀ k ∈ List.range' 17 9,
      HasShape .noCmp (.ofNat (2 ^ k)) (storeMap (bpInitXt25q08b (.ofNat (2 ^ k))))) ∧
    ∀ k ∈ List.range' 17 9, (storeMap (bpInitGd25d20_40 false (.ofNat (2 ^ k)))).isSome :=
  ⟨by decide, by decide, by decide, by decide⟩

theorem hasShape_256m (flashId : DeviceId) :
    HasShape (if flashId.isGd25le255 then .noCmp else .coarse) 0x2000000
      (storeMap (bpInit256m false flashId 0x2000000)) := by
  cases h : flashId.isGd25le255 <;>
  · simp only [bpInit256m, h]
    decide

/-- The sizes that `norflash_api_init` supports, powers of two. -/
def Supported (dual : Bool) (totalSize : UInt32) : Prop :=
  (∃ k, totalSize.toNat = 2 ^ k) ∧
    if dual then 0x40000 ≤ totalSize ∧ totalSize ≤ 0x2000000
    else 0x20000 ≤ totalSize ∧ totalSize ≤ 0x2000000

theorem Supported.exists_mem_range {dual : Bool} {totalSize : UInt32}
    (h : Supported dual totalSize) :
    ∃ k ∈ List.range' (if dual then 18 else 17) (if dual then 8 else 9),
      totalSize = .ofNat (2 ^ k) := by
  obtain ⟨⟨k, hk⟩, hrange⟩ := h
  have hlow : 2 ^ (if dual then 18 else 17) ≤ 2 ^ k := by
    rw [← hk]
    cases dual
    · exact UInt32.le_iff_toNat_le.mp hrange.1
    · exact UInt32.le_iff_toNat_le.mp hrange.1
  have hhigh : 2 ^ k ≤ 2 ^ 25 := by
    rw [← hk]
    cases dual
    · exact UInt32.le_iff_toNat_le.mp hrange.2
    · exact UInt32.le_iff_toNat_le.mp hrange.2
  have hlow' := (Nat.pow_le_pow_iff_right (by decide)).mp hlow
  have hhigh' := (Nat.pow_le_pow_iff_right (by decide)).mp hhigh
  refine ⟨k, ?_, ?_⟩
  · rw [List.mem_range'_1]
    cases dual <;> simp at hlow' ⊢ <;> omega
  · rw [← hk, UInt32.ofNat_toNat]

/-- For every supported size the service ends with a map of the shape of its kind. -/
theorem Supported.hasShape {dual : Bool} {totalSize : UInt32} (h : Supported dual totalSize)
    (flashId : DeviceId) :
    HasShape (bpMapKind dual flashId totalSize) totalSize
      (protectionBpInit dual flashId totalSize) := by
  obtain ⟨k, hk, htotal⟩ := h.exists_mem_range
  have hrange := h.2
  cases dual with
  | true =>
    have hlow : 0x20000 ≤ totalSize := UInt32.le_trans (by decide) hrange.1
    unfold protectionBpInit bpMapKind
    simp only [if_true]
    rw [if_pos ⟨hlow, hrange.2⟩, htotal]
    exact hasShape_powers.2.1 k hk
  | false =>
    have hlow : 0x10000 ≤ totalSize := UInt32.le_trans (by decide) hrange.1
    -- the map of GD25D20/40 fits its array and is overwritten below
    have hfirst : ∃ o, bpInitFirst flashId totalSize = some o := by
      obtain ⟨g, hg⟩ := Option.isSome_iff_exists.mp (hasShape_powers.2.2.2 k hk)
      unfold bpInitFirst
      rw [htotal, hg]
      cases flashId.isGd25d20_40
      · exact ⟨none, rfl⟩
      · exact ⟨some g, rfl⟩
    obtain ⟨o, ho⟩ := hfirst
    unfold protectionBpInit bpMapKind
    simp only [ho, Bool.false_eq_true, if_false]
    cases flashId.isXt25q08b with
    | true =>
      rw [if_pos rfl, if_pos rfl, htotal]
      exact hasShape_powers.2.2.1 k hk
    | false =>
      simp only [Bool.false_eq_true, if_false]
      by_cases hlt : totalSize < 0x2000000
      · have hne : k ≠ 25 := by
          rintro rfl
          rw [htotal] at hlt
          exact absurd hlt (by decide)
        rw [if_pos hlt, if_pos ⟨hlow, hlt⟩, htotal]
        refine hasShape_powers.1 k ?_
        have hk' := List.mem_range'_1.mp hk
        rw [List.mem_range'_1]
        simp only [Bool.false_eq_true, if_false] at hk'
        omega
      · have heq : totalSize = 0x2000000 := UInt32.le_antisymm hrange.2 (UInt32.not_lt.mp hlt)
        have hnot : ¬ (0x10000 ≤ totalSize ∧ totalSize < 0x2000000) := fun hsize => hlt hsize.2
        rw [if_neg hlt, if_neg hnot, if_pos heq, heq]
        exact hasShape_256m flashId

/-! ### The chosen region and the range -/

/-- The region, with its last cell, meets the range. -/
def BpEntry.Meets (addr size : Nat) (e : BpEntry) : Prop :=
  e.startAddr.toNat < addr + size ∧ addr ≤ e.endAddr.toNat

/-- The service sets the bits of an entry of the map whose region does not meet the range. -/
def LeavesAlone (map : List BpEntry) (startAddr size : UInt32) : Prop :=
  ∃ bp i e, protectionPart map startAddr size = some (bp, i) ∧ map[i]? = some e ∧ e.bp = bp ∧
    ¬ e.Meets (physAddr startAddr.toNat) size.toNat

/-- The sector size that `hal_norflash_get_size` reports. -/
def protSectorSize (dual : Bool) : Nat := if dual then 0x2000 else 0x1000

/-- The block size that it reports, without or with `FLASH_LARGE_BLOCK`. -/
def protBlockSize (dual large : Bool) : Nat :=
  (if large then 0x10000 else 0x8000) * if dual then 2 else 1

/-- A range of the flash that the service modifies: it lies in one sector, or it is a block. -/
def Modified (dual : Bool) (totalSize addr size : Nat) : Prop :=
  0 < size ∧ addr + size ≤ totalSize ∧
    (addr / protSectorSize dual = (addr + size - 1) / protSectorSize dual ∨
      ∃ large, size = protBlockSize dual large ∧ size ∣ addr)

/-- The range begins at the last cell of the flash, or of a region that leaves out fewer than half
of the cells at the end. -/
def AtRegionEnd (kind : BpMapKind) (totalSize addr : Nat) : Prop :=
  addr + 1 = totalSize ∨ kind.LeavesOut totalSize (totalSize - (addr + 1))

section Regions

variable {kind : BpMapKind} {totalSize startAddr addr size : UInt32} {map : List BpEntry}
  {e : BpEntry} {half : Nat}

theorem toNat_pred (htotal : totalSize.toNat = 2 * half) (hhalf : 2 ≤ half) :
    (totalSize - 1).toNat = 2 * half - 1 ∧ (totalSize / 2).toNat = half ∧
      (totalSize / 2 - 1).toNat = half - 1 := by
  have hone : (1 : UInt32) ≤ totalSize := by
    rw [UInt32.le_iff_toNat_le, htotal]
    change 1 ≤ 2 * half
    omega
  have hdiv : (totalSize / 2).toNat = half := by
    rw [UInt32.toNat_div, htotal]
    change 2 * half / 2 = half
    omega
  have hone' : (1 : UInt32) ≤ totalSize / 2 := by
    rw [UInt32.le_iff_toNat_le, hdiv]
    change 1 ≤ half
    omega
  refine ⟨?_, hdiv, ?_⟩
  · rw [UInt32.toNat_sub_of_le _ _ hone, htotal]
    rfl
  · rw [UInt32.toNat_sub_of_le _ _ hone', hdiv]
    rfl

/-- A region lies in the flash and reaches one of its ends. -/
theorem BpEntry.Shaped.spec (h : e.Shaped totalSize) (htotal : totalSize.toNat = 2 * half)
    (hhalf : 2 ≤ half) :
    e.size.toNat = e.endAddr.toNat - e.startAddr.toNat ∧ e.startAddr.toNat ≤ e.endAddr.toNat ∧
      e.endAddr.toNat < 2 * half ∧ (e.startAddr.toNat = 0 ∨ e.endAddr.toNat = 2 * half - 1) ∧
      (e.bp = flashBpAll → e.startAddr.toNat = 0 ∧ e.endAddr.toNat = 2 * half - 1) := by
  obtain ⟨hpred, -, -⟩ := toNat_pred htotal hhalf
  have hle : e.startAddr.toNat ≤ e.endAddr.toNat ∧ e.endAddr.toNat < 2 * half ∧
      (e.startAddr.toNat = 0 ∨ e.endAddr.toNat = 2 * half - 1) ∧
      (e.bp = flashBpAll → e.startAddr.toNat = 0 ∧ e.endAddr.toNat = 2 * half - 1) := by
    rcases h with rfl | ⟨hbp, ⟨hstart, hend⟩ | ⟨hstart, hend, hlast⟩⟩
    · rw [hpred]
      exact ⟨Nat.zero_le _, by omega, Or.inl rfl, fun _ => ⟨rfl, rfl⟩⟩
    · rw [UInt32.lt_iff_toNat_lt, hpred] at hend
      rw [hstart]
      exact ⟨Nat.zero_le _, by omega, Or.inl rfl, fun h => absurd h hbp⟩
    · rw [UInt32.lt_iff_toNat_lt, hpred] at hend
      rw [hlast, hpred]
      exact ⟨by omega, by omega, Or.inr rfl, fun h => absurd h hbp⟩
  exact ⟨UInt32.toNat_sub_of_le _ _ (UInt32.le_iff_toNat_le.mpr hle.1), hle⟩

theorem passes_iff (hsum : addr.toNat + size.toNat < 2 ^ 32) :
    e.Passes addr size ↔
      e.endAddr.toNat ≤ addr.toNat ∨ addr.toNat + size.toNat ≤ e.startAddr.toNat := by
  unfold BpEntry.Passes
  rw [ge_iff_le, UInt32.le_iff_toNat_le, UInt32.le_iff_toNat_le, UInt32.toNat_add,
    Nat.mod_eq_of_lt hsum]

/-- The first region with half of the cells is the upper half. -/
theorem BpShape.upperHalf (h : BpShape kind totalSize map) (htotal : totalSize.toNat = 2 * half)
    (hhalf : 2 ≤ half) :
    ∃ u ∈ map, map.find? (fun e => e.size.toNat = half - 1) = some u ∧
      u.startAddr.toNat = half ∧ u.endAddr.toNat = 2 * half - 1 ∧ u.size.toNat = half - 1 := by
  obtain ⟨hpred, hmid, -⟩ := toNat_pred htotal hhalf
  have hupper := h.upper
  rw [htotal, Nat.mul_div_cancel_left half (by decide)] at hupper
  obtain ⟨u, hfind, hu⟩ := Option.map_eq_some_iff.mp hupper
  obtain ⟨hstart, hend⟩ := Prod.mk.inj hu
  refine ⟨u, List.mem_of_find?_eq_some hfind, hfind, ?_, ?_, ?_⟩
  · rw [hstart, hmid]
  · rw [hend, hpred]
  · simpa using List.find?_some hfind

theorem BpShape.lowerHalf (h : BpShape kind totalSize map) (htotal : totalSize.toNat = 2 * half)
    (hhalf : 2 ≤ half) :
    ∃ e ∈ map, e.startAddr.toNat = 0 ∧ e.endAddr.toNat = half - 1 := by
  obtain ⟨-, -, hmid⟩ := toNat_pred htotal hhalf
  obtain ⟨e, he, hstart, hend⟩ := h.lower
  refine ⟨e, he, ?_, ?_⟩
  · rw [hstart]
    rfl
  · rw [hend, hmid]

/-- A range on one side of the middle is left alone if no region that reaches into the upper half
ends at its first cell. -/
theorem BpShape.leavesAlone (h : BpShape kind totalSize map)
    (htotal : totalSize.toNat = 2 * half) (hhalf : 2 ≤ half) (hlt : 2 * half < 2 ^ 32)
    (hpos : 0 < size.toNat) (hend : physAddr startAddr.toNat + size.toNat ≤ 2 * half)
    (hside : physAddr startAddr.toNat + size.toNat ≤ half ∨ half ≤ physAddr startAddr.toNat)
    (hclear : ∀ e ∈ map, e.endAddr.toNat = physAddr startAddr.toNat →
      physAddr startAddr.toNat + 1 ≤ half) :
    LeavesAlone map startAddr size := by
  have haddr := toNat_and_mask startAddr
  have hpass : ∀ e : BpEntry, e.Passes (startAddr &&& norflashAddrMask) size ↔ _ := fun e =>
    passes_iff (by rw [haddr]; omega)
  simp only [haddr] at hpass
  obtain ⟨u, hu, hfind, hustart, huend, husize⟩ := h.upperHalf htotal hhalf
  -- one of the halves passes the test
  have hcand : ∃ e₀ ∈ map, e₀.Passes (startAddr &&& norflashAddrMask) size ∧
      half - 1 ≤ e₀.size.toNat := by
    rcases hside with hlow | hhigh
    · exact ⟨u, hu, (hpass u).mpr (Or.inr (by omega)), by omega⟩
    · obtain ⟨e₀, he₀, hstart₀, hend₀⟩ := h.lowerHalf htotal hhalf
      obtain ⟨hsize₀, -⟩ := (h.shaped e₀ he₀).spec htotal hhalf
      exact ⟨e₀, he₀, (hpass e₀).mpr (Or.inl (by omega)), by omega⟩
  obtain ⟨e₀, he₀, hpass₀, hsize₀⟩ := hcand
  obtain ⟨i, e, hmax, hpart⟩ := protectionPart_spec rfl he₀ hpass₀ (by omega)
  obtain ⟨hsize, hle, hlast, hshape, hall⟩ := (h.shaped e hmax.mem).spec htotal hhalf
  have hkey : half - 1 ≤ e.size.toNat := Nat.le_trans hsize₀ (hmax.le e₀ he₀ hpass₀)
  have hclear' := hclear e hmax.mem
  have hmeets : ¬ e.Meets (physAddr startAddr.toNat) size.toNat := by
    rintro ⟨hfirst, hreach⟩
    rcases (hpass e).mp hmax.holds with hcase | hcase
    · have hmid := hclear' (by omega)
      -- a region that ends at the first cell is the lower half at most, and the upper one is taken
      have hsame : u = e := hmax.eq_of_find? (n := half - 1) (by omega) hfind
        ((hpass u).mpr (Or.inr (by omega)))
      rw [← hsame] at hcase
      omega
    · omega
  have hbp : e.bp ≠ flashBpAll := by
    intro hbp
    obtain ⟨hstart, hfull⟩ := hall hbp
    exact hmeets ⟨by omega, by omega⟩
  rw [if_pos hbp] at hpart
  exact ⟨e.bp, i, e, hpart, hmax.get, rfl, hmeets⟩

/-- A range at the last cell of a region that reaches into the upper half is not left alone. -/
theorem BpShape.not_leavesAlone (h : BpShape kind totalSize map)
    (htotal : totalSize.toNat = 2 * half) (hhalf : 2 ≤ half) (hlt : 2 * half < 2 ^ 32)
    (hpos : 0 < size.toNat) (hend : physAddr startAddr.toNat + size.toNat ≤ 2 * half)
    {e₀ : BpEntry} (he₀ : e₀ ∈ map) (hstart : e₀.startAddr.toNat = 0)
    (hlast : e₀.endAddr.toNat = physAddr startAddr.toNat)
    (hhigh : half < physAddr startAddr.toNat + 1) : ¬ LeavesAlone map startAddr size := by
  have haddr := toNat_and_mask startAddr
  have hpass : ∀ e : BpEntry, e.Passes (startAddr &&& norflashAddrMask) size ↔ _ := fun e =>
    passes_iff (by rw [haddr]; omega)
  simp only [haddr] at hpass
  obtain ⟨hsize₀, -⟩ := (h.shaped e₀ he₀).spec htotal hhalf
  have hpass₀ := (hpass e₀).mpr (Or.inl (by omega))
  obtain ⟨i, e, hmax, hpart⟩ := protectionPart_spec rfl he₀ hpass₀ (by omega)
  obtain ⟨hsize, hle, hlast', hshape, -⟩ := (h.shaped e hmax.mem).spec htotal hhalf
  have hkey := hmax.le e₀ he₀ hpass₀
  rintro ⟨bp, j, e', hpart', hget, -, hmeets⟩
  rw [hpart] at hpart'
  split at hpart'
  · obtain ⟨-, rfl⟩ := Prod.mk.inj (Option.some.inj hpart')
    obtain rfl := Option.some.inj (hget.symm.trans hmax.get)
    -- every region apart from the range is smaller than the one that ends at its first cell
    refine hmeets ⟨?_, ?_⟩
    · by_contra hbehind
      omega
    · by_contra hbefore
      omega
  · cases hpart'

end Regions

/-- Half of a supported flash is a number of the largest blocks. -/
theorem Supported.exists_half {dual : Bool} {totalSize : UInt32} (h : Supported dual totalSize) :
    ∃ q, 0 < q ∧ totalSize.toNat = 2 * (protBlockSize dual true * q) ∧
      2 * (protBlockSize dual true * q) ≤ 2 ^ 25 := by
  obtain ⟨k, hk, htotal⟩ := h.exists_mem_range
  have hk' := List.mem_range'_1.mp hk
  have hle : 2 ^ k ≤ 2 ^ 25 :=
    Nat.pow_le_pow_right (by decide) (by cases dual <;> simp at hk' <;> omega)
  have hnat : totalSize.toNat = 2 ^ k := by
    rw [htotal]
    exact Nat.mod_eq_of_lt (Nat.lt_of_le_of_lt hle (by decide))
  rw [hnat]
  cases dual with
  | true =>
    obtain ⟨j, rfl⟩ := Nat.exists_eq_add_of_le (show 18 ≤ k from hk'.1)
    have hpow : 2 ^ (18 + j) = 0x40000 * 2 ^ j := Nat.pow_add 2 18 j
    have hblock : protBlockSize true true = 0x20000 := rfl
    rw [hblock]
    exact ⟨2 ^ j, Nat.two_pow_pos j, by omega, by omega⟩
  | false =>
    obtain ⟨j, rfl⟩ := Nat.exists_eq_add_of_le (show 17 ≤ k from hk'.1)
    have hpow : 2 ^ (17 + j) = 0x20000 * 2 ^ j := Nat.pow_add 2 17 j
    have hblock : protBlockSize false true = 0x10000 := rfl
    rw [hblock]
    exact ⟨2 ^ j, Nat.two_pow_pos j, by omega, by omega⟩

/-- A modified range does not cross the middle of the flash. -/
theorem Modified.side {dual : Bool} {totalSize addr size q : Nat}
    (h : Modified dual totalSize addr size) :
    addr + size ≤ protBlockSize dual true * q ∨ protBlockSize dual true * q ≤ addr := by
  obtain ⟨hpos, -, hsector | ⟨large, hsize, hdvd⟩⟩ := h
  · cases dual <;> simp only [protSectorSize, protBlockSize] at hsector ⊢ <;> simp at * <;> omega
  · subst hsize
    cases dual <;> cases large <;> simp [protBlockSize] at hdvd ⊢ <;> omega

/-- For every supported flash the map fits its array, and the service leaves every range alone that
it is about to modify, unless the range begins at the last cell of the flash or of a region that
leaves out fewer than half of the cells at the end. -/
theorem leavesAlone_iff {dual : Bool} {totalSize startAddr size : UInt32} (flashId : DeviceId)
    (h : Supported dual totalSize)
    (hmod : Modified dual totalSize.toNat (physAddr startAddr.toNat) size.toNat) :
    (∃ map, protectionBpInit dual flashId totalSize = some map ∧ map.length ≤ flashBpMapLenMax ∧
      LeavesAlone map startAddr size) ↔
      ¬ AtRegionEnd (bpMapKind dual flashId totalSize) totalSize.toNat
        (physAddr startAddr.toNat) := by
  have hbuilt := h.hasShape flashId
  obtain ⟨q, hq, htotal, hlt⟩ := h.exists_half
  have hside := hmod.side (q := q)
  obtain ⟨hpos, hend, -⟩ := hmod
  have hblock : 2 ≤ protBlockSize dual true := by cases dual <;> decide
  have hhalf : 2 ≤ protBlockSize dual true * q := Nat.le_trans hblock (Nat.le_mul_of_pos_right _ hq)
  generalize protBlockSize dual true * q = half at *
  cases hmap : protectionBpInit dual flashId totalSize with
  | none =>
    rw [hmap] at hbuilt
    exact hbuilt.elim
  | some map =>
    rw [hmap] at hbuilt
    obtain ⟨hlen, hshape⟩ := hbuilt
    obtain ⟨hpred, -, -⟩ := toNat_pred htotal hhalf
    rw [htotal] at hend ⊢
    constructor
    · rintro ⟨_, hsome, -, hleft⟩ hat
      obtain rfl := Option.some.inj hsome
      rcases hat with hlast | hout
      · exact hshape.not_leavesAlone htotal hhalf (by omega) hpos hend hshape.all rfl
          (by rw [hpred]; omega) (by omega) hleft
      · obtain ⟨i, hi, hpow⟩ := hout.2.1
        rw [hpow] at hout
        have hless : 2 * 2 ^ i < 2 * half := hout.1
        have hexists := hshape.exists_of_leavesOut i hi
        rw [htotal] at hexists
        obtain ⟨e, he, hstart, hlast⟩ := hexists hout
        exact hshape.not_leavesAlone htotal hhalf (by omega) hpos hend he (by rw [hstart]; rfl)
          (by omega) (by omega) hleft
    · intro hclear
      refine ⟨map, rfl, hlen, hshape.leavesAlone htotal hhalf (by omega) hpos hend hside ?_⟩
      intro e he hlast
      by_contra hhigh
      have hout := hshape.leavesOut e he
      rw [htotal, hlast] at hout
      rcases hout (by omega) with heq | hout
      · exact hclear (Or.inl heq)
      · exact hclear (Or.inr hout)

theorem leavesAlone_sector :
    ∃ map, protectionBpInit false ⟨0xC8, 0x60, 0x16⟩ 0x400000 = some map ∧
      map.length ≤ flashBpMapLenMax ∧ LeavesAlone map 0x3C001000 0x1000 := by
  have hsupp : Supported false 0x400000 := ⟨⟨22, rfl⟩, by decide⟩
  have hmod : Modified false (0x400000 : UInt32).toNat (physAddr (0x3C001000 : UInt32).toNat)
      (0x1000 : UInt32).toNat := ⟨by decide, by decide, Or.inl (by decide)⟩
  have hclear : ¬ AtRegionEnd (bpMapKind false ⟨0xC8, 0x60, 0x16⟩ 0x400000)
      (0x400000 : UInt32).toNat (physAddr (0x3C001000 : UInt32).toNat) := by
    unfold AtRegionEnd
    decide
  exact (leavesAlone_iff ⟨0xC8, 0x60, 0x16⟩ hsupp hmod).mpr hclear

/-- One byte at the end of the last sector but one of 4 MiB: the protected region holds it. -/
theorem not_leavesAlone_last_byte :
    Supported false 0x400000 ∧
      Modified false (0x400000 : UInt32).toNat (physAddr (0x3C3FEFFF : UInt32).toNat)
        (1 : UInt32).toNat ∧
      ¬ ∃ map, protectionBpInit false ⟨0xC8, 0x60, 0x16⟩ 0x400000 = some map ∧
        map.length ≤ flashBpMapLenMax ∧ LeavesAlone map 0x3C3FEFFF 1 := by
  refine ⟨⟨⟨22, rfl⟩, by decide⟩, ⟨by decide, by decide, Or.inl (by decide)⟩, ?_⟩
  rintro ⟨map, hmap, -, bp, i, e, hpart, hget, -, hmeets⟩
  have hchosen : (protectionBpInit false ⟨0xC8, 0x60, 0x16⟩ 0x400000).bind
      (fun m => protectionPart m 0x3C3FEFFF 1) = some (0x4044, 34) := by decide +kernel
  have hentry : (protectionBpInit false ⟨0xC8, 0x60, 0x16⟩ 0x400000).bind (fun m => m[34]?)
      = some ⟨0x4044, 0, 0x3FEFFF⟩ := by decide +kernel
  rw [hmap, Option.bind_some] at hchosen hentry
  rw [hchosen] at hpart
  obtain ⟨-, rfl⟩ := Prod.mk.inj (Option.some.inj hpart)
  obtain rfl := Option.some.inj (hget.symm.trans hentry)
  exact hmeets ⟨by decide, by decide⟩

end EarbudFirmware.Norflash
