import EarbudFirmware.Utils.Crc32

/-!
# The factory section

One sector of the flash holds the addresses, the names and the trim of the crystal, in one of two
layouts that share a structure. The checksum of the first layout is in the head of the section; the
second layout has its own one, over a length that is stored beside it.

## Main definitions

* `FactoryState.open` — the section is accepted or rejected
* `FactoryState.update` — what the four setters have in common
* `KeepsValid` — what is accepted is checked inside the sector, a rejected section is forgotten, and
  updates leave a valid section with the values set
* `Usable` — no first layout is accepted, and a second layout is checked inside the sector

## Main results

* `setsFields_run` — the updates of a section of the second layout
* `exists_not_accepted` — a section of the first layout does not survive every update
* `keepsValid_iff` — the section is kept valid exactly when it is usable
-/

namespace EarbudFirmware.Factory

open NorMemory (Content InRange Op overlay)

/-- `FACTORY_SECTOR_SIZE`. -/
def factorySectorSize : Nat := 0x1000

/-- `sizeof(factory_section_t)`. -/
def sizeofFactorySection : Nat := 628

/-- `nvrec_dev_magic`. -/
def nvrecDevMagic : Nat := 0xba80

/-- `nvrec_mini_version`. -/
def nvrecMiniVersion : Nat := 1

/-- `nvrec_current_version`. -/
def nvrecCurrentVersion : Nat := 2

/-! ### Offsets of the fields of `factory_section_t` -/

def headMagic : Nat := 0
def headVersion : Nat := 2
def headCrc : Nat := 4
def headReserved0 : Nat := 8
def deviceName : Nat := 16
def btAddress : Nat := 268
def bleAddress : Nat := 276
def xtalFcap : Nat := 292
def rev2DataLen : Nat := 300
def rev2Crc : Nat := 304
def rev2Reserved0 : Nat := 308
def rev2BtName : Nat := 316
def rev2BtAddr : Nat := 568
def rev2BleAddr : Nat := 576
def rev2XtalFcap : Nat := 592

/-- The length of the checksummed range in `factory_section_open` for the first layout. -/
def rev1CheckedLen : Nat :=
  sizeofFactorySection - 2 - 2 - 4 - (5 + 63 + 2 + 2 + 2 + 1 + 8) * 4

/-- The length of the checksummed range in the setters for the first layout. -/
def rev1WrittenLen : Nat := sizeofFactorySection - 2 - 2 - 4

/-- Six bytes from `a` on. -/
def bdAddr (c : Content) (a : Nat) : List UInt8 := (List.range 6).map fun i => c (a + i)

/-- The variables of the module. `mem` is what is read from `__factory_start` on, `heap` what the
buffer of an update lies in. `isOpen` is whether `factory_section_p` points to the section. -/
structure FactoryState where
  mem : Content
  heap : Content
  isOpen : Bool
  nvRecordDevRev : Nat
  btGlobalAddr : List UInt8
  bleGlobalAddr : List UInt8

namespace FactoryState

/-- `factory_section_p = NULL`. -/
def close (s : FactoryState) : FactoryState := { s with isOpen := false }

/-- `factory_section_open`: what it leaves, and what it returns. -/
def openSection (s : FactoryState) : FactoryState × Int :=
  let version := le s.mem headVersion 2
  if le s.mem headMagic 2 ≠ nvrecDevMagic then (s.close, -1)
  else if version < nvrecMiniVersion ∨ version > nvrecCurrentVersion then (s.close, -1)
  else
    let s := { s with
      isOpen := true
      nvRecordDevRev := version }
    if version = 1 then
      if le s.mem headCrc 4 ≠ (crcOver s.mem headReserved0 rev1CheckedLen).toNat then (s.close, -1)
      else
        ({ s with
          btGlobalAddr := bdAddr s.mem btAddress
          bleGlobalAddr := bdAddr s.mem bleAddress }, 0)
    else
      let dataLen := le s.mem rev2DataLen 4
      if (rev2Reserved0 + dataLen) % 0x100000000 > 4096 then (s, -1)
      else if le s.mem rev2Crc 4 ≠ (crcOver s.mem rev2Reserved0 dataLen).toNat then (s.close, -1)
      else
        ({ s with
          btGlobalAddr := bdAddr s.mem rev2BtAddr
          bleGlobalAddr := bdAddr s.mem rev2BleAddr }, 0)

/-- The copy of the sector in the heap. -/
def tmpBuf (s : FactoryState) : Content := overlay 0 factorySectorSize s.mem s.heap

/-- `norflash_api_erase` and `norflash_api_write` of the sector, which both succeed. -/
def rewrite (s : FactoryState) (tmp : Content) : FactoryState :=
  { s with
    mem := (Op.program 0 factorySectorSize tmp).apply ((Op.erase 0 factorySectorSize).apply s.mem) }

/-- An update: the `n` bytes at `d` replace those at `rev1` or at `rev2`, by layout, and the
checksum is made anew. `len` gives the checksummed length of the second layout. -/
def update (s : FactoryState) (rev1 rev2 n : Nat) (d : Content) (len : Content → Nat) :
    FactoryState × Int :=
  if s.isOpen then
    if s.nvRecordDevRev = 1 then
      let tmp := overlay rev1 n d s.tmpBuf
      let crc := crcOver tmp headReserved0 rev1WrittenLen
      (s.rewrite (overlay headCrc 4 (leByte crc.toNat) tmp), 0)
    else
      let tmp := overlay rev2 n d s.tmpBuf
      let crc := crcOver tmp rev2Reserved0 (len tmp)
      (s.rewrite (overlay rev2Crc 4 (leByte crc.toNat) tmp), 0)
  else (s, -1)

/-- `factory_section_set_bt_address`. -/
def setBtAddress (s : FactoryState) (btAddr : Content) : FactoryState × Int :=
  s.update btAddress rev2BtAddr 6 btAddr fun _ => le s.mem rev2DataLen 4

/-- `factory_section_set_ble_address`. -/
def setBleAddress (s : FactoryState) (bleAddr : Content) : FactoryState × Int :=
  s.update bleAddress rev2BleAddr 6 bleAddr fun _ => le s.mem rev2DataLen 4

/-- `factory_section_set_bt_name`: the length is taken from the copy. -/
def setBtName (s : FactoryState) (name : Content) (len : Nat) : FactoryState × Int :=
  s.update deviceName rev2BtName len name fun tmp => le tmp rev2DataLen 4

/-- `factory_section_xtal_fcap_set`. -/
def xtalFcapSet (s : FactoryState) (fcap : UInt32) : FactoryState × Int :=
  s.update xtalFcap rev2XtalFcap 4 (leByte fcap.toNat) fun _ => le s.mem rev2DataLen 4

end FactoryState

/-- A call of one of the setters. -/
inductive FactorySet
  | setBtAddress (btAddr : Content)
  | setBleAddress (bleAddr : Content)
  | setBtName (name : Content) (len : Nat)
  | setXtalFcap (fcap : UInt32)

def FactoryState.set (s : FactoryState) : FactorySet → FactoryState × Int
  | .setBtAddress btAddr => s.setBtAddress btAddr
  | .setBleAddress bleAddr => s.setBleAddress bleAddr
  | .setBtName name len => s.setBtName name len
  | .setXtalFcap fcap => s.xtalFcapSet fcap

/-- Calls one after the other. -/
def FactoryState.run (s : FactoryState) (ops : List FactorySet) : FactoryState :=
  ops.foldl (fun s op => (s.set op).1) s

/-! ### What is asked of the section -/

/-- The field that a setter sets, in the layout `rev`. -/
def FactorySet.field (rev : Nat) : FactorySet → Nat
  | .setBtAddress _ => if rev = 1 then btAddress else rev2BtAddr
  | .setBleAddress _ => if rev = 1 then bleAddress else rev2BleAddr
  | .setBtName _ _ => if rev = 1 then deviceName else rev2BtName
  | .setXtalFcap _ => if rev = 1 then xtalFcap else rev2XtalFcap

/-- The number of bytes set. -/
def FactorySet.len : FactorySet → Nat
  | .setBtAddress _ | .setBleAddress _ => 6
  | .setBtName _ len => len
  | .setXtalFcap _ => 4

/-- The bytes set. -/
def FactorySet.bytes : FactorySet → Content
  | .setBtAddress btAddr => btAddr
  | .setBleAddress bleAddr => bleAddr
  | .setBtName name _ => name
  | .setXtalFcap fcap => leByte fcap.toNat

/-- A name fits `device_name` or `rev2_bt_name`. -/
def FactorySet.Fits (rev : Nat) : FactorySet → Prop
  | .setBtName _ len => len ≤ if rev = 1 then 248 + 1 else 63 * 4
  | _ => True

/-- The checksum of a layout. -/
def crcField (rev : Nat) : Nat := if rev = 1 then headCrc else rev2Crc

/-- `c'` is `c` with the fields set: each field holds what it was last set to, and the bytes that
were not set are the same, but for the checksum. -/
structure SetsFields (rev : Nat) (ops : List FactorySet) (c c' : Content) : Prop where
  last : ∀ before op after, ops = before ++ op :: after →
    (∀ op' ∈ after, op'.field rev ≠ op.field rev) →
    ∀ i < op.len, c' (op.field rev + i) = op.bytes i
  others : ∀ x, ¬InRange (crcField rev) 4 x →
    (∀ op ∈ ops, ¬InRange (op.field rev) op.len x) → c' x = c x

/-- The end of the range that `factory_section_open` checks. -/
def checkedEnd (c : Content) : Nat :=
  if le c headVersion 2 = 1 then headReserved0 + rev1CheckedLen
  else rev2Reserved0 + le c rev2DataLen 4

/-- An accepted section has been checked inside the sector, a rejected one is forgotten, and all
updates of an accepted one leave a section that is accepted, with the fields set. -/
structure KeepsValid (s : FactoryState) : Prop where
  inside : s.openSection.2 = 0 → checkedEnd s.mem ≤ 4096
  closed : s.openSection.2 ≠ 0 → s.openSection.1.isOpen = false
  updates : s.openSection.2 = 0 → ∀ ops : List FactorySet,
    (∀ op ∈ ops, op.Fits (le s.mem headVersion 2)) →
    (s.openSection.1.run ops).openSection.2 = 0 ∧
      SetsFields (le s.mem headVersion 2) ops s.mem (s.openSection.1.run ops).mem

/-- A section of the first layout has another checksum than the one over its range, and one of the
second layout ends inside the sector, or its length wraps around and its checksum is another one. -/
def Usable (c : Content) : Prop :=
  le c headMagic 2 = nvrecDevMagic →
    (le c headVersion 2 = 1 →
      le c headCrc 4 ≠ (crcOver c headReserved0 rev1CheckedLen).toNat) ∧
    (le c headVersion 2 = 2 →
      rev2Reserved0 + le c rev2DataLen 4 ≤ 4096 ∨
        0x100000000 ≤ rev2Reserved0 + le c rev2DataLen 4 ∧
          le c rev2Crc 4 ≠ (crcOver c rev2Reserved0 (le c rev2DataLen 4)).toNat)

variable {s : FactoryState} {c c' : Content} {op op' : FactorySet} {ops : List FactorySet}
  {rev x a n m : Nat}

/-! ### Acceptance -/

/-- `factory_section_open` accepts the section. -/
def Accepted (c : Content) : Prop :=
  le c headMagic 2 = nvrecDevMagic ∧
    (le c headVersion 2 = 1 ∧ le c headCrc 4 = (crcOver c headReserved0 rev1CheckedLen).toNat ∨
      le c headVersion 2 = 2 ∧ (rev2Reserved0 + le c rev2DataLen 4) % 0x100000000 ≤ 4096 ∧
        le c rev2Crc 4 = (crcOver c rev2Reserved0 (le c rev2DataLen 4)).toNat)

/-- The section is of the second layout, and its length is rejected. -/
def TooLong (c : Content) : Prop :=
  le c headMagic 2 = nvrecDevMagic ∧ le c headVersion 2 = 2 ∧
    4096 < (rev2Reserved0 + le c rev2DataLen 4) % 0x100000000

/-- The three ways out of `factory_section_open`. -/
theorem openSection_cases (s : FactoryState) :
    (Accepted s.mem ∧ s.openSection.2 = 0 ∧ s.openSection.1.isOpen = true ∧
        s.openSection.1.nvRecordDevRev = le s.mem headVersion 2 ∧
        s.openSection.1.mem = s.mem ∧ s.openSection.1.heap = s.heap) ∨
      (TooLong s.mem ∧ s.openSection.2 = -1 ∧ s.openSection.1.isOpen = true) ∨
      (¬Accepted s.mem ∧ ¬TooLong s.mem ∧ s.openSection.2 = -1 ∧
        s.openSection.1.isOpen = false) := by
  rw [FactoryState.openSection]
  by_cases hmagic : le s.mem headMagic 2 = nvrecDevMagic
  · rw [if_neg (not_not.mpr hmagic)]
    by_cases hversion :
        le s.mem headVersion 2 < nvrecMiniVersion ∨ le s.mem headVersion 2 > nvrecCurrentVersion
    · rw [if_pos hversion]
      have hno : ¬(le s.mem headVersion 2 = 1 ∨ le s.mem headVersion 2 = 2) := by
        unfold nvrecMiniVersion nvrecCurrentVersion at hversion
        omega
      refine .inr (.inr ⟨fun h => hno ?_, fun h => hno (.inr h.2.1), rfl, rfl⟩)
      exact h.2.imp And.left And.left
    · rw [if_neg hversion]
      dsimp only
      by_cases hone : le s.mem headVersion 2 = 1
      · have hnot : ¬TooLong s.mem := fun h => by
          have htwo := h.2.1
          omega
        rw [if_pos hone]
        by_cases hcrc : le s.mem headCrc 4 = (crcOver s.mem headReserved0 rev1CheckedLen).toNat
        · rw [if_neg (not_not.mpr hcrc)]
          exact .inl ⟨⟨hmagic, .inl ⟨hone, hcrc⟩⟩, rfl, rfl, rfl, rfl, rfl⟩
        · rw [if_pos hcrc]
          refine .inr (.inr ⟨?_, hnot, rfl, rfl⟩)
          rintro ⟨-, ⟨-, h⟩ | ⟨h, -⟩⟩
          · exact hcrc h
          · omega
      · have htwo : le s.mem headVersion 2 = 2 := by
          unfold nvrecMiniVersion nvrecCurrentVersion at hversion
          omega
        rw [if_neg hone]
        by_cases hlong : (rev2Reserved0 + le s.mem rev2DataLen 4) % 0x100000000 > 4096
        · rw [if_pos hlong]
          exact .inr (.inl ⟨⟨hmagic, htwo, hlong⟩, rfl, rfl⟩)
        · rw [if_neg hlong]
          by_cases hcrc : le s.mem rev2Crc 4 =
              (crcOver s.mem rev2Reserved0 (le s.mem rev2DataLen 4)).toNat
          · rw [if_neg (not_not.mpr hcrc)]
            have hle := Nat.le_of_not_lt hlong
            exact .inl ⟨⟨hmagic, .inr ⟨htwo, hle, hcrc⟩⟩, rfl, rfl, rfl, rfl, rfl⟩
          · rw [if_pos hcrc]
            refine .inr (.inr ⟨?_, fun h => hlong h.2.2, rfl, rfl⟩)
            rintro ⟨-, ⟨h, -⟩ | ⟨-, -, h⟩⟩
            · exact hone h
            · exact hcrc h
  · rw [if_pos hmagic]
    exact .inr (.inr ⟨fun h => hmagic h.1, fun h => hmagic h.1, rfl, rfl⟩)

theorem not_tooLong_of_accepted (h : Accepted c) : ¬TooLong c := by
  rintro ⟨-, htwo, hlong⟩
  rcases h.2 with ⟨hone, -⟩ | ⟨-, hle, -⟩ <;> omega

theorem openSection_eq_zero : s.openSection.2 = 0 ↔ Accepted s.mem := by
  rcases openSection_cases s with ⟨hacc, hret, -⟩ | ⟨hlong, hret, -⟩ | ⟨hacc, -, hret, -⟩
  · exact iff_of_true hret hacc
  · refine iff_of_false (by rw [hret]; decide) fun hacc => not_tooLong_of_accepted hacc hlong
  · exact iff_of_false (by rw [hret]; decide) hacc

/-! ### One update -/

/-- The sector holds the buffer, and nothing else is written. -/
theorem rewrite_mem (s : FactoryState) (tmp : Content) (x : Nat) :
    (s.rewrite tmp).mem x = if x < factorySectorSize then tmp x else s.mem x := by
  have herased : ∀ b n d, Op.program 0 factorySectorSize tmp = .program b n d →
      ∀ x, InRange b n x → (Op.erase 0 factorySectorSize).apply s.mem x = 0xFF := by
    rintro _ _ _ ⟨⟩ x hx
    exact if_pos hx
  rw [FactoryState.rewrite, ← NorMemory.Op.put_eq_apply herased]
  by_cases hx : x < factorySectorSize
  · rw [if_pos hx]
    exact NorMemory.overlay_of_inRange ⟨Nat.zero_le x, by rwa [Nat.zero_add]⟩ tmp _
  · have hout : ¬InRange 0 factorySectorSize x := fun h => hx (by
      have hlt := h.2
      rwa [Nat.zero_add] at hlt)
    rw [if_neg hx]
    exact (NorMemory.overlay_of_not_inRange hout tmp _).trans (if_neg hout)

theorem tmpBuf_of_lt (hx : x < factorySectorSize) : s.tmpBuf x = s.mem x :=
  NorMemory.overlay_of_inRange ⟨Nat.zero_le x, by rwa [Nat.zero_add]⟩ s.mem s.heap

/-- The start of the checksummed range. -/
def crcStart (rev : Nat) : Nat := if rev = 1 then headReserved0 else rev2Reserved0

/-- The length that the setters checksum. -/
def writtenLen (rev : Nat) (c : Content) : Nat :=
  if rev = 1 then rev1WrittenLen else le c rev2DataLen 4

/-- The buffer with the field set. -/
def FactoryState.edited (s : FactoryState) (rev : Nat) (op : FactorySet) : Content :=
  overlay (op.field rev) op.len op.bytes s.tmpBuf

/-- The checksum made for it. -/
def FactoryState.newCrc (s : FactoryState) (rev : Nat) (op : FactorySet) : UInt32 :=
  crcOver (s.edited rev op) (crcStart rev) (writtenLen rev s.mem)

/-- The fields lie behind the checksums and the lengths, inside of the structure. -/
theorem field_bounds (h : op.Fits rev) :
    (if rev = 1 then headReserved0 else rev2Reserved0) ≤ op.field rev ∧
      op.field rev + op.len ≤ sizeofFactorySection := by
  unfold headReserved0 rev2Reserved0 sizeofFactorySection
  cases op with
  | setBtAddress =>
    rw [FactorySet.field, FactorySet.len]
    unfold btAddress rev2BtAddr
    split <;> omega
  | setBleAddress =>
    rw [FactorySet.field, FactorySet.len]
    unfold bleAddress rev2BleAddr
    split <;> omega
  | setBtName name len =>
    rw [FactorySet.Fits] at h
    rw [FactorySet.field, FactorySet.len]
    unfold deviceName rev2BtName
    split at h <;> split <;> omega
  | setXtalFcap =>
    rw [FactorySet.field, FactorySet.len]
    unfold xtalFcap rev2XtalFcap
    split <;> omega

/-- Different fields do not overlap. -/
theorem field_disjoint (h : op.Fits rev) (h' : op'.Fits rev) (hne : op'.field rev ≠ op.field rev)
    (hx : InRange (op.field rev) op.len x) : ¬InRange (op'.field rev) op'.len x := by
  rintro ⟨hle, hlt⟩
  obtain ⟨hle', hlt'⟩ := hx
  by_cases hone : rev = 1
  · cases op <;> cases op' <;>
      simp only [FactorySet.field, FactorySet.len, FactorySet.Fits, if_pos hone, btAddress,
        bleAddress, deviceName, xtalFcap] at * <;> omega
  · cases op <;> cases op' <;>
      simp only [FactorySet.field, FactorySet.len, FactorySet.Fits, if_neg hone, rev2BtAddr,
        rev2BleAddr, rev2BtName, rev2XtalFcap] at * <;> omega

/-- What an update of the open section writes. -/
theorem set_eq (hopen : s.isOpen = true) (hrev : s.nvRecordDevRev = rev) (hfits : op.Fits rev) :
    (s.set op).1 = s.rewrite
      (overlay (crcField rev) 4 (leByte (s.newCrc rev op).toNat) (s.edited rev op)) := by
  -- the copy has the length of the section, as the name lies behind it
  have hlen : rev ≠ 1 → op.Fits rev →
      le (overlay (op.field rev) op.len op.bytes s.tmpBuf) rev2DataLen 4 =
        le s.mem rev2DataLen 4 := by
    intro hne hfits
    refine le_congr fun i hi => ?_
    have hbounds := field_bounds hfits
    rw [if_neg hne] at hbounds
    have hlt := hi.2
    unfold rev2Reserved0 at hbounds
    unfold rev2DataLen at hlt
    rw [NorMemory.overlay_of_not_inRange fun h => by
      have hle := h.1
      omega]
    exact tmpBuf_of_lt (by unfold factorySectorSize; omega)
  have hupdate : ∀ (r1 r2 n : Nat) (d : Content) (len : Content → Nat),
      (rev ≠ 1 → len (overlay r2 n d s.tmpBuf) = le s.mem rev2DataLen 4) →
      (s.update r1 r2 n d len).1 = s.rewrite
        (overlay (crcField rev) 4
          (leByte (crcOver (overlay (if rev = 1 then r1 else r2) n d s.tmpBuf) (crcStart rev)
            (writtenLen rev s.mem)).toNat)
          (overlay (if rev = 1 then r1 else r2) n d s.tmpBuf)) := by
    intro r1 r2 n d len hlen
    rw [FactoryState.update, if_pos hopen, hrev, crcField, crcStart, writtenLen]
    by_cases hone : rev = 1
    · rw [if_pos hone, if_pos hone, if_pos hone, if_pos hone, if_pos hone]
    · rw [if_neg hone, if_neg hone, if_neg hone, if_neg hone, if_neg hone]
      dsimp only
      rw [hlen hone]
  cases op with
  | setBtAddress btAddr =>
    exact hupdate btAddress rev2BtAddr 6 btAddr (fun _ => le s.mem rev2DataLen 4) fun _ => rfl
  | setBleAddress bleAddr =>
    exact hupdate bleAddress rev2BleAddr 6 bleAddr (fun _ => le s.mem rev2DataLen 4) fun _ => rfl
  | setXtalFcap fcap =>
    exact hupdate xtalFcap rev2XtalFcap 4 (leByte fcap.toNat) (fun _ => le s.mem rev2DataLen 4)
      fun _ => rfl
  | setBtName name len =>
    refine hupdate deviceName rev2BtName len name (fun tmp => le tmp rev2DataLen 4) fun hne => ?_
    have hname := hlen hne hfits
    rw [FactorySet.field, if_neg hne] at hname
    exact hname

/-- The section is open, in the layout `rev`. -/
structure Opened (s : FactoryState) (rev : Nat) : Prop where
  isOpen : s.isOpen = true
  rev : s.nvRecordDevRev = rev

theorem Opened.set (hs : Opened s rev) (hfits : op.Fits rev) : Opened (s.set op).1 rev := by
  rw [set_eq hs.isOpen hs.rev hfits]
  exact ⟨hs.isOpen, hs.rev⟩

theorem edited_of_lt (hx : x < factorySectorSize) :
    s.edited rev op x = overlay (op.field rev) op.len op.bytes s.mem x := by
  rw [FactoryState.edited]
  by_cases hin : InRange (op.field rev) op.len x
  · rw [NorMemory.overlay_of_inRange hin, NorMemory.overlay_of_inRange hin]
  · rw [NorMemory.overlay_of_not_inRange hin, NorMemory.overlay_of_not_inRange hin]
    exact tmpBuf_of_lt hx

/-- An update sets the field and the checksum. -/
theorem set_mem (hs : Opened s rev) (hfits : op.Fits rev) (x : Nat) :
    (s.set op).1.mem x = overlay (crcField rev) 4 (leByte (s.newCrc rev op).toNat)
      (overlay (op.field rev) op.len op.bytes s.mem) x := by
  rw [set_eq hs.isOpen hs.rev hfits, rewrite_mem]
  have hbounds := (field_bounds hfits).2
  have hcrc : crcField rev + 4 ≤ sizeofFactorySection := by
    unfold crcField headCrc rev2Crc sizeofFactorySection
    split <;> omega
  have hsize : sizeofFactorySection ≤ factorySectorSize := by decide
  by_cases hx : x < factorySectorSize
  · rw [if_pos hx]
    by_cases hin : InRange (crcField rev) 4 x
    · rw [NorMemory.overlay_of_inRange hin, NorMemory.overlay_of_inRange hin]
    · rw [NorMemory.overlay_of_not_inRange hin, NorMemory.overlay_of_not_inRange hin]
      exact edited_of_lt hx
  · rw [if_neg hx, NorMemory.overlay_of_not_inRange, NorMemory.overlay_of_not_inRange]
    · rintro ⟨-, hlt⟩
      omega
    · rintro ⟨-, hlt⟩
      omega

theorem crcField_add_le : crcField rev + 4 ≤ crcStart rev := by
  unfold crcField crcStart headCrc rev2Crc headReserved0 rev2Reserved0
  split <;> omega

/-- The bytes before the checksum stay. -/
theorem set_le_of_before (hs : Opened s rev) (hfits : op.Fits rev) (h : a + n ≤ crcField rev) :
    le (s.set op).1.mem a n = le s.mem a n := by
  refine le_congr fun i hi => ?_
  have hbounds : crcStart rev ≤ op.field rev := (field_bounds hfits).1
  have hstart := @crcField_add_le rev
  have hlt := hi.2
  rw [set_mem hs hfits, NorMemory.overlay_of_not_inRange, NorMemory.overlay_of_not_inRange]
  · rintro ⟨hle, -⟩
    omega
  · rintro ⟨hle, -⟩
    omega

/-- The new checksum is stored. -/
theorem set_le_crc (hs : Opened s rev) (hfits : op.Fits rev) :
    le (s.set op).1.mem (crcField rev) 4 = (s.newCrc rev op).toNat := by
  rw [le_leByte (v := (s.newCrc rev op).toNat) (k := 0)]
  · rw [Nat.pow_zero, Nat.div_one]
    exact Nat.mod_eq_of_lt (s.newCrc rev op).toNat_lt
  · intro i hi
    have hin : InRange (crcField rev) 4 (crcField rev + i) := ⟨Nat.le_add_right _ _, by omega⟩
    rw [set_mem hs hfits, NorMemory.overlay_of_inRange hin, Nat.add_sub_cancel_left, Nat.zero_add]

/-- Behind the checksum the section holds the buffer. -/
theorem set_crcOver (hs : Opened s rev) (hfits : op.Fits rev)
    (h : crcStart rev + n ≤ factorySectorSize) :
    crcOver (s.set op).1.mem (crcStart rev) n = crcOver (s.edited rev op) (crcStart rev) n := by
  refine crcOver_congr fun i hi => ?_
  have hstart := @crcField_add_le rev
  have hlt : crcStart rev + i < factorySectorSize := by omega
  have hmod : (crcStart rev + i) % 0x100000000 = crcStart rev + i :=
    Nat.mod_eq_of_lt (Nat.lt_trans hlt (by decide))
  rw [hmod, edited_of_lt hlt, set_mem hs hfits, NorMemory.overlay_of_not_inRange]
  rintro ⟨-, hlt⟩
  omega

/-! ### Many updates -/

/-- Nothing but the fields and the checksum is written. -/
theorem run_mem_of_not_inRange (hs : Opened s rev) (hfits : ∀ op ∈ ops, op.Fits rev)
    (hcrc : ¬InRange (crcField rev) 4 x) (hx : ∀ op ∈ ops, ¬InRange (op.field rev) op.len x) :
    (s.run ops).mem x = s.mem x := by
  induction ops generalizing s with
  | nil => rfl
  | cons op ops ih =>
    have hop := hfits op List.mem_cons_self
    have hrest := ih (hs.set hop) (fun op' h => hfits op' (List.mem_cons_of_mem op h))
      fun op' h => hx op' (List.mem_cons_of_mem op h)
    have hstep : (s.set op).1.mem x = s.mem x := by
      rw [set_mem hs hop, NorMemory.overlay_of_not_inRange hcrc,
        NorMemory.overlay_of_not_inRange (hx op List.mem_cons_self)]
    exact hrest.trans hstep

/-- Each field holds what it was last set to. -/
theorem setsFields_run (hs : Opened s rev) (hfits : ∀ op ∈ ops, op.Fits rev) :
    SetsFields rev ops s.mem (s.run ops).mem where
  others _ hcrc hx := run_mem_of_not_inRange hs hfits hcrc hx
  last := by
    induction ops generalizing s with
    | nil =>
      intro before op after h
      cases before <;> cases h
    | cons op ops ih =>
      have hop := hfits op List.mem_cons_self
      have hops : ∀ op' ∈ ops, op'.Fits rev := fun op' h => hfits op' (List.mem_cons_of_mem op h)
      intro before op' after heq hafter i hi
      cases before with
      | nil =>
        obtain ⟨rfl, rfl⟩ := List.cons.inj heq
        have hin : InRange (op.field rev) op.len (op.field rev + i) :=
          ⟨Nat.le_add_right _ _, Nat.add_lt_add_left hi _⟩
        have hbounds : crcStart rev ≤ op.field rev := (field_bounds hop).1
        have hcrc : ¬InRange (crcField rev) 4 (op.field rev + i) := by
          have hstart := @crcField_add_le rev
          rintro ⟨-, hlt⟩
          omega
        have hkept := run_mem_of_not_inRange (hs.set hop) hops hcrc fun op' h =>
          field_disjoint hop (hops op' h) (hafter op' h) hin
        refine hkept.trans ?_
        rw [set_mem hs hop, NorMemory.overlay_of_not_inRange hcrc,
          NorMemory.overlay_of_inRange hin, Nat.add_sub_cancel_left]
      | cons op₀ before =>
        obtain ⟨-, heq⟩ := List.cons.inj heq
        exact ih (hs.set hop) hops before op' after heq hafter i hi

/-! ### The second layout -/

/-- A section of the second layout that is accepted, and ends inside the sector. -/
structure Rev2 (c : Content) : Prop where
  magic : le c headMagic 2 = nvrecDevMagic
  version : le c headVersion 2 = 2
  bound : rev2Reserved0 + le c rev2DataLen 4 ≤ 4096
  crc : le c rev2Crc 4 = (crcOver c rev2Reserved0 (le c rev2DataLen 4)).toNat

theorem Rev2.accepted (h : Rev2 c) : Accepted c :=
  ⟨h.magic, .inr ⟨h.version, Nat.le_trans (Nat.mod_le _ _) h.bound, h.crc⟩⟩

theorem Rev2.set (h : Rev2 s.mem) (hs : Opened s 2) (hfits : op.Fits 2) :
    Rev2 (s.set op).1.mem := by
  have hlen : le (s.set op).1.mem rev2DataLen 4 = le s.mem rev2DataLen 4 :=
    set_le_of_before hs hfits (by decide)
  refine ⟨?_, ?_, ?_, ?_⟩
  · rw [set_le_of_before hs hfits (by decide), h.magic]
  · rw [set_le_of_before hs hfits (by decide), h.version]
  · rw [hlen]
    exact h.bound
  · rw [hlen]
    exact (set_le_crc hs hfits).trans
      (congrArg UInt32.toNat (set_crcOver hs hfits h.bound).symm)

theorem Rev2.run (h : Rev2 s.mem) (hs : Opened s 2) (hfits : ∀ op ∈ ops, op.Fits 2) :
    Rev2 (s.run ops).mem := by
  induction ops generalizing s with
  | nil => exact h
  | cons op ops ih =>
    have hop := hfits op List.mem_cons_self
    exact ih (h.set hs hop) (hs.set hop) fun op' h => hfits op' (List.mem_cons_of_mem op h)

/-! ### The first layout -/

/-- `n` zeros behind a state. -/
def zeros (n : Nat) (c : UInt32) : UInt32 := (List.replicate n 0).foldl crcByte c

theorem zeros_add (c : UInt32) : zeros (m + n) c = zeros n (zeros m c) := by
  rw [zeros, List.replicate_add, List.foldl_append]
  rfl

theorem zeros_trans {c d e : UInt32} (h : zeros m c = d) (h' : zeros n d = e) :
    zeros (m + n) c = e := by
  rw [zeros_add, h, h']

/-- The difference that the last bit of a byte makes is another one behind 332 zeros. -/
theorem zeros_ne : zeros 332 0x77073096 ≠ 0x77073096 := by
  have h₁ : zeros 42 0x77073096 = 0x4713f6fb := by decide +kernel
  have h₂ : zeros 42 0x4713f6fb = 0x0b81dc81 := by decide +kernel
  have h₃ : zeros 42 0x0b81dc81 = 0xfce8d66d := by decide +kernel
  have h₄ : zeros 42 0xfce8d66d = 0xa5db6a48 := by decide +kernel
  have h₅ : zeros 42 0xa5db6a48 = 0xe3ec8887 := by decide +kernel
  have h₆ : zeros 42 0xe3ec8887 = 0xd4b8c91a := by decide +kernel
  have h₇ : zeros 42 0xd4b8c91a = 0x6045b2d9 := by decide +kernel
  have h₈ : zeros 38 0x6045b2d9 = 0xa7bd0918 := by decide +kernel
  have hsum : 332 = 42 + 42 + 42 + 42 + 42 + 42 + 42 + 38 := rfl
  rw [hsum, zeros_trans (zeros_trans (zeros_trans (zeros_trans (zeros_trans (zeros_trans
    (zeros_trans h₁ h₂) h₃) h₄) h₅) h₆) h₇) h₈]
  decide

/-- Two sections that differ in the last bit of a byte cannot both have the checksum up to that byte
as the checksum up to 332 bytes behind it. -/
theorem crc32C_behind_ne {l t : List UInt8} (ht : t.length = 332)
    (h₀ : crc32C 0 (l ++ [0] ++ t) = crc32C 0 (l ++ [0]))
    (h₁ : crc32C 0 (l ++ [1] ++ t) = crc32C 0 (l ++ [1])) : False := by
  have hstate : ∀ b : UInt8, crc32C 0 (l ++ [b] ++ t) = crc32C 0 (l ++ [b]) →
      t.foldl crcByte (crcByte (l.foldl crcByte (0 ^^^ 0xffffffff)) b) =
        crcByte (l.foldl crcByte (0 ^^^ 0xffffffff)) b := by
    intro b h
    rw [crc32C, crc32C, List.foldl_append, List.foldl_append, UInt32.xor_left_inj] at h
    exact h
  apply zeros_ne
  -- the difference of the two states
  have hdiff : ∀ m : UInt32, crcByte m 0 ^^^ crcByte m 1 = 0x77073096 := by
    intro m
    rw [← crcByte_xor, UInt32.xor_self]
    decide +kernel
  have hzeros := foldl_crcByte_xor (crcByte (l.foldl crcByte (0 ^^^ 0xffffffff)) 0)
    (crcByte (l.foldl crcByte (0 ^^^ 0xffffffff)) 1) t
  rw [hstate 0 h₀, hstate 1 h₁, hdiff, ht] at hzeros
  exact hzeros

/-- The buffer with a trim whose lower bytes are clear. -/
theorem edited_trim (s : FactoryState) {fcap : UInt32} (hlow : ∀ i < 3, leByte fcap.toNat i = 0)
    (x : Nat) :
    s.edited 1 (.setXtalFcap fcap) x =
      if x = xtalFcap + 3 then leByte fcap.toNat 3
      else overlay xtalFcap 3 (fun _ => 0) s.tmpBuf x := by
  change overlay xtalFcap 4 (leByte fcap.toNat) s.tmpBuf x = _
  by_cases hlast : x = xtalFcap + 3
  · have hin : InRange xtalFcap 4 x := by
      rw [hlast]
      exact ⟨Nat.le_add_right _ _, Nat.lt_succ_self _⟩
    rw [if_pos hlast, NorMemory.overlay_of_inRange hin, hlast, Nat.add_sub_cancel_left]
  · rw [if_neg hlast]
    by_cases hin : InRange xtalFcap 3 x
    · have hin4 : InRange xtalFcap 4 x := ⟨hin.1, Nat.lt_succ_of_lt hin.2⟩
      have hlt : x - xtalFcap < 3 := by
        obtain ⟨hle, hlt⟩ := hin
        omega
      rw [NorMemory.overlay_of_inRange hin, NorMemory.overlay_of_inRange hin4, hlow _ hlt]
    · have hin4 : ¬InRange xtalFcap 4 x := fun h => hin ⟨h.1, by
        have hlt := h.2
        omega⟩
      rw [NorMemory.overlay_of_not_inRange hin, NorMemory.overlay_of_not_inRange hin4]

/-- What the setters checksum: the bytes before the highest one of the trim, that byte, and the
second layout. -/
theorem bytesFrom_edited (s : FactoryState) {fcap : UInt32}
    (hlow : ∀ i < 3, leByte fcap.toNat i = 0) :
    bytesFrom (s.edited 1 (.setXtalFcap fcap)) headReserved0 rev1CheckedLen =
        bytesFrom (overlay xtalFcap 3 (fun _ => 0) s.tmpBuf) headReserved0 287 ++
          [leByte fcap.toNat 3] ∧
      bytesFrom (s.edited 1 (.setXtalFcap fcap)) headReserved0 rev1WrittenLen =
        bytesFrom (s.edited 1 (.setXtalFcap fcap)) headReserved0 rev1CheckedLen ++
          bytesFrom s.tmpBuf (headReserved0 + rev1CheckedLen) 332 := by
  constructor
  · have hlen : rev1CheckedLen = 287 + 1 := rfl
    have hbefore : bytesFrom (s.edited 1 (.setXtalFcap fcap)) headReserved0 287 =
        bytesFrom (overlay xtalFcap 3 (fun _ => 0) s.tmpBuf) headReserved0 287 := by
      refine bytesFrom_congr fun i hi => ?_
      have hne : (headReserved0 + i) % 0x100000000 ≠ xtalFcap + 3 := by
        unfold headReserved0 xtalFcap
        omega
      rw [edited_trim s hlow, if_neg hne]
    have hlast : bytesFrom (s.edited 1 (.setXtalFcap fcap)) (headReserved0 + 287) 1 =
        [leByte fcap.toNat 3] := by
      change [s.edited 1 (.setXtalFcap fcap) (xtalFcap + 3)] = _
      rw [edited_trim s hlow, if_pos rfl]
    rw [hlen, bytesFrom_add, hbefore, hlast]
  · have hlen : rev1WrittenLen = rev1CheckedLen + 332 := rfl
    rw [hlen, bytesFrom_add]
    refine congrArg _ (bytesFrom_congr fun i hi => ?_)
    have hmod : (headReserved0 + rev1CheckedLen + i) % 0x100000000 = 296 + i := by
      change (296 + i) % 0x100000000 = 296 + i
      exact Nat.mod_eq_of_lt (by omega)
    have hout : ∀ n, n ≤ 4 → ¬InRange xtalFcap n (296 + i) := by
      rintro n hn ⟨-, hlt⟩
      unfold xtalFcap at hlt
      omega
    rw [hmod, edited_trim s hlow, if_neg (by unfold xtalFcap; omega),
      NorMemory.overlay_of_not_inRange (hout 3 (by decide))]

/-- Behind an update of a section of the first layout, the checksum is over another range than the
one that is checked. -/
theorem crc_of_accepted (hs : Opened s 1) (hfits : op.Fits 1)
    (hversion : le s.mem headVersion 2 = 1) (hacc : Accepted (s.set op).1.mem) :
    crcOver (s.edited 1 op) headReserved0 rev1WrittenLen =
      crcOver (s.edited 1 op) headReserved0 rev1CheckedLen := by
  have hsame : le (s.set op).1.mem headVersion 2 = 1 :=
    (set_le_of_before hs hfits (by decide)).trans hversion
  rcases hacc.2 with ⟨-, hcrc⟩ | ⟨htwo, -⟩
  · have hstored : le (s.set op).1.mem headCrc 4 = (s.newCrc 1 op).toNat := set_le_crc hs hfits
    have hchecked : crcOver (s.set op).1.mem headReserved0 rev1CheckedLen =
        crcOver (s.edited 1 op) headReserved0 rev1CheckedLen := by
      have hstart : headReserved0 = crcStart 1 := rfl
      rw [hstart]
      exact set_crcOver hs hfits (by decide)
    have hnew : s.newCrc 1 op = crcOver (s.edited 1 op) headReserved0 rev1WrittenLen := by
      rw [FactoryState.newCrc, crcStart, writtenLen, if_pos rfl, if_pos rfl]
    rw [hstored, hchecked, hnew] at hcrc
    exact UInt32.toNat_inj.mp hcrc
  · rw [hsame] at htwo
    cases htwo

/-- A section of the first layout is rejected behind one of two trims. -/
theorem exists_not_accepted (hs : Opened s 1) (hversion : le s.mem headVersion 2 = 1) :
    ∃ fcap, ¬Accepted (s.set (.setXtalFcap fcap)).1.mem := by
  by_contra hnone
  have hall := fun fcap => not_not.mp (not_exists.mp hnone fcap)
  have hlow : (∀ i < 3, leByte (0 : UInt32).toNat i = 0) ∧
      ∀ i < 3, leByte (0x1000000 : UInt32).toNat i = 0 := by decide
  have hfits : ∀ fcap, (FactorySet.setXtalFcap fcap).Fits 1 := fun _ => trivial
  have h₀ := crc_of_accepted hs (hfits 0) hversion (hall 0)
  have h₁ := crc_of_accepted hs (hfits 0x1000000) hversion (hall 0x1000000)
  obtain ⟨hchecked₀, hwritten₀⟩ := bytesFrom_edited s hlow.1
  obtain ⟨hchecked₁, hwritten₁⟩ := bytesFrom_edited s hlow.2
  rw [crcOver, crcOver, hwritten₀, hchecked₀] at h₀
  rw [crcOver, crcOver, hwritten₁, hchecked₁] at h₁
  exact crc32C_behind_ne length_bytesFrom h₀ h₁

/-! ### The section in use -/

theorem dataLen_lt : le c rev2DataLen 4 < 0x100000000 := le_lt

/-- A length that wraps around is taken for a short one. -/
theorem wrapped_le (h : 0x100000000 ≤ rev2Reserved0 + le c rev2DataLen 4) :
    (rev2Reserved0 + le c rev2DataLen 4) % 0x100000000 ≤ 4096 := by
  have hlt := @dataLen_lt c
  unfold rev2Reserved0 at h ⊢
  omega

theorem Usable.not_tooLong (h : Usable c) : ¬TooLong c := by
  rintro ⟨hmagic, htwo, hlong⟩
  rcases (h hmagic).2 htwo with hle | ⟨hwrap, -⟩
  · exact absurd hlong (Nat.not_lt.mpr (Nat.le_trans (Nat.mod_le _ _) hle))
  · exact absurd hlong (Nat.not_lt.mpr (wrapped_le hwrap))

/-- What is accepted of a usable section is the second layout. -/
theorem Usable.rev2 (h : Usable c) (hacc : Accepted c) : Rev2 c := by
  obtain ⟨hmagic, ⟨hone, hcrc⟩ | ⟨htwo, -, hcrc⟩⟩ := hacc
  · exact absurd hcrc ((h hmagic).1 hone)
  · rcases (h hmagic).2 htwo with hle | ⟨-, hne⟩
    · exact ⟨hmagic, htwo, hle, hcrc⟩
    · exact absurd hcrc hne

theorem keepsValid_of_usable (h : Usable s.mem) : KeepsValid s := by
  rcases openSection_cases s with ⟨hacc, hret, hopen, hrev, hmem, -⟩ | ⟨hlong, -⟩ |
    ⟨-, -, hret, hclosed⟩
  · have hrev2 := h.rev2 hacc
    have hopened : Opened s.openSection.1 2 := ⟨hopen, hrev.trans hrev2.version⟩
    refine ⟨fun _ => ?_, fun hne => absurd hret hne, fun _ ops hfits => ?_⟩
    · have hversion : le s.mem headVersion 2 ≠ 1 := by
        rw [hrev2.version]
        decide
      rw [checkedEnd, if_neg hversion]
      exact hrev2.bound
    · rw [hrev2.version] at hfits ⊢
      rw [← hmem] at hrev2 ⊢
      exact ⟨openSection_eq_zero.mpr (hrev2.run hopened hfits).accepted,
        setsFields_run hopened hfits⟩
  · exact absurd hlong h.not_tooLong
  · refine ⟨fun h0 => ?_, fun _ => hclosed, fun h0 => ?_⟩ <;>
    · rw [hret] at h0
      cases h0

theorem usable_of_keepsValid (h : KeepsValid s) : Usable s.mem := by
  intro hmagic
  constructor
  · -- a section of the first layout would be accepted, and rejected behind an update
    intro hone hcrc
    have hacc : Accepted s.mem := ⟨hmagic, .inl ⟨hone, hcrc⟩⟩
    rcases openSection_cases s with ⟨-, hret, hopen, hrev, hmem, -⟩ | ⟨hlong, -⟩ | ⟨hnot, -⟩
    · have hopened : Opened s.openSection.1 1 := ⟨hopen, hrev.trans hone⟩
      have hversion : le s.openSection.1.mem headVersion 2 = 1 := by rw [hmem, hone]
      obtain ⟨fcap, hfcap⟩ := exists_not_accepted hopened hversion
      have hfits : ∀ op ∈ [FactorySet.setXtalFcap fcap], op.Fits (le s.mem headVersion 2) := by
        intro op hop
        rw [List.mem_singleton.mp hop]
        exact trivial
      exact hfcap (openSection_eq_zero.mp (h.updates hret _ hfits).1)
    · exact not_tooLong_of_accepted hacc hlong
    · exact hnot hacc
  · intro htwo
    by_cases hle : rev2Reserved0 + le s.mem rev2DataLen 4 ≤ 4096
    · exact .inl hle
    · by_cases hwrap : 0x100000000 ≤ rev2Reserved0 + le s.mem rev2DataLen 4
      · -- a length that wraps around would be accepted
        refine .inr ⟨hwrap, fun hcrc => hle ?_⟩
        have hacc : Accepted s.mem := ⟨hmagic, .inr ⟨htwo, wrapped_le hwrap, hcrc⟩⟩
        have hinside := h.inside (openSection_eq_zero.mpr hacc)
        have hversion : le s.mem headVersion 2 ≠ 1 := by
          rw [htwo]
          decide
        rw [checkedEnd, if_neg hversion] at hinside
        exact hinside
      · -- the rejection of a length does not forget the section
        have hlong : TooLong s.mem := by
          refine ⟨hmagic, htwo, ?_⟩
          rw [Nat.mod_eq_of_lt (Nat.lt_of_not_le hwrap)]
          exact Nat.lt_of_not_le hle
        rcases openSection_cases s with ⟨hacc, -⟩ | ⟨-, hret, hopen⟩ | ⟨-, hnot, -⟩
        · exact absurd hlong (not_tooLong_of_accepted hacc)
        · have hclosed := h.closed (by rw [hret]; decide)
          rw [hopen] at hclosed
          cases hclosed
        · exact absurd hlong hnot

/-- The section is checked inside the sector, forgotten when it is rejected, and kept valid by every
sequence of updates exactly when it is not an accepted section of the first layout, and its length,
in the second layout, ends inside the sector or wraps around before a wrong checksum. -/
theorem keepsValid_iff (s : FactoryState) : KeepsValid s ↔ Usable s.mem :=
  ⟨usable_of_keepsValid, keepsValid_of_usable⟩

/-- A section of the second layout with a length of two sectors is rejected, and stays open. -/
theorem not_keepsValid :
    ¬KeepsValid {
      mem := fun x => if x = 0 then 0x80 else if x = 1 then 0xba else if x = 2 then 2
        else if x = 301 then 0x20 else 0
      heap := fun _ => 0
      isOpen := false
      nvRecordDevRev := 2
      btGlobalAddr := []
      bleGlobalAddr := [] } := by
  intro h
  have hclosed := h.closed (by decide)
  revert hclosed
  decide

end EarbudFirmware.Factory
