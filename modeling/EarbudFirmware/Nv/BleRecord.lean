import EarbudFirmware.Lib.Keyed
import EarbudFirmware.Lib.Transition

/-!
# The BLE bond list

The bonded devices are kept in an array of five slots, the first `saved_list_num` of which are in
use. The list is meant to be in the order of use: `blerec_specific_value_prepare` makes room in slot
0 for the record that is added. `nv_record_blerec_add` then writes the slot behind the last record,
so only an empty list, or a list with that device alone, ends up as it is meant to.

## Main definitions

* `BleRecords` — the slots and `saved_list_num`
* `BleRecords.blerecAdd`, `BleRecords.deleteEntry`, `BleRecords.deleteAllEntry` — the operations
* `BleHistory.MostRecentFirst` — a list in the order of use
* `WritesFront` — the operation writes slot 0, or nothing

## Main results

* `apply_savedListNum_le` — no operation fills more than five slots
* `keepsOrder_iff` — one operation keeps the order if and only if it writes slot 0
* `keepsOrder_run` — the same for histories
* `loses_order` — two devices
-/

namespace EarbudFirmware.Nv

open Transition (Along)

/-- `BLE_RECORD_NUM`. -/
def bleRecordNum : Nat := 5

/-- `BLE_ADDR_INFO_T`. -/
structure BleAddrInfo where
  addr : Vector UInt8 6
  addrType : UInt8
  deriving DecidableEq

/-- `BleDevicePairingInfo`. -/
structure BleDevicePairingInfo where
  peerAddr : BleAddrInfo
  peerRpaAddr : Vector UInt8 6
  ediv : UInt16
  random : Vector UInt8 8
  ltk : Vector UInt8 16
  localEdiv : UInt16
  localRandom : Vector UInt8 8
  localLtk : Vector UInt8 16
  irk : Vector UInt8 16
  bondInfoBf : UInt8
  deriving DecidableEq

/-- A cleared record. -/
def BleDevicePairingInfo.zero : BleDevicePairingInfo where
  peerAddr := ⟨.replicate 6 0, 0⟩
  peerRpaAddr := .replicate 6 0
  ediv := 0
  random := .replicate 8 0
  ltk := .replicate 16 0
  localEdiv := 0
  localRandom := .replicate 8 0
  localLtk := .replicate 16 0
  irk := .replicate 16 0
  bondInfoBf := 0

/-- The peer address that a record is found by. -/
def BleDevicePairingInfo.addr (r : BleDevicePairingInfo) : Vector UInt8 6 := r.peerAddr.addr

/-- `BleDeviceinfo`. -/
structure BleDeviceinfo where
  pairingInfo : BleDevicePairingInfo
  volume : UInt8
  deriving DecidableEq

/-- A cleared slot. -/
def BleDeviceinfo.zero : BleDeviceinfo := ⟨.zero, 0⟩

/-- The array `ble_nv`. -/
abbrev Slots := Vector BleDeviceinfo bleRecordNum

namespace Slots

/-- The slot `i`. -/
def slot (nv : Slots) (i : Nat) : BleDeviceinfo := nv[i]?.getD .zero

/-- `nv` with slot `i` overwritten. -/
def write (nv : Slots) (i : Nat) (x : BleDeviceinfo) : Slots := nv.setIfInBounds i x

/-- `m` copies, each to the slot on the right, from slot `m` down to slot 1. -/
def moveRight (nv : Slots) : Nat → Slots
  | 0 => nv
  | m + 1 => (nv.write (m + 1) (nv.slot m)).moveRight m

/-- `c` copies, each to the slot on the left, from slot `i` up. -/
def moveLeft (nv : Slots) (i : Nat) : Nat → Slots
  | 0 => nv
  | c + 1 => (nv.write i (nv.slot (i + 1))).moveLeft (i + 1) c

/-- The pairing information of slot `i` overwritten. -/
def writeInfo (nv : Slots) (i : Nat) (r : BleDevicePairingInfo) : Slots :=
  nv.write i { nv.slot i with pairingInfo := r }

/-- The volume of slot `i` overwritten. -/
def writeVolume (nv : Slots) (i : Nat) (v : UInt8) : Slots :=
  nv.write i { nv.slot i with volume := v }

/-- The slots from 0 on, cleared. -/
def clear (nv : Slots) : Nat → Slots
  | 0 => nv
  | n + 1 => (nv.clear n).write n .zero

end Slots

/-- `NV_RECORD_PAIRED_BLE_DEV_INFO_T` without `self_info`. -/
structure BleRecords where
  savedListNum : Nat
  bleNv : Slots
  deriving DecidableEq

namespace BleRecords

/-- The rebuilt list. -/
def empty : BleRecords := ⟨0, .replicate bleRecordNum .zero⟩

/-- The stored records. -/
def records (s : BleRecords) : List BleDevicePairingInfo :=
  (s.bleNv.toList.take s.savedListNum).map (·.pairingInfo)

/-- The first record with this address. -/
def find (s : BleRecords) (a : Vector UInt8 6) : Option Nat :=
  s.records.findIdx? (·.addr = a)

/-- `blerec_specific_value_prepare`, `none` when the record is there already. -/
def specificValuePrepare (s : BleRecords) (r : BleDevicePairingInfo) : Option BleRecords :=
  if s.savedListNum = 0 then some s
  else
    match s.find r.addr with
    | some i =>
      if (s.bleNv.slot i).pairingInfo = r then none
      else some ⟨s.savedListNum - 1, (s.bleNv.writeInfo i .zero).moveRight i⟩
    | none =>
      if s.savedListNum = bleRecordNum then
        some ⟨s.savedListNum - 1, s.bleNv.moveRight (bleRecordNum - 1)⟩
      else some ⟨s.savedListNum, s.bleNv.moveRight s.savedListNum⟩

/-- `nv_record_blerec_add`; `volume` is the default volume of the codec. -/
def blerecAdd (s : BleRecords) (r : BleDevicePairingInfo) (volume : UInt8) : BleRecords :=
  match s.specificValuePrepare r with
  | none => s
  | some s =>
    if s.savedListNum > bleRecordNum then
      ⟨bleRecordNum - 1 + 1, (s.bleNv.writeInfo 0 r).writeVolume 0 volume⟩
    else ⟨s.savedListNum + 1, (s.bleNv.writeInfo s.savedListNum r).writeVolume 0 volume⟩

/-- `nv_record_ble_delete_entry`. -/
def deleteEntry (s : BleRecords) (a : Vector UInt8 6) : BleRecords :=
  if s.savedListNum = 0 then s
  else
    match s.find a with
    | none => s
    | some i =>
      let last := s.savedListNum - 1
      ⟨last, (s.bleNv.moveLeft i (last - i)).write last .zero⟩

/-- `nv_record_ble_delete_all_entry`. -/
def deleteAllEntry (s : BleRecords) : BleRecords := ⟨0, s.bleNv.clear s.savedListNum⟩

end BleRecords

/-- The operations on the list. -/
inductive BleOp where
  | add (r : BleDevicePairingInfo) (volume : UInt8)
  | deleteEntry (a : Vector UInt8 6)
  | deleteAllEntry
  deriving DecidableEq

/-- The list after an operation. -/
def BleRecords.apply (s : BleRecords) : BleOp → BleRecords
  | .add r volume => s.blerecAdd r volume
  | .deleteEntry a => s.deleteEntry a
  | .deleteAllEntry => s.deleteAllEntry

/-- A list with the device that was added last, or last added again with changed keys, as long as
it has not been deleted. -/
structure BleHistory where
  list : BleRecords
  latest : Option BleDevicePairingInfo

/-- The latest device after an operation. -/
def BleHistory.latestAfter (h : BleHistory) : BleOp → Option BleDevicePairingInfo
  | .add r _ => if r ∈ h.list.records then h.latest else some r
  | .deleteEntry a => h.latest.filter (·.addr ≠ a)
  | .deleteAllEntry => none

/-- The history after an operation. -/
def BleHistory.next (h : BleHistory) (op : BleOp) : BleHistory :=
  ⟨h.list.apply op, h.latestAfter op⟩

/-- Histories go on with any operation. -/
def bleStep (h : BleHistory) (op : BleOp) : Option BleHistory := some (h.next op)

/-- A list in the order of use: one record for each device, the latest one in front. -/
structure BleHistory.MostRecentFirst (h : BleHistory) : Prop where
  distinct : (h.list.records.map (·.addr)).Nodup
  bounded : h.list.savedListNum ≤ bleRecordNum
  front : ∀ r, h.latest = some r → h.list.records.head? = some r

/-- The operation removes no other device than the oldest one of a full list without `r`. -/
def KeepsOthers (s : BleRecords) (op : BleOp) (t : BleRecords) : Prop :=
  ∀ r volume, op = .add r volume → ∀ x ∈ s.records, x.addr ≠ r.addr →
    x ∈ t.records ∨ s.savedListNum = bleRecordNum ∧ (∀ y ∈ s.records, y.addr ≠ r.addr) ∧
      s.records.getLast? = some x

/-- The operation adds to the list in the order of use. -/
def KeepsOrder (h : BleHistory) (op : BleOp) : Prop :=
  (h.next op).MostRecentFirst ∧ KeepsOthers h.list op (h.next op).list

/-- A record is added to an empty list, or to a list of that device alone, or is there already. -/
def WritesFront (s : BleRecords) : BleOp → Prop
  | .add r _ => r ∈ s.records ∨ s.savedListNum = 0 ∨ s.records.map (·.addr) = [r.addr]
  | _ => True

/-! ### Slots -/

namespace Slots

variable {nv : Slots} {i j m : Nat} {x : BleDeviceinfo} {r : BleDevicePairingInfo}

theorem slot_write (hi : i < bleRecordNum) :
    (nv.write i x).slot j = if j = i then x else nv.slot j := by
  unfold slot write
  rw [Vector.getElem?_setIfInBounds]
  split_ifs with h h' h' <;> first | rfl | omega

theorem slot_writeInfo (hi : i < bleRecordNum) :
    ((nv.writeInfo i r).slot j).pairingInfo = if j = i then r else (nv.slot j).pairingInfo := by
  rw [writeInfo, slot_write hi]
  split_ifs <;> rfl

theorem slot_writeVolume (hi : i < bleRecordNum) {v : UInt8} :
    ((nv.writeVolume i v).slot j).pairingInfo = (nv.slot j).pairingInfo := by
  rw [writeVolume, slot_write hi]
  split_ifs with h
  · rw [h]
  · rfl

/-- What is moved to the right arrives one slot further. -/
theorem slot_moveRight (hm : m < bleRecordNum) :
    (nv.moveRight m).slot j = if 1 ≤ j ∧ j ≤ m then nv.slot (j - 1) else nv.slot j := by
  induction m generalizing nv with
  | zero => rw [moveRight, if_neg (by omega)]
  | succ m ih =>
    rw [moveRight, ih (by omega), slot_write hm, slot_write hm]
    split_ifs <;> first | rfl | omega | (congr 1; omega)

theorem slot_moveLeft {c : Nat} (hc : i + c < bleRecordNum) :
    (nv.moveLeft i c).slot j = if i ≤ j ∧ j < i + c then nv.slot (j + 1) else nv.slot j := by
  induction c generalizing nv i with
  | zero => rw [moveLeft, if_neg (by omega)]
  | succ c ih =>
    rw [moveLeft, ih (by omega), slot_write (by omega), slot_write (by omega)]
    split_ifs <;> first | rfl | omega | (congr 1; omega)

end Slots

/-! ### Records -/

namespace BleRecords

variable {s : BleRecords} {r : BleDevicePairingInfo} {a : Vector UInt8 6} {i j : Nat}

theorem getElem?_records (hs : s.savedListNum ≤ bleRecordNum) :
    s.records[j]? = if j < s.savedListNum then some (s.bleNv.slot j).pairingInfo else none := by
  rw [records, List.getElem?_map, List.getElem?_take]
  split_ifs with hj
  · rw [Vector.getElem?_toList, Slots.slot, Vector.getElem?_eq_getElem (by omega)]
    rfl
  · rfl

theorem length_records (hs : s.savedListNum ≤ bleRecordNum) :
    s.records.length = s.savedListNum := by
  rw [records, List.length_map, List.length_take, Vector.length_toList]
  exact Nat.min_eq_left hs

theorem records_eq_nil (hs : s.savedListNum = 0) : s.records = [] := by
  rw [records, hs, List.take_zero, List.map_nil]

theorem records_eq_singleton (hs : s.savedListNum = 1) :
    s.records = [(s.bleNv.slot 0).pairingInfo] := by
  refine List.ext_getElem? fun j => ?_
  rw [getElem?_records (by rw [hs]; decide), hs]
  obtain rfl | hj := Nat.eq_zero_or_pos j
  · rfl
  · rw [if_neg (by omega), List.getElem?_eq_none hj]

theorem head?_records (hs : s.savedListNum ≤ bleRecordNum) (h0 : s.savedListNum ≠ 0) :
    s.records.head? = some (s.bleNv.slot 0).pairingInfo := by
  rw [List.head?_eq_getElem?, getElem?_records hs, if_pos (by omega)]

theorem slot_mem_records (hs : s.savedListNum ≤ bleRecordNum) (hj : j < s.savedListNum) :
    (s.bleNv.slot j).pairingInfo ∈ s.records :=
  List.mem_of_getElem? (by rw [getElem?_records hs, if_pos hj])

theorem find_eq_some (hs : s.savedListNum ≤ bleRecordNum) (h : s.find a = some i) :
    i < s.savedListNum ∧ (s.bleNv.slot i).pairingInfo.addr = a := by
  obtain ⟨hi, ha, -⟩ := List.findIdx?_eq_some_iff_getElem.1 h
  rw [length_records hs] at hi
  refine ⟨hi, ?_⟩
  have hrec := getElem?_records (j := i) hs
  rw [if_pos hi, List.getElem?_eq_getElem (by rwa [length_records hs]), Option.some_inj] at hrec
  rw [← hrec]
  simpa using ha

theorem find_eq_none : s.find a = none ↔ ∀ x ∈ s.records, x.addr ≠ a := by
  simp [find, List.findIdx?_eq_none_iff]

/-- With distinct addresses the search meets the record itself. -/
theorem find_of_mem (hs : s.savedListNum ≤ bleRecordNum)
    (hd : (s.records.map (·.addr)).Nodup) (hr : r ∈ s.records) :
    ∃ i, s.find r.addr = some i ∧ (s.bleNv.slot i).pairingInfo = r := by
  cases hf : s.find r.addr with
  | none => exact absurd rfl (find_eq_none.1 hf r hr)
  | some i =>
    obtain ⟨hi, ha⟩ := find_eq_some hs hf
    exact ⟨i, rfl, List.inj_on_of_nodup_map hd (slot_mem_records hs hi) hr ha⟩

/-! ### Operations -/

variable {v : UInt8}

/-- Adding a record that is there changes nothing. -/
theorem blerecAdd_of_mem (hs : s.savedListNum ≤ bleRecordNum)
    (hd : (s.records.map (·.addr)).Nodup) (hr : r ∈ s.records) : s.blerecAdd r v = s := by
  obtain ⟨i, hf, hi⟩ := find_of_mem hs hd hr
  have h0 : s.savedListNum ≠ 0 := fun h0 => by
    rw [records_eq_nil h0] at hr
    exact absurd hr List.not_mem_nil
  rw [blerecAdd, specificValuePrepare, if_neg h0, hf]
  simp only [if_pos hi]

/-- What `nv_record_blerec_add` writes once a slot has been made free. -/
theorem blerecAdd_of_prepare {t : BleRecords} (h : s.specificValuePrepare r = some t)
    (ht : t.savedListNum < bleRecordNum) :
    (s.blerecAdd r v).savedListNum = t.savedListNum + 1 ∧
      ∀ j, ((s.blerecAdd r v).bleNv.slot j).pairingInfo =
        if j = t.savedListNum then r else (t.bleNv.slot j).pairingInfo := by
  simp only [blerecAdd, h, if_neg (Nat.lt_asymm ht)]
  refine ⟨trivial, fun j => ?_⟩
  rw [Slots.slot_writeVolume (by decide), Slots.slot_writeInfo ht]

/-- The four ways in which a slot is made free. -/
theorem specificValuePrepare_cases {t : BleRecords} (h : s.specificValuePrepare r = some t) :
    s.savedListNum = 0 ∧ t = s ∨
    (∃ i, s.find r.addr = some i ∧ (s.bleNv.slot i).pairingInfo ≠ r ∧
      t = ⟨s.savedListNum - 1, (s.bleNv.writeInfo i .zero).moveRight i⟩) ∨
    s.find r.addr = none ∧ s.savedListNum = bleRecordNum ∧
      t = ⟨s.savedListNum - 1, s.bleNv.moveRight (bleRecordNum - 1)⟩ ∨
    s.find r.addr = none ∧ s.savedListNum ≠ bleRecordNum ∧
      t = ⟨s.savedListNum, s.bleNv.moveRight s.savedListNum⟩ := by
  by_cases h0 : s.savedListNum = 0
  · rw [specificValuePrepare, if_pos h0] at h
    exact .inl ⟨h0, (Option.some.inj h).symm⟩
  · rw [specificValuePrepare, if_neg h0] at h
    cases hf : s.find r.addr with
    | some i =>
      simp only [hf] at h
      split_ifs at h with hi
      exact .inr (.inl ⟨i, rfl, hi, (Option.some.inj h).symm⟩)
    | none =>
      simp only [hf] at h
      split_ifs at h with hfull
      · exact .inr (.inr (.inl ⟨rfl, hfull, (Option.some.inj h).symm⟩))
      · exact .inr (.inr (.inr ⟨rfl, hfull, (Option.some.inj h).symm⟩))

/-- The slot that is written lies in the array, whatever the list was. -/
theorem specificValuePrepare_lt {t : BleRecords} (hs : s.savedListNum ≤ bleRecordNum)
    (h : s.specificValuePrepare r = some t) : t.savedListNum < bleRecordNum := by
  have h5 : bleRecordNum = 5 := rfl
  obtain ⟨h0, rfl⟩ | ⟨i, hf, -, rfl⟩ | ⟨-, hfull, rfl⟩ | ⟨-, hfull, rfl⟩ :=
    specificValuePrepare_cases h
  · omega
  · have := (find_eq_some hs hf).1
    dsimp only
    omega
  · dsimp only
    omega
  · dsimp only
    omega

theorem blerecAdd_savedListNum_le (hs : s.savedListNum ≤ bleRecordNum) :
    (s.blerecAdd r v).savedListNum ≤ bleRecordNum := by
  cases h : s.specificValuePrepare r with
  | none =>
    rw [blerecAdd, h]
    exact hs
  | some t =>
    have ht := specificValuePrepare_lt hs h
    rw [(blerecAdd_of_prepare h ht).1]
    exact ht

/-- Slot 0 after a record of a new device has been added behind others: it is what it was. -/
theorem slot_zero_of_absent (hs : s.savedListNum ≤ bleRecordNum) (h0 : s.savedListNum ≠ 0)
    (hf : s.find r.addr = none) :
    ((s.blerecAdd r v).bleNv.slot 0).pairingInfo = (s.bleNv.slot 0).pairingInfo := by
  have hmove {m : Nat} (hm : m < bleRecordNum) : (s.bleNv.moveRight m).slot 0 = s.bleNv.slot 0 := by
    rw [Slots.slot_moveRight hm, if_neg (by omega)]
  by_cases hfull : s.savedListNum = bleRecordNum
  · have h : s.specificValuePrepare r =
        some ⟨s.savedListNum - 1, s.bleNv.moveRight (bleRecordNum - 1)⟩ := by
      simp only [specificValuePrepare, if_neg h0, hf, if_pos hfull]
    rw [(blerecAdd_of_prepare h (specificValuePrepare_lt hs h)).2,
      if_neg (by simp [hfull, bleRecordNum]), hmove (by decide)]
  · have h : s.specificValuePrepare r =
        some ⟨s.savedListNum, s.bleNv.moveRight s.savedListNum⟩ := by
      simp only [specificValuePrepare, if_neg h0, hf, if_neg hfull]
    rw [(blerecAdd_of_prepare h (specificValuePrepare_lt hs h)).2, if_neg (Ne.symm h0),
      hmove (by omega)]

/-- A device that is found in slot `i` with other keys: the slots are moved to close the gap, and
the record is written over the last one. -/
theorem blerecAdd_of_changed (hs : s.savedListNum ≤ bleRecordNum) (hf : s.find r.addr = some i)
    (hi : (s.bleNv.slot i).pairingInfo ≠ r) :
    (s.blerecAdd r v).savedListNum = s.savedListNum ∧
      ((s.blerecAdd r v).bleNv.slot (s.savedListNum - 1)).pairingInfo = r ∧
      (s.savedListNum ≠ 1 → i ≠ 0 →
        ((s.blerecAdd r v).bleNv.slot 0).pairingInfo = (s.bleNv.slot 0).pairingInfo) := by
  have hlt := (find_eq_some hs hf).1
  have h : s.specificValuePrepare r =
      some ⟨s.savedListNum - 1, (s.bleNv.writeInfo i .zero).moveRight i⟩ := by
    simp only [specificValuePrepare, if_neg (Nat.ne_zero_of_lt hlt), hf, if_neg hi]
  obtain ⟨hnum, hslot⟩ := blerecAdd_of_prepare (v := v) h (specificValuePrepare_lt hs h)
  refine ⟨hnum.trans (Nat.succ_pred (Nat.ne_zero_of_lt hlt)), ?_, fun h1 hi0 => ?_⟩
  · rw [hslot, if_pos rfl]
  · rw [hslot, if_neg (by dsimp only; omega), Slots.slot_moveRight (by omega),
      if_neg (by omega), Slots.slot_writeInfo (by omega), if_neg (Ne.symm hi0)]

/-- A record is deleted, and those behind it move up. -/
theorem records_deleteEntry (hs : s.savedListNum ≤ bleRecordNum) :
    (s.deleteEntry a).records = s.records.eraseP (·.addr = a) := by
  rw [List.eraseP_eq_eraseIdx]
  by_cases h0 : s.savedListNum = 0
  · rw [deleteEntry, if_pos h0, records_eq_nil h0]
    rfl
  · rw [deleteEntry, if_neg h0]
    cases hf : s.find a with
    | none =>
      rw [find] at hf
      rw [hf]
    | some i =>
      have hi := (find_eq_some hs hf).1
      rw [find] at hf
      rw [hf]
      refine List.ext_getElem? fun j => ?_
      rw [List.getElem?_eraseIdx, getElem?_records (by dsimp only; omega), getElem?_records hs,
        getElem?_records hs]
      dsimp only
      rw [Slots.slot_write (by omega), Slots.slot_moveLeft (by omega)]
      split_ifs <;> first | rfl | omega

theorem deleteEntry_savedListNum_le : (s.deleteEntry a).savedListNum ≤ s.savedListNum := by
  unfold deleteEntry
  split_ifs
  · exact Nat.le_refl _
  · split
    · exact Nat.le_refl _
    · exact Nat.sub_le _ _

/-- No operation fills more than five slots. -/
theorem apply_savedListNum_le (op : BleOp) (hs : s.savedListNum ≤ bleRecordNum) :
    (s.apply op).savedListNum ≤ bleRecordNum := by
  cases op with
  | add r volume => exact blerecAdd_savedListNum_le hs
  | deleteEntry a => exact Nat.le_trans deleteEntry_savedListNum_le hs
  | deleteAllEntry => exact Nat.zero_le _

/-- An added record is alone in the list when the list was empty. -/
theorem records_blerecAdd_of_empty (h0 : s.savedListNum = 0) : (s.blerecAdd r v).records = [r] := by
  have h : s.specificValuePrepare r = some s := by rw [specificValuePrepare, if_pos h0]
  obtain ⟨hnum, hslot⟩ := blerecAdd_of_prepare (v := v) h (by rw [h0]; decide)
  rw [records_eq_singleton (by rw [hnum, h0]), hslot, if_pos h0.symm]

/-- An added record is alone in the list when its device was. -/
theorem records_blerecAdd_of_alone (hs : s.savedListNum ≤ bleRecordNum)
    (hr : r ∉ s.records) (halone : s.records.map (·.addr) = [r.addr]) :
    (s.blerecAdd r v).records = [r] := by
  have h1 : s.savedListNum = 1 := by
    rw [← length_records hs, ← List.length_map (·.addr), halone]
    rfl
  cases hf : s.find r.addr with
  | none =>
    have hmem : r.addr ∈ s.records.map (·.addr) := by rw [halone]; exact List.mem_singleton_self _
    obtain ⟨x, hx, ha⟩ := List.mem_map.1 hmem
    exact absurd ha (find_eq_none.1 hf x hx)
  | some i =>
    obtain ⟨hi, -⟩ := find_eq_some hs hf
    obtain ⟨hnum, hlast, -⟩ := blerecAdd_of_changed (v := v) hs hf
      (ne_of_mem_of_not_mem (slot_mem_records hs hi) hr)
    rw [h1] at hnum hlast
    rw [records_eq_singleton hnum, hlast]

/-- A record that does not go to slot 0 leaves an older record, or the same device twice. -/
theorem not_front_of_blerecAdd (hs : s.savedListNum ≤ bleRecordNum) (hr : r ∉ s.records)
    (h0 : s.savedListNum ≠ 0) (halone : s.records.map (·.addr) ≠ [r.addr])
    (hd : ((s.blerecAdd r v).records.map (·.addr)).Nodup) :
    (s.blerecAdd r v).records.head? ≠ some r := by
  intro hfront
  have hbound : (s.blerecAdd r v).savedListNum ≤ bleRecordNum := blerecAdd_savedListNum_le hs
  have hslot : ((s.blerecAdd r v).bleNv.slot 0).pairingInfo = r := by
    have h0' : (s.blerecAdd r v).savedListNum ≠ 0 := fun h0' => by
      rw [records_eq_nil h0'] at hfront
      cases hfront
    rw [head?_records hbound h0'] at hfront
    exact Option.some.inj hfront
  have hold : (s.bleNv.slot 0).pairingInfo ≠ r :=
    ne_of_mem_of_not_mem (slot_mem_records hs (Nat.pos_of_ne_zero h0)) hr
  cases hf : s.find r.addr with
  | none => exact hold ((slot_zero_of_absent hs h0 hf).symm.trans hslot)
  | some i =>
    obtain ⟨hi, ha⟩ := find_eq_some hs hf
    obtain ⟨hnum, hlast, hzero⟩ := blerecAdd_of_changed (v := v) hs hf
      (ne_of_mem_of_not_mem (slot_mem_records hs hi) hr)
    have h1 : s.savedListNum ≠ 1 := fun h1 => halone (by
      obtain rfl : i = 0 := by omega
      rw [records_eq_singleton h1, List.map_singleton, ha])
    by_cases hi0 : i = 0
    · -- the record is in slot 0 only as a cleared slot: it is in the last slot as well
      have hlen := length_records hbound
      have hget {j : Nat} (hj : j < s.savedListNum)
          (hjr : ((s.blerecAdd r v).bleNv.slot j).pairingInfo = r) :
          ((s.blerecAdd r v).records.map (·.addr))[j]? = some r.addr := by
        rw [List.getElem?_map, getElem?_records hbound, if_pos (by rwa [hnum]), hjr]
        rfl
      have := List.nodup_iff_getElem?_ne_getElem?.1 hd 0 (s.savedListNum - 1) (by omega)
        (by rw [List.length_map]; omega)
      exact this ((hget (by omega) hslot).trans (hget (by omega) hlast).symm)
    · exact hold ((hzero h1 hi0).symm.trans hslot)

end BleRecords

/-! ### Histories -/

open BleRecords

/-- A single record is in the order of use. -/
theorem mostRecentFirst_singleton {s : BleRecords} {r : BleDevicePairingInfo}
    (hs : s.savedListNum ≤ bleRecordNum) (hr : s.records = [r]) :
    (BleHistory.mk s (some r)).MostRecentFirst where
  distinct := by rw [hr]; exact List.nodup_singleton _
  bounded := hs
  front _ h := by rw [← h, hr]; rfl

theorem keepsOrder_deleteEntry {h : BleHistory} (hh : h.MostRecentFirst) (a : Vector UInt8 6) :
    KeepsOrder h (.deleteEntry a) := by
  have hrec : (h.list.deleteEntry a).records = h.list.records.filter (·.addr ≠ a) := by
    rw [records_deleteEntry hh.bounded, Keyed.eraseP_eq_filter hh.distinct]
  refine ⟨⟨?_, apply_savedListNum_le (.deleteEntry a) hh.bounded, fun r hr => ?_⟩, nofun⟩
  · change ((h.list.deleteEntry a).records.map (·.addr)).Nodup
    rw [hrec]
    exact Keyed.nodup_filter hh.distinct _
  · change (h.list.deleteEntry a).records.head? = some r
    obtain ⟨hlatest, hra⟩ := Option.filter_eq_some_iff.1 hr
    obtain ⟨l, hl⟩ := List.head?_eq_some_iff.1 (hh.front r hlatest)
    let p : BleDevicePairingInfo → Bool := fun x => x.addr ≠ a
    have hcons : (r :: l).filter p = r :: l.filter p := List.filter_cons_of_pos hra
    rw [hrec, hl]
    exact congrArg List.head? hcons

/-- Adding a record keeps the order if and only if the record goes to slot 0. -/
theorem keepsOrder_add_iff {h : BleHistory} (hh : h.MostRecentFirst) (r : BleDevicePairingInfo)
    (volume : UInt8) : KeepsOrder h (.add r volume) ↔ WritesFront h.list (.add r volume) := by
  by_cases hr : r ∈ h.list.records
  · have hnext : h.next (.add r volume) = h := by
      simp only [BleHistory.next, BleRecords.apply, BleHistory.latestAfter, if_pos hr,
        blerecAdd_of_mem hh.bounded hh.distinct hr]
    refine iff_of_true ?_ (.inl hr)
    rw [KeepsOrder, hnext]
    exact ⟨hh, fun _ _ _ x hx _ => .inl hx⟩
  · have hnext : h.next (.add r volume) = ⟨h.list.blerecAdd r volume, some r⟩ := by
      simp only [BleHistory.next, BleRecords.apply, BleHistory.latestAfter, if_neg hr]
    constructor
    · rintro ⟨hmru, -⟩
      rw [hnext] at hmru
      by_contra hnot
      rw [WritesFront, or_iff_right hr, not_or] at hnot
      exact not_front_of_blerecAdd hh.bounded hr hnot.1 hnot.2 hmru.distinct (hmru.front r rfl)
    · rintro (hmem | h0 | halone)
      · exact absurd hmem hr
      · rw [KeepsOrder, hnext]
        refine ⟨mostRecentFirst_singleton (blerecAdd_savedListNum_le hh.bounded)
          (records_blerecAdd_of_empty h0), fun _ _ _ x hx => ?_⟩
        rw [records_eq_nil h0] at hx
        exact absurd hx List.not_mem_nil
      · rw [KeepsOrder, hnext]
        refine ⟨mostRecentFirst_singleton (blerecAdd_savedListNum_le hh.bounded)
          (records_blerecAdd_of_alone hh.bounded hr halone), fun r' _ hop x hx hxr => ?_⟩
        obtain ⟨rfl, rfl⟩ := BleOp.add.inj hop
        have hxa : x.addr ∈ h.list.records.map (·.addr) := List.mem_map_of_mem hx
        rw [halone, List.mem_singleton] at hxa
        exact absurd hxa hxr

/-- One operation on a list in the order of use keeps the order if and only if it writes slot 0. -/
theorem keepsOrder_iff {h : BleHistory} (hh : h.MostRecentFirst) (op : BleOp) :
    KeepsOrder h op ↔ WritesFront h.list op := by
  cases op with
  | add r volume => exact keepsOrder_add_iff hh r volume
  | deleteEntry a => exact iff_of_true (keepsOrder_deleteEntry hh a) trivial
  | deleteAllEntry =>
    refine iff_of_true ⟨⟨?_, Nat.zero_le _, nofun⟩, nofun⟩ trivial
    rw [records_eq_nil rfl]
    exact List.nodup_nil

/-- A history from an empty list keeps the order of use in every step if and only if every record is
added to an empty list, or to a list of its device alone, or is there already. -/
theorem keepsOrder_run {s : BleRecords} (hs : s.savedListNum = 0) (ops : List BleOp) :
    Along bleStep KeepsOrder ⟨s, none⟩ ops ↔
      Along bleStep (fun h op => WritesFront h.list op) ⟨s, none⟩ ops := by
  have hstart : (BleHistory.mk s none).MostRecentFirst := by
    refine ⟨?_, hs ▸ Nat.zero_le _, nofun⟩
    rw [records_eq_nil hs]
    exact List.nodup_nil
  refine Transition.along_iff_of_invariant (I := BleHistory.MostRecentFirst)
    (fun h op hh => keepsOrder_iff hh op) ?_ hstart ops
  intro h op t _ hop ht
  obtain rfl := Option.some.inj ht
  exact hop.1

/-- A record with this address and no keys. -/
def BleDevicePairingInfo.ofAddr (a : UInt8) : BleDevicePairingInfo :=
  { BleDevicePairingInfo.zero with peerAddr := ⟨.replicate 6 a, 0⟩ }

/-- A device that comes back with new keys keeps the order as long as it is alone. -/
theorem keepsOrder_run_alone :
    Along bleStep KeepsOrder ⟨.empty, none⟩
      [.add (.ofAddr 1) 8, .add { BleDevicePairingInfo.ofAddr 1 with ediv := 7 } 8,
        .deleteEntry (.replicate 6 1), .add (.ofAddr 2) 8] := by
  refine (keepsOrder_run rfl _).2 ?_
  refine ⟨.inr (.inl rfl), fun _ h => ?_⟩
  obtain rfl := Option.some.inj h
  refine ⟨.inr (.inr (by decide)), fun _ h => ?_⟩
  obtain rfl := Option.some.inj h
  refine ⟨trivial, fun _ h => ?_⟩
  obtain rfl := Option.some.inj h
  exact ⟨.inr (.inl (by decide)), fun _ _ => trivial⟩

/-- The second of two devices is written behind the first one. -/
theorem loses_order :
    ¬Along bleStep KeepsOrder ⟨.empty, none⟩ [.add (.ofAddr 1) 8, .add (.ofAddr 2) 8] := by
  intro h
  have hfront := (h.2 _ rfl).1.1.front (.ofAddr 2) (by decide)
  exact absurd hfront (by decide)

end EarbudFirmware.Nv
