import EarbudFirmware.Lib.Transition

/-!
# Flow control of the relayed OTA data

The earbud that talks to the phone relays every packet of an upgrade to the other earbud. A counter
of the relayed commands that are not answered yet limits them. A packet that comes at the limit is
not relayed, but it is counted.

## Main definitions

* `RelayFlow` — the counter and the commands in flight
* `relayStep` — a packet of the phone, a response or a response timeout
* `FlowControlled` — the counter counts the commands in flight, and the relay goes on

## Main results

* `flowControlled_iff` — the runs in which every state is so
-/

namespace EarbudFirmware.Ota

open Transition (Along)

/-- `ota_image_buff_pending_num`, and the commands `IBRT_OTA_TWS_IMAGE_BUFF` that are not answered
yet, in the order they were sent. -/
structure RelayFlow where
  pendingNum : UInt8
  inFlight : List (List UInt8)
  deriving DecidableEq

/-- A call of `_relay_ota_data`, the response to a command in flight, or its timeout. -/
inductive RelayEvent where
  | relay (otaBuf : List UInt8)
  | rsp (i : Nat)
  | rspTimeout (i : Nat)

/-- `IBRT_OTA_BUF_PENDING_MAX`, for `BT_DEVICE_NUM` devices. -/
def pendingMax (btDeviceNum : Nat) : UInt8 := if 1 < btDeviceNum then 10 else 5

namespace RelayFlow

/-- No packet was relayed yet. -/
def start : RelayFlow := ⟨0, []⟩

/-- `ota_image_buff_pending_num_consume`. -/
def pendingNumConsume (s : RelayFlow) : RelayFlow :=
  if s.pendingNum ≠ 0 then { s with pendingNum := s.pendingNum - 1 } else s

/-- `_relay_ota_data`. `tws_ctrl_send_cmd` puts a command in flight. -/
def relayOtaData (btDeviceNum : Nat) (s : RelayFlow) (otaBuf : List UInt8) : RelayFlow :=
  if pendingMax btDeviceNum < s.pendingNum + 1 then { s with pendingNum := s.pendingNum + 1 }
  else ⟨s.pendingNum + 1, s.inFlight ++ [otaBuf]⟩

/-- `app_ibrt_ota_image_buff_send_rsp_handler` for the command at a place. -/
def sendRspHandler (s : RelayFlow) (i : Nat) : RelayFlow :=
  { s.pendingNumConsume with inFlight := s.inFlight.eraseIdx i }

/-- `app_ibrt_ota_image_buff_send_rsp_timeout_handler`. -/
def sendRspTimeoutHandler (s : RelayFlow) (i : Nat) : RelayFlow :=
  { s.pendingNumConsume with inFlight := s.inFlight.eraseIdx i }

end RelayFlow

variable {n : Nat} {s t : RelayFlow} {e : RelayEvent}

/-- One event. Only a command in flight is answered or times out. -/
def relayStep (btDeviceNum : Nat) (s : RelayFlow) : RelayEvent → Option RelayFlow
  | .relay otaBuf => some (s.relayOtaData btDeviceNum otaBuf)
  | .rsp i => if i < s.inFlight.length then some (s.sendRspHandler i) else none
  | .rspTimeout i => if i < s.inFlight.length then some (s.sendRspTimeoutHandler i) else none

/-- The counter counts the commands in flight and keeps to the limit, and when none is in flight the
next packet is relayed. -/
structure FlowControlled (btDeviceNum : Nat) (s : RelayFlow) : Prop where
  counts : s.pendingNum.toNat = s.inFlight.length
  bounded : s.pendingNum ≤ pendingMax btDeviceNum
  relays : s.inFlight = [] → ∀ otaBuf, (s.relayOtaData btDeviceNum otaBuf).inFlight = [otaBuf]

/-- Packets come while fewer commands than the limit are in flight. -/
def BelowLimit (btDeviceNum : Nat) (s : RelayFlow) : RelayEvent → Prop
  | .relay _ => s.inFlight.length < (pendingMax btDeviceNum).toNat
  | .rsp _ | .rspTimeout _ => True

/-! ### One event -/

theorem pendingMax_bounds : 0 < (pendingMax n).toNat ∧ (pendingMax n).toNat ≤ 10 := by
  unfold pendingMax
  split <;> decide

/-- The counter does not wrap while it keeps to the limit. -/
theorem toNat_pendingNum_add_one (h : s.pendingNum ≤ pendingMax n) :
    (s.pendingNum + 1).toNat = s.pendingNum.toNat + 1 := by
  have hle := UInt8.le_iff_toNat_le.mp h
  have hmax := (pendingMax_bounds (n := n)).2
  rw [UInt8.toNat_add, show (1 : UInt8).toNat = 1 from rfl, Nat.mod_eq_of_lt]
  omega

/-- Below the limit a packet is relayed. -/
theorem relayOtaData_of_lt (h : s.pendingNum < pendingMax n) (otaBuf : List UInt8) :
    s.relayOtaData n otaBuf = ⟨s.pendingNum + 1, s.inFlight ++ [otaBuf]⟩ := by
  have hlt := UInt8.lt_iff_toNat_lt.mp h
  have hadd := toNat_pendingNum_add_one (UInt8.le_of_lt h)
  have hle : ¬pendingMax n < s.pendingNum + 1 := by
    rw [UInt8.lt_iff_toNat_lt]
    omega
  rw [RelayFlow.relayOtaData, if_neg hle]

/-- The state of a counter that counts the commands in flight. -/
theorem flowControlled_of_counts (hcounts : s.pendingNum.toNat = s.inFlight.length)
    (hbounded : s.pendingNum ≤ pendingMax n) : FlowControlled n s where
  counts := hcounts
  bounded := hbounded
  relays hnil otaBuf := by
    have hzero : s.pendingNum.toNat = 0 := by rw [hcounts, hnil]; rfl
    have hlt : s.pendingNum < pendingMax n := by
      rw [UInt8.lt_iff_toNat_lt, hzero]
      exact pendingMax_bounds.1
    rw [relayOtaData_of_lt hlt, hnil]
    rfl

/-- An answer to a command in flight takes one off both. -/
theorem FlowControlled.answer (h : FlowControlled n s) {i : Nat} (hi : i < s.inFlight.length) :
    FlowControlled n { s.pendingNumConsume with inFlight := s.inFlight.eraseIdx i } := by
  have hcounts := h.counts
  have hne : s.pendingNum ≠ 0 := by
    intro hzero
    rw [hzero, show (0 : UInt8).toNat = 0 from rfl] at hcounts
    omega
  have hsub : (s.pendingNum - 1).toNat = s.pendingNum.toNat - 1 := by
    have hle : (1 : UInt8) ≤ s.pendingNum := by
      rw [UInt8.le_iff_toNat_le, show (1 : UInt8).toNat = 1 from rfl]
      omega
    rw [UInt8.toNat_sub_of_le _ _ hle]
    rfl
  rw [RelayFlow.pendingNumConsume, if_pos hne]
  apply flowControlled_of_counts
  · change (s.pendingNum - 1).toNat = (s.inFlight.eraseIdx i).length
    rw [hsub, List.length_eraseIdx_of_lt hi]
    omega
  · have hle := UInt8.le_iff_toNat_le.mp h.bounded
    rw [UInt8.le_iff_toNat_le]
    change (s.pendingNum - 1).toNat ≤ _
    omega

/-- A packet keeps the flow controlled exactly when it comes below the limit. -/
theorem FlowControlled.relay_iff (h : FlowControlled n s) (otaBuf : List UInt8) :
    FlowControlled n (s.relayOtaData n otaBuf) ↔
      s.inFlight.length < (pendingMax n).toNat := by
  have hadd := toNat_pendingNum_add_one h.bounded
  constructor
  · intro h'
    -- the counter is one greater whether the packet is relayed or not
    have hnum : (s.relayOtaData n otaBuf).pendingNum = s.pendingNum + 1 := by
      rw [RelayFlow.relayOtaData]
      split <;> rfl
    have hle := UInt8.le_iff_toNat_le.mp h'.bounded
    rw [hnum, hadd, h.counts] at hle
    omega
  · intro hlt
    have hbelow : s.pendingNum < pendingMax n := by
      rw [UInt8.lt_iff_toNat_lt, h.counts]
      exact hlt
    rw [relayOtaData_of_lt hbelow]
    apply flowControlled_of_counts
    · rw [hadd, h.counts, List.length_append, List.length_singleton]
    · rw [UInt8.le_iff_toNat_le, hadd, h.counts]
      omega

theorem FlowControlled.step_iff (h : FlowControlled n s) (ht : relayStep n s e = some t) :
    FlowControlled n t ↔ BelowLimit n s e := by
  cases e with
  | relay otaBuf =>
    obtain rfl := Option.some.inj ht
    exact h.relay_iff otaBuf
  | rsp i =>
    rw [relayStep] at ht
    split at ht
    case isTrue hi =>
      obtain rfl := Option.some.inj ht
      exact iff_of_true (h.answer hi) trivial
    case isFalse => cases ht
  | rspTimeout i =>
    rw [relayStep] at ht
    split at ht
    case isTrue hi =>
      obtain rfl := Option.some.inj ht
      exact iff_of_true (h.answer hi) trivial
    case isFalse => cases ht

/-! ### Runs -/

theorem flowControlled_start : FlowControlled n .start :=
  flowControlled_of_counts rfl (UInt8.le_iff_toNat_le.mpr (Nat.zero_le _))

/-- The flow is controlled in every state of a run exactly when every packet of the run comes while
fewer commands than the limit are in flight. -/
theorem flowControlled_iff {es : List RelayEvent}
    (hrun : es.foldlM (relayStep n) .start = some t) :
    (∀ fs u, fs <+: es → fs.foldlM (relayStep n) .start = some u → FlowControlled n u) ↔
      Along (relayStep n) (BelowLimit n) .start es :=
  Transition.always_iff_along (fun _ _ _ hs ht => hs.step_iff ht) hrun flowControlled_start

/-- Two packets that are answered. -/
theorem flowControlled_answered :
    [.relay [1], .relay [2], .rspTimeout 1, .rsp 0].foldlM (relayStep 1) .start = some ⟨0, []⟩ ∧
      ∀ fs u, fs <+: [.relay [1], .relay [2], .rspTimeout 1, .rsp 0] →
        fs.foldlM (relayStep 1) .start = some u → FlowControlled 1 u := by
  refine ⟨by decide, (flowControlled_iff (t := ⟨0, []⟩) (by decide)).mpr ⟨?first, ?_⟩⟩
  case first => exact (by decide : 0 < 5)
  rintro _ ⟨rfl⟩
  refine ⟨(by decide : 1 < 5), ?_⟩
  rintro _ ⟨rfl⟩
  exact ⟨trivial, fun _ _ => ⟨trivial, fun _ _ => trivial⟩⟩

/-- Five packets come at the limit. When all commands are answered, the counter is still there, and
the next packet is not relayed. -/
theorem relay_stalls :
    ∃ (es : List RelayEvent) (t : RelayFlow),
      es.foldlM (relayStep 1) .start = some t ∧ t.inFlight = [] ∧
      (t.relayOtaData 1 [11]).inFlight = [] ∧ ¬FlowControlled 1 t := by
  refine ⟨[.relay [1], .relay [2], .relay [3], .relay [4], .relay [5], .relay [6], .relay [7],
    .relay [8], .relay [9], .relay [10], .rsp 0, .rsp 0, .rsp 0, .rsp 0, .rsp 0], ⟨5, []⟩,
    by decide, rfl, by decide, fun h => ?_⟩
  have hcounts := h.counts
  contradiction

end EarbudFirmware.Ota
