import EarbudFirmware.Utils.Bytes
import EarbudFirmware.Utils.CQueue

/-!
# Commands relayed to the other earbud

A command goes to the other earbud in frames. The receiver collects the data of the frames in a
queue and hands the packet on with the frame that completes it. A command without data has no frame,
and a command of the greatest length has an empty one. What is between arrives: one frame for each
command.

## Main definitions

* `otaRelayData`, `twsFrameValidityCheck`, `onRelayDataReceived` — the functions of the source
* `Delivered` — frames in the order they were sent, with others between them that fail the check
* `HandsEach` — the receiver hands on each command once, with what was sent

## Main results

* `handsEach_iff` — the commands and the failing frames with which it does
-/

namespace EarbudFirmware.AiOta.Relay

open NorMemory (Content)

/-! ### Frames -/

/-- `OTA_COMMAND_E`. -/
inductive CmdType where
  | begin | data | apply | abort | rsp
  deriving DecidableEq

/-- The number of a command. -/
def CmdType.code : CmdType → UInt8
  | .begin => 0
  | .data => 1
  | .apply => 2
  | .abort => 3
  | .rsp => 4

/-- The command with a number. -/
def CmdType.ofCode (c : UInt8) : Option CmdType :=
  if c = 0 then some .begin
  else if c = 1 then some .data
  else if c = 2 then some .apply
  else if c = 3 then some .abort
  else if c = 4 then some .rsp
  else none

/-- `OTA_COMMAND_NUM`. -/
def otaCommandNum : UInt8 := 5

/-- `OTA_STATUS_OK` and `OTA_STATUS_ERROR`. -/
def otaStatusOk : UInt8 := 0

@[inherit_doc otaStatusOk] def otaStatusError : UInt8 := 1

/-- `OTA_RELAY_PACKET_MAGIC_CODE_INVALID`. -/
def magicCodeInvalid : Nat := 0x44454144

/-- `OTA_RELAY_PACKET_MAGIC_CODE_COMPLETE`. -/
def magicCodeComplete : Nat := 0x28269395

/-- `OTA_RELAY_PACKET_MAGIC_CODE_INCOMPLETE`. -/
def magicCodeIncomplete : Nat := 0x17188284

/-- `OTA_TWS_HEAD_SIZE`. -/
def otaTwsHeadSize : Nat := 7

/-- `OTA_MAX_MTU`. -/
def otaMaxMtu : Nat := 700

/-- The first `frameLen` bytes of an `OTA_TWS_DATA_T`, as they are sent. -/
def frame (cmdType : CmdType) (magicCode : Nat) (dataPtr : List UInt8) (length : Nat) :
    List UInt8 :=
  ([cmdType.code] ++ leBytes 4 magicCode ++ leBytes 2 length ++ dataPtr.take length).take
    ((otaTwsHeadSize + length) % 0x10000)

section Functions

-- `TWS_RELAY_DATA_MAX_SIZE`, which the stack below gives
variable (twsRelayDataMaxSize : Nat)

/-- `OTA_TWS_PAYLOAD_MAX_LEN`. -/
def otaTwsPayloadMaxLen : Nat := twsRelayDataMaxSize - otaTwsHeadSize

/-- `_ota_relay_data`: the frames it sends. -/
def otaRelayData (cmdType : CmdType) (dataPtr : List UInt8) : Option (List (List UInt8)) :=
  let payloadMaxLen := otaTwsPayloadMaxLen twsRelayDataMaxSize
  let length := dataPtr.length
  if length ≤ payloadMaxLen then
    let frameNum :=
      (if length % payloadMaxLen ≠ 0 then length / payloadMaxLen + 1
        else length / payloadMaxLen) % 256
    some ((List.range frameNum).map fun i =>
      if i + 1 = frameNum then
        frame cmdType magicCodeComplete (dataPtr.drop (i * payloadMaxLen)) (length % payloadMaxLen)
      else frame cmdType magicCodeIncomplete (dataPtr.drop (i * payloadMaxLen)) payloadMaxLen)
  else none

/-- `magicCode` of a received frame. -/
def magicCode (p : Content) : Nat := le p 1 4

/-- `length` of a received frame. -/
def length (p : Content) : Nat := le p 5 2

/-- The two conditions of `_tws_frame_validity_check`. -/
def FrameValid (p : Content) (paramLen : Nat) : Prop :=
  paramLen = length p + otaTwsHeadSize ∧
    (magicCode p = magicCodeComplete ∨ magicCode p = magicCodeIncomplete)

instance (p : Content) (paramLen : Nat) : Decidable (FrameValid p paramLen) :=
  inferInstanceAs (Decidable (_ ∧ _))

/-- The part of `OTA_COMMON_ENV_T` for the relay. -/
structure Env where
  rxQueue : CQueue
  tempRxBuf : Content
  peerResult : UInt8
  currentMagicCode : Nat
  currentCmdType : UInt8

/-- What the receiver does to others. -/
inductive Event where
  /-- `beginInfo->initializer` is called with the packet. -/
  | initializer (function : Nat) (packet : List UInt8)
  /-- `peerCmdReceivedHandler` is called. -/
  | peerCmd (cmdType : CmdType) (packet : List UInt8)
  /-- The packet is a response, its status is the peer's result, and the waiting thread goes on. -/
  | response (packet : List UInt8)
  /-- The waiting thread goes on with an error as the peer's result. -/
  | badResponse
  /-- `_tws_rsp` sends these frames. -/
  | sent (frames : List (List UInt8))

-- `otaEnv.peerCmdReceivedHandler`
variable (peerCmdReceivedHandler : Option (CmdType → List UInt8 → UInt8))

/-- `_tws_rsp`. -/
def twsRsp (status : UInt8) : Option (List Event) :=
  (otaRelayData twsRelayDataMaxSize .rsp [status]).map fun frames => [.sent frames]

/-- `_tws_frame_validity_check`. -/
def twsFrameValidityCheck (env : Env) (p : Content) (paramLen : Nat) : Option Bool :=
  if paramLen ≤ twsRelayDataMaxSize ∧
      ¬(env.currentMagicCode = magicCodeIncomplete ∧ p 0 ≠ env.currentCmdType) then
    some (decide (FrameValid p paramLen))
  else none

/-- The switch over the command of a packet that is in `tempRxBuf`, with the answer to the
master. -/
def onPacket (env : Env) (p : Content) (packetLen : Nat) : Option (Env × List Event) :=
  let packet := (List.range packetLen).map env.tempRxBuf
  match CmdType.ofCode env.currentCmdType with
  | none => none
  | some .rsp => some ({ env with peerResult := env.tempRxBuf 0 }, [.response packet])
  | some cmdType =>
    -- `initializer` is behind three enumerations of one byte
    let initializer := le p (otaTwsHeadSize + 4) 4
    let started :=
      if cmdType = .begin ∧ initializer ≠ 0 then [Event.initializer initializer packet] else []
    let handled :=
      match peerCmdReceivedHandler with
      | some handler => (handler cmdType packet, [Event.peerCmd cmdType packet])
      | none => (otaStatusOk, [])
    (twsRsp twsRelayDataMaxSize handled.1).map fun answer => (env, started ++ handled.2 ++ answer)

/-- The branch of `ota_common_on_relay_data_received` for a valid frame. -/
def onValidFrame (env : Env) (p : Content) (paramLen : Nat) : Option (Env × List Event) :=
  let env := { env with currentMagicCode := magicCode p, currentCmdType := p 0 }
  match env.rxQueue.enCQueue (fun i => p (otaTwsHeadSize + i)) (paramLen - otaTwsHeadSize) with
  | none => none
  | some rxQueue =>
    if env.currentMagicCode = magicCodeComplete then
      let packetLen := rxQueue.lengthOfCQueue
      -- what `DeCQueue` returns is not looked at
      let taken := (rxQueue.deCQueue env.tempRxBuf packetLen).getD (rxQueue, env.tempRxBuf)
      (onPacket twsRelayDataMaxSize peerCmdReceivedHandler
        { env with rxQueue := taken.1, tempRxBuf := taken.2 } p packetLen).map fun done =>
          ({ done.1 with currentMagicCode := magicCodeInvalid, currentCmdType := otaCommandNum },
            done.2)
    else some ({ env with rxQueue }, [])

/-- The branch of `ota_common_on_relay_data_received` for a frame that fails the check. -/
def onInvalidFrame (env : Env) (p : Content) : Option (Env × List Event) :=
  match CmdType.ofCode (p 0) with
  | none => none
  | some .rsp => some ({ env with peerResult := otaStatusError }, [.badResponse])
  | some _ => (twsRsp twsRelayDataMaxSize otaStatusError).map fun answer => (env, answer)

/-- `ota_common_on_relay_data_received`. -/
def onRelayDataReceived (env : Env) (p : Content) (paramLen : Nat) : Option (Env × List Event) :=
  if paramLen ≤ twsRelayDataMaxSize then
    match twsFrameValidityCheck twsRelayDataMaxSize env p paramLen with
    | none => none
    | some true => onValidFrame twsRelayDataMaxSize peerCmdReceivedHandler env p paramLen
    | some false => onInvalidFrame twsRelayDataMaxSize env p
  else none

/-- The relay's part of `_reset_env`, with what is in the buffers. -/
def resetEnv (rxBuf tempRxBuf : Content) : Env :=
  { rxQueue := CQueue.initCQueue otaMaxMtu rxBuf, tempRxBuf, peerResult := 0, currentMagicCode := 0,
    currentCmdType := 0 }

/-- A frame as it arrives: what is in the buffer of the stack, and its length. -/
structure Received where
  ptrParam : Content
  paramLen : Nat

/-- The frames one after the other. -/
def receiveAll (env : Env) : List Received → Option (Env × List Event)
  | [] => some (env, [])
  | f :: fs => do
    let (env, events) ←
      onRelayDataReceived twsRelayDataMaxSize peerCmdReceivedHandler env f.ptrParam f.paramLen
    let (env, events') ← receiveAll env fs
    some (env, events ++ events')

end Functions

/-! ### Specification -/

/-- A command with its data. -/
abbrev Command := CmdType × List UInt8

/-- The frames of the commands. -/
def relayAll (twsRelayDataMaxSize : Nat) : List Command → Option (List (List UInt8))
  | [] => some []
  | (cmdType, dataPtr) :: cmds => do
    let frames ← otaRelayData twsRelayDataMaxSize cmdType dataPtr
    let rest ← relayAll twsRelayDataMaxSize cmds
    some (frames ++ rest)

/-- The frame has these bytes. -/
def Received.Carries (f : Received) (bytes : List UInt8) : Prop :=
  f.paramLen = bytes.length ∧ ∀ i < bytes.length, bytes[i]? = some (f.ptrParam i)

/-- The frame is refused by `_tws_frame_validity_check`. -/
def Received.Fails (twsRelayDataMaxSize : Nat) (f : Received) : Prop :=
  f.paramLen ≤ twsRelayDataMaxSize ∧ ¬FrameValid f.ptrParam f.paramLen

/-- All of the frames that were sent arrive in order, and frames that fail the check may be between
them. -/
inductive Delivered (twsRelayDataMaxSize : Nat) : List (List UInt8) → List Received → Prop where
  | nil : Delivered twsRelayDataMaxSize [] []
  | sent {bytes sent f fs} (hf : Received.Carries f bytes)
      (h : Delivered twsRelayDataMaxSize sent fs) :
      Delivered twsRelayDataMaxSize (bytes :: sent) (f :: fs)
  | failing {sent f fs} (hf : Received.Fails twsRelayDataMaxSize f)
      (h : Delivered twsRelayDataMaxSize sent fs) : Delivered twsRelayDataMaxSize sent (f :: fs)

/-- The commands that are handed to the handler or taken as a response. -/
def handed : List Event → List Command :=
  List.filterMap fun
    | .peerCmd cmdType packet => some (cmdType, packet)
    | .response packet => some (.rsp, packet)
    | _ => none

/-- The receiver takes all of the frames and hands on the commands, each once and as it was sent,
and after each frame the queue is empty. -/
def HandsEach (twsRelayDataMaxSize : Nat) (handler : CmdType → List UInt8 → UInt8) (env : Env)
    (cmds : List Command) (fs : List Received) : Prop :=
  (∃ env' events, receiveAll twsRelayDataMaxSize (some handler) env fs = some (env', events) ∧
    handed events = cmds) ∧
  ∀ n env' events, receiveAll twsRelayDataMaxSize (some handler) env (fs.take n) =
    some (env', events) → env'.rxQueue.contents = []

/-- No packet is there in part. -/
structure Idle (env : Env) : Prop where
  wellFormed : env.rxQueue.WellFormed
  size : env.rxQueue.size = otaMaxMtu
  empty : env.rxQueue.contents = []
  magic : env.currentMagicCode ≠ magicCodeIncomplete

/-! ### What a frame carries -/

section Frames

variable {cmdType : CmdType} {m len : Nat} {d bytes : List UInt8} {f : Received}

@[simp] theorem CmdType.ofCode_code (c : CmdType) : CmdType.ofCode c.code = some c := by
  cases c <;> rfl

theorem frame_eq (hlen : otaTwsHeadSize + len < 0x10000) :
    frame cmdType m d len =
      [cmdType.code] ++ (leBytes 4 m ++ (leBytes 2 len ++ d.take len)) := by
  have hle : ([cmdType.code] ++ (leBytes 4 m ++ (leBytes 2 len ++ d.take len))).length ≤
      otaTwsHeadSize + len := by
    simp only [List.length_append, length_leBytes, List.length_take, List.length_cons,
      List.length_nil, otaTwsHeadSize]
    omega
  unfold frame
  rw [Nat.mod_eq_of_lt hlen, List.append_assoc, List.append_assoc, List.take_of_length_le hle]

theorem length_frame (hlen : otaTwsHeadSize + len < 0x10000) (hd : len ≤ d.length) :
    (frame cmdType m d len).length = otaTwsHeadSize + len := by
  rw [frame_eq hlen]
  simp only [List.length_append, length_leBytes, List.length_take, List.length_cons,
    List.length_nil, otaTwsHeadSize]
  omega

theorem Received.Carries.le_eq (h : f.Carries bytes) {a n : Nat} (hn : a + n ≤ bytes.length) :
    le f.ptrParam a n = leAt bytes a n := by
  refine le_congr fun i hi => ?_
  obtain ⟨hlo, hhi⟩ := hi
  have hbyte := h.2 i (by omega)
  show f.ptrParam i = bytes.getD i 0
  rw [List.getD_eq_getElem?_getD, hbyte, Option.getD_some]

/-- The fields of a frame are read back. -/
theorem Received.Carries.fields (hlen : otaTwsHeadSize + len < 0x10000) (hd : len ≤ d.length)
    (hm : m < 0x100000000) (h : f.Carries (frame cmdType m d len)) :
    f.paramLen = otaTwsHeadSize + len ∧ f.ptrParam 0 = cmdType.code ∧ magicCode f.ptrParam = m ∧
      length f.ptrParam = len ∧
      (List.range len).map (fun i => f.ptrParam (otaTwsHeadSize + i)) = d.take len := by
  have hsize : (frame cmdType m d len).length = 7 + len := length_frame hlen hd
  have hle : ∀ a n, a + n ≤ 7 + len → le f.ptrParam a n = leAt (frame cmdType m d len) a n :=
    fun a n hn => h.le_eq (hsize ▸ hn)
  have hbytes : ∀ i < 7 + len, (frame cmdType m d len)[i]? = some (f.ptrParam i) :=
    fun i hi => h.2 i (hsize ▸ hi)
  unfold otaTwsHeadSize at *
  rw [frame_eq hlen] at hle hbytes
  refine ⟨h.1.trans hsize, ?_, ?_, ?_, ?_⟩
  · exact (Option.some.inj (hbytes 0 (by omega))).symm
  · have hmagic := (hle 1 4 (by omega)).trans
      ((leAt_append_right (l := [cmdType.code]) (a := 0)).trans leAt_leBytes)
    exact hmagic.trans (Nat.mod_eq_of_lt hm)
  · have hfield := hle 5 2 (by omega)
    rw [← List.append_assoc] at hfield
    have hback := leAt_append_right (l := [cmdType.code] ++ leBytes 4 m)
      (t := leBytes 2 len ++ d.take len) (a := 0) (n := 2)
    rw [leAt_leBytes, Nat.mod_eq_of_lt (show len < 256 ^ 2 by omega)] at hback
    exact hfield.trans hback
  · have hdata : ∀ i < len, (d.take len)[i]? = some (f.ptrParam (7 + i)) := by
      intro i hi
      have hbyte := hbytes (7 + i) (by omega)
      rw [← List.append_assoc, ← List.append_assoc, List.getElem?_append_right (by simp)] at hbyte
      simpa using hbyte
    rw [map_range_eq_take hdata, List.take_take, Nat.min_self]

end Frames

/-! ### The sender -/

section Sender

variable {twsRelayDataMaxSize : Nat} {cmdType : CmdType} {d : List UInt8}

/-- There is one frame at most, and it completes the packet. -/
theorem otaRelayData_eq (hpos : 0 < otaTwsPayloadMaxLen twsRelayDataMaxSize)
    (hd : d.length ≤ otaTwsPayloadMaxLen twsRelayDataMaxSize) :
    otaRelayData twsRelayDataMaxSize cmdType d = some (if d.length = 0 then []
      else [frame cmdType magicCodeComplete d
        (d.length % otaTwsPayloadMaxLen twsRelayDataMaxSize)]) := by
  unfold otaRelayData
  dsimp only
  rw [if_pos hd]
  congr 1
  generalize hP : otaTwsPayloadMaxLen twsRelayDataMaxSize = P at *
  obtain hzero | hlt | heq : d.length = 0 ∨ (0 < d.length ∧ d.length < P) ∨
      (0 < d.length ∧ d.length = P) := by omega
  · rw [hzero, if_pos rfl, Nat.zero_mod, Nat.zero_div, if_neg (fun h => h rfl)]
    rfl
  · rw [Nat.mod_eq_of_lt hlt.2, Nat.div_eq_of_lt hlt.2, if_pos (by omega), if_neg (by omega)]
    simp
  · rw [heq.2, Nat.mod_self, Nat.div_self hpos, if_neg (fun h => h rfl), if_neg (by omega)]
    simp

/-- A single status is sent in a frame. -/
theorem exists_twsRsp (hpos : 0 < otaTwsPayloadMaxLen twsRelayDataMaxSize) (status : UInt8) :
    ∃ frames, twsRsp twsRelayDataMaxSize status = some [.sent frames] := by
  unfold twsRsp
  rw [otaRelayData_eq hpos (by rw [List.length_singleton]; omega)]
  exact ⟨_, rfl⟩

/-- What arrives of a command. -/
def arrived (payloadMaxLen : Nat) (c : Command) : Option Command :=
  if c.2.length = 0 then none else some (c.1, c.2.take (c.2.length % payloadMaxLen))

theorem arrived_eq_none {payloadMaxLen : Nat} {c : Command} (h : c.2.length = 0) :
    arrived payloadMaxLen c = none := if_pos h

theorem arrived_eq_some {payloadMaxLen : Nat} {c : Command} (h : 0 < c.2.length) :
    arrived payloadMaxLen c = some (c.1, c.2.take (c.2.length % payloadMaxLen)) :=
  if_neg (Nat.ne_of_gt h)

theorem length_of_arrived {payloadMaxLen : Nat} {c c' : Command}
    (h : arrived payloadMaxLen c = some c') : c'.2.length ≤ c.2.length := by
  obtain hzero | hpos := Nat.eq_zero_or_pos c.2.length
  · rw [arrived_eq_none hzero] at h
    cases h
  · rw [arrived_eq_some hpos] at h
    rw [← Option.some.inj h]
    exact List.length_take_le' _ _

/-- The frame for a whole packet. -/
def wholeFrame (c : Command) : List UInt8 := frame c.1 magicCodeComplete c.2 c.2.length

/-- The frames of the commands are those of what arrives. -/
theorem relayAll_eq (hpos : 0 < otaTwsPayloadMaxLen twsRelayDataMaxSize) {cmds : List Command}
    {sent : List (List UInt8)} (h : relayAll twsRelayDataMaxSize cmds = some sent) :
    (∀ c ∈ cmds, c.2.length ≤ otaTwsPayloadMaxLen twsRelayDataMaxSize) ∧
      sent = (cmds.filterMap (arrived (otaTwsPayloadMaxLen twsRelayDataMaxSize))).map
        wholeFrame := by
  induction cmds generalizing sent with
  | nil => exact ⟨fun c hc => absurd hc List.not_mem_nil, (Option.some.inj h).symm⟩
  | cons c cmds ih =>
    obtain ⟨cmdType, d⟩ := c
    have hd : d.length ≤ otaTwsPayloadMaxLen twsRelayDataMaxSize := by
      by_contra hd
      have hnone : otaRelayData twsRelayDataMaxSize cmdType d = none := if_neg hd
      rw [relayAll, hnone] at h
      cases h
    rw [relayAll, otaRelayData_eq hpos hd, Option.bind_eq_bind, Option.bind_some] at h
    obtain ⟨rest, hrest, h⟩ := Option.bind_eq_some_iff.1 h
    obtain ⟨hall, rfl⟩ := ih hrest
    rw [← Option.some.inj h]
    refine ⟨List.forall_mem_cons.2 ⟨hd, hall⟩, ?_⟩
    by_cases hzero : d.length = 0
    · rw [if_pos hzero, List.filterMap_cons_none (arrived_eq_none hzero)]
      rfl
    · have hmod : d.length % otaTwsPayloadMaxLen twsRelayDataMaxSize ≤ d.length :=
        Nat.mod_le _ _
      have hwhole : wholeFrame (cmdType,
          d.take (d.length % otaTwsPayloadMaxLen twsRelayDataMaxSize)) =
          frame cmdType magicCodeComplete d
            (d.length % otaTwsPayloadMaxLen twsRelayDataMaxSize) := by
        unfold wholeFrame frame
        dsimp only
        rw [List.length_take, Nat.min_eq_left hmod, List.take_take, Nat.min_self]
      rw [if_neg hzero, List.filterMap_cons_some (arrived_eq_some (Nat.pos_of_ne_zero hzero)),
        List.map_cons, hwhole]
      rfl

end Sender

/-! ### The receiver -/

section Receiver

variable {twsRelayDataMaxSize : Nat} {handler : CmdType → List UInt8 → UInt8} {env env' : Env}
  {events : List Event} {f : Received}

@[simp] theorem handed_append (l l' : List Event) : handed (l ++ l') = handed l ++ handed l' :=
  List.filterMap_append

theorem idle_resetEnv (rxBuf tempRxBuf : Content) : Idle (resetEnv rxBuf tempRxBuf) where
  wellFormed := CQueue.wellFormed_initCQueue (by decide)
  size := rfl
  empty := CQueue.contents_initCQueue
  magic := show 0 ≠ magicCodeIncomplete by decide

/-- With the condition the receiver goes on, idle, and has handed on these commands. Without it, it
stops. -/
def Outcome (ok : Prop) (r : Option (Env × List Event)) (l : List Command) : Prop :=
  (ok ∧ ∃ env' events, r = some (env', events) ∧ Idle env' ∧ handed events = l) ∨ (¬ok ∧ r = none)

/-- The packet in the buffer is handed on. -/
theorem onPacket_spec (env : Env) (hpos : 0 < otaTwsPayloadMaxLen twsRelayDataMaxSize) (p : Content)
    {c : Command} {packetLen : Nat} (hcmd : env.currentCmdType = c.1.code)
    (hbuf : (List.range packetLen).map env.tempRxBuf = c.2) :
    ∃ env' events, onPacket twsRelayDataMaxSize (some handler) env p packetLen =
      some (env', events) ∧ env'.rxQueue = env.rxQueue ∧ handed events = [c] := by
  obtain ⟨cmdType, d⟩ := c
  dsimp only at hcmd hbuf
  obtain ⟨frames, hrsp⟩ := exists_twsRsp hpos (handler cmdType d)
  unfold onPacket
  dsimp only
  rw [hcmd, CmdType.ofCode_code, hbuf]
  cases cmdType with
  | rsp => exact ⟨_, _, rfl, rfl, rfl⟩
  | begin =>
    dsimp only
    rw [hrsp]
    refine ⟨_, _, rfl, rfl, ?_⟩
    rw [handed_append, handed_append]
    split_ifs <;> rfl
  | data | apply | abort =>
    dsimp only
    rw [hrsp]
    exact ⟨_, _, rfl, rfl, rfl⟩

/-- The check of a frame while no packet is there in part. -/
theorem Idle.twsFrameValidityCheck_eq (h : Idle env)
    (hlen : f.paramLen ≤ twsRelayDataMaxSize) :
    twsFrameValidityCheck twsRelayDataMaxSize env f.ptrParam f.paramLen =
      some (decide (FrameValid f.ptrParam f.paramLen)) :=
  if_pos ⟨hlen, fun hmagic => h.magic hmagic.1⟩

/-- A frame that fails the check leaves no trace in the queue. -/
theorem Idle.onInvalidFrame_spec (h : Idle env)
    (hpos : 0 < otaTwsPayloadMaxLen twsRelayDataMaxSize) (hf : f.Fails twsRelayDataMaxSize) :
    Outcome ((CmdType.ofCode (f.ptrParam 0)).isSome)
      (onRelayDataReceived twsRelayDataMaxSize (some handler) env f.ptrParam f.paramLen) [] := by
  obtain ⟨frames, hrsp⟩ := exists_twsRsp hpos otaStatusError
  unfold onRelayDataReceived
  rw [if_pos hf.1, h.twsFrameValidityCheck_eq hf.1, decide_eq_false hf.2]
  dsimp only
  unfold onInvalidFrame
  rcases hcmd : CmdType.ofCode (f.ptrParam 0) with - | cmdType
  · exact .inr ⟨Bool.false_ne_true, rfl⟩
  · refine .inl ⟨rfl, ?_⟩
    cases cmdType with
    | rsp => exact ⟨_, _, rfl, ⟨h.wellFormed, h.size, h.empty, h.magic⟩, rfl⟩
    | begin | data | apply | abort =>
      dsimp only
      rw [hrsp]
      exact ⟨_, _, rfl, h, rfl⟩

/-- A frame with a whole packet hands it on, if the queue has room for it. -/
theorem Idle.onValidFrame_spec (h : Idle env)
    (hpos : 0 < otaTwsPayloadMaxLen twsRelayDataMaxSize) (hmax : twsRelayDataMaxSize < 0x10000)
    {c : Command} (hc : c.2.length ≤ otaTwsPayloadMaxLen twsRelayDataMaxSize)
    (hf : f.Carries (wholeFrame c)) :
    Outcome (c.2.length ≤ otaMaxMtu)
      (onRelayDataReceived twsRelayDataMaxSize (some handler) env f.ptrParam f.paramLen) [c] := by
  have hsum : otaTwsHeadSize + c.2.length ≤ twsRelayDataMaxSize := by
    unfold otaTwsPayloadMaxLen at *
    omega
  obtain ⟨hlen, hcode, hmagic, hlength, hdata⟩ :=
    hf.fields (by omega) (Nat.le_refl _) (by decide)
  have hvalid : FrameValid f.ptrParam f.paramLen := by
    refine ⟨?_, .inl hmagic⟩
    rw [hlen, hlength, Nat.add_comm]
  rw [List.take_length] at hdata
  have hqlen : env.rxQueue.len = 0 := by
    rw [← CQueue.length_contents, h.empty]
    rfl
  unfold onRelayDataReceived
  rw [if_pos (hlen ▸ hsum), h.twsFrameValidityCheck_eq (hlen ▸ hsum), decide_eq_true hvalid]
  dsimp only
  unfold onValidFrame
  dsimp only
  rw [show f.paramLen - otaTwsHeadSize = c.2.length by omega]
  by_cases hfits : c.2.length ≤ otaMaxMtu
  · refine .inl ⟨hfits, ?_⟩
    have hroom : env.rxQueue.len + c.2.length ≤ env.rxQueue.size := by
      rw [hqlen, h.size]
      omega
    obtain ⟨q, hq, hwf, hsize, hcontents⟩ := CQueue.enCQueue_spec
      (e := fun i => f.ptrParam (otaTwsHeadSize + i)) h.wellFormed hroom
    rw [h.empty, hdata, List.nil_append] at hcontents
    have hlenq : q.len = c.2.length := by rw [← CQueue.length_contents, hcontents]
    obtain ⟨q', e', hq', hwf', hsize', hcontents', hbuf, -⟩ :=
      CQueue.deCQueue_spec (e := env.tempRxBuf) hwf (Nat.le_refl q.len)
    rw [hq, hmagic]
    dsimp only
    rw [if_pos rfl, show q.lengthOfCQueue = q.len from rfl, hq', Option.getD_some]
    have hpacket : (List.range q.len).map e' = c.2 := by
      rw [map_range_eq_take hbuf, hcontents, hlenq, List.take_length]
    obtain ⟨env'', events, hdone, hqueue, hhanded⟩ := onPacket_spec
      { env with
        rxQueue := q', tempRxBuf := e', currentMagicCode := magicCodeComplete,
        currentCmdType := f.ptrParam 0 } hpos f.ptrParam hcode hpacket
    rw [hdone]
    refine ⟨_, _, rfl, ⟨?_, ?_, ?_, ?_⟩, hhanded⟩
    · exact hqueue ▸ hwf'
    · exact (congrArg CQueue.size hqueue).trans (hsize'.trans (hsize.trans h.size))
    · refine (congrArg CQueue.contents hqueue).trans (hcontents'.trans ?_)
      rw [hcontents, hlenq, List.drop_length]
    · exact (by decide : magicCodeInvalid ≠ magicCodeIncomplete)
  · refine .inr ⟨hfits, ?_⟩
    have hfull : env.rxQueue.enCQueue (fun i => f.ptrParam (otaTwsHeadSize + i)) c.2.length =
        none := by
      unfold CQueue.enCQueue CQueue.availableOfCQueue
      rw [hqlen, h.size, if_pos (by omega)]
    rw [hfull]

/-! ### Runs -/

/-- The queue has room for each packet, and the other frames are of a known command. -/
def Receivable (packets : List Command) (fs : List Received) : Prop :=
  (∀ c ∈ packets, c.2.length ≤ otaMaxMtu) ∧
    ∀ f ∈ fs, ¬FrameValid f.ptrParam f.paramLen → (CmdType.ofCode (f.ptrParam 0)).isSome

theorem receivable_cons_packet {c : Command} {packets : List Command} {fs : List Received}
    (hvalid : FrameValid f.ptrParam f.paramLen) :
    Receivable (c :: packets) (f :: fs) ↔ c.2.length ≤ otaMaxMtu ∧ Receivable packets fs := by
  unfold Receivable
  rw [List.forall_mem_cons, List.forall_mem_cons, and_assoc]
  exact and_congr_right fun _ => and_congr_right fun _ =>
    ⟨fun h => h.2, fun h => ⟨fun hbad => absurd hvalid hbad, h⟩⟩

theorem receivable_cons_failing {packets : List Command} {fs : List Received}
    (hbad : ¬FrameValid f.ptrParam f.paramLen) :
    Receivable packets (f :: fs) ↔
      (CmdType.ofCode (f.ptrParam 0)).isSome ∧ Receivable packets fs := by
  unfold Receivable
  rw [List.forall_mem_cons, and_left_comm]
  exact and_congr_left fun _ => ⟨fun h => h hbad, fun h _ => h⟩

/-- A frame and the ones behind it. -/
theorem Outcome.cons {ok ok' : Prop} {l l' : List Command} {fs : List Received}
    (hstep : Outcome ok
      (onRelayDataReceived twsRelayDataMaxSize (some handler) env f.ptrParam f.paramLen) l)
    (hrest : ∀ env', Idle env' →
      Outcome ok' (receiveAll twsRelayDataMaxSize (some handler) env' fs) l') :
    Outcome (ok ∧ ok') (receiveAll twsRelayDataMaxSize (some handler) env (f :: fs)) (l ++ l') := by
  unfold receiveAll
  obtain ⟨hok, env', events, hstep, hidle, hhanded⟩ | ⟨hnot, hstep⟩ := hstep
  · rw [hstep, Option.bind_eq_bind, Option.bind_some]
    obtain ⟨hok', env'', events', hrun, hidle', hhanded'⟩ | ⟨hnot', hrun⟩ := hrest env' hidle
    · refine .inl ⟨⟨hok, hok'⟩, env'', events ++ events', ?_, hidle', ?_⟩
      · dsimp only
        rw [hrun]
        rfl
      · rw [handed_append, hhanded, hhanded']
    · refine .inr ⟨fun h => hnot' h.2, ?_⟩
      dsimp only
      rw [hrun]
      rfl
  · refine .inr ⟨fun h => hnot h.1, ?_⟩
    rw [hstep]
    rfl

/-- The frames are taken and hand on their packets, or the receiver stops at one of them. -/
theorem receiveAll_spec (handler : CmdType → List UInt8 → UInt8)
    (hpos : 0 < otaTwsPayloadMaxLen twsRelayDataMaxSize)
    (hmax : twsRelayDataMaxSize < 0x10000) {packets : List Command} {sent : List (List UInt8)}
    {fs : List Received} (hd : Delivered twsRelayDataMaxSize sent fs)
    (hsent : sent = packets.map wholeFrame)
    (hle : ∀ c ∈ packets, c.2.length ≤ otaTwsPayloadMaxLen twsRelayDataMaxSize) (h : Idle env) :
    Outcome (Receivable packets fs) (receiveAll twsRelayDataMaxSize (some handler) env fs)
      packets := by
  induction hd generalizing packets env with
  | nil =>
    obtain rfl := List.map_eq_nil_iff.1 hsent.symm
    refine .inl ⟨⟨?_, ?_⟩, env, [], rfl, h, rfl⟩
    · exact fun c hc => absurd hc List.not_mem_nil
    · exact fun f hf => absurd hf List.not_mem_nil
  | sent hf hd ih =>
    rename_i f fs
    obtain ⟨c, packets, rfl, rfl, htail⟩ := List.map_eq_cons_iff.1 hsent.symm
    obtain ⟨hc, hle⟩ := List.forall_mem_cons.1 hle
    have hvalid : FrameValid f.ptrParam f.paramLen := by
      have hsum : otaTwsHeadSize + c.2.length < 0x10000 := by
        unfold otaTwsPayloadMaxLen at *
        omega
      obtain ⟨hlen, -, hmagic, hlength, -⟩ := hf.fields hsum (Nat.le_refl _) (by decide)
      exact ⟨by rw [hlen, hlength, Nat.add_comm], .inl hmagic⟩
    rw [receivable_cons_packet hvalid]
    exact (h.onValidFrame_spec hpos hmax hc hf).cons fun env' h' => ih htail.symm hle h'
  | failing hf hd ih =>
    rw [receivable_cons_failing hf.2]
    exact (h.onInvalidFrame_spec hpos hf).cons fun env' h' => ih hsent hle h'

theorem Delivered.take {sent : List (List UInt8)} {fs : List Received}
    (h : Delivered twsRelayDataMaxSize sent fs) (n : Nat) :
    ∃ m, Delivered twsRelayDataMaxSize (sent.take m) (fs.take n) := by
  induction h generalizing n with
  | nil => exact ⟨0, by simpa using .nil⟩
  | sent hf hd ih =>
    cases n with
    | zero => exact ⟨0, by simpa using .nil⟩
    | succ n =>
      obtain ⟨m, hm⟩ := ih n
      exact ⟨m + 1, .sent hf hm⟩
  | failing hf hd ih =>
    cases n with
    | zero => exact ⟨0, by simpa using .nil⟩
    | succ n =>
      obtain ⟨m, hm⟩ := ih n
      exact ⟨m, .failing hf hm⟩

/-- What arrives are the commands, if each has data and less than a frame has room for. -/
theorem filterMap_arrived_eq_iff {payloadMaxLen : Nat} {cmds : List Command}
    (hle : ∀ c ∈ cmds, c.2.length ≤ payloadMaxLen) :
    cmds.filterMap (arrived payloadMaxLen) = cmds ↔
      ∀ c ∈ cmds, 0 < c.2.length ∧ c.2.length < payloadMaxLen := by
  induction cmds with
  | nil => simp
  | cons c cmds ih =>
    obtain ⟨hc, hle⟩ := List.forall_mem_cons.1 hle
    rw [List.forall_mem_cons, ← ih hle]
    obtain hzero | hpos := Nat.eq_zero_or_pos c.2.length
    · -- there is one packet less
      rw [List.filterMap_cons_none (arrived_eq_none hzero)]
      have hlen := List.length_filterMap_le (arrived payloadMaxLen) cmds
      constructor
      · intro heq
        have := congrArg List.length heq
        rw [List.length_cons] at this
        omega
      · rintro ⟨⟨hpos, -⟩, -⟩
        omega
    · rw [List.filterMap_cons_some (arrived_eq_some hpos), List.cons_eq_cons]
      refine and_congr_left fun _ => ?_
      constructor
      · intro heq
        refine ⟨hpos, Nat.lt_of_le_of_ne hc fun hfull => ?_⟩
        have hdata := congrArg (fun c => c.2.length) heq
        dsimp only at hdata
        rw [← hfull, Nat.mod_self] at hdata
        simp only [List.take_zero, List.length_nil] at hdata
        omega
      · rintro ⟨-, hlt⟩
        rw [Nat.mod_eq_of_lt hlt, List.take_length]

variable {cmds : List Command} {sent : List (List UInt8)} {fs : List Received}

/-- The commands that are handed on once, with what was sent: those with data, less than a frame has
room for and not more than the queue, while the failing frames between are of a known command. -/
theorem handsEach_iff (hmin : otaTwsHeadSize < twsRelayDataMaxSize)
    (hmax : twsRelayDataMaxSize < 0x10000) (h : Idle env)
    (hsent : relayAll twsRelayDataMaxSize cmds = some sent)
    (hd : Delivered twsRelayDataMaxSize sent fs) :
    HandsEach twsRelayDataMaxSize handler env cmds fs ↔
      (∀ c ∈ cmds, 0 < c.2.length ∧ c.2.length < otaTwsPayloadMaxLen twsRelayDataMaxSize ∧
        c.2.length ≤ otaMaxMtu) ∧
      ∀ f ∈ fs, ¬FrameValid f.ptrParam f.paramLen → (CmdType.ofCode (f.ptrParam 0)).isSome := by
  have hpos : 0 < otaTwsPayloadMaxLen twsRelayDataMaxSize := Nat.sub_pos_of_lt hmin
  obtain ⟨hle, hpackets⟩ := relayAll_eq hpos hsent
  have hle' : ∀ c ∈ cmds.filterMap (arrived (otaTwsPayloadMaxLen twsRelayDataMaxSize)),
      c.2.length ≤ otaTwsPayloadMaxLen twsRelayDataMaxSize := by
    intro c hc
    obtain ⟨c', hc', harrived⟩ := List.mem_filterMap.1 hc
    exact length_of_arrived harrived |>.trans (hle c' hc')
  have hrun := receiveAll_spec handler hpos hmax hd hpackets hle' h
  have hsame := filterMap_arrived_eq_iff hle
  constructor
  · rintro ⟨⟨env', events, hdone, hhanded⟩, -⟩
    obtain ⟨hall, env'', events'', hdone', -, hhanded'⟩ | ⟨-, hnone⟩ := hrun
    · rw [hdone] at hdone'
      obtain ⟨rfl, rfl⟩ := Prod.mk.inj (Option.some.inj hdone')
      have heq := hhanded'.symm.trans hhanded
      rw [heq] at hall
      exact ⟨fun c hc => ⟨(hsame.1 heq c hc).1, (hsame.1 heq c hc).2, hall.1 c hc⟩, hall.2⟩
    · rw [hdone] at hnone
      cases hnone
  · rintro ⟨hcmds, hknown⟩
    have heq := hsame.2 fun c hc => ⟨(hcmds c hc).1, (hcmds c hc).2.1⟩
    rw [heq] at hrun hpackets
    have hall : Receivable cmds fs := ⟨fun c hc => (hcmds c hc).2.2, hknown⟩
    refine ⟨?_, fun n env' events hdone => ?_⟩
    · obtain ⟨-, env', events, hdone, -, hhanded⟩ | ⟨hnot, -⟩ := hrun
      · exact ⟨env', events, hdone, hhanded⟩
      · exact absurd hall hnot
    · obtain ⟨m, hm⟩ := hd.take n
      rw [hpackets, ← List.map_take] at hm
      obtain ⟨-, env'', events'', hdone', hidle, -⟩ | ⟨-, hnone⟩ := receiveAll_spec
        handler hpos hmax hm rfl (fun c hc => hle c (List.mem_of_mem_take hc)) h
      · rw [hdone] at hdone'
        obtain ⟨rfl, rfl⟩ := Prod.mk.inj (Option.some.inj hdone')
        exact hidle.empty
      · rw [hdone] at hnone
        cases hnone

/-! ### Runs of one command -/

/-- A frame of exactly these bytes. -/
def Received.ofBytes (bytes : List UInt8) : Received := ⟨fun i => bytes.getD i 0, bytes.length⟩

theorem Received.carries_ofBytes (bytes : List UInt8) : (ofBytes bytes).Carries bytes := by
  refine ⟨rfl, fun i hi => ?_⟩
  show bytes[i]? = some (bytes.getD i 0)
  rw [List.getD_eq_getElem _ _ hi, List.getElem?_eq_getElem hi]

theorem delivered_ofBytes (twsRelayDataMaxSize : Nat) (sent : List (List UInt8)) :
    Delivered twsRelayDataMaxSize sent (sent.map .ofBytes) := by
  induction sent with
  | nil => exact .nil
  | cons bytes sent ih => exact .sent (Received.carries_ofBytes bytes) ih

/-- Three bytes, behind a frame of a single byte. -/
theorem handsEach_three_bytes :
    HandsEach 512 (fun _ _ => otaStatusOk) (resetEnv (fun _ => 0) fun _ => 0)
      [(.data, [1, 2, 3])] [.ofBytes [1], .ofBytes (wholeFrame (.data, [1, 2, 3]))] := by
  refine (handsEach_iff (by decide) (by decide) (idle_resetEnv _ _)
    rfl ?_).2 ⟨?_, ?_⟩
  · exact .failing ⟨by decide, by decide⟩ (delivered_ofBytes 512 [wholeFrame (.data, [1, 2, 3])])
  · simp [otaTwsPayloadMaxLen, otaTwsHeadSize, otaMaxMtu]
  · simp only [List.forall_mem_cons]
    refine ⟨by decide, fun _ => by decide, fun f hf => absurd hf List.not_mem_nil⟩

/-- A command without data is not sent, one of the greatest length arrives without its data, and a
failing frame of an unknown command stops the receiver. -/
theorem not_handsEach :
    (relayAll 512 [(.data, [])] = some [] ∧ Delivered 512 [] [] ∧
      ¬HandsEach 512 (fun _ _ => otaStatusOk) (resetEnv (fun _ => 0) fun _ => 0)
        [(.data, [])] []) ∧
    (∃ sent fs, relayAll 512 [(.data, List.replicate 505 0)] = some sent ∧
      Delivered 512 sent fs ∧
      ¬HandsEach 512 (fun _ _ => otaStatusOk) (resetEnv (fun _ => 0) fun _ => 0)
        [(.data, List.replicate 505 0)] fs) ∧
    (Received.ofBytes [9]).Fails 512 ∧
      ¬HandsEach 512 (fun _ _ => otaStatusOk) (resetEnv (fun _ => 0) fun _ => 0) []
        [.ofBytes [9]] := by
  refine ⟨⟨rfl, .nil, ?_⟩, ?_, ⟨by decide, by decide⟩, ?_⟩
  · rintro ⟨⟨env', events, hdone, hhanded⟩, -⟩
    obtain ⟨rfl, rfl⟩ := Prod.mk.inj (Option.some.inj hdone)
    cases hhanded
  · have hlen : (List.replicate 505 (0 : UInt8)).length = otaTwsPayloadMaxLen 512 :=
      List.length_replicate
    have hsent : relayAll 512 [(.data, List.replicate 505 0)] = some [wholeFrame (.data, [])] := by
      unfold relayAll relayAll
      rw [otaRelayData_eq (by decide) (Nat.le_of_eq hlen), hlen, Nat.mod_self]
      rfl
    refine ⟨_, _, hsent, delivered_ofBytes 512 _, ?_⟩
    rintro ⟨⟨env', events, hdone, hhanded⟩, -⟩
    have hpackets : [wholeFrame (.data, [])] = [((.data, []) : Command)].map wholeFrame := rfl
    obtain ⟨-, env'', events'', hdone', -, hhanded'⟩ | ⟨-, hnone⟩ := receiveAll_spec
      (fun _ _ => otaStatusOk) (by decide) (by decide) (delivered_ofBytes 512 _) hpackets (by simp)
      (idle_resetEnv (fun _ => 0) fun _ => 0)
    · rw [hdone] at hdone'
      obtain ⟨rfl, rfl⟩ := Prod.mk.inj (Option.some.inj hdone')
      have hdata := congrArg (List.map fun c => c.2.length) (hhanded.symm.trans hhanded')
      rw [List.map_singleton, List.map_singleton, List.length_replicate] at hdata
      cases hdata
    · rw [hdone] at hnone
      cases hnone
  · rintro ⟨⟨env', events, hdone, -⟩, -⟩
    have hnone : receiveAll 512 (some fun _ _ => otaStatusOk) (resetEnv (fun _ => 0) fun _ => 0)
        [.ofBytes [9]] = none := rfl
    rw [hnone] at hdone
    cases hdone

end Receiver

end EarbudFirmware.AiOta.Relay
