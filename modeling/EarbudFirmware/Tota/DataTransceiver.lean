import EarbudFirmware.Lib.Transition
import EarbudFirmware.Tota.FlashProgram
import EarbudFirmware.Tota.SendBuffers

/-!
# Data sessions

The peer asks for a session with a control packet. Data packets are then written to the flash, or
the flash is sent. A session that writes is closed by its first data packet, whatever length was
announced; one that reads is served and closed while its request is answered, and the packet with
which the peer confirms the data does not pass the test of control packets.

## Main definitions

* `dealReceiveCmd`, `handleWithData` — `deal_receive_cmd`, `handle_with_data`
* `transceiverStep` — one packet, with what an observer of the packets knows
* `Transfers` — what a packet must do
* `TransceiverEvent.Fits` — the packets that do it

## Main results

* `readFlashOneTime_spec` — the chunks are the content of the flash
* `transfers_iff` — the runs whose packets do what they must
-/

namespace EarbudFirmware.Tota

open NorMemory (InRange)

/-- `OP_TOTA_DATA_ENCODE`. -/
def opTotaDataEncode : Nat := 0x1004

/-- `OP_TOTA_DATA`. -/
def opTotaData : Nat := 0x6501

/-- `mode_e`, and the other values of the byte. -/
inductive DataMode where
  | writeFlash
  | writeRam
  | readFlash
  | readRam
  | other (b : Nat)
  deriving DecidableEq

/-- `status_e`, and the other values of the byte. -/
inductive DataStatus where
  | request
  | accept
  | reject
  | success
  | failed
  | readDone
  | timeout
  | other (b : Nat)
  deriving DecidableEq

/-- `handle_status_e`. -/
inductive HandleStatus where
  | finish
  | ok
  | error
  | sendDataDone
  deriving DecidableEq

/-- `DATA_TRANSCEIVER_CTL_T`, without the checksum that nothing reads. -/
structure DataTransceiverCtl where
  mode : DataMode
  status : DataStatus
  maxPacketSize : Nat
  dataLength : Nat
  addr : Nat

/-- `dataHandle`, without the timer that is not started and `flushBytes` that nothing reads. -/
structure DataHandle where
  isRuning : Bool
  handleMode : DataMode
  handleAddr : Nat
  handleLength : Nat
  processedBytes : Nat
  packetMaxSize : Nat
  buffPos : Nat

/-- What is sent: the answers to packets, and data with what `app_tota_send` returns. -/
inductive TransceiverOutput where
  | ctlRsp (mode : DataMode) (status : DataStatus)
  | dataRsp (ok : Bool)
  | data (opCode : Nat) (pdata : List UInt8) (ret : Bool)
  deriving DecidableEq

/-! ### Control packets -/

/-- `check_recieve_cmd_sanity`. -/
def checkRecieveCmdSanity (c : DataTransceiverCtl) : Bool :=
  if c.mode ≠ .writeFlash ∧ c.mode ≠ .writeRam ∧ c.mode ≠ .readFlash ∧ c.mode ≠ .readRam then false
  else if c.status ≠ .request then false
  else true

/-- `reset_data_handle`. -/
def DataHandle.reset (h : DataHandle) : DataHandle := { h with isRuning := false }

/-- `set_data_handle`. -/
def setDataHandle (c : DataTransceiverCtl) : DataHandle where
  isRuning := true
  handleMode := c.mode
  handleAddr := c.addr
  handleLength := c.dataLength
  processedBytes := 0
  packetMaxSize := c.maxPacketSize
  buffPos := 0

/-- `deal_receive_cmd`: the status of the response. -/
def dealReceiveCmd (c : DataTransceiverCtl) (h : DataHandle) : DataStatus × DataHandle :=
  if checkRecieveCmdSanity c = false then (.reject, h)
  else if h.isRuning then
    if h.handleMode = .readFlash ∧ c.mode = .readFlash ∧ c.status = .readDone then
      (if h.processedBytes = h.handleLength then .success else .failed, h.reset)
    else (.reject, h)
  else if c.status = .request then (.accept, setDataHandle c)
  else (.reject, h)

/-! ### Data packets -/

/-- The content of a range of the flash. -/
def FlashState.bytesAt (s : FlashState) (addr len : Nat) : List UInt8 :=
  (List.range len).map fun i => s.flash (addr + i)

/-- `tota_read_flash`, which puts the range together with its address and length into
`sector_buffer`. -/
def totaReadFlash (readAddr length : Nat) (s : FlashState) : FlashState :=
  let head := leBytes 4 readAddr ++ leBytes 2 length
  s.patch 0 (head.length + length) fun i =>
    head.getD i (s.flash (readAddr + (i - head.length)))

/-- `tota_read_flash`, and `app_tota_send` from the address in what it read, which is the flash. -/
def sendFlash (e : Endpoint) (link : Nat → Bool) (opCode readAddr length : Nat) (s : FlashState) :
    Option (FlashState × List TransceiverOutput) :=
  (appTotaSend e link (s.bytesAt readAddr length) opCode).map fun r =>
    (totaReadFlash readAddr length s, [.data opCode (s.bytesAt readAddr length) r.1])

/-- `__read_flash_one_time`. The length that is left bounds the rounds; `n` of the writes to the
link were made in earlier ones. -/
def readFlashOneTime (e : Endpoint) (link : Nat → Bool) :
    (fuel n readAddr readLen : Nat) → FlashState → Option (FlashState × List TransceiverOutput)
  | 0, n, readAddr, readLen, s =>
    sendFlash e (fun i => link (n + i)) opTotaDataEncode readAddr readLen s
  | fuel + 1, n, readAddr, readLen, s =>
    if 640 < readLen then do
      let (s, sent) ← sendFlash e (fun i => link (n + i)) opTotaDataEncode readAddr 640 s
      let (s, rest) ← readFlashOneTime e link fuel (n + 1) (readAddr + 640) (readLen - 640) s
      pure (s, sent ++ rest)
    else sendFlash e (fun i => link (n + i)) opTotaDataEncode readAddr readLen s

/-- `__handle_with_data_write_flash`. -/
def handleWithDataWriteFlash (pdata : List UInt8) (h : DataHandle) (s : FlashState) :
    HandleStatus × DataHandle × FlashState :=
  let (ret, s) :=
    totaWriteFlash (h.handleAddr + h.buffPos) (fun i => pdata.getD i 0) pdata.length s
  if !ret then (.error, h.reset, s)
  else (.finish, { h with buffPos := (h.buffPos + pdata.length) % 0x10000 }.reset, s)

/-- `__handle_with_data_read_flash`. -/
def handleWithDataReadFlash (e : Endpoint) (link : Nat → Bool) (h : DataHandle) (s : FlashState) :
    Option (HandleStatus × DataHandle × FlashState × List TransceiverOutput) :=
  let readLen :=
    if h.processedBytes + h.packetMaxSize > h.handleLength then h.handleLength - h.processedBytes
    else h.packetMaxSize
  (sendFlash e link opTotaData h.handleAddr readLen s).map fun r =>
    (.sendDataDone,
      { h with
        handleAddr := h.handleAddr + readLen
        processedBytes := h.processedBytes + readLen }, r)

/-- `handle_with_data`. -/
def handleWithData (e : Endpoint) (link : Nat → Bool) (pdata : List UInt8) (h : DataHandle)
    (s : FlashState) : Option (HandleStatus × DataHandle × FlashState × List TransceiverOutput) :=
  if !h.isRuning then some (.error, h, s, [])
  else
    match h.handleMode with
    | .writeFlash =>
      let (status, h, s) := handleWithDataWriteFlash pdata h s
      some (status, h, s, [])
    | .readFlash => handleWithDataReadFlash e link h s
    | _ => some (.error, h, s, [])

/-! ### Packets -/

/-- A session, as it was asked for, and its data so far. -/
structure DataSession where
  mode : DataMode
  addr : Nat
  length : Nat
  data : List UInt8

/-- What an observer of the packets knows: the session that is open, and the one that was served and
that the peer has not confirmed yet. -/
structure Observer where
  session : Option DataSession
  served : Option DataSession

/-- The state, the answers to the last packet, and the observer. -/
structure Transceiver where
  handle : DataHandle
  flash : FlashState
  answers : List TransceiverOutput
  observer : Observer

/-- The two commands, with the state of the connection and the answers of the link while they are
handled, and the callback of the timer, although the timer is not started. -/
inductive TransceiverEvent where
  | dataCtl (e : Endpoint) (link : Nat → Bool) (c : DataTransceiverCtl)
  | data (e : Endpoint) (link : Nat → Bool) (pdata : List UInt8)
  | timeout

/-- A control packet with this status is among the answers. -/
def reports (status : DataStatus) (outs : List TransceiverOutput) : Bool :=
  outs.any fun
    | .ctlRsp _ s => s == status
    | _ => false

/-- A data packet was answered without an error. -/
def acknowledges (outs : List TransceiverOutput) : Bool :=
  outs.any fun
    | .dataRsp ok => ok
    | _ => false

/-- The data that is sent. -/
def sentData (outs : List TransceiverOutput) : List UInt8 :=
  outs.flatMap fun
    | .data _ pdata _ => pdata
    | _ => []

/-- What the observer knows after an event. -/
def Observer.observe (o : Observer) (outs : List TransceiverOutput) : TransceiverEvent → Observer
  | .dataCtl _ _ c =>
    if reports .accept outs then
      let session := ⟨c.mode, c.addr, c.dataLength, sentData outs⟩
      if c.mode = .readFlash then ⟨none, some session⟩ else ⟨some session, none⟩
    else if c.mode = .readFlash ∧ c.status = .readDone then { o with served := none }
    else o
  | .data _ _ pdata =>
    if reports .success outs then { o with session := none }
    else if acknowledges outs then
      { o with session := o.session.map fun x => { x with data := x.data ++ pdata } }
    else o
  | .timeout => { o with session := none }

/-- The state after an event. -/
def Transceiver.next (t : Transceiver) (e : TransceiverEvent) (h : DataHandle) (s : FlashState)
    (outs : List TransceiverOutput) : Transceiver where
  handle := h
  flash := s
  answers := outs
  observer := t.observer.observe outs e

/-- The answer of `tota_data_transceiver_cmd_handle` to a data packet. -/
def HandleStatus.answer (handleMode : DataMode) : HandleStatus → List TransceiverOutput
  | .ok => [.dataRsp true]
  | .error => [.dataRsp false]
  | .finish => [.ctlRsp handleMode .success]
  | .sendDataDone => []

/-- `tota_data_transceiver_cmd_handle` and `data_handle_timeout_callback`. -/
def transceiverStep (t : Transceiver) : TransceiverEvent → Option Transceiver
  | .dataCtl e link c =>
    let (status, h) := dealReceiveCmd c t.handle
    let rsp := .ctlRsp c.mode status
    if c.mode = .readFlash ∧ status = .accept then do
      let (s, sent) ← readFlashOneTime e link h.handleLength 0 h.handleAddr h.handleLength t.flash
      pure (t.next (.dataCtl e link c) h.reset s (rsp :: sent))
    else some (t.next (.dataCtl e link c) h t.flash [rsp])
  | .data e link pdata => do
    let (status, h, s, sent) ← handleWithData e link pdata t.handle t.flash
    pure (t.next (.data e link pdata) h s (sent ++ status.answer h.handleMode))
  | .timeout =>
    some (t.next .timeout t.handle.reset t.flash [.ctlRsp t.handle.handleMode .timeout])

/-- Before the first packet. -/
def Transceiver.initial (h : DataHandle) (s : FlashState) : Transceiver where
  handle := h.reset
  flash := s
  answers := []
  observer := ⟨none, none⟩

/-! ### The contract -/

/-- A request with one of the modes. -/
def DataTransceiverCtl.IsRequest (c : DataTransceiverCtl) : Prop :=
  c.status = .request ∧ ∀ b, c.mode ≠ .other b

/-- What an event must do: a request is accepted when no session is open; the data of a session that
reads is the content of the flash, and all of it is taken; a session that writes reports success
when its data is in the flash and has the length that was asked for; nothing else is written; and
the peer's confirmation is answered with success when all data was sent. -/
structure Transfers (t : Transceiver) (ev : TransceiverEvent) (u : Transceiver) : Prop where
  request : ∀ e link c, ev = .dataCtl e link c → c.IsRequest →
    (reports .accept u.answers = true ↔ t.observer.session = none)
  read : ∀ e link c, ev = .dataCtl e link c → c.mode = .readFlash →
    reports .accept u.answers = true →
      sentData u.answers = t.flash.bytesAt c.addr c.dataLength ∧
        ∀ opCode pdata ret, .data opCode pdata ret ∈ u.answers → ret = true
  written : ∀ x, t.observer.session = some x → x.mode = .writeFlash →
    reports .success u.answers = true →
      ∃ e link pdata, ev = .data e link pdata ∧
        u.flash.bytesAt x.addr x.length = x.data ++ pdata
  outside : ∀ a, u.flash.flash a ≠ t.flash.flash a →
    ∃ x, t.observer.session = some x ∧ x.mode = .writeFlash ∧ InRange x.addr x.length a
  readDone : ∀ e link c, ev = .dataCtl e link c → c.mode = .readFlash → c.status = .readDone →
    (reports .success u.answers = true ↔
      ∃ x, t.observer.served = some x ∧ x.data.length = x.length)

/-- Data for a session that writes is all of its data; data that is read can be sent; and the peer
does not confirm data. -/
def TransceiverEvent.Fits (t : Transceiver) : TransceiverEvent → Prop
  | .dataCtl e link c =>
    (c.IsRequest → c.mode = .readFlash → t.handle.isRuning = false →
      e.handlers.entryIndexFromCmdCode opTotaDataEncode ≠ none ∧
        (e.status = .shakeHanded → c.dataLength ≤ 636 ∧ link 0 = true)) ∧
    (c.mode = .readFlash → c.status = .readDone →
      ∀ x, t.observer.served = some x → x.data.length ≠ x.length)
  | .data _ _ pdata =>
    t.handle.isRuning = true → t.handle.handleMode = .writeFlash →
      pdata.length = t.handle.handleLength
  | .timeout => True

variable {e : Endpoint} {link : Nat → Bool} {buf pdata : List UInt8} {h : DataHandle}
  {s : FlashState} {outs outs' : List TransceiverOutput} {t u : Transceiver}

/-! ### Chunks -/

/-- Encrypted bytes that fit the buffers are sent when the packet is not too large. -/
theorem encryptedSend_taken (c : Cipher) (b : Bool) (hlen : buf.length ≤ 656) :
    ∃ r, encryptedSend c b buf = some r ∧ (r.1 = true ↔ buf.length ≤ 640 ∧ b = true) := by
  have hmod := @length_padding_mod buf.length
  have hlt := @length_padding_lt buf.length
  have hpadded : (buf ++ padding buf.length).length ≤ sizeofCmdPayload := by
    rw [List.length_append]
    exact padded_le_iff.mpr hlen
  have hout := c.length_encrypt (buf ++ padding buf.length) (by rwa [List.length_append])
  rw [List.length_append] at hout
  have hlong : totaPacketTotalSize (c.encrypt (buf ++ padding buf.length)).length >
      maxSppPacketSize ↔ ¬buf.length ≤ 640 := by
    rw [hout]
    simp only [totaPacketTotalSize, totaPacketVerifySize, maxSppPacketSize, encryptKeySize] at *
    omega
  rw [encryptedSend, totaEncrypt, if_pos ⟨hpadded, Nat.le_trans hpadded (by decide)⟩,
    Option.bind_some, appTotaSendViaDatapath]
  by_cases hle : buf.length ≤ 640
  · have hfits := mt hlong.mp (not_not.mpr hle)
    rw [if_neg hfits, if_neg hfits]
    cases b with
    | true => exact ⟨_, rfl, iff_of_true rfl ⟨hle, rfl⟩⟩
    | false => exact ⟨_, rfl, iff_of_false Bool.false_ne_true fun h => Bool.false_ne_true h.2⟩
  · rw [if_pos (hlong.mpr hle)]
    exact ⟨_, rfl, iff_of_false Bool.false_ne_true fun h => hle h.1⟩

/-- What `app_tota_send` needs to take a chunk of `n` bytes. -/
def ChunkTaken (e : Endpoint) (b : Bool) (n : Nat) : Prop :=
  e.handlers.entryIndexFromCmdCode opTotaDataEncode ≠ none ∧
    (e.status = .shakeHanded → n ≤ 636 ∧ b = true)

/-- A chunk is taken or refused. -/
theorem appTotaSend_chunk (hlen : pdata.length ≤ 640) :
    ∃ r, appTotaSend e link pdata opTotaDataEncode = some r ∧
      (r.1 = true ↔ ChunkTaken e (link 0) pdata.length) := by
  have hparam : pdata.length ≤ sizeofParam := Nat.le_trans hlen (by decide)
  have hcall : (SendOp.send opTotaDataEncode pdata).call e link =
      appTotaSend e link pdata opTotaDataEncode := rfl
  rw [← hcall, ChunkTaken]
  by_cases hr : (SendOp.send opTotaDataEncode pdata).Registered e
  · have hspec := (@send_spec e link pdata opTotaDataEncode hr hparam).1
    rw [if_neg (by decide)] at hspec
    rw [hspec,
      and_iff_right (show e.handlers.entryIndexFromCmdCode opTotaDataEncode ≠ none from hr)]
    by_cases hs : e.status = .shakeHanded
    · have hlength : (cmdPayload opTotaDataEncode pdata.length pdata).length =
          pdata.length + 4 := by
        rw [length_cmdPayload, Nat.add_comm]
        rfl
      obtain ⟨r, hr, htaken⟩ := encryptedSend_taken e.cipher (link 0)
        (show (cmdPayload opTotaDataEncode pdata.length pdata).length ≤ 656 by omega)
      rw [if_pos ⟨hs, by decide⟩, forall_prop_of_true hs]
      refine ⟨r, hr, htaken.trans (and_congr_left fun _ => ?_)⟩
      omega
    · rw [if_neg fun h => hs h.1, viaDatapath_plain hparam, if_pos hlen, Option.map_some]
      exact ⟨_, rfl, iff_of_true rfl fun h => absurd h hs⟩
  · have hother := (@send_other e link pdata opTotaDataEncode fun h => absurd h hr).2 (by decide)
    exact ⟨_, hother, iff_of_false Bool.false_ne_true fun h => hr h.1⟩

@[simp] theorem length_bytesAt (addr len : Nat) : (s.bytesAt addr len).length = len := by
  rw [FlashState.bytesAt, List.length_map, List.length_range]

theorem bytesAt_add (addr m n : Nat) :
    s.bytesAt addr (m + n) = s.bytesAt addr m ++ s.bytesAt (addr + m) n := by
  rw [FlashState.bytesAt, FlashState.bytesAt, FlashState.bytesAt, List.range_add, List.map_append,
    List.map_map]
  congr 1
  exact List.map_congr_left fun i _ => by rw [Function.comp_apply, Nat.add_assoc]

/-- The data among the answers is taken. -/
def AllTaken (outs : List TransceiverOutput) : Prop :=
  ∀ opCode pdata ret, .data opCode pdata ret ∈ outs → ret = true

/-- Answers that send content of the flash, and nothing else. -/
structure Sends (e : Endpoint) (b : Bool) (addr len : Nat) (s : FlashState) (s' : FlashState)
    (outs : List TransceiverOutput) : Prop where
  flash : s'.flash = s.flash
  data : sentData outs = s.bytesAt addr len
  taken : AllTaken outs ↔ ChunkTaken e b len
  reports : ∀ status, reports status outs = false

theorem sendFlash_sends (addr : Nat) {len : Nat} (hlen : len ≤ 640) :
    ∃ s' outs, sendFlash e link opTotaDataEncode addr len s = some (s', outs) ∧
      Sends e (link 0) addr len s s' outs := by
  obtain ⟨r, hr, htaken⟩ := @appTotaSend_chunk e link (s.bytesAt addr len)
    (by rwa [length_bytesAt])
  rw [length_bytesAt] at htaken
  rw [sendFlash, hr, Option.map_some]
  refine ⟨_, _, rfl, rfl, List.flatMap_singleton .., ?_, fun _ => rfl⟩
  rw [← htaken]
  constructor
  · exact fun h => h _ _ _ List.mem_cons_self
  · intro h opCode pdata ret hmem
    obtain ⟨-, -, rfl⟩ := TransceiverOutput.data.inj (List.mem_singleton.mp hmem)
    exact h

theorem allTaken_append : AllTaken (outs ++ outs') ↔ AllTaken outs ∧ AllTaken outs' := by
  simp only [AllTaken, List.mem_append, or_imp, forall_and]

/-- More than one chunk is taken only when the connection is not encrypted. -/
theorem chunkTaken_of_long {b b' : Bool} {m n : Nat} (hm : 636 < m) :
    ChunkTaken e b m ∧ ChunkTaken e b' n ↔ ChunkTaken e b (m + n) := by
  by_cases hs : e.status = .shakeHanded
  · refine iff_of_false (fun h => ?_) fun h => ?_
    · exact Nat.not_le.mpr hm (h.1.2 hs).1
    · exact Nat.not_le.mpr (Nat.lt_of_lt_of_le hm (Nat.le_add_right m n)) (h.2 hs).1
  · have hskip (b : Bool) (n : Nat) : ChunkTaken e b n ↔
        e.handlers.entryIndexFromCmdCode opTotaDataEncode ≠ none :=
      and_iff_left fun h => absurd h hs
    rw [hskip, hskip, hskip, and_self]

/-- The chunks of a session are the content of its range, and all of them are taken when the last
one can be sent, if there is one, and the connection is not encrypted if there are more. -/
theorem readFlashOneTime_spec {fuel : Nat} (n addr : Nat) {len : Nat} (hfuel : len ≤ fuel)
    (s : FlashState) :
    ∃ s' outs, readFlashOneTime e link fuel n addr len s = some (s', outs) ∧
      Sends e (link n) addr len s s' outs := by
  induction fuel generalizing n addr len s with
  | zero =>
    rw [readFlashOneTime]
    exact sendFlash_sends addr (by omega)
  | succ fuel ih =>
    rw [readFlashOneTime]
    by_cases hlong : 640 < len
    · obtain ⟨s₁, outs, hfirst, hs₁⟩ :=
        @sendFlash_sends e (fun i => link (n + i)) s addr 640 (Nat.le_refl _)
      obtain ⟨s₂, outs', hrest, hs₂⟩ := ih (n + 1) (addr + 640) (by omega : len - 640 ≤ fuel) s₁
      rw [if_pos hlong, hfirst, Option.bind_eq_bind, Option.bind_some]
      dsimp only
      rw [hrest, Option.bind_some]
      have hlen : 640 + (len - 640) = len := Nat.add_sub_cancel' (Nat.le_of_lt hlong)
      refine ⟨s₂, outs ++ outs', rfl, hs₂.flash.trans hs₁.flash, ?_, ?_, fun status => ?_⟩
      · have hdata := hs₂.data
        rw [FlashState.bytesAt, hs₁.flash, ← FlashState.bytesAt] at hdata
        rw [sentData, List.flatMap_append, ← sentData, ← sentData, hs₁.data, hdata, ← bytesAt_add,
          hlen]
      · rw [allTaken_append, hs₁.taken, hs₂.taken, chunkTaken_of_long (by decide), hlen,
          Nat.add_zero]
      · rw [reports, List.any_append, ← reports, ← reports, hs₁.reports, hs₂.reports,
          Bool.or_false]
    · rw [if_neg hlong]
      exact sendFlash_sends addr (by omega)

/-! ### Control packets -/

theorem sanity_iff {c : DataTransceiverCtl} : checkRecieveCmdSanity c = true ↔ c.IsRequest := by
  rw [checkRecieveCmdSanity, DataTransceiverCtl.IsRequest]
  cases c.mode <;> cases c.status <;> simp

/-- A packet that is no request is rejected, whatever it confirms. -/
theorem dealReceiveCmd_of_not {c : DataTransceiverCtl} (hc : ¬c.IsRequest) :
    dealReceiveCmd c h = (.reject, h) :=
  if_pos (Bool.eq_false_iff.mpr (mt sanity_iff.mp hc))

theorem dealReceiveCmd_request {c : DataTransceiverCtl} (hc : c.IsRequest) :
    dealReceiveCmd c h = if h.isRuning then (.reject, h) else (.accept, setDataHandle c) := by
  have hdone : ¬(h.handleMode = .readFlash ∧ c.mode = .readFlash ∧ c.status = .readDone) := by
    rintro ⟨-, -, hstatus⟩
    exact absurd (hc.1.symm.trans hstatus) (by decide)
  rw [dealReceiveCmd, if_neg (Bool.eq_false_iff.not_left.mpr (sanity_iff.mpr hc)), if_neg hdone,
    if_pos hc.1]

/-- The state agrees with what the observer knows. A session that is open does not read, and has
no data yet. -/
structure Observed (t : Transceiver) : Prop where
  closed : t.handle.isRuning = false → t.observer.session = none
  opened : t.handle.isRuning = true →
    t.observer.session =
        some ⟨t.handle.handleMode, t.handle.handleAddr, t.handle.handleLength, []⟩ ∧
      t.handle.handleMode ≠ .readFlash ∧ t.handle.buffPos = 0

theorem step_reject {c : DataTransceiverCtl} (hc : ¬c.IsRequest ∨ t.handle.isRuning = true) :
    transceiverStep t (.dataCtl e link c) =
      some (t.next (.dataCtl e link c) t.handle t.flash [.ctlRsp c.mode .reject]) := by
  have hdeal : dealReceiveCmd c t.handle = (.reject, t.handle) := by
    by_cases hrequest : c.IsRequest
    · rw [dealReceiveCmd_request hrequest, if_pos (hc.resolve_left (not_not.mpr hrequest))]
    · exact dealReceiveCmd_of_not hrequest
  rw [transceiverStep, hdeal]
  exact if_neg fun h => absurd h.2 (by decide)

theorem step_accept {c : DataTransceiverCtl} (hc : c.IsRequest)
    (hclosed : t.handle.isRuning = false) (hmode : c.mode ≠ .readFlash) :
    transceiverStep t (.dataCtl e link c) =
      some (t.next (.dataCtl e link c) (setDataHandle c) t.flash [.ctlRsp c.mode .accept]) := by
  rw [transceiverStep, dealReceiveCmd_request hc, hclosed]
  exact if_neg fun h => hmode h.1

/-- A session that reads is served while its request is answered. -/
theorem step_read {c : DataTransceiverCtl} (hc : c.IsRequest)
    (hclosed : t.handle.isRuning = false) (hmode : c.mode = .readFlash) :
    ∃ s' outs, transceiverStep t (.dataCtl e link c) = some (t.next (.dataCtl e link c)
        (setDataHandle c).reset s' (.ctlRsp c.mode .accept :: outs)) ∧
      Sends e (link 0) c.addr c.dataLength t.flash s' outs := by
  obtain ⟨s', outs, hread, hsends⟩ :=
    @readFlashOneTime_spec e link c.dataLength 0 c.addr c.dataLength (Nat.le_refl _) t.flash
  have hdeal : dealReceiveCmd c t.handle = (.accept, setDataHandle c) := by
    rw [dealReceiveCmd_request hc, hclosed]
    rfl
  refine ⟨s', outs, ?_, hsends⟩
  rw [transceiverStep, hdeal]
  refine (if_pos ⟨hmode, rfl⟩).trans ?_
  change (readFlashOneTime e link c.dataLength 0 c.addr c.dataLength t.flash).bind _ = _
  rw [hread]
  rfl

/-- A rejected packet is dealt with as it must, unless it confirms data that was sent. -/
theorem reject_transfers_iff {c : DataTransceiverCtl} (ho : Observed t)
    (hc : ¬c.IsRequest ∨ t.handle.isRuning = true) :
    Transfers t (.dataCtl e link c)
        (t.next (.dataCtl e link c) t.handle t.flash [.ctlRsp c.mode .reject]) ↔
      (c.mode = .readFlash → c.status = .readDone →
        ∀ x, t.observer.served = some x → x.data.length ≠ x.length) := by
  constructor
  · intro htransfers hmode hstatus x hx hlength
    have hsuccess := (htransfers.readDone e link c rfl hmode hstatus).mpr ⟨x, hx, hlength⟩
    exact Bool.false_ne_true hsuccess
  · intro hdone
    refine ⟨fun e' link' c' he hrequest => ?_, fun _ _ _ _ _ h => ?_, fun _ _ _ h => ?_,
      fun a ha => absurd rfl ha, fun e' link' c' he hmode hstatus => ?_⟩
    · obtain ⟨-, -, rfl⟩ := TransceiverEvent.dataCtl.inj he
      have hrunning := hc.resolve_left (not_not.mpr hrequest)
      rw [(ho.opened hrunning).1]
      exact iff_of_false Bool.false_ne_true (Option.some_ne_none _)
    · exact absurd h Bool.false_ne_true
    · exact absurd h Bool.false_ne_true
    · obtain ⟨-, -, rfl⟩ := TransceiverEvent.dataCtl.inj he
      exact iff_of_false Bool.false_ne_true fun ⟨x, hx, hlength⟩ =>
        hdone hmode hstatus x hx hlength

/-- An accepted request, of which the answers report nothing else. -/
theorem accept_transfers {c : DataTransceiverCtl} (ho : Observed t) (hc : c.IsRequest)
    (hclosed : t.handle.isRuning = false) {h' : DataHandle} {s' : FlashState}
    (hflash : s'.flash = t.flash.flash) (haccept : reports .accept outs = true)
    (hsuccess : reports .success outs = false)
    (hread : c.mode = .readFlash →
      sentData outs = t.flash.bytesAt c.addr c.dataLength ∧ AllTaken outs) :
    Transfers t (.dataCtl e link c) (t.next (.dataCtl e link c) h' s' outs) := by
  refine ⟨fun _ _ _ _ _ => iff_of_true haccept (ho.closed hclosed),
    fun e' link' c' he hmode _ => ?_,
    fun _ _ _ h => ?_, fun a ha => absurd (congrFun hflash a) ha,
    fun e' link' c' he _ hstatus => ?_⟩
  · obtain ⟨-, -, rfl⟩ := TransceiverEvent.dataCtl.inj he
    exact hread hmode
  · exact absurd (hsuccess.symm.trans h) Bool.false_ne_true
  · obtain ⟨-, -, rfl⟩ := TransceiverEvent.dataCtl.inj he
    exact absurd (hc.1.symm.trans hstatus) (by decide)

theorem allTaken_cons {mode : DataMode} {status : DataStatus} :
    AllTaken (.ctlRsp mode status :: outs) ↔ AllTaken outs := by
  refine forall₃_congr fun opCode pdata ret => ?_
  rw [List.mem_cons, or_iff_right TransceiverOutput.noConfusion]

theorem dataCtl_transfers_iff {c : DataTransceiverCtl} (ho : Observed t) :
    (∃ u, transceiverStep t (.dataCtl e link c) = some u ∧ Transfers t (.dataCtl e link c) u) ↔
      (TransceiverEvent.dataCtl e link c).Fits t := by
  rw [TransceiverEvent.Fits]
  by_cases hreject : ¬c.IsRequest ∨ t.handle.isRuning = true
  · rw [step_reject hreject]
    have hskip : c.IsRequest → c.mode = .readFlash → t.handle.isRuning = false →
        e.handlers.entryIndexFromCmdCode opTotaDataEncode ≠ none ∧
          (e.status = .shakeHanded → c.dataLength ≤ 636 ∧ link 0 = true) := by
      intro hrequest _ hclosed
      have hrunning := hreject.resolve_left (not_not.mpr hrequest)
      exact absurd (hclosed.symm.trans hrunning) Bool.false_ne_true
    rw [and_iff_right hskip, ← reject_transfers_iff ho hreject]
    exact ⟨fun ⟨u, hu, h⟩ => Option.some.inj hu ▸ h, fun h => ⟨_, rfl, h⟩⟩
  · rw [not_or, not_not, Bool.not_eq_true] at hreject
    obtain ⟨hc, hclosed⟩ := hreject
    have hdone : c.mode = .readFlash → c.status = .readDone →
        ∀ x, t.observer.served = some x → x.data.length ≠ x.length :=
      fun _ hstatus => absurd (hc.1.symm.trans hstatus) (by decide)
    rw [and_iff_left hdone, forall_prop_of_true hc]
    by_cases hmode : c.mode = .readFlash
    · obtain ⟨s', outs, hstep, hsends⟩ := @step_read e link t c hc hclosed hmode
      rw [hstep, forall_prop_of_true hmode, forall_prop_of_true hclosed]
      have htaken : AllTaken outs ↔ ChunkTaken e (link 0) c.dataLength := hsends.taken
      rw [ChunkTaken] at htaken
      rw [← htaken]
      constructor
      · rintro ⟨u, hu, htransfers⟩
        obtain rfl := Option.some.inj hu
        exact allTaken_cons.mp (htransfers.read e link c rfl hmode rfl).2
      · intro hall
        have hsuccess : reports .success (.ctlRsp c.mode .accept :: outs) = false :=
          hsends.reports .success
        exact ⟨_, rfl, accept_transfers ho hc hclosed hsends.flash rfl hsuccess
          fun _ => ⟨hsends.data, allTaken_cons.mpr hall⟩⟩
    · rw [step_accept hc hclosed hmode]
      exact iff_of_true ⟨_, rfl, accept_transfers ho hc hclosed rfl rfl rfl
        fun h => absurd h hmode⟩ fun h => absurd h hmode

/-! ### Data packets -/

/-- An event that is no control packet, leaves the flash and reports no success. -/
theorem transfers_of_idle {ev : TransceiverEvent} (hev : ∀ e link c, ev ≠ .dataCtl e link c)
    (hsuccess : reports .success outs = false) :
    Transfers t ev (t.next ev h t.flash outs) :=
  ⟨fun e link c he => absurd he (hev e link c), fun e link c he => absurd he (hev e link c),
    fun _ _ _ h => absurd (hsuccess.symm.trans h) Bool.false_ne_true,
    fun _ ha => absurd rfl ha, fun e link c he => absurd he (hev e link c)⟩

/-- Data packets that are not written. -/
theorem step_error (ho : Observed t)
    (hmode : t.handle.isRuning = true → t.handle.handleMode ≠ .writeFlash) :
    transceiverStep t (.data e link pdata) =
      some (t.next (.data e link pdata) t.handle t.flash [.dataRsp false]) := by
  have hhandle : handleWithData e link pdata t.handle t.flash =
      some (.error, t.handle, t.flash, []) := by
    rw [handleWithData]
    cases hrunning : t.handle.isRuning with
    | false => rfl
    | true =>
      have hread := (ho.opened hrunning).2.1
      have hwrite := hmode hrunning
      cases hm : t.handle.handleMode with
      | writeFlash => exact absurd hm hwrite
      | readFlash => exact absurd hm hread
      | writeRam => rfl
      | readRam => rfl
      | other b => rfl
  rw [transceiverStep, hhandle]
  rfl

theorem handleWithDataWriteFlash_eq (pdata : List UInt8) (h : DataHandle) (s : FlashState) :
    ∃ h', h'.isRuning = false ∧ h'.handleMode = h.handleMode ∧
      handleWithDataWriteFlash pdata h s = (.finish, h',
        writeFlash (h.handleAddr + h.buffPos) (fun i => pdata.getD i 0) pdata.length s) := by
  rw [handleWithDataWriteFlash, totaWriteFlash_eq]
  exact ⟨{ h with buffPos := (h.buffPos + pdata.length) % 0x10000 }.reset, rfl, rfl, rfl⟩

/-- The data of a session that writes is written, and closes it. -/
theorem step_write (ho : Observed t) (hrunning : t.handle.isRuning = true)
    (hmode : t.handle.handleMode = .writeFlash) :
    ∃ h', h'.isRuning = false ∧ transceiverStep t (.data e link pdata) =
      some (t.next (.data e link pdata) h'
        (writeFlash t.handle.handleAddr (fun i => pdata.getD i 0) pdata.length t.flash)
        [.ctlRsp .writeFlash .success]) := by
  have hpos := (ho.opened hrunning).2.2
  obtain ⟨h', hclosed, hmode', hwritten⟩ := handleWithDataWriteFlash_eq pdata t.handle t.flash
  rw [hpos, Nat.add_zero] at hwritten
  refine ⟨h', hclosed, ?_⟩
  have hhandle : handleWithData e link pdata t.handle t.flash = some (.finish, h',
      writeFlash t.handle.handleAddr (fun i => pdata.getD i 0) pdata.length t.flash, []) := by
    rw [handleWithData, hrunning, hmode, hwritten]
    rfl
  rw [transceiverStep, hhandle, ← hmode, ← hmode']
  rfl

/-- The range holds the data that was written to it. -/
theorem bytesAt_writeFlash (addr : Nat) :
    (writeFlash addr (fun i => pdata.getD i 0) pdata.length s).bytesAt addr pdata.length =
      pdata := by
  have hwrite := (writeFlash_wrote addr pdata.length (fun i => pdata.getD i 0) s).replaces
  refine List.ext_getElem (length_bytesAt addr _) fun i _ hi => ?_
  simp only [FlashState.bytesAt, List.getElem_map, List.getElem_range]
  rw [hwrite.inside i hi, List.getD_eq_getElem _ _ hi]

theorem write_transfers_iff (ho : Observed t) (hrunning : t.handle.isRuning = true)
    (hmode : t.handle.handleMode = .writeFlash) :
    Transfers t (.data e link pdata) (t.next (.data e link pdata) h
        (writeFlash t.handle.handleAddr (fun i => pdata.getD i 0) pdata.length t.flash)
        [.ctlRsp .writeFlash .success]) ↔
      pdata.length = t.handle.handleLength := by
  have hopen := (ho.opened hrunning).1
  have hwrite := (writeFlash_wrote t.handle.handleAddr pdata.length (fun i => pdata.getD i 0)
    t.flash).replaces
  constructor
  · intro htransfers
    obtain ⟨e', link', pdata', he, hbytes⟩ := htransfers.written _ hopen hmode rfl
    obtain ⟨-, -, rfl⟩ := TransceiverEvent.data.inj he
    rw [List.nil_append] at hbytes
    have hlength := congrArg List.length hbytes
    rw [length_bytesAt] at hlength
    exact hlength.symm
  · intro hlength
    refine ⟨fun _ _ _ he => TransceiverEvent.noConfusion he,
      fun _ _ _ he => TransceiverEvent.noConfusion he, fun x hx _ _ => ?_, fun a ha => ?_,
      fun _ _ _ he => TransceiverEvent.noConfusion he⟩
    · obtain rfl := Option.some.inj (hopen.symm.trans hx)
      refine ⟨e, link, pdata, rfl, ?_⟩
      rw [List.nil_append, ← hlength]
      exact bytesAt_writeFlash t.handle.handleAddr
    · refine ⟨_, hopen, hmode, ?_⟩
      rw [← hlength]
      by_contra hout
      exact ha (hwrite.outside a hout)

theorem data_transfers_iff (ho : Observed t) :
    (∃ u, transceiverStep t (.data e link pdata) = some u ∧
      Transfers t (.data e link pdata) u) ↔
      (TransceiverEvent.data e link pdata).Fits t := by
  rw [TransceiverEvent.Fits]
  by_cases hwrite : t.handle.isRuning = true ∧ t.handle.handleMode = .writeFlash
  · obtain ⟨hrunning, hmode⟩ := hwrite
    obtain ⟨h', -, hstep⟩ := @step_write e link pdata t ho hrunning hmode
    rw [hstep, forall_prop_of_true hrunning, forall_prop_of_true hmode,
      ← write_transfers_iff ho hrunning hmode]
    exact ⟨fun ⟨u, hu, h⟩ => Option.some.inj hu ▸ h, fun h => ⟨_, rfl, h⟩⟩
  · rw [step_error ho fun hrunning hmode => hwrite ⟨hrunning, hmode⟩]
    exact iff_of_true ⟨_, rfl, transfers_of_idle (fun _ _ _ => TransceiverEvent.noConfusion) rfl⟩
      fun hrunning hmode => absurd ⟨hrunning, hmode⟩ hwrite

/-! ### Runs -/

/-- An event does what it must exactly when it fits. -/
theorem transfers_event_iff (ho : Observed t) (ev : TransceiverEvent) :
    (∃ u, transceiverStep t ev = some u ∧ Transfers t ev u) ↔ ev.Fits t := by
  cases ev with
  | dataCtl e link c => exact dataCtl_transfers_iff ho
  | data e link pdata => exact data_transfers_iff ho
  | timeout =>
    exact iff_of_true ⟨_, rfl, transfers_of_idle (fun _ _ _ => TransceiverEvent.noConfusion) rfl⟩
      trivial

/-- A state without a session. -/
theorem observed_of_closed (hrunning : t.handle.isRuning = false)
    (hsession : t.observer.session = none) : Observed t :=
  ⟨fun _ => hsession, fun h => absurd (hrunning.symm.trans h) Bool.false_ne_true⟩

/-- The observer learns nothing about the open session from a rejected packet. -/
theorem session_reject {c : DataTransceiverCtl} :
    (t.observer.observe [.ctlRsp c.mode .reject] (.dataCtl e link c)).session =
      t.observer.session := by
  have hreject : reports .accept [.ctlRsp c.mode .reject] = false := rfl
  rw [Observer.observe, hreject, if_neg Bool.false_ne_true]
  split_ifs <;> rfl

/-- Every event keeps the agreement with the observer. -/
theorem Observed.step {ev : TransceiverEvent} (ho : Observed t)
    (hu : transceiverStep t ev = some u) : Observed u := by
  cases ev with
  | dataCtl e link c =>
    by_cases hreject : ¬c.IsRequest ∨ t.handle.isRuning = true
    · rw [step_reject hreject] at hu
      obtain rfl := Option.some.inj hu
      have hsession := @session_reject e link t c
      exact ⟨fun h => hsession.trans (ho.closed h), fun h =>
        ⟨hsession.trans (ho.opened h).1, (ho.opened h).2⟩⟩
    · rw [not_or, not_not, Bool.not_eq_true] at hreject
      obtain ⟨hc, hclosed⟩ := hreject
      by_cases hmode : c.mode = .readFlash
      · obtain ⟨s', outs, hstep, hsends⟩ := @step_read e link t c hc hclosed hmode
        obtain rfl := Option.some.inj (hstep.symm.trans hu)
        refine observed_of_closed rfl ?_
        exact congrArg Observer.session ((if_pos rfl).trans (if_pos hmode))
      · rw [step_accept hc hclosed hmode] at hu
        obtain rfl := Option.some.inj hu
        refine ⟨fun h => absurd h.symm Bool.false_ne_true, fun _ => ⟨?_, hmode, rfl⟩⟩
        exact congrArg Observer.session ((if_pos rfl).trans (if_neg hmode))
  | data e link pdata =>
    by_cases hwrite : t.handle.isRuning = true ∧ t.handle.handleMode = .writeFlash
    · obtain ⟨h', hclosed, hstep⟩ := @step_write e link pdata t ho hwrite.1 hwrite.2
      obtain rfl := Option.some.inj (hstep.symm.trans hu)
      exact observed_of_closed hclosed rfl
    · rw [step_error ho fun hrunning hmode => hwrite ⟨hrunning, hmode⟩] at hu
      obtain rfl := Option.some.inj hu
      exact ⟨ho.closed, ho.opened⟩
  | timeout =>
    obtain rfl := Option.some.inj hu
    exact observed_of_closed rfl rfl

/-- A run whose packets do what they must: sessions that write get all of their data in one packet,
sessions that read can send it, and no data is confirmed. -/
theorem transfers_iff (h : DataHandle) (s : FlashState) (evs : List TransceiverEvent) :
    Transition.Lawful transceiverStep (fun _ => Transfers) [] (.initial h s) evs ↔
      Transition.Along transceiverStep (fun t ev => ev.Fits t) (.initial h s) evs :=
  @Transition.lawful_iff_along _ _ transceiverStep (fun t ev => ev.Fits t) (fun _ => Transfers)
    (fun _ => Observed) (fun _ _ ev ho => transfers_event_iff ho ev)
    (fun _ _ _ _ ho ht _ => ho.step ht)
    [] _ (observed_of_closed rfl rfl) evs

/-- No session was open yet. -/
def DataHandle.zero : DataHandle where
  isRuning := false
  handleMode := .writeFlash
  handleAddr := 0
  handleLength := 0
  processedBytes := 0
  packetMaxSize := 0
  buffPos := 0

/-- A session that writes four bytes reports success after one. A session that reads one byte cannot
send it, because the command is not in the table. -/
theorem sessions_not_lawful :
    ¬Transition.Lawful transceiverStep (fun _ => Transfers) []
        (.initial .zero ⟨fun _ => 0xFF, fun _ => 0, []⟩)
        [.dataCtl (echoEndpoint .connected) (fun _ => true) ⟨.writeFlash, .request, 640, 4, 0⟩,
          .data (echoEndpoint .connected) (fun _ => true) [1]] ∧
      ¬Transition.Lawful transceiverStep (fun _ => Transfers) []
        (.initial .zero ⟨fun _ => 0xFF, fun _ => 0, []⟩)
        [.dataCtl (echoEndpoint .connected) (fun _ => true) ⟨.readFlash, .request, 640, 1, 0⟩] := by
  have hinitial : Observed (.initial .zero ⟨fun _ => 0xFF, fun _ => 0, []⟩) :=
    observed_of_closed rfl rfl
  constructor
  · intro h
    obtain ⟨t, u, ht, hu, hlaw⟩ := h [_] _ List.prefix_rfl
    obtain ⟨v, hv, ht⟩ := Transition.foldlM_cons_eq_some ht
    obtain rfl : v = t := Option.some.inj ht
    have hopened := hinitial.step hv
    obtain rfl := Option.some.inj ((@step_accept _ _ _ ⟨.writeFlash, .request, 640, 4, 0⟩
      ⟨rfl, fun _ => DataMode.noConfusion⟩ rfl (by decide)).symm.trans hv)
    exact absurd ((data_transfers_iff hopened).mp ⟨u, hu, hlaw⟩ rfl rfl) (by decide)
  · intro h
    obtain ⟨t, u, ht, hu, hlaw⟩ := h [] _ List.prefix_rfl
    obtain rfl := Option.some.inj ht
    have hfits := ((dataCtl_transfers_iff hinitial).mp ⟨u, hu, hlaw⟩).1
      ⟨rfl, fun _ => DataMode.noConfusion⟩ rfl rfl
    exact absurd rfl hfits.1

end EarbudFirmware.Tota
