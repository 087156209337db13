import EarbudFirmware.Tota.CmdHandler
import EarbudFirmware.Utils.Bytes
import EarbudFirmware.Utils.CQueue
import EarbudFirmware.Utils.Crc32

/-!
# Packets of the TOTA link

A command is a code, the length of its parameter and the parameter. A packet carries bytes of
commands between a head with their number and a checksum with a tail. Encrypted bytes are padded to
blocks of 16. The receiver queues the chunks that arrive, takes complete packets out of the queue,
and puts their bytes into a cache until these are a command.

## Main definitions

* `Cipher`, `Endpoint` — the key, the command table and the connect status
* `appTotaSend`, `appTotaSendRsp`, `appTotaSendData` — the ways to send a command
* `TotaRx`, `sAppTotaRx` — the reception of a chunk
-/

namespace EarbudFirmware.Tota

open NorMemory (Content)

/-- `MAX_SPP_PACKET_SIZE`. -/
def maxSppPacketSize : Nat := 669

/-- `TOTA_RX_BUF_SIZE`. -/
def totaRxBufSize : Nat := maxSppPacketSize * 2

/-- `TOTA_PACKET_BUF_OFFSET`. -/
def totaPacketBufOffset : Nat := 4 + 4

/-- `TOTA_PACKET_VERIFY_SIZE`. -/
def totaPacketVerifySize : Nat := 4 + 4 + 4 + 4

/-- `TOTA_PACKET_TOTAL_SIZE`, in 32 bits. -/
def totaPacketTotalSize (len : Nat) : Nat := (len + totaPacketVerifySize) % 0x100000000

/-- `TOTA_HEAD`. -/
def totaHead : List UInt8 := [0x48, 0x45, 0x41, 0x44]

/-- `TOTA_TAIL`. -/
def totaTail : List UInt8 := [0x54, 0x41, 0x49, 0x4C]

/-- `TOTA_DATA_HEAD_SIZE`. -/
def totaDataHeadSize : Nat := 4

/-- `TOTA_DATA_CACHE_BUFFER_SIZE`. -/
def totaDataCacheBufferSize : Nat := 4 + 32 + 4096

/-- `DONGLE_DATA_FRAME`. -/
def dongleDataFrame : Nat := 624

/-- `ENCRYPT_KEY_SIZE`. -/
def encryptKeySize : Nat := 16

/-- `sizeof(APP_TOTA_CMD_PAYLOAD_T)`. -/
def sizeofCmdPayload : Nat := 660

/-- `sizeof(payload.param)`. -/
def sizeofParam : Nat := sizeofCmdPayload - 2 * 2

/-- `sizeof(pResponse->rspData)`. -/
def sizeofRspData : Nat := sizeofCmdPayload - 5 * 2

/-- `OP_TOTA_NONE`. -/
def opTotaNone : Nat := 0x0000

/-- `OP_TOTA_STRING`. -/
def opTotaString : Nat := 0x1000

/-- `OP_TOTA_CONN_CONFIRM`. -/
def opTotaConnConfirm : Nat := 0x1003

/-- `OP_TOTA_RESPONSE_TO_CMD`. -/
def opTotaResponseToCmd : Nat := 0x6000

/-- `OP_TOTA_COMMAND_COUNT`. -/
def opTotaCommandCount : Nat := 0x9201

/-- `AES128_CBC_encrypt_buffer` and `AES128_CBC_decrypt_buffer` with one key. -/
structure Cipher where
  encrypt : List UInt8 → List UInt8
  decrypt : List UInt8 → List UInt8
  length_encrypt : ∀ l, l.length % encryptKeySize = 0 → (encrypt l).length = l.length
  length_decrypt : ∀ l, l.length % encryptKeySize = 0 → (decrypt l).length = l.length
  decrypt_encrypt : ∀ l, l.length % encryptKeySize = 0 → decrypt (encrypt l) = l

/-- `TOTA_CONNECT_STATUS_E`. -/
inductive ConnectStatus where
  | connected
  | shakeHanded
  | disconnected
  deriving DecidableEq

/-- What does not change while commands are sent. `cmt008` tells whether `CMT_008_SPP_TOTA_V2` is
defined. -/
structure Endpoint where
  handlers : SupervisorBuild
  cipher : Cipher
  status : ConnectStatus
  cmt008 : Bool
  codes : ∀ c ∈ handlers.table, opTotaString ≤ c.cmdCode ∧ c.cmdCode < opTotaCommandCount

/-- What `app_tota_cmd_received` finds in the bytes it is called with. -/
structure TotaCmd where
  cmdCode : Nat
  paramLen : Nat
  param : List UInt8
  deriving DecidableEq

/-- The bytes of `APP_TOTA_CMD_PAYLOAD_T`, up to the end of the parameter. -/
def cmdPayload (cmdCode paramLen : Nat) (param : List UInt8) : List UInt8 :=
  leBytes 2 cmdCode ++ leBytes 2 paramLen ++ param

/-- The command in the bytes of `APP_TOTA_CMD_PAYLOAD_T`. -/
def commandOf (ptrData : List UInt8) : TotaCmd where
  cmdCode := leAt ptrData 0 2
  paramLen := leAt ptrData 2 2
  param := (ptrData.drop totaDataHeadSize).take (leAt ptrData 2 2)

/-! ### Sending -/

/-- The zeros that fill the last block. -/
def padding (inLen : Nat) : List UInt8 :=
  if inLen % encryptKeySize = 0 then []
  else List.replicate (encryptKeySize - inLen % encryptKeySize) 0

/-- The padding goes to the end of the last block. -/
theorem length_padding_mod {n : Nat} : (n + (padding n).length) % encryptKeySize = 0 := by
  unfold padding
  split_ifs with h
  · exact h
  · rw [List.length_replicate]
    simp only [encryptKeySize] at *
    omega

/-- The padding is shorter than a block. -/
theorem length_padding_lt {n : Nat} : (padding n).length < encryptKeySize := by
  unfold padding
  split_ifs with h
  · exact Nat.succ_pos _
  · rw [List.length_replicate]
    simp only [encryptKeySize] at *
    omega

/-- `tota_encrypt` from `APP_TOTA_CMD_PAYLOAD_T` to `codeBuf`, `none` when it writes outside of
them. -/
def totaEncrypt (c : Cipher) (buf : List UInt8) : Option (List UInt8) :=
  let padded := buf ++ padding buf.length
  if padded.length ≤ sizeofCmdPayload ∧ padded.length ≤ maxSppPacketSize then
    some (c.encrypt padded)
  else none

/-- `tota_decrypt`. -/
def totaDecrypt (c : Cipher) (buf : List UInt8) : List UInt8 :=
  c.decrypt (buf ++ padding buf.length)

/-- The bytes that `app_tota_tx_pack` puts together. -/
def totaPacket (pdata : List UInt8) : List UInt8 :=
  totaHead ++ leBytes 4 pdata.length ++ pdata ++ leBytes 4 (crc32C 0 pdata).toNat ++ totaTail

/-- `app_tota_send_via_datapath`, with the packet that is written; `link` is the answer of the link.
`app_tota_tx_pack` makes the packet in the caller's buffer, which has `room` bytes: `none` when it
writes behind it. -/
def appTotaSendViaDatapath (link : Bool) (room : Nat) (pdata : List UInt8) :
    Option (Bool × List (List UInt8)) :=
  if totaPacketTotalSize pdata.length > maxSppPacketSize then some (false, [])
  else if room < totaPacketTotalSize pdata.length then none
  else if link then some (true, [totaPacket pdata])
  else some (false, [])

variable (e : Endpoint)

/-- `app_tota_send`. With `OP_TOTA_NONE` the caller's buffer has room for a packet. -/
def appTotaSend (link : Nat → Bool) (pdata : List UInt8) (opCode : Nat) :
    Option (Bool × List (List UInt8)) :=
  if opCode = opTotaNone then appTotaSendViaDatapath (link 0) maxSppPacketSize pdata
  else if opTotaCommandCount ≤ opCode then some (false, [])
  else if sizeofParam < pdata.length then some (false, [])
  else if e.handlers.entryIndexFromCmdCode opCode = none then some (false, [])
  else
    let payload := cmdPayload opCode pdata.length pdata
    if opCode = opTotaString then appTotaSendViaDatapath (link 0) sizeofCmdPayload payload
    else if e.status = .shakeHanded ∧ opCode > opTotaConnConfirm then
      (totaEncrypt e.cipher payload).bind (appTotaSendViaDatapath (link 0) maxSppPacketSize)
    else
      -- the result of the write only decides about the supervision of the response
      (appTotaSendViaDatapath (link 0) sizeofCmdPayload payload).map fun r => (true, r.2)

/-- `APP_TOTA_CMD_RSP_T`, up to the end of the data. -/
def rspParam (rspOpCode rspStatus : Nat) (pdata : List UInt8) : List UInt8 :=
  leBytes 2 rspOpCode ++ leBytes 2 rspStatus ++ leBytes 2 pdata.length ++ pdata

/-- `app_tota_send_rsp`. -/
def appTotaSendRsp (link : Nat → Bool) (rspOpCode rspStatus : Nat) (pdata : List UInt8) :
    Option (Bool × List (List UInt8)) :=
  if opTotaCommandCount ≤ rspOpCode ∨ rspOpCode < opTotaString then some (false, [])
  else if sizeofRspData < pdata.length then some (false, [])
  else
    let payload :=
      cmdPayload opTotaResponseToCmd (3 * 2 + pdata.length) (rspParam rspOpCode rspStatus pdata)
    (totaEncrypt e.cipher payload).bind (appTotaSendViaDatapath (link 0) maxSppPacketSize)

/-- The loop of `app_tota_send_data` over the bytes that are left, the code and the length in front.
Every round but the last sends `DONGLE_DATA_FRAME` of them, so their number bounds the rounds. The
result of a write is ignored. -/
def sendDataLoop (link : Nat → Bool) :
    (fuel n : Nat) → (left : List UInt8) → Option (Bool × List (List UInt8))
  | 0, _, _ => some (true, [])
  | fuel + 1, n, left =>
    if e.status = .shakeHanded then do
      let sendBuf ← totaEncrypt e.cipher (left.take dongleDataFrame)
      let (_, sent) ← appTotaSendViaDatapath (link n) maxSppPacketSize sendBuf
      if left.length ≤ dongleDataFrame then pure (true, sent)
      else
        let (ret, rest) ← sendDataLoop link fuel (n + 1) (left.drop dongleDataFrame)
        pure (ret, sent ++ rest)
    else some (false, [])

/-- `app_tota_send_data`. The length is a number of 32 bits, of which the command gets 16. With one
that the head of the command takes beyond 32 bits, a copy of that size is made. -/
def appTotaSendData (link : Nat → Bool) (opCode : Nat) (data : List UInt8) :
    Option (Bool × List (List UInt8)) :=
  if opTotaCommandCount ≤ opCode then some (false, [])
  else if e.handlers.entryIndexFromCmdCode opCode = none then some (false, [])
  else if 0x100000000 ≤ data.length + totaDataHeadSize then none
  else
    let left := leBytes 2 opCode ++ leBytes 2 (data.length % 0x10000) ++ data
    sendDataLoop e link left.length 0 left

/-- The functions that send a command. -/
inductive SendOp where
  | send (opCode : Nat) (pdata : List UInt8)
  | rsp (rspOpCode rspStatus : Nat) (pdata : List UInt8)
  | data (opCode : Nat) (data : List UInt8)

/-- One call, with its result and the packets that the link takes; `link n` is its answer to the
`n`-th write. -/
def SendOp.call (link : Nat → Bool) : SendOp → Option (Bool × List (List UInt8))
  | .send opCode pdata => appTotaSend e link pdata opCode
  | .rsp rspOpCode rspStatus pdata => appTotaSendRsp e link rspOpCode rspStatus pdata
  | .data opCode buf => appTotaSendData e link opCode buf

/-! ### Receiving -/

/-- `TOTA_STORE_STATUS_E`. -/
inductive StoreStatus where
  | ok
  | onGoing
  | fail
  deriving DecidableEq

/-- The first `RxDataCacheBufferOffset` bytes of `RxDataCacheBuffer`, behind which there are zeros,
and the calls of `app_tota_cmd_received`. -/
structure RxStore where
  cache : List UInt8
  calls : List (List UInt8)
  deriving DecidableEq

/-- `totaEnv`, as far as the reception uses it. -/
structure TotaRx where
  rxDataQueue : CQueue
  store : RxStore

/-- `app_tota_store`. -/
def RxStore.appTotaStore (s : RxStore) (pdata : List UInt8) : RxStore × StoreStatus :=
  if s.cache.length + pdata.length ≤ totaDataCacheBufferSize then
    let cache := s.cache ++ pdata
    let status := if cache.length < leAt cache 2 2 + totaDataHeadSize then .onGoing else .ok
    ({ s with cache }, status)
  else ({ s with cache := [] }, .fail)

/-- The end of `app_tota_rx_unpack`, for the bytes of a packet. -/
def RxStore.unpacked (s : RxStore) (pbuf : List UInt8) : RxStore :=
  let (s, status) :=
    match e.status with
    | .connected => s.appTotaStore pbuf
    | .shakeHanded => s.appTotaStore (totaDecrypt e.cipher pbuf)
    | .disconnected => (s, .fail)
  if status = .ok then { cache := [], calls := s.calls ++ [s.cache] } else s

namespace TotaRx

variable (rx : TotaRx)

/-- The state that `tota_common_init` sets up. -/
def initial : TotaRx :=
  ⟨.initCQueue totaRxBufSize fun _ => 0, ⟨[], []⟩⟩

/-- `tota_rx_queue_length`. -/
def totaRxQueueLength : Nat := rx.rxDataQueue.lengthOfCQueue

/-- `tota_rx_queue_push`, `none` when the queue is full. -/
def totaRxQueuePush (buff : List UInt8) : Option TotaRx :=
  (rx.rxDataQueue.enCQueue (fun i => buff.getD i 0) buff.length).map
    fun q => { rx with rxDataQueue := q }

/-- `tota_rx_queue_peek`, which gives zeros when there are not as many bytes. -/
def totaRxQueuePeek (len : Nat) : List UInt8 :=
  (List.range len).map
    ((rx.rxDataQueue.peekCQueueToBuf (fun _ => 0) len).getD fun _ => 0)

/-- `tota_rx_queue_pop`. -/
def totaRxQueuePop (len : Nat) : Option (TotaRx × List UInt8) :=
  (rx.rxDataQueue.deCQueue (fun _ => 0) len).map
    fun r => ({ rx with rxDataQueue := r.1 }, (List.range len).map r.2)

/-- `tota_rx_queue_deinit`. -/
def totaRxQueueDeinit : TotaRx :=
  { rx with rxDataQueue := .initCQueue totaRxBufSize fun _ => 0 }

/-- `app_tota_rx_unpack`. A length close to 32 bits passes the checks; `none` when the buffer then
holds less than is read. -/
def appTotaRxUnpack (dataLen : Nat) : Option (TotaRx × Int) :=
  let dataLen := if dataLen < maxSppPacketSize then dataLen else maxSppPacketSize
  let verify := rx.totaRxQueuePeek totaPacketBufOffset
  let bufLen := leAt verify 4 4
  if verify.take 4 ≠ totaHead then some (rx.totaRxQueueDeinit, -1)
  else if totaPacketTotalSize bufLen > maxSppPacketSize then some (rx.totaRxQueueDeinit, -2)
  else if totaPacketTotalSize bufLen > dataLen then some (rx, -3)
  else
    match rx.totaRxQueuePop (totaPacketTotalSize bufLen) with
    | none => some (rx.totaRxQueueDeinit, -4)
    | some (rx, tempBuf) =>
      let crc := leAt tempBuf (totaPacketBufOffset + bufLen) 4
      if maxSppPacketSize < bufLen then none
      else if tempBuf.drop (totaPacketBufOffset + bufLen + 4) ≠ totaTail then some (rx, -6)
      else
        let pbuf := (tempBuf.drop totaPacketBufOffset).take bufLen
        if (crc32C 0 pbuf).toNat ≠ crc then some (rx, -7)
        else some ({ rx with store := rx.store.unpacked e pbuf }, 0)

/-- The loop of `s_app_tota_rx`. Every round takes a packet out of the queue or is the last one, so
the number of bytes in the queue bounds the rounds. -/
def unpackLoop : (fuel : Nat) → TotaRx → Option TotaRx
  | 0, rx => some rx
  | fuel + 1, rx =>
    if totaPacketVerifySize < rx.totaRxQueueLength then
      (rx.appTotaRxUnpack e rx.totaRxQueueLength).bind fun r =>
        if r.2 ≠ 0 then some r.1 else unpackLoop fuel r.1
    else some rx

end TotaRx

/-- With `CMT_008_SPP_TOTA_V2`, a chunk of six bytes that starts like a vendor command goes to
`app_tota_vendor_cmd_handler` or nowhere. -/
def Endpoint.TakesAsVendorCmd (cmdBuf : List UInt8) : Prop :=
  e.cmt008 = true ∧ cmdBuf.getD 0 0 = 0x92 ∧ cmdBuf.getD 1 0 = 0x00 ∧ cmdBuf.length = 6

instance (cmdBuf : List UInt8) : Decidable (e.TakesAsVendorCmd cmdBuf) :=
  inferInstanceAs (Decidable (_ ∧ _ ∧ _ ∧ _))

/-- `s_app_tota_rx`, `none` when its assertion fails. -/
def sAppTotaRx (rx : TotaRx) (cmdBuf : List UInt8) : Option TotaRx :=
  if e.TakesAsVendorCmd cmdBuf then some rx
  else (rx.totaRxQueuePush cmdBuf).bind fun rx => rx.unpackLoop e rx.totaRxQueueLength

end EarbudFirmware.Tota
