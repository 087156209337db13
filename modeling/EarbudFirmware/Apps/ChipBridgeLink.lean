import EarbudFirmware.Lib.Transition
import EarbudFirmware.Apps.ChipBridgeQueue

/-!
# The link of the chip bridge

One chip sends commands and responses, the other one receives them. Commands wait in a mailbox for
`app_chip_bridge_tx_thread`, in buffers of a heap; a response is sent by the thread that calls
`app_chip_bridge_send_rsp`, with its message on the stack. Instant commands are handled when they
arrive, the other packets by `app_chip_bridge_rx_thread`.

## Main definitions

* `BridgeLink` — both sides, and what is between them
* `BridgeLink.step` — one step of one of the threads
* `Message.calls` — the handlers that a message has called
* `Delivers` — what every step keeps
* `Admitted` — the messages that are sent
-/

namespace EarbudFirmware.ChipBridge

open NorMemory (Content)

/-- `APP_CHIP_BRIDGE_MAX_XFER_DATA_SIZE`. -/
def maxXferDataSize : Nat := 516

/-- `APP_CHIP_BRIDGE_RX_THREAD_TMP_BUF_SIZE`. -/
def rxThreadTmpBufSize : Nat := 516

/-- `APP_UART_HEADER_DATA_SIZE`. -/
def uartHeaderDataSize : Nat := 6

/-- `APP_CHIP_BRIDGE_TX_MAILBOX_PARAM_T`, with the bytes of the buffer. It lies in a slot of the
mail pool, or on the stack. -/
structure TxMailboxParam where
  slot : Option Nat
  cmdCode : UInt16
  cmdBuffer : Option Nat
  bytes : List UInt8

/-- What is sent. -/
inductive Message
  | command (cmdcode : UInt16) (pBuff : List UInt8)
  | response (rspCode : UInt16) (pBuff : List UInt8)
  | instant (cmdcode : UInt16) (pBuff : List UInt8)

/-- A handler of an application that has been called, with its arguments. -/
inductive Call
  | command (cmdcode : UInt16) (pBuff : List UInt8)
  | response (rspcode : UInt16) (pBuff : List UInt8)
  | instant (cmdcode : UInt16) (pBuff : List UInt8)

namespace Message

/-- What `app_chip_bridge_send_cmd` sends. -/
def ofCmd (cmdCode : UInt16) (pBuff : List UInt8) : Message :=
  if cmdGroup cmdCode = cmdGroupInstant then .instant cmdCode pBuff else .command cmdCode pBuff

def isInstant : Message → Bool
  | command .. => false
  | response .. => false
  | instant .. => true

/-- The code of the packet. -/
def code : Message → UInt16
  | command cmdcode _ => cmdcode
  | response .. => chipTaskCmdRsp
  | instant cmdcode _ => cmdcode

/-- The content of the packet. -/
def content : Message → List UInt8
  | command _ pBuff => pBuff
  | response rspCode pBuff => rspBuffer rspCode pBuff
  | instant _ pBuff => pBuff

/-- The handler that a message calls, once and with its bytes; a command may have none. -/
def calls (tables : CmdTables) : Message → List Call
  | command cmdcode pBuff =>
    if (tables.getTaskCmdEntry cmdcode).any (·.cmdhandler) then [.command cmdcode pBuff] else []
  | response rspCode pBuff =>
    if (tables.getTaskCmdEntry rspCode).any (·.rspHandle) then [.response rspCode pBuff] else []
  | instant cmdcode pBuff =>
    if (tables.getInstantCmdEntry cmdcode).any (·.cmdhandler) then [.instant cmdcode pBuff] else []

end Message

/-! ### Sending -/

/-- `app_chip_bridge_tx_mailbox_heap_malloc`; `ptr` is the answer of `heap_malloc`. -/
def heapMalloc (size : Nat) (ptr : Option Nat) : Option (Option Nat) :=
  if 0 < size then ptr.map some else some none

/-- `app_chip_bridge_tx_mailbox_heap_free`. -/
def heapFree (heap : List Nat) : Option Nat → List Nat
  | some rmem => heap.erase rmem
  | none => heap

/-- `osMailFree`, which refuses a message that is not in the pool. -/
def mailFree (pool : List Nat) : Option Nat → List Nat
  | some slot => pool.erase slot
  | none => pool

/-- `app_chip_bridge_send_data_without_waiting_rsp`, or `app_chip_bridge_send_data_with_waiting_rsp`
up to its wait: the one whose assertion admits the command. -/
def sendData (tables : CmdTables) (cmdcode cmdseq : UInt16) (pBuff : List UInt8) :
    Option (List UInt8) :=
  (tables.getTaskCmdEntry cmdcode).bind fun _ => transmitData cmdcode cmdseq pBuff

/-- The `chip_bridge_cmd_transmit_handler` of a task command. -/
def cmdTransmitHandler (tables : CmdTables) (e : TaskCmdInstance) (cmdseq : UInt16)
    (pBuff : List UInt8) : Option (List UInt8) :=
  if e.cmdcode = chipTaskCmdRsp then sendCmdRspHandler tables cmdseq pBuff
  else sendData tables e.cmdcode cmdseq pBuff

/-- `app_chip_bridge_tx_thread` with a message: the block for `app_uart_send_data`. -/
def txBlock (tables : CmdTables) (cmdseq : UInt16) (msg : TxMailboxParam) : Option (List UInt8) :=
  if cmdGroup msg.cmdCode = cmdGroupTask then
    (tables.getTaskCmdEntry msg.cmdCode).bind fun e => cmdTransmitHandler tables e cmdseq msg.bytes
  else if cmdGroup msg.cmdCode = cmdGroupInstant then
    (tables.getInstantCmdEntry msg.cmdCode).bind fun _ =>
      sendInstantCmdData msg.cmdCode cmdseq msg.bytes
  else none

/-! ### Receiving -/

/-- The `cmdhandler` of a task command: the handlers of applications that it calls. -/
def cmdHandler (tables : CmdTables) (e : TaskCmdInstance) (pBuff : List UInt8) :
    Option (List Call) :=
  if e.cmdhandler then
    if e.cmdcode = chipTaskCmdRsp then
      (tables.getTaskCmdEntry (rspcode pBuff)).map fun r =>
        if r.rspHandle then [.response (rspcode pBuff) (pBuff.drop 2)] else []
    else some [.command e.cmdcode pBuff]
  else some []

/-- `app_chip_bridge_rx_handler`. -/
def rxHandler (tables : CmdTables) (buff : Content) : Option (List Call) :=
  let cmdcode : UInt16 := .ofNat (le buff 0 2)
  if cmdGroup cmdcode = cmdGroupTask then
    (tables.getTaskCmdEntry cmdcode).bind fun e =>
      cmdHandler tables e ((List.range (le buff 4 2)).map fun i => buff (6 + i))
  else none

/-- The command code of a received block. -/
def blockCode (block : List UInt8) : UInt16 := .ofNat (leAt block 0 2)

/-- Both sides: the messages of the mailbox and those being sent, the buffers and the slots in use,
the blocks on the way, and the receive queue with the thread's buffer. Beside them the messages that
`app_chip_bridge_send_cmd` took and all that were transmitted (with whether they come from the
mailbox), and the handlers called. -/
structure BridgeLink where
  cmdseq : UInt16
  mailbox : List TxMailboxParam
  sending : List TxMailboxParam
  heap : List Nat
  pool : List Nat
  wire : List (List UInt8)
  receiveQueue : CQueue
  rcvTmpBuffer : Content
  requested : List Message
  transmitted : List (Bool × Message)
  taskCalls : List Call
  instantCalls : List Call

/-- The steps: a call of one of the three functions, with the answers of `heap_malloc` and
`osMailAlloc`; the next message of the mailbox, the end of a transmission, the arrival of a block,
and the loop of `app_chip_bridge_rx_thread`. -/
inductive LinkEvent
  | sendCmd (cmdCode : UInt16) (pBuff : List UInt8) (ptr slot : Option Nat)
  | sendRsp (rspCode : UInt16) (pBuff : List UInt8) (ptr : Option Nat)
  | sendInstantCmdData (cmdcode : UInt16) (pBuff : List UInt8)
  | txThread
  | sent (i : Nat)
  | receive
  | rxThread

namespace BridgeLink

variable (tables : CmdTables) (s : BridgeLink)

/-- A block is given to the UART. -/
def transmit (queued : Bool) (m : Message) (block : List UInt8) : BridgeLink :=
  { s with
    cmdseq := s.cmdseq + 1
    wire := s.wire ++ [block]
    transmitted := s.transmitted ++ [(queued, m)] }

/-- `app_chip_bridge_send_cmd`. -/
def sendCmd (cmdCode : UInt16) (pBuff : List UInt8) (ptr slot : Option Nat) : Option BridgeLink :=
  if pBuff.length ≤ maxXferDataSize then
    (heapMalloc pBuff.length ptr).bind fun cmdBuffer =>
      slot.map fun n =>
        { s with
          mailbox := s.mailbox ++ [⟨some n, cmdCode, cmdBuffer, pBuff⟩]
          heap := cmdBuffer.toList ++ s.heap
          pool := n :: s.pool
          requested := s.requested ++ [.ofCmd cmdCode pBuff] }
  else none

/-- `app_chip_bridge_send_rsp`, up to the end of the transmission. -/
def sendRsp (rspCode : UInt16) (pBuff : List UInt8) (ptr : Option Nat) : Option BridgeLink :=
  if pBuff.length + 2 ≤ maxXferDataSize then
    (heapMalloc (pBuff.length + 2) ptr).bind fun cmdBuffer =>
      (tables.getTaskCmdEntry chipTaskCmdRsp).bind fun e =>
        (cmdTransmitHandler tables e s.cmdseq (rspBuffer rspCode pBuff)).map fun block =>
          { s.transmit false (.response rspCode pBuff) block with
            sending := ⟨none, chipTaskCmdRsp, cmdBuffer, rspBuffer rspCode pBuff⟩ :: s.sending
            heap := cmdBuffer.toList ++ s.heap }
  else none

/-- `app_chip_bridge_tx_thread` gets a message and sends it. -/
def txThread : Option BridgeLink :=
  match s.mailbox with
  | msg :: rest =>
    if s.sending.all (·.slot.isNone) then
      (txBlock tables s.cmdseq msg).map fun block =>
        { s.transmit true (.ofCmd msg.cmdCode msg.bytes) block with
          mailbox := rest
          sending := msg :: s.sending }
    else none
  | [] => none

/-- `app_chip_bridge_tx_mailbox_free` behind the transmission of message `i`. -/
def sent (i : Nat) : Option BridgeLink :=
  s.sending[i]?.map fun msg =>
    { s with
      sending := s.sending.eraseIdx i
      heap := heapFree s.heap msg.cmdBuffer
      pool := mailFree s.pool msg.slot }

/-- `app_chip_bridge_data_received` with the next block. -/
def receive : Option BridgeLink :=
  match s.wire with
  | block :: rest =>
    if cmdGroup (blockCode block) = cmdGroupInstant then
      (tables.getInstantCmdEntry (blockCode block)).map fun e =>
        { s with
          wire := rest
          instantCalls := s.instantCalls ++ if e.cmdhandler then
            [.instant (blockCode block) ((block.drop 6).take (leAt block 4 2))] else [] }
    else
      some { s with
        wire := rest
        receiveQueue := queuePush s.receiveQueue block }
  | [] => none

/-- One round of the loop of `app_chip_bridge_rx_thread`. -/
def rxThread : Option BridgeLink :=
  if 0 < s.receiveQueue.lengthOfCQueue then
    let rcvLength := queueGetNextEntryLength s.receiveQueue
    if rcvLength ≤ rxThreadTmpBufSize then
      if 0 < rcvLength then
        let popped := queuePop s.receiveQueue s.rcvTmpBuffer rcvLength
        (rxHandler tables popped.2).map fun calls =>
          { s with
            receiveQueue := popped.1
            rcvTmpBuffer := popped.2
            taskCalls := s.taskCalls ++ calls }
      else some s
    else none
  else none

/-- One step, if it can happen and no assertion fails. -/
def step : LinkEvent → Option BridgeLink
  | .sendCmd cmdCode pBuff ptr slot => s.sendCmd cmdCode pBuff ptr slot
  | .sendRsp rspCode pBuff ptr => s.sendRsp tables rspCode pBuff ptr
  | .sendInstantCmdData cmdcode pBuff =>
    (ChipBridge.sendInstantCmdData cmdcode s.cmdseq pBuff).map
      (s.transmit false (.instant cmdcode pBuff))
  | .txThread => s.txThread tables
  | .sent i => s.sent i
  | .receive => s.receive tables
  | .rxThread => s.rxThread tables

/-- The step can happen: if there is none, an assertion has failed. -/
def Enabled : LinkEvent → Prop
  | .txThread => s.mailbox ≠ [] ∧ s.sending.all (·.slot.isNone) = true
  | .sent i => i < s.sending.length
  | .receive => s.wire ≠ []
  | .rxThread => 0 < s.receiveQueue.lengthOfCQueue
  | _ => True

/-- The handlers that the messages transmitted so far should call, those of instant commands or the
others. -/
def expected (instant : Bool) : List Call :=
  ((s.transmitted.map (·.2)).filter (·.isInstant == instant)).flatMap (Message.calls tables)

/-- The messages that have a buffer or a slot. -/
def held : List TxMailboxParam := s.mailbox ++ s.sending

end BridgeLink

/-- The messages of the mailbox are transmitted in order. The handlers are called in the order of
the transmissions, each once; no call is left out when nothing is on the way. The buffers and slots
in use are those of the messages that have not been sent. -/
structure Intact (tables : CmdTables) (s : BridgeLink) : Prop where
  queued : s.requested = (s.transmitted.filter (·.1)).map (·.2) ++
    s.mailbox.map fun msg => .ofCmd msg.cmdCode msg.bytes
  task : s.taskCalls <+: s.expected tables false
  instant : s.instantCalls <+: s.expected tables true
  whole : s.wire = [] → s.receiveQueue.lengthOfCQueue = 0 →
    s.taskCalls = s.expected tables false ∧ s.instantCalls = s.expected tables true
  heap : s.heap.Perm (s.held.filterMap (·.cmdBuffer))
  pool : s.pool.Perm (s.held.filterMap (·.slot))

/-- What a step keeps: no assertion fails, what is freed is in use, and the packets get through. -/
structure Delivers (tables : CmdTables) (s : BridgeLink) (e : LinkEvent) : Prop where
  assertion : s.Enabled e → (s.step tables e).isSome
  freed : ∀ i msg, e = .sent i → s.sending[i]? = some msg →
    (∀ p, msg.cmdBuffer = some p → p ∈ s.heap) ∧ ∀ n, msg.slot = some n → n ∈ s.pool
  intact : ∀ t, s.step tables e = some t → Intact tables t

/-- A message with a registered code, whose task packet has at most `n` bytes of content. -/
def Sound (tables : CmdTables) (n : Nat) : Message → Prop
  | .command cmdcode pBuff =>
    cmdGroup cmdcode = cmdGroupTask ∧ cmdcode ≠ chipTaskCmdRsp ∧
      (tables.getTaskCmdEntry cmdcode).isSome ∧ pBuff.length ≤ n
  | .response rspCode pBuff =>
    (tables.getTaskCmdEntry chipTaskCmdRsp).any (·.cmdhandler) ∧
      (tables.getTaskCmdEntry rspCode).isSome ∧ pBuff.length + 2 ≤ n
  | .instant cmdcode pBuff =>
    cmdGroup cmdcode = cmdGroupInstant ∧ (tables.getInstantCmdEntry cmdcode).isSome ∧
      pBuff.length ≤ maxDataPacketSize

/-- The first one of the blocks that arrive fits into the queue, if it belongs there. -/
def HasRoom (q : CQueue) : List (List UInt8) → Prop
  | block :: _ => cmdGroup (blockCode block) ≠ cmdGroupInstant →
    block.length + 2 ≤ q.availableOfCQueue
  | [] => True

/-- The messages are sound, there is a buffer and a slot for each, and room in the receive queue for
what arrives. -/
def Admitted (tables : CmdTables) (n : Nat) (s : BridgeLink) : LinkEvent → Prop
  | .sendCmd cmdCode pBuff ptr slot =>
    Sound tables n (.ofCmd cmdCode pBuff) ∧ (0 < pBuff.length → ptr.isSome) ∧ slot.isSome
  | .sendRsp rspCode pBuff ptr => Sound tables n (.response rspCode pBuff) ∧ ptr.isSome
  | .sendInstantCmdData cmdcode pBuff => Sound tables n (.instant cmdcode pBuff)
  | .receive => HasRoom s.receiveQueue s.wire
  | _ => True

end EarbudFirmware.ChipBridge
