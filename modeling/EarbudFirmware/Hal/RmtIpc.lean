import Mathlib.Logic.Function.Basic

/-!
# Messages between two cores

`hal_rmt_ipc.c`: a channel from one core to another. The sender has three records. Those of a list
are handed to the other core by one interrupt, and come back by another one; what is sent in the
meantime waits in a second list. The receiver walks through the sender's list, and keeps the rest of
a message that its handler has not taken. The events of both cores are taken one at a time.

## Main definitions

* `Channel` — `struct HAL_RMT_IPC_CH_CFG_T` of both cores, and the interrupt lines between them
* `sendSeq`, `txIrq` — the functions of the sender
* `rxIrq`, `rxDone`, `startRecv`, `stopRecv` — the functions of the receiver
* `Log`, `Event`, `step` — the channel as a transition system, with what went through it
-/

namespace EarbudFirmware.RmtIpc

/-- `HAL_RMT_IPC_MAX_SEND_REC_CNT`. -/
def maxSendRecCnt : Nat := 3

/-- The data of a message; the address zero is a null pointer. -/
structure Buf where
  data : Nat
  len : Nat
  deriving DecidableEq

/-- `struct HAL_RMT_IPC_MSG_T`; a pointer to a send record is its index. -/
structure Msg where
  next : Option Nat
  buf : Buf

/-- The two ends of a channel. The sender's `send_msgs` are given by their fields. Of the interrupt
lines, `sendInd` and `recvDone` are pending, and `rxMask` lets the first one through; the interrupt
controller of the receiver has the channel enabled if `rxEnabled` is set. -/
structure Channel where
  sendMsgList : Option Nat
  sendPendingList : Option Nat
  next : Nat → Option Nat
  buf : Nat → Buf
  inUse : Nat → Bool
  chanBusy : Bool
  recvPendingHead : Msg
  needFlowCtrl : Bool
  rxEnabled : Bool
  rxMask : Bool
  sendInd : Bool
  recvDone : Bool

/-- A channel that `hal_rmt_ipc_open` of both cores leaves. -/
def opened (needFlowCtrl : Bool) : Channel where
  sendMsgList := none
  sendPendingList := none
  next := fun _ => none
  buf := fun _ => ⟨0, 0⟩
  inUse := fun _ => false
  chanBusy := false
  recvPendingHead := ⟨none, ⟨0, 0⟩⟩
  needFlowCtrl
  rxEnabled := false
  rxMask := true
  sendInd := false
  recvDone := false

/-- A record as the message that it holds. -/
def Channel.msg (c : Channel) (i : Nat) : Msg := ⟨c.next i, c.buf i⟩

/-! ### Sending -/

/-- The last message of a list; `none` is a list that is longer than the fuel. -/
def lastOf (next : Nat → Option Nat) : Nat → Nat → Option Nat
  | 0, _ => none
  | fuel + 1, p =>
    match next p with
    | none => some p
    | some q => lastOf next fuel q

/-- A free record takes the message, and joins the list that is open. -/
def Channel.enlist (c : Channel) (i : Nat) (b : Buf) : Option Channel :=
  let c := { c with
    next := Function.update c.next i none
    buf := Function.update c.buf i b
    inUse := Function.update c.inUse i true
    chanBusy := true }
  match c.sendMsgList, c.sendPendingList with
  | none, _ =>
    -- `peer_tx_irq_set`
    some { c with
      sendMsgList := some i
      sendInd := true }
  | some _, none => some { c with sendPendingList := some i }
  | some _, some p =>
    (lastOf c.next maxSendRecCnt p).map fun l =>
      { c with next := Function.update c.next l (some i) }

/-- The first record that is not in use. -/
def Channel.freeRecord (c : Channel) : Option Nat :=
  (List.range maxSendRecCnt).find? fun i => !c.inUse i

/-- `hal_rmt_ipc_send_seq`, with the sequence number it gives; the answer `-1` has none. -/
def sendSeq (c : Channel) (b : Buf) : Option (Channel × Option Nat) :=
  match c.freeRecord with
  | none => some (c, none)
  | some i => (c.enlist i b).map fun c => (c, some i)

/-- What went through a channel: the messages that were accepted, the addresses of the bytes that
the receiver's handler took, and the messages that `tx_irq_handler` was called with. -/
structure Log where
  accepted : List Buf
  taken : List Nat
  reported : List Buf

/-- A message that is sent, with the log. -/
def sendLogged (x : Channel × Log) (b : Buf) : Option (Channel × Log) :=
  (sendSeq x.1 b).map fun t =>
    (t.1, match t.2 with
      | some _ => { x.2 with accepted := x.2.accepted ++ [b] }
      | none => x.2)

/-- The loop of `hal_rmt_ipc_tx_irq_handler_by_id` from the message `p` on. The handler sends the
messages of `sends` when it is called. -/
def txLoop : Nat → Channel × Log → Option Nat → List (List Buf) → Option (Channel × Log)
  | 0, _, _, _ => none
  | _ + 1, x, none, _ => some x
  | fuel + 1, x, some i, sends =>
    let x := (x.1, { x.2 with reported := x.2.reported ++ [x.1.buf i] })
    match (sends.headD []).foldlM sendLogged x with
    | none => none
    | some (c, log) =>
      let c := { c with inUse := Function.update c.inUse i false }
      txLoop fuel (c, log) (c.next i) sends.tail

/-- The end of `hal_rmt_ipc_tx_irq_handler_by_id`: the second list is handed over. -/
def Channel.handOver (c : Channel) : Channel :=
  match c.sendPendingList with
  | some p =>
    { c with
      sendMsgList := some p
      sendPendingList := none
      sendInd := true }
  | none =>
    { c with
      sendMsgList := none
      chanBusy := false }

/-- `hal_rmt_ipc_tx_irq_handler_by_id`. -/
def txIrq (x : Channel × Log) (sends : List (List Buf)) : Option (Channel × Log) :=
  if x.1.recvDone then
    let c := { x.1 with recvDone := false }
    (txLoop (maxSendRecCnt + 1) (c, x.2) c.sendMsgList sends).map fun t => (t.1.handOver, t.2)
  else some x

/-! ### Receiving -/

/-- The addresses of a number of bytes. -/
def Buf.bytes (b : Buf) : List Nat := List.range' b.data b.len

/-- The loop of `hal_rmt_ipc_rx_irq_handler` from a message on, with what the handler answers. It
ends with the rest of a message that was not taken. -/
def rxLoop (c : Channel) : Nat → Option Msg → List Nat → List Nat → Option (List Nat × Option Msg)
  | 0, _, _, _ => none
  | _ + 1, none, _, taken => some (taken, none)
  | fuel + 1, some m, answers, taken =>
    let processed := answers.headD 0
    if processed < m.buf.len then
      some (taken ++ Buf.bytes ⟨m.buf.data, processed⟩,
        some ⟨m.next, ⟨m.buf.data + processed, m.buf.len - processed⟩⟩)
    else rxLoop c fuel (m.next.map c.msg) answers.tail (taken ++ m.buf.bytes)

/-- The callback `rx_done`. -/
def Channel.rxDone (c : Channel) : Channel :=
  { c with
    sendInd := false
    recvDone := true
    rxMask := true }

/-- The end of `hal_rmt_ipc_rx_irq_handler`: the rest of a message is kept, or all was taken. -/
def Channel.leave (c : Channel) : Option Msg → Channel
  | some r => { c with recvPendingHead := r }
  | none =>
    let c := if c.needFlowCtrl then c else c.rxDone
    { c with
      recvPendingHead :=
        { c.recvPendingHead with buf := { c.recvPendingHead.buf with data := 0 } } }

/-- `hal_rmt_ipc_rx_irq_handler`. -/
def rxIrq (x : Channel × Log) (answers : List Nat) : Option (Channel × Log) :=
  if x.1.rxEnabled && x.1.sendInd && x.1.rxMask then
    let c := { x.1 with rxMask := false }
    let m := if c.recvPendingHead.buf.data ≠ 0 then some c.recvPendingHead
      else c.sendMsgList.map c.msg
    (rxLoop c (maxSendRecCnt + 1) m answers x.2.taken).map fun t =>
      (c.leave t.2, { x.2 with taken := t.1 })
  else some x

/-- `hal_rmt_ipc_start_recv`. -/
def startRecv (c : Channel) : Channel :=
  let c := { c with rxEnabled := true }
  if c.recvPendingHead.buf.data ≠ 0 then { c with rxMask := true } else c

/-- `hal_rmt_ipc_stop_recv`. -/
def stopRecv (c : Channel) : Channel := { c with rxEnabled := false }

/-! ### The channel -/

/-- What happens to a channel. -/
inductive Event
  | send (b : Buf)
  | txIrq (sends : List (List Buf))
  | rxIrq (answers : List Nat)
  | rxDone
  | startRecv
  | stopRecv

/-- One event; `none` is a loop that does not end. -/
def step (x : Channel × Log) : Event → Option (Channel × Log)
  | .send b => sendLogged x b
  | .txIrq sends => txIrq x sends
  | .rxIrq answers => rxIrq x answers
  | .rxDone => some (x.1.rxDone, x.2)
  | .startRecv => some (startRecv x.1, x.2)
  | .stopRecv => some (stopRecv x.1, x.2)

/-- A message has an address, if it has bytes. -/
def Buf.Sendable (b : Buf) : Prop := b.data ≠ 0 ∨ b.len = 0

instance (b : Buf) : Decidable b.Sendable := inferInstanceAs (Decidable (_ ∨ _))

/-- Messages have addresses, and the receiver reports a list as done if its interrupt has walked
through it and left that to the user. -/
def Allowed (x : Channel × Log) : Event → Prop
  | .send b => b.Sendable
  | .txIrq sends => ∀ l ∈ sends, ∀ b ∈ l, b.Sendable
  | .rxDone => x.1.sendInd = true ∧ x.1.rxMask = false ∧ x.1.recvPendingHead.buf.data = 0
  | _ => True

instance (x : Channel × Log) : ∀ e, Decidable (Allowed x e)
  | .send b => inferInstanceAs (Decidable b.Sendable)
  | .txIrq sends => inferInstanceAs (Decidable (∀ l ∈ sends, ∀ b ∈ l, b.Sendable))
  | .rxDone => inferInstanceAs (Decidable (_ ∧ _ ∧ _))
  | .rxIrq _ | .startRecv | .stopRecv => isTrue trivial

end EarbudFirmware.RmtIpc
