import Mathlib.Logic.Function.Basic

/-!
# The message queue between two cores

`hal_transq.c`: a bank of registers carries messages from one core to another. A message is put into
a slot, and a bit of the slot interrupts the other core, which clears it behind reading; the
clearing raises a bit of the slot for the sender. The slots of a priority are used as a circle:
those of the normal priority are the first of the bank, and those of the high priority its last. The
functions are those of one bank: the sending core's on its own `transq[id]`, and the receiving
core's on its `peer_transq[id]`.

## Main definitions

* `Bank` — `struct TRANSQ_T`, with what the hardware does on a write
* `Link` — a bank with the static variables of both cores
* `openTx`, `openRx` — `hal_transq_open` of either core
* `tx`, `getTxStatus`, `localIrq`, `rxFirst`, `rxNext`, `getRxStatus`, `remoteIrq` — the functions
-/

namespace EarbudFirmware.Transq

/-- `TRANSQ_SLOT_NUM`. -/
def transqSlotNum : Nat := 32

/-- `enum HAL_TRANSQ_PRI_T`. -/
inductive Pri
  | normal
  | high
  deriving DecidableEq

/-- The members of `enum HAL_TRANSQ_RET_T` that the functions return for a bank that exists. -/
inductive Ret
  | ok
  | badTxNum
  | badRxNum
  | badMode
  | rxEmpty
  | txFull
  deriving DecidableEq

/-- A message: the `ADDR` and the `LEN` of a slot. -/
structure Msg where
  addr : BitVec 32
  len : BitVec 32
  deriving DecidableEq

/-- What is given for no message: a null pointer and no length. -/
def Msg.none : Msg := ⟨0, 0⟩

/-- `1 << slot`; there is no bit behind the last slot. -/
def bit (slot : Nat) : BitVec 32 := 1#32 <<< slot

/-! ### The bank -/

/-- `struct TRANSQ_T`: the masks, the raw interrupts and the slots. -/
structure Bank where
  rmtIntmask : BitVec 32
  rmtRis : BitVec 32
  ldoneIntmask : BitVec 32
  ldoneRis : BitVec 32
  lerrIntmask : BitVec 32
  lerrRis : BitVec 32
  slots : Nat → Msg

namespace Bank

/-- `RMT_MIS`. -/
def rmtMis (b : Bank) : BitVec 32 := b.rmtRis &&& b.rmtIntmask

/-- `LDONE_MIS`. -/
def ldoneMis (b : Bank) : BitVec 32 := b.ldoneRis &&& b.ldoneIntmask

/-- `LERR_MIS`. -/
def lerrMis (b : Bank) : BitVec 32 := b.lerrRis &&& b.lerrIntmask

/-- A write to `RMT_INTSET`. It is an error on a slot that is still active. -/
def rmtIntset (b : Bank) (v : BitVec 32) : Bank :=
  { b with
    lerrRis := b.lerrRis ||| (b.rmtRis &&& v)
    rmtRis := b.rmtRis ||| v }

/-- A write to `RMT_INTCLR`. The active slots that it clears are done. -/
def rmtIntclr (b : Bank) (v : BitVec 32) : Bank :=
  { b with
    ldoneRis := b.ldoneRis ||| (b.rmtRis &&& v)
    rmtRis := b.rmtRis &&& ~~~v }

/-- A write to `LDONE_INTCLR`. -/
def ldoneIntclr (b : Bank) (v : BitVec 32) : Bank := { b with ldoneRis := b.ldoneRis &&& ~~~v }

/-- A write to `LERR_INTCLR`. -/
def lerrIntclr (b : Bank) (v : BitVec 32) : Bank := { b with lerrRis := b.lerrRis &&& ~~~v }

end Bank

/-! ### Opening -/

/-- `construct_mask`. -/
def constructMask (lsb width : Nat) : BitVec 32 :=
  if 32 ≤ lsb ∨ width = 0 then 0
  else (List.range' lsb width).foldl (fun result i => result ||| bit i) 0

/-- `struct HAL_TRANSQ_CFG_T`, with the numbers of slots of `struct HAL_TRANSQ_SLOT_NUM_T`. Of the
handlers it says whether there is one. -/
structure Cfg where
  txNum : Pri → Nat
  rxNum : Pri → Nat
  rxHandler : Bool
  txHandler : Bool

/-- A bank and the static variables of the cores at its ends: the sender's up to `running`, and the
receiver's. -/
structure Link where
  bank : Bank
  txNum : Pri → Nat
  txHandler : Bool
  nextTxSlot : Pri → Nat
  activeTxSlot : Pri → Nat
  txSlotFull : Pri → Bool
  txIrqMask : Pri → BitVec 32
  /-- The priority and the slot with which the interrupt handler is about to call `tx_handler`. -/
  running : Option (Pri × Nat)
  rxNum : Pri → Nat
  rxHandler : Bool
  nextRxSlot : Pri → Nat
  rxIrqMask : Pri → BitVec 32

/-- The first slot of a priority with `num` slots. -/
def firstSlot (num : Nat) : Pri → Nat
  | .normal => 0
  | .high => transqSlotNum - num

/-- The masks of `hal_transq_update_num`. -/
def irqMask (num : Pri → Nat) (pri : Pri) : BitVec 32 :=
  constructMask (firstSlot (num pri) pri) (num pri)

/-- The slot that `hal_transq_open` starts with. -/
def startSlot (num : Pri → Nat) (pri : Pri) : Nat :=
  if num pri ≠ 0 then firstSlot (num pri) pri else transqSlotNum

/-- The checks of `hal_transq_update_num`. -/
def checkNum (cfg : Cfg) : Ret :=
  if transqSlotNum < cfg.txNum .normal + cfg.txNum .high then .badTxNum
  else if transqSlotNum < cfg.rxNum .normal + cfg.rxNum .high then .badRxNum
  else .ok

/-- `hal_transq_open` of the sending core, for its own bank. -/
def openTx (cfg : Cfg) (s : Link) : Link × Ret :=
  match checkNum cfg with
  | .ok =>
    let txMask := irqMask cfg.txNum .normal ||| irqMask cfg.txNum .high
    let bank := { s.bank with
      rmtIntmask := txMask
      lerrIntmask := txMask
      ldoneIntmask := if cfg.txHandler then txMask else 0 }
    ({ s with
      bank := ((bank.rmtIntclr (~~~0)).ldoneIntclr (~~~0)).lerrIntclr (~~~0)
      txNum := cfg.txNum
      txHandler := cfg.txHandler
      nextTxSlot := startSlot cfg.txNum
      activeTxSlot := fun _ => transqSlotNum
      txSlotFull := fun _ => false
      txIrqMask := irqMask cfg.txNum
      running := none }, .ok)
  | ret => (s, ret)

/-- `hal_transq_open` of the receiving core: what it sets up for the bank of its peer. -/
def openRx (cfg : Cfg) (s : Link) : Link × Ret :=
  match checkNum cfg with
  | .ok =>
    ({ s with
      rxNum := cfg.rxNum
      rxHandler := cfg.rxHandler
      nextRxSlot := startSlot cfg.rxNum
      rxIrqMask := irqMask cfg.rxNum }, .ok)
  | ret => (s, ret)

/-! ### Sending -/

/-- `get_next_tx_slot` and `get_next_rx_slot`, for a priority with `num` slots. -/
def getNextSlot (num : Nat) (pri : Pri) (slot : Nat) : Nat :=
  match pri with
  | .high => if transqSlotNum ≤ slot + 1 then transqSlotNum - num else slot + 1
  | .normal => if num ≤ slot + 1 then 0 else slot + 1

/-- `hal_transq_tx`. -/
def tx (s : Link) (pri : Pri) (msg : Msg) : Link × Ret :=
  if s.txNum pri = 0 then (s, .badTxNum)
  else if s.txSlotFull pri then (s, .txFull)
  else
    let slot := s.nextTxSlot pri
    let bank := { s.bank with slots := Function.update s.bank.slots slot msg }
    let active := if transqSlotNum ≤ s.activeTxSlot pri then slot else s.activeTxSlot pri
    let next := getNextSlot (s.txNum pri) pri slot
    ({ s with
      bank := bank.rmtIntset (bit slot)
      activeTxSlot := Function.update s.activeTxSlot pri active
      nextTxSlot := Function.update s.nextTxSlot pri next
      txSlotFull :=
        if next = active then Function.update s.txSlotFull pri true else s.txSlotFull }, .ok)

/-- `hal_transq_active_tx_valid`. -/
def activeTxValid (s : Link) (pri : Pri) : Bool :=
  transqSlotNum ≤ s.activeTxSlot pri || s.activeTxSlot pri ≠ s.nextTxSlot pri || s.txSlotFull pri

/-- What `hal_transq_get_tx_status` and `hal_transq_local_irq_handler` do for a slot that is done:
clear its interrupt and go on to the next slot. -/
def txDone (s : Link) (pri : Pri) (slot : Nat) : Link :=
  let bank := s.bank.ldoneIntclr (bit slot)
  let next := getNextSlot (s.txNum pri) pri slot
  if !s.txSlotFull pri && next = s.nextTxSlot pri then
    { s with
      bank
      activeTxSlot := Function.update s.activeTxSlot pri transqSlotNum }
  else
    { s with
      bank
      txSlotFull := Function.update s.txSlotFull pri false
      activeTxSlot := Function.update s.activeTxSlot pri
        (if s.txNum pri = 1 then transqSlotNum else next) }

/-- `hal_transq_get_tx_status`; `none` is a failing assertion. -/
def getTxStatus (s : Link) (pri : Pri) : Option (Link × Ret × Bool) :=
  if s.txNum pri = 0 then some (s, .badTxNum, false)
  else if s.txHandler then some (s, .badMode, false)
  else if !activeTxValid s pri then none
  else
    let slot := s.activeTxSlot pri
    if s.bank.ldoneRis &&& bit slot ≠ 0 then some (txDone s pri slot, .ok, true)
    else some (s, .ok, false)

/-- The priority whose interrupt a handler takes from a status; `none` is a corrupted mask. -/
def priorityOf (status : BitVec 32) (mask : Pri → BitVec 32) : Option Pri :=
  if status &&& mask .high ≠ 0 then some .high
  else if status &&& mask .normal ≠ 0 then some .normal
  else none

/-- `hal_transq_local_irq_handler` up to the call of `tx_handler`, for one interrupt; `none` is a
failing assertion. The priority of the answer is that of the call to come. -/
def localIrq (s : Link) : Option (Link × Option Pri) :=
  if s.bank.lerrMis ≠ 0 then none
  else if s.bank.ldoneMis = 0 then some (s, none)
  else if s.txHandler then
    if !activeTxValid s .high || !activeTxValid s .normal then none
    else
      match priorityOf s.bank.ldoneMis s.txIrqMask with
      | none => none
      | some pri =>
        let slot := s.activeTxSlot pri
        if slot < transqSlotNum ∧ s.bank.ldoneMis &&& bit slot ≠ 0 then
          some ({ txDone s pri slot with running := some (pri, slot) }, some pri)
        else none
  else some ({ s with bank := { s.bank with ldoneIntmask := 0 } }, none)

/-- The call of `tx_handler` that ends an iteration of `hal_transq_local_irq_handler`: the slot is
read behind `int_unlock`. -/
def callTxHandler (s : Link) : Link × Option (Pri × Msg) :=
  match s.running with
  | none => (s, none)
  | some (pri, slot) => ({ s with running := none }, some (pri, s.bank.slots slot))

/-! ### Receiving -/

/-- Whether there is a message in the slot. -/
def available (s : Link) (slot : Nat) : Bool :=
  slot < transqSlotNum && s.bank.rmtRis &&& bit slot ≠ 0

/-- The interrupts of a priority are enabled again. -/
def enableIrq (s : Link) (pri : Pri) : Link :=
  { s with bank := { s.bank with rmtIntmask := s.bank.rmtIntmask ||| s.rxIrqMask pri } }

/-- `hal_transq_rx_first`. -/
def rxFirst (s : Link) (pri : Pri) : Link × Ret × Msg :=
  if s.rxNum pri = 0 then (s, .badRxNum, .none)
  else
    let slot := s.nextRxSlot pri
    if available s slot then (s, .ok, s.bank.slots slot)
    else (enableIrq s pri, .rxEmpty, .none)

/-- `hal_transq_rx_next`. -/
def rxNext (s : Link) (pri : Pri) : Link × Ret × Msg :=
  if s.rxNum pri = 0 then (s, .badRxNum, .none)
  else
    let slot := s.nextRxSlot pri
    if available s slot then
      let next := getNextSlot (s.rxNum pri) pri slot
      let s := { s with
        bank := s.bank.rmtIntclr (bit slot)
        nextRxSlot := Function.update s.nextRxSlot pri next }
      if available s next then (s, .ok, s.bank.slots next)
      else (enableIrq s pri, .rxEmpty, .none)
    else (enableIrq s pri, .rxEmpty, .none)

/-- `hal_transq_get_rx_status`. -/
def getRxStatus (s : Link) (pri : Pri) : Ret × Bool :=
  if s.rxNum pri = 0 then (.badRxNum, false)
  else if s.rxHandler then (.badMode, false)
  else (.ok, available s (s.nextRxSlot pri))

/-- `hal_transq_remote_irq_handler` up to the call of `rx_handler`, for one interrupt; `none` is a
failing assertion. The priority of the answer is that of the call. The vector is set only for a
core with a handler. -/
def remoteIrq (s : Link) : Option (Link × Option Pri) :=
  if !s.rxHandler || s.bank.rmtMis = 0 then some (s, none)
  else
    match priorityOf s.bank.rmtMis s.rxIrqMask with
    | none => none
    | some pri =>
      let slot := s.nextRxSlot pri
      if slot < transqSlotNum ∧ s.bank.rmtMis &&& bit slot ≠ 0 then
        let bank := { s.bank with rmtIntmask := s.bank.rmtIntmask &&& ~~~s.rxIrqMask pri }
        some ({ s with bank }, some pri)
      else none

end EarbudFirmware.Transq
