import EarbudFirmware.Utils.ByteDeque
import EarbudFirmware.Utils.Bytes

/-!
# Packets of the chip bridge

Two chips exchange packets over a UART. A packet has a command code, a number, the length of its
content, and the content. Commands of the task group are looked up in one table, instant commands in
another one.

## Main definitions

* `CmdTables` — the registered commands
* `dataPacket` — the bytes of a packet
* `transmitData`, `sendInstantCmdData`, `sendCmdRspHandler` — the functions that send packets
* `cmdRspHandler` — what the handler of a response does with the semaphore

## Main results

* `leAt_dataPacket` — the fields of a packet are read back
* `cmdRspHandler_rspBuffer` — a response is looked up under the code it answers
-/

namespace EarbudFirmware.ChipBridge

/-- `APP_CHIP_BRIDGE_MAX_DATA_PACKET_SIZE`. -/
def maxDataPacketSize : Nat := 516

/-- `CHIP_BRIDGE_CMD_GROUP`. -/
def cmdGroup (cmdcode : UInt16) : UInt16 := cmdcode >>> 8

/-- `CHIP_BRIDGE_CMD_GROUP_TASK` and `CHIP_BRIDGE_CMD_GROUP_INSTANT`. -/
def cmdGroupTask : UInt16 := 0

def cmdGroupInstant : UInt16 := 1

/-- `CHIP_TASK_CMD_RSP`. -/
def chipTaskCmdRsp : UInt16 := 0

/-- `app_chip_bridge_task_cmd_instance_t`; a handler is there or not. -/
structure TaskCmdInstance where
  cmdcode : UInt16
  cmdhandler : Bool
  waitRspTimeoutMs : Nat
  waitRspTimeoutHandle : Bool
  rspHandle : Bool

/-- `app_chip_bridge_instant_cmd_instance_t`. -/
structure InstantCmdInstance where
  cmdcode : UInt16
  cmdhandler : Bool

/-- The tables from `__chip_bridge_task_cmd_table_start` and
`__chip_bridge_instant_cmd_table_start` on. -/
structure CmdTables where
  task : List TaskCmdInstance
  instant : List InstantCmdInstance

namespace CmdTables

variable (tables : CmdTables)

/-- `app_chip_bridge_get_task_cmd_entry`; `none` is a failing assertion. -/
def getTaskCmdEntry (cmdcode : UInt16) : Option TaskCmdInstance :=
  tables.task.find? fun e => e.cmdcode = cmdcode

/-- `app_chip_bridge_get_instant_cmd_entry`. -/
def getInstantCmdEntry (cmdcode : UInt16) : Option InstantCmdInstance :=
  tables.instant.find? fun e => e.cmdcode = cmdcode

end CmdTables

/-- The bytes of an `app_chip_bridge_data_packet_t`. -/
def dataPacket (cmdcode cmdseq : UInt16) (content : List UInt8) : List UInt8 :=
  leBytes 2 cmdcode.toNat ++ (leBytes 2 cmdseq.toNat ++ (leBytes 2 content.length ++ content))

/-- `app_chip_bridge_transmit_data`: the block for `app_uart_send_data`. -/
def transmitData (cmdcode cmdseq : UInt16) (pBuff : List UInt8) : Option (List UInt8) :=
  if pBuff.length ≤ maxDataPacketSize then some (dataPacket cmdcode cmdseq pBuff) else none

/-- `app_chip_bridge_send_instant_cmd_data`. -/
def sendInstantCmdData (cmdcode cmdseq : UInt16) (pBuff : List UInt8) : Option (List UInt8) :=
  if pBuff.length ≤ maxDataPacketSize then some (dataPacket cmdcode cmdseq pBuff) else none

/-- The code in front of a response. -/
def rspcode (pBuff : List UInt8) : UInt16 := .ofNat (leAt pBuff 0 2)

/-- `app_chip_bridge_send_cmd_rsp_handler`. -/
def sendCmdRspHandler (tables : CmdTables) (cmdseq : UInt16) (pBuff : List UInt8) :
    Option (List UInt8) :=
  if pBuff.length ≤ maxDataPacketSize then
    (tables.getTaskCmdEntry (rspcode pBuff)).map fun _ => dataPacket chipTaskCmdRsp cmdseq pBuff
  else none

/-- The buffer that `app_chip_bridge_send_rsp` makes. -/
def rspBuffer (rspCode : UInt16) (pBuff : List UInt8) : List UInt8 :=
  leBytes 2 rspCode.toNat ++ pBuff

/-- `app_chip_bridge_cmd_rsp_handler`: whether it releases `app_chip_bridge_wait_cmd_rsp_id`. -/
def cmdRspHandler (tables : CmdTables) (pBuff : List UInt8) : Option Bool :=
  (tables.getTaskCmdEntry (rspcode pBuff)).map fun e => e.rspHandle && 0 < e.waitRspTimeoutMs

/-! ### The fields of a packet -/

variable {cmdcode cmdseq : UInt16} {content pBuff : List UInt8}

@[simp] theorem length_dataPacket :
    (dataPacket cmdcode cmdseq content).length = content.length + 6 := by
  simp only [dataPacket, List.length_append, length_leBytes]
  omega

theorem leAt_dataPacket :
    leAt (dataPacket cmdcode cmdseq content) 0 2 = cmdcode.toNat ∧
      leAt (dataPacket cmdcode cmdseq content) 4 2 = content.length % 0x10000 := by
  have hcode : cmdcode.toNat % 256 ^ 2 = cmdcode.toNat := Nat.mod_eq_of_lt cmdcode.toNat_lt
  refine ⟨leAt_leBytes.trans hcode, ?_⟩
  have hskip : dataPacket cmdcode cmdseq content =
      (leBytes 2 cmdcode.toNat ++ leBytes 2 cmdseq.toNat) ++
        (leBytes 2 content.length ++ content) := by
    simp only [dataPacket, List.append_assoc]
  have hfront : (leBytes 2 cmdcode.toNat ++ leBytes 2 cmdseq.toNat).length = 4 := by
    rw [List.length_append, length_leBytes, length_leBytes]
  rw [hskip, show (4 : Nat) = (leBytes 2 cmdcode.toNat ++ leBytes 2 cmdseq.toNat).length + 0 by
    rw [hfront], leAt_append_right]
  exact leAt_leBytes

theorem drop_dataPacket : (dataPacket cmdcode cmdseq content).drop 6 = content := by
  have hskip : dataPacket cmdcode cmdseq content =
      (leBytes 2 cmdcode.toNat ++ leBytes 2 cmdseq.toNat ++ leBytes 2 content.length) ++
        content := by
    simp only [dataPacket, List.append_assoc]
  rw [hskip, List.drop_left']
  simp only [List.length_append, length_leBytes]

/-- The code of a response is read back. -/
theorem rspcode_rspBuffer (code : UInt16) : rspcode (rspBuffer code pBuff) = code := by
  have hcode : code.toNat % 256 ^ 2 = code.toNat := Nat.mod_eq_of_lt code.toNat_lt
  rw [rspcode, rspBuffer, leAt_leBytes, hcode, UInt16.ofNat_toNat]

theorem cmdRspHandler_rspBuffer (tables : CmdTables) (code : UInt16) :
    cmdRspHandler tables (rspBuffer code pBuff) =
      (tables.getTaskCmdEntry code).map fun e => e.rspHandle && 0 < e.waitRspTimeoutMs := by
  rw [cmdRspHandler, rspcode_rspBuffer]

end EarbudFirmware.ChipBridge
