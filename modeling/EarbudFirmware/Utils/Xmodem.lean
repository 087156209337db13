import EarbudFirmware.Utils.Crc16

/-!
# The XMODEM sender

A stream is collected in a buffer of one packet, which is sent when it is full and when the transfer
is stopped. The sender waits for the answer of the host without a limit: `_inbyte` ignores its
delay, and since it returns a byte that is never negative, the loop that discards input does not
end.

## Main definitions

* `Sender` — the state of the sender, with what has been written and what the host will answer
* `fillPacket`, `sendOnePacket` — a packet is completed, and sent until it is acknowledged
* `sendStream`, `stopXfer` — a call
* `transfer` — calls of `xmodem_send_stream`, followed by `xmodem_stop_xfer`
-/

namespace EarbudFirmware.Xmodem

/-- `SOH`. -/
def soh : UInt8 := 0x01

/-- `EOT`. -/
def eot : UInt8 := 0x04

/-- `ACK`. -/
def ack : UInt8 := 0x06

/-- `NAK`. -/
def nak : UInt8 := 0x15

/-- `CAN`. -/
def can : UInt8 := 0x18

/-- `CTRLZ`. -/
def ctrlz : UInt8 := 0x1A

/-- `MAXRETRANS`. -/
def maxRetrans : Nat := 25

/-- `sizeof(xbuff)`, without `TRANSMIT_XMODEM_1K`. -/
def sizeofXbuff : Nat := 134

/-- `bufsz`, without `TRANSMIT_XMODEM_1K`. -/
def bufsz : Nat := 128

/-- What has been written since the answer before, and the answer. -/
structure Exchange where
  bytes : List UInt8
  answer : UInt8
  deriving DecidableEq

/-- A call that does not come to its end. -/
inductive Stuck where
  /-- an access outside of `xbuff` -/
  | outside
  /-- the sender waits for an answer that does not come, or discards input for ever -/
  | waits
  deriving DecidableEq

/-- The variables of the sender, what it has written since the last answer, all exchanges with the
host, and the answers that the host will still give. -/
structure Sender where
  packetNo : UInt8
  xbuff : List UInt8
  packetSize : Nat
  crcEnabled : Bool
  packetIdx : Nat
  written : List UInt8
  exchanges : List Exchange
  answers : List UInt8
  deriving DecidableEq

namespace Sender

variable (s : Sender)

/-- `_outbyte`, for some bytes. -/
def outbytes (bytes : List UInt8) : Sender := { s with written := s.written ++ bytes }

/-- `_inbyte`. -/
def inbyte : Except Stuck (UInt8 × Sender) :=
  match s.answers with
  | [] => .error .waits
  | c :: answers =>
    .ok (c, { s with
      written := []
      exchanges := s.exchanges ++ [⟨s.written, c⟩]
      answers := answers })

/-- Bytes are stored in `xbuff` from `i` on. -/
def store (i : Nat) (bytes : List UInt8) : Except Stuck Sender :=
  if i + bytes.length ≤ s.xbuff.length then
    .ok { s with xbuff := s.xbuff.take i ++ bytes ++ s.xbuff.drop (i + bytes.length) }
  else .error .outside

end Sender

/-- `flushinput`: what `_inbyte` returns is never negative. -/
def flushinput (_ : Sender) : Except Stuck (Int × Sender) := .error .waits

/-- The end of `xmodem_fill_packet`: the check field behind the payload. -/
def fillCheck (s : Sender) (crc : Bool) : Except Stuck Sender :=
  let payload := (s.xbuff.drop 3).take bufsz
  if crc then
    let ccrc := crc16Ccitt payload
    s.store (bufsz + 3) [(ccrc >>> 8).toUInt8, ccrc.toUInt8]
  else s.store (bufsz + 3) [payload.foldl (· + ·) 0]

/-- `xmodem_fill_packet`, in `xbuff`. -/
def fillPacket (s : Sender) (packetno : UInt8) (len : Nat) (crc : Bool) : Except Stuck Sender := do
  let s ← s.store 0 [soh, packetno, ~~~packetno]
  let s ← (if len < bufsz then s.store (3 + len) (List.replicate bufsz ctrlz) else pure s)
  fillCheck s crc

/-- The tries that are left of `xmodem_send_one_packet`. -/
def sendTries : Nat → Sender → Except Stuck (Int × Sender)
  | 0, s => flushinput (s.outbytes [can, can, can])
  | tries + 1, s => do
    -- `crc` is a variable of the function that is always set
    let (c, s) ← (s.outbytes (s.xbuff.take (bufsz + 4 + 1))).inbyte
    if c = ack then pure (0, s)
    else if c = can then
      let (c, s) ← s.inbyte
      if c = can then flushinput (s.outbytes [ack]) else sendTries tries s
    else sendTries tries s

/-- `xmodem_send_one_packet`. -/
def sendOnePacket (s : Sender) : Except Stuck (Int × Sender) :=
  sendTries maxRetrans { s with packetSize := bufsz }

/-- `hexToASCII`. -/
def hexToASCII (n : UInt8) : UInt8 := if n < 10 then 0x30 + n else 0x37 + n

/-- What `filled_one_payload` puts in the payload. -/
def filledOnePayload (data : List UInt8) (ascii : Bool) : List UInt8 :=
  if ascii then
    data.flatMap fun (c : UInt8) => [hexToASCII (c >>> 4), hexToASCII (c &&& 0x0F)]
  else data

/-- The loop of `xmodem_send_stream`, with the data that are left. -/
def sendLoop (ascii : Bool) : Nat → List UInt8 → Sender → Except Stuck Sender
  | _, [], s => pure s
  | 0, _ :: _, _ => .error .waits
  | fuel + 1, data, s => do
    let packetRoom := s.packetSize - s.packetIdx
    let xfer := min data.length (if ascii then packetRoom / 2 else packetRoom)
    let filled := filledOnePayload (data.take xfer) ascii
    let s ← s.store (3 + s.packetIdx) filled
    if filled.length + s.packetIdx = s.packetSize then
      let s ← fillPacket s s.packetNo 1024 s.crcEnabled
      let (ret, s) ← sendOnePacket s
      let s := if ret = 0 then { s with packetNo := s.packetNo + 1 } else s
      sendLoop ascii fuel (data.drop xfer)
        { s with
          xbuff := List.replicate sizeofXbuff 0
          packetIdx := 0 }
    else
      sendLoop ascii fuel (data.drop xfer) { s with packetIdx := s.packetIdx + filled.length }

/-- `xmodem_send_stream`. The loop takes at least one byte each time. -/
def sendStream (s : Sender) (data : List UInt8) (ascii : Bool) : Except Stuck (Int × Sender) :=
  if ascii = false ∧ data.length % 2 ≠ 0 then pure (-1, s)
  else do
    let s ← sendLoop ascii data.length data s
    pure (data.length, s)

/-- The loop at the end of `xmodem_stop_xfer`. -/
def endTries : Nat → Sender → Except Stuck (Int × Sender)
  | 0, s => flushinput s
  | tries + 1, s => do
    let (c, s) ← (s.outbytes [eot]).inbyte
    if c = ack then pure (0, s) else endTries tries s

/-- `xmodem_stop_xfer`. -/
def stopXfer (s : Sender) : Except Stuck (Int × Sender) := do
  let s ← fillPacket s s.packetNo s.packetIdx s.crcEnabled
  let (ret, s) ← sendOnePacket s
  if ret = 0 then endTries 10 s else pure (ret, s)

/-- A call of `xmodem_send_stream`. -/
structure Call where
  data : List UInt8
  ascii : Bool

/-- The calls of `xmodem_send_stream`, followed by `xmodem_stop_xfer`, with what they return. -/
def transfer (s : Sender) : List Call → Except Stuck (List Int × Sender)
  | [] => do
    let (ret, s) ← stopXfer s
    pure ([ret], s)
  | c :: calls => do
    let (ret, s) ← sendStream s c.data c.ascii
    let (rets, s) ← transfer s calls
    pure (ret :: rets, s)

end EarbudFirmware.Xmodem
