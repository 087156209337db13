import EarbudFirmware.Lib.NorMemory

/-!
# The trace ring

`hal_trace_output_internal` copies messages into a ring, from which a DMA channel hands them to the
UART, with up to two descriptors a transfer. A message that does not fit is counted, and the next
one that does is preceded by a note with the count.

## Main definitions

* `Trace` — `struct HAL_TRACE_BUF_T`, with the registers of the DMA channel
* `Trace.outputInternal` — a message
* `Trace.uartDmaSend`, `Trace.uartXferDone`, `Trace.uartStopDmaSend` — the transfers
* `Trace.getHistoryBuffer` — what was written last
* `Trace.step` — one event, with the bytes that the UART is handed
-/

namespace EarbudFirmware.HalTrace

open NorMemory (Content overlay)

/-- `TRACE_BUF_SIZE`, which an assertion bounds, and `TRACE_CRLF`. -/
structure TraceBuild where
  bufSize : Nat
  crlf : Bool
  bufSize_pos : 0 < bufSize
  bufSize_lt : bufSize < 0x10000

/-- `HAL_DMA_MAX_DESC_XFER_SIZE`. -/
def dmaMaxDescXferSize : Nat := 0xFFF

/-- `max_discards`. -/
def maxDiscards : Nat := 99999

/-! ### The DMA channel -/

/-- `struct HAL_DMA_DESC_T`: a place in the buffer and a number of bytes. -/
structure DmaDesc where
  src : Nat
  tsize : Nat

/-- The registers of the channel: the next byte, the bytes left of the descriptor, the descriptor
behind it, whether the channel is enabled, and a pending interrupt, which may be an error. -/
structure DmaChannel where
  src : Nat
  tsize : Nat
  lli : Option DmaDesc
  enabled : Bool
  irq : Option Bool

namespace DmaChannel

variable (c : DmaChannel)

/-- `hal_dma_sg_start`. -/
def sgStart (first : DmaDesc) (second : Option DmaDesc) : DmaChannel :=
  if c.enabled then c else ⟨first.src, first.tsize, second, true, none⟩

/-- `hal_dma_cancel`. -/
def cancel : DmaChannel :=
  { c with
    enabled := false
    irq := none }

/-- `hal_dma_get_sg_remain_size`. -/
def getSgRemainSize : Nat := c.tsize + (c.lli.map (·.tsize)).getD 0

/-- The channel behind one byte. Behind the last byte of a descriptor the next one is loaded, and
behind the last descriptor the channel is done. -/
def behindByte : DmaChannel :=
  if 1 < c.tsize then
    { c with
      src := c.src + 1
      tsize := c.tsize - 1 }
  else
    match c.lli with
    | some d => ⟨d.src, d.tsize, none, true, none⟩
    | none => ⟨c.src + 1, 0, none, false, some false⟩

end DmaChannel

/-! ### The ring -/

/-- `struct HAL_TRACE_BUF_T`, with the DMA channel. -/
structure Trace where
  buf : Content
  wptr : Nat
  rptr : Nat
  discards : Nat
  sending : Bool
  wrapped : Bool
  pauseCnt : Nat
  sends0 : Nat
  sends1 : Nat
  ch : DmaChannel

namespace TraceBuild

variable (b : TraceBuild)

/-- `wptr` or `rptr` behind `n` more bytes. -/
def advance (p n : Nat) : Nat :=
  if b.bufSize ≤ (p + n) % 0x10000 then (p + n) % 0x10000 - b.bufSize else (p + n) % 0x10000

/-- `NEW_LINE_STR`. -/
def newLineStr : List UInt8 := if b.crlf then [0x0D, 0x0A] else [0x0A]

/-- `discards_prefix`. -/
def discardsPrefix : List UInt8 := b.newLineStr ++ [0x4C, 0x4F, 0x53, 0x54, 0x20]

/-- `sizeof(discards_buf)`. -/
def discardsBufSize : Nat := b.discardsPrefix.length + 7

/-- The lengths of the two descriptors. -/
def sendSizes (wptr rptr : Nat) : Nat × Nat :=
  let s0 := if rptr < wptr then wptr - rptr else b.bufSize - rptr
  let s1 := if rptr < wptr then 0 else if s0 ≤ dmaMaxDescXferSize then wptr else 0
  if dmaMaxDescXferSize < s0 then
    (dmaMaxDescXferSize, min (s0 - dmaMaxDescXferSize) dmaMaxDescXferSize)
  else (s0, min s1 dmaMaxDescXferSize)

end TraceBuild

/-- The digits that the loop of `hal_trace_print_unsigned` stores, the last one first; `digit` has
room for ten. -/
def printDigits : Nat → Nat → List UInt8
  | 0, _ => []
  | room + 1, val =>
    (val % 10 + 0x30).toUInt8 :: if val / 10 = 0 then [] else printDigits room (val / 10)

/-- `hal_trace_print_unsigned`. -/
def printUnsigned (len val : Nat) : List UInt8 := (printDigits 10 val).reverse.take len

/-- What `hal_trace_print_discards` prints. -/
def TraceBuild.discardsNote (b : TraceBuild) (discards : Nat) : List UInt8 :=
  b.discardsPrefix ++ printUnsigned 5 (min discards maxDiscards) ++ b.newLineStr

namespace Trace

variable (b : TraceBuild) (t : Trace)

/-! ### Transfers -/

/-- `hal_trace_uart_dma_send`. -/
def uartDmaSend : Trace :=
  if t.sending = false ∧ t.wptr ≠ t.rptr then
    let sends := b.sendSizes t.wptr t.rptr
    let src := if t.rptr + sends.1 < b.bufSize then t.rptr + sends.1 else 0
    { t with
      sending := true
      sends0 := sends.1
      sends1 := sends.2
      ch := t.ch.sgStart ⟨t.rptr, sends.1⟩ (if sends.2 = 0 then none else some ⟨src, sends.2⟩) }
  else t

/-- The bytes that `hal_trace_uart_xfer_done` takes for sent. -/
def xferSize (remain : Nat) (error : Bool) (lli : Option DmaDesc) : Nat :=
  if error then
    if lli.isSome ∨ t.sends1 = 0 then if remain < t.sends0 then t.sends0 - remain else 0
    else t.sends0 + if remain < t.sends1 then t.sends1 - remain else 0
  else t.sends0 + t.sends1

/-- The transfer is over, and `n` more bytes have been read. -/
def endTransfer (n : Nat) : Trace :=
  { t with
    rptr := b.advance t.rptr n
    sends0 := 0
    sends1 := 0
    sending := false }

/-- `hal_trace_send_internal`. -/
def sendInternal : Trace := if t.pauseCnt = 0 then t.uartDmaSend b else t

/-- `hal_trace_uart_xfer_done`. -/
def uartXferDone (remain : Nat) (error : Bool) (lli : Option DmaDesc) : Trace :=
  (t.endTransfer b (t.xferSize remain error lli)).sendInternal b

/-- `hal_trace_uart_stop_dma_send`. -/
def uartStopDmaSend : Trace :=
  if t.ch.enabled then { t with ch := t.ch.cancel }.endTransfer b t.ch.getSgRemainSize else t

/-- `hal_trace_pause`. -/
def pause : Trace :=
  let t := if t.pauseCnt = 0 then t.uartStopDmaSend b else t
  { t with pauseCnt := if t.pauseCnt = 0xFF then 0xFF else t.pauseCnt + 1 }

/-- `hal_trace_continue`. -/
def resume : Trace :=
  if t.pauseCnt = 0 then t else { t with pauseCnt := t.pauseCnt - 1 }.sendInternal b

/-! ### Messages -/

/-- The copy of `l` to the ring. -/
def copyIn (l : List UInt8) : Trace :=
  let size := min l.length (b.bufSize - t.wptr)
  { t with
    buf := overlay 0 (l.length - size) (fun i => l.getD (size + i) 0)
      (overlay t.wptr size (fun i => l.getD i 0) t.buf)
    wptr := b.advance t.wptr l.length }

/-- The room in the ring. -/
def avail : Nat :=
  if t.rptr ≤ t.wptr then b.bufSize - (t.wptr - t.rptr) - 1 else t.rptr - t.wptr - 1

/-- The room that a message needs. -/
def outLen (msg : List UInt8) : Nat :=
  msg.length + if t.discards = 0 then 0 else b.discardsBufSize

/-- `hal_trace_print_discards`, after which no message counts as discarded. -/
def printDiscards : Trace :=
  if t.discards = 0 then t else { t.copyIn b (b.discardsNote t.discards) with discards := 0 }

/-- The copy of the message, which tells whether the ring has been filled. -/
def copyMessage (msg : List UInt8) : Trace :=
  { t.copyIn b msg with
    wrapped := t.wrapped || decide (b.bufSize ≤ (t.wptr + msg.length) % 0x10000) }

/-- `hal_trace_output_internal`, with its answer. -/
def outputInternal (msg : List UInt8) : Trace × Nat :=
  if t.avail b < t.outLen b msg then
    ({ t with discards := if t.discards < 0xFFFF then t.discards + 1 else t.discards }, 0)
  else (((t.printDiscards b).copyMessage b msg).sendInternal b, msg.length)

/-! ### The history -/

/-- What `hal_trace_get_history_buffer` answers: two places in the buffer and their lengths. -/
structure HistoryBuffer where
  buf1 : Option Nat
  len1 : Nat
  buf2 : Option Nat
  len2 : Nat

/-- `hal_trace_get_history_buffer`. -/
def getHistoryBuffer : HistoryBuffer :=
  if t.wptr < b.bufSize then
    if t.wrapped then ⟨some t.wptr, b.bufSize - t.wptr, some 0, t.wptr⟩
    else ⟨some 0, t.wptr, none, 0⟩
  else ⟨none, 0, none, 0⟩

/-- The bytes that the answer describes. -/
def historyBytes : List UInt8 :=
  let h := t.getHistoryBuffer b
  (List.range h.len1).map (fun i => t.buf (h.buf1.getD 0 + i)) ++
    (List.range h.len2).map (fun i => t.buf (h.buf2.getD 0 + i))

end Trace

/-- What can happen: a message; the channel hands over a byte, or fails; its interrupt is handled;
and the calls that stop, pause and continue the output. -/
inductive TraceEvent where
  | output (msg : List UInt8)
  | move
  | fail
  | irq
  | stop
  | pause
  | resume

/-- One event, with the bytes that the UART is handed, if it can happen. -/
def Trace.step (b : TraceBuild) (t : Trace) : TraceEvent → Option (Trace × List UInt8)
  | .output msg => some ((t.outputInternal b msg).1, [])
  | .move =>
    if t.ch.enabled then some ({ t with ch := t.ch.behindByte }, [t.buf t.ch.src]) else none
  | .fail =>
    if t.ch.enabled then
      some ({ t with ch := { t.ch with
        enabled := false
        irq := some true } }, [])
    else none
  | .irq =>
    t.ch.irq.map fun error =>
      ({ t with ch := { t.ch with irq := none } }.uartXferDone b t.ch.tsize error t.ch.lli, [])
  | .stop => some (t.uartStopDmaSend b, [])
  | .pause => some (t.pause b, [])
  | .resume => some (t.resume b, [])

/-- The trace when it has been opened; the buffer may hold anything. -/
def Trace.opened (buf : Content) : Trace :=
  ⟨buf, 0, 0, 0, false, false, 0, 0, 0, ⟨0, 0, none, false, none⟩⟩

end EarbudFirmware.HalTrace
