import EarbudFirmware.Lib.Transition
import EarbudFirmware.Utils.Bytes

/-!
# The receive ring of the UART

The DMA writes each reception behind the last one, until one reaches position 640; it may go on into
the margin behind it, and the next one begins at 0. The length of that margin is kept beside the
number of bytes in the ring. A thread hands the bytes out, with copies of both numbers that it reads
before and after each block.

## Main definitions

* `UartDataBufEnv` — `UART_DATA_BUF_ENV_T`
* `uartDmaRx` — a reception
* `UartSystem.step` — one step of the DMA or of the thread
* `Delivers` — the stream keeps its order, and the ring its bounds
* `InTime` — the receptions after which it does

## Main results

* `delivers_along` — along runs of such receptions every byte is handed out once and in order
* `not_delivers` — runs along which it is not
-/

namespace EarbudFirmware.UartDma

open NorMemory (Content overlay InRange)
open Transition

/-- `UART_BUF_SIZE_IN_BYTES`. -/
def uartBufSize : Nat := 640

/-- `UART_BUF_SIZE_MARGIN_IN_BYTES`. -/
def uartBufSizeMargin : Nat := 512

/-- `UART_REC_CHUNK_SIZE`. -/
def uartRecChunkSize : Nat := uartBufSizeMargin + uartBufSize

/-- `UART_DATA_BUF_ENV_T`. -/
structure UartDataBufEnv where
  inputCursor : Nat
  outputCursor : Nat
  bytesInBuffer : Nat
  bytesInMarginBuffer : Nat
  uartBuf : Content

/-- The difference of two `uint32_t`. -/
def sub32 (a b : Nat) : Nat := (a + 0x100000000 - b) % 0x100000000

namespace UartDataBufEnv

variable (env : UartDataBufEnv)

/-- `uart_dma_rx` without errors, behind the DMA, which has written `data`; `none` is a failing
assertion. -/
def uartDmaRx (data : List UInt8) : Option UartDataBufEnv :=
  let env' := { env with
    bytesInBuffer := (env.bytesInBuffer + data.length) % 0x100000000
    uartBuf := overlay env.inputCursor data.length (fun i => data.getD i 0) env.uartBuf }
  let endIndexInBuffer := env.inputCursor + data.length
  if uartBufSize ≤ endIndexInBuffer then
    if env.bytesInMarginBuffer = 0 then
      some { env' with
        inputCursor := 0
        bytesInMarginBuffer := endIndexInBuffer - uartBufSize }
    else none
  else some { env' with inputCursor := endIndexInBuffer }

/-- The length and the end of the block that `app_uart_dma_thread` hands out, from its copies of the
two numbers. -/
def block (bytesInBuffer bytesInMarginBuffer : Nat) : Nat × Nat :=
  let endIndexInBuffer := (env.outputCursor + bytesInBuffer) % 0x100000000
  let endIndex := uartBufSize + bytesInMarginBuffer
  if 0 < bytesInMarginBuffer ∧ endIndexInBuffer ≠ endIndex then
    (sub32 endIndex env.outputCursor, endIndex)
  else (bytesInBuffer, endIndexInBuffer)

/-- The locked update of `app_uart_dma_thread`. -/
def update (bytesInBuffer endIndexInBuffer bytesInMarginBuffer : Nat) : UartDataBufEnv :=
  { env with
    outputCursor := if uartBufSize ≤ endIndexInBuffer then 0 else endIndexInBuffer
    bytesInBuffer := sub32 env.bytesInBuffer bytesInBuffer
    bytesInMarginBuffer :=
      if 0 < bytesInMarginBuffer then sub32 env.bytesInMarginBuffer bytesInMarginBuffer
      else env.bytesInMarginBuffer }

end UartDataBufEnv

/-- Where `app_uart_dma_thread` is: it waits for the signal, has it and will read the numbers, is in
front of the callback, or behind it, with its copies. -/
inductive UartThread
  | waiting
  | woken
  | reading (bytesInBuffer bytesInMarginBuffer : Nat)
  | handing (bytesInBuffer endIndexInBuffer bytesInMarginBuffer : Nat)
  deriving DecidableEq

/-- The copy of `bytesInBuffer`, later the length of the block. -/
def UartThread.bytes : UartThread → Nat
  | .waiting => 0
  | .woken => 0
  | .reading bytesInBuffer _ => bytesInBuffer
  | .handing bytesInBuffer _ _ => bytesInBuffer

/-- The condition of the loop. -/
def UartThread.enter (bytesInBuffer bytesInMarginBuffer : Nat) : UartThread :=
  if 0 < bytesInBuffer then .reading bytesInBuffer bytesInMarginBuffer else .waiting

/-- The ring, the signal and the thread; the positions of the bytes that have not been handed out,
the bytes received and those given to `data_receiver_callback`. -/
structure UartSystem where
  env : UartDataBufEnv
  signal : Bool
  thread : UartThread
  unread : List Nat
  received : List UInt8
  handed : List UInt8

/-- The steps. -/
inductive UartEvent
  | receive (data : List UInt8)
  | wake
  | snapshot
  | callback
  | update

namespace UartSystem

variable (s : UartSystem)

/-- The thread calls `data_receiver_callback` with a block. -/
def handOut (bytesInBuffer bytesInMarginBuffer : Nat) : UartSystem :=
  let b := s.env.block bytesInBuffer bytesInMarginBuffer
  { s with
    thread := .handing b.1 b.2 bytesInMarginBuffer
    handed := s.handed ++ (List.range b.1).map fun i => s.env.uartBuf (s.env.outputCursor + i)
    unread := s.unread.drop b.1 }

/-- One step, if it can happen and no assertion fails. -/
def step : UartEvent → Option UartSystem
  | .receive data =>
    (s.env.uartDmaRx data).map fun env =>
      { s with
        env
        signal := true
        unread := s.unread ++ List.range' s.env.inputCursor data.length
        received := s.received ++ data }
  | .wake =>
    match s.thread with
    | .waiting =>
      if s.signal then
        some { s with
          thread := .woken
          signal := false }
      else none
    | _ => none
  | .snapshot =>
    match s.thread with
    | .woken =>
      some { s with thread := .enter s.env.bytesInBuffer s.env.bytesInMarginBuffer }
    | _ => none
  | .callback =>
    match s.thread with
    | .reading bytesInBuffer bytesInMarginBuffer =>
      some (s.handOut bytesInBuffer bytesInMarginBuffer)
    | _ => none
  | .update =>
    match s.thread with
    | .handing bytesInBuffer endIndexInBuffer bytesInMarginBuffer =>
      let env := s.env.update bytesInBuffer endIndexInBuffer bytesInMarginBuffer
      some { s with
        env
        thread := .enter env.bytesInBuffer
          (if 0 < bytesInMarginBuffer then env.bytesInMarginBuffer else 0) }
    | _ => none

end UartSystem

/-- The bytes handed out are the first ones received, and all of them when the thread has nothing
left to do. -/
structure InOrder (s : UartSystem) : Prop where
  isPrefix : s.handed <+: s.received
  whole : s.thread = .waiting → s.signal = false → s.handed = s.received

/-- What a step keeps: the stream, no failing assertion, blocks inside `uart_buf`, and
`bytesInBuffer`, which does not underflow. -/
structure Delivers (s : UartSystem) (e : UartEvent) : Prop where
  inOrder : ∀ t, s.step e = some t → InOrder t
  assertion : ∀ data, e = .receive data → (s.env.uartDmaRx data).isSome
  inside : ∀ n m, e = .callback → s.thread = .reading n m →
    s.env.outputCursor + (s.env.block n m).1 ≤ uartRecChunkSize
  noUnderflow : ∀ n i m, e = .update → s.thread = .handing n i m → n ≤ s.env.bytesInBuffer

/-- A reception has 1 to 512 bytes and writes over none that has not been handed out. -/
def Legal (s : UartSystem) : UartEvent → Prop
  | .receive data =>
    (0 < data.length ∧ data.length ≤ uartBufSizeMargin) ∧
      ∀ p ∈ s.unread, ¬InRange s.env.inputCursor data.length p
  | _ => True

/-- The receptions of the runs that keep the stream. Position 640 is crossed only while the thread
has no copies; while it has, it is at most reached, and that by the bytes behind those the thread
has not handed out. Behind a reception that ends at 640 there is none before the thread has read
`bytesInBuffer`. -/
def InTime (s : UartSystem) : UartEvent → Prop
  | .receive data =>
    Legal s (.receive data) ∧
    (uartBufSize ≤ s.env.inputCursor + data.length →
      s.thread = .waiting ∨ s.thread = .woken ∨
        s.env.inputCursor + data.length = uartBufSize ∧
          s.env.outputCursor + s.env.bytesInBuffer = s.env.inputCursor) ∧
    (s.env.inputCursor = 0 → s.env.bytesInMarginBuffer = 0 →
      s.env.bytesInBuffer = s.thread.bytes)
  | _ => True

/-! ### The bytes of the ring -/

/-- The positions of the bytes that have not been handed out, `k` bytes behind the output cursor
`r`: they end at the input cursor `w`, or at the end of the margin `m` and from 0 up to `w`. A block
of `l` bytes fits them: it is `k` bytes long, or has not been handed out. -/
inductive Ring (r w n m k l : Nat) : List Nat → Prop
  | same (hn : r + n = w) (hw : w < uartBufSize) (hm : m = 0) (hl : l ≤ n) (hk : k = 0 ∨ k = l) :
    Ring r w n m k l (List.range' (r + k) (n - k))
  | next (hr : r < uartBufSize) (hw : w < uartBufSize) (hm : m < uartBufSizeMargin)
    (hn : r + n = uartBufSize + m + w) (hk : k = 0 ∨ k = l)
    (hl : r + l = uartBufSize + m ∨ m = 0 ∧ w = 0 ∧ r + l ≤ uartBufSize)
    (hroom : w ≤ r ∨ r + k = uartBufSize + m) :
    Ring r w n m k l
      (List.range' (r + k) (uartBufSize + m - (r + k)) ++ List.range' 0 w)

namespace Ring

variable {r w n m k l c : Nat} {unread : List Nat}

theorem le (h : Ring r w n m k l unread) : l ≤ n := by
  cases h with
  | same hn hw hm hl hk => exact hl
  | next hr hw hm hn hk hl hroom => omega

theorem inside (h : Ring r w n m k l unread) : r + l ≤ uartRecChunkSize := by
  cases h with
  | same hn hw hm hl hk => unfold uartRecChunkSize; omega
  | next hr hw hm hn hk hl hroom => unfold uartRecChunkSize; omega

/-- The cursors and the numbers stay far below the bounds of their types. -/
theorem lt (h : Ring r w n m k l unread) :
    r < uartBufSize ∧ w < uartBufSize ∧ n < 0x1000 ∧ m < uartBufSizeMargin := by
  cases h with
  | same hn hw hm hl hk => unfold uartBufSize uartBufSizeMargin at *; omega
  | next hr hw hm hn hk hl hroom => unfold uartBufSize uartBufSizeMargin at *; omega

theorem eq_nil (h : Ring r w 0 m 0 l unread) : unread = [] := by
  cases h with
  | same hn hw hm hl hk => rfl
  | next hr hw hm hn hk hl hroom => omega

/-- A block is handed out. -/
theorem handOut (h : Ring r w n m 0 l unread) :
    Ring r w n m l l (unread.drop l) ∧ unread.take l = List.range' r l := by
  cases h with
  | same hn hw hm hl hk =>
    rw [Nat.add_zero, Nat.sub_zero, List.drop_range', List.take_range'_of_length_ge hl, Nat.mul_one]
    exact ⟨.same hn hw hm hl (.inr rfl), rfl⟩
  | next hr hw hm hn hk hl hroom =>
    have hle : l ≤ uartBufSize + m - r := by omega
    rw [Nat.add_zero, List.drop_append_of_le_length (by rw [List.length_range']; exact hle),
      List.take_append_of_le_length (by rw [List.length_range']; exact hle), List.drop_range',
      List.take_range'_of_length_ge hle, Nat.mul_one, Nat.sub_sub]
    exact ⟨.next hr hw hm hn (.inr rfl) hl (by omega), rfl⟩

/-- A reception ends in front of position 640. -/
theorem receive (h : Ring r w n m k l unread) (hc : 0 < c) (hwc : w + c < uartBufSize)
    (hfree : ∀ p ∈ unread, ¬InRange w c p) {l' : Nat} (hk : k = 0 ∨ k = l')
    (hsame : m = 0 → l' ≤ n + c)
    (hnext : r < uartBufSize → r + n = uartBufSize + m + w →
      r + l = uartBufSize + m ∨ m = 0 ∧ w = 0 → r + l' = uartBufSize + m) :
    Ring r (w + c) (n + c) m k l' (unread ++ List.range' w c) := by
  cases h with
  | same hn hw hm hl hk' =>
    have hend : w = r + k + 1 * (n - k) := by omega
    have hnew : n - k + c = n + c - k := by omega
    rw [hend, List.range'_append, ← hend, hnew]
    exact .same (by omega) hwc hm (hsame hm) hk
  | next hr hw hm hn hk' hl hroom =>
    have hend : r + l' = uartBufSize + m :=
      hnext hr hn (hl.imp_right fun hl => ⟨hl.1, hl.2.1⟩)
    have hroom' : w + c ≤ r ∨ r + k = uartBufSize + m := by
      -- unless the block ends the lap, the byte at the output cursor has not been handed out
      by_contra hne
      refine hfree r (List.mem_append_left _ (List.mem_range'_1.mpr ?_)) ?_
      · omega
      · unfold InRange
        omega
    have happend : List.range' 0 w ++ List.range' w c = List.range' 0 (w + c) := by
      have := @List.range'_append 0 w c 1
      rwa [Nat.zero_add, Nat.one_mul] at this
    rw [List.append_assoc, happend]
    exact .next hr hwc hm (by omega) hk (.inl hend) hroom'

/-- A reception behind the bytes of one lap reaches position 640. -/
theorem wrap (h : Ring r w n m k l unread) (hsame : r + n = w) (hc : c ≤ uartBufSizeMargin)
    (hwc : uartBufSize ≤ w + c) {l' : Nat} (hk : k = 0 ∨ k = l')
    (hl : r + l' = w + c ∨ w + c = uartBufSize ∧ l' ≤ n) :
    Ring r 0 (n + c) (w + c - uartBufSize) k l' (unread ++ List.range' w c) := by
  cases h with
  | same hn hw hm hle hk' =>
    have hend : w = r + k + 1 * (n - k) := by omega
    have hnew : n - k + c = uartBufSize + (w + c - uartBufSize) - (r + k) := by omega
    rw [hend, List.range'_append, ← hend, hnew, ← List.append_nil (List.range' _ _)]
    exact .next (by omega) (by decide) (by unfold uartBufSizeMargin at *; omega) (by omega) hk
      (by omega) (.inl (Nat.zero_le r))
  | next hr hw hm hn hk' hle hroom => omega

/-- The block has been handed out. -/
theorem update (h : Ring r w n m l l unread) :
    Ring (if uartBufSize ≤ r + l then 0 else r + l) w (n - l) 0 0 (n - l) unread := by
  cases h with
  | same hn hw hm hl hk =>
    rw [if_neg (by omega)]
    exact .same (by omega) hw rfl le_rfl (.inl rfl)
  | next hr hw hm hn hk hl hroom =>
    by_cases hlap : r + l = uartBufSize + m
    · rw [if_pos (by omega), hlap, Nat.sub_self, List.range'_zero, List.nil_append]
      have hn' : n - l = w := by omega
      rw [hn']
      exact .same (Nat.zero_add w) hw rfl le_rfl (.inl rfl)
    · obtain ⟨rfl, rfl, hle⟩ : m = 0 ∧ w = 0 ∧ r + l ≤ uartBufSize := hl.resolve_left hlap
      rw [if_neg (by omega)]
      exact .next (by omega) hw hm (by omega) (.inl rfl) (by omega) (.inl (Nat.zero_le _))

end Ring

/-! ### The thread and the ring -/

/-- The length of the block from the output cursor `r` on, for copies `n` and `m`. -/
def blockLength (r n m : Nat) : Nat := if 0 < m then uartBufSize + m - r else n

namespace UartDataBufEnv

variable {env : UartDataBufEnv} {n m : Nat} {data : List UInt8}

theorem block_eq (hr : env.outputCursor < uartBufSize) (hn : n < 0x1000)
    (hm : m < uartBufSizeMargin) :
    env.block n m = (blockLength env.outputCursor n m,
      env.outputCursor + blockLength env.outputCursor n m) := by
  unfold block blockLength sub32
  unfold uartBufSize uartBufSizeMargin at *
  dsimp only
  have hmod : (env.outputCursor + n) % 0x100000000 = env.outputCursor + n :=
    Nat.mod_eq_of_lt (by omega)
  rw [hmod]
  by_cases hmargin : 0 < m
  · rw [if_pos hmargin]
    split
    · exact Prod.ext (by dsimp only; omega) (by dsimp only; omega)
    · exact Prod.ext (by dsimp only; omega) (by dsimp only; omega)
  · rw [if_neg hmargin, if_neg fun h => hmargin h.1]

theorem uartDmaRx_of_lt (hlt : env.inputCursor + data.length < uartBufSize)
    (hn : env.bytesInBuffer + data.length < 0x100000000) :
    env.uartDmaRx data = some { env with
      inputCursor := env.inputCursor + data.length
      bytesInBuffer := env.bytesInBuffer + data.length
      uartBuf := overlay env.inputCursor data.length (fun i => data.getD i 0) env.uartBuf } := by
  unfold uartDmaRx
  dsimp only
  rw [if_neg (Nat.not_le.mpr hlt), Nat.mod_eq_of_lt hn]

theorem uartDmaRx_of_le (hle : uartBufSize ≤ env.inputCursor + data.length)
    (hm : env.bytesInMarginBuffer = 0) (hn : env.bytesInBuffer + data.length < 0x100000000) :
    env.uartDmaRx data = some { env with
      inputCursor := 0
      bytesInBuffer := env.bytesInBuffer + data.length
      bytesInMarginBuffer := env.inputCursor + data.length - uartBufSize
      uartBuf := overlay env.inputCursor data.length (fun i => data.getD i 0) env.uartBuf } := by
  unfold uartDmaRx
  dsimp only
  rw [if_pos hle, if_pos hm, Nat.mod_eq_of_lt hn]

end UartDataBufEnv

namespace UartThread

/-- How many bytes of the block have been handed out, and its length; while the thread has no
copies, the block is the one that it would hand out. -/
def begun (env : UartDataBufEnv) : UartThread → Nat × Nat
  | .waiting => (0, blockLength env.outputCursor env.bytesInBuffer env.bytesInMarginBuffer)
  | .woken => (0, blockLength env.outputCursor env.bytesInBuffer env.bytesInMarginBuffer)
  | .reading n m => (0, blockLength env.outputCursor n m)
  | .handing n _ _ => (n, n)

/-- The copies of the thread are what they were, but for the bytes received since. -/
def Copies (env : UartDataBufEnv) : UartThread → Prop
  | .waiting => True
  | .woken => True
  | .reading n m => n ≤ env.bytesInBuffer ∧ m = env.bytesInMarginBuffer
  | .handing n i m => i = env.outputCursor + n ∧ m = env.bytesInMarginBuffer

end UartThread

/-- The bytes received are those handed out and those of the ring; a thread that waits without a
signal has left none there. -/
structure Inv (s : UartSystem) : Prop where
  content : s.received = s.handed ++ s.unread.map s.env.uartBuf
  ring : Ring s.env.outputCursor s.env.inputCursor s.env.bytesInBuffer s.env.bytesInMarginBuffer
    (s.thread.begun s.env).1 (s.thread.begun s.env).2 s.unread
  copies : s.thread.Copies s.env
  quiet : s.thread = .waiting → s.signal = false → s.env.bytesInBuffer = 0

/-! ### A reception -/

section Receive

variable {env : UartDataBufEnv} {unread : List Nat} {k l c : Nat}

/-- The bytes of one lap are in front of the input cursor, and the margin is empty. -/
theorem Ring.margin_eq_zero {r w n m : Nat} (h : Ring r w n m k l unread) (hsame : r + n = w) :
    m = 0 := by
  cases h with
  | same hn hw hm hl hk => exact hm
  | next hr hw hm hn hk hl hroom => omega

/-- A reception that reaches position 640 does not run into the next lap. -/
theorem Ring.same_of_reach {r w n m : Nat} (h : Ring r w n m 0 l unread)
    (hfree : ∀ p ∈ unread, ¬InRange w c p) (hwc : uartBufSize ≤ w + c) : r + n = w := by
  cases h with
  | same hn hw hm hl hk => exact hn
  | next hr hw hm hn hk hl hroom =>
    refine absurd ?_ (hfree r (List.mem_append_left _ (List.mem_range'_1.mpr ?_)))
    · unfold InRange
      omega
    · omega

theorem Ring.receive_idle
    (h : Ring env.outputCursor env.inputCursor env.bytesInBuffer env.bytesInMarginBuffer 0
      (blockLength env.outputCursor env.bytesInBuffer env.bytesInMarginBuffer) unread)
    (hc : 0 < c) (hlt : env.inputCursor + c < uartBufSize)
    (hfree : ∀ p ∈ unread, ¬InRange env.inputCursor c p)
    (hzero : env.inputCursor = 0 → env.bytesInMarginBuffer = 0 → env.bytesInBuffer = 0) :
    Ring env.outputCursor (env.inputCursor + c) (env.bytesInBuffer + c) env.bytesInMarginBuffer 0
      (blockLength env.outputCursor (env.bytesInBuffer + c) env.bytesInMarginBuffer)
      (unread ++ List.range' env.inputCursor c) := by
  unfold blockLength at h ⊢
  by_cases hmargin : 0 < env.bytesInMarginBuffer
  · rw [if_pos hmargin] at h ⊢
    exact h.receive hc hlt hfree (.inl rfl) (fun hm => absurd hm (Nat.ne_of_gt hmargin))
      fun hr _ _ => by omega
  · rw [if_neg hmargin] at h ⊢
    exact h.receive hc hlt hfree (.inl rfl) (fun _ => le_rfl) fun hr hn hl => by omega

theorem Ring.wrap_idle
    (h : Ring env.outputCursor env.inputCursor env.bytesInBuffer env.bytesInMarginBuffer 0
      (blockLength env.outputCursor env.bytesInBuffer env.bytesInMarginBuffer) unread)
    (hc : c ≤ uartBufSizeMargin) (hle : uartBufSize ≤ env.inputCursor + c)
    (hfree : ∀ p ∈ unread, ¬InRange env.inputCursor c p) :
    env.bytesInMarginBuffer = 0 ∧
      Ring env.outputCursor 0 (env.bytesInBuffer + c) (env.inputCursor + c - uartBufSize) 0
        (blockLength env.outputCursor (env.bytesInBuffer + c) (env.inputCursor + c - uartBufSize))
        (unread ++ List.range' env.inputCursor c) := by
  have hsame := h.same_of_reach hfree hle
  have hr := h.lt.1
  refine ⟨h.margin_eq_zero hsame, h.wrap hsame hc hle (.inl rfl) (.inl ?_)⟩
  unfold blockLength
  split
  · omega
  · omega

/-- What is received comes behind what there is. -/
theorem content_receive {received handed data : List UInt8} {buf : Content} {w : Nat}
    (h : received = handed ++ unread.map buf) (hfree : ∀ p ∈ unread, ¬InRange w data.length p) :
    received ++ data = handed ++ (unread ++ List.range' w data.length).map
      (overlay w data.length (fun i => data.getD i 0) buf) := by
  have hold : unread.map (overlay w data.length (fun i => data.getD i 0) buf) = unread.map buf :=
    List.map_congr_left fun p hp => NorMemory.overlay_of_not_inRange (hfree p hp) _ _
  have hnew : (List.range' w data.length).map
      (overlay w data.length (fun i => data.getD i 0) buf) = data := by
    rw [List.range'_eq_map_range, List.map_map]
    refine Eq.trans (List.map_congr_left fun i hi => ?_) map_range_getD
    have hlt := List.mem_range.mp hi
    rw [Function.comp_apply, NorMemory.overlay_of_inRange ⟨Nat.le_add_right _ _, by omega⟩,
      Nat.add_sub_cancel_left]
  rw [List.map_append, hold, hnew, h, List.append_assoc]

end Receive

namespace Inv

variable {s t : UartSystem} {data : List UInt8}

/-- A reception in front of position 640. -/
theorem receive_lt (h : Inv s) (hg : InTime s (.receive data))
    (hlt : s.env.inputCursor + data.length < uartBufSize) :
    ∃ t, s.step (.receive data) = some t ∧ Inv t := by
  obtain ⟨⟨⟨hc, -⟩, hfree⟩, -, hzero⟩ := hg
  have hn := h.ring.lt.2.2.1
  have hring := h.ring
  have hcopies := h.copies
  obtain ⟨env, signal, thread, unread, received, handed⟩ := s
  dsimp only at *
  refine ⟨_, congrArg (Option.map _) (UartDataBufEnv.uartDmaRx_of_lt hlt (by
    unfold uartBufSize at hlt; omega)), content_receive h.content hfree, ?_, ?_,
    fun _ hs => Bool.noConfusion hs⟩
  · cases thread with
    | waiting => exact hring.receive_idle hc hlt hfree hzero
    | woken => exact hring.receive_idle hc hlt hfree hzero
    | reading n m =>
      have hbytes : env.inputCursor = 0 → env.bytesInMarginBuffer = 0 → env.bytesInBuffer = n :=
        hzero
      obtain ⟨-, rfl⟩ := hcopies
      refine hring.receive hc hlt hfree (.inl rfl) (fun _ => Nat.le_add_right_of_le hring.le) ?_
      intro hr hn hl
      dsimp only [UartThread.begun] at hl ⊢
      unfold blockLength at hl ⊢
      by_cases hmargin : 0 < env.bytesInMarginBuffer
      · rw [if_pos hmargin] at hl ⊢
        omega
      · rw [if_neg hmargin] at hl ⊢
        omega
    | handing n i m =>
      have hbytes : env.inputCursor = 0 → env.bytesInMarginBuffer = 0 → env.bytesInBuffer = n :=
        hzero
      refine hring.receive hc hlt hfree (.inr rfl) (fun _ => Nat.le_add_right_of_le hring.le) ?_
      intro hr hn hl
      dsimp only [UartThread.begun] at hl ⊢
      omega
  · cases thread with
    | waiting => trivial
    | woken => trivial
    | reading n m => exact ⟨Nat.le_add_right_of_le hcopies.1, hcopies.2⟩
    | handing n i m => exact hcopies

/-- A reception that reaches position 640. -/
theorem receive_le (h : Inv s) (hg : InTime s (.receive data))
    (hle : uartBufSize ≤ s.env.inputCursor + data.length) :
    ∃ t, s.step (.receive data) = some t ∧ Inv t := by
  obtain ⟨⟨⟨-, hc⟩, hfree⟩, hthread, -⟩ := hg
  have hn := h.ring.lt.2.2.1
  have hring := h.ring
  have hcopies := h.copies
  have hreached := hthread hle
  obtain ⟨env, signal, thread, unread, received, handed⟩ := s
  dsimp only at *
  have hm : env.bytesInMarginBuffer = 0 := by
    rcases hreached with rfl | rfl | ⟨-, hsame⟩
    · exact (hring.wrap_idle hc hle hfree).1
    · exact (hring.wrap_idle hc hle hfree).1
    · exact hring.margin_eq_zero hsame
  refine ⟨_, congrArg (Option.map _) (UartDataBufEnv.uartDmaRx_of_le hle hm (by
    unfold uartBufSizeMargin at hc; omega)), content_receive h.content hfree, ?_, ?_,
    fun _ hs => Bool.noConfusion hs⟩
  · cases thread with
    | waiting =>
      dsimp only [UartThread.begun]
      exact (hring.wrap_idle hc hle hfree).2
    | woken =>
      dsimp only [UartThread.begun]
      exact (hring.wrap_idle hc hle hfree).2
    | reading n m =>
      obtain ⟨hend, hsame⟩ : env.inputCursor + data.length = uartBufSize ∧
          env.outputCursor + env.bytesInBuffer = env.inputCursor := by simpa using hreached
      exact hring.wrap hsame hc hle (.inl rfl) (.inr ⟨hend, hring.le⟩)
    | handing n i m =>
      obtain ⟨hend, hsame⟩ : env.inputCursor + data.length = uartBufSize ∧
          env.outputCursor + env.bytesInBuffer = env.inputCursor := by simpa using hreached
      exact hring.wrap hsame hc hle (.inr rfl) (.inr ⟨hend, hring.le⟩)
  · cases thread with
    | waiting => trivial
    | woken => trivial
    | reading n m =>
      obtain ⟨hend, -⟩ : env.inputCursor + data.length = uartBufSize ∧
          env.outputCursor + env.bytesInBuffer = env.inputCursor := by simpa using hreached
      refine ⟨Nat.le_add_right_of_le hcopies.1, hcopies.2.trans (hm.trans ?_)⟩
      dsimp only
      rw [hend, Nat.sub_self]
    | handing n i m =>
      obtain ⟨hend, -⟩ : env.inputCursor + data.length = uartBufSize ∧
          env.outputCursor + env.bytesInBuffer = env.inputCursor := by simpa using hreached
      refine ⟨hcopies.1, hcopies.2.trans (hm.trans ?_)⟩
      dsimp only
      rw [hend, Nat.sub_self]

theorem receive (h : Inv s) (hg : InTime s (.receive data)) :
    ∃ t, s.step (.receive data) = some t ∧ Inv t := by
  by_cases hlt : s.env.inputCursor + data.length < uartBufSize
  · exact h.receive_lt hg hlt
  · exact h.receive_le hg (Nat.not_lt.mp hlt)

/-! ### The thread -/

theorem wake (h : Inv s) (ht : s.step .wake = some t) : Inv t := by
  have hring := h.ring
  obtain ⟨env, signal, thread, unread, received, handed⟩ := s
  cases thread with
  | waiting =>
    dsimp only [UartSystem.step] at ht
    split at ht
    · obtain rfl := Option.some.inj ht
      exact ⟨h.content, hring, trivial, fun hw => UartThread.noConfusion hw⟩
    · cases ht
  | woken => cases ht
  | reading n m => cases ht
  | handing n i m => cases ht

/-- The loop begins, or the thread waits, with what `bytesInBuffer` says. -/
theorem enter {env : UartDataBufEnv} {signal : Bool} {unread : List Nat}
    {received handed : List UInt8} (hcontent : received = handed ++ unread.map env.uartBuf)
    (hring : Ring env.outputCursor env.inputCursor env.bytesInBuffer env.bytesInMarginBuffer 0
      (blockLength env.outputCursor env.bytesInBuffer env.bytesInMarginBuffer) unread) :
    Inv ⟨env, signal, .enter env.bytesInBuffer env.bytesInMarginBuffer, unread, received,
      handed⟩ := by
  by_cases hn : 0 < env.bytesInBuffer
  · have henter : UartThread.enter env.bytesInBuffer env.bytesInMarginBuffer =
        .reading env.bytesInBuffer env.bytesInMarginBuffer := if_pos hn
    rw [henter]
    exact ⟨hcontent, hring, ⟨le_rfl, rfl⟩, fun hw => UartThread.noConfusion hw⟩
  · have henter : UartThread.enter env.bytesInBuffer env.bytesInMarginBuffer = .waiting :=
      if_neg hn
    rw [henter]
    exact ⟨hcontent, hring, trivial, fun _ _ => Nat.eq_zero_of_not_pos hn⟩

theorem snapshot (h : Inv s) (ht : s.step .snapshot = some t) : Inv t := by
  have hring := h.ring
  have hcontent := h.content
  obtain ⟨env, signal, thread, unread, received, handed⟩ := s
  cases thread with
  | waiting => cases ht
  | woken =>
    obtain rfl := Option.some.inj ht
    exact enter hcontent hring
  | reading n m => cases ht
  | handing n i m => cases ht

theorem block_eq {n m : Nat} (h : Inv s) (hthread : s.thread = .reading n m) :
    s.env.block n m = (blockLength s.env.outputCursor n m,
      s.env.outputCursor + blockLength s.env.outputCursor n m) := by
  have hcopies := h.copies
  obtain ⟨hr, -, hn, hm⟩ := h.ring.lt
  rw [hthread] at hcopies
  obtain ⟨hle, rfl⟩ := hcopies
  exact UartDataBufEnv.block_eq hr (Nat.lt_of_le_of_lt hle hn) hm

theorem callback (h : Inv s) (ht : s.step .callback = some t) : Inv t := by
  have hring := h.ring
  have hcontent := h.content
  have hcopies := h.copies
  have hblock := fun n m => @block_eq _ n m h
  obtain ⟨env, signal, thread, unread, received, handed⟩ := s
  cases thread with
  | waiting => cases ht
  | woken => cases ht
  | reading n m =>
    obtain rfl := Option.some.inj ht
    obtain ⟨hring', htake⟩ := hring.handOut
    dsimp only [UartThread.begun] at hring' htake
    dsimp only [UartSystem.handOut]
    rw [hblock n m rfl]
    refine ⟨?_, hring', ⟨rfl, hcopies.2⟩, fun hw => UartThread.noConfusion hw⟩
    have hbytes : (List.range (blockLength env.outputCursor n m)).map
        (fun i => env.uartBuf (env.outputCursor + i)) =
          (unread.take (blockLength env.outputCursor n m)).map env.uartBuf := by
      rw [htake, List.range'_eq_map_range, List.map_map]
      rfl
    dsimp only at hcontent ⊢
    rw [hbytes, List.append_assoc, ← List.map_append, List.take_append_drop, hcontent]
  | handing n i m => cases ht

theorem update (h : Inv s) (ht : s.step .update = some t) : Inv t := by
  have hring := h.ring
  have hcontent := h.content
  have hcopies := h.copies
  obtain ⟨env, signal, thread, unread, received, handed⟩ := s
  cases thread with
  | waiting => cases ht
  | woken => cases ht
  | reading n m => cases ht
  | handing n i m =>
    obtain rfl := Option.some.inj ht
    obtain ⟨hi, hm⟩ : i = env.outputCursor + n ∧ m = env.bytesInMarginBuffer := hcopies
    subst hi hm
    have hn : n ≤ env.bytesInBuffer := hring.le
    have hlt : env.bytesInBuffer < 0x1000 := hring.lt.2.2.1
    have hsub : sub32 env.bytesInBuffer n = env.bytesInBuffer - n := by
      unfold sub32
      omega
    have hmargin : (if 0 < env.bytesInMarginBuffer then
        sub32 env.bytesInMarginBuffer env.bytesInMarginBuffer
        else env.bytesInMarginBuffer) = 0 := by
      unfold sub32
      split
      · omega
      · omega
    dsimp only [UartDataBufEnv.update]
    rw [hsub, hmargin, ite_self]
    exact enter hcontent hring.update

/-! ### Runs -/

variable {e : UartEvent}

theorem inOrder (h : Inv s) : InOrder s := by
  have hring := h.ring
  refine ⟨h.content ▸ List.prefix_append _ _, fun hthread hsignal => ?_⟩
  rw [hthread, h.quiet hthread hsignal] at hring
  rw [h.content, hring.eq_nil, List.map_nil, List.append_nil]

theorem step (h : Inv s) (hg : InTime s e) (ht : s.step e = some t) : Inv t := by
  cases e with
  | receive data =>
    obtain ⟨u, hu, hinv⟩ := h.receive hg
    exact Option.some.inj (hu.symm.trans ht) ▸ hinv
  | wake => exact h.wake ht
  | snapshot => exact h.snapshot ht
  | callback => exact h.callback ht
  | update => exact h.update ht

/-- A step of a run whose receptions are in time delivers. -/
theorem delivers (h : Inv s) (hg : InTime s e) : Delivers s e where
  inOrder t ht := (h.step hg ht).inOrder
  assertion data he := by
    subst he
    obtain ⟨t, ht, -⟩ := h.receive hg
    obtain ⟨env, henv, -⟩ := Option.map_eq_some_iff.mp ht
    rw [henv]
    rfl
  inside n m _ hthread := by
    have hring := h.ring
    rw [hthread] at hring
    rw [h.block_eq hthread]
    exact hring.inside
  noUnderflow n i m _ hthread := by
    have hring := h.ring
    rw [hthread] at hring
    exact hring.le

end Inv

/-- Nothing has been received. -/
def UartSystem.initial : UartSystem :=
  ⟨⟨0, 0, 0, 0, fun _ => 0⟩, false, .waiting, [], [], []⟩

theorem inv_initial : Inv .initial where
  content := rfl
  ring := .same rfl (by decide) rfl le_rfl (.inl rfl)
  copies := trivial
  quiet _ _ := rfl

/-- Along every run whose receptions are in time the stream is delivered. -/
theorem delivers_along {es : List UartEvent} (hes : Along UartSystem.step InTime .initial es) :
    Along UartSystem.step Delivers .initial es :=
  (hes.strengthen (fun _ _ _ hs hg ht => hs.step hg ht) inv_initial).mono
    fun _ _ h => h.1.delivers h.2

/-! ### Runs on fixed receptions -/

instance decidableLegal (s : UartSystem) : ∀ e, Decidable (Legal s e)
  | .receive data => inferInstanceAs (Decidable
      ((0 < data.length ∧ data.length ≤ uartBufSizeMargin) ∧
        ∀ p ∈ s.unread, ¬InRange s.env.inputCursor data.length p))
  | .wake => isTrue trivial
  | .snapshot => isTrue trivial
  | .callback => isTrue trivial
  | .update => isTrue trivial

instance decidableInTime (s : UartSystem) : ∀ e, Decidable (InTime s e)
  | .receive data => inferInstanceAs (Decidable (Legal s (.receive data) ∧
      (uartBufSize ≤ s.env.inputCursor + data.length →
        s.thread = .waiting ∨ s.thread = .woken ∨
          s.env.inputCursor + data.length = uartBufSize ∧
            s.env.outputCursor + s.env.bytesInBuffer = s.env.inputCursor) ∧
      (s.env.inputCursor = 0 → s.env.bytesInMarginBuffer = 0 →
        s.env.bytesInBuffer = s.thread.bytes)))
  | .wake => isTrue trivial
  | .snapshot => isTrue trivial
  | .callback => isTrue trivial
  | .update => isTrue trivial

/-- The lap ends in the margin, and the thread has handed it out when the next bytes come. -/
theorem delivers_lap : Along UartSystem.step Delivers .initial
    [.receive (.replicate 512 1), .wake, .receive (.replicate 200 2), .snapshot, .callback,
      .receive [3], .update, .receive [4], .callback, .update, .callback, .update] :=
  delivers_along (by decide +kernel)

variable {es : List UartEvent} {e : UartEvent}

/-- A byte that the last step hands out is not the one received. -/
theorem not_delivers_of_ne (i : Nat)
    (h : ((es ++ [e]).foldlM UartSystem.step .initial).map
      (fun t => t.handed[i]?.all (t.received[i]? == some ·)) = some false) :
    ¬Along UartSystem.step Delivers .initial (es ++ [e]) := by
  intro hes
  obtain ⟨t, ht, hfalse⟩ := Option.map_eq_some_iff.mp h
  obtain ⟨s, hs, he⟩ := foldlM_append_eq_some ht
  have hstep : s.step e = some t := by simpa using he
  have hprefix := ((hes.last hs).inOrder t hstep).isPrefix
  cases hb : t.handed[i]? with
  | none => simp [hb] at hfalse
  | some b =>
    obtain ⟨hi, rfl⟩ := List.getElem?_eq_some_iff.mp hb
    simp [hb, List.prefix_iff_getElem?.mp hprefix i hi] at hfalse

/-- The assertion fails in the last reception. -/
theorem not_delivers_of_assertion {data : List UInt8}
    (h : (es.foldlM UartSystem.step .initial).map (fun s => (s.env.uartDmaRx data).isSome) =
      some false) :
    ¬Along UartSystem.step Delivers .initial (es ++ [.receive data]) := by
  intro hes
  obtain ⟨s, hs, hfalse⟩ := Option.map_eq_some_iff.mp h
  have hsome := (hes.last hs).assertion data rfl
  rw [hfalse] at hsome
  exact Bool.noConfusion hsome

/-- The margin begins while the callback runs, and is not given back: the next 10 bytes become a
block of 712. A lap ends at 640: the 10 bytes behind it are read from the margin. The margin of a
lap that has been handed out is still there when the next one ends. -/
theorem not_delivers :
    (Along UartSystem.step Legal .initial
        [.receive (.replicate 512 1), .wake, .snapshot, .callback, .receive (.replicate 200 2),
          .update, .callback, .update, .receive (.replicate 10 3), .wake, .snapshot, .callback] ∧
      ¬Along UartSystem.step Delivers .initial
        [.receive (.replicate 512 1), .wake, .snapshot, .callback, .receive (.replicate 200 2),
          .update, .callback, .update, .receive (.replicate 10 3), .wake, .snapshot, .callback]) ∧
    (Along UartSystem.step Legal .initial
        [.receive (.replicate 512 1), .wake, .snapshot, .callback, .update,
          .receive (.replicate 128 2), .receive (.replicate 10 3), .wake, .snapshot, .callback] ∧
      ¬Along UartSystem.step Delivers .initial
        [.receive (.replicate 512 1), .wake, .snapshot, .callback, .update,
          .receive (.replicate 128 2), .receive (.replicate 10 3), .wake, .snapshot, .callback]) ∧
    Along UartSystem.step Legal .initial
        [.receive (.replicate 512 1), .wake, .snapshot, .callback, .update,
          .receive (.replicate 200 2), .wake, .snapshot, .callback, .receive (.replicate 400 3),
          .receive (.replicate 300 4)] ∧
      ¬Along UartSystem.step Delivers .initial
        [.receive (.replicate 512 1), .wake, .snapshot, .callback, .update,
          .receive (.replicate 200 2), .wake, .snapshot, .callback, .receive (.replicate 400 3),
          .receive (.replicate 300 4)] := by
  refine ⟨⟨by decide +kernel, ?_⟩, ⟨by decide +kernel, ?_⟩, by decide +kernel, ?_⟩
  · exact @not_delivers_of_ne [_, _, _, _, _, _, _, _, _, _, _] _ 722 (by decide +kernel)
  · exact @not_delivers_of_ne [_, _, _, _, _, _, _, _, _] _ 640 (by decide +kernel)
  · exact @not_delivers_of_assertion [_, _, _, _, _, _, _, _, _, _] _ (by decide +kernel)

end EarbudFirmware.UartDma
