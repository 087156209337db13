import EarbudFirmware.Lib.FrameRing
import EarbudFirmware.Lib.Transition

/-!
# Frames for the decoder core

The processor passes encoded frames to the core that decodes them through a ring of descriptors and
a ring of bytes in shared memory. A put reads the indices, finds a place, writes the descriptor and
copies the bytes, and publishes its index at the end; a get and a consume of the core read the
indices once, and a consume publishes the other index. The steps of the two cores come in any
order. A request to reset the frames is served by the decoder core between two calls of its decoder.

## Main definitions

* `CpShared` — the shared memory
* `placeInFrame` — the place of a frame
* `CpSystem` — both cores, with the frames that were put since the last reset
* `cpStep` — one step of a core
* `putReturns` — what a put that ends in a step returns
-/

namespace EarbudFirmware.A2dp

/-- `CP_IN_FRAME_CNT`. -/
def cpInFrameCnt : Nat := 100

/-- `CP_IN_CACHE_SIZE`. -/
def cpInCacheSize : Nat := 1024 * 10

/-- `CP_IN_FRAME_INFO_T`. -/
structure InFrameInfo where
  pos : Nat
  len : Nat
  deriving DecidableEq

/-- What the cores share. -/
structure CpShared where
  cpInWidx : Nat
  cpInRidx : Nat
  inFrames : Nat → InFrameInfo
  cpInCache : Nat → UInt8
  resetFrames : Bool

/-- `get_in_frame_cnt`. -/
def inFrameCnt (inWidx inRidx : Nat) : Nat :=
  if inRidx ≤ inWidx then inWidx - inRidx else cpInFrameCnt - inRidx + inWidx

/-- `get_in_frame_free_cnt`. -/
def inFrameFreeCnt (inWidx inRidx : Nat) : Nat :=
  (if inRidx ≤ inWidx then cpInFrameCnt - inWidx + inRidx else inRidx - inWidx) - 1

/-- An index, and the one after it. -/
def nextInIdx (i : Nat) : Nat := if cpInFrameCnt ≤ i + 1 then i + 1 - cpInFrameCnt else i + 1

/-- The index before. -/
def prevInIdx (i : Nat) : Nat := if i = 0 then cpInFrameCnt - 1 else i - 1

/-- `(n + 3) & ~3`, for numbers below the last word. -/
def alignWord (n : Nat) : Nat := (n + 3) / 4 * 4

/-- A position behind the end of the cache is one from its start. -/
def wrapPos (pos : Nat) : Nat := if cpInCacheSize ≤ pos then pos - cpInCacheSize else pos

/-- Where a put starts to look for room, and the position that the decoder core reads from. -/
def putPositions (s : CpShared) (inWidx inRidx : Nat) : Nat × Nat :=
  if inWidx = inRidx then (0, 0)
  else
    let prev := s.inFrames (prevInIdx inWidx)
    (wrapPos (alignWord (wrapPos (prev.pos + prev.len))), (s.inFrames inRidx).pos)

/-- The room at the write position or, if it is not enough, at the start of the cache; an error is
what the put returns. -/
def placeInFrame (inWpos inRpos alignedLen : Nat) : Except Int Nat :=
  if inRpos ≤ inWpos then
    let freeLen := if inRpos = 0 then cpInCacheSize - inWpos - 1 else cpInCacheSize - inWpos
    if freeLen < alignedLen then
      let freeLen := if 0 < inRpos then inRpos - 1 else 0
      if freeLen < alignedLen then .error 2 else .ok 0
    else .ok inWpos
  else if inRpos - inWpos - 1 < alignedLen then .error 3
  else .ok inWpos

/-- The two buffers of a put, which are not both empty. They lie in an address space of 32 bits,
beside the cache. -/
structure InBuffers where
  buf1 : List UInt8
  buf2 : List UInt8
  length_pos : 0 < buf1.length + buf2.length
  length_lt : buf1.length + buf2.length + cpInCacheSize < 0x100000000

/-- The bytes of the frame. -/
def InBuffers.data (b : InBuffers) : List UInt8 := b.buf1 ++ b.buf2

/-- Where the processor is in `a2dp_cp_put_in_frame`: it has read the indices, or it has found a
place and copied some bytes. -/
inductive McuPut where
  | idle
  | entered (b : InBuffers) (inWidx inRidx : Nat)
  | copying (b : InBuffers) (inWidx pos done : Nat)

/-- Where the decoder core is: in `cp_a2dp_main`, in the decoder, or in a get or a consume, which
has read the indices. -/
inductive CpTask where
  | main
  | decode
  | getting (inWidx inRidx : Nat)
  | consuming (inWidx inRidx : Nat)
  deriving DecidableEq

/-- The cores and the shared memory; `puts` are the frames that were put since the last reset, and
`consumed` is how many of them were consumed. -/
structure CpSystem where
  shared : CpShared
  mcu : McuPut
  cp : CpTask
  puts : List (List UInt8)
  consumed : Nat

/-- A step of a core. The put finds `max_buffer_frames`. -/
inductive CpEvent where
  | putEnter (b : InBuffers)
  | putPlace (maxBufferFrames : Nat)
  | putCopy
  | putPublish
  | resetFrame
  | decode
  | decodeEnd
  | getEnter
  | getReturn
  | consumeEnter
  | consumePublish
  | serveReset

namespace CpSystem

variable (s : CpSystem)

/-- The place of the frame of a put, or what it returns without one. The number of frames is
compared with the indices of the moment, the other numbers are of the indices read before. -/
def putPlace (maxBufferFrames : Nat) (b : InBuffers) (inWidx inRidx : Nat) : Except Int Nat :=
  if maxBufferFrames < inFrameCnt s.shared.cpInWidx s.shared.cpInRidx then .error 1
  else if inFrameFreeCnt inWidx inRidx = 0 then .error 1
  else
    let positions := putPositions s.shared inWidx inRidx
    placeInFrame positions.1 positions.2 (alignWord b.data.length)

/-- The descriptor of a new frame. -/
def setInFrame (i : Nat) (f : InFrameInfo) : CpShared :=
  { s.shared with inFrames := Function.update s.shared.inFrames i f }

/-- A byte goes to the cache. -/
def setInCache (pos : Nat) (x : UInt8) : CpShared :=
  { s.shared with cpInCache := Function.update s.shared.cpInCache pos x }

end CpSystem

/-- One step; `none` is a step that the core is not at. -/
def cpStep (s : CpSystem) : CpEvent → Option CpSystem
  | .putEnter b =>
    match s.mcu with
    | .idle =>
      if s.shared.resetFrames then some s
      else some { s with mcu := .entered b s.shared.cpInWidx s.shared.cpInRidx }
    | _ => none
  | .putPlace maxBufferFrames =>
    match s.mcu with
    | .entered b inWidx inRidx =>
      match s.putPlace maxBufferFrames b inWidx inRidx with
      | .error _ => some { s with mcu := .idle }
      | .ok pos =>
        some { s with
          shared := s.setInFrame inWidx ⟨pos, b.data.length⟩
          mcu := .copying b inWidx pos 0 }
    | _ => none
  | .putCopy =>
    match s.mcu with
    | .copying b inWidx pos done =>
      b.data[done]?.map fun x =>
        { s with shared := s.setInCache (pos + done) x, mcu := .copying b inWidx pos (done + 1) }
    | _ => none
  | .putPublish =>
    match s.mcu with
    | .copying b inWidx _ done =>
      if done = b.data.length then
        some { s with
          shared.cpInWidx := nextInIdx inWidx
          mcu := .idle
          puts := s.puts ++ [b.data] }
      else none
    | _ => none
  | .resetFrame => some { s with shared.resetFrames := true }
  | .decode => if s.cp = .main then some { s with cp := .decode } else none
  | .decodeEnd => if s.cp = .decode then some { s with cp := .main } else none
  | .getEnter =>
    if s.cp = .decode then
      if s.shared.resetFrames then some s
      else some { s with cp := .getting s.shared.cpInWidx s.shared.cpInRidx }
    else none
  | .getReturn =>
    match s.cp with
    | .getting _ _ => some { s with cp := .decode }
    | _ => none
  | .consumeEnter =>
    if s.cp = .decode then
      if s.shared.resetFrames then some s
      else some { s with cp := .consuming s.shared.cpInWidx s.shared.cpInRidx }
    else none
  | .consumePublish =>
    match s.cp with
    | .consuming inWidx inRidx =>
      if inWidx = inRidx then some { s with cp := .decode }
      else
        some { s with
          shared.cpInRidx := nextInIdx inRidx
          cp := .decode
          consumed := s.consumed + 1 }
    | _ => none
  | .serveReset =>
    if s.cp = .main ∧ s.shared.resetFrames then
      some { s with
        shared.cpInWidx := 0
        shared.cpInRidx := 0
        shared.resetFrames := false
        puts := []
        consumed := 0 }
    else none

/-- What a put returns, if it ends in this step. -/
def putReturns (s : CpSystem) : CpEvent → Option Int
  | .putEnter _ => if s.shared.resetFrames then some (-1) else none
  | .putPlace maxBufferFrames =>
    match s.mcu with
    | .entered b inWidx inRidx =>
      match s.putPlace maxBufferFrames b inWidx inRidx with
      | .error code => some code
      | .ok _ => none
    | _ => none
  | .putPublish => some 0
  | _ => none

/-- The bytes of a descriptor's frame. -/
def CpShared.frame (s : CpShared) (f : InFrameInfo) : List UInt8 :=
  (List.range f.len).map fun i => s.cpInCache (f.pos + i)

/-- What `a2dp_cp_get_in_frame` returns after it has read the indices: the bytes that its pointer
and its length are of. -/
def getReturns (s : CpSystem) (inWidx inRidx : Nat) : Option (List UInt8) :=
  if inWidx = inRidx then none else some (s.shared.frame (s.shared.inFrames inRidx))

/-- What `a2dp_cp_decoder_init` sets up: no frames, and anything in the memory. -/
structure InitialCp (s : CpSystem) : Prop where
  widx : s.shared.cpInWidx = 0
  ridx : s.shared.cpInRidx = 0
  mcu : s.mcu = .idle
  cp : s.cp = .main
  puts : s.puts = []
  consumed : s.consumed = 0

end EarbudFirmware.A2dp
