import EarbudFirmware.A2dp.SbcFeed

/-!
# Storing an SBC packet

The first byte of a packet is the number of its frames, the rest is the frames themselves. The
store cuts the rest at the lengths that the parser reports, copies every frame into a buffer of its
own, and appends the frames to the list of the decoder when the cut has reached the end.

The two builds of the source conceal lost packets in two ways: one appends repeats of the first
frame in front of the frames, the other adjusts the front of the list at every frame it finds.

## Main definitions

* `StoreCall` — a call: the header, the packet in memory, and what the parser answers
* `storePacket` — `a2dp_audio_sbc_store_packet`
* `StoreCall.cut` — where the parser cuts the packet
* `StoredWhole` — the packet is stored as a whole or not at all, and nothing outside it is read
* `StoreCall.Fits` — when it is, in terms of the cut
-/

namespace EarbudFirmware.A2dp

/-- `btif_media_header_t`, as far as it is read. -/
structure MediaHeader where
  sequenceNumber : UInt16
  timestamp : UInt32
  deriving DecidableEq

/-- The results of `a2dp_audio_sbc_store_packet`. A call that finds no memory stops the device in
`a2dp_audio_heap_malloc`, and has no result. -/
inductive StoreRet where
  | noError
  | decodeError
  | mtuLimterError
  | syncError
  deriving DecidableEq

/-- `sbc_mtu_limiter`. -/
def sbcMtuLimiter : Nat := 250

/-- `SBC_LIST_SAMPLES`. -/
def sbcListSamples : Nat := 128

/-- `FRAME_LIST_MAX`. -/
def frameListMax : Nat := 20

/-- A frame of the list, with the address of its buffer. -/
structure SbcNode where
  addr : Nat
  frame : SbcDecoderFrame
  deriving DecidableEq

/-- What stays between two packets: `input_raw_packet_list`, the next address the heap gives,
`sbc_decoder_last_valid_frame` when it is ready, and `adjust_frame_cnt_after_no_cache`. -/
structure SbcStore where
  list : List SbcNode
  next : Nat
  lastValid : Option MediaHeader
  adjustFrameCnt : Int

/-- The store within a call, with what the call has allocated, what it has freed, and the stretches
of memory (offset from `buffer` and length) it has read. -/
structure Storing extends SbcStore where
  allocated : List Nat
  freed : List Nat
  reads : List (Nat × Nat)

/-- A call of `a2dp_audio_sbc_store_packet`. The parser's answer is a function of the place in the
packet and of the length it is told: no place is parsed twice. A length is one of 16 bits, so
that no sum of the source wraps. -/
structure StoreCall where
  /-- `BT_DONT_PLAY_MUTE_WHEN_A2DP_STUCK_PATCH` is defined. -/
  dontPlayMute : Bool
  /-- `DUMP8` reads what it is given: the build has traces. -/
  traced : Bool
  header : MediaHeader
  /-- The memory from `buffer` on. The packet is its first `bufferBytes` bytes. -/
  memory : Nat → UInt8
  bufferBytes : Nat
  bufferBytes_pos : 0 < bufferBytes
  /-- `btif_sbc_decode_frames_parser`: `none` is a failure. -/
  parser : Nat → Nat → Option Nat
  parser_bound : ∀ i told n, parser i told = some n → 0 < n ∧ n ≤ told
  /-- `app_tws_ibrt_audio_analysis_get_refill_frames` at each frame; 0 without `IBRT`. -/
  refill : Nat → Int
  /-- What the heap holds where the numbers of a new frame are. -/
  stale : Nat → UInt16 × UInt16

namespace Storing

/-- `a2dp_audio_sbc_subframe_malloc`, with the values that are written next. -/
def subframeMalloc (w : Storing) (frame : SbcDecoderFrame) : SbcNode × Storing :=
  (⟨w.next, frame⟩, { w with next := w.next + 1, allocated := w.allocated ++ [w.next] })

/-- `n` bytes are read at `offset`. -/
def read (w : Storing) (offset n : Nat) : Storing := { w with reads := w.reads ++ [(offset, n)] }

end Storing

namespace StoreCall

variable (c : StoreCall)

/-- `frame_num`, which the peer announces. -/
def frameNum : Nat := (c.memory 0).toNat

/-- `buffer_bytes`, behind its decrement. -/
def payloadBytes : Nat := c.bufferBytes - 1

/-- The `n` bytes at `parser_p + i`. -/
def bytesAt (i n : Nat) : List UInt8 := (List.range n).map fun k => c.memory (1 + i + k)

/-- `DUMP8` of 12 bytes. -/
def dump8 (offset : Nat) (w : Storing) : Storing := if c.traced then w.read offset 12 else w

/-- `adjust_frame_cnt_after_no_cache`, refilled when it is used up. -/
def refilled (refillSubframes cnt : Int) : Int :=
  if refillSubframes ≠ 0 ∧ cnt = 0 then refillSubframes else cnt

/-- `a2dp_audio_sbc_packet_adjust`; the flag says that it returns `A2DP_DECODER_SYNC_ERROR`. -/
def packetAdjust (refillSubframes : Int) (frame : SbcDecoderFrame) (w : Storing) :
    Bool × Storing :=
  let cnt := refilled refillSubframes w.adjustFrameCnt
  if cnt < 0 then
    match w.list with
    | [] => (false, { w with adjustFrameCnt := cnt })
    | front :: rest =>
      -- the list frees what is removed
      (false, { w with
        list := rest
        freed := w.freed ++ [front.addr]
        adjustFrameCnt := cnt + 1 })
  else if 0 < cnt then
    if w.list.length + c.frameNum < sbcMtuLimiter then
      match w.list with
      | [] => (false, { w with adjustFrameCnt := cnt })
      | _ :: _ =>
        let (node, w') := w.subframeMalloc
          { frame with
            sequenceNumber := 0xFFFF
            timestamp := 0xFFFFFFFF }
        (false, { w' with
          list := node :: w'.list
          adjustFrameCnt := cnt - 1 })
    else (true, { w with adjustFrameCnt := cnt })
  else (false, { w with adjustFrameCnt := cnt })

/-- The `frame_cnt`-th frame, of `n` bytes at `parser_p + i`. -/
def frameOf (frameCnt i n : Nat) : SbcDecoderFrame :=
  ⟨c.header.sequenceNumber, c.header.timestamp, .ofNat frameCnt, .ofNat c.frameNum,
    c.bytesAt i n⟩

/-- The loop on a frame that the parser has found: it is copied, and the list is adjusted in the
build that does so. -/
def storeFrame (frameCnt i n : Nat) (w : Storing) : SbcNode × Bool × Storing :=
  let (node, w') := (w.read (1 + i) n).subframeMalloc (c.frameOf frameCnt i n)
  (node, if c.dontPlayMute then c.packetAdjust (c.refill frameCnt) node.frame w' else (false, w'))

/-- How the loop of `a2dp_audio_sbc_store_packet` ends: at the end of the packet, with `find_err`,
or by its `return`. -/
inductive LoopEnd where
  | done
  | findErr
  | sync
  deriving DecidableEq

/-- The loop, with the free places of `frame_list`. The last place that is filled is an error, so
that no step is taken without a place. The frames of the list count `frame_cnt`. -/
def storeLoop : Nat → Nat → List SbcNode → Storing → LoopEnd × List SbcNode × Storing
  | 0, _, frames, w => (.findErr, frames, w)
  | free + 1, i, frames, w =>
    if i < c.payloadBytes then
      let w := w.read (1 + i) 1
      if c.memory (1 + i) = 0x9c then
        match c.parser i c.payloadBytes with
        | none => (.findErr, frames, c.dump8 (1 + i) w)
        | some n =>
          let (node, sync, w) := c.storeFrame frames.length i n w
          if sync then (.sync, frames, w) else storeLoop free (i + n) (frames ++ [node]) w
      else (.findErr, frames, c.dump8 (1 + i) w)
    else (.done, frames, w)

end StoreCall

/-- `a2dp_audio_get_passed`. -/
def audioGetPassed (currTicks prevTicks maxTicks : Nat) : Nat :=
  if currTicks < prevTicks then maxTicks - prevTicks + 1 + currTicks else currTicks - prevTicks

/-- `a2dp_audio_sbc_packet_recover_find_missing`. -/
def recoverFindMissing (lastValid : Option MediaHeader) (header : MediaHeader) (frameCnt : Nat) :
    Nat :=
  match lastValid with
  | none => 0
  | some last =>
    let diffSeq :=
      audioGetPassed header.sequenceNumber.toNat last.sequenceNumber.toNat 0xFFFF
    let diffTimestamp := audioGetPassed header.timestamp.toNat last.timestamp.toNat 0xFFFFFFFF
    if 1 < diffSeq then
      if diffTimestamp % sbcListSamples = 0 then
        let needRecoverPkt := diffTimestamp / sbcListSamples
        if frameCnt < needRecoverPkt then needRecoverPkt - frameCnt else needRecoverPkt
      else (diffSeq - 1) * frameCnt
    else 0

namespace StoreCall

variable (c : StoreCall)

/-- The loop of `a2dp_audio_sbc_packet_recover_proc`. Its count has 8 bits, and the list has fewer
places. -/
def recoverLoop (raw : SbcNode) : Nat → Storing → Storing
  | 0, w => w
  | missing + 1, w =>
    let (node, w') := w.subframeMalloc
      ⟨0xFFFF, 0xFFFFFFFF, (c.stale w.next).1, (c.stale w.next).2, raw.frame.sbcBuffer⟩
    recoverLoop raw missing { w' with list := w'.list ++ [node] }

/-- `a2dp_audio_sbc_packet_recover_proc`. -/
def recoverProc (raw : Option SbcNode) (w : Storing) : Storing :=
  let missing := recoverFindMissing w.lastValid c.header c.frameNum
  match raw with
  | none => w
  | some raw =>
    if missing ≠ 0 ∧ w.list.length + missing < sbcMtuLimiter then c.recoverLoop raw missing w
    else w

/-- `a2dp_audio_sbc_packet_recover_proc` and `a2dp_audio_sbc_packet_recover_save_last`, in the
build that has them. -/
def recover (raw : Option SbcNode) (w : Storing) : Storing :=
  if c.dontPlayMute then w else { c.recoverProc raw w with lastValid := some c.header }

end StoreCall

/-- Nothing has been allocated or freed, and the first byte is read. -/
def SbcStore.begin (s : SbcStore) : Storing := ⟨s, [], [], [(0, 1)]⟩

/-- `a2dp_audio_sbc_store_packet`. -/
def storePacket (c : StoreCall) (s : SbcStore) : StoreRet × Storing :=
  if c.frameNum = 0 then (.decodeError, c.dump8 0 s.begin)
  else if s.list.length + c.frameNum < sbcMtuLimiter then
    match c.storeLoop frameListMax 0 [] s.begin with
    | (.sync, _, w) => (.syncError, w)
    | (.findErr, frames, w) =>
      (.decodeError, { w with freed := w.freed ++ frames.map SbcNode.addr })
    | (.done, frames, w) =>
      let w := c.recover frames.head? w
      (.noError, { w with list := w.list ++ frames })
  else (.mtuLimterError, s.begin)

/-! ### The contract -/

/-- The frames carry the payload, with the numbers of the packet and their own. -/
structure CarriesPayload (c : StoreCall) (frames : List SbcNode) : Prop where
  payload : frames.flatMap (·.frame.sbcBuffer) = c.bytesAt 0 c.payloadBytes
  numbered : frames.map (·.frame.curSubSequenceNumber) = (List.range frames.length).map .ofNat
  common : ∀ node ∈ frames, node.frame.sequenceNumber = c.header.sequenceNumber ∧
    node.frame.timestamp = c.header.timestamp

/-- A repeat of the first frame, without numbers. -/
def RecoveryCopy (frames : List SbcNode) (node : SbcNode) : Prop :=
  node.frame.sequenceNumber = 0xFFFF ∧ node.frame.timestamp = 0xFFFFFFFF ∧
    ∃ raw, frames.head? = some raw ∧ node.frame.sbcBuffer = raw.frame.sbcBuffer

/-- Nothing outside the packet is read, the list stays below its limit, and the packet is stored as
a whole or not at all. -/
structure StoredWhole (c : StoreCall) (s : SbcStore) (out : StoreRet × Storing) : Prop where
  inside : ∀ r ∈ out.2.reads, r.1 + r.2 ≤ c.bufferBytes
  bounded : s.list.length < sbcMtuLimiter → out.2.list.length < sbcMtuLimiter
  atomic :
    (out.1 ≠ .noError ∧ out.2.list = s.list ∧ ∀ a ∈ out.2.allocated, a ∈ out.2.freed) ∨
    (out.1 = .noError ∧ ∃ copies frames, out.2.list = s.list ++ copies ++ frames ∧
      (∀ node ∈ copies, RecoveryCopy frames node) ∧ CarriesPayload c frames)

/-- The buffers of the list are not the ones that the heap gives next. -/
def SbcStore.Owned (s : SbcStore) : Prop := ∀ node ∈ s.list, node.addr < s.next

/-! ### Where the parser cuts the packet -/

namespace StoreCall

/-- What stops the cut of a packet: its end, a place where no frame is, or a full `frame_list`. -/
inductive CutEnd where
  | whole
  | refused
  | full
  deriving DecidableEq

variable (c : StoreCall)

/-- The length of the frame at `parser_p + i`, if there is one. -/
def frameAt (i : Nat) : Option Nat :=
  if c.memory (1 + i) = 0x9c then c.parser i c.payloadBytes else none

/-- The lengths of the frames from `parser_p + i` on, at most as many as there are places. -/
def cut : Nat → Nat → List Nat × CutEnd
  | 0, _ => ([], .full)
  | free + 1, i =>
    if i < c.payloadBytes then
      match c.frameAt i with
      | none => ([], .refused)
      | some n => (n :: (cut free (i + n)).1, (cut free (i + n)).2)
    else ([], .whole)

/-- The dump of an error stays inside the packet. -/
def DumpFits (offset : Nat) : Prop := c.traced = true → offset + 12 ≤ c.bufferBytes

/-- The adjustments cancel out: `len` frames are in the list, `pushed` frames have been put in front
of them, and the numbers are what `refill` says at the frames that are left. A frame is taken off
the front only when it was put there, none is left in front, and the list has room for those that
are put there. -/
def Cancels (len : Nat) : Nat → Int → List Int → Prop
  | pushed, _, [] => pushed = 0
  | pushed, cnt, refill :: rest =>
    let cnt := refilled refill cnt
    if len + pushed = 0 ∨ cnt = 0 then Cancels len pushed cnt rest
    else if cnt < 0 then 0 < pushed ∧ Cancels len (pushed - 1) (cnt + 1) rest
    else len + pushed + c.frameNum < sbcMtuLimiter ∧ Cancels len (pushed + 1) (cnt - 1) rest

/-- How many repeats go in front of the frames of a packet that is cut at `lens`. -/
def recoverCnt (s : SbcStore) (lens : List Nat) : Nat :=
  let missing := recoverFindMissing s.lastValid c.header c.frameNum
  if c.dontPlayMute = false ∧ lens ≠ [] ∧ s.list.length + missing < sbcMtuLimiter then missing
  else 0

/-- The cut stays inside the packet, as does the dump where it is refused, and the list has room for
the repeats and the frames of a whole cut. -/
def CutFits (s : SbcStore) (lens : List Nat) : CutEnd → Prop
  | .refused => c.DumpFits (1 + lens.sum)
  | .full => lens.sum ≤ c.payloadBytes
  | .whole => lens.sum ≤ c.payloadBytes ∧
      s.list.length + c.recoverCnt s lens + lens.length < sbcMtuLimiter

/-- The adjustments at the frames of the packet cancel out, in the build that adjusts. -/
def Settles (s : SbcStore) : Prop :=
  c.dontPlayMute = true → c.Cancels s.list.length 0 s.adjustFrameCnt
    ((List.range' 0 (c.cut frameListMax 0).1.length).map c.refill)

/-- What a packet has to be for the contract. -/
def Fits (s : SbcStore) : Prop :=
  (c.frameNum = 0 → c.DumpFits 0) ∧
  (0 < c.frameNum → s.list.length + c.frameNum < sbcMtuLimiter →
    c.Settles s ∧ c.CutFits s (c.cut frameListMax 0).1 (c.cut frameListMax 0).2)

end StoreCall

end EarbudFirmware.A2dp
