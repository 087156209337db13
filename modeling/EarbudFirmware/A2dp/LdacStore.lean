import EarbudFirmware.A2dp.SbcStore
import Mathlib.Data.List.TakeWhile

/-!
# Storing an LDAC packet

Behind its first byte, a packet is cut into frames at the lengths that the data announces. The
frames are counted in a first pass, which decides whether the list has room, and copied in a second
one, which stops at the first frame without a sync word. Neither knows where the packet ends when it
reads a frame.

## Main definitions

* `LdacCall` — a call: the header, the packet in memory, and what the decoder is set to
* `ldacStorePacket` — `a2dp_audio_ldac_store_packet`
* `SplitInside` — only the packet is read, its frames are slices of it, and the list keeps its limit
* `LdacCall.Fits` — when this is so, in terms of the lengths that the packet announces

## Main results

* `LdacCall.storeLoop_eq` — what the copying loop appends and reads
* `splitInside_iff` — the packets for which the store keeps its contract
-/

namespace EarbudFirmware.A2dp

/-- `ldac_mtu_limiter`. -/
def ldacMtuLimiter : Nat := 200

/-- `a2dp_audio_ldac_decoder_frame_t`, with the contents of its buffer. -/
structure LdacDecoderFrame where
  sequenceNumber : UInt16
  timestamp : UInt32
  frameSamples : UInt32
  curSubSequenceNumber : UInt16
  totalSubSequenceNumber : UInt16
  buffer : List UInt8
  deriving DecidableEq

/-- The results of `a2dp_audio_ldac_store_packet`. -/
inductive LdacRet where
  | notSupport
  | noError
  | mtuLimterError
  deriving DecidableEq

/-- A call of `a2dp_audio_ldac_store_packet`, in the build without `A2DP_LDAC_BCO`. -/
structure LdacCall where
  /-- `DUMP8` reads what it is given: the build has traces. -/
  traced : Bool
  header : MediaHeader
  /-- The memory from `buffer` on. The packet is its first `bufferBytes` bytes. -/
  memory : Nat → UInt8
  bufferBytes : Nat
  bufferBytes_pos : 0 < bufferBytes
  /-- The length has 16 bits where the packet is received, so that no sum of the source wraps. -/
  bufferBytes_lt : bufferBytes < 0x10000
  /-- `bt_get_ladc_sample_rate`. -/
  sampleRate : Int
  /-- `bt_ldac_player_get_channelmode`. -/
  channelMode : Int

/-- The list, with the stretches of memory (offset from `buffer` and length) that a call has read,
and `nRet`. -/
structure LdacStoring where
  list : List LdacDecoderFrame
  reads : List (Nat × Nat)
  nRet : LdacRet

namespace LdacCall

/-- The bytes that the length of the frame at `i` is read from. -/
def lengthReads (i : Nat) : List (Nat × Nat) := [(1 + (i + 1), 1), (1 + (i + 2), 1)]

variable (c : LdacCall)

/-- `buffer_bytes`, behind its decrement. -/
def payloadBytes : Nat := c.bufferBytes - 1

/-- `buffer[i]`, behind the increment of `buffer`. -/
def byteAt (i : Nat) : UInt8 := c.memory (1 + i)

/-- The `n` bytes at `buffer + i`. -/
def bytesAt (i n : Nat) : List UInt8 := (List.range' i n).map c.byteAt

/-- `frame_len_with_head` of the frame at `i`. -/
def frameLenWithHead (i : Nat) : Nat :=
  let data1 := (c.byteAt (i + 1) &&& 0x07).toNat
  let data2 := (c.byteAt (i + 2)).toNat
  (data1 <<< 6 &&& 0xFFFF ||| data2 >>> 2 &&& 0xFFFF) + 4

theorem frameLenWithHead_pos (i : Nat) : 0 < c.frameLenWithHead i := Nat.succ_pos _

/-- The loop of `get_ldac_frame_num_by_rawdata`, whose count has 8 bits. -/
def frameNumByRawdata (i : Nat) (frameCnt : UInt8) (reads : List (Nat × Nat)) :
    UInt8 × List (Nat × Nat) :=
  if i < c.payloadBytes then
    frameNumByRawdata (i + c.frameLenWithHead i) (frameCnt + 1) (reads ++ lengthReads i)
  else (frameCnt, reads)
termination_by c.payloadBytes - i
decreasing_by
  have := c.frameLenWithHead_pos i
  omega

/-- `sync2`, if the sample rate is one that LDAC has. -/
def sync2 : Option UInt8 :=
  let cci : UInt8 := match c.channelMode with
    | 4 => 0
    | 2 => 1
    | _ => 2
  if c.sampleRate = 44100 then some ((0 : UInt8) <<< 5 ||| cci <<< 3)
  else if c.sampleRate = 48000 then some ((1 : UInt8) <<< 5 ||| cci <<< 3)
  else if c.sampleRate = 2 * 44100 then some ((2 : UInt8) <<< 5 ||| cci <<< 3)
  else if c.sampleRate = 2 * 48000 then some ((3 : UInt8) <<< 5 ||| cci <<< 3)
  else none

/-- The loop of `check_ldac_header`, which looks for the sync word in what is left of the frame. -/
def scanHeader (sync2 : UInt8) : Nat → Nat → List (Nat × Nat) → Bool × List (Nat × Nat)
  | 0, _, reads => (false, reads)
  | left + 1, i, reads =>
    if c.byteAt i = 0xAA then
      if c.byteAt (i + 1) &&& 0xF8 = sync2 then (true, reads ++ [(1 + i, 1), (1 + (i + 1), 1)])
      else scanHeader sync2 left (i + 1) (reads ++ [(1 + i, 1), (1 + (i + 1), 1)])
    else scanHeader sync2 left (i + 1) (reads ++ [(1 + i, 1)])

/-- `check_ldac_header` on the frame of `buffLen` bytes at `i`. -/
def checkLdacHeader (i buffLen : Nat) (reads : List (Nat × Nat)) : Int × List (Nat × Nat) :=
  match c.sync2 with
  | none => (-2, reads)
  | some sync2 =>
    match c.scanHeader sync2 buffLen i reads with
    | (true, reads) => (if buffLen < 2 then -1 else 0, reads)
    | (false, reads) => (-3, reads)

/-- `DUMP8` of 6 bytes. -/
def dumpReads (i : Nat) : List (Nat × Nat) := if c.traced then [(1 + i, 6)] else []

/-- The `frameCnt`-th frame, at `i`. -/
def frameOf (frameNum : UInt8) (i frameCnt : Nat) : LdacDecoderFrame :=
  ⟨c.header.sequenceNumber, c.header.timestamp, 256, .ofNat frameCnt, frameNum.toUInt16,
    c.bytesAt i (c.frameLenWithHead i)⟩

/-- The loop of `a2dp_audio_ldac_store_packet`. -/
def storeLoop (frameNum : UInt8) (i frameCnt : Nat) (w : LdacStoring) : LdacStoring :=
  if i < c.payloadBytes then
    let n := c.frameLenWithHead i
    match c.checkLdacHeader i n (w.reads ++ lengthReads i) with
    | (0, reads) =>
      storeLoop frameNum (i + n) (frameCnt + 1)
        ⟨w.list ++ [c.frameOf frameNum i frameCnt], reads ++ [(1 + i, n)], .noError⟩
    | (_, reads) => { w with reads := reads ++ c.dumpReads i }
  else w
termination_by c.payloadBytes - i
decreasing_by
  have := c.frameLenWithHead_pos i
  omega

end LdacCall

/-- `a2dp_audio_ldac_store_packet`. -/
def ldacStorePacket (c : LdacCall) (list : List LdacDecoderFrame) : LdacStoring :=
  let (frameNum, reads) := c.frameNumByRawdata 0 0 []
  if list.length + frameNum.toNat < ldacMtuLimiter then
    c.storeLoop frameNum 0 0 ⟨list, reads, .notSupport⟩
  else ⟨list, reads, .mtuLimterError⟩

/-! ### The contract -/

/-- The bytes of the packet. -/
def LdacCall.packet (c : LdacCall) : List UInt8 := (List.range c.bufferBytes).map c.memory

/-- Everything that was read lies in the packet. -/
def LdacCall.Inside (c : LdacCall) (reads : List (Nat × Nat)) : Prop :=
  ∀ r ∈ reads, r.1 + r.2 ≤ c.bufferBytes

/-- Only the packet is read, the appended frames follow each other in it from its second byte on,
and the list keeps its limit. -/
structure SplitInside (c : LdacCall) (list : List LdacDecoderFrame) (out : LdacStoring) : Prop where
  inside : c.Inside out.reads
  slices : ∃ frames, out.list = list ++ frames ∧ frames.flatMap (·.buffer) <+: c.packet.tail
  bounded : list.length ≤ ldacMtuLimiter → out.list.length ≤ ldacMtuLimiter

namespace LdacCall

variable (c : LdacCall)

/-! ### The frames that a packet announces -/

/-- Where the frames from `i` on begin, by the lengths they announce. -/
def frameStarts (i : Nat) : List Nat :=
  if i < c.payloadBytes then i :: frameStarts (i + c.frameLenWithHead i) else []
termination_by c.payloadBytes - i
decreasing_by
  have := c.frameLenWithHead_pos i
  omega

/-- `check_ldac_header` accepts the frame at `i`. -/
def accepts (i : Nat) : Bool := (c.checkLdacHeader i (c.frameLenWithHead i) []).1 == 0

/-- The frames up to the first one that is refused, and with it. -/
def tried : List Nat → List Nat
  | [] => []
  | i :: is => i :: if c.accepts i then tried is else []

/-- The frame at `i` ends with the packet, and is without a sync word up to its last byte, which may
be the beginning of one. -/
def EndsOpen (i : Nat) : Prop :=
  i + c.frameLenWithHead i = c.payloadBytes ∧ c.byteAt (c.payloadBytes - 1) = 0xAA ∧
    ∀ j, i ≤ j → j + 1 < c.payloadBytes →
      ¬(c.byteAt j = 0xAA ∧ some (c.byteAt (j + 1) &&& 0xF8) = c.sync2)

/-- The list has room by the count of the frames, which has 8 bits. -/
def Opens (len : Nat) : Prop := len + (c.frameStarts 0).length % 256 < ldacMtuLimiter

/-- What a packet has to be for the contract, where the list has `len` frames. -/
structure Fits (len : Nat) : Prop where
  /-- No frame is cut off in front of its length. -/
  lengths : ∀ i ∈ c.frameStarts 0, i + 3 ≤ c.payloadBytes
  /-- No frame that is tried is cut off, or ends with what may be the beginning of a sync word. -/
  whole : c.Opens len → c.sync2 ≠ none → ∀ i ∈ c.tried (c.frameStarts 0),
    i + c.frameLenWithHead i ≤ c.payloadBytes ∧ ¬c.EndsOpen i
  /-- The dump of a frame that is refused stays inside the packet. -/
  dumped : c.Opens len → c.traced → ∀ i ∈ c.tried (c.frameStarts 0), c.accepts i = false →
    i + 6 ≤ c.payloadBytes
  /-- The frames that are accepted have room. -/
  room : c.Opens len → len + ((c.frameStarts 0).takeWhile c.accepts).length ≤ ldacMtuLimiter

/-! ### What the passes compute -/

variable {c}

theorem scanHeader_append (sync2 : UInt8) (left i : Nat) (reads : List (Nat × Nat)) :
    c.scanHeader sync2 left i reads =
      ((c.scanHeader sync2 left i []).1, reads ++ (c.scanHeader sync2 left i []).2) := by
  induction left generalizing i reads with
  | zero => simp [scanHeader]
  | succ left ih =>
    simp only [scanHeader]
    split
    · split
      · rfl
      · rw [ih, ih (i + 1) ([] ++ _)]
        simp
    · rw [ih, ih (i + 1) ([] ++ _)]
      simp

theorem checkLdacHeader_append (i n : Nat) (reads : List (Nat × Nat)) :
    c.checkLdacHeader i n reads =
      ((c.checkLdacHeader i n []).1, reads ++ (c.checkLdacHeader i n []).2) := by
  simp only [checkLdacHeader]
  cases c.sync2 with
  | none => simp
  | some sync2 =>
    simp only [scanHeader_append sync2 n i reads]
    rcases c.scanHeader sync2 n i [] with ⟨_ | _, _⟩ <;> rfl

theorem frameNumByRawdata_eq (i : Nat) (frameCnt : UInt8) (reads : List (Nat × Nat)) :
    c.frameNumByRawdata i frameCnt reads =
      (frameCnt + .ofNat (c.frameStarts i).length,
        reads ++ (c.frameStarts i).flatMap lengthReads) := by
  fun_induction frameNumByRawdata c i frameCnt reads with
  | case1 i frameCnt reads hi ih =>
    rw [frameStarts, if_pos hi, ih]
    simp [UInt8.ofNat_add, UInt8.add_assoc, UInt8.add_comm 1]
  | case2 i frameCnt reads hi =>
    rw [frameStarts, if_neg hi]
    simp

/-- What the copying loop reads at a frame that it tries. -/
def tryReads (c : LdacCall) (i : Nat) : List (Nat × Nat) :=
  lengthReads i ++ (c.checkLdacHeader i (c.frameLenWithHead i) []).2 ++
    if c.accepts i then [(1 + i, c.frameLenWithHead i)] else c.dumpReads i

/-- The frames at `is`, numbered from `frameCnt` on. -/
def framesAt (c : LdacCall) (frameNum : UInt8) (frameCnt : Nat) (is : List Nat) :
    List LdacDecoderFrame :=
  is.mapIdx fun k i => c.frameOf frameNum i (frameCnt + k)

/-- The copying loop appends the accepted frames and reads those that it tries. -/
theorem storeLoop_eq (frameNum : UInt8) (i frameCnt : Nat) (w : LdacStoring) :
    c.storeLoop frameNum i frameCnt w =
      ⟨w.list ++ c.framesAt frameNum frameCnt ((c.frameStarts i).takeWhile c.accepts),
        w.reads ++ (c.tried (c.frameStarts i)).flatMap c.tryReads,
        if (c.frameStarts i).takeWhile c.accepts = [] then w.nRet else .noError⟩ := by
  fun_induction storeLoop c frameNum i frameCnt w with
  | case1 i frameCnt w hi n reads hcheck ih =>
    rw [checkLdacHeader_append] at hcheck
    obtain ⟨hstatus, rfl⟩ := Prod.mk.inj hcheck
    have haccepts : c.accepts i = true := by simpa [accepts] using hstatus
    rw [ih, frameStarts.eq_1 c i, if_pos hi]
    simp [tried, tryReads, haccepts, framesAt, List.mapIdx_cons, add_assoc, add_comm 1, n]
  | case2 i frameCnt w hi n status reads hstatus hcheck =>
    rw [checkLdacHeader_append] at hcheck
    obtain ⟨rfl, rfl⟩ := Prod.mk.inj hcheck
    have haccepts : c.accepts i = false := by simpa [accepts] using hstatus
    rw [frameStarts, if_pos hi]
    simp [tried, tryReads, haccepts, framesAt, n]
  | case3 i frameCnt w hi =>
    rw [frameStarts, if_neg hi]
    simp [tried, framesAt]

/-! ### Reading inside the packet -/

theorem payloadBytes_add_one (c : LdacCall) : c.payloadBytes + 1 = c.bufferBytes :=
  Nat.sub_add_cancel c.bufferBytes_pos

@[simp] theorem inside_nil : c.Inside [] := by simp [Inside]

@[simp] theorem inside_append {rs rs' : List (Nat × Nat)} :
    c.Inside (rs ++ rs') ↔ c.Inside rs ∧ c.Inside rs' := by
  simp only [Inside, List.mem_append, or_imp, forall_and]

@[simp] theorem inside_cons {i n : Nat} {rs : List (Nat × Nat)} :
    c.Inside ((1 + i, n) :: rs) ↔ i + n ≤ c.payloadBytes ∧ c.Inside rs := by
  have := c.payloadBytes_add_one
  simp only [Inside, List.forall_mem_cons]
  exact and_congr_left fun _ => by omega

theorem inside_flatMap {is : List Nat} {f : Nat → List (Nat × Nat)} :
    c.Inside (is.flatMap f) ↔ ∀ i ∈ is, c.Inside (f i) := by
  constructor
  · intro h i hi r hr
    exact h r (List.mem_flatMap.mpr ⟨i, hi, hr⟩)
  · intro h r hr
    obtain ⟨i, hi, hr⟩ := List.mem_flatMap.mp hr
    exact h i hi r hr

theorem inside_lengthReads {i : Nat} : c.Inside (lengthReads i) ↔ i + 3 ≤ c.payloadBytes := by
  simp only [lengthReads, inside_cons, inside_nil, and_true]
  omega

/-- The scan for a sync word of a frame that fits stays inside, unless it comes to the last byte of
the packet and finds the beginning of a sync word there. -/
theorem inside_scanHeader {sync2 : UInt8} {n i : Nat} (hn : 0 < n)
    (hfits : i + n ≤ c.payloadBytes) :
    c.Inside (c.scanHeader sync2 n i []).2 ↔
      ¬(i + n = c.payloadBytes ∧ c.byteAt (c.payloadBytes - 1) = 0xAA ∧
        ∀ j, i ≤ j → j + 1 < c.payloadBytes →
          ¬(c.byteAt j = 0xAA ∧ c.byteAt (j + 1) &&& 0xF8 = sync2)) := by
  induction n generalizing i with
  | zero => exact absurd hn (Nat.lt_irrefl 0)
  | succ n ih =>
    -- the rest of the scan, where the frame does not end and no sync word is at its first byte
    have hrest (hnone : ¬(c.byteAt i = 0xAA ∧ c.byteAt (i + 1) &&& 0xF8 = sync2)) (hpos : 0 < n) :
        c.Inside (c.scanHeader sync2 n (i + 1) []).2 ↔
          ¬(i + (n + 1) = c.payloadBytes ∧ c.byteAt (c.payloadBytes - 1) = 0xAA ∧
            ∀ j, i ≤ j → j + 1 < c.payloadBytes →
              ¬(c.byteAt j = 0xAA ∧ c.byteAt (j + 1) &&& 0xF8 = sync2)) := by
      rw [ih hpos (by omega), Nat.add_right_comm i 1 n, ← Nat.add_assoc i n 1]
      refine not_congr (and_congr_right fun _ => and_congr_right fun _ => ⟨?_, ?_⟩)
      · intro h j hij hj
        rcases Nat.eq_or_lt_of_le hij with rfl | hij
        · exact hnone
        · exact h j hij hj
      · intro h j hij hj
        exact h j (Nat.le_of_succ_le hij) hj
    by_cases hbyte : c.byteAt i = 0xAA
    · by_cases hsync : c.byteAt (i + 1) &&& 0xF8 = sync2
      · simp only [scanHeader, if_pos hbyte, if_pos hsync, List.nil_append, inside_cons,
          inside_nil, and_true]
        constructor
        · rintro ⟨-, hin⟩ ⟨-, -, hnone⟩
          exact hnone i le_rfl hin ⟨hbyte, hsync⟩
        · intro hopen
          refine ⟨by omega, ?_⟩
          by_contra hout
          have hlast : i = c.payloadBytes - 1 := by omega
          exact hopen ⟨by omega, hlast ▸ hbyte, fun j hij hj => by omega⟩
      · rw [scanHeader, if_pos hbyte, if_neg hsync, List.nil_append, scanHeader_append]
        simp only [inside_append, inside_cons, inside_nil, and_true]
        rcases n.eq_zero_or_pos with rfl | hpos
        · simp only [scanHeader, inside_nil, and_true]
          constructor
          · rintro ⟨-, hin⟩ ⟨hend, -⟩
            omega
          · intro hopen
            refine ⟨by omega, ?_⟩
            by_contra hout
            have hlast : i = c.payloadBytes - 1 := by omega
            exact hopen ⟨by omega, hlast ▸ hbyte, fun j hij hj => by omega⟩
        · rw [hrest (fun h => hsync h.2) hpos]
          exact and_iff_right ⟨by omega, by omega⟩
    · rw [scanHeader, if_neg hbyte, List.nil_append, scanHeader_append]
      simp only [inside_append, inside_cons, inside_nil, and_true]
      rw [and_iff_right (by omega)]
      rcases n.eq_zero_or_pos with rfl | hpos
      · refine iff_of_true inside_nil ?_
        rintro ⟨hend, hlast, -⟩
        have : c.payloadBytes - 1 = i := by omega
        exact hbyte (this ▸ hlast)
      · exact hrest (fun h => hbyte h.1) hpos

/-- A scan that finds nothing reads the whole frame. -/
theorem le_of_scanHeader {sync2 : UInt8} {n i : Nat} (hn : 0 < n)
    (hnone : (c.scanHeader sync2 n i []).1 = false)
    (hin : c.Inside (c.scanHeader sync2 n i []).2) : i + n ≤ c.payloadBytes := by
  induction n generalizing i with
  | zero => exact absurd hn (Nat.lt_irrefl 0)
  | succ n ih =>
    have hrest (h : i + 1 ≤ c.payloadBytes) (hnone : (c.scanHeader sync2 n (i + 1) []).1 = false)
        (hin : c.Inside (c.scanHeader sync2 n (i + 1) []).2) : i + (n + 1) ≤ c.payloadBytes := by
      rcases n.eq_zero_or_pos with rfl | hpos
      · exact h
      · have := ih hpos hnone hin
        omega
    rw [scanHeader] at hnone hin
    split at hnone
    · split at hnone
      · exact absurd hnone (Bool.false_ne_true ∘ Eq.symm)
      · rename_i hbyte hsync
        rw [scanHeader_append] at hnone
        rw [if_pos hbyte, if_neg hsync, scanHeader_append] at hin
        simp only [List.nil_append, inside_append, inside_cons, inside_nil, and_true] at hin
        exact hrest hin.1.1 hnone hin.2
    · rename_i hbyte
      rw [scanHeader_append] at hnone
      rw [if_neg hbyte, scanHeader_append] at hin
      simp only [List.nil_append, inside_append, inside_cons, inside_nil, and_true] at hin
      exact hrest hin.1 hnone hin.2

/-- What the loop reads at a frame that it tries. -/
theorem inside_tryReads {i : Nat} :
    c.Inside (c.tryReads i) ↔ i + 3 ≤ c.payloadBytes ∧
      (c.sync2 ≠ none → i + c.frameLenWithHead i ≤ c.payloadBytes ∧ ¬c.EndsOpen i) ∧
      (c.traced → c.accepts i = false → i + 6 ≤ c.payloadBytes) := by
  have hdump : c.Inside (c.dumpReads i) ↔ (c.traced → i + 6 ≤ c.payloadBytes) := by
    cases htraced : c.traced <;> simp [dumpReads, htraced]
  have hpos := c.frameLenWithHead_pos i
  have hfour : ¬c.frameLenWithHead i < 2 := by
    simp only [frameLenWithHead]
    omega
  rw [tryReads, inside_append, inside_append, inside_lengthReads, and_assoc]
  refine and_congr_right fun _ => ?_
  cases hsync : c.sync2 with
  | none =>
    have haccepts : c.accepts i = false := by simp [accepts, checkLdacHeader, hsync]
    simp [checkLdacHeader, hsync, haccepts, hdump]
  | some sync2 =>
    have hscan := @inside_scanHeader c sync2 _ i hpos
    have hopen : c.EndsOpen i ↔ i + c.frameLenWithHead i = c.payloadBytes ∧
        c.byteAt (c.payloadBytes - 1) = 0xAA ∧ ∀ j, i ≤ j → j + 1 < c.payloadBytes →
          ¬(c.byteAt j = 0xAA ∧ c.byteAt (j + 1) &&& 0xF8 = sync2) := by
      simp only [EndsOpen, hsync, Option.some.injEq]
    rw [← hopen] at hscan
    have hnone := @le_of_scanHeader c sync2 _ i hpos
    cases hfound : c.scanHeader sync2 (c.frameLenWithHead i) i [] with
    | mk found reads =>
      rw [hfound] at hscan hnone
      cases found with
      | true =>
        have haccepts : c.accepts i = true := by
          simp [accepts, checkLdacHeader, hsync, hfound, hfour]
        simp only [checkLdacHeader, hsync, hfound, haccepts, if_true, inside_cons, inside_nil,
          and_true, ne_eq, reduceCtorEq, not_false_eq_true, forall_const, implies_true,
          Bool.true_eq_false, false_imp_iff]
        exact ⟨fun h => ⟨h.2, (hscan h.2).mp h.1⟩, fun h => ⟨(hscan h.1).mpr h.2, h.1⟩⟩
      | false =>
        have haccepts : c.accepts i = false := by
          simp [accepts, checkLdacHeader, hsync, hfound]
        simp only [checkLdacHeader, hsync, hfound, haccepts, Bool.false_eq_true, if_false, ne_eq,
          reduceCtorEq, not_false_eq_true, forall_const, hdump]
        refine and_congr_left fun _ => ⟨fun h => ?_, fun h => (hscan h.1).mpr h.2⟩
        exact ⟨hnone rfl h, (hscan (hnone rfl h)).mp h⟩

/-! ### The frames are slices of the packet -/

theorem bytesAt_append (i m n : Nat) :
    c.bytesAt i (m + n) = c.bytesAt i m ++ c.bytesAt (i + m) n := by
  simp [bytesAt, ← List.range'_append_1]

theorem packet_tail : c.packet.tail = c.bytesAt 0 c.payloadBytes := by
  rw [packet, ← c.payloadBytes_add_one, List.range_succ_eq_map, bytesAt, ← List.range_eq_range']
  simp [byteAt, Function.comp_def, Nat.add_comm]

theorem framesAt_flatMap (frameNum : UInt8) (frameCnt : Nat) (is : List Nat) :
    (c.framesAt frameNum frameCnt is).flatMap (·.buffer) =
      is.flatMap fun i => c.bytesAt i (c.frameLenWithHead i) := by
  induction is generalizing frameCnt with
  | nil => rfl
  | cons i is ih =>
    have htail : c.framesAt frameNum frameCnt (i :: is) =
        c.frameOf frameNum i frameCnt :: c.framesAt frameNum (frameCnt + 1) is := by
      simp [framesAt, List.mapIdx_cons, add_assoc, add_comm 1]
    rw [htail, List.flatMap_cons, List.flatMap_cons, ih, frameOf]

/-- The accepted frames follow each other from `i` on, as long as they fit. -/
theorem accepted_prefix (i : Nat)
    (hfits : ∀ j ∈ (c.frameStarts i).takeWhile c.accepts,
      j + c.frameLenWithHead j ≤ c.payloadBytes) :
    ((c.frameStarts i).takeWhile c.accepts).flatMap
        (fun j => c.bytesAt j (c.frameLenWithHead j)) <+:
      c.bytesAt i (c.payloadBytes - i) := by
  fun_induction frameStarts c i with
  | case1 i hi ih =>
    cases haccepts : c.accepts i with
    | false => simp [haccepts]
    | true =>
      rw [List.takeWhile_cons_of_pos haccepts] at hfits ⊢
      have hfit := hfits i List.mem_cons_self
      have hsplit : c.payloadBytes - i =
          c.frameLenWithHead i + (c.payloadBytes - (i + c.frameLenWithHead i)) := by omega
      rw [List.flatMap_cons, hsplit, bytesAt_append]
      have hrest := ih fun j hj => hfits j (List.mem_cons_of_mem _ hj)
      exact (List.prefix_append_right_inj _).mpr hrest
  | case2 i hi => exact List.nil_prefix

theorem mem_tried_of_accepted {is : List Nat} {j : Nat} (hj : j ∈ is.takeWhile c.accepts) :
    j ∈ c.tried is := by
  induction is with
  | nil => exact absurd hj List.not_mem_nil
  | cons i is ih =>
    rw [tried]
    cases haccepts : c.accepts i with
    | false => simp [haccepts] at hj
    | true =>
      rw [List.takeWhile_cons_of_pos haccepts] at hj
      exact (List.mem_cons.mp hj).elim (fun h => h ▸ List.mem_cons_self) fun h =>
        List.mem_cons_of_mem _ (ih h)

theorem mem_of_mem_tried {is : List Nat} {j : Nat} (hj : j ∈ c.tried is) : j ∈ is := by
  induction is with
  | nil => exact hj
  | cons i is ih =>
    rw [tried] at hj
    refine (List.mem_cons.mp hj).elim (fun h => h ▸ List.mem_cons_self) fun h => ?_
    cases haccepts : c.accepts i with
    | false => simp [haccepts] at h
    | true =>
      rw [if_pos haccepts] at h
      exact List.mem_cons_of_mem _ (ih h)

/-- Without a sync word to look for, no frame is accepted. -/
theorem sync2_ne_none {i : Nat} (h : c.accepts i = true) : c.sync2 ≠ none := by
  intro hsync
  simp [accepts, checkLdacHeader, hsync] at h

end LdacCall

/-! ### When the contract holds -/

variable {c : LdacCall} {list : List LdacDecoderFrame}

/-- What the call reads and appends. -/
theorem ldacStorePacket_eq (c : LdacCall) (list : List LdacDecoderFrame) :
    (c.Opens list.length ∧ ldacStorePacket c list =
      ⟨list ++ c.framesAt (.ofNat (c.frameStarts 0).length) 0
          ((c.frameStarts 0).takeWhile c.accepts),
        (c.frameStarts 0).flatMap LdacCall.lengthReads ++
          (c.tried (c.frameStarts 0)).flatMap c.tryReads,
        if (c.frameStarts 0).takeWhile c.accepts = [] then .notSupport else .noError⟩) ∨
    (¬c.Opens list.length ∧ ldacStorePacket c list =
      ⟨list, (c.frameStarts 0).flatMap LdacCall.lengthReads, .mtuLimterError⟩) := by
  simp only [ldacStorePacket, LdacCall.frameNumByRawdata_eq, UInt8.zero_add, List.nil_append,
    UInt8.toNat_ofNat']
  by_cases hopen : c.Opens list.length
  · exact .inl ⟨hopen, (if_pos hopen).trans (LdacCall.storeLoop_eq _ 0 0 _)⟩
  · exact .inr ⟨hopen, if_neg hopen⟩

/-- The store keeps to the packet, cuts it into consecutive frames and keeps the limit of the list,
for exactly the packets whose lengths and sync words fit. -/
theorem splitInside_iff (c : LdacCall) (list : List LdacDecoderFrame) :
    SplitInside c list (ldacStorePacket c list) ↔ c.Fits list.length := by
  rcases ldacStorePacket_eq c list with ⟨hopen, heq⟩ | ⟨hopen, heq⟩
  · rw [heq]
    have hlength (frameNum : UInt8) (is : List Nat) :
        (list ++ c.framesAt frameNum 0 is).length = list.length + is.length := by
      simp [LdacCall.framesAt]
    constructor
    · intro h
      obtain ⟨hlengths, htried⟩ := LdacCall.inside_append.mp h.inside
      rw [LdacCall.inside_flatMap] at hlengths htried
      have htry i hi := LdacCall.inside_tryReads.mp (htried i hi)
      refine ⟨fun i hi => LdacCall.inside_lengthReads.mp (hlengths i hi),
        fun _ hsync i hi => (htry i hi).2.1 hsync, fun _ ht i hi => (htry i hi).2.2 ht, fun _ => ?_⟩
      have hroom : list.length ≤ ldacMtuLimiter := by
        have := Nat.le_of_lt hopen
        omega
      have := h.bounded hroom
      rwa [hlength] at this
    · intro h
      have haccepted : ∀ j ∈ (c.frameStarts 0).takeWhile c.accepts,
          j + c.frameLenWithHead j ≤ c.payloadBytes := fun j hj =>
        (h.whole hopen (LdacCall.sync2_ne_none (List.mem_takeWhile_imp hj)) j
          (LdacCall.mem_tried_of_accepted hj)).1
      refine ⟨?_, ⟨_, rfl, ?_⟩, fun _ => ?_⟩
      · rw [LdacCall.inside_append, LdacCall.inside_flatMap, LdacCall.inside_flatMap]
        refine ⟨fun i hi => LdacCall.inside_lengthReads.mpr (h.lengths i hi), fun i hi => ?_⟩
        exact LdacCall.inside_tryReads.mpr ⟨h.lengths i (LdacCall.mem_of_mem_tried hi),
          fun hsync => h.whole hopen hsync i hi, fun ht => h.dumped hopen ht i hi⟩
      · rw [LdacCall.framesAt_flatMap, LdacCall.packet_tail]
        exact LdacCall.accepted_prefix 0 haccepted
      · rw [hlength]
        exact h.room hopen
  · rw [heq]
    constructor
    · intro h
      have hlengths := LdacCall.inside_flatMap.mp h.inside
      exact ⟨fun i hi => LdacCall.inside_lengthReads.mp (hlengths i hi),
        fun h => absurd h hopen, fun h => absurd h hopen, fun h => absurd h hopen⟩
    · intro h
      refine ⟨?_, ⟨[], (List.append_nil list).symm, List.nil_prefix⟩, id⟩
      exact LdacCall.inside_flatMap.mpr fun i hi => LdacCall.inside_lengthReads.mpr (h.lengths i hi)

/-- A packet of four bytes whose only frame announces twelve bytes. -/
def cutOffCall : LdacCall where
  traced := false
  header := ⟨7, 1024⟩
  memory i := [0x01, 0xAA, 0x30, 0x20].getD i 0
  bufferBytes := 4
  bufferBytes_pos := by decide
  bufferBytes_lt := by decide
  sampleRate := 48000
  channelMode := 1

/-- The frame is copied with what follows the packet in memory. -/
theorem cutOffCall_not_splitInside :
    ¬SplitInside cutOffCall [] (ldacStorePacket cutOffCall []) := by
  have hstarts : cutOffCall.frameStarts 0 = [0] := by
    rw [LdacCall.frameStarts, if_pos (by decide), LdacCall.frameStarts, if_neg (by decide)]
  have htried : 0 ∈ cutOffCall.tried [0] := by simp [LdacCall.tried]
  have hopen : cutOffCall.Opens 0 := by
    rw [LdacCall.Opens, hstarts]
    decide
  obtain ⟨-, heq⟩ | ⟨hclosed, -⟩ := ldacStorePacket_eq cutOffCall []
  · intro h
    rw [heq, hstarts] at h
    have hread := LdacCall.inside_flatMap.mp (LdacCall.inside_append.mp h.inside).2 0 htried
    have hend := ((LdacCall.inside_tryReads.mp hread).2.1 (by decide)).1
    exact absurd hend (by decide)
  · exact absurd hopen hclosed

end EarbudFirmware.A2dp
