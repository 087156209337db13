import EarbudFirmware.Lib.Simulation
import EarbudFirmware.Utils.Bytes
import EarbudFirmware.Utils.Kfifo

/-!
# The buffer of the tool stream

A circular buffer with two positions and two counters. A flush discards what is stored, and the next
read that asks for it is told how much was discarded. The comparisons of the write and of the read
are strict: the buffer is never filled, and never emptied by a read.

## Main definitions

* `StreamBuf` — the buffer, with the functions of the source
* `StreamFifo` — a bounded queue that counts what it discards
* `StreamFifo.Inner` — calls that neither fill nor empty the queue, and reads that find at most the
  last flush to report

## Main results

* `StreamBuf.Fits.call` — the positions and the counters fit together after every call
* `fifo_iff_inner` — the buffer answers like the queue exactly to calls of this kind
-/

namespace EarbudFirmware.Tota

open NorMemory (Content overlay)

/-- `TOTA_STREAM_BUF_SIZE`. -/
def streamBufSize : Nat := 2048

/-- A call of the interface; a read may ask for the number of discarded bytes. -/
inductive StreamCall where
  | write (buf : List UInt8)
  | read (readSize : Nat) (flushbytes : Bool)
  | flush

/-- The answer to a call: whether a write is accepted, the bytes of an accepted read with the number
of discarded bytes that it reports, or nothing. -/
inductive StreamAnswer where
  | write (accepted : Bool)
  | read (result : Option (List UInt8 × Option Nat))
  | flush
  deriving DecidableEq

/-- The call was answered with `false`. -/
def StreamAnswer.Rejected (a : StreamAnswer) : Prop := a = .write false ∨ a = .read none

/-! ### The buffer -/

/-- `stream_buf_t`. -/
structure StreamBuf where
  buf : Content
  dataSize : Nat
  availableSpace : Nat
  writePos : Nat
  readPos : Nat
  flushBytes : Nat

namespace StreamBuf

/-- `tota_stream_buffer_init`. -/
def init (buf : Content) : StreamBuf := ⟨buf, 0, streamBufSize, 0, 0, 0⟩

/-- The bytes and the position behind a write. -/
def copyIn (s : StreamBuf) (buf : List UInt8) : Content × Nat :=
  let src := fun i => buf.getD i 0
  if s.writePos + buf.length ≤ streamBufSize then
    (overlay s.writePos buf.length src s.buf,
      if s.writePos + buf.length = streamBufSize then 0 else s.writePos + buf.length)
  else
    let part1 := streamBufSize - s.writePos
    (overlay 0 (buf.length - part1) (fun i => src (part1 + i)) (overlay s.writePos part1 src s.buf),
      buf.length - part1)

/-- `tota_stream_buffer_write`. -/
def write (s : StreamBuf) (buf : List UInt8) : StreamBuf × Bool :=
  if s.availableSpace > buf.length then
    ({ s with
        buf := (s.copyIn buf).1
        writePos := (s.copyIn buf).2
        dataSize := s.dataSize + buf.length
        availableSpace := s.availableSpace - buf.length }, true)
  else (s, false)

/-- The bytes of a read, and the position behind it. -/
def copyOut (s : StreamBuf) (readSize : Nat) : List UInt8 × Nat :=
  if s.readPos + readSize ≤ streamBufSize then
    ((List.range readSize).map fun i => s.buf (s.readPos + i),
      if s.readPos + readSize = streamBufSize then 0 else s.readPos + readSize)
  else
    let part1 := streamBufSize - s.readPos
    ((List.range part1).map (fun i => s.buf (s.readPos + i)) ++
      (List.range (readSize - part1)).map s.buf, readSize - part1)

/-- `tota_stream_buffer_read`. -/
def read (s : StreamBuf) (readSize : Nat) (flushbytes : Bool) :
    StreamBuf × Option (List UInt8 × Option Nat) :=
  if readSize < s.dataSize then
    ({ s with
        readPos := (s.copyOut readSize).2
        dataSize := s.dataSize - readSize
        availableSpace := s.availableSpace + readSize
        flushBytes := if flushbytes then 0 else s.flushBytes },
      some ((s.copyOut readSize).1, if flushbytes then some s.flushBytes else none))
  else (s, none)

/-- `tota_stream_buffer_flush`. -/
def flush (s : StreamBuf) : StreamBuf :=
  { s with
    flushBytes := s.dataSize
    availableSpace := streamBufSize
    dataSize := 0
    readPos := 0
    writePos := 0 }

/-- Executes a call. -/
def call (s : StreamBuf) : StreamCall → StreamBuf × StreamAnswer
  | .write buf => ((s.write buf).1, .write (s.write buf).2)
  | .read readSize flushbytes =>
    ((s.read readSize flushbytes).1, .read (s.read readSize flushbytes).2)
  | .flush => (s.flush, .flush)

/-- The bytes in the buffer, oldest first. -/
def contents (s : StreamBuf) : List UInt8 := Ring.cells s.buf streamBufSize s.readPos s.dataSize

/-- The positions and the counters fit together. -/
structure Fits (s : StreamBuf) : Prop where
  sum : s.dataSize + s.availableSpace = streamBufSize
  readPos_lt : s.readPos < streamBufSize
  writePos_lt : s.writePos < streamBufSize
  writePos_eq : s.writePos = (s.readPos + s.dataSize) % streamBufSize

end StreamBuf

/-! ### The queue -/

/-- A queue of bytes that fit into the buffer, and what the flushes since the last report discarded,
the newest first. -/
structure StreamFifo where
  bytes : List UInt8
  discards : List Nat
  le : bytes.length ≤ streamBufSize

namespace StreamFifo

/-- Nothing is stored, and nothing has been discarded. -/
def empty : StreamFifo := ⟨[], [], Nat.zero_le _⟩

/-- Executes a call: a write is accepted when the bytes fit, a read when there are as many bytes,
and the bytes that were discarded since the last report are reported. -/
def call (f : StreamFifo) : StreamCall → StreamFifo × StreamAnswer
  | .write buf =>
    if h : (f.bytes ++ buf).length ≤ streamBufSize then
      ({ f with bytes := f.bytes ++ buf, le := h }, .write true)
    else (f, .write false)
  | .read readSize flushbytes =>
    if readSize ≤ f.bytes.length then
      ({ bytes := f.bytes.drop readSize
         discards := if flushbytes then [] else f.discards
         le := by rw [List.length_drop]; exact Nat.le_trans (Nat.sub_le _ _) f.le },
        .read (some (f.bytes.take readSize, if flushbytes then some f.discards.sum else none)))
    else (f, .read none)
  | .flush => (⟨[], f.bytes.length :: f.discards, Nat.zero_le _⟩, .flush)

/-- A write does not fill the buffer exactly, a read does not take all bytes, and one that is
accepted and reports finds nothing discarded by the flushes before the last one. -/
def Inner (f : StreamFifo) : StreamCall → Prop
  | .write buf => f.bytes.length + buf.length ≠ streamBufSize
  | .read readSize flushbytes => readSize ≠ f.bytes.length ∧
      (flushbytes = true → readSize < f.bytes.length → ∀ k ∈ f.discards.tail, k = 0)
  | .flush => True

end StreamFifo

/-! ### Copying -/

namespace StreamBuf

variable {s : StreamBuf} {f : StreamFifo} {buf : List UInt8} {readSize : Nat}

/-- A position that goes round. -/
theorem position_eq {pos n : Nat} (hpos : pos < streamBufSize) (hn : n ≤ streamBufSize) :
    (if pos + n ≤ streamBufSize then if pos + n = streamBufSize then 0 else pos + n
      else n - (streamBufSize - pos)) = (pos + n) % streamBufSize := by
  rw [Ring.index_eq hpos hn]
  split_ifs <;> omega

theorem copyIn_snd (hpos : s.writePos < streamBufSize) (hlen : buf.length ≤ streamBufSize) :
    (s.copyIn buf).2 = (s.writePos + buf.length) % streamBufSize := by
  rw [← position_eq hpos hlen, copyIn]
  split <;> rfl

/-- The bytes are written from the position on, and go round at the end of the buffer. -/
theorem copyIn_written (hpos : s.writePos < streamBufSize) (hlen : buf.length ≤ streamBufSize) :
    Ring.Written s.buf (s.copyIn buf).1 streamBufSize s.writePos buf.length
      fun i => buf.getD i 0 := by
  have hpieces : Ring.Written s.buf _ streamBufSize s.writePos buf.length fun i => buf.getD i 0 :=
    Kfifo.written_pieces hpos hlen
  rw [copyIn]
  split
  · rwa [Nat.min_eq_left (by omega), Nat.sub_self, NorMemory.overlay_none] at hpieces
  · rwa [Nat.min_eq_right (by omega)] at hpieces

theorem copyOut_snd (hpos : s.readPos < streamBufSize) (hlen : readSize ≤ streamBufSize) :
    (s.copyOut readSize).2 = (s.readPos + readSize) % streamBufSize := by
  rw [← position_eq hpos hlen, copyOut]
  split <;> rfl

theorem copyOut_fst (hpos : s.readPos < streamBufSize) (hlen : readSize ≤ streamBufSize) :
    (s.copyOut readSize).1 = Ring.cells s.buf streamBufSize s.readPos readSize := by
  have hpieces : _ = Ring.cells s.buf streamBufSize s.readPos readSize :=
    Kfifo.cells_pieces hpos hlen
  rw [copyOut]
  split
  · rwa [Nat.min_eq_left (by omega), Nat.sub_self, List.range_zero, List.map_nil,
      List.append_nil] at hpieces
  · rwa [Nat.min_eq_right (by omega)] at hpieces

/-! ### The positions and the counters -/

theorem fits_init (buf : Content) : (init buf).Fits :=
  ⟨Nat.zero_add _, Nat.succ_pos _, Nat.succ_pos _, rfl⟩

theorem Fits.size_pos (h : s.Fits) : 0 < streamBufSize := Nat.zero_lt_of_lt h.readPos_lt

theorem Fits.write (h : s.Fits) (buf : List UInt8) : (s.write buf).1.Fits := by
  have hsum := h.sum
  rw [StreamBuf.write]
  split
  · refine ⟨?_, h.readPos_lt, ?_, ?_⟩ <;> dsimp only
    · omega
    · rw [copyIn_snd h.writePos_lt (by omega)]
      exact Nat.mod_lt _ h.size_pos
    · rw [copyIn_snd h.writePos_lt (by omega), h.writePos_eq, Nat.mod_add_mod, Nat.add_assoc]
  · exact h

theorem Fits.read (h : s.Fits) (readSize : Nat) (flushbytes : Bool) :
    (s.read readSize flushbytes).1.Fits := by
  have hsum := h.sum
  rw [StreamBuf.read]
  split
  · refine ⟨?_, ?_, h.writePos_lt, ?_⟩ <;> dsimp only
    · omega
    · rw [copyOut_snd h.readPos_lt (by omega)]
      exact Nat.mod_lt _ h.size_pos
    · rw [copyOut_snd h.readPos_lt (by omega), h.writePos_eq, Nat.mod_add_mod, Nat.add_assoc,
        Nat.add_sub_cancel' (by omega)]
  · exact h

/-- Every call keeps the positions and the counters together. -/
theorem Fits.call (h : s.Fits) (c : StreamCall) : (s.call c).1.Fits := by
  cases c with
  | write buf => exact h.write buf
  | read readSize flushbytes => exact h.read readSize flushbytes
  | flush => exact ⟨Nat.zero_add _, Nat.succ_pos _, Nat.succ_pos _, rfl⟩

theorem Fits.run (h : s.Fits) (cs : List StreamCall) :
    (Simulation.run StreamBuf.call s cs).1.Fits := by
  induction cs generalizing s with
  | nil => exact h
  | cons c cs ih => exact ih (h.call c)

/-- A rejected call changes nothing. -/
theorem call_of_rejected {c : StreamCall} (h : (s.call c).2.Rejected) : (s.call c).1 = s := by
  cases c with
  | write buf =>
    simp only [call, StreamBuf.write] at h ⊢
    split at h
    · simp [StreamAnswer.Rejected] at h
    · rw [if_neg ‹_›]
  | read readSize flushbytes =>
    simp only [call, StreamBuf.read] at h ⊢
    split at h
    · simp [StreamAnswer.Rejected] at h
    · rw [if_neg ‹_›]
  | flush => simp [call, StreamAnswer.Rejected] at h

/-! ### The buffer and the queue -/

/-- The buffer holds the bytes of the queue, and knows what the last flush discarded. -/
structure Represents (s : StreamBuf) (f : StreamFifo) : Prop where
  fits : s.Fits
  contents : s.contents = f.bytes
  flushBytes : s.flushBytes = f.discards.headD 0

theorem Represents.length_eq (h : Represents s f) : f.bytes.length = s.dataSize := by
  rw [← h.contents, StreamBuf.contents, Ring.length_cells]

/-- An accepted write appends its bytes. -/
theorem contents_write (h : s.Fits) (hlen : buf.length < s.availableSpace) :
    (s.write buf).1.contents = s.contents ++ buf := by
  have hsum := h.sum
  have hwritten : Ring.Written s.buf (s.copyIn buf).1 streamBufSize s.writePos buf.length
      fun i => buf.getD i 0 := copyIn_written h.writePos_lt (by omega)
  rw [h.writePos_eq] at hwritten
  rw [StreamBuf.write, if_pos hlen, StreamBuf.contents, StreamBuf.contents]
  dsimp only
  rw [hwritten.cells_append (by omega), map_range_getD]

/-- An accepted read takes the oldest bytes. -/
theorem read_of_lt (h : s.Fits) (hlt : readSize < s.dataSize) (flushbytes : Bool) :
    (s.read readSize flushbytes).1.contents = s.contents.drop readSize ∧
      (s.read readSize flushbytes).2 =
        some (s.contents.take readSize, if flushbytes then some s.flushBytes else none) := by
  have hsum := h.sum
  rw [StreamBuf.read, if_pos hlt, StreamBuf.contents, StreamBuf.contents]
  dsimp only
  rw [copyOut_snd h.readPos_lt (by omega), copyOut_fst h.readPos_lt (by omega),
    Ring.drop_cells (by omega), Ring.take_cells (by omega)]
  exact ⟨rfl, rfl⟩

/-- What a read reports is all that was discarded when only the last flush discarded something. -/
theorem headD_eq_sum_iff (l : List Nat) : l.headD 0 = l.sum ↔ ∀ k ∈ l.tail, k = 0 := by
  cases l with
  | nil => simp
  | cons k l =>
    rw [List.headD_cons, List.sum_cons, List.tail_cons, ← List.sum_eq_zero_iff_forall_eq_nat]
    omega

theorem Represents.write (h : Represents s f) (buf : List UInt8) :
    ((s.call (.write buf)).2 = (f.call (.write buf)).2 ↔ f.Inner (.write buf)) ∧
      (f.Inner (.write buf) →
        Represents (s.call (.write buf)).1 (f.call (.write buf)).1) := by
  have hsum := h.fits.sum
  have hlen := h.length_eq
  have happend : (f.bytes ++ buf).length = s.dataSize + buf.length := by
    rw [List.length_append, hlen]
  have hcode : (s.write buf).2 = decide (buf.length < s.availableSpace) := by
    rw [StreamBuf.write]
    split <;> simp [*]
  simp only [StreamBuf.call, StreamFifo.call, StreamFifo.Inner]
  by_cases hfit : (f.bytes ++ buf).length ≤ streamBufSize
  · rw [dif_pos hfit, hcode, StreamAnswer.write.injEq, decide_eq_true_eq]
    refine ⟨by omega, fun hne => ⟨h.fits.write buf, ?_, ?_⟩⟩
    · rw [contents_write h.fits (by omega), h.contents]
    · rw [StreamBuf.write, if_pos (show s.availableSpace > buf.length by omega)]
      exact h.flushBytes
  · rw [dif_neg hfit, hcode, StreamAnswer.write.injEq, decide_eq_false_iff_not]
    refine ⟨by omega, fun _ => ?_⟩
    rw [StreamBuf.write, if_neg (show ¬s.availableSpace > buf.length by omega)]
    exact h

theorem Represents.read (h : Represents s f) (readSize : Nat) (flushbytes : Bool) :
    ((s.call (.read readSize flushbytes)).2 = (f.call (.read readSize flushbytes)).2 ↔
        f.Inner (.read readSize flushbytes)) ∧
      (f.Inner (.read readSize flushbytes) →
        Represents (s.call (.read readSize flushbytes)).1
          (f.call (.read readSize flushbytes)).1) := by
  have hlen := h.length_eq
  simp only [StreamBuf.call, StreamFifo.call, StreamFifo.Inner]
  rcases Nat.lt_trichotomy readSize s.dataSize with hlt | heq | hgt
  · obtain ⟨hcontents, hresult⟩ := read_of_lt h.fits hlt flushbytes
    rw [if_pos (by omega), hresult, h.contents, h.flushBytes]
    refine ⟨?_, fun _ => ⟨h.fits.read readSize flushbytes, ?_, ?_⟩⟩
    · -- the bytes are the same, so that the answers differ in the report
      cases flushbytes
      · simp only [Bool.false_eq_true, if_false, false_implies, and_true, true_iff]
        omega
      · simp only [if_true, StreamAnswer.read.injEq, Option.some.injEq, Prod.mk.injEq, true_and,
          headD_eq_sum_iff, true_implies]
        exact ⟨fun htail => ⟨by omega, fun _ => htail⟩, fun hinner => hinner.2 (by omega)⟩
    · rw [hcontents, h.contents]
    · rw [StreamBuf.read, if_pos hlt]
      cases flushbytes
      · exact h.flushBytes
      · rfl
  · rw [if_pos (by omega), StreamBuf.read, if_neg (by omega)]
    exact ⟨by simp [heq, hlen], fun hinner => absurd (heq.trans hlen.symm) hinner.1⟩
  · rw [if_neg (by omega), StreamBuf.read, if_neg (by omega)]
    exact ⟨⟨fun _ => ⟨by omega, fun _ hlt => by omega⟩, fun _ => rfl⟩, fun _ => h⟩

/-- Behind a flush the queue is empty, and its length before is to be reported. -/
theorem Represents.flush (h : Represents s f) :
    Represents (s.call .flush).1 (f.call .flush).1 :=
  ⟨h.fits.call .flush, rfl, h.length_eq.symm⟩

/-- The answers are the same, and the queue is represented again, for the calls of the kind. -/
theorem Represents.call (h : Represents s f) (c : StreamCall) :
    ((s.call c).2 = (f.call c).2 ↔ f.Inner c) ∧
      (f.Inner c → Represents (s.call c).1 (f.call c).1) := by
  cases c with
  | write buf => exact h.write buf
  | read readSize flushbytes => exact h.read readSize flushbytes
  | flush => exact ⟨⟨fun _ => trivial, fun _ => rfl⟩, fun _ => h.flush⟩

theorem represents_init (buf : Content) : Represents (init buf) .empty :=
  ⟨fits_init buf, rfl, rfl⟩

end StreamBuf

/-- **The stream buffer is a queue with counted discards, for inner calls.** After every sequence of
calls the positions and the counters fit together, and a rejected call changes nothing. The answers
of the calls are those of the queue exactly when no write would fill the buffer, no read would take
all bytes, and no report follows several flushes of which an earlier one discarded something. -/
theorem fifo_iff_inner (buf : Content) (cs : List StreamCall) :
    (Simulation.run StreamBuf.call (.init buf) cs).1.Fits ∧
      (∀ c, ((Simulation.run StreamBuf.call (.init buf) cs).1.call c).2.Rejected →
        ((Simulation.run StreamBuf.call (.init buf) cs).1.call c).1 =
          (Simulation.run StreamBuf.call (.init buf) cs).1) ∧
      ((Simulation.run StreamBuf.call (.init buf) cs).2 =
          (Simulation.run StreamFifo.call .empty cs).2 ↔
        Transition.Along (fun f c => some (StreamFifo.call f c).1) StreamFifo.Inner .empty cs) := by
  refine ⟨(StreamBuf.fits_init buf).run cs, fun _ => StreamBuf.call_of_rejected, ?_⟩
  have hstep : ∀ s f c, StreamBuf.Represents s f →
      ((s.call c).2 = (f.call c).2 ↔ f.Inner c) ∧
        (f.Inner c → StreamBuf.Represents (s.call c).1 (f.call c).1) := fun _ _ c h => h.call c
  exact Simulation.answers_eq_iff_along hstep (StreamBuf.represents_init buf) cs

/-- What fits exactly is not accepted, what is stored is not read when it is all, and of two flushes
only the second one is reported. -/
theorem streamBuffer_not_fifo :
    ((StreamBuf.init fun _ => 0).call (.write (List.replicate streamBufSize 0))).2 =
        .write false ∧
      (StreamFifo.empty.call (.write (List.replicate streamBufSize 0))).2 = .write true ∧
      (Simulation.run StreamBuf.call (.init fun _ => 0) [.write [1, 2, 3], .read 3 true]).2 =
        [.write true, .read none] ∧
      (Simulation.run StreamFifo.call .empty [.write [1, 2, 3], .read 3 true]).2 =
        [.write true, .read (some ([1, 2, 3], some 0))] ∧
      (Simulation.run StreamBuf.call (.init fun _ => 0)
        [.write [1, 2], .flush, .write [3], .flush, .write [4, 5], .read 1 true]).2 =
        [.write true, .flush, .write true, .flush, .write true, .read (some ([4], some 1))] ∧
      (Simulation.run StreamFifo.call .empty
        [.write [1, 2], .flush, .write [3], .flush, .write [4, 5], .read 1 true]).2 =
        [.write true, .flush, .write true, .flush, .write true, .read (some ([4], some 3))] := by
  refine ⟨?_, ?_, by decide, by decide, by decide, by decide⟩
  · simp only [StreamBuf.call, StreamBuf.write, List.length_replicate, StreamBuf.init,
      Nat.lt_irrefl, gt_iff_lt, if_false]
  · rw [StreamFifo.call, dif_pos (by
      rw [StreamFifo.empty, List.nil_append, List.length_replicate])]

end EarbudFirmware.Tota
