import EarbudFirmware.Lib.Transition
import Mathlib.Data.List.Count

/-!
# Decoded frames of the decoder core

The decoder core fills three buffers in turn, and the processor plays them in the same order. The
state of a buffer says which core it belongs to. A reset makes the last buffers placeholders: the
processor gets as many of them as the delay, before the frames. Every function reads or writes the
state of one buffer, the only thing that both cores use, so that it is one step; the steps of the
cores come in any order.

## Main definitions

* `OutShared` — the shared memory, with the functions of the source
* `OutSystem` — both cores, with the frames that were completed and played since the last reset
* `outStep` — one step of a core
* `OutDelivered` — the placeholders and the frames reach the processor once, in order and whole

## Main results

* `outStep_inv` — a step keeps the invariant
* `out_frames_delivered` — in every order of steps in which no reset is served between a get and its
  consume, the frames are delivered, and the count is right unless all buffers are full
-/

namespace EarbudFirmware.A2dp

open Transition (Along)

/-- `CP_OUT_FRAME_CNT`. -/
def cpOutFrameCnt : Nat := 3

/-- `CP_DEC_STATE_T`. -/
inductive CpDecState where
  | idle
  | working
  | done
  | initDone
  deriving DecidableEq

/-- `CP_PROC_DELAY_T`. -/
inductive CpProcDelay where
  | delay0Frame
  | delay1Frame
  | delay2Frames
  deriving DecidableEq

/-- The number of frames. -/
def CpProcDelay.frames : CpProcDelay → Nat
  | .delay0Frame => 0
  | .delay1Frame => 1
  | .delay2Frames => 2

/-- `CP_EMPTY_OUT_FRM_T`. -/
inductive CpEmptyOutFrm where
  | ok
  | working
  | err
  deriving DecidableEq

/-- What the cores share: the indices, the states and the buffers of `out_frames`, `reset_frames`
and `proc_delay`. -/
structure OutShared where
  cpOutWidx : Nat
  cpOutRidx : Nat
  state : Nat → CpDecState
  cpOutCache : Nat → List UInt8
  resetFrames : Bool
  procDelay : CpProcDelay

/-- What a get of the processor returns: a pointer to nothing, or to a buffer. -/
inductive OutFrame where
  | placeholder
  | buffer (i : Nat)
  deriving DecidableEq

/-- An index, and the one after it. -/
def nextOutIdx (i : Nat) : Nat := if cpOutFrameCnt ≤ i + 1 then i + 1 - cpOutFrameCnt else i + 1

namespace OutShared

variable (s : OutShared)

/-- `idle_cnt` of a reset. -/
def idleCnt : Nat :=
  match s.procDelay with
  | .delay0Frame => cpOutFrameCnt
  | .delay1Frame => cpOutFrameCnt - 1
  | .delay2Frames => cpOutFrameCnt - 2

/-- `reset_frame_info`, for the decoded frames. -/
def resetFrameInfo : OutShared :=
  { s with
    state := fun i => if i < s.idleCnt then .idle else .initDone
    cpOutWidx := 0
    cpOutRidx := s.idleCnt % cpOutFrameCnt
    resetFrames := false }

/-- The state of a buffer changes. -/
def setState (i : Nat) (st : CpDecState) : OutShared :=
  { s with state := Function.update s.state i st }

/-- `a2dp_cp_get_emtpy_out_frame`; the pointer is to the buffer `cp_out_widx`. -/
def getEmptyOutFrame : CpEmptyOutFrm × OutShared :=
  if s.resetFrames then (.err, s)
  else
    match s.state s.cpOutWidx with
    | .idle => (.ok, s.setState s.cpOutWidx .working)
    | .working => (.working, s)
    | .done | .initDone => (.err, s)

/-- `a2dp_cp_consume_emtpy_out_frame`. -/
def consumeEmptyOutFrame : Int × OutShared :=
  if s.resetFrames then (0, s)
  else
    match s.state s.cpOutWidx with
    | .working => (0, { s.setState s.cpOutWidx .done with cpOutWidx := nextOutIdx s.cpOutWidx })
    | _ => (1, s)

/-- `a2dp_cp_get_full_out_frame`, with the frame that it finds. -/
def getFullOutFrame : Int × Option OutFrame :=
  if s.resetFrames then (-1, none)
  else
    match s.state s.cpOutRidx with
    | .done => (0, some (.buffer s.cpOutRidx))
    | .initDone => (0, some .placeholder)
    | .working => (1, none)
    | .idle => (10, none)

/-- `a2dp_cp_consume_full_out_frame`. -/
def consumeFullOutFrame : Int × OutShared :=
  if s.resetFrames then (0, s)
  else
    match s.state s.cpOutRidx with
    | .done | .initDone =>
      (0, { s.setState s.cpOutRidx .idle with cpOutRidx := nextOutIdx s.cpOutRidx })
    | _ => (1, s)

/-- `get_out_cp_frame_cnt`. -/
def outFrameCnt : Nat :=
  if s.cpOutRidx ≤ s.cpOutWidx then s.cpOutWidx - s.cpOutRidx
  else cpOutFrameCnt - s.cpOutRidx + s.cpOutWidx

/-- The buffer belongs to the processor. -/
def IsFull (i : Nat) : Prop := s.state i = .done ∨ s.state i = .initDone

instance (i : Nat) : Decidable (s.IsFull i) := inferInstanceAs (Decidable (_ ∨ _))

/-- The number of buffers of the processor. -/
def fullCnt : Nat := (List.range cpOutFrameCnt).countP fun i => s.IsFull i

/-- The bytes of a frame. -/
def content : OutFrame → Option (List UInt8)
  | .placeholder => none
  | .buffer i => some (s.cpOutCache i)

end OutShared

/-- Where the decoder core is: in `cp_a2dp_main`, or in the decoder, where it writes to the buffer
that it got. -/
inductive CpDecoder where
  | main
  | decode (out : Option Nat)
  deriving DecidableEq

/-- The cores and the shared memory; the processor has got `mcu`. The frames that the decoder core
completed and the frames that the processor got and consumed are those since the last reset. -/
structure OutSystem where
  shared : OutShared
  cp : CpDecoder
  mcu : Option OutFrame
  completed : List (List UInt8)
  delivered : List (Option (List UInt8))

/-- A step of a core. The processor may leave a frame that it got where it is. -/
inductive OutEvent where
  | decode
  | decodeEnd
  | getEmpty
  | write (x : List UInt8)
  | consumeEmpty
  | getFull
  | consumeFull
  | leave
  | resetFrame
  | serveReset

/-- One step; `none` is a step that the core is not at. -/
def outStep (s : OutSystem) : OutEvent → Option OutSystem
  | .decode => if s.cp = .main then some { s with cp := .decode none } else none
  | .decodeEnd =>
    match s.cp with
    | .decode _ => some { s with cp := .main }
    | .main => none
  | .getEmpty =>
    match s.cp with
    | .decode out =>
      let (ret, shared) := s.shared.getEmptyOutFrame
      some { s with
        shared := shared
        cp := .decode (if ret = .err then out else some s.shared.cpOutWidx) }
    | .main => none
  | .write x =>
    match s.cp with
    | .decode (some i) =>
      some { s with shared.cpOutCache := Function.update s.shared.cpOutCache i x }
    | _ => none
  | .consumeEmpty =>
    match s.cp with
    | .decode _ =>
      let (ret, shared) := s.shared.consumeEmptyOutFrame
      some { s with
        shared := shared
        cp := .decode none
        completed :=
          if s.shared.resetFrames ∨ ret ≠ 0 then s.completed
          else s.completed ++ [s.shared.cpOutCache s.shared.cpOutWidx] }
    | .main => none
  | .getFull => some { s with mcu := s.shared.getFullOutFrame.2 }
  | .consumeFull =>
    match s.mcu with
    | some f =>
      let (ret, shared) := s.shared.consumeFullOutFrame
      some { s with
        shared := shared
        mcu := none
        delivered :=
          if s.shared.resetFrames ∨ ret ≠ 0 then s.delivered
          else s.delivered ++ [s.shared.content f] }
    | none => none
  | .leave => some { s with mcu := none }
  | .resetFrame => some { s with shared.resetFrames := true }
  | .serveReset =>
    if s.cp = .main ∧ s.shared.resetFrames then
      some { s with shared := s.shared.resetFrameInfo, completed := [], delivered := [] }
    else none

/-- What the processor is to get since the last reset: placeholders, and the completed frames. -/
def OutSystem.stream (s : OutSystem) : List (Option (List UInt8)) :=
  List.replicate s.shared.procDelay.frames none ++ s.completed.map some

/-- The buffer of a frame of the stream. -/
def OutShared.slot (s : OutShared) (k : Nat) : Nat := (s.idleCnt + k) % cpOutFrameCnt

/-- The processor has got the first frames of the stream, and a get finds the next one. What it has
got stays as it is, and so do the frames that it has not got: the decoder core writes to none of
their buffers. -/
structure OutDelivered (s : OutSystem) : Prop where
  order : s.delivered <+: s.stream
  next : s.shared.resetFrames = false →
    s.shared.getFullOutFrame.2.map s.shared.content = s.stream[s.delivered.length]?
  held : ∀ f, s.mcu = some f → s.stream[s.delivered.length]? = some (s.shared.content f)
  intact : ∀ k x, s.delivered.length ≤ k → s.stream[k]? = some (some x) →
    s.shared.cpOutCache (s.shared.slot k) = x ∧ s.cp ≠ .decode (some (s.shared.slot k))

/-- No reset is served between a get of the processor and its consume. -/
def OutGuard (s : OutSystem) : OutEvent → Prop
  | .serveReset => s.mcu = none
  | _ => True

/-- What `a2dp_cp_decoder_init` sets up: a reset, with anything in the buffers. -/
def OutSystem.init (shared : OutShared) : OutSystem :=
  ⟨shared.resetFrameInfo, .main, none, [], []⟩

/-! ### Buffers in turn -/

theorem idleCnt_add (s : OutShared) : s.idleCnt + s.procDelay.frames = cpOutFrameCnt := by
  unfold OutShared.idleCnt
  cases s.procDelay <;> rfl

/-- Frames that are less than a turn apart have different buffers. -/
theorem slot_ne (s : OutShared) {k l : Nat} (hkl : k < l) (hturn : l < k + cpOutFrameCnt) :
    s.slot k ≠ s.slot l := by
  simp only [OutShared.slot, cpOutFrameCnt] at *
  omega

/-- Frames that are a turn apart have the same buffer. -/
theorem slot_add_turn (s : OutShared) (k : Nat) : s.slot (k + cpOutFrameCnt) = s.slot k := by
  rw [OutShared.slot, ← Nat.add_assoc, Nat.add_mod_right, OutShared.slot]

theorem nextOutIdx_slot (s : OutShared) (k : Nat) : nextOutIdx (s.slot k) = s.slot (k + 1) := by
  unfold nextOutIdx OutShared.slot
  split <;> simp only [cpOutFrameCnt] at * <;> omega

/-- The buffer has a frame of the stream. -/
def OutShared.Holds (s : OutShared) (i : Nat) : Option (List UInt8) → Prop
  | none => s.state i = .initDone
  | some x => s.state i = .done ∧ s.cpOutCache i = x

theorem OutShared.Holds.isFull {s : OutShared} {i : Nat} {f : Option (List UInt8)}
    (h : s.Holds i f) : s.IsFull i := by
  cases f with
  | none => exact .inr h
  | some x => exact .inl h.1

@[simp] theorem setState_self (s : OutShared) (i : Nat) (st : CpDecState) :
    (s.setState i st).state i = st := Function.update_self _ _ _

theorem state_setState (s : OutShared) {i j : Nat} (st : CpDecState) (hne : j ≠ i) :
    (s.setState i st).state j = s.state j := Function.update_of_ne hne _ _

theorem OutShared.Holds.setState {s : OutShared} {i j : Nat} {f : Option (List UInt8)}
    (h : s.Holds j f) (st : CpDecState) (hne : j ≠ i) : (s.setState i st).Holds j f := by
  cases f with
  | none => exact (state_setState s st hne).trans h
  | some x => exact ⟨(state_setState s st hne).trans h.1, h.2⟩

/-- The frame at the read index, whether or not a reset is requested. -/
def OutShared.fullFrame (s : OutShared) : Option OutFrame :=
  match s.state s.cpOutRidx with
  | .done => some (.buffer s.cpOutRidx)
  | .initDone => some .placeholder
  | _ => none

theorem getFullOutFrame_eq (s : OutShared) :
    s.getFullOutFrame.2 = if s.resetFrames then none else s.fullFrame := by
  unfold OutShared.getFullOutFrame OutShared.fullFrame
  cases s.resetFrames <;> cases s.state s.cpOutRidx <;> rfl

theorem OutShared.Holds.map_content {s : OutShared} {f : Option (List UInt8)}
    (h : s.Holds s.cpOutRidx f) : s.fullFrame.map s.content = some f := by
  cases f with
  | none => simp [OutShared.fullFrame, show s.state s.cpOutRidx = .initDone from h,
      OutShared.content]
  | some x => simp [OutShared.fullFrame, h.1, h.2, OutShared.content]

theorem fullFrame_setState (s : OutShared) {i : Nat} (st : CpDecState) (hne : s.cpOutRidx ≠ i) :
    (s.setState i st).fullFrame = s.fullFrame := by
  simp only [OutShared.fullFrame, OutShared.setState, Function.update_of_ne hne]

theorem isFull_of_fullFrame {s : OutShared} {f : OutFrame} (h : s.fullFrame = some f) :
    s.IsFull s.cpOutRidx := by
  unfold OutShared.fullFrame at h
  split at h
  · next hstate => exact .inl hstate
  · next hstate => exact .inr hstate
  · cases h

/-! ### The invariant -/

/-- The buffers from the read index on have the frames of the stream that are not delivered, and the
other ones are free; the decoder core works on the first of these. -/
structure OutInv (sh : OutShared) (stream delivered : List (Option (List UInt8)))
    (cp : CpDecoder) (mcu : Option OutFrame) : Prop where
  widx : sh.cpOutWidx = sh.slot stream.length
  ridx : sh.cpOutRidx = sh.slot delivered.length
  room : stream.length ≤ delivered.length + cpOutFrameCnt
  order : delivered <+: stream
  full : ∀ k f, delivered.length ≤ k → stream[k]? = some f → sh.Holds (sh.slot k) f
  free : ∀ k, stream.length ≤ k → k < delivered.length + cpOutFrameCnt →
    sh.state (sh.slot k) = .idle ∨ k = stream.length ∧ sh.state (sh.slot k) = .working
  out : ∀ i, cp = .decode (some i) → i = sh.cpOutWidx ∧ sh.state i = .working
  mcu : ∀ f, mcu = some f → sh.fullFrame = some f

/-- The state after a reset. -/
theorem outInv_reset (sh : OutShared) :
    OutInv sh.resetFrameInfo (List.replicate sh.procDelay.frames none) [] .main none := by
  have hsum := idleCnt_add sh
  have hslot (k : Nat) : sh.resetFrameInfo.slot k = (sh.idleCnt + k) % cpOutFrameCnt := rfl
  simp only [cpOutFrameCnt] at hsum hslot
  refine ⟨?_, ?_, ?_, List.nil_prefix, fun k f _ hk => ?_, fun k hk hturn => ?_, by simp, by simp⟩
  · rw [hslot, List.length_replicate, hsum]
    rfl
  · rfl
  · rw [List.length_replicate, List.length_nil, cpOutFrameCnt]
    omega
  · rw [List.getElem?_replicate, Option.ite_none_right_eq_some] at hk
    obtain ⟨hk, hf⟩ := hk
    obtain rfl := Option.some.inj hf
    rw [hslot, Nat.mod_eq_of_lt (by omega)]
    exact if_neg (by omega)
  · rw [List.length_replicate] at hk
    simp only [List.length_nil, cpOutFrameCnt] at hturn
    have hwrap : (sh.idleCnt + k) % 3 = k - sh.procDelay.frames := by omega
    rw [hslot, hwrap]
    exact .inl (if_pos (by omega))

namespace OutInv

variable {sh : OutShared} {stream delivered : List (Option (List UInt8))} {cp : CpDecoder}
  {out : Option Nat} {mcu : Option OutFrame}

/-- A full buffer at the read index has the next frame of the stream. -/
theorem next (h : OutInv sh stream delivered cp mcu) (hfull : sh.IsFull sh.cpOutRidx) :
    delivered.length < stream.length := by
  refine Nat.lt_of_le_of_ne h.order.length_le fun heq => ?_
  rw [h.ridx] at hfull
  have hfree := h.free delivered.length (Nat.le_of_eq heq.symm) (by simp [cpOutFrameCnt])
  rcases hfull with hdone | hdone <;> simp [hdone] at hfree

theorem isFull (h : OutInv sh stream delivered cp mcu) {k : Nat} (hk : delivered.length ≤ k)
    (hkn : k < stream.length) : sh.IsFull (sh.slot k) :=
  (h.full k _ hk (List.getElem?_eq_getElem hkn)).isFull

theorem not_isFull (h : OutInv sh stream delivered cp mcu) {k : Nat} (hk : stream.length ≤ k)
    (hturn : k < delivered.length + cpOutFrameCnt) : ¬sh.IsFull (sh.slot k) := by
  rcases h.free k hk hturn with hidle | ⟨-, hworking⟩
  · simp [OutShared.IsFull, hidle]
  · simp [OutShared.IsFull, hworking]

/-- If the buffer at the write index is not full, there is a free one. -/
theorem lt_turn (h : OutInv sh stream delivered cp mcu) (hfree : ¬sh.IsFull sh.cpOutWidx) :
    stream.length < delivered.length + cpOutFrameCnt := by
  refine Nat.lt_of_le_of_ne h.room fun heq => hfree ?_
  rw [h.widx, heq, slot_add_turn]
  exact h.isFull (Nat.le_refl _) (by rw [heq]; simp [cpOutFrameCnt])

/-- What the processor has got is the next frame of the stream. -/
theorem held (h : OutInv sh stream delivered cp mcu) {f : OutFrame}
    (hf : sh.fullFrame = some f) : stream[delivered.length]? = some (sh.content f) := by
  have hlt := h.next (isFull_of_fullFrame hf)
  have hholds := h.full _ _ (Nat.le_refl _) (List.getElem?_eq_getElem hlt)
  rw [← h.ridx] at hholds
  have hmap := hholds.map_content
  rw [hf, Option.map_some] at hmap
  rw [List.getElem?_eq_getElem hlt, hmap]

/-- The frames that are not delivered are not at the write index while there is a free buffer. -/
theorem ne_widx (h : OutInv sh stream delivered cp mcu) (hfree : ¬sh.IsFull sh.cpOutWidx) {k : Nat}
    (hk : delivered.length ≤ k) (hkn : k < stream.length) : sh.slot k ≠ sh.cpOutWidx :=
  fun heq => hfree (heq ▸ h.isFull hk hkn)

/-! ### One step -/

/-- The decoder core takes the buffer at the write index. -/
theorem take (h : OutInv sh stream delivered cp mcu) (hst : sh.state sh.cpOutWidx = .idle) :
    OutInv (sh.setState sh.cpOutWidx .working) stream delivered (.decode (some sh.cpOutWidx))
      mcu := by
  have hfree : ¬sh.IsFull sh.cpOutWidx := by simp [OutShared.IsFull, hst]
  refine ⟨h.widx, h.ridx, h.room, h.order, fun k f hk hf => ?_, fun k hk hkt => ?_,
    fun i hi => ?_, fun f hf => ?_⟩
  · have hkn := (List.getElem?_eq_some_iff.1 hf).1
    exact (h.full k f hk hf).setState .working (h.ne_widx hfree hk hkn)
  · rcases Nat.eq_or_lt_of_le hk with rfl | hlt
    · exact .inr ⟨rfl, h.widx ▸ setState_self _ _ _⟩
    · have hle := h.order.length_le
      have hother : sh.slot k ≠ sh.cpOutWidx := h.widx ▸ (slot_ne sh hlt (by omega)).symm
      have hidle := (h.free k hk hkt).resolve_right fun hk' => absurd hk'.1 (Nat.ne_of_gt hlt)
      exact .inl ((state_setState sh .working hother).trans hidle)
  · obtain rfl : sh.cpOutWidx = i := by simpa using hi
    exact ⟨rfl, setState_self _ _ _⟩
  · have hfull := h.mcu f hf
    have hread : sh.cpOutRidx ≠ sh.cpOutWidx :=
      fun heq => hfree (heq ▸ isFull_of_fullFrame hfull)
    exact (fullFrame_setState sh .working hread).trans hfull

/-- `a2dp_cp_get_emtpy_out_frame` takes a free buffer, or goes on with the one that it works on. -/
theorem getEmpty (h : OutInv sh stream delivered (.decode out) mcu) :
    OutInv sh.getEmptyOutFrame.2 stream delivered
      (.decode (if sh.getEmptyOutFrame.1 = .err then out else some sh.cpOutWidx)) mcu := by
  unfold OutShared.getEmptyOutFrame
  split
  · exact h
  · split
    · next hst => exact h.take hst
    · next hst =>
      refine ⟨h.widx, h.ridx, h.room, h.order, h.full, h.free, fun i hi => ?_, h.mcu⟩
      obtain rfl : sh.cpOutWidx = i := by simpa using hi
      exact ⟨rfl, hst⟩
    · exact h
    · exact h

/-- The decoder core writes to the buffer that it works on. -/
theorem write {i : Nat} (h : OutInv sh stream delivered (.decode (some i)) mcu) (x : List UInt8) :
    OutInv { sh with cpOutCache := Function.update sh.cpOutCache i x } stream delivered
      (.decode (some i)) mcu := by
  obtain ⟨rfl, hst⟩ := h.out i rfl
  have hfree : ¬sh.IsFull sh.cpOutWidx := by simp [OutShared.IsFull, hst]
  refine ⟨h.widx, h.ridx, h.room, h.order, fun k f hk hf => ?_, h.free, h.out, h.mcu⟩
  have hne := h.ne_widx hfree hk (List.getElem?_eq_some_iff.1 hf).1
  have hholds := h.full k f hk hf
  cases f with
  | none => exact hholds
  | some y => exact ⟨hholds.1, (Function.update_of_ne hne _ _).trans hholds.2⟩

/-- The decoder core completes the frame that it works on. -/
theorem complete (h : OutInv sh stream delivered cp mcu)
    (hst : sh.state sh.cpOutWidx = .working) :
    OutInv { sh.setState sh.cpOutWidx .done with cpOutWidx := nextOutIdx sh.cpOutWidx }
      (stream ++ [some (sh.cpOutCache sh.cpOutWidx)]) delivered (.decode none) mcu := by
  have hfree : ¬sh.IsFull sh.cpOutWidx := by simp [OutShared.IsFull, hst]
  have hturn := h.lt_turn hfree
  have hlen : (stream ++ [some (sh.cpOutCache sh.cpOutWidx)]).length = stream.length + 1 :=
    List.length_append
  refine ⟨?_, h.ridx, ?_, h.order.trans (List.prefix_append _ _), fun k f hk hf => ?_,
    fun k hk hkt => ?_, by simp, fun f hf => ?_⟩
  · rw [hlen, h.widx]
    exact nextOutIdx_slot sh _
  · rw [hlen]
    exact hturn
  · rcases Nat.lt_or_ge k stream.length with hkn | hkn
    · rw [List.getElem?_append_left hkn] at hf
      exact (h.full k f hk hf).setState .done (h.ne_widx hfree hk hkn)
    · -- the new frame is the last one
      rw [List.getElem?_append_right hkn, List.getElem?_singleton,
        Option.ite_none_right_eq_some] at hf
      obtain ⟨hk0, hf⟩ := hf
      obtain rfl := Option.some.inj hf
      obtain rfl : k = stream.length := by omega
      rw [show sh.cpOutWidx = sh.slot stream.length from h.widx]
      exact ⟨setState_self _ _ _, rfl⟩
  · rw [hlen] at hk
    have hle := h.order.length_le
    have hother : sh.slot k ≠ sh.cpOutWidx := h.widx ▸ (slot_ne sh hk (by omega)).symm
    have hidle := (h.free k (by omega) hkt).resolve_right fun hk' => by omega
    exact .inl ((state_setState sh .done hother).trans hidle)
  · have hfull := h.mcu f hf
    have hread : sh.cpOutRidx ≠ sh.cpOutWidx :=
      fun heq => hfree (heq ▸ isFull_of_fullFrame hfull)
    exact (fullFrame_setState sh .done hread).trans hfull

/-- The processor consumes the frame that it has got. -/
theorem consume {f : OutFrame} (h : OutInv sh stream delivered cp (some f)) :
    OutInv { sh.setState sh.cpOutRidx .idle with cpOutRidx := nextOutIdx sh.cpOutRidx }
      stream (delivered ++ [sh.content f]) cp none := by
  have hframe := h.mcu f rfl
  have hlt := h.next (isFull_of_fullFrame hframe)
  have hlen : (delivered ++ [sh.content f]).length = delivered.length + 1 := List.length_append
  have hroom := h.room
  refine ⟨h.widx, ?_, by rw [hlen]; omega, ?_, fun k f hk hf => ?_, fun k hk hkt => ?_,
    fun i hi => ?_, by simp⟩
  · rw [hlen, h.ridx]
    exact nextOutIdx_slot sh _
  · obtain ⟨rest, hrest⟩ := h.order
    have hnext := h.held hframe
    rw [← hrest, List.getElem?_append_right (Nat.le_refl _), Nat.sub_self] at hnext
    obtain ⟨tail, rfl⟩ : ∃ tail, rest = sh.content f :: tail := by
      cases rest with
      | nil => cases hnext
      | cons g tail => exact ⟨tail, by rw [Option.some.inj hnext]⟩
    exact ⟨tail, by rw [← hrest, List.append_assoc]; rfl⟩
  · rw [hlen] at hk
    have hkn := (List.getElem?_eq_some_iff.1 hf).1
    have hother : sh.slot k ≠ sh.cpOutRidx := h.ridx ▸ (slot_ne sh hk (by omega)).symm
    exact (h.full k f (by omega) hf).setState .idle hother
  · rw [hlen] at hkt
    rcases Nat.lt_or_ge k (delivered.length + cpOutFrameCnt) with hkd | hkd
    · have hother : sh.slot k ≠ sh.cpOutRidx :=
        h.ridx ▸ (slot_ne sh (by omega) hkd).symm
      refine (h.free k hk hkd).imp (fun hidle => ?_) (And.imp_right fun hworking => ?_)
      · exact (state_setState sh .idle hother).trans hidle
      · exact (state_setState sh .idle hother).trans hworking
    · -- the buffer of the consumed frame is the last free one
      obtain rfl : k = delivered.length + cpOutFrameCnt := by omega
      refine .inl ?_
      have hsame : sh.slot (delivered.length + cpOutFrameCnt) = sh.cpOutRidx := by
        rw [slot_add_turn, h.ridx]
      exact hsame ▸ setState_self _ _ _
  · obtain ⟨rfl, hst⟩ := h.out i hi
    have hother : sh.cpOutWidx ≠ sh.cpOutRidx := fun heq => by
      have hfull := isFull_of_fullFrame hframe
      rw [← heq, OutShared.IsFull, hst] at hfull
      simp at hfull
    exact ⟨rfl, (state_setState sh .idle hother).trans hst⟩

/-! ### The count -/

theorem isFull_iff (h : OutInv sh stream delivered cp mcu) {k : Nat} (hk : delivered.length ≤ k)
    (hturn : k < delivered.length + cpOutFrameCnt) :
    sh.IsFull (sh.slot k) ↔ k < stream.length :=
  ⟨fun hfull => Nat.lt_of_not_le fun hle => h.not_isFull hle hturn hfull, h.isFull hk⟩

theorem fullCnt_eq (h : OutInv sh stream delivered cp mcu) :
    sh.fullCnt = stream.length - delivered.length := by
  have hroom := h.room
  simp only [cpOutFrameCnt] at hroom
  have h₀ := h.isFull_iff (Nat.le_refl _) (by simp [cpOutFrameCnt])
  have h₁ := h.isFull_iff (Nat.le_add_right _ 1) (by simp [cpOutFrameCnt])
  have h₂ := h.isFull_iff (Nat.le_add_right _ 2) (by simp [cpOutFrameCnt])
  -- the read index is one of three, and the other two buffers follow it
  have hslots : (sh.slot delivered.length = 0 ∧ sh.slot (delivered.length + 1) = 1 ∧
        sh.slot (delivered.length + 2) = 2) ∨
      (sh.slot delivered.length = 1 ∧ sh.slot (delivered.length + 1) = 2 ∧
        sh.slot (delivered.length + 2) = 0) ∨
      (sh.slot delivered.length = 2 ∧ sh.slot (delivered.length + 1) = 0 ∧
        sh.slot (delivered.length + 2) = 1) := by
    simp only [OutShared.slot, cpOutFrameCnt]
    omega
  rcases hslots with ⟨e₀, e₁, e₂⟩ | ⟨e₀, e₁, e₂⟩ | ⟨e₀, e₁, e₂⟩ <;>
    · rw [e₀] at h₀
      rw [e₁] at h₁
      rw [e₂] at h₂
      simp only [OutShared.fullCnt, cpOutFrameCnt, List.range_succ, List.range_zero,
        List.nil_append, List.cons_append, List.countP_cons, List.countP_nil, decide_eq_true_eq,
        h₀, h₁, h₂]
      split <;> split <;> split <;> omega

/-- The count of the indices is that of the states, up to a turn. -/
theorem outFrameCnt_eq (h : OutInv sh stream delivered cp mcu) :
    sh.outFrameCnt = sh.fullCnt % cpOutFrameCnt := by
  have hroom := h.room
  have hle := h.order.length_le
  rw [h.fullCnt_eq, OutShared.outFrameCnt, h.widx, h.ridx]
  unfold OutShared.slot
  split <;> simp only [cpOutFrameCnt] at * <;> omega

end OutInv

/-! ### All steps -/

/-- The invariant of the system. -/
def OutSystem.Inv (s : OutSystem) : Prop := OutInv s.shared s.stream s.delivered s.cp s.mcu

theorem getEmptyOutFrame_procDelay (s : OutShared) :
    s.getEmptyOutFrame.2.procDelay = s.procDelay := by
  unfold OutShared.getEmptyOutFrame
  cases s.resetFrames <;> cases s.state s.cpOutWidx <;> rfl

/-- A consume of the decoder core does nothing, or completes a frame. -/
theorem consumeEmptyOutFrame_cases (s : OutShared) :
    (s.consumeEmptyOutFrame.2 = s ∧ (s.resetFrames ∨ s.consumeEmptyOutFrame.1 ≠ 0)) ∨
      (s.state s.cpOutWidx = .working ∧ ¬(s.resetFrames ∨ s.consumeEmptyOutFrame.1 ≠ 0) ∧
        s.consumeEmptyOutFrame.2 =
          { s.setState s.cpOutWidx .done with cpOutWidx := nextOutIdx s.cpOutWidx }) := by
  unfold OutShared.consumeEmptyOutFrame
  cases s.resetFrames <;> cases s.state s.cpOutWidx <;> simp

/-- A consume of the processor does nothing, or frees the buffer at the read index. -/
theorem consumeFullOutFrame_cases (s : OutShared) :
    (s.consumeFullOutFrame.2 = s ∧ (s.resetFrames ∨ s.consumeFullOutFrame.1 ≠ 0)) ∨
      (¬(s.resetFrames ∨ s.consumeFullOutFrame.1 ≠ 0) ∧
        s.consumeFullOutFrame.2 =
          { s.setState s.cpOutRidx .idle with cpOutRidx := nextOutIdx s.cpOutRidx }) := by
  unfold OutShared.consumeFullOutFrame
  cases s.resetFrames <;> cases s.state s.cpOutRidx <;> simp

/-- A step keeps the invariant. -/
theorem outStep_inv {s t : OutSystem} {e : OutEvent} (h : s.Inv) (hg : OutGuard s e)
    (hstep : outStep s e = some t) : t.Inv := by
  unfold OutSystem.Inv at h ⊢
  cases e with
  | decode =>
    obtain ⟨-, hstep⟩ := Option.ite_none_right_eq_some.1 hstep
    obtain rfl := Option.some.inj hstep
    exact ⟨h.widx, h.ridx, h.room, h.order, h.full, h.free, by simp, h.mcu⟩
  | decodeEnd =>
    simp only [outStep] at hstep
    split at hstep
    · obtain rfl := Option.some.inj hstep
      exact ⟨h.widx, h.ridx, h.room, h.order, h.full, h.free, by simp, h.mcu⟩
    · cases hstep
  | getEmpty =>
    simp only [outStep] at hstep
    split at hstep
    · next out hcp =>
      obtain rfl := Option.some.inj hstep
      rw [hcp] at h
      simpa only [OutSystem.stream, getEmptyOutFrame_procDelay] using h.getEmpty
    · cases hstep
  | write x =>
    simp only [outStep] at hstep
    split at hstep
    · next i hcp =>
      obtain rfl := Option.some.inj hstep
      rw [hcp] at h
      simpa only [OutSystem.stream, hcp] using h.write x
    · cases hstep
  | consumeEmpty =>
    simp only [outStep] at hstep
    split at hstep
    · obtain rfl := Option.some.inj hstep
      rcases consumeEmptyOutFrame_cases s.shared with ⟨hsame, hret⟩ | ⟨hst, hret, hnext⟩
      · rw [if_pos hret]
        simp only [hsame]
        exact ⟨h.widx, h.ridx, h.room, h.order, h.full, h.free, by simp, h.mcu⟩
      · rw [if_neg hret]
        simp only [hnext]
        have hdone := h.complete hst
        simpa [OutSystem.stream, OutShared.setState] using hdone
    · cases hstep
  | getFull =>
    obtain rfl := Option.some.inj hstep
    refine ⟨h.widx, h.ridx, h.room, h.order, h.full, h.free, h.out, fun f hf => ?_⟩
    simp only [getFullOutFrame_eq, Option.ite_none_left_eq_some] at hf
    exact hf.2
  | consumeFull =>
    simp only [outStep] at hstep
    split at hstep
    · next f hmcu =>
      obtain rfl := Option.some.inj hstep
      rcases consumeFullOutFrame_cases s.shared with ⟨hsame, hret⟩ | ⟨hret, hnext⟩
      · rw [if_pos hret]
        simp only [hsame]
        exact ⟨h.widx, h.ridx, h.room, h.order, h.full, h.free, h.out, by simp⟩
      · rw [if_neg hret]
        simp only [hnext]
        rw [hmcu] at h
        exact h.consume
    · cases hstep
  | leave =>
    obtain rfl := Option.some.inj hstep
    exact ⟨h.widx, h.ridx, h.room, h.order, h.full, h.free, h.out, by simp⟩
  | resetFrame =>
    obtain rfl := Option.some.inj hstep
    refine ⟨h.widx, h.ridx, h.room, h.order, fun k f hk hf => ?_, h.free, h.out, h.mcu⟩
    have hholds := h.full k f hk hf
    cases f <;> exact hholds
  | serveReset =>
    obtain ⟨⟨hcp, -⟩, hstep⟩ := Option.ite_none_right_eq_some.1 hstep
    obtain rfl := Option.some.inj hstep
    have hreset := outInv_reset s.shared
    have hmcu : s.mcu = none := hg
    simpa [OutSystem.stream, OutShared.resetFrameInfo, hcp, hmcu] using hreset

/-- What the invariant means for the cores. -/
theorem OutSystem.Inv.delivered {s : OutSystem} (h : s.Inv) : OutDelivered s := by
  unfold OutSystem.Inv at h
  refine ⟨h.order, fun hreset => ?_, fun f hf => h.held (h.mcu f hf), fun k x hk hx => ?_⟩
  · rw [getFullOutFrame_eq, hreset]
    cases hframe : s.shared.fullFrame with
    | some f => exact (h.held hframe).symm
    | none =>
      -- no frame is left
      refine (List.getElem?_eq_none (Nat.le_of_not_lt fun hlt => ?_)).symm
      have hholds := h.full _ _ (Nat.le_refl _) (List.getElem?_eq_getElem hlt)
      rw [← h.ridx] at hholds
      have hmap := hholds.map_content
      rw [hframe] at hmap
      cases hmap
  · have hholds := h.full k _ hk hx
    refine ⟨hholds.2, fun hcp => ?_⟩
    have hst := (h.out _ hcp).2
    rw [hholds.1] at hst
    cases hst

/-- **The decoded frames reach the processor once and in order**, behind as many placeholders as the
delay, in every order of steps in which no reset is served between a get of the processor and its
consume. The count is right exactly when one of the buffers is not full. -/
theorem out_frames_delivered {shared : OutShared} {es : List OutEvent} {s : OutSystem}
    (hes : Along outStep OutGuard (.init shared) es)
    (hrun : es.foldlM outStep (.init shared) = some s) :
    OutDelivered s ∧
      (s.shared.outFrameCnt = s.shared.fullCnt ↔ s.shared.fullCnt ≠ cpOutFrameCnt) := by
  have hinit : OutSystem.Inv (.init shared) := by
    simpa [OutSystem.Inv, OutSystem.init, OutSystem.stream, OutShared.resetFrameInfo] using
      outInv_reset shared
  have h : s.Inv := hes.preserves (fun _ _ _ => outStep_inv) hrun hinit
  refine ⟨h.delivered, ?_⟩
  have hcount := OutInv.outFrameCnt_eq h
  have hle : s.shared.fullCnt ≤ cpOutFrameCnt := 
    Nat.le_trans List.countP_le_length (Nat.le_of_eq List.length_range)
  simp only [cpOutFrameCnt] at *
  omega

/-! ### A full ring, and a reset between a get and its consume -/

/-- The memory before the initialisation. -/
def outShared (procDelay : CpProcDelay) : OutShared :=
  ⟨0, 0, fun _ => .idle, fun _ => [], false, procDelay⟩

/-- The decoder core completes a frame. -/
def completeOne (x : List UInt8) : List OutEvent :=
  [.decode, .getEmpty, .write x, .consumeEmpty, .decodeEnd]

/-- The processor plays the placeholder and gets the first frame; a reset is served, and the
processor consumes. -/
def resetBeforeConsume : List OutEvent :=
  .getFull :: .consumeFull :: completeOne [1] ++ [.getFull, .resetFrame, .serveReset, .consumeFull]

/-- The indices of a full ring count no frame; and a consume behind a reset takes the placeholder
that the processor has not got, so that the frame from before the reset stands in its place. -/
theorem out_frames_not_delivered :
    (∃ s, (completeOne [1]).foldlM outStep (.init (outShared .delay2Frames)) = some s ∧
      s.shared.outFrameCnt = 0 ∧ s.shared.fullCnt = 3) ∧
    ∃ s, resetBeforeConsume.foldlM outStep (.init (outShared .delay1Frame)) = some s ∧
      s.stream = [none] ∧ s.delivered = [some [1]] ∧ ¬OutDelivered s := by
  obtain ⟨s, hrun, hstream, hdelivered⟩ : ∃ s,
      resetBeforeConsume.foldlM outStep (.init (outShared .delay1Frame)) = some s ∧
        s.stream = [none] ∧ s.delivered = [some [1]] := ⟨_, rfl, rfl, rfl⟩
  refine ⟨⟨_, rfl, rfl, rfl⟩, s, hrun, hstream, hdelivered, fun h => ?_⟩
  have horder := h.order
  rw [hstream, hdelivered] at horder
  simp at horder

/-- Behind a consume the processor has got no frame. -/
theorem mcu_of_consumeFull {s t : OutSystem} (h : outStep s .consumeFull = some t) :
    t.mcu = none := by
  simp only [outStep] at h
  split at h
  · obtain rfl := Option.some.inj h
    rfl
  · cases h

/-- A reset is served when the processor has played the frames that it got. -/
def resetAfterConsume : List OutEvent :=
  .getFull :: .consumeFull :: completeOne [1] ++ [.getFull, .consumeFull, .resetFrame, .serveReset]

theorem out_frames_delivered_run :
    ∃ s, resetAfterConsume.foldlM outStep (.init (outShared .delay1Frame)) = some s ∧
      s.stream = [none] ∧ OutDelivered s := by
  have hes : Along outStep OutGuard (.init (outShared .delay1Frame)) resetAfterConsume := by
    refine Transition.along_append.2 ⟨by simp [completeOne, OutGuard], fun t _ => ?_⟩
    refine ⟨trivial, fun u _ => ⟨trivial, fun v hv => ⟨trivial, fun w hw => ⟨?_, ?_⟩⟩⟩⟩
    · have hmcu : v.mcu = none := mcu_of_consumeFull hv
      obtain rfl := Option.some.inj hw
      exact hmcu
    · exact fun _ _ => trivial
  obtain ⟨s, hrun, hstream⟩ : ∃ s,
      resetAfterConsume.foldlM outStep (.init (outShared .delay1Frame)) = some s ∧
        s.stream = [none] := ⟨_, rfl, rfl⟩
  exact ⟨s, hrun, hstream, (out_frames_delivered hes hrun).1⟩

end EarbudFirmware.A2dp
