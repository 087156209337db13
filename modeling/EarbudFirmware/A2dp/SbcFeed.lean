import EarbudFirmware.A2dp.CpOrder

/-!
# Feeding SBC frames to the decoder core

A call of the decoder takes frames from the head of the list and puts them into the ring of the
decoder core, until the list is empty or a put fails. While few frames are buffered, every frame is
put a second time, as a repeat without numbers that the core uses to conceal a loss. A frame leaves
the list behind both puts, so that a repeat that is rejected leaves a frame in the list that the
core already has, and the next call puts it again.

## Main definitions

* `SbcFeeder` — the list, with what was put and what was removed
* `feedStep` — a packet arrives, or the loop takes its next step
* `HandedOnce` — every removed frame was put once, in order, and its repeat at most once
* `RepeatFails` — a step in which the ring takes the frame and rejects its repeat

## Main results

* `list_eq` — what was removed and what is left is the list in order
* `handedOnce_iff` — the frames are handed over once exactly when no repeat is rejected
* `putPlace_at_limit` — the ring that takes its last frame rejects the repeat
-/

namespace EarbudFirmware.A2dp

open Transition

/-- `A2DP_CP_SBC_IN_FRM_INFO_T`. -/
structure SbcInFrmInfo where
  sequenceNumber : UInt16
  timestamp : UInt32
  curSubSequenceNumber : UInt16
  totalSubSequenceNumber : UInt16
  deriving DecidableEq

/-- `a2dp_audio_sbc_decoder_frame_t`. -/
structure SbcDecoderFrame where
  sequenceNumber : UInt16
  timestamp : UInt32
  curSubSequenceNumber : UInt16
  totalSubSequenceNumber : UInt16
  sbcBuffer : List UInt8
  deriving DecidableEq

/-- `SBC_PLC_FRAME_THRESHOLD`. -/
def sbcPlcFrameThreshold : Nat := 10

/-- A put of `a2dp_cp_sbc_mcu_decode` that succeeded: of a frame, or of its repeat. -/
inductive InPut where
  | frame (f : SbcDecoderFrame)
  | again (f : SbcDecoderFrame)
  deriving DecidableEq

namespace InPut

/-- The numbers that go with the bytes. -/
def inInfo : InPut → SbcInFrmInfo
  | .frame f => ⟨f.sequenceNumber, f.timestamp, f.curSubSequenceNumber, f.totalSubSequenceNumber⟩
  | .again _ => ⟨0xFFFF, 0xFFFFFFFF, 0xFFFF, 0xFFFF⟩

/-- The bytes of the frame. -/
def sbcBuffer : InPut → List UInt8
  | .frame f => f.sbcBuffer
  | .again f => f.sbcBuffer

end InPut

/-- Where the processor is in `a2dp_cp_sbc_mcu_decode`: not in its loop, at the head of the loop, or
behind the put of a frame. -/
inductive FeedTask where
  | idle
  | loop
  | expand
  deriving DecidableEq

/-- `input_raw_packet_list`, what was put into the ring, and what was removed from the list. -/
structure SbcFeeder where
  list : List SbcDecoderFrame
  task : FeedTask
  puts : List InPut
  removed : List SbcDecoderFrame
  deriving DecidableEq

/-- A frame is appended to the list, or the decoder takes a step. The numbers are what
`a2dp_cp_decoder_init` and the put return, and the counts that the decoder reads. -/
inductive FeedEvent where
  | append (f : SbcDecoderFrame)
  | call (initRet : Int)
  | put (ret : Int)
  | expand (cpInCnt cpOutCnt cpInFreeCnt : Nat) (ret : Int)

namespace SbcFeeder

/-- Nothing has been put. -/
def start (list : List SbcDecoderFrame) : SbcFeeder := ⟨list, .idle, [], []⟩

/-- There are few frames, and room in the ring: `total_cnt` is a number of 32 bits. -/
def Expands (s : SbcFeeder) (cpInCnt cpOutCnt cpInFreeCnt : Nat) : Prop :=
  0 < cpInFreeCnt ∧ (s.list.length + cpInCnt + cpOutCnt) % 0x100000000 < sbcPlcFrameThreshold

instance (s : SbcFeeder) (cpInCnt cpOutCnt cpInFreeCnt : Nat) :
    Decidable (s.Expands cpInCnt cpOutCnt cpInFreeCnt) :=
  inferInstanceAs (Decidable (_ ∧ _))

end SbcFeeder

/-- One step; `none` is a step that the decoder is not at. The rest of the function, behind the
loop, does not touch the list or the ring of the encoded frames. -/
def feedStep (s : SbcFeeder) : FeedEvent → Option SbcFeeder
  | .append f => some { s with list := s.list ++ [f] }
  | .call initRet =>
    if s.task = .idle then some { s with task := if initRet = 0 then .loop else .idle } else none
  | .put ret =>
    if s.task = .loop then
      match s.list with
      | [] => some { s with task := .idle }
      | f :: _ =>
        if ret = 0 then some { s with task := .expand, puts := s.puts ++ [.frame f] }
        else some { s with task := .idle }
    else none
  | .expand cpInCnt cpOutCnt cpInFreeCnt ret =>
    match s.task, s.list with
    | .expand, f :: rest =>
      if s.Expands cpInCnt cpOutCnt cpInFreeCnt then
        if ret = 0 then
          some ⟨rest, .loop, s.puts ++ [.again f], s.removed ++ [f]⟩
        else some { s with task := .idle }
      else some ⟨rest, .loop, s.puts, s.removed ++ [f]⟩
    | _, _ => none

/-- The puts of a frame that is handed over with or without a repeat. -/
def handed (p : SbcDecoderFrame × Bool) : List InPut :=
  .frame p.1 :: if p.2 then [.again p.1] else []

/-- The puts are those of the removed frames in their order, each once and with at most one
repeat. -/
def HandedOnce (s : SbcFeeder) : Prop :=
  ∃ fed : List (SbcDecoderFrame × Bool), fed.map Prod.fst = s.removed ∧ fed.flatMap handed = s.puts

/-- The ring has taken the frame at the head of the list, and it rejects the repeat. -/
def RepeatFails (s : SbcFeeder) : FeedEvent → Prop
  | .expand cpInCnt cpOutCnt cpInFreeCnt ret =>
    s.task = .expand ∧ s.Expands cpInCnt cpOutCnt cpInFreeCnt ∧ ret ≠ 0
  | _ => False

/-- The frame that an event appends. -/
def appended : FeedEvent → Option SbcDecoderFrame
  | .append f => some f
  | _ => none

/-! ### The moves of the decoder -/

/-- What a step can do. -/
inductive FeedMove (s : SbcFeeder) : FeedEvent → SbcFeeder → Prop where
  | append (f : SbcDecoderFrame) : FeedMove s (.append f) { s with list := s.list ++ [f] }
  | goes {e : FeedEvent} {task : FeedTask} (hfrom : s.task ≠ .expand) (hto : task ≠ .expand)
      (he : appended e = none) (hok : ¬RepeatFails s e) : FeedMove s e { s with task := task }
  | fills {f : SbcDecoderFrame} {rest : List SbcDecoderFrame} (htask : s.task = .loop)
      (hlist : s.list = f :: rest) :
      FeedMove s (.put 0) { s with task := .expand, puts := s.puts ++ [.frame f] }
  | removes {f : SbcDecoderFrame} {rest : List SbcDecoderFrame} {i o free : Nat} {ret : Int}
      (again : Bool) (htask : s.task = .expand) (hlist : s.list = f :: rest)
      (hok : ¬RepeatFails s (.expand i o free ret)) :
      FeedMove s (.expand i o free ret)
        ⟨rest, .loop, s.puts ++ if again then [.again f] else [], s.removed ++ [f]⟩
  | rejects {i o free : Nat} {ret : Int} (hrejected : RepeatFails s (.expand i o free ret)) :
      FeedMove s (.expand i o free ret) { s with task := .idle }

theorem feedStep_move {s t : SbcFeeder} {e : FeedEvent} (h : feedStep s e = some t) :
    FeedMove s e t := by
  cases e with
  | append f =>
    obtain rfl : _ = t := by simpa [feedStep] using h
    exact .append f
  | call initRet =>
    simp only [feedStep, Option.ite_none_right_eq_some, Option.some.injEq] at h
    obtain ⟨htask, rfl⟩ := h
    exact .goes (by simp [htask]) (by split <;> simp) rfl id
  | put ret =>
    simp only [feedStep, Option.ite_none_right_eq_some] at h
    obtain ⟨htask, h⟩ := h
    have hfrom : s.task ≠ .expand := by simp [htask]
    split at h
    · obtain rfl := Option.some.inj h
      exact .goes hfrom (by simp) rfl id
    · next f rest hlist =>
      split at h
      · next hret =>
        obtain rfl := Option.some.inj h
        exact hret ▸ .fills htask hlist
      · obtain rfl := Option.some.inj h
        exact .goes hfrom (by simp) rfl id
  | expand i o free ret =>
    simp only [feedStep] at h
    split at h
    · next f rest htask hlist =>
      split at h
      · next hexpands =>
        split at h
        · next hret =>
          obtain rfl := Option.some.inj h
          exact .removes true htask hlist fun hfails => hfails.2.2 hret
        · next hret =>
          obtain rfl := Option.some.inj h
          exact .rejects ⟨htask, hexpands, hret⟩
      · next hexpands =>
        obtain rfl := Option.some.inj h
        have hmove : FeedMove s (.expand i o free ret) _ :=
          .removes false htask hlist fun hfails => hexpands hfails.2.1
        simpa using hmove
    · cases h

/-- What was removed and what is left are the frames of the list and the appended ones, in
order. -/
theorem list_eq {s t : SbcFeeder} {es : List FeedEvent} (h : es.foldlM feedStep s = some t) :
    t.removed ++ t.list = s.removed ++ s.list ++ es.filterMap appended := by
  induction es generalizing s with
  | nil =>
    obtain rfl : s = t := by simpa using h
    simp
  | cons e es ih =>
    obtain ⟨u, hu, hrest⟩ := foldlM_cons_eq_some h
    rw [ih hrest]
    cases feedStep_move hu with
    | append f => simp [appended]
    | goes _ _ he => simp [he]
    | fills => simp [List.filterMap_cons, appended]
    | removes _ _ hlist => simp [List.filterMap_cons, appended, hlist]
    | rejects => simp [List.filterMap_cons, appended]

/-! ### Frames and repeats -/

/-- The frames that were put, without the repeats. -/
def framesPut (puts : List InPut) : List SbcDecoderFrame :=
  puts.filterMap fun
    | .frame f => some f
    | .again _ => none

@[simp] theorem framesPut_append (puts puts' : List InPut) :
    framesPut (puts ++ puts') = framesPut puts ++ framesPut puts' :=
  List.filterMap_append

@[simp] theorem framesPut_frame (f : SbcDecoderFrame) : framesPut [.frame f] = [f] := rfl

@[simp] theorem framesPut_again (f : SbcDecoderFrame) (again : Bool) :
    framesPut (if again then [.again f] else []) = [] := by
  cases again <;> rfl

@[simp] theorem framesPut_handed (fed : List (SbcDecoderFrame × Bool)) :
    framesPut (fed.flatMap handed) = fed.map Prod.fst := by
  induction fed with
  | nil => rfl
  | cons p fed ih =>
    have hp : framesPut (handed p) = [p.1] := by
      rw [handed, ← List.singleton_append, framesPut_append, framesPut_again]
      rfl
    rw [List.flatMap_cons, framesPut_append, ih, hp]
    rfl

/-- The frame at the head of the list, while it is put and not yet removed. -/
def inFlight (s : SbcFeeder) : List SbcDecoderFrame :=
  if s.task = .expand then s.list.take 1 else []

/-- The puts are those of the removed frames, and of the one that is to be removed next. -/
def HandedUpTo (s : SbcFeeder) : Prop :=
  ∃ fed : List (SbcDecoderFrame × Bool),
    fed.map Prod.fst = s.removed ∧ s.puts = fed.flatMap handed ++ (inFlight s).map .frame

theorem handedUpTo_iff {s : SbcFeeder} (h : s.task = .idle) : HandedUpTo s ↔ HandedOnce s := by
  have hnone : inFlight s = [] := by simp [inFlight, h]
  simp only [HandedUpTo, HandedOnce, hnone, List.map_nil, List.append_nil, eq_comm]

/-- The frame that is put is still at the head of the list. -/
def Seated (s : SbcFeeder) : Prop := s.task = .expand → s.list ≠ []

/-- More frames were put than removed. -/
def Ahead (s : SbcFeeder) : Prop :=
  s.removed.length + (inFlight s).length < (framesPut s.puts).length

theorem Ahead.not_handedUpTo {s : SbcFeeder} (h : Ahead s) : ¬HandedUpTo s := by
  rintro ⟨fed, hremoved, hputs⟩
  have hframes : framesPut s.puts = s.removed ++ inFlight s := by
    have hflight : framesPut ((inFlight s).map .frame) = inFlight s := by
      simp [framesPut, List.filterMap_map]
    rw [hputs, framesPut_append, framesPut_handed, hremoved, hflight]
  rw [Ahead, hframes, List.length_append] at h
  exact lt_irrefl _ h

/-! ### One step -/

theorem seated_of_step {s t : SbcFeeder} {e : FeedEvent} (ht : feedStep s e = some t) :
    Seated t := by
  cases feedStep_move ht with
  | append f => simp [Seated]
  | goes _ hto => exact fun htask => absurd htask hto
  | fills _ hlist => simp [Seated, hlist]
  | removes => simp [Seated]
  | rejects => simp [Seated]

/-- Frames behind the head do not change what is in flight. -/
theorem inFlight_append {s : SbcFeeder} (h : Seated s) (f : SbcDecoderFrame) :
    inFlight { s with list := s.list ++ [f] } = inFlight s := by
  simp only [inFlight]
  split
  · next htask =>
    obtain ⟨g, rest, hlist⟩ := List.exists_cons_of_ne_nil (h htask)
    simp [hlist]
  · rfl

theorem inFlight_of_ne {s : SbcFeeder} (h : s.task ≠ .expand) : inFlight s = [] := if_neg h

theorem inFlight_of_eq {s : SbcFeeder} {f : SbcDecoderFrame} {rest : List SbcDecoderFrame}
    (h : s.task = .expand) (hlist : s.list = f :: rest) : inFlight s = [f] := by
  rw [inFlight, if_pos h, hlist, List.take_succ_cons, List.take_zero]

/-- A step in which no repeat is rejected hands over the frame that it removes. -/
theorem HandedUpTo.step {s t : SbcFeeder} {e : FeedEvent} (h : HandedUpTo s) (hseat : Seated s)
    (hok : ¬RepeatFails s e) (ht : feedStep s e = some t) : HandedUpTo t := by
  obtain ⟨fed, hremoved, hputs⟩ := h
  cases feedStep_move ht with
  | append f => exact ⟨fed, hremoved, by rw [inFlight_append hseat]; exact hputs⟩
  | goes hfrom hto =>
    rw [inFlight_of_ne hfrom] at hputs
    exact ⟨fed, hremoved, by rw [inFlight_of_ne hto]; exact hputs⟩
  | @fills f rest htask hlist =>
    have hfrom : s.task ≠ .expand := by simp [htask]
    rw [inFlight_of_ne hfrom, List.map_nil, List.append_nil] at hputs
    have hone : inFlight { s with task := .expand, puts := s.puts ++ [.frame f] } = [f] :=
      inFlight_of_eq rfl hlist
    exact ⟨fed, hremoved, by rw [hone, hputs]; rfl⟩
  | @removes f rest _ _ _ _ again htask hlist =>
    -- The frame in flight and its repeat become the last pair.
    rw [inFlight_of_eq htask hlist] at hputs
    refine ⟨fed ++ [(f, again)], by simp [hremoved], ?_⟩
    have hnone : inFlight ⟨rest, .loop, s.puts ++ if again then [.again f] else [],
        s.removed ++ [f]⟩ = [] := inFlight_of_ne (by simp)
    rw [hnone, hputs]
    simp [handed]
  | rejects hrejected => exact absurd hrejected hok

/-- A rejected repeat leaves a frame in the list that was put. -/
theorem HandedUpTo.ahead {s t : SbcFeeder} {e : FeedEvent} (h : HandedUpTo s) (hseat : Seated s)
    (hfails : RepeatFails s e) (ht : feedStep s e = some t) : Ahead t := by
  obtain ⟨fed, hremoved, hputs⟩ := h
  cases feedStep_move ht with
  | append => exact hfails.elim
  | goes _ _ _ hok => exact absurd hfails hok
  | fills => exact hfails.elim
  | removes _ _ _ hok => exact absurd hfails hok
  | rejects =>
    obtain ⟨f, rest, hlist⟩ := List.exists_cons_of_ne_nil (hseat hfails.1)
    have hnone : inFlight { s with task := .idle } = [] := inFlight_of_ne (by simp)
    have hframes : framesPut s.puts = s.removed ++ [f] := by
      rw [hputs, inFlight_of_eq hfails.1 hlist, framesPut_append, framesPut_handed, hremoved]
      rfl
    simp [Ahead, hnone, hframes]

/-- No step makes up for a frame that is put once more. -/
theorem Ahead.step {s t : SbcFeeder} {e : FeedEvent} (h : Ahead s) (hseat : Seated s)
    (ht : feedStep s e = some t) : Ahead t := by
  simp only [Ahead] at h ⊢
  cases feedStep_move ht with
  | append f => rwa [inFlight_append hseat]
  | goes hfrom hto =>
    rw [inFlight_of_ne hfrom] at h
    rwa [inFlight_of_ne hto]
  | @fills f rest htask hlist =>
    have hfrom : s.task ≠ .expand := by simp [htask]
    rw [inFlight_of_ne hfrom] at h
    have hone : inFlight { s with task := .expand, puts := s.puts ++ [.frame f] } = [f] :=
      inFlight_of_eq rfl hlist
    rw [hone, framesPut_append, framesPut_frame, List.length_append]
    exact Nat.add_lt_add_right h 1
  | @removes f rest _ _ _ _ again htask hlist =>
    rw [inFlight_of_eq htask hlist] at h
    rw [inFlight_of_ne (by simp), framesPut_append, framesPut_again, List.append_nil,
      List.length_append]
    exact h
  | rejects =>
    rw [inFlight_of_ne (by simp)]
    exact lt_of_le_of_lt (Nat.le_add_right _ _) h

/-! ### All calls -/

/-- In every run of calls the frames leave the list in order, and they are handed over once exactly
when no repeat of a frame is rejected. -/
theorem handedOnce_iff (list : List SbcDecoderFrame) {es : List FeedEvent} {s : SbcFeeder}
    (h : es.foldlM feedStep (.start list) = some s) (hidle : s.task = .idle) :
    s.removed ++ s.list = list ++ es.filterMap appended ∧
      (HandedOnce s ↔ Along feedStep (fun s e => ¬RepeatFails s e) (.start list) es) := by
  refine ⟨by simpa [SbcFeeder.start] using list_eq h, ?_⟩
  have hstart : Seated (.start list) ∧ HandedUpTo (.start list) :=
    ⟨by simp [Seated, SbcFeeder.start], [], rfl, rfl⟩
  have hseat : Seated s := fun htask => by simp [hidle] at htask
  have hiff := @holds_iff_along _ _ feedStep (fun s e => ¬RepeatFails s e)
    (fun s => Seated s ∧ HandedUpTo s) (fun s => Seated s ∧ Ahead s)
    (fun _ _ _ hs hok ht => ⟨seated_of_step ht, hs.2.step hs.1 hok ht⟩)
    (fun _ _ _ hs hfails ht => ⟨seated_of_step ht, hs.2.ahead hs.1 (not_not.1 hfails) ht⟩)
    (fun _ _ _ hs ht => ⟨seated_of_step ht, hs.2.step hs.1 ht⟩)
    (fun _ hs hs' => hs.2.not_handedUpTo hs'.2) _ _ _ h hstart
  rw [← hiff, ← handedUpTo_iff hidle]
  exact (and_iff_right hseat).symm

/-- The halves of a packet. -/
def twoFrames : List SbcDecoderFrame := [⟨7, 1000, 1, 2, [0x9C, 1]⟩, ⟨7, 1000, 2, 2, [0x9C, 2]⟩]

/-- The first frame is put with a repeat, and the ring is full for the second one, which the next
call puts without a repeat. -/
def fullRing : List FeedEvent :=
  [.call 0, .put 0, .expand 1 0 98 0, .put 1, .call 0, .put 0, .expand 7 3 92 0, .put 0]

/-- Six frames are in the ring of a stream that buffers six frames. The ring takes the frame and
rejects the repeat, and the next call puts the frame again. -/
def rejectedRepeat : List FeedEvent :=
  [.call 0, .put 0, .expand 7 0 92 1, .call 0, .put 0, .expand 7 3 92 0, .put 0]

theorem handedOnce_iff_fullRing :
    ∃ s, fullRing.foldlM feedStep (.start twoFrames) = some s ∧ s.removed = twoFrames ∧
      HandedOnce s := by
  have hrun : fullRing.foldlM feedStep (.start twoFrames) = some ⟨[], .idle,
    [.frame ⟨7, 1000, 1, 2, [0x9C, 1]⟩, .again ⟨7, 1000, 1, 2, [0x9C, 1]⟩,
      .frame ⟨7, 1000, 2, 2, [0x9C, 2]⟩], twoFrames⟩ := rfl
  refine ⟨_, hrun, rfl, (handedOnce_iff twoFrames hrun rfl).2.2 ?_⟩
  simp [fullRing, RepeatFails]

theorem rejectedRepeat_not_handedOnce :
    ∃ s, rejectedRepeat.foldlM feedStep (.start (twoFrames.take 1)) = some s ∧ s.task = .idle ∧
      s.puts = [.frame ⟨7, 1000, 1, 2, [0x9C, 1]⟩, .frame ⟨7, 1000, 1, 2, [0x9C, 1]⟩] ∧
      ¬HandedOnce s := by
  have hahead : Ahead ⟨[], .idle,
      [.frame ⟨7, 1000, 1, 2, [0x9C, 1]⟩, .frame ⟨7, 1000, 1, 2, [0x9C, 1]⟩],
      [⟨7, 1000, 1, 2, [0x9C, 1]⟩]⟩ := by
    simp [Ahead, inFlight, framesPut]
  exact ⟨_, rfl, rfl, rfl, fun h => hahead.not_handedUpTo ((handedUpTo_iff rfl).2 h)⟩

/-! ### The ring -/

theorem inFrameCnt_nextInIdx {w r : Nat} (hw : w < cpInFrameCnt) (hr : r < cpInFrameCnt)
    (hfree : inFrameFreeCnt w r ≠ 0) : inFrameCnt (nextInIdx w) r = inFrameCnt w r + 1 := by
  simp only [inFrameFreeCnt, inFrameCnt, nextInIdx] at hfree ⊢
  split_ifs at hfree ⊢ <;> simp only [cpInFrameCnt] at * <;> omega

/-- A ring that has taken its last frame rejects the repeat, unless the core consumes a frame in
between. -/
theorem putPlace_at_limit {s t : CpSystem} {b : InBuffers} {maxBufferFrames pos : Nat}
    (hw : s.shared.cpInWidx < cpInFrameCnt) (hr : s.shared.cpInRidx < cpInFrameCnt)
    (hlimit : inFrameCnt s.shared.cpInWidx s.shared.cpInRidx = maxBufferFrames)
    (hput : s.putPlace maxBufferFrames b s.shared.cpInWidx s.shared.cpInRidx = .ok pos)
    (htw : t.shared.cpInWidx = nextInIdx s.shared.cpInWidx)
    (htr : t.shared.cpInRidx = s.shared.cpInRidx) (inWidx inRidx : Nat) :
    t.putPlace maxBufferFrames b inWidx inRidx = .error 1 := by
  have hfree : inFrameFreeCnt s.shared.cpInWidx s.shared.cpInRidx ≠ 0 := by
    intro hfree
    simp [CpSystem.putPlace, hlimit, hfree] at hput
  rw [CpSystem.putPlace, htw, htr, inFrameCnt_nextInIdx hw hr hfree, hlimit,
    if_pos (Nat.lt_succ_self _)]

end EarbudFirmware.A2dp
