import EarbudFirmware.Lib.Transition

/-!
# Mixing a ring tone into the stream

A tone is mixed into the buffers of the playback stream as they are filled, once or over and over.
The position in the tone is kept from one buffer to the next one. A handler is modelled by the calls
of `app_ring_merge_track_2_in_1` that it makes; a call adds a part of the tone to a part of the
buffer.

## Main definitions

* `appRingMergeMoreData` — one buffer, in both modes
* `mixedWith` — the samples of the tone that the calls mix with one sample of the buffer
* `MixesTone` — a buffer is mixed with the samples of the tone that are due, and the end of the tone
  is told in the buffer that reaches it
* `EndsInside` — in one-shot mode no buffer ends with the tone, and none longer than the tone finds
  it begun

## Main results

* `getElem?_runTracks` — what the calls make of a buffer
* `periodicWhile_covers` — the loop over the tone mixes every sample with the one that is due
* `mixesTone_iff` — the tone is mixed as it should be exactly when its buffers end inside
-/

namespace EarbudFirmware.Audio

open Transition (Along)

/-- `AUD_BITS_T`. -/
inductive AudBits
  | null | bits8 | bits12 | bits16 | bits20 | bits24 | bits32
  deriving DecidableEq

/-- The types that the handlers are instantiated with. -/
inductive SampleType
  | int16 | int32
  deriving DecidableEq

/-- `sizeof(DataType)`. -/
def SampleType.size : SampleType → Nat
  | .int16 => 2
  | .int32 => 4

/-- The stream format with samples of this type. -/
def SampleType.bits : SampleType → AudBits
  | .int16 => .bits16
  | .int32 => .bits24

/-- `convertTo`. -/
def SampleType.convertTo : SampleType → Int → Int
  | .int16, x => x
  | .int32, x => x * 0x100

/-- One sample mixed with one of the tone. -/
def SampleType.mix (d : SampleType) (x tone : Int) : Int := x / 2 + d.convertTo tone / 2

/-- A call of `app_ring_merge_track_2_in_1`: `len` samples at `dst` of the buffer are mixed with
those at `src` of the tone. -/
structure Track where
  dst : Nat
  src : Nat
  len : Nat
  deriving DecidableEq

/-- `app_ring_merge_track_2_in_1`. -/
def Track.run (d : SampleType) (tone : Nat → Int) (buf : List Int) (c : Track) : List Int :=
  buf.mapIdx fun i x =>
    if c.dst ≤ i ∧ i < c.dst + c.len then d.mix x (tone (c.src + (i - c.dst))) else x

def runTracks (d : SampleType) (tone : Nat → Int) (tracks : List Track) (buf : List Int) :
    List Int :=
  tracks.foldl (Track.run d tone) buf

/-- The sample of the tone that a call mixes with sample `i` of the buffer. -/
def Track.sample? (i : Nat) (c : Track) : Option Nat :=
  if c.dst ≤ i ∧ i < c.dst + c.len then some (c.src + (i - c.dst)) else none

/-- The samples of the tone that the calls mix with sample `i` of the buffer, in order. -/
def mixedWith (tracks : List Track) (i : Nat) : List Nat := tracks.filterMap (Track.sample? i)

/-- `APP_RING_MERGE_STATUS`. -/
inductive MergeStatus
  | stop | start | running
  deriving DecidableEq

/-- `APP_RING_MERGE_PLAY_T`. -/
inductive MergePlay
  | oneshot | periodic | qty
  deriving DecidableEq

/-- What the field `handler` points to. -/
inductive MergeHandler
  | oneshotMoreData | periodicMoreData
  deriving DecidableEq

/-- The mode of a handler. -/
def MergeHandler.play : MergeHandler → MergePlay
  | .oneshotMoreData => .oneshot
  | .periodicMoreData => .periodic

/-- A media stream that is stopped. -/
inductive StreamStop
  | a2dp (devId : Int)
  | sco (devId : Int)
  deriving DecidableEq

/-- `app_ring_merge_config`, without the address of the tone. -/
structure MergeConfig where
  status : MergeStatus
  len : Nat
  next : Nat
  bits : AudBits
  handler : Option MergeHandler
  pendingStopOp : Nat
  savedStoppedStreamId : Int

/-- `app_ring_merge_init`. -/
def MergeConfig.init : MergeConfig where
  status := .stop
  len := 0
  next := 0
  bits := .bits16
  handler := none
  pendingStopOp := 0
  savedStoppedStreamId := -1

/-- The stream whose stop has been put off to the end of the tone. -/
def MergeConfig.savedStop (c : MergeConfig) : Option StreamStop :=
  if 0 ≤ c.savedStoppedStreamId then
    if c.pendingStopOp = 0 then some (.a2dp c.savedStoppedStreamId)
    else if c.pendingStopOp = 1 then some (.sco c.savedStoppedStreamId)
    else none
  else none

/-- `app_ring_merge_finished_callback`, without the stop of the saved stream. -/
def MergeConfig.finishedCallback (c : MergeConfig) : MergeConfig :=
  { c with
    status := .stop
    savedStoppedStreamId := -1 }

/-- `app_ring_merge_save_pending_start_stream_op`: the device id becomes an `int8_t`. -/
def MergeConfig.savePendingStartStreamOp (c : MergeConfig) (op deviceId : UInt8) : MergeConfig :=
  { c with
    pendingStopOp := op.toNat
    savedStoppedStreamId := deviceId.toInt8.toInt }

/-- `app_ring_merge_setup`. -/
def MergeConfig.setup (c : MergeConfig) (len : Nat) (play : MergePlay) : MergeConfig :=
  { c with
    status := .stop
    len := len
    next := 0
    handler :=
      match play with
      | .oneshot => some .oneshotMoreData
      | .periodic => some .periodicMoreData
      | .qty => c.handler }

/-- `app_ring_merge_start`, with the length of the built-in tone where there is one for the sample
rate. -/
def MergeConfig.start (c : MergeConfig) (resource : Option Nat) (bits : AudBits) : MergeConfig :=
  { (match resource with
      | some len => c.setup len .oneshot
      | none => c) with
    next := 0
    status := .start
    bits := bits
    savedStoppedStreamId := -1 }

/-- What a handler does: the configuration it leaves, the parts of the tone it mixes in, the stream
stopped by each of its calls of `app_ring_merge_finished_callback`, and what it returns. -/
structure Merged where
  config : MergeConfig
  tracks : List Track
  finished : List (Option StreamStop)
  ret : Nat

/-- `app_ring_merge_oneshot_more_data_impl`. -/
def MergeConfig.oneshotMoreDataImpl (c : MergeConfig) (d : SampleType) (len : Nat) : Merged :=
  let needLen := len / d.size
  if c.next = c.len then ⟨c, [], [], len⟩
  else if needLen > c.len then
    ⟨{ c with next := c.len }.finishedCallback, [⟨0, 0, c.len⟩], [c.savedStop], len⟩
  else if c.len - c.next ≥ needLen then
    ⟨{ c with next := c.next + needLen }, [⟨0, c.next, needLen⟩], [], len⟩
  else
    ⟨{ c with next := c.len }.finishedCallback, [⟨0, c.next, c.len - c.next⟩], [c.savedStop], len⟩

/-- The variables of the loop in `app_ring_merge_periodic_more_data_impl`. -/
structure PeriodicLoop where
  config : MergeConfig
  remainSize : Nat
  currSize : Nat
  tracks : List Track

/-- The body of the loop. -/
def PeriodicLoop.body (l : PeriodicLoop) : PeriodicLoop :=
  if l.config.next ≠ 0 then
    let currSize := l.config.len - l.config.next
    { config := { l.config with next := 0 }
      remainSize := l.remainSize - currSize
      currSize := currSize
      tracks := l.tracks ++ [⟨0, l.config.next, currSize⟩] }
  else if l.remainSize > l.config.len then
    { l with
      remainSize := l.remainSize - l.config.len
      currSize := l.currSize + l.config.len
      tracks := l.tracks ++ [⟨l.currSize, 0, l.config.len⟩] }
  else
    { l with
      config := { l.config with next := l.remainSize }
      remainSize := 0
      tracks := l.tracks ++ [⟨l.currSize, 0, l.remainSize⟩] }

/-- `do … while (remain_size)`, for at most `fuel` rounds. -/
def periodicWhile : Nat → PeriodicLoop → Option PeriodicLoop
  | 0, _ => none
  | fuel + 1, l => if l.body.remainSize = 0 then some l.body else periodicWhile fuel l.body

/-- `app_ring_merge_periodic_more_data_impl`. -/
def MergeConfig.periodicMoreDataImpl (c : MergeConfig) (d : SampleType) (len : Nat) :
    Option Merged :=
  let needLen := len / d.size
  if needLen > c.len then
    (periodicWhile (needLen + 1) ⟨c, needLen, 0, []⟩).map fun l => ⟨l.config, l.tracks, [], len⟩
  else if c.len - c.next ≥ needLen then
    some ⟨{ c with next := c.next + needLen }, [⟨0, c.next, needLen⟩], [], len⟩
  else
    let currSize := c.len - c.next
    some ⟨{ c with next := needLen - currSize },
      [⟨0, c.next, currSize⟩, ⟨currSize, 0, needLen - currSize⟩], [], len⟩

/-- The template of a handler. -/
def MergeConfig.moreDataImpl (c : MergeConfig) (h : MergeHandler) (d : SampleType) (len : Nat) :
    Option Merged :=
  match h with
  | .oneshotMoreData => some (c.oneshotMoreDataImpl d len)
  | .periodicMoreData => c.periodicMoreDataImpl d len

/-- `app_ring_merge_oneshot_more_data` and `app_ring_merge_periodic_more_data`. -/
def MergeConfig.runHandler (c : MergeConfig) (h : MergeHandler) (len : Nat) : Option Merged :=
  match c.bits with
  | .bits16 => c.moreDataImpl h .int16 len
  | .bits24 => c.moreDataImpl h .int32 len
  | _ => some ⟨c, [], [], 0⟩

/-- `app_ring_merge_more_data`. -/
def MergeConfig.appRingMergeMoreData (c : MergeConfig) (len : Nat) : Option Merged :=
  match c.handler with
  | none => some ⟨c, [], [], len⟩
  | some h =>
    if c.status ≠ .stop then
      { c with
      status := if c.status = MergeStatus.start then .running else c.status }.runHandler h len
    else some ⟨c, [], [], len⟩

/-- A buffer is filled, or the stop of a stream is put off. -/
inductive MergeEvent
  | moreData (len : Nat)
  | savePending (op deviceId : UInt8)

/-- The configuration, and the samples that have gone out since the start. -/
structure Playback where
  config : MergeConfig
  played : Nat

/-- One event, for a stream of samples of type `d`. -/
def mergeStep (d : SampleType) (s : Playback) : MergeEvent → Option Playback
  | .moreData len =>
    (s.config.appRingMergeMoreData len).map fun r => ⟨r.config, s.played + len / d.size⟩
  | .savePending op deviceId =>
    some { s with config := s.config.savePendingStartStreamOp op deviceId }

/-- The samples of the tone that are due for sample `i` of a buffer of `n` samples, behind `played`
ones. -/
def dueSamples (h : MergeHandler) (toneLen played n i : Nat) : List Nat :=
  match h with
  | .oneshotMoreData => if i < n ∧ played + i < toneLen then [played + i] else []
  | .periodicMoreData => if i < n then [(played + i) % toneLen] else []

/-- The calls of `app_ring_merge_finished_callback` that are due in such a buffer. -/
def dueCallbacks (toneLen played n : Nat) (stop : Option StreamStop) : List (Option StreamStop) :=
  if played < toneLen ∧ toneLen ≤ played + n then [stop] else []

/-- A buffer is mixed with the samples that are due and with no others, and in one-shot mode the
callback comes, once, in the buffer with the last sample of the tone. -/
def MixesTone (d : SampleType) (h : MergeHandler) (toneLen : Nat) (s : Playback) :
    MergeEvent → Prop
  | .moreData len =>
    ∃ r, s.config.appRingMergeMoreData len = some r ∧
      (∀ i, mixedWith r.tracks i = dueSamples h toneLen s.played (len / d.size) i) ∧
      (h = .oneshotMoreData →
        r.finished = dueCallbacks toneLen s.played (len / d.size) s.config.savedStop)
  | .savePending _ _ => True

/-- In one-shot mode a buffer does not end with the tone, and one longer than the tone does not find
it begun. -/
def EndsInside (d : SampleType) (h : MergeHandler) (s : Playback) : MergeEvent → Prop
  | .moreData len =>
    h = .oneshotMoreData → s.config.status ≠ .stop →
      s.config.next + len / d.size ≠ s.config.len ∧
        (len / d.size > s.config.len → s.config.next = 0)
  | .savePending _ _ => True

variable {d : SampleType} {h : MergeHandler} {toneLen played n len i : Nat}

/-! ### Samples -/

/-- What `DataType` can hold. -/
def SampleType.Holds : SampleType → Int → Prop
  | .int16, x => -0x8000 ≤ x ∧ x < 0x8000
  | .int32, x => -0x80000000 ≤ x ∧ x < 0x80000000

/-- The sum of the halves does not overflow. -/
theorem holds_mix {x tone : Int} (hx : d.Holds x) (ht : SampleType.int16.Holds tone) :
    d.Holds (d.mix x tone) := by
  cases d <;> simp only [SampleType.Holds, SampleType.mix, SampleType.convertTo] at hx ht ⊢ <;>
    omega

/-- A sample of the buffer behind the calls: it has been mixed with those of the tone, one after the
other. -/
theorem getElem?_runTracks (d : SampleType) (tone : Nat → Int) (tracks : List Track)
    (buf : List Int) (i : Nat) :
    (runTracks d tone tracks buf)[i]? =
      buf[i]?.map fun x => (mixedWith tracks i).foldl (fun x j => d.mix x (tone j)) x := by
  induction tracks generalizing buf with
  | nil => simp [runTracks, mixedWith]
  | cons c tracks ih =>
    have hrun : runTracks d tone (c :: tracks) buf = runTracks d tone tracks (c.run d tone buf) :=
      rfl
    rw [hrun, ih, Track.run, List.getElem?_mapIdx, Option.map_map]
    congr 1
    funext x
    rw [Function.comp_apply, mixedWith, mixedWith, List.filterMap_cons, Track.sample?]
    split <;> rfl

/-! ### Calls one behind the other -/

/-- The calls mix each of the first `n` samples once, in the order of the tone. -/
def Covers (toneLen played n : Nat) (tracks : List Track) : Prop :=
  ∀ i, mixedWith tracks i = if i < n then [(played + i) % toneLen] else []

theorem covers_nil : Covers toneLen played 0 [] := fun _ => rfl

theorem mixedWith_single (c : Track) (i : Nat) :
    mixedWith [c] i =
      if c.dst ≤ i ∧ i < c.dst + c.len then [c.src + (i - c.dst)] else [] := by
  rw [mixedWith, List.filterMap_cons, Track.sample?]
  by_cases hi : c.dst ≤ i ∧ i < c.dst + c.len
  · rw [if_pos hi, if_pos hi]
    rfl
  · rw [if_neg hi, if_neg hi]
    rfl

/-- A call goes on behind the samples mixed so far, with the part of the tone that is next. -/
theorem Covers.snoc {tracks : List Track} {src k : Nat} (hs : Covers toneLen played n tracks)
    (hsrc : (played + n) % toneLen = src % toneLen) (hk : src + k ≤ toneLen) :
    Covers toneLen played (n + k) (tracks ++ [⟨n, src, k⟩]) := by
  intro i
  have happ : mixedWith (tracks ++ [⟨n, src, k⟩]) i =
      mixedWith tracks i ++ mixedWith [⟨n, src, k⟩] i := List.filterMap_append
  rw [happ, hs i, mixedWith_single]
  dsimp only
  rcases Nat.lt_or_ge i n with hi | hi
  · rw [if_pos hi, if_neg (by omega), if_pos (by omega), List.append_nil]
  · rw [if_neg (by omega), List.nil_append]
    rcases Nat.lt_or_ge i (n + k) with hik | hik
    · have hpos : played + i = played + n + (i - n) := by omega
      have hlt : src + (i - n) < toneLen := by omega
      rw [if_pos ⟨hi, hik⟩, if_pos hik, hpos, Nat.add_mod, hsrc, ← Nat.add_mod,
        Nat.mod_eq_of_lt hlt]
    · rw [if_neg (by omega), if_neg (by omega)]

theorem covers_single {src : Nat} (hsrc : played % toneLen = src % toneLen)
    (hn : src + n ≤ toneLen) : Covers toneLen played n [⟨0, src, n⟩] := by
  have h := covers_nil.snoc hsrc hn
  rw [Nat.zero_add] at h
  exact h

theorem Covers.periodic {tracks : List Track} (h : Covers toneLen played n tracks) :
    mixedWith tracks i = dueSamples .periodicMoreData toneLen played n i := h i

/-- In one-shot mode the rest of the tone is due. -/
theorem Covers.oneshot {tracks : List Track} {k : Nat} (hs : Covers toneLen played k tracks)
    (hk : played + k ≤ toneLen) (hle : k ≤ n) (hend : k = n ∨ played + k = toneLen) :
    mixedWith tracks i = dueSamples .oneshotMoreData toneLen played n i := by
  rw [hs i, dueSamples]
  by_cases hi : i < k
  · rw [if_pos hi, if_pos (by omega), Nat.mod_eq_of_lt (by omega)]
  · rw [if_neg hi, if_neg (by omega)]

/-! ### The loop over the tone -/

/-- The loop stands at the beginning of the tone, behind `currSize` samples of the buffer. -/
structure AtBeginning (c : MergeConfig) (played n : Nat) (l : PeriodicLoop) : Prop where
  config : l.config = { c with next := 0 }
  sizes : l.currSize + l.remainSize = n
  remain : 0 < l.remainSize
  covers : Covers c.len played l.currSize l.tracks
  pos : (played + l.currSize) % c.len = 0

/-- The buffer has been mixed with the tone, over and over. -/
structure Mixed (c : MergeConfig) (played n : Nat) (c' : MergeConfig) (tracks : List Track) :
    Prop where
  config : c' = { c with next := c'.next }
  next : c'.next ≤ c.len
  pos : (played + n) % c.len = c'.next % c.len
  covers : Covers c.len played n tracks

variable {c : MergeConfig} {l : PeriodicLoop}

/-- The loop mixes the tone as a whole while the rest of the buffer is longer. -/
theorem periodicWhile_of_atBeginning {fuel : Nat} (hl : AtBeginning c played n l)
    (hc : 0 < c.len) (hfuel : l.remainSize ≤ fuel) :
    ∃ l', periodicWhile fuel l = some l' ∧ Mixed c played n l'.config l'.tracks := by
  have hsizes := hl.sizes
  have hremain := hl.remain
  induction fuel generalizing l with
  | zero => omega
  | succ fuel ih =>
    have hnext : ¬l.config.next ≠ 0 := by
      rw [hl.config]
      exact fun h => h rfl
    have hlen : l.config.len = c.len := by rw [hl.config]
    have hcovers : ∀ k ≤ c.len,
        Covers c.len played (l.currSize + k) (l.tracks ++ [⟨l.currSize, 0, k⟩]) := by
      intro k hk
      refine hl.covers.snoc ?_ (by omega)
      rw [hl.pos, Nat.zero_mod]
    rw [periodicWhile]
    by_cases hlong : l.remainSize > l.config.len
    · have hbody : l.body = { l with
          remainSize := l.remainSize - l.config.len
          currSize := l.currSize + l.config.len
          tracks := l.tracks ++ [⟨l.currSize, 0, l.config.len⟩] } := by
        rw [PeriodicLoop.body, if_neg hnext, if_pos hlong]
      have hrest : l.body.remainSize = l.remainSize - l.config.len := by rw [hbody]
      rw [if_neg (by omega)]
      refine ih ?_ (by omega) ?_ (by omega)
      · refine ⟨?_, ?_, ?_, ?_, ?_⟩
        · rw [hbody]
          exact hl.config
        · rw [hbody]
          dsimp only
          omega
        · omega
        · rw [hbody, hlen]
          exact hcovers c.len (Nat.le_refl _)
        · rw [hbody, hlen]
          dsimp only
          rw [← Nat.add_assoc, Nat.add_mod_right, hl.pos]
      · rw [hbody]
        dsimp only
        omega
    · have hbody : l.body = { l with
          config := { l.config with next := l.remainSize }
          remainSize := 0
          tracks := l.tracks ++ [⟨l.currSize, 0, l.remainSize⟩] } := by
        rw [PeriodicLoop.body, if_neg hnext, if_neg hlong]
      rw [hbody, if_pos rfl]
      refine ⟨_, rfl, ?_, ?_, ?_, ?_⟩
      · dsimp only
        rw [hl.config]
      · dsimp only
        omega
      · dsimp only
        rw [← hsizes, ← Nat.add_assoc, Nat.add_mod, hl.pos, Nat.zero_add, Nat.mod_mod]
      · rw [← hsizes]
        exact hcovers l.remainSize (by omega)

/-- The loop first mixes the rest of the tone, if the last buffer ended inside. -/
theorem periodicWhile_covers (hc : 0 < c.len) (hnext : c.next ≤ c.len)
    (hpos : played % c.len = c.next % c.len) (hn : n > c.len) :
    ∃ l, periodicWhile (n + 1) ⟨c, n, 0, []⟩ = some l ∧ Mixed c played n l.config l.tracks := by
  by_cases hzero : c.next = 0
  · refine periodicWhile_of_atBeginning ?_ hc (Nat.le_succ n)
    refine ⟨?_, Nat.zero_add n, Nat.lt_trans hc hn, covers_nil, ?_⟩
    · rw [← hzero]
    · rw [Nat.add_zero, hpos, hzero, Nat.zero_mod]
  · have hbody : PeriodicLoop.body ⟨c, n, 0, []⟩ =
        ⟨{ c with next := 0 }, n - (c.len - c.next), c.len - c.next,
          [⟨0, c.next, c.len - c.next⟩]⟩ := by
      rw [PeriodicLoop.body, if_pos hzero]
      rfl
    rw [periodicWhile, hbody, if_neg (by dsimp only; omega)]
    refine periodicWhile_of_atBeginning ⟨rfl, ?_, ?_, ?_, ?_⟩ hc ?_
    · dsimp only
      omega
    · dsimp only
      omega
    · refine covers_single hpos ?_
      dsimp only
      omega
    · dsimp only
      have hend : c.next + (c.len - c.next) = c.len := by omega
      rw [Nat.add_mod, hpos, ← Nat.add_mod, hend, Nat.mod_self]
    · dsimp only
      omega

/-! ### One buffer -/

/-- A buffer in periodic mode. -/
theorem periodicMoreDataImpl_mixed (d : SampleType) (len : Nat) (hc : 0 < c.len)
    (hnext : c.next ≤ c.len) (hpos : played % c.len = c.next % c.len) :
    ∃ r, c.periodicMoreDataImpl d len = some r ∧
      Mixed c played (len / d.size) r.config r.tracks := by
  rw [MergeConfig.periodicMoreDataImpl]
  dsimp only
  generalize len / d.size = n
  by_cases hlong : n > c.len
  · obtain ⟨l, hl, hmixed⟩ := periodicWhile_covers hc hnext hpos hlong
    rw [if_pos hlong, hl]
    exact ⟨_, rfl, hmixed⟩
  · rw [if_neg hlong]
    by_cases hfits : c.len - c.next ≥ n
    · rw [if_pos hfits]
      refine ⟨_, rfl, rfl, ?_, ?_, covers_single hpos (by omega)⟩
      · dsimp only
        omega
      · dsimp only
        rw [Nat.add_mod, hpos, ← Nat.add_mod]
    · rw [if_neg hfits]
      have hend : (played + (c.len - c.next)) % c.len = 0 := by
        have hsum : c.next + (c.len - c.next) = c.len := by omega
        rw [Nat.add_mod, hpos, ← Nat.add_mod, hsum, Nat.mod_self]
      have hsplit : n = c.len - c.next + (n - (c.len - c.next)) := by omega
      refine ⟨_, rfl, rfl, ?_, ?_, ?_⟩
      · dsimp only
        omega
      · dsimp only
        conv_lhs => rw [hsplit, ← Nat.add_assoc, Nat.add_mod, hend, Nat.zero_add, Nat.mod_mod]
      · have hfirst : Covers c.len played (c.len - c.next) [⟨0, c.next, c.len - c.next⟩] :=
          covers_single hpos (by omega)
        have hsecond := hfirst.snoc (hend.trans (Nat.zero_mod c.len).symm)
          (k := n - (c.len - c.next)) (by omega)
        rw [← hsplit] at hsecond
        exact hsecond

/-- A buffer in one-shot mode, while the tone lasts: what is due is mixed, and the callback is as it
should be, exactly when the buffer does not end with the tone and is not longer than a tone that has
begun. -/
theorem oneshotMoreDataImpl_iff (d : SampleType) (len : Nat) (hnext : c.next < c.len) :
    ((∀ i, mixedWith (c.oneshotMoreDataImpl d len).tracks i =
        dueSamples .oneshotMoreData c.len c.next (len / d.size) i) ∧
      (c.oneshotMoreDataImpl d len).finished =
        dueCallbacks c.len c.next (len / d.size) c.savedStop) ↔
    c.next + len / d.size ≠ c.len ∧ (len / d.size > c.len → c.next = 0) := by
  rw [MergeConfig.oneshotMoreDataImpl]
  generalize len / d.size = n
  rw [if_neg (Nat.ne_of_lt hnext)]
  have hself : c.next % c.len = c.next % c.len := rfl
  unfold dueCallbacks
  by_cases hlong : n > c.len
  · rw [if_pos hlong, if_pos ⟨hnext, by omega⟩]
    constructor
    · rintro ⟨hmixed, -⟩
      refine ⟨by omega, fun _ => ?_⟩
      -- the first sample tells where the tone is taken from
      have hfirst := hmixed 0
      rw [mixedWith_single, dueSamples] at hfirst
      dsimp only at hfirst
      rw [if_pos (by omega), if_pos (by omega)] at hfirst
      have hzero := (List.cons.inj hfirst).1
      omega
    · rintro ⟨-, hzero⟩
      have hnext0 := hzero hlong
      refine ⟨fun i => ?_, rfl⟩
      have hwhole : Covers c.len 0 c.len [⟨0, 0, c.len⟩] := covers_single rfl (by omega)
      rw [hnext0]
      exact hwhole.oneshot (by omega) (by omega) (.inr (by omega))
  · rw [if_neg hlong]
    by_cases hfits : c.len - c.next ≥ n
    · rw [if_pos hfits]
      have hmixed : ∀ i, mixedWith [⟨0, c.next, n⟩] i =
          dueSamples .oneshotMoreData c.len c.next n i := fun i =>
        (covers_single hself (by omega)).oneshot (by omega) (Nat.le_refl n) (.inl rfl)
      constructor
      · rintro ⟨-, hfinished⟩
        refine ⟨fun hend => ?_, fun h => absurd h hlong⟩
        rw [if_pos ⟨hnext, by omega⟩] at hfinished
        cases hfinished
      · rintro ⟨hend, -⟩
        refine ⟨hmixed, ?_⟩
        rw [if_neg (by omega)]
    · rw [if_neg hfits, if_pos ⟨hnext, by omega⟩]
      refine iff_of_true ⟨fun i => ?_, rfl⟩ ⟨by omega, fun h => absurd h hlong⟩
      exact (covers_single hself (by omega)).oneshot (by omega) (by omega) (.inr (by omega))

/-- Where a buffer that ends inside leaves the tone. -/
theorem oneshotMoreDataImpl_config (d : SampleType) (len : Nat) (hnext : c.next < c.len)
    (hend : c.next + len / d.size ≠ c.len) :
    (c.oneshotMoreDataImpl d len).config =
      if c.next + len / d.size < c.len then { c with next := c.next + len / d.size }
      else { c with next := c.len }.finishedCallback := by
  rw [MergeConfig.oneshotMoreDataImpl]
  generalize len / d.size = n at *
  rw [if_neg (Nat.ne_of_lt hnext)]
  by_cases hlong : n > c.len
  · rw [if_pos hlong, if_neg (by omega)]
  · rw [if_neg hlong]
    by_cases hfits : c.len - c.next ≥ n
    · rw [if_pos hfits, if_pos (by omega)]
    · rw [if_neg hfits, if_neg (by omega)]

/-! ### Playback -/

/-- Where the playback stands in the tone. -/
inductive InTone (h : MergeHandler) (toneLen : Nat) (s : Playback) : Prop
  | periodic (hh : h = .periodicMoreData) (hstatus : s.config.status ≠ .stop)
      (hnext : s.config.next ≤ toneLen) (hpos : s.played % toneLen = s.config.next % toneLen)
  | oneshot (hh : h = .oneshotMoreData) (hstatus : s.config.status ≠ .stop)
      (hpos : s.played = s.config.next) (hlt : s.config.next < toneLen)
  | finished (hh : h = .oneshotMoreData) (hstatus : s.config.status = .stop)
      (hle : toneLen ≤ s.played)

/-- The playback is set up for the tone. -/
structure Plays (d : SampleType) (h : MergeHandler) (toneLen : Nat) (s : Playback) : Prop where
  bits : s.config.bits = d.bits
  handler : s.config.handler = some h
  len : s.config.len = toneLen
  inTone : InTone h toneLen s

variable {s t : Playback} {e : MergeEvent}

/-- The configuration that a handler meets. -/
def MergeConfig.run (c : MergeConfig) : MergeConfig :=
  { c with status := if c.status = MergeStatus.start then .running else c.status }

theorem run_status (h : c.status ≠ .stop) : c.run.status ≠ .stop := by
  rw [MergeConfig.run]
  dsimp only
  split
  · exact MergeStatus.noConfusion
  · exact h

/-- The handler runs for the type of the samples. -/
theorem appRingMergeMoreData_eq (hs : Plays d h toneLen s) (hstatus : s.config.status ≠ .stop)
    (len : Nat) :
    s.config.appRingMergeMoreData len = s.config.run.moreDataImpl h d len := by
  have hbits : s.config.run.bits = d.bits := hs.bits
  have hrun : s.config.appRingMergeMoreData len = s.config.run.runHandler h len := by
    rw [MergeConfig.appRingMergeMoreData]
    split
    · rename_i hnone
      cases hs.handler.symm.trans hnone
    · rename_i hsome
      obtain rfl := Option.some.inj (hs.handler.symm.trans hsome)
      exact if_pos hstatus
  rw [hrun, MergeConfig.runHandler, hbits]
  cases d <;> rfl

theorem appRingMergeMoreData_of_stop (hstatus : c.status = .stop) (len : Nat) :
    c.appRingMergeMoreData len = some ⟨c, [], [], len⟩ := by
  rw [MergeConfig.appRingMergeMoreData]
  split
  · rfl
  · exact if_neg fun hne => hne hstatus

/-- An event does what is due exactly when the buffer ends inside. -/
theorem Plays.mixes_iff (hs : Plays d h toneLen s) (hlen : 0 < toneLen) :
    MixesTone d h toneLen s e ↔ EndsInside d h s e := by
  obtain rfl := hs.len
  cases e with
  | savePending => exact Iff.rfl
  | moreData len =>
    rw [MixesTone, EndsInside]
    cases hs.inTone with
    | periodic hh hstatus hnext hpos =>
      obtain rfl := hh
      refine iff_of_true ?_ fun h => by cases h
      obtain ⟨r, hr, hmixed⟩ :=
        @periodicMoreDataImpl_mixed s.played s.config.run d len hlen hnext hpos
      rw [appRingMergeMoreData_eq hs hstatus]
      exact ⟨r, hr, fun i => hmixed.covers.periodic, fun h => by cases h⟩
    | oneshot hh hstatus hpos hlt =>
      obtain rfl := hh
      have hiff := @oneshotMoreDataImpl_iff s.config.run d len hlt
      rw [appRingMergeMoreData_eq hs hstatus, hpos]
      constructor
      · rintro ⟨r, hr, hmixed, hfinished⟩ - -
        obtain rfl := Option.some.inj hr
        exact hiff.mp ⟨hmixed, hfinished rfl⟩
      · intro hends
        obtain ⟨hmixed, hfinished⟩ := hiff.mpr (hends rfl hstatus)
        exact ⟨_, rfl, hmixed, fun _ => hfinished⟩
    | finished hh hstatus hle =>
      obtain rfl := hh
      refine iff_of_true ?_ fun _ h => absurd hstatus h
      refine ⟨_, appRingMergeMoreData_of_stop hstatus len, fun i => ?_, fun _ => ?_⟩
      · rw [dueSamples, if_neg (by omega)]
        rfl
      · rw [dueCallbacks, if_neg (by omega)]

/-- A buffer that ends inside leaves the playback in the tone. -/
theorem Plays.step (hs : Plays d h toneLen s) (hlen : 0 < toneLen) (he : EndsInside d h s e)
    (ht : mergeStep d s e = some t) : Plays d h toneLen t := by
  obtain rfl := hs.len
  cases e with
  | savePending op deviceId =>
    obtain rfl := Option.some.inj ht
    refine ⟨hs.bits, hs.handler, rfl, ?_⟩
    cases hs.inTone with
    | periodic hh hstatus hnext hpos => exact .periodic hh hstatus hnext hpos
    | oneshot hh hstatus hpos hlt => exact .oneshot hh hstatus hpos hlt
    | finished hh hstatus hle => exact .finished hh hstatus hle
  | moreData len =>
    rw [mergeStep, Option.map_eq_some_iff] at ht
    obtain ⟨r, hr, rfl⟩ := ht
    cases hs.inTone with
    | periodic hh hstatus hnext hpos =>
      obtain rfl := hh
      obtain ⟨r', hr', hmixed⟩ :=
        @periodicMoreDataImpl_mixed s.played s.config.run d len hlen hnext hpos
      rw [appRingMergeMoreData_eq hs hstatus] at hr
      obtain rfl := Option.some.inj (hr'.symm.trans hr)
      have hconfig := hmixed.config
      refine ⟨?_, ?_, ?_, .periodic rfl ?_ hmixed.next hmixed.pos⟩
      · dsimp only
        rw [hconfig]
        exact hs.bits
      · dsimp only
        rw [hconfig]
        exact hs.handler
      · dsimp only
        rw [hconfig]
        rfl
      · dsimp only
        rw [hconfig]
        exact run_status hstatus
    | oneshot hh hstatus hpos hlt =>
      obtain rfl := hh
      have hends := (he rfl hstatus).1
      rw [appRingMergeMoreData_eq hs hstatus] at hr
      obtain rfl := Option.some.inj hr
      have hconfig := @oneshotMoreDataImpl_config s.config.run d len hlt hends
      rw [hconfig]
      have hnext : s.config.run.next = s.config.next := rfl
      have hrunLen : s.config.run.len = s.config.len := rfl
      rw [hnext, hrunLen]
      by_cases hinside : s.config.next + len / d.size < s.config.len
      · rw [if_pos hinside]
        refine ⟨hs.bits, hs.handler, rfl, .oneshot rfl (run_status hstatus) ?_ hinside⟩
        dsimp only
        rw [hpos]
      · rw [if_neg hinside]
        refine ⟨hs.bits, hs.handler, rfl, .finished rfl rfl ?_⟩
        dsimp only
        omega
    | finished hh hstatus hle =>
      obtain rfl := Option.some.inj ((appRingMergeMoreData_of_stop hstatus len).symm.trans hr)
      exact ⟨hs.bits, hs.handler, rfl,
        .finished hh hstatus (Nat.le_trans hle (Nat.le_add_right _ _))⟩

/-- A tone that is set up and started. -/
theorem plays_start (c : MergeConfig) (d : SampleType) (h : MergeHandler) (hlen : 0 < toneLen) :
    Plays d h toneLen ⟨(c.setup toneLen h.play).start none d.bits, 0⟩ := by
  cases h with
  | oneshotMoreData =>
    exact ⟨rfl, rfl, rfl, .oneshot rfl MergeStatus.noConfusion rfl hlen⟩
  | periodicMoreData =>
    exact ⟨rfl, rfl, rfl, .periodic rfl MergeStatus.noConfusion (Nat.zero_le _) rfl⟩

end EarbudFirmware.Audio
