import EarbudFirmware.Lib.Transition

/-!
# Stops that a mixed prompt defers

A stream that is stopped while a prompt is mixed into it goes on until the prompt ends. One kind and
one device are saved for that, so that a second stop takes the place of the first one.

## Main definitions

* `AudioPromptEnv` — the fields of `audio_prompt_env` that the stops are about
* `checkOnStoppingStream`, `clearPendingStream`, `stopPlaying`, `forcefullyStop` — its functions
* `Deferrals.step` — one call, with the stops that are deferred and not yet executed or cancelled
* `KeepsStops`, `StopsKept` — what a call does with them
* `OneStop` — the calls of runs in which one stop is deferred at a time

## Main results

* `keepsStops_along` — along such runs no stop is lost, and none is executed twice
* `not_keepsStops` — runs in which a stop is lost
-/

namespace EarbudFirmware.AudioPrompt

open Transition

/-- What is stopped by `app_stop_a2dp_media_stream` and by `app_stop_sco_media_stream`. -/
inductive StreamKind
  | a2dp
  | sco
  deriving DecidableEq

/-- `PENDING_TO_STOP_A2DP_STREAMING` and `PENDING_TO_STOP_SCO_STREAMING`. -/
def StreamKind.op : StreamKind → UInt8
  | .a2dp => 0
  | .sco => 1

/-- `PENDING_TO_STOP_STREAM_INVALID`. -/
def pendingToStopStreamInvalid : UInt8 := 0xFF

/-- A call of one of the two functions, with its device. -/
abbrev MediaStop := StreamKind × UInt8

/-- `AUDIO_PROMPT_ENV_T`, as far as the functions below use it. -/
structure AudioPromptEnv where
  isMixPromptOn : Bool
  leftEncodedDataLen : Nat
  isAudioPromptDecodingDone : Bool
  pendingStopOp : UInt8
  savedStoppedStreamId : Int8

/-- `audio_prompt_init_handler`. -/
def AudioPromptEnv.initHandler : AudioPromptEnv := ⟨false, 0, false, 0, -1⟩

namespace AudioPromptEnv

variable (env : AudioPromptEnv)

/-- `audio_prompt_start_playing`, with `promptDataLen`. -/
def startPlaying (promptDataLen : Nat) : AudioPromptEnv × Bool :=
  if env.isMixPromptOn then (env, false)
  else
    ({ env with
        isMixPromptOn := true
        isAudioPromptDecodingDone := false
        leftEncodedDataLen := promptDataLen
        savedStoppedStreamId := -1 }, true)

/-- `audio_prompt_forcefully_stop`. -/
def forcefullyStop : AudioPromptEnv :=
  { env with
    savedStoppedStreamId := -1
    isAudioPromptDecodingDone := true
    leftEncodedDataLen := 0 }

/-- The stop that `audio_prompt_stop_playing` takes over. -/
def savedStop : List MediaStop :=
  if 0 ≤ env.savedStoppedStreamId then
    if env.pendingStopOp = StreamKind.a2dp.op then [(.a2dp, env.savedStoppedStreamId.toUInt8)]
    else if env.pendingStopOp = StreamKind.sco.op then [(.sco, env.savedStoppedStreamId.toUInt8)]
    else []
  else []

/-- `audio_prompt_stop_playing`, with the stops that it executes. -/
def stopPlaying : AudioPromptEnv × List MediaStop :=
  if env.isMixPromptOn then
    ({ env with
        leftEncodedDataLen := 0
        isMixPromptOn := false
        savedStoppedStreamId := -1 }, env.savedStop)
  else (env, [])

/-- `audio_prompt_check_on_stopping_stream`, with `bt_is_playback_triggered`. -/
def checkOnStoppingStream (playbackTriggered : Bool) (pendingStopOp deviceId : UInt8) :
    AudioPromptEnv × Bool × List MediaStop :=
  if env.isMixPromptOn then
    if playbackTriggered then
      ({ env with
          pendingStopOp
          savedStoppedStreamId := deviceId.toInt8 }, false, [])
    else (env.stopPlaying.1, true, env.stopPlaying.2)
  else (env, true, [])

/-- `audio_prompt_clear_pending_stream`. -/
def clearPendingStream (op : UInt8) : AudioPromptEnv × Bool :=
  if env.savedStoppedStreamId ≠ -1 then
    if op = StreamKind.a2dp.op ∧ env.pendingStopOp = StreamKind.a2dp.op then
      ({ env with
          savedStoppedStreamId := -1
          pendingStopOp := pendingToStopStreamInvalid }, true)
    else if op = StreamKind.sco.op ∧ env.pendingStopOp = StreamKind.sco.op then
      ({ env with
          savedStoppedStreamId := -1
          pendingStopOp := pendingToStopStreamInvalid }, true)
    else (env, false)
  else (env, false)

end AudioPromptEnv

/-- The calls. A prompt that is complete calls `audio_prompt_stop_playing`. -/
inductive PromptCall
  | startPlaying (promptDataLen : Nat)
  | checkOnStoppingStream (playbackTriggered : Bool) (kind : StreamKind) (deviceId : UInt8)
  | clearPendingStream (kind : StreamKind)
  | stopPlaying
  | forcefullyStop

/-- The state, the stops that have been deferred and neither been executed nor cancelled, and those
that the last call has executed. -/
structure Deferrals where
  env : AudioPromptEnv
  deferred : List MediaStop
  executed : List MediaStop

namespace Deferrals

variable (s : Deferrals)

/-- A call that executes stops. -/
def executes (env : AudioPromptEnv) (stops : List MediaStop) : Deferrals :=
  ⟨env, s.deferred.removeAll stops, stops⟩

/-- One call. -/
def step : PromptCall → Option Deferrals
  | .startPlaying promptDataLen => some (s.executes (s.env.startPlaying promptDataLen).1 [])
  | .checkOnStoppingStream playbackTriggered kind deviceId =>
    let r := s.env.checkOnStoppingStream playbackTriggered kind.op deviceId
    if r.2.1 then some (s.executes r.1 r.2.2)
    else some ⟨r.1, s.deferred.insert (kind, deviceId), r.2.2⟩
  | .clearPendingStream kind =>
    some ⟨(s.env.clearPendingStream kind.op).1, s.deferred.filter (·.1 ≠ kind), []⟩
  | .stopPlaying => some (s.executes s.env.stopPlaying.1 s.env.stopPlaying.2)
  | .forcefullyStop => some (s.executes s.env.forcefullyStop [])

end Deferrals

/-- What a call does with the stops: it executes none twice and none that is not deferred, and when
no prompt is left, none is left to execute. -/
structure KeepsStops (s : Deferrals) (t : Deferrals) : Prop where
  once : t.executed.Nodup
  deferred : ∀ x ∈ t.executed, x ∈ s.deferred
  served : t.env.isMixPromptOn = false → t.deferred = []

def StopsKept (s : Deferrals) (e : PromptCall) : Prop := ∀ t, s.step e = some t → KeepsStops s t

/-- The calls of the runs that keep the stops: a stop is deferred while no other one is, its device
is not taken for a negative number, and the prompt is not forced to stop meanwhile. -/
def OneStop (s : Deferrals) : PromptCall → Prop
  | .checkOnStoppingStream playbackTriggered kind deviceId =>
    s.env.isMixPromptOn = true ∧ playbackTriggered = true →
      deviceId < 128 ∧ ∀ x ∈ s.deferred, x = (kind, deviceId)
  | .forcefullyStop => s.deferred = []
  | _ => True

/-! ### The saved device -/

theorem toInt8_of_lt {d : UInt8} (h : d < 128) :
    0 ≤ d.toInt8 ∧ d.toInt8 ≠ -1 ∧ d.toInt8.toUInt8 = d := by
  have hlt : 2 * d.toBitVec.toNat < 2 ^ 8 := by
    have : d.toNat < 128 := h
    show 2 * d.toNat < 2 ^ 8
    omega
  have hint : d.toInt8.toInt = d.toNat := BitVec.toInt_eq_toNat_of_lt hlt
  refine ⟨?_, fun heq => ?_, UInt8.toUInt8_toInt8 d⟩
  · rw [Int8.le_iff_toInt_le, hint]
    exact Int.natCast_nonneg _
  · rw [heq] at hint
    exact absurd hint.symm (Int.ne_of_gt (Int.lt_of_lt_of_le (by decide) (Int.natCast_nonneg _)))

theorem savedStop_of_eq {env : AudioPromptEnv} {kind : StreamKind} {d : UInt8}
    (hop : env.pendingStopOp = kind.op) (hd : d < 128) (hid : env.savedStoppedStreamId = d.toInt8) :
    env.savedStop = [(kind, d)] := by
  obtain ⟨hnonneg, -, hback⟩ := toInt8_of_lt hd
  rw [AudioPromptEnv.savedStop, hid, hop, hback, if_pos hnonneg]
  cases kind with
  | a2dp => exact if_pos rfl
  | sco => exact (if_neg (by decide)).trans (if_pos rfl)

theorem savedStop_of_none {env : AudioPromptEnv} (hid : env.savedStoppedStreamId = -1) :
    env.savedStop = [] := by
  rw [AudioPromptEnv.savedStop, hid]
  exact if_neg (by decide)

theorem clearPendingStream_of_none {env : AudioPromptEnv} (hid : env.savedStoppedStreamId = -1)
    (op : UInt8) : env.clearPendingStream op = (env, false) :=
  if_neg (not_not_intro hid)

/-- The saved stop is cancelled for its kind only. -/
theorem clearPendingStream_of_saved {env : AudioPromptEnv} {kind : StreamKind}
    (hid : env.savedStoppedStreamId ≠ -1) (hop : env.pendingStopOp = kind.op) (kind' : StreamKind) :
    env.clearPendingStream kind'.op =
      if kind = kind' then
        (⟨env.isMixPromptOn, env.leftEncodedDataLen, env.isAudioPromptDecodingDone,
          pendingToStopStreamInvalid, -1⟩, true)
      else (env, false) := by
  rw [AudioPromptEnv.clearPendingStream, if_pos hid, hop]
  cases kind <;> cases kind' <;> rfl

/-! ### One stop at a time -/

/-- The saved stop is the one that is deferred. -/
inductive OneDeferred (s : Deferrals) : Prop
  | idle (hid : s.env.savedStoppedStreamId = -1) (hdeferred : s.deferred = [])
  | waiting (kind : StreamKind) (d : UInt8) (hon : s.env.isMixPromptOn = true) (hd : d < 128)
      (hop : s.env.pendingStopOp = kind.op) (hid : s.env.savedStoppedStreamId = d.toInt8)
      (hdeferred : s.deferred = [(kind, d)])

theorem OneDeferred.of_off {s : Deferrals} (h : OneDeferred s)
    (hoff : s.env.isMixPromptOn = false) :
    s.env.savedStoppedStreamId = -1 ∧ s.deferred = [] := by
  cases h with
  | idle hid hdeferred => exact ⟨hid, hdeferred⟩
  | waiting kind d hon => exact absurd (hon.symm.trans hoff) Bool.noConfusion

/-- What the end of a prompt executes is what has been deferred. -/
theorem OneDeferred.savedStop_eq {s : Deferrals} (h : OneDeferred s) :
    s.env.savedStop = s.deferred ∧ s.deferred.Nodup := by
  cases h with
  | idle hid hdeferred => exact ⟨(savedStop_of_none hid).trans hdeferred.symm, hdeferred ▸ .nil⟩
  | waiting kind d hon hd hop hid hdeferred =>
    exact ⟨(savedStop_of_eq hop hd hid).trans hdeferred.symm,
      hdeferred ▸ List.pairwise_singleton ..⟩

/-- A call that executes nothing, and saves what is saved already. -/
theorem OneDeferred.executes_nil {s : Deferrals} (h : OneDeferred s) {env : AudioPromptEnv}
    (hon : s.env.isMixPromptOn = env.isMixPromptOn) (hop : s.env.pendingStopOp = env.pendingStopOp)
    (hid : s.env.savedStoppedStreamId = env.savedStoppedStreamId) :
    KeepsStops s (s.executes env []) ∧ OneDeferred (s.executes env []) := by
  have hdeferred : (s.executes env []).deferred = s.deferred := by
    simp [Deferrals.executes, List.removeAll]
  refine ⟨⟨.nil, fun x hx => absurd hx List.not_mem_nil, fun hoff => ?_⟩, ?_⟩
  · rw [hdeferred]
    exact (h.of_off (hon.trans hoff)).2
  · cases h with
    | idle hnone hempty => exact .idle (hid ▸ hnone) (hdeferred.trans hempty)
    | waiting kind d hon' hd hop' hid' hone =>
      exact .waiting kind d (hon ▸ hon') hd (hop ▸ hop') (hid ▸ hid') (hdeferred.trans hone)

/-- The end of the prompt. -/
theorem OneDeferred.stopPlaying {s : Deferrals} (h : OneDeferred s) :
    KeepsStops s (s.executes s.env.stopPlaying.1 s.env.stopPlaying.2) ∧
      OneDeferred (s.executes s.env.stopPlaying.1 s.env.stopPlaying.2) := by
  unfold AudioPromptEnv.stopPlaying
  split
  · obtain ⟨heq, hnodup⟩ := h.savedStop_eq
    have hnone : s.deferred.removeAll s.env.savedStop = [] := by
      rw [heq]
      simp [List.removeAll]
    dsimp only
    exact ⟨⟨heq ▸ hnodup, fun x hx => heq ▸ hx, fun _ => hnone⟩, .idle rfl hnone⟩
  · exact h.executes_nil rfl rfl rfl

/-- A call keeps one stop at a time. -/
theorem OneDeferred.step {s t : Deferrals} (h : OneDeferred s) {e : PromptCall} (ho : OneStop s e)
    (ht : s.step e = some t) : KeepsStops s t ∧ OneDeferred t := by
  cases e with
  | startPlaying promptDataLen =>
    obtain rfl := Option.some.inj ht
    cases hon : s.env.isMixPromptOn with
    | true =>
      have hsame : s.env.startPlaying promptDataLen = (s.env, false) := if_pos hon
      rw [hsame]
      exact h.executes_nil rfl rfl rfl
    | false =>
      obtain ⟨hid, hdeferred⟩ := h.of_off hon
      have hnone : (s.executes (s.env.startPlaying promptDataLen).1 []).deferred = [] := by
        simp [Deferrals.executes, hdeferred, List.removeAll]
      have hstarted : (s.env.startPlaying promptDataLen).1.savedStoppedStreamId = -1 := by
        rw [AudioPromptEnv.startPlaying, if_neg (by simp [hon])]
      exact ⟨⟨.nil, fun x hx => absurd hx List.not_mem_nil, fun _ => hnone⟩, .idle hstarted hnone⟩
  | checkOnStoppingStream playbackTriggered kind d =>
    cases hon : s.env.isMixPromptOn with
    | false =>
      have hcheck : s.env.checkOnStoppingStream playbackTriggered kind.op d = (s.env, true, []) :=
        if_neg (by simp [hon])
      rw [Deferrals.step, hcheck] at ht
      obtain rfl := Option.some.inj ht
      exact h.executes_nil rfl rfl rfl
    | true =>
      cases playbackTriggered with
      | false =>
        have hcheck : s.env.checkOnStoppingStream false kind.op d =
            (s.env.stopPlaying.1, true, s.env.stopPlaying.2) := if_pos hon
        rw [Deferrals.step, hcheck] at ht
        obtain rfl := Option.some.inj ht
        exact h.stopPlaying
      | true =>
        obtain ⟨hd, hsame⟩ := ho ⟨hon, rfl⟩
        have hcheck : (s.env.checkOnStoppingStream true kind.op d).2 = (false, []) :=
          congrArg Prod.snd (if_pos hon)
        rw [Deferrals.step, hcheck] at ht
        obtain rfl := Option.some.inj ht
        have henv : (s.env.checkOnStoppingStream true kind.op d).1 =
            ⟨s.env.isMixPromptOn, s.env.leftEncodedDataLen, s.env.isAudioPromptDecodingDone,
              kind.op, d.toInt8⟩ := congrArg Prod.fst (if_pos hon)
        have hone : s.deferred.insert (kind, d) = [(kind, d)] := by
          cases h with
          | idle hid hdeferred => rw [hdeferred]; rfl
          | waiting kind' d' hon' hd' hop' hid' hdeferred =>
            rw [hdeferred, hsame (kind', d') (hdeferred ▸ List.mem_singleton_self _)]
            simp
        rw [henv]
        refine ⟨⟨.nil, fun x hx => absurd hx List.not_mem_nil, fun hoff => ?_⟩,
          .waiting kind d hon hd rfl rfl hone⟩
        exact absurd (hon.symm.trans hoff) Bool.noConfusion
  | clearPendingStream kind =>
    obtain rfl := Option.some.inj ht
    cases h with
    | idle hid hdeferred =>
      have hnone : s.deferred.filter (·.1 ≠ kind) = [] := by rw [hdeferred]; rfl
      rw [clearPendingStream_of_none hid]
      exact ⟨⟨.nil, fun x hx => absurd hx List.not_mem_nil, fun _ => hnone⟩, .idle hid hnone⟩
    | waiting kind' d hon hd hop hid hdeferred =>
      rw [clearPendingStream_of_saved (hid ▸ (toInt8_of_lt hd).2.1) hop]
      split
      · next hkind =>
        have hnone : s.deferred.filter (·.1 ≠ kind) = [] := by
          rw [hdeferred, List.filter_cons_of_neg (by simp [hkind]), List.filter_nil]
        exact ⟨⟨.nil, fun x hx => absurd hx List.not_mem_nil, fun _ => hnone⟩, .idle rfl hnone⟩
      · next hkind =>
        have hone : s.deferred.filter (·.1 ≠ kind) = [(kind', d)] := by
          rw [hdeferred, List.filter_cons_of_pos (by simp [hkind]), List.filter_nil]
        refine ⟨⟨.nil, fun x hx => absurd hx List.not_mem_nil, fun hoff => ?_⟩,
          .waiting kind' d hon hd hop hid hone⟩
        exact absurd (hon.symm.trans hoff) Bool.noConfusion
  | stopPlaying =>
    obtain rfl := Option.some.inj ht
    exact h.stopPlaying
  | forcefullyStop =>
    obtain rfl := Option.some.inj ht
    have hnone : (s.executes s.env.forcefullyStop []).deferred = [] := by
      rw [Deferrals.executes, show s.deferred = [] from ho]
      rfl
    exact ⟨⟨.nil, fun x hx => absurd hx List.not_mem_nil, fun _ => hnone⟩, .idle rfl hnone⟩

/-- Nothing is deferred at first. -/
def Deferrals.initial : Deferrals := ⟨.initHandler, [], []⟩

/-- Along every run in which one stop is deferred at a time the calls keep the stops. -/
theorem keepsStops_along {es : List PromptCall}
    (hes : Along Deferrals.step OneStop .initial es) :
    Along Deferrals.step StopsKept .initial es := by
  have hkept := hes.strengthen
    (fun _ _ _ (hs : OneDeferred _) ho ht => (hs.step ho ht).2) (.idle rfl rfl)
  exact hkept.mono fun _ _ ⟨hs, ho⟩ _ ht => (hs.step ho ht).1

/-- A stop is executed at the end of a prompt; in the next one a stop is cancelled and another one
executed. -/
theorem keepsStops_along_two :
    Along Deferrals.step StopsKept .initial
      [.startPlaying 480, .checkOnStoppingStream true .a2dp 1, .clearPendingStream .sco,
        .checkOnStoppingStream true .a2dp 1, .stopPlaying, .startPlaying 320,
        .checkOnStoppingStream true .sco 0, .clearPendingStream .sco, .forcefullyStop,
        .checkOnStoppingStream true .sco 1, .checkOnStoppingStream false .a2dp 1] := by
  refine keepsStops_along ⟨trivial, fun _ h => ?_⟩
  obtain rfl := Option.some.inj h
  refine ⟨by dsimp only [OneStop]; decide, fun _ h => ?_⟩
  obtain rfl := Option.some.inj h
  refine ⟨trivial, fun _ h => ?_⟩
  obtain rfl := Option.some.inj h
  refine ⟨by dsimp only [OneStop]; decide, fun _ h => ?_⟩
  obtain rfl := Option.some.inj h
  refine ⟨trivial, fun _ h => ?_⟩
  obtain rfl := Option.some.inj h
  refine ⟨trivial, fun _ h => ?_⟩
  obtain rfl := Option.some.inj h
  refine ⟨by dsimp only [OneStop]; decide, fun _ h => ?_⟩
  obtain rfl := Option.some.inj h
  refine ⟨trivial, fun _ h => ?_⟩
  obtain rfl := Option.some.inj h
  refine ⟨rfl, fun _ h => ?_⟩
  obtain rfl := Option.some.inj h
  refine ⟨by dsimp only [OneStop]; decide, fun _ h => ?_⟩
  obtain rfl := Option.some.inj h
  exact ⟨by dsimp only [OneStop]; decide, fun _ _ => trivial⟩

/-- What the last call of a run does. -/
theorem keepsStops_last (es : List PromptCall) {e : PromptCall} {s t : Deferrals}
    (h : Along Deferrals.step StopsKept .initial (es ++ [e]))
    (hrun : es.foldlM Deferrals.step .initial = some s) (ht : s.step e = some t) :
    KeepsStops s t :=
  h.last hrun t ht

/-- Two streams are stopped during one prompt, and the first one is never executed. A prompt that is
forced to stop drops the stop, and so does a device number above 127. -/
theorem not_keepsStops :
    ¬Along Deferrals.step StopsKept .initial
        [.startPlaying 480, .checkOnStoppingStream true .a2dp 0,
          .checkOnStoppingStream true .a2dp 1, .stopPlaying] ∧
      ¬Along Deferrals.step StopsKept .initial
        [.startPlaying 480, .checkOnStoppingStream true .a2dp 0, .forcefullyStop, .stopPlaying] ∧
      ¬Along Deferrals.step StopsKept .initial
        [.startPlaying 480, .checkOnStoppingStream true .sco 255, .stopPlaying] := by
  refine ⟨fun h => ?_, fun h => ?_, fun h => ?_⟩
  · have hkept := keepsStops_last [.startPlaying 480, .checkOnStoppingStream true .a2dp 0,
      .checkOnStoppingStream true .a2dp 1] h rfl rfl
    exact absurd (hkept.served rfl) (by decide)
  · have hkept := keepsStops_last [.startPlaying 480, .checkOnStoppingStream true .a2dp 0,
      .forcefullyStop] h rfl rfl
    exact absurd (hkept.served rfl) (by decide)
  · have hkept := keepsStops_last [.startPlaying 480, .checkOnStoppingStream true .sco 255] h
      rfl rfl
    exact absurd (hkept.served rfl) (by decide)

end EarbudFirmware.AudioPrompt
