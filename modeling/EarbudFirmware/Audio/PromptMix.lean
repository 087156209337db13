import EarbudFirmware.Lib.Transition
import Mathlib.Data.List.Basic

/-!
# Mixing a prompt into a stream

`audio_prompt_processing_handler` decodes a prompt ahead into a queue and mixes what waits there
with the output, sample by sample. Positions are modelled, not weights; the prompt has the sample
rate of the stream. Both ends of the prompt are faded over 128 frames.

## Main definitions

* `DecoderAnswer` — one answer of `btif_sbc_decode_frames`
* `sbcDecode`, `fillQueue`, `crossfade`, `mix` — `audio_prompt_sbc_decode` and the parts of
  `audio_prompt_processing_handler_func`
* `PromptMixer.step` — `audio_prompt_processing_handler_func`, with what it has mixed so far
* `HandlerCall` — a call of `audio_prompt_processing_handler`, and the pieces that it makes
* `Plays` — every sample once, in its place, to the end
* `Fits` — the pieces for which this is so

## Main results

* `plays_along` — along the calls whose pieces all meet `Fits`
* `not_plays` — calls that lose samples, that leave the buffer, and a prompt without end
-/

namespace EarbudFirmware.PromptMix

open Transition

/-- `AUDIO_PROMPT_SBC_PCM_DATA_SIZE_PER_FRAME`. -/
def pcmDataSizePerFrame : Nat := 256

/-- `AUDIO_PROMPT_PCM_FILL_UNIT_SIZE`. -/
def pcmFillUnitSize : Nat := 512

/-- `AUDIO_PROMPT_SBC_ENCODED_DATA_SIZE_PER_FRAME`. -/
def encodedDataSizePerFrame : Nat := 160

/-- `AUDIO_PROMPT_PCM_BUFFER_SIZE`, the size of the queue in bytes. -/
def pcmBufferSize : Nat := 2048

/-- `DEFAULT_OVERLAP_LENGTH`. -/
def defaultOverlapLength : Nat := 128

/-- Subtraction of `uint32_t`. -/
def sub32 (a b : Nat) : Nat := (a + 0x100000000 - b) % 0x100000000

@[simp] theorem sub32_self (a : Nat) : sub32 a a = 0 := by
  unfold sub32
  rw [Nat.add_sub_cancel_left, Nat.mod_self]

variable {α : Type}

/-! ### The decoder -/

/-- One answer of `btif_sbc_decode_frames`: `byte_decode`, the samples that it has written, and
whether it reports `BT_STS_SUCCESS` or `BT_STS_CONTINUE`. -/
structure DecoderAnswer (α : Type) where
  byteDecode : Nat
  pcm : List α
  ok : Bool

/-- The bytes of 16-bit samples. -/
def dataLen (pcm : List α) : Nat := 2 * pcm.length

/-- The decoder takes at most what it is offered, and something of it if it reports success. -/
def DecoderAnswer.Possible (a : DecoderAnswer α) (offered requested : Nat) : Prop :=
  a.byteDecode ≤ offered ∧ (a.ok → 0 < a.byteDecode) ∧ dataLen a.pcm ≤ requested

instance (a : DecoderAnswer α) (offered requested : Nat) :
    Decidable (a.Possible offered requested) :=
  inferInstanceAs (Decidable (_ ∧ _ ∧ _))

/-- `audio_prompt_sbc_decode`, with what the decoder answers: the encoded bytes that are left, and
the samples. `none` if the answers are not those of one call. -/
def sbcDecode : List (DecoderAnswer α) → Nat → Nat → Option (Nat × List α)
  | [], _, _ => none
  | a :: answers, left, expectedOutputSize =>
    if a.Possible (min left encodedDataSizePerFrame) expectedOutputSize then
      if left - a.byteDecode = 0 ∨ dataLen a.pcm = expectedOutputSize ∨ a.ok = false then
        if answers.isEmpty then some (left - a.byteDecode, a.pcm) else none
      else
        (sbcDecode answers (left - a.byteDecode) (expectedOutputSize - dataLen a.pcm)).map
          fun r => (r.1, a.pcm ++ r.2)
    else none

/-! ### The mixer -/

/-- The samples of the output have two bytes, or four for 24 bits. -/
inductive SampleSize
  | bits16
  | bits24

/-- `targetBytesCntPerSample`. -/
def SampleSize.bytes : SampleSize → Nat
  | .bits16 => 2
  | .bits24 => 4

/-- `AUDIO_PROMPT_ENV_T`, as far as the mixing reads it. `decoded`, `mixed` (samples with their
positions in the output), `outputs` (positions that have passed) and `pieces` are the history since
the start. -/
structure PromptMixer (α : Type) where
  wholeEncodedDataLen : Nat
  leftEncodedDataLen : Nat
  pcmDataQueue : List α
  isAudioPromptDecodingDone : Bool
  targetBytesCntPerSample : SampleSize
  targetChannelCnt : Nat
  isMixPromptOn : Bool
  mergeInOverlapLength : Nat
  mergeOutOverlapLength : Nat
  decoded : List α
  mixed : List (α × Nat)
  outputs : Nat
  pieces : Nat

/-- A call of `audio_prompt_processing_handler_func`: its length, and the answers of the decoder to
each request for a frame. -/
structure Piece (α : Type) where
  acquiredPcmDataLen : Nat
  requests : List (List (DecoderAnswer α))

namespace PromptMixer

variable (s : PromptMixer α)

/-- `audio_prompt_start_playing`, with `promptDataLen`. -/
def startPlaying (size : SampleSize) (channelCnt promptDataLen : Nat) : PromptMixer α where
  wholeEncodedDataLen := promptDataLen
  leftEncodedDataLen := promptDataLen
  pcmDataQueue := []
  isAudioPromptDecodingDone := false
  targetBytesCntPerSample := size
  targetChannelCnt := channelCnt
  isMixPromptOn := true
  mergeInOverlapLength := defaultOverlapLength * channelCnt
  mergeOutOverlapLength := defaultOverlapLength * channelCnt
  decoded := []
  mixed := []
  outputs := 0
  pieces := 0

/-- The bytes of a frame of the output. -/
def frameSize : Nat := s.targetChannelCnt * s.targetBytesCntPerSample.bytes

/-- `pcmDataToGetFromPrompt`. -/
def pcmDataToGet (acquiredPcmDataLen : Nat) : Nat := acquiredPcmDataLen / (s.frameSize / 2)

/-- The samples of a request enter the queue, and a short one ends the decoding. -/
def take (left : Nat) (pcm : List α) : PromptMixer α :=
  { s with
    leftEncodedDataLen := left
    isAudioPromptDecodingDone :=
      if dataLen pcm < pcmDataSizePerFrame then true else s.isAudioPromptDecodingDone
    pcmDataQueue :=
      if dataLen (s.pcmDataQueue ++ pcm) ≤ pcmBufferSize then s.pcmDataQueue ++ pcm
      else s.pcmDataQueue
    decoded := s.decoded ++ pcm }

/-- The loop that decodes until the queue holds `need` bytes. -/
def fillQueue (need : Nat) : List (List (DecoderAnswer α)) → PromptMixer α →
    Option (PromptMixer α)
  | [], s =>
    if dataLen s.pcmDataQueue < need ∧ s.isAudioPromptDecodingDone = false then none else some s
  | r :: requests, s =>
    if dataLen s.pcmDataQueue < need ∧ s.isAudioPromptDecodingDone = false then
      (sbcDecode r s.leftEncodedDataLen pcmDataSizePerFrame).bind fun d =>
        fillQueue need requests (s.take d.1 d.2)
    else none

/-- `merge_in_end`. -/
def mergeInEnd (srcLen : Nat) : Nat :=
  if 0 < s.mergeInOverlapLength then min s.mergeInOverlapLength srcLen else 0

/-- `merge_out_start`, with the queue from which the samples of the piece have been taken. -/
def mergeOutStart (srcLen : Nat) : Nat :=
  if s.leftEncodedDataLen = 0 ∧
      dataLen s.pcmDataQueue < s.mergeOutOverlapLength / s.targetChannelCnt * 2 then
    sub32 srcLen
      (sub32 s.mergeOutOverlapLength (dataLen s.pcmDataQueue / 2 * s.targetChannelCnt))
  else srcLen

end PromptMixer

/-- How often `for (; i < bound; i += width)` goes round. -/
def rounds (width i bound : Nat) : Nat := (bound - i + (width - 1)) / width

/-- The positions that this loop works on, `width` in every round. -/
def visited (width i bound : Nat) : List Nat := List.range' i (rounds width i bound * width)

/-- The positions that `audio_prompt_crossfade` works on, in order. -/
def crossfade (channelCnt mergeInEnd mergeOutStart srcLen : Nat) : List Nat :=
  let merge := rounds channelCnt 0 mergeInEnd * channelCnt
  let mergeOut := merge + rounds 1 merge mergeOutStart
  visited channelCnt 0 mergeInEnd ++ visited 1 merge mergeOutStart ++
    visited channelCnt mergeOut srcLen

/-- What is mixed at these positions of the source, the first of which meets `base` of the output.
`none` if one of them is behind its end. -/
def mixAt (src : List α) (base : Nat) : List Nat → Option (List (α × Nat))
  | [] => some []
  | i :: positions =>
    match src[i]? with
    | none => none
    | some x => (mixAt src base positions).map ((x, base + i) :: ·)

namespace PromptMixer

variable (s : PromptMixer α)

/-- The queue without the samples that are merged. -/
def dropQueue (merged : Nat) : PromptMixer α :=
  { s with pcmDataQueue := s.pcmDataQueue.drop merged }

/-- The samples are copied to the channels and mixed with the output. `none` is the assertion of
`audio_prompt_crossfade`, or an access behind the source. -/
def mix (src : List α) : Option (PromptMixer α) :=
  let srcLen := src.length
  let mergeInEnd := s.mergeInEnd srcLen
  let mergeOutStart := s.mergeOutStart srcLen
  if s.targetChannelCnt = 1 ∨ s.targetChannelCnt = 2 then
    (mixAt src s.outputs (crossfade s.targetChannelCnt mergeInEnd mergeOutStart srcLen)).map
      fun mixed =>
        { s with
          mixed := s.mixed ++ mixed
          mergeInOverlapLength := s.mergeInOverlapLength - mergeInEnd
          mergeOutOverlapLength :=
            (s.mergeOutOverlapLength + 0x100000000 - sub32 srcLen mergeOutStart) % 0x10000 }
  else none

/-- The samples that a piece merges. -/
def merged (acquiredPcmDataLen : Nat) : List α :=
  s.pcmDataQueue.take (s.pcmDataToGet acquiredPcmDataLen / 2)

/-- The samples of the piece, once for every channel. -/
def source (acquiredPcmDataLen : Nat) : List α :=
  (s.merged acquiredPcmDataLen).flatMap (List.replicate s.targetChannelCnt)

/-- The piece has passed. `audio_prompt_stop_playing` is called if the fade-out is over or no
encoded data are left. -/
def finish (acquiredPcmDataLen : Nat) : PromptMixer α :=
  let s := { s with
    outputs := s.outputs + s.targetChannelCnt * (acquiredPcmDataLen / s.frameSize)
    pieces := s.pieces + 1 }
  if s.mergeOutOverlapLength = 0 ∨ s.leftEncodedDataLen = 0 then
    { s with
      leftEncodedDataLen := 0
      isMixPromptOn := false }
  else s

/-- What follows the decoding. -/
def mergeQueue (acquiredPcmDataLen : Nat) : Option (PromptMixer α) :=
  if (s.merged acquiredPcmDataLen).length = 0 then some (s.finish acquiredPcmDataLen)
  else
    ((s.dropQueue (s.merged acquiredPcmDataLen).length).mix (s.source acquiredPcmDataLen)).map
      (·.finish acquiredPcmDataLen)

/-- `audio_prompt_processing_handler_func`. -/
def step (p : Piece α) : Option (PromptMixer α) :=
  if s.isMixPromptOn then
    (s.fillQueue (s.pcmDataToGet p.acquiredPcmDataLen) p.requests).bind
      (·.mergeQueue p.acquiredPcmDataLen)
  else if p.requests.isEmpty then some s else none

end PromptMixer

/-! ### Calls of the handler -/

/-- The lengths of the pieces of `audio_prompt_processing_handler`; `fuel` bounds the loop. -/
def fillUnits : (fuel rest : Nat) → List Nat
  | 0, _ => []
  | fuel + 1, rest =>
    if rest = 0 then []
    else min rest pcmFillUnitSize :: fillUnits fuel (rest - min rest pcmFillUnitSize)

/-- A call of `audio_prompt_processing_handler`. -/
structure HandlerCall (α : Type) where
  acquiredPcmDataLen : Nat
  pieces : List (Piece α)
  cut : pieces.map Piece.acquiredPcmDataLen = fillUnits acquiredPcmDataLen acquiredPcmDataLen

theorem fillUnits_bounds {fuel rest n : Nat} (h : n ∈ fillUnits fuel rest) :
    0 < n ∧ n ≤ pcmFillUnitSize := by
  induction fuel generalizing rest with
  | zero => exact absurd h List.not_mem_nil
  | succ fuel ih =>
    rw [fillUnits] at h
    split at h
    · exact absurd h List.not_mem_nil
    · rename_i hrest
      rcases List.mem_cons.mp h with rfl | h
      · unfold pcmFillUnitSize
        omega
      · exact ih h

theorem HandlerCall.bounds {c : HandlerCall α} {p : Piece α} (h : p ∈ c.pieces) :
    0 < p.acquiredPcmDataLen ∧ p.acquiredPcmDataLen ≤ pcmFillUnitSize :=
  fillUnits_bounds (c.cut ▸ List.mem_map_of_mem h)

/-! ### What is asked of a piece -/

/-- The encoded bytes that the answers take. -/
def consumed : List (DecoderAnswer α) → Nat
  | [] => 0
  | a :: answers => a.byteDecode + consumed answers

/-- The samples that the answers bring. -/
def samples (answers : List (DecoderAnswer α)) : List α := answers.flatMap DecoderAnswer.pcm

/-- The answers to the requests of a piece. -/
def Piece.answers (p : Piece α) : List (DecoderAnswer α) := p.requests.flatten

/-- The samples in the channels of the output, each one with its position. -/
def placed (channelCnt : Nat) (pcm : List α) : List (α × Nat) :=
  (pcm.flatMap (List.replicate channelCnt)).zipIdx

/-- `merge_in_end` and `merge_out_start` are positions of the source. -/
def InRange (s : PromptMixer α) (acquiredPcmDataLen : Nat) : Prop :=
  let srcLen := (s.source acquiredPcmDataLen).length
  let rest := s.dropQueue (s.merged acquiredPcmDataLen).length
  rest.mergeInEnd srcLen ≤ srcLen ∧ rest.mergeOutStart srcLen ≤ srcLen

/-- What the mixing is to do in a piece. -/
structure Plays (s : PromptMixer α) (p : Piece α) : Prop where
  inRange : s.isMixPromptOn = true → ∀ t,
    s.fillQueue (s.pcmDataToGet p.acquiredPcmDataLen) p.requests = some t →
      0 < (t.merged p.acquiredPcmDataLen).length → InRange t p.acquiredPcmDataLen
  carriedOut : s.isMixPromptOn = true → ∀ t,
    s.fillQueue (s.pcmDataToGet p.acquiredPcmDataLen) p.requests = some t → (s.step p).isSome
  inPlace : ∀ t, s.step p = some t → ∃ n, t.mixed = placed t.targetChannelCnt (t.decoded.take n)
  complete : ∀ t, s.step p = some t → t.isMixPromptOn = false →
    t.mixed = placed t.targetChannelCnt t.decoded
  ends : ∀ t, s.step p = some t → t.isMixPromptOn = true →
    t.pieces ≤ 129 * t.wholeEncodedDataLen

/-- The pieces for which this is so. The frames are whole, and each request for samples gets a whole
frame, unless the piece uses up the encoded data. Then it has room for all the samples that are
there, and these are at least those of the fade-out, or none. -/
def Fits (s : PromptMixer α) (p : Piece α) : Prop :=
  s.isMixPromptOn = true →
    (s.targetChannelCnt = 1 ∨ s.targetChannelCnt = 2) ∧
    p.acquiredPcmDataLen % s.frameSize = 0 ∧
    (consumed p.answers = s.leftEncodedDataLen ∨
      p.requests.all (fun r =>
        decide (dataLen (samples r) = pcmDataSizePerFrame ∧ 0 < consumed r)) = true) ∧
    (consumed p.answers = s.leftEncodedDataLen →
      (s.pcmDataQueue ++ samples p.answers).length ≤ p.acquiredPcmDataLen / s.frameSize ∧
      ((s.pcmDataQueue ++ samples p.answers).length = 0 ∨
        defaultOverlapLength ≤ (s.pcmDataQueue ++ samples p.answers).length))

instance (s : PromptMixer α) (p : Piece α) : Decidable (Fits s p) :=
  inferInstanceAs (Decidable (_ → _ ∧ _ ∧ _ ∧ (_ → _ ∧ _)))

/-! ### Decoding -/

@[simp] theorem consumed_append (l r : List (DecoderAnswer α)) :
    consumed (l ++ r) = consumed l + consumed r := by
  induction l with
  | nil => exact (Nat.zero_add _).symm
  | cons a l ih =>
    simp only [List.cons_append, consumed, ih]
    omega

@[simp] theorem samples_append (l r : List (DecoderAnswer α)) :
    samples (l ++ r) = samples l ++ samples r := List.flatMap_append

@[simp] theorem dataLen_append (l r : List α) : dataLen (l ++ r) = dataLen l + dataLen r := by
  simp only [dataLen, List.length_append]
  omega

/-- A request takes what its answers take, brings what they bring, and no more than is asked for. -/
theorem sbcDecode_spec {answers : List (DecoderAnswer α)} {left expected : Nat}
    {d : Nat × List α} (h : sbcDecode answers left expected = some d) :
    d.1 + consumed answers = left ∧ d.2 = samples answers ∧ dataLen d.2 ≤ expected := by
  induction answers generalizing left expected d with
  | nil => exact absurd h.symm (Option.some_ne_none _)
  | cons a answers ih =>
    rw [sbcDecode] at h
    split at h
    · rename_i hpossible
      obtain ⟨hoffered, -, hrequested⟩ := hpossible
      have hleft : a.byteDecode ≤ left := Nat.le_trans hoffered (Nat.min_le_left ..)
      split at h
      · split at h
        · rename_i hempty
          obtain rfl := List.isEmpty_iff.mp hempty
          obtain rfl := Option.some.inj h
          refine ⟨?_, ?_, hrequested⟩
          · simp only [consumed]
            omega
          · simp [samples]
        · cases h
      · obtain ⟨r, hr, rfl⟩ := Option.map_eq_some_iff.mp h
        obtain ⟨hbytes, hpcm, hlen⟩ := ih hr
        refine ⟨?_, ?_, ?_⟩
        · simp only [consumed]
          omega
        · rw [hpcm]
          rfl
        · rw [dataLen_append]
          omega
    · cases h

/-- What the loop that fills the queue has done. -/
structure Filled (s : PromptMixer α) (need : Nat) (requests : List (List (DecoderAnswer α)))
    (t : PromptMixer α) : Prop where
  state : ∃ done, t = { s with
    leftEncodedDataLen := s.leftEncodedDataLen - consumed requests.flatten
    isAudioPromptDecodingDone := done
    pcmDataQueue := s.pcmDataQueue ++ samples requests.flatten
    decoded := s.decoded ++ samples requests.flatten }
  consumed_le : consumed requests.flatten ≤ s.leftEncodedDataLen
  length_le : (samples requests.flatten).length ≤ 128 * requests.length
  done_of_full : (∀ r ∈ requests, dataLen (samples r) = pcmDataSizePerFrame) →
    t.isAudioPromptDecodingDone = s.isAudioPromptDecodingDone
  enough : need ≤ dataLen t.pcmDataQueue ∨ t.isAudioPromptDecodingDone = true
  lacking : requests ≠ [] → dataLen s.pcmDataQueue < need

theorem fillQueue_spec {need : Nat} (hneed : need ≤ pcmFillUnitSize)
    {requests : List (List (DecoderAnswer α))} {s t : PromptMixer α}
    (h : s.fillQueue need requests = some t) : Filled s need requests t := by
  induction requests generalizing s with
  | nil =>
    rw [PromptMixer.fillQueue] at h
    split at h
    · cases h
    · rename_i hstop
      obtain rfl := Option.some.inj h
      refine ⟨⟨s.isAudioPromptDecodingDone, ?_⟩, Nat.zero_le _, Nat.zero_le _, fun _ => rfl, ?_,
        fun hne => absurd rfl hne⟩
      · simp [samples, consumed]
      · by_cases hdone : s.isAudioPromptDecodingDone = true
        · exact .inr hdone
        · refine .inl (Nat.le_of_not_lt fun hlt => hstop ⟨hlt, ?_⟩)
          simpa using hdone
  | cons r requests ih =>
    rw [PromptMixer.fillQueue] at h
    split at h
    · rename_i hgo
      obtain ⟨d, hd, hrest⟩ := Option.bind_eq_some_iff.mp h
      obtain ⟨hbytes, hpcm, hlen⟩ := sbcDecode_spec hd
      have hroom : dataLen (s.pcmDataQueue ++ d.2) ≤ pcmBufferSize := by
        have hlt := hgo.1
        rw [dataLen_append]
        unfold pcmBufferSize
        unfold pcmFillUnitSize at hneed
        unfold pcmDataSizePerFrame at hlen
        omega
      have hfilled := ih hrest
      obtain ⟨done, hstate⟩ := hfilled.state
      refine ⟨⟨done, ?_⟩, ?_, ?_, ?_, hfilled.enough, fun _ => hgo.1⟩
      · rw [hpcm] at hroom
        rw [hstate]
        simp only [PromptMixer.take, hpcm, if_pos hroom, List.flatten_cons, consumed_append,
          samples_append, List.append_assoc]
        congr 1
        omega
      · have hle := hfilled.consumed_le
        simp only [PromptMixer.take] at hle
        rw [List.flatten_cons, consumed_append]
        omega
      · have hle := hfilled.length_le
        rw [hpcm] at hlen
        unfold dataLen pcmDataSizePerFrame at hlen
        rw [List.flatten_cons, samples_append, List.length_append, List.length_cons]
        omega
      · intro hfull
        rw [hfilled.done_of_full fun r' hr' => hfull r' (List.mem_cons_of_mem _ hr')]
        have hr : dataLen d.2 = pcmDataSizePerFrame :=
          hpcm ▸ hfull r List.mem_cons_self
        exact if_neg (by omega)
    · cases h

/-! ### Mixing -/

theorem visited_one (i bound : Nat) : visited 1 i bound = List.range' i (bound - i) := by
  unfold visited rounds
  rw [Nat.div_one, Nat.mul_one, Nat.add_zero]

theorem visited_mul {c : Nat} (hc : c = 1 ∨ c = 2) (i n : Nat) :
    visited c (c * i) (c * n) = List.range' (c * i) (c * (n - i)) := by
  obtain rfl | rfl := hc
  · rw [visited_one, ← Nat.mul_sub]
  · have hrounds : rounds 2 (2 * i) (2 * n) = n - i := by
      unfold rounds
      omega
    rw [visited, hrounds, Nat.mul_comm (n - i)]

/-- The three loops work on every position once, in order. -/
theorem crossfade_eq {c : Nat} (hc : c = 1 ∨ c = 2) {a b n : Nat} (ha : a ≤ n) (hb : b ≤ n) :
    crossfade c (c * a) (c * b) (c * n) = List.range' 0 (c * n) := by
  have hmerge : rounds c 0 (c * a) * c = c * a := by
    obtain rfl | rfl := hc
    · unfold rounds
      omega
    · unfold rounds
      omega
  have hmiddle : rounds 1 (c * a) (c * b) = c * (b - a) := by
    unfold rounds
    rw [Nat.div_one, Nat.add_zero, ← Nat.mul_sub]
  have hfirst : visited c 0 (c * a) = List.range' 0 (c * a) := visited_mul hc 0 a
  have hout : c * a + c * (b - a) = c * (a + (b - a)) := (Nat.mul_add ..).symm
  unfold crossfade
  dsimp only
  rw [hmerge, hmiddle, hfirst, hout, visited_one, visited_mul hc, ← Nat.mul_sub, ← hout]
  have hjoin := @List.range'_append_1 0 (c * a) (c * (b - a))
  rw [Nat.zero_add] at hjoin
  rw [hjoin]
  have hall := @List.range'_append_1 0 (c * a + c * (b - a)) (c * (n - (a + (b - a))))
  rw [Nat.zero_add] at hall
  rw [hall, ← Nat.mul_add, ← Nat.mul_add]
  congr 2
  omega

theorem mixAt_range (src : List α) (base i : Nat) {n : Nat} (h : i + n ≤ src.length) :
    mixAt src base (List.range' i n) = some (((src.drop i).take n).zipIdx (base + i)) := by
  induction n generalizing i with
  | zero => simp [mixAt]
  | succ n ih =>
    have hlt : i < src.length := by omega
    rw [List.range'_succ, mixAt, List.getElem?_eq_getElem hlt]
    simp only
    rw [ih (i + 1) (by omega), List.drop_eq_getElem_cons hlt, List.take_succ_cons,
      List.zipIdx_cons]
    rfl

/-- All of the source is mixed with the positions from `base` on. -/
theorem mixAt_crossfade {c : Nat} (hc : c = 1 ∨ c = 2) {a b n : Nat} (ha : a ≤ n) (hb : b ≤ n)
    {src : List α} (hsrc : src.length = c * n) (base : Nat) :
    mixAt src base (crossfade c (c * a) (c * b) src.length) = some (src.zipIdx base) := by
  rw [hsrc, crossfade_eq hc ha hb, mixAt_range src base 0 (by omega), ← hsrc]
  simp

theorem length_flatMap_replicate (c : Nat) (l : List α) :
    (l.flatMap (List.replicate c)).length = c * l.length := by
  induction l with
  | nil => rfl
  | cons x l ih => rw [List.flatMap_cons, List.length_append, ih, List.length_replicate,
      List.length_cons, Nat.mul_succ, Nat.add_comm]

theorem placed_append (c : Nat) (l r : List α) :
    placed c (l ++ r) = placed c l ++ (r.flatMap (List.replicate c)).zipIdx (c * l.length) := by
  unfold placed
  rw [List.flatMap_append, List.zipIdx_append, length_flatMap_replicate, Nat.zero_add]

namespace PromptMixer

variable {s : PromptMixer α} {c k n : Nat}

theorem mergeInEnd_eq (h : s.mergeInOverlapLength = c * k) :
    s.mergeInEnd (c * n) = c * min k n := by
  rw [mergeInEnd, h, ← Nat.mul_min_mul_left]
  split
  · rfl
  · omega

theorem mergeOutStart_of_left (h : s.leftEncodedDataLen ≠ 0) :
    s.mergeOutStart n = n := if_neg fun hleft => h hleft.1

theorem mergeOutStart_of_drained (hc : c = 1 ∨ c = 2) (hch : s.targetChannelCnt = c)
    (hleft : s.leftEncodedDataLen = 0) (hqueue : s.pcmDataQueue = [])
    (hout : s.mergeOutOverlapLength = defaultOverlapLength * c) (hn : defaultOverlapLength ≤ n)
    (hn' : n ≤ pcmFillUnitSize) : s.mergeOutStart (c * n) = c * (n - defaultOverlapLength) := by
  have hempty : dataLen s.pcmDataQueue = 0 := by
    rw [hqueue]
    rfl
  unfold mergeOutStart
  rw [hleft, hempty, hout, hch]
  unfold defaultOverlapLength at hn ⊢
  unfold pcmFillUnitSize at hn'
  obtain rfl | rfl := hc
  · rw [if_pos ⟨rfl, by decide⟩]
    unfold sub32
    omega
  · rw [if_pos ⟨rfl, by decide⟩]
    unfold sub32
    omega

/-- The mixing of a piece whose fading stays inside the source. -/
theorem mix_eq (hc : c = 1 ∨ c = 2) (hch : s.targetChannelCnt = c)
    (hin : s.mergeInOverlapLength = c * k) {b : Nat} (hout : s.mergeOutStart (c * n) = c * b)
    (hb : b ≤ n) {src : List α} (hsrc : src.length = c * n) :
    s.mix src = some { s with
      mixed := s.mixed ++ src.zipIdx s.outputs
      mergeInOverlapLength := c * (k - min k n)
      mergeOutOverlapLength :=
        (s.mergeOutOverlapLength + 0x100000000 - sub32 (c * n) (c * b)) % 0x10000 } := by
  have hmixed := mixAt_crossfade hc (Nat.min_le_right k n) hb hsrc s.outputs
  unfold mix
  dsimp only
  rw [hch, if_pos hc, hsrc, mergeInEnd_eq hin, hout]
  rw [hsrc] at hmixed
  rw [hmixed, hin, ← Nat.mul_sub]
  rfl

theorem frameSize_eq (hc : s.targetChannelCnt = 1 ∨ s.targetChannelCnt = 2) :
    s.frameSize = 2 ∨ s.frameSize = 4 ∨ s.frameSize = 8 := by
  unfold frameSize
  obtain hc | hc := hc
  · rw [hc]
    cases s.targetBytesCntPerSample with
    | bits16 => exact .inl rfl
    | bits24 => exact .inr (.inl rfl)
  · rw [hc]
    cases s.targetBytesCntPerSample with
    | bits16 => exact .inr (.inl rfl)
    | bits24 => exact .inr (.inr rfl)

theorem pcmDataToGet_eq (hc : s.targetChannelCnt = 1 ∨ s.targetChannelCnt = 2) {len : Nat}
    (h : len % s.frameSize = 0) : s.pcmDataToGet len = 2 * (len / s.frameSize) := by
  unfold pcmDataToGet
  obtain hf | hf | hf := frameSize_eq hc
  · rw [hf] at h ⊢
    omega
  · rw [hf] at h ⊢
    omega
  · rw [hf] at h ⊢
    omega

theorem frames_bounds (hc : s.targetChannelCnt = 1 ∨ s.targetChannelCnt = 2) {len : Nat}
    (h : len % s.frameSize = 0) (hpos : 0 < len) (hle : len ≤ pcmFillUnitSize) :
    0 < len / s.frameSize ∧ 2 * (len / s.frameSize) ≤ pcmFillUnitSize := by
  obtain hf | hf | hf := frameSize_eq hc
  · rw [hf] at h ⊢
    omega
  · rw [hf] at h ⊢
    omega
  · rw [hf] at h ⊢
    omega

theorem finish_of_left (hout : s.mergeOutOverlapLength ≠ 0) (hleft : s.leftEncodedDataLen ≠ 0)
    (len : Nat) : s.finish len = { s with
      outputs := s.outputs + s.targetChannelCnt * (len / s.frameSize)
      pieces := s.pieces + 1 } :=
  if_neg (not_or.mpr ⟨hout, hleft⟩)

theorem finish_of_end (hleft : s.leftEncodedDataLen = 0) (len : Nat) : s.finish len = { s with
    leftEncodedDataLen := 0
    isMixPromptOn := false
    outputs := s.outputs + s.targetChannelCnt * (len / s.frameSize)
    pieces := s.pieces + 1 } :=
  if_pos (.inr hleft)

/-- What a piece does that merges `n` samples, if the fading stays inside the source. -/
theorem mergeQueue_eq (hc : c = 1 ∨ c = 2) (hch : s.targetChannelCnt = c)
    (hin : s.mergeInOverlapLength = c * k) {len : Nat} (hlen : (s.merged len).length = n)
    (hn : 0 < n) {b : Nat} (hout : (s.dropQueue n).mergeOutStart (c * n) = c * b) (hb : b ≤ n) :
    InRange s len ∧ ∃ t, s.mergeQueue len = some (t.finish len) ∧ t = { s with
      pcmDataQueue := s.pcmDataQueue.drop n
      mixed := s.mixed ++ ((s.merged len).flatMap (List.replicate c)).zipIdx s.outputs
      mergeInOverlapLength := c * (k - min k n)
      mergeOutOverlapLength :=
        (s.mergeOutOverlapLength + 0x100000000 - sub32 (c * n) (c * b)) % 0x10000 } := by
  obtain rfl := hch
  have hsource : (s.source len).length = s.targetChannelCnt * n := by
    rw [source, length_flatMap_replicate, hlen]
  constructor
  · unfold InRange
    dsimp only
    rw [hsource, hlen, hout, @mergeInEnd_eq _ (s.dropQueue n) _ _ _ hin]
    exact ⟨Nat.mul_le_mul_left _ (Nat.min_le_right k n), Nat.mul_le_mul_left _ hb⟩
  · have hne : (s.merged len).length ≠ 0 := by omega
    rw [mergeQueue, if_neg hne, hlen, mix_eq (s := s.dropQueue n) hc rfl hin hout hb hsource]
    exact ⟨_, rfl, rfl⟩

end PromptMixer

/-! ### The invariant -/

/-- What holds between the pieces: what has been mixed is what has left the queue, nothing waits
behind the end, and every piece takes something of the encoded data or of the queue. -/
structure Inv (s : PromptMixer α) : Prop where
  channels : s.isMixPromptOn = true → ∃ k, s.mergeInOverlapLength = s.targetChannelCnt * k
  fadeOut : s.isMixPromptOn = true →
    s.mergeOutOverlapLength = defaultOverlapLength * s.targetChannelCnt
  decoding : s.isMixPromptOn = true → s.isAudioPromptDecodingDone = false
  drained : s.isMixPromptOn = false → s.pcmDataQueue = []
  mixes : ∃ front, s.decoded = front ++ s.pcmDataQueue ∧
    s.mixed = placed s.targetChannelCnt front ∧
    (s.isMixPromptOn = true → s.outputs = s.targetChannelCnt * front.length)
  budget : s.isMixPromptOn = true →
    129 * s.leftEncodedDataLen + s.pcmDataQueue.length + s.pieces ≤ 129 * s.wholeEncodedDataLen

theorem inv_startPlaying (size : SampleSize) (channelCnt promptDataLen : Nat) :
    Inv (PromptMixer.startPlaying size channelCnt promptDataLen : PromptMixer α) where
  channels _ := ⟨defaultOverlapLength, Nat.mul_comm ..⟩
  fadeOut _ := rfl
  decoding _ := rfl
  drained h := Bool.noConfusion h
  mixes := ⟨[], rfl, rfl, fun _ => rfl⟩
  budget _ := Nat.le_refl _

section Piece

variable {s t : PromptMixer α} {p : Piece α}

theorem length_samples_le {requests : List (List (DecoderAnswer α))}
    (h : ∀ r ∈ requests, 0 < consumed r) : requests.length ≤ consumed requests.flatten := by
  induction requests with
  | nil => exact Nat.le_refl 0
  | cons r requests ih =>
    have hr := h r List.mem_cons_self
    have hrest := ih fun r' hr' => h r' (List.mem_cons_of_mem _ hr')
    rw [List.length_cons, List.flatten_cons, consumed_append]
    omega

/-- A piece behind which encoded data are left gets a sample for every frame. -/
theorem Inv.goesOn (h : Inv s) (hon : s.isMixPromptOn = true)
    (hc : s.targetChannelCnt = 1 ∨ s.targetChannelCnt = 2)
    (hwhole : p.acquiredPcmDataLen % s.frameSize = 0) (hpos : 0 < p.acquiredPcmDataLen)
    (hle : p.acquiredPcmDataLen ≤ pcmFillUnitSize)
    (hfull : ∀ r ∈ p.requests, dataLen (samples r) = pcmDataSizePerFrame ∧ 0 < consumed r)
    (hne : consumed p.answers ≠ s.leftEncodedDataLen)
    (hfill : Filled s (s.pcmDataToGet p.acquiredPcmDataLen) p.requests t) :
    InRange t p.acquiredPcmDataLen ∧ ∃ u, t.mergeQueue p.acquiredPcmDataLen = some u ∧ Inv u := by
  obtain ⟨hframes, hbound⟩ := PromptMixer.frames_bounds hc hwhole hpos hle
  have hneed := PromptMixer.pcmDataToGet_eq hc hwhole
  obtain ⟨done, hstate⟩ := hfill.state
  obtain ⟨k, hk⟩ := h.channels hon
  obtain ⟨front, hdecoded, hmixed, houtputs⟩ := h.mixes
  have hdone : done = false := by
    have hkept := hfill.done_of_full fun r hr => (hfull r hr).1
    rw [hstate] at hkept
    exact hkept.trans (h.decoding hon)
  have hlt : consumed p.requests.flatten < s.leftEncodedDataLen :=
    Nat.lt_of_le_of_ne hfill.consumed_le hne
  have hsamples := hfill.length_le
  have hprogress := length_samples_le fun r hr => (hfull r hr).2
  have hbudget := h.budget hon
  generalize hf : p.acquiredPcmDataLen / s.frameSize = f at hframes hbound hneed
  -- the queue holds the samples of the piece, since the decoder has not come to an end
  have henough : f ≤ (s.pcmDataQueue ++ samples p.requests.flatten).length := by
    have henough := hfill.enough
    rw [hstate, hneed] at henough
    unfold dataLen at henough
    rcases henough with henough | henough
    · dsimp only at henough
      omega
    · rw [hdone] at henough
      cases henough
  subst hstate hdone
  generalize hq : s.pcmDataQueue ++ samples p.requests.flatten = q at henough
  have hlength : q.length = s.pcmDataQueue.length + (samples p.requests.flatten).length := by
    rw [← hq, List.length_append]
  set t : PromptMixer α := { s with
    leftEncodedDataLen := s.leftEncodedDataLen - consumed p.requests.flatten
    isAudioPromptDecodingDone := false
    pcmDataQueue := q
    decoded := s.decoded ++ samples p.requests.flatten } with ht
  have hmerged : t.merged p.acquiredPcmDataLen = q.take f := by
    have hget : t.pcmDataToGet p.acquiredPcmDataLen = 2 * f := hneed
    rw [PromptMixer.merged, hget, Nat.mul_div_cancel_left f (by decide)]
  have hlen : (t.merged p.acquiredPcmDataLen).length = f := by
    rw [hmerged, List.length_take, Nat.min_eq_left henough]
  have hleft : t.leftEncodedDataLen ≠ 0 := Nat.sub_ne_zero_of_lt hlt
  obtain ⟨hrange, u, hmerge, hu⟩ := PromptMixer.mergeQueue_eq (s := t) hc rfl hk hlen hframes
    (PromptMixer.mergeOutStart_of_left (s := t.dropQueue f) hleft) (Nat.le_refl f)
  have hfade : s.mergeOutOverlapLength = defaultOverlapLength * s.targetChannelCnt :=
    h.fadeOut hon
  have hsame : (s.mergeOutOverlapLength + 0x100000000 - sub32 (s.targetChannelCnt * f)
      (s.targetChannelCnt * f)) % 0x10000 = s.mergeOutOverlapLength := by
    rw [sub32_self, hfade]
    unfold defaultOverlapLength
    omega
  have hout : s.mergeOutOverlapLength ≠ 0 := by
    rw [hfade]
    unfold defaultOverlapLength
    omega
  have hkept : u.mergeOutOverlapLength = s.mergeOutOverlapLength := by
    rw [hu]
    exact hsame
  rw [PromptMixer.finish_of_left (hkept ▸ hout) (by rw [hu]; exact hleft)] at hmerge
  subst hu
  refine ⟨hrange, _, hmerge, ?_⟩
  constructor
  case channels => exact fun _ => ⟨k - min k f, rfl⟩
  case fadeOut => exact fun _ => hsame.trans hfade
  case decoding => exact fun _ => rfl
  case drained => exact fun hoff => Bool.noConfusion (hon.symm.trans hoff)
  case mixes =>
    refine ⟨front ++ q.take f, ?_, ?_, fun _ => ?_⟩
    · show s.decoded ++ samples p.requests.flatten = front ++ q.take f ++ q.drop f
      rw [hdecoded, List.append_assoc, List.append_assoc, List.take_append_drop, hq]
    · show s.mixed ++ _ = _
      rw [placed_append, hmerged, hmixed, houtputs hon]
    · show s.outputs + s.targetChannelCnt * (p.acquiredPcmDataLen / s.frameSize) = _
      rw [houtputs hon, hf, List.length_append, List.length_take, Nat.min_eq_left henough,
        Nat.mul_add]
  case budget =>
    intro _
    show 129 * (s.leftEncodedDataLen - consumed p.requests.flatten) + (q.drop f).length +
      (s.pieces + 1) ≤ 129 * s.wholeEncodedDataLen
    rw [List.length_drop]
    omega

/-- A piece with which the encoded data come to an end, and that has room for what is there. -/
theorem Inv.completes (h : Inv s) (hon : s.isMixPromptOn = true)
    (hc : s.targetChannelCnt = 1 ∨ s.targetChannelCnt = 2)
    (hwhole : p.acquiredPcmDataLen % s.frameSize = 0)
    (hle : p.acquiredPcmDataLen ≤ pcmFillUnitSize)
    (heq : consumed p.answers = s.leftEncodedDataLen)
    (hroom : (s.pcmDataQueue ++ samples p.answers).length ≤ p.acquiredPcmDataLen / s.frameSize)
    (hfade : (s.pcmDataQueue ++ samples p.answers).length = 0 ∨
      defaultOverlapLength ≤ (s.pcmDataQueue ++ samples p.answers).length)
    (hfill : Filled s (s.pcmDataToGet p.acquiredPcmDataLen) p.requests t) :
    (0 < (t.merged p.acquiredPcmDataLen).length → InRange t p.acquiredPcmDataLen) ∧
      ∃ u, t.mergeQueue p.acquiredPcmDataLen = some u ∧ Inv u := by
  have hneed := PromptMixer.pcmDataToGet_eq hc hwhole
  have hbound : s.pcmDataToGet p.acquiredPcmDataLen ≤ pcmFillUnitSize :=
    Nat.le_trans (Nat.div_le_self ..) hle
  obtain ⟨done, hstate⟩ := hfill.state
  obtain ⟨k, hk⟩ := h.channels hon
  obtain ⟨front, hdecoded, hmixed, houtputs⟩ := h.mixes
  subst hstate
  generalize hf : p.acquiredPcmDataLen / s.frameSize = f at hneed hroom
  generalize hq : s.pcmDataQueue ++ samples p.answers = q at hroom hfade
  have hq' : s.pcmDataQueue ++ samples p.requests.flatten = q := hq
  rw [hq']
  set t : PromptMixer α := { s with
    leftEncodedDataLen := s.leftEncodedDataLen - consumed p.requests.flatten
    isAudioPromptDecodingDone := done
    pcmDataQueue := q
    decoded := s.decoded ++ samples p.requests.flatten } with ht
  have hmerged : t.merged p.acquiredPcmDataLen = q := by
    have hget : t.pcmDataToGet p.acquiredPcmDataLen = 2 * f := hneed
    rw [PromptMixer.merged, hget, Nat.mul_div_cancel_left f (by decide)]
    exact List.take_of_length_le hroom
  have hleft : t.leftEncodedDataLen = 0 := by
    show s.leftEncodedDataLen - consumed p.answers = 0
    omega
  have hplaced : s.decoded ++ samples p.requests.flatten = front ++ q := by
    rw [hdecoded, List.append_assoc, hq']
  by_cases hempty : q.length = 0
  · -- nothing is there, so that nothing is merged
    have hnil : q = [] := List.length_eq_zero_iff.mp hempty
    have hlen : (t.merged p.acquiredPcmDataLen).length = 0 := hmerged ▸ hempty
    refine ⟨fun hpos => absurd hlen (Nat.ne_of_gt hpos), _, if_pos hlen, ?_⟩
    rw [PromptMixer.finish_of_end hleft]
    constructor
    case channels => exact fun hoff => Bool.noConfusion hoff
    case fadeOut => exact fun hoff => Bool.noConfusion hoff
    case decoding => exact fun hoff => Bool.noConfusion hoff
    case drained => exact fun _ => hnil
    case mixes => exact ⟨front, hplaced, hmixed, fun hoff => Bool.noConfusion hoff⟩
    case budget => exact fun hoff => Bool.noConfusion hoff
  · have hn := hfade.resolve_left hempty
    have hout := PromptMixer.mergeOutStart_of_drained (s := t.dropQueue q.length) hc rfl hleft
      (List.drop_length ..) (h.fadeOut hon) hn (by omega)
    obtain ⟨hrange, u, hmerge, hu⟩ := PromptMixer.mergeQueue_eq (s := t) hc rfl hk
      (congrArg List.length hmerged) (Nat.pos_of_ne_zero hempty) hout (Nat.sub_le ..)
    rw [PromptMixer.finish_of_end (by rw [hu]; exact hleft)] at hmerge
    subst hu
    refine ⟨fun _ => hrange, _, hmerge, ?_⟩
    constructor
    case channels => exact fun hoff => Bool.noConfusion hoff
    case fadeOut => exact fun hoff => Bool.noConfusion hoff
    case decoding => exact fun hoff => Bool.noConfusion hoff
    case drained => exact fun _ => List.drop_length ..
    case mixes =>
      refine ⟨front ++ q, ?_, ?_, fun hoff => Bool.noConfusion hoff⟩
      · show s.decoded ++ samples p.requests.flatten = front ++ q ++ q.drop q.length
        rw [hplaced, List.drop_length, List.append_nil]
      · show s.mixed ++ _ = _
        rw [placed_append, hmerged, hmixed, houtputs hon]
    case budget => exact fun hoff => Bool.noConfusion hoff

/-- What a piece that fits does: its fading is in range, and it keeps the invariant. -/
theorem Inv.step (h : Inv s) (hfits : Fits s p) (hpos : 0 < p.acquiredPcmDataLen)
    (hle : p.acquiredPcmDataLen ≤ pcmFillUnitSize) (hon : s.isMixPromptOn = true)
    (ht : s.fillQueue (s.pcmDataToGet p.acquiredPcmDataLen) p.requests = some t) :
    (0 < (t.merged p.acquiredPcmDataLen).length → InRange t p.acquiredPcmDataLen) ∧
      ∃ u, t.mergeQueue p.acquiredPcmDataLen = some u ∧ Inv u := by
  obtain ⟨hc, hwhole, hdecoded, hlast⟩ := hfits hon
  have hfill := fillQueue_spec (Nat.le_trans (Nat.div_le_self ..) hle) ht
  by_cases heq : consumed p.answers = s.leftEncodedDataLen
  · obtain ⟨hroom, hfade⟩ := hlast heq
    exact h.completes hon hc hwhole hle heq hroom hfade hfill
  · have hfull := List.all_eq_true.mp (hdecoded.resolve_left heq)
    obtain ⟨hrange, hu⟩ := h.goesOn hon hc hwhole hpos hle
      (fun r hr => of_decide_eq_true (hfull r hr)) heq hfill
    exact ⟨fun _ => hrange, hu⟩

theorem Inv.keeps (h : Inv s) (hfits : Fits s p) (hpos : 0 < p.acquiredPcmDataLen)
    (hle : p.acquiredPcmDataLen ≤ pcmFillUnitSize) (ht : s.step p = some t) : Inv t := by
  unfold PromptMixer.step at ht
  split at ht
  · rename_i hon
    obtain ⟨v, hv, ht⟩ := Option.bind_eq_some_iff.mp ht
    obtain ⟨-, u, hu, hinv⟩ := h.step hfits hpos hle hon hv
    obtain rfl := Option.some.inj (ht.symm.trans hu)
    exact hinv
  · split at ht
    · obtain rfl := Option.some.inj ht
      exact h
    · cases ht

theorem Inv.plays (h : Inv s) (hfits : Fits s p) (hpos : 0 < p.acquiredPcmDataLen)
    (hle : p.acquiredPcmDataLen ≤ pcmFillUnitSize) : Plays s p where
  inRange hon t ht := (h.step hfits hpos hle hon ht).1
  carriedOut hon t ht := by
    obtain ⟨-, u, hu, -⟩ := h.step hfits hpos hle hon ht
    unfold PromptMixer.step
    rw [if_pos hon, ht, Option.bind_some, hu]
    rfl
  inPlace t ht := by
    obtain ⟨front, hdecoded, hmixed, -⟩ := (h.keeps hfits hpos hle ht).mixes
    refine ⟨front.length, ?_⟩
    rw [hdecoded, List.take_left, hmixed]
  complete t ht hoff := by
    have hinv := h.keeps hfits hpos hle ht
    obtain ⟨front, hdecoded, hmixed, -⟩ := hinv.mixes
    rw [hdecoded, hinv.drained hoff, List.append_nil, hmixed]
  ends t ht hon := by
    have hbudget := (h.keeps hfits hpos hle ht).budget hon
    omega

end Piece

/-- Along the calls of the handler whose pieces all fit, the prompt is played completely and
ends. -/
theorem plays_along {size : SampleSize} {channelCnt promptDataLen : Nat}
    {calls : List (HandlerCall α)}
    (h : Along PromptMixer.step Fits (.startPlaying size channelCnt promptDataLen)
      (calls.flatMap HandlerCall.pieces)) :
    Along PromptMixer.step Plays (.startPlaying size channelCnt promptDataLen)
      (calls.flatMap HandlerCall.pieces) := by
  have hbounds : ∀ p ∈ calls.flatMap HandlerCall.pieces,
      0 < p.acquiredPcmDataLen ∧ p.acquiredPcmDataLen ≤ pcmFillUnitSize := by
    intro p hp
    obtain ⟨c, -, hpc⟩ := List.mem_flatMap.mp hp
    exact c.bounds hpc
  have hkeeps := (h.of_mem hbounds).strengthen
    (fun _ _ _ hs hg ht => Inv.keeps hs hg.2 hg.1.1 hg.1.2 ht)
    (inv_startPlaying size channelCnt promptDataLen)
  exact hkeeps.mono fun _ _ hs => hs.1.plays hs.2.2 hs.2.1.1 hs.2.1.2

/-! ### Fixed prompts -/

/-- A prompt of three frames, played by a call of 128 frames and one of 384. -/
theorem plays_frames :
    Along PromptMixer.step Plays (.startPlaying .bits16 1 480)
      ([⟨256, [⟨256, [[⟨160, .replicate 128 1, true⟩]]⟩], rfl⟩,
        ⟨768, [⟨512, [[⟨100, .replicate 64 2, true⟩, ⟨60, .replicate 64 3, true⟩],
          [⟨160, .replicate 128 4, true⟩]]⟩, ⟨256, []⟩], rfl⟩].flatMap
        (@HandlerCall.pieces Nat)) :=
  plays_along (by decide +kernel)

theorem not_plays_of_lost {s : PromptMixer α} {p : Piece α} (h : (s.step p).map (fun t =>
      !t.isMixPromptOn && t.mixed.length != (placed t.targetChannelCnt t.decoded).length) =
    some true) : ¬Plays s p := by
  intro hplays
  obtain ⟨t, ht, htrue⟩ := Option.map_eq_some_iff.mp h
  obtain ⟨hoff, hne⟩ := (Bool.and_eq_true _ _).mp htrue
  have hall := hplays.complete t ht (by simpa using hoff)
  rw [hall] at hne
  simp at hne

theorem not_plays_of_range {s : PromptMixer α} {p : Piece α} (hon : s.isMixPromptOn = true)
    (h : (s.fillQueue (s.pcmDataToGet p.acquiredPcmDataLen) p.requests).map (fun t =>
      decide (0 < (t.merged p.acquiredPcmDataLen).length) &&
        decide ((t.source p.acquiredPcmDataLen).length <
          (t.dropQueue (t.merged p.acquiredPcmDataLen).length).mergeOutStart
            (t.source p.acquiredPcmDataLen).length)) = some true) : ¬Plays s p := by
  intro hplays
  obtain ⟨t, ht, htrue⟩ := Option.map_eq_some_iff.mp h
  obtain ⟨hpos, hlt⟩ := (Bool.and_eq_true _ _).mp htrue
  exact absurd (hplays.inRange hon t ht (of_decide_eq_true hpos)).2
    (Nat.not_le.mpr (of_decide_eq_true hlt))

/-- The decoding is over with encoded data left, and the queue is empty. -/
def stalled (s : PromptMixer α) : Bool :=
  s.isMixPromptOn && s.isAudioPromptDecodingDone && s.pcmDataQueue.isEmpty &&
    s.leftEncodedDataLen != 0 && s.mergeOutOverlapLength != 0

/-- No piece ends the prompt then. -/
theorem stalled_foldlM {s : PromptMixer α} (h : stalled s = true) (len n : Nat) :
    ∃ t, (List.replicate n (⟨len, []⟩ : Piece α)).foldlM PromptMixer.step s = some t ∧
      stalled t = true := by
  induction n generalizing s with
  | zero => exact ⟨s, rfl, h⟩
  | succ n ih =>
    have hs := h
    simp only [stalled, Bool.and_eq_true, bne_iff_ne, ne_eq, List.isEmpty_iff] at hs
    obtain ⟨⟨⟨⟨hon, hdone⟩, hqueue⟩, hleft⟩, hout⟩ := hs
    have hmerged : (s.merged len).length = 0 := by
      rw [PromptMixer.merged, hqueue, List.take_nil]
      rfl
    have hstep : s.step ⟨len, []⟩ = some (s.finish len) := by
      rw [PromptMixer.step, if_pos hon, PromptMixer.fillQueue,
        if_neg fun hgo => Bool.noConfusion (hdone.symm.trans hgo.2), Option.bind_some]
      exact if_pos hmerged
    have hnext : stalled (s.finish len) = true := by
      rw [PromptMixer.finish_of_left hout hleft]
      exact h
    obtain ⟨t, ht, hstalled⟩ := ih hnext
    refine ⟨t, ?_, hstalled⟩
    rw [List.replicate_succ, List.foldlM_cons, hstep]
    exact ht

/-- Half of a frame waits in the queue when the last encoded byte is decoded. A last frame is
shorter than the fade-out. The decoder reports an error, and the prompt goes on for ever. -/
theorem not_plays :
    ¬Along PromptMixer.step Plays (.startPlaying .bits16 1 10)
        ([⟨128, [⟨128, [[⟨10, .replicate 128 1, true⟩]]⟩], rfl⟩].flatMap
          (@HandlerCall.pieces Nat)) ∧
      ¬Along PromptMixer.step Plays (.startPlaying .bits16 1 10)
        ([⟨512, [⟨512, [[⟨10, .replicate 100 1, true⟩]]⟩], rfl⟩].flatMap
          (@HandlerCall.pieces Nat)) ∧
      ∀ n, ∃ t, ((⟨512, [⟨512, [[⟨160, .replicate 128 1, true⟩], [⟨0, [], false⟩]]⟩], rfl⟩ ::
          List.replicate n ⟨512, [⟨512, []⟩], rfl⟩).flatMap (@HandlerCall.pieces Nat)).foldlM
        PromptMixer.step (.startPlaying .bits16 1 1000) = some t ∧ t.isMixPromptOn = true := by
  refine ⟨fun h => ?_, fun h => ?_, fun n => ?_⟩
  · exact not_plays_of_lost (by decide +kernel) h.1
  · exact not_plays_of_range rfl (by decide +kernel) h.1
  · have hfirst : ((PromptMixer.startPlaying .bits16 1 1000).step
        (⟨512, [[⟨160, .replicate 128 1, true⟩], [⟨0, [], false⟩]]⟩ : Piece Nat)).map stalled =
        some true := by decide +kernel
    obtain ⟨s, hs, hstalled⟩ := Option.map_eq_some_iff.mp hfirst
    obtain ⟨t, ht, hend⟩ := stalled_foldlM hstalled 512 n
    refine ⟨t, ?_, ?_⟩
    · have hidle : (List.replicate n (⟨512, [⟨512, []⟩], rfl⟩ : HandlerCall Nat)).flatMap
          HandlerCall.pieces = List.replicate n ⟨512, []⟩ := by
        rw [List.flatMap_replicate]
        exact List.flatten_replicate_singleton
      rw [List.flatMap_cons, hidle, List.singleton_append, List.foldlM_cons, hs]
      exact ht
    · simp only [stalled, Bool.and_eq_true] at hend
      exact hend.1.1.1.1

end EarbudFirmware.PromptMix
