import EarbudFirmware.Lib.Transition
import EarbudFirmware.Ota.Specs

/-!
# The positions of a transmission

The image arrives through a buffer of one sector. While the positions are in step, image byte `i` is
programmed at offset `i`, and the checksum of a segment is about the bytes that were received for
it. `ota_control_reset_env` resets the positions in the image but not those in the flash, and
`_init_flash_offset` does the opposite; each is safe only where the other half is zero already.

## Main definitions

* `Positions.InStep` — the positions in the image and in the flash agree
* `KeepsStep` — the packet does not reset one half of the positions

## Main results

* `inStep_run` — the positions stay in step
* `falls_out_of_step` — a second start in the middle of a transmission
-/

namespace EarbudFirmware.Ota

open Transition (Along)

/-- The positions in the image and in the flash agree. -/
structure Positions.InStep (q : Positions) : Prop where
  received : q.received = q.inFlashToProgram + q.inDataBuffer
  segment : q.inImageOfSegment = q.inFlashOfSegment
  segment_le : q.inFlashOfSegment ≤ q.inFlashToProgram

/-- The data buffer is not full, and the flash offset is not far behind the largest image. -/
structure Positions.Bounded (b : Build) (q : Positions) : Prop where
  inDataBuffer_lt : q.inDataBuffer < sectorSize
  inFlashToProgram_le : q.inFlashToProgram ≤ b.maxImageSize + sectorSize

/-- The positions in the flash are those of a new transmission. -/
def Env.FlashAtStart (e : Env) : Prop :=
  e.offsetInFlashToProgram = 0 ∧ e.offsetInFlashOfCurrentSegment = 0

/-- The positions in the image are those of a new transmission. -/
def Env.ImageAtStart (e : Env) : Prop :=
  e.alreadyReceivedDataSizeOfImage = e.offsetInDataBufferForBurning ∧
    e.offsetOfImageOfCurrentSegment = 0

/-- The data fits into the buffer, or every sector that it fills passes the offset check. -/
def Env.DataFits (b : Build) (e : Env) (len : Nat) : Prop :=
  e.offsetInDataBufferForBurning + len < sectorSize ∨
    e.totalImageSize ≤ b.maxImageSize ∧ e.offsetInFlashToProgram % minSegAlign = 0 ∧
      e.offsetInFlashToProgram +
        sectorSize * ((e.offsetInDataBufferForBurning + len) / sectorSize - 1) ≤ e.totalImageSize

/-- The packet does not reset one half of the positions. -/
def KeepsStep (b : Build) (s : OtaState) (r : Reads) (p : Packet) : Prop :=
  match packetType p.type with
  | .data => s.env.isOTAInProgress = true → s.env.DataFits b p.length
  | .start => p.HasMagicCode → s.env.FlashAtStart
  | .resumeVerify =>
    if (getUserFlashModule b s.env.user).isSome then ¬Resumes r p → s.env.ImageAtStart
    else Resumes r p → s.env.FlashAtStart
  | .configOta =>
    p.length ≤ configurationSize ∧
      (ConfigResumes b s p → s.env.offsetInDataBufferForBurning = 0)
  | .getOtaResult => VerificationFails b s → s.env.FlashAtStart
  | .imageApply =>
    ¬(p.HasMagicCode ∧ s.env.isPendingForReboot = true) → s.env.isInBesOtaState = true →
      s.env.FlashAtStart
  | _ => True

variable {b : Build} {s s' : OtaState} {r : Reads} {p : Packet} {out : List Output}
  {t t' : OtaState × List Output} {q : Positions}

/-! ### Data -/

theorem Env.DataFits.not_offsetError {e : Env} {len n : Nat} (hfits : e.DataFits b len)
    (hle : sectorSize ≤ e.offsetInDataBufferForBurning + len) :
    ¬Env.OffsetError b { e with offsetInDataBufferForBurning := n } := by
  rcases hfits with hlt | ⟨hmax, hmod, htotal⟩
  · omega
  · rintro (herr | herr | herr)
    · exact absurd htotal (by dsimp only at herr; omega)
    · exact absurd hmax (not_le.2 herr)
    · exact herr hmod

/-- A sector behind the current one passes the offset check as well. -/
theorem Env.DataFits.next {e : Env} {len rest : Nat} (hfits : e.DataFits b len)
    (hrest : e.offsetInDataBufferForBurning + len = sectorSize + rest) :
    Env.DataFits b
      { e with offsetInFlashToProgram := e.offsetInFlashToProgram + sectorSize
               offsetInDataBufferForBurning := 0 } rest := by
  by_cases hlt : rest < sectorSize
  · exact .inl (by dsimp only; omega)
  · rcases hfits with hlt' | ⟨hmax, hmod, htotal⟩
    · omega
    · refine .inr ⟨hmax, ?_, ?_⟩
      · unfold minSegAlign sectorSize at *
        dsimp only
        omega
      · rw [hrest] at htotal
        unfold sectorSize at *
        dsimp only
        omega

/-- The data packet fills the buffer and programs the sectors that it fills. -/
theorem dataLoop_eq_some {mod : Option FlashModule} {raw : NorMemory.Content} {n fuel left : Nat}
    {e e' : Env} {m m' : Mem} {ok : Bool} (hlt : e.offsetInDataBufferForBurning < sectorSize)
    (hfits : e.DataFits b left) (h : dataLoop b mod raw n fuel left e m = some (e', m', ok)) :
    ok = true ∧ e' = { e with
      offsetInDataBufferForBurning := (e.offsetInDataBufferForBurning + left) % sectorSize
      offsetInFlashToProgram := e.offsetInFlashToProgram +
        sectorSize * ((e.offsetInDataBufferForBurning + left) / sectorSize) } := by
  induction fuel generalizing left e m with
  | zero => cases h
  | succ fuel ih =>
    rcases lt_or_ge (e.offsetInDataBufferForBurning + left) sectorSize with hc | hc
    · -- the buffer does not become full
      have hnow : bytesToCopy e.offsetInDataBufferForBurning left = left := if_neg (by omega)
      unfold dataLoop at h
      dsimp only at h
      rw [hnow, if_neg (by omega), if_neg (by omega)] at h
      obtain ⟨rfl, hm⟩ := Prod.mk.inj (Option.some.inj h)
      obtain ⟨-, rfl⟩ := Prod.mk.inj hm
      rw [Nat.mod_eq_of_lt hc, Nat.div_eq_of_lt hc]
      exact ⟨rfl, rfl⟩
    · -- a full buffer is programmed
      obtain ⟨rest, hrest⟩ := Nat.exists_eq_add_of_le hc
      have hnow : bytesToCopy e.offsetInDataBufferForBurning left =
          sectorSize - e.offsetInDataBufferForBurning := by
        unfold bytesToCopy
        split_ifs <;> omega
      have hfull : e.offsetInDataBufferForBurning +
          (sectorSize - e.offsetInDataBufferForBurning) = sectorSize := by omega
      have hleft : left - (sectorSize - e.offsetInDataBufferForBurning) = rest := by omega
      have hadd : add32 e.offsetInFlashToProgram sectorSize =
          e.offsetInFlashToProgram + sectorSize := by
        have hmax := b.maxImageSize_lt
        rcases hfits with hlt' | ⟨hmax', -, htotal⟩
        · omega
        · unfold add32 sectorSize at *
          omega
      unfold dataLoop at h
      dsimp only at h
      rw [hnow, hfull, hleft, if_pos le_rfl, if_neg (hfits.not_offsetError hc), hadd] at h
      obtain ⟨m₁, -, h⟩ := Option.bind_eq_some_iff.1 h
      rw [hrest, Nat.add_mod_left, Nat.add_div_left _ (by decide)]
      split_ifs at h with hpos
      · obtain ⟨hok, rfl⟩ := ih (Nat.zero_lt_of_lt hlt) (hfits.next hrest) h
        refine ⟨hok, ?_⟩
        dsimp only
        rw [Nat.zero_add, Nat.mul_succ, Nat.add_assoc, Nat.add_comm sectorSize]
      · obtain ⟨rfl, hm⟩ := Prod.mk.inj (Option.some.inj h)
        obtain ⟨-, rfl⟩ := Prod.mk.inj hm
        obtain rfl : rest = 0 := by omega
        exact ⟨rfl, rfl⟩

/-! ### The positions after each handler -/

/-- The positions are in step and in their bounds. -/
structure Positions.Sound (b : Build) (q : Positions) : Prop extends q.InStep, q.Bounded b

theorem Positions.sound_zero : Positions.Sound b ⟨0, 0, 0, 0, 0⟩ :=
  ⟨⟨rfl, rfl, le_rfl⟩, ⟨by decide, Nat.zero_le _⟩⟩

/-- The data of a packet is counted as it is programmed. -/
theorem Positions.Sound.data (hq : s.env.positions.Sound b)
    (hk : s.env.isOTAInProgress = true → s.env.DataFits b p.length)
    (hstep : handleData b s p = some (s', out)) : s'.env.positions.Sound b := by
  rcases handleData_cases hstep with ⟨-, rfl, -⟩ | ⟨hprog, -, e, m, ok, hloop, -, hpos⟩
  · exact hq
  · have hfits := hk hprog
    obtain ⟨rfl, rfl⟩ := dataLoop_eq_some hq.inDataBuffer_lt hfits hloop
    have hsum := Nat.div_add_mod (s.env.offsetInDataBufferForBurning + p.length) sectorSize
    have hmod := Nat.mod_lt (s.env.offsetInDataBufferForBurning + p.length)
      (Nat.zero_lt_of_lt hq.inDataBuffer_lt)
    have hmax := b.maxImageSize_lt
    have hrec : s.env.alreadyReceivedDataSizeOfImage =
        s.env.offsetInFlashToProgram + s.env.offsetInDataBufferForBurning := hq.received
    have hbound : s.env.offsetInFlashToProgram ≤ b.maxImageSize + sectorSize :=
      hq.inFlashToProgram_le
    have hprogram : s.env.offsetInFlashToProgram +
        sectorSize * ((s.env.offsetInDataBufferForBurning + p.length) / sectorSize) ≤
          b.maxImageSize + sectorSize := by
      rcases hfits with hlt | ⟨htotal, -, hle⟩
      · rwa [Nat.div_eq_of_lt hlt]
      · unfold sectorSize at *
        omega
    rw [hpos]
    refine ⟨⟨?_, hq.segment, ?_⟩, hmod, hprogram⟩
    · show add32 s.env.alreadyReceivedDataSizeOfImage p.length =
        s.env.offsetInFlashToProgram +
          sectorSize * ((s.env.offsetInDataBufferForBurning + p.length) / sectorSize) +
          (s.env.offsetInDataBufferForBurning + p.length) % sectorSize
      unfold add32 sectorSize at *
      omega
    · exact (hq.segment_le).trans (Nat.le_add_right _ _)

/-- The rest of the buffer is programmed, when the offset check passes. -/
theorem Positions.Sound.flushed (hq : q.Sound b) (hle : q.inFlashToProgram ≤ b.maxImageSize) :
    q.flushed.Sound b := by
  have hadd : add32 q.inFlashToProgram q.inDataBuffer = q.inFlashToProgram + q.inDataBuffer := by
    have hlt := hq.inDataBuffer_lt
    have hmax := b.maxImageSize_lt
    unfold add32 sectorSize at *
    omega
  have hlt := hq.inDataBuffer_lt
  refine ⟨⟨?_, hq.segment, ?_⟩, ⟨Nat.zero_lt_of_lt hlt, ?_⟩⟩
  · exact hq.received.trans hadd.symm
  · exact (hq.segment_le.trans (Nat.le_add_right _ _)).trans hadd.ge
  · exact hadd.le.trans (by omega)

theorem Positions.Sound.advanced (hq : q.Sound b) (hempty : q.inDataBuffer = 0) :
    q.advanced.Sound b := by
  refine ⟨⟨hq.received, ?_, le_rfl⟩, hq.inDataBuffer_lt, hq.inFlashToProgram_le⟩
  show q.received = q.inFlashToProgram
  rw [hq.received, hempty, Nat.add_zero]

theorem Positions.Sound.rewound (hq : q.Sound b) (hempty : q.inDataBuffer = 0) :
    q.rewound.Sound b := by
  refine ⟨⟨?_, hq.segment, le_rfl⟩, hq.inDataBuffer_lt, ?_⟩
  · show q.inImageOfSegment = q.inFlashOfSegment + q.inDataBuffer
    rw [hq.segment, hempty, Nat.add_zero]
  · exact hq.segment_le.trans hq.inFlashToProgram_le

/-- All three outcomes of a segment leave the positions in step. -/
theorem Positions.Sound.segmentVerify (hq : s.env.positions.Sound b)
    (hstep : handleSegmentVerify b s p = some (s', out)) : s'.env.positions.Sound b := by
  rcases handleSegmentVerify_cases hstep with ⟨rfl, -⟩ | ⟨⟨-, -, herr⟩, -, hpos⟩
  · exact hq
  · have hle : s.env.offsetInFlashToProgram ≤ b.maxImageSize := by
      unfold Env.OffsetError at herr
      omega
    have hflushed := hq.flushed hle
    rcases hpos with hpos | hpos | hpos <;> rw [hpos]
    · exact hflushed.advanced rfl
    · exact hflushed.rewound rfl
    · exact hflushed

/-- The positions in the image are reset. -/
def Positions.imageReset (q : Positions) : Positions :=
  { q with inDataBuffer := 0, received := 0, inImageOfSegment := 0 }

/-- Resetting one half is sound when the other half is zero. -/
theorem Positions.sound_imageReset (hflash : q.inFlashToProgram = 0 ∧ q.inFlashOfSegment = 0) :
    q.imageReset.Sound b := by
  obtain ⟨hprogram, hsegment⟩ := hflash
  refine ⟨⟨?_, hsegment.symm, ?_⟩, Nat.zero_lt_succ _, ?_⟩
  · exact hprogram.symm
  · exact hsegment.le.trans (Nat.zero_le _)
  · exact hprogram.le.trans (Nat.zero_le _)

theorem exitOtaState_positions (s : OtaState) :
    (exitOtaState b s).env.positions =
      if s.env.isInBesOtaState then s.env.positions.imageReset else s.env.positions := by
  unfold exitOtaState
  split_ifs <;> rfl

/-- `_init_flash_offset` resets the positions in the flash, when the user has a module. -/
theorem initFlashOffset_positions (e : Env) :
    (initFlashOffset b e).positions =
      if (getUserFlashModule b e.user).isSome then
        { e.positions with inFlashToProgram := 0, inFlashOfSegment := 0 }
      else e.positions := by
  unfold initFlashOffset
  dsimp only
  cases getUserFlashModule b e.user <;> rfl

theorem Positions.Sound.start (hq : s.env.positions.Sound b)
    (hk : p.HasMagicCode → s.env.FlashAtStart)
    (hstep : handleStart b r s p = some (s', out)) : s'.env.positions.Sound b := by
  rcases handleStart_cases hstep with ⟨-, rfl, -⟩ | ⟨hmagic, hlog, -⟩
  · exact hq
  · rw [hlog.positions]
    exact Positions.sound_imageReset (q := s.env.positions) (hk hmagic)

theorem Positions.Sound.getOtaResult (hq : s.env.positions.Sound b)
    (hk : VerificationFails b s → s.env.FlashAtStart)
    (hstep : handleGetOtaResult b s = some (s', out)) : s'.env.positions.Sound b := by
  rcases handleGetOtaResult_cases hstep with ⟨rfl, -⟩ | ⟨hfails, -, s₁, m, hlog, rfl⟩ |
    ⟨⟨m, hlog⟩, -⟩
  · exact hq
  · -- the positions in the image have been reset once or twice
    have hpos : s₁.env.positions.imageReset = s.env.positions.imageReset := by
      rw [hlog.positions, exitOtaState_positions]
      split_ifs <;> rfl
    show s₁.env.positions.imageReset.Sound b
    rw [hpos]
    exact Positions.sound_imageReset (q := s.env.positions) (hk hfails)
  · rw [hlog.positions]
    exact hq

theorem Positions.Sound.imageApply (hq : s.env.positions.Sound b)
    (hk : ¬(p.HasMagicCode ∧ s.env.isPendingForReboot = true) → s.env.isInBesOtaState = true →
      s.env.FlashAtStart)
    (hstep : handleImageApply b s p = some (s', out)) : s'.env.positions.Sound b := by
  rcases handleImageApply_cases hstep with ⟨-, hlog, -⟩ | ⟨hrefused, -, rfl⟩
  · rw [hlog.positions]
    exact hq
  · rw [exitOtaState_positions]
    split_ifs with hbes
    · exact Positions.sound_imageReset (q := s.env.positions) (hk hrefused hbes)
    · exact hq

/-- Either half of the positions is reset, or both. -/
theorem Positions.Sound.resumeVerify (hq : s.env.positions.Sound b)
    (hk : if (getUserFlashModule b s.env.user).isSome then ¬Resumes r p → s.env.ImageAtStart
      else Resumes r p → s.env.FlashAtStart)
    (hstep : handleResumeVerify b r s p = some (s', out)) : s'.env.positions.Sound b := by
  obtain ⟨-, ⟨hres, hlog⟩ | ⟨hres, s₁, hlog, rfl⟩⟩ := handleResumeVerify_cases hstep
  all_goals
    have hpos := hlog.positions.trans (initFlashOffset_positions s.env)
    split_ifs at hk hpos with hmodule
  · rw [hpos]
    obtain ⟨hrec, hseg⟩ := hk hres
    refine ⟨⟨?_, hseg, le_rfl⟩, hq.inDataBuffer_lt, Nat.zero_le _⟩
    exact hrec.trans (Nat.zero_add _).symm
  · rw [hpos]
    exact hq
  · show s₁.env.positions.imageReset.Sound b
    rw [hpos]
    exact Positions.sound_imageReset ⟨rfl, rfl⟩
  · show s₁.env.positions.imageReset.Sound b
    rw [hpos]
    exact Positions.sound_imageReset (q := s.env.positions) (hk hres)

theorem Positions.Sound.configOta (hq : s.env.positions.Sound b)
    (hk : p.length ≤ configurationSize ∧
      (ConfigResumes b s p → s.env.offsetInDataBufferForBurning = 0))
    (hstep : handleConfigOta b s p = some (s', out)) : s'.env.positions.Sound b := by
  obtain ⟨-, -, hpos | ⟨hres, hle, hpos⟩⟩ := handleConfigOta_cases hk.1 hstep
  · rw [hpos]
    exact hq
  · -- all positions are the breakpoint
    rw [hpos]
    refine ⟨⟨?_, rfl, le_rfl⟩, hq.inDataBuffer_lt, hle.trans (Nat.le_add_right _ _)⟩
    show s.env.breakPoint = s.env.breakPoint + s.env.offsetInDataBufferForBurning
    rw [hk.2 hres, Nat.add_zero]

/-! ### Runs -/

theorem Positions.Sound.step {e : Reads × Packet} (hq : t.1.env.positions.Sound b)
    (hk : KeepsStep b t.1 e.1 e.2) (hstep : tracedStep b t e = some t') :
    t'.1.env.positions.Sound b := by
  obtain ⟨⟨s', out⟩, hhandle, rfl⟩ := Option.map_eq_some_iff.1 hstep
  unfold KeepsStep at hk
  unfold handleReceivedData at hhandle
  cases htype : packetType e.2.type
  all_goals simp only [htype] at hk hhandle
  case data => exact hq.data hk hhandle
  case segmentVerify => exact hq.segmentVerify hhandle
  case start => exact hq.start hk hhandle
  case resumeVerify => exact hq.resumeVerify hk hhandle
  case configOta => exact hq.configOta hk hhandle
  case getOtaResult => exact hq.getOtaResult hk hhandle
  case imageApply => exact hq.imageApply hk hhandle
  -- the other packets leave the positions alone
  all_goals
    obtain ⟨rfl, -⟩ := Prod.mk.inj (Option.some.inj hhandle)
    exact hq

/-- The positions stay in step in every run whose packets do not reset one half of them. -/
theorem inStep_run {flash : FlashModule → NorMemory.Content} {es : List (Reads × Packet)}
    (hes : Along (tracedStep b) (fun t e => KeepsStep b t.1 e.1 e.2) (.initial flash, []) es)
    (hrun : es.foldlM (tracedStep b) (.initial flash, []) = some t) :
    t.1.env.positions.InStep :=
  (hes.preserves (I := fun t : OtaState × List Output => t.1.env.positions.Sound b)
    (fun _ _ _ hq hk => hq.step hk) hrun Positions.sound_zero).toInStep

/-- The start of an image of 16 bytes. -/
def start : Packet := .ofBytes 0x80 [0x42, 0x45, 0x53, 0x54, 16, 0, 0, 0, 0, 0, 0, 0]

def oneByte : Packet := .ofBytes 0x85 [0]

/-- A start and the first byte of the image. -/
theorem inStep_run_oneByte :
    ∃ t, [(Reads.empty, start), (.empty, oneByte)].foldlM (tracedStep .small)
        (.initial fun _ _ => 0xFF, []) = some t ∧
      t.1.env.positions.InStep ∧ t.1.env.positions.received = 1 := by
  have hstart : (tracedStep .small (.initial fun _ _ => 0xFF, []) (.empty, start)).map
      (fun t => t.1.env.offsetInDataBufferForBurning) = some 0 := by decide +kernel
  have hes : Along (tracedStep .small) (fun t e => KeepsStep .small t.1 e.1 e.2)
      (.initial fun _ _ => 0xFF, []) [(Reads.empty, start), (.empty, oneByte)] := by
    refine ⟨fun _ => ⟨rfl, rfl⟩, fun t ht => ⟨fun _ => .inl ?_, fun _ _ => trivial⟩⟩
    rw [ht] at hstart
    have hempty : t.1.env.offsetInDataBufferForBurning = 0 := Option.some.inj hstart
    rw [hempty]
    decide
  have hrun : ([(Reads.empty, start), (.empty, oneByte)].foldlM (tracedStep .small)
      (.initial fun _ _ => 0xFF, [])).map (fun t => t.1.env.positions.received) = some 1 := by
    decide +kernel
  obtain ⟨t, ht, hrec⟩ := Option.map_eq_some_iff.1 hrun
  exact ⟨t, ht, inStep_run hes ht, hrec⟩

/-- A segment of one byte has been verified when the transmission starts again. -/
def startAgain : List (Reads × Packet) :=
  [(.empty, .ofBytes 0x97 [1]), (.empty, .ofBytes 0x86 []), (.empty, start), (.empty, oneByte),
    (.empty, .ofBytes 0x82 [0x42, 0x45, 0x53, 0x54, 0x8D, 0xEF, 0x02, 0xD2]), (.empty, start)]

/-- The second start resets the positions in the image only. -/
theorem falls_out_of_step :
    ¬∀ (es : List (Reads × Packet)) (t : OtaState × List Output),
      es.foldlM (tracedStep .small) (.initial fun _ _ => 0xFF, []) = some t →
      (∀ o ∈ t.2.head?, ∀ result, o = .resultResponse result → result = 1) →
      t.1.env.positions.InStep := by
  intro hall
  have hrun : (startAgain.foldlM (tracedStep .small) (.initial fun _ _ => 0xFF, [])).map
      (fun t => (t.2, t.1.env.positions.received, t.1.env.positions.inFlashToProgram)) =
      some ([.startResponse, .segmentVerificationResponse true, .startResponse, .setUserResponse],
        0, 1) := by
    decide +kernel
  obtain ⟨t, ht, hend⟩ := Option.map_eq_some_iff.1 hrun
  obtain ⟨hout, hend⟩ := Prod.mk.inj hend
  obtain ⟨hreceived, hprogram⟩ := Prod.mk.inj hend
  have hstep := (hall _ t ht (by simp [hout])).received
  omega

end EarbudFirmware.Ota
