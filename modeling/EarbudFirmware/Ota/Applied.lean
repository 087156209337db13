import EarbudFirmware.Lib.Transition
import EarbudFirmware.Ota.Specs

/-!
# Applied images

`isPendingForReboot` says that an image has been received, not which one: it is also set for users
whose image is not checked, and it survives a change of the user and data that arrives later. As
long as no packet of this kind comes, the firmware image that is applied is the one that has been
verified.

## Main definitions

* `lastVerified` — the size and the checksum that the last image check was about
* `KeepsVerdict` — the packet does not take a verdict from one image to another

## Main results

* `applied_image_verified` — the image that the firmware user applies is the one that was verified
* `applies_unverified` — a run that applies an image that has never been checked
-/

namespace EarbudFirmware.Ota

open NorMemory (Content)
open Transition (Along)

/-- The size and the checksum that the last image check was about. -/
def lastVerified : List Output → Option (Nat × UInt32)
  | [] => none
  | .imageVerified size crc :: _ => some (size, crc)
  | _ :: h => lastVerified h

/-- The packet does not take a verdict from one image to another. While an image is pending, the
user does not become the firmware user, and nothing is programmed or erased over its image. -/
def KeepsVerdict (b : Build) (s : OtaState) (r : Reads) (p : Packet) : Prop :=
  match packetType p.type with
  | .configOta => p.length ≤ configurationSize
  | .setUser =>
    s.env.isPendingForReboot = true → p.payload 0 = userFirmware → s.env.currentUser = userFirmware
  | .resumeVerify =>
    s.env.isPendingForReboot = true → s.env.currentUser = userInvalid → Resumes r p
  | .data =>
    s.env.isPendingForReboot = true → s.env.currentUser = userFirmware →
      s.env.isOTAInProgress = false ∨
        s.env.offsetInDataBufferForBurning + p.length < sectorSize ∨ s.env.OffsetError b
  | .segmentVerify =>
    s.env.isPendingForReboot = true → s.env.currentUser = userFirmware →
      s.env.isInBesOtaState = false ∨ s.env.NoNewData ∨ s.env.OffsetError b
  | _ => True

/-- A pending firmware image is verified, and its size and checksum are those of the last check. -/
def VerdictHolds (t : OtaState × List Output) : Prop :=
  t.1.env.isPendingForReboot = true → t.1.env.currentUser = userFirmware →
    Verified (t.1.mem.flash .ota) t.1.env.totalImageSize t.1.env.crc32OfImage ∧
      lastVerified t.2 = some (t.1.env.totalImageSize, t.1.env.crc32OfImage)

variable {b : Build} {s s' : OtaState} {r : Reads} {p : Packet} {out h : List Output}
  {t t' : OtaState × List Output}

/-! ### Verdicts in the history -/

theorem lastVerified_append (hout : ∀ size crc, .imageVerified size crc ∉ out) :
    lastVerified (out ++ h) = lastVerified h := by
  induction out with
  | nil => rfl
  | cons o out ih =>
    have hrest := ih fun size crc hmem => hout size crc (List.mem_cons_of_mem o hmem)
    cases o with
    | imageVerified size crc => exact absurd List.mem_cons_self (hout size crc)
    | _ => exact hrest

theorem lastVerified_reverse (hout : ∀ size crc, .imageVerified size crc ∉ out) :
    lastVerified (out.reverse ++ h) = lastVerified h :=
  lastVerified_append fun size crc hmem => hout size crc (List.mem_reverse.1 hmem)

theorem Quiet.not_imageVerified (hq : Quiet out) (size : Nat) (crc : UInt32) :
    .imageVerified size crc ∉ out :=
  fun hmem => nomatch hq _ hmem

/-! ### The handlers keep the invariant -/

/-- The environment decides whether the invariant holds, when the image has not been written. -/
theorem VerdictHolds.of_same (hv : VerdictHolds (s, h)) (hsame : s'.env.verdict = s.env.verdict)
    (hflash : s.env.isPendingForReboot = true → s.env.currentUser = userFirmware →
      s'.mem.flash .ota = s.mem.flash .ota)
    (hout : ∀ size crc, .imageVerified size crc ∉ out) :
    VerdictHolds (s', out.reverse ++ h) := by
  obtain ⟨hpend, huser, hsize, hcrc⟩ := Verdict.mk.inj hsame
  intro hpend' huser'
  dsimp only at hpend' huser' ⊢
  rw [hpend] at hpend'
  rw [huser] at huser'
  rw [hsize, hcrc, hflash hpend' huser', lastVerified_reverse hout]
  exact hv hpend' huser'

theorem VerdictHolds.of_not_pending (hpend : s.env.isPendingForReboot = false) :
    VerdictHolds (s, h) :=
  fun hpend' _ => absurd hpend' (by simp [hpend])

theorem VerdictHolds.of_user (huser : s.env.currentUser ≠ userFirmware) : VerdictHolds (s, h) :=
  fun _ huser' => absurd huser' huser

theorem VerdictHolds.data (hv : VerdictHolds (s, h))
    (hk : s.env.isPendingForReboot = true → s.env.currentUser = userFirmware →
      s.env.isOTAInProgress = false ∨
        s.env.offsetInDataBufferForBurning + p.length < sectorSize ∨ s.env.OffsetError b)
    (hstep : handleData b s p = some (s', out)) : VerdictHolds (s', out.reverse ++ h) := by
  rcases handleData_cases hstep with ⟨-, rfl, rfl⟩ | ⟨hprog, hneutral, e, m, ok, hloop, hm, -⟩
  · exact hv.of_same rfl (fun _ _ => rfl) (by simp)
  · refine hv.of_same hneutral.verdict (fun hpend huser => ?_) hneutral.quiet.not_imageVerified
    rw [hm]
    -- nothing is programmed when the buffer is not full or the offset is wrong
    rcases hk hpend huser with hprog' | hlt | herr
    · simp [hprog] at hprog'
    · exact congrFun (dataLoop_flash_of_lt hlt hloop) .ota
    · exact congrFun (dataLoop_flash_of_offsetError herr hloop) .ota

theorem VerdictHolds.segmentVerify (hv : VerdictHolds (s, h))
    (hk : s.env.isPendingForReboot = true → s.env.currentUser = userFirmware →
      s.env.isInBesOtaState = false ∨ s.env.NoNewData ∨ s.env.OffsetError b)
    (hstep : handleSegmentVerify b s p = some (s', out)) : VerdictHolds (s', out.reverse ++ h) := by
  rcases handleSegmentVerify_cases hstep with ⟨rfl, hq⟩ | ⟨⟨hbes, hnew, herr⟩, hneutral, -⟩
  · exact hv.of_same rfl (fun _ _ => rfl) hq.not_imageVerified
  · refine hv.of_same hneutral.verdict (fun hpend huser => ?_) hneutral.quiet.not_imageVerified
    rcases hk hpend huser with hbes' | hnew' | herr'
    · simp [hbes] at hbes'
    · exact absurd hnew' hnew
    · exact absurd herr' herr

theorem VerdictHolds.start (hv : VerdictHolds (s, h))
    (hstep : handleStart b r s p = some (s', out)) : VerdictHolds (s', out.reverse ++ h) := by
  rcases handleStart_cases hstep with ⟨-, rfl, rfl⟩ | ⟨-, hlog, rfl⟩
  · exact hv
  · exact .of_not_pending (Verdict.mk.inj hlog.verdict).1

/-- The user that a transmission without a user gets is the firmware user. -/
theorem initFlashOffset_verdict (e : Env) :
    (initFlashOffset b e).verdict = { e.verdict with currentUser := e.user } := by
  unfold initFlashOffset
  dsimp only
  cases getUserFlashModule b e.user <;> rfl

theorem VerdictHolds.resumeVerify (hv : VerdictHolds (s, h))
    (hk : s.env.isPendingForReboot = true → s.env.currentUser = userInvalid → Resumes r p)
    (hstep : handleResumeVerify b r s p = some (s', out)) :
    VerdictHolds (s', out.reverse ++ h) := by
  obtain ⟨hq, ⟨hres, hlog⟩ | ⟨-, s₁, -, rfl⟩⟩ := handleResumeVerify_cases hstep
  · by_cases hpend : s.env.isPendingForReboot = true
    · have huser : s.env.currentUser ≠ userInvalid := fun hinv => hres (hk hpend hinv)
      refine hv.of_same ?_ (fun _ _ => hlog.flash) hq.not_imageVerified
      rw [hlog.verdict, initFlashOffset_verdict, Env.user, if_neg huser]
      rfl
    · refine .of_not_pending ?_
      have hsame := hlog.verdict.trans (initFlashOffset_verdict s.env)
      rw [(Verdict.mk.inj hsame).1]
      exact Bool.eq_false_iff.2 hpend
  · exact .of_not_pending rfl

theorem VerdictHolds.getOtaResult (hv : VerdictHolds (s, h))
    (hstep : handleGetOtaResult b s = some (s', out)) : VerdictHolds (s', out.reverse ++ h) := by
  rcases handleGetOtaResult_cases hstep with ⟨rfl, hq⟩ | ⟨-, -, s₁, m, -, rfl⟩ |
    ⟨⟨m, hlog⟩, ⟨-, hout, hver⟩ | ⟨huser, -⟩⟩
  · exact hv.of_same rfl (fun _ _ => rfl) hq.not_imageVerified
  · exact .of_not_pending rfl
  · -- a new verdict
    obtain ⟨-, -, hsize, hcrc⟩ := Verdict.mk.inj hlog.verdict
    intro _ _
    dsimp only
    rw [hsize, hcrc, hout]
    exact ⟨hver, rfl⟩
  · exact .of_user ((Verdict.mk.inj hlog.verdict).2.1 ▸ huser)

theorem VerdictHolds.imageApply (hv : VerdictHolds (s, h))
    (hstep : handleImageApply b s p = some (s', out)) : VerdictHolds (s', out.reverse ++ h) := by
  rcases handleImageApply_cases hstep with ⟨-, hlog, hout, -⟩ | ⟨-, hq, rfl⟩
  · exact hv.of_same hlog.verdict (fun _ _ => hlog.flash) hout
  · unfold exitOtaState
    split_ifs
    · exact .of_not_pending rfl
    · exact hv.of_same rfl (fun _ _ => rfl) hq.not_imageVerified

/-- A step keeps the invariant when it does not take the verdict to another image. -/
theorem VerdictHolds.step {e : Reads × Packet} (hv : VerdictHolds t)
    (hk : KeepsVerdict b t.1 e.1 e.2) (hstep : tracedStep b t e = some t') : VerdictHolds t' := by
  obtain ⟨⟨s', out⟩, hhandle, rfl⟩ := Option.map_eq_some_iff.1 hstep
  unfold KeepsVerdict at hk
  unfold handleReceivedData at hhandle
  cases htype : packetType e.2.type
  all_goals simp only [htype] at hk hhandle
  case data => exact hv.data hk hhandle
  case segmentVerify => exact hv.segmentVerify hk hhandle
  case start => exact hv.start hhandle
  case resumeVerify => exact hv.resumeVerify hk hhandle
  case configOta =>
    obtain ⟨hneutral, hflash, -⟩ := handleConfigOta_cases hk hhandle
    exact hv.of_same hneutral.verdict (fun _ _ => hflash) hneutral.quiet.not_imageVerified
  case getOtaResult => exact hv.getOtaResult hhandle
  case imageApply => exact hv.imageApply hhandle
  case setUser =>
    obtain ⟨rfl, rfl⟩ := Prod.mk.inj (Option.some.inj hhandle)
    intro hpend huser
    exact hv hpend (hk hpend huser)
  all_goals
    obtain ⟨rfl, rfl⟩ := Prod.mk.inj (Option.some.inj hhandle)
    refine hv.of_same rfl (fun _ _ => rfl) fun size crc hmem => ?_
    simp at hmem

/-- Only the firmware user stores boot information, and only while its image is pending. -/
theorem bootInfo_mem {size offset : Nat} {crc : UInt32}
    (hstep : handleReceivedData b r s p = some (s', out))
    (hboot : .bootInfo size crc offset ∈ out) :
    s.env.isPendingForReboot = true ∧ s.env.currentUser = userFirmware ∧
      size = s.env.totalImageSize ∧ crc = s.env.crc32OfImage := by
  suffices hq : ¬Quiet out → _ from hq fun hq => nomatch hq _ hboot
  intro hq
  unfold handleReceivedData at hstep
  cases htype : packetType p.type
  all_goals simp only [htype] at hstep
  case data =>
    rcases handleData_cases hstep with ⟨-, -, rfl⟩ | ⟨-, hneutral, -⟩
    · exact absurd (by decide) hq
    · exact absurd hneutral.quiet hq
  case segmentVerify =>
    rcases handleSegmentVerify_cases hstep with ⟨-, hq'⟩ | ⟨-, hneutral, -⟩
    · exact absurd hq' hq
    · exact absurd hneutral.quiet hq
  case start =>
    rcases handleStart_cases hstep with ⟨-, -, rfl⟩ | ⟨-, -, rfl⟩
    · exact absurd (by decide) hq
    · exact absurd (by decide) hq
  case resumeVerify => exact absurd (handleResumeVerify_cases hstep).1 hq
  case configOta => exact absurd (handleConfigOta_quiet hstep) hq
  case getOtaResult =>
    rcases handleGetOtaResult_cases hstep with ⟨-, hq'⟩ | ⟨-, hq', -⟩ | ⟨-, ⟨-, rfl, -⟩ | ⟨-, hq'⟩⟩
    · exact absurd hq' hq
    · exact absurd hq' hq
    · simp at hboot
    · exact absurd hq' hq
  case imageApply =>
    rcases handleImageApply_cases hstep with ⟨⟨-, hpend⟩, -, -, hinfo⟩ | ⟨-, hq', -⟩
    · exact ⟨hpend, hinfo size crc offset hboot⟩
    · exact absurd hq' hq
  all_goals
    obtain ⟨-, rfl⟩ := Prod.mk.inj (Option.some.inj hstep)
    simp at hboot

/-- The image that the firmware user applies is the one that has been verified, in every run whose
packets do not take a verdict from one image to another. -/
theorem applied_image_verified (hs : s.env.isPendingForReboot = false) {es : List (Reads × Packet)}
    (hes : Along (tracedStep b) (fun t e => KeepsVerdict b t.1 e.1 e.2) (s, []) es)
    (hrun : es.foldlM (tracedStep b) (s, []) = some t)
    (hstep : handleReceivedData b r t.1 p = some (s', out)) {size offset : Nat} {crc : UInt32}
    (hboot : .bootInfo size crc offset ∈ out) :
    Verified (t.1.mem.flash .ota) size crc ∧ lastVerified t.2 = some (size, crc) := by
  have hv : VerdictHolds t :=
    hes.preserves (fun _ _ _ hv hk => hv.step hk) hrun (.of_not_pending hs)
  obtain ⟨hpend, huser, rfl, rfl⟩ := bootInfo_mem hstep hboot
  exact hv hpend huser

/-! ### An image that passes the checks -/

section

variable {x : FlashModule} {m m' : Mem} {size : Nat} {crc : UInt32}

theorem exists_appFlashRead {offset len : Nat} (hle : offset + len ≤ b.length x) :
    ∃ m', appFlashRead b (some x) offset len m = some m' := by
  rw [appFlashRead, Option.bind_some, if_pos hle]
  exact ⟨_, rfl⟩

/-- A burnt sector holds the data. -/
theorem exists_burnSector (m : Mem) (ptr : Content) (hlen : sectorSize ≤ b.length x) :
    ∃ m', burnSector b (some x) 0 ptr sectorSize m = some m' ∧
      ∀ i < sectorSize, m'.flash x i = ptr i := by
  have herase : appFlashSectorErase b (some x) 0 m = some (m.apply x (.erase 0 sectorSize)) := by
    rw [appFlashSectorErase, Option.bind_some, if_pos ⟨Nat.zero_mod _, by omega⟩]
  have hprogram (m : Mem) : appFlashProgram b (some x) 0 ptr sectorSize m =
      some (m.apply x (.program 0 sectorSize ptr)) := by
    rw [appFlashProgram, Option.bind_some, if_pos (by omega)]
  refine ⟨(m.apply x (.erase 0 sectorSize)).apply x (.program 0 sectorSize ptr), ?_,
    fun i hi => ?_⟩
  · rw [burnSector, Nat.zero_mul, herase]
    exact hprogram _
  · have hr : NorMemory.InRange 0 sectorSize i := ⟨Nat.zero_le i, by omega⟩
    simp only [Mem.apply, Function.update_self, NorMemory.Op.apply_apply, NorMemory.Op.byteAt,
      if_pos hr, NorMemory.erased_and, Nat.sub_zero]

/-- The loop ends behind the last byte. -/
theorem crcLoop_of_le {mod : Option FlashModule} {start len fuel done : Nat} {readLen : Nat → Nat}
    {prepare : Nat → Content → Option Content} (hle : len ≤ done) :
    crcLoop b mod start len readLen prepare fuel done m crc = some (m, some crc) := by
  cases fuel with
  | zero => rfl
  | succ fuel => rw [crcLoop, if_neg (by omega)]

/-- A piece that is the whole image is all that the loop reads. -/
theorem crcLoop_once {mod : Option FlashModule} {len : Nat} (readLen : Nat → Nat)
    {prepare : Nat → Content → Option Content} {buf : Content} (hpos : 0 < len)
    (hlen : len ≤ sectorSize) (hm : appFlashRead b mod 0 (readLen len) m = some m')
    (hbuf : prepare 0 m'.dataBufferForBurning = some buf) :
    crcLoop b mod 0 len readLen prepare len 0 m crc =
      some ({ m' with dataBufferForBurning := buf },
        some (crc32C crc ((List.range len).map buf))) := by
  obtain ⟨fuel, rfl⟩ : ∃ fuel, len = fuel + 1 := ⟨len - 1, by omega⟩
  rw [crcLoop, if_pos hpos, Nat.sub_zero, min_eq_left hlen, Nat.zero_add]
  simp only [hm, Option.bind_some, Option.bind_eq_bind, hbuf]
  exact crcLoop_of_le (by omega)

/-- A verified image of at most one sector passes the check. -/
theorem exists_checkImageCrc (hpos : 0 < size) (hsize : size ≤ sectorSize)
    (hlen : sectorSize ≤ b.length x) (hver : Verified (m.flash x) size crc) :
    ∃ m', checkImageCrc b (some x) size crc m = some (m', true) := by
  have hle : 0 + sectorSize ≤ b.length x := by omega
  obtain ⟨m₁, hm₁⟩ := exists_appFlashRead (m := m) hle
  obtain ⟨m₂, hm₂⟩ := exists_appFlashRead (m := m₁) hle
  obtain ⟨hf₁, hb₁⟩ := appFlashRead_eq_some hm₁
  obtain ⟨-, hb₂⟩ := appFlashRead_eq_some hm₂
  rw [hf₁] at hb₂
  simp only [Nat.zero_add] at hb₁ hb₂
  have hboot {buf : Content} (hb : ∀ i < sectorSize, buf i = m.flash x i) :
      le buf 0 4 = normalBoot := by
    rw [← hver.1]
    exact le_congr fun i hi => hb i (hi.2.trans_le (by decide))
  have hprepare : prepareImage 0 m₂.dataBufferForBurning =
      some (hideStartWord m₂.dataBufferForBurning) := by
    rw [prepareImage, if_pos rfl, if_pos (hboot hb₂)]
  have himage : (List.range size).map (hideStartWord m₂.dataBufferForBurning) =
      (List.range size).map (hideStartWord (m.flash x)) := by
    refine List.map_congr_left fun i hi => ?_
    rw [hideStartWord, hideStartWord, hb₂ i ((List.mem_range.1 hi).trans_le hsize)]
  refine ⟨{ m₂ with dataBufferForBurning := hideStartWord m₂.dataBufferForBurning }, ?_⟩
  rw [checkImageCrc, hm₁]
  simp only [Option.bind_some, Option.bind_eq_bind, if_pos (hboot hb₁),
    crcLoop_once (fun _ => sectorSize) hpos hsize hm₂ hprepare, himage, hver.2,
    decide_true]

/-- An image whose tail has no key word is not checked by its tail. -/
theorem findKeyWord_of_not_mem {target : Content} {n : Nat} (h : ∀ i < n, target i ≠ 0x43) :
    findKeyWord target n sanityCrcKeyWord = none := by
  unfold findKeyWord
  split_ifs
  · refine List.find?_eq_none.2 fun i hi heq => h i (List.mem_range.1 hi) ?_
    exact (List.cons.inj (eq_of_beq heq)).1
  · rfl

/-- The start word is written, and the image stays verified. -/
theorem exists_updateMagicNumber (hsize : size ≤ sectorSize) (hlen : sectorSize ≤ b.length x)
    (hver : Verified (m.flash x) size crc) :
    ∃ m', updateMagicNumberOfAppImage b (some x) normalBoot m = some m' ∧
      Verified (m'.flash x) size crc := by
  obtain ⟨m₁, hm₁⟩ := exists_appFlashRead (b := b) (x := x) (m := m)
    (show 0 + sectorSize ≤ b.length x by omega)
  obtain ⟨hf, hb⟩ := appFlashRead_eq_some hm₁
  obtain ⟨m₂, hm₂, hptr⟩ := exists_burnSector
    { m₁ with
      dataBufferForBurning := NorMemory.overlay 0 4 (leByte normalBoot) m₁.dataBufferForBurning }
    (NorMemory.overlay 0 4 (leByte normalBoot) m₁.dataBufferForBurning) hlen
  refine ⟨m₂, ?_, ?_, ?_⟩
  · rw [updateMagicNumberOfAppImage, hm₁]
    exact hm₂
  · refine (le_leByte (v := normalBoot) (k := 0) fun i hi => ?_).trans (by decide)
    rw [hptr _ (by unfold sectorSize; omega), NorMemory.overlay_of_inRange ⟨by omega, by omega⟩]
    congr 1
  · rw [← hver.2]
    congr 1
    refine List.map_congr_left fun i hi => ?_
    have hi := (List.mem_range.1 hi).trans_le hsize
    unfold hideStartWord
    split_ifs with hstart
    · rfl
    · rw [hptr i hi, NorMemory.overlay_of_not_inRange fun hr => hstart (by simpa using hr.2),
        hb i hi,
        Nat.zero_add]

/-- A verified firmware image without the key word passes the checks. -/
theorem exists_checkFirmware (huser : s.env.currentUser = userFirmware)
    (htail : lenOfImageTail ≤ s.env.totalImageSize) (hsize : s.env.totalImageSize ≤ sectorSize)
    (hlen : sectorSize ≤ b.length .ota)
    (hkey : ∀ i < s.env.totalImageSize, s.mem.flash .ota i ≠ 0x43)
    (hver : Verified (s.mem.flash .ota) s.env.totalImageSize s.env.crc32OfImage) :
    ∃ m, checkFirmware b s = some (m, true) := by
  have hoff : sub32 s.env.totalImageSize lenOfImageTail =
      s.env.totalImageSize - lenOfImageTail := by
    unfold sub32 sectorSize at *
    omega
  obtain ⟨m₁, hm₁⟩ := exists_appFlashRead (b := b) (x := .ota) (m := s.mem)
    (show sub32 s.env.totalImageSize lenOfImageTail + lenOfImageTail ≤ b.length .ota by omega)
  obtain ⟨hf, hb⟩ := appFlashRead_eq_some hm₁
  have hnone : findKeyWord m₁.dataBufferForBurning lenOfImageTail sanityCrcKeyWord = none :=
    findKeyWord_of_not_mem fun i hi => by
      rw [hb i hi, hoff]
      exact hkey _ (by omega)
  obtain ⟨m₂, hm₂, hver₂⟩ := exists_updateMagicNumber (m := m₁) hsize hlen (by rwa [hf])
  obtain ⟨m₃, hm₃⟩ :=
    exists_checkImageCrc (by unfold lenOfImageTail at htail; omega) hsize hlen hver₂
  refine ⟨m₃, ?_⟩
  rw [checkFirmware, module_firmware huser, checkImageDataSanityCrc, hm₁]
  simp only [Option.bind_some, Option.bind_eq_bind, hnone, if_true, hm₂, hm₃]

end

/-! ### Examples -/

/-- An image of 512 bytes in an erased module. -/
def smallImage : Content := fun i =>
  if i < 4 then leByte normalBoot i else if i < 512 then 0 else 0xFF

def smallImageCrc : UInt32 := crc32C 0 ((List.range 512).map (hideStartWord smallImage))

/-- The image has been received, and its verification is next. -/
def receivedImage : OtaState :=
  let s := OtaState.initial fun x => if x = .ota then smallImage else fun _ => 0xFF
  { s with env := { s.env with
      totalImageSize := 512
      crc32OfImage := smallImageCrc
      alreadyReceivedDataSizeOfImage := 512
      currentUser := userFirmware } }

/-- The image has been verified. -/
def pendingImage (m : Mem) : OtaState :=
  { receivedImage with
    mem := m.apply .upgradeLog (.erase 0 sectorSize)
    env := { receivedImage.env with isPendingForReboot := true, resumeAtBreakpoint := false } }

def getOtaResult : Packet := .ofBytes 0x88 []

def imageApply : Packet := .ofBytes 0x92 [0x42, 0x45, 0x53, 0x54]

theorem smallImage_ne (i : Nat) : smallImage i ≠ 0x43 := by
  have hstart : ∀ i < 4, leByte normalBoot i ≠ 0x43 := by decide
  unfold smallImage
  split_ifs with h
  · exact hstart i h
  · decide
  · decide

/-- The image passes its verification and is applied. -/
theorem run_receivedImage :
    ∃ t, [(Reads.empty, getOtaResult)].foldlM (tracedStep .small) (receivedImage, []) = some t ∧
      ∃ s' out, handleReceivedData .small .empty t.1 imageApply = some (s', out) ∧
        .bootInfo 512 smallImageCrc 0 ∈ out := by
  have hver : Verified (receivedImage.mem.flash .ota) 512 smallImageCrc := ⟨by decide, rfl⟩
  obtain ⟨m, hm⟩ := exists_checkFirmware (b := .small) (s := receivedImage) rfl (by decide)
    (by decide) (by decide) (fun i _ => smallImage_ne i) hver
  have hget : handleReceivedData .small .empty receivedImage getOtaResult =
      (checkFirmware .small receivedImage).bind fun u =>
        dataCheckImageCrcHandler .small { receivedImage with mem := u.1 } u.2 := by
    change handleGetOtaResult .small receivedImage = _
    have hrest : burnRest .small receivedImage = some receivedImage := if_neg (by decide)
    rw [handleGetOtaResult, if_pos (by rfl), dataReceptionDone, hrest, Option.bind_eq_bind,
      Option.bind_some, if_pos (by rfl)]
    rfl
  rw [hm] at hget
  refine ⟨(pendingImage m, [.resultResponse 1, .imageVerified 512 smallImageCrc]), ?_, ?_⟩
  · rw [List.foldlM_cons, tracedStep, hget]
    rfl
  · exact ⟨_, _, rfl, List.mem_cons_of_mem _ List.mem_cons_self⟩

/-- The image that is applied in the example is the verified one. -/
theorem applied_image_verified_receivedImage :
    ∃ t, [(Reads.empty, getOtaResult)].foldlM (tracedStep .small) (receivedImage, []) = some t ∧
      Verified (t.1.mem.flash .ota) 512 smallImageCrc ∧
      lastVerified t.2 = some (512, smallImageCrc) := by
  obtain ⟨t, hrun, s', out, hstep, hboot⟩ := run_receivedImage
  have hes : Along (tracedStep .small) (fun t e => KeepsVerdict .small t.1 e.1 e.2)
      (receivedImage, []) [(Reads.empty, getOtaResult)] := ⟨trivial, fun _ _ => trivial⟩
  exact ⟨t, hrun, applied_image_verified rfl hes hrun hstep hboot⟩

/-- The language package of the user table is received, without data and with a wrong checksum; then
the firmware user applies. -/
def applyOtherUser : List (Reads × Packet) :=
  [(.empty, .ofBytes 0x97 [2]),
    (.empty, .ofBytes 0x80 [0x42, 0x45, 0x53, 0x54, 0, 0, 0, 0, 1, 0, 0, 0]),
    (.empty, getOtaResult), (.empty, .ofBytes 0x97 [1])]

/-- An image is applied that has never been checked. -/
theorem applies_unverified :
    ¬∀ (s s' : OtaState) (es : List (Reads × Packet)) (t : OtaState × List Output) (r : Reads)
      (p : Packet) (out : List Output) (size offset : Nat) (crc : UInt32),
      s = .initial (fun _ _ => 0xFF) →
      es.foldlM (tracedStep .small) (s, []) = some t →
      handleReceivedData .small r t.1 p = some (s', out) → .bootInfo size crc offset ∈ out →
      Verified (t.1.mem.flash .ota) size crc ∧ lastVerified t.2 = some (size, crc) := by
  intro hall
  have hrun : (applyOtherUser.foldlM (tracedStep .small) (.initial fun _ _ => 0xFF, [])).bind
      (fun t => (handleReceivedData .small .empty t.1 imageApply).map fun u =>
        decide (.bootInfo 0 1 0 ∈ u.2 ∧ le (t.1.mem.flash .ota) 0 4 ≠ normalBoot)) = some true := by
    decide +kernel
  obtain ⟨t, ht, hrun⟩ := Option.bind_eq_some_iff.1 hrun
  obtain ⟨⟨s', out⟩, hstep, hrun⟩ := Option.map_eq_some_iff.1 hrun
  obtain ⟨hboot, hword⟩ := of_decide_eq_true hrun
  exact hword (hall _ s' _ t .empty imageApply out 0 0 1 rfl ht hstep hboot).1.1

end EarbudFirmware.Ota
