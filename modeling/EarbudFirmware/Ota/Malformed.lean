import EarbudFirmware.Ota.ResultQuery
import EarbudFirmware.Ota.UpgradeLog

/-!
# Malformed packets

The handlers take the commands from the buffer of the packet without a look at its length, so a
packet that is too short is completed by the bytes behind it. The configuration is copied with the
length of the packet, whatever its buffer holds.

## Main definitions

* `sendingFlashContent` — `ota_control_sending_flash_content`
* `Inside` — nothing behind the buffers and the flash modules has been written
* `Rejected` — nothing has been started, configured, verified, resumed or applied
* `HarmlessPacket` — every packet stays inside, and a packet that is too short is rejected
* `Refused` — the bytes that stand for the command do not make the handler act
* `Reached` — the states of the service

## Main results

* `handleReceivedData_inside` — all handlers stay inside, with a configuration that fits
* `handleReceivedData_withOverrun` — and do not depend on what is behind it
* `harmlessPacket_iff` — the packets that are harmless
-/

namespace EarbudFirmware.Ota

open NorMemory (Content InRange Op overlay)

/-! ### Reading the flash -/

/-- The variables of a reading. -/
structure FlashRead where
  offsetInFlashToRead : Nat
  leftSizeOfFlashContentToRead : Nat

/-- `ota_control_sending_flash_content`, with `isReadingReqHandledSuccessfully`. The end of the
range is computed in 32 bits. -/
def sendingFlashContent (flashTotalSize : Nat) (f : FlashRead) (p : Packet) : FlashRead × Bool :=
  if p.payload 0 ≠ 0 then
    if flashTotalSize ≤ p.field 1 ∨ flashTotalSize < add32 (p.field 1) (p.field 5) then (f, false)
    else (⟨p.field 1, p.field 5⟩, true)
  else ({ f with leftSizeOfFlashContentToRead := 0 }, true)

/-! ### Specification -/

/-- The size of the command structure of a packet type, without the type itself. -/
def PacketType.structureSize : PacketType → Nat
  | .start => 12
  | .segmentVerify => 8
  | .resumeVerify => 44
  | .configOta => configurationSize
  | .readFlashContent => 9
  | .getVersion | .getOtaVersion | .imageApply => 4
  | .setUser => 1
  | .data | .getOtaResult | .sideSelection | .other => 0

/-- Nothing behind the data buffer and the flash modules has been written. -/
structure Within (b : Build) (m m' : Mem) : Prop where
  buffer : ∀ i, sectorSize ≤ i → m'.dataBufferForBurning i = m.dataBufferForBurning i
  flash : ∀ x i, b.length x ≤ i → m'.flash x i = m.flash x i

/-- Nothing behind the data buffer, the flash modules and the configuration has been written, the
next byte of an image has its place in the data buffer, and the packet stays in its own buffer. -/
structure Inside (b : Build) (s s' : OtaState) : Prop where
  mem : Within b s.mem s'.mem
  configuration : ∀ i, configurationSize ≤ i → s'.env.configuration i = s.env.configuration i
  position : s.env.offsetInDataBufferForBurning ≤ sectorSize →
    s'.env.offsetInDataBufferForBurning ≤ sectorSize
  request : s'.extractedOtaRequestBuf = s.extractedOtaRequestBuf

/-- The response tells that something has been started, configured, resumed or applied. A
resumption is refused with the breakpoint -1. -/
def Output.isAct : Output → Bool
  | .startResponse | .configurationResponse true | .setUserResponse | .imageApplyResponse true =>
    true
  | .resumeResponse breakPoint => breakPoint ≠ 0xFFFFFFFF
  | _ => false

/-- Nothing has been started, configured, verified, resumed or applied. A segment that is checked,
with whatever verdict, changes the state. -/
structure Rejected (flashTotalSize : Nat) (s : OtaState) (f : FlashRead) (p : Packet)
    (s' : OtaState) (out : List Output) : Prop where
  outputs : ∀ o ∈ out, o.isAct = false
  readFlash : packetType p.type = .readFlashContent →
    (sendingFlashContent flashTotalSize f p).2 = true →
    (sendingFlashContent flashTotalSize f p).1.leftSizeOfFlashContentToRead = 0
  verify : packetType p.type = .segmentVerify → s' = s

/-- The build with something else behind the configuration. -/
def Build.withOverrun (b : Build) (overrun : Env → Content → Nat → Env) : Build :=
  { b with overrun }

/-- The packet is handled inside the buffers, whatever is behind the configuration, and is rejected
if it is shorter than its command. -/
structure HarmlessPacket (b : Build) (flashTotalSize : Nat) (r : Reads) (s : OtaState)
    (f : FlashRead) (p : Packet) : Prop where
  noOverrun : ∀ overrun,
    handleReceivedData (b.withOverrun overrun) r s p = handleReceivedData b r s p
  inside : ∀ s' out, handleReceivedData b r s p = some (s', out) → Inside b s s'
  rejected : p.length < (packetType p.type).structureSize →
    ∃ s' out, handleReceivedData b r s p = some (s', out) ∧ Rejected flashTotalSize s f p s' out

/-- The configuration that a packet completes is accepted. -/
def AcceptsConfiguration (s : OtaState) (p : Packet) (maxImageSize : Nat) : Prop :=
  let configuration := overlay 0 p.length p.payload s.env.configuration
  add32 (le configuration 0 4) 4 ≤ p.length ∧
    le configuration 88 4 = (crc32C 0 ((List.range 88).map configuration)).toNat ∧
    s.env.totalImageSize ≤ maxImageSize ∧ s.env.breakPoint ≤ s.env.totalImageSize

/-- The bytes that stand for the command, received or not, do not make the handler act. -/
def Refused (b : Build) (flashTotalSize : Nat) (s : OtaState) (p : Packet) : Prop :=
  match packetType p.type with
  | .start => ¬p.HasMagicCode
  | .segmentVerify =>
    s.env.isInBesOtaState = false ∨ s.env.NoNewData ∨ s.env.OffsetError b
  | .resumeVerify => ¬(p.HasMagicCode ∧ p.ResumeCrcOk)
  | .configOta => ¬AcceptsConfiguration s p b.maxImageSize
  | .readFlashContent =>
    p.payload 0 = 0 ∨ flashTotalSize ≤ p.field 1 ∨
      flashTotalSize < add32 (p.field 1) (p.field 5) ∨ p.field 5 = 0
  | .imageApply => ¬(p.HasMagicCode ∧ s.env.isPendingForReboot = true)
  | .setUser => False
  | _ => True

/-- A configuration fits into its buffer. -/
def Packet.ConfigurationFits (p : Packet) : Prop :=
  packetType p.type = .configOta → p.length ≤ configurationSize

/-- The states of the service: behind packets whose configurations fit, resets, and changes of the
variables of the reception. -/
inductive Reached (b : Build) : OtaState → Prop where
  | initial (flash : FlashModule → Content) : Reached b (.initial flash)
  | packet {r : Reads} {s s' : OtaState} {p : Packet} {out : List Output} :
      Reached b s → p.ConfigurationFits → handleReceivedData b r s p = some (s', out) →
      Reached b s'
  | reset {s : OtaState} (resetUser : Bool) : Reached b s → Reached b (resetEnv b s resetUser)
  | exit {s : OtaState} : Reached b s → Reached b (exitOtaState b s)
  | reception {s s' : OtaState} : Reached b s →
      s'.env = { s.env with packetStructureType := s'.env.packetStructureType } →
      s'.mem = s.mem → Reached b s'

variable {b : Build} {x : FlashModule} {mod : Option FlashModule} {m m' m₁ m₂ : Mem}
variable {s s' s₁ s₂ : OtaState} {p : Packet} {r : Reads} {out : List Output}

/-! ### The flash functions stay inside -/

namespace Within

theorem refl (m : Mem) : Within b m m := ⟨fun _ _ => rfl, fun _ _ _ => rfl⟩

theorem trans (h : Within b m m₁) (h' : Within b m₁ m₂) : Within b m m₂ where
  buffer i hi := (h'.buffer i hi).trans (h.buffer i hi)
  flash x i hi := (h'.flash x i hi).trans (h.flash x i hi)

/-- Bytes are copied to the data buffer. -/
theorem copyToBuffer {k n : Nat} (hle : k + n ≤ sectorSize) (ptr : Content) :
    Within b m (m.copyToBuffer k n ptr) where
  buffer i hi := NorMemory.overlay_of_not_inRange (fun hin => by
    have := hin.2
    omega) _ _
  flash _ _ _ := rfl

/-- An operation on a range of a module. -/
theorem apply {a n : Nat} {op : Op} (hle : a + n ≤ b.length x)
    (hop : op = .erase a n ∨ ∃ d, op = .program a n d) : Within b m (m.apply x op) where
  buffer _ _ := rfl
  flash y i hi := by
    by_cases hxy : y = x
    · subst hxy
      rw [Mem.flash_apply_self]
      have hout : ¬InRange a n i := fun hin => by
        have := hin.2
        omega
      obtain rfl | ⟨d, rfl⟩ := hop
      · exact if_neg hout
      · exact if_neg hout
    · rw [Mem.flash_apply_of_ne hxy]

end Within

theorem appFlashRead_within {offset len : Nat} (hlen : len ≤ sectorSize)
    (h : appFlashRead b mod offset len m = some m') : Within b m m' := by
  obtain ⟨x, -, h⟩ := Option.bind_eq_some_iff.1 h
  split_ifs at h
  rw [← Option.some.inj h]
  exact .copyToBuffer (by omega) _

theorem appFlashSectorErase_within {offset : Nat}
    (h : appFlashSectorErase b mod offset m = some m') : Within b m m' := by
  obtain ⟨x, -, h⟩ := Option.bind_eq_some_iff.1 h
  split_ifs at h with hle
  rw [← Option.some.inj h]
  exact .apply hle.2 (.inl rfl)

theorem appFlashProgram_within {offset len : Nat} {ptr : Content}
    (h : appFlashProgram b mod offset ptr len m = some m') : Within b m m' := by
  obtain ⟨x, -, h⟩ := Option.bind_eq_some_iff.1 h
  split_ifs at h with hle
  rw [← Option.some.inj h]
  exact .apply hle (.inr ⟨ptr, rfl⟩)

theorem burnSector_within {i len : Nat} {ptr : Content}
    (h : burnSector b mod i ptr len m = some m') : Within b m m' := by
  obtain ⟨m₁, he, hp⟩ := Option.bind_eq_some_iff.1 h
  exact (appFlashSectorErase_within he).trans (appFlashProgram_within hp)

/-- A sequence of steps that stay inside. -/
theorem foldlM_within {β : Type} {f : Mem → β → Option Mem} {l : List β}
    (hf : ∀ m m' y, f m y = some m' → Within b m m') (h : l.foldlM f m = some m') :
    Within b m m' :=
  (Transition.along_of_forall (fun _ _ => trivial) m l).preserves
    (fun m₁ y m₂ hm _ hy => hm.trans (hf m₁ m₂ y hy)) h (.refl m)

theorem flushDataToFlash_within {n offset : Nat}
    (h : flushDataToFlash b mod n offset m = some m') : Within b m m' := by
  rw [flushDataToFlash_eq_foldlM] at h
  refine foldlM_within (fun m m' op hop => ?_) h
  cases op with
  | erase a => exact appFlashSectorErase_within hop
  | program a n d => exact appFlashProgram_within hop

theorem eraseSegment_within {addr len : Nat} (h : eraseSegment b mod addr len m = some m') :
    Within b m m' := by
  unfold eraseSegment at h
  dsimp only at h
  split_ifs at h
  exact foldlM_within (fun _ _ _ => appFlashSectorErase_within) h

/-- A buffer that keeps what is behind its end. -/
theorem Within.setBuffer {buf : Content}
    (hbuf : ∀ i, sectorSize ≤ i → buf i = m.dataBufferForBurning i) :
    Within b m { m with dataBufferForBurning := buf } :=
  ⟨hbuf, fun _ _ _ => rfl⟩

/-- The pieces of an image are read into the data buffer. -/
theorem crcLoop_within {start len fuel done : Nat} {readLen : Nat → Nat}
    {prepare : Nat → Content → Option Content} {crc : UInt32} {c : Option UInt32}
    (hread : ∀ n ≤ sectorSize, readLen n ≤ sectorSize)
    (hprepare : ∀ done buf buf', prepare done buf = some buf' →
      ∀ i, sectorSize ≤ i → buf' i = buf i)
    (h : crcLoop b mod start len readLen prepare fuel done m crc = some (m', c)) :
    Within b m m' := by
  induction fuel generalizing done m crc with
  | zero =>
    rw [← (Prod.mk.inj (Option.some.inj h)).1]
    exact .refl m
  | succ fuel ih =>
    unfold crcLoop at h
    split_ifs at h
    · obtain ⟨m₁, hm₁, h⟩ := Option.bind_eq_some_iff.1 h
      have hin : Within b m m₁ := appFlashRead_within (hread _ (min_le_right _ _)) hm₁
      cases hp : prepare done m₁.dataBufferForBurning with
      | none =>
        simp only [hp] at h
        rw [← (Prod.mk.inj (Option.some.inj h)).1]
        exact hin
      | some buf =>
        simp only [hp] at h
        exact (hin.trans (.setBuffer (hprepare _ _ _ hp))).trans (ih h)
    · rw [← (Prod.mk.inj (Option.some.inj h)).1]
      exact .refl m

/-- The pieces enter the checksum as they are. -/
theorem crcLoop_within_id {start len fuel done : Nat} {readLen : Nat → Nat} {crc : UInt32}
    {c : Option UInt32} (hread : ∀ n ≤ sectorSize, readLen n ≤ sectorSize)
    (h : crcLoop b mod start len readLen (fun _ => some) fuel done m crc = some (m', c)) :
    Within b m m' :=
  crcLoop_within hread (fun _ _ _ hbuf _ _ => Option.some.inj hbuf ▸ rfl) h

theorem calcuteSegmentCrc32_within {start len : Nat} {crc c : UInt32}
    (h : calcuteSegmentCrc32 b mod start len crc m = some (m', c)) : Within b m m' := by
  obtain ⟨u, hu, h⟩ := Option.map_eq_some_iff.1 h
  rw [← (Prod.mk.inj h).1]
  exact crcLoop_within_id (fun _ hn => hn) hu

theorem prepareImage_of_le {done : Nat} {buf buf' : Content}
    (h : prepareImage done buf = some buf') : ∀ i, sectorSize ≤ i → buf' i = buf i := by
  intro i hi
  have hword : ¬i < 4 := by
    unfold sectorSize at hi
    omega
  unfold prepareImage at h
  split_ifs at h
  · rw [← Option.some.inj h]
    exact if_neg hword
  · rw [← Option.some.inj h]

theorem checkImageCrc_within {size : Nat} {crc : UInt32} {ok : Bool}
    (h : checkImageCrc b mod size crc m = some (m', ok)) : Within b m m' := by
  obtain ⟨m₁, hm₁, h⟩ := Option.bind_eq_some_iff.1 h
  have hin : Within b m m₁ := appFlashRead_within (Nat.le_refl _) hm₁
  split_ifs at h
  · obtain ⟨⟨m₂, c⟩, hloop, h⟩ := Option.bind_eq_some_iff.1 h
    rw [← (Prod.mk.inj (Option.some.inj h)).1]
    exact hin.trans (crcLoop_within (fun _ _ => Nat.le_refl _) (fun _ _ _ => prepareImage_of_le)
      hloop)
  · rw [← (Prod.mk.inj (Option.some.inj h)).1]
    exact hin

theorem checkImageDataSanityCrc_within {size : Nat} {ok : Bool}
    (h : checkImageDataSanityCrc b mod size m = some (m', ok)) : Within b m m' := by
  obtain ⟨m₁, hm₁, h⟩ := Option.bind_eq_some_iff.1 h
  have hin : Within b m m₁ := appFlashRead_within (by decide) hm₁
  cases hkey : findKeyWord m₁.dataBufferForBurning lenOfImageTail sanityCrcKeyWord with
  | none =>
    simp only [hkey] at h
    rw [← (Prod.mk.inj (Option.some.inj h)).1]
    exact hin
  | some location =>
    simp only [hkey] at h
    obtain ⟨⟨m₂, c⟩, hloop, h⟩ := Option.bind_eq_some_iff.1 h
    rw [← (Prod.mk.inj (Option.some.inj h)).1]
    exact hin.trans (crcLoop_within_id (fun _ hn => hn) hloop)

theorem updateMagicNumberOfAppImage_within {magic : Nat}
    (h : updateMagicNumberOfAppImage b mod magic m = some m') : Within b m m' := by
  obtain ⟨m₁, hm₁, h⟩ := Option.bind_eq_some_iff.1 h
  have hin : Within b m m₁ := appFlashRead_within (Nat.le_refl _) hm₁
  exact (hin.trans (.copyToBuffer (k := 0) (n := 4) (by decide) _)).trans (burnSector_within h)

/-- The loop of the data packet copies up to the end of the data buffer. -/
theorem dataLoop_within {raw : Content} {n fuel left : Nat} {e e' : Env} {ok : Bool}
    (hpos : e.offsetInDataBufferForBurning ≤ sectorSize)
    (h : dataLoop b mod raw n fuel left e m = some (e', m', ok)) :
    Within b m m' ∧ e'.offsetInDataBufferForBurning ≤ sectorSize := by
  induction fuel generalizing left e m with
  | zero => cases h
  | succ fuel ih =>
    have hnow : e.offsetInDataBufferForBurning +
        bytesToCopy e.offsetInDataBufferForBurning left ≤ sectorSize := by
      unfold bytesToCopy
      split_ifs <;> omega
    unfold dataLoop at h
    dsimp only at h
    split_ifs at h
    · obtain ⟨rfl, hm⟩ := Prod.mk.inj (Option.some.inj h)
      rw [← (Prod.mk.inj hm).1]
      exact ⟨.copyToBuffer hnow _, hnow⟩
    · -- the buffer is programmed and is empty again
      obtain ⟨m₁, hm₁, h⟩ := Option.bind_eq_some_iff.1 h
      obtain ⟨hin, hpos'⟩ := ih (Nat.zero_le _) h
      exact ⟨((Within.copyToBuffer hnow _).trans (flushDataToFlash_within hm₁)).trans hin, hpos'⟩
    · obtain ⟨m₁, hm₁, h⟩ := Option.bind_eq_some_iff.1 h
      obtain ⟨rfl, hm⟩ := Prod.mk.inj (Option.some.inj h)
      rw [← (Prod.mk.inj hm).1]
      exact ⟨(Within.copyToBuffer hnow _).trans (flushDataToFlash_within hm₁), Nat.zero_le _⟩
    · obtain ⟨hin, hpos'⟩ := ih hnow h
      exact ⟨(Within.copyToBuffer hnow _).trans hin, hpos'⟩
    · obtain ⟨rfl, hm⟩ := Prod.mk.inj (Option.some.inj h)
      rw [← (Prod.mk.inj hm).1]
      exact ⟨.copyToBuffer hnow _, hnow⟩

/-! ### The handlers stay inside -/

namespace Inside

theorem refl (s : OtaState) : Inside b s s := ⟨.refl _, fun _ _ => rfl, fun h => h, rfl⟩

theorem trans (h : Inside b s s₁) (h' : Inside b s₁ s₂) : Inside b s s₂ where
  mem := h.mem.trans h'.mem
  configuration i hi := (h'.configuration i hi).trans (h.configuration i hi)
  position hpos := h'.position (h.position hpos)
  request := h'.request.trans h.request

/-- Variables that are neither the configuration nor the position in the data buffer. -/
theorem of_mem (hmem : Within b s.mem s'.mem)
    (hconf : s'.env.configuration = s.env.configuration)
    (hpos : s'.env.offsetInDataBufferForBurning = s.env.offsetInDataBufferForBurning)
    (hrequest : s'.extractedOtaRequestBuf = s.extractedOtaRequestBuf) : Inside b s s' where
  mem := hmem
  configuration i _ := congrFun hconf i
  position h := hpos ▸ h
  request := hrequest

end Inside

theorem resetEnv_inside (s : OtaState) (resetUser : Bool) :
    Inside b s (resetEnv b s resetUser) where
  mem := .refl _
  configuration i hi := by
    have hlow : ¬i < 4 ∧ ¬i = 8 := by
      unfold configurationSize at hi
      omega
    exact (if_neg hlow.1).trans (if_neg hlow.2)
  position _ := Nat.zero_le _
  request := rfl

theorem exitOtaState_inside (s : OtaState) : Inside b s (exitOtaState b s) := by
  unfold exitOtaState
  split_ifs
  · exact (resetEnv_inside s true).trans (.of_mem (.refl _) rfl rfl rfl)
  · exact .refl s

theorem upgradeLogDestroy_inside (h : upgradeLogDestroy b s = some s') : Inside b s s' := by
  obtain ⟨m, hm, h⟩ := Option.bind_eq_some_iff.1 h
  rw [← Option.some.inj h]
  exact .of_mem (appFlashSectorErase_within hm) rfl rfl rfl

theorem upgradeSizeLog_inside (h : upgradeSizeLog b s = some s') : Inside b s s' := by
  unfold upgradeSizeLog at h
  dsimp only at h
  split_ifs at h
  · -- the head is saved in the data buffer
    obtain ⟨m₁, h₁, h⟩ := Option.bind_eq_some_iff.1 h
    obtain ⟨m₂, h₂, h⟩ := Option.bind_eq_some_iff.1 h
    obtain ⟨m₃, h₃, h⟩ := Option.bind_eq_some_iff.1 h
    have hread : Within b s.mem m₁ := appFlashRead_within (by decide) h₁
    rw [← Option.some.inj h]
    exact .of_mem ((hread.trans (burnSector_within h₂)).trans (appFlashProgram_within h₃)) rfl rfl
      rfl
  · obtain ⟨m₁, h₁, h⟩ := Option.bind_eq_some_iff.1 h
    rw [← Option.some.inj h]
    exact .of_mem (appFlashProgram_within h₁) rfl rfl rfl

theorem updateStartMessage_inside {log : Content} (h : updateStartMessage b log s = some s') :
    Inside b s s' := by
  unfold updateStartMessage at h
  split_ifs at h
  · obtain ⟨m₁, h₁, h⟩ := Option.bind_eq_some_iff.1 h
    obtain ⟨m₂, h₂, h⟩ := Option.bind_eq_some_iff.1 h
    rw [← Option.some.inj h]
    exact .of_mem ((appFlashProgram_within h₁).trans (appFlashProgram_within h₂)) rfl rfl rfl
  · exact Option.some.inj h ▸ .refl s

theorem setRandomCode_inside (code : Content) : Inside b s (s.setRandomCode code) :=
  .of_mem (.copyToBuffer (k := 0) (n := 32) (by decide) code) rfl rfl rfl

theorem readBreakPoint_inside (h : readBreakPoint b r s = some s') : Inside b s s' := by
  unfold readBreakPoint at h
  dsimp only at h
  split_ifs at h
  · obtain ⟨s₁, hs₁, h⟩ := Option.bind_eq_some_iff.1 h
    have hin := upgradeLogDestroy_inside hs₁
    rw [← Option.some.inj h]
    exact ⟨hin.mem, hin.configuration, hin.position, hin.request⟩
  · rw [← Option.some.inj h]
    exact .of_mem (.refl _) rfl rfl rfl

theorem randomCodeLog_inside {code : Content} (h : randomCodeLog b code s = some s') :
    Inside b s s' := by
  obtain ⟨m, hm, h⟩ := Option.bind_eq_some_iff.1 h
  rw [← Option.some.inj h]
  exact .of_mem (burnSector_within hm) rfl rfl rfl

theorem newTransmission_inside (h : newTransmission b r s = some s') : Inside b s s' := by
  unfold newTransmission at h
  dsimp only at h
  split_ifs at h
  · have hin := (setRandomCode_inside r.randomCode).trans (randomCodeLog_inside h)
    exact ⟨hin.mem, hin.configuration, hin.position, hin.request⟩
  · exact (setRandomCode_inside r.randomCode).trans (randomCodeLog_inside h)

/-- The data packet. -/
theorem handleData_inside (hpos : s.env.offsetInDataBufferForBurning ≤ sectorSize)
    (h : handleData b s p = some (s', out)) : Inside b s s' := by
  unfold handleData at h
  split_ifs at h
  · obtain ⟨⟨e, m, ok⟩, hloop, h⟩ := Option.bind_eq_some_iff.1 h
    obtain ⟨hin, hpos'⟩ := dataLoop_within hpos hloop
    obtain ⟨_, _, rfl⟩ := dataLoop_frame hloop
    cases ok with
    | true =>
      dsimp only at h
      simp only [if_true] at h
      split_ifs at h
      all_goals
        obtain ⟨rfl, -⟩ := Prod.mk.inj (Option.some.inj h)
        exact ⟨hin, fun _ _ => rfl, fun _ => hpos', rfl⟩
    | false =>
      obtain ⟨rfl, -⟩ := Prod.mk.inj (Option.some.inj h)
      exact ⟨hin, fun _ _ => rfl, fun _ => hpos', rfl⟩
  · obtain ⟨rfl, -⟩ := Prod.mk.inj (Option.some.inj h)
    exact .refl s

theorem burnRest_inside (h : burnRest b s = some s') : Inside b s s' := by
  unfold burnRest at h
  split_ifs at h
  · obtain ⟨m, hm, h⟩ := Option.bind_eq_some_iff.1 h
    rw [← Option.some.inj h]
    exact .of_mem (flushDataToFlash_within hm) rfl rfl rfl
  · exact Option.some.inj h ▸ .refl s

theorem flushRest_inside (h : flushRest b s = some s') : Inside b s s' := by
  obtain ⟨s₁, hs₁, h⟩ := Option.bind_eq_some_iff.1 h
  have hin := burnRest_inside hs₁
  rw [← Option.some.inj h]
  exact ⟨hin.mem, hin.configuration, fun _ => Nat.zero_le _, hin.request⟩

theorem segmentFailed_inside {start len : Nat} (h : segmentFailed b s start len = some (s', out)) :
    Inside b s s' := by
  unfold segmentFailed at h
  split_ifs at h
  · obtain ⟨s₁, hs₁, h⟩ := Option.bind_eq_some_iff.1 h
    obtain ⟨rfl, -⟩ := Prod.mk.inj (Option.some.inj h)
    have hin := upgradeLogDestroy_inside hs₁
    exact ⟨hin.mem, hin.configuration, hin.position, hin.request⟩
  · obtain ⟨m, hm, h⟩ := Option.bind_eq_some_iff.1 h
    obtain ⟨rfl, -⟩ := Prod.mk.inj (Option.some.inj h)
    exact .of_mem (eraseSegment_within hm) rfl rfl rfl

theorem handleSegmentVerify_inside (h : handleSegmentVerify b s p = some (s', out)) :
    Inside b s s' := by
  unfold handleSegmentVerify at h
  split_ifs at h
  · obtain ⟨rfl, -⟩ := Prod.mk.inj (Option.some.inj h)
    exact .refl s
  · obtain ⟨rfl, -⟩ := Prod.mk.inj (Option.some.inj h)
    exact .refl s
  · obtain ⟨rfl, -⟩ := Prod.mk.inj (Option.some.inj h)
    exact .refl s
  · obtain ⟨s₁, hs₁, h⟩ := Option.bind_eq_some_iff.1 h
    obtain ⟨⟨m, crc⟩, hm, h⟩ := Option.bind_eq_some_iff.1 h
    have hcrc : Inside b s₁ { s₁ with mem := m, env := { s₁.env with crc32OfSegment := crc } } :=
      .of_mem (calcuteSegmentCrc32_within hm) rfl rfl rfl
    have hin := (flushRest_inside hs₁).trans hcrc
    dsimp only at h
    split_ifs at h
    · obtain ⟨s₂, hs₂, h⟩ := Option.bind_eq_some_iff.1 h
      obtain ⟨rfl, -⟩ := Prod.mk.inj (Option.some.inj h)
      exact (hin.trans (upgradeSizeLog_inside hs₂)).trans (.of_mem (.refl _) rfl rfl rfl)
    · exact hin.trans (segmentFailed_inside h)
  · obtain ⟨rfl, -⟩ := Prod.mk.inj (Option.some.inj h)
    exact .refl s

theorem handleStart_inside (h : handleStart b r s p = some (s', out)) : Inside b s s' := by
  unfold handleStart at h
  split_ifs at h
  · obtain ⟨s₁, hs₁, h⟩ := Option.bind_eq_some_iff.1 h
    obtain ⟨rfl, -⟩ := Prod.mk.inj (Option.some.inj h)
    have hstart : Inside b s (startTransmission b s p) :=
      (resetEnv_inside s false).trans (.of_mem (.refl _) rfl rfl rfl)
    exact hstart.trans (updateStartMessage_inside hs₁)
  · obtain ⟨rfl, -⟩ := Prod.mk.inj (Option.some.inj h)
    exact .refl s

theorem initFlashOffset_inside (s : OtaState) :
    Inside b s { s with env := initFlashOffset b s.env } := by
  unfold initFlashOffset
  dsimp only
  cases getUserFlashModule b s.env.user <;> exact .of_mem (.refl _) rfl rfl rfl

theorem handleResumeVerify_inside (h : handleResumeVerify b r s p = some (s', out)) :
    Inside b s s' := by
  refine (initFlashOffset_inside s).trans ?_
  unfold handleResumeVerify at h
  dsimp only at h
  split_ifs at h
  · obtain ⟨s₁, hs₁, h⟩ := Option.bind_eq_some_iff.1 h
    have hin := (setRandomCode_inside fun _ => 0).trans (readBreakPoint_inside hs₁)
    split_ifs at h
    · obtain ⟨rfl, -⟩ := Prod.mk.inj (Option.some.inj h)
      exact (hin.trans (resetEnv_inside s₁ false)).trans (.of_mem (.refl _) rfl rfl rfl)
    · obtain ⟨s₂, hs₂, h⟩ := Option.bind_eq_some_iff.1 h
      obtain ⟨rfl, -⟩ := Prod.mk.inj (Option.some.inj h)
      exact hin.trans (newTransmission_inside hs₂)
  · obtain ⟨rfl, -⟩ := Prod.mk.inj (Option.some.inj h)
    exact setRandomCode_inside fun _ => 0
  · obtain ⟨rfl, -⟩ := Prod.mk.inj (Option.some.inj h)
    exact .refl _

/-- A configuration that fits is copied into its buffer. -/
theorem handleConfigOta_inside (hlen : p.length ≤ configurationSize)
    (h : handleConfigOta b s p = some (s', out)) : Inside b s s' := by
  have hcopy : ∀ i, configurationSize ≤ i →
      overlay 0 p.length p.payload s.env.configuration i = s.env.configuration i := by
    intro i hi
    exact NorMemory.overlay_of_not_inRange (fun hin => by
      have := hin.2
      omega) _ _
  unfold handleConfigOta at h
  simp only [copyConfiguration, if_pos hlen] at h
  split_ifs at h
  · obtain ⟨rfl, -⟩ := Prod.mk.inj (Option.some.inj h)
    exact ⟨.refl _, hcopy, fun hpos => hpos, rfl⟩
  · obtain ⟨s₁, hs₁, h⟩ := Option.bind_eq_some_iff.1 h
    obtain ⟨rfl, -⟩ := Prod.mk.inj (Option.some.inj h)
    have hin := upgradeLogDestroy_inside hs₁
    exact ⟨hin.mem, fun i hi => (hin.configuration i hi).trans (hcopy i hi), hin.position,
      hin.request⟩
  · obtain ⟨rfl, -⟩ := Prod.mk.inj (Option.some.inj h)
    unfold Env.resume
    split_ifs
    · exact ⟨.refl _, hcopy, fun hpos => hpos, rfl⟩
    · exact ⟨.refl _, hcopy, fun hpos => hpos, rfl⟩
  · obtain ⟨rfl, -⟩ := Prod.mk.inj (Option.some.inj h)
    exact ⟨.refl _, hcopy, fun hpos => hpos, rfl⟩
  · obtain ⟨rfl, -⟩ := Prod.mk.inj (Option.some.inj h)
    exact ⟨.refl _, hcopy, fun hpos => hpos, rfl⟩

theorem checkFirmware_within {m : Mem} {ok : Bool} (h : checkFirmware b s = some (m, ok)) :
    Within b s.mem m := by
  obtain ⟨⟨m₁, ok₁⟩, hm₁, h⟩ := Option.bind_eq_some_iff.1 h
  have hin : Within b s.mem m₁ := checkImageDataSanityCrc_within hm₁
  cases ok₁ with
  | true =>
    obtain ⟨m₂, hm₂, h⟩ := Option.bind_eq_some_iff.1 h
    exact (hin.trans (updateMagicNumberOfAppImage_within hm₂)).trans (checkImageCrc_within h)
  | false =>
    rw [← (Prod.mk.inj (Option.some.inj h)).1]
    exact hin

theorem dataCheckImageCrcHandler_inside {ok : Bool}
    (h : dataCheckImageCrcHandler b s ok = some (s', out)) : Inside b s s' := by
  unfold dataCheckImageCrcHandler at h
  split_ifs at h
  · obtain ⟨s₁, hs₁, h⟩ := Option.bind_eq_some_iff.1 h
    obtain ⟨rfl, -⟩ := Prod.mk.inj (Option.some.inj h)
    have hin := upgradeLogDestroy_inside hs₁
    exact ⟨hin.mem, hin.configuration, hin.position, hin.request⟩
  · obtain ⟨s₁, hs₁, h⟩ := Option.bind_eq_some_iff.1 h
    obtain ⟨rfl, -⟩ := Prod.mk.inj (Option.some.inj h)
    exact ((exitOtaState_inside s).trans (upgradeLogDestroy_inside hs₁)).trans
      (resetEnv_inside s₁ true)

theorem languageCheck_inside (h : languageCheck b s = some (s', out)) : Inside b s s' := by
  obtain ⟨⟨m, crc⟩, hm, h⟩ := Option.bind_eq_some_iff.1 h
  obtain ⟨rfl, -⟩ := Prod.mk.inj (Option.some.inj h)
  exact .of_mem (crcLoop_within_id (fun _ _ => Nat.le_refl _) hm) rfl rfl rfl

theorem handleGetOtaResult_inside (h : handleGetOtaResult b s = some (s', out)) :
    Inside b s s' := by
  unfold handleGetOtaResult dataReceptionDone at h
  split_ifs at h
  · obtain ⟨s₁, hs₁, h⟩ := Option.bind_eq_some_iff.1 h
    have hin := burnRest_inside hs₁
    dsimp only at h
    split_ifs at h
    · obtain ⟨⟨m, ok⟩, hm, h⟩ := Option.bind_eq_some_iff.1 h
      have hcheck : Inside b s₁ { s₁ with mem := m } :=
        .of_mem (checkFirmware_within hm) rfl rfl rfl
      exact (hin.trans hcheck).trans (dataCheckImageCrcHandler_inside h)
    · have hlang := languageCheck_inside h
      exact hin.trans ⟨hlang.mem, hlang.configuration, hlang.position, hlang.request⟩
    · obtain ⟨rfl, -⟩ := Prod.mk.inj (Option.some.inj h)
      exact hin.trans (.of_mem (.refl _) rfl rfl rfl)
  · obtain ⟨rfl, -⟩ := Prod.mk.inj (Option.some.inj h)
    exact .refl s

theorem otaApply_inside (h : otaApply b s = some (s', out)) : Inside b s s' := by
  unfold otaApply at h
  split_ifs at h
  · obtain ⟨⟨s₁, out₁⟩, hs₁, h⟩ := Option.bind_eq_some_iff.1 h
    obtain ⟨m, hm, hs₁⟩ := Option.bind_eq_some_iff.1 hs₁
    obtain ⟨rfl, -⟩ := Prod.mk.inj (Option.some.inj hs₁)
    obtain ⟨rfl, -⟩ := Prod.mk.inj (Option.some.inj h)
    exact .of_mem (burnSector_within hm) rfl rfl rfl
  · obtain ⟨rfl, -⟩ := Prod.mk.inj (Option.some.inj h)
    exact .refl s
  · obtain ⟨rfl, -⟩ := Prod.mk.inj (Option.some.inj h)
    exact .refl s

theorem handleImageApply_inside (h : handleImageApply b s p = some (s', out)) :
    Inside b s s' := by
  unfold handleImageApply at h
  split_ifs at h
  · obtain ⟨⟨s₁, out₁⟩, hs₁, h⟩ := Option.bind_eq_some_iff.1 h
    obtain ⟨rfl, -⟩ := Prod.mk.inj (Option.some.inj h)
    have hin := otaApply_inside hs₁
    exact ⟨hin.mem, hin.configuration, hin.position, hin.request⟩
  · obtain ⟨rfl, -⟩ := Prod.mk.inj (Option.some.inj h)
    have hin := exitOtaState_inside (b := b)
      { s with env := { s.env with permissionToApply := false } }
    exact ⟨hin.mem, hin.configuration, hin.position, hin.request⟩

/-- Every packet with a configuration that fits is handled inside the buffers. -/
theorem handleReceivedData_inside (hpos : s.env.offsetInDataBufferForBurning ≤ sectorSize)
    (hfits : p.ConfigurationFits) (h : handleReceivedData b r s p = some (s', out)) :
    Inside b s s' := by
  unfold handleReceivedData at h
  cases htype : packetType p.type
  all_goals simp only [htype] at h
  case data => exact handleData_inside hpos h
  case segmentVerify => exact handleSegmentVerify_inside h
  case start => exact handleStart_inside h
  case resumeVerify => exact handleResumeVerify_inside h
  case configOta => exact handleConfigOta_inside (hfits htype) h
  case getOtaResult => exact handleGetOtaResult_inside h
  case imageApply => exact handleImageApply_inside h
  all_goals
    obtain ⟨rfl, -⟩ := Prod.mk.inj (Option.some.inj h)
    exact .of_mem (.refl _) rfl rfl rfl

/-- In every state of the service the next byte of an image has its place in the data buffer. -/
theorem Reached.position (h : Reached b s) : s.env.offsetInDataBufferForBurning ≤ sectorSize := by
  induction h with
  | initial flash => exact Nat.zero_le _
  | packet _ hfits hp ih => exact (handleReceivedData_inside ih hfits hp).position ih
  | reset resetUser _ ih => exact (resetEnv_inside (b := b) _ resetUser).position ih
  | exit _ ih => exact (exitOtaState_inside (b := b) _).position ih
  | reception _ henv _ ih => rw [henv]; exact ih

/-! ### What is behind the configuration -/

section

variable (b) (overrun : Env → Content → Nat → Env)

theorem crcLoop_withOverrun (start len : Nat) (readLen : Nat → Nat)
    (prepare : Nat → Content → Option Content) (fuel done : Nat) (m : Mem) (crc : UInt32) :
    crcLoop (b.withOverrun overrun) mod start len readLen prepare fuel done m crc =
      crcLoop b mod start len readLen prepare fuel done m crc := by
  have hread : ∀ offset n m,
      appFlashRead (b.withOverrun overrun) mod offset n m = appFlashRead b mod offset n m :=
    fun _ _ _ => rfl
  induction fuel generalizing done m crc with
  | zero => rfl
  | succ fuel ih => simp only [crcLoop, hread, ih]

theorem dataLoop_withOverrun (raw : Content) (n fuel left : Nat) (e : Env) (m : Mem) :
    dataLoop (b.withOverrun overrun) mod raw n fuel left e m =
      dataLoop b mod raw n fuel left e m := by
  have hflush : ∀ n offset m,
      flushDataToFlash (b.withOverrun overrun) mod n offset m = flushDataToFlash b mod n offset m :=
    fun _ _ _ => rfl
  induction fuel generalizing left e m with
  | zero => rfl
  | succ fuel ih =>
    simp only [dataLoop, hflush, ih]
    rfl

theorem handleData_withOverrun (s : OtaState) (p : Packet) :
    handleData (b.withOverrun overrun) s p = handleData b s p := by
  unfold handleData
  rw [dataLoop_withOverrun]
  rfl

theorem handleSegmentVerify_withOverrun (s : OtaState) (p : Packet) :
    handleSegmentVerify (b.withOverrun overrun) s p = handleSegmentVerify b s p := by
  have hcrc : ∀ mod start len crc m,
      calcuteSegmentCrc32 (b.withOverrun overrun) mod start len crc m =
        calcuteSegmentCrc32 b mod start len crc m := by
    intro mod start len crc m
    unfold calcuteSegmentCrc32
    rw [crcLoop_withOverrun]
  have hflush : ∀ s, flushRest (b.withOverrun overrun) s = flushRest b s := fun _ => rfl
  have hlog : ∀ s, upgradeSizeLog (b.withOverrun overrun) s = upgradeSizeLog b s := fun _ => rfl
  have hfailed : ∀ s start len,
      segmentFailed (b.withOverrun overrun) s start len = segmentFailed b s start len :=
    fun _ _ _ => rfl
  have hmodule : ∀ s : OtaState, s.module (b.withOverrun overrun) = s.module b := fun _ => rfl
  have hoffset : ∀ e : Env, e.OffsetError (b.withOverrun overrun) = e.OffsetError b := fun _ => rfl
  simp only [handleSegmentVerify, hcrc, hflush, hlog, hfailed, hmodule, hoffset]

theorem checkFirmware_withOverrun (s : OtaState) :
    checkFirmware (b.withOverrun overrun) s = checkFirmware b s := by
  have hread : ∀ mod offset n m,
      appFlashRead (b.withOverrun overrun) mod offset n m = appFlashRead b mod offset n m :=
    fun _ _ _ _ => rfl
  have hmagic : ∀ mod magic m, updateMagicNumberOfAppImage (b.withOverrun overrun) mod magic m =
      updateMagicNumberOfAppImage b mod magic m :=
    fun _ _ _ => rfl
  have hmodule : ∀ s : OtaState, s.module (b.withOverrun overrun) = s.module b := fun _ => rfl
  simp only [checkFirmware, checkImageDataSanityCrc, checkImageCrc, crcLoop_withOverrun, hread,
    hmagic, hmodule]

theorem handleGetOtaResult_withOverrun (s : OtaState) :
    handleGetOtaResult (b.withOverrun overrun) s = handleGetOtaResult b s := by
  have hburn : ∀ s, burnRest (b.withOverrun overrun) s = burnRest b s := fun _ => rfl
  have hverdict : ∀ s ok,
      dataCheckImageCrcHandler (b.withOverrun overrun) s ok = dataCheckImageCrcHandler b s ok :=
    fun _ _ => rfl
  have hmodule : ∀ s : OtaState, s.module (b.withOverrun overrun) = s.module b := fun _ => rfl
  have hprompt : (b.withOverrun overrun).promptInFlash = b.promptInFlash := rfl
  simp only [handleGetOtaResult, dataReceptionDone, languageCheck, crcLoop_withOverrun,
    checkFirmware_withOverrun, hburn, hverdict, hmodule, hprompt]

/-- A configuration that fits does not depend on what is behind its buffer. -/
theorem handleConfigOta_withOverrun (s : OtaState) (hlen : p.length ≤ configurationSize) :
    handleConfigOta (b.withOverrun overrun) s p = handleConfigOta b s p := by
  have hcopy : ∀ e, copyConfiguration (b.withOverrun overrun) e p = copyConfiguration b e p :=
    fun e => (if_pos hlen).trans (if_pos hlen).symm
  have hdestroy : ∀ s, upgradeLogDestroy (b.withOverrun overrun) s = upgradeLogDestroy b s :=
    fun _ => rfl
  have hmax : (b.withOverrun overrun).maxImageSize = b.maxImageSize := rfl
  simp only [handleConfigOta, hcopy, hdestroy, hmax]

theorem handleReceivedData_withOverrun (r : Reads) (s : OtaState) (hfits : p.ConfigurationFits) :
    handleReceivedData (b.withOverrun overrun) r s p = handleReceivedData b r s p := by
  unfold handleReceivedData
  cases htype : packetType p.type
  case data => exact handleData_withOverrun b overrun s p
  case segmentVerify => exact handleSegmentVerify_withOverrun b overrun s p
  case configOta => exact handleConfigOta_withOverrun b overrun s (hfits htype)
  case getOtaResult => exact handleGetOtaResult_withOverrun b overrun s
  all_goals rfl

/-- An overrun that replaces the permission to apply. -/
def overwritePermission (permissionToApply : Bool) (e : Env) (_ : Content) (_ : Nat) : Env :=
  { e with
    configuration := fun _ => 0
    alreadyReceivedConfigurationLength := 0
    permissionToApply }

/-- A configuration that does not fit depends on what is behind its buffer. -/
theorem configurationFits_of_withOverrun
    (h : ∀ overrun, handleReceivedData (b.withOverrun overrun) r s p = handleReceivedData b r s p) :
    p.ConfigurationFits := by
  intro htype
  by_contra hlong
  have hcopy : ∀ v, ∃ s', s'.env.permissionToApply = v ∧
      handleReceivedData (b.withOverrun (overwritePermission v)) r s p = some (s', []) := by
    intro v
    have hempty : ¬add32 (le (fun _ => 0) 0 4) 4 ≤ 0 := by decide
    unfold handleReceivedData
    simp only [htype, handleConfigOta, copyConfiguration, if_neg hlong]
    refine ⟨_, ?_, if_neg hempty⟩
    rfl
  obtain ⟨s₁, hs₁, h₁⟩ := hcopy true
  obtain ⟨s₂, hs₂, h₂⟩ := hcopy false
  have heq := (h₁.symm.trans (h _)).trans ((h _).symm.trans h₂)
  have hs := (Prod.mk.inj (Option.some.inj heq)).1
  rw [hs, hs₂] at hs₁
  cases hs₁

end

/-! ### Packets that are too short -/

theorem exists_rejected_of_outputs {n : Nat} {f : FlashRead}
    (hread : packetType p.type ≠ .readFlashContent) (hverify : packetType p.type ≠ .segmentVerify)
    (h : handleReceivedData b r s p = some (s', out)) (hout : ∀ o ∈ out, o.isAct = false) :
    ∃ s' out, handleReceivedData b r s p = some (s', out) ∧ Rejected n s f p s' out :=
  ⟨s', out, h, hout, fun htype => absurd htype hread, fun htype => absurd htype hverify⟩

theorem start_rejected_iff {n : Nat} {f : FlashRead} (htype : packetType p.type = .start) :
    (∃ s' out, handleReceivedData b r s p = some (s', out) ∧ Rejected n s f p s' out) ↔
      ¬p.HasMagicCode := by
  have hhandle : handleReceivedData b r s p = handleStart b r s p := by
    unfold handleReceivedData
    rw [htype]
  constructor
  · rintro ⟨s', out, h, hrej⟩
    rw [hhandle] at h
    rcases handleStart_cases h with ⟨hmagic, -⟩ | ⟨-, -, rfl⟩
    · exact hmagic
    · exact absurd (hrej.outputs _ (List.mem_singleton_self _)) (by decide)
  · intro hmagic
    refine exists_rejected_of_outputs (by simp [htype]) (by simp [htype])
      (hhandle.trans (if_neg hmagic)) ?_
    exact fun o ho => absurd ho List.not_mem_nil

/-- A segment that is checked changes the state, with whatever verdict. -/
theorem handleSegmentVerify_ne (hbes : s.env.isInBesOtaState = true) (hnew : ¬s.env.NoNewData)
    (hoffset : ¬s.env.OffsetError b) (h : handleSegmentVerify b s p = some (s', out)) : s' ≠ s := by
  unfold handleSegmentVerify at h
  rw [if_neg (by simpa using hbes), if_neg hnew, if_neg hoffset] at h
  obtain ⟨s₁, hs₁, h⟩ := Option.bind_eq_some_iff.1 h
  obtain ⟨s₂, hs₂, hs₁⟩ := Option.bind_eq_some_iff.1 hs₁
  obtain ⟨m₂, rfl⟩ := (burnRest_eq_some hs₂).1
  obtain rfl := Option.some.inj hs₁
  obtain ⟨⟨m, crc⟩, -, h⟩ := Option.bind_eq_some_iff.1 h
  dsimp only at h
  rintro rfl
  split_ifs at h
  · -- the next segment starts where the data that has come ends
    obtain ⟨s₃, hs₃, h⟩ := Option.bind_eq_some_iff.1 h
    obtain ⟨_, _, _, _, -, rfl⟩ := upgradeSizeLog_logOnly hs₃
    have hs' := (Prod.mk.inj (Option.some.inj h)).1
    refine hnew ⟨?_, ?_⟩
    · rw [← hs']
    · rw [← hs']
  · unfold segmentFailed at h
    split_ifs at h with hretry
    · -- the number of retries is back at its start
      obtain ⟨s₃, hs₃, h⟩ := Option.bind_eq_some_iff.1 h
      obtain ⟨_, _, _, _, -, rfl⟩ := upgradeLogDestroy_logOnly hs₃
      have hs' := (Prod.mk.inj (Option.some.inj h)).1
      have hmax : s'.env.segVerifyRetry = maxSetVerifyRetry := by rw [← hs']
      have hlast : sub32 s'.env.segVerifyRetry 1 = 0 := hretry
      rw [hmax] at hlast
      exact absurd hlast (by decide)
    · obtain ⟨m₃, -, h⟩ := Option.bind_eq_some_iff.1 h
      have hs' := (Prod.mk.inj (Option.some.inj h)).1
      refine hnew ⟨?_, ?_⟩
      · rw [← hs']
      · rw [← hs']

theorem segmentVerify_rejected_iff {n : Nat} {f : FlashRead}
    (htype : packetType p.type = .segmentVerify) :
    (∃ s' out, handleReceivedData b r s p = some (s', out) ∧ Rejected n s f p s' out) ↔
      s.env.isInBesOtaState = false ∨ s.env.NoNewData ∨ s.env.OffsetError b := by
  have hhandle : handleReceivedData b r s p = handleSegmentVerify b s p := by
    unfold handleReceivedData
    rw [htype]
  constructor
  · rintro ⟨s', out, h, hrej⟩
    by_contra hcheck
    rw [not_or, not_or, Bool.not_eq_false] at hcheck
    rw [hhandle] at h
    exact handleSegmentVerify_ne hcheck.1 hcheck.2.1 hcheck.2.2 h (hrej.verify htype)
  · intro hcheck
    have hread : packetType p.type = .readFlashContent →
        (sendingFlashContent n f p).2 = true →
        (sendingFlashContent n f p).1.leftSizeOfFlashContentToRead = 0 := by
      intro h
      rw [htype] at h
      cases h
    rw [hhandle]
    unfold handleSegmentVerify
    split_ifs with hbes hnew hmagic hoffset
    · exact ⟨s, [], rfl, fun o ho => absurd ho List.not_mem_nil, hread, fun _ => rfl⟩
    · exact ⟨s, _, rfl, List.forall_mem_singleton.2 rfl, hread, fun _ => rfl⟩
    · exact ⟨s, _, rfl, List.forall_mem_singleton.2 rfl, hread, fun _ => rfl⟩
    · rcases hcheck with hcheck | hcheck | hcheck
      · exact absurd hcheck (by simpa using hbes)
      · exact absurd hcheck hnew
      · exact absurd hcheck hoffset
    · exact ⟨s, [], rfl, fun o ho => absurd ho List.not_mem_nil, hread, fun _ => rfl⟩

/-- The breakpoint that a resumption is answered with is aligned. -/
theorem logBreakPoint_currentLog (hr : Erased r.logDestroyed) :
    logBreakPoint r.currentLog ≠ 0xFFFFFFFF := by
  unfold Reads.currentLog
  split_ifs with hmod
  · rw [hr.usedPrefix.logBreakPoint_eq, if_pos rfl]
    decide
  · intro hbreak
    rw [hbreak] at hmod
    exact hmod (by decide)

theorem resumeVerify_rejected_iff {n : Nat} {f : FlashRead} (hr : Erased r.logDestroyed)
    (htype : packetType p.type = .resumeVerify) :
    (∃ s' out, handleReceivedData b r s p = some (s', out) ∧ Rejected n s f p s' out) ↔
      ¬(p.HasMagicCode ∧ p.ResumeCrcOk) := by
  have hhandle : handleReceivedData b r s p = handleResumeVerify b r s p := by
    unfold handleReceivedData
    rw [htype]
  constructor
  · rintro ⟨s', out, h, hrej⟩ ⟨hmagic, hcrc⟩
    rw [hhandle] at h
    unfold handleResumeVerify at h
    dsimp only at h
    rw [if_pos hmagic, if_pos hcrc] at h
    obtain ⟨s₁, hs₁, h⟩ := Option.bind_eq_some_iff.1 h
    have hbreak := (readBreakPoint_eq_some hs₁).2
    split_ifs at h
    · obtain ⟨-, rfl⟩ := Prod.mk.inj (Option.some.inj h)
      have hrefused := hrej.outputs _ (List.mem_singleton_self _)
      rw [hbreak] at hrefused
      exact absurd (by simpa [Output.isAct] using hrefused) (logBreakPoint_currentLog hr)
    · obtain ⟨s₂, -, h⟩ := Option.bind_eq_some_iff.1 h
      obtain ⟨-, rfl⟩ := Prod.mk.inj (Option.some.inj h)
      exact absurd (hrej.outputs _ (List.mem_singleton_self _)) (by decide)
  · intro hrefused
    have hout : ∃ s' out, handleReceivedData b r s p = some (s', out) ∧
        ∀ o ∈ out, o.isAct = false := by
      rw [hhandle]
      unfold handleResumeVerify
      dsimp only
      split_ifs with hmagic hcrc
      · exact absurd ⟨hmagic, hcrc⟩ hrefused
      · exact ⟨_, _, rfl, List.forall_mem_singleton.2 (by decide)⟩
      · exact ⟨_, [], rfl, fun o ho => absurd ho List.not_mem_nil⟩
    obtain ⟨s', out, h, hout⟩ := hout
    exact exists_rejected_of_outputs (by simp [htype]) (by simp [htype]) h hout

theorem configOta_rejected_iff {n : Nat} {f : FlashRead} (hlen : p.length ≤ configurationSize)
    (hlog : sectorSize ≤ b.length .upgradeLog) (htype : packetType p.type = .configOta) :
    (∃ s' out, handleReceivedData b r s p = some (s', out) ∧ Rejected n s f p s' out) ↔
      ¬AcceptsConfiguration s p b.maxImageSize := by
  have hhandle : handleReceivedData b r s p = handleConfigOta b s p := by
    unfold handleReceivedData
    rw [htype]
  constructor
  · rintro ⟨s', out, h, hrej⟩ haccepts
    rw [hhandle] at h
    unfold handleConfigOta at h
    simp only [copyConfiguration, if_pos hlen] at h
    split_ifs at h with hdone hok hmax hbreak
    · exact absurd haccepts.2.2.1 (Nat.not_le.2 hmax)
    · exact absurd haccepts.2.2.2 (Nat.not_le.2 hbreak)
    · obtain ⟨-, rfl⟩ := Prod.mk.inj (Option.some.inj h)
      exact absurd (hrej.outputs _ (List.mem_singleton_self _)) (by decide)
    · exact hok haccepts.2.1
    · exact hdone haccepts.1
  · intro hrefused
    have hout : ∃ s' out, handleReceivedData b r s p = some (s', out) ∧
        ∀ o ∈ out, o.isAct = false := by
      rw [hhandle]
      unfold handleConfigOta
      simp only [copyConfiguration, if_pos hlen]
      split_ifs with hdone hok hmax hbreak
      · exact ⟨_, _, rfl, List.forall_mem_singleton.2 rfl⟩
      · rw [upgradeLogDestroy_of_le hlog]
        exact ⟨_, _, rfl, List.forall_mem_singleton.2 rfl⟩
      · exact absurd ⟨hdone, hok, Nat.not_lt.1 hmax, Nat.not_lt.1 hbreak⟩ hrefused
      · exact ⟨_, _, rfl, List.forall_mem_singleton.2 rfl⟩
      · exact ⟨_, [], rfl, fun o ho => absurd ho List.not_mem_nil⟩
    obtain ⟨s', out, h, hout⟩ := hout
    exact exists_rejected_of_outputs (by simp [htype]) (by simp [htype]) h hout

theorem sendingFlashContent_refused_iff {n : Nat} {f : FlashRead} :
    ((sendingFlashContent n f p).2 = true →
      (sendingFlashContent n f p).1.leftSizeOfFlashContentToRead = 0) ↔
      p.payload 0 = 0 ∨ n ≤ p.field 1 ∨ n < add32 (p.field 1) (p.field 5) ∨ p.field 5 = 0 := by
  unfold sendingFlashContent
  split_ifs with hstart hrange
  · refine ⟨fun _ => .inr ?_, fun _ h => h.elim⟩
    exact hrange.elim .inl fun h => .inr (.inl h)
  · rw [not_or] at hrange
    refine ⟨fun h => .inr (.inr (.inr (h rfl))), fun h _ => ?_⟩
    rcases h with h | h | h | h
    · exact absurd h hstart
    · exact absurd h hrange.1
    · exact absurd h hrange.2
    · exact h
  · exact ⟨fun _ => .inl (not_not.1 hstart), fun _ _ => rfl⟩

theorem readFlashContent_rejected_iff {n : Nat} {f : FlashRead}
    (htype : packetType p.type = .readFlashContent) :
    (∃ s' out, handleReceivedData b r s p = some (s', out) ∧ Rejected n s f p s' out) ↔
      p.payload 0 = 0 ∨ n ≤ p.field 1 ∨ n < add32 (p.field 1) (p.field 5) ∨ p.field 5 = 0 := by
  have hhandle : handleReceivedData b r s p = some (s, [.readFlashContentResponse]) := by
    unfold handleReceivedData
    rw [htype]
  rw [← sendingFlashContent_refused_iff (f := f)]
  constructor
  · rintro ⟨s', out, -, hrej⟩
    exact hrej.readFlash htype
  · intro hread
    exact ⟨s, _, hhandle, List.forall_mem_singleton.2 rfl, fun _ => hread, fun _ => rfl⟩

theorem imageApply_rejected_iff {n : Nat} {f : FlashRead}
    (htype : packetType p.type = .imageApply) :
    (∃ s' out, handleReceivedData b r s p = some (s', out) ∧ Rejected n s f p s' out) ↔
      ¬(p.HasMagicCode ∧ s.env.isPendingForReboot = true) := by
  have hhandle : handleReceivedData b r s p = handleImageApply b s p := by
    unfold handleReceivedData
    rw [htype]
  constructor
  · rintro ⟨s', out, h, hrej⟩ hpend
    rw [hhandle] at h
    unfold handleImageApply at h
    rw [if_pos hpend] at h
    obtain ⟨⟨s₁, out₁⟩, -, h⟩ := Option.bind_eq_some_iff.1 h
    obtain ⟨-, rfl⟩ := Prod.mk.inj (Option.some.inj h)
    exact absurd (hrej.outputs _ List.mem_cons_self) (by decide)
  · intro hrefused
    exact exists_rejected_of_outputs (by simp [htype]) (by simp [htype])
      (hhandle.trans (if_neg hrefused)) (List.forall_mem_singleton.2 rfl)

/-- A packet that is too short is rejected exactly if the bytes that stand for its command do not
make the handler act. -/
theorem rejected_iff {n : Nat} {f : FlashRead} (hr : Erased r.logDestroyed)
    (hlog : sectorSize ≤ b.length .upgradeLog)
    (hlen : p.length < (packetType p.type).structureSize) :
    (∃ s' out, handleReceivedData b r s p = some (s', out) ∧ Rejected n s f p s' out) ↔
      Refused b n s p := by
  unfold Refused
  cases htype : packetType p.type
  all_goals
    rw [htype] at hlen
    dsimp only
  case start => exact start_rejected_iff htype
  case segmentVerify => exact segmentVerify_rejected_iff htype
  case resumeVerify => exact resumeVerify_rejected_iff hr htype
  case configOta => exact configOta_rejected_iff (Nat.le_of_lt hlen) hlog htype
  case readFlashContent => exact readFlashContent_rejected_iff htype
  case imageApply => exact imageApply_rejected_iff htype
  case setUser =>
    refine ⟨?_, False.elim⟩
    rintro ⟨s', out, h, hrej⟩
    unfold handleReceivedData at h
    rw [htype] at h
    obtain ⟨-, rfl⟩ := Prod.mk.inj (Option.some.inj h)
    exact absurd (hrej.outputs _ (List.mem_singleton_self _)) (by decide)
  case getVersion =>
    refine iff_of_true ?_ trivial
    have hhandle : handleReceivedData b r s p =
        some (s, if p.HasMagicCode then [.versionResponse] else []) := by
      unfold handleReceivedData
      rw [htype]
    refine exists_rejected_of_outputs (by simp [htype]) (by simp [htype]) hhandle ?_
    split_ifs
    · exact List.forall_mem_singleton.2 rfl
    · exact fun o ho => absurd ho List.not_mem_nil
  case getOtaVersion =>
    refine iff_of_true ?_ trivial
    have hhandle : handleReceivedData b r s p = some (s, [.otaVersionResponse]) := by
      unfold handleReceivedData
      rw [htype]
    exact exists_rejected_of_outputs (by simp [htype]) (by simp [htype]) hhandle
      (List.forall_mem_singleton.2 rfl)
  all_goals exact absurd hlen (Nat.not_lt_zero _)

/-- In every state of the service, a packet is harmless exactly if it is not a configuration that is
longer than its buffer, and, if it is shorter than its command, the bytes behind it do not complete
it to a command that makes the handler act. -/
theorem harmlessPacket_iff (hs : Reached b s) (hr : Erased r.logDestroyed)
    (hlog : sectorSize ≤ b.length .upgradeLog) (n : Nat) (f : FlashRead) (p : Packet) :
    HarmlessPacket b n r s f p ↔
      p.ConfigurationFits ∧
        (p.length < (packetType p.type).structureSize → Refused b n s p) := by
  constructor
  · intro h
    exact ⟨configurationFits_of_withOverrun b h.noOverrun, fun hlen =>
      (rejected_iff hr hlog hlen).1 (h.rejected hlen)⟩
  · rintro ⟨hfits, hrefused⟩
    exact {
      noOverrun := fun overrun => handleReceivedData_withOverrun b overrun r s hfits
      inside := fun s' out h => handleReceivedData_inside hs.position hfits h
      rejected := fun hlen => (rejected_iff hr hlog hlen).2 (hrefused hlen) }

/-- A start command that ends within its magic code. -/
theorem harmlessPacket_cutMagic :
    HarmlessPacket .small 0 .empty (.initial fun _ _ => 0xFF) ⟨0, 0⟩
      (.ofBytes 0x80 [0x42, 0x45, 0x53]) :=
  (harmlessPacket_iff (.initial _) (fun _ _ => rfl) (by decide) 0 ⟨0, 0⟩ _).2
    ⟨fun htype => absurd htype (by decide), fun _ => (by decide : ¬Packet.HasMagicCode _)⟩

/-- A build with packets that are longer than a configuration. -/
def Build.longPackets : Build :=
  { Build.small with
    packetMaxSize := 512
    packetMaxSize_pos := by decide }

/-- A configuration with one byte more than its buffer. -/
def longConfiguration : Packet := ⟨0x86, fun _ => 0, 93⟩

/-- A start command of which only the type has come. The buffer holds an earlier one. -/
def typeOfStart : Packet := { Packet.ofBytes 0x80 [0x42, 0x45, 0x53, 0x54] with length := 0 }

/-- A configuration may be copied over what is behind its buffer, and a transmission may be started
by a packet of one byte. -/
theorem not_harmlessPacket :
    (longConfiguration.length < Build.longPackets.packetMaxSize ∧
      ¬HarmlessPacket .longPackets 0 .empty (.initial fun _ _ => 0xFF) ⟨0, 0⟩ longConfiguration) ∧
    typeOfStart.length < Build.longPackets.packetMaxSize ∧
      ¬HarmlessPacket .longPackets 0 .empty (.initial fun _ _ => 0xFF) ⟨0, 0⟩ typeOfStart := by
  refine ⟨⟨by decide, fun h => ?_⟩, by decide, fun h => ?_⟩
  · have hfits : longConfiguration.length ≤ configurationSize :=
      configurationFits_of_withOverrun _ h.noOverrun rfl
    exact absurd hfits (by decide)
  · have hmagic : ¬typeOfStart.HasMagicCode := (start_rejected_iff rfl).1 (h.rejected (by decide))
    exact hmagic (by decide)

end EarbudFirmware.Ota
