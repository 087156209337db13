import EarbudFirmware.AiOta.Copying

/-!
# Sessions that restart and resume

A download is resumed from the break point of its record, so everything below it must be in the
flash, and the record must name the image that it is of. A new session must find the environment as
a reset leaves it: the user and the cache of the session before are kept otherwise.

## Main definitions

* `Programmed`, `RecordOk` — a byte of an image in the flash, and a record that can be resumed from
* `StartsAt` — where the data of a session goes
* `Guard` — the condition under which sessions can follow each other

## Main results

* `otaStep_inv` — what a step of a guarded run keeps
* `session_restarts_and_resumes` — a guarded run accepts every session, and its records are right
* `begin_asserts_after_failed_verification` — a session after an image that was not verified is not
  accepted
-/

namespace EarbudFirmware.AiOta

open Transition (Along)

/-! ### Records and guards -/

/-- Byte `i` of an image that is stored from `base` on is in the flash; the first word of the module
may have become the boot magic number. -/
def Programmed (f : Flash) (base : Nat) (m : Image) (i : Nat) : Prop :=
  f (base + i) = some (.image m i) ∨ (f (base + i) = some .normalBoot ∧ base + i < 4)

/-- The record is of an image, and every byte of it below the break point is in the flash. -/
def Describes (r : NvOtaInfo) (f : Flash) (m : Image) (base : Nat) : Prop :=
  r.version = m.version ∧ r.imageSize = m.size ∧
    ∀ i < r.breakPoint, i < m.size → Programmed f base m i

/-- The version, the image size and the break point of the record are of one image, which the flash
holds up to the break point. -/
def RecordOk (r : NvOtaInfo) (f : Flash) : Prop := ∃ m base, Describes r f m base

/-- The bytes that follow a BEGIN command lie in order from `flashOffset + startOffset` on: those of
whole sectors in the flash, and the others in the cache, to be flushed behind them. -/
def StartsAt (t : Download) (p : BeginParam) : Prop :=
  ∀ chunks : List (List FlashByte),
    let w := chunks.foldl copyData (t.env, t.deviceFlash)
    let full := chunks.flatten.length / sectorSize * sectorSize
    (∀ k < full, w.2 (p.flashOffset + p.startOffset + k) = chunks.flatten[k]?) ∧
      w.1.newImageFlashOffset + w.1.newImageProgramOffset = p.flashOffset + p.startOffset + full ∧
      ∀ k, full + k < chunks.flatten.length → w.1.dataCacheBuffer k = chunks.flatten[full + k]?

/-- A command of this user for this device updates the record. -/
def Updates (user : Option OtaUser) (device : OtaDevice) (custom : Option OtaStatus)
    (insertAllowed : Bool) : Prop :=
  custom.getD .ok = .ok ∧ updateAllowed user device insertAllowed = true

instance (user : Option OtaUser) (device : OtaDevice) (custom : Option OtaStatus)
    (insertAllowed : Bool) : Decidable (Updates user device custom insertAllowed) :=
  inferInstanceAs (Decidable (_ ∧ _))

/-- An update of the record does not take away the version or the size of what it describes. -/
def KeepsImage (r : NvOtaInfo) (stage : OtaStage) (m : Image) : Prop :=
  match stage with
  | .idle => True
  | .ongoing => r.breakPoint = 0 ∨ (r.imageSize = m.size ∧ (r.version = m.version → m.version = []))
  | .done => r.version = m.version ∧ m.version = []

/-- A BEGIN command finds the environment reset and the image in the flash up to its start offset,
and a record with a break point is of the same image, which has no version. -/
def BeginGuard (s : Download) (p : BeginParam) (custom : Option OtaStatus) (insertAllowed : Bool) :
    Prop :=
  p.flashOffset % sectorSize = 0 ∧ p.startOffset % sectorSize = 0 ∧ s.env.currentUser = none ∧
    (∀ i < p.startOffset, i < p.imageSize →
      Programmed (s.flash p.device) p.flashOffset p.image i) ∧
    (Updates (some p.user) p.device custom insertAllowed →
      p.imageSize ≠ 0 ∧ ((s.nv p.device).breakPoint = 0 ∨
        ((s.nv p.device).version = p.version ∧ p.version = [] ∧
          (s.nv p.device).imageSize = p.imageSize)))

/-- Data comes within a session and does not exceed its image; a record with a break point is of the
session's image, and so is one that becomes one. -/
def DataGuard (s : Download) (len : Nat) (v : Verification) (insertAllowed : Bool) : Prop :=
  let e := s.env
  e.currentStage = .ongoing ∧ e.receivedDataSize + len ≤ e.totalImageSize ∧
    (s.record.breakPoint ≠ 0 → Describes s.record s.deviceFlash e.image e.newImageFlashOffset) ∧
    if e.receivedDataSize + len = e.totalImageSize then
      s.passes v = true → updateAllowed e.currentUser e.deviceId insertAllowed = true →
        KeepsImage s.record .done e.image
    else
      breakPointGranularity ≤ e.receivedDataSize + len - e.breakPoint →
        s.record.version = e.version ∧ s.record.imageSize = e.totalImageSize

/-- The condition under which sessions can follow each other and their records are right. -/
def Guard (s : Download) : OtaEvent → Prop
  | .command (.begin p) custom insertAllowed => BeginGuard s p custom insertAllowed
  | .command _ custom insertAllowed =>
    Updates s.env.currentUser s.env.deviceId custom insertAllowed →
      KeepsImage s.record s.env.currentStage s.env.image
  | .fwDataWrite len v insertAllowed => DataGuard s len v insertAllowed
  | .enableSanityCheck _ => True

/-- The states of guarded runs. -/
structure Inv (s : Download) : Prop where
  fresh : s.env.currentUser = none →
    s.env.currentStage = .idle ∧ s.env.dataCacheBufferOffset = 0 ∧ s.env.breakPoint = 0
  size_lt : s.env.totalImageSize < 0x100000000
  breakPoint_le : s.env.currentStage = .ongoing → s.env.breakPoint ≤ s.env.receivedDataSize
  ongoing : s.env.currentStage = .ongoing → ∃ start,
    Holds (fun i => some (.image s.env.image i)) start s.env s.deviceFlash s.env.receivedDataSize ∧
      ∀ i < start, i < s.env.totalImageSize →
        Programmed s.deviceFlash s.env.newImageFlashOffset s.env.image i
  done : s.env.currentStage = .done → ∀ i < s.env.totalImageSize,
    Programmed s.deviceFlash s.env.newImageFlashOffset s.env.image i
  records : ∀ d, RecordOk (s.nv d) (s.flash d)

/-- The environment is reset, and the records are right, as those of a factory reset are. -/
structure Initial (s : Download) : Prop where
  env : s.env = resetEnv
  records : ∀ d, RecordOk (s.nv d) (s.flash d)

theorem Initial.inv {s : Download} (h : Initial s) : Inv s where
  fresh _ := by rw [h.env]; exact ⟨rfl, rfl, rfl⟩
  size_lt := by rw [h.env]; decide
  breakPoint_le hs := by rw [h.env] at hs; cases hs
  ongoing hs := by rw [h.env] at hs; cases hs
  done hs := by rw [h.env] at hs; cases hs
  records := h.records

/-! ### Updates of the record -/

/-- A record without a break point describes what it names. -/
theorem recordOk_of_breakPoint_eq_zero {r : NvOtaInfo} (f : Flash) (h : r.breakPoint = 0) :
    RecordOk r f :=
  ⟨⟨r.version, r.imageSize⟩, 0, rfl, rfl, fun i hi => absurd hi (by omega)⟩

theorem Describes.mono {r : NvOtaInfo} {f f' : Flash} {m : Image} {base : Nat}
    (h : Describes r f m base) (hf : ∀ i < m.size, Programmed f base m i → Programmed f' base m i) :
    Describes r f' m base :=
  ⟨h.1, h.2.1, fun i hi him => hf i him (h.2.2 i hi him)⟩

/-- What an update does to the break point and to the image of a record that keeps its image. -/
theorem nvRecordOtaUpdateInfo_cases {ret : Bool} {r r' : NvOtaInfo} {status : OtaStage} {m : Image}
    (h : nvRecordOtaUpdateInfo ret r status m.size m.version = some r')
    (hk : ret = true → KeepsImage r status m) :
    r'.breakPoint = 0 ∨
      (r'.version = r.version ∧ r'.imageSize = r.imageSize ∧ r'.breakPoint = r.breakPoint) ∨
      (status = .done ∧ r'.version = m.version ∧ r'.imageSize = m.size ∧
        r'.breakPoint = m.size) := by
  unfold nvRecordOtaUpdateInfo at h
  cases ret with
  | false =>
    obtain rfl := Option.some.inj h
    exact .inr (.inl ⟨rfl, rfl, rfl⟩)
  | true =>
    have hkeep := hk rfl
    rw [if_pos rfl] at h
    cases status with
    | idle => exact .inl (Option.some.inj h ▸ rfl)
    | ongoing =>
      by_cases h0 : m.size = 0
      · simp [h0] at h
      · simp only [if_neg h0] at h
        obtain rfl := Option.some.inj h
        rcases hkeep with hb | ⟨hsize, hver⟩
        · left
          by_cases hv : r.version = m.version <;> simp [hv, hb]
        · right; left
          by_cases hv : r.version = m.version
          · simp [hv, hver hv, hsize]
          · simp [hv, hsize]
    | done =>
      obtain ⟨hv, hnil⟩ := hkeep
      rw [if_pos hv] at h
      by_cases h0 : m.size = r.imageSize
      · simp only [h0, if_true] at h
        obtain rfl := Option.some.inj h
        exact .inr (.inr ⟨rfl, hnil.symm, h0.symm, h0.symm⟩)
      · simp only [h0, if_false] at h
        cases h

/-- An update that keeps the image keeps the record right. -/
theorem recordOk_of_nvRecordOtaUpdateInfo {ret : Bool} {r r' : NvOtaInfo} {status : OtaStage}
    {m : Image} {f : Flash} (hr : RecordOk r f)
    (h : nvRecordOtaUpdateInfo ret r status m.size m.version = some r')
    (hk : ret = true → KeepsImage r status m)
    (hdone : status = .done → ∃ base, ∀ i < m.size, Programmed f base m i) : RecordOk r' f := by
  rcases nvRecordOtaUpdateInfo_cases h hk with
    hb | ⟨hv, hsize, hb⟩ | ⟨hstage, hv, hsize, -⟩
  · exact recordOk_of_breakPoint_eq_zero f hb
  · obtain ⟨m', base', hd⟩ := hr
    exact ⟨m', base', hv.trans hd.1, hsize.trans hd.2.1, fun i hi => hd.2.2 i (hb ▸ hi)⟩
  · obtain ⟨base, hbase⟩ := hdone hstage
    exact ⟨m, base, hv, hsize, fun i _ him => hbase i him⟩

@[simp] theorem deviceFlash_setFlash (s : Download) (f : Flash) :
    (s.setFlash f).deviceFlash = f := Function.update_self ..

@[simp] theorem setFlash_setFlash (s : Download) (f f' : Flash) :
    (s.setFlash f).setFlash f' = s.setFlash f' := by
  simp [Download.setFlash]

namespace Inv

variable {s t : Download}

/-- Only the record of the session's device changes, to one that is right. -/
theorem setRecord (h : Inv s) {r : NvOtaInfo} (hr : RecordOk r s.deviceFlash) :
    Inv (s.setRecord r) where
  fresh := h.fresh
  size_lt := h.size_lt
  breakPoint_le := h.breakPoint_le
  ongoing := h.ongoing
  done := h.done
  records d := by
    by_cases hd : d = s.env.deviceId
    · subst hd
      simpa [Download.setRecord, Download.deviceFlash] using hr
    · simpa [Download.setRecord, Function.update_of_ne hd] using h.records d

/-- The update after a command. -/
theorem updateInfo (h : Inv s) {custom : Option OtaStatus} {insertAllowed : Bool}
    {status : OtaStatus} (hstep : s.updateInfo custom insertAllowed = some (status, t))
    (hk : Updates s.env.currentUser s.env.deviceId custom insertAllowed →
      KeepsImage s.record s.env.currentStage s.env.image) : Inv t := by
  unfold Download.updateInfo at hstep
  cases hc : custom.getD .ok with
  | ok =>
    simp only [hc, Option.bind_eq_bind, Option.bind_eq_some_iff] at hstep
    obtain ⟨r, hr, ht⟩ := hstep
    obtain ⟨-, rfl⟩ := Prod.mk.inj (Option.some.inj ht)
    exact h.setRecord (recordOk_of_nvRecordOtaUpdateInfo (m := s.env.image)
      (h.records s.env.deviceId) hr (fun ha => hk ⟨hc, ha⟩) fun hd => ⟨_, h.done hd⟩)
  | _ =>
    simp only [hc] at hstep
    obtain ⟨-, rfl⟩ := Prod.mk.inj (Option.some.inj hstep)
    exact h

theorem user_ne (h : Inv s) (hon : s.env.currentStage = .ongoing) : s.env.currentUser ≠ none := by
  intro hn
  have := (h.fresh hn).1
  rw [hon] at this
  cases this

theorem reset (h : Inv s) : Inv { s with env := resetEnv } :=
  Initial.inv ⟨rfl, h.records⟩

end Inv

/-! ### A new session -/

/-- A session is opened in the idle stage, and only if no user is left of the one before. -/
theorem begin_eq_some_iff {s t : Download} {p : BeginParam} :
    s.begin p = some t ↔ s.env.currentStage = .idle ∧ s.env.currentUser = none ∧
      p.startOffset % sectorSize = 0 ∧
      t = { s with env := OtaEnv.openSession { s.env with currentUser := some p.user } p } := by
  unfold Download.begin Download.updateOtaUser
  by_cases hstage : s.env.currentStage = .idle <;> by_cases huser : s.env.currentUser = none <;>
    by_cases hp : p.startOffset % sectorSize = 0 <;> simp [hstage, huser, hp, eq_comm]

/-- A session starts in the environment that a reset leaves. -/
theorem begin_eq {s : Download} {p : BeginParam} (hs : Inv s) (huser : s.env.currentUser = none)
    (hp : p.startOffset % sectorSize = 0) :
    s.begin p = some { s with
      env := OtaEnv.openSession { s.env with currentUser := some p.user } p } :=
  begin_eq_some_iff.2 ⟨(hs.fresh huser).1, huser, hp, rfl⟩

/-- Nothing is held of a session that starts. -/
theorem Inv.openSession {s : Download} (h : Inv s) {p : BeginParam} {custom : Option OtaStatus}
    {insertAllowed : Bool} (hg : BeginGuard s p custom insertAllowed) :
    Inv { s with env := OtaEnv.openSession { s.env with currentUser := some p.user } p } := by
  obtain ⟨hflash, hstart, huser, hprog, -⟩ := hg
  obtain ⟨-, hoff, hbp⟩ := h.fresh huser
  refine ⟨fun hn => (nomatch hn), p.imageSize_lt, fun _ => ?_, fun _ => ⟨p.startOffset, ?_, hprog⟩,
    fun hs => (nomatch hs), h.records⟩
  · exact hbp ▸ Nat.zero_le _
  · exact {
      offset_lt := hoff ▸ (by decide : 0 < sectorSize)
      got_eq := hoff ▸ Nat.add_zero p.startOffset
      program_aligned := hstart
      flash_aligned := hflash
      start_le := Nat.le_refl _
      cached := fun i hi => absurd hi (hoff ▸ Nat.not_lt_zero i)
      programmed := fun i hi hi' => absurd hi' (Nat.not_lt.2 hi) }

/-- The first byte of a new session, and every other, goes to its place. -/
theorem startsAt {t : Download} {p : BeginParam}
    (henv : ∃ e : OtaEnv, t.env = e.openSession p ∧ e.dataCacheBufferOffset = 0)
    (hp : p.startOffset % sectorSize = 0) (hf : p.flashOffset % sectorSize = 0) :
    StartsAt t p := by
  intro chunks
  obtain ⟨e, he, hoff⟩ := henv
  have hstart : Holds (fun i => chunks.flatten[i - p.startOffset]?) p.startOffset t.env
      t.deviceFlash p.startOffset := by
    rw [he]
    exact {
      offset_lt := hoff ▸ (by decide : 0 < sectorSize)
      got_eq := hoff ▸ Nat.add_zero p.startOffset
      program_aligned := hp
      flash_aligned := hf
      start_le := Nat.le_refl _
      cached := fun i hi => absurd hi (hoff ▸ Nat.not_lt_zero i)
      programmed := fun i hi hi' => absurd hi' (Nat.not_lt.2 hi) }
  intro w full
  obtain ⟨hw, hcopied⟩ : Holds _ p.startOffset w.1 w.2 (p.startOffset + chunks.flatten.length) ∧
      Copied _ (t.env, t.deviceFlash) w :=
    foldl_copyData_holds hstart fun k _ => by rw [Nat.add_sub_cancel_left]
  clear_value w
  have hbase : w.1.newImageFlashOffset = p.flashOffset := by
    obtain ⟨b, o, q, hq⟩ := hcopied.env
    rw [hq, he]
    rfl
  have hprogram : w.1.newImageProgramOffset = p.startOffset + full := by
    have h₁ := hw.got_eq
    have h₂ := hw.program_aligned
    have h₃ := hw.offset_lt
    simp only [full, sectorSize] at *
    omega
  refine ⟨fun k hk => ?_, by rw [hbase, hprogram, Nat.add_assoc], fun k hk => ?_⟩
  · have := hw.programmed (p.startOffset + k) (Nat.le_add_right _ _) (by omega)
    rw [hbase, Nat.add_sub_cancel_left, ← Nat.add_assoc] at this
    exact this
  · have hgot := hw.got_eq
    have := hw.cached k (by omega)
    rw [hprogram, show p.startOffset + full + k - p.startOffset = full + k by omega] at this
    exact this

/-! ### Data -/

theorem Image.length_chunk (m : Image) (start n : Nat) : (m.chunk start n).length = n := by
  simp [Image.chunk]

theorem Image.getElem?_chunk (m : Image) {start n k : Nat} (hk : k < n) :
    (m.chunk start n)[k]? = some (.image m (start + k)) := by
  simp [Image.chunk, hk]

/-- A record with a break point is of the session's image. -/
def Download.OfSession (s : Download) : Prop :=
  s.record.breakPoint ≠ 0 →
    Describes s.record s.deviceFlash s.env.image s.env.newImageFlashOffset

/-- A flash that keeps the bytes of the session's image keeps the records right. -/
theorem recordOk_update {s : Download} {f : Flash} (h : ∀ d, RecordOk (s.nv d) (s.flash d))
    (hrec : s.OfSession)
    (hf : ∀ i < s.env.totalImageSize,
      Programmed s.deviceFlash s.env.newImageFlashOffset s.env.image i →
      Programmed f s.env.newImageFlashOffset s.env.image i) (d : OtaDevice) :
    RecordOk (s.nv d) ((s.setFlash f).flash d) := by
  change RecordOk (s.nv d) (Function.update s.flash s.env.deviceId f d)
  by_cases hd : d = s.env.deviceId
  · subst hd
    rw [Function.update_self]
    by_cases hb : s.record.breakPoint = 0
    · exact recordOk_of_breakPoint_eq_zero f hb
    · exact ⟨_, _, (hrec hb).mono hf⟩
  · rw [Function.update_of_ne hd]
    exact h d

/-- The next bytes of the image are received. -/
theorem Inv.received {s t : Download} (h : Inv s) {len : Nat}
    (hon : s.env.currentStage = .ongoing)
    (hlen : s.env.receivedDataSize + len ≤ s.env.totalImageSize) (hrec : s.OfSession)
    (ht : t = s.received (s.env.image.chunk s.env.receivedDataSize len)) :
    Inv t ∧ t.OfSession ∧ t.nv = s.nv ∧ ∃ b o q, t.env =
      { s.env with
        dataCacheBuffer := b
        dataCacheBufferOffset := o
        newImageProgramOffset := q
        receivedDataSize := s.env.receivedDataSize + len } := by
  obtain ⟨start, hholds, hprog⟩ := h.ongoing hon
  have hchunk : ∀ k < (s.env.image.chunk s.env.receivedDataSize len).length,
      (s.env.image.chunk s.env.receivedDataSize len)[k]? =
        some (.image s.env.image (s.env.receivedDataSize + k)) := fun k hk =>
    s.env.image.getElem?_chunk (by rwa [Image.length_chunk] at hk)
  obtain ⟨hw, hcopied⟩ := copyData_holds (w := (s.env, s.deviceFlash)) hholds hchunk
  unfold Download.received at ht
  rw [Image.length_chunk] at hw ht
  generalize copyData (s.env, s.deviceFlash) (s.env.image.chunk s.env.receivedDataSize len) = w
    at hw hcopied ht
  obtain ⟨b, o, q, he⟩ := hcopied.env
  have hsize : (s.env.receivedDataSize + len) % 0x100000000 = s.env.receivedDataSize + len :=
    Nat.mod_eq_of_lt (Nat.lt_of_le_of_lt hlen h.size_lt)
  have hkeep : ∀ i, Programmed s.deviceFlash s.env.newImageFlashOffset s.env.image i →
      Programmed w.2 s.env.newImageFlashOffset s.env.image i := fun i hi => by
    rcases hcopied.flash i with hsame | hnew
    · unfold Programmed
      rw [hsame]
      exact hi
    · exact .inl hnew
  have henv : t.env = { s.env with
      dataCacheBuffer := b, dataCacheBufferOffset := o, newImageProgramOffset := q,
      receivedDataSize := s.env.receivedDataSize + len } := by
    rw [ht]
    simp only [he, hsize]
  have hflash : t.flash = (s.setFlash w.2).flash := by rw [ht]
  have hnv : t.nv = s.nv := by
    rw [ht]
    rfl
  have hdev : t.deviceFlash = w.2 := by
    rw [Download.deviceFlash, hflash, henv]
    exact deviceFlash_setFlash s w.2
  have hrec' : t.OfSession := by
    unfold Download.OfSession Download.record at *
    rw [hdev, hnv, henv]
    exact fun hb => (hrec hb).mono fun i _ => hkeep i
  refine ⟨⟨fun hn => ?_, ?_, fun _ => ?_, fun _ => ⟨start, ?_, ?_⟩, fun hd => ?_, fun d => ?_⟩,
    hrec', hnv, b, o, q, henv⟩
  · rw [henv] at hn
    exact absurd hn (h.user_ne hon)
  · rw [henv]
    exact h.size_lt
  · have := h.breakPoint_le hon
    rw [henv]
    exact Nat.le_trans this (Nat.le_add_right _ _)
  · rw [he] at hw
    rw [hdev, henv]
    exact ⟨hw.offset_lt, hw.got_eq, hw.program_aligned, hw.flash_aligned, hw.start_le, hw.cached,
      hw.programmed⟩
  · rw [hdev, henv]
    exact fun i hi him => hkeep i (hprog i hi him)
  · rw [henv, hon] at hd
    cases hd
  · rw [hflash, hnv]
    exact recordOk_update h.records hrec (fun i _ => hkeep i) d

/-- A break point lies in what has been flushed. -/
theorem Inv.storeBreakPoint {s t : Download} {status : OtaStatus} (h : Inv s)
    (hon : s.env.currentStage = .ongoing)
    (hlen : s.env.receivedDataSize ≤ s.env.totalImageSize)
    (hmatch : breakPointGranularity ≤ s.env.receivedDataSize - s.env.breakPoint →
      s.record.version = s.env.version ∧ s.record.imageSize = s.env.totalImageSize)
    (hstep : s.storeBreakPoint = some (status, t)) : Inv t := by
  have hbp := h.breakPoint_le hon
  have hlt := h.size_lt
  have hdiff : (s.env.receivedDataSize + 0x100000000 - s.env.breakPoint) % 0x100000000 =
      s.env.receivedDataSize - s.env.breakPoint := by omega
  unfold Download.storeBreakPoint at hstep
  simp only [hdiff] at hstep
  by_cases hg : breakPointGranularity ≤ s.env.receivedDataSize - s.env.breakPoint
  · obtain ⟨hversion, hsize⟩ := hmatch hg
    simp only [if_pos hg, Option.bind_eq_bind, Option.bind_eq_some_iff] at hstep
    obtain ⟨r, hr, ht⟩ := hstep
    obtain ⟨-, rfl⟩ := Prod.mk.inj (Option.some.inj ht)
    unfold nvRecordOtaUpdateBreakpoint at hr
    obtain ⟨start, hholds, hprog⟩ := h.ongoing hon
    have hinv : Inv { s with env.breakPoint :=
        s.env.receivedDataSize / breakPointGranularity * breakPointGranularity } := {
      fresh := fun hn => absurd hn (h.user_ne hon)
      size_lt := h.size_lt
      breakPoint_le := fun _ => Nat.div_mul_le_self _ _
      ongoing := fun _ => ⟨start, ⟨hholds.offset_lt, hholds.got_eq, hholds.program_aligned,
        hholds.flash_aligned, hholds.start_le, hholds.cached, hholds.programmed⟩, hprog⟩
      done := h.done
      records := h.records }
    refine hinv.setRecord ?_
    have hongoing : s.record.otaStatus = .ongoing := by
      by_contra hne
      rw [if_neg hne] at hr
      cases hr
    rw [if_pos hongoing] at hr
    obtain rfl := Option.some.inj hr
    refine ⟨s.env.image, s.env.newImageFlashOffset, hversion, hsize, fun i hi him => ?_⟩
    have hprogram : i < s.env.newImageProgramOffset := by
      -- the granularity is a multiple of the sector
      have h₁ := hholds.got_eq
      have h₂ := hholds.program_aligned
      have h₃ := hholds.offset_lt
      simp only [breakPointGranularity, sectorSize] at *
      omega
    by_cases hs : start ≤ i
    · exact .inl (hholds.programmed i hs hprogram)
    · exact hprog i (Nat.lt_of_not_le hs) him
  · rw [if_neg hg] at hstep
    obtain ⟨-, rfl⟩ := Prod.mk.inj (Option.some.inj hstep)
    exact h

/-- The first word becomes the magic number, and the rest of its sector is written back. -/
theorem updateMagicNumber_apply (f : Flash) (x : Nat) :
    updateMagicNumber f x = if x < 4 then some .normalBoot else f x := by
  unfold updateMagicNumber programFlash eraseSector
  by_cases hx : x < sectorSize
  · rw [if_pos ⟨Nat.zero_le x, by omega⟩]
    rfl
  · have h4 : ¬x < 4 := fun h => hx (Nat.lt_trans h (by decide))
    have hdiv : x / sectorSize ≠ 0 / sectorSize := by
      simp only [sectorSize] at *
      omega
    rw [if_neg (by omega), if_neg hdiv, if_neg h4]

theorem programmed_updateMagicNumber {f : Flash} {base : Nat} {m : Image} {i : Nat}
    (h : Programmed f base m i) : Programmed (updateMagicNumber f) base m i := by
  unfold Programmed
  rw [updateMagicNumber_apply]
  by_cases hi : base + i < 4
  · rw [if_pos hi]
    exact .inr ⟨rfl, hi⟩
  · rw [if_neg hi]
    exact h

/-- The verification keeps the image. -/
theorem programmed_verified {s : Download} {v : Verification} {base : Nat} {m : Image} {i : Nat}
    (h : Programmed s.deviceFlash base m i) : Programmed (s.verified v).2 base m i := by
  unfold Download.verified
  split
  · split
    · exact programmed_updateMagicNumber h
    · exact h
  · exact h

/-- The rest of the cache completes the image in the flash. -/
theorem Holds.flushRest {m : Image} {start got : Nat} {s : Download}
    (h : Holds (fun i => some (.image m i)) start s.env s.deviceFlash got)
    (hstart : ∀ i < start, i < got → Programmed s.deviceFlash s.env.newImageFlashOffset m i) :
    ∀ i < got, Programmed s.flushRest s.env.newImageFlashOffset m i := by
  intro i hi
  unfold Download.flushRest
  generalize s.env = e, s.deviceFlash = f at *
  have hgot := h.got_eq
  have hlt := h.offset_lt
  have hbefore : i < e.newImageProgramOffset →
      Programmed f e.newImageFlashOffset m i := fun hp => by
    by_cases hs : start ≤ i
    · exact .inl (h.programmed i hs hp)
    · exact hstart i (Nat.lt_of_not_le hs) hi
  by_cases hoff : e.dataCacheBufferOffset = 0
  · rw [if_neg (not_not.2 hoff)]
    exact hbefore (by omega)
  · have halign : (e.newImageProgramOffset + e.newImageFlashOffset) % sectorSize = 0 := by
      rw [Nat.add_mod, h.program_aligned, h.flash_aligned]
      rfl
    rw [if_pos hoff]
    unfold Programmed
    rw [flushDataToFlash_apply f _ (Nat.le_of_lt hlt) (Nat.pos_of_ne_zero hoff) halign]
    by_cases hp : i < e.newImageProgramOffset
    · rw [if_neg (by omega), if_neg]
      · exact hbefore hp
      · simp only [sectorSize] at *
        omega
    · rw [if_pos ⟨by omega, by omega⟩, h.cached _ (by omega)]
      left
      congr 2
      omega

/-- The complete image is in the flash, verified or not. -/
theorem Inv.verifyImage {s : Download} (h : Inv s) (v : Verification)
    (hon : s.env.currentStage = .ongoing)
    (hend : s.env.receivedDataSize = s.env.totalImageSize) (hrec : s.OfSession) :
    Inv (s.verifyImage v) := by
  obtain ⟨start, hholds, hprog⟩ := h.ongoing hon
  rw [hend] at hholds
  have hflushed := hholds.flushRest fun i hi him => hprog i hi him
  have hverified : ∀ i < s.env.totalImageSize, Programmed ((s.setFlash s.flushRest).verified v).2
      s.env.newImageFlashOffset s.env.image i := fun i hi =>
    programmed_verified ((deviceFlash_setFlash s s.flushRest).symm ▸ hflushed i hi)
  have hstage : (s.verifyImage v).env.currentStage ≠ .ongoing := by
    change (if (s.setFlash s.flushRest).passes v = true then OtaStage.done else .idle) ≠ .ongoing
    split <;> decide
  have hflash : (s.verifyImage v).flash =
      (s.setFlash ((s.setFlash s.flushRest).verified v).2).flash := by
    rw [← setFlash_setFlash s s.flushRest]
    rfl
  exact {
    fresh := fun hn => absurd hn (h.user_ne hon)
    size_lt := h.size_lt
    breakPoint_le := fun hs => absurd hs hstage
    ongoing := fun hs => absurd hs hstage
    done := fun _ i hi => by
      have := hverified i hi
      rw [← deviceFlash_setFlash s ((s.setFlash s.flushRest).verified v).2] at this
      unfold Download.deviceFlash at this ⊢
      rw [hflash]
      exact this
    records := fun d => by
      rw [hflash]
      exact recordOk_update h.records hrec (fun i hi _ => hverified i hi) d }

/-- The outcome goes to the record. -/
theorem Inv.recordOutcome {s t : Download} {status : OtaStatus} {insertAllowed : Bool} (h : Inv s)
    (hk : s.env.currentStage ≠ .idle →
      updateAllowed s.env.currentUser s.env.deviceId insertAllowed = true →
      KeepsImage s.record s.env.currentStage s.env.image)
    (hstep : s.recordOutcome insertAllowed = some (status, t)) : Inv t := by
  unfold Download.recordOutcome at hstep
  by_cases hidle : s.env.currentStage = .idle
  · simp only [hidle, if_true, Option.bind_eq_bind, Option.bind_eq_some_iff] at hstep
    obtain ⟨r, hr, ht⟩ := hstep
    obtain ⟨-, rfl⟩ := Prod.mk.inj (Option.some.inj ht)
    exact h.setRecord (recordOk_of_nvRecordOtaUpdateInfo (m := ⟨invalidVersionStr, 0⟩)
      (h.records s.env.deviceId) hr (fun _ => trivial) fun hd => nomatch hd)
  · simp only [hidle, if_false, Option.bind_eq_bind, Option.bind_eq_some_iff] at hstep
    obtain ⟨r, hr, ht⟩ := hstep
    obtain ⟨-, rfl⟩ := Prod.mk.inj (Option.some.inj ht)
    exact h.setRecord (recordOk_of_nvRecordOtaUpdateInfo (m := s.env.image)
      (h.records s.env.deviceId) hr (hk hidle) fun hd => ⟨_, h.done hd⟩)

/-! ### Runs -/

/-- A chunk of data that meets the guard keeps the invariant. -/
theorem Inv.fwDataWrite {s t : Download} {status : OtaStatus} {len : Nat} {v : Verification}
    {insertAllowed : Bool} (h : Inv s) (hg : DataGuard s len v insertAllowed)
    (hstep : s.fwDataWrite (s.env.image.chunk s.env.receivedDataSize len) v insertAllowed =
      some (status, t)) : Inv t := by
  obtain ⟨hon, hlen, hrec, hg⟩ := hg
  obtain ⟨hinv, hrec', hnv, b, o, q, henv⟩ := h.received hon hlen hrec rfl
  unfold Download.fwDataWrite at hstep
  generalize s.received (s.env.image.chunk s.env.receivedDataSize len) = u at *
  have hrecord : u.record = s.record := by rw [Download.record, hnv, henv]; rfl
  by_cases hend : s.env.receivedDataSize + len = s.env.totalImageSize
  · rw [if_pos hend] at hg
    rw [if_pos (by rw [henv]; exact hend)] at hstep
    refine (hinv.verifyImage v (by rw [henv]; exact hon) (by rw [henv]; exact hend)
      hrec').recordOutcome (fun hne ha => ?_) hstep
    have hu : u.passes v = s.passes v := by
      unfold Download.passes Download.sane
      rw [henv]
    have hpasses : s.passes v = true := by
      by_contra hp
      exact hne (if_neg fun h => hp (hu ▸ h))
    have hstage : (u.verifyImage v).env.currentStage = .done := if_pos (hu.trans hpasses)
    rw [hstage]
    have huser : updateAllowed s.env.currentUser s.env.deviceId insertAllowed = true := by
      have : (u.verifyImage v).env.currentUser = s.env.currentUser ∧
          (u.verifyImage v).env.deviceId = s.env.deviceId := by
        change u.env.currentUser = _ ∧ u.env.deviceId = _
        rw [henv]
        exact ⟨rfl, rfl⟩
      rw [← this.1, ← this.2]
      exact ha
    have hkeep := hg hpasses huser
    rw [← hrecord] at hkeep
    have himage : s.env.image = (u.verifyImage v).env.image := by
      change _ = u.env.image
      rw [henv]
      rfl
    rw [himage] at hkeep
    exact hkeep
  · rw [if_neg hend] at hg
    rw [if_neg (by rw [henv]; exact hend)] at hstep
    refine hinv.storeBreakPoint (by rw [henv]; exact hon) (by rw [henv]; exact hlen)
      (fun hgran => ?_) hstep
    rw [henv] at hgran ⊢
    rw [hrecord]
    exact hg hgran

/-- A step that meets the guard keeps the invariant. -/
theorem otaStep_inv {s t : Download} {ev : OtaEvent} (h : Inv s) (hg : Guard s ev)
    (hstep : otaStep s ev = some t) : Inv t := by
  cases ev with
  | enableSanityCheck enable =>
    obtain rfl := Option.some.inj hstep
    refine ⟨h.fresh, h.size_lt, h.breakPoint_le, fun hon => ?_, h.done, h.records⟩
    obtain ⟨start, hholds, hprog⟩ := h.ongoing hon
    exact ⟨start, ⟨hholds.offset_lt, hholds.got_eq, hholds.program_aligned, hholds.flash_aligned,
      hholds.start_le, hholds.cached, hholds.programmed⟩, hprog⟩
  | fwDataWrite len v insertAllowed =>
    obtain ⟨⟨status, u⟩, hu, rfl⟩ := Option.map_eq_some_iff.1 hstep
    exact h.fwDataWrite hg hu
  | command cmd custom insertAllowed =>
    obtain ⟨⟨status, u⟩, hu, rfl⟩ := Option.map_eq_some_iff.1 hstep
    cases cmd with
    | begin p =>
      unfold Download.commandReceived at hu
      simp only [begin_eq h hg.2.2.1 hg.2.1, Option.bind_eq_bind, Option.bind_some] at hu
      refine (h.openSession hg).updateInfo hu fun hup => ?_
      obtain ⟨-, hb | ⟨hv, hnil, hsize⟩⟩ := hg.2.2.2.2 hup
      · exact .inl hb
      · exact .inr ⟨hsize, fun _ => hnil⟩
    | data => exact h.updateInfo hu hg
    | apply | abort =>
      unfold Download.commandReceived at hu
      simp only [Option.bind_eq_bind, Option.bind_eq_some_iff] at hu
      obtain ⟨⟨status', u'⟩, hu', ht⟩ := hu
      obtain ⟨-, rfl⟩ := Prod.mk.inj (Option.some.inj ht)
      exact (h.updateInfo hu' hg).reset

/-- A session that meets the guard is accepted, its data goes to its place, and a record of another
image starts without a break point. -/
theorem Inv.begin_accepted {s : Download} (h : Inv s) {p : BeginParam} {custom : Option OtaStatus}
    {insertAllowed : Bool} (hg : BeginGuard s p custom insertAllowed) :
    ∃ status t, s.commandReceived (.begin p) custom insertAllowed = some (status, t) ∧
      StartsAt t p ∧
      (status = .ok →
        ¬((s.nv p.device).version = p.version ∧ (s.nv p.device).imageSize = p.imageSize) →
        (t.nv p.device).breakPoint = 0) := by
  obtain ⟨-, hoff, -⟩ := h.fresh hg.2.2.1
  have hupdates := hg.2.2.2.2
  unfold Download.commandReceived
  simp only [begin_eq h hg.2.2.1 hg.2.1, Option.bind_eq_bind, Option.bind_some]
  have hstarts : ∀ t : Download,
      t.env = OtaEnv.openSession { s.env with currentUser := some p.user } p → StartsAt t p :=
    fun t ht => startsAt ⟨_, ht, hoff⟩ hg.2.1 hg.1
  unfold Download.updateInfo
  cases hc : custom.getD .ok with
  | ok =>
    simp only [Option.bind_eq_bind]
    cases ha : updateAllowed (some p.user) p.device insertAllowed with
    | false =>
      refine ⟨_, _, Option.bind_eq_some_iff.2 ⟨_, if_neg (ha ▸ Bool.false_ne_true), rfl⟩,
        hstarts _ rfl, fun hok => ?_⟩
      change (if updateAllowed (some p.user) p.device insertAllowed then _ else _) = _ at hok
      rw [ha] at hok
      cases hok
    | true =>
      obtain ⟨h0, himage⟩ := hupdates ⟨hc, ha⟩
      obtain ⟨r, hr⟩ : ∃ r, nvRecordOtaUpdateInfo true (s.nv p.device) .ongoing p.imageSize
          p.version = some r := ⟨_, by
        unfold nvRecordOtaUpdateInfo
        rw [if_pos rfl]
        exact if_neg h0⟩
      refine ⟨_, _, Option.bind_eq_some_iff.2 ⟨r, ?_, rfl⟩, hstarts _ rfl, fun _ hne => ?_⟩
      · change nvRecordOtaUpdateInfo
          (updateAllowed (some p.user) p.device insertAllowed) _ _ _ _ = _
        rw [ha]
        exact hr
      · have hb : (s.nv p.device).breakPoint = 0 := by
          rcases himage with hb | ⟨hv, -, hsize⟩
          · exact hb
          · exact absurd ⟨hv, hsize⟩ hne
        have hrb : r.breakPoint = 0 := by
          rcases nvRecordOtaUpdateInfo_cases (m := p.image) hr fun _ => .inl hb with
            h' | ⟨-, -, h'⟩ | ⟨h', -⟩
          · exact h'
          · exact h'.trans hb
          · cases h'
        rw [← hrb]
        exact congrArg NvOtaInfo.breakPoint (Function.update_self ..)
  | _ => exact ⟨_, _, rfl, hstarts _ rfl, fun hok => nomatch hok⟩

/-- **A guarded run resumes and restarts.** In every state that it reaches, the flash holds the
image of each record up to the break point, and the next session that meets the guard is accepted,
its bytes go to their place, and another image starts without a break point. -/
theorem session_restarts_and_resumes {s₀ s : Download} {es : List OtaEvent} (h₀ : Initial s₀)
    (hes : Along otaStep Guard s₀ es) (hrun : es.foldlM otaStep s₀ = some s) :
    (∀ d, RecordOk (s.nv d) (s.flash d)) ∧
      ∀ p custom insertAllowed, BeginGuard s p custom insertAllowed →
        ∃ status t, s.commandReceived (.begin p) custom insertAllowed = some (status, t) ∧
          StartsAt t p ∧
          (status = .ok →
            ¬((s.nv p.device).version = p.version ∧ (s.nv p.device).imageSize = p.imageSize) →
            (t.nv p.device).breakPoint = 0) := by
  have hinv : Inv s := hes.preserves (fun _ _ _ => otaStep_inv) hrun h₀.inv
  exact ⟨hinv.records, fun _ _ _ => hinv.begin_accepted⟩

/-! ### Sessions after one that was not reset -/

/-- The environment after a reset, with the records of a factory reset and an erased flash. -/
def factory : Download := ⟨resetEnv, fun _ => ⟨0, 0, [], .idle, none⟩, fun _ _ => none⟩

theorem initial_factory : Initial factory :=
  ⟨rfl, fun _ => recordOk_of_breakPoint_eq_zero _ rfl⟩

/-- An image of a byte. -/
def byteImage (device : OtaDevice) (version : Version) : BeginParam :=
  ⟨.colorful, device, 1, 0, 0, version, by decide⟩

/-- After an image whose sanity check fails the stage is idle, but the user of the session is kept,
and the next BEGIN command runs into an assertion. -/
theorem begin_asserts_after_failed_verification :
    ∃ s, [.command (.begin (byteImage .app [49])) (some .ok) true, .enableSanityCheck true,
        .fwDataWrite 1 ⟨false, true, fun _ => none⟩ true].foldlM otaStep factory = some s ∧
      s.env.currentStage = .idle ∧
      s.commandReceived (.begin (byteImage .app [49])) (some .ok) true = none :=
  ⟨_, rfl, rfl, rfl⟩

/-- A session of an image without a version, its end, and another session. -/
theorem session_restarts_and_resumes_run :
    ∃ s : Download, (s.nv .hotword).breakPoint = 1 ∧ RecordOk (s.nv .hotword) (s.flash .hotword) ∧
      ∃ status t, s.commandReceived (.begin (byteImage .app [50])) (some .ok) true =
          some (status, t) ∧ StartsAt t (byteImage .app [50]) := by
  have hes : Along otaStep Guard factory [.command (.begin (byteImage .hotword [])) (some .ok) true,
      .fwDataWrite 1 ⟨false, true, fun _ => none⟩ true, .command .apply (some .ok) true] := by
    refine ⟨⟨rfl, rfl, rfl, fun i hi => absurd hi (Nat.not_lt_zero i),
      fun _ => ⟨by decide, .inl rfl⟩⟩, fun s₁ h₁ => ?_⟩
    obtain rfl := Option.some.inj h₁
    refine ⟨⟨rfl, Nat.le_refl 1, fun hb => absurd rfl hb, fun _ _ => ⟨rfl, rfl⟩⟩, fun s₂ h₂ => ?_⟩
    obtain rfl := Option.some.inj h₂
    exact ⟨fun _ => ⟨rfl, rfl⟩, fun _ _ => trivial⟩
  have h := session_restarts_and_resumes initial_factory hes rfl
  obtain ⟨status, t, ht, hstart, -⟩ := h.2 (byteImage .app [50]) (some .ok) true
    ⟨rfl, rfl, rfl, fun i hi => absurd hi (Nat.not_lt_zero i), fun _ => ⟨by decide, .inl rfl⟩⟩
  exact ⟨_, rfl, h.1 .hotword, status, t, ht, hstart⟩

end EarbudFirmware.AiOta
