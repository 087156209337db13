import EarbudFirmware.Nv.Integrity

/-!
# Power losses

Runs are recorded with the snapshots that the flushes take and the records that the restarts load.

## Main definitions

* `Entry`, `tracedStep` — the system with its history
* `IsSnapshot` — a record that the run started with or took

## Main results

* `flash_intact` — a power loss at any time leaves a complete snapshot, which a restart loads
-/

namespace EarbudFirmware.Nv

open NorMemory (Content)
open Transition (Along)

/-! ### Snapshots -/

section

variable {nv : NvConfig} {s s' : NvSystem} {e : Event} {ok : Bool}

/-- A snapshot has just been taken, or the state is not the one after a snapshot. -/
def Fresh (nv : NvConfig) (s : NvSystem) : Prop :=
  s.state = .mainWritePending → record s.burnBuf = ramRecord nv s.ram

theorem fresh_of_ne (h : s.state ≠ .mainWritePending) : Fresh nv s := fun h' => absurd h' h

theorem fresh_flushSync (hst : s.state ≠ .mainWritePending) (h : flushSync nv s = some s') :
    Fresh nv s' := by
  unfold flushSync syncMain syncMainSnapshot at h
  split_ifs at h
  · exact Option.some.inj h ▸ fresh_of_ne hst
  · exact Option.some.inj h ▸ fresh_of_ne hst
  · rw [takeSnapshot_eq, Option.map_some] at h
    exact Option.some.inj h ▸ fun _ => record_recordBytes
  · exact Option.some.inj h ▸ fresh_of_ne hst
  · obtain rfl := Option.some.inj h
    unfold syncBak syncBakRead
    split_ifs <;> exact fresh_of_ne (by simp [syncBakWrite, hst])

theorem fresh_flushMainAsync (hst : s.state ≠ .mainWritePending)
    (h : flushMainAsync nv s ok = some s') : Fresh nv s' := by
  unfold flushMainAsync at h
  split at h
  case h_3 =>
    rw [takeSnapshot_eq] at h
    exact Option.some.inj h ▸ fun _ => record_recordBytes
  case h_4 hp => exact absurd hp hst
  case h_6 => cases h
  all_goals
    split_ifs at h <;> exact Option.some.inj h ▸ fresh_of_ne (by simp [hst])

theorem fresh_flushBakAsync (hst : s.state ≠ .mainWritePending)
    (h : flushBakAsync nv s ok = some s') : Fresh nv s' := by
  unfold flushBakAsync at h
  split at h
  case h_7 => cases h
  all_goals
    try split_ifs at h
    all_goals exact Option.some.inj h ▸ fresh_of_ne (by simp [hst, bakEnd])

theorem fresh_resume {p : SyncPoint} (hst : s.state ≠ .mainWritePending)
    (h : resume nv s ok p = some s') : Fresh nv s' := by
  cases p with
  | mainErase =>
    simp only [resume] at h
    split_ifs at h
    · rw [syncMainSnapshot, if_pos rfl, takeSnapshot_eq, Option.map_some] at h
      exact Option.some.inj h ▸ fun _ => record_recordBytes
    · exact Option.some.inj h ▸ fresh_of_ne hst
  | mainDrain =>
    simp only [resume] at h
    split_ifs at h <;> exact Option.some.inj h ▸ fresh_of_ne (by first | exact hst | simp [syncBak])
  | bakErase =>
    simp only [resume] at h
    split_ifs at h
    · exact Option.some.inj h ▸ fresh_of_ne (by simp [syncBakRead, syncBakWrite])
    · exact Option.some.inj h ▸ fresh_of_ne hst
  | bakDrain =>
    simp only [resume] at h
    split_ifs at h
    · exact fresh_flushSync (by simp [bakEnd]) h
    · exact Option.some.inj h ▸ fresh_of_ne hst
  | _ =>
    simp only [resume] at h
    try split_ifs at h
    all_goals exact Option.some.inj h ▸ fresh_of_ne (by first | exact hst | simp)

/-- The record of the burn buffer is a snapshot of the record in RAM when it is taken. -/
theorem fresh_step (hstep : step nv s e = some s') (hboot : e ≠ .boot)
    (hst : s.state ≠ .mainWritePending) : Fresh nv s' := by
  cases e with
  | ram payload => exact Option.some.inj hstep ▸ fresh_of_ne hst
  | update => exact Option.some.inj hstep ▸ fresh_of_ne hst
  | complete =>
    simp only [step] at hstep
    split at hstep
    · cases hstep
    · exact Option.some.inj hstep ▸ fresh_of_ne hst
  | suspend cells =>
    simp only [step] at hstep
    split_ifs at hstep
    exact Option.some.inj hstep ▸ fresh_of_ne hst
  | flushAsync ok =>
    simp only [step, flushAsync] at hstep
    split_ifs at hstep
    · exact Option.some.inj hstep ▸ fresh_of_ne hst
    · exact fresh_flushMainAsync hst hstep
    · exact fresh_flushBakAsync hst hstep
  | flushSync =>
    simp only [step] at hstep
    split_ifs at hstep
    exact fresh_flushSync hst hstep
  | resume ok =>
    obtain ⟨p, -, hstep⟩ := Option.bind_eq_some_iff.1 hstep
    exact fresh_resume hst hstep
  | boot => exact absurd rfl hboot

end

/-! ### Histories -/

/-- What a run leaves behind: a snapshot of the record in RAM that a flush took, and a record that a
restart loaded. -/
inductive Entry where
  | taken (r : List UInt8)
  | loaded (r : List UInt8)
  deriving DecidableEq

section

variable (nv : NvConfig)

/-- The record that a restart loads. -/
def loads (f : Content) : List Entry :=
  if dataIsValid nv (nv.sector f (loadedSector nv f)) then
    [.loaded (record (nv.sector f (loadedSector nv f)))]
  else []

/-- What one step from `s` to `s'` adds to the history. -/
def entries (s s' : NvSystem) : Event → List Entry
  | .boot => loads nv s.flash
  | _ =>
    if s.state ≠ .mainWritePending ∧ s'.state = .mainWritePending then
      [.taken (ramRecord nv s'.ram)]
    else []

/-- The first start. -/
def start (f : Content) : Option (NvSystem × List Entry) :=
  (nvRecordExtensionInit nv f).map fun s => (s, loads nv f)

/-- The step function with the history, newest entry first. -/
def tracedStep (t : NvSystem × List Entry) (e : Event) : Option (NvSystem × List Entry) :=
  (step nv t.1 e).map fun s' => (s', entries nv t.1 s' e ++ t.2)

end

/-- The record was in a valid sector `f₀` at the start of the run or was taken by a flush. -/
def IsSnapshot (nv : NvConfig) (f₀ : Content) (h : List Entry) (r : List UInt8) : Prop :=
  (∃ x, Good nv (· = r) f₀ x) ∨ .taken r ∈ h

variable {nv : NvConfig} {f₀ f : Content} {F G : List UInt8 → Prop} {s s' : NvSystem} {e : Event}
  {h : List Entry} {t t' : NvSystem × List Entry}

theorem tracedStep_eq_some :
    tracedStep nv t e = some t' ↔
      ∃ s', step nv t.1 e = some s' ∧ t' = (s', entries nv t.1 s' e ++ t.2) := by
  simp [tracedStep, eq_comm]

theorem entries_of_ne_boot (he : e ≠ .boot) :
    entries nv s s' e =
      if s.state ≠ .mainWritePending ∧ s'.state = .mainWritePending then
        [.taken (ramRecord nv s'.ram)]
      else [] := by
  cases e <;> first | rfl | exact absurd rfl he

/-- A snapshot that the step takes is in the history. -/
theorem taken_mem_entries (hstep : step nv s e = some s') (he : e ≠ .boot)
    (hs : s.state ≠ .mainWritePending) (hs' : s'.state = .mainWritePending) :
    .taken (record s'.burnBuf) ∈ entries nv s s' e := by
  rw [entries_of_ne_boot he, if_pos ⟨hs, hs'⟩, fresh_step hstep he hs hs']
  exact List.mem_singleton_self _

/-- A sector is valid when it can be loaded. -/
theorem good_loadedSector {x : Sector} (hv : dataIsValid nv (nv.sector f x) = true) :
    dataIsValid nv (nv.sector f (loadedSector nv f)) = true := by
  unfold loadedSector
  split_ifs with hm
  · exact hm
  · cases x with
    | main => exact absurd hv hm
    | bak => exact hv

theorem IsSnapshot.mono {h' : List Entry} {r : List UInt8} (hr : IsSnapshot nv f₀ h r) :
    IsSnapshot nv f₀ (h' ++ h) r :=
  hr.imp_right fun hm => List.mem_append_right _ hm

/-- The invariant of `flash_intact`: whatever a valid sector holds is a snapshot. -/
def Snapshots (nv : NvConfig) (f₀ : Content) (t : NvSystem × List Entry) : Prop :=
  Inv nv (IsSnapshot nv f₀ t.2) (IsSnapshot nv f₀ t.2) t.1

theorem Snapshots.step (hi : Snapshots nv f₀ t) (htorn : TornDetected nv t.1 e)
    (hstep : tracedStep nv t e = some t') : Snapshots nv f₀ t' := by
  obtain ⟨s', hs', rfl⟩ := tracedStep_eq_some.1 hstep
  have hi' : Inv nv (IsSnapshot nv f₀ (entries nv t.1 s' e ++ t.2))
      (IsSnapshot nv f₀ (entries nv t.1 s' e ++ t.2)) t.1 :=
    hi.mono (fun _ => IsSnapshot.mono) fun _ => IsSnapshot.mono
  by_cases he : e = .boot
  · subst he
    obtain ⟨s, hs, hinv, -⟩ := (hi'.recoverable fun _ hr => hr).boot
    obtain rfl : s = s' := Option.some.inj (hs.symm.trans hs')
    exact hinv
  · refine hi'.step (fun _ hr => hr) hs' he htorn (fun hem => (hi'.atRest hem).bak.2) ?_
    exact fun hst hst' => .inr (List.mem_append_left _ (taken_mem_entries hs' he hst hst'))

/-- A flash with a valid sector is recoverable. -/
theorem recoverable_of_valid (hF : ∀ x, dataIsValid nv (nv.sector f x) = true →
    F (record (nv.sector f x))) {x : Sector} (hv : dataIsValid nv (nv.sector f x) = true) :
    Recoverable nv F F f :=
  ⟨⟨good_loadedSector hv, hF _ (good_loadedSector hv)⟩, hF⟩

theorem Snapshots.start {x : Sector} (hv : dataIsValid nv (nv.sector f₀ x) = true)
    (ht : start nv f₀ = some t) : Snapshots nv f₀ t := by
  obtain ⟨s, hs, rfl⟩ := Option.map_eq_some_iff.1 ht
  have hrec : Recoverable nv (IsSnapshot nv f₀ (loads nv f₀)) (IsSnapshot nv f₀ (loads nv f₀)) f₀ :=
    recoverable_of_valid (fun y hy => .inl ⟨y, hy, rfl⟩) hv
  obtain ⟨s', hs', hinv, -⟩ := hrec.boot
  obtain rfl : s' = s := Option.some.inj (hs'.symm.trans hs)
  exact hinv

/-- A power loss at any time leaves a valid sector, and every valid sector holds a snapshot. A
restart from that flash loads one. -/
theorem flash_intact {x : Sector} (hv : dataIsValid nv (nv.sector f₀ x) = true)
    (ht : start nv f₀ = some t) {es : List Event}
    (htorn : Along (tracedStep nv) (fun t e => TornDetected nv t.1 e) t es)
    (hrun : es.foldlM (tracedStep nv) t = some t') :
    (∃ y, dataIsValid nv (nv.sector t'.1.flash y) = true) ∧
      (∀ y, Holds nv (IsSnapshot nv f₀ t'.2) t'.1.flash y) ∧
      ∃ s r, nvRecordExtensionInit nv t'.1.flash = some s ∧ IsSnapshot nv f₀ t'.2 r ∧
        Loads r s := by
  have hi : Snapshots nv f₀ t' :=
    htorn.preserves (fun _ _ _ hi => hi.step) hrun (.start hv ht)
  have hrec := hi.recoverable fun _ hr => hr
  obtain ⟨s, hs, -, hl⟩ := hrec.boot
  exact ⟨⟨_, hrec.loaded.1⟩, hrec.holds, s, _, hs, hrec.loaded.2, hl⟩

/-! ### An interrupted erase -/

/-- A build with four bytes of user data. -/
def smallConfig : NvConfig where
  userdataStart := 0
  validLen := 4
  initial := fun _ => 0
  defaults := fun _ => 0
  validLen_lt := by decide

/-- Both sectors hold the same record. -/
def twoCopies (ram : Content) : Content := fun p => recordBytes smallConfig ram (p % extensionSize)

theorem sector_twoCopies (ram : Content) (x : Sector) :
    ∀ i < smallConfig.recordSize,
      smallConfig.sector (twoCopies ram) x i = recordBytes smallConfig ram i := by
  intro i hi
  have hi : i < extensionSize := lt_of_lt_of_le hi smallConfig.recordSize_le
  cases x with
  | main =>
    simp [NvConfig.sector, NvConfig.start, smallConfig, twoCopies, Nat.mod_eq_of_lt hi]
  | bak =>
    simp [NvConfig.sector, NvConfig.start, smallConfig, twoCopies, Nat.mod_eq_of_lt hi]

theorem dataIsValid_twoCopies (ram : Content) (x : Sector) :
    dataIsValid smallConfig (smallConfig.sector (twoCopies ram) x) = true :=
  dataIsValid_congr (sector_twoCopies ram x) dataIsValid_recordBytes

/-- The power is lost in the middle of the erase of `main`. -/
def halfErased : Content := fun p => if p < 2048 then 0xFF else twoCopies (fun _ => 7) p

/-- The erase of `main` is queued. -/
def erasing : NvSystem :=
  { booted smallConfig (twoCopies fun _ => 7) false .idle with
    ram := fun _ => 9, isUpdate := true, state := .mainErased
    queue := [smallConfig.eraseOp .main] }

theorem flash_intact_halfErased :
    ∃ t t' : NvSystem × List Entry,
      start smallConfig (twoCopies fun _ => 7) = some t ∧
      [Event.ram fun _ => 9, .update, .flushAsync true, .suspend halfErased, .boot].foldlM
        (tracedStep smallConfig) t = some t' ∧
      ∃ s r, nvRecordExtensionInit smallConfig t'.1.flash = some s ∧
        IsSnapshot smallConfig (twoCopies fun _ => 7) t'.2 r ∧ Loads r s := by
  have hmain := dataIsValid_twoCopies (fun _ => 7) .main
  have hbak := dataIsValid_twoCopies (fun _ => 7) .bak
  have hhalf : dataIsValid smallConfig (smallConfig.sector halfErased .main) = false :=
    dataIsValid_of_erased fun i hi => by
      have hi : i < 16 := hi
      simp only [NvConfig.sector, NvConfig.start, smallConfig, halfErased]
      exact if_pos (by omega)
  have hsame : smallConfig.Same halfErased (twoCopies fun _ => 7) .bak := fun i _ => by
    simp only [NvConfig.sector, NvConfig.start, smallConfig, halfErased, extensionSize]
    exact if_neg (by omega)
  have ht : start smallConfig (twoCopies fun _ => 7) =
      some (booted smallConfig (twoCopies fun _ => 7) false .idle,
        loads smallConfig (twoCopies fun _ => 7)) := by
    rw [start, nvRecordExtensionInit_eq (good_loadedSector hmain), if_neg (by simp [hmain]),
      if_neg (by simp [hbak])]
    rfl
  have hboot : nvRecordExtensionInit smallConfig halfErased =
      flushSync smallConfig (booted smallConfig halfErased true .idle) := by
    have hv : dataIsValid smallConfig (smallConfig.sector halfErased .bak) = true :=
      dataIsValid_congr hsame hbak
    rw [nvRecordExtensionInit_eq (good_loadedSector hv), if_pos hhalf]
  have hpart : (smallConfig.eraseOp .main).Partial (twoCopies fun _ => 7) halfErased := by
    intro p
    split_ifs with hp
    · trivial
    · have hp : ¬p < 2048 := fun h => hp ⟨Nat.zero_le p, by unfold extensionSize; omega⟩
      exact if_neg hp
  have hd : ∀ x, dataIsValid smallConfig (smallConfig.sector halfErased x) = true →
      Good smallConfig (· = record (smallConfig.sector halfErased x)) (twoCopies fun _ => 7) x := by
    intro x hv
    cases x with
    | main => exact absurd hv (by simp [hhalf])
    | bak => exact .congr hsame.symm ⟨hv, rfl⟩
  have herase : ∀ h, [Event.ram fun _ => 9, .update, .flushAsync true].foldlM
      (tracedStep smallConfig) (booted smallConfig (twoCopies fun _ => 7) false .idle, h) =
      some (erasing, h) := fun _ => rfl
  have hboot' : ∀ h, tracedStep smallConfig ({ erasing with flash := halfErased }, h) .boot =
      some ({ booted smallConfig halfErased true .idle with sync := some .mainErase },
        loads smallConfig halfErased ++ h) := fun h => tracedStep_eq_some.2 ⟨_, hboot, rfl⟩
  have hrun : ∀ h, ([Event.ram fun _ => 9, .update, .flushAsync true] ++
      [Event.suspend halfErased, .boot]).foldlM (tracedStep smallConfig)
        (booted smallConfig (twoCopies fun _ => 7) false .idle, h) =
      some ({ booted smallConfig halfErased true .idle with sync := some .mainErase },
        loads smallConfig halfErased ++ h) := fun h => by
    have hcut : tracedStep smallConfig (erasing, h) (.suspend halfErased) =
        some ({ erasing with flash := halfErased }, h) := rfl
    simp only [List.foldlM_append, herase, List.foldlM_cons, List.foldlM_nil, hcut, hboot',
      Option.bind_eq_bind, Option.bind_some]
    rfl
  refine ⟨_, _, ht, hrun _, (flash_intact hmain ht ?_ (hrun _)).2.2⟩
  change Along _ _ _ ([Event.ram fun _ => 9, .update, .flushAsync true] ++
    [Event.suspend halfErased, .boot])
  refine Transition.along_append.2 ⟨?_, fun t h => ?_⟩
  · exact ⟨trivial, fun _ _ => ⟨trivial, fun _ _ => ⟨trivial, fun _ _ => trivial⟩⟩⟩
  · obtain rfl := Option.some.inj ((herase _).symm.trans h)
    refine ⟨fun op q hq => ?_, fun _ _ => ⟨trivial, fun _ _ => trivial⟩⟩
    obtain ⟨rfl, -⟩ := List.cons.inj hq
    exact ⟨hpart, fun x hv => .inl (hd x hv)⟩

end EarbudFirmware.Nv
