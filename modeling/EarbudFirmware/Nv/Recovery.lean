import EarbudFirmware.Nv.PowerLoss

/-!
# Recovery and the age of the records

A restart with two valid sectors loads `main` and leaves `bak` as it is. When `bak` is older, the
next flush erases the only copy of the record that has been loaded, and a power loss goes back to
the older one. As long as no such erase is queued, no restart goes back.

## Main definitions

* `Current` — the records that a restart may load without going back
* `BackupInStep` — the backup is as new as `main` when `main` is erased

## Main results

* `loaded_or_taken` — later restarts load the same record or one that was taken in between
* `goes_back` — a run in which a restart goes back
-/

namespace EarbudFirmware.Nv

open NorMemory (Content)
open Transition (Along)

/-- The record loaded last and the snapshots taken since; all records before the first restart that
loads one. -/
def Current : List Entry → List UInt8 → Prop
  | [], _ => True
  | .taken r' :: h, r => r = r' ∨ Current h r
  | .loaded r' :: _, r => r = r'

/-- No restart of the history goes back. -/
def Ordered : List Entry → Prop
  | [] => True
  | .taken _ :: h => Ordered h
  | .loaded r :: h => Current h r ∧ Ordered h

/-- When the erase of `main` is queued, `bak` holds the record of `main`, or `main` is not valid. -/
def BackupInStep (nv : NvConfig) (s : NvSystem) (e : Event) : Prop :=
  ErasesMain s e → dataIsValid nv (nv.sector s.flash .main) = false ∨
    record (nv.sector s.flash .bak) = record (nv.sector s.flash .main)

variable {nv : NvConfig} {f : Content} {s s' : NvSystem} {e : Event} {h h₁ h₂ : List Entry}
  {t t' : NvSystem × List Entry} {r r' : List UInt8}

/-! ### Histories -/

theorem current_of_not_loaded (hl : ∀ r, Entry.loaded r ∉ h) (r : List UInt8) : Current h r := by
  induction h with
  | nil => trivial
  | cons x h ih =>
    cases x with
    | taken r' => exact .inr (ih fun r hr => hl r (List.mem_cons_of_mem _ hr))
    | loaded r' => exact absurd List.mem_cons_self (hl r')

/-- Loads go through the restarts in between. -/
theorem Ordered.eq_or_taken (ho : Ordered (h₂ ++ .loaded r :: h₁))
    (hc : Current (h₂ ++ .loaded r :: h₁) r') : r' = r ∨ .taken r' ∈ h₂ := by
  induction h₂ generalizing r' with
  | nil => exact .inl hc
  | cons x h₂ ih =>
    cases x with
    | taken r₂ =>
      rcases hc with rfl | hc
      · exact .inr List.mem_cons_self
      · exact (ih ho hc).imp_right (List.mem_cons_of_mem _)
    | loaded r₂ =>
      obtain rfl : r' = r₂ := hc
      exact (ih ho.2 ho.1).imp_right (List.mem_cons_of_mem _)

theorem Ordered.of_append (ho : Ordered (h₂ ++ h)) : Ordered h := by
  induction h₂ with
  | nil => exact ho
  | cons x h₂ ih =>
    cases x with
    | taken _ => exact ih ho
    | loaded _ => exact ih ho.2

/-! ### The invariant -/

/-- The history goes forward, and after the first load a restart can only load what is current. -/
structure Forward (nv : NvConfig) (t : NvSystem × List Entry) : Prop where
  ordered : Ordered t.2
  inv : (∃ r, .loaded r ∈ t.2) → Inv nv (Current t.2) (fun _ => True) t.1

/-- A restart that loads a record is the start of what is current. -/
theorem inv_of_loads (hv : dataIsValid nv (nv.sector f (loadedSector nv f)) = true)
    (hs : nvRecordExtensionInit nv f = some s) :
    Inv nv (Current (loads nv f ++ h)) (fun _ => True) s := by
  have hrec : Recoverable nv (Current (loads nv f ++ h)) (fun _ => True) f := by
    rw [loads, if_pos hv]
    exact ⟨⟨hv, rfl⟩, fun _ _ => trivial⟩
  obtain ⟨s', hs', hinv, -⟩ := hrec.boot
  obtain rfl : s' = s := Option.some.inj (hs'.symm.trans hs)
  exact hinv

/-- A restart goes forward when what it loads is current. -/
theorem forward_boot (ho : Ordered h) (hs : nvRecordExtensionInit nv f = some s)
    (hcur : dataIsValid nv (nv.sector f (loadedSector nv f)) = true →
      Current h (record (nv.sector f (loadedSector nv f))))
    (hnone : dataIsValid nv (nv.sector f (loadedSector nv f)) = false →
      ∀ r, Entry.loaded r ∉ h) : Forward nv (s, loads nv f ++ h) := by
  cases hv : dataIsValid nv (nv.sector f (loadedSector nv f)) with
  | true =>
    refine ⟨?_, fun _ => inv_of_loads hv hs⟩
    rw [loads, if_pos hv]
    exact ⟨hcur hv, ho⟩
  | false =>
    -- the defaults have been built
    rw [show loads nv f = [] by simp [loads, hv]]
    exact ⟨ho, fun ⟨r, hr⟩ => absurd hr (hnone hv r)⟩

theorem Forward.start (ht : start nv f = some t) : Forward nv t := by
  obtain ⟨s, hs, rfl⟩ := Option.map_eq_some_iff.1 ht
  have := forward_boot (h := []) trivial hs (fun _ => trivial) fun _ _ => List.not_mem_nil
  rwa [List.append_nil] at this

/-- Taking a snapshot adds it to what is current. -/
theorem current_entries (he : e ≠ .boot) (hr : Current h r) :
    Current (entries nv s s' e ++ h) r := by
  rw [entries_of_ne_boot he]
  split_ifs
  · exact .inr hr
  · exact hr

theorem current_taken (hstep : step nv s e = some s') (he : e ≠ .boot)
    (hst : s.state ≠ .mainWritePending) (hst' : s'.state = .mainWritePending) :
    Current (entries nv s s' e ++ h) (record s'.burnBuf) := by
  rw [entries_of_ne_boot he, if_pos ⟨hst, hst'⟩, fresh_step hstep he hst hst']
  exact .inl rfl

theorem ordered_entries (he : e ≠ .boot) (ho : Ordered h) : Ordered (entries nv s s' e ++ h) := by
  rw [entries_of_ne_boot he]
  split_ifs <;> exact ho

theorem loaded_mem_entries (he : e ≠ .boot) (hl : .loaded r ∈ entries nv s s' e ++ h) :
    .loaded r ∈ h := by
  rw [entries_of_ne_boot he] at hl
  split_ifs at hl
  · exact (List.mem_cons.1 hl).resolve_left nofun
  · exact hl

theorem Forward.step (hf : Forward nv t) (htorn : TornDetected nv t.1 e)
    (hbak : BackupInStep nv t.1 e) (hstep : tracedStep nv t e = some t') : Forward nv t' := by
  obtain ⟨s', hs', rfl⟩ := tracedStep_eq_some.1 hstep
  by_cases he : e = .boot
  · subst he
    refine forward_boot hf.ordered hs' (fun hv => ?_) fun hv r hr => ?_
    · by_cases hl : ∃ r, Entry.loaded r ∈ t.2
      · exact ((hf.inv hl).recoverable fun _ _ => trivial).loaded.2
      · exact current_of_not_loaded (fun r hr => hl ⟨r, hr⟩) _
    · have := ((hf.inv ⟨r, hr⟩).recoverable fun _ _ => trivial).loaded.1
      simp [hv] at this
  · refine ⟨ordered_entries he hf.ordered, fun ⟨r, hr⟩ => ?_⟩
    have hi := hf.inv ⟨r, loaded_mem_entries he hr⟩
    refine (hi.mono (fun _ => current_entries he) fun _ h => h).step (fun _ _ => trivial) hs' he
      htorn (fun hem => current_entries he ?_) fun hst hst' => current_taken hs' he hst hst'
    -- the backup that the erase leaves is current
    obtain ⟨-, hm, -, hfall⟩ := hi.atRest hem
    cases hv : dataIsValid nv (nv.sector t.1.flash .main) with
    | false => exact hfall hv
    | true =>
      rcases hbak hem with hb | hb
      · simp [hv] at hb
      · rw [hb]
        exact hm hv

/-- In a run whose erases of `main` leave a backup that is as new, a later restart loads the record
of an earlier one or one that was taken in between. -/
theorem loaded_or_taken (ht : start nv f = some t) {es : List Event}
    (hes : Along (tracedStep nv) (fun t e => TornDetected nv t.1 e ∧ BackupInStep nv t.1 e) t es)
    (hrun : es.foldlM (tracedStep nv) t = some t') {h₃ : List Entry}
    (hh : t'.2 = h₃ ++ .loaded r' :: (h₂ ++ .loaded r :: h₁)) : r' = r ∨ .taken r' ∈ h₂ := by
  have hf : Forward nv t' :=
    hes.preserves (fun _ _ _ hf hg => hf.step hg.1 hg.2) hrun (.start ht)
  have ho := hf.ordered
  rw [hh] at ho
  obtain ⟨hc, ho⟩ := ho.of_append
  exact ho.eq_or_taken hc

/-! ### A backup that is older -/

/-- Both sectors are valid; `main` has been rewritten since. -/
def olderBackup : Content :=
  (smallConfig.writeOp .main (recordBytes smallConfig fun _ => 9)).apply
    ((smallConfig.eraseOp .main).apply (twoCopies fun _ => 7))

theorem olderBackup_main :
    ∀ i < smallConfig.recordSize,
      smallConfig.sector olderBackup .main i = recordBytes smallConfig (fun _ => 9) i := by
  intro i hi
  rw [olderBackup, sector_writeOp hi, sector_eraseOp hi, NorMemory.erased_and]

theorem olderBackup_bak :
    ∀ i < smallConfig.recordSize,
      smallConfig.sector olderBackup .bak i = recordBytes smallConfig (fun _ => 7) i := by
  intro i hi
  have hw : smallConfig.On .main (smallConfig.writeOp .main (recordBytes smallConfig fun _ => 9)) :=
    smallConfig.on_writeOp
  have he := smallConfig.on_eraseOp (x := .main)
  rw [olderBackup, hw.same_apply (y := .bak) nofun _ i hi, he.same_apply (y := .bak) nofun _ i hi,
    sector_twoCopies _ _ i hi]

/-- `main` has been rewritten, and the power is lost before `bak` is. -/
def rewriteMain : List Event :=
  [.ram fun _ => 9, .update, .flushAsync true, .complete, .flushAsync true, .flushAsync true,
    .complete, .flushAsync true, .boot]

/-- The erase of `main` is executed in the next flush, and the power is lost again. -/
def eraseMain : List Event := [.update, .flushAsync true, .complete, .boot]

theorem loads_of_bytes {x : Sector} {ram : Content} (hl : loadedSector smallConfig f = x)
    (hs : ∀ i < smallConfig.recordSize, smallConfig.sector f x i = recordBytes smallConfig ram i) :
    loads smallConfig f = [.loaded (ramRecord smallConfig ram)] := by
  have hv : dataIsValid smallConfig (smallConfig.sector f x) = true :=
    dataIsValid_congr hs dataIsValid_recordBytes
  rw [loads, hl, if_pos hv, record_congr hs (headerValidLen_le dataIsValid_recordBytes),
    record_recordBytes]

/-- A restart with two valid sectors flushes nothing. -/
theorem init_of_valid {nv : NvConfig}
    (hmain : dataIsValid nv (nv.sector f .main) = true)
    (hbak : dataIsValid nv (nv.sector f .bak) = true) :
    nvRecordExtensionInit nv f = some (booted nv f false .idle) := by
  rw [nvRecordExtensionInit_eq (good_loadedSector hmain), if_neg (by simp [hmain]),
    if_neg (by simp [hbak])]

theorem start_twoCopies :
    start smallConfig (twoCopies fun _ => 7) =
      some (booted smallConfig (twoCopies fun _ => 7) false .idle,
        [.loaded (ramRecord smallConfig fun _ => 7)]) := by
  have hmain := dataIsValid_twoCopies (fun _ => 7) .main
  rw [start, init_of_valid hmain (dataIsValid_twoCopies _ .bak), Option.map_some,
    loads_of_bytes (if_pos hmain) (sector_twoCopies (fun _ => 7) .main)]

theorem dataIsValid_olderBackup (x : Sector) :
    dataIsValid smallConfig (smallConfig.sector olderBackup x) = true := by
  cases x with
  | main => exact dataIsValid_congr olderBackup_main dataIsValid_recordBytes
  | bak => exact dataIsValid_congr olderBackup_bak dataIsValid_recordBytes

theorem run_rewriteMain (h : List Entry) :
    rewriteMain.foldlM (tracedStep smallConfig)
        (booted smallConfig (twoCopies fun _ => 7) false .idle, h) =
      some (booted smallConfig olderBackup false .idle,
        .loaded (ramRecord smallConfig fun _ => 9) ::
          .taken (ramRecord smallConfig fun _ => 9) :: h) := by
  have hboot := init_of_valid (dataIsValid_olderBackup .main) (dataIsValid_olderBackup .bak)
  have hload := loads_of_bytes (if_pos (dataIsValid_olderBackup .main)) olderBackup_main
  unfold olderBackup at hboot hload
  simp [rewriteMain, tracedStep, step, flushAsync, flushMainAsync, entries, takeSnapshot_eq,
    NvState.isMain, booted]
  exact ⟨hboot, by rw [hload, List.singleton_append]⟩

/-- The content after the power has been lost once more. -/
def erasedAgain : Content := (smallConfig.eraseOp .main).apply olderBackup

theorem run_eraseMain (h : List Entry) :
    eraseMain.foldlM (tracedStep smallConfig) (booted smallConfig olderBackup false .idle, h) =
      some ({ booted smallConfig erasedAgain true .idle with sync := some .mainErase },
        .loaded (ramRecord smallConfig fun _ => 7) :: h) := by
  have hmain : dataIsValid smallConfig (smallConfig.sector erasedAgain .main) = false :=
    dataIsValid_of_erased fun i hi => sector_eraseOp (by unfold NvConfig.recordSize; omega) _
  have hbytes : ∀ i < smallConfig.recordSize,
      smallConfig.sector erasedAgain .bak i = recordBytes smallConfig (fun _ => 7) i :=
      fun i hi => by
    have he := smallConfig.on_eraseOp (x := .main)
    rw [erasedAgain, he.same_apply (y := .bak) nofun _ i hi, olderBackup_bak i hi]
  have hl : loadedSector smallConfig erasedAgain = .bak := by simp [loadedSector, hmain]
  have hbak := dataIsValid_congr hbytes dataIsValid_recordBytes
  have hboot : nvRecordExtensionInit smallConfig erasedAgain =
      some { booted smallConfig erasedAgain true .idle with sync := some .mainErase } := by
    rw [nvRecordExtensionInit_eq (good_loadedSector hbak), if_pos hmain]
    rfl
  have hload := loads_of_bytes hl hbytes
  unfold erasedAgain at hboot hload
  simp [eraseMain, tracedStep, step, flushAsync, flushMainAsync, entries, NvState.isMain, booted]
  exact ⟨hboot, by rw [hload, List.singleton_append]⟩

/-- A run without interrupted operations meets the assumption on them. -/
theorem along_torn {es : List Event} (hes : ∀ e ∈ es, ∀ cells, e ≠ .suspend cells) :
    Along (tracedStep nv) (fun t e => TornDetected nv t.1 e) t es := by
  induction es generalizing t with
  | nil => trivial
  | cons e es ih =>
    refine ⟨?_, fun u _ => ih fun e' he' => hes e' (List.mem_cons_of_mem _ he')⟩
    cases e with
    | suspend cells => exact absurd rfl (hes _ List.mem_cons_self cells)
    | _ => trivial

/-- The record of the first restart after `main` has been rewritten. -/
theorem loaded_or_taken_rewriteMain :
    ramRecord smallConfig (fun _ => 9) = ramRecord smallConfig (fun _ => 7) ∨
      .taken (ramRecord smallConfig fun _ => 9) ∈
        [Entry.taken (ramRecord smallConfig fun _ => 9)] := by
  have hsame : record (smallConfig.sector (twoCopies fun _ => 7) .bak) =
      record (smallConfig.sector (twoCopies fun _ => 7) .main) := by
    have hlen : headerValidLen (recordBytes smallConfig fun _ => 7) ≤ smallConfig.validLen :=
      headerValidLen_le dataIsValid_recordBytes
    rw [record_congr (sector_twoCopies _ .bak) hlen, record_congr (sector_twoCopies _ .main) hlen]
  suffices hes : Along (tracedStep smallConfig)
      (fun t e => TornDetected smallConfig t.1 e ∧ BackupInStep smallConfig t.1 e)
      (booted smallConfig (twoCopies fun _ => 7) false .idle,
        [.loaded (ramRecord smallConfig fun _ => 7)]) rewriteMain from
    loaded_or_taken start_twoCopies hes (run_rewriteMain _) (List.nil_append _).symm
  simp [rewriteMain, TornDetected, BackupInStep, ErasesMain, tracedStep, step, flushAsync,
    flushMainAsync, takeSnapshot_eq, NvState.isMain, booted, hsame]

/-- The second restart loads the record that was current before the first one. -/
theorem goes_back :
    ¬∀ (t t' : NvSystem × List Entry) (es : List Event) (h₁ h₂ h₃ : List Entry) (r r' : List UInt8),
      start smallConfig (twoCopies fun _ => 7) = some t →
      Along (tracedStep smallConfig) (fun t e => TornDetected smallConfig t.1 e) t es →
      es.foldlM (tracedStep smallConfig) t = some t' →
      t'.2 = h₃ ++ .loaded r' :: (h₂ ++ .loaded r :: h₁) → r' = r ∨ .taken r' ∈ h₂ := by
  intro hall
  have hrun := Transition.foldlM_append_of
    (run_rewriteMain [.loaded (ramRecord smallConfig fun _ => 7)]) (run_eraseMain _)
  have hback := hall _ _ _ [.taken (ramRecord smallConfig fun _ => 9),
    .loaded (ramRecord smallConfig fun _ => 7)] [] [] (ramRecord smallConfig fun _ => 9)
    (ramRecord smallConfig fun _ => 7) start_twoCopies
    (along_torn (by simp [rewriteMain, eraseMain])) hrun rfl
  revert hback
  decide +kernel

end EarbudFirmware.Nv
