import EarbudFirmware.Nv.Recovery

/-!
# A synchronous flush is complete

A synchronous flush may start in any state of an asynchronous one, with operations in the queue of
the flash service and with an older snapshot in the burn buffer. It ends when both sectors hold the
record in RAM. Only a change of the record that `nv_record_extension_update` has not announced, and
that came after the snapshot, is not in the sectors then.

What the sectors will hold when the queue has been executed does not depend on when it is executed,
so the invariant is about that content.

## Main definitions

* `Tracks` — what the sectors will hold in each state of a flush
* `changedStep` — the system that remembers whether RAM has changed since the snapshot
* `Complete` — a finished flush
* `remaining`, `refusals` — how long a flush goes on

## Main results

* `Follows.step` — a step keeps the invariant
* `Follows.complete_of_resume` — where a synchronous flush ends it is complete
* `flushSync_completes` — from every reachable state a synchronous flush is complete, and it ends
-/

namespace EarbudFirmware.Nv

open NorMemory (Content Op)
open InOrder (after)
open Transition (Along)

variable {nv : NvConfig} {s s' : NvSystem} {P P' : Prop} {x y : Sector} {ok : Bool} {e : Event}
  {ram ram' buf main bak : Content} {st : NvState}

/-! ### What the sectors will hold -/

/-- Two contents agree on the bytes of a record. -/
def NvConfig.SameRecord (nv : NvConfig) (c d : Content) : Prop := ∀ i < nv.recordSize, c i = d i

/-- The sectors `main` and `bak` when the queue has been executed, in each state. When `P` holds the
snapshot is the record in RAM. The last three states do not occur between two calls. -/
def Tracks (nv : NvConfig) (P : Prop) (ram buf main bak : Content) : NvState → Prop
  | .idle | .mainErasing => True
  | .mainErased => ∀ i < nv.recordSize, main i = 0xFF
  | .mainWritePending =>
    (∀ i < nv.recordSize, main i = 0xFF) ∧ (P → nv.SameRecord buf (recordBytes nv ram))
  | .mainWritten | .mainDone | .bakErasing => P → nv.SameRecord main (recordBytes nv ram)
  | .bakErased =>
    (∀ i < nv.recordSize, bak i &&& main i = main i) ∧
      (P → nv.SameRecord main (recordBytes nv ram))
  | .bakWritePending =>
    ((∀ i < nv.recordSize, bak i &&& main i = main i) ∧ nv.SameRecord buf main) ∧
      (P → nv.SameRecord main (recordBytes nv ram))
  | .bakWritten => nv.SameRecord bak main ∧ (P → nv.SameRecord main (recordBytes nv ram))
  | .mainWritting | .bakWritting | .bakDone => False

theorem Tracks.mono (h : P' → P) (ht : Tracks nv P ram buf main bak st) :
    Tracks nv P' ram buf main bak st := by
  cases st with
  | idle => trivial
  | mainErasing => trivial
  | mainErased => exact ht
  | mainWritePending => exact ⟨ht.1, ht.2 ∘ h⟩
  | mainWritten => exact ht ∘ h
  | mainDone => exact ht ∘ h
  | bakErasing => exact ht ∘ h
  | bakErased => exact ⟨ht.1, ht.2 ∘ h⟩
  | bakWritePending => exact ⟨ht.1, ht.2 ∘ h⟩
  | bakWritten => exact ⟨ht.1, ht.2 ∘ h⟩
  | mainWritting => exact ht
  | bakWritting => exact ht
  | bakDone => exact ht

/-- The record in RAM does not matter while `P` does not hold. -/
theorem Tracks.of_not (h : ¬P') (ht : Tracks nv P ram buf main bak st) :
    Tracks nv P' ram' buf main bak st := by
  cases st with
  | idle => trivial
  | mainErasing => trivial
  | mainErased => exact ht
  | mainWritePending => exact ⟨ht.1, fun h' => absurd h' h⟩
  | mainWritten => exact fun h' => absurd h' h
  | mainDone => exact fun h' => absurd h' h
  | bakErasing => exact fun h' => absurd h' h
  | bakErased => exact ⟨ht.1, fun h' => absurd h' h⟩
  | bakWritePending => exact ⟨ht.1, fun h' => absurd h' h⟩
  | bakWritten => exact ⟨ht.1, fun h' => absurd h' h⟩
  | mainWritting => exact ht
  | bakWritting => exact ht
  | bakDone => exact ht

/-! ### Operations are queued -/

section Queued

variable {q : List Op} {f : Content}

/-- A sector when one more operation is queued. -/
theorem sector_after_concat (op : Op) :
    nv.sector (after Op.apply (q ++ [op]) f) x = nv.sector (op.apply (after Op.apply q f)) x := by
  rw [InOrder.after_append]
  rfl

/-- An operation on one sector leaves the other one. -/
theorem sector_after_other {op : Op} (h : nv.On x op) (hxy : y ≠ x) :
    nv.SameRecord (nv.sector (after Op.apply (q ++ [op]) f) y)
      (nv.sector (after Op.apply q f) y) := by
  rw [sector_after_concat]
  exact h.same_apply hxy _

theorem sector_after_erase {i : Nat} (hi : i < nv.recordSize) :
    nv.sector (after Op.apply (q ++ [nv.eraseOp x]) f) x i = 0xFF := by
  rw [sector_after_concat, sector_eraseOp hi]

theorem sector_after_write {i : Nat} (hi : i < nv.recordSize) :
    nv.sector (after Op.apply (q ++ [nv.writeOp x buf]) f) x i =
      nv.sector (after Op.apply q f) x i &&& buf i := by
  rw [sector_after_concat, sector_writeOp hi]

/-- `Tracks`, for the sectors that a queue leads to. -/
def TracksQueue (nv : NvConfig) (P : Prop) (ram buf f : Content) (q : List Op) (st : NvState) :
    Prop :=
  Tracks nv P ram buf (nv.sector (after Op.apply q f) .main) (nv.sector (after Op.apply q f) .bak)
    st

theorem TracksQueue.eraseMain :
    TracksQueue nv P ram buf f (q ++ [nv.eraseOp .main]) .mainErased :=
  fun _ hi => sector_after_erase hi

theorem TracksQueue.snapshot (h : TracksQueue nv P ram buf f q .mainErased) :
    TracksQueue nv P' ram (recordBytes nv ram) f q .mainWritePending :=
  ⟨h, fun _ _ _ => rfl⟩

theorem TracksQueue.writeMain (h : TracksQueue nv P ram buf f q .mainWritePending) :
    TracksQueue nv P ram buf f (q ++ [nv.writeOp .main buf]) .mainWritten := fun hP i hi => by
  rw [sector_after_write hi, h.1 i hi, NorMemory.erased_and]
  exact h.2 hP i hi

theorem TracksQueue.eraseBak (h : TracksQueue nv P ram buf f q .mainDone) :
    TracksQueue nv P ram buf f (q ++ [nv.eraseOp .bak]) .bakErased := by
  have hother : nv.SameRecord _ _ := sector_after_other (q := q) (f := f) nv.on_eraseOp
    (by decide : Sector.main ≠ .bak)
  refine ⟨fun i hi => ?_, fun hP i hi => ?_⟩
  · rw [sector_after_erase hi, NorMemory.erased_and]
  · rw [hother i hi]
    exact h hP i hi

theorem TracksQueue.readMain (h : TracksQueue nv P ram buf f q .bakErased) :
    TracksQueue nv P ram (nv.sector (after Op.apply q f) .main) f q .bakWritePending :=
  ⟨⟨h.1, fun _ _ => rfl⟩, h.2⟩

/-- A copy that has been written already is written once more. -/
theorem TracksQueue.readMain_again (h : TracksQueue nv P ram buf f q .bakWritten) :
    TracksQueue nv P ram (nv.sector (after Op.apply q f) .main) f q .bakWritePending :=
  ⟨⟨fun i hi => by rw [h.1 i hi, UInt8.and_self], fun _ _ => rfl⟩, h.2⟩

theorem TracksQueue.writeBak (h : TracksQueue nv P ram buf f q .bakWritePending) :
    TracksQueue nv P ram buf f (q ++ [nv.writeOp .bak buf]) .bakWritten := by
  have hon : nv.On .bak (nv.writeOp .bak buf) := nv.on_writeOp
  have hother : nv.SameRecord _ _ := sector_after_other (q := q) (f := f) hon
    (by decide : Sector.main ≠ .bak)
  refine ⟨fun i hi => ?_, fun hP i hi => ?_⟩
  · rw [sector_after_write hi, hother i hi, h.1.2 i hi]
    exact h.1.1 i hi
  · rw [hother i hi]
    exact h.2 hP i hi

end Queued

/-! ### The invariant of the system -/

/-- The sectors will hold what the state says, and a synchronous flush stands at a call of this
state. -/
structure Follows (nv : NvConfig) (P : Prop) (s : NvSystem) : Prop where
  tracks : TracksQueue nv P s.ram s.burnBuf s.flash s.queue s.state
  sync : ∀ p, s.sync = some p → p.At s.state

theorem Follows.mono (h : P' → P) (hf : Follows nv P s) : Follows nv P' s :=
  ⟨Tracks.mono h hf.tracks, hf.sync⟩

/-- Between two calls of a synchronous flush only the sectors matter. -/
theorem Follows.of_none (ht : TracksQueue nv P s.ram s.burnBuf s.flash s.queue s.state)
    (hs : s.sync = none) : Follows nv P s := ⟨ht, fun p h => by simp [hs] at h⟩

theorem Follows.of_some {p : SyncPoint}
    (ht : TracksQueue nv P s.ram s.burnBuf s.flash s.queue s.state) (hs : s.sync = some p)
    (hat : p.At s.state) : Follows nv P s :=
  ⟨ht, fun p' h => by
    obtain rfl : p = p' := Option.some.inj (hs.symm.trans h)
    exact hat⟩

/-- A snapshot is taken in the step. -/
def TakesSnapshot (s s' : NvSystem) : Prop :=
  s.state ≠ .mainWritePending ∧ s'.state = .mainWritePending

/-- `P'` without a snapshot in the step. -/
theorem imp_of_not_snapshot (hP : P' → P ∨ TakesSnapshot s s')
    (hst : s'.state ≠ .mainWritePending) :
    P' → P := fun h => (hP h).resolve_right fun hs => hst hs.2

theorem imp_of_mainWritePending (hP : P' → P ∨ TakesSnapshot s s')
    (hst : s.state = .mainWritePending) : P' → P := fun h =>
  (hP h).resolve_right fun hs => hs.1 hst

/-! ### The asynchronous path -/

theorem Follows.flushMainAsync (h : Follows nv P s) (hsync : s.sync = none)
    (hstep : flushMainAsync nv s ok = some s') (hP : P' → P ∨ TakesSnapshot s s') :
    Follows nv P' s' := by
  have ht := h.tracks
  unfold Nv.flushMainAsync at hstep
  split at hstep
  case h_1 hst | h_2 hst =>
    cases ok with
    | true =>
      obtain rfl := Option.some.inj hstep
      exact .of_none TracksQueue.eraseMain hsync
    | false =>
      obtain rfl := Option.some.inj hstep
      exact .of_none trivial hsync
  case h_3 hst =>
    rw [takeSnapshot_eq] at hstep
    obtain rfl := Option.some.inj hstep
    rw [hst] at ht
    exact .of_none ht.snapshot hsync
  case h_4 hst =>
    have himp := imp_of_mainWritePending hP hst
    cases ok with
    | true =>
      obtain rfl := Option.some.inj hstep
      rw [hst] at ht
      exact .of_none (Tracks.mono himp ht.writeMain) hsync
    | false =>
      obtain rfl := Option.some.inj hstep
      exact h.mono himp
  case h_5 hst =>
    rw [hst] at ht
    split_ifs at hstep with hq
    · obtain rfl := Option.some.inj hstep
      have himp := imp_of_not_snapshot hP nofun
      exact .of_none (fun hP' => ht (himp hP')) hsync
    · obtain rfl := Option.some.inj hstep
      exact h.mono (imp_of_not_snapshot hP (by simp [hst]))
  case h_6 => cases hstep

theorem Follows.flushBakAsync (h : Follows nv P s) (hsync : s.sync = none)
    (hstep : flushBakAsync nv s ok = some s') (hP : P' → P ∨ TakesSnapshot s s') :
    Follows nv P' s' := by
  have ht := h.tracks
  unfold Nv.flushBakAsync at hstep
  split at hstep
  case h_1 hst | h_2 hst =>
    have htd : TracksQueue nv P s.ram s.burnBuf s.flash s.queue .mainDone := by
      rw [hst] at ht
      exact ht
    cases ok with
    | true =>
      obtain rfl := Option.some.inj hstep
      exact .of_none (Tracks.mono (imp_of_not_snapshot hP nofun) htd.eraseBak) hsync
    | false =>
      obtain rfl := Option.some.inj hstep
      have himp := imp_of_not_snapshot hP nofun
      exact .of_none (fun hP' => htd (himp hP')) hsync
  case h_3 hst =>
    obtain rfl := Option.some.inj hstep
    rw [hst] at ht
    exact .of_none (Tracks.mono (imp_of_not_snapshot hP nofun) ht.readMain) hsync
  case h_4 hst =>
    rw [hst] at ht
    exact ht.elim
  case h_5 hst =>
    rw [hst] at ht
    cases ok with
    | true =>
      obtain rfl := Option.some.inj hstep
      exact .of_none (Tracks.mono (imp_of_not_snapshot hP nofun) ht.writeBak) hsync
    | false =>
      obtain rfl := Option.some.inj hstep
      exact h.mono (imp_of_not_snapshot hP (by simp [hst]))
  case h_6 hst =>
    split_ifs at hstep with hq
    · obtain rfl := Option.some.inj hstep
      exact .of_none trivial hsync
    · obtain rfl := Option.some.inj hstep
      exact h.mono (imp_of_not_snapshot hP (by simp [hst]))
  case h_7 => cases hstep

/-! ### The synchronous path -/

theorem follows_syncMainWrite (ht : TracksQueue nv P s.ram s.burnBuf s.flash s.queue s.state)
    (hst : s.state = .mainWritePending ∨ s.state = .mainWritten) :
    Follows nv P (syncMainWrite s) := by
  rcases hst with hst | hst
  · exact .of_some (p := .mainWrite) ht (by simp [syncMainWrite, hst]) hst
  · exact .of_some (p := .mainDrain) ht (by simp [syncMainWrite, hst]) hst

theorem follows_syncMainSnapshot (ht : TracksQueue nv P s.ram s.burnBuf s.flash s.queue s.state)
    (hst : s.state = .mainErased ∨ s.state = .mainWritePending ∨ s.state = .mainWritten)
    (hstep : syncMainSnapshot nv s = some s') (hP : P' → P ∨ s.state = .mainErased) :
    Follows nv P' s' := by
  unfold syncMainSnapshot at hstep
  split_ifs at hstep with he
  · rw [takeSnapshot_eq, Option.map_some] at hstep
    obtain rfl := Option.some.inj hstep
    rw [he] at ht
    exact follows_syncMainWrite ht.snapshot (.inl rfl)
  · obtain rfl := Option.some.inj hstep
    exact (follows_syncMainWrite ht (hst.resolve_left he)).mono fun h =>
      (hP h).resolve_right he

theorem follows_syncBakWrite (ht : TracksQueue nv P s.ram s.burnBuf s.flash s.queue s.state)
    (hst : s.state = .bakWritePending ∨ s.state = .bakWritten) :
    Follows nv P (syncBakWrite s) := by
  rcases hst with hst | hst
  · exact .of_some (p := .bakWrite) ht (by simp [syncBakWrite, hst]) hst
  · exact .of_some (p := .bakDrain) ht (by simp [syncBakWrite, hst]) hst

theorem follows_syncBakRead (ht : TracksQueue nv P s.ram s.burnBuf s.flash s.queue s.state)
    (hst : s.state = .bakErased ∨ s.state = .bakWritePending ∨ s.state = .bakWritten) :
    Follows nv P (syncBakRead nv s) := by
  unfold syncBakRead
  split_ifs with h
  · refine follows_syncBakWrite ?_ (.inl rfl)
    rcases h with h | h
    · rw [h] at ht
      exact ht.readMain
    · rw [h] at ht
      exact ht.readMain_again
  · rcases hst with hst | hst | hst
    · exact absurd (.inl hst) h
    · exact follows_syncBakWrite ht (.inl hst)
    · exact absurd (.inr hst) h

theorem follows_syncBak (ht : TracksQueue nv P s.ram s.burnBuf s.flash s.queue s.state)
    (hst : s.state.isMain = false) : Follows nv P (syncBak nv s) := by
  unfold syncBak
  split_ifs with h
  · exact .of_some (p := .bakErase) ht rfl h
  · refine follows_syncBakRead ht ?_
    cases h' : s.state <;> simp [h', NvState.isMain] at hst h ⊢ <;> rw [h'] at ht <;> exact ht.elim

/-- A synchronous flush only takes a snapshot when the erase of `main` is queued. -/
theorem mainErased_of_takesSnapshot (hstep : flushSync nv s = some s') (h : TakesSnapshot s s') :
    s.state = .mainErased := by
  obtain ⟨hne, hst⟩ := h
  unfold flushSync syncMain syncMainSnapshot at hstep
  split_ifs at hstep with hidle hmain he hsnap
  · obtain rfl := Option.some.inj hstep
    exact absurd hst hne
  · obtain rfl := Option.some.inj hstep
    exact absurd hst hne
  · exact hsnap
  · obtain rfl := Option.some.inj hstep
    exact absurd hst hne
  · obtain rfl := Option.some.inj hstep
    unfold syncBak syncBakRead at hst
    split_ifs at hst
    · exact absurd hst hne
    · cases hst
    · exact absurd hst hne

theorem follows_flushSync (ht : TracksQueue nv P s.ram s.burnBuf s.flash s.queue s.state)
    (hstep : flushSync nv s = some s') (hP : P' → P ∨ s.state = .mainErased) :
    Follows nv P' s' := by
  unfold flushSync at hstep
  split_ifs at hstep with hidle hmain
  · obtain rfl := Option.some.inj hstep
    refine .of_none ?_ rfl
    show TracksQueue nv P' s.ram s.burnBuf s.flash s.queue s.state
    rw [hidle.1]
    trivial
  · unfold syncMain at hstep
    split_ifs at hstep with he
    · obtain rfl := Option.some.inj hstep
      refine .of_some (p := .mainErase) ?_ rfl he
      refine Tracks.mono (fun h => (hP h).resolve_right fun h' => ?_) ht
      rcases he with he | he <;> rw [he] at h' <;> cases h'
    · refine follows_syncMainSnapshot ht ?_ hstep hP
      cases h' : s.state <;> simp [h', NvState.isMain] at hmain he ⊢
      rw [h'] at ht
      exact ht.elim
  · obtain rfl := Option.some.inj hstep
    have hmain : s.state.isMain = false := by simpa using hmain
    refine follows_syncBak (Tracks.mono (fun h => (hP h).resolve_right fun h' => ?_) ht) hmain
    rw [h'] at hmain
    cases hmain

theorem Follows.resume (h : Follows nv P s) {p : SyncPoint} (hsync : s.sync = some p)
    (hstep : resume nv s ok p = some s') (hP : P' → P ∨ TakesSnapshot s s') :
    Follows nv P' s' := by
  have ht := h.tracks
  have hat := h.sync p hsync
  cases p with
  | mainErase =>
    have hne : s.state ≠ .mainWritePending := by rcases hat with hat | hat <;> simp [hat]
    cases ok with
    | true =>
      have hstep : syncMainSnapshot nv { s with
        state := .mainErased, queue := s.queue ++ [nv.eraseOp .main] } = some s' := hstep
      exact follows_syncMainSnapshot (s := { s with
        state := .mainErased, queue := s.queue ++ [nv.eraseOp .main] }) (P := P)
        TracksQueue.eraseMain (.inl rfl) hstep fun _ => .inr rfl
    | false =>
      obtain rfl := Option.some.inj hstep
      exact .of_some (p := .mainEraseFlush) (Tracks.mono (imp_of_not_snapshot hP hne) ht) rfl hat
  | mainEraseFlush =>
    have hne : s.state ≠ .mainWritePending := by rcases hat with hat | hat <;> simp [hat]
    obtain rfl := Option.some.inj hstep
    have ht' := Tracks.mono (imp_of_not_snapshot hP hne) ht
    cases ok with
    | true => exact .of_some (p := .mainErase) ht' rfl hat
    | false => exact .of_some (p := .mainEraseFlush) ht' rfl hat
  | mainWrite =>
    have hat : s.state = .mainWritePending := hat
    have ht' := Tracks.mono (imp_of_mainWritePending hP hat) ht
    cases ok with
    | true =>
      obtain rfl := Option.some.inj hstep
      rw [hat] at ht'
      exact .of_some (p := .mainDrain) (TracksQueue.writeMain ht') rfl rfl
    | false =>
      obtain rfl := Option.some.inj hstep
      exact .of_some (p := .mainWriteFlush) ht' rfl hat
  | mainWriteFlush =>
    have hat : s.state = .mainWritePending := hat
    have ht' := Tracks.mono (imp_of_mainWritePending hP hat) ht
    obtain rfl := Option.some.inj hstep
    cases ok with
    | true => exact .of_some (p := .mainWrite) ht' rfl hat
    | false => exact .of_some (p := .mainWriteFlush) ht' rfl hat
  | mainDrain =>
    have hat : s.state = .mainWritten := hat
    simp only [Nv.resume] at hstep
    split_ifs at hstep with hq
    · obtain rfl := Option.some.inj hstep
      rw [hat] at ht
      have hdone : TracksQueue nv P s.ram s.burnBuf s.flash s.queue .mainDone := ht
      have himp := imp_of_not_snapshot hP (by simp [syncBak])
      exact (follows_syncBak (s := { s with state := .mainDone }) hdone rfl).mono himp
    · obtain rfl := Option.some.inj hstep
      exact h.mono (imp_of_not_snapshot hP (by simp [hat]))
  | bakErase =>
    have hdone : TracksQueue nv P s.ram s.burnBuf s.flash s.queue .mainDone := by
      rcases hat with hat | hat <;> rw [hat] at ht <;> exact ht
    have hne : s.state ≠ .mainWritePending := by rcases hat with hat | hat <;> simp [hat]
    cases ok with
    | true =>
      obtain rfl := Option.some.inj hstep
      have himp := imp_of_not_snapshot hP (by simp [syncBakRead, syncBakWrite])
      exact (follows_syncBakRead (s := { s with
        state := .bakErased, queue := s.queue ++ [nv.eraseOp .bak] })
        hdone.eraseBak (.inl rfl)).mono himp
    | false =>
      obtain rfl := Option.some.inj hstep
      exact .of_some (p := .bakEraseFlush) (Tracks.mono (imp_of_not_snapshot hP hne) ht) rfl hat
  | bakEraseFlush =>
    have hne : s.state ≠ .mainWritePending := by rcases hat with hat | hat <;> simp [hat]
    obtain rfl := Option.some.inj hstep
    have ht' := Tracks.mono (imp_of_not_snapshot hP hne) ht
    cases ok with
    | true => exact .of_some (p := .bakErase) ht' rfl hat
    | false => exact .of_some (p := .bakEraseFlush) ht' rfl hat
  | bakWrite =>
    have hat : s.state = .bakWritePending := hat
    cases ok with
    | true =>
      obtain rfl := Option.some.inj hstep
      rw [hat] at ht
      have himp := imp_of_not_snapshot hP (by simp)
      exact .of_some (p := .bakDrain) (Tracks.mono himp ht.writeBak) rfl rfl
    | false =>
      obtain rfl := Option.some.inj hstep
      exact .of_some (p := .bakWriteFlush)
        (Tracks.mono (imp_of_not_snapshot hP (by simp [hat])) ht) rfl hat
  | bakWriteFlush =>
    have hat : s.state = .bakWritePending := hat
    obtain rfl := Option.some.inj hstep
    have ht' := Tracks.mono (imp_of_not_snapshot hP (by simp [hat])) ht
    cases ok with
    | true => exact .of_some (p := .bakWrite) ht' rfl hat
    | false => exact .of_some (p := .bakWriteFlush) ht' rfl hat
  | bakDrain =>
    have hat : s.state = .bakWritten := hat
    simp only [Nv.resume] at hstep
    split_ifs at hstep with hq
    · refine follows_flushSync (s := bakEnd { s with state := .bakDone }) (P := P) trivial hstep
        fun h' => (hP h').imp_right fun hs => ?_
      exact mainErased_of_takesSnapshot hstep ⟨by simp [bakEnd], hs.2⟩
    · obtain rfl := Option.some.inj hstep
      exact h.mono (imp_of_not_snapshot hP (by simp [hat]))

/-! ### One step of the system -/

/-- An interrupted operation has changed a part of its range. -/
def Interrupts (s : NvSystem) : Event → Prop
  | .suspend cells => ∀ op q, s.queue = op :: q → op.Partial s.flash cells
  | _ => True

/-- Every step but a restart keeps the invariant. A new snapshot is the record in RAM. -/
theorem Follows.step (h : Follows nv P s) (hstep : step nv s e = some s') (hboot : e ≠ .boot)
    (hint : Interrupts s e) (hP : P' → (P ∧ ∀ payload, e ≠ .ram payload) ∨ TakesSnapshot s s') :
    Follows nv P' s' := by
  have hP' : P' → P ∨ TakesSnapshot s s' := fun h => (hP h).imp_left And.left
  have ht := h.tracks
  cases e with
  | ram payload =>
    obtain rfl := Option.some.inj hstep
    have hnot : ¬P' := fun h' => (hP h').elim (fun h => h.2 payload rfl) fun h => h.1 h.2
    exact ⟨Tracks.of_not hnot ht, h.sync⟩
  | update =>
    obtain rfl := Option.some.inj hstep
    have himp : P' → P := fun h' => (hP' h').resolve_right fun h => h.1 h.2
    exact ⟨Tracks.mono himp ht, h.sync⟩
  | complete =>
    cases hq : s.queue with
    | nil => simp [Nv.step, hq] at hstep
    | cons op q =>
      simp only [Nv.step, hq, Option.some.injEq] at hstep
      subst hstep
      have himp : P' → P := fun h' => (hP' h').resolve_right fun h => h.1 h.2
      rw [hq] at ht
      exact ⟨Tracks.mono himp ht, h.sync⟩
  | suspend cells =>
    cases hq : s.queue with
    | nil => simp [Nv.step, hq] at hstep
    | cons op q =>
      have hcells := (hint op q hq)
      simp only [Nv.step, hq, List.isEmpty_cons, Bool.false_eq_true, if_false,
        Option.some.injEq] at hstep
      subst hstep
      have himp : P' → P := fun h' => (hP' h').resolve_right fun h => h.1 h.2
      have happly : op.apply cells = op.apply s.flash := funext fun p => hcells.byteAt_eq p
      have hafter : after Op.apply (op :: q) cells = after Op.apply (op :: q) s.flash := by
        rw [InOrder.after_cons, InOrder.after_cons, happly]
      refine ⟨?_, h.sync⟩
      show Tracks nv P' s.ram s.burnBuf (nv.sector (after Op.apply (op :: q) cells) .main)
        (nv.sector (after Op.apply (op :: q) cells) .bak) s.state
      rw [hq] at ht
      rw [hafter]
      exact Tracks.mono himp ht
  | flushAsync ok =>
    simp only [Nv.step] at hstep
    split_ifs at hstep with hsync
    have hsync : s.sync = none := by simpa using hsync
    unfold flushAsync at hstep
    split_ifs at hstep with hidle hmain
    · obtain rfl := Option.some.inj hstep
      exact h.mono fun h' => (hP' h').resolve_right fun h => h.1 h.2
    · exact h.flushMainAsync hsync hstep hP'
    · exact h.flushBakAsync hsync hstep hP'
  | flushSync =>
    simp only [Nv.step] at hstep
    split_ifs at hstep with hsync
    exact follows_flushSync ht hstep fun h' =>
      (hP' h').imp_right (mainErased_of_takesSnapshot hstep)
  | resume ok =>
    obtain ⟨p, hsync, hstep⟩ := Option.bind_eq_some_iff.1 hstep
    exact h.resume hsync hstep hP'
  | boot => exact absurd rfl hboot

/-! ### Announced changes -/

theorem isUpdate_flushMainAsync (hstep : flushMainAsync nv s ok = some s')
    (h : s'.isUpdate = false) : s.isUpdate = false ∨ TakesSnapshot s s' := by
  unfold flushMainAsync at hstep
  split at hstep
  case h_3 hst =>
    rw [takeSnapshot_eq] at hstep
    obtain rfl := Option.some.inj hstep
    exact .inr ⟨by simp [hst], rfl⟩
  case h_6 => cases hstep
  all_goals
    split_ifs at hstep <;> obtain rfl := Option.some.inj hstep <;> exact .inl h

theorem isUpdate_flushBakAsync (hstep : flushBakAsync nv s ok = some s') :
    s'.isUpdate = s.isUpdate := by
  unfold flushBakAsync at hstep
  split at hstep
  case h_7 => cases hstep
  all_goals
    try split_ifs at hstep
    all_goals
      obtain rfl := Option.some.inj hstep
      rfl

theorem isUpdate_syncBak : (syncBak nv s).isUpdate = s.isUpdate := by
  unfold syncBak syncBakRead
  split_ifs <;> rfl

theorem isUpdate_flushSync (hstep : flushSync nv s = some s') (h : s'.isUpdate = false) :
    s.isUpdate = false ∨ s.state = .mainErased := by
  unfold flushSync syncMain syncMainSnapshot at hstep
  split_ifs at hstep with hidle hmain he hsnap
  · exact .inl hidle.2
  · obtain rfl := Option.some.inj hstep
    exact .inl h
  · exact .inr hsnap
  · obtain rfl := Option.some.inj hstep
    exact .inl h
  · obtain rfl := Option.some.inj hstep
    exact .inl (isUpdate_syncBak.symm.trans h)

theorem takesSnapshot_of_flushSync (hst : s.state = .mainErased)
    (hstep : flushSync nv s = some s') : TakesSnapshot s s' :=
  ⟨by simp [hst], (state_of_snapshot hst).2 hstep⟩

theorem isUpdate_resume {p : SyncPoint} (hstep : resume nv s ok p = some s') (hat : p.At s.state)
    (h : s'.isUpdate = false) : s.isUpdate = false ∨ TakesSnapshot s s' := by
  cases p with
  | mainErase =>
    have hne : s.state ≠ .mainWritePending := by rcases hat with hat | hat <;> simp [hat]
    simp only [resume] at hstep
    split_ifs at hstep
    · rw [syncMainSnapshot, if_pos rfl, takeSnapshot_eq, Option.map_some] at hstep
      obtain rfl := Option.some.inj hstep
      exact .inr ⟨hne, rfl⟩
    · obtain rfl := Option.some.inj hstep
      exact .inl h
  | mainDrain =>
    simp only [resume] at hstep
    split_ifs at hstep <;> obtain rfl := Option.some.inj hstep
    · rw [isUpdate_syncBak] at h
      exact .inl h
    · exact .inl h
  | bakErase =>
    simp only [resume] at hstep
    split_ifs at hstep <;> obtain rfl := Option.some.inj hstep <;> exact .inl h
  | bakDrain =>
    simp only [resume] at hstep
    split_ifs at hstep
    · exact (isUpdate_flushSync hstep h).imp id fun hs => absurd hs (by simp [bakEnd])
    · obtain rfl := Option.some.inj hstep
      exact .inl h
  | _ =>
    simp only [resume] at hstep
    try split_ifs at hstep
    all_goals
      obtain rfl := Option.some.inj hstep
      exact .inl h

/-- Only a snapshot resets `is_update`. -/
theorem isUpdate_step (hsync : ∀ p, s.sync = some p → p.At s.state)
    (hstep : step nv s e = some s') (hboot : e ≠ .boot) (h : s'.isUpdate = false) :
    s.isUpdate = false ∨ TakesSnapshot s s' := by
  cases e with
  | ram payload =>
    obtain rfl := Option.some.inj hstep
    exact .inl h
  | update =>
    obtain rfl := Option.some.inj hstep
    cases h
  | complete =>
    simp only [step] at hstep
    split at hstep
    · cases hstep
    · obtain rfl := Option.some.inj hstep
      exact .inl h
  | suspend cells =>
    simp only [step] at hstep
    split_ifs at hstep
    obtain rfl := Option.some.inj hstep
    exact .inl h
  | flushAsync ok =>
    simp only [step, flushAsync] at hstep
    split_ifs at hstep
    · obtain rfl := Option.some.inj hstep
      exact .inl h
    · exact isUpdate_flushMainAsync hstep h
    · exact .inl ((isUpdate_flushBakAsync hstep).symm.trans h)
  | flushSync =>
    simp only [step] at hstep
    split_ifs at hstep
    exact (isUpdate_flushSync hstep h).imp_right fun hst => takesSnapshot_of_flushSync hst hstep
  | resume ok =>
    obtain ⟨p, hp, hstep⟩ := Option.bind_eq_some_iff.1 hstep
    exact isUpdate_resume hstep (hsync p hp) h
  | boot => exact absurd rfl hboot

/-- A restart keeps the invariant, whatever the flash holds: a flush that it starts is announced. -/
theorem follows_init {f : Content} (hinit : nvRecordExtensionInit nv f = some s) :
    Follows nv (s.isUpdate = false) s := by
  have hflush : ∀ s₀ : NvSystem, s₀.isUpdate = true → s₀.state = .idle ∨ s₀.state = .mainDone →
      flushSync nv s₀ = some s → Follows nv (s.isUpdate = false) s := by
    intro s₀ hupd hst hs
    have hne : s₀.state ≠ .mainErased := by rcases hst with hst | hst <;> simp [hst]
    have ht :
        TracksQueue nv (s₀.isUpdate = false) s₀.ram s₀.burnBuf s₀.flash s₀.queue s₀.state := by
      rcases hst with hst | hst <;> rw [hst]
      · trivial
      · exact fun h => by simp [hupd] at h
    exact follows_flushSync ht hs fun h => .inl ((isUpdate_flushSync hs h).resolve_right hne)
  unfold nvRecordExtensionInit at hinit
  cases hm : dataIsValid nv (nv.sector f .main) <;>
    cases hb : dataIsValid nv (nv.sector f .bak) <;>
    simp [hm, hb] at hinit
  · exact hflush _ rfl (.inl rfl) hinit
  · exact hflush _ rfl (.inl rfl) hinit
  · exact hflush _ rfl (.inr rfl) hinit
  · obtain rfl := hinit
    exact .of_none trivial rfl

/-- The system, and whether the record in RAM has changed since the last snapshot. -/
def changedStep (nv : NvConfig) (t : NvSystem × Bool) (e : Event) : Option (NvSystem × Bool) :=
  (step nv t.1 e).map fun s' =>
    (s', match e with
      | .ram _ => true
      | .boot => false
      | _ => t.2 && !decide (t.1.state ≠ .mainWritePending ∧ s'.state = .mainWritePending))

/-- In a run the last snapshot is the record in RAM unless this has changed since, or its change is
announced. -/
theorem follows_changedStep {t t' : NvSystem × Bool}
    (h : Follows nv (t.1.isUpdate = false ∧ t.2 = false) t.1) (hint : Interrupts t.1 e)
    (hstep : changedStep nv t e = some t') :
    Follows nv (t'.1.isUpdate = false ∧ t'.2 = false) t'.1 := by
  obtain ⟨s', hs', rfl⟩ := Option.map_eq_some_iff.1 hstep
  by_cases hboot : e = .boot
  · subst hboot
    exact (follows_init hs').mono And.left
  · refine h.step hs' hboot hint fun ⟨hupd, hchanged⟩ => ?_
    rcases isUpdate_step h.sync hs' hboot hupd with hold | hsnap
    · cases e with
      | ram payload => cases hchanged
      | boot => exact absurd rfl hboot
      | _ =>
        simp only [Bool.and_eq_false_iff, Bool.not_eq_false', decide_eq_true_eq] at hchanged
        exact hchanged.imp (fun h => ⟨⟨hold, h⟩, nofun⟩) id
    · exact .inr hsnap

/-! ### A synchronous flush -/

/-- What happens during a synchronous flush while the record in RAM is not changed. -/
def FlushEvent : Event → Prop
  | .complete | .suspend _ | .resume _ => True
  | _ => False

/-- Both sectors hold the record in RAM, and no flush is in progress. -/
structure Complete (nv : NvConfig) (ram : Content) (s : NvSystem) : Prop where
  state : s.state = .idle
  isUpdate : s.isUpdate = false
  queue : s.queue = []
  ram_eq : s.ram = ram
  same : ∀ x, nv.SameRecord (nv.sector s.flash x) (recordBytes nv ram)
  valid : ∀ x, dataIsValid nv (nv.sector s.flash x) = true
  record : ∀ x, record (nv.sector s.flash x) = ramRecord nv ram

theorem flushSync_complete (hmain : s.isUpdate = false →
      nv.SameRecord (nv.sector s.flash .main) (recordBytes nv s.ram))
    (hbak : nv.SameRecord (nv.sector s.flash .bak) (nv.sector s.flash .main))
    (hstate : s.state = .idle) (hqueue : s.queue = []) (hstep : flushSync nv s = some s')
    (hnone : s'.sync = none) : Complete nv s.ram s' := by
  unfold flushSync at hstep
  split_ifs at hstep with hidle hm
  · obtain rfl := Option.some.inj hstep
    have hsame : ∀ x, nv.SameRecord (nv.sector s.flash x) (recordBytes nv s.ram) := by
      intro x i hi
      cases x with
      | main => exact hmain hidle.2 i hi
      | bak => rw [hbak i hi, hmain hidle.2 i hi]
    refine ⟨hidle.1, hidle.2, hqueue, rfl, hsame,
      fun x => dataIsValid_congr (hsame x) dataIsValid_recordBytes, fun x => ?_⟩
    show Nv.record (nv.sector s.flash x) = _
    rw [record_congr (hsame x) (Nat.le_of_eq headerValidLen_recordBytes), record_recordBytes]
  · rw [syncMain, if_pos (.inl hstate)] at hstep
    obtain rfl := Option.some.inj hstep
    cases hnone
  · exact absurd (by rw [hstate]; rfl) hm

theorem sync_syncBak : (syncBak nv s).sync ≠ none := by
  unfold syncBak syncBakRead
  split_ifs <;> exact Option.some_ne_none _

theorem sync_syncMainSnapshot (hstep : syncMainSnapshot nv s = some s') : s'.sync ≠ none := by
  unfold syncMainSnapshot at hstep
  split_ifs at hstep
  · rw [takeSnapshot_eq, Option.map_some] at hstep
    obtain rfl := Option.some.inj hstep
    exact Option.some_ne_none _
  · obtain rfl := Option.some.inj hstep
    exact Option.some_ne_none _

/-- A synchronous flush that has something to do does not end at once. -/
theorem sync_flushSync (hflush : s.isUpdate = true ∨ s.state ≠ .idle)
    (hstep : flushSync nv s = some s') : s'.sync ≠ none := by
  unfold flushSync syncMain at hstep
  split_ifs at hstep with hidle
  · exact absurd hidle.1 (hflush.resolve_left (by simp [hidle.2]))
  · obtain rfl := Option.some.inj hstep
    exact Option.some_ne_none _
  · exact sync_syncMainSnapshot hstep
  · obtain rfl := Option.some.inj hstep
    exact sync_syncBak

/-- A synchronous flush can only end where `bak` has been drained. -/
theorem sync_resume {p : SyncPoint} (hsync : s.sync = some p) (hp : p ≠ .bakDrain)
    (hstep : resume nv s ok p = some s') : s'.sync ≠ none := by
  have hs : s.sync ≠ none := by simp [hsync]
  cases p with
  | mainErase =>
    simp only [resume] at hstep
    split_ifs at hstep
    · exact sync_syncMainSnapshot hstep
    · obtain rfl := Option.some.inj hstep
      exact Option.some_ne_none _
  | mainDrain =>
    simp only [resume] at hstep
    split_ifs at hstep <;> obtain rfl := Option.some.inj hstep
    · exact sync_syncBak
    · exact hs
  | bakErase =>
    simp only [resume] at hstep
    split_ifs at hstep <;> obtain rfl := Option.some.inj hstep <;> exact Option.some_ne_none _
  | bakDrain => exact absurd rfl hp
  | _ =>
    simp only [resume] at hstep
    try split_ifs at hstep
    all_goals
      obtain rfl := Option.some.inj hstep
      exact Option.some_ne_none _

/-- Where a synchronous flush ends it is complete. -/
theorem Follows.complete_of_resume (h : Follows nv (s.isUpdate = false) s) {p : SyncPoint}
    (hsync : s.sync = some p) (hstep : Nv.resume nv s ok p = some s') (hnone : s'.sync = none) :
    Complete nv s.ram s' := by
  obtain rfl : p = .bakDrain := by
    by_contra hp
    exact sync_resume hsync hp hstep hnone
  have ht := h.tracks
  have hat : s.state = .bakWritten := h.sync _ hsync
  rw [hat] at ht
  simp only [Nv.resume] at hstep
  split_ifs at hstep with hq
  · rw [List.isEmpty_iff] at hq
    rw [hq] at ht
    exact flushSync_complete (s := bakEnd { s with state := .bakDone }) ht.2 ht.1 rfl hq hstep hnone
  · obtain rfl := Option.some.inj hstep
    rw [hsync] at hnone
    cases hnone

/-! ### How long it takes -/

/-- The flash calls that a round of the flush has still to make. -/
def SyncPoint.rank : SyncPoint → Nat
  | .mainErase | .mainEraseFlush => 6
  | .mainWrite | .mainWriteFlush => 5
  | .mainDrain => 4
  | .bakErase | .bakEraseFlush => 3
  | .bakWrite | .bakWriteFlush => 2
  | .bakDrain => 1

/-- The flush waits until the buffers are not full. -/
def SyncPoint.waits : SyncPoint → Bool
  | .mainEraseFlush | .mainWriteFlush | .bakEraseFlush | .bakWriteFlush => true
  | _ => false

/-- Another round follows, as the snapshot of this one has been taken already. -/
def anotherRound (s : NvSystem) : SyncPoint → Bool
  | .mainErase | .mainEraseFlush => false
  | _ => s.isUpdate

/-- The calls and operations that a synchronous flush has still to make when it is not refused. -/
def remaining (s : NvSystem) : Nat :=
  s.queue.length + match s.sync with
    | none => 0
    | some p =>
      3 * (p.rank + if anotherRound s p then 6 else 0) + if p.waits then 1 else 0

/-- The flash service makes no progress: an operation is suspended, the buffers are full or the
queue is not empty yet. -/
def refuses (s : NvSystem) : Event → Bool
  | .suspend _ => true
  | .resume ok =>
    match s.sync with
    | some .mainDrain | some .bakDrain => !s.queue.isEmpty
    | _ => !ok
  | _ => false

/-- The refusals of a run. -/
def refusals (nv : NvConfig) : NvSystem → List Event → Nat
  | _, [] => 0
  | s, e :: es => (refuses s e).toNat + ((step nv s e).map fun s' => refusals nv s' es).getD 0

theorem remaining_of_some {p : SyncPoint} (h : s.sync = some p) :
    remaining s = s.queue.length +
      (3 * (p.rank + if anotherRound s p then 6 else 0) + if p.waits then 1 else 0) := by
  rw [remaining, h]

/-- A call of the flush that is not refused leaves less to do. -/
theorem remaining_resume {p : SyncPoint} (hsync : s.sync = some p) (hat : p.At s.state)
    (hstep : resume nv s ok p = some s') :
    remaining s' + 1 ≤ remaining s + 2 * (refuses s (.resume ok)).toNat := by
  rw [remaining_of_some hsync]
  cases hupd : s.isUpdate <;> cases p with
  | mainErase =>
    cases ok with
    | true =>
      have hstep : syncMainSnapshot nv { s with
        state := .mainErased, queue := s.queue ++ [nv.eraseOp .main] } = some s' := hstep
      rw [syncMainSnapshot, if_pos rfl, takeSnapshot_eq, Option.map_some] at hstep
      obtain rfl := Option.some.inj hstep
      simp [remaining, syncMainWrite, SyncPoint.rank, SyncPoint.waits, anotherRound]
      omega
    | false =>
      obtain rfl := Option.some.inj hstep
      simp [remaining, refuses, hsync, SyncPoint.rank, SyncPoint.waits, anotherRound]
  | bakDrain =>
    simp only [Nv.resume] at hstep
    split_ifs at hstep with hq
    · simp [flushSync, bakEnd, syncMain, NvState.isMain, hupd] at hstep
      subst hstep
      simp [remaining, SyncPoint.rank, SyncPoint.waits, anotherRound, hupd]
      omega
    · obtain rfl := Option.some.inj hstep
      simp [remaining, refuses, hsync, hq]
  | mainDrain =>
    simp only [Nv.resume] at hstep
    split_ifs at hstep with hq <;> obtain rfl := Option.some.inj hstep
    · simp [remaining, syncBak, SyncPoint.rank, SyncPoint.waits, anotherRound, hupd]
      omega
    · simp [remaining, refuses, hsync, hq]
  | _ =>
    cases ok <;> obtain rfl := Option.some.inj hstep <;>
      simp [remaining, refuses, hsync, hupd, syncBakRead, syncBakWrite, SyncPoint.rank,
        SyncPoint.waits, anotherRound]

theorem remaining_step (hsync : ∀ p, s.sync = some p → p.At s.state) (he : FlushEvent e)
    (hstep : step nv s e = some s') :
    remaining s' + 1 ≤ remaining s + 2 * (refuses s e).toNat := by
  cases e with
  | complete =>
    cases hq : s.queue with
    | nil => simp [step, hq] at hstep
    | cons op q =>
      simp only [step, hq, Option.some.injEq] at hstep
      subst hstep
      have hround : ∀ p, anotherRound { s with flash := op.apply s.flash, queue := q } p =
          anotherRound s p := fun p => by cases p <;> rfl
      simp only [remaining, hround, hq, List.length_cons, refuses, Bool.toNat_false]
      omega
  | suspend cells =>
    simp only [step] at hstep
    split_ifs at hstep
    obtain rfl := Option.some.inj hstep
    have hsame : remaining { s with flash := cells } = remaining s := by
      unfold remaining
      dsimp only
      cases s.sync with
      | none => rfl
      | some p => cases p <;> rfl
    rw [hsame]
    simp [refuses]
  | resume ok =>
    obtain ⟨p, hp, hstep⟩ := Option.bind_eq_some_iff.1 hstep
    exact remaining_resume hp (hsync p hp) hstep
  | _ => exact he.elim

theorem exists_flushSync (nv : NvConfig) (s : NvSystem) : ∃ s', flushSync nv s = some s' := by
  unfold flushSync syncMain syncMainSnapshot
  split_ifs
  · exact ⟨_, rfl⟩
  · exact ⟨_, rfl⟩
  · rw [takeSnapshot_eq]
    exact ⟨_, rfl⟩
  · exact ⟨_, rfl⟩
  · exact ⟨_, rfl⟩

/-- A flush that has not ended goes on: the oldest operation is completed, or the next call is not
refused. -/
theorem exists_step (h : s.sync ≠ none) :
    ∃ e s', FlushEvent e ∧ Interrupts s e ∧ refuses s e = false ∧ step nv s e = some s' := by
  obtain ⟨p, hp⟩ := Option.ne_none_iff_exists'.1 h
  cases hq : s.queue with
  | cons op q =>
    refine ⟨.complete, { s with flash := op.apply s.flash, queue := q }, trivial, trivial, rfl, ?_⟩
    simp [step, hq]
  | nil =>
    have hresume : ∃ s', resume nv s true p = some s' := by
      cases p with
      | mainErase =>
        simp only [resume, if_true, syncMainSnapshot, takeSnapshot_eq, Option.map_some]
        exact ⟨_, rfl⟩
      | mainDrain => exact ⟨_, if_pos (by simp [hq])⟩
      | bakDrain =>
        obtain ⟨s', hs'⟩ := exists_flushSync nv (bakEnd { s with state := .bakDone })
        refine ⟨s', ?_⟩
        simp only [resume, hq, List.isEmpty_nil, if_true]
        rw [hq] at hs'
        exact hs'
      | _ =>
        simp only [resume, if_true]
        exact ⟨_, rfl⟩
    obtain ⟨s', hs'⟩ := hresume
    refine ⟨.resume true, s', trivial, trivial, ?_, by simp only [step, hp]; exact hs'⟩
    simp only [refuses, hp]
    cases p <;> simp [hq]

/-! ### Whole runs -/

theorem ram_syncMainSnapshot (hstep : syncMainSnapshot nv s = some s') : s'.ram = s.ram := by
  unfold syncMainSnapshot at hstep
  split_ifs at hstep
  · rw [takeSnapshot_eq, Option.map_some] at hstep
    exact Option.some.inj hstep ▸ rfl
  · exact Option.some.inj hstep ▸ rfl

theorem ram_syncBak : (syncBak nv s).ram = s.ram := by
  unfold syncBak syncBakRead
  split_ifs <;> rfl

theorem ram_resume {p : SyncPoint} (hstep : resume nv s ok p = some s') : s'.ram = s.ram := by
  cases p with
  | mainErase =>
    simp only [resume] at hstep
    split_ifs at hstep
    · rw [ram_syncMainSnapshot hstep]
    · exact Option.some.inj hstep ▸ rfl
  | mainDrain =>
    simp only [resume] at hstep
    split_ifs at hstep <;> obtain rfl := Option.some.inj hstep
    · exact ram_syncBak
    · rfl
  | bakErase =>
    simp only [resume] at hstep
    split_ifs at hstep <;> obtain rfl := Option.some.inj hstep <;> rfl
  | bakDrain =>
    simp only [resume] at hstep
    split_ifs at hstep
    · rw [flushSync_ram hstep]
      rfl
    · exact Option.some.inj hstep ▸ rfl
  | _ =>
    simp only [resume] at hstep
    try split_ifs at hstep
    all_goals exact Option.some.inj hstep ▸ rfl

/-- The invariant of a synchronous flush: what is left is bounded, and where it has ended the
sectors are complete. -/
structure Flushing (nv : NvConfig) (ram : Content) (s : NvSystem) : Prop where
  follows : Follows nv (s.isUpdate = false) s
  ram_eq : s.ram = ram
  complete : s.sync = none → Complete nv ram s

theorem Flushing.step (h : Flushing nv ram s) (he : FlushEvent e) (hint : Interrupts s e)
    (hstep : Nv.step nv s e = some s') : Flushing nv ram s' := by
  have hfollows : Follows nv (s'.isUpdate = false) s' := by
    have hboot : e ≠ .boot := by
      rintro rfl
      exact he
    refine h.follows.step hstep hboot hint fun hupd => ?_
    refine (isUpdate_step h.follows.sync hstep hboot hupd).imp_left fun hold => ⟨hold, ?_⟩
    rintro payload rfl
    exact he
  cases e with
  | complete =>
    cases hq : s.queue with
    | nil => simp [Nv.step, hq] at hstep
    | cons op q =>
      simp only [Nv.step, hq, Option.some.injEq] at hstep
      subst hstep
      refine ⟨hfollows, h.ram_eq, fun hnone => ?_⟩
      have hempty := (h.complete hnone).queue
      simp [hq] at hempty
  | suspend cells =>
    simp only [Nv.step] at hstep
    split_ifs at hstep with hq
    obtain rfl := Option.some.inj hstep
    exact ⟨hfollows, h.ram_eq, fun hnone => absurd (by simp [(h.complete hnone).queue]) hq⟩
  | resume ok =>
    obtain ⟨p, hp, hres⟩ := Option.bind_eq_some_iff.1 hstep
    refine ⟨hfollows, (ram_resume hres).trans h.ram_eq, fun hnone => ?_⟩
    rw [← h.ram_eq]
    exact h.follows.complete_of_resume hp hres hnone
  | _ => exact he.elim

theorem Flushing.run (h : Flushing nv ram s) {es : List Event} (hes : ∀ e ∈ es, FlushEvent e)
    (hint : Along (Nv.step nv) Interrupts s es) (hrun : es.foldlM (Nv.step nv) s = some s') :
    Flushing nv ram s' ∧ es.length + remaining s' ≤ remaining s + 2 * refusals nv s es := by
  induction es generalizing s with
  | nil =>
    obtain rfl : s = s' := by simpa using hrun
    exact ⟨h, by simp⟩
  | cons e es ih =>
    obtain ⟨u, hu, hrest⟩ := Transition.foldlM_cons_eq_some hrun
    have he := hes e List.mem_cons_self
    have hstep := remaining_step h.follows.sync he hu
    obtain ⟨hend, hlen⟩ := ih (h.step he hint.1 hu)
      (fun e' he' => hes e' (List.mem_cons_of_mem e he')) (hint.2 u hu) hrest
    refine ⟨hend, ?_⟩
    rw [refusals, hu, Option.map_some, Option.getD_some, List.length_cons]
    omega

/-- A synchronous flush that starts in a reachable state where any change of the record in RAM since
the last snapshot is announced, with an update or a flush to be finished, ends in a bounded number
of steps when it is not refused for ever, and both sectors hold the record in RAM then. -/
theorem flushSync_completes {f : Content} {s₀ : NvSystem} {t : NvSystem × Bool} {es : List Event}
    (hinit : nvRecordExtensionInit nv f = some s₀)
    (hint : Along (changedStep nv) (fun t e => Interrupts t.1 e) (s₀, false) es)
    (hrun : es.foldlM (changedStep nv) (s₀, false) = some t)
    (hsync : t.1.sync = none) (hannounced : t.1.isUpdate = true ∨ t.2 = false)
    (hflush : t.1.isUpdate = true ∨ t.1.state ≠ .idle) :
    ∃ s₁, step nv t.1 .flushSync = some s₁ ∧
      ∀ es' s₂, (∀ e ∈ es', FlushEvent e) → Along (step nv) Interrupts s₁ es' →
        es'.foldlM (step nv) s₁ = some s₂ →
          es'.length ≤ remaining s₁ + 2 * refusals nv s₁ es' ∧
          (s₂.sync = none → Complete nv t.1.ram s₂) ∧
          (s₂.sync ≠ none → ∃ e s₃, FlushEvent e ∧ Interrupts s₂ e ∧ refuses s₂ e = false ∧
            step nv s₂ e = some s₃) := by
  have hinv : Follows nv (t.1.isUpdate = false ∧ t.2 = false) t.1 :=
    hint.preserves (I := fun t => Follows nv (t.1.isUpdate = false ∧ t.2 = false) t.1)
      (fun _ _ _ h hi hs => follows_changedStep h hi hs) hrun ((follows_init hinit).mono And.left)
  have hfollows : Follows nv (t.1.isUpdate = false) t.1 :=
    hinv.mono fun hupd => ⟨hupd, hannounced.resolve_left (by simp [hupd])⟩
  obtain ⟨s₁, hs₁⟩ := exists_flushSync nv t.1
  have hstart : Flushing nv t.1.ram s₁ := by
    refine ⟨follows_flushSync hfollows.tracks hs₁ fun hupd => isUpdate_flushSync hs₁ hupd,
      flushSync_ram hs₁, fun hnone => absurd hnone (sync_flushSync hflush hs₁)⟩
  refine ⟨s₁, by simp [step, hsync, hs₁], fun es' s₂ hes' hint' hrun' => ?_⟩
  obtain ⟨hend, hlen⟩ := hstart.run hes' hint' hrun'
  exact ⟨by omega, hend.complete, exists_step⟩

section Runs

/-- The system after an update has been announced. -/
def updated : NvSystem :=
  { booted smallConfig (twoCopies fun _ => 7) false .idle with isUpdate := true }

/-- A flush right after an update. -/
theorem flushSync_completes_updated :
    ∃ s₁, step smallConfig updated .flushSync = some s₁ ∧
      ∀ es' s₂, (∀ e ∈ es', FlushEvent e) → Along (step smallConfig) Interrupts s₁ es' →
        es'.foldlM (step smallConfig) s₁ = some s₂ →
          es'.length ≤ remaining s₁ + 2 * refusals smallConfig s₁ es' ∧
          (s₂.sync = none → Complete smallConfig updated.ram s₂) ∧
          (s₂.sync ≠ none → ∃ e s₃, FlushEvent e ∧ Interrupts s₂ e ∧ refuses s₂ e = false ∧
            step smallConfig s₂ e = some s₃) :=
  @flushSync_completes smallConfig (twoCopies fun _ => 7) _ (updated, false) [.update]
    (init_of_valid (dataIsValid_twoCopies (fun _ => 7) .main) (dataIsValid_twoCopies _ .bak))
    ⟨trivial, fun _ _ => trivial⟩ rfl rfl (.inl rfl) (.inl rfl)

/-- An asynchronous flush takes its snapshot; then RAM is changed and nobody announces it. -/
def changeUnannounced : List Event :=
  [.update, .flushAsync true, .flushAsync true, .ram fun _ => 9]

/-- A synchronous flush that is not refused. -/
def flushToEnd : List Event :=
  [.flushSync, .resume true, .complete, .complete, .resume true, .resume true, .resume true,
    .complete, .complete, .resume true]

/-- The synchronous flush finishes the older snapshot and ends. -/
theorem flushSync_leaves_change :
    ∃ s₀ s s', nvRecordExtensionInit smallConfig (twoCopies fun _ => 7) = some s₀ ∧
      changeUnannounced.foldlM (step smallConfig) s₀ = some s ∧ s.sync = none ∧ s.state ≠ .idle ∧
      flushToEnd.foldlM (step smallConfig) s = some s' ∧ s'.sync = none ∧
      smallConfig.sector s'.flash .main headerSize ≠ recordBytes smallConfig s'.ram headerSize := by
  have hrun : ((nvRecordExtensionInit smallConfig (twoCopies fun _ => 7)).bind fun s₀ =>
      (changeUnannounced.foldlM (step smallConfig) s₀).bind fun s =>
        (flushToEnd.foldlM (step smallConfig) s).map fun s' =>
          decide (s.sync = none ∧ s.state ≠ .idle ∧ s'.sync = none ∧
            smallConfig.sector s'.flash .main headerSize ≠
              recordBytes smallConfig s'.ram headerSize)) = some true := by decide +kernel
  obtain ⟨s₀, h₀, hrun⟩ := Option.bind_eq_some_iff.1 hrun
  obtain ⟨s, hs, hrun⟩ := Option.bind_eq_some_iff.1 hrun
  obtain ⟨s', hs', hend⟩ := Option.map_eq_some_iff.1 hrun
  obtain ⟨hsync, hstate, hnone, hne⟩ := of_decide_eq_true hend
  exact ⟨s₀, s, s', h₀, hs, hsync, hstate, hs', hnone, hne⟩

end Runs

end EarbudFirmware.Nv
