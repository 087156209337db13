import EarbudFirmware.Audio.XtalSync

/-!
# The drift since a target was fixed

`bt_xtal_sync_new` fixes a target when the bit offset has been steady, and counts how often the
offset has gone round since.

## Main definitions

* `RxbitSync.btXtalSyncNew` — `bt_xtal_sync_new`
* `RxbitRun` — the positions behind the bit offsets
* `Follows` — the drift is the true one

## Main results

* `unwraps_along` — the drift of both functions along the runs that meet `Clear` and `Steady`
* `not_unwraps` — runs along which it is not
-/

namespace EarbudFirmware.BtXtalSync

open Transition

/-- `BT_XTAL_SYNC_MODE_T`. -/
inductive XtalSyncMode
  | music
  | voice
  | withMobile
  | withTws
  deriving DecidableEq

/-- The mode has parameters for the controller. -/
def XtalSyncMode.hasPidPara : XtalSyncMode → Bool
  | .music => false
  | .voice => false
  | .withMobile => true
  | .withTws => true

/-- The value of an `int32_t`. -/
def int32 (x : Int) : Int := (x + 0x80000000) % 0x100000000 - 0x80000000

/-- The static variables of `bt_xtal_sync_new`. -/
structure RxbitSync where
  initRxbit : Int
  lastRxbit : Int
  crossSlot : Int
  firstOffsetLock : Bool
  checkCnt : Nat

namespace RxbitSync

variable (s : RxbitSync)

/-- `check_init_rxbit`. -/
def checkInitRxbit (rxbit : Int) : RxbitSync × Bool :=
  if s.lastRxbit = -1 then ({ s with lastRxbit := rxbit }, false)
  else
    let rxbit :=
      if 622 < s.lastRxbit ∧ rxbit < 3 then rxbit + 624
      else if s.lastRxbit < 3 ∧ 622 < rxbit then rxbit - 624
      else rxbit
    let checkCnt := if (rxbit - s.lastRxbit).natAbs < 5 then (s.checkCnt + 1) % 0x100 else 0
    ({ s with
        checkCnt
        lastRxbit := rxbit }, 3 < checkCnt)

/-- The drift that the controller gets. -/
def rxbitDiff (rxbit : Int) : Int := int32 (rxbit - s.initRxbit + int32 (s.crossSlot * 625))

/-- The size of a step. -/
def stepSize (rxbit : Int) : Nat :=
  let rxbitDiff := rxbit - s.lastRxbit
  if 312 < rxbitDiff then (rxbitDiff - 625).natAbs
  else if rxbitDiff < -312 then (rxbitDiff + 625).natAbs
  else rxbitDiff.natAbs

/-- `cross_slot` behind a step. -/
def crossed (rxbit : Int) : Int :=
  if 624 - 50 < s.lastRxbit ∧ rxbit < 50 then int32 (s.crossSlot + 1)
  else if s.lastRxbit < 50 ∧ 624 - 50 < rxbit then int32 (s.crossSlot - 1)
  else s.crossSlot

/-- `bt_xtal_sync_new`, less the tuning of the crystal; `busy` is the answer of
`btdrv_rf_xtal_fcap_busy`. -/
def btXtalSyncNew (rxbit : Int) (fixRxbitEn busy : Bool) (mode : XtalSyncMode) : RxbitSync :=
  if busy then s
  else if s.initRxbit = -1 then
    let checked := if s.firstOffsetLock then (s, true) else s.checkInitRxbit rxbit
    if checked.2 then
      { checked.1 with
        -- `FIX_TARTGET_RXBIT`
        initRxbit := if fixRxbitEn then 300 else rxbit
        lastRxbit := rxbit
        firstOffsetLock := true }
    else checked.1
  else if 20 < s.stepSize rxbit then s
  else if s.initRxbit ≠ rxbit ∧ mode.hasPidPara = false then
    { s with crossSlot := s.crossed rxbit }
  else
    { s with
      crossSlot := s.crossed rxbit
      lastRxbit := rxbit }

end RxbitSync

/-- What a call gets, with its bit offset as a position that does not go round. -/
structure RxbitEvent where
  pos : Int
  fixRxbitEn : Bool
  busy : Bool
  mode : XtalSyncMode

/-- The variables, the positions of the last call and of the last one that was not busy, and that of
the target. -/
structure RxbitRun where
  env : RxbitSync
  called : Int
  pos : Int
  target : Int

namespace RxbitRun

variable (s : RxbitRun) (e : RxbitEvent)

/-- The target is the position, or the fixed bit offset on its lap. -/
def next : RxbitRun where
  env := s.env.btXtalSyncNew (offset e.pos) e.fixRxbitEn e.busy e.mode
  called := e.pos
  pos := if e.busy then s.pos else e.pos
  target :=
    if e.busy then s.target
    else if s.env.initRxbit = -1 then
      if e.fixRxbitEn then e.pos - offset e.pos + 300 else e.pos
    else s.target

def step : Option RxbitRun := some (s.next e)

end RxbitRun

/-- The mode is one with a controller, and the position moves by at most 20 a call. -/
def Gradual (s : RxbitRun) (e : RxbitEvent) : Prop :=
  e.mode.hasPidPara = true ∧ (s.env.initRxbit ≠ -1 → (e.pos - s.called).natAbs ≤ 20)

/-- The position moves by at most 20 between the calls that are not busy, and the drift does not
come near the bounds of its type. -/
def Steady (s : RxbitRun) (e : RxbitEvent) : Prop :=
  Gradual s e ∧ (e.busy = false → s.env.initRxbit ≠ -1 →
    (e.pos - s.pos).natAbs ≤ 20 ∧ (e.pos - s.target).natAbs < 0x7FFFF000)

/-- The drift that a call finds is the distance from the target. -/
def Follows (s : RxbitRun) (e : RxbitEvent) : Prop :=
  e.busy = false → (s.next e).env.initRxbit ≠ -1 →
    (s.next e).env.rxbitDiff (offset e.pos) = e.pos - (s.next e).target

/-- What a run keeps: no target has been fixed, or the variables follow the position. -/
structure RxbitInv (s : RxbitRun) : Prop where
  unlocked : s.env.initRxbit = -1 → s.env.crossSlot = 0
  init : s.env.initRxbit ≠ -1 → 0 ≤ s.env.initRxbit ∧ s.env.initRxbit < 625
  last : s.env.initRxbit ≠ -1 → s.env.lastRxbit = offset s.pos
  drift : s.env.initRxbit ≠ -1 →
    offset s.pos - s.env.initRxbit + 625 * s.env.crossSlot = s.pos - s.target
  range : s.env.initRxbit ≠ -1 → (s.pos - s.target).natAbs < 0x7FFFF000

variable {s t : RxbitRun} {e : RxbitEvent}

theorem int32_eq {x : Int} (h : x.natAbs < 0x80000000) : int32 x = x := by
  unfold int32
  omega

/-- The drift is read from the variables. -/
theorem RxbitInv.rxbitDiff_eq (h : RxbitInv s) (hinit : s.env.initRxbit ≠ -1) :
    s.env.rxbitDiff (offset s.pos) = s.pos - s.target := by
  have hoffset := offset_lt s.pos
  have hbound := h.init hinit
  have hdrift := h.drift hinit
  have hrange := h.range hinit
  unfold RxbitSync.rxbitDiff
  rw [int32_eq (x := s.env.crossSlot * 625) (by omega), int32_eq (by omega)]
  omega

/-- The search for a target does not count. -/
theorem checkInitRxbit_fst {env : RxbitSync} {rxbit : Int} :
    (env.checkInitRxbit rxbit).1.initRxbit = env.initRxbit ∧
      (env.checkInitRxbit rxbit).1.crossSlot = env.crossSlot := by
  unfold RxbitSync.checkInitRxbit
  split
  · exact ⟨rfl, rfl⟩
  · exact ⟨rfl, rfl⟩

/-- A step of at most 20 is counted. -/
theorem crossed_eq {env : RxbitSync} {p q : Int} (hlast : env.lastRxbit = offset p)
    (hstep : (q - p).natAbs ≤ 20) (hrange : env.crossSlot.natAbs < 0x7FFFFFFF) :
    env.stepSize (offset q) ≤ 20 ∧
      (offset q : Int) + 625 * env.crossed (offset q) =
        offset p + 625 * env.crossSlot + (q - p) := by
  have hp := offset_cast p
  have hq := offset_cast q
  unfold RxbitSync.stepSize RxbitSync.crossed
  rw [hlast]
  dsimp only
  rw [int32_eq (x := env.crossSlot + 1) (by omega), int32_eq (x := env.crossSlot - 1) (by omega)]
  constructor
  · split_ifs <;> omega
  · split_ifs <;> omega

/-- The target is fixed, or still searched. -/
theorem RxbitInv.lock (h : RxbitInv s) (hinit : s.env.initRxbit = -1) (hbusy : e.busy = false) :
    RxbitInv (s.next e) := by
  have hpos := offset_lt e.pos
  have hcross := h.unlocked hinit
  have hlocked : ∀ env : RxbitSync, env.crossSlot = 0 →
      env.initRxbit = (if e.fixRxbitEn then 300 else (offset e.pos : Int)) →
      env.lastRxbit = offset e.pos →
      RxbitInv ⟨env, e.pos, e.pos,
        if e.fixRxbitEn then e.pos - offset e.pos + 300 else e.pos⟩ := by
    intro env hcross hinit hlast
    cases hfix : e.fixRxbitEn with
    | false =>
      rw [hfix, if_neg Bool.false_ne_true] at hinit
      rw [if_neg Bool.false_ne_true]
      exact ⟨fun _ => hcross, fun _ => by dsimp only; omega, fun _ => hlast,
        fun _ => by dsimp only; omega, fun _ => by dsimp only; omega⟩
    | true =>
      rw [hfix, if_pos rfl] at hinit
      rw [if_pos rfl]
      exact ⟨fun _ => hcross, fun _ => by dsimp only; omega, fun _ => hlast,
        fun _ => by dsimp only; omega, fun _ => by dsimp only; omega⟩
  unfold RxbitRun.next RxbitSync.btXtalSyncNew
  dsimp only
  rw [hbusy, if_neg Bool.false_ne_true, if_neg Bool.false_ne_true, if_neg Bool.false_ne_true,
    if_pos hinit, if_pos hinit]
  generalize hchecked : (if s.env.firstOffsetLock = true then (s.env, true)
    else s.env.checkInitRxbit (offset e.pos)) = checked
  have hkept : checked.1.initRxbit = -1 ∧ checked.1.crossSlot = 0 := by
    rw [← hchecked]
    split
    · exact ⟨hinit, hcross⟩
    · obtain ⟨hfst, hcross'⟩ := @checkInitRxbit_fst s.env (offset e.pos)
      exact ⟨hfst.trans hinit, hcross'.trans hcross⟩
  by_cases hlock : checked.2 = true
  · rw [if_pos hlock]
    exact hlocked _ hkept.2 rfl rfl
  · rw [if_neg hlock]
    exact ⟨fun _ => hkept.2, fun hne => absurd hkept.1 hne, fun hne => absurd hkept.1 hne,
      fun hne => absurd hkept.1 hne, fun hne => absurd hkept.1 hne⟩

/-- The position is followed. -/
theorem RxbitInv.follow (h : RxbitInv s) (hg : Steady s e) (hinit : s.env.initRxbit ≠ -1)
    (hbusy : e.busy = false) : RxbitInv (s.next e) := by
  obtain ⟨⟨hmode, -⟩, hstep⟩ := hg
  obtain ⟨hstep, hrange⟩ := hstep hbusy hinit
  have hbound := h.init hinit
  have hdrift := h.drift hinit
  have hold := h.range hinit
  have hpos := offset_lt s.pos
  obtain ⟨hsize, hcrossed⟩ := crossed_eq (h.last hinit) hstep (by omega)
  have henv : s.env.btXtalSyncNew (offset e.pos) e.fixRxbitEn e.busy e.mode =
      { s.env with
        crossSlot := s.env.crossed (offset e.pos)
        lastRxbit := offset e.pos } := by
    unfold RxbitSync.btXtalSyncNew
    rw [hbusy, if_neg Bool.false_ne_true, if_neg hinit, if_neg (Nat.not_lt.mpr hsize), if_neg]
    rintro ⟨-, hnone⟩
    rw [hmode] at hnone
    cases hnone
  unfold RxbitRun.next
  rw [henv, hbusy, if_neg Bool.false_ne_true, if_neg Bool.false_ne_true, if_neg hinit]
  refine ⟨fun heq => absurd heq hinit, fun _ => hbound, fun _ => rfl, fun _ => ?_, fun _ => hrange⟩
  dsimp only
  omega

theorem RxbitInv.step (h : RxbitInv s) (hg : Steady s e) : RxbitInv (s.next e) := by
  cases hbusy : e.busy with
  | true =>
    unfold RxbitRun.next RxbitSync.btXtalSyncNew
    rw [hbusy, if_pos rfl, if_pos rfl, if_pos rfl]
    exact ⟨h.unlocked, h.init, h.last, h.drift, h.range⟩
  | false =>
    by_cases hinit : s.env.initRxbit = -1
    · exact h.lock hinit hbusy
    · exact h.follow hg hinit hbusy

theorem RxbitInv.follows (h : RxbitInv s) (hg : Steady s e) : Follows s e := by
  intro hbusy hinit
  have hpos : (s.next e).pos = e.pos := by
    unfold RxbitRun.next
    rw [hbusy]
    rfl
  have hdiff := (h.step hg).rxbitDiff_eq hinit
  rwa [hpos] at hdiff

/-! ### Runs of both functions -/

/-- Behind `reset_xtal_sync`. -/
def RxbitRun.initial : RxbitRun := ⟨⟨-1, -1, 0, false, 0⟩, 0, 0, 0⟩

theorem rxbitInv_initial : RxbitInv .initial where
  unlocked _ := rfl
  init hne := absurd rfl hne
  last hne := absurd rfl hne
  drift hne := absurd rfl hne
  range hne := absurd rfl hne

/-- The drift is unwrapped along every run of one of the functions that meets its condition. -/
theorem unwraps_along (es : List SyncEvent) (fs : List RxbitEvent) :
    (Along DriftRun.step Clear .initial es → Along DriftRun.step Unwrapped .initial es) ∧
      (Along RxbitRun.step Steady .initial fs → Along RxbitRun.step Follows .initial fs) := by
  constructor
  · intro hes
    exact (hes.strengthen (fun _ _ _ hs hg ht => hs.step hg ht) inv_initial).mono
      fun _ _ h => h.1.unwrapped h.2
  · intro hfs
    exact (hfs.strengthen (fun _ _ _ hs hg ht => Option.some.inj ht ▸ hs.step hg)
      rxbitInv_initial).mono fun _ _ h => h.1.follows h.2

/-! ### Runs on fixed positions -/

instance decidableSmooth (s : DriftRun) (e : SyncEvent) : Decidable (Smooth s e) :=
  inferInstanceAs (Decidable (∀ l ∈ s.last,
    (e.pos - l.1).natAbs ≤ 4 ∧ l.2 < e.time ∧ e.time < l.2 + 0x400000))

instance decidableClear (s : DriftRun) (e : SyncEvent) : Decidable (Clear s e) :=
  inferInstanceAs (Decidable (Smooth s e ∧ (∀ p ∈ s.counted e, lap p = lap e.pos) ∧
    (s.env.prevValid = true → e.time < s.prev.2 + 0x100000000)))

instance decidableGradual (s : RxbitRun) (e : RxbitEvent) : Decidable (Gradual s e) :=
  inferInstanceAs (Decidable (e.mode.hasPidPara = true ∧
    (s.env.initRxbit ≠ -1 → (e.pos - s.called).natAbs ≤ 20)))

instance decidableSteady (s : RxbitRun) (e : RxbitEvent) : Decidable (Steady s e) :=
  inferInstanceAs (Decidable (Gradual s e ∧ (e.busy = false → s.env.initRxbit ≠ -1 →
    (e.pos - s.pos).natAbs ≤ 20 ∧ (e.pos - s.target).natAbs < 0x7FFFF000)))

instance decidableFollows (s : RxbitRun) (e : RxbitEvent) : Decidable (Follows s e) :=
  inferInstanceAs (Decidable (e.busy = false → (s.next e).env.initRxbit ≠ -1 →
    (s.next e).env.rxbitDiff (offset e.pos) = e.pos - (s.next e).target))

/-- Both go round the end of the circle; the 22 bits of the clock go round as well. -/
theorem unwraps_around :
    Along DriftRun.step Unwrapped .initial
        [⟨620, 4194290, false, false⟩, ⟨624, 4194300, false, false⟩, ⟨628, 4194310, false, false⟩,
          ⟨632, 4194320, false, false⟩, ⟨636, 8388600, false, false⟩,
          ⟨640, 8388700, false, false⟩] ∧
      Along RxbitRun.step Follows .initial
        [⟨600, false, false, .withTws⟩, ⟨600, false, false, .withTws⟩,
          ⟨601, false, false, .withTws⟩, ⟨601, false, false, .withTws⟩,
          ⟨600, false, false, .withTws⟩, ⟨615, false, false, .withTws⟩,
          ⟨630, false, false, .withTws⟩, ⟨620, false, false, .withTws⟩] :=
  ⟨(unwraps_along _ []).1 (by decide +kernel), (unwraps_along [] _).2 (by decide +kernel)⟩

/-- The last average is not the mean. -/
theorem not_unwrapped_of_avg {es : List SyncEvent} {e : SyncEvent}
    (h : (es.foldlM DriftRun.step .initial).map
      (fun s => (s.call e).2.avg.all (· == offset (mean (s.counted e)))) = some false) :
    ¬Along DriftRun.step Unwrapped .initial (es ++ [e]) := by
  intro hes
  obtain ⟨s, hs, hfalse⟩ := Option.map_eq_some_iff.mp h
  have haverage := (hes.last hs).average
  cases havg : (s.call e).2.avg with
  | none =>
    rw [havg] at hfalse
    cases hfalse
  | some avg =>
    rw [havg, Option.all_some, (haverage avg havg).2.1, beq_self_eq_true] at hfalse
    cases hfalse

/-- Three positions around the middle have an average of 520. Two calls that find the radio busy let
the next one be ignored. -/
theorem not_unwraps :
    (Along DriftRun.step Smooth .initial
        [⟨311, 100, false, false⟩, ⟨312, 200, false, false⟩, ⟨313, 300, false, false⟩] ∧
      ¬Along DriftRun.step Unwrapped .initial
        [⟨311, 100, false, false⟩, ⟨312, 200, false, false⟩, ⟨313, 300, false, false⟩]) ∧
    Along RxbitRun.step Gradual .initial
        [⟨600, false, false, .withTws⟩, ⟨600, false, false, .withTws⟩,
          ⟨600, false, false, .withTws⟩, ⟨600, false, false, .withTws⟩,
          ⟨600, false, false, .withTws⟩, ⟨615, false, true, .withTws⟩,
          ⟨630, false, true, .withTws⟩, ⟨645, false, false, .withTws⟩] ∧
      ¬Along RxbitRun.step Follows .initial
        [⟨600, false, false, .withTws⟩, ⟨600, false, false, .withTws⟩,
          ⟨600, false, false, .withTws⟩, ⟨600, false, false, .withTws⟩,
          ⟨600, false, false, .withTws⟩, ⟨615, false, true, .withTws⟩,
          ⟨630, false, true, .withTws⟩, ⟨645, false, false, .withTws⟩] := by
  refine ⟨⟨by decide +kernel, ?_⟩, by decide +kernel, by decide +kernel⟩
  exact @not_unwrapped_of_avg [_, _] _ (by decide +kernel)

end EarbudFirmware.BtXtalSync
