import EarbudFirmware.Hal.Sysfreq
import EarbudFirmware.Lib.Transition
import Mathlib.Data.List.Basic

/-!
# The frequency boost of the A2DP player

The player requests the higher one of its normal frequency and of an entry of a table, which two
cases select. A boost selects its own entry until a counter has counted it down; the cases are then
set back one after the other, with a refresh behind each.

## Main definitions

* `Boost` — the counter, the normal frequency, the two cases, and what they led to
* `Boost.step` — a call of one of the functions around the boost
* `Boost.InTable` — when a call reads the table inside its entries

## Main results

* `Boost.indexInside_run` — the table is read inside its entries by exactly those calls
* `Boost.requestRight_run` — the frequency that was requested last
* `Boost.endsAfter_iff` — how long a boost lasts, and what it leaves
-/

namespace EarbudFirmware.A2dp

open Hal

/-- `A2DP_AUDIO_FREQ_USER_CASE_INDEX_E`. -/
inductive FreqUserCase where
  | minimumNormalFreqWithOneMobileLink
  | minimumNormalFreqWithTwoMobileLink
  | boostModeFreq
  | invalid
  deriving DecidableEq

/-- The number of a user case. -/
def FreqUserCase.index : FreqUserCase → Nat
  | minimumNormalFreqWithOneMobileLink => 0
  | minimumNormalFreqWithTwoMobileLink => 1
  | boostModeFreq => 2
  | invalid => 3

/-- `A2DP_AUDIO_DYNAMIC_FREQ_RSSI_CASE_INDEX_E`. -/
inductive FreqRssiCase where
  | high
  | low
  | invalid
  deriving DecidableEq

/-- The number of an RSSI case. -/
def FreqRssiCase.index : FreqRssiCase → Nat
  | high => 0
  | low => 1
  | invalid => 2

/-- `A2DP_AUDIO_DYNAMIC_FREQ_RSSI_CASE_CNT`. -/
def freqRssiCaseCnt : Nat := 2

/-- `a2dp_audio_freq_table`. A frequency is its number. -/
def freqTable : List Nat :=
  [CmuFreq.freq26M, .freq52M, .freq52M, .freq52M, .freq104M, .freq104M].map CmuFreq.index

/-- `a2dp_audio_current_sysfreq`, which nothing sets. -/
def currentSysfreq : Nat := CmuFreq.freq32K.index

/-- `UINT32_MAX` in the counter: no boost. -/
def noBoost : UInt32 := 0xFFFFFFFF

/-- The variables of the boost, with the argument of the last call of `app_audio_set_a2dp_freq` and
the indices at which the table was read. -/
structure Boost where
  /-- `a2dp_audio_sysfreq_cnt`. -/
  cnt : UInt32
  destBoostCnt : UInt32
  normalfreq : Nat
  userCase : FreqUserCase
  rssiCase : FreqRssiCase
  requested : Option Nat
  indices : List Nat
  deriving DecidableEq

/-- A call. The streaming links are counted where the user case follows them. -/
inductive BoostCall where
  | boostInit (normalfreq links : Nat)
  | boostStart (boostCnt : UInt32)
  | setFreqRssiCase (rssiCase : FreqRssiCase)
  | updateNormalfreq (links : Nat)
  | boostPorc (links : Nat)

namespace Boost

/-- The variables before the first call. -/
def boot : Boost :=
  ⟨noBoost, 0, CmuFreq.freq52M.index, .invalid, .invalid, none, []⟩

/-- The place of the two cases in the table. -/
def tableIndex (b : Boost) : Nat := b.userCase.index * freqRssiCaseCnt + b.rssiCase.index

/-- `a2dp_audio_sysfreq_boost_running`. -/
def boostRunning (b : Boost) : Bool := b.cnt != noBoost

variable (behind : Nat → Nat)

/-- `a2dp_audio_sysfreq_refesh`. What lies behind the table is `behind`. -/
def sysfreqRefesh (b : Boost) : Boost :=
  let miniFreq := freqTable.getD b.tableIndex (behind b.tableIndex)
  let freq := if miniFreq < b.normalfreq then b.normalfreq else miniFreq
  { b with
    indices := b.indices ++ [b.tableIndex]
    requested := if currentSysfreq ≠ freq then some freq else b.requested }

/-- `a2dp_audio_set_freq_user_case`. -/
def setFreqUserCase (b : Boost) (userCase : FreqUserCase) : Boost :=
  if b.userCase ≠ userCase then sysfreqRefesh behind { b with userCase := userCase } else b

/-- `a2dp_audio_set_freq_rssi_case`. -/
def setFreqRssiCase (b : Boost) (rssiCase : FreqRssiCase) : Boost :=
  if b.rssiCase ≠ rssiCase then sysfreqRefesh behind { b with rssiCase := rssiCase } else b

/-- `a2dp_audio_sysfreq_update_normalfreq`. -/
def updateNormalfreq (b : Boost) (links : Nat) : Boost :=
  if b.userCase ≠ .boostModeFreq then
    if b.boostRunning then b.setFreqUserCase behind .boostModeFreq
    else if links = 1 then b.setFreqUserCase behind .minimumNormalFreqWithOneMobileLink
    else if 1 < links then b.setFreqUserCase behind .minimumNormalFreqWithTwoMobileLink
    else b
  else b

/-- `a2dp_audio_sysfreq_reset`. -/
def sysfreqReset (b : Boost) (links : Nat) : Boost :=
  ((b.setFreqUserCase behind .invalid).setFreqRssiCase behind .high).updateNormalfreq behind links

/-- `a2dp_audio_sysfreq_boost_init`. -/
def boostInit (b : Boost) (normalfreq links : Nat) : Boost :=
  { b with cnt := noBoost, destBoostCnt := 0, normalfreq := normalfreq }.sysfreqReset behind links

/-- `a2dp_audio_sysfreq_boost_start`. -/
def boostStart (b : Boost) (boostCnt : UInt32) : Boost :=
  { b with cnt := 0, destBoostCnt := boostCnt }.setFreqUserCase behind .boostModeFreq

/-- `a2dp_audio_sysfreq_boost_porc`. -/
def boostPorc (b : Boost) (links : Nat) : Boost :=
  if b.cnt = noBoost then b
  else if b.destBoostCnt ≤ b.cnt then { b with cnt := noBoost }.sysfreqReset behind links
  else { b with cnt := b.cnt + 1 }

/-- A call is made. -/
def step (b : Boost) : BoostCall → Boost
  | .boostInit normalfreq links => b.boostInit behind normalfreq links
  | .boostStart boostCnt => b.boostStart behind boostCnt
  | .setFreqRssiCase rssiCase => b.setFreqRssiCase behind rssiCase
  | .updateNormalfreq links => b.updateNormalfreq behind links
  | .boostPorc links => b.boostPorc behind links

/-- Calls are made one after the other. -/
def run (b : Boost) (es : List BoostCall) : Boost := es.foldl (step behind) b

/-! ### The contract -/

/-- The table was read inside its entries. -/
def IndexInside (b : Boost) : Prop := ∀ i ∈ b.indices, i < freqTable.length

/-- The higher one of the normal frequency and of the table's entry was requested last, if both
cases are valid. -/
def RequestRight (b : Boost) : Prop :=
  b.userCase ≠ .invalid → b.rssiCase ≠ .invalid →
    b.requested = some (max b.normalfreq (freqTable.getD b.tableIndex 0))

/-- The user case for a number of streaming links; without a link there is none. -/
def userCaseOf : Nat → FreqUserCase
  | 0 => .invalid
  | 1 => .minimumNormalFreqWithOneMobileLink
  | _ + 2 => .minimumNormalFreqWithTwoMobileLink

end Boost

/-- The call starts another boost, or ends the one that is running. -/
def BoostCall.restarts : BoostCall → Bool
  | boostInit .. | boostStart _ => true
  | setFreqRssiCase _ | updateNormalfreq _ | boostPorc _ => false

/-- The call is one of `a2dp_audio_sysfreq_boost_porc`. -/
def BoostCall.isBoostPorc : BoostCall → Bool
  | boostPorc _ => true
  | boostInit .. | boostStart _ | setFreqRssiCase _ | updateNormalfreq _ => false

namespace Boost

variable (behind : Nat → Nat)

/-- A boost of `n` that starts now runs in its user case up to `n` calls of
`a2dp_audio_sysfreq_boost_porc`, whatever other calls come between, and the next one ends it with
the user case of the links. -/
def EndsAfter (b : Boost) (n : UInt32) : Prop :=
  ∀ es : List BoostCall, (∀ e ∈ es, e.restarts = false) →
    (es.countP BoostCall.isBoostPorc ≤ n.toNat →
      let t := (b.boostStart behind n).run behind es
      t.boostRunning = true ∧ t.userCase = .boostModeFreq) ∧
    ∀ links, es.countP BoostCall.isBoostPorc = n.toNat →
      let t := ((b.boostStart behind n).run behind es).boostPorc behind links
      t.boostRunning = false ∧ t.userCase = userCaseOf links

/-- The call reads the table inside its entries, if it reads it. -/
def InTable (b : Boost) : BoostCall → Prop
  | .boostInit .. => b.userCase = .invalid ∧ b.rssiCase = .high
  | .boostStart _ => b.userCase = .boostModeFreq ∨ b.rssiCase ≠ .invalid
  | .setFreqRssiCase rssiCase =>
      b.rssiCase = rssiCase ∨ b.userCase.index * freqRssiCaseCnt + rssiCase.index < freqTable.length
  | .updateNormalfreq _ =>
      b.userCase = .boostModeFreq ∨ b.boostRunning = false ∨ b.rssiCase ≠ .invalid
  | .boostPorc _ =>
      b.boostRunning = true → b.destBoostCnt ≤ b.cnt → b.userCase = .invalid ∧ b.rssiCase = .high

/-! ### What a call does to the cases -/

variable {behind} {b : Boost}

@[simp] theorem sysfreqRefesh_cnt : (b.sysfreqRefesh behind).cnt = b.cnt := rfl

@[simp] theorem sysfreqRefesh_userCase : (b.sysfreqRefesh behind).userCase = b.userCase := rfl

@[simp] theorem sysfreqRefesh_rssiCase : (b.sysfreqRefesh behind).rssiCase = b.rssiCase := rfl

@[simp] theorem setFreqUserCase_cnt (u : FreqUserCase) :
    (b.setFreqUserCase behind u).cnt = b.cnt := by
  rw [setFreqUserCase]
  split <;> rfl

@[simp] theorem setFreqUserCase_userCase (u : FreqUserCase) :
    (b.setFreqUserCase behind u).userCase = u := by
  rw [setFreqUserCase]
  split
  · rfl
  · rename_i h
    exact not_not.mp h

@[simp] theorem setFreqUserCase_rssiCase (u : FreqUserCase) :
    (b.setFreqUserCase behind u).rssiCase = b.rssiCase := by
  rw [setFreqUserCase]
  split <;> rfl

@[simp] theorem setFreqRssiCase_cnt (r : FreqRssiCase) :
    (b.setFreqRssiCase behind r).cnt = b.cnt := by
  rw [setFreqRssiCase]
  split <;> rfl

@[simp] theorem setFreqRssiCase_destBoostCnt (r : FreqRssiCase) :
    (b.setFreqRssiCase behind r).destBoostCnt = b.destBoostCnt := by
  rw [setFreqRssiCase]
  split <;> rfl

@[simp] theorem setFreqRssiCase_userCase (r : FreqRssiCase) :
    (b.setFreqRssiCase behind r).userCase = b.userCase := by
  rw [setFreqRssiCase]
  split <;> rfl

@[simp] theorem setFreqRssiCase_rssiCase (r : FreqRssiCase) :
    (b.setFreqRssiCase behind r).rssiCase = r := by
  rw [setFreqRssiCase]
  split
  · rfl
  · rename_i h
    exact not_not.mp h

/-- Nothing changes during a boost. -/
theorem updateNormalfreq_of_boostMode (h : b.userCase = .boostModeFreq) (links : Nat) :
    b.updateNormalfreq behind links = b := if_neg (not_not.mpr h)

theorem boostRunning_eq_false_iff : b.boostRunning = false ↔ b.cnt = noBoost := by
  simp [boostRunning]

theorem boostRunning_eq_true_iff : b.boostRunning = true ↔ b.cnt ≠ noBoost := by
  simp [boostRunning]

/-- Without a boost, the links decide about the user case. -/
theorem updateNormalfreq_eq (hinvalid : b.userCase = .invalid) (hcnt : b.cnt = noBoost)
    (links : Nat) :
    b.updateNormalfreq behind links = b.setFreqUserCase behind (userCaseOf links) := by
  have hrunning := boostRunning_eq_false_iff.mpr hcnt
  match links with
  | 0 => simp [updateNormalfreq, hinvalid, hrunning, userCaseOf, setFreqUserCase]
  | 1 => simp [updateNormalfreq, hinvalid, hrunning, userCaseOf]
  | links + 2 => simp [updateNormalfreq, hinvalid, hrunning, userCaseOf]

/-- A reset outside a boost leaves the user case of the links. -/
theorem sysfreqReset_eq (hcnt : b.cnt = noBoost) (links : Nat) :
    b.sysfreqReset behind links =
      ((b.setFreqUserCase behind .invalid).setFreqRssiCase behind .high).setFreqUserCase behind
        (userCaseOf links) :=
  updateNormalfreq_eq (by simp) (by simpa using hcnt) links

/-! ### What is requested -/

/-- The entry of two valid cases is in the table, and above the frequency that is never set. -/
theorem table_of_valid (hu : b.userCase ≠ .invalid) (hr : b.rssiCase ≠ .invalid) :
    b.tableIndex < freqTable.length ∧ currentSysfreq < freqTable.getD b.tableIndex 0 := by
  unfold tableIndex
  cases huser : b.userCase with
  | invalid => exact absurd huser hu
  | minimumNormalFreqWithOneMobileLink | minimumNormalFreqWithTwoMobileLink | boostModeFreq =>
    cases hrssi : b.rssiCase with
    | invalid => exact absurd hrssi hr
    | high | low => exact ⟨by decide, by decide⟩

theorem requestRight_sysfreqRefesh : (b.sysfreqRefesh behind).RequestRight := by
  intro hu hr
  obtain ⟨hlt, hfreq⟩ := @table_of_valid b hu hr
  have hentry (x : Nat) : freqTable.getD b.tableIndex x = freqTable.getD b.tableIndex 0 := by
    simp only [List.getD_eq_getElem?_getD, List.getElem?_eq_getElem hlt, Option.getD_some]
  change (if currentSysfreq ≠ _ then some _ else b.requested) = some (max b.normalfreq
    (freqTable.getD b.tableIndex 0))
  rw [hentry]
  have hmax : (if freqTable.getD b.tableIndex 0 < b.normalfreq then b.normalfreq
      else freqTable.getD b.tableIndex 0) = max b.normalfreq (freqTable.getD b.tableIndex 0) := by
    split <;> omega
  rw [hmax, if_pos (Nat.ne_of_lt (lt_of_lt_of_le hfreq (le_max_right _ _)))]

theorem requestRight_of_invalid (h : b.userCase = .invalid) : b.RequestRight :=
  fun hu _ => absurd h hu

theorem RequestRight.setFreqUserCase (h : b.RequestRight) (u : FreqUserCase) :
    (b.setFreqUserCase behind u).RequestRight := by
  rw [Boost.setFreqUserCase]
  split
  · exact requestRight_sysfreqRefesh
  · exact h

theorem RequestRight.setFreqRssiCase (h : b.RequestRight) (r : FreqRssiCase) :
    (b.setFreqRssiCase behind r).RequestRight := by
  rw [Boost.setFreqRssiCase]
  split
  · exact requestRight_sysfreqRefesh
  · exact h

theorem RequestRight.updateNormalfreq (h : b.RequestRight) (links : Nat) :
    (b.updateNormalfreq behind links).RequestRight := by
  rw [Boost.updateNormalfreq]
  split_ifs
  · exact h.setFreqUserCase _
  · exact h.setFreqUserCase _
  · exact h.setFreqUserCase _
  · exact h
  · exact h

/-- A reset begins with a user case that is not valid, whatever was requested before. -/
theorem requestRight_sysfreqReset (links : Nat) :
    (b.sysfreqReset behind links).RequestRight := by
  have hinvalid : (b.setFreqUserCase behind .invalid).RequestRight :=
    requestRight_of_invalid (setFreqUserCase_userCase _)
  exact (hinvalid.setFreqRssiCase _).updateNormalfreq links

theorem RequestRight.step (h : b.RequestRight) (e : BoostCall) :
    (b.step behind e).RequestRight := by
  cases e with
  | boostInit normalfreq links => exact requestRight_sysfreqReset links
  | boostStart boostCnt =>
    have hstart : RequestRight { b with cnt := 0, destBoostCnt := boostCnt } := h
    exact hstart.setFreqUserCase _
  | setFreqRssiCase rssiCase => exact h.setFreqRssiCase _
  | updateNormalfreq links => exact h.updateNormalfreq _
  | boostPorc links =>
    rw [Boost.step, boostPorc]
    split_ifs
    · exact h
    · exact requestRight_sysfreqReset links
    · exact h

/-- After any calls, the frequency that was requested last is the right one. -/
theorem requestRight_run (es : List BoostCall) (h : b.RequestRight) :
    (b.run behind es).RequestRight := by
  induction es generalizing b with
  | nil => exact h
  | cons e es ih => exact ih (h.step e)

/-! ### Where the table is read -/

theorem indexInside_sysfreqRefesh :
    (b.sysfreqRefesh behind).IndexInside ↔
      b.IndexInside ∧ b.tableIndex < freqTable.length := by
  simp only [IndexInside, sysfreqRefesh, List.forall_mem_append, List.forall_mem_singleton]

theorem indexInside_setFreqUserCase (u : FreqUserCase) :
    (b.setFreqUserCase behind u).IndexInside ↔ b.IndexInside ∧
      (b.userCase = u ∨ u.index * freqRssiCaseCnt + b.rssiCase.index < freqTable.length) := by
  rw [setFreqUserCase]
  split_ifs with h
  · rw [indexInside_sysfreqRefesh, or_iff_right h]
    exact Iff.rfl
  · exact (and_iff_left (.inl (not_not.mp h))).symm

theorem indexInside_setFreqRssiCase (r : FreqRssiCase) :
    (b.setFreqRssiCase behind r).IndexInside ↔ b.IndexInside ∧
      (b.rssiCase = r ∨ b.userCase.index * freqRssiCaseCnt + r.index < freqTable.length) := by
  rw [setFreqRssiCase]
  split_ifs with h
  · rw [indexInside_sysfreqRefesh, or_iff_right h]
    exact Iff.rfl
  · exact (and_iff_left (.inl (not_not.mp h))).symm

/-- The entries of the links' user cases are there with every RSSI case. -/
theorem index_lt_of_links {u : FreqUserCase} (hinvalid : u ≠ .invalid) (hboost : u ≠ .boostModeFreq)
    (r : FreqRssiCase) : u.index * freqRssiCaseCnt + r.index < freqTable.length := by
  cases u with
  | invalid => exact absurd rfl hinvalid
  | boostModeFreq => exact absurd rfl hboost
  | minimumNormalFreqWithOneMobileLink | minimumNormalFreqWithTwoMobileLink =>
    cases r <;> decide

/-- The entries of a boost are there with a valid RSSI case. -/
theorem boostIndex_lt_iff (r : FreqRssiCase) :
    FreqUserCase.boostModeFreq.index * freqRssiCaseCnt + r.index < freqTable.length ↔
      r ≠ .invalid := by
  cases r <;> decide

/-- No entry is there without a user case. -/
theorem not_invalidIndex_lt (r : FreqRssiCase) :
    ¬FreqUserCase.invalid.index * freqRssiCaseCnt + r.index < freqTable.length := by
  cases r <;> decide

theorem indexInside_updateNormalfreq (links : Nat) :
    (b.updateNormalfreq behind links).IndexInside ↔
      b.IndexInside ∧ b.InTable (.updateNormalfreq links) := by
  rw [updateNormalfreq, InTable]
  split_ifs with hboost hrunning hone htwo
  · rw [indexInside_setFreqUserCase, boostIndex_lt_iff, or_iff_right hboost, or_iff_right hboost,
      or_iff_right (by simp [hrunning])]
  · rw [indexInside_setFreqUserCase]
    have hlt := index_lt_of_links (by decide : FreqUserCase.minimumNormalFreqWithOneMobileLink ≠
      .invalid) (by decide) b.rssiCase
    exact and_congr_right fun _ => iff_of_true (.inr hlt) (.inr (.inl (by simpa using hrunning)))
  · rw [indexInside_setFreqUserCase]
    have hlt := index_lt_of_links (by decide : FreqUserCase.minimumNormalFreqWithTwoMobileLink ≠
      .invalid) (by decide) b.rssiCase
    exact and_congr_right fun _ => iff_of_true (.inr hlt) (.inr (.inl (by simpa using hrunning)))
  · exact (and_iff_left (.inr (.inl (by simpa using hrunning)))).symm
  · exact (and_iff_left (.inl (not_not.mp hboost))).symm

/-- A reset outside a boost reads behind the table, unless its cases are set already. -/
theorem indexInside_sysfreqReset (hcnt : b.cnt = noBoost) (links : Nat) :
    (b.sysfreqReset behind links).IndexInside ↔
      b.IndexInside ∧ b.userCase = .invalid ∧ b.rssiCase = .high := by
  have hrunning :
      ((b.setFreqUserCase behind .invalid).setFreqRssiCase behind .high).boostRunning = false :=
    boostRunning_eq_false_iff.mpr (by simpa using hcnt)
  rw [sysfreqReset, indexInside_updateNormalfreq, indexInside_setFreqRssiCase,
    indexInside_setFreqUserCase, or_iff_left (not_invalidIndex_lt _), setFreqUserCase_userCase,
    setFreqUserCase_rssiCase, or_iff_left (not_invalidIndex_lt _), and_assoc, and_assoc]
  exact and_congr_right fun _ => and_congr_right fun _ =>
    and_iff_left (Or.inr (Or.inl hrunning))

theorem indexInside_step (e : BoostCall) :
    (b.step behind e).IndexInside ↔ b.IndexInside ∧ b.InTable e := by
  cases e with
  | boostInit normalfreq links => exact indexInside_sysfreqReset rfl links
  | boostStart boostCnt =>
    have h := @indexInside_setFreqUserCase behind { b with cnt := 0, destBoostCnt := boostCnt }
      .boostModeFreq
    rw [boostIndex_lt_iff] at h
    exact h
  | setFreqRssiCase rssiCase => exact indexInside_setFreqRssiCase rssiCase
  | updateNormalfreq links => exact indexInside_updateNormalfreq links
  | boostPorc links =>
    rw [step, boostPorc, InTable, boostRunning_eq_true_iff]
    split_ifs with hnone hend
    · exact (and_iff_left fun h => absurd hnone h).symm
    · rw [indexInside_sysfreqReset rfl, forall_prop_of_true hnone, forall_prop_of_true hend]
      exact Iff.rfl
    · exact (and_iff_left fun _ h => absurd h hend).symm

/-- The calls that read the table inside its entries are those that the cases allow. -/
theorem indexInside_run (es : List BoostCall) :
    (b.run behind es).IndexInside ↔ b.IndexInside ∧
      Transition.Along (fun b e => some (b.step behind e)) InTable b es := by
  induction es generalizing b with
  | nil => exact (and_iff_left trivial).symm
  | cons e es ih =>
    rw [Transition.along_cons, ← and_assoc, ← @indexInside_step behind]
    exact ih.trans (and_congr_right fun _ => by simp)

/-! ### How long a boost lasts -/

/-- A boost of `n` is running, and `k` calls have counted. -/
structure Boosting (n : UInt32) (k : Nat) (b : Boost) : Prop where
  cnt : b.cnt.toNat = k
  dest : b.destBoostCnt = n
  userCase : b.userCase = .boostModeFreq

theorem boosting_boostStart (b : Boost) (n : UInt32) :
    Boosting n 0 (b.boostStart behind n) := by
  refine ⟨?_, ?_, setFreqUserCase_userCase _⟩
  · simp [boostStart]
  · rw [boostStart, setFreqUserCase]
    split <;> rfl

theorem noBoost_toNat : noBoost.toNat = 0xFFFFFFFF := rfl

theorem Boosting.step {n : UInt32} {k : Nat} (h : Boosting n k b) {e : BoostCall}
    (he : e.restarts = false) (hk : k + [e].countP BoostCall.isBoostPorc ≤ n.toNat) :
    Boosting n (k + [e].countP BoostCall.isBoostPorc) (b.step behind e) := by
  cases e with
  | boostInit normalfreq links => exact absurd he Bool.true_eq_false.mp
  | boostStart boostCnt => exact absurd he Bool.true_eq_false.mp
  | setFreqRssiCase rssiCase =>
    refine ⟨?_, ?_, ?_⟩
    · simpa [Boost.step, BoostCall.isBoostPorc] using h.cnt
    · simpa [Boost.step] using h.dest
    · simpa [Boost.step] using h.userCase
  | updateNormalfreq links =>
    rw [Boost.step, updateNormalfreq_of_boostMode h.userCase]
    exact h
  | boostPorc links =>
    change k + 1 ≤ n.toNat at hk
    have hlt : b.cnt.toNat < n.toNat := by rw [h.cnt]; omega
    have hmax := n.toNat_lt
    have hnone : ¬b.cnt = noBoost := fun heq => by
      rw [heq, noBoost_toNat] at hlt
      omega
    have hnot : ¬b.destBoostCnt ≤ b.cnt := by
      rw [h.dest, UInt32.le_iff_toNat_le]
      omega
    rw [Boost.step, boostPorc, if_neg hnone, if_neg hnot]
    refine ⟨?_, h.dest, h.userCase⟩
    change (b.cnt + 1).toNat = k + 1
    rw [UInt32.toNat_add, h.cnt, UInt32.toNat_one]
    exact Nat.mod_eq_of_lt (by omega)

theorem Boosting.run {n : UInt32} {k : Nat} (h : Boosting n k b) {es : List BoostCall}
    (hes : ∀ e ∈ es, e.restarts = false)
    (hk : k + es.countP BoostCall.isBoostPorc ≤ n.toNat) :
    Boosting n (k + es.countP BoostCall.isBoostPorc) (b.run behind es) := by
  induction es generalizing b k with
  | nil => exact h
  | cons e es ih =>
    obtain ⟨he, hrest⟩ := List.forall_mem_cons.mp hes
    have hsplit : (e :: es).countP BoostCall.isBoostPorc =
        [e].countP BoostCall.isBoostPorc + es.countP BoostCall.isBoostPorc :=
      @List.countP_append _ _ [e] es
    rw [hsplit, ← Nat.add_assoc] at hk ⊢
    exact ih (h.step he (Nat.le_of_add_right_le hk)) hrest hk

/-- The call behind the last one that counts ends the boost. -/
theorem Boosting.boostPorc {n : UInt32} (h : Boosting n n.toNat b) (hn : n ≠ noBoost)
    (links : Nat) :
    let t := b.boostPorc behind links
    t.boostRunning = false ∧ t.userCase = userCaseOf links := by
  have hcnt : b.cnt = n := UInt32.toNat_inj.mp h.cnt
  have hdest : b.destBoostCnt ≤ b.cnt := by
    rw [hcnt, h.dest]
    exact UInt32.le_refl n
  rw [Boost.boostPorc, if_neg (hcnt ▸ hn), if_pos hdest, sysfreqReset_eq rfl]
  simp [boostRunning_eq_false_iff]

/-- A boost ends as it should, but for the one whose length is the number that means no boost. -/
theorem endsAfter_iff (b : Boost) (n : UInt32) : b.EndsAfter behind n ↔ n ≠ noBoost := by
  constructor
  · rintro h rfl
    have hcount : (List.replicate noBoost.toNat (BoostCall.boostPorc 0)).countP
        BoostCall.isBoostPorc = noBoost.toNat := by
      exact List.countP_replicate.trans (if_pos rfl)
    have hnone : ∀ e ∈ List.replicate noBoost.toNat (BoostCall.boostPorc 0),
        e.restarts = false := by
      intro e he
      rw [List.eq_of_mem_replicate he]
      rfl
    have hboosting : Boosting noBoost (0 + noBoost.toNat)
        ((b.boostStart behind noBoost).run behind _) :=
      hcount ▸ (boosting_boostStart b noBoost).run hnone (by rw [hcount, Nat.zero_add])
    rw [Nat.zero_add] at hboosting
    have hrunning := (h _ hnone).1 hcount.le
    exact boostRunning_eq_true_iff.mp hrunning.1 (UInt32.toNat_inj.mp hboosting.cnt)
  · intro hn es hes
    have hboosting (hle : es.countP BoostCall.isBoostPorc ≤ n.toNat) :
        Boosting n (es.countP BoostCall.isBoostPorc) ((b.boostStart behind n).run behind es) := by
      have hrun : Boosting n (0 + es.countP BoostCall.isBoostPorc)
          ((b.boostStart behind n).run behind es) :=
        (boosting_boostStart b n).run hes (by rwa [Nat.zero_add])
      rwa [Nat.zero_add] at hrun
    refine ⟨fun hle => ?_, fun links heq => ?_⟩
    · refine ⟨boostRunning_eq_true_iff.mpr fun hcnt => ?_, (hboosting hle).userCase⟩
      have htoNat := (hboosting hle).cnt
      rw [hcnt, noBoost_toNat] at htoNat
      have hmax := n.toNat_lt
      exact hn (UInt32.toNat_inj.mp (by rw [noBoost_toNat]; omega))
    · have h := hboosting heq.le
      rw [heq] at h
      exact h.boostPorc hn links

end Boost

/-- In every run of the calls, the table is read inside its entries exactly as long as the cases
allow every call; the right frequency was requested last; and a boost that is started then ends as
it should, unless its length means no boost. -/
theorem boost_returns (behind : Nat → Nat) (es : List BoostCall) :
    ((Boost.boot.run behind es).IndexInside ↔
      Transition.Along (fun b e => some (b.step behind e)) Boost.InTable .boot es) ∧
    (Boost.boot.run behind es).RequestRight ∧
    ∀ n, (Boost.boot.run behind es).EndsAfter behind n ↔ n ≠ noBoost := by
  refine ⟨(Boost.indexInside_run es).trans (and_iff_right ?_),
    Boost.requestRight_run es (Boost.requestRight_of_invalid rfl), Boost.endsAfter_iff _⟩
  intro i hi
  exact absurd hi List.not_mem_nil

/-- The first call of all reads behind the table, and so does the end of every boost. -/
theorem boostInit_not_indexInside :
    ¬(Boost.boot.run (fun _ => 0) [.boostInit CmuFreq.freq52M.index 1]).IndexInside := by
  change ¬(Boost.boot.step (fun _ => 0) (.boostInit CmuFreq.freq52M.index 1)).IndexInside
  rw [Boost.indexInside_step]
  exact fun h => absurd h.2.2 (by decide)

end EarbudFirmware.A2dp
