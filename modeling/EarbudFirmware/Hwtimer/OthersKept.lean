import EarbudFirmware.Hwtimer.NotEarly
import EarbudFirmware.Hwtimer.Ranged
import Mathlib.Data.List.Forall2

/-!
# The deadlines of the other timers

Starting or stopping a timer gives the first place in the list to another timer, or changes the time
of the entry behind. The deadlines of the other timers stay as they are, as long as the hardware
timer goes on. When it is started again it is loaded with one tick less than it is told, and the
count is taken as it is, so that the other deadlines can move by this tick.

## Main definitions

* `Hwtimers.others` — the instants at which the other active timers expire
* `OthersKept` — they are close to what they were, and no time in the list overflows
* `InRange` — what a stop must not meet

## Main results

* `othersKept_run` — every start and stop of every run keeps the others
* `not_unmovesOthers` — they can move by a tick, and by more when a number of 32 bits overflows
-/

namespace EarbudFirmware.Hwtimer

open DeltaList (deadlines)
open Transition (Along)

variable {ι : Type*} [DecidableEq ι]

/-- The active timers apart from `t`, with the instants at which they expire: the time at which the
hardware timer was started, and the times in the list. What is overdue is due now. -/
def Hwtimers.others (s : Hwtimers ι) (t : ι) : List (ι × Nat) :=
  ((deadlines s.startTime s.active).filter fun p => p.1 ≠ t).map fun p => (p.1, max s.now p.2)

/-- The same timer, one `HAL_TIMER_LOAD_DELTA` earlier or later at the most. -/
def CloseTo (p q : ι × Nat) : Prop := p.1 = q.1 ∧ p.2 ≤ q.2 + loadDelta ∧ q.2 ≤ p.2 + loadDelta

/-- The other timers expire when they would have, and their times are numbers of 32 bits. -/
structure OthersKept (s : Hwtimers ι) (t : ι) (s' : Hwtimers ι) : Prop where
  close : List.Forall₂ CloseTo (s.others t) (s'.others t)
  same : s'.starts = s.starts → s'.others t = s.others t
  lt : ∀ p ∈ s'.active, p.2 < 0x100000000

/-- When the first timer is stopped and another one follows: before it is due, the time of that one
and the hardware count add up to a number of 32 bits; after that, the elapsed time is one. -/
def InRange (s : Hwtimers ι) (t : ι) : Prop :=
  ∀ u y v more, s.active = (t, u) :: (y, v) :: more →
    if s.rawValue = 0 then s.now - s.startTime < 0x100000000 else v + s.rawValue < 0x100000000

/-- A start or a stop keeps the others. -/
def KeepsOthers (s : Hwtimers ι) (e : HwtimerEvent ι) : Prop :=
  let s := { s with now := s.now + e.wait }
  match e.op with
  | .start t ticks => ∀ r, s.start t ticks.toNat = some r → OthersKept s t r.2
  | .stop t => InRange s t → ∀ r, s.stop t = some r → OthersKept s t r.2
  | _ => True

/-- A start or a stop does not move the others at all. -/
def UnmovesOthers (s : Hwtimers ι) (e : HwtimerEvent ι) : Prop :=
  let s := { s with now := s.now + e.wait }
  match e.op with
  | .start t ticks => ∀ r, s.start t ticks.toNat = some r → r.2.others t = s.others t
  | .stop t => ∀ r, s.stop t = some r → r.2.others t = s.others t
  | _ => True

section Lists

variable {d d' : Nat}

/-- The same entries, counted from a time that is one tick earlier or later at the most. -/
theorem forall₂_closeTo (t : ι) (now : Nat) (hle : d ≤ d' + loadDelta) (hle' : d' ≤ d + loadDelta)
    (l : List (ι × Nat)) :
    List.Forall₂ CloseTo
      (((deadlines d l).filter fun p => p.1 ≠ t).map fun p => (p.1, max now p.2))
      (((deadlines d' l).filter fun p => p.1 ≠ t).map fun p => (p.1, max now p.2)) := by
  induction l generalizing d d' with
  | nil => exact .nil
  | cons x l ih =>
    obtain ⟨x, u⟩ := x
    have hrest := @ih (d + u) (d' + u) (by omega) (by omega)
    rw [DeltaList.deadlines_cons, DeltaList.deadlines_cons]
    by_cases hx : x = t
    · rw [List.filter_cons_of_neg (by simpa using hx), List.filter_cons_of_neg (by simpa using hx)]
      exact hrest
    · rw [List.filter_cons_of_pos (by simpa using hx), List.filter_cons_of_pos (by simpa using hx)]
      refine .cons ⟨rfl, ?_, ?_⟩ hrest
      · dsimp only
        omega
      · dsimp only
        omega

end Lists

namespace OthersKept

variable {s s' : Hwtimers ι} {t : ι}

/-- The others are not moved at all. -/
theorem of_eq (h : s'.others t = s.others t) (hlt : ∀ p ∈ s'.active, p.2 < 0x100000000) :
    OthersKept s t s' where
  close := by
    rw [h]
    exact List.forall₂_same.2 fun p _ => ⟨rfl, Nat.le_add_right _ _, Nat.le_add_right _ _⟩
  same _ := h
  lt := hlt

/-- The hardware timer is started again. -/
theorem of_close {u : Nat} (h : List.Forall₂ CloseTo (s.others t) ((s'.halTimerStart u).others t))
    (hstarts : s'.starts = s.starts) (hlt : ∀ p ∈ s'.active, p.2 < 0x100000000) :
    OthersKept s t (s'.halTimerStart u) where
  close := h
  same hsame := by
    have hnext : (s'.halTimerStart u).starts = s'.starts + 1 := rfl
    omega
  lt := hlt

end OthersKept

namespace Ranged

variable {s : Hwtimers ι} {t : ι}

omit [DecidableEq ι] in
theorem lt_of_mem (h : Ranged s) {p : ι × Nat} (hp : p ∈ s.active) : p.2 < 0x100000000 := by
  cases hactive : s.active with
  | nil =>
    rw [hactive] at hp
    cases hp
  | cons a rest =>
    obtain ⟨x, u⟩ := a
    rw [hactive] at hp
    obtain rfl | hp := List.mem_cons.1 hp
    · exact (h.load x u rest hactive).2
    · obtain ⟨d, hd, hle⟩ := DeltaList.exists_mem_deadlines (d := 0) hp
      exact lt_of_le_of_lt hle (h.range x u rest hactive _ hd).1

omit [DecidableEq ι] in
/-- The end of the load and the time of the first entry are a tick apart at the most. -/
theorem load_close {x : ι} {u : Nat} {rest : List (ι × Nat)} (h : Ranged s)
    (hactive : s.active = (x, u) :: rest) :
    s.startTime + u ≤ s.startTime + s.load + loadDelta ∧
      s.startTime + s.load ≤ s.startTime + u + loadDelta := by
  obtain ⟨hload, -⟩ := h.load x u rest hactive
  unfold Hwtimers.reloadValue loadDelta at *
  split_ifs at hload <;> omega

/-- Starting a timer keeps the others. -/
theorem othersKept_start (h : Ranged s) {ticks : Nat} (hticks : ticks < 0x100000000)
    {r : HwtimerRet × Hwtimers ι} (hr : s.start t ticks = some r) : OthersKept s t r.2 := by
  have hlt := fun p hp => (h.start hticks hr).lt_of_mem (p := p) hp
  cases start_outcome hr with
  | invalid => exact .of_eq rfl hlt
  | only hstate hactive =>
    refine .of_close ?_ rfl hlt
    unfold Hwtimers.others
    rw [hactive]
    simp [Hwtimers.halTimerStart]
  | first hstate x u rest hactive hlt' =>
    refine .of_close ?_ rfl hlt
    have hcount := h.startTime_add_load (by omega)
    obtain ⟨hle, hle'⟩ := h.load_close hactive
    -- the first timer was counted from the start with its time, and is now with its load
    have hbefore : deadlines s.startTime s.active =
        deadlines (s.startTime + u) ((x, 0) :: rest) := by
      rw [hactive]
      rfl
    have hafter : deadlines s.now ((t, max ticks loadDelta) ::
        (x, s.rawValue - max ticks loadDelta) :: rest) =
        (t, s.now + max ticks loadDelta) :: deadlines (s.startTime + s.load) ((x, 0) :: rest) := by
      rw [DeltaList.deadlines_cons, DeltaList.deadlines_cons, DeltaList.deadlines_cons,
        show s.now + max ticks loadDelta + (s.rawValue - max ticks loadDelta) =
          s.startTime + s.load by omega]
      rfl
    have hclose := forall₂_closeTo t s.now hle hle' ((x, 0) :: rest)
    rw [← hbefore] at hclose
    change List.Forall₂ CloseTo (s.others t) (((deadlines s.now ((t, max ticks loadDelta) ::
      (x, s.rawValue - max ticks loadDelta) :: rest)).filter _).map _)
    rw [hafter, List.filter_cons_of_neg (by simp)]
    exact hclose
  | behind hstate x u rest hactive hle =>
    refine .of_eq ?_ hlt
    unfold Hwtimers.others
    dsimp only
    rw [hactive, DeltaList.deadlines_cons, DeltaList.deadlines_cons, List.filter_cons,
      List.filter_cons, DeltaList.filter_deadlines_insertBehind]

/-- Stopping a timer keeps the others. -/
theorem othersKept_stop (h : Ranged s) (hin : InRange s t) {r : HwtimerRet × Hwtimers ι}
    (hr : s.stop t = some r) : OthersKept s t r.2 := by
  have hlt := fun p hp => (h.stop hr).lt_of_mem (p := p) hp
  cases stop_outcome hr with
  | same => exact .of_eq rfl hlt
  | fired => exact .of_eq rfl hlt
  | only hstate u hactive =>
    refine .of_eq ?_ hlt
    unfold Hwtimers.others
    rw [hactive, DeltaList.deadlines_cons, List.filter_cons_of_neg (by simp)]
    rfl
  | behind hstate x u rest hactive hne hmem =>
    refine .of_eq ?_ hlt
    have hremove : Hwtimers.removeBehind t rest = DeltaList.remove t rest :=
      removeBehind_eq fun p hp => (h.range x u rest hactive p hp).1
    unfold Hwtimers.others
    dsimp only
    rw [hremove, hactive, DeltaList.deadlines_cons, DeltaList.deadlines_cons, List.filter_cons,
      List.filter_cons, DeltaList.filter_deadlines_remove]
  | early hstate u y v more hactive hcur =>
    have hsum := hin u y v more hactive
    rw [if_neg hcur] at hsum
    rw [Nat.mod_eq_of_lt hsum] at hlt ⊢
    refine .of_close ?_ rfl hlt
    have hcount := h.startTime_add_load hcur
    obtain ⟨hle, hle'⟩ := h.load_close hactive
    have hclose := forall₂_closeTo t s.now hle hle' ((y, v) :: more)
    unfold Hwtimers.others
    rw [hactive, DeltaList.deadlines_cons, List.filter_cons_of_neg (by simp)]
    change List.Forall₂ CloseTo _ (((deadlines s.now ((y, v + s.rawValue) :: more)).filter _).map _)
    rw [DeltaList.deadlines_cons_add, ← hcount]
    exact hclose
  | overdue hstate u y v more hactive hcur hdue =>
    have hsum := hin u y v more hactive
    rw [if_pos hcur] at hsum
    refine .of_close ?_ rfl hlt
    have helapsed : s.elapsedTime = s.now - s.startTime := Nat.mod_eq_of_lt hsum
    have hstart := h.startTime_le
    -- the count has run out, so the first timer is due in a tick at the latest
    have hle : s.startTime + u ≤ s.now - (s.elapsedTime - u) + loadDelta := by
      have := Nat.mod_le (s.elapsedTime + loadDelta) 0x100000000
      unfold loadDelta at *
      omega
    have hle' : s.now - (s.elapsedTime - u) ≤ s.startTime + u + loadDelta := by omega
    have hclose := forall₂_closeTo t s.now hle hle' ((y, v) :: more)
    have hadvance := DeltaList.deadlines_advance (s.now - (s.elapsedTime - u)) (s.elapsedTime - u)
      ((y, v) :: more)
    rw [Nat.sub_add_cancel (by omega)] at hadvance
    unfold Hwtimers.others
    rw [hactive, DeltaList.deadlines_cons, List.filter_cons_of_neg (by simp)]
    change List.Forall₂ CloseTo _ (((deadlines s.now
      (DeltaList.advance ((y, v) :: more) (s.elapsedTime - u))).filter fun p => p.1 ≠ t).map
        fun p => (p.1, max s.now p.2))
    have hmax : ((fun p : ι × Nat => (p.1, max s.now p.2)) ∘
        fun p : ι × Nat => (p.1, max s.now p.2)) = fun p => (p.1, max s.now p.2) := by
      funext p
      simp
    rw [hadvance, List.filter_map, List.map_map, hmax]
    exact hclose

end Ranged

theorem keepsOthers_of_ranged {s : Hwtimers ι} {e : HwtimerEvent ι} (h : Ranged s) :
    KeepsOthers s e := by
  have hw := h.wait e.wait
  unfold KeepsOthers
  cases e.op with
  | start t ticks => exact fun r hr => hw.othersKept_start ticks.toNat_lt hr
  | stop t => exact fun hin r hr => hw.othersKept_stop hin hr
  | _ => trivial

omit [DecidableEq ι] in
theorem ranged_initial (allocated : ι → Bool) : Ranged (Hwtimers.initial allocated) :=
  Ranged.of_active_eq_nil rfl le_rfl

/-- In every run, every start and every stop leaves the other timers their deadlines, up to one
`HAL_TIMER_LOAD_DELTA`, and exactly if it does not start the hardware timer. -/
theorem othersKept_run (allocated : ι → Bool) (es : List (HwtimerEvent ι)) :
    Along hwtimerStep KeepsOthers (.initial allocated) es := by
  have hall : Along hwtimerStep (fun _ _ => True) (Hwtimers.initial allocated) es :=
    Transition.along_of_forall (fun _ _ => trivial) _ _
  exact (hall.strengthen (fun _ _ _ h _ hstep => h.step hstep) (ranged_initial allocated)).mono
    fun _ _ h => keepsOthers_of_ranged h.1

/-- A run whose last event stops a timer and moves the others. -/
theorem not_unmovesOthers_of_stop {s₀ : Hwtimers ι} {es : List (HwtimerEvent ι)} {w : Nat} {t : ι}
    (h : (es.foldlM hwtimerStep s₀).bind (fun s : Hwtimers ι =>
      (Hwtimers.stop { s with now := s.now + w } t).map fun r : HwtimerRet × Hwtimers ι =>
        decide (r.2.others t = Hwtimers.others { s with now := s.now + w } t)) = some false) :
    ¬Along hwtimerStep UnmovesOthers s₀ (es ++ [⟨w, .stop t⟩]) := by
  intro hrun
  obtain ⟨s, hs, hmap⟩ := Option.bind_eq_some_iff.1 h
  obtain ⟨r, hr, hne⟩ := Option.map_eq_some_iff.1 hmap
  exact of_decide_eq_false hne (hrun.last hs r hr)

/-- Timer 0 is started for 10 ticks, and two ticks later timer 1 for 3: timer 0 expires a tick
earlier than it would have, as the load of the hardware timer is a tick short. Second, timer 1 is
behind timer 0 without time, timer 2 with all ticks of 32 bits: when both have been stopped, timer 2
is due. Third, the interrupt of timer 0 is pending for more than `2 ^ 32` ticks: when it is stopped,
timer 1 gets later. -/
theorem not_unmovesOthers :
    ¬Along hwtimerStep UnmovesOthers (.initial fun _ : Fin 3 => true)
        [⟨0, .start 0 10⟩, ⟨2, .start 1 3⟩] ∧
      ¬Along hwtimerStep UnmovesOthers (.initial fun _ : Fin 3 => true)
        ([⟨0, .start 0 10⟩, ⟨0, .start 1 9⟩, ⟨10, .start 2 0xFFFFFFFF⟩, ⟨0, .stop 0⟩] ++
          [⟨0, .stop 1⟩]) ∧
      ¬Along hwtimerStep UnmovesOthers (.initial fun _ : Fin 3 => true)
        ([⟨0, .start 0 10⟩, ⟨0, .start 1 20⟩] ++ [⟨0x10000000F, .stop 0⟩]) := by
  refine ⟨fun h => ?_, not_unmovesOthers_of_stop ?_, not_unmovesOthers_of_stop ?_⟩
  · exact absurd ((h.2 _ rfl).1 _ rfl) (by decide)
  · decide +kernel
  · decide +kernel

end EarbudFirmware.Hwtimer
