import EarbudFirmware.Hwtimer.Timely
import EarbudFirmware.Lib.Transition

/-!
# Timers are not early

`hwtimer_start` counts a new deadline from the time that the hardware count gives, and the count
stays at 0 when the first timer is overdue: the deadline is then too early by the time that the
first timer is overdue. `hwtimer_stop` reads the elapsed time instead.

## Main definitions

* `TimedRun` — timers with the times at which they are to fire
* `CallbackNotEarly` — a callback runs no earlier than its timer was told to
* `NotOverdue` — no timer is started while the first one is overdue

## Main results

* `callbackNotEarly_run` — no callback is early in such runs
* `fires_early` — a timer that is started while interrupts are masked
-/

namespace EarbudFirmware.Hwtimer

open Transition (Along)

variable {ι : Type*}

/-- Timers, with the time that each was told to fire at when it was started last, and the number of
starts of the hardware timer up to then. -/
structure TimedRun (ι : Type*) where
  s : Hwtimers ι
  due : ι → Nat
  since : ι → Nat

namespace TimedRun

variable [DecidableEq ι]

/-- One event; a timer that is started with `ticks` is due after
`max ticks HAL_TIMER_LOAD_DELTA`. -/
def step (h : TimedRun ι) (e : HwtimerEvent ι) : Option (TimedRun ι) :=
  (hwtimerStep h.s e).map fun s =>
    match e.op with
    | .start t ticks =>
      if h.s.state t = .alloc ∨ h.s.state t = .callback then
        { s := s
          due := Function.update h.due t (h.s.now + e.wait + max ticks.toNat loadDelta)
          since := Function.update h.since t s.starts }
      else { h with s := s }
    | _ => { h with s := s }

end TimedRun

/-- A callback runs no earlier than its timer was told to, up to one `HAL_TIMER_LOAD_DELTA`, and
another for each start of the hardware timer since the timer was started. -/
def CallbackNotEarly (h : TimedRun ι) (e : HwtimerEvent ι) : Prop :=
  match e.op with
  | .runCallback => ∀ t ∈ h.s.fired.head?,
    h.due t ≤ h.s.now + e.wait + loadDelta * (1 + (h.s.starts - h.since t))
  | _ => True

/-- No timer is started while the first active timer is overdue and its interrupt has not been
served, and no sum of `hwtimer_stop` overflows. -/
def NotOverdue (s : Hwtimers ι) (e : HwtimerEvent ι) : Prop :=
  let s := { s with now := s.now + e.wait }
  match e.op with
  | .start t _ => s.state t = .alloc ∨ s.state t = .callback →
    ∀ x u rest, s.active = (x, u) :: rest → s.rawValue = 0 → s.now ≤ s.startTime + u
  | .stop t => ∀ u y v rest, s.active = (t, u) :: (y, v) :: rest → s.rawValue ≠ 0 →
    v + s.rawValue < 0x100000000
  | _ => True

/-! ### Runs -/

/-- The timers after `hwtimer_init`, some of which have been allocated. -/
def Hwtimers.initial (allocated : ι → Bool) : Hwtimers ι where
  state t := if allocated t then .alloc else .free
  active := []
  fired := []
  inHandler := false
  current := none
  startTime := 0
  load := 0
  enabled := false
  starts := 0
  now := 0

/-- No timer has been started yet. -/
def TimedRun.initial (allocated : ι → Bool) : TimedRun ι :=
  ⟨.initial allocated, fun _ => 0, fun _ => 0⟩

theorem timely_initial (allocated : ι → Bool) :
    Timely (Hwtimers.initial allocated) (fun _ => 0) (fun _ => 0) where
  active_state := nofun
  fired_state := nofun
  nodup := List.nodup_nil
  fired_nodup := List.nodup_nil
  startTime_le := le_rfl
  load := nofun
  since_le _ := le_rfl
  timely := nofun
  range := nofun
  fired_timely := nofun

/-- The timers that are to be called back are due. -/
theorem callbackNotEarly_of_timely {h : TimedRun ι} {e : HwtimerEvent ι}
    (ht : Timely h.s h.due h.since) : CallbackNotEarly h e := by
  unfold CallbackNotEarly
  cases hop : e.op with
  | runCallback =>
    intro t hfired
    have := ht.fired_timely t (List.mem_of_mem_head? hfired)
    unfold loadDelta at *
    omega
  | _ => trivial

variable [DecidableEq ι]

/-- One event that starts no timer while the first one is overdue keeps the invariant. -/
theorem timely_step {h h' : TimedRun ι} {e : HwtimerEvent ι} (ht : Timely h.s h.due h.since)
    (hover : NotOverdue h.s e) (hstep : h.step e = some h') : Timely h'.s h'.due h'.since := by
  obtain ⟨s', hs', rfl⟩ := Option.map_eq_some_iff.1 hstep
  have hw := ht.wait e.wait
  unfold hwtimerStep at hs'
  unfold NotOverdue at hover
  cases hop : e.op with
  | start t ticks =>
    simp only [hop] at hs' hover ⊢
    obtain ⟨⟨ret, s₁⟩, hs₁, rfl⟩ := Option.map_eq_some_iff.1 hs'
    by_cases hstate : h.s.state t = .alloc ∨ h.s.state t = .callback
    · rw [if_pos hstate]
      exact hw.start ticks.toNat_lt hstate (hover hstate) hs₁
    · rw [if_neg hstate]
      unfold Hwtimers.start at hs₁
      rw [if_pos (not_or.1 hstate)] at hs₁
      obtain ⟨-, rfl⟩ := Prod.mk.inj (Option.some.inj hs₁)
      exact hw
  | stop t =>
    simp only [hop] at hs' hover ⊢
    obtain ⟨⟨ret, s₁⟩, hs₁, rfl⟩ := Option.map_eq_some_iff.1 hs'
    exact hw.stop hover hs₁
  | handler =>
    simp only [hop] at hs' ⊢
    split_ifs at hs'
    exact hw.handler hs'
  | runCallback =>
    simp only [hop] at hs' ⊢
    split_ifs at hs'
    exact Option.some.inj hs' ▸ hw.runCallback
  | callbackReturns =>
    simp only [hop] at hs' ⊢
    obtain ⟨t, -, rfl⟩ := Option.map_eq_some_iff.1 hs'
    exact hw.callbackReturns t

/-- No callback is early in a run in which no timer is started while the first active timer is
overdue. -/
theorem callbackNotEarly_run {allocated : ι → Bool} {es : List (HwtimerEvent ι)}
    (hes : Along TimedRun.step (fun h e => NotOverdue h.s e) (.initial allocated) es) :
    Along TimedRun.step CallbackNotEarly (.initial allocated) es :=
  (hes.strengthen (I := fun h => Timely h.s h.due h.since)
    (fun _ _ _ ht hover hstep => timely_step ht hover hstep) (timely_initial allocated)).mono
    fun _ _ h => callbackNotEarly_of_timely h.1

/-- Timer 0 is started for 10 ticks, and timer 1 for 20 ticks at the same time. -/
theorem callbackNotEarly_run_two :
    Along TimedRun.step CallbackNotEarly (.initial (fun _ : Fin 2 => true))
      [⟨0, .start 0 10⟩, ⟨0, .start 1 20⟩, ⟨9, .handler⟩, ⟨0, .runCallback⟩] := by
  refine callbackNotEarly_run ⟨fun _ _ _ _ => nofun, fun _ h => ?_⟩
  obtain rfl := Option.some.inj h
  refine ⟨fun _ x u rest hactive hraw => absurd hraw (by decide), fun _ h => ?_⟩
  obtain rfl := Option.some.inj h
  refine ⟨trivial, fun _ h => ?_⟩
  obtain rfl := Option.some.inj h
  exact ⟨trivial, fun _ _ => trivial⟩

/-- Interrupts are masked from the start of timer 0 on. At 50, timer 1 is started for 20 ticks, and
its callback runs at 55. -/
theorem fires_early :
    ¬Along TimedRun.step CallbackNotEarly (.initial (fun _ : Fin 2 => true))
      [⟨0, .start 0 10⟩, ⟨50, .start 1 20⟩, ⟨5, .handler⟩, ⟨0, .runCallback⟩,
        ⟨0, .callbackReturns⟩, ⟨0, .runCallback⟩] := by
  intro h
  have hearly := ((((h.2 _ rfl).2 _ rfl).2 _ rfl).2 _ rfl).2 _ rfl
  exact absurd (hearly.1 1 rfl) (by decide)

end EarbudFirmware.Hwtimer
