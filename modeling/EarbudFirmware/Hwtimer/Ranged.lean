import EarbudFirmware.Hwtimer.Outcomes
import Mathlib.Algebra.Order.Group.Nat

/-!
# The range of the times in the timer list

The hardware timer is loaded with the time of the first entry, and the times behind it add up to
less than `2 ^ 32` ticks, together with the hardware count to no more than that. This holds in every
run, whatever is started and stopped, and however late an interrupt is served.

## Main definitions

* `Ranged` — the invariant

## Main results

* `Ranged.start`, `Ranged.stop`, `Ranged.handler` — the operations keep it
-/

namespace EarbudFirmware.Hwtimer

open DeltaList (deadlines)

variable {ι : Type*}

/-- The hardware timer runs for the first entry, and no sum of times behind it overflows. -/
structure Ranged (s : Hwtimers ι) : Prop where
  startTime_le : s.startTime ≤ s.now
  load : ∀ x u rest, s.active = (x, u) :: rest →
    s.load = Hwtimers.reloadValue u ∧ u < 0x100000000
  range : ∀ x u rest, s.active = (x, u) :: rest → ∀ p ∈ deadlines 0 rest,
    p.2 < 0x100000000 ∧ s.rawValue + p.2 ≤ 0x100000000

namespace Ranged

variable {s s' : Hwtimers ι} {u : Nat} {x : ι} {rest : List (ι × Nat)}

theorem reloadValue_le (hu : 0 < u) : Hwtimers.reloadValue u ≤ u := by
  unfold Hwtimers.reloadValue loadDelta
  split_ifs <;> omega

theorem reloadValue_le_succ : Hwtimers.reloadValue u ≤ u + 1 := by
  unfold Hwtimers.reloadValue loadDelta
  split_ifs <;> omega

/-- Time passes. -/
theorem wait (h : Ranged s) (w : Nat) : Ranged { s with now := s.now + w } where
  startTime_le := h.startTime_le.trans (Nat.le_add_right _ _)
  load := h.load
  range x u rest hactive p hp := by
    obtain ⟨hlt, hle⟩ := h.range x u rest hactive p hp
    refine ⟨hlt, le_trans ?_ hle⟩
    unfold Hwtimers.rawValue
    dsimp only
    omega

theorem of_active_eq_nil (hactive : s.active = []) (hle : s.startTime ≤ s.now) : Ranged s where
  startTime_le := hle
  load x u rest hcons := by
    rw [hactive] at hcons
    cases hcons
  range x u rest hcons := by
    rw [hactive] at hcons
    cases hcons

/-- The hardware timer is started for the first entry. -/
theorem halTimerStart (hactive : s.active = (x, u) :: rest) (hu : u < 0x100000000)
    (hrange : ∀ p ∈ deadlines 0 rest,
      p.2 < 0x100000000 ∧ Hwtimers.reloadValue u + p.2 ≤ 0x100000000) :
    Ranged (s.halTimerStart u) where
  startTime_le := le_rfl
  load y v l hl := by
    obtain ⟨hx, -⟩ := List.cons.inj (hactive.symm.trans hl)
    obtain ⟨-, rfl⟩ := Prod.mk.inj hx
    exact ⟨rfl, hu⟩
  range y v l hl p hp := by
    obtain ⟨-, rfl⟩ := List.cons.inj (hactive.symm.trans hl)
    obtain ⟨hlt, hle⟩ := hrange p hp
    refine ⟨hlt, le_trans ?_ hle⟩
    unfold Hwtimers.rawValue Hwtimers.halTimerStart
    dsimp only
    omega

/-- The hardware timer goes on for the same entry, and the times behind it change. -/
theorem behind (h : Ranged s) (hactive : s.active = (x, u) :: rest) {rest' : List (ι × Nat)}
    (hactive' : s'.active = (x, u) :: rest') (hstart : s'.startTime = s.startTime)
    (hload : s'.load = s.load) (hnow : s'.now = s.now)
    (hrange : ∀ p ∈ deadlines 0 rest',
      p.2 < 0x100000000 ∧ s.rawValue + p.2 ≤ 0x100000000) : Ranged s' where
  startTime_le := by
    rw [hstart, hnow]
    exact h.startTime_le
  load y v l hl := by
    obtain ⟨hx, -⟩ := List.cons.inj (hactive'.symm.trans hl)
    obtain ⟨rfl, rfl⟩ := Prod.mk.inj hx
    rw [hload]
    exact h.load _ _ _ hactive
  range y v l hl p hp := by
    obtain ⟨-, rfl⟩ := List.cons.inj (hactive'.symm.trans hl)
    have hraw : s'.rawValue = s.rawValue := by
      unfold Hwtimers.rawValue
      rw [hload, hnow, hstart]
    rw [hraw]
    exact hrange p hp

/-- The hardware timer has not run out: the rest of its load is the count. -/
theorem startTime_add_load (h : Ranged s) (hcur : s.rawValue ≠ 0) :
    s.startTime + s.load = s.now + s.rawValue := by
  have := h.startTime_le
  unfold Hwtimers.rawValue at *
  omega

/-- With more than one tick to go, the load is the time of the first entry less one tick. -/
theorem load_succ (h : Ranged s) (hactive : s.active = (x, u) :: rest) (hcur : 1 < s.rawValue) :
    s.load + 1 = u := by
  obtain ⟨hload, -⟩ := h.load x u rest hactive
  have hle : s.rawValue ≤ s.load := Nat.sub_le _ _
  unfold Hwtimers.reloadValue loadDelta at hload
  split_ifs at hload <;> omega

/-! ### The handler -/

/-- The entries that are left when the first ones have expired. -/
theorem range_of_expire (h : Ranged s) (hactive : s.active = (x, u) :: rest) {e v : Nat}
    {y : ι} {rest' : List (ι × Nat)} (hrest : (DeltaList.expire rest e).2 = (y, v) :: rest') :
    v < 0x100000000 ∧ ∀ p ∈ deadlines 0 rest',
      p.2 < 0x100000000 ∧ Hwtimers.reloadValue v + p.2 ≤ 0x100000000 := by
  have hold : ∀ p ∈ deadlines 0 (DeltaList.expire rest e).2, p.2 + e < 0x100000000 := by
    intro p hp
    obtain ⟨-, hshift⟩ := DeltaList.mem_deadlines_shift hp (0 + e)
    have := (h.range x u rest hactive _ (DeltaList.mem_deadlines_expire hshift)).1
    dsimp only at this
    omega
  rw [hrest, DeltaList.deadlines_cons] at hold
  have hpos := DeltaList.pos_of_expire hrest
  have hreload := reloadValue_le hpos
  refine ⟨?_, fun p hp => ?_⟩
  · have := hold _ List.mem_cons_self
    dsimp only at this
    omega
  · obtain ⟨-, hshift⟩ := DeltaList.mem_deadlines_shift hp (0 + v)
    have := hold _ (List.mem_cons_of_mem _ hshift)
    dsimp only at this
    omega

/-! ### Starting and stopping -/

/-- The entries when one is put in front of the first one, whose hardware timer has not run out. -/
theorem range_of_first (h : Ranged s) (hactive : s.active = (x, u) :: rest) {ticks : Nat}
    (hpos : 0 < ticks) (hlt : ticks < s.rawValue) :
    ticks < 0x100000000 ∧ ∀ p ∈ deadlines 0 ((x, s.rawValue - ticks) :: rest),
      p.2 < 0x100000000 ∧ Hwtimers.reloadValue ticks + p.2 ≤ 0x100000000 := by
  have hsucc := h.load_succ hactive (by omega)
  have hu := (h.load x u rest hactive).2
  have hle : s.rawValue ≤ s.load := Nat.sub_le _ _
  have hreload := reloadValue_le hpos
  refine ⟨by omega, fun p hp => ?_⟩
  obtain rfl | hp := List.mem_cons.1 hp
  · dsimp only
    omega
  · obtain ⟨hshort, hshift⟩ := DeltaList.mem_deadlines_shift hp 0
    have := h.range x u rest hactive _ hshift
    dsimp only at this
    omega

/-- The entries when one is put behind the first one. -/
theorem range_of_insertBehind (h : Ranged s) (hactive : s.active = (x, u) :: rest) {t : ι}
    {ticks : Nat} (hticks : ticks < 0x100000000) (hle : s.rawValue ≤ ticks) {p : ι × Nat}
    (hp : p ∈ deadlines 0 (DeltaList.insertBehind t (ticks - s.rawValue) rest)) :
    p.2 < 0x100000000 ∧ s.rawValue + p.2 ≤ 0x100000000 := by
  obtain rfl | hp := DeltaList.mem_deadlines_insertBehind.1 hp
  · dsimp only
    omega
  · exact h.range x u rest hactive p hp

/-- The entries that are left when the first one is stopped after it was due. -/
theorem range_of_advance (h : Ranged s) (hactive : s.active = (x, u) :: rest) {e v : Nat} {y : ι}
    {rest' : List (ι × Nat)} (hadvance : DeltaList.advance rest e = (y, v) :: rest') :
    v < 0x100000000 ∧ ∀ p ∈ deadlines 0 rest',
      p.2 < 0x100000000 ∧ Hwtimers.reloadValue v + p.2 ≤ 0x100000000 := by
  have hshort : ∀ p ∈ deadlines 0 (DeltaList.advance rest e), p.2 < 0x100000000 := by
    intro p hp
    obtain ⟨-, hshift⟩ := DeltaList.mem_deadlines_shift hp (0 + e)
    obtain ⟨d, hd, -, hor⟩ := DeltaList.exists_of_mem_advance hshift
    have := (h.range x u rest hactive _ hd).1
    dsimp only at this hor
    omega
  rw [hadvance, DeltaList.deadlines_cons] at hshort
  have hreload := reloadValue_le_succ (u := v)
  refine ⟨?_, fun p hp => ?_⟩
  · have := hshort _ List.mem_cons_self
    dsimp only at this
    omega
  · obtain ⟨-, hshift⟩ := DeltaList.mem_deadlines_shift hp (0 + v)
    have := hshort _ (List.mem_cons_of_mem _ hshift)
    dsimp only at this
    omega

/-- The entries that are left when the first one is stopped before it is due. The sum may wrap. -/
theorem range_of_stop_early {y : ι} {v : Nat} {more : List (ι × Nat)} (h : Ranged s)
    (hactive : s.active = (x, u) :: (y, v) :: more) (hcur : s.rawValue ≠ 0) :
    (v + s.rawValue) % 0x100000000 < 0x100000000 ∧ ∀ p ∈ deadlines 0 more,
      p.2 < 0x100000000 ∧
        Hwtimers.reloadValue ((v + s.rawValue) % 0x100000000) + p.2 ≤ 0x100000000 := by
  have hrange := h.range x u _ hactive
  have hv := hrange _ List.mem_cons_self
  refine ⟨Nat.mod_lt _ (by decide), fun p hp => ?_⟩
  obtain ⟨-, hshift⟩ := DeltaList.mem_deadlines_shift hp (0 + v)
  have := hrange _ (List.mem_cons_of_mem _ hshift)
  dsimp only at this hv
  by_cases hwrap : v + s.rawValue < 0x100000000
  · rw [Nat.mod_eq_of_lt hwrap]
    have hreload := reloadValue_le (u := v + s.rawValue) (by omega)
    omega
  · -- nothing is left for the entries behind one that takes the whole range
    have hzero : (v + s.rawValue) % 0x100000000 = 0 := by omega
    rw [hzero]
    have hreload := reloadValue_le_succ (u := 0)
    omega

variable [DecidableEq ι]

/-- The loop takes the timer out; its sums do not overflow. -/
theorem removeBehind_eq {t : ι} {l : List (ι × Nat)} {d : Nat}
    (hl : ∀ p ∈ deadlines d l, p.2 < 0x100000000) :
    Hwtimers.removeBehind t l = DeltaList.remove t l := by
  induction l generalizing d with
  | nil => rfl
  | cons a l ih =>
    obtain ⟨x, v⟩ := a
    unfold Hwtimers.removeBehind DeltaList.remove
    split_ifs with hx
    · cases l with
      | nil => rfl
      | cons b l =>
        obtain ⟨y, w⟩ := b
        have := hl _ (List.mem_cons_of_mem _ List.mem_cons_self)
        dsimp only at this ⊢
        rw [Nat.mod_eq_of_lt (by omega)]
    · rw [ih fun p hp => hl p (List.mem_cons_of_mem _ hp)]

theorem start (h : Ranged s) {t : ι} {ticks : Nat} (hticks : ticks < 0x100000000)
    {r : HwtimerRet × Hwtimers ι} (hr : s.start t ticks = some r) : Ranged r.2 := by
  have hpos : 0 < max ticks loadDelta := by unfold loadDelta; omega
  have hbound : max ticks loadDelta < 0x100000000 := by unfold loadDelta; omega
  cases start_outcome hr with
  | invalid => exact h
  | only hstate hactive => exact halTimerStart rfl hbound nofun
  | first hstate x u rest hactive hlt =>
    obtain ⟨hlt', hrange⟩ := h.range_of_first hactive hpos hlt
    exact halTimerStart rfl hlt' hrange
  | behind hstate x u rest hactive hle =>
    exact h.behind hactive rfl rfl rfl rfl fun p hp =>
      h.range_of_insertBehind hactive hbound hle hp

theorem stop (h : Ranged s) {t : ι} {r : HwtimerRet × Hwtimers ι} (hr : s.stop t = some r) :
    Ranged r.2 := by
  cases stop_outcome hr with
  | same => exact h
  | only hstate u hactive => exact of_active_eq_nil rfl h.startTime_le
  | overdue hstate u y v more hactive hcur hdue =>
    obtain ⟨more', hadvance⟩ := DeltaList.advance_cons y v more (s.elapsedTime - u)
    obtain ⟨hlt, hrange⟩ := h.range_of_advance hactive hadvance
    exact halTimerStart hadvance hlt hrange
  | early hstate u y v more hactive hcur =>
    obtain ⟨hlt, hrange⟩ := h.range_of_stop_early hactive hcur
    exact halTimerStart rfl hlt hrange
  | behind hstate x u rest hactive hne hmem =>
    refine h.behind hactive rfl rfl rfl rfl fun p hp => ?_
    rw [removeBehind_eq fun p hp => (h.range x u rest hactive p hp).1] at hp
    exact h.range x u rest hactive p (DeltaList.mem_deadlines_remove hp)
  | fired => exact ⟨h.startTime_le, h.load, h.range⟩

theorem handler (h : Ranged s) (hs' : s.handler = some s') : Ranged s' := by
  cases handler_outcome hs' with
  | same => exact h
  | last => exact of_active_eq_nil rfl h.startTime_le
  | more x u rest hactive hdue y v rest' hrest =>
    obtain ⟨hlt, hrange⟩ := h.range_of_expire hactive hrest
    exact halTimerStart rfl hlt hrange

/-- The loop of the handler leaves the active timers alone. -/
theorem runCallback (h : Ranged s) : Ranged s.runCallback := by
  unfold Hwtimers.runCallback
  cases s.fired with
  | nil => exact ⟨h.startTime_le, h.load, h.range⟩
  | cons t fired => exact ⟨h.startTime_le, h.load, h.range⟩

theorem callbackReturns (h : Ranged s) (t : ι) : Ranged (s.callbackReturns t) :=
  ⟨h.startTime_le, h.load, h.range⟩

/-- Every event keeps the invariant. -/
theorem step (h : Ranged s) {e : HwtimerEvent ι} (hs' : hwtimerStep s e = some s') : Ranged s' := by
  have hw := h.wait e.wait
  unfold hwtimerStep at hs'
  cases hop : e.op with
  | start t ticks =>
    simp only [hop] at hs'
    obtain ⟨r, hr, rfl⟩ := Option.map_eq_some_iff.1 hs'
    exact hw.start ticks.toNat_lt hr
  | stop t =>
    simp only [hop] at hs'
    obtain ⟨r, hr, rfl⟩ := Option.map_eq_some_iff.1 hs'
    exact hw.stop hr
  | handler =>
    simp only [hop] at hs'
    split_ifs at hs'
    exact hw.handler hs'
  | runCallback =>
    simp only [hop] at hs'
    split_ifs at hs'
    obtain rfl := Option.some.inj hs'
    exact hw.runCallback
  | callbackReturns =>
    simp only [hop] at hs'
    obtain ⟨t, -, rfl⟩ := Option.map_eq_some_iff.1 hs'
    exact hw.callbackReturns t

end Ranged

end EarbudFirmware.Hwtimer
