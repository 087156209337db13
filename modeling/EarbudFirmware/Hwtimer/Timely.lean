import EarbudFirmware.Hwtimer.Ranged

/-!
# Deadlines of software timers

The deadlines in the list are counted from the time at which the hardware timer was started for the
first one. Each start of the hardware timer loads one tick less, so a deadline gets earlier by a
tick with every start, and by no more, as long as it was right when its timer was started.

## Main definitions

* `Timely` — no deadline is earlier than it was told, up to the starts of the hardware timer

## Main results

* `Timely.start` — starting a timer, unless the first one is overdue
* `Timely.stop`, `Timely.handler` — the other operations
-/

namespace EarbudFirmware.Hwtimer

open DeltaList (deadlines)

variable {ι : Type*}

/-- The tick that a hardware timer runs longer than an entry without time. -/
def slack (u : Nat) : Nat := if u = 0 then 1 else 0

/-- The entries are active, and no deadline is earlier than it was told, up to the ticks that the
starts of the hardware timer have taken from it. -/
structure Timely (s : Hwtimers ι) (due since : ι → Nat) : Prop where
  active_state : ∀ t ∈ s.active.map Prod.fst, s.state t = .active
  fired_state : ∀ t ∈ s.fired, s.state t = .fired
  nodup : (s.active.map Prod.fst).Nodup
  fired_nodup : s.fired.Nodup
  startTime_le : s.startTime ≤ s.now
  load : ∀ x u rest, s.active = (x, u) :: rest →
    s.load = Hwtimers.reloadValue u ∧ u < 0x100000000
  since_le : ∀ t, since t ≤ s.starts
  timely : ∀ x u rest, s.active = (x, u) :: rest → ∀ p ∈ deadlines s.startTime s.active,
    due p.1 ≤ p.2 + (s.starts - since p.1) + slack u
  range : ∀ x u rest, s.active = (x, u) :: rest → ∀ p ∈ deadlines 0 rest,
    p.2 < 0x100000000 ∧ s.rawValue + p.2 ≤ 0x100000000
  fired_timely : ∀ t ∈ s.fired, due t ≤ s.now + loadDelta + (s.starts - since t)

namespace Timely

variable {s : Hwtimers ι} {due since : ι → Nat} {u t : Nat}

theorem reloadValue_le_add_slack : Hwtimers.reloadValue u ≤ u + slack u := by
  unfold Hwtimers.reloadValue loadDelta slack
  split_ifs <;> omega

theorem add_slack_le_reloadValue : u + slack u ≤ Hwtimers.reloadValue u + 1 := by
  unfold Hwtimers.reloadValue loadDelta slack
  split_ifs <;> omega

theorem ranged (h : Timely s due since) : Ranged s := ⟨h.startTime_le, h.load, h.range⟩

/-- Time passes. -/
theorem wait (h : Timely s due since) (w : Nat) :
    Timely { s with now := s.now + w } due since where
  active_state := h.active_state
  fired_state := h.fired_state
  nodup := h.nodup
  fired_nodup := h.fired_nodup
  startTime_le := (h.ranged.wait w).startTime_le
  load := h.load
  since_le := h.since_le
  timely := h.timely
  range := (h.ranged.wait w).range
  fired_timely t ht := by
    have := h.fired_timely t ht
    dsimp only
    omega

/-! ### The hardware timer -/

theorem elapsedTime_le (h : Timely s due since) : s.startTime + s.elapsedTime ≤ s.now := by
  have hle := h.startTime_le
  have := Nat.mod_le (s.now - s.startTime) 0x100000000
  unfold Hwtimers.elapsedTime
  omega

/-- When the first timer is due, it is due up to one tick. -/
theorem due_le (h : Timely s due since)
    (hdue : ¬(s.elapsedTime + loadDelta) % 0x100000000 < u) :
    s.startTime + u + (s.elapsedTime - u) + slack u ≤ s.now + 1 := by
  have hle := h.elapsedTime_le
  have := Nat.mod_le (s.elapsedTime + loadDelta) 0x100000000
  unfold slack loadDelta at *
  split_ifs <;> omega

/-- The hardware timer is started for a list whose deadlines are later than the old ones, or earlier
by one tick. -/
theorem halTimerStart {s' : Hwtimers ι} {due' since' : ι → Nat}
    (hranged : Ranged (s'.halTimerStart u))
    (hstate : ∀ t ∈ s'.active.map Prod.fst, s'.state t = .active)
    (hfired : ∀ t ∈ s'.fired, s'.state t = .fired) (hnodup : (s'.active.map Prod.fst).Nodup)
    (hfnodup : s'.fired.Nodup) (hsince : ∀ t, since' t ≤ s'.starts + 1)
    (htimely : ∀ p ∈ deadlines s'.now s'.active,
      due' p.1 ≤ p.2 + (s'.starts + 1 - since' p.1))
    (hftimely : ∀ t ∈ s'.fired, due' t ≤ s'.now + loadDelta + (s'.starts + 1 - since' t)) :
    Timely (s'.halTimerStart u) due' since' where
  active_state := hstate
  fired_state := hfired
  nodup := hnodup
  fired_nodup := hfnodup
  startTime_le := hranged.startTime_le
  load := hranged.load
  since_le := hsince
  timely _ _ _ _ p hp := (htimely p hp).trans (Nat.le_add_right _ _)
  range := hranged.range
  fired_timely := hftimely

/-! ### The handler -/

variable {s' : Hwtimers ι} {x : ι} {rest : List (ι × Nat)}

/-- The timers that are moved are due. -/
theorem due_le_of_mem_expire (h : Timely s due since) (hactive : s.active = (x, u) :: rest)
    (hdue : ¬(s.elapsedTime + loadDelta) % 0x100000000 < u) {t : ι}
    (ht : t ∈ x :: (DeltaList.expire rest (s.elapsedTime - u)).1) :
    due t ≤ s.now + loadDelta + (s.starts - since t) := by
  have hle := h.due_le hdue
  have htimely := h.timely x u rest hactive
  rw [hactive, DeltaList.deadlines_cons] at htimely
  unfold loadDelta
  obtain rfl | ht := List.mem_cons.1 ht
  · have := htimely _ List.mem_cons_self
    dsimp only at this
    omega
  · obtain ⟨d, hd, hle'⟩ := DeltaList.exists_of_mem_expire (d := s.startTime + u) ht
    have := htimely _ (List.mem_cons_of_mem _ hd)
    dsimp only at this
    omega

/-- The deadlines that are left, counted from now on, are later, or earlier by one tick. -/
theorem timely_of_mem_expire (h : Timely s due since) (hactive : s.active = (x, u) :: rest)
    (hdue : ¬(s.elapsedTime + loadDelta) % 0x100000000 < u) {p : ι × Nat}
    (hp : p ∈ deadlines s.now (DeltaList.expire rest (s.elapsedTime - u)).2) :
    due p.1 ≤ p.2 + (s.starts + 1 - since p.1) := by
  have hle := h.due_le hdue
  have hsince := h.since_le p.1
  have htimely := h.timely x u rest hactive
  rw [hactive, DeltaList.deadlines_cons] at htimely
  obtain ⟨hnow, hshift⟩ :=
    DeltaList.mem_deadlines_shift hp (s.startTime + u + (s.elapsedTime - u))
  have := htimely _ (List.mem_cons_of_mem _ (DeltaList.mem_deadlines_expire hshift))
  dsimp only at this
  unfold slack at *
  split_ifs at * <;> omega

/-- The deadline that is counted from the hardware count is no earlier than it was told, unless the
first timer is overdue. -/
theorem now_add_le (h : Timely s due since) (hactive : s.active = (x, u) :: rest) {ticks : Nat}
    (hle : s.rawValue ≤ ticks) (hover : s.rawValue = 0 → s.now ≤ s.startTime + u) :
    s.now + ticks ≤ s.startTime + u + (ticks - s.rawValue) + slack u := by
  obtain ⟨hload, -⟩ := h.load x u rest hactive
  have hreload := reloadValue_le_add_slack (u := u)
  by_cases hcur : s.rawValue = 0
  · have := hover hcur
    omega
  · have := h.ranged.startTime_add_load hcur
    omega

/-- A timer that can be started is in no list. -/
theorem ne_of_mem_active (h : Timely s due since) {t t' : ι} (hstate : s.state t ≠ .active)
    (ht' : t' ∈ s.active.map Prod.fst) : t' ≠ t := by
  rintro rfl
  exact hstate (h.active_state t' ht')

theorem ne_of_mem_fired (h : Timely s due since) {t t' : ι} (hstate : s.state t ≠ .fired)
    (ht' : t' ∈ s.fired) : t' ≠ t := by
  rintro rfl
  exact hstate (h.fired_state t' ht')

theorem mem_keys_of_mem_deadlines {p : ι × Nat} {d : Nat} {l : List (ι × Nat)}
    (hp : p ∈ deadlines d l) : p.1 ∈ l.map Prod.fst := by
  rw [← DeltaList.map_fst_deadlines d l]
  exact List.mem_map_of_mem hp

variable [DecidableEq ι]

theorem handler (h : Timely s due since) (hs' : s.handler = some s') : Timely s' due since := by
  have hranged := h.ranged.handler hs'
  -- the timers that are moved and the timers that stay are different ones
  have hsplit : ∀ {x : ι} {u : Nat} {rest : List (ι × Nat)}, s.active = (x, u) :: rest →
      (x :: (DeltaList.expire rest (s.elapsedTime - u)).1).Nodup ∧
        ((DeltaList.expire rest (s.elapsedTime - u)).2.map Prod.fst).Nodup ∧
        ∀ t ∈ (DeltaList.expire rest (s.elapsedTime - u)).2.map Prod.fst,
          (if t ∈ x :: (DeltaList.expire rest (s.elapsedTime - u)).1 then TimerState.fired
            else s.state t) = .active := by
    intro x u rest hactive
    have hkeys := DeltaList.expire_keys (l := rest) (e := s.elapsedTime - u)
    have hnodup := h.nodup
    rw [hactive, List.map_cons, ← hkeys, ← List.cons_append] at hnodup
    obtain ⟨hfnodup, hrnodup, hdisjoint⟩ := List.nodup_append.1 hnodup
    refine ⟨hfnodup, hrnodup, fun t ht => ?_⟩
    rw [if_neg fun ht' => hdisjoint t ht' t ht rfl]
    refine h.active_state t ?_
    rw [hactive, List.map_cons, ← hkeys]
    exact List.mem_cons_of_mem _ (List.mem_append_right _ ht)
  cases handler_outcome hs' with
  | same => exact h
  | last x u rest hactive hdue hrest =>
    exact {
      active_state := nofun
      fired_state := fun t ht => if_pos ht
      nodup := List.nodup_nil
      fired_nodup := (hsplit hactive).1
      startTime_le := h.startTime_le
      load := nofun
      since_le := h.since_le
      timely := nofun
      range := nofun
      fired_timely := fun t ht => h.due_le_of_mem_expire hactive hdue ht }
  | more x u rest hactive hdue y v rest' hrest =>
    obtain ⟨hfnodup, hrnodup, hstate⟩ := hsplit hactive
    rw [hrest] at hstate hrnodup
    refine halTimerStart hranged hstate (fun t ht => if_pos ht) hrnodup hfnodup
      (fun t => (h.since_le t).trans (Nat.le_succ _)) (fun p hp => ?_) (fun t ht => ?_)
    · refine h.timely_of_mem_expire hactive hdue ?_
      rw [hrest]
      exact hp
    · have := h.due_le_of_mem_expire hactive hdue ht
      have hsince := h.since_le t
      dsimp only at this ⊢
      omega

/-! ### Starting a timer -/

/-- The state of another timer is not changed. -/
theorem update_state {t t' : ι} {f : ι → TimerState} {a b : TimerState} (ht' : f t' = a)
    (ht : f t ≠ a) : Function.update f t b t' = a := by
  rw [Function.update_of_ne (by rintro rfl; exact ht ht'), ht']

/-- A timer is started that is due before the first one: the hardware timer is started for it. -/
theorem start_first (h : Timely s due since) {t : ι} {ticks : Nat} (hpos : 0 < ticks)
    (hactive : s.active = (x, u) :: rest) (hlt : ticks < s.rawValue)
    (hstate : s.state t ≠ .active ∧ s.state t ≠ .fired)
    (hranged : Ranged (Hwtimers.halTimerStart { s with
        state := Function.update s.state t .active
        active := (t, ticks) :: (x, s.rawValue - ticks) :: rest
        enabled := false } ticks)) :
    Timely (Hwtimers.halTimerStart { s with
        state := Function.update s.state t .active
        active := (t, ticks) :: (x, s.rawValue - ticks) :: rest
        enabled := false } ticks)
      (Function.update due t (s.now + ticks)) (Function.update since t (s.starts + 1)) := by
  have hkeys : ((x, s.rawValue - ticks) :: rest).map Prod.fst = s.active.map Prod.fst := by
    rw [hactive]
    rfl
  have hnodup := h.nodup
  have hcur := h.ranged.startTime_add_load (by omega)
  have hload := h.ranged.load_succ hactive (by omega)
  refine halTimerStart hranged ?_ ?_ ?_ h.fired_nodup ?_ ?_ ?_
  · intro t' ht'
    obtain rfl | ht' := List.mem_cons.1 ht'
    · exact Function.update_self _ _ _
    · rw [hkeys] at ht'
      exact update_state (h.active_state t' ht') hstate.1
  · exact fun t' ht' => update_state (h.fired_state t' ht') hstate.2
  · refine List.nodup_cons.2 ⟨fun ht => ?_, hkeys ▸ hnodup⟩
    rw [hkeys] at ht
    exact h.ne_of_mem_active hstate.1 ht rfl
  · intro t'
    rw [Function.update_apply]
    have := h.since_le t'
    split_ifs
    · exact le_rfl
    · exact this.trans (Nat.le_succ _)
  · intro p hp
    obtain rfl | hp := List.mem_cons.1 hp
    · simp only [Function.update_self]
      omega
    · have hne : p.1 ≠ t :=
        h.ne_of_mem_active hstate.1 (hkeys ▸ mem_keys_of_mem_deadlines hp)
      rw [Function.update_of_ne hne, Function.update_of_ne hne]
      -- every old deadline was counted from one tick later
      obtain ⟨hle, hshift⟩ := DeltaList.mem_deadlines_shift
        (l := (x, s.rawValue - ticks) :: rest) hp (s.now + ticks + 1)
      dsimp only at hle hshift
      have hold : (p.1, p.2 + 1) ∈ deadlines s.startTime s.active := by
        rw [hactive, DeltaList.deadlines_cons]
        rw [DeltaList.deadlines_cons,
          show s.now + ticks + 1 + (s.rawValue - ticks) = s.startTime + u by omega,
          show p.2 - (s.now + ticks) + (s.now + ticks + 1) = p.2 + 1 by omega] at hshift
        exact hshift
      have := h.timely x u rest hactive _ hold
      have hsince := h.since_le p.1
      unfold slack at this
      dsimp only at this ⊢
      rw [if_neg (by omega)] at this
      omega
  · intro t' ht'
    have hne := h.ne_of_mem_fired hstate.2 ht'
    rw [Function.update_of_ne hne, Function.update_of_ne hne]
    have := h.fired_timely t' ht'
    dsimp only
    omega

/-- A timer is started that is due behind the first one. -/
theorem start_behind (h : Timely s due since) {t : ι} {ticks : Nat}
    (hactive : s.active = (x, u) :: rest) (hle : s.rawValue ≤ ticks)
    (hover : s.rawValue = 0 → s.now ≤ s.startTime + u)
    (hstate : s.state t ≠ .active ∧ s.state t ≠ .fired)
    (hranged : Ranged { s with
        state := Function.update s.state t .active
        active := (x, u) :: DeltaList.insertBehind t (ticks - s.rawValue) rest }) :
    Timely { s with
        state := Function.update s.state t .active
        active := (x, u) :: DeltaList.insertBehind t (ticks - s.rawValue) rest }
      (Function.update due t (s.now + ticks)) (Function.update since t s.starts) := by
  have hperm : (((x, u) :: DeltaList.insertBehind t (ticks - s.rawValue) rest).map Prod.fst).Perm
      (t :: s.active.map Prod.fst) := by
    rw [hactive]
    exact (DeltaList.perm_insertBehind.cons x).trans (List.Perm.swap _ _ _)
  have hnow := h.now_add_le hactive hle hover
  have htimely := h.timely x u rest hactive
  refine {
    active_state := fun t' ht' => ?_
    fired_state := fun t' ht' => update_state (h.fired_state t' ht') hstate.2
    nodup := ?_
    fired_nodup := h.fired_nodup
    startTime_le := h.startTime_le
    load := hranged.load
    since_le := fun t' => ?_
    timely := ?_
    range := hranged.range
    fired_timely := fun t' ht' => ?_ }
  · obtain rfl | ht' := List.mem_cons.1 (hperm.mem_iff.1 ht')
    · exact Function.update_self _ _ _
    · exact update_state (h.active_state t' ht') hstate.1
  · exact hperm.nodup_iff.2
      (List.nodup_cons.2 ⟨fun ht => h.ne_of_mem_active hstate.1 ht rfl, h.nodup⟩)
  · rw [Function.update_apply]
    split_ifs
    · exact le_rfl
    · exact h.since_le t'
  · intro y v l hl p hp
    obtain ⟨hx, -⟩ := List.cons.inj hl
    obtain ⟨-, rfl⟩ := Prod.mk.inj hx
    have hold : p = (t, s.startTime + u + (ticks - s.rawValue)) ∨
        p ∈ deadlines s.startTime s.active := by
      rw [hactive]
      obtain hp | hp := List.mem_cons.1 hp
      · exact .inr (hp ▸ List.mem_cons_self)
      · exact (DeltaList.mem_deadlines_insertBehind.1 hp).imp_right (List.mem_cons_of_mem _)
    obtain rfl | hold := hold
    · simp only [Function.update_self]
      omega
    · have hne : p.1 ≠ t := h.ne_of_mem_active hstate.1 (mem_keys_of_mem_deadlines hold)
      rw [Function.update_of_ne hne, Function.update_of_ne hne]
      exact htimely p hold
  · have hne := h.ne_of_mem_fired hstate.2 ht'
    rw [Function.update_of_ne hne, Function.update_of_ne hne]
    exact h.fired_timely t' ht'

/-- A timer is started, and it is the only one. -/
theorem start_only (h : Timely s due since) {t : ι} {ticks : Nat}
    (hstate : s.state t ≠ .active ∧ s.state t ≠ .fired)
    (hranged : Ranged (Hwtimers.halTimerStart { s with
        state := Function.update s.state t .active
        active := [(t, ticks)] } ticks)) :
    Timely (Hwtimers.halTimerStart { s with
        state := Function.update s.state t .active
        active := [(t, ticks)] } ticks)
      (Function.update due t (s.now + ticks)) (Function.update since t (s.starts + 1)) := by
  refine halTimerStart hranged ?_ ?_ (List.nodup_singleton t) h.fired_nodup ?_ ?_ ?_
  · intro t' ht'
    rw [List.mem_singleton.1 ht']
    exact Function.update_self _ _ _
  · exact fun t' ht' => update_state (h.fired_state t' ht') hstate.2
  · intro t'
    rw [Function.update_apply]
    split_ifs
    · exact le_rfl
    · exact (h.since_le t').trans (Nat.le_succ _)
  · intro p hp
    rw [List.mem_singleton.1 hp]
    simp only [Function.update_self]
    omega
  · intro t' ht'
    have hne := h.ne_of_mem_fired hstate.2 ht'
    rw [Function.update_of_ne hne, Function.update_of_ne hne]
    have := h.fired_timely t' ht'
    dsimp only
    omega

theorem start (h : Timely s due since) {t : ι} {ticks : Nat} (hticks : ticks < 0x100000000)
    (hstate : s.state t = .alloc ∨ s.state t = .callback)
    (hover : ∀ x u rest, s.active = (x, u) :: rest → s.rawValue = 0 → s.now ≤ s.startTime + u)
    {ret : HwtimerRet} (hs' : s.start t ticks = some (ret, s')) :
    Timely s' (Function.update due t (s.now + max ticks loadDelta))
      (Function.update since t s'.starts) := by
  have hne : s.state t ≠ .active ∧ s.state t ≠ .fired := by
    obtain hstate | hstate := hstate <;> rw [hstate] <;> decide
  have hpos : 0 < max ticks loadDelta := by unfold loadDelta; omega
  have hranged := h.ranged.start hticks hs'
  cases start_outcome hs' with
  | invalid halloc hcallback => exact absurd hstate (not_or.2 ⟨halloc, hcallback⟩)
  | only _ hactive => exact h.start_only hne hranged
  | first _ x u rest hactive hlt => exact h.start_first hpos hactive hlt hne hranged
  | behind _ x u rest hactive hle =>
    exact h.start_behind hactive hle (hover x u rest hactive) hne hranged

/-! ### Stopping a timer -/

/-- The states of the other timers when the first one is stopped. -/
theorem states_of_stop (h : Timely s due since) {t : ι} (hactive : s.active = (t, u) :: rest) :
    (∀ t' ∈ rest.map Prod.fst, Function.update s.state t .alloc t' = .active) ∧
      (∀ t' ∈ s.fired, Function.update s.state t .alloc t' = .fired) ∧
      (rest.map Prod.fst).Nodup := by
  have hnodup := h.nodup
  have hstate := h.active_state
  rw [hactive, List.map_cons] at hnodup hstate
  obtain ⟨htl, hlnodup⟩ := List.nodup_cons.1 hnodup
  have ht : s.state t = .active := hstate t List.mem_cons_self
  refine ⟨fun t' ht' => ?_, fun t' ht' => ?_, hlnodup⟩
  · rw [Function.update_of_ne (by rintro rfl; exact htl ht')]
    exact hstate t' (List.mem_cons_of_mem _ ht')
  · exact update_state (h.fired_state t' ht') (by rw [ht]; decide)

/-- The first timer is stopped when it is due: the time that the next ones have waited is taken from
them. -/
theorem stop_overdue (h : Timely s due since) {t y : ι} {v : Nat} {more : List (ι × Nat)}
    (hactive : s.active = (t, u) :: (y, v) :: more)
    (hdue : ¬(s.elapsedTime + loadDelta) % 0x100000000 < u)
    (hranged : Ranged (Hwtimers.halTimerStart { s with
        state := Function.update s.state t .alloc
        active := DeltaList.advance ((y, v) :: more) (s.elapsedTime - u)
        enabled := false } (if v ≤ s.elapsedTime - u then 0 else v - (s.elapsedTime - u)))) :
    Timely (Hwtimers.halTimerStart { s with
        state := Function.update s.state t .alloc
        active := DeltaList.advance ((y, v) :: more) (s.elapsedTime - u)
        enabled := false } (if v ≤ s.elapsedTime - u then 0 else v - (s.elapsedTime - u)))
      due since := by
  have hle := h.due_le hdue
  have htimely := h.timely t u _ hactive
  rw [hactive, DeltaList.deadlines_cons] at htimely
  obtain ⟨hstates, hfstates, hlnodup⟩ := h.states_of_stop hactive
  refine halTimerStart hranged ?_ hfstates ?_ h.fired_nodup ?_ ?_ ?_
  · rw [DeltaList.advance_keys]
    exact hstates
  · rw [DeltaList.advance_keys]
    exact hlnodup
  · exact fun t' => (h.since_le t').trans (Nat.le_succ _)
  · intro p hp
    obtain ⟨hnow, hshift⟩ :=
      DeltaList.mem_deadlines_shift hp (s.startTime + u + (s.elapsedTime - u))
    obtain ⟨d, hd, hdle, -⟩ := DeltaList.exists_of_mem_advance hshift
    have := htimely _ (List.mem_cons_of_mem _ hd)
    have hsince := h.since_le p.1
    dsimp only at this hdle hnow ⊢
    unfold slack at *
    split_ifs at * <;> omega
  · intro t' ht'
    have := h.fired_timely t' ht'
    have hsince := h.since_le t'
    dsimp only
    omega

/-- The first timer is stopped before it is due: what was left for it is given to the next one. -/
theorem stop_early (h : Timely s due since) {t y : ι} {v : Nat} {more : List (ι × Nat)}
    (hactive : s.active = (t, u) :: (y, v) :: more) (hcur : s.rawValue ≠ 0)
    (hranged : Ranged (Hwtimers.halTimerStart { s with
        state := Function.update s.state t .alloc
        active := (y, v + s.rawValue) :: more
        enabled := false } (v + s.rawValue))) :
    Timely (Hwtimers.halTimerStart { s with
        state := Function.update s.state t .alloc
        active := (y, v + s.rawValue) :: more
        enabled := false } (v + s.rawValue)) due since := by
  have hload := (h.load t u _ hactive).1
  have hreload := add_slack_le_reloadValue (u := u)
  have hcount := h.ranged.startTime_add_load hcur
  have htimely := h.timely t u _ hactive
  rw [hactive, DeltaList.deadlines_cons] at htimely
  obtain ⟨hstates, hfstates, hlnodup⟩ := h.states_of_stop hactive
  refine halTimerStart hranged hstates hfstates hlnodup h.fired_nodup ?_ ?_ ?_
  · exact fun t' => (h.since_le t').trans (Nat.le_succ _)
  · intro p hp
    have hp' : p ∈ deadlines (s.now + s.rawValue) ((y, v) :: more) := by
      rw [← DeltaList.deadlines_cons_add]
      exact hp
    obtain ⟨hle, hshift⟩ := DeltaList.mem_deadlines_shift hp' (s.startTime + u)
    have := htimely _ (List.mem_cons_of_mem _ hshift)
    have hsince := h.since_le p.1
    dsimp only at this ⊢
    omega
  · intro t' ht'
    have := h.fired_timely t' ht'
    have hsince := h.since_le t'
    dsimp only
    omega

/-- The only timer is stopped. -/
theorem stop_only (h : Timely s due since) {t : ι} (hactive : s.active = [(t, u)]) :
    Timely { s with state := Function.update s.state t .alloc, active := [], enabled := false }
      due since where
  active_state := nofun
  fired_state := (h.states_of_stop hactive).2.1
  nodup := List.nodup_nil
  fired_nodup := h.fired_nodup
  startTime_le := h.startTime_le
  load := nofun
  since_le := h.since_le
  timely := nofun
  range := nofun
  fired_timely := h.fired_timely

/-- A timer behind the first one is stopped. -/
theorem stop_behind (h : Timely s due since) {t : ι} (hactive : s.active = (x, u) :: rest)
    (hxt : x ≠ t) (ht : t ∈ rest.map Prod.fst)
    (hranged : Ranged { s with
        state := Function.update s.state t .alloc
        active := (x, u) :: Hwtimers.removeBehind t rest }) :
    Timely { s with
        state := Function.update s.state t .alloc
        active := (x, u) :: Hwtimers.removeBehind t rest } due since := by
  have hrange := h.range x u rest hactive
  have htimely := h.timely x u rest hactive
  have hnodup := h.nodup
  have hstate := h.active_state
  rw [hactive] at htimely hnodup hstate
  rw [Ranged.removeBehind_eq fun p hp => (hrange p hp).1] at hranged ⊢
  have hkeys : ((x, u) :: DeltaList.remove t rest).map Prod.fst =
      (((x, u) :: rest).map Prod.fst).erase t := by
    rw [List.map_cons, List.map_cons, DeltaList.remove_keys,
      List.erase_cons_tail (by simpa using hxt)]
  have hactive_t : s.state t = .active := hstate t (List.mem_cons_of_mem _ ht)
  exact {
    active_state := fun t' ht' => by
      obtain ⟨hne, hmem⟩ := hnodup.mem_erase_iff.1 (hkeys ▸ ht')
      dsimp only
      rw [Function.update_of_ne hne]
      exact hstate t' hmem
    fired_state := fun t' ht' => update_state (h.fired_state t' ht') (by rw [hactive_t]; decide)
    nodup := hkeys ▸ hnodup.erase t
    fired_nodup := h.fired_nodup
    startTime_le := h.startTime_le
    load := hranged.load
    since_le := h.since_le
    timely := fun y v l hl p hp => by
      obtain ⟨hx, -⟩ := List.cons.inj hl
      obtain ⟨-, rfl⟩ := Prod.mk.inj hx
      refine htimely p ?_
      obtain rfl | hp := List.mem_cons.1 hp
      · exact List.mem_cons_self
      · exact List.mem_cons_of_mem _ (DeltaList.mem_deadlines_remove hp)
    range := hranged.range
    fired_timely := h.fired_timely }

theorem stop (h : Timely s due since) {t : ι} {ret : HwtimerRet}
    (hover : ∀ u y v more, s.active = (t, u) :: (y, v) :: more → s.rawValue ≠ 0 →
      v + s.rawValue < 0x100000000)
    (hs' : s.stop t = some (ret, s')) : Timely s' due since := by
  have hranged := h.ranged.stop hs'
  cases stop_outcome hs' with
  | same => exact h
  | only _ u hactive => exact h.stop_only hactive
  | overdue _ u y v more hactive _ hdue => exact h.stop_overdue hactive hdue hranged
  | early _ u y v more hactive hcur =>
    rw [Nat.mod_eq_of_lt (hover u y v more hactive hcur)] at hranged ⊢
    exact h.stop_early hactive hcur hranged
  | behind _ x u rest hactive hne hmem => exact h.stop_behind hactive hne hmem hranged
  | fired hstate hmem =>
    exact {
      active_state := fun t' ht' => update_state (h.active_state t' ht') (by rw [hstate]; decide)
      fired_state := fun t' ht' => by
        obtain ⟨hne, hmem⟩ := h.fired_nodup.mem_erase_iff.1 ht'
        dsimp only
        rw [Function.update_of_ne hne]
        exact h.fired_state t' hmem
      nodup := h.nodup
      fired_nodup := h.fired_nodup.erase t
      startTime_le := h.startTime_le
      load := h.load
      since_le := h.since_le
      timely := h.timely
      range := h.range
      fired_timely := fun t' ht' => h.fired_timely t' (List.mem_of_mem_erase ht') }

/-! ### Callbacks -/

theorem runCallback (h : Timely s due since) : Timely s.runCallback due since := by
  unfold Hwtimers.runCallback
  cases hfired : s.fired with
  | nil =>
    exact {
      active_state := h.active_state
      fired_state := nofun
      nodup := h.nodup
      fired_nodup := List.nodup_nil
      startTime_le := h.startTime_le
      load := h.load
      since_le := h.since_le
      timely := h.timely
      range := h.range
      fired_timely := nofun }
  | cons t fired =>
    have hfstate := h.fired_state
    have hfnodup := h.fired_nodup
    have hftimely := h.fired_timely
    rw [hfired] at hfstate hfnodup hftimely
    obtain ⟨ht, hnodup⟩ := List.nodup_cons.1 hfnodup
    have hstate : s.state t = .fired := hfstate t List.mem_cons_self
    exact {
      active_state := fun t' ht' => update_state (h.active_state t' ht') (by rw [hstate]; decide)
      fired_state := fun t' ht' => by
        dsimp only
        rw [Function.update_of_ne (by rintro rfl; exact ht ht')]
        exact hfstate t' (List.mem_cons_of_mem _ ht')
      nodup := h.nodup
      fired_nodup := hnodup
      startTime_le := h.startTime_le
      load := h.load
      since_le := h.since_le
      timely := h.timely
      range := h.range
      fired_timely := fun t' ht' => hftimely t' (List.mem_cons_of_mem _ ht') }

theorem callbackReturns (h : Timely s due since) (t : ι) :
    Timely (s.callbackReturns t) due since where
  active_state t' ht' := by
    unfold Hwtimers.callbackReturns
    dsimp only
    split_ifs with hstate
    · exact update_state (h.active_state t' ht') (by rw [hstate]; decide)
    · exact h.active_state t' ht'
  fired_state t' ht' := by
    unfold Hwtimers.callbackReturns
    dsimp only
    split_ifs with hstate
    · exact update_state (h.fired_state t' ht') (by rw [hstate]; decide)
    · exact h.fired_state t' ht'
  nodup := h.nodup
  fired_nodup := h.fired_nodup
  startTime_le := h.startTime_le
  load := h.load
  since_le := h.since_le
  timely := h.timely
  range := h.range
  fired_timely := h.fired_timely

end Timely

end EarbudFirmware.Hwtimer
