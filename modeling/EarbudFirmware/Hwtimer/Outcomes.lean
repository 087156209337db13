import EarbudFirmware.Hwtimer.Timers
import Mathlib.Tactic.SplitIfs

/-!
# The outcomes of the timer operations

Every branch of `hwtimer_start`, `hwtimer_stop` and `hwtimer_handler` that does not end in a failed
assertion, with the condition under which it is taken.

## Main definitions

* `StartOutcome`, `StopOutcome`, `HandlerOutcome` — the branches

## Main results

* `start_outcome`, `stop_outcome`, `handler_outcome` — there are no other ones
-/

namespace EarbudFirmware.Hwtimer

variable {ι : Type*} [DecidableEq ι]

theorem clamp_eq (ticks : Nat) :
    (if ticks < loadDelta then loadDelta else ticks) = max ticks loadDelta := by
  split_ifs <;> omega

/-- The branches of `hwtimer_start`. -/
inductive StartOutcome (s : Hwtimers ι) (t : ι) (ticks : Nat) : HwtimerRet × Hwtimers ι → Prop
  | invalid (hstate : s.state t ≠ .alloc) (hstate' : s.state t ≠ .callback) :
    StartOutcome s t ticks (.invalSt, s)
  | only (hstate : s.state t = .alloc ∨ s.state t = .callback) (hactive : s.active = []) :
    StartOutcome s t ticks (.ok, Hwtimers.halTimerStart
      { s with state := Function.update s.state t .active, active := [(t, max ticks loadDelta)] }
      (max ticks loadDelta))
  | first (hstate : s.state t = .alloc ∨ s.state t = .callback) (x : ι) (u : Nat)
    (rest : List (ι × Nat)) (hactive : s.active = (x, u) :: rest)
    (hlt : max ticks loadDelta < s.rawValue) :
    StartOutcome s t ticks (.ok, Hwtimers.halTimerStart
      { s with
        state := Function.update s.state t .active
        active := (t, max ticks loadDelta) :: (x, s.rawValue - max ticks loadDelta) :: rest
        enabled := false } (max ticks loadDelta))
  | behind (hstate : s.state t = .alloc ∨ s.state t = .callback) (x : ι) (u : Nat)
    (rest : List (ι × Nat)) (hactive : s.active = (x, u) :: rest)
    (hle : s.rawValue ≤ max ticks loadDelta) :
    StartOutcome s t ticks (.ok,
      { s with
        state := Function.update s.state t .active
        active := (x, u) :: DeltaList.insertBehind t (max ticks loadDelta - s.rawValue) rest })

variable {s s' : Hwtimers ι} {t : ι} {ticks : Nat} {r : HwtimerRet × Hwtimers ι}

section StartBranches

variable {x : ι} {u : Nat} {rest : List (ι × Nat)}

theorem start_eq_invalid (hstate : s.state t ≠ .alloc ∧ s.state t ≠ .callback) (ticks : Nat) :
    s.start t ticks = some (.invalSt, s) := by
  unfold Hwtimers.start
  rw [if_pos hstate]

theorem start_eq_only (hstate : ¬(s.state t ≠ .alloc ∧ s.state t ≠ .callback))
    (hactive : s.active = []) (ticks : Nat) :
    s.start t ticks = some (.ok, Hwtimers.halTimerStart
      { s with state := Function.update s.state t .active, active := [(t, max ticks loadDelta)] }
      (max ticks loadDelta)) := by
  unfold Hwtimers.start
  rw [if_neg hstate]
  simp only [hactive, clamp_eq]

theorem start_eq_collapsed (hstate : ¬(s.state t ≠ .alloc ∧ s.state t ≠ .callback))
    (hactive : s.active = (x, u) :: rest) (hassert : u < s.rawValue ∧ loadDelta < s.rawValue)
    (ticks : Nat) : s.start t ticks = none := by
  unfold Hwtimers.start
  rw [if_neg hstate]
  simp only [hactive, if_pos hassert]

theorem start_eq_first (hstate : ¬(s.state t ≠ .alloc ∧ s.state t ≠ .callback))
    (hactive : s.active = (x, u) :: rest) (hassert : ¬(u < s.rawValue ∧ loadDelta < s.rawValue))
    (hlt : max ticks loadDelta < s.rawValue) :
    s.start t ticks = some (.ok, Hwtimers.halTimerStart
      { s with
        state := Function.update s.state t .active
        active := (t, max ticks loadDelta) :: (x, s.rawValue - max ticks loadDelta) :: rest
        enabled := false } (max ticks loadDelta)) := by
  unfold Hwtimers.start
  rw [if_neg hstate]
  simp only [hactive, if_neg hassert, clamp_eq, if_pos hlt]
  rfl

theorem start_eq_behind (hstate : ¬(s.state t ≠ .alloc ∧ s.state t ≠ .callback))
    (hactive : s.active = (x, u) :: rest) (hassert : ¬(u < s.rawValue ∧ loadDelta < s.rawValue))
    (hlt : ¬max ticks loadDelta < s.rawValue) :
    s.start t ticks = some (.ok,
      { s with
        state := Function.update s.state t .active
        active :=
          (x, u) :: DeltaList.insertBehind t (max ticks loadDelta - s.rawValue) rest }) := by
  unfold Hwtimers.start
  rw [if_neg hstate]
  simp only [hactive, if_neg hassert, clamp_eq, if_neg hlt]

end StartBranches

theorem start_outcome (h : s.start t ticks = some r) : StartOutcome s t ticks r := by
  by_cases hstate : s.state t ≠ .alloc ∧ s.state t ≠ .callback
  · rw [start_eq_invalid hstate] at h
    obtain rfl := Option.some.inj h
    exact .invalid hstate.1 hstate.2
  have hok : s.state t = .alloc ∨ s.state t = .callback := by
    by_cases halloc : s.state t = .alloc
    · exact .inl halloc
    · exact .inr (Decidable.byContradiction fun hne => hstate ⟨halloc, hne⟩)
  cases hactive : s.active with
  | nil =>
    rw [start_eq_only hstate hactive] at h
    obtain rfl := Option.some.inj h
    exact .only hok hactive
  | cons a rest =>
    obtain ⟨x, u⟩ := a
    by_cases hassert : u < s.rawValue ∧ loadDelta < s.rawValue
    · rw [start_eq_collapsed hstate hactive hassert] at h
      cases h
    by_cases hlt : max ticks loadDelta < s.rawValue
    · rw [start_eq_first hstate hactive hassert hlt] at h
      obtain rfl := Option.some.inj h
      exact .first hok x u rest hactive hlt
    · rw [start_eq_behind hstate hactive hassert hlt] at h
      obtain rfl := Option.some.inj h
      exact .behind hok x u rest hactive (Nat.not_lt.1 hlt)

/-- The branches of `hwtimer_stop`. -/
inductive StopOutcome (s : Hwtimers ι) (t : ι) : HwtimerRet × Hwtimers ι → Prop
  | same (ret : HwtimerRet) (hactive : s.state t ≠ .active) (hfired : s.state t ≠ .fired) :
    StopOutcome s t (ret, s)
  | only (hstate : s.state t = .active) (u : Nat) (hactive : s.active = [(t, u)]) :
    StopOutcome s t (.ok,
      { s with state := Function.update s.state t .alloc, active := [], enabled := false })
  | overdue (hstate : s.state t = .active) (u : Nat) (y : ι) (v : Nat) (more : List (ι × Nat))
    (hactive : s.active = (t, u) :: (y, v) :: more) (hcur : s.rawValue = 0)
    (hdue : ¬(s.elapsedTime + loadDelta) % 0x100000000 < u) :
    StopOutcome s t (.ok, Hwtimers.halTimerStart
      { s with
        state := Function.update s.state t .alloc
        active := DeltaList.advance ((y, v) :: more) (s.elapsedTime - u)
        enabled := false } (if v ≤ s.elapsedTime - u then 0 else v - (s.elapsedTime - u)))
  | early (hstate : s.state t = .active) (u : Nat) (y : ι) (v : Nat) (more : List (ι × Nat))
    (hactive : s.active = (t, u) :: (y, v) :: more) (hcur : s.rawValue ≠ 0) :
    StopOutcome s t (.ok, Hwtimers.halTimerStart
      { s with
        state := Function.update s.state t .alloc
        active := (y, (v + s.rawValue) % 0x100000000) :: more
        enabled := false } ((v + s.rawValue) % 0x100000000))
  | behind (hstate : s.state t = .active) (x : ι) (u : Nat) (rest : List (ι × Nat))
    (hactive : s.active = (x, u) :: rest) (hne : x ≠ t) (hmem : t ∈ rest.map Prod.fst) :
    StopOutcome s t (.ok,
      { s with
        state := Function.update s.state t .alloc
        active := (x, u) :: Hwtimers.removeBehind t rest })
  | fired (hstate : s.state t = .fired) (hmem : t ∈ s.fired) :
    StopOutcome s t (.ok,
      { s with state := Function.update s.state t .alloc, fired := s.fired.erase t })

section StopBranches

variable {x y : ι} {u v : Nat} {rest more : List (ι × Nat)}

theorem stopFirst_eq_collapsed (hassert : u < s.rawValue ∧ loadDelta < s.rawValue) :
    s.stopFirst t u rest = none := by
  unfold Hwtimers.stopFirst
  simp only [if_pos hassert]

theorem stopFirst_eq_only (hassert : ¬(u < s.rawValue ∧ loadDelta < s.rawValue)) :
    s.stopFirst t u [] = some
      { s with state := Function.update s.state t .alloc, active := [], enabled := false } := by
  unfold Hwtimers.stopFirst
  simp only [if_neg hassert]
  rfl

theorem stopFirst_eq_undue (hassert : ¬(u < s.rawValue ∧ loadDelta < s.rawValue))
    (hcur : s.rawValue = 0) (hdue : (s.elapsedTime + loadDelta) % 0x100000000 < u) :
    s.stopFirst t u ((y, v) :: more) = none := by
  unfold Hwtimers.stopFirst
  simp only [if_neg hassert, if_pos hcur, if_pos hdue]

theorem stopFirst_eq_overdue (hassert : ¬(u < s.rawValue ∧ loadDelta < s.rawValue))
    (hcur : s.rawValue = 0) (hdue : ¬(s.elapsedTime + loadDelta) % 0x100000000 < u) :
    s.stopFirst t u ((y, v) :: more) = some (Hwtimers.halTimerStart
      { s with
        state := Function.update s.state t .alloc
        active := DeltaList.advance ((y, v) :: more) (s.elapsedTime - u)
        enabled := false } (if v ≤ s.elapsedTime - u then 0 else v - (s.elapsedTime - u))) := by
  unfold Hwtimers.stopFirst
  simp only [if_neg hassert, if_pos hcur, if_neg hdue]
  rfl

theorem stopFirst_eq_early (hassert : ¬(u < s.rawValue ∧ loadDelta < s.rawValue))
    (hcur : s.rawValue ≠ 0) :
    s.stopFirst t u ((y, v) :: more) = some (Hwtimers.halTimerStart
      { s with
        state := Function.update s.state t .alloc
        active := (y, (v + s.rawValue) % 0x100000000) :: more
        enabled := false } ((v + s.rawValue) % 0x100000000)) := by
  unfold Hwtimers.stopFirst
  simp only [if_neg hassert, if_neg hcur]
  rfl

theorem stop_eq_first (hstate : s.state t = .active) (hactive : s.active = (t, u) :: rest) :
    s.stop t = (s.stopFirst t u rest).map (HwtimerRet.ok, ·) := by
  unfold Hwtimers.stop
  simp only [hstate, hactive, if_pos]

theorem stop_eq_behind (hstate : s.state t = .active) (hactive : s.active = (x, u) :: rest)
    (hne : x ≠ t) (hmem : t ∈ rest.map Prod.fst) :
    s.stop t = some (.ok,
      { s with
        state := Function.update s.state t .alloc
        active := (x, u) :: Hwtimers.removeBehind t rest }) := by
  unfold Hwtimers.stop
  simp only [hstate, hactive, if_neg hne, if_pos hmem]

theorem stop_eq_fired (hstate : s.state t = .fired) (hmem : t ∈ s.fired) :
    s.stop t = some (.ok,
      { s with state := Function.update s.state t .alloc, fired := s.fired.erase t }) := by
  unfold Hwtimers.stop
  simp only [hstate, if_pos hmem]

theorem stopFirst_outcome (hstate : s.state t = .active) (hactive : s.active = (t, u) :: rest)
    (h : s.stopFirst t u rest = some s') : StopOutcome s t (.ok, s') := by
  by_cases hassert : u < s.rawValue ∧ loadDelta < s.rawValue
  · rw [stopFirst_eq_collapsed hassert] at h
    cases h
  cases rest with
  | nil =>
    rw [stopFirst_eq_only hassert] at h
    obtain rfl := Option.some.inj h
    exact .only hstate u hactive
  | cons b more =>
    obtain ⟨y, v⟩ := b
    by_cases hcur : s.rawValue = 0
    · by_cases hdue : (s.elapsedTime + loadDelta) % 0x100000000 < u
      · rw [stopFirst_eq_undue hassert hcur hdue] at h
        cases h
      rw [stopFirst_eq_overdue hassert hcur hdue] at h
      obtain rfl := Option.some.inj h
      exact .overdue hstate u y v more hactive hcur hdue
    · rw [stopFirst_eq_early hassert hcur] at h
      obtain rfl := Option.some.inj h
      exact .early hstate u y v more hactive hcur

end StopBranches

theorem stop_outcome (h : s.stop t = some r) : StopOutcome s t r := by
  cases hstate : s.state t with
  | alloc =>
    unfold Hwtimers.stop at h
    simp only [hstate] at h
    obtain rfl := Option.some.inj h
    exact .same _ (by rw [hstate]; decide) (by rw [hstate]; decide)
  | callback =>
    unfold Hwtimers.stop at h
    simp only [hstate] at h
    obtain rfl := Option.some.inj h
    exact .same _ (by rw [hstate]; decide) (by rw [hstate]; decide)
  | free =>
    unfold Hwtimers.stop at h
    simp only [hstate] at h
    obtain rfl := Option.some.inj h
    exact .same _ (by rw [hstate]; decide) (by rw [hstate]; decide)
  | fired =>
    by_cases hmem : t ∈ s.fired
    · rw [stop_eq_fired hstate hmem] at h
      obtain rfl := Option.some.inj h
      exact .fired hstate hmem
    · unfold Hwtimers.stop at h
      simp only [hstate, if_neg hmem] at h
      cases h
  | active =>
    cases hactive : s.active with
    | nil =>
      unfold Hwtimers.stop at h
      simp only [hstate, hactive] at h
      cases h
    | cons a rest =>
      obtain ⟨x, u⟩ := a
      by_cases hx : x = t
      · subst hx
        rw [stop_eq_first hstate hactive] at h
        obtain ⟨s₁, hs₁, rfl⟩ := Option.map_eq_some_iff.1 h
        exact stopFirst_outcome hstate hactive hs₁
      by_cases hmem : t ∈ rest.map Prod.fst
      · rw [stop_eq_behind hstate hactive hx hmem] at h
        obtain rfl := Option.some.inj h
        exact .behind hstate x u rest hactive hx hmem
      · unfold Hwtimers.stop at h
        simp only [hstate, hactive, if_neg hx, if_neg hmem] at h
        cases h

/-- The branches of the first part of `hwtimer_handler`. -/
inductive HandlerOutcome (s : Hwtimers ι) : Hwtimers ι → Prop
  | same : HandlerOutcome s s
  | last (x : ι) (u : Nat) (rest : List (ι × Nat)) (hactive : s.active = (x, u) :: rest)
    (hdue : ¬(s.elapsedTime + loadDelta) % 0x100000000 < u)
    (hrest : (DeltaList.expire rest (s.elapsedTime - u)).2 = []) :
    HandlerOutcome s (Hwtimers.halTimerStop
      { s with
        state := fun t =>
          if t ∈ x :: (DeltaList.expire rest (s.elapsedTime - u)).1 then .fired else s.state t
        fired := x :: (DeltaList.expire rest (s.elapsedTime - u)).1
        active := []
        inHandler := true })
  | more (x : ι) (u : Nat) (rest : List (ι × Nat)) (hactive : s.active = (x, u) :: rest)
    (hdue : ¬(s.elapsedTime + loadDelta) % 0x100000000 < u) (y : ι) (v : Nat)
    (rest' : List (ι × Nat))
    (hrest : (DeltaList.expire rest (s.elapsedTime - u)).2 = (y, v) :: rest') :
    HandlerOutcome s (Hwtimers.halTimerStart
      { s with
        state := fun t =>
          if t ∈ x :: (DeltaList.expire rest (s.elapsedTime - u)).1 then .fired else s.state t
        fired := x :: (DeltaList.expire rest (s.elapsedTime - u)).1
        active := (y, v) :: rest'
        inHandler := true } v)

section HandlerBranches

variable {x y : ι} {u v : Nat} {rest rest' : List (ι × Nat)}

theorem handler_eq_empty (hactive : s.active = []) :
    s.handler = if s.enabled then none else some s := by
  unfold Hwtimers.handler
  simp only [hactive]

theorem handler_eq_early (hactive : s.active = (x, u) :: rest)
    (hearly : (s.elapsedTime + loadDelta) % 0x100000000 < u) :
    s.handler = if s.enabled then some s else none := by
  unfold Hwtimers.handler
  simp only [hactive, if_pos hearly]

theorem handler_eq_last (hactive : s.active = (x, u) :: rest)
    (hdue : ¬(s.elapsedTime + loadDelta) % 0x100000000 < u)
    (hrest : (DeltaList.expire rest (s.elapsedTime - u)).2 = []) :
    s.handler = some (Hwtimers.halTimerStop
      { s with
        state := fun t =>
          if t ∈ x :: (DeltaList.expire rest (s.elapsedTime - u)).1 then .fired else s.state t
        fired := x :: (DeltaList.expire rest (s.elapsedTime - u)).1
        active := []
        inHandler := true }) := by
  unfold Hwtimers.handler
  simp only [hactive, if_neg hdue, hrest]

theorem handler_eq_more (hactive : s.active = (x, u) :: rest)
    (hdue : ¬(s.elapsedTime + loadDelta) % 0x100000000 < u)
    (hrest : (DeltaList.expire rest (s.elapsedTime - u)).2 = (y, v) :: rest') :
    s.handler = some (Hwtimers.halTimerStart
      { s with
        state := fun t =>
          if t ∈ x :: (DeltaList.expire rest (s.elapsedTime - u)).1 then .fired else s.state t
        fired := x :: (DeltaList.expire rest (s.elapsedTime - u)).1
        active := (y, v) :: rest'
        inHandler := true } v) := by
  unfold Hwtimers.handler
  simp only [hactive, if_neg hdue, hrest]

end HandlerBranches

theorem handler_outcome (h : s.handler = some s') : HandlerOutcome s s' := by
  cases hactive : s.active with
  | nil =>
    rw [handler_eq_empty hactive] at h
    split_ifs at h
    obtain rfl := Option.some.inj h
    exact .same
  | cons a rest =>
    obtain ⟨x, u⟩ := a
    by_cases hdue : (s.elapsedTime + loadDelta) % 0x100000000 < u
    · rw [handler_eq_early hactive hdue] at h
      split_ifs at h
      obtain rfl := Option.some.inj h
      exact .same
    cases hrest : (DeltaList.expire rest (s.elapsedTime - u)).2 with
    | nil =>
      rw [handler_eq_last hactive hdue hrest] at h
      obtain rfl := Option.some.inj h
      exact .last x u rest hactive hdue hrest
    | cons b rest' =>
      obtain ⟨y, v⟩ := b
      rw [handler_eq_more hactive hdue hrest] at h
      obtain rfl := Option.some.inj h
      exact .more x u rest hactive hdue y v rest' hrest

end EarbudFirmware.Hwtimer
