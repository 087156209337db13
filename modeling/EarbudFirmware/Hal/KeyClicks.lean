import EarbudFirmware.Hal.Key
import Mathlib.Data.List.Chain
import Mathlib.Data.List.Forall2

/-!
# Click reports count clicks

The handler keeps the clicks of a combination until another combination is clicked, until the last
click is `KEY_DOUBLECLICK_THRESHOLD` ago while no key is pressed, or until there are as many as an
event can report. The short presses are those that were reported and those that are kept, in order.

## Main definitions

* `ClickGroup` — the presses that one click event counts
* `PhaseRel` — the state of the handler and the phase of the press
* `CountInv` — the presses that were reported and the presses that are kept

## Main results

* `CountInv.step` — a call of the handler keeps the invariant
* `keyAlternates` — up and down events of a key alternate
* `clicks_counted` — in every run each short press is counted once
-/

namespace EarbudFirmware.Hal

/-! ### Codes -/

theorem upNew_or (old codeDown : KeyCode) : upNew old codeDown ||| old = old := by
  ext i
  simp only [upNew, BitVec.getElem_or, BitVec.getElem_and]
  cases old[i] <;> simp

/-- One code is part of another one. -/
def Within (a b : KeyCode) : Prop := a &&& b = a

theorem Within.trans {a b c : KeyCode} (hab : Within a b) (hbc : Within b c) : Within a c := by
  unfold Within at *
  rw [← hab, BitVec.and_assoc, hbc]

theorem Within.antisymm {a b : KeyCode} (hab : Within a b) (hba : Within b a) : a = b := by
  unfold Within at *
  rw [← hab, BitVec.and_comm, hba]

/-- Without new keys the code only loses keys. -/
theorem within_of_downNew {old codeDown : KeyCode} (h : downNew old codeDown = 0) :
    Within codeDown old := by
  unfold Within
  ext i hi
  have hbit := congrArg (fun v : KeyCode => v[i]) h
  simp only [downNew, BitVec.getElem_and, BitVec.getElem_not] at hbit ⊢
  revert hbit
  cases codeDown[i] <;> cases old[i] <;> simp

theorem within_of_upNew {old codeDown : KeyCode} (h : upNew old codeDown = 0) :
    Within old codeDown := by
  unfold Within
  ext i hi
  have hbit := congrArg (fun v : KeyCode => v[i]) h
  simp only [upNew, BitVec.getElem_and, BitVec.getElem_not] at hbit ⊢
  revert hbit
  cases codeDown[i] <;> cases old[i] <;> simp

theorem upNew_self (code : KeyCode) : upNew code code = 0 := by
  ext i
  simp [upNew]

/-! ### Groups of presses -/

/-- A press follows another one in a click event: if no press has become long in between, it starts
less than the threshold after the release of the other one. -/
def Follows (cfg : KeyConfig) (p q : Press) : Prop :=
  p.longs = q.longs → q.start - p.release < cfg.doubleclickThreshold

/-- The presses that the event `HAL_KEY_EVENT_CLICK + cnt` of a combination counts. -/
structure ClickGroup (cfg : KeyConfig) (code : KeyCode) (cnt : Nat) (g : List Press) : Prop where
  combo : ∀ p ∈ g, p.combo = code
  length : g.length = cnt + 1
  le : cnt ≤ maxKeyClickCount
  follows : g.IsChain (Follows cfg)

theorem ClickGroup.single {cfg : KeyConfig} {p : Press} : ClickGroup cfg p.combo 0 [p] :=
  ⟨by simp, rfl, Nat.zero_le _, List.isChain_singleton p⟩

/-- One more press of the same combination. -/
theorem ClickGroup.snoc {cfg : KeyConfig} {code : KeyCode} {cnt : Nat} {g : List Press} {p : Press}
    (h : ClickGroup cfg code cnt g) (hcombo : p.combo = code) (hcnt : cnt < maxKeyClickCount)
    (hfollows : ∀ q ∈ g.getLast?, Follows cfg q p) : ClickGroup cfg code (cnt + 1) (g ++ [p]) where
  combo q hq := (List.mem_append.1 hq).elim (h.combo q) fun hq => by
    rw [List.mem_singleton.1 hq, hcombo]
  length := by rw [List.length_append, h.length, List.length_singleton]
  le := hcnt
  follows := List.isChain_append.2 ⟨h.follows, List.isChain_singleton p, fun q hq r hr => by
    obtain rfl : p = r := by simpa using hr
    exact hfollows q hq⟩

/-- The click events of the reports. -/
def clicksOf (reports : List KeyReport) : List (KeyCode × Nat) :=
  reports.filterMap fun
    | (code, .click cnt) => some (code, cnt)
    | _ => none

@[simp] theorem clicksOf_append (r r' : List KeyReport) :
    clicksOf (r ++ r') = clicksOf r ++ clicksOf r' := List.filterMap_append

@[simp] theorem clicksOf_nil : clicksOf [] = [] := rfl

@[simp] theorem clicksOf_click (code : KeyCode) (cnt : Nat) :
    clicksOf [(code, .click cnt)] = [(code, cnt)] := rfl

/-! ### The invariant -/

/-- The clicks that the status keeps. -/
inductive Kept (cfg : KeyConfig) (s : KeyStatus) : List Press → Prop where
  | nothing (hcode : s.codeClick = 0) : Kept cfg s []
  | clicks {pending : List Press} (hgroup : ClickGroup cfg s.codeClick s.cntClick pending)
      (hcode : s.codeClick ≠ 0) (hcnt : s.cntClick < maxKeyClickCount)
      (htime : ∀ p ∈ pending.getLast?, p.release = s.timeClick) : Kept cfg s pending

theorem Kept.congr {cfg : KeyConfig} {s t : KeyStatus} {pending : List Press}
    (h : Kept cfg s pending) (hcode : t.codeClick = s.codeClick) (hcnt : t.cntClick = s.cntClick)
    (htime : t.timeClick = s.timeClick) : Kept cfg t pending := by
  cases h with
  | nothing hnone => exact .nothing (hcode.trans hnone)
  | clicks hgroup hne hlt hlast =>
    exact .clicks (by rwa [hcode, hcnt]) (by rwa [hcode]) (by rwa [hcnt]) (by rwa [htime])

/-- The short presses are those that were reported, in the order of the click events, and those that
the status keeps. -/
structure Counted (cfg : KeyConfig) (s : KeyStatus) (tr : PressTracker) (pending : List Press)
    (clicks : List (KeyCode × Nat)) : Prop where
  keys : tr.keys = s.codeDown
  since : tr.since = s.timeUpdown
  longs : ∀ p ∈ pending.getLast?, p.longs ≤ tr.longs
  kept : Kept cfg s pending
  presses : ∃ groups : List (List Press), tr.presses = groups.flatten ++ pending ∧
    List.Forall₂ (fun click g => ClickGroup cfg click.1 click.2 g) clicks groups

/-- The state of the handler between two calls, and the phase of the press. Clicks are kept while no
key is pressed only until the threshold, and otherwise if a press has become long. -/
inductive PhaseRel (cfg : KeyConfig) (s : KeyStatus) (tr : PressTracker) (pending : List Press) :
    Prop where
  | rest (hphase : tr.phase = .released) (hevent : s.event = .none)
      (hlast : ∀ p ∈ pending.getLast?, p.longs < tr.longs)
  | clicking (hphase : tr.phase = .released) (hevent : s.event = .up)
      (hclick : s.codeClick = s.codeReady) (hcode : s.codeClick ≠ 0)
      (hwithin : Within s.codeDown s.codeReady) (hne : s.codeDown ≠ s.codeReady)
  | pressing {start : UInt32} (hphase : tr.phase = .pressed s.codeDown start)
      (hevent : s.event = .down) (hready : s.codeReady = s.codeDown) (hcode : s.codeDown ≠ 0)
      (hlast : ∀ p ∈ pending.getLast?, p.longs = tr.longs →
        start - p.release < cfg.doubleclickThreshold)
  | holding (hphase : tr.phase = .long s.codeReady) (hevent : s.IsLong)
      (hlast : ∀ p ∈ pending.getLast?, p.longs < tr.longs)

/-- The state within a call, when the keys of the last call are released and the clicks are
counted. -/
inductive MidRel (cfg : KeyConfig) (s : KeyStatus) (tr : PressTracker) (pending : List Press)
    (codeDown : KeyCode) (time : UInt32) : Prop where
  | rest (hphase : tr.phase = .released) (hevent : s.event = .none)
      (hlast : ∀ p ∈ pending.getLast?, p.longs < tr.longs)
  | clicking (hphase : tr.phase = .released) (hevent : s.event = .up)
      (hclick : s.codeClick = s.codeReady) (hcode : s.codeClick ≠ 0)
      (hwithin : downNew s.codeDown codeDown = 0 →
        Within codeDown s.codeReady ∧ codeDown ≠ s.codeReady)
      (htime : time - s.timeClick < cfg.doubleclickThreshold)
  | pressing {start : UInt32} (hphase : tr.phase = .pressed s.codeDown start)
      (hevent : s.event = .down) (hready : s.codeReady = s.codeDown) (hcode : s.codeDown ≠ 0)
      (hup : upNew s.codeDown codeDown = 0)
      (hlast : ∀ p ∈ pending.getLast?, p.longs = tr.longs →
        start - p.release < cfg.doubleclickThreshold)
  | holding (hphase : tr.phase = .long s.codeReady) (hevent : s.IsLong)
      (hlast : ∀ p ∈ pending.getLast?, p.longs < tr.longs)

/-! ### Clicks -/

section Clicks

variable {cfg : KeyConfig} {s : KeyStatus} {tr : PressTracker} {pending : List Press}
  {clicks : List (KeyCode × Nat)} {codeDown : KeyCode} {time : UInt32}

/-- The kept clicks are reported, or they wait for another one. -/
theorem reportClick_spec (hkeys : tr.keys = s.codeDown) (hsince : tr.since = s.timeUpdown)
    (hphase : tr.phase = .released) (hevent : s.event = .up) (hclick : s.codeClick = s.codeReady)
    (hcode : s.codeClick ≠ 0) (hgroup : ClickGroup cfg s.codeClick s.cntClick pending)
    (htime : ∀ p ∈ pending.getLast?, p.release = s.timeClick)
    (hlongs : ∀ p ∈ pending.getLast?, p.longs ≤ tr.longs)
    (hpresses : ∃ groups : List (List Press), tr.presses = groups.flatten ++ pending ∧
      List.Forall₂ (fun click g => ClickGroup cfg click.1 click.2 g) clicks groups)
    (hwithin : downNew s.codeDown codeDown = 0 →
      Within codeDown s.codeReady ∧ codeDown ≠ s.codeReady) :
    ∃ pending', Counted cfg (s.reportClick cfg time).1 tr pending'
        (clicks ++ clicksOf (s.reportClick cfg time).2) ∧
      MidRel cfg (s.reportClick cfg time).1 tr pending' codeDown time := by
  unfold KeyStatus.reportClick
  split
  · -- the event counts all kept presses
    obtain ⟨groups, hflat, hcounted⟩ := hpresses
    refine ⟨[], ⟨hkeys, hsince, by simp, .nothing rfl, groups ++ [pending], by simp [hflat], ?_⟩,
      .rest hphase rfl (by simp)⟩
    exact List.rel_append hcounted (.cons hgroup .nil)
  · next hwait =>
    rw [not_or] at hwait
    refine ⟨pending,
      ⟨hkeys, hsince, hlongs, .clicks hgroup hcode ?_ htime, by simpa using hpresses⟩,
      .clicking hphase hevent hclick hcode hwithin ?_⟩
    · exact Nat.lt_of_not_le hwait.2
    · exact UInt32.not_le.1 hwait.1

theorem countClicks_of_ne {keys : KeyCode} (h : s.event ≠ .up) :
    s.countClicks cfg keys time = (s, []) := if_neg h

/-- No press has been completed. -/
theorem countClicks_clicking {keys : KeyCode} (hevent : s.event = .up)
    (hclick : s.codeClick = s.codeReady) (hcode : s.codeClick ≠ 0)
    (hor : keys ||| s.codeDown ≠ s.codeReady) :
    s.countClicks cfg keys time = s.reportClick cfg time := by
  have hadd : s.addClick keys time = (s, []) := by
    rw [KeyStatus.addClick, if_neg (not_or.2 ⟨hcode, not_not.2 hclick⟩),
      if_neg (by simp [hclick, hor])]
  rw [KeyStatus.countClicks, if_pos hevent, hadd]
  rfl

/-- A press of a combination other than that of the kept clicks. -/
theorem countClicks_first {keys : KeyCode} (hevent : s.event = .up)
    (hclick : s.codeClick = 0 ∨ s.codeClick ≠ s.codeReady) :
    s.countClicks cfg keys time =
      let added := { s with codeClick := s.codeReady, cntClick := 0, timeClick := time }
      ((added.reportClick cfg time).1,
        (if s.codeClick ≠ 0 then [(s.codeClick, .click s.cntClick)] else []) ++
          (added.reportClick cfg time).2) := by
  have hadd : s.addClick keys time =
      ({ s with codeClick := s.codeReady, cntClick := 0, timeClick := time },
        if s.codeClick ≠ 0 then [(s.codeClick, .click s.cntClick)] else []) := by
    rw [KeyStatus.addClick, if_pos hclick]
  rw [KeyStatus.countClicks, if_pos hevent, hadd]

/-- One more press of the combination of the kept clicks. -/
theorem countClicks_more {keys : KeyCode} (hevent : s.event = .up)
    (hclick : s.codeClick = s.codeReady) (hcode : s.codeClick ≠ 0) (hkeys : keys ≠ 0)
    (hor : keys ||| s.codeDown = s.codeReady) :
    s.countClicks cfg keys time =
      { s with cntClick := s.cntClick + 1, timeClick := time }.reportClick cfg time := by
  have hadd : s.addClick keys time =
      ({ s with cntClick := s.cntClick + 1, timeClick := time }, []) := by
    rw [KeyStatus.addClick, if_neg (not_or.2 ⟨hcode, not_not.2 hclick⟩),
      if_pos ⟨hkeys, hor.trans hclick.symm⟩]
  rw [KeyStatus.countClicks, if_pos hevent, hadd]
  rfl

/-- A completed press is a first click, or one more. -/
theorem countClicks_completed {keys : KeyCode} {p : Press} (hkeys : tr.keys = s.codeDown)
    (hsince : tr.since = s.timeUpdown) (hphase : tr.phase = .released) (hevent : s.event = .up)
    (hready : s.codeReady = s.codeDown) (hcombo : p.combo = s.codeDown) (hne : s.codeDown ≠ 0)
    (hrelease : p.release = time) (hlongs : p.longs = tr.longs) (hup : keys ≠ 0)
    (hor : keys ||| s.codeDown = s.codeDown) (hkept : Kept cfg s pending)
    (hfollows : ∀ q ∈ pending.getLast?, Follows cfg q p)
    (hpresses : ∃ groups : List (List Press), tr.presses = groups.flatten ++ (pending ++ [p]) ∧
      List.Forall₂ (fun click g => ClickGroup cfg click.1 click.2 g) clicks groups)
    (hwithin : downNew s.codeDown codeDown = 0 →
      Within codeDown s.codeReady ∧ codeDown ≠ s.codeReady) :
    ∃ pending', Counted cfg (s.countClicks cfg keys time).1 tr pending'
        (clicks ++ clicksOf (s.countClicks cfg keys time).2) ∧
      MidRel cfg (s.countClicks cfg keys time).1 tr pending' codeDown time := by
  have hnew : s.codeReady ≠ 0 := hready ▸ hne
  have hpcombo : p.combo = s.codeReady := hcombo.trans hready.symm
  obtain ⟨groups, hflat, hcounted⟩ := hpresses
  by_cases hclick : s.codeClick = 0 ∨ s.codeClick ≠ s.codeReady
  · rw [countClicks_first hevent hclick]
    -- the kept clicks are those of another combination, and the press is the first of its own
    obtain ⟨groups', hflat', hcounted'⟩ : ∃ groups', tr.presses = List.flatten groups' ++ [p] ∧
        List.Forall₂ (fun click g => ClickGroup cfg click.1 click.2 g)
          (clicks ++ clicksOf (if s.codeClick ≠ 0 then [(s.codeClick, .click s.cntClick)] else []))
          groups' := by
      cases hkept with
      | nothing hcode => exact ⟨groups, by simpa using hflat, by simpa [hcode] using hcounted⟩
      | clicks hgroup hcode _ _ =>
        have hone : List.Forall₂ (fun click g => ClickGroup cfg click.1 click.2 g)
            [(s.codeClick, s.cntClick)] [pending] := .cons hgroup .nil
        refine ⟨groups ++ [pending], by simp [hflat], ?_⟩
        rw [if_pos hcode, clicksOf_click]
        exact List.rel_append hcounted hone
    have hspec := @reportClick_spec cfg
      { s with codeClick := s.codeReady, cntClick := 0, timeClick := time } tr [p]
      (clicks ++ clicksOf (if s.codeClick ≠ 0 then [(s.codeClick, .click s.cntClick)] else []))
      codeDown time hkeys hsince hphase hevent rfl hnew (hpcombo ▸ ClickGroup.single)
      (by simp [hrelease]) (by simp [hlongs]) ⟨groups', hflat', hcounted'⟩ hwithin
    simpa only [clicksOf_append, List.append_assoc] using hspec
  · rw [not_or, not_not] at hclick
    rw [countClicks_more hevent hclick.2 hclick.1 hup (hor.trans hready.symm)]
    cases hkept with
    | nothing hcode => exact absurd hcode hclick.1
    | clicks hgroup _ hcnt _ =>
      exact reportClick_spec hkeys hsince hphase hevent hclick.2 hclick.1
        (hgroup.snoc (hpcombo.trans hclick.2.symm) hcnt hfollows) (by simp [hrelease])
        (by simp [hlongs]) ⟨groups, hflat, hcounted⟩ hwithin

/-- A call without a completed press, while clicks are kept and no press is under way. -/
theorem countClicks_waiting (h : Counted cfg s tr pending clicks) (hphase : tr.phase = .released)
    (hevent : s.event = .up) (hclick : s.codeClick = s.codeReady) (hcode : s.codeClick ≠ 0)
    (hwithin : Within s.codeDown s.codeReady) (hne : s.codeDown ≠ s.codeReady) :
    ∃ pending', Counted cfg (s.countClicks cfg (upNew s.codeDown codeDown) time).1 tr pending'
        (clicks ++ clicksOf (s.countClicks cfg (upNew s.codeDown codeDown) time).2) ∧
      MidRel cfg (s.countClicks cfg (upNew s.codeDown codeDown) time).1 tr pending' codeDown
        time := by
  rw [countClicks_clicking hevent hclick hcode (by rwa [upNew_or])]
  cases h.kept with
  | nothing hnone => exact absurd hnone hcode
  | clicks hgroup _ _ htime =>
    refine reportClick_spec h.keys h.since hphase hevent hclick hcode hgroup htime h.longs h.presses
      fun hdown => ?_
    -- without new keys, the keys of the combination do not come back
    have hless := within_of_downNew hdown
    refine ⟨hless.trans hwithin, fun heq => hne ?_⟩
    exact hwithin.antisymm (heq ▸ hless)

theorem releaseKeys_of_upNew (hup : upNew s.codeDown codeDown ≠ 0) :
    (s.releaseKeys codeDown time).1 =
      { s with
        timeUpdown := time
        event :=
          if s.IsLong then if codeDown &&& s.codeReady = 0 then .none else s.event
          else if s.event = .down then .up
          else s.event } := by
  simp only [KeyStatus.releaseKeys]
  rw [if_pos hup]

/-- The keys that are not down any more, and the clicks. -/
theorem Counted.release (h : Counted cfg s tr pending clicks)
    (hphase : PhaseRel cfg s tr pending) (codeDown : KeyCode) (time : UInt32) :
    let r := (s.releaseKeys codeDown time).1.countClicks cfg (upNew s.codeDown codeDown) time
    ∃ pending', Counted cfg r.1 (tr.release codeDown time) pending' (clicks ++ clicksOf r.2) ∧
      MidRel cfg r.1 (tr.release codeDown time) pending' codeDown time := by
  by_cases hup : upNew s.codeDown codeDown = 0
  · have hsame : (s.releaseKeys codeDown time).1 = s := by
      simp only [KeyStatus.releaseKeys]
      rw [if_neg (not_not.2 hup)]
    have htr : tr.release codeDown time = tr := if_pos (by rw [h.keys, hup])
    rw [hsame, htr]
    cases hphase with
    | rest hphase hevent hlast =>
      rw [countClicks_of_ne (by simp [hevent])]
      exact ⟨pending, by simpa using h, .rest hphase hevent hlast⟩
    | clicking hphase hevent hclick hcode hwithin hne =>
      exact countClicks_waiting h hphase hevent hclick hcode hwithin hne
    | pressing hphase hevent hready hcode hlast =>
      rw [countClicks_of_ne (by simp [hevent])]
      exact ⟨pending, by simpa using h, .pressing hphase hevent hready hcode hup hlast⟩
    | holding hphase hevent hlast =>
      rw [countClicks_of_ne (by rcases hevent with hevent | hevent <;> simp [hevent])]
      exact ⟨pending, by simpa using h, .holding hphase hevent hlast⟩
  · have htr : upNew tr.keys codeDown ≠ 0 := by rwa [h.keys]
    cases hphase with
    | rest hphase hevent hlast =>
      have hstatus : (s.releaseKeys codeDown time).1 = { s with timeUpdown := time } := by
        rw [releaseKeys_of_upNew hup]
        simp [KeyStatus.IsLong, hevent]
      have htracker : tr.release codeDown time = { tr with since := time } := by
        rw [PressTracker.release, if_neg htr]
        simp only [hphase]
      rw [hstatus, htracker, countClicks_of_ne (by simp [hevent])]
      refine ⟨pending, ⟨h.keys, rfl, h.longs, h.kept.congr rfl rfl rfl, by simpa using h.presses⟩,
        .rest hphase hevent hlast⟩
    | clicking hphase hevent hclick hcode hwithin hne =>
      have hstatus : (s.releaseKeys codeDown time).1 = { s with timeUpdown := time } := by
        rw [releaseKeys_of_upNew hup]
        simp [KeyStatus.IsLong, hevent]
      have htracker : tr.release codeDown time = { tr with since := time } := by
        rw [PressTracker.release, if_neg htr]
        simp only [hphase]
      rw [hstatus, htracker]
      have h' : Counted cfg { s with timeUpdown := time } { tr with since := time } pending
          clicks := ⟨h.keys, rfl, h.longs, h.kept.congr rfl rfl rfl, h.presses⟩
      exact countClicks_waiting h' hphase hevent hclick hcode hwithin hne
    | @pressing start hphase hevent hready hcode hlast =>
      have hstatus : (s.releaseKeys codeDown time).1 =
          { s with timeUpdown := time, event := .up } := by
        rw [releaseKeys_of_upNew hup]
        simp [KeyStatus.IsLong, hevent]
      have htracker : tr.release codeDown time =
          { tr with
            since := time
            phase := .released
            presses := tr.presses ++ [⟨s.codeDown, start, time, tr.longs⟩] } := by
        rw [PressTracker.release, if_neg htr]
        simp only [hphase]
      rw [hstatus, htracker]
      obtain ⟨groups, hflat, hcounted⟩ := h.presses
      refine @countClicks_completed cfg { s with timeUpdown := time, event := .up } _ pending clicks
        codeDown time _ ⟨s.codeDown, start, time, tr.longs⟩ h.keys rfl rfl rfl hready rfl hcode rfl
        rfl hup (upNew_or _ _) (h.kept.congr rfl rfl rfl) (fun q hq hlongs => ?_)
        ⟨groups, by simp [hflat], hcounted⟩ fun hdown => ?_
      · exact hlast q hq hlongs
      · have hless : Within codeDown s.codeDown := within_of_downNew hdown
        refine ⟨by rwa [← hready] at hless, fun heq => hup ?_⟩
        rw [show codeDown = s.codeDown from heq.trans hready, upNew_self]
    | holding hphase hevent hlast =>
      have hne : s.event ≠ .up := by rcases hevent with hevent | hevent <;> simp [hevent]
      by_cases hall : codeDown &&& s.codeReady = 0
      · have hstatus : (s.releaseKeys codeDown time).1 =
            { s with timeUpdown := time, event := .none } := by
          rw [releaseKeys_of_upNew hup, if_pos hevent, if_pos hall]
        have htracker : tr.release codeDown time =
            { tr with since := time, phase := .released } := by
          rw [PressTracker.release, if_neg htr]
          simp only [hphase]
          rw [if_pos hall]
        rw [hstatus, htracker, countClicks_of_ne (by simp)]
        refine ⟨pending, ⟨h.keys, rfl, h.longs, h.kept.congr rfl rfl rfl, by simpa using h.presses⟩,
          .rest rfl rfl hlast⟩
      · have hstatus : (s.releaseKeys codeDown time).1 = { s with timeUpdown := time } := by
          rw [releaseKeys_of_upNew hup, if_pos hevent, if_neg hall]
        have htracker : tr.release codeDown time = { tr with since := time } := by
          rw [PressTracker.release, if_neg htr]
          simp only [hphase]
          rw [if_neg hall]
        have hsame : ({ s with timeUpdown := time } : KeyStatus).countClicks cfg
            (upNew s.codeDown codeDown) time = ({ s with timeUpdown := time }, []) :=
          countClicks_of_ne hne
        rw [hstatus, htracker, hsame]
        refine ⟨pending, ⟨h.keys, rfl, h.longs, h.kept.congr rfl rfl rfl, by simpa using h.presses⟩,
          .holding hphase hevent hlast⟩

/-! ### Presses -/

theorem ne_zero_of_downNew {old : KeyCode} (h : downNew old codeDown ≠ 0) : codeDown ≠ 0 := by
  rintro rfl
  exact h (BitVec.zero_and)

theorem pressKeys_of_downNew (hdown : downNew s.codeDown codeDown ≠ 0) :
    (s.pressKeys codeDown time).1 =
      { s with
        codeDown := codeDown
        codeReady :=
          if s.event = .none ∨ s.event = .down ∨ s.event = .up then codeDown else s.codeReady
        timeUpdown := time
        event := if s.event = .none ∨ s.event = .up then .down else s.event } := by
  simp only [KeyStatus.pressKeys]
  rw [if_pos hdown]

/-- A kept click is younger than the threshold when a press starts, or a press has become long. -/
theorem Kept.start_sub (h : Kept cfg s pending)
    (htime : time - s.timeClick < cfg.doubleclickThreshold) :
    ∀ p ∈ pending.getLast?, time - p.release < cfg.doubleclickThreshold := by
  intro p hp
  cases h with
  | nothing => simp at hp
  | clicks _ _ _ hlast => rwa [hlast p hp]

/-- The keys that were not down before. -/
theorem Counted.press (h : Counted cfg s tr pending clicks)
    (hmid : MidRel cfg s tr pending codeDown time) :
    Counted cfg (s.pressKeys codeDown time).1 (tr.press codeDown time) pending clicks ∧
      PhaseRel cfg (s.pressKeys codeDown time).1 (tr.press codeDown time) pending := by
  by_cases hdown : downNew s.codeDown codeDown = 0
  · have hstatus : (s.pressKeys codeDown time).1 = { s with codeDown := codeDown } := by
      simp only [KeyStatus.pressKeys]
      rw [if_neg (not_not.2 hdown)]
    have htracker : tr.press codeDown time = { tr with keys := codeDown } :=
      if_pos (by rw [h.keys, hdown])
    rw [hstatus, htracker]
    refine ⟨⟨rfl, h.since, h.longs, h.kept.congr rfl rfl rfl, h.presses⟩, ?_⟩
    cases hmid with
    | rest hphase hevent hlast => exact .rest hphase hevent hlast
    | clicking hphase hevent hclick hcode hwithin _ =>
      exact .clicking hphase hevent hclick hcode (hwithin hdown).1 (hwithin hdown).2
    | pressing hphase hevent hready hcode hup hlast =>
      -- nothing has changed
      obtain rfl : codeDown = s.codeDown :=
        (within_of_downNew hdown).antisymm (within_of_upNew hup)
      exact .pressing hphase hevent hready hcode hlast
    | holding hphase hevent hlast => exact .holding hphase hevent hlast
  · have htr : downNew tr.keys codeDown ≠ 0 := by rwa [h.keys]
    have hne := ne_zero_of_downNew hdown
    rw [pressKeys_of_downNew hdown, PressTracker.press, if_neg htr]
    refine ⟨⟨rfl, rfl, h.longs, h.kept.congr rfl rfl rfl, h.presses⟩, ?_⟩
    cases hmid with
    | rest hphase hevent hlast =>
      simp only [hphase, hevent]
      refine .pressing rfl (by simp) (by simp) hne fun p hp hlongs => ?_
      exact absurd hlongs (Nat.ne_of_lt (hlast p hp))
    | clicking hphase hevent _ _ _ htime =>
      simp only [hphase, hevent]
      exact .pressing rfl (by simp) (by simp) hne fun p hp _ => h.kept.start_sub htime p hp
    | pressing hphase hevent _ _ _ hlast =>
      simp only [hphase, hevent]
      exact .pressing rfl (by simp) (by simp) hne hlast
    | holding hphase hevent hlast =>
      have hnot : ¬(s.event = .none ∨ s.event = .down ∨ s.event = .up) := by
        rcases hevent with hevent | hevent <;> simp [hevent]
      have hnot' : ¬(s.event = .none ∨ s.event = .up) := fun hor =>
        hnot (hor.imp_right .inr)
      rw [if_neg hnot, if_neg hnot']
      simp only [hphase]
      exact .holding rfl hevent hlast

/-! ### Long presses -/

/-- A long press goes on. -/
theorem holdKeys_of_isLong (hlong : s.IsLong) :
    ∃ event cntRepeat, (s.holdKeys cfg time).1 =
        { s with event := event, cntRepeat := cntRepeat } ∧
      (event = .longpress ∨ event = .longlongpress) := by
  have hdown : s.event ≠ .down := by rcases hlong with hlong | hlong <;> simp [hlong]
  have hrepeat : ∃ cntRepeat, (s.repeatKeys cfg).1 = { s with cntRepeat := cntRepeat } := by
    unfold KeyStatus.repeatKeys
    split
    · exact ⟨0, rfl⟩
    · exact ⟨_, rfl⟩
  obtain ⟨cntRepeat, hrepeat⟩ := hrepeat
  simp only [KeyStatus.holdKeys, if_neg hdown, if_pos hlong, hrepeat]
  split
  · split
    · exact ⟨_, _, rfl, .inr rfl⟩
    · exact ⟨_, _, rfl, hlong⟩
  · exact ⟨_, _, rfl, hlong⟩

theorem holdKeys_of_ne (hdown : s.event ≠ .down) (hlong : ¬s.IsLong) :
    s.holdKeys cfg time = (s, []) := by
  unfold KeyStatus.holdKeys
  rw [if_neg hdown, if_neg hlong, ite_self]

/-- The keys that are held. -/
theorem Counted.hold (h : Counted cfg s tr pending clicks) (hphase : PhaseRel cfg s tr pending) :
    Counted cfg (s.holdKeys cfg time).1 (tr.hold cfg time) pending clicks ∧
      PhaseRel cfg (s.holdKeys cfg time).1 (tr.hold cfg time) pending := by
  cases hphase with
  | rest hphase hevent hlast =>
    have hstatus : s.holdKeys cfg time = (s, []) :=
      holdKeys_of_ne (by simp [hevent]) (by simp [KeyStatus.IsLong, hevent])
    have htracker : tr.hold cfg time = tr := by simp only [PressTracker.hold, hphase]
    rw [hstatus, htracker]
    exact ⟨h, .rest hphase hevent hlast⟩
  | clicking hphase hevent hclick hcode hwithin hne =>
    have hstatus : s.holdKeys cfg time = (s, []) :=
      holdKeys_of_ne (by simp [hevent]) (by simp [KeyStatus.IsLong, hevent])
    have htracker : tr.hold cfg time = tr := by simp only [PressTracker.hold, hphase]
    rw [hstatus, htracker]
    exact ⟨h, .clicking hphase hevent hclick hcode hwithin hne⟩
  | @pressing start hphase hevent hready hcode hlast =>
    have hall : s.codeDown &&& s.codeReady = s.codeReady := by rw [hready, BitVec.and_self]
    simp only [KeyStatus.holdKeys, if_pos hall, if_pos hevent, PressTracker.hold, hphase, h.since]
    split
    · -- the press becomes long, also while clicks are kept
      have hless : ∀ p ∈ pending.getLast?, p.longs < tr.longs + 1 :=
        fun p hp => Nat.lt_succ_of_le (h.longs p hp)
      exact ⟨⟨h.keys, rfl, fun p hp => Nat.le_of_lt (hless p hp), h.kept.congr rfl rfl rfl,
        h.presses⟩, .holding (by rw [hready]) (.inl rfl) hless⟩
    · exact ⟨h, .pressing hphase hevent hready hcode hlast⟩
  | holding hphase hevent hlast =>
    obtain ⟨event, cntRepeat, hstatus, hlong⟩ := @holdKeys_of_isLong cfg s time hevent
    have htracker : tr.hold cfg time = tr := by simp only [PressTracker.hold, hphase]
    rw [hstatus, htracker]
    exact ⟨⟨h.keys, h.since, h.longs, h.kept.congr rfl rfl rfl, h.presses⟩,
      .holding hphase hlong hlast⟩

end Clicks

/-! ### The events of a call -/

section Events

variable (s : KeyStatus) (cfg : KeyConfig) (codeDown : KeyCode) (time : UInt32)

theorem releaseKeys_sent : (s.releaseKeys codeDown time).2 =
    (keyBits (upNew s.codeDown codeDown)).flatMap fun key =>
      (key, .up) :: if s.IsLong then [(key, .upAfterLongpress)] else [] := by
  simp only [KeyStatus.releaseKeys]
  split <;> rfl

theorem pressKeys_sent : (s.pressKeys codeDown time).2 =
    (keyBits (downNew s.codeDown codeDown)).flatMap fun key =>
      [(key, .down), (key, if s.event = .none then .firstDown else .continuedDown)] := by
  simp only [KeyStatus.pressKeys]
  split <;> rfl

/-- The clicks are reported with click events. -/
theorem countClicks_sent (keys : KeyCode) :
    ∀ r ∈ (s.countClicks cfg keys time).2, ∃ cnt, r.2 = .click cnt := by
  have hadd : ∀ r ∈ (s.addClick keys time).2, ∃ cnt, r.2 = .click cnt := by
    intro r hr
    unfold KeyStatus.addClick at hr
    split at hr
    · split at hr
      · exact ⟨_, by rw [List.mem_singleton.1 hr]⟩
      · cases hr
    · split at hr <;> cases hr
  have hreport (t : KeyStatus) : ∀ r ∈ (t.reportClick cfg time).2, ∃ cnt, r.2 = .click cnt := by
    intro r hr
    unfold KeyStatus.reportClick at hr
    split at hr
    · exact ⟨_, by rw [List.mem_singleton.1 hr]⟩
    · cases hr
  intro r hr
  simp only [KeyStatus.countClicks] at hr
  split at hr
  · exact (List.mem_append.1 hr).elim (hadd r) (hreport _ r)
  · cases hr

/-- The events of keys that are held. -/
theorem holdKeys_sent : ∀ r ∈ (s.holdKeys cfg time).2,
    r.2 = .longpress ∨ r.2 = .repeated ∨ r.2 = .longlongpress := by
  have hrepeat : ∀ r ∈ (s.repeatKeys cfg).2, r.2 = .repeated := by
    intro r hr
    unfold KeyStatus.repeatKeys at hr
    split at hr
    · rw [List.mem_singleton.1 hr]
    · cases hr
  intro r hr
  simp only [KeyStatus.holdKeys] at hr
  split at hr
  · split at hr
    · split at hr
      · exact .inl (by rw [List.mem_singleton.1 hr])
      · cases hr
    · split at hr
      · split at hr
        · rcases List.mem_append.1 hr with hr | hr
          · exact .inr (.inl (hrepeat r hr))
          · exact .inr (.inr (by rw [List.mem_singleton.1 hr]))
        · exact .inr (.inl (hrepeat r hr))
      · cases hr
  · cases hr

end Events

theorem clicksOf_eq_nil {reports : List KeyReport} (h : ∀ r ∈ reports, ∀ cnt, r.2 ≠ .click cnt) :
    clicksOf reports = [] := by
  refine List.filterMap_eq_nil_iff.2 fun r hr => ?_
  split
  · next code cnt => exact absurd rfl (h _ hr cnt)
  · rfl

/-- Only the handling of clicks reports clicks. -/
theorem clicksOf_debounceHandler (s : KeyStatus) (cfg : KeyConfig) (codeDown : KeyCode)
    (time : UInt32) : clicksOf (s.debounceHandler cfg codeDown time).2 =
      clicksOf ((s.releaseKeys codeDown time).1.countClicks cfg (upNew s.codeDown codeDown)
        time).2 := by
  have hrelease : clicksOf (s.releaseKeys codeDown time).2 = [] := by
    refine clicksOf_eq_nil fun r hr cnt => ?_
    rw [releaseKeys_sent] at hr
    obtain ⟨key, -, hr⟩ := List.mem_flatMap.1 hr
    rcases List.mem_cons.1 hr with rfl | hr
    · simp
    · split at hr
      · simp [List.mem_singleton.1 hr]
      · cases hr
  have hpress (t : KeyStatus) : clicksOf (t.pressKeys codeDown time).2 = [] := by
    refine clicksOf_eq_nil fun r hr cnt => ?_
    rw [pressKeys_sent] at hr
    obtain ⟨key, -, hr⟩ := List.mem_flatMap.1 hr
    rcases List.mem_cons.1 hr with rfl | hr
    · simp
    · rw [List.mem_singleton.1 hr]
      split <;> simp
  have hhold (t : KeyStatus) : clicksOf (t.holdKeys cfg time).2 = [] := by
    refine clicksOf_eq_nil fun r hr cnt => ?_
    rcases holdKeys_sent t cfg time r hr with hr | hr | hr <;> simp [hr]
  simp only [KeyStatus.debounceHandler, clicksOf_append, hrelease, hpress, hhold, List.nil_append,
    List.append_nil]

/-- What the handler has reported and what it keeps are the short presses. -/
def CountInv (cfg : KeyConfig) (s : KeyStatus) (tr : PressTracker)
    (clicks : List (KeyCode × Nat)) : Prop :=
  ∃ pending, Counted cfg s tr pending clicks ∧ PhaseRel cfg s tr pending

/-- A call of the handler keeps the invariant. -/
theorem CountInv.step {cfg : KeyConfig} {s : KeyStatus} {tr : PressTracker}
    {clicks : List (KeyCode × Nat)} (h : CountInv cfg s tr clicks) (codeDown : KeyCode)
    (time : UInt32) :
    CountInv cfg (s.debounceHandler cfg codeDown time).1
      (((tr.release codeDown time).press codeDown time).hold cfg time)
      (clicks ++ clicksOf (s.debounceHandler cfg codeDown time).2) := by
  obtain ⟨pending, hcounted, hphase⟩ := h
  obtain ⟨pending', hcounted, hmid⟩ := hcounted.release hphase codeDown time
  obtain ⟨hcounted, hphase⟩ := hcounted.press hmid
  rw [clicksOf_debounceHandler]
  exact ⟨pending', hcounted.hold hphase⟩

theorem CountInv.run {cfg : KeyConfig} {s : KeyStatus} {tr : PressTracker}
    {clicks : List (KeyCode × Nat)} (h : CountInv cfg s tr clicks)
    (calls : List (KeyCode × UInt32)) :
    CountInv cfg (s.run cfg calls).1 (tr.run cfg calls)
      (clicks ++ clicksOf (s.run cfg calls).2) := by
  induction calls generalizing s tr clicks with
  | nil => simpa [KeyStatus.run, PressTracker.run] using h
  | cons call calls ih =>
    have hrest := ih (h.step call.1 call.2)
    rwa [List.append_assoc, ← clicksOf_append] at hrest

/-! ### Up and down events -/

/-- The up and down events of a key. -/
def keyEvents (index : Nat) (reports : List KeyReport) : List KeyEvent :=
  reports.filterMap fun r =>
    if r.1 = 1#32 <<< index ∧ (r.2 = .down ∨ r.2 = .up) then some r.2 else none

/-- A key that is down or not is released and pressed in turn. -/
def Alternates : Bool → List KeyEvent → Prop
  | _, [] => True
  | down, e :: es => e = (if down then .up else .down) ∧ Alternates (!down) es

@[simp] theorem keyEvents_append (index : Nat) (r r' : List KeyReport) :
    keyEvents index (r ++ r') = keyEvents index r ++ keyEvents index r' := List.filterMap_append

theorem keyEvents_eq_nil {index : Nat} {reports : List KeyReport}
    (h : ∀ r ∈ reports, r.2 ≠ .down ∧ r.2 ≠ .up) : keyEvents index reports = [] :=
  List.filterMap_eq_nil_iff.2 fun r hr => if_neg fun hev => hev.2.elim (h r hr).1 (h r hr).2

/-- Keys have different codes. -/
theorem keyCode_inj {i j : Nat} (hi : i < 32) (h : (1#32 <<< j : KeyCode) = 1#32 <<< i) :
    j = i := by
  have hbit := congrArg (fun v : KeyCode => v.getLsbD i) h
  simp [hi] at hbit
  omega

/-- Among different indices the events of one are those of its own. -/
theorem flatMap_ite_eq {α : Type} {l : List Nat} (hl : l.Nodup) (p : Nat → Bool) (i : Nat) (x : α) :
    ((l.filter p).flatMap fun j => if j = i then [x] else []) =
      if i ∈ l ∧ p i then [x] else [] := by
  induction l with
  | nil => simp
  | cons k l ih =>
    rw [List.nodup_cons] at hl
    by_cases hk : p k
    · rw [List.filter_cons_of_pos hk, List.flatMap_cons, ih hl.2]
      by_cases hki : k = i
      · subst hki
        simp [hl.1, hk]
      · simp [hki, Ne.symm hki]
    · rw [List.filter_cons_of_neg hk, ih hl.2]
      by_cases hki : k = i
      · subst hki
        simp [hl.1, hk]
      · simp [Ne.symm hki]

/-- If each key of a code has one event of a kind, a key has it if it is in the code. -/
theorem keyEvents_keyBits {index : Nat} (hindex : index < 32) (map : KeyCode)
    {f : KeyCode → List KeyReport} {e : KeyEvent}
    (hf : ∀ key, keyEvents index (f key) = if key = 1#32 <<< index then [e] else []) :
    keyEvents index ((keyBits map).flatMap f) = if map.getLsbD index then [e] else [] := by
  have hmap : keyEvents index ((keyBits map).flatMap f) =
      ((List.range 32).filter fun j => map.getLsbD j).flatMap
        fun j => if j = index then [e] else [] := by
    rw [keyEvents, List.filterMap_flatMap, keyBits, List.flatMap_map]
    refine List.flatMap_congr fun j _ => ?_
    rw [show List.filterMap _ (f (1#32 <<< j)) = keyEvents index (f (1#32 <<< j)) from rfl, hf]
    by_cases hj : j = index
    · simp [hj]
    · rw [if_neg hj, if_neg fun h => hj (keyCode_inj hindex h)]
  rw [hmap, flatMap_ite_eq List.nodup_range]
  simp [hindex]

theorem codeDown_releaseKeys (s : KeyStatus) (codeDown : KeyCode) (time : UInt32) :
    (s.releaseKeys codeDown time).1.codeDown = s.codeDown := by
  simp only [KeyStatus.releaseKeys]
  split <;> rfl

theorem codeDown_countClicks (s : KeyStatus) (cfg : KeyConfig) (keys : KeyCode) (time : UInt32) :
    (s.countClicks cfg keys time).1.codeDown = s.codeDown := by
  have hadd : (s.addClick keys time).1.codeDown = s.codeDown := by
    unfold KeyStatus.addClick
    split
    · rfl
    · split <;> rfl
  have hreport (t : KeyStatus) : (t.reportClick cfg time).1.codeDown = t.codeDown := by
    unfold KeyStatus.reportClick
    split <;> rfl
  simp only [KeyStatus.countClicks]
  split
  · exact (hreport _).trans hadd
  · rfl

theorem codeDown_pressKeys (s : KeyStatus) (codeDown : KeyCode) (time : UInt32) :
    (s.pressKeys codeDown time).1.codeDown = codeDown := by
  simp only [KeyStatus.pressKeys]
  split <;> rfl

theorem codeDown_holdKeys (s : KeyStatus) (cfg : KeyConfig) (time : UInt32) :
    (s.holdKeys cfg time).1.codeDown = s.codeDown := by
  by_cases hlong : s.IsLong
  · obtain ⟨event, cntRepeat, hstatus, -⟩ := @holdKeys_of_isLong cfg s time hlong
    rw [hstatus]
  · simp only [KeyStatus.holdKeys, if_neg hlong]
    split
    · split
      · split <;> rfl
      · rfl
    · rfl

/-- A call reports a key that is released or pressed, once. -/
theorem keyEvents_debounceHandler {index : Nat} (hindex : index < 32) (s : KeyStatus)
    (cfg : KeyConfig) (codeDown : KeyCode) (time : UInt32) :
    keyEvents index (s.debounceHandler cfg codeDown time).2 =
      (if (upNew s.codeDown codeDown).getLsbD index then [.up] else []) ++
        if (downNew s.codeDown codeDown).getLsbD index then [.down] else [] := by
  have hrelease : keyEvents index (s.releaseKeys codeDown time).2 =
      if (upNew s.codeDown codeDown).getLsbD index then [.up] else [] := by
    rw [releaseKeys_sent]
    refine keyEvents_keyBits hindex _ fun key => ?_
    by_cases hlong : s.IsLong <;> by_cases hkey : key = 1#32 <<< index <;>
      simp [keyEvents, hlong, hkey]
  have hclick (t : KeyStatus) (keys : KeyCode) :
      keyEvents index (t.countClicks cfg keys time).2 = [] := by
    refine keyEvents_eq_nil fun r hr => ?_
    obtain ⟨cnt, hcnt⟩ := countClicks_sent t cfg time keys r hr
    simp [hcnt]
  have hpress (t : KeyStatus) (hkeys : t.codeDown = s.codeDown) :
      keyEvents index (t.pressKeys codeDown time).2 =
        if (downNew s.codeDown codeDown).getLsbD index then [.down] else [] := by
    rw [pressKeys_sent, hkeys]
    refine keyEvents_keyBits hindex _ fun key => ?_
    by_cases hevent : t.event = .none <;> by_cases hkey : key = 1#32 <<< index <;>
      simp [keyEvents, hevent, hkey]
  have hhold (t : KeyStatus) : keyEvents index (t.holdKeys cfg time).2 = [] := by
    refine keyEvents_eq_nil fun r hr => ?_
    rcases holdKeys_sent t cfg time r hr with hr | hr | hr <;> simp [hr]
  simp only [KeyStatus.debounceHandler, keyEvents_append, hrelease, hclick, hhold, List.append_nil]
  rw [hpress]
  rw [codeDown_countClicks, codeDown_releaseKeys]

theorem codeDown_debounceHandler (s : KeyStatus) (cfg : KeyConfig) (codeDown : KeyCode)
    (time : UInt32) : (s.debounceHandler cfg codeDown time).1.codeDown = codeDown :=
  (codeDown_holdKeys _ _ _).trans (codeDown_pressKeys _ _ _)

/-- Up and down events of a key alternate. -/
theorem keyAlternates (cfg : KeyConfig) (s : KeyStatus) (calls : List (KeyCode × UInt32))
    {index : Nat} (hindex : index < 32) :
    Alternates (s.codeDown.getLsbD index) (keyEvents index (s.run cfg calls).2) := by
  induction calls generalizing s with
  | nil => trivial
  | cons call calls ih =>
    have hrest := ih (s.debounceHandler cfg call.1 call.2).1
    rw [codeDown_debounceHandler] at hrest
    simp only [KeyStatus.run, keyEvents_append, keyEvents_debounceHandler hindex, upNew, downNew,
      BitVec.getLsbD_and, BitVec.getLsbD_not, hindex]
    -- the key stays as it is, or it is released, or it is pressed
    cases hold : s.codeDown.getLsbD index <;> cases hnew : call.1.getLsbD index <;>
      simpa [hnew, Alternates] using hrest

/-- **The click events count the short presses**: in every run of the handler the completed short
presses are, in order, those of the click events and those that are still kept. A click event counts
presses of its combination, each of which started less than the threshold after the release of the
one before, unless a press has become long in between. Nothing is kept at rest, unless a press has
become long since. Up and down events of each key alternate. -/
theorem clicks_counted (cfg : KeyConfig) (calls : List (KeyCode × UInt32)) :
    let s := (KeyStatus.zero.run cfg calls).1
    let reports := (KeyStatus.zero.run cfg calls).2
    let tr := PressTracker.zero.run cfg calls
    (∀ index : Fin 32, Alternates false (keyEvents index.val reports)) ∧
      ∃ groups pending, tr.presses = List.flatten groups ++ pending ∧
        List.Forall₂ (fun click g => ClickGroup cfg click.1 click.2 g) (clicksOf reports) groups ∧
        Kept cfg s pending ∧
        (s.event = .none → ∀ p ∈ pending.getLast?, p.longs < tr.longs) := by
  have hzero : CountInv cfg .zero .zero [] :=
    ⟨[], ⟨rfl, rfl, by simp, .nothing rfl, [], rfl, .nil⟩, .rest rfl rfl (by simp)⟩
  obtain ⟨pending, hcounted, hphase⟩ := hzero.run calls
  obtain ⟨groups, hflat, hgroups⟩ := hcounted.presses
  refine ⟨fun index => ?_, groups, pending, hflat, hgroups, hcounted.kept, fun hnone => ?_⟩
  · simpa [KeyStatus.zero] using keyAlternates cfg .zero calls index.isLt
  cases hphase with
  | rest _ _ hlast => exact hlast
  | clicking _ hevent => simp [hevent] at hnone
  | pressing _ hevent => simp [hevent] at hnone
  | holding _ hevent => rcases hevent with hevent | hevent <;> simp [hevent] at hnone

/-- The thresholds of the source for a timer of 16 ticks in a millisecond. -/
def defaultKeyConfig : KeyConfig := ⟨400 * 16, 1500 * 16, 2000 * 16, 500 * 16, 40 * 16⟩

/-- The first key is pressed for 100 ms and, 300 ms later, for 200 ms. -/
def slowDoubleclick : List (KeyCode × UInt32) :=
  [(1, 0), (0, 100 * 16), (1, 400 * 16), (0, 600 * 16), (0, 1000 * 16)]

/-- The releases are 500 ms apart, and a double click is reported. -/
theorem slowDoubleclick_reported :
    clicksOf (KeyStatus.zero.run defaultKeyConfig slowDoubleclick).2 = [(1, 1)] ∧
      (PressTracker.zero.run defaultKeyConfig slowDoubleclick).presses.map Press.release =
        [100 * 16, 600 * 16] ∧
      ¬(600 * 16 - 100 * 16 : UInt32) < defaultKeyConfig.doubleclickThreshold := by
  decide

end EarbudFirmware.Hal
