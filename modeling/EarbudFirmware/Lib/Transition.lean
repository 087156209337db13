import Mathlib.Data.List.Basic

/-!
# Executions of a partial step function

A system is a step function `S → E → Option S`: the event `E` carries every choice of the
environment, and `none` means that the event cannot happen in this state. Executions are
`List.foldlM step`. Guards are relations between a state and the event executed in it.

## Main definitions

* `Along` — every step of an execution meets a guard
* `Lawful` — every step of an execution obeys a law that may look back at the events before it
* `total` — what the steps of an execution add up to
* `Reachable` — the states of the executions whose steps meet a guard

## Main results

* `Along.preserves` — a guarded step invariant is an invariant of guarded executions
* `Along.exists_run` — guarded executions happen if guarded steps do
* `holds_iff_along` — a property lost by the steps that miss a guard holds while the guard is met
* `always_iff_along` — a property of every state of an execution, by the guard of one step
* `lawful_iff_along` — the executions whose steps obey a law, by the guard of one step
* `Along.balance` — what comes in and what goes out along an execution, from one step
* `Reachable.induction` — the same rule for reachable states
* `Reachable.exists_of_measure` — a goal that is reached because a measure decreases
-/

namespace Transition

variable {S E : Type*} {step : S → E → Option S} {guard guard' : S → E → Prop}

/-- The events of `es`, executed in order from `s`, meet `guard` in the state each one meets. -/
def Along (step : S → E → Option S) (guard : S → E → Prop) : S → List E → Prop
  | _, [] => True
  | s, e :: es => guard s e ∧ ∀ t, step s e = some t → Along step guard t es

@[simp] theorem along_nil (s : S) : Along step guard s [] := trivial

@[simp] theorem along_cons {s : S} {e : E} {es : List E} :
    Along step guard s (e :: es) ↔
      guard s e ∧ ∀ t, step s e = some t → Along step guard t es := Iff.rfl

theorem Along.mono (h : ∀ s e, guard s e → guard' s e) {s : S} {es : List E}
    (hes : Along step guard s es) : Along step guard' s es := by
  induction es generalizing s with
  | nil => trivial
  | cons e es ih => exact ⟨h s e hes.1, fun t ht => ih (hes.2 t ht)⟩

theorem along_of_forall (h : ∀ s e, guard s e) (s : S) (es : List E) :
    Along step guard s es := by
  induction es generalizing s with
  | nil => trivial
  | cons e es ih => exact ⟨h s e, fun t _ => ih t⟩

/-- What holds of every event holds along the execution. -/
theorem Along.of_mem {p : E → Prop} {s : S} {es : List E} (h : Along step guard s es)
    (hes : ∀ e ∈ es, p e) : Along step (fun s e => p e ∧ guard s e) s es := by
  induction es generalizing s with
  | nil => trivial
  | cons e es ih =>
    exact ⟨⟨hes e List.mem_cons_self, h.1⟩, fun t ht =>
      ih (h.2 t ht) fun e he => hes e (List.mem_cons_of_mem _ he)⟩

theorem along_cons_of_none {s : S} {e : E} {es : List E} (h : step s e = none) :
    Along step guard s (e :: es) ↔ guard s e := by
  simp [h]

theorem along_cons_of_some {s t : S} {e : E} {es : List E} (h : step s e = some t) :
    Along step guard s (e :: es) ↔ guard s e ∧ Along step guard t es := by
  simp [h]

/-- A guard that can be decided can be decided along an execution. -/
instance decidableAlong [∀ s e, Decidable (guard s e)] : ∀ s es, Decidable (Along step guard s es)
  | _, [] => isTrue trivial
  | s, e :: es =>
    match h : step s e with
    | none => decidable_of_iff (guard s e) (along_cons_of_none h).symm
    | some t =>
      have := decidableAlong t es
      decidable_of_iff (guard s e ∧ Along step guard t es) (along_cons_of_some h).symm

/-- Executing a nonempty list of events starts with one step. -/
theorem foldlM_cons_eq_some {s t : S} {e : E} {es : List E}
    (h : (e :: es).foldlM step s = some t) :
    ∃ u, step s e = some u ∧ es.foldlM step u = some t := by
  simpa [Option.bind_eq_some_iff] using h

/-- An execution of a concatenation stops over at the state between the two parts. -/
theorem foldlM_append_eq_some {s t : S} {es fs : List E}
    (h : (es ++ fs).foldlM step s = some t) :
    ∃ u, es.foldlM step s = some u ∧ fs.foldlM step u = some t := by
  simpa [List.foldlM_append, Option.bind_eq_some_iff] using h

/-- Executions of two lists of events are joined. -/
theorem foldlM_append_of {s t u : S} {es fs : List E} (hes : es.foldlM step s = some t)
    (hfs : fs.foldlM step t = some u) : (es ++ fs).foldlM step s = some u := by
  rw [List.foldlM_append, hes]
  exact hfs

theorem along_append {s : S} {es fs : List E} :
    Along step guard s (es ++ fs) ↔
      Along step guard s es ∧ ∀ t, es.foldlM step s = some t → Along step guard t fs := by
  induction es generalizing s with
  | nil => simp
  | cons e es ih =>
    simp only [List.cons_append, along_cons, ih, List.foldlM_cons, Option.bind_eq_bind,
      Option.bind_eq_some_iff]
    constructor
    · rintro ⟨he, h⟩
      exact ⟨⟨he, fun t ht => (h t ht).1⟩, fun t ⟨u, hu, ht⟩ => (h u hu).2 t ht⟩
    · rintro ⟨⟨he, h⟩, h'⟩
      exact ⟨he, fun t ht => ⟨h t ht, fun v hv => h' v ⟨t, ht, hv⟩⟩⟩

/-- The last step of an execution meets the guard. -/
theorem Along.last {s t : S} {es : List E} {e : E} (h : Along step guard s (es ++ [e]))
    (ht : es.foldlM step s = some t) : guard t e :=
  ((along_append.1 h).2 t ht).1

/-- An invariant kept by every guarded step holds at the end of every guarded execution. -/
theorem Along.preserves {I : S → Prop}
    (hstep : ∀ s e t, I s → guard s e → step s e = some t → I t)
    {s t : S} {es : List E} (hes : Along step guard s es)
    (h : es.foldlM step s = some t) (hs : I s) : I t := by
  induction es generalizing s with
  | nil => obtain rfl : s = t := by simpa using h
           exact hs
  | cons e es ih =>
    obtain ⟨u, hu, hrest⟩ := foldlM_cons_eq_some h
    exact ih (hes.2 u hu) hrest (hstep s e u hs hes.1 hu)

/-- If every guarded step happens and keeps an invariant, every guarded execution does. -/
theorem Along.exists_run {I : S → Prop}
    (hstep : ∀ s e, I s → guard s e → ∃ t, step s e = some t ∧ I t) {s : S} {es : List E}
    (hes : Along step guard s es) (hs : I s) : ∃ t, es.foldlM step s = some t ∧ I t := by
  induction es generalizing s with
  | nil => exact ⟨s, rfl, hs⟩
  | cons e es ih =>
    obtain ⟨u, hu, hIu⟩ := hstep s e hs hes.1
    obtain ⟨t, ht, hIt⟩ := ih (hes.2 u hu) hIu
    refine ⟨t, ?_, hIt⟩
    rw [List.foldlM_cons, hu]
    exact ht

/-- A guard weakened by an invariant of the execution. -/
theorem Along.strengthen {I : S → Prop}
    (hstep : ∀ s e t, I s → guard s e → step s e = some t → I t)
    {s : S} {es : List E} (hes : Along step guard s es) (hs : I s) :
    Along step (fun s e => I s ∧ guard s e) s es := by
  induction es generalizing s with
  | nil => trivial
  | cons e es ih =>
    exact ⟨⟨hs, hes.1⟩, fun t ht => ih (hes.2 t ht) (hstep s e t hs hes.1 ht)⟩

/-- Guards that agree where an invariant holds, and keep it there, hold along the same
executions. -/
theorem along_iff_of_invariant {I : S → Prop} (hiff : ∀ s e, I s → (guard s e ↔ guard' s e))
    (hstep : ∀ s e t, I s → guard s e → step s e = some t → I t) {s : S} (hs : I s)
    (es : List E) : Along step guard s es ↔ Along step guard' s es := by
  induction es generalizing s with
  | nil => exact Iff.rfl
  | cons e es ih =>
    rw [along_cons, along_cons, ← hiff s e hs]
    exact and_congr_right fun he => forall₂_congr fun t ht => ih (hstep s e t hs he ht)

/-- A property that a step keeps if it meets the guard, and loses for good if it does not, holds at
the end of an execution exactly when the guard is met along it. -/
theorem holds_iff_along {I lost : S → Prop}
    (hkeep : ∀ s e t, I s → guard s e → step s e = some t → I t)
    (hlose : ∀ s e t, I s → ¬guard s e → step s e = some t → lost t)
    (hlost : ∀ s e t, lost s → step s e = some t → lost t) (hne : ∀ s, lost s → ¬I s)
    {s t : S} {es : List E} (h : es.foldlM step s = some t) (hs : I s) :
    I t ↔ Along step guard s es := by
  constructor
  · intro ht
    induction es generalizing s with
    | nil => trivial
    | cons e es ih =>
      obtain ⟨u, hu, hrest⟩ := foldlM_cons_eq_some h
      have hg : guard s e := by
        by_contra hg
        have hrun : ∀ {fs : List E} {u : S}, lost u → fs.foldlM step u = some t → lost t := by
          intro fs u hu hfs
          exact (along_of_forall (fun _ _ => trivial) u fs).preserves
            (fun s e t hs _ => hlost s e t hs) hfs hu
        exact hne t (hrun (hlose s e u hs hg hu) hrest) ht
      refine ⟨hg, fun v hv => ?_⟩
      obtain rfl : u = v := by simpa [hu] using hv
      exact ih hrest (hkeep s e u hs hg hu)
  · intro hes
    exact hes.preserves hkeep h hs

/-- A property that a step keeps exactly when it meets the guard holds in every state of an
execution exactly when the guard is met along it. -/
theorem always_iff_along {I : S → Prop}
    (hstep : ∀ s e t, I s → step s e = some t → (I t ↔ guard s e)) {s t : S} {es : List E}
    (h : es.foldlM step s = some t) (hs : I s) :
    (∀ fs u, fs <+: es → fs.foldlM step s = some u → I u) ↔ Along step guard s es := by
  induction es generalizing s with
  | nil =>
    refine iff_of_true (fun fs u hfs hu => ?_) trivial
    rw [List.prefix_nil.mp hfs] at hu
    obtain rfl : s = u := by simpa using hu
    exact hs
  | cons e es ih =>
    obtain ⟨v, hv, hrest⟩ := foldlM_cons_eq_some h
    constructor
    · intro hall
      have hI : I v := hall [e] v ⟨es, rfl⟩ (by rw [List.foldlM_cons, hv]; rfl)
      refine ⟨(hstep s e v hs hv).mp hI, fun w hw => ?_⟩
      obtain rfl : v = w := Option.some.inj (hv.symm.trans hw)
      refine (ih hrest hI).mp fun fs u hfs hu => ?_
      exact hall (e :: fs) u (List.cons_prefix_cons.mpr ⟨rfl, hfs⟩)
        (by rw [List.foldlM_cons, hv]; exact hu)
    · rintro ⟨he, hes⟩ fs u hfs hu
      have hI : I v := (hstep s e v hs hv).mpr he
      cases fs with
      | nil =>
        obtain rfl : s = u := by simpa using hu
        exact hs
      | cons f fs =>
        obtain ⟨rfl, hbehind⟩ := List.cons_prefix_cons.mp hfs
        obtain ⟨w, hw, hrun⟩ := foldlM_cons_eq_some hu
        obtain rfl : v = w := Option.some.inj (hv.symm.trans hw)
        exact (ih hrest hI).mpr (hes v hv) fs u hbehind hrun

/-- A property that a step reaches exactly when it meets the guard is reached by every beginning of
an execution exactly when the guard is met along it. -/
theorem prefixes_iff_along {I : S → Prop}
    (hstep : ∀ s e, I s → ((∃ t, step s e = some t ∧ I t) ↔ guard s e)) {s : S} (hs : I s)
    (es : List E) :
    (∀ fs, fs <+: es → ∃ t, fs.foldlM step s = some t ∧ I t) ↔ Along step guard s es := by
  induction es generalizing s with
  | nil =>
    refine iff_of_true (fun fs hfs => ?_) trivial
    rw [List.prefix_nil.mp hfs]
    exact ⟨s, rfl, hs⟩
  | cons e es ih =>
    rw [along_cons, ← hstep s e hs]
    constructor
    · intro h
      obtain ⟨t, ht, hI⟩ := h [e] ⟨es, rfl⟩
      obtain ⟨u, hu, hut⟩ := foldlM_cons_eq_some ht
      obtain rfl : u = t := by simpa using hut
      refine ⟨⟨u, hu, hI⟩, fun v hv => ?_⟩
      obtain rfl : u = v := Option.some.inj (hu.symm.trans hv)
      refine (ih hI).mp fun fs hfs => ?_
      obtain ⟨w, hw, hI'⟩ := h (e :: fs) (List.cons_prefix_cons.mpr ⟨rfl, hfs⟩)
      obtain ⟨u', hu', hrest⟩ := foldlM_cons_eq_some hw
      obtain rfl : u = u' := Option.some.inj (hu.symm.trans hu')
      exact ⟨w, hrest, hI'⟩
    · rintro ⟨⟨t, ht, hI⟩, hes⟩ fs hfs
      cases fs with
      | nil => exact ⟨s, rfl, hs⟩
      | cons f fs =>
        obtain ⟨rfl, hrest⟩ := List.cons_prefix_cons.mp hfs
        obtain ⟨u, hu, hI'⟩ := (ih hI).mpr (hes t ht) fs hrest
        exact ⟨u, by rw [List.foldlM_cons, ht]; exact hu, hI'⟩

/-- Every step of `es` from `s` is carried out and obeys the law. The law relates the events before
a step, among them those in `before`, its state, its event, and the state behind it. -/
def Lawful (step : S → E → Option S) (law : List E → S → E → S → Prop) (before : List E) (s : S)
    (es : List E) : Prop :=
  ∀ done e, done ++ [e] <+: es →
    ∃ t u, done.foldlM step s = some t ∧ step t e = some u ∧ law (before ++ done) t e u

/-- One step, and those behind it. -/
theorem lawful_cons {law : List E → S → E → S → Prop} {before es : List E} {s : S} {e : E} :
    Lawful step law before s (e :: es) ↔
      ∃ t, step s e = some t ∧ law before s e t ∧ Lawful step law (before ++ [e]) t es := by
  constructor
  · intro h
    obtain ⟨t, u, ht, hu, hlaw⟩ := h [] e ⟨es, rfl⟩
    obtain rfl : s = t := Option.some.inj ht
    rw [List.append_nil] at hlaw
    refine ⟨u, hu, hlaw, fun done e' hdone => ?_⟩
    obtain ⟨t', u', ht', hu', hlaw'⟩ := h (e :: done) e' (List.cons_prefix_cons.mpr ⟨rfl, hdone⟩)
    obtain ⟨v, hv, hrest⟩ := foldlM_cons_eq_some ht'
    obtain rfl : u = v := Option.some.inj (hu.symm.trans hv)
    rw [List.append_cons] at hlaw'
    exact ⟨t', u', hrest, hu', hlaw'⟩
  · rintro ⟨t, ht, hlaw, hrest⟩ done e' hdone
    cases done with
    | nil =>
      obtain ⟨rfl, -⟩ := List.cons_prefix_cons.mp hdone
      exact ⟨s, t, rfl, ht, by rwa [List.append_nil]⟩
    | cons d done =>
      obtain ⟨rfl, hbehind⟩ := List.cons_prefix_cons.mp hdone
      obtain ⟨t', u', ht', hu', hlaw'⟩ := hrest done e' hbehind
      refine ⟨t', u', ?_, hu', by rwa [List.append_cons]⟩
      rw [List.foldlM_cons, ht]
      exact ht'

/-- A law that a step obeys exactly when it meets the guard is obeyed along an execution exactly
when the guard is met along it. `I` is what the state keeps of the events before. -/
theorem lawful_iff_along {law : List E → S → E → S → Prop} {I : List E → S → Prop}
    (hlaw : ∀ l s e, I l s → ((∃ t, step s e = some t ∧ law l s e t) ↔ guard s e))
    (hstep : ∀ l s e t, I l s → step s e = some t → law l s e t → I (l ++ [e]) t)
    {before : List E} {s : S} (hs : I before s) (es : List E) :
    Lawful step law before s es ↔ Along step guard s es := by
  induction es generalizing before s with
  | nil =>
    refine iff_of_true (fun done e hdone => ?_) trivial
    exact absurd (List.append_eq_nil_iff.mp (List.prefix_nil.mp hdone)).2 (List.cons_ne_nil _ _)
  | cons e es ih =>
    rw [lawful_cons, along_cons, ← hlaw before s e hs]
    constructor
    · rintro ⟨t, ht, hobeys, hrest⟩
      refine ⟨⟨t, ht, hobeys⟩, fun u hu => ?_⟩
      obtain rfl := Option.some.inj (ht.symm.trans hu)
      exact (ih (hstep before s e t hs ht hobeys)).mp hrest
    · rintro ⟨⟨t, ht, hobeys⟩, hrest⟩
      exact ⟨t, ht, hobeys, (ih (hstep before s e t hs ht hobeys)).mpr (hrest t ht)⟩

/-- What the steps of an execution add up to, each one weighed in the state it meets. -/
def total (step : S → E → Option S) (w : S → E → ℕ) : S → List E → ℕ
  | _, [] => 0
  | s, e :: es => w s e + (step s e).elim 0 fun t => total step w t es

@[simp] theorem total_nil (w : S → E → ℕ) (s : S) : total step w s [] = 0 := rfl

theorem total_cons (w : S → E → ℕ) {s t : S} {e : E} (ht : step s e = some t) (es : List E) :
    total step w s (e :: es) = w s e + total step w t es := by
  rw [total, ht, Option.elim_some]

/-- If every step changes a quantity by what comes in less what goes out, so does an execution. -/
theorem Along.balance {I : S → Prop} {φ : S → ℕ} {inn out : S → E → ℕ}
    (hstep : ∀ s e t, I s → guard s e → step s e = some t →
      I t ∧ φ t + out s e = φ s + inn s e)
    {s t : S} {es : List E} (hes : Along step guard s es) (h : es.foldlM step s = some t)
    (hs : I s) : φ t + total step out s es = φ s + total step inn s es := by
  induction es generalizing s with
  | nil =>
    obtain rfl : s = t := by simpa using h
    rfl
  | cons e es ih =>
    obtain ⟨u, hu, hrest⟩ := foldlM_cons_eq_some h
    obtain ⟨hi, hone⟩ := hstep s e u hs hes.1 hu
    have hmany := ih (hes.2 u hu) hrest hi
    rw [total_cons out hu, total_cons inn hu]
    omega

/-- `t` is the end of an execution from `s` whose steps meet `guard`. -/
def Reachable (step : S → E → Option S) (guard : S → E → Prop) (s t : S) : Prop :=
  ∃ es, Along step guard s es ∧ es.foldlM step s = some t

namespace Reachable

theorem refl (s : S) : Reachable step guard s s := ⟨[], trivial, rfl⟩

theorem tail {s t u : S} {e : E} (h : Reachable step guard s t) (hg : guard t e)
    (ht : step t e = some u) : Reachable step guard s u := by
  obtain ⟨es, hes, hrun⟩ := h
  refine ⟨es ++ [e], along_append.2 ⟨hes, fun v hv => ?_⟩, ?_⟩
  · obtain rfl : t = v := by simpa [hrun] using hv
    exact ⟨hg, fun _ _ => trivial⟩
  · simp [List.foldlM_append, hrun, ht]

theorem trans {s t u : S} (h : Reachable step guard s t) (h' : Reachable step guard t u) :
    Reachable step guard s u := by
  obtain ⟨es, hes, hrun⟩ := h
  obtain ⟨fs, hfs, hrun'⟩ := h'
  refine ⟨es ++ fs, along_append.2 ⟨hes, fun v hv => ?_⟩, ?_⟩
  · obtain rfl : t = v := by simpa [hrun] using hv
    exact hfs
  · exact foldlM_append_of hrun hrun'

/-- What holds at the start and is kept by guarded steps holds in every reachable state. -/
theorem induction {I : S → Prop}
    (hstep : ∀ s e t, I s → guard s e → step s e = some t → I t)
    {s t : S} (h : Reachable step guard s t) (hs : I s) : I t :=
  h.elim fun _ ⟨hes, hrun⟩ => hes.preserves hstep hrun hs

/-- A goal is reached when every state of the invariant that misses it has a guarded step that
keeps the invariant and decreases a measure. -/
theorem exists_of_measure {I P : S → Prop} (μ : S → ℕ)
    (hstep : ∀ s, I s → ¬P s → ∃ e t, guard s e ∧ step s e = some t ∧ I t ∧ μ t < μ s)
    {s : S} (hs : I s) : ∃ t, Reachable step guard s t ∧ P t := by
  induction hn : μ s using Nat.strongRecOn generalizing s with
  | ind n ih =>
    by_cases hP : P s
    · exact ⟨s, .refl s, hP⟩
    · obtain ⟨e, t, hg, ht, hi, hlt⟩ := hstep s hs hP
      obtain ⟨u, hu, hPu⟩ := ih (μ t) (hn ▸ hlt) hi rfl
      exact ⟨u, ((refl s).tail hg ht).trans hu, hPu⟩

end Reachable

end Transition
