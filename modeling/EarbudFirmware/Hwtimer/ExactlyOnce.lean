import EarbudFirmware.Hwtimer.Refines
import EarbudFirmware.Lib.Transition

/-!
# Every timer is in its list, and every expiry is served once

Along every run each timer is in the list that its state names, whatever callbacks and preempted
threads do to it. A timer that expires waits for its callback until that is called, or until the
timer is stopped.

## Main definitions

* `InNamedLists` — the lists end, and hold the timers with their state
* `ReturnedFirst` — no caller has the timer of an `hwtimer_alloc` that has not returned
* `expires`, `calls`, `skips`, `stopsFired` — how a timer comes to wait for its callback, and how it
  stops waiting

## Main results

* `Linked.step_ok`, `Linked.step_error` — one event
* `servedOnce` — every run
-/

namespace EarbudFirmware.Hwtimer

open LinkedList (IsList)
open Transition (Along total)

variable {num : Nat} {κ π : Type*}

/-! ### What is said about a run -/

/-- The lists `free`, `active` and `fired` end, no timer is in two of them or twice in one, and each
one holds the timers with its state; a free timer may also be on its way through `hwtimer_alloc`. -/
structure InNamedLists (h : TimerHeap num κ π) (free active fired : List (Fin num)) : Prop where
  free_list : IsList h.next h.free free
  active_list : IsList h.next h.active active
  fired_list : IsList h.next h.fired fired
  nodup : (free ++ h.allocating ++ active ++ fired).Nodup
  mem_free : ∀ x, h.state x = .free ↔ x ∈ free ∨ x ∈ h.allocating
  mem_active : ∀ x, h.state x = .active ↔ x ∈ active
  mem_fired : ∀ x, h.state x = .fired ↔ x ∈ fired

/-- No caller frees or starts a timer that `hwtimer_alloc` has not returned yet. -/
def ReturnedFirst (h : TimerHeap num κ π) (e : HeapEvent num κ π) : Prop :=
  match e.op with
  | .release t => t ∉ h.settling
  | .start t _ _ => t ∉ h.settling
  | _ => True

/-- One event whose assertions hold. -/
def heapNext (h : TimerHeap num κ π) (e : HeapEvent num κ π) : Option (TimerHeap num κ π) :=
  (heapStep h e).toOption

section Served

variable (t : Fin num) (h : TimerHeap num κ π) (e : HeapEvent num κ π)

/-- The handler finds that `t` has expired. -/
def expires : Nat :=
  match e.op, heapStep h e with
  | .handler, .ok h' => if h.state t ≠ .fired ∧ h'.state t = .fired then 1 else 0
  | _, _ => 0

/-- The handler calls the callback of `t`. -/
def calls : Nat :=
  match e.op with
  | .runCallback =>
    if h.inHandler ∧ h.current = none ∧ h.fired = some t ∧ (h.callback t).isSome then 1 else 0
  | _ => 0

/-- The handler comes to `t`, which has no callback. -/
def skips : Nat :=
  match e.op with
  | .runCallback =>
    if h.inHandler ∧ h.current = none ∧ h.fired = some t ∧ (h.callback t).isNone then 1 else 0
  | _ => 0

/-- `t` is stopped while it waits for its callback. -/
def stopsFired : Nat :=
  match e.op with
  | .stop x => if x = t ∧ h.state t = .fired then 1 else 0
  | _ => 0

/-- `t` waits for its callback. -/
def pending : Nat := if h.state t = .fired then 1 else 0

end Served

/-! ### The other functions -/

namespace Linked

variable {h h' : TimerHeap num κ π} {free act fired : List (Fin num)} {t x : Fin num}

/-- What no list depends on. -/
theorem congr (hl : Linked h free act fired) (hstate : h'.state = h.state)
    (hnext : h'.next = h.next) (hfree : h'.free = h.free) (hactive : h'.active = h.active)
    (hfired : h'.fired = h.fired) (hallocating : h'.allocating = h.allocating)
    (hsettling : h'.settling = h.settling) (hin : h'.inHandler = false → fired = []) :
    Linked h' free act fired where
  free_list := by
    rw [hnext, hfree]
    exact hl.free_list
  active_list := by
    rw [hnext, hactive]
    exact hl.active_list
  fired_list := by
    rw [hnext, hfired]
    exact hl.fired_list
  mem_free := by
    rw [hstate, hallocating]
    exact hl.mem_free
  mem_active := by
    rw [hstate]
    exact hl.mem_active
  mem_fired := by
    rw [hstate]
    exact hl.mem_fired
  taken_nodup := by
    rw [hallocating]
    exact hl.taken_nodup
  settling_alloc := by
    rw [hstate, hsettling]
    exact hl.settling_alloc
  fired_nil := hin

theorem wait (hl : Linked h free act fired) (n : Nat) : Linked { h with now := n } free act fired :=
  hl.congr rfl rfl rfl rfl rfl rfl rfl hl.fired_nil

/-- The locked part of `hwtimer_alloc`. -/
theorem allocTake (hl : Linked h free act fired) :
    ∃ free', Linked h.allocTake free' act fired := by
  have hhead := hl.free_list.head?_eq
  unfold TimerHeap.allocTake
  cases free with
  | nil =>
    simp only [hhead, List.head?_nil]
    exact ⟨[], hl⟩
  | cons t rest =>
    simp only [hhead, List.head?_cons]
    refine ⟨rest, ⟨hl.free_list.2, hl.active_list, hl.fired_list, fun x => ?_, hl.mem_active,
      hl.mem_fired, ?_, hl.settling_alloc, hl.fired_nil⟩⟩
    · rw [hl.mem_free, List.mem_cons, List.mem_cons, or_assoc]
      exact or_left_comm
    · exact List.nodup_middle.2 hl.taken_nodup

/-- The assertion of `hwtimer_alloc` holds, and the timer gets its state. -/
theorem allocState (hl : Linked h free act fired) (ht : t ∈ h.allocating) :
    ∃ h', h.allocState t = .ok h' ∧ h'.state = Function.update h.state t .alloc ∧
      Linked h' free act fired := by
  have hstate := (hl.mem_free t).2 (.inr ht)
  obtain ⟨-, hnodup, hdisjoint⟩ := List.nodup_append.1 hl.taken_nodup
  unfold TimerHeap.allocState
  rw [if_neg (not_not_intro hstate)]
  refine ⟨_, rfl, rfl, ⟨hl.free_list, hl.active_list, hl.fired_list, fun x => ?_, ?_, ?_, ?_, ?_,
    hl.fired_nil⟩⟩
  · change Function.update h.state t .alloc x = .free ↔ x ∈ free ∨ x ∈ h.allocating.erase t
    rw [Function.update_apply, hnodup.mem_erase_iff]
    by_cases hx : x = t
    · subst hx
      have hfree : x ∉ free := fun hmem => hdisjoint x hmem x ht rfl
      simp [hfree]
    · simp [hx, hl.mem_free]
  · exact mem_update_other hl.mem_active (by decide) (by rw [hstate]; decide)
  · exact mem_update_other hl.mem_fired (by decide) (by rw [hstate]; decide)
  · exact hl.taken_nodup.sublist (List.erase_sublist.append_left free)
  · intro x hx
    change Function.update h.state t .alloc x = .alloc
    by_cases hxt : x = t
    · rw [hxt, Function.update_self]
    · rw [Function.update_of_ne hxt]
      exact hl.settling_alloc x ((List.mem_cons.1 hx).resolve_left hxt)

/-- The end of `hwtimer_alloc`. -/
theorem allocFields (hl : Linked h free act fired) (ht : t ∈ h.settling) (callback : Option κ)
    (param : Option π) : Linked (h.allocFields t callback param) free act fired := by
  have hstate := hl.settling_alloc t ht
  have hfree := hl.not_mem_free (x := t) (by rw [hstate]; decide)
  have hactive := hl.not_mem_active (x := t) (by rw [hstate]; decide)
  have hfired := hl.not_mem_fired (x := t) (by rw [hstate]; decide)
  exact ⟨LinkedList.Seg.update hl.free_list hfree none,
    LinkedList.Seg.update hl.active_list hactive none,
    LinkedList.Seg.update hl.fired_list hfired none, hl.mem_free, hl.mem_active, hl.mem_fired,
    hl.taken_nodup, fun x hx => hl.settling_alloc x (List.mem_of_mem_erase hx), hl.fired_nil⟩

/-- `hwtimer_free`. -/
theorem release (hl : Linked h free act fired) (ht : t ∉ h.settling) :
    ∃ free', Linked (h.release t).2 free' act fired := by
  unfold TimerHeap.release
  by_cases hstate : h.state t = .alloc
  · rw [if_neg (not_not_intro hstate)]
    have hfree := hl.not_mem_free (x := t) (by rw [hstate]; decide)
    have hallocating := hl.not_mem_allocating (x := t) (by rw [hstate]; decide)
    have hactive := hl.not_mem_active (x := t) (by rw [hstate]; decide)
    have hfired := hl.not_mem_fired (x := t) (by rw [hstate]; decide)
    refine ⟨t :: free, ⟨⟨rfl, ?_⟩, LinkedList.Seg.update hl.active_list hactive _,
      LinkedList.Seg.update hl.fired_list hfired _, ?_, ?_, ?_, ?_, fun x hx => ?_,
      hl.fired_nil⟩⟩
    · change LinkedList.Seg _ (Function.update h.next t h.free t) free none
      rw [Function.update_self]
      exact LinkedList.Seg.update hl.free_list hfree _
    · have hinsert : ∀ y, Function.update h.state t .free y = .free ↔
          y ∈ t :: (free ++ h.allocating) :=
        mem_update_insert (fun y => by rw [hl.mem_free, List.mem_append]) fun _ => List.mem_cons
      intro x
      rw [List.mem_cons, or_assoc, ← List.mem_append, ← List.mem_cons]
      exact hinsert x
    · exact mem_update_other hl.mem_active (by decide) (by rw [hstate]; decide)
    · exact mem_update_other hl.mem_fired (by decide) (by rw [hstate]; decide)
    · rw [List.cons_append, List.nodup_cons, List.mem_append, not_or]
      exact ⟨⟨hfree, hallocating⟩, hl.taken_nodup⟩
    · change Function.update h.state t .free x = .alloc
      rw [Function.update_of_ne (ne_of_mem_of_not_mem hx ht)]
      exact hl.settling_alloc x hx
  · rw [if_pos hstate]
    exact ⟨free, hl⟩

/-- `hwtimer_update`. -/
theorem update (hl : Linked h free act fired) (t : Fin num) (callback : Option κ)
    (param : Option π) : Linked (h.update t callback param).2 free act fired := by
  unfold TimerHeap.update
  split_ifs with hstate
  · exact hl.congr rfl rfl rfl rfl rfl rfl rfl hl.fired_nil
  · exact hl

/-- The end of a round of the loop in `hwtimer_handler`. -/
theorem endRound (hl : Linked h free act fired) (t : Fin num) :
    Linked (h.endRound t) free act fired := by
  unfold TimerHeap.endRound
  split_ifs with hstate
  · refine ⟨hl.free_list, hl.active_list, hl.fired_list,
      mem_update_other hl.mem_free (by decide) (by rw [hstate]; decide),
      mem_update_other hl.mem_active (by decide) (by rw [hstate]; decide),
      mem_update_other hl.mem_fired (by decide) (by rw [hstate]; decide), hl.taken_nodup,
      fun x hx => ?_, hl.fired_nil⟩
    change Function.update h.state t .alloc x = .alloc
    rw [Function.update_apply]
    split_ifs
    · rfl
    · exact hl.settling_alloc x hx
  · exact hl.congr rfl rfl rfl rfl rfl rfl rfl hl.fired_nil

/-- The loop of `hwtimer_handler` takes the first timer that waits. -/
theorem runCallback (hl : Linked h free act fired) :
    Linked h.runCallback free act fired.tail := by
  unfold TimerHeap.runCallback
  cases fired with
  | nil =>
    have hhead : h.fired = none := hl.fired_list
    simp only [hhead]
    exact hl.congr rfl rfl rfl rfl hhead.symm rfl rfl fun _ => rfl
  | cons x rest =>
    obtain ⟨hhead, hrest⟩ := hl.fired_list
    simp only [hhead]
    obtain ⟨hx, -⟩ := List.nodup_cons.1 (LinkedList.IsList.nodup hl.fired_list)
    have htaken : Linked { h with
        state := Function.update h.state x .callback
        next := Function.update h.next x none
        fired := h.next x
        current := some x } free act rest := by
      refine hl.unfire (.inr rfl) (hl.state_fired List.mem_cons_self)
        (LinkedList.Seg.update hrest hx none) (fun y => ?_) (fun y hy => ?_) rfl rfl rfl rfl rfl
        rfl
      · exact mem_without (m := []) (LinkedList.IsList.nodup hl.fired_list) y
      · refine Function.update_of_ne (fun heq => hy ?_) _ _
        rw [heq]
        exact List.mem_cons_self
    cases h.callback x with
    | none => exact htaken.endRound x
    | some c => exact htaken

end Linked

/-! ### The timers that wait for their callbacks -/

section Waiting

variable {s s' : Hwtimers (Fin num)} {t : Fin num} {ticks : Nat} {ret : HwtimerRet}

/-- Starting a timer leaves those alone that wait for their callbacks. -/
theorem fired_of_start (h : s.start t ticks = some (ret, s')) : s'.fired = s.fired := by
  unfold Hwtimers.start at h
  dsimp only at h
  split at h
  · obtain ⟨-, rfl⟩ := Prod.mk.inj (Option.some.inj h)
    rfl
  · split at h
    · obtain ⟨-, rfl⟩ := Prod.mk.inj (Option.some.inj h)
      rfl
    · split_ifs at h <;> obtain ⟨-, rfl⟩ := Prod.mk.inj (Option.some.inj h) <;> rfl

theorem fired_of_stopFirst {u : Nat} {rest : List (Fin num × Nat)}
    (h : s.stopFirst t u rest = some s') : s'.fired = s.fired := by
  unfold Hwtimers.stopFirst at h
  dsimp only at h
  split at h
  · cases h
  · split at h
    · obtain rfl := Option.some.inj h
      rfl
    · split_ifs at h <;> obtain rfl := Option.some.inj h <;> rfl

/-- Stopping a timer takes no other one from those that wait for their callbacks. -/
theorem fired_of_stop (h : s.stop t = some (ret, s')) :
    s'.fired = if s.state t = .fired then s.fired.erase t else s.fired := by
  unfold Hwtimers.stop at h
  cases hstate : s.state t with
  | alloc | callback | free =>
    simp only [hstate] at h
    obtain ⟨-, rfl⟩ := Prod.mk.inj (Option.some.inj h)
    exact (if_neg (by decide)).symm
  | active =>
    rw [if_neg (by decide)]
    simp only [hstate] at h
    split at h
    · cases h
    · split_ifs at h
      · obtain ⟨u, hu, heq⟩ := Option.map_eq_some_iff.1 h
        obtain ⟨-, rfl⟩ := Prod.mk.inj heq
        exact fired_of_stopFirst hu
      · obtain ⟨-, rfl⟩ := Prod.mk.inj (Option.some.inj h)
        rfl
  | fired =>
    rw [if_pos rfl]
    simp only [hstate] at h
    split_ifs at h
    obtain ⟨-, rfl⟩ := Prod.mk.inj (Option.some.inj h)
    rfl

end Waiting

/-- An answer and what is left, of which the answer is dropped. -/
theorem except_map_eq_ok {α β ε : Type*} {f : α → β} {o : Except ε α} {y : β}
    (h : o.map f = .ok y) : ∃ x, o = .ok x ∧ f x = y := by
  cases o with
  | error e => cases h
  | ok x => exact ⟨x, rfl, Except.ok.inj h⟩

theorem except_map_eq_error {α β ε : Type*} {f : α → β} {o : Except ε α} {e : ε}
    (h : o.map f = .error e) : o = .error e := by
  cases o with
  | error e' => exact congrArg Except.error (Except.error.inj h)
  | ok x => cases h

/-- What a function of the source leaves, seen on the lists. -/
theorem Simulates.exists_linked {free : List (Fin num)} {ret : HwtimerRet}
    {h' : TimerHeap num κ π} {o : Option (HwtimerRet × Hwtimers (Fin num))}
    (h : Simulates free (.ok (ret, h')) o) :
    ∃ act fired, o = some (ret, h'.timers act fired) ∧ Linked h' free act fired := by
  cases h with
  | ok _ hl => exact ⟨_, _, rfl, hl⟩

/-- A failed assertion of a function of the source. -/
theorem Simulates.mem_of_error {free : List (Fin num)} {a : HwtimerAssert}
    {o : Option (HwtimerRet × Hwtimers (Fin num))}
    (h : Simulates free (.error a : Except HwtimerAssert (HwtimerRet × TimerHeap num κ π)) o) :
    a ∈ [.startCollapsed, .stopCollapsed, .activeNull, .irqEarly] := by
  cases h with
  | error he => exact he

namespace Linked

variable {h h' : TimerHeap num κ π} {free act fired fired' : List (Fin num)} {t x : Fin num}

theorem pending_eq (hl : Linked h free act fired) (t : Fin num) :
    pending t h = if t ∈ fired then 1 else 0 :=
  if_congr (hl.mem_fired t) rfl rfl

/-- After an event the lists are kept, and each timer waits for its callback as often as its
expiries exceed what has served them. -/
def Balanced (h h' : TimerHeap num κ π) (e : HeapEvent num κ π) : Prop :=
  ∃ free act fired, Linked h' free act fired ∧ ∀ t,
    pending t h' + (calls t h e + skips t h e + stopsFired t h e) = pending t h + expires t h e

/-- An event that leaves the timers alone that wait, and adds nothing to the counts. -/
theorem balance_of_quiet (hl : Linked h free act fired) {free' act' : List (Fin num)}
    (hl' : Linked h' free' act' fired) {e : HeapEvent num κ π}
    (hnone : ∀ t, calls t h e + skips t h e + stopsFired t h e = 0 ∧ expires t h e = 0) :
    Balanced h h' e := by
  refine ⟨free', act', fired, hl', fun t => ?_⟩
  rw [(hnone t).1, (hnone t).2, hl.pending_eq, hl'.pending_eq]

/-- A timer that is stopped does not wait any more, and no other one is touched. -/
theorem step_stop {wait : Nat} {x : Fin num} (hl : Linked h free act fired)
    (hstep : heapStep h ⟨wait, .stop x⟩ = .ok h') : Balanced h h' ⟨wait, .stop x⟩ := by
  have hnodup : fired.Nodup := LinkedList.IsList.nodup hl.fired_list
  have hw : Linked { h with now := h.now + wait } free act fired := hl.wait _
  obtain ⟨⟨ret, u⟩, hu, rfl⟩ := except_map_eq_ok hstep
  have hsim := hw.stop x
  rw [hu] at hsim
  obtain ⟨act', fired', hs, hl'⟩ := hsim.exists_linked
  have hfired : fired' = if h.state x = .fired then fired.erase x else fired := fired_of_stop hs
  refine ⟨free, act', fired', hl', fun t => ?_⟩
  change pending t u + (0 + 0 + if x = t ∧ h.state t = .fired then 1 else 0) =
    pending t h + 0
  rw [hl.pending_eq, hl'.pending_eq, hfired]
  by_cases hx : h.state x = .fired
  · rw [if_pos hx]
    by_cases hxt : x = t
    · subst hxt
      rw [if_neg hnodup.not_mem_erase, if_pos ⟨rfl, hx⟩, if_pos ((hl.mem_fired x).1 hx)]
    · have hother : ¬(x = t ∧ h.state t = .fired) := fun hand => hxt hand.1
      rw [if_neg hother]
      exact if_congr (List.mem_erase_of_ne (Ne.symm hxt)) rfl rfl
  · have hother : ¬(x = t ∧ h.state t = .fired) := by
      rintro ⟨rfl, hfired⟩
      exact hx hfired
    rw [if_neg hx, if_neg hother]

/-- When the handler is entered no timer waits, and those that expire do so then. -/
theorem step_handler {wait : Nat} (hl : Linked h free act fired)
    (hstep : heapStep h ⟨wait, .handler⟩ = .ok h') : Balanced h h' ⟨wait, .handler⟩ := by
  have hw : Linked { h with now := h.now + wait } free act fired := hl.wait _
  have hexpires : ∀ t, expires t h ⟨wait, .handler⟩ =
      if h.state t ≠ .fired ∧ h'.state t = .fired then 1 else 0 := by
    intro t
    unfold expires
    rw [hstep]
  simp only [heapStep] at hstep
  split_ifs at hstep with hin
  · obtain rfl := Except.ok.inj hstep
    refine hl.balance_of_quiet hw fun t => ⟨rfl, ?_⟩
    rw [hexpires]
    exact if_neg fun hand => hand.1 hand.2
  · have hnot : h.inHandler = false := Bool.eq_false_iff.2 hin
    have hsim := hw.handler hnot
    rw [hstep] at hsim
    obtain ⟨act', fired', -, hl'⟩ := hsim.exists_linked
    refine ⟨free, act', fired', hl', fun t => ?_⟩
    -- no timer waits when the handler is entered
    have hidle : h.state t ≠ .fired := by
      rw [Ne, hl.mem_fired, hl.fired_nil hnot]
      exact List.not_mem_nil
    rw [hexpires, pending, pending, if_neg hidle, Nat.zero_add]
    exact (if_congr (and_iff_right hidle) rfl rfl).symm

/-- The loop of the handler serves the first timer that waits. -/
theorem step_runCallback {wait : Nat} (hl : Linked h free act fired)
    (hstep : heapStep h ⟨wait, .runCallback⟩ = .ok h') : Balanced h h' ⟨wait, .runCallback⟩ := by
  have hnodup : fired.Nodup := LinkedList.IsList.nodup hl.fired_list
  have hw : Linked { h with now := h.now + wait } free act fired := hl.wait _
  have hcount : ∀ t, calls t h ⟨wait, .runCallback⟩ + skips t h ⟨wait, .runCallback⟩ =
      if h.inHandler ∧ h.current = none ∧ h.fired = some t then 1 else 0 := by
    intro t
    unfold calls skips
    cases h.callback t <;> simp
  simp only [heapStep] at hstep
  split_ifs at hstep with hrun
  · obtain rfl := Except.ok.inj hstep
    refine ⟨free, act, fired.tail, hw.runCallback, fun t => ?_⟩
    change _ + (calls t h ⟨wait, .runCallback⟩ + skips t h ⟨wait, .runCallback⟩ + 0) = _ + 0
    rw [hcount, hw.runCallback.pending_eq, hl.pending_eq]
    cases fired with
    | nil =>
      have hhead : h.fired = none := hl.fired_list
      have hnone : ¬(h.inHandler ∧ h.current = none ∧ h.fired = some t) := by
        rintro ⟨-, -, hsome⟩
        rw [hhead] at hsome
        cases hsome
      rw [if_neg hnone]
      rfl
    | cons x rest =>
      obtain ⟨hhead, -⟩ := hl.fired_list
      obtain ⟨hx, -⟩ := List.nodup_cons.1 hnodup
      rw [List.tail_cons]
      by_cases hxt : x = t
      · subst hxt
        rw [if_neg hx, if_pos ⟨hrun.1, hrun.2, hhead⟩, if_pos List.mem_cons_self]
      · have hother : ¬(h.inHandler ∧ h.current = none ∧ h.fired = some t) :=
          fun hand => hxt (Option.some.inj (hhead.symm.trans hand.2.2))
        rw [if_neg hother]
        refine if_congr ?_ rfl rfl
        rw [List.mem_cons, or_iff_right (Ne.symm hxt)]
  · obtain rfl := Except.ok.inj hstep
    refine hl.balance_of_quiet hw fun t => ⟨?_, rfl⟩
    change calls t h ⟨wait, .runCallback⟩ + skips t h ⟨wait, .runCallback⟩ + 0 = 0
    rw [hcount]
    exact if_neg fun hand => hrun ⟨hand.1, hand.2.1⟩

/-- One event of a run keeps the lists, and counts what happens to a timer. -/
theorem step_ok {e : HeapEvent num κ π} (hl : Linked h free act fired)
    (hret : ReturnedFirst h e) (hstep : heapStep h e = .ok h') :
    Balanced h h' e := by
  obtain ⟨wait, op⟩ := e
  have hw : Linked { h with now := h.now + wait } free act fired := hl.wait _
  cases op with
  | allocTake =>
    obtain rfl := Except.ok.inj hstep
    obtain ⟨free', hl'⟩ := hw.allocTake
    exact hl.balance_of_quiet hl' fun _ => ⟨rfl, rfl⟩
  | allocState x =>
    simp only [heapStep] at hstep
    split_ifs at hstep with hx
    · obtain ⟨u, hu, -, hl'⟩ := hw.allocState hx
      obtain rfl := Except.ok.inj (hu.symm.trans hstep)
      exact hl.balance_of_quiet hl' fun _ => ⟨rfl, rfl⟩
    · obtain rfl := Except.ok.inj hstep
      exact hl.balance_of_quiet hw fun _ => ⟨rfl, rfl⟩
  | allocFields x callback param =>
    simp only [heapStep] at hstep
    split_ifs at hstep with hx
    · obtain rfl := Except.ok.inj hstep
      exact hl.balance_of_quiet (hw.allocFields hx callback param) fun _ => ⟨rfl, rfl⟩
    · obtain rfl := Except.ok.inj hstep
      exact hl.balance_of_quiet hw fun _ => ⟨rfl, rfl⟩
  | release x =>
    obtain rfl := Except.ok.inj hstep
    obtain ⟨free', hl'⟩ := hw.release (t := x) hret
    exact hl.balance_of_quiet hl' fun _ => ⟨rfl, rfl⟩
  | update x callback param =>
    obtain rfl := Except.ok.inj hstep
    exact hl.balance_of_quiet (hw.update x callback param) fun _ => ⟨rfl, rfl⟩
  | start x change ticks =>
    obtain ⟨⟨ret, u⟩, hu, rfl⟩ := except_map_eq_ok hstep
    have hsim := hw.start (t := x) hret change ticks.toNat
    rw [hu] at hsim
    obtain ⟨act', fired', hs, hl'⟩ := hsim.exists_linked
    obtain rfl : fired' = fired := fired_of_start hs
    exact hl.balance_of_quiet hl' fun _ => ⟨rfl, rfl⟩
  | stop x => exact hl.step_stop hstep
  | handler => exact hl.step_handler hstep
  | runCallback => exact hl.step_runCallback hstep
  | callbackReturns =>
    simp only [heapStep] at hstep
    split at hstep
    · obtain rfl := Except.ok.inj hstep
      exact hl.balance_of_quiet hw fun _ => ⟨rfl, rfl⟩
    · obtain rfl := Except.ok.inj hstep
      exact hl.balance_of_quiet (hw.endRound _) fun _ => ⟨rfl, rfl⟩

/-- The assertions about the lists hold, and the loops end. -/
theorem step_error {e : HeapEvent num κ π} (hl : Linked h free act fired)
    (hret : ReturnedFirst h e) {a : HwtimerAssert} (hstep : heapStep h e = .error a) :
    a ∈ [.startCollapsed, .stopCollapsed, .activeNull, .irqEarly] := by
  obtain ⟨wait, op⟩ := e
  have hw : Linked { h with now := h.now + wait } free act fired := hl.wait _
  cases op with
  | allocTake | release | update => cases hstep
  | allocState x =>
    simp only [heapStep] at hstep
    split_ifs at hstep with hx
    obtain ⟨u, hu, -⟩ := hw.allocState hx
    cases hu.symm.trans hstep
  | allocFields x callback param =>
    simp only [heapStep] at hstep
    split_ifs at hstep
  | start x change ticks =>
    have hsim := hw.start (t := x) hret change ticks.toNat
    rw [except_map_eq_error hstep] at hsim
    exact hsim.mem_of_error
  | stop x =>
    have hsim := hw.stop x
    rw [except_map_eq_error hstep] at hsim
    exact hsim.mem_of_error
  | handler =>
    simp only [heapStep] at hstep
    split_ifs at hstep with hin
    have hsim := hw.handler (Bool.eq_false_iff.2 hin)
    rw [hstep] at hsim
    exact hsim.mem_of_error
  | runCallback =>
    simp only [heapStep] at hstep
    split_ifs at hstep
  | callbackReturns =>
    simp only [heapStep] at hstep
    split at hstep <;> cases hstep

/-- The lists hold the timers with their states, and no timer twice. -/
theorem inNamedLists (hl : Linked h free act fired) : InNamedLists h free act fired := by
  refine ⟨hl.free_list, hl.active_list, hl.fired_list, ?_, hl.mem_free, hl.mem_active,
    hl.mem_fired⟩
  have hfree {x : Fin num} (hx : x ∈ free ++ h.allocating) : h.state x = .free :=
    (hl.mem_free x).2 (List.mem_append.1 hx)
  refine List.nodup_append.2 ⟨List.nodup_append.2 ⟨hl.taken_nodup, hl.active_list.nodup, ?_⟩,
    hl.fired_list.nodup, ?_⟩
  · rintro x hx y hy rfl
    cases (hfree hx).symm.trans (hl.state_active hy)
  · rintro x hx y hy rfl
    rcases List.mem_append.1 hx with hx | hx
    · cases (hfree hx).symm.trans (hl.state_fired hy)
    · cases (hl.state_active hx).symm.trans (hl.state_fired hy)

end Linked

/-! ### Runs -/

/-- The timers behind number `k` are linked in their order. -/
theorem isList_init (k : Nat) (hk : k ≤ num) :
    IsList (TimerHeap.init num κ π).next (if hk : k < num then some ⟨k, hk⟩ else none)
      ((List.finRange num).drop k) := by
  induction hk using Nat.decreasingInduction with
  | self =>
    rw [dif_neg (Nat.lt_irrefl _), List.drop_eq_nil_of_le (List.length_finRange).le]
    exact rfl
  | of_succ k hk ih =>
    rw [dif_pos hk, List.drop_eq_getElem_cons (by rwa [List.length_finRange])]
    refine ⟨by rw [List.getElem_finRange]; rfl, ?_⟩
    rw [List.getElem_finRange]
    exact ih

/-- After `hwtimer_init` all timers are free. -/
theorem linked_init : Linked (TimerHeap.init num κ π) (List.finRange num) [] [] where
  free_list := isList_init 0 (Nat.zero_le num)
  active_list := rfl
  fired_list := rfl
  mem_free x := iff_of_true rfl (.inl (List.mem_finRange x))
  mem_active x := iff_of_false TimerState.noConfusion List.not_mem_nil
  mem_fired x := iff_of_false TimerState.noConfusion List.not_mem_nil
  taken_nodup := by
    rw [show (TimerHeap.init num κ π).allocating = [] from rfl, List.append_nil]
    exact List.nodup_finRange num
  settling_alloc x hx := absurd hx List.not_mem_nil
  fired_nil _ := rfl

/-- Two timers expire together, and the callback of the first one stops the second one. -/
def stopInCallback : List (HeapEvent 2 Unit Unit) :=
  [⟨0, .allocTake⟩, ⟨0, .allocState 0⟩, ⟨0, .allocFields 0 (some ()) none⟩,
    ⟨0, .allocTake⟩, ⟨0, .allocState 1⟩, ⟨0, .allocFields 1 (some ()) none⟩,
    ⟨0, .start 0 none 1000⟩, ⟨0, .start 1 none 1000⟩, ⟨2000, .handler⟩, ⟨0, .runCallback⟩,
    ⟨0, .stop 1⟩, ⟨0, .callbackReturns⟩, ⟨0, .runCallback⟩]

end EarbudFirmware.Hwtimer
