import EarbudFirmware.Hwtimer.Linked
import EarbudFirmware.Hwtimer.Outcomes

/-!
# The pointers do what the lists do

With the lists in place of the pointers, `hwtimer_start`, `hwtimer_stop` and `hwtimer_handler` are
the operations of `Hwtimers`.

## Main definitions

* `TimerHeap.timers` — the timers with lists in place of the pointers
* `Simulates` — a function of the source and the operation on lists end alike

## Main results

* `Linked.start`, `Linked.stop`, `Linked.handler` — the functions do what `Hwtimers` says
-/

namespace EarbudFirmware.Hwtimer

open LinkedList (IsList)

variable {num : Nat} {κ π : Type*}

/-- The timers with lists in place of the pointers. -/
def TimerHeap.timers (h : TimerHeap num κ π) (act fired : List (Fin num)) : Hwtimers (Fin num) where
  state := h.state
  active := h.timed act
  fired := fired
  inHandler := h.inHandler
  current := h.current
  startTime := h.startTime
  load := h.load
  enabled := h.enabled
  starts := h.starts
  now := h.now

namespace TimerHeap

variable (h : TimerHeap num κ π) (act fired : List (Fin num))

@[simp] theorem timers_state : (h.timers act fired).state = h.state := rfl

@[simp] theorem timers_active : (h.timers act fired).active = h.timed act := rfl

@[simp] theorem timers_fired : (h.timers act fired).fired = fired := rfl

@[simp] theorem timers_enabled : (h.timers act fired).enabled = h.enabled := rfl

@[simp] theorem timers_rawValue : (h.timers act fired).rawValue = h.rawValue := rfl

@[simp] theorem timers_elapsedTime : (h.timers act fired).elapsedTime = h.elapsedTime := rfl

end TimerHeap

/-- Both end with the same answer and the same lists, or both in a failed assertion, which is none
of those about the lists. -/
inductive Simulates (free : List (Fin num)) :
    Except HwtimerAssert (HwtimerRet × TimerHeap num κ π) →
    Option (HwtimerRet × Hwtimers (Fin num)) → Prop
  | ok (ret : HwtimerRet) {h : TimerHeap num κ π} {act fired : List (Fin num)}
    (hl : Linked h free act fired) : Simulates free (.ok (ret, h)) (some (ret, h.timers act fired))
  | error {e : HwtimerAssert} (he : e ∈ [.startCollapsed, .stopCollapsed, .activeNull, .irqEarly]) :
    Simulates free (.error e) none

/-- The lists agree when the nodes have the right times; the rest is read off. -/
theorem Simulates.of_timed {h : TimerHeap num κ π} {free act fired : List (Fin num)}
    {l : List (Fin num × Nat)} {s : Hwtimers (Fin num)} (ret : HwtimerRet)
    (hl : Linked h free act fired) (hact : h.timed act = l)
    (hs : { h.timers act fired with active := l } = s) :
    Simulates free (.ok (ret, h)) (some (ret, s)) := by
  subst hact
  subst hs
  exact .ok ret hl

theorem TimerHeap.changed_eq (h : TimerHeap num κ π) (t : Fin num)
    (change : Option (Option κ × Option π)) :
    ∃ callback param, h.changed t change = { h with callback := callback, param := param } := by
  cases change with
  | none => exact ⟨_, _, rfl⟩
  | some c => exact ⟨_, _, rfl⟩

/-- The times of two nodes are set in front of the others. -/
theorem TimerHeap.timed_first {h h' : TimerHeap num κ π} {t a : Fin num} {rest : List (Fin num)}
    {j k : Nat} (hta : a ≠ t) (ha : a ∉ rest) (ht : t ∉ rest)
    (htime : h'.time = Function.update (Function.update h.time a k) t j) :
    h'.timed (t :: a :: rest) = (t, j) :: (a, k) :: h.timed rest := by
  have hrest : h'.timed rest = h.timed rest := timed_congr fun x hx => by
    rw [htime, Function.update_of_ne (ne_of_mem_of_not_mem hx ht),
      Function.update_of_ne (ne_of_mem_of_not_mem hx ha)]
  rw [timed_cons, timed_cons, hrest, htime, Function.update_self, Function.update_of_ne hta,
    Function.update_self]

/-- The first one of the nodes behind `m` gets another time. -/
theorem TimerHeap.timed_append_retimed {h h' : TimerHeap num κ π} {m l : List (Fin num)}
    {f : Nat → Nat} (hnodup : (m ++ l).Nodup)
    (htime : h'.time = match l.head? with
      | none => h.time
      | some y => Function.update h.time y (f (h.time y))) :
    h'.timed (m ++ l) = h.timed m ++ h.retimed f l := by
  obtain ⟨-, hl, hdisjoint⟩ := List.nodup_append.1 hnodup
  rw [timed_append]
  cases l with
  | nil => exact congrArg (· ++ []) (timed_congr fun x _ => congrFun htime x)
  | cons y l =>
    have htime' : ∀ x, x ≠ y → h'.time x = h.time x := fun x hx =>
      (congrFun htime x).trans (Function.update_of_ne hx _ _)
    have hself : h'.time y = f (h.time y) := (congrFun htime y).trans (Function.update_self _ _ _)
    obtain ⟨hyl, -⟩ := List.nodup_cons.1 hl
    have hfront : h'.timed m = h.timed m := timed_congr fun x hx =>
      htime' x (hdisjoint x hx y List.mem_cons_self)
    have hback : h'.timed (y :: l) = h.retimed f (y :: l) :=
      timed_eq_retimed hself fun x hx => htime' x (ne_of_mem_of_not_mem hx hyl)
    rw [hfront, hback]

/-- What `hwtimer_stop` takes out from between the others. -/
theorem TimerHeap.removeBehind_timed (h : TimerHeap num κ π) {t : Fin num} {m : List (Fin num)}
    (hm : t ∉ m) (l : List (Fin num)) :
    Hwtimers.removeBehind t (h.timed (m ++ t :: l)) =
      h.timed m ++ h.retimed (fun v => (v + h.time t) % 0x100000000) l := by
  induction m with
  | nil =>
    cases l with
    | nil => exact if_pos rfl
    | cons y l => exact if_pos rfl
  | cons x m ih =>
    have hx : x ≠ t := fun heq => hm (heq ▸ List.mem_cons_self)
    have hrest := ih fun hin => hm (List.mem_cons_of_mem x hin)
    exact (if_neg hx).trans (congrArg ((x, h.time x) :: ·) hrest)

/-- What the loop has found, linked: the new node is timed, and the node behind it shortened. -/
theorem TimerHeap.timed_linkBehind {h : TimerHeap num κ π} {t pre : Fin num}
    {m l : List (Fin num)} {k : Nat} (hnodup : (m ++ pre :: l).Nodup) (ht : t ∉ m ++ pre :: l) :
    (h.linkBehind t pre l.head? k).timed (m ++ pre :: t :: l) =
      h.timed (m ++ [pre]) ++ (t, k) :: h.retimed (· - k) l := by
  have hsplit : m ++ pre :: t :: l = (m ++ [pre]) ++ t :: l := by simp
  have hnodup' : ((m ++ [pre]) ++ l).Nodup := by simpa using hnodup
  have ht' : t ∉ (m ++ [pre]) ++ l := by simpa using ht
  obtain ⟨-, hlnodup, hdisjoint⟩ := List.nodup_append.1 hnodup'
  rw [hsplit, timed_append, timed_cons]
  cases l with
  | nil =>
    have hfront : (h.linkBehind t pre none k).timed (m ++ [pre]) = h.timed (m ++ [pre]) :=
      timed_congr fun x hx => Function.update_of_ne
        (ne_of_mem_of_not_mem (List.mem_append_left _ hx) ht') _ _
    have hself : (h.linkBehind t pre none k).time t = k := Function.update_self _ _ _
    rw [List.head?_nil, hfront, hself]
    rfl
  | cons y l =>
    have hne : ∀ x, x ∈ (m ++ [pre]) ++ y :: l → x ≠ t := fun x hx => ne_of_mem_of_not_mem hx ht'
    have htime : ∀ x, x ≠ t → x ≠ y → (h.linkBehind t pre (some y) k).time x = h.time x := by
      intro x hx hy
      exact (Function.update_of_ne hx _ _).trans (Function.update_of_ne hy _ _)
    obtain ⟨hyl, -⟩ := List.nodup_cons.1 hlnodup
    have hfront : (h.linkBehind t pre (some y) k).timed (m ++ [pre]) = h.timed (m ++ [pre]) :=
      timed_congr fun x hx => htime x (hne x (List.mem_append_left _ hx))
        (hdisjoint x hx y List.mem_cons_self)
    have hself : (h.linkBehind t pre (some y) k).time t = k := Function.update_self _ _ _
    have hy : (h.linkBehind t pre (some y) k).time y = h.time y - k :=
      (Function.update_of_ne (hne y (by simp)) _ _).trans (Function.update_self _ _ _)
    have hback : (h.linkBehind t pre (some y) k).timed (y :: l) = h.retimed (· - k) (y :: l) :=
      timed_eq_retimed hy fun x hx => htime x (hne x (by simp [hx])) (ne_of_mem_of_not_mem hx hyl)
    rw [List.head?_cons, hfront, hself, hback]

namespace Linked

variable {h : TimerHeap num κ π} {free act fired : List (Fin num)} {t x : Fin num}

/-- `hwtimer_start` and `hwtimer_update_then_start`. -/
theorem start (hl : Linked h free act fired) (hsettling : t ∉ h.settling)
    (change : Option (Option κ × Option π)) (ticks : Nat) :
    Simulates free (h.start t change ticks) ((h.timers act fired).start t ticks) := by
  unfold TimerHeap.start
  rw [clamp_eq]
  by_cases hstate : h.state t ≠ .alloc ∧ h.state t ≠ .callback
  · rw [start_eq_invalid hstate, if_pos hstate]
    exact .ok _ hl
  have hfree : h.state t ≠ .free := by
    intro heq
    rw [heq] at hstate
    exact hstate ⟨by decide, by decide⟩
  have hactive : h.state t ≠ .active := by
    intro heq
    rw [heq] at hstate
    exact hstate ⟨by decide, by decide⟩
  have hfired : h.state t ≠ .fired := by
    intro heq
    rw [heq] at hstate
    exact hstate ⟨by decide, by decide⟩
  have hnot := hl.not_mem_active hactive
  obtain ⟨cb, pr, hch⟩ := TimerHeap.changed_eq
    ({ h with state := Function.update h.state t .active } : TimerHeap num κ π) t change
  rw [if_neg hstate, hch]
  have hhead := hl.active_list.head?_eq
  cases act with
  | nil =>
    rw [start_eq_only hstate rfl]
    simp only [hhead, List.head?_nil]
    have hlinked : Linked (TimerHeap.halTimerStart { h with
        state := Function.update h.state t .active
        callback := cb
        param := pr
        next := Function.update h.next t none
        active := some t
        time := Function.update h.time t (max ticks loadDelta) } (max ticks loadDelta))
        free [t] fired :=
      hl.activate hfree hfired hsettling ⟨rfl, Function.update_self _ _ _⟩ (by simp)
        (fun x hx => Function.update_of_ne (by simpa using hx) _ _) rfl rfl rfl rfl rfl rfl
    refine .of_timed _ hlinked ?_ rfl
    exact congrArg (fun k => [(t, k)]) (Function.update_self _ _ _)
  | cons a rest =>
    simp only [hhead, List.head?_cons]
    by_cases hassert : h.time a < h.rawValue ∧ loadDelta < h.rawValue
    · rw [start_eq_collapsed hstate rfl hassert, if_pos hassert]
      exact .error (by decide)
    rw [if_neg hassert]
    have hta : a ≠ t := fun heq => hnot (heq ▸ List.mem_cons_self)
    by_cases hlt : max ticks loadDelta < h.rawValue
    · rw [start_eq_first hstate rfl hassert hlt, if_pos hlt]
      have hlinked : Linked (TimerHeap.halTimerStart (TimerHeap.halTimerStop { h with
          state := Function.update h.state t .active
          callback := cb
          param := pr
          next := Function.update h.next t (some a)
          active := some t
          time := Function.update (Function.update h.time a (h.rawValue - max ticks loadDelta)) t
            (max ticks loadDelta) }) (max ticks loadDelta))
          free (t :: a :: rest) fired := by
        refine hl.activate hfree hfired hsettling ⟨rfl, ?_⟩ (by simp)
          (fun x hx => Function.update_of_ne (ne_of_mem_of_not_mem List.mem_cons_self hx).symm _ _)
          rfl rfl rfl rfl rfl rfl
        have hlist : IsList (Function.update h.next t (some a)) h.active (a :: rest) :=
          LinkedList.Seg.update hl.active_list hnot (some a)
        exact ⟨Function.update_self _ _ _, hlist.2⟩
      refine .of_timed _ hlinked ?_ rfl
      have hnodup := (List.nodup_cons.1 hl.active_list.nodup).1
      exact TimerHeap.timed_first hta hnodup (fun hmem => hnot (List.mem_cons_of_mem a hmem)) rfl
    · rw [start_eq_behind hstate rfl hassert hlt, if_neg hlt]
      obtain ⟨-, hrest⟩ := hl.active_list
      obtain ⟨m, pre, l, k, hsplit, hwalk, hinsert⟩ := TimerHeap.walkBefore_spec t hrest
        (length_lt hrest) a (max ticks loadDelta - h.rawValue)
      rw [hwalk]
      have hlinked : Linked (TimerHeap.linkBehind { h with
          state := Function.update h.state t .active
          callback := cb
          param := pr
          active := some a } t pre l.head? k) free (m ++ pre :: t :: l) fired := by
        refine hl.activate hfree hfired hsettling ?_ ?_ ?_ rfl rfl rfl rfl rfl rfl
        · have hlist : IsList h.next (some a) (a :: rest) := ⟨rfl, hrest⟩
          exact LinkedList.IsList.insertBehind (hsplit ▸ hlist) (hsplit ▸ hnot)
        · intro x
          rw [hsplit]
          simp only [List.mem_append, List.mem_cons]
          tauto
        · intro x hx
          have hxt : x ≠ t := fun heq => hx (heq ▸ by simp)
          have hxp : x ≠ pre := fun heq => hx (heq ▸ by simp)
          exact (Function.update_of_ne hxt _ _).trans (Function.update_of_ne hxp _ _)
      refine .of_timed _ hlinked ?_ rfl
      have hnodup := hl.active_list.nodup
      rw [hsplit] at hnodup hnot
      exact (TimerHeap.timed_linkBehind hnodup hnot).trans hinsert.symm

/-! ### Stopping -/

theorem elapsed_eq (e u : Nat) : (if e > u then e - u else 0) = e - u := by
  split_ifs <;> omega

/-- The branch of `hwtimer_stop` for the first active timer. -/
theorem stopFirst {rest : List (Fin num)} (hl : Linked h free (t :: rest) fired) :
    Simulates free ((h.stopFirst t).map fun h' => (.ok, h'.stopped t))
      (((h.timers (t :: rest) fired).stopFirst t (h.time t) (h.timed rest)).map
        (HwtimerRet.ok, ·)) := by
  have hactive := hl.state_active (List.mem_cons_self (a := t))
  obtain ⟨-, hrest⟩ := hl.active_list
  obtain ⟨ht, hnodup⟩ := List.nodup_cons.1 hl.active_list.nodup
  have hmem : ∀ x, x ∈ rest ↔ x ≠ t ∧ x ∈ t :: rest := by
    intro x
    rw [List.mem_cons]
    constructor
    · exact fun hx => ⟨ne_of_mem_of_not_mem hx ht, .inr hx⟩
    · exact fun ⟨hne, hx⟩ => hx.resolve_left hne
  have hnext : ∀ x, x ∉ t :: rest → Function.update h.next t none x = h.next x := fun x hx =>
    Function.update_of_ne (ne_of_mem_of_not_mem List.mem_cons_self hx).symm _ _
  have hlist : IsList (Function.update h.next t none) (h.next t) rest :=
    LinkedList.Seg.update hrest ht none
  unfold TimerHeap.stopFirst
  by_cases hassert : h.time t < h.rawValue ∧ loadDelta < h.rawValue
  · rw [stopFirst_eq_collapsed hassert]
    simp only [if_pos hassert]
    exact .error (by decide)
  simp only [if_neg hassert]
  cases rest with
  | nil =>
    rw [TimerHeap.timed_nil, stopFirst_eq_only hassert]
    simp only [show h.next t = none from hrest]
    have hempty : IsList (Function.update h.next t none) none [] := rfl
    exact .of_timed _ (hl.deactivate hactive hempty hmem hnext rfl rfl rfl rfl rfl rfl) rfl rfl
  | cons n more =>
    have hn : h.next t = some n := hrest.1
    obtain ⟨hnmore, -⟩ := List.nodup_cons.1 hnodup
    rw [hn] at hrest hlist
    simp only [hn]
    rw [TimerHeap.timed_cons]
    by_cases hcur : h.rawValue = 0
    · simp only [if_pos hcur]
      by_cases hdue : (h.elapsedTime + loadDelta) % 0x100000000 < h.time t
      · rw [stopFirst_eq_undue (s := h.timers _ fired) hassert hcur hdue, if_pos hdue]
        exact .error (by decide)
      rw [stopFirst_eq_overdue (s := h.timers _ fired) hassert hcur hdue, if_neg hdue, elapsed_eq]
      obtain ⟨time', hwalk, -, hadvance⟩ := TimerHeap.walkOverdue_spec hrest (length_lt hrest)
        (h.elapsedTime - h.time t) h.time
      rw [hwalk]
      have hhead : (if h.time n ≤ (h.timers (t :: n :: more) fired).elapsedTime - h.time t then 0
          else h.time n - ((h.timers (t :: n :: more) fired).elapsedTime - h.time t)) =
          time' n := by
        obtain ⟨l, hl'⟩ := DeltaList.advance_cons n (h.time n) (h.timed more)
          (h.elapsedTime - h.time t)
        rw [List.map_cons, List.map_cons] at hadvance
        exact (Prod.mk.inj (List.cons.inj (hadvance.trans hl')).1).2.symm
      rw [hhead]
      exact .of_timed _ (hl.deactivate hactive hlist hmem hnext rfl rfl rfl rfl rfl rfl) hadvance
        rfl
    · simp only [if_neg hcur]
      rw [stopFirst_eq_early (s := h.timers _ fired) hassert hcur, Function.update_self]
      refine .of_timed _ (hl.deactivate hactive hlist hmem hnext rfl rfl rfl rfl rfl rfl) ?_ rfl
      exact TimerHeap.timed_append_retimed (m := [])
        (f := fun v => (v + h.rawValue) % 0x100000000) hnodup rfl

/-- The branch for an active timer behind the first one. -/
theorem stopBehind {a : Fin num} {rest : List (Fin num)} (hl : Linked h free (a :: rest) fired)
    (hne : a ≠ t) (ht : t ∈ rest) :
    Simulates free ((h.stopBehind a t).map fun h' => (.ok, h'.stopped t))
      ((h.timers (a :: rest) fired).stop t) := by
  have hactive := hl.state_active (List.mem_cons_of_mem a ht)
  obtain ⟨m, pre, l, rfl, hnot, hnext, hwalk, hlist, hkeep⟩ := exists_unlink hl.active_list hne ht
  have hnodup := hl.active_list.nodup
  unfold TimerHeap.stopBehind
  rw [hwalk, stop_eq_behind (s := h.timers _ fired) hactive rfl hne (by simp)]
  refine .of_timed _ (hl.deactivate hactive hlist (mem_without (m := a :: m) hnodup) hkeep
    rfl rfl rfl rfl rfl rfl) ?_ rfl
  refine Eq.trans ?_
    (congrArg ((a, h.time a) :: ·) (TimerHeap.removeBehind_timed h hnot l)).symm
  refine TimerHeap.timed_append_retimed (m := a :: m) hlist.nodup ?_
  rw [← hnext]
  rfl

/-- The branch for a timer that waits for its callback. -/
theorem stopFired (hl : Linked h free act fired) (ht : t ∈ fired) :
    Simulates free ((h.stopFired t).map fun h' => (.ok, h'.stopped t))
      ((h.timers act fired).stop t) := by
  have hstate := hl.state_fired ht
  rw [stop_eq_fired (s := h.timers act fired) hstate ht, TimerHeap.timers_fired]
  unfold TimerHeap.stopFired
  have hnodup := hl.fired_list.nodup
  cases fired with
  | nil => cases ht
  | cons f rest =>
    have hhead : h.fired = some f := hl.fired_list.head?_eq
    simp only [hhead]
    by_cases hf : f = t
    · subst hf
      have hlist : IsList (Function.update h.next f none) (h.next f) rest :=
        LinkedList.Seg.update hl.fired_list.2 (List.nodup_cons.1 hnodup).1 none
      have hkeep : ∀ x, x ∉ f :: rest → Function.update h.next f none x = h.next x := fun x hx =>
        Function.update_of_ne (ne_of_mem_of_not_mem List.mem_cons_self hx).symm _ _
      rw [if_pos rfl, List.erase_cons_head]
      exact .of_timed _ (hl.unfire (.inl rfl) hstate hlist (mem_without (m := []) hnodup) hkeep
        rfl rfl rfl rfl rfl rfl) rfl rfl
    · have ht' : t ∈ rest := (List.mem_cons.1 ht).resolve_left fun heq => hf heq.symm
      have hfirst := hl.fired_list
      rw [hhead] at hfirst
      obtain ⟨m, pre, l, rfl, hnot, -, hwalk, hlist, hkeep⟩ := exists_unlink hfirst hf ht'
      have herase : (f :: (m ++ t :: l)).erase t = f :: (m ++ l) := by
        rw [List.erase_cons_tail (by simpa using hf), List.erase_append_right _ hnot,
          List.erase_cons_head]
      rw [if_neg hf, hwalk, herase]
      exact .of_timed _ (hl.unfire (.inl rfl) hstate hlist (mem_without (m := f :: m) hnodup) hkeep
        rfl rfl rfl rfl rfl rfl) rfl rfl

/-- `hwtimer_stop`. -/
theorem stop (hl : Linked h free act fired) (t : Fin num) :
    Simulates free (h.stop t) ((h.timers act fired).stop t) := by
  unfold TimerHeap.stop
  cases hstate : h.state t with
  | alloc =>
    unfold Hwtimers.stop
    simp only [TimerHeap.timers_state, hstate]
    exact .ok _ hl
  | callback =>
    unfold Hwtimers.stop
    simp only [TimerHeap.timers_state, hstate]
    exact .ok _ hl
  | free =>
    unfold Hwtimers.stop
    simp only [TimerHeap.timers_state, hstate]
    exact .ok _ hl
  | fired => exact hl.stopFired ((hl.mem_fired t).1 hstate)
  | active =>
    have ht := (hl.mem_active t).1 hstate
    cases act with
    | nil => cases ht
    | cons a rest =>
      have hhead : h.active = some a := hl.active_list.head?_eq
      simp only [hhead]
      by_cases ha : a = t
      · subst ha
        rw [if_pos rfl, stop_eq_first (s := h.timers _ fired) hstate rfl]
        exact hl.stopFirst
      · rw [if_neg ha]
        exact hl.stopBehind ha ((List.mem_cons.1 ht).resolve_left fun heq => ha heq.symm)

/-! ### The handler -/

/-- The first part of `hwtimer_handler`. -/
theorem handler (hl : Linked h free act fired) (hin : h.inHandler = false) :
    Simulates free (h.handler.map (HwtimerRet.ok, ·))
      ((h.timers act fired).handler.map (HwtimerRet.ok, ·)) := by
  obtain rfl := hl.fired_nil hin
  unfold TimerHeap.handler
  have hhead := hl.active_list.head?_eq
  cases act with
  | nil =>
    rw [handler_eq_empty (s := h.timers [] []) rfl]
    simp only [hhead, List.head?_nil]
    by_cases hen : h.enabled
    · rw [if_pos hen, if_pos (show (h.timers [] []).enabled from hen)]
      exact .error (by decide)
    · rw [if_neg hen, if_neg (show ¬(h.timers [] []).enabled from hen)]
      exact .ok _ hl
  | cons a rest =>
    simp only [hhead, List.head?_cons]
    by_cases hearly : (h.elapsedTime + loadDelta) % 0x100000000 < h.time a
    · rw [handler_eq_early (s := h.timers (a :: rest) []) rfl hearly, if_pos hearly]
      by_cases hen : h.enabled
      · rw [if_pos hen, if_pos (show (h.timers (a :: rest) []).enabled from hen)]
        exact .ok _ hl
      · rw [if_neg hen, if_neg (show ¬(h.timers (a :: rest) []).enabled from hen)]
        exact .error (by decide)
    rw [if_neg hearly, elapsed_eq]
    obtain ⟨m, pre, l, e, state', hsplit, hwalk, hfired, hkeep, hdue, hleft⟩ :=
      TimerHeap.walkDue_spec hl.active_list.2 (length_lt hl.active_list.2) a
        (h.elapsedTime - h.time a) (Function.update h.state a .fired)
    have hstate : state' = fun x => if x ∈ m ++ [pre] then .fired else h.state x := by
      funext x
      have hfirst : m ++ [pre] = a :: (m ++ [pre]).tail := by
        rw [← hdue]
        rfl
      by_cases hx : x ∈ (m ++ [pre]).tail
      · rw [if_pos (List.mem_of_mem_tail hx), hfired x hx]
      rw [hkeep x hx]
      by_cases hxa : x = a
      · rw [hxa, Function.update_self, if_pos (hfirst ▸ List.mem_cons_self)]
      · rw [Function.update_of_ne hxa, if_neg]
        rw [hfirst]
        exact fun hmem => (List.mem_cons.1 hmem).elim hxa hx
    have hact : (h.timers (a :: rest) []).active = (a, h.time a) :: h.timed rest := rfl
    have hdue' : a :: (DeltaList.expire (h.timed rest)
        ((h.timers (a :: rest) []).elapsedTime - h.time a)).1 = m ++ [pre] := hdue
    have hnodup := hl.active_list.nodup
    have hactive := hl.active_list.head?_eq
    rw [hsplit] at hl hnodup
    rw [hwalk]
    cases l with
    | nil =>
      rw [handler_eq_last hact hearly hleft, hdue']
      have hlinked : Linked (TimerHeap.halTimerStop { h with
          state := state'
          next := Function.update h.next pre none
          fired := some a
          active := none
          inHandler := true }) free [] (m ++ [pre]) :=
        hl.fire rfl hstate rfl hactive.symm rfl rfl rfl rfl
      refine .of_timed _ hlinked rfl ?_
      rw [hstate]
      rfl
    | cons n more =>
      rw [handler_eq_more hact hearly hleft, hdue']
      simp only [List.head?_cons, Function.update_self]
      have hlinked : Linked (TimerHeap.halTimerStart { h with
          state := state'
          next := Function.update h.next pre none
          fired := some a
          active := some n
          inHandler := true
          time := Function.update h.time n (h.time n - e) }
          (h.time n - e)) free (n :: more) (m ++ [pre]) :=
        hl.fire rfl hstate rfl hactive.symm rfl rfl rfl rfl
      have hback : (n :: more).Nodup := (List.nodup_cons.1 (List.nodup_append.1 hnodup).2.1).2
      refine .of_timed _ hlinked
        (TimerHeap.timed_append_retimed (m := []) (f := fun v => v - e) hback rfl) ?_
      rw [hstate]
      rfl

end Linked

end EarbudFirmware.Hwtimer
