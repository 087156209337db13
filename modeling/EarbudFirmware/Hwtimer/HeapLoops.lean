import EarbudFirmware.Hwtimer.Heap
import Mathlib.Tactic.SplitIfs

/-!
# The loops over the timer lists

Each loop follows the pointers of a list. With the nodes of the list known, it ends, and what it
leaves is what the operation on delta lists makes of the nodes with their times.

## Main definitions

* `TimerHeap.timed`, `TimerHeap.retimed` — nodes with their times

## Main results

* `TimerHeap.walkBefore_spec`, `TimerHeap.walkOverdue_spec`, `TimerHeap.walkDue_spec`,
  `TimerHeap.walkTo_of_mem` — the loops
-/

namespace EarbudFirmware.Hwtimer

open LinkedList (IsList)

namespace TimerHeap

variable {num : Nat} {κ π : Type*} (h : TimerHeap num κ π)

/-- The nodes of a list with their times. -/
def timed (l : List (Fin num)) : List (Fin num × Nat) := l.map fun t => (t, h.time t)

@[simp] theorem timed_nil : h.timed [] = [] := rfl

@[simp] theorem timed_cons (x : Fin num) (l : List (Fin num)) :
    h.timed (x :: l) = (x, h.time x) :: h.timed l := rfl

@[simp] theorem timed_append (l l' : List (Fin num)) :
    h.timed (l ++ l') = h.timed l ++ h.timed l' :=
  List.map_append

/-- The nodes with their times, the first one of which is changed. -/
def retimed (f : Nat → Nat) : List (Fin num) → List (Fin num × Nat)
  | [] => []
  | x :: l => (x, f (h.time x)) :: h.timed l

variable {h} {h' : TimerHeap num κ π} {fuel : Nat} {p : Option (Fin num)} {rest l : List (Fin num)}
  {t : Fin num}

/-- The times of other nodes do not matter. -/
theorem timed_congr (heq : ∀ x ∈ l, h'.time x = h.time x) : h'.timed l = h.timed l :=
  List.map_congr_left fun x hx => by rw [heq x hx]

/-- The times behind the first one are as they were. -/
theorem timed_eq_retimed {y : Fin num} {f : Nat → Nat} (hy : h'.time y = f (h.time y))
    (heq : ∀ x ∈ l, h'.time x = h.time x) : h'.timed (y :: l) = h.retimed f (y :: l) := by
  rw [timed_cons, timed_congr heq, hy]
  rfl

/-- The loop stops behind the timers that come before the new one. -/
theorem walkBefore_spec (t : Fin num) (hlist : IsList h.next p rest) (hfuel : rest.length < fuel)
    (pre : Fin num) (ticks : Nat) :
    ∃ m pre' l k, pre :: rest = m ++ pre' :: l ∧
      h.walkBefore fuel pre p ticks = .ok (pre', l.head?, k) ∧
      (pre, h.time pre) :: DeltaList.insertBehind t ticks (h.timed rest) =
        h.timed (m ++ [pre']) ++ (t, k) :: h.retimed (· - k) l := by
  induction fuel generalizing p rest pre ticks with
  | zero => omega
  | succ fuel ih =>
    cases rest with
    | nil =>
      obtain rfl : p = none := hlist
      exact ⟨[], pre, [], ticks, rfl, rfl, rfl⟩
    | cons n rest =>
      obtain ⟨rfl, htail⟩ := hlist
      unfold walkBefore
      by_cases hlt : h.time n < ticks
      · obtain ⟨m, pre', l, k, hsplit, hwalk, hinsert⟩ :=
          ih htail (by simpa using hfuel) n (ticks - h.time n)
        refine ⟨pre :: m, pre', l, k, by rw [hsplit]; rfl, ?_, ?_⟩
        · simp only [if_pos hlt]
          exact hwalk
        · rw [timed_cons, DeltaList.insertBehind, if_pos hlt, hinsert]
          rfl
      · refine ⟨[], pre, n :: rest, ticks, rfl, ?_, ?_⟩
        · simp only [if_neg hlt]
          rfl
        · rw [timed_cons, DeltaList.insertBehind, if_neg hlt]
          rfl

/-- The loop moves on until it has found the timer. -/
theorem walkTo_of_mem (hlist : IsList h.next p rest) (hfuel : rest.length < fuel) (pre : Fin num)
    (hmem : t ∈ rest) :
    ∃ m pre' l, pre :: rest = m ++ pre' :: t :: l ∧ t ∉ (m ++ [pre']).tail ∧
      h.walkTo t fuel pre p = .ok (pre', some t) := by
  induction fuel generalizing p rest pre with
  | zero => omega
  | succ fuel ih =>
    cases rest with
    | nil => cases hmem
    | cons n rest =>
      obtain ⟨rfl, htail⟩ := hlist
      unfold walkTo
      by_cases hn : n = t
      · subst hn
        exact ⟨[], pre, rest, rfl, by simp, by simp⟩
      · have hmem' : t ∈ rest := (List.mem_cons.1 hmem).resolve_left fun heq => hn heq.symm
        obtain ⟨m, pre', l, hsplit, hnot, hwalk⟩ := ih htail (by simpa using hfuel) n hmem'
        refine ⟨pre :: m, pre', l, by rw [hsplit]; rfl, ?_, ?_⟩
        · cases m with
          | nil =>
            obtain ⟨rfl, -⟩ := List.cons.inj hsplit
            simpa using fun heq : t = n => hn heq.symm
          | cons y m =>
            obtain ⟨rfl, -⟩ := List.cons.inj hsplit
            simp only [List.cons_append, List.tail_cons, List.mem_cons] at hnot ⊢
            rintro (heq | hin)
            · exact hn heq.symm
            · exact hnot hin
        · simp only [if_pos hn]
          exact hwalk

/-- The loop of the handler: the timers that are due, and their states. -/
theorem walkDue_spec (hlist : IsList h.next p rest) (hfuel : rest.length < fuel) (pre : Fin num)
    (elapsed : Nat) (state : Fin num → TimerState) :
    ∃ m pre' l e state', pre :: rest = m ++ pre' :: l ∧
      h.walkDue fuel pre p elapsed state = .ok (pre', l.head?, e, state') ∧
      (∀ x ∈ (m ++ [pre']).tail, state' x = .fired) ∧
      (∀ x, x ∉ (m ++ [pre']).tail → state' x = state x) ∧
      pre :: (DeltaList.expire (h.timed rest) elapsed).1 = m ++ [pre'] ∧
      (DeltaList.expire (h.timed rest) elapsed).2 = h.retimed (· - e) l := by
  induction fuel generalizing p rest pre elapsed state with
  | zero => omega
  | succ fuel ih =>
    cases rest with
    | nil =>
      obtain rfl : p = none := hlist
      exact ⟨[], pre, [], elapsed, state, rfl, rfl, by simp, fun _ _ => rfl, rfl, rfl⟩
    | cons n rest =>
      obtain ⟨rfl, htail⟩ := hlist
      unfold walkDue
      by_cases hle : h.time n ≤ elapsed
      · obtain ⟨m, pre', l, e, state', hsplit, hwalk, hfired, hkeep, hdue, hleft⟩ :=
          ih htail (by simpa using hfuel) n (elapsed - h.time n) (Function.update state n .fired)
        have hfirst : m ++ [pre'] = n :: (m ++ [pre']).tail := by rw [← hdue]; rfl
        refine ⟨pre :: m, pre', l, e, state', by rw [hsplit]; rfl, ?_, ?_, ?_, ?_, ?_⟩
        · simp only [if_pos hle]
          exact hwalk
        · intro x hx
          rw [List.cons_append, List.tail_cons, hfirst] at hx
          by_cases hmem : x ∈ (m ++ [pre']).tail
          · exact hfired x hmem
          · obtain rfl := (List.mem_cons.1 hx).resolve_right hmem
            rw [hkeep x hmem, Function.update_self]
        · intro x hx
          rw [List.cons_append, List.tail_cons, hfirst] at hx
          rw [hkeep x fun hmem => hx (List.mem_cons_of_mem n hmem),
            Function.update_of_ne (ne_of_mem_of_not_mem List.mem_cons_self hx).symm]
        · rw [timed_cons, DeltaList.expire, if_pos hle, List.cons_append]
          exact congrArg (pre :: ·) hdue
        · rw [timed_cons, DeltaList.expire, if_pos hle]
          exact hleft
      · refine ⟨[], pre, n :: rest, elapsed, state, rfl, ?_, by simp, fun _ _ => rfl, ?_, ?_⟩
        · simp only [if_neg hle]
          rfl
        · rw [timed_cons, DeltaList.expire, if_neg hle]
          rfl
        · rw [timed_cons, DeltaList.expire, if_neg hle]
          rfl

/-- The loop of `hwtimer_stop` takes the elapsed time from the timers it has passed over. -/
theorem walkOverdue_spec (hlist : IsList h.next p rest) (hfuel : rest.length < fuel) (elapsed : Nat)
    (time : Fin num → Nat) :
    ∃ time', h.walkOverdue fuel p elapsed time = .ok time' ∧
      (∀ x, x ∉ rest → time' x = time x) ∧
      rest.map (fun x => (x, time' x)) =
        DeltaList.advance (rest.map fun x => (x, time x)) elapsed := by
  induction fuel generalizing p rest elapsed time with
  | zero => omega
  | succ fuel ih =>
    have hnodup := hlist.nodup
    cases rest with
    | nil =>
      obtain rfl : p = none := hlist
      exact ⟨time, rfl, fun _ _ => rfl, rfl⟩
    | cons n rest =>
      obtain ⟨rfl, htail⟩ := hlist
      obtain ⟨hn, -⟩ := List.nodup_cons.1 hnodup
      have hothers : ∀ v, rest.map (fun x => (x, Function.update time n v x)) =
          rest.map fun x => (x, time x) := fun v =>
        List.map_congr_left fun x hx => by rw [Function.update_of_ne (ne_of_mem_of_not_mem hx hn)]
      unfold walkOverdue
      by_cases hle : time n ≤ elapsed
      · obtain ⟨time', hwalk, hkeep, hadvance⟩ :=
          ih htail (by simpa using hfuel) (elapsed - time n) (Function.update time n 0)
        refine ⟨time', ?_, ?_, ?_⟩
        · simp only [if_pos hle]
          exact hwalk
        · intro x hx
          have hne : n ≠ x := ne_of_mem_of_not_mem List.mem_cons_self hx
          rw [hkeep x fun hmem => hx (List.mem_cons_of_mem n hmem), Function.update_of_ne hne.symm]
        · rw [hothers] at hadvance
          rw [List.map_cons, List.map_cons, DeltaList.advance, if_pos hle, hadvance, hkeep n hn,
            Function.update_self]
      · refine ⟨Function.update time n (time n - elapsed), ?_, ?_, ?_⟩
        · simp only [if_neg hle]
        · intro x hx
          have hne : n ≠ x := ne_of_mem_of_not_mem List.mem_cons_self hx
          exact Function.update_of_ne hne.symm _ _
        · rw [List.map_cons, List.map_cons, DeltaList.advance, if_neg hle, hothers,
            Function.update_self]

end TimerHeap

end EarbudFirmware.Hwtimer
