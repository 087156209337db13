import Mathlib.Data.List.Nodup

/-!
# Delta lists

A list of deadlines in which every entry holds the time from the entry before it. What is inserted,
taken out or due is found by adding up the deltas from the front.

## Main definitions

* `deadlines` — the entries with their absolute times
* `insertBehind`, `expire`, `advance`, `remove` — the operations

## Main results

* `mem_deadlines_insertBehind` — the new deadline is met exactly, and the others stay
* `exists_of_mem_expire`, `mem_deadlines_expire` — what is due, and what is left
* `deadlines_advance` — what is overdue becomes due, and the other deadlines stay
* `exists_of_mem_advance` — no deadline gets later, and none that is left gets earlier
* `mem_deadlines_remove` — the other deadlines stay
-/

namespace DeltaList

variable {κ : Type*} {d e t : Nat} {k : κ} {p : κ × Nat} {l : List (κ × Nat)}

/-- The entries behind the time `d`, with their absolute times. -/
def deadlines : Nat → List (κ × Nat) → List (κ × Nat)
  | _, [] => []
  | d, (k, t) :: l => (k, d + t) :: deadlines (d + t) l

@[simp] theorem deadlines_nil : deadlines d ([] : List (κ × Nat)) = [] := rfl

@[simp] theorem deadlines_cons :
    deadlines d ((k, t) :: l) = (k, d + t) :: deadlines (d + t) l := rfl

theorem map_fst_deadlines (d : Nat) (l : List (κ × Nat)) :
    (deadlines d l).map Prod.fst = l.map Prod.fst := by
  induction l generalizing d with
  | nil => rfl
  | cons x l ih => exact congrArg (x.1 :: ·) (ih _)

/-- Deadlines move with the time that they are counted from. -/
theorem deadlines_add (d e : Nat) (l : List (κ × Nat)) :
    deadlines (d + e) l = (deadlines d l).map fun p => (p.1, p.2 + e) := by
  induction l generalizing d with
  | nil => rfl
  | cons x l ih =>
    rw [deadlines, deadlines, List.map_cons, ← ih, Nat.add_right_comm d e]

/-- More time for the first entry moves all of them. -/
theorem deadlines_cons_add (d e : Nat) :
    deadlines d ((k, t + e) :: l) = deadlines (d + e) ((k, t) :: l) := by
  rw [deadlines_cons, deadlines_cons, show d + (t + e) = d + e + t by omega]

/-- No entry takes longer than until its deadline. -/
theorem exists_mem_deadlines (h : (k, t) ∈ l) : ∃ d', (k, d') ∈ deadlines d l ∧ t ≤ d' := by
  induction l generalizing d with
  | nil => cases h
  | cons x l ih =>
    obtain ⟨x, u⟩ := x
    obtain h | h := List.mem_cons.1 h
    · obtain ⟨rfl, rfl⟩ := Prod.mk.inj h
      exact ⟨_, List.mem_cons_self, Nat.le_add_left _ _⟩
    · obtain ⟨d', hd', hle⟩ := ih (d := d + u) h
      exact ⟨d', List.mem_cons_of_mem _ hd', hle⟩

theorem le_of_mem_deadlines (h : p ∈ deadlines d l) : d ≤ p.2 := by
  induction l generalizing d with
  | nil => cases h
  | cons x l ih =>
    obtain rfl | h := List.mem_cons.1 h
    · exact Nat.le_add_right _ _
    · exact Nat.le_trans (Nat.le_add_right _ _) (ih h)

/-- Deadlines are counted from another time. -/
theorem mem_deadlines_shift (h : p ∈ deadlines d l) (d' : Nat) :
    d ≤ p.2 ∧ (p.1, p.2 - d + d') ∈ deadlines d' l := by
  have hle := le_of_mem_deadlines h
  have hd := deadlines_add 0 d l
  have hd' := deadlines_add 0 d' l
  rw [Nat.zero_add] at hd hd'
  rw [hd] at h
  obtain ⟨q, hq, rfl⟩ := List.mem_map.1 h
  refine ⟨hle, ?_⟩
  rw [hd', Nat.add_sub_cancel]
  exact List.mem_map_of_mem hq

/-! ### Insertion -/

/-- An entry is inserted behind those that come earlier. -/
def insertBehind (k : κ) : Nat → List (κ × Nat) → List (κ × Nat)
  | t, [] => [(k, t)]
  | t, (x, u) :: l =>
    if u < t then (x, u) :: insertBehind k (t - u) l else (k, t) :: (x, u - t) :: l

theorem insertBehind_cons (k : κ) (t : Nat) (p : κ × Nat) (l : List (κ × Nat)) :
    insertBehind k t (p :: l) =
      if p.2 < t then (p.1, p.2) :: insertBehind k (t - p.2) l
      else (k, t) :: (p.1, p.2 - t) :: l := rfl

theorem mem_deadlines_insertBehind :
    p ∈ deadlines d (insertBehind k t l) ↔ p = (k, d + t) ∨ p ∈ deadlines d l := by
  induction l generalizing d t with
  | nil => simp [insertBehind]
  | cons x l ih =>
    obtain ⟨x, u⟩ := x
    rw [insertBehind_cons]
    split_ifs with hu
    · rw [deadlines_cons, List.mem_cons, ih, deadlines_cons, List.mem_cons,
        show d + u + (t - u) = d + t by omega]
      exact or_left_comm
    · rw [deadlines_cons, deadlines_cons, show d + t + (u - t) = d + u by omega]
      exact List.mem_cons

/-- The other deadlines are the same, in the same order. -/
theorem filter_deadlines_insertBehind [DecidableEq κ] (d t : Nat) (k : κ) (l : List (κ × Nat)) :
    ((deadlines d (insertBehind k t l)).filter fun p => p.1 ≠ k) =
      (deadlines d l).filter fun p => p.1 ≠ k := by
  induction l generalizing d t with
  | nil => simp [insertBehind]
  | cons x l ih =>
    obtain ⟨x, u⟩ := x
    rw [insertBehind_cons]
    split_ifs with hu
    · simp only [deadlines_cons, List.filter_cons, ih]
    · rw [deadlines_cons, deadlines_cons, show d + t + (u - t) = d + u by omega,
        List.filter_cons_of_neg (by simp), deadlines_cons]

theorem perm_insertBehind :
    ((insertBehind k t l).map Prod.fst).Perm (k :: l.map Prod.fst) := by
  induction l generalizing t with
  | nil => rfl
  | cons x l ih =>
    obtain ⟨x, u⟩ := x
    rw [insertBehind_cons]
    split_ifs
    · exact (ih.cons x).trans (List.Perm.swap _ _ _)
    · rfl

/-! ### Expiry -/

/-- The entries that are due after `e`, and the others, the first of which has waited. -/
def expire : List (κ × Nat) → Nat → List κ × List (κ × Nat)
  | [], _ => ([], [])
  | (x, u) :: l, e =>
    if u ≤ e then (x :: (expire l (e - u)).1, (expire l (e - u)).2) else ([], (x, u - e) :: l)

theorem expire_cons (p : κ × Nat) (l : List (κ × Nat)) (e : Nat) :
    expire (p :: l) e =
      if p.2 ≤ e then (p.1 :: (expire l (e - p.2)).1, (expire l (e - p.2)).2)
      else ([], (p.1, p.2 - e) :: l) := rfl

/-- What has expired was due. -/
theorem exists_of_mem_expire (h : k ∈ (expire l e).1) :
    ∃ t, (k, t) ∈ deadlines d l ∧ t ≤ d + e := by
  induction l generalizing d e with
  | nil => cases h
  | cons x l ih =>
    obtain ⟨x, u⟩ := x
    rw [expire_cons] at h
    split_ifs at h with hu
    · obtain rfl | h := List.mem_cons.1 h
      · exact ⟨_, List.mem_cons_self, Nat.add_le_add_left hu d⟩
      · obtain ⟨t, ht, hle⟩ := ih (d := d + u) h
        exact ⟨t, List.mem_cons_of_mem _ ht, by omega⟩
    · cases h

/-- What is left keeps its deadline, counted from the time of the expiry. -/
theorem mem_deadlines_expire (h : p ∈ deadlines (d + e) (expire l e).2) : p ∈ deadlines d l := by
  induction l generalizing d e with
  | nil => cases h
  | cons x l ih =>
    obtain ⟨x, u⟩ := x
    rw [expire_cons] at h
    split_ifs at h with hu
    · rw [show d + e = d + u + (e - u) by omega] at h
      exact List.mem_cons_of_mem _ (ih h)
    · rw [deadlines_cons, show d + e + (u - e) = d + u by omega] at h
      exact h

/-- The first entry that is left is still to come. -/
theorem pos_of_expire {u : Nat} {l' : List (κ × Nat)} (h : (expire l e).2 = (k, u) :: l') :
    0 < u := by
  induction l generalizing e with
  | nil => cases h
  | cons x l ih =>
    obtain ⟨x, v⟩ := x
    rw [expire_cons] at h
    split_ifs at h with hv
    · exact ih h
    · obtain ⟨hx, -⟩ := List.cons.inj h
      rw [← (Prod.mk.inj hx).2]
      omega

theorem expire_keys : (expire l e).1 ++ (expire l e).2.map Prod.fst = l.map Prod.fst := by
  induction l generalizing e with
  | nil => rfl
  | cons x l ih =>
    obtain ⟨x, u⟩ := x
    rw [expire_cons]
    split_ifs
    · exact congrArg (x :: ·) ih
    · rfl

/-! ### Advance -/

/-- The time `e` has passed; what is overdue stays in the list. -/
def advance : List (κ × Nat) → Nat → List (κ × Nat)
  | [], _ => []
  | (x, u) :: l, e => if u ≤ e then (x, 0) :: advance l (e - u) else (x, u - e) :: l

theorem advance_cons_eq (p : κ × Nat) (l : List (κ × Nat)) (e : Nat) :
    advance (p :: l) e =
      if p.2 ≤ e then (p.1, 0) :: advance l (e - p.2) else (p.1, p.2 - e) :: l := rfl

theorem advance_cons (k : κ) (t : Nat) (l : List (κ × Nat)) (e : Nat) :
    ∃ l', advance ((k, t) :: l) e = (k, if t ≤ e then 0 else t - e) :: l' := by
  rw [advance_cons_eq]
  split_ifs
  · exact ⟨_, rfl⟩
  · exact ⟨_, rfl⟩

/-- Deadlines that are still to come are not changed by a lower bound. -/
theorem map_max_deadlines {c : Nat} (h : c ≤ d) :
    ((deadlines d l).map fun p => (p.1, max c p.2)) = deadlines d l := by
  induction l generalizing d with
  | nil => rfl
  | cons x l ih =>
    obtain ⟨x, u⟩ := x
    rw [deadlines_cons, List.map_cons, ih (Nat.le_trans h (Nat.le_add_right d u)),
      Nat.max_eq_right (Nat.le_trans h (Nat.le_add_right d u))]

/-- What is overdue is due now, and the other deadlines stay. -/
theorem deadlines_advance (d e : Nat) (l : List (κ × Nat)) :
    deadlines (d + e) (advance l e) = (deadlines d l).map fun p => (p.1, max (d + e) p.2) := by
  induction l generalizing d e with
  | nil => rfl
  | cons x l ih =>
    obtain ⟨x, u⟩ := x
    rw [advance_cons_eq]
    split_ifs with hu
    · have hrest := ih (d + u) (e - u)
      rw [show d + u + (e - u) = d + e by omega] at hrest
      rw [deadlines_cons, deadlines_cons, List.map_cons, Nat.add_zero, hrest]
      dsimp only
      rw [Nat.max_eq_left (by omega)]
    · rw [deadlines_cons, deadlines_cons, List.map_cons, map_max_deadlines (by omega),
        Nat.max_eq_right (by omega), show d + e + (u - e) = d + u by omega]

/-- Every deadline is an old one, or is overdue. -/
theorem exists_of_mem_advance (h : p ∈ deadlines (d + e) (advance l e)) :
    ∃ t, (p.1, t) ∈ deadlines d l ∧ t ≤ p.2 ∧ (p.2 = t ∨ p.2 = d + e) := by
  induction l generalizing d e with
  | nil => cases h
  | cons x l ih =>
    obtain ⟨x, u⟩ := x
    rw [advance_cons_eq] at h
    split_ifs at h with hu
    · obtain rfl | h := List.mem_cons.1 h
      · exact ⟨_, List.mem_cons_self, Nat.add_le_add_left hu d, .inr rfl⟩
      · rw [Nat.add_zero, show d + e = d + u + (e - u) by omega] at h
        obtain ⟨t, ht, hle, hor⟩ := ih h
        exact ⟨t, List.mem_cons_of_mem _ ht, hle, by omega⟩
    · rw [deadlines_cons, show d + e + (u - e) = d + u by omega] at h
      exact ⟨p.2, h, Nat.le_refl _, .inl rfl⟩

theorem advance_keys : (advance l e).map Prod.fst = l.map Prod.fst := by
  induction l generalizing e with
  | nil => rfl
  | cons x l ih =>
    obtain ⟨x, u⟩ := x
    rw [advance_cons_eq]
    split_ifs
    · exact congrArg (x :: ·) ih
    · rfl

/-! ### Removal -/

variable [DecidableEq κ]

/-- The entry with the key `k` is taken out, and the one behind it takes over its time. -/
def remove (k : κ) : List (κ × Nat) → List (κ × Nat)
  | [] => []
  | (x, u) :: l =>
    if x = k then
      match l with
      | [] => []
      | (y, v) :: l => (y, v + u) :: l
    else (x, u) :: remove k l

theorem remove_cons (k : κ) (p : κ × Nat) (l : List (κ × Nat)) :
    remove k (p :: l) =
      if p.1 = k then
        match l with
        | [] => []
        | q :: l => (q.1, q.2 + p.2) :: l
      else (p.1, p.2) :: remove k l := by
  cases l <;> rfl

theorem mem_deadlines_remove (h : p ∈ deadlines d (remove k l)) : p ∈ deadlines d l := by
  induction l generalizing d with
  | nil => cases h
  | cons x l ih =>
    obtain ⟨x, u⟩ := x
    rw [remove_cons] at h
    split_ifs at h with hx
    · cases l with
      | nil => cases h
      | cons y l =>
        obtain ⟨y, v⟩ := y
        rw [deadlines_cons, show d + (v + u) = d + u + v by omega] at h
        exact List.mem_cons_of_mem _ h
    · obtain rfl | h := List.mem_cons.1 h
      · exact List.mem_cons_self
      · exact List.mem_cons_of_mem _ (ih h)

/-- The other deadlines are the same, in the same order. -/
theorem filter_deadlines_remove (d : Nat) (k : κ) (l : List (κ × Nat)) :
    ((deadlines d (remove k l)).filter fun p => p.1 ≠ k) =
      (deadlines d l).filter fun p => p.1 ≠ k := by
  induction l generalizing d with
  | nil => rfl
  | cons x l ih =>
    obtain ⟨x, u⟩ := x
    rw [remove_cons]
    split_ifs with hx
    · rw [deadlines_cons, List.filter_cons_of_neg (by simpa using hx)]
      cases l with
      | nil => rfl
      | cons y l =>
        obtain ⟨y, v⟩ := y
        rw [deadlines_cons, deadlines_cons, show d + (v + u) = d + u + v by omega]
    · simp only [deadlines_cons, List.filter_cons, ih]

theorem remove_keys : (remove k l).map Prod.fst = (l.map Prod.fst).erase k := by
  induction l with
  | nil => rfl
  | cons x l ih =>
    obtain ⟨x, u⟩ := x
    rw [remove_cons]
    split_ifs with hx
    · rw [List.map_cons, hx, List.erase_cons_head]
      cases l <;> rfl
    · rw [List.map_cons, ih, List.map_cons, List.erase_cons_tail (by simpa using hx)]

end DeltaList
