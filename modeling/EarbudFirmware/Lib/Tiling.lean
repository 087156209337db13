import Mathlib.Algebra.BigOperators.Group.List.Basic
import Mathlib.Algebra.GroupWithZero.Nat

/-!
# Intervals one behind the other

A range of natural numbers is cut into intervals, each of which starts where the one before ends.

## Main definitions

* `tile` — the intervals of given lengths
* `CoversOnce` — every number of a range is in one of the intervals, and no other number in any

## Main results

* `coversOnce_tile` — intervals one behind the other cover their range once
* `mem_tile_replicate` — the intervals of equal length
-/

namespace Tiling

/-- Intervals of the given lengths from `a` on, each with its start and its length. -/
def tile (a : ℕ) : List ℕ → List (ℕ × ℕ)
  | [] => []
  | n :: ns => (a, n) :: tile (a + n) ns

/-- In how many of the intervals a number is. -/
def hits (cs : List (ℕ × ℕ)) (x : ℕ) : ℕ := cs.countP fun c => c.1 ≤ x ∧ x < c.1 + c.2

/-- The numbers of the range are in one interval each, and the others in none. -/
def CoversOnce (cs : List (ℕ × ℕ)) (a n : ℕ) : Prop :=
  ∀ x, hits cs x = if a ≤ x ∧ x < a + n then 1 else 0

variable {a n k x : ℕ} {ns ms : List ℕ} {c : ℕ × ℕ}

@[simp] theorem tile_nil (a : ℕ) : tile a [] = [] := rfl

@[simp] theorem tile_cons (a n : ℕ) (ns : List ℕ) :
    tile a (n :: ns) = (a, n) :: tile (a + n) ns := rfl

theorem tile_append (a : ℕ) (ns ms : List ℕ) :
    tile a (ns ++ ms) = tile a ns ++ tile (a + ns.sum) ms := by
  induction ns generalizing a with
  | nil => rfl
  | cons n ns ih => rw [List.cons_append, tile_cons, ih, tile_cons, List.sum_cons, Nat.add_assoc,
      List.cons_append]

/-- Every interval is in the range, and has one of the lengths. -/
theorem mem_tile (h : c ∈ tile a ns) : a ≤ c.1 ∧ c.1 + c.2 ≤ a + ns.sum ∧ c.2 ∈ ns := by
  induction ns generalizing a with
  | nil => exact absurd h List.not_mem_nil
  | cons n ns ih =>
    rw [List.sum_cons]
    rcases List.mem_cons.1 h with rfl | h
    · exact ⟨Nat.le_refl a, by omega, List.mem_cons_self⟩
    · obtain ⟨hlo, hhi, hmem⟩ := ih h
      exact ⟨by omega, by omega, List.mem_cons_of_mem n hmem⟩

/-- Intervals one behind the other cover their range once. -/
theorem coversOnce_tile (a : ℕ) (ns : List ℕ) : CoversOnce (tile a ns) a ns.sum := by
  intro x
  induction ns generalizing a with
  | nil =>
    rw [List.sum_nil, if_neg (by omega)]
    rfl
  | cons n ns ih =>
    rw [tile_cons, hits, List.countP_cons, ← hits, ih, List.sum_cons]
    simp only [decide_eq_true_eq]
    -- a number is in the first interval or in the rest of the range, not in both
    by_cases hfirst : a ≤ x ∧ x < a + n
    · rw [if_neg (by omega), if_pos hfirst, if_pos (by omega)]
    · rw [if_neg hfirst, Nat.add_zero]
      exact if_congr (by omega) rfl rfl

/-- The intervals of `k` equal lengths. -/
theorem mem_tile_replicate : c ∈ tile a (List.replicate k n) ↔ ∃ i < k, c = (a + i * n, n) := by
  induction k generalizing a with
  | zero => simp
  | succ k ih =>
    rw [List.replicate_succ, tile_cons, List.mem_cons, ih]
    constructor
    · rintro (rfl | ⟨i, hi, rfl⟩)
      · exact ⟨0, Nat.succ_pos k, by rw [Nat.zero_mul, Nat.add_zero]⟩
      · exact ⟨i + 1, by omega, by rw [Nat.succ_mul]; congr 1; omega⟩
    · rintro ⟨i, hi, rfl⟩
      cases i with
      | zero => exact .inl (by rw [Nat.zero_mul, Nat.add_zero])
      | succ i => exact .inr ⟨i, by omega, by rw [Nat.succ_mul]; congr 1; omega⟩

end Tiling
