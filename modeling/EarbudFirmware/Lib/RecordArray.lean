import Mathlib.Data.List.Basic
import Mathlib.Tactic.Common
import Mathlib.Tactic.SplitIfs

/-!
# Arrays of records

Records are moved inside an array of fixed size by copying one after the other. A copy fails when an
index is out of bounds.

## Main definitions

* `write`, `copy` — one record is overwritten
* `moveRight`, `moveLeft` — loops that move a block of records by one place

## Main results

* `moveRight_spec`, `moveLeft_spec` — the loops stay in bounds, and every record arrives
-/

namespace RecordArray

variable {α : Type*} {n : ℕ} {v w : Vector α n} {i j m : ℕ}

/-- The record `i` overwritten. -/
def write (v : Vector α n) (i : ℕ) (x : α) : Option (Vector α n) :=
  if i < n then some (v.setIfInBounds i x) else none

/-- A copy of record `src` to the place `dst`. -/
def copy (v : Vector α n) (dst src : ℕ) : Option (Vector α n) :=
  match v[src]? with
  | some x => write v dst x
  | none => none

/-- For `k` from 0 on, `m` copies: record `m - 1 - k` goes to the place `m - k`. -/
def moveRight (v : Vector α n) (m : ℕ) : Option (Vector α n) :=
  (List.range m).foldlM (fun v k => copy v (m - k) (m - 1 - k)) v

/-- For `k` from 0 on, `m` copies: record `i + 1 + k` goes to the place `i + k`. -/
def moveLeft (v : Vector α n) (i m : ℕ) : Option (Vector α n) :=
  (List.range m).foldlM (fun v k => copy v (i + k) (i + 1 + k)) v

theorem write_spec (hi : i < n) (x : α) :
    ∃ w, write v i x = some w ∧ ∀ j, w[j]? = if j = i then some x else v[j]? := by
  refine ⟨_, if_pos hi, fun j => ?_⟩
  rw [Vector.getElem?_setIfInBounds]
  split_ifs with h h' <;> first | rfl | omega

theorem copy_spec (hi : i < n) (hj : j < n) :
    ∃ w, copy v i j = some w ∧ ∀ k, w[k]? = if k = i then v[j]? else v[k]? := by
  have hx : v[j]? = some v[j] := Vector.getElem?_eq_getElem hj
  unfold copy
  rw [hx]
  exact write_spec hi v[j]

/-- A block in front of the place `m` moves to the right. -/
theorem moveRight_spec (hm : m < n) :
    ∃ w, moveRight v m = some w ∧
      ∀ j, w[j]? = if 1 ≤ j ∧ j ≤ m then v[j - 1]? else v[j]? := by
  -- after `c` copies the places above `m - c` have got their records
  have hloop : ∀ c, c ≤ m → ∃ w,
      (List.range c).foldlM (fun v k => copy v (m - k) (m - 1 - k)) v = some w ∧
        ∀ j, w[j]? = if m - c < j ∧ j ≤ m then v[j - 1]? else v[j]? := by
    intro c
    induction c with
    | zero => exact fun _ => ⟨v, rfl, fun j => by rw [if_neg (by omega)]⟩
    | succ c ih =>
      intro hc
      obtain ⟨w, hw, hspec⟩ := ih (by omega)
      obtain ⟨w', hw', hspec'⟩ := copy_spec (v := w) (i := m - c) (j := m - 1 - c) (by omega)
        (by omega)
      refine ⟨w', by simp [List.range_succ, List.foldlM_append, hw, hw'], fun j => ?_⟩
      rw [hspec', hspec, hspec]
      split_ifs <;> first | rfl | omega | (congr 1; omega)
  obtain ⟨w, hw, hspec⟩ := hloop m (Nat.le_refl m)
  refine ⟨w, hw, fun j => ?_⟩
  rw [hspec]
  split_ifs <;> first | rfl | omega

/-- A block behind the place `i` moves to the left. -/
theorem moveLeft_spec (hm : i + m < n) :
    ∃ w, moveLeft v i m = some w ∧
      ∀ j, w[j]? = if i ≤ j ∧ j < i + m then v[j + 1]? else v[j]? := by
  have hloop : ∀ c, c ≤ m → ∃ w,
      (List.range c).foldlM (fun v k => copy v (i + k) (i + 1 + k)) v = some w ∧
        ∀ j, w[j]? = if i ≤ j ∧ j < i + c then v[j + 1]? else v[j]? := by
    intro c
    induction c with
    | zero => exact fun _ => ⟨v, rfl, fun j => by rw [if_neg (by omega)]⟩
    | succ c ih =>
      intro hc
      obtain ⟨w, hw, hspec⟩ := ih (by omega)
      obtain ⟨w', hw', hspec'⟩ := copy_spec (v := w) (i := i + c) (j := i + 1 + c) (by omega)
        (by omega)
      refine ⟨w', by simp [List.range_succ, List.foldlM_append, hw, hw'], fun j => ?_⟩
      rw [hspec', hspec, hspec]
      split_ifs <;> first | rfl | omega | (congr 1; omega)
  exact hloop m (Nat.le_refl m)

end RecordArray
