import Mathlib.Data.List.Basic
import Mathlib.Data.Nat.ModEq

/-!
# Circular buffers

`size` cells are used as a circle. A block of cells starts at an index and goes round at the end of
the buffer; buffers are total functions, of which the cells below `size` are used.

## Main definitions

* `cells` — the block of `n` cells from an index on
* `Written` — one buffer is another one with a block overwritten
* `Newest` — the buffer holds the newest elements of a stream
* `writeAround` — a list written to around its end, one place after the other

## Main results

* `cells_add` — a block is two blocks
* `Written.cells_append`, `Written.cells_prepend` — writing behind a block appends to it, and
  writing before it prepends
* `Newest.append`, `Newest.cells` — the stream goes on, and its end is a block
* `getElem?_writeAround_newest` — the newest elements written around a list are still there
-/

namespace Ring

variable {α : Type*} {b b' : Nat → α} {x : Nat → α} {size start m n i j : Nat}

/-- The `n` cells from `start` on. -/
def cells (b : Nat → α) (size start n : Nat) : List α :=
  (List.range n).map fun i => b ((start + i) % size)

@[simp] theorem length_cells : (cells b size start n).length = n := by simp [cells]

@[simp] theorem cells_zero : cells b size start 0 = [] := rfl

theorem getElem?_cells (hi : i < n) :
    (cells b size start n)[i]? = some (b ((start + i) % size)) := by
  simp [cells, hi]

theorem cells_congr (h : ∀ i < n, b' ((start + i) % size) = b ((start + i) % size)) :
    cells b' size start n = cells b size start n :=
  List.map_congr_left fun i hi => h i (List.mem_range.1 hi)

/-- A block is two blocks. -/
theorem cells_add :
    cells b size start (m + n) = cells b size start m ++ cells b size ((start + m) % size) n := by
  unfold cells
  rw [List.range_add, List.map_append, List.map_map]
  congr 1
  refine List.map_congr_left fun i _ => ?_
  rw [Function.comp_apply, Nat.mod_add_mod, add_assoc]

theorem drop_cells (h : m ≤ n) :
    (cells b size start n).drop m = cells b size ((start + m) % size) (n - m) := by
  obtain ⟨k, rfl⟩ := Nat.exists_eq_add_of_le h
  rw [cells_add, List.drop_left' length_cells, Nat.add_sub_cancel_left]

theorem take_cells (h : m ≤ n) : (cells b size start n).take m = cells b size start m := by
  obtain ⟨k, rfl⟩ := Nat.exists_eq_add_of_le h
  rw [cells_add, List.take_left' length_cells]

/-- The index of a cell goes round at most once. -/
theorem index_eq (hs : start < size) (hi : i ≤ size) :
    (start + i) % size = if start + i < size then start + i else start + i - size := by
  split_ifs with h
  · exact Nat.mod_eq_of_lt h
  · rw [Nat.mod_eq_sub_mod (by omega), Nat.mod_eq_of_lt (by omega)]

/-- Two cells of a block that does not overlap itself are different. -/
theorem index_ne (hi : i < size) (hj : j < size) (hij : i ≠ j) :
    (start + i) % size ≠ (start + j) % size := by
  intro h
  have hmod : start + i ≡ start + j [MOD size] := h
  exact hij ((Nat.ModEq.add_left_cancel' start hmod).eq_of_lt_of_lt hi hj)

/-- A place that comes round again is a whole circle further on. -/
theorem add_size_le (h : (start + i) % size = (start + j) % size) (hij : i < j) : i + size ≤ j := by
  have hmod : i ≡ j [MOD size] := Nat.ModEq.add_left_cancel' start h
  have hdvd := (Nat.modEq_iff_dvd' (Nat.le_of_lt hij)).mp hmod
  have hle := Nat.le_of_dvd (Nat.sub_pos_of_lt hij) hdvd
  omega

/-- `b'` is `b` with the elements `x` written to the block of `n` cells from `start` on. -/
structure Written (b b' : Nat → α) (size start n : Nat) (x : Nat → α) : Prop where
  block : ∀ i < n, b' ((start + i) % size) = x i
  frame : ∀ p, (∀ i < n, p ≠ (start + i) % size) → b' p = b p

/-- Writing behind a block appends to it. -/
theorem Written.cells_append (h : Written b b' size ((start + m) % size) n x)
    (hmn : m + n ≤ size) :
    cells b' size start (m + n) = cells b size start m ++ (List.range n).map x := by
  have hfront : cells b' size start m = cells b size start m := by
    refine cells_congr fun i hi => h.frame _ fun j hj => ?_
    rw [Nat.mod_add_mod, add_assoc]
    exact index_ne (by omega) (by omega) (by omega)
  have hback : cells b' size ((start + m) % size) n = (List.range n).map x :=
    List.map_congr_left fun i hi => h.block i (List.mem_range.1 hi)
  rw [cells_add, hfront, hback]

/-- Writing before a block prepends to it. -/
theorem Written.cells_prepend (h : Written b b' size start n x) (hmn : n + m ≤ size) :
    cells b' size start (n + m) =
      (List.range n).map x ++ cells b size ((start + n) % size) m := by
  have hfront : cells b' size start n = (List.range n).map x :=
    List.map_congr_left fun i hi => h.block i (List.mem_range.1 hi)
  have hback : cells b' size ((start + n) % size) m = cells b size ((start + n) % size) m := by
    refine cells_congr fun i hi => h.frame _ fun j hj => ?_
    rw [Nat.mod_add_mod, add_assoc]
    exact index_ne (by omega) (by omega) (by omega)
  rw [cells_add, hfront, hback]

/-! ### The newest elements of a stream -/

/-- The newest `size` elements of the stream `l` are in the buffer; element `k` is at `k % size`. -/
def Newest (b : Nat → α) (size : Nat) (l : List α) : Prop :=
  ∀ k a, l[k]? = some a → l.length ≤ k + size → b (k % size) = a

variable {l : List α}

theorem newest_nil : Newest b size [] := fun _ _ h => nomatch h

/-- The stream goes on. -/
theorem Newest.append (h : Newest b size l) (hw : Written b b' size (l.length % size) n x) :
    Newest b' size (l ++ (List.range n).map x) := by
  intro k a hk hlen
  rw [List.length_append, List.length_map, List.length_range] at hlen
  rcases Nat.lt_or_ge k l.length with hold | hnew
  · rw [List.getElem?_append_left hold] at hk
    have hkept : ∀ i < n, k % size ≠ (l.length % size + i) % size := by
      intro i hi heq
      have hround : (0 + k) % size = (0 + (l.length + i)) % size := by
        rwa [Nat.zero_add, Nat.zero_add, ← Nat.mod_add_mod]
      have hle := add_size_le hround (by omega)
      omega
    rw [hw.frame _ hkept]
    exact h k a hk (by omega)
  · rw [List.getElem?_append_right hnew, List.getElem?_map, Option.map_eq_some_iff] at hk
    obtain ⟨i, hi, rfl⟩ := hk
    obtain ⟨hlt, rfl⟩ := List.getElem?_eq_some_iff.1 hi
    rw [List.length_range] at hlt
    rw [List.getElem_range, ← hw.block _ hlt, Nat.mod_add_mod, Nat.add_sub_cancel' hnew]

/-- The end of the stream is a block. -/
theorem Newest.cells (h : Newest b size l) (hm : m ≤ l.length) (hs : l.length ≤ m + size) :
    cells b size (m % size) (l.length - m) = l.drop m := by
  refine List.ext_getElem? fun i => ?_
  rw [List.getElem?_drop]
  rcases Nat.lt_or_ge i (l.length - m) with hi | hi
  · rw [getElem?_cells hi, Nat.mod_add_mod]
    have hlt : m + i < l.length := by omega
    rw [List.getElem?_eq_getElem hlt]
    exact congrArg some (h _ _ (List.getElem?_eq_getElem hlt) (by omega))
  · rw [List.getElem?_eq_none (by rwa [length_cells]), List.getElem?_eq_none (by omega)]

/-! ### Lists written to around their end -/

variable {y : Nat → α}

/-- `l` with `x 0`, `x 1`, …, `n` elements in all, written one after the other from `start` on. -/
def writeAround (l : List α) (start : Nat) (x : Nat → α) : Nat → List α
  | 0 => l
  | n + 1 => (writeAround l start x n).set ((start + n) % l.length) (x n)

theorem writeAround_succ (l : List α) (start : Nat) (x : Nat → α) (n : Nat) :
    writeAround l start x (n + 1) = (writeAround l start x n).set ((start + n) % l.length) (x n) :=
  rfl

@[simp] theorem length_writeAround : (writeAround l start x n).length = l.length := by
  induction n with
  | zero => rfl
  | succ n ih => rw [writeAround_succ, List.length_set, ih]

theorem writeAround_congr (h : ∀ i < n, x i = y i) :
    writeAround l start x n = writeAround l start y n := by
  induction n with
  | zero => rfl
  | succ n ih =>
    rw [writeAround_succ, writeAround_succ, h n (Nat.lt_succ_self n),
      ih fun i hi => h i (Nat.lt_succ_of_lt hi)]

/-- The newest elements are not written over. -/
theorem getElem?_writeAround_newest (hi : i < n) (hn : n ≤ i + l.length) :
    (writeAround l start x n)[(start + i) % l.length]? = some (x i) := by
  induction n with
  | zero => exact absurd hi (Nat.not_lt_zero i)
  | succ n ih =>
    have hpos : 0 < l.length := by omega
    rw [writeAround_succ]
    by_cases hlast : i = n
    · rw [hlast, List.getElem?_set_self]
      rw [length_writeAround]
      exact Nat.mod_lt _ hpos
    · -- the place of element `n` has not come round to that of `i`
      have hplace : (start + i) % l.length ≠ (start + n) % l.length := by
        intro h
        have hround := add_size_le h (by omega)
        omega
      rw [List.getElem?_set_ne hplace.symm]
      exact ih (by omega) (by omega)

/-- Places that are not written to keep their elements. -/
theorem getElem?_writeAround_frame (h : ∀ i < n, j ≠ (start + i) % l.length) :
    (writeAround l start x n)[j]? = l[j]? := by
  induction n with
  | zero => rfl
  | succ n ih =>
    rw [writeAround_succ, List.getElem?_set_ne (h n (Nat.lt_succ_self n)).symm]
    exact ih fun i hi => h i (Nat.lt_succ_of_lt hi)

/-- What stands at a place was written there, or has not been written over. -/
theorem getElem?_writeAround_cases {a : α} (h : (writeAround l start x n)[j]? = some a) :
    (∃ i < n, j = (start + i) % l.length ∧ a = x i) ∨ l[j]? = some a := by
  induction n with
  | zero => exact .inr h
  | succ n ih =>
    rw [writeAround_succ] at h
    by_cases hj : (start + n) % l.length = j
    · subst hj
      have hlt := (List.getElem?_eq_some_iff.mp h).1
      rw [List.length_set] at hlt
      rw [List.getElem?_set_self hlt] at h
      exact .inl ⟨n, Nat.lt_succ_self n, rfl, (Option.some.inj h).symm⟩
    · rw [List.getElem?_set_ne hj] at h
      rcases ih h with ⟨i, hi, hij, ha⟩ | hl
      · exact .inl ⟨i, Nat.lt_succ_of_lt hi, hij, ha⟩
      · exact .inr hl

end Ring
