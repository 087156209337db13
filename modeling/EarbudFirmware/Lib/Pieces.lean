import Mathlib.Data.List.Basic

/-!
# Pieces of one size

A list is cut into pieces of `size` elements. The last piece may be shorter, until the list is
filled up.

## Main definitions

* `piece` — piece `j` of a list
* `count` — the number of pieces
* `filled` — the list with its last piece filled up

## Main results

* `piece_append` — the pieces that are complete do not change when the list grows
* `flatMap_piece` — pieces one behind the other are a part of the list
-/

namespace Pieces

variable {α : Type*} {size a j k : ℕ} {l l' : List α} {x : α}

/-- Piece `j` of `l`. -/
def piece (size : ℕ) (l : List α) (j : ℕ) : List α := (l.drop (j * size)).take size

/-- The number of pieces of `l`, with an incomplete one. -/
def count (size : ℕ) (l : List α) : ℕ := (l.length + (size - 1)) / size

/-- `l` with its last piece filled up with `x`. -/
def filled (size : ℕ) (x : α) (l : List α) : List α :=
  l ++ List.replicate (count size l * size - l.length) x

/-- A complete piece does not change when the list grows. -/
theorem piece_append (h : (j + 1) * size ≤ l.length) : piece size (l ++ l') j = piece size l j := by
  have hj : j * size + size ≤ l.length := by rwa [← Nat.succ_mul]
  unfold piece
  rw [List.drop_append_of_le_length (by omega), List.take_append_of_le_length]
  rw [List.length_drop]
  omega

/-- The last piece is all that is left. -/
theorem piece_eq_drop (h : l.length ≤ (j + 1) * size) : piece size l j = l.drop (j * size) := by
  have hj : l.length ≤ j * size + size := by rwa [← Nat.succ_mul]
  unfold piece
  rw [List.take_of_length_le]
  rw [List.length_drop]
  omega

/-- Pieces one behind the other. -/
theorem flatMap_piece :
    (List.range' a k).flatMap (piece size l) = (l.drop (a * size)).take (k * size) := by
  induction k generalizing a with
  | zero => simp
  | succ k ih =>
    rw [List.range'_succ, List.flatMap_cons, ih, piece, Nat.succ_mul a, Nat.succ_mul k,
      Nat.add_comm (k * size), List.take_add, List.drop_drop]

/-- The number of pieces of a list whose last piece is incomplete. -/
theorem count_of_not_dvd (hpos : 0 < size) (h : ¬size ∣ l.length) :
    count size l = l.length / size + 1 := by
  have hlt := Nat.mod_lt l.length hpos
  have hne : l.length % size ≠ 0 := fun h0 => h (Nat.dvd_of_mod_eq_zero h0)
  have hlen := Nat.div_add_mod' l.length size
  refine Nat.div_eq_of_lt_le ?_ ?_
  · rw [Nat.succ_mul]
    omega
  · rw [Nat.succ_mul, Nat.succ_mul]
    omega

theorem count_of_dvd (hpos : 0 < size) (h : size ∣ l.length) : count size l = l.length / size := by
  obtain ⟨k, hk⟩ := h
  rw [count, hk, Nat.mul_add_div hpos, Nat.div_eq_of_lt (by omega), Nat.mul_div_cancel_left _ hpos,
    Nat.add_zero]

/-- The pieces have room for the list. -/
theorem length_le_count (hpos : 0 < size) : l.length ≤ count size l * size := by
  have hlt := Nat.lt_div_mul_add hpos (a := l.length + (size - 1))
  unfold count
  omega

/-- The last piece is not empty. -/
theorem lt_length_of_lt_count (hpos : 0 < size) (hj : j < count size l) : j * size < l.length := by
  have hle := Nat.mul_le_of_le_div size (j + 1) _ hj
  rw [Nat.succ_mul] at hle
  omega

theorem length_filled (hpos : 0 < size) : (filled size x l).length = count size l * size := by
  have hle := length_le_count hpos (l := l)
  rw [filled, List.length_append, List.length_replicate]
  omega

/-- A piece of the filled list is a piece filled up. -/
theorem piece_filled (hpos : 0 < size) (hj : j < count size l) :
    piece size (filled size x l) j =
      piece size l j ++ List.replicate (size - (piece size l j).length) x := by
  have hlt := lt_length_of_lt_count hpos hj
  have hroom : (j + 1) * size ≤ count size l * size := Nat.mul_le_mul_right size hj
  rw [Nat.succ_mul] at hroom
  unfold piece filled
  rw [List.drop_append_of_le_length (by omega), List.take_append, List.take_replicate]
  congr 2
  rw [List.length_take, List.length_drop]
  omega

end Pieces
