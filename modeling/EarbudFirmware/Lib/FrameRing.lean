import Mathlib.Data.Nat.ModEq

/-!
# Frames in a ring of cells

Frames of any length are stored in a ring of `size` cells, each in one piece: a frame that does not
fit before the end of the ring is stored at its start. The address `start k` of frame `k` does not
go round; its cell is `start k % size`.

## Main definitions

* `Window` — consecutive frames that lie one behind the other within a turn of the ring

## Main results

* `Window.suffix`, `Window.push` — frames leave and enter
-/

namespace FrameRing

variable {size a b n k l i j : ℕ} {start len : ℕ → ℕ}

/-- The frames `a ≤ k < n` lie one behind the other, each in one piece, and leave a cell of the
turn after the first one free. -/
structure Window (size : ℕ) (start len : ℕ → ℕ) (a n : ℕ) : Prop where
  next : ∀ k, a ≤ k → k + 1 < n → start k + len k ≤ start (k + 1)
  turn : ∀ k, a ≤ k → k < n → start k + len k < start a + size
  piece : ∀ k, a ≤ k → k < n → start k % size + len k ≤ size

theorem Window.empty : Window size start len n n :=
  ⟨by omega, by omega, by omega⟩

/-- A window is a matter of its own frames. -/
theorem Window.congr {start' len' : ℕ → ℕ} (h : Window size start len a n)
    (hstart : ∀ k, a ≤ k → k < n → start' k = start k)
    (hlen : ∀ k, a ≤ k → k < n → len' k = len k) : Window size start' len' a n where
  next k hk hkn := by
    rw [hstart k hk (by omega), hlen k hk (by omega), hstart (k + 1) (by omega) hkn]
    exact h.next k hk hkn
  turn k hk hkn := by
    rw [hstart k hk hkn, hlen k hk hkn, hstart a (Nat.le_refl a) (by omega)]
    exact h.turn k hk hkn
  piece k hk hkn := by
    rw [hstart k hk hkn, hlen k hk hkn]
    exact h.piece k hk hkn

/-- A frame ends before each later one starts. -/
theorem Window.le (h : Window size start len a n) (hk : a ≤ k) (hkl : k < l) (hl : l < n) :
    start k + len k ≤ start l := by
  induction l, hkl using Nat.le_induction with
  | base => exact h.next k hk hl
  | succ l hkl ih =>
    have hlast := h.next l (by omega) hl
    have := ih (by omega)
    omega

theorem Window.start_le (h : Window size start len a n) (hk : a ≤ k) (hkl : k ≤ l) (hl : l < n) :
    start k ≤ start l := by
  rcases Nat.eq_or_lt_of_le hkl with rfl | hlt
  · exact Nat.le_refl _
  · exact Nat.le_trans (Nat.le_add_right _ _) (h.le hk hlt hl)

/-- The oldest frames leave. -/
theorem Window.suffix (h : Window size start len a n) (hab : a ≤ b) :
    Window size start len b n where
  next k hk := h.next k (by omega)
  turn k hk hkn := by
    have hturn := h.turn k (by omega) hkn
    have hstart := h.start_le (Nat.le_refl a) hab (by omega : b < n)
    omega
  piece k hk := h.piece k (by omega)

/-- A frame enters behind the others. -/
theorem Window.push (h : Window size start len a n)
    (hnext : ∀ k, a ≤ k → k < n → start k + len k ≤ start n ∧ start n + len n < start k + size)
    (hempty : len n < size) (hpiece : start n % size + len n ≤ size) :
    Window size start len a (n + 1) where
  next k hk hkn := by
    rcases Nat.eq_or_lt_of_le (Nat.le_of_lt_succ hkn) with heq | hlt
    · rw [heq]
      exact (hnext k hk (by omega)).1
    · exact h.next k hk hlt
  turn k hk hkn := by
    rcases Nat.eq_or_lt_of_le (Nat.le_of_lt_succ hkn) with rfl | hlt
    · rcases Nat.eq_or_lt_of_le hk with rfl | hak
      · omega
      · exact (hnext a (Nat.le_refl a) hak).2
    · exact h.turn k hk hlt
  piece k hk hkn := by
    rcases Nat.eq_or_lt_of_le (Nat.le_of_lt_succ hkn) with rfl | hlt
    · exact hpiece
    · exact h.piece k hk hlt

/-- The cell of an address in a frame that is in one piece. -/
theorem cell_eq {s m : ℕ} (h : s % size + m ≤ size) (hi : i < m) :
    (s + i) % size = s % size + i := by
  rw [Nat.add_mod, Nat.mod_eq_of_lt (by omega : i < size), Nat.mod_eq_of_lt (by omega)]

/-- Addresses less than a turn apart have different cells. -/
theorem cell_ne {s t m p : ℕ} (hs : s % size + m ≤ size) (ht : t % size + p ≤ size)
    (hst : s + m ≤ t) (hts : t + p ≤ s + size) (hi : i < m) (hj : j < p) :
    s % size + i ≠ t % size + j := by
  intro heq
  rw [← cell_eq hs hi, ← cell_eq ht hj] at heq
  have hmod := Nat.sub_mod_eq_zero_of_mod_eq heq.symm
  rw [Nat.mod_eq_of_lt (by omega)] at hmod
  omega

end FrameRing
