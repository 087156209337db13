import EarbudFirmware.Lib.Ring

/-!
# Marked slots of a circle

The positions of a stream go round `size` slots, and each slot has a mark. The marks tell the
positions from `m` to `n` apart from the others as long as these go round at most once: what comes
in marks the slot behind them, and what goes out clears the mark of the first one.

## Main definitions

* `Marks` — the marked slots are those of the positions from `m` to `n`

## Main results

* `Marks.first`, `Marks.exists_iff` — the marks show whether there is a position
* `Marks.behind` — the slot behind the positions is free
* `Marks.set`, `Marks.clear` — a position comes in behind the others, and the first one goes out
* `Newest.concat` — an element more is written
-/

namespace Ring

variable {marked marked' : Nat → Bool} {size m n : Nat}

/-- The marked slots are those of the positions from `m` to `n`. -/
def Marks (marked : Nat → Bool) (size m n : Nat) : Prop :=
  ∀ i < size, marked i = true ↔ ∃ k, m ≤ k ∧ k < n ∧ k % size = i

/-- Two positions in one slot are a whole circle apart. -/
theorem add_size_le_of_mod {i j : Nat} (h : i % size = j % size) (hij : i < j) : i + size ≤ j := by
  have hmod : (0 + i) % size = (0 + j) % size := by rwa [Nat.zero_add, Nat.zero_add]
  exact add_size_le hmod hij

theorem marks_empty (h : ∀ i < size, marked i = false) : Marks marked size m m := by
  intro i hi
  refine iff_of_false (by rw [h i hi]; exact Bool.false_ne_true) ?_
  rintro ⟨k, hm, hn, -⟩
  omega

theorem Marks.congr (h : Marks marked size m n) (heq : ∀ i < size, marked' i = marked i) :
    Marks marked' size m n := by
  intro i hi
  rw [heq i hi]
  exact h i hi

/-- The mark of the first position shows whether there is one. -/
theorem Marks.first (h : Marks marked size m n) (hs : 0 < size) :
    marked (m % size) = true ↔ m < n := by
  rw [h _ (Nat.mod_lt m hs)]
  constructor
  · rintro ⟨k, hm, hn, -⟩
    omega
  · intro hlt
    exact ⟨m, Nat.le_refl m, hlt, rfl⟩

/-- Some slot is marked exactly if there is a position. -/
theorem Marks.exists_iff (h : Marks marked size m n) (hs : 0 < size) :
    (∃ i < size, marked i = true) ↔ m < n := by
  constructor
  · rintro ⟨i, hi, hmark⟩
    obtain ⟨k, hm, hn, -⟩ := (h i hi).mp hmark
    omega
  · intro hlt
    have hi := Nat.mod_lt m hs
    exact ⟨m % size, hi, (h _ hi).mpr ⟨m, Nat.le_refl m, hlt, rfl⟩⟩

/-- The slot behind the positions is free while they leave one. -/
theorem Marks.behind (h : Marks marked size m n) (hmn : m ≤ n) (hlt : n < m + size) :
    marked (n % size) = false := by
  rw [Bool.eq_false_iff, Ne, h _ (Nat.mod_lt n (by omega))]
  rintro ⟨k, hm, hn, hk⟩
  have hround := add_size_le_of_mod hk hn
  omega

/-- A position comes in behind the others. -/
theorem Marks.set (h : Marks marked size m n) (hmn : m ≤ n)
    (hset : ∀ i < size, marked' i = (decide (i = n % size) || marked i)) :
    Marks marked' size m (n + 1) := by
  intro i hi
  rw [hset i hi, Bool.or_eq_true, decide_eq_true_eq, h i hi]
  constructor
  · rintro (rfl | ⟨k, hm, hn, hk⟩)
    · exact ⟨n, hmn, by omega, rfl⟩
    · exact ⟨k, hm, by omega, hk⟩
  · rintro ⟨k, hm, hn, hk⟩
    rcases Nat.lt_succ_iff_lt_or_eq.mp hn with hlt | rfl
    · exact Or.inr ⟨k, hm, hlt, hk⟩
    · exact Or.inl hk.symm

/-- The first position goes out. -/
theorem Marks.clear (h : Marks marked size m n) (hle : n ≤ m + size)
    (hclear : ∀ i < size, marked' i = (!decide (i = m % size) && marked i)) :
    Marks marked' size (m + 1) n := by
  intro i hi
  rw [hclear i hi, Bool.and_eq_true, Bool.not_eq_true', decide_eq_false_iff_not, h i hi]
  constructor
  · rintro ⟨hne, k, hm, hn, hk⟩
    have hkm : m ≠ k := by
      rintro rfl
      exact hne hk.symm
    exact ⟨k, by omega, hn, hk⟩
  · rintro ⟨k, hm, hn, hk⟩
    refine ⟨?_, k, by omega, hn, hk⟩
    rintro rfl
    have hround := add_size_le_of_mod hk.symm (by omega)
    omega

/-- An element more is written behind the newest ones. -/
theorem Newest.concat {α : Type*} {b b' : Nat → α} {l : List α} {a : α} (h : Newest b size l)
    (hnew : b' (l.length % size) = a) (hframe : ∀ p, p ≠ l.length % size → b' p = b p) :
    Newest b' size (l ++ [a]) := by
  refine h.append (n := 1) (x := fun _ => a) ⟨fun i hi => ?_, fun p hp => hframe p ?_⟩
  · obtain rfl : i = 0 := by omega
    rw [Nat.add_zero, Nat.mod_mod]
    exact hnew
  · have hne := hp 0 Nat.one_pos
    rwa [Nat.add_zero, Nat.mod_mod] at hne

end Ring
