import Mathlib.Data.List.Basic

/-!
# The first element with the largest key

A loop that goes through a list and keeps an element whenever its key is strictly larger than the
largest one so far ends with the first element that has the largest key.

## Main definitions

* `FirstMax p key l i e` — the element `e` at place `i` is the first with the largest key among the
  elements of `l` that satisfy `p`
* `FirstMax.scan` — one round of such a loop that starts with a smallest key

## Main results

* `FirstMax.keep`, `FirstMax.take` — how the first maximum changes with one more element
* `FirstMax.eq_of_find?` — an element that is found first is the maximum, once it is large enough
* `FirstMax.foldl_scan_of_newest` — the loop finds an element with a larger key than all others
-/

variable {α : Type*} {p : α → Prop} {key : α → ℕ} {l : List α} {i : ℕ} {e x : α}

/-- The element `e` at place `i` of `l` satisfies `p`, and no other element that does has a larger
key, or the same one further up. -/
structure FirstMax (p : α → Prop) (key : α → ℕ) (l : List α) (i : ℕ) (e : α) : Prop where
  get : l[i]? = some e
  holds : p e
  le : ∀ x ∈ l, p x → key x ≤ key e
  lt : ∀ j x, j < i → l[j]? = some x → p x → key x < key e

namespace FirstMax

theorem mem (h : FirstMax p key l i e) : e ∈ l := List.mem_of_getElem? h.get

/-- An element that is no candidate, or that has no larger key, changes nothing. -/
theorem keep (h : FirstMax p key l i e) (hx : p x → key x ≤ key e) :
    FirstMax p key (l ++ [x]) i e := by
  have hi : i < l.length := (List.getElem?_eq_some_iff.mp h.get).1
  refine ⟨?_, h.holds, ?_, ?_⟩
  · rw [List.getElem?_append_left hi]
    exact h.get
  · intro y hy hpy
    rcases List.mem_append.mp hy with hl | hl
    · exact h.le y hl hpy
    · obtain rfl := List.mem_singleton.mp hl
      exact hx hpy
  · intro j y hj hy hpy
    rw [List.getElem?_append_left (by omega)] at hy
    exact h.lt j y hj hy hpy

/-- A candidate with a larger key than all candidates before it is taken. -/
theorem take (hlt : ∀ y ∈ l, p y → key y < key x) (hx : p x) :
    FirstMax p key (l ++ [x]) l.length x := by
  refine ⟨by simp, hx, ?_, ?_⟩
  · intro y hy hpy
    rcases List.mem_append.mp hy with hl | hl
    · exact Nat.le_of_lt (hlt y hl hpy)
    · obtain rfl := List.mem_singleton.mp hl
      exact Nat.le_refl _
  · intro j y hj hy hpy
    rw [List.getElem?_append_left hj] at hy
    exact hlt y (List.mem_of_getElem? hy) hpy

/-- Among the elements with the key of the maximum, the first one of the list is the maximum if it
is a candidate. -/
theorem eq_of_find? (h : FirstMax p key l i e) {n : ℕ} (hn : key e = n) {u : α}
    (hfind : l.find? (fun y => key y = n) = some u) (hu : p u) : u = e := by
  subst hn
  obtain ⟨hkey, as, bs, hl, hbefore⟩ := List.find?_eq_some_iff_append.mp hfind
  have hkey' : key u = key e := by simpa using hkey
  have hget : l[as.length]? = some u := by simp [hl]
  rcases Nat.lt_trichotomy as.length i with hlt | heq | hgt
  · have := h.lt _ _ hlt hget hu
    omega
  · subst heq
    exact Option.some.inj (hget.symm.trans h.get)
  · -- the maximum would stand before the first element with its key
    have hmem : e ∈ as := by
      have hi := h.get
      rw [hl, List.getElem?_append_left hgt] at hi
      exact List.mem_of_getElem? hi
    have := hbefore e hmem
    simp at this

/-! ### The loop over the places of a list -/

section scan

variable {κ : Type*} [LT κ] [DecidableLT κ] {q : α → Bool} {rank : α → κ}

/-- One round of a search for the largest key: whether there has been a candidate, and the largest
key with its place. -/
def scan (q : α → Bool) (rank : α → κ) (acc : Bool × κ × ℕ) (x : α × ℕ) : Bool × κ × ℕ :=
  if q x.1 then
    (true, if acc.2.1 < rank x.1 then (rank x.1, x.2) else acc.2)
  else acc

theorem scan_fst (acc : Bool × κ × ℕ) (x : α × ℕ) :
    (scan q rank acc x).1 = (acc.1 || q x.1) := by
  unfold scan
  split_ifs with hq <;> simp [hq]

variable [LE κ] [Std.IsLinearOrder κ] [Std.LawfulOrderLT κ]

/-- A round does not lose the key that it has. -/
theorem le_scan (q : α → Bool) (rank : α → κ) (acc : Bool × κ × ℕ) (x : α × ℕ) :
    acc.2.1 ≤ (scan q rank acc x).2.1 := by
  unfold scan
  split_ifs with hq hlt
  · exact Std.le_of_lt hlt
  · exact Std.le_refl _
  · exact Std.le_refl _

/-- A candidate has no larger key than the round that looks at it. -/
theorem rank_le_scan (acc : Bool × κ × ℕ) {x : α × ℕ} (hq : q x.1) :
    rank x.1 ≤ (scan q rank acc x).2.1 := by
  unfold scan
  rw [if_pos hq]
  split_ifs with hlt
  · exact Std.le_refl _
  · exact Std.not_lt.mp hlt

/-- The loop keeps the largest key, and a place that has it. -/
theorem foldl_scan (q : α → Bool) (rank : α → κ) (l : List α) (j : ℕ) (acc : Bool × κ × ℕ) :
    ((l.zipIdx j).foldl (scan q rank) acc).1 = (acc.1 || l.any q) ∧
      acc.2.1 ≤ ((l.zipIdx j).foldl (scan q rank) acc).2.1 ∧
      (∀ x ∈ l, q x → rank x ≤ ((l.zipIdx j).foldl (scan q rank) acc).2.1) ∧
      (((l.zipIdx j).foldl (scan q rank) acc).2 = acc.2 ∨
        ∃ k x, l[k]? = some x ∧ q x ∧ acc.2.1 < rank x ∧
          ((l.zipIdx j).foldl (scan q rank) acc).2 = (rank x, j + k)) := by
  induction l generalizing j acc with
  | nil => simp
  | cons x l ih =>
    rw [List.zipIdx_cons, List.foldl_cons]
    obtain ⟨hex, hle, hall, hwhich⟩ := ih (j + 1) (scan q rank acc (x, j))
    have hacc := le_scan q rank acc (x, j)
    refine ⟨?_, Std.le_trans hacc hle, fun y hy hq => ?_, ?_⟩
    · rw [hex, List.any_cons, scan_fst, Bool.or_assoc]
    · rcases List.mem_cons.mp hy with rfl | hy
      · exact Std.le_trans (rank_le_scan acc (x := (y, j)) hq) hle
      · exact hall y hy hq
    · rcases hwhich with heq | ⟨k, y, hk, hq, hlt, heq⟩
      · rw [heq]
        unfold scan
        split_ifs with hq hlt
        · exact .inr ⟨0, x, rfl, hq, hlt, rfl⟩
        · exact .inl rfl
        · exact .inl rfl
      · refine .inr ⟨k + 1, y, hk, hq, Std.lt_of_le_of_lt hacc hlt, ?_⟩
        rw [heq, Nat.add_assoc, Nat.add_comm 1]

/-- The loop finds an element with a larger key than all other candidates. The smallest key has to
be at the first place, where the loop starts. -/
theorem foldl_scan_of_newest {bot : κ} (hbot : ∀ x, bot ≤ rank x) (he : l[i]? = some e) (hq : q e)
    (hzero : rank e = bot → i = 0)
    (hnewest : ∀ j x, l[j]? = some x → q x → j ≠ i → rank x < rank e) :
    l.zipIdx.foldl (scan q rank) (false, bot, 0) = (true, rank e, i) := by
  obtain ⟨hex, -, hall, hwhich⟩ := foldl_scan q rank l 0 (false, bot, 0)
  have hmem : e ∈ l := List.mem_of_getElem? he
  have hle := hall e hmem hq
  refine Prod.ext ?_ ?_
  · rw [hex, Bool.false_or]
    exact List.any_eq_true.mpr ⟨e, hmem, hq⟩
  · rcases hwhich with heq | ⟨k, x, hk, hx, hpos, heq⟩
    · -- nothing is larger than the smallest key
      rw [heq] at hle ⊢
      have hsmallest : rank e = bot := Std.le_antisymm hle (hbot e)
      rw [hsmallest, hzero hsmallest]
    · by_cases hki : k = i
      · subst hki
        obtain rfl := Option.some.inj (he.symm.trans hk)
        rw [heq, Nat.zero_add]
      · rw [heq] at hle
        exact absurd (hnewest k x hk hx hki) (Std.not_lt.mpr hle)

/-- Without a candidate the loop changes nothing. -/
theorem foldl_scan_of_none (h : ∀ x ∈ l, q x = false) (acc : Bool × κ × ℕ) :
    l.zipIdx.foldl (scan q rank) acc = acc := by
  obtain ⟨hex, -, -, hwhich⟩ := foldl_scan q rank l 0 acc
  refine Prod.ext ?_ ?_
  · rw [hex, List.any_eq_false.mpr fun x hx => by simp [h x hx], Bool.or_false]
  · rcases hwhich with heq | ⟨k, x, hk, hx, -, -⟩
    · exact heq
    · rw [h x (List.mem_of_getElem? hk)] at hx
      exact absurd hx Bool.false_ne_true

end scan

end FirstMax
