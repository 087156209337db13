import Mathlib.Data.List.Basic

/-!
# Frames in a stream

A sequence of frames is sent as one stream, and the stream is received in pieces. `w` is what has
been received and not been delivered, `r` is still to come.

## Main definitions

* `Pending` — the received elements and the coming ones are the frames that are left
* `complete` — the frames that a number of elements completes

## Main results

* `Pending.drop_frame` — a frame that has arrived completely is taken away
* `Pending.getElem_eq` — what has arrived agrees with the first frame
* `complete_add` — which frames further elements complete
-/

namespace Framing

variable {α : Type*}

/-- The received elements `w` and the coming ones `r` are the frames `fs`. -/
def Pending (w r : List α) (fs : List (List α)) : Prop := w ++ r = fs.flatten

variable {w r d f : List α} {fs gs : List (List α)}

/-- More of the stream arrives. -/
theorem Pending.arrive (h : Pending w (d ++ r) fs) : Pending (w ++ d) r fs := by
  unfold Pending at *
  rw [List.append_assoc, h]

/-- Something that has arrived belongs to a frame. -/
theorem Pending.exists_frame (h : Pending w r fs) (hw : w ≠ []) : ∃ f fs', fs = f :: fs' := by
  cases fs with
  | nil => exact absurd (List.append_eq_nil_iff.1 h).1 hw
  | cons f fs' => exact ⟨f, fs', rfl⟩

/-- The other frames are left when the first one, which has arrived, is taken away. -/
theorem Pending.drop_frame (h : Pending w r (f :: fs)) (hle : f.length ≤ w.length) :
    Pending (w.drop f.length) r fs := by
  have hdrop := congrArg (List.drop f.length) h
  rwa [List.flatten_cons, List.drop_left, List.drop_append_of_le_length hle] at hdrop

/-- What has arrived agrees with the first frame. -/
theorem Pending.getElem_eq (h : Pending w r (f :: fs)) {i : Nat} (hf : i < f.length)
    (hw : i < w.length) : w[i]? = f[i]? := by
  have hget := congrArg (fun l : List α => l[i]?) h
  rwa [List.flatten_cons, List.getElem?_append_left hw, List.getElem?_append_left hf] at hget

/-- Nothing is left when all of the stream has arrived and no frame is complete. -/
theorem Pending.eq_nil (h : Pending w [] fs) (hinc : ∀ f fs', fs = f :: fs' → w.length < f.length) :
    fs = [] := by
  cases fs with
  | nil => rfl
  | cons f fs' =>
    have hlen := congrArg List.length h
    rw [List.append_nil, List.flatten_cons, List.length_append] at hlen
    exact absurd (hinc f fs' rfl) (by omega)

/-! ### Complete frames -/

/-- The frames that the first `n` elements complete. -/
def complete : List (List α) → ℕ → List (List α)
  | [], _ => []
  | f :: fs, n => if f.length ≤ n then f :: complete fs (n - f.length) else []

variable {n m : ℕ}

theorem complete_cons_of_le (h : f.length ≤ n) :
    complete (f :: fs) n = f :: complete fs (n - f.length) := by
  rw [complete, if_pos h]

theorem complete_cons_of_lt (h : n < f.length) : complete (f :: fs) n = [] := by
  rw [complete, if_neg (by omega)]

/-- The complete frames are the first ones. -/
theorem complete_append_drop (fs : List (List α)) (n : ℕ) :
    complete fs n ++ fs.drop (complete fs n).length = fs := by
  induction fs generalizing n with
  | nil => rfl
  | cons f fs ih =>
    by_cases h : f.length ≤ n
    · rw [complete_cons_of_le h, List.length_cons, List.drop_succ_cons, List.cons_append, ih]
    · rw [complete_cons_of_lt (by omega)]
      rfl

theorem length_flatten_complete_le (fs : List (List α)) (n : ℕ) :
    (complete fs n).flatten.length ≤ n := by
  induction fs generalizing n with
  | nil => exact Nat.zero_le _
  | cons f fs ih =>
    by_cases h : f.length ≤ n
    · rw [complete_cons_of_le h, List.flatten_cons, List.length_append]
      have := ih (n - f.length)
      omega
    · rw [complete_cons_of_lt (by omega)]
      exact Nat.zero_le _

/-- The frame behind the complete ones is not complete. -/
theorem lt_of_drop_complete (h : fs.drop (complete fs n).length = f :: gs) :
    n - (complete fs n).flatten.length < f.length := by
  induction fs generalizing n with
  | nil => exact absurd h.symm (List.cons_ne_nil f gs)
  | cons f' fs ih =>
    by_cases hle : f'.length ≤ n
    · rw [complete_cons_of_le hle, List.length_cons, List.drop_succ_cons] at h
      have := ih h
      rw [complete_cons_of_le hle, List.flatten_cons, List.length_append]
      omega
    · rw [complete_cons_of_lt (by omega)] at h ⊢
      obtain ⟨rfl, rfl⟩ := List.cons.inj h
      exact Nat.lt_of_le_of_lt (Nat.sub_le _ _) (by omega)

/-- Further elements complete frames of those that are left. -/
theorem complete_add (fs : List (List α)) (n m : ℕ) :
    complete fs (n + m) = complete fs n ++
      complete (fs.drop (complete fs n).length) (n - (complete fs n).flatten.length + m) := by
  induction fs generalizing n with
  | nil => rfl
  | cons f fs ih =>
    by_cases h : f.length ≤ n
    · have hsub : n + m - f.length = n - f.length + m := by omega
      rw [complete_cons_of_le h, complete_cons_of_le (by omega : f.length ≤ n + m), hsub, ih,
        List.length_cons, List.drop_succ_cons, List.flatten_cons, List.length_append,
        Nat.sub_add_eq, List.cons_append]
    · rw [complete_cons_of_lt (by omega : n < f.length)]
      rfl

/-- Frames behind others are complete when these are. -/
theorem complete_append_of_le (h : fs.flatten.length ≤ n) :
    complete (fs ++ gs) n = fs ++ complete gs (n - fs.flatten.length) := by
  induction fs generalizing n with
  | nil => rfl
  | cons f fs ih =>
    rw [List.flatten_cons, List.length_append] at h
    rw [List.cons_append, complete_cons_of_le (by omega), ih (by omega), List.flatten_cons,
      List.length_append, Nat.sub_add_eq, List.cons_append]

/-- Some of the frames are not complete, and none behind them is. -/
theorem complete_append_of_lt (h : n < fs.flatten.length) :
    ∃ k < fs.length, complete (fs ++ gs) n = fs.take k := by
  induction fs generalizing n with
  | nil => exact absurd h (Nat.not_lt_zero n)
  | cons f fs ih =>
    rw [List.flatten_cons, List.length_append] at h
    by_cases hle : f.length ≤ n
    · obtain ⟨k, hk, hcomplete⟩ := ih (n := n - f.length) (by omega)
      refine ⟨k + 1, Nat.succ_lt_succ hk, ?_⟩
      rw [List.cons_append, complete_cons_of_le hle, hcomplete, List.take_succ_cons]
    · exact ⟨0, Nat.succ_pos _, complete_cons_of_lt (by omega)⟩

/-- Complete frames that have arrived are taken away. -/
theorem Pending.drop_flatten (h : Pending w r (gs ++ fs)) (hle : gs.flatten.length ≤ w.length) :
    Pending (w.drop gs.flatten.length) r fs := by
  have hdrop := congrArg (List.drop gs.flatten.length) h
  rwa [List.flatten_append, List.drop_left, List.drop_append_of_le_length hle] at hdrop

end Framing
