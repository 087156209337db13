import Mathlib.Data.List.Basic

/-!
# Queues whose sender is told what was taken

Elements are taken from a queue in order, and later the sender is told of each one, again in order.
At most `n` elements that the sender has not been told of are in the queue.

## Main definitions

* `AckedQueue` — all elements sent, with the numbers of those taken and those acknowledged
* `AckedQueue.send`, `AckedQueue.take`, `AckedQueue.ack` — one element more
* `AckedQueue.Bounded` — the numbers are in order, and the bound is kept

## Main results

* `Bounded.send`, `Bounded.take`, `Bounded.ack` — the operations that a bounded queue allows
-/

/-- The elements sent, oldest first; `taken` of them were taken, and `acked` acknowledged. -/
structure AckedQueue (α : Type*) where
  sent : List α
  taken : ℕ
  acked : ℕ

namespace AckedQueue

variable {α : Type*} {n : ℕ} {q : AckedQueue α} {a : α}

/-- Nothing has been sent. -/
def empty : AckedQueue α := ⟨[], 0, 0⟩

/-- One element more is sent. -/
def send (q : AckedQueue α) (a : α) : AckedQueue α := { q with sent := q.sent ++ [a] }

/-- The oldest element that is left is taken. -/
def take (q : AckedQueue α) : AckedQueue α := { q with taken := q.taken + 1 }

/-- The sender is told of the oldest taken element that it does not know of. -/
def ack (q : AckedQueue α) : AckedQueue α := { q with acked := q.acked + 1 }

/-- `n` elements are sent and not acknowledged. -/
def Full (n : ℕ) (q : AckedQueue α) : Prop := q.sent.length = q.acked + n

instance : Decidable (Full n q) := inferInstanceAs (Decidable (_ = _))

/-- Only elements that were sent are taken, only those taken are acknowledged, and at most `n` are
waiting for it. -/
structure Bounded (n : ℕ) (q : AckedQueue α) : Prop where
  acked_le : q.acked ≤ q.taken
  taken_le : q.taken ≤ q.sent.length
  sent_le : q.sent.length ≤ q.acked + n

theorem bounded_empty : Bounded n (empty : AckedQueue α) :=
  ⟨Nat.le_refl 0, Nat.le_refl 0, Nat.zero_le _⟩

theorem Bounded.send (h : q.Bounded n) (hfull : ¬q.Full n) : (q.send a).Bounded n := by
  refine ⟨h.acked_le, ?_, ?_⟩ <;> simp only [AckedQueue.send, List.length_append,
    List.length_singleton]
  · have hle := h.taken_le
    omega
  · have hle := h.sent_le
    rw [Full] at hfull
    omega

theorem Bounded.take (h : q.Bounded n) (hlt : q.taken < q.sent.length) : q.take.Bounded n :=
  ⟨Nat.le_succ_of_le h.acked_le, hlt, h.sent_le⟩

theorem Bounded.ack (h : q.Bounded n) (hlt : q.acked < q.taken) : q.ack.Bounded n :=
  ⟨hlt, h.taken_le, Nat.le_trans h.sent_le (by simp only [AckedQueue.ack]; omega)⟩

/-- A taken element that was not acknowledged keeps a queue without places from being bounded. -/
theorem Bounded.eq_empty (h : q.Bounded 0) : q.sent.length = q.acked ∧ q.taken = q.acked := by
  have hacked := h.acked_le
  have htaken := h.taken_le
  have hsent := h.sent_le
  omega

end AckedQueue
