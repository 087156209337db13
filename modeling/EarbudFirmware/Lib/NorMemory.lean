import Mathlib.Data.List.Basic
import Mathlib.Data.UInt
import Mathlib.Tactic.SplitIfs

/-!
# NOR flash cells

Programming NOR flash clears bits, erasing sets every bit of a range. An interrupted operation
leaves something in between. Operations act on each byte separately, so a queue of pending
operations is a function on bytes, here with the newest operation first.

## Main definitions

* `Op` — an erase or a program operation
* `Op.apply` — its effect on the whole memory when it completes
* `Op.put` — the effect that its caller has in mind
* `Op.Partial` — what an interrupted operation may leave behind
* `settle` — the byte that a queue of pending operations ends with

## Main results

* `Op.Partial.byteAt_eq` — completing an interrupted operation gives what completing it at once
  would have given
* `settle_eq_of_first` — only the newest operation that covers a byte and the ones below it matter
* `settle_filter` — operations that do not cover a byte may be dropped
-/

namespace NorMemory

/-- The content of a memory. -/
abbrev Content := Nat → UInt8

/-- `x` is one of the `n` addresses from `a` on. -/
def InRange (a n x : Nat) : Prop := a ≤ x ∧ x < a + n

instance (a n x : Nat) : Decidable (InRange a n x) := inferInstanceAs (Decidable (_ ∧ _))

/-- Replaces `n` bytes from `a` on. -/
def overlay (a n : Nat) (d : Nat → UInt8) (f : Content) : Content :=
  fun x => if InRange a n x then d (x - a) else f x

theorem overlay_of_inRange {a n x : Nat} (h : InRange a n x) (d : Nat → UInt8) (f : Content) :
    overlay a n d f x = d (x - a) := if_pos h

theorem overlay_of_not_inRange {a n x : Nat} (h : ¬InRange a n x) (d : Nat → UInt8)
    (f : Content) : overlay a n d f x = f x := if_neg h

/-- No bytes are replaced. -/
theorem overlay_none (a : Nat) (d : Nat → UInt8) (f : Content) : overlay a 0 d f = f := by
  funext x
  exact overlay_of_not_inRange (fun h => Nat.not_lt.mpr h.1 h.2) d f

/-- Bytes that are replaced one behind the other. -/
theorem overlay_append {a n m : Nat} {d : Nat → UInt8} {f : Content} :
    overlay (a + n) m (fun i => d (n + i)) (overlay a n d f) = overlay a (n + m) d f := by
  funext x
  by_cases hnext : InRange (a + n) m x
  · have hall : InRange a (n + m) x := ⟨Nat.le_of_add_right_le hnext.1, by
      rw [← Nat.add_assoc]
      exact hnext.2⟩
    rw [overlay_of_inRange hnext, overlay_of_inRange hall, ← Nat.sub_sub, Nat.add_sub_cancel']
    exact Nat.le_sub_of_add_le' hnext.1
  · rw [overlay_of_not_inRange hnext]
    exact if_congr ⟨fun h => ⟨h.1, Nat.lt_of_lt_of_le h.2 (by omega)⟩,
      fun h => ⟨h.1, Nat.lt_of_not_le fun hle => hnext ⟨hle, Nat.add_assoc .. ▸ h.2⟩⟩⟩ rfl rfl

/-- An operation on a range of the memory. -/
inductive Op where
  | erase (a n : Nat)
  | program (a n : Nat) (d : Nat → UInt8)

theorem erased_and (b : UInt8) : 0xFF &&& b = b := UInt8.neg_one_and

theorem and_erased (b : UInt8) : b &&& 0xFF = b := UInt8.and_neg_one

theorem eq_erased_of_and {a b : UInt8} (h : a &&& b = 0xFF) : a = 0xFF ∧ b = 0xFF :=
  UInt8.and_eq_neg_one_iff.1 h

namespace Op

/-- The addresses an operation may change. -/
def Covers : Op → Nat → Prop
  | erase a n, x => InRange a n x
  | program a n _, x => InRange a n x

instance (op : Op) (x : Nat) : Decidable (op.Covers x) := by
  cases op <;> exact inferInstanceAs (Decidable (InRange _ _ _))

/-- The effect of a completed operation on the byte `b` at `x`. -/
def byteAt : Op → Nat → UInt8 → UInt8
  | erase a n, x, b => if InRange a n x then 0xFF else b
  | program a n d, x, b => if InRange a n x then b &&& d (x - a) else b

/-- The effect of a completed operation on the memory. -/
def apply (op : Op) (f : Content) : Content := fun x => op.byteAt x (f x)

/-- The content that the caller of an operation asks for: programmed bytes are replaced. -/
def put : Op → Content → Content
  | erase a n, f => (erase a n).apply f
  | program a n d, f => overlay a n d f

/-- What an operation started on `f` may leave when it is interrupted: a program operation has
cleared some of the bits it would clear, an erase operation leaves anything in its range. -/
def Partial (op : Op) (f g : Content) : Prop :=
  ∀ x, if op.Covers x then
      match op with
      | erase _ _ => True
      | program a _ d => g x &&& f x = g x ∧ f x &&& d (x - a) &&& g x = f x &&& d (x - a)
    else g x = f x

theorem byteAt_of_not_covers {op : Op} {x : Nat} (h : ¬op.Covers x) (b : UInt8) :
    op.byteAt x b = b := by
  cases op with
  | erase a n => exact if_neg h
  | program a n d => exact if_neg h

@[simp] theorem apply_apply (op : Op) (f : Content) (x : Nat) :
    op.apply f x = op.byteAt x (f x) := rfl

/-- On erased cells programming stores the data. -/
theorem put_eq_apply {op : Op} {f : Content}
    (h : ∀ a n d, op = program a n d → ∀ x, InRange a n x → f x = 0xFF) :
    op.put f = op.apply f := by
  cases op with
  | erase a n => rfl
  | program a n d =>
    funext x
    simp only [put, overlay, apply, byteAt]
    split_ifs with hx
    · rw [h a n d rfl x hx, erased_and]
    · rfl

/-- An operation may be interrupted before it has changed anything. -/
theorem Partial.refl (op : Op) (f : Content) : op.Partial f f := by
  intro x
  cases op with
  | erase a n => split <;> simp
  | program a n d =>
    split
    · refine ⟨UInt8.and_self, ?_⟩
      rw [UInt8.and_comm (f x) (d (x - a)), UInt8.and_assoc, UInt8.and_self]
    · rfl

/-- Completing an interrupted operation gives what completing it at once would have given. -/
theorem Partial.byteAt_eq {op : Op} {f g : Content} (h : op.Partial f g) (x : Nat) :
    op.byteAt x (g x) = op.byteAt x (f x) := by
  by_cases hx : op.Covers x
  · have hp := h x
    rw [if_pos hx] at hp
    cases op with
    | erase a n => exact (if_pos hx).trans (if_pos hx).symm
    | program a n d =>
      obtain ⟨hle, hge⟩ := hp
      have hx : InRange a n x := hx
      simp only [byteAt, if_pos hx]
      calc g x &&& d (x - a) = g x &&& f x &&& d (x - a) := by rw [hle]
        _ = f x &&& d (x - a) &&& g x := by rw [UInt8.and_assoc, UInt8.and_comm]
        _ = f x &&& d (x - a) := hge
  · have hp := h x
    rw [if_neg hx] at hp
    rw [hp]

theorem Partial.eq_of_not_covers {op : Op} {f g : Content} (h : op.Partial f g) {x : Nat}
    (hx : ¬op.Covers x) : g x = f x := by
  have hp := h x
  rwa [if_neg hx] at hp

end Op

/-- The byte at `x` once the pending operations, newest first, have been applied to `b`. -/
def settle (q : List Op) (x : Nat) (b : UInt8) : UInt8 := q.foldr (fun op c => op.byteAt x c) b

@[simp] theorem settle_nil (x : Nat) (b : UInt8) : settle [] x b = b := rfl

@[simp] theorem settle_cons (op : Op) (q : List Op) (x : Nat) (b : UInt8) :
    settle (op :: q) x b = op.byteAt x (settle q x b) := rfl

@[simp] theorem settle_append (q r : List Op) (x : Nat) (b : UInt8) :
    settle (q ++ r) x b = settle q x (settle r x b) := List.foldr_append

theorem settle_of_not_covered {q : List Op} {x : Nat} (h : ∀ op ∈ q, ¬op.Covers x)
    (b : UInt8) : settle q x b = b := by
  induction q with
  | nil => rfl
  | cons op q ih =>
    rw [settle_cons, ih fun o ho => h o (List.mem_cons_of_mem _ ho),
      Op.byteAt_of_not_covers (h op List.mem_cons_self)]

/-- Above the newest operation that covers a byte nothing changes it. -/
theorem settle_eq_of_first {l r : List Op} {op : Op} {x : Nat}
    (h : ∀ o ∈ l, ¬o.Covers x) (b : UInt8) :
    settle (l ++ op :: r) x b = op.byteAt x (settle r x b) := by
  rw [settle_append, settle_of_not_covered h, settle_cons]

/-- Operations that do not cover a byte may be dropped from the queue. -/
theorem settle_filter {α : Type*} {q : List α} {op : α → Op} {p : α → Bool} {x : Nat}
    (h : ∀ a ∈ q, (op a).Covers x → p a) (b : UInt8) :
    settle ((q.filter p).map op) x b = settle (q.map op) x b := by
  induction q with
  | nil => rfl
  | cons a q ih =>
    have ih := ih fun o ho => h o (List.mem_cons_of_mem _ ho)
    by_cases hp : p a
    · rw [List.filter_cons_of_pos hp, List.map_cons, List.map_cons, settle_cons, settle_cons, ih]
    · have hx : ¬(op a).Covers x := fun hx => hp (h a List.mem_cons_self hx)
      rw [List.filter_cons_of_neg hp, List.map_cons, settle_cons, ih, Op.byteAt_of_not_covers hx]

/-- A queue whose operations over a byte are all erases, with at least one of them, erases it. -/
theorem settle_eq_of_erases {q : List Op} {x : Nat} (he : ∃ op ∈ q, op.Covers x)
    (hall : ∀ op ∈ q, op.Covers x → ∃ a n, op = .erase a n) (b : UInt8) :
    settle q x b = 0xFF := by
  induction q with
  | nil => simp at he
  | cons op q ih =>
    rw [settle_cons]
    by_cases hx : op.Covers x
    · obtain ⟨a, n, rfl⟩ := hall op List.mem_cons_self hx
      exact if_pos hx
    · rw [Op.byteAt_of_not_covers hx]
      refine ih ?_ fun o ho => hall o (List.mem_cons_of_mem _ ho)
      obtain ⟨o, ho, hox⟩ := he
      rcases List.mem_cons.1 ho with rfl | ho
      · exact absurd hox hx
      · exact ⟨o, ho, hox⟩

end NorMemory
