import Mathlib.Data.List.Basic

/-!
# In-order execution of queued operations

A device executes a queue of operations, oldest first. An operation may be interrupted in the middle
and started again. `apply op c` is the content after the complete operation `op` on the content `c`.

## Main definitions

* `after` — the content once the whole queue has been executed
* `Throughout` — a property of every content between two operations

## Main results

* `throughout_concat` — adding an operation adds one content to look at
* `Throughout.interrupt` — an interrupted operation that can still be completed
-/

namespace InOrder

variable {Op C : Type*} {apply : Op → C → C} {P P' : C → Prop} {op : Op} {q : List Op} {c d : C}

/-- The content after executing the queue. -/
def after (apply : Op → C → C) (q : List Op) (c : C) : C := q.foldl (fun c op => apply op c) c

@[simp] theorem after_nil (c : C) : after apply [] c = c := rfl

@[simp] theorem after_cons (op : Op) (q : List Op) (c : C) :
    after apply (op :: q) c = after apply q (apply op c) := rfl

@[simp] theorem after_append (q r : List Op) (c : C) :
    after apply (q ++ r) c = after apply r (after apply q c) := List.foldl_append

/-- The property holds now and after each of the queued operations. -/
def Throughout (apply : Op → C → C) (P : C → Prop) : List Op → C → Prop
  | [], c => P c
  | op :: q, c => P c ∧ Throughout apply P q (apply op c)

@[simp] theorem throughout_nil : Throughout apply P [] c ↔ P c := Iff.rfl

@[simp] theorem throughout_cons :
    Throughout apply P (op :: q) c ↔ P c ∧ Throughout apply P q (apply op c) := Iff.rfl

theorem Throughout.now (h : Throughout apply P q c) : P c := by
  cases q with
  | nil => exact h
  | cons op q => exact h.1

theorem Throughout.mono (hP : ∀ c, P c → P' c) (h : Throughout apply P q c) :
    Throughout apply P' q c := by
  induction q generalizing c with
  | nil => exact hP c h
  | cons op q ih => exact ⟨hP c h.1, ih h.2⟩

theorem throughout_concat :
    Throughout apply P (q ++ [op]) c ↔
      Throughout apply P q c ∧ P (apply op (after apply q c)) := by
  induction q generalizing c with
  | nil => rfl
  | cons op' q ih =>
    rw [List.cons_append, throughout_cons, throughout_cons, ih, after_cons]
    exact and_assoc.symm

/-- An interrupted operation has left `d`, from which completing it leads to the same content. -/
theorem Throughout.interrupt (h : Throughout apply P (op :: q) c) (hd : P d)
    (happly : apply op d = apply op c) : Throughout apply P (op :: q) d :=
  ⟨hd, happly ▸ h.2⟩

end InOrder
