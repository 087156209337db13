import Mathlib.Data.List.Nodup
import Mathlib.Logic.Function.Basic

/-!
# Linked lists

Nodes with one pointer to the next node, and the lists that a pointer leads through. A list that
ends visits no node twice, so a write to a node that is not in it leaves it as it is.

## Main definitions

* `Seg next a l b` — from the pointer `a`, the nodes `l` lead to the pointer `b`
* `IsList next a l` — the list of `a` has the nodes `l`

## Main results

* `IsList.nodup` — a list that ends has no cycle
* `Seg.update` — a write to another node
* `IsList.insertBehind`, `IsList.removeBehind`, `IsList.cutBehind` — the operations on a list
-/

namespace LinkedList

variable {ι : Type*} {next next' : ι → Option ι} {a b : Option ι} {l l' : List ι} {x y : ι}

/-- From the pointer `a`, the nodes of the list lead to the pointer `b`. -/
def Seg (next : ι → Option ι) : Option ι → List ι → Option ι → Prop
  | a, [], b => a = b
  | a, x :: l, b => a = some x ∧ Seg next (next x) l b

/-- The nodes of the list that `a` points to. -/
abbrev IsList (next : ι → Option ι) (a : Option ι) (l : List ι) : Prop := Seg next a l none

@[simp] theorem seg_nil : Seg next a [] b ↔ a = b := Iff.rfl

@[simp] theorem seg_cons : Seg next a (x :: l) b ↔ a = some x ∧ Seg next (next x) l b := Iff.rfl

theorem seg_append : Seg next a (l ++ l') b ↔ ∃ c, Seg next a l c ∧ Seg next c l' b := by
  induction l generalizing a with
  | nil => simp
  | cons x l ih =>
    rw [List.cons_append, seg_cons, ih]
    constructor
    · rintro ⟨ha, c, hl, hl'⟩
      exact ⟨c, ⟨ha, hl⟩, hl'⟩
    · rintro ⟨c, ⟨ha, hl⟩, hl'⟩
      exact ⟨ha, c, hl, hl'⟩

/-- A segment depends on its own nodes only. -/
theorem Seg.congr (h : Seg next a l b) (heq : ∀ x ∈ l, next' x = next x) : Seg next' a l b := by
  induction l generalizing a with
  | nil => exact h
  | cons x l ih =>
    obtain ⟨ha, hl⟩ := h
    refine ⟨ha, ?_⟩
    rw [heq x List.mem_cons_self]
    exact ih hl fun y hy => heq y (List.mem_cons_of_mem x hy)

/-- A write to a node that is not in the segment. -/
theorem Seg.update [DecidableEq ι] (h : Seg next a l b) (hx : x ∉ l) (v : Option ι) :
    Seg (Function.update next x v) a l b :=
  h.congr fun _ hy => Function.update_of_ne (ne_of_mem_of_not_mem hy hx) _ _

namespace IsList

theorem head?_eq (h : IsList next a l) : a = l.head? := by
  cases l with
  | nil => exact h
  | cons x l => exact h.1

theorem tail (h : IsList next (some x) l) : ∃ l', l = x :: l' ∧ IsList next (next x) l' := by
  cases l with
  | nil => cases h
  | cons y l' =>
    obtain ⟨hx, hl⟩ := h
    obtain rfl := Option.some.inj hx
    exact ⟨l', rfl, hl⟩

/-- A pointer leads through one list at the most. -/
theorem unique (h : IsList next a l) (h' : IsList next a l') : l = l' := by
  induction l generalizing a l' with
  | nil =>
    obtain rfl : a = none := h
    cases l' with
    | nil => rfl
    | cons y l' => cases h'.1
  | cons x l ih =>
    obtain ⟨rfl, hl⟩ := h
    obtain ⟨l₁, rfl, hl₁⟩ := tail h'
    rw [ih hl hl₁]

/-- A list that ends has no cycle. -/
theorem nodup (h : IsList next a l) : l.Nodup := by
  induction l generalizing a with
  | nil => exact List.nodup_nil
  | cons x l ih =>
    obtain ⟨-, hl⟩ := h
    refine List.nodup_cons.2 ⟨fun hx => ?_, ih hl⟩
    -- the list behind a second visit would be the list behind the first one
    obtain ⟨l₁, l₂, rfl⟩ := List.append_of_mem hx
    obtain ⟨c, -, hc⟩ := seg_append.1 hl
    have hlen := congrArg List.length (unique hl hc.2)
    simp at hlen
    omega

/-- Two pointers that lead through the same node lead through the same nodes from there on. -/
theorem not_mem_of_append (h : IsList next a (l ++ x :: l')) : x ∉ l ∧ x ∉ l' := by
  have hnodup := h.nodup
  rw [List.nodup_append] at hnodup
  obtain ⟨-, hcons, hdisjoint⟩ := hnodup
  exact ⟨fun hx => hdisjoint x hx x List.mem_cons_self rfl, (List.nodup_cons.1 hcons).1⟩

variable [DecidableEq ι]

/-- The list behind a node is replaced. -/
theorem replaceBehind (h : IsList next a (l ++ x :: l')) {c : Option ι} {l'' : List ι}
    (hl'' : IsList next c l'') (hx : x ∉ l'') :
    IsList (Function.update next x c) a (l ++ x :: l'') := by
  obtain ⟨hl, -⟩ := not_mem_of_append h
  obtain ⟨d, hfront, hd, -⟩ := seg_append.1 h
  refine seg_append.2 ⟨d, hfront.update hl c, hd, ?_⟩
  rw [Function.update_self]
  exact Seg.update hl'' hx c

/-- A node is put behind `x`. -/
theorem insertBehind (h : IsList next a (l ++ x :: l')) (hy : y ∉ l ++ x :: l') :
    IsList (Function.update (Function.update next x (some y)) y l'.head?) a
      (l ++ x :: y :: l') := by
  obtain ⟨-, -, -, htail⟩ := seg_append.1 h
  obtain ⟨-, hx⟩ := not_mem_of_append h
  have hyx : y ≠ x := by
    rintro rfl
    exact hy (by simp)
  have hyl' : y ∉ l' := fun hmem => hy (by simp [hmem])
  have hlist : IsList (Function.update next y l'.head?) (some y) (y :: l') := by
    refine ⟨rfl, ?_⟩
    rw [Function.update_self, ← head?_eq htail]
    exact Seg.update htail hyl' _
  have h' : IsList (Function.update next y l'.head?) a (l ++ x :: l') := Seg.update h hy _
  rw [Function.update_comm hyx.symm]
  exact replaceBehind h' hlist (by simp [hx, hyx.symm])

/-- The node behind `x` is taken out. -/
theorem removeBehind (h : IsList next a (l ++ x :: y :: l')) :
    IsList (Function.update next x (next y)) a (l ++ x :: l') := by
  obtain ⟨-, -, -, -, htail⟩ := seg_append.1 h
  obtain ⟨-, hx⟩ := not_mem_of_append h
  exact replaceBehind h htail fun hmem => hx (List.mem_cons_of_mem y hmem)

/-- The list ends at `x`, and its rest is a list of its own. -/
theorem cutBehind (h : IsList next a (l ++ x :: l')) :
    IsList (Function.update next x none) a (l ++ [x]) ∧
      IsList (Function.update next x none) l'.head? l' := by
  obtain ⟨-, -, -, htail⟩ := seg_append.1 h
  obtain ⟨-, hx⟩ := not_mem_of_append h
  refine ⟨replaceBehind h rfl (by simp), ?_⟩
  rw [← head?_eq htail]
  exact Seg.update htail hx none

end IsList

end LinkedList
