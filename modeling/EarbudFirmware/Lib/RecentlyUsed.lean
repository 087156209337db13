import EarbudFirmware.Lib.Keyed
import Mathlib.Data.List.Pairwise
import Mathlib.Tactic.Common

/-!
# Most-recently-used lists

Records with distinct keys, the one used last in front. A record that is used goes to the front;
when it is new and the list is full, the last record gives way.

## Main definitions

* `touch`, `forget` — a record is used, the record of a key is removed

## Main results

* `touch_eq_cons` — without a new record in a full list nothing gives way
* `mem_touch_of_ne` — the last record gives way to a new one, and no other
* `pairwise_touch` — the used record comes first in an order that the others keep
-/

namespace RecentlyUsed

variable {α β : Type*} [DecidableEq β] (key : α → β)

/-- The records with other keys. -/
def forget (k : β) (l : List α) : List α := l.filter fun x => key x ≠ k

/-- `x` is used: it goes to the front of at most `cap` records. -/
def touch (cap : ℕ) (x : α) (l : List α) : List α := (x :: forget key (key x) l).take cap

variable {key} {cap : ℕ} {k : β} {x y : α} {l : List α}

theorem mem_forget : y ∈ forget key k l ↔ y ∈ l ∧ key y ≠ k := by
  simp [forget]

theorem forget_eq_self (h : k ∉ l.map key) : forget key k l = l :=
  List.filter_eq_self.2 fun _ hy => decide_eq_true fun heq => h (heq ▸ List.mem_map_of_mem hy)

/-- The used record is in the list, and what else is there has been there. -/
theorem mem_of_mem_touch (h : y ∈ touch key cap x l) : y = x ∨ y ∈ l ∧ key y ≠ key x := by
  rcases List.mem_cons.1 (List.mem_of_mem_take h) with h | h
  · exact .inl h
  · exact .inr (mem_forget.1 h)

theorem mem_touch_self (hcap : 0 < cap) : x ∈ touch key cap x l := by
  obtain ⟨cap, rfl⟩ := Nat.exists_eq_add_of_lt hcap
  simp [touch]

theorem nodup_forget (hd : (l.map key).Nodup) : ((forget key k l).map key).Nodup :=
  Keyed.nodup_filter hd _

theorem nodup_touch (hd : (l.map key).Nodup) : ((touch key cap x l).map key).Nodup := by
  have hcons : ((x :: forget key (key x) l).map key).Nodup := by
    rw [List.map_cons, List.nodup_cons]
    refine ⟨fun h => ?_, nodup_forget hd⟩
    obtain ⟨y, hy, hkey⟩ := List.mem_map.1 h
    exact (mem_forget.1 hy).2 hkey
  exact hcons.sublist ((List.take_sublist _ _).map _)

/-- A key that occurs leaves one place free. -/
theorem length_forget_lt (h : k ∈ l.map key) : (forget key k l).length < l.length := by
  obtain ⟨y, hy, rfl⟩ := List.mem_map.1 h
  exact List.length_filter_lt_length_iff_exists.2 ⟨y, hy, by simp⟩

/-- Nothing gives way when the list is not full or the record is not new. -/
theorem touch_eq_cons (hl : l.length ≤ cap) (h : l.length < cap ∨ key x ∈ l.map key) :
    touch key cap x l = x :: forget key (key x) l := by
  have hle : (forget key (key x) l).length ≤ l.length := List.length_filter_le _ _
  refine List.take_of_length_le ?_
  rw [List.length_cons]
  rcases h with h | h
  · omega
  · have := length_forget_lt h
    omega

/-- In a full list without the key the last record gives way. -/
theorem touch_eq_dropLast (hl : l.length = cap) (hcap : 0 < cap) (h : key x ∉ l.map key) :
    touch key cap x l = x :: l.dropLast := by
  obtain ⟨c, rfl⟩ : ∃ c, cap = c + 1 := ⟨cap - 1, by omega⟩
  rw [touch, forget_eq_self h, List.take_succ_cons, List.dropLast_eq_take, hl]
  rfl

/-- A record with another key stays, unless it is the last of a full list and gives way to a new
record. -/
theorem mem_touch_of_ne (hl : l.length ≤ cap) (hy : y ∈ l) (hne : key y ≠ key x) :
    y ∈ touch key cap x l ∨ l.length = cap ∧ key x ∉ l.map key ∧ l.getLast? = some y := by
  by_cases h : l.length < cap ∨ key x ∈ l.map key
  · rw [touch_eq_cons hl h]
    exact .inl (List.mem_cons_of_mem _ (mem_forget.2 ⟨hy, hne⟩))
  · rw [not_or, Nat.not_lt] at h
    have hlen := Nat.le_antisymm hl h.1
    have hpos := List.length_pos_of_mem hy
    rw [touch_eq_dropLast hlen (by omega) h.2]
    rcases List.eq_nil_or_concat' l with rfl | ⟨l, z, rfl⟩
    · cases hy
    · rcases List.mem_append.1 hy with hy | hy
      · exact .inl (List.mem_cons_of_mem _ (by simpa using hy))
      · exact .inr ⟨hlen, h.2, by simp [List.mem_singleton.1 hy]⟩

/-- The order of the records, when the use of `x` leaves the order of the others as it is. -/
theorem pairwise_touch {R R' : α → α → Prop} (hl : l.Pairwise R)
    (hothers : ∀ y z, key y ≠ key x → key z ≠ key x → R y z → R' y z)
    (hx : ∀ y ∈ l, key y ≠ key x → R' x y) : (touch key cap x l).Pairwise R' := by
  have hforget : (forget key (key x) l).Pairwise R' := by
    refine (hl.sublist List.filter_sublist).imp_of_mem fun hy hz => ?_
    exact hothers _ _ (mem_forget.1 hy).2 (mem_forget.1 hz).2
  have hcons : (x :: forget key (key x) l).Pairwise R' :=
    List.pairwise_cons.2 ⟨fun y hy => hx y (mem_forget.1 hy).1 (mem_forget.1 hy).2, hforget⟩
  exact hcons.sublist (List.take_sublist _ _)

end RecentlyUsed
