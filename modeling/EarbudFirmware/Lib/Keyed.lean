import Mathlib.Data.List.Nodup

/-!
# Lists with distinct keys

An array of records that are found by a key is a list in which every key occurs once. Searching for
a key and erasing what was found is then the same as filtering the key out.

## Main results

* `Keyed.eraseP_eq_filter`, `Keyed.eraseIdx_findIdx?` — erasing the record of a key
* `Keyed.findIdx?_eq_none_iff` — a key that does not occur
-/

namespace Keyed

variable {α β : Type*} {key : α → β} {k : β} {l : List α}

theorem nodup_filter (hd : (l.map key).Nodup) (p : α → Bool) : ((l.filter p).map key).Nodup :=
  hd.sublist (List.filter_sublist.map _)

variable [DecidableEq β]

theorem findIdx?_eq_none_iff : l.findIdx? (fun x => key x = k) = none ↔ k ∉ l.map key := by
  simp [List.findIdx?_eq_none_iff]

theorem eraseP_eq_filter (hd : (l.map key).Nodup) (k : β) :
    l.eraseP (fun x => key x = k) = l.filter fun x => key x ≠ k := by
  induction l with
  | nil => rfl
  | cons x l ih =>
    obtain ⟨hx, hl⟩ := List.nodup_cons.1 hd
    by_cases hk : key x = k
    · rw [List.eraseP_cons_of_pos (by simpa using hk), List.filter_cons_of_neg (by simpa using hk),
        List.filter_eq_self.2]
      intro y hy
      have : key y ≠ k := fun h => hx (List.mem_map.2 ⟨y, hy, h.trans hk.symm⟩)
      simpa using this
    · rw [List.eraseP_cons_of_neg (by simpa using hk), List.filter_cons_of_pos (by simpa using hk),
        ih hl]

/-- Erasing the first record with a key leaves the records with other keys. -/
theorem eraseIdx_findIdx? (hd : (l.map key).Nodup) {i : Nat}
    (hi : l.findIdx? (fun x => key x = k) = some i) :
    l.eraseIdx i = l.filter fun x => key x ≠ k := by
  rw [← eraseP_eq_filter hd, List.eraseP_eq_eraseIdx, hi]

theorem mem_map_filter {j : β} :
    j ∈ (l.filter fun x => key x ≠ k).map key ↔ j ≠ k ∧ j ∈ l.map key := by
  simp only [List.mem_map, List.mem_filter, decide_eq_true_eq]
  constructor
  · rintro ⟨x, ⟨hx, hk⟩, rfl⟩
    exact ⟨hk, x, hx, rfl⟩
  · rintro ⟨hk, x, hx, rfl⟩
    exact ⟨x, ⟨hx, hk⟩, rfl⟩

end Keyed
