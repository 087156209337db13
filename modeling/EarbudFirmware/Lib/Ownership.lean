import Mathlib.Data.List.Nodup
import Mathlib.Data.List.Perm.Subperm
import Mathlib.Data.Set.Basic

/-!
# Exclusive ownership of pool entries

Owners hold entries of pools; every owner draws from one pool. Entries are held exclusively: no
entry is held twice, and a held entry is marked as used.

## Main definitions

* `Exclusive` — the entries held by the owners are used and pairwise different
* `Exchange` — one owner drops some entries and takes free ones
* `Accounted` — every used entry is held
* `Settled` — one owner holds every entry that it has taken and has given the others back

## Main results

* `Exclusive.exchange` — an exchange keeps ownership exclusive
* `Exchange.filter`, `Exchange.append`, `Exchange.cons` — dropping and taking entries
* `Accounted.settled` — no entry is lost when an owner settles
* `Settled.filter`, `Settled.append`, `Settled.cons` — the same ways of dropping and taking entries
-/

namespace Ownership

variable {M D R α : Type*}

/-- The lists `held` of the owners are free of repetitions and disjoint within a pool, and their
entries are marked as used. -/
structure Exclusive (pool : M → D) (used : D → Set R) (held : M → List R) : Prop where
  nodup : ∀ m, (held m).Nodup
  used : ∀ m, ∀ i ∈ held m, i ∈ used (pool m)
  disjoint : ∀ m m', pool m = pool m' → m ≠ m' → List.Disjoint (held m) (held m')

/-- An owner exchanges the entries `held` for `held'`: it takes free entries only, and the pool
forgets only entries that were held. -/
structure Exchange (used used' : Set R) (held held' : List R) : Prop where
  nodup : held'.Nodup
  fresh : ∀ i ∈ held', i ∈ held ∨ i ∉ used
  mark : ∀ i ∈ held', i ∈ used'
  keep : ∀ i ∈ used, i ∉ held → i ∈ used'

namespace Exclusive

variable {pool pool' : M → D} {used used' : D → Set R} {held held' : M → List R}

/-- Ownership stays exclusive when one owner exchanges entries. -/
theorem exchange (h : Exclusive pool used held) (used' : D → Set R) (held' : M → List R) (m : M)
    (hm : Exchange (used (pool m)) (used' (pool m)) (held m) (held' m))
    (hother : ∀ m', m' ≠ m → held' m' = held m') (hpool : ∀ d, d ≠ pool m → used' d = used d) :
    Exclusive pool used' held' := by
  have hfresh : ∀ m', m' ≠ m → pool m' = pool m → ∀ i ∈ held m', i ∉ held' m := by
    intro m' hne hp i hi hi'
    rcases hm.fresh i hi' with hold | hfree
    · exact h.disjoint m' m hp hne hi hold
    · exact hfree (hp ▸ h.used m' i hi)
  refine ⟨fun m' => ?_, fun m' i hi => ?_, fun m₁ m₂ hp hne i hi₁ hi₂ => ?_⟩
  · by_cases hm' : m' = m
    · exact hm' ▸ hm.nodup
    · exact hother m' hm' ▸ h.nodup m'
  · by_cases hm' : m' = m
    · subst hm'
      exact hm.mark i hi
    · rw [hother m' hm'] at hi
      by_cases hp : pool m' = pool m
      · rw [hp]
        exact hm.keep i (hp ▸ h.used m' i hi) (h.disjoint m' m hp hm' hi)
      · rw [hpool _ hp]
        exact h.used m' i hi
  · by_cases hm₁ : m₁ = m
    · subst hm₁
      rw [hother m₂ hne.symm] at hi₂
      exact hfresh m₂ hne.symm hp.symm i hi₂ hi₁
    · rw [hother m₁ hm₁] at hi₁
      by_cases hm₂ : m₂ = m
      · subst hm₂
        exact hfresh m₁ hm₁ hp i hi₁ hi₂
      · rw [hother m₂ hm₂] at hi₂
        exact h.disjoint m₁ m₂ hp hne hi₁ hi₂

/-- An owner that holds nothing may move to another pool. -/
theorem of_pool_eq (h : Exclusive pool used held)
    (hpool : ∀ m, held m ≠ [] → pool' m = pool m) : Exclusive pool' used held := by
  refine ⟨h.nodup, fun m i hi => ?_, fun m m' hp hne i hi hi' => ?_⟩
  · rw [hpool m (List.ne_nil_of_mem hi)]
    exact h.used m i hi
  · rw [hpool m (List.ne_nil_of_mem hi), hpool m' (List.ne_nil_of_mem hi')] at hp
    exact h.disjoint m m' hp hne hi hi'

end Exclusive

/-- Different elements of a list hold different entries. -/
theorem eq_of_nodup_filterMap {l : List α} {f : α → Option R} (h : (l.filterMap f).Nodup)
    {a b : α} (ha : a ∈ l) (hb : b ∈ l) {i : R} (hai : f a = some i) (hbi : f b = some i) :
    a = b := by
  induction l with
  | nil => cases ha
  | cons c l ih =>
    have hin : ∀ x ∈ l, f x = some i → i ∈ l.filterMap f :=
      fun x hx hxi => List.mem_filterMap.2 ⟨x, hx, hxi⟩
    rcases List.mem_cons.1 ha with rfl | ha' <;> rcases List.mem_cons.1 hb with rfl | hb'
    · rfl
    · rw [List.filterMap_cons_some hai, List.nodup_cons] at h
      exact absurd (hin b hb' hbi) h.1
    · rw [List.filterMap_cons_some hbi, List.nodup_cons] at h
      exact absurd (hin a ha' hai) h.1
    · refine ih (h.sublist ?_) ha' hb'
      exact (List.sublist_cons_self c l).filterMap f

namespace Exchange

variable {used used' used'' : Set R} {held held' : List R} {f : α → Option R}

/-- Nothing changes. -/
theorem refl (hnodup : held.Nodup) (hused : ∀ i ∈ held, i ∈ used) : Exchange used used held held :=
  ⟨hnodup, fun _ hi => .inl hi, hused, fun _ hi _ => hi⟩

/-- The elements of a list that are filtered out give their entries back. -/
theorem filter {l : List α} {p : α → Bool} (hnodup : (l.filterMap f).Nodup)
    (hused : ∀ i ∈ l.filterMap f, i ∈ used)
    (hused' : ∀ i, i ∈ used' ↔ i ∈ used ∧ ∀ a ∈ l, p a = false → f a ≠ some i) :
    Exchange used used' (l.filterMap f) ((l.filter p).filterMap f) := by
  have hsub : ((l.filter p).filterMap f).Sublist (l.filterMap f) := List.filter_sublist.filterMap f
  refine ⟨hnodup.sublist hsub, fun i hi => .inl (hsub.subset hi), fun i hi => ?_,
    fun i hi hnot => (hused' i).2 ⟨hi, fun a ha _ hai => hnot (List.mem_filterMap.2 ⟨a, ha, hai⟩)⟩⟩
  obtain ⟨a, ha, hai⟩ := List.mem_filterMap.1 hi
  obtain ⟨ha, hpa⟩ := List.mem_filter.1 ha
  refine (hused' i).2 ⟨hused i (hsub.subset hi), fun b hb hpb hbi => ?_⟩
  rw [eq_of_nodup_filterMap hnodup hb ha hbi hai, hpa] at hpb
  cases hpb

/-- The last part of a list gives its entries back. -/
theorem append {l r : List α} (hnodup : ((l ++ r).filterMap f).Nodup)
    (hused : ∀ i ∈ (l ++ r).filterMap f, i ∈ used)
    (hused' : ∀ i, i ∈ used' ↔ i ∈ used ∧ ∀ a ∈ r, f a ≠ some i) :
    Exchange used used' ((l ++ r).filterMap f) (l.filterMap f) := by
  rw [List.filterMap_append] at hnodup hused ⊢
  refine ⟨hnodup.of_append_left, fun i hi => .inl (List.mem_append_left _ hi), fun i hi => ?_,
    fun i hi hnot => (hused' i).2 ⟨hi, fun a ha hai => hnot ?_⟩⟩
  · refine (hused' i).2 ⟨hused i (List.mem_append_left _ hi), fun a ha hai => ?_⟩
    exact List.disjoint_of_nodup_append hnodup hi (List.mem_filterMap.2 ⟨a, ha, hai⟩)
  · exact List.mem_append_right _ (List.mem_filterMap.2 ⟨a, ha, hai⟩)

/-- After an exchange one more free entry is taken. -/
theorem cons (h : Exchange used used' held held') {i : R} (hi : i ∉ used')
    (hused'' : ∀ j, j ∈ used'' ↔ j ∈ used' ∨ j = i) : Exchange used used'' held (i :: held') := by
  refine ⟨List.nodup_cons.2 ⟨fun hmem => hi (h.mark i hmem), h.nodup⟩, ?_, ?_,
    fun j hj hnot => (hused'' j).2 (.inl (h.keep j hj hnot))⟩
  · rintro j hj
    rcases List.mem_cons.1 hj with rfl | hj
    · by_contra hcon
      rw [not_or, not_not] at hcon
      exact hi (h.keep j hcon.2 hcon.1)
    · exact h.fresh j hj
  · rintro j hj
    rcases List.mem_cons.1 hj with rfl | hj
    · exact (hused'' j).2 (.inr rfl)
    · exact (hused'' j).2 (.inl (h.mark j hj))

end Exchange

/-! ### Nothing is lost -/

/-- Every used entry is held by an owner that draws from its pool. -/
def Accounted (pool : M → D) (used : D → Set R) (held : M → List R) : Prop :=
  ∀ d, ∀ i ∈ used d, ∃ m, pool m = d ∧ i ∈ held m

/-- An owner goes over from the entries `held` to `held'`, and an entry that is used then is one of
them, or the owner has had nothing to do with it. -/
def Settled (used used' : Set R) (held held' : List R) : Prop :=
  ∀ i ∈ used', i ∈ held' ∨ i ∈ used ∧ i ∉ held

namespace Accounted

variable {pool pool' : M → D} {used : D → Set R} {held : M → List R}

/-- When one owner settles, every used entry is still held. -/
theorem settled (h : Accounted pool used held) (used' : D → Set R) (held' : M → List R) (m : M)
    (hm : Settled (used (pool m)) (used' (pool m)) (held m) (held' m))
    (hother : ∀ m', m' ≠ m → held' m' = held m') (hpool : ∀ d, d ≠ pool m → used' d = used d) :
    Accounted pool used' held' := by
  intro d i hi
  have hold : i ∈ used d → (d = pool m → i ∉ held m) →
      ∃ m', pool m' = d ∧ i ∈ held' m' := by
    intro hu hnot
    obtain ⟨m', rfl, hm'⟩ := h d i hu
    refine ⟨m', rfl, ?_⟩
    rw [hother m' fun heq => hnot (heq ▸ rfl) (heq ▸ hm')]
    exact hm'
  by_cases hd : d = pool m
  · subst hd
    rcases hm i hi with hi' | ⟨hu, hnot⟩
    · exact ⟨m, rfl, hi'⟩
    · exact hold hu fun _ => hnot
  · exact hold (hpool d hd ▸ hi) fun heq => absurd heq hd

/-- An owner that holds nothing may move to another pool. -/
theorem of_pool_eq (h : Accounted pool used held)
    (hpool : ∀ m, held m ≠ [] → pool' m = pool m) : Accounted pool' used held := by
  intro d i hi
  obtain ⟨m, rfl, hm⟩ := h d i hi
  exact ⟨m, hpool m (List.ne_nil_of_mem hm), hm⟩

end Accounted

namespace Settled

variable {used used' used'' : Set R} {held held' : List R} {f : α → Option R}

/-- Nothing changes. -/
theorem refl : Settled used used held held := fun _ hi =>
  or_iff_not_imp_left.2 fun hnot => ⟨hi, hnot⟩

/-- The elements of a list that are filtered out give their entries back. -/
theorem filter {l : List α} {p : α → Bool}
    (hused' : ∀ i, i ∈ used' ↔ i ∈ used ∧ ∀ a ∈ l, p a = false → f a ≠ some i) :
    Settled used used' (l.filterMap f) ((l.filter p).filterMap f) := by
  intro i hi
  obtain ⟨hu, hdel⟩ := (hused' i).1 hi
  refine or_iff_not_imp_right.2 fun hnot => ?_
  obtain ⟨a, ha, hai⟩ := List.mem_filterMap.1 (not_not.1 fun hmem => hnot ⟨hu, hmem⟩)
  have hpa : p a = true := by
    by_contra hpa
    exact hdel a ha (by simpa using hpa) hai
  exact List.mem_filterMap.2 ⟨a, List.mem_filter.2 ⟨ha, hpa⟩, hai⟩

/-- The last part of a list gives its entries back. -/
theorem append {l r : List α}
    (hused' : ∀ i, i ∈ used' ↔ i ∈ used ∧ ∀ a ∈ r, f a ≠ some i) :
    Settled used used' ((l ++ r).filterMap f) (l.filterMap f) := by
  intro i hi
  obtain ⟨hu, hdel⟩ := (hused' i).1 hi
  refine or_iff_not_imp_left.2 fun hnot => ⟨hu, fun hmem => ?_⟩
  rw [List.filterMap_append, List.mem_append] at hmem
  obtain ⟨a, ha, hai⟩ := List.mem_filterMap.1 (hmem.resolve_left hnot)
  exact hdel a ha hai

/-- After that one more free entry is taken. -/
theorem cons (h : Settled used used' held held') {i : R}
    (hused'' : ∀ j, j ∈ used'' ↔ j ∈ used' ∨ j = i) : Settled used used'' held (i :: held') := by
  intro j hj
  rcases (hused'' j).1 hj with hj | rfl
  · exact (h j hj).imp_left (List.mem_cons_of_mem i)
  · exact .inl List.mem_cons_self

end Settled

/-! ### Counting -/

section Counting

variable {owners : List M} {pool : M → D} {used : D → Set R} {held : M → List R} {d : D}

/-- What the owners that draw from the pool `d` hold. -/
def heldFrom [DecidableEq D] (owners : List M) (pool : M → D) (held : M → List R) (d : D) :
    List R :=
  (owners.filter (pool · = d)).flatMap held

theorem Exclusive.nodup_heldFrom [DecidableEq D] (h : Exclusive pool used held)
    (howners : owners.Nodup) : (heldFrom owners pool held d).Nodup := by
  refine List.nodup_flatMap.2 ⟨fun m _ => h.nodup m, (howners.filter _).imp_of_mem ?_⟩
  intro m m' hm hm' hne
  have hm : pool m = d := by simpa using (List.mem_filter.1 hm).2
  have hm' : pool m' = d := by simpa using (List.mem_filter.1 hm').2
  exact h.disjoint m m' (hm.trans hm'.symm) hne

/-- The used entries are those that are held. -/
theorem mem_heldFrom [DecidableEq D] (h : Exclusive pool used held)
    (ha : Accounted pool used held) (hall : ∀ m, m ∈ owners) {i : R} :
    i ∈ heldFrom owners pool held d ↔ i ∈ used d := by
  simp only [heldFrom, List.mem_flatMap, List.mem_filter, decide_eq_true_eq]
  constructor
  · rintro ⟨m, ⟨-, rfl⟩, hi⟩
    exact h.used m i hi
  · intro hi
    obtain ⟨m, hm, himem⟩ := ha d i hi
    exact ⟨m, ⟨hall m, hm⟩, himem⟩

end Counting

/-- Different numbers below `n` are at most `n`, and exactly `n` of them are all numbers below
`n`. -/
theorem length_le_of_nodup {l : List ℕ} {n : ℕ} (h : l.Nodup) (hlt : ∀ i ∈ l, i < n) :
    l.length ≤ n ∧ (n ≤ l.length ↔ ∀ i < n, i ∈ l) := by
  have hsub : l.Subperm (List.range n) := h.subperm fun i hi => List.mem_range.2 (hlt i hi)
  have hle : l.length ≤ n := by simpa using hsub.length_le
  refine ⟨hle, fun hge i hi => ?_, fun hall => ?_⟩
  · have hperm : l.Perm (List.range n) := hsub.perm_of_length_le (by simpa using hge)
    exact hperm.mem_iff.2 (List.mem_range.2 hi)
  · have hrange : (List.range n).Subperm l :=
      List.nodup_range.subperm fun i hi => hall i (List.mem_range.1 hi)
    simpa using hrange.length_le

end Ownership
