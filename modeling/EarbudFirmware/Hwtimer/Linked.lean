import EarbudFirmware.Hwtimer.HeapLoops
import Mathlib.Data.Fintype.Card

/-!
# States and lists of software timers

Each timer is in the list that its state names. What the functions of the source do to the pointers
and the states is one of four changes, each of which keeps this.

## Main definitions

* `Linked` — the pointers lead through the lists that the states name

## Main results

* `Linked.activate`, `Linked.deactivate`, `Linked.fire`, `Linked.unfire` — the changes
* `Linked.exists_unlink` — the search of `hwtimer_stop`, and the list that it leaves
-/

namespace EarbudFirmware.Hwtimer

open LinkedList (IsList)

variable {num : Nat} {κ π : Type*}

/-- The pointers lead through the lists `free`, `act` and `fired`, and each timer is in the one that
its state names; a timer that `hwtimer_alloc` has taken is free until its state is set, and stays as
it is until it is returned. While the handler does not run no timer waits for its callback. -/
structure Linked (h : TimerHeap num κ π) (free act fired : List (Fin num)) : Prop where
  free_list : IsList h.next h.free free
  active_list : IsList h.next h.active act
  fired_list : IsList h.next h.fired fired
  mem_free : ∀ x, h.state x = .free ↔ x ∈ free ∨ x ∈ h.allocating
  mem_active : ∀ x, h.state x = .active ↔ x ∈ act
  mem_fired : ∀ x, h.state x = .fired ↔ x ∈ fired
  taken_nodup : (free ++ h.allocating).Nodup
  settling_alloc : ∀ x ∈ h.settling, h.state x = .alloc
  fired_nil : h.inHandler = false → fired = []

/-! ### States -/

section States

variable {f : Fin num → TimerState} {l l' : List (Fin num)} {t : Fin num} {a b : TimerState}

/-- A timer gets the state of a list, and comes into it. -/
theorem mem_update_insert (hmem : ∀ x, f x = a ↔ x ∈ l) (hl' : ∀ x, x ∈ l' ↔ x = t ∨ x ∈ l)
    (x : Fin num) : Function.update f t a x = a ↔ x ∈ l' := by
  rw [hl', Function.update_apply]
  split_ifs with hx
  · simp [hx]
  · simp [hx, hmem]

/-- A timer loses the state of a list, and leaves it. -/
theorem mem_update_remove (hmem : ∀ x, f x = a ↔ x ∈ l) (hne : b ≠ a)
    (hl' : ∀ x, x ∈ l' ↔ x ≠ t ∧ x ∈ l) (x : Fin num) : Function.update f t b x = a ↔ x ∈ l' := by
  rw [hl', Function.update_apply]
  split_ifs with hx
  · simp [hx, hne]
  · simp [hx, hmem]

/-- The state of a timer changes between two that have nothing to do with a list. -/
theorem mem_update_other {p : Fin num → Prop} (hmem : ∀ x, f x = a ↔ p x) (hne : b ≠ a)
    (ht : f t ≠ a) (x : Fin num) : Function.update f t b x = a ↔ p x := by
  rw [Function.update_apply, ← hmem]
  split_ifs with hx
  · simp [hx, hne, ht]
  · rfl

end States

namespace Linked

variable {h : TimerHeap num κ π} {free act fired : List (Fin num)} {t x : Fin num}

theorem not_mem_active (hl : Linked h free act fired) (hx : h.state x ≠ .active) : x ∉ act :=
  fun hmem => hx ((hl.mem_active x).2 hmem)

theorem not_mem_fired (hl : Linked h free act fired) (hx : h.state x ≠ .fired) : x ∉ fired :=
  fun hmem => hx ((hl.mem_fired x).2 hmem)

theorem not_mem_free (hl : Linked h free act fired) (hx : h.state x ≠ .free) : x ∉ free :=
  fun hmem => hx ((hl.mem_free x).2 (.inl hmem))

theorem not_mem_allocating (hl : Linked h free act fired) (hx : h.state x ≠ .free) :
    x ∉ h.allocating :=
  fun hmem => hx ((hl.mem_free x).2 (.inr hmem))

theorem not_settling (hl : Linked h free act fired) (hx : h.state x ≠ .alloc) : x ∉ h.settling :=
  fun hmem => hx (hl.settling_alloc x hmem)

theorem state_active (hl : Linked h free act fired) (hx : x ∈ act) : h.state x = .active :=
  (hl.mem_active x).2 hx

theorem state_fired (hl : Linked h free act fired) (hx : x ∈ fired) : h.state x = .fired :=
  (hl.mem_fired x).2 hx

/-- A list has no more nodes than there are timers. -/
theorem length_lt {a : Option (Fin num)} {l : List (Fin num)} (hlist : IsList h.next a l) :
    l.length < num + 1 := by
  have hle := hlist.nodup.length_le_card
  rw [Fintype.card_fin] at hle
  omega

/-! ### The changes -/

/-- A timer that is in no list becomes active; the other lists stay. -/
theorem activate {h' : TimerHeap num κ π} {act' : List (Fin num)} (hl : Linked h free act fired)
    (hfree : h.state t ≠ .free) (hfired : h.state t ≠ .fired) (hsettling : t ∉ h.settling)
    (hlist : IsList h'.next h'.active act') (hmem : ∀ x, x ∈ act' ↔ x = t ∨ x ∈ act)
    (hnext : ∀ x, x ∉ act' → h'.next x = h.next x)
    (hstate : h'.state = Function.update h.state t .active) (hhead : h'.free = h.free)
    (hhead' : h'.fired = h.fired) (hallocating : h'.allocating = h.allocating)
    (hsettling' : h'.settling = h.settling) (hin : h'.inHandler = h.inHandler) :
    Linked h' free act' fired where
  free_list := by
    rw [hhead]
    refine hl.free_list.congr fun x hx => hnext x fun hmem' => ?_
    have hx' := (hl.mem_free x).2 (.inl hx)
    obtain rfl | hact := (hmem x).1 hmem'
    · exact hfree hx'
    · rw [hl.state_active hact] at hx'
      cases hx'
  active_list := hlist
  fired_list := by
    rw [hhead']
    refine hl.fired_list.congr fun x hx => hnext x fun hmem' => ?_
    have hx' := hl.state_fired hx
    obtain rfl | hact := (hmem x).1 hmem'
    · exact hfired hx'
    · rw [hl.state_active hact] at hx'
      cases hx'
  mem_free := by
    rw [hstate, hallocating]
    exact mem_update_other hl.mem_free (by decide) hfree
  mem_active := by
    rw [hstate]
    exact mem_update_insert hl.mem_active hmem
  mem_fired := by
    rw [hstate]
    exact mem_update_other hl.mem_fired (by decide) hfired
  taken_nodup := by
    rw [hallocating]
    exact hl.taken_nodup
  settling_alloc x hx := by
    rw [hsettling'] at hx
    rw [hstate, Function.update_of_ne (ne_of_mem_of_not_mem hx hsettling)]
    exact hl.settling_alloc x hx
  fired_nil hh := hl.fired_nil (hin ▸ hh)

/-- An active timer leaves its list; the other lists stay. -/
theorem deactivate {h' : TimerHeap num κ π} {act' : List (Fin num)} (hl : Linked h free act fired)
    (hactive : h.state t = .active) (hlist : IsList h'.next h'.active act')
    (hmem : ∀ x, x ∈ act' ↔ x ≠ t ∧ x ∈ act) (hnext : ∀ x, x ∉ act → h'.next x = h.next x)
    (hstate : h'.state = Function.update h.state t .alloc) (hhead : h'.free = h.free)
    (hhead' : h'.fired = h.fired) (hallocating : h'.allocating = h.allocating)
    (hsettling' : h'.settling = h.settling) (hin : h'.inHandler = h.inHandler) :
    Linked h' free act' fired where
  free_list := by
    rw [hhead]
    refine hl.free_list.congr fun x hx => hnext x fun hmem' => ?_
    have hx' := (hl.mem_free x).2 (.inl hx)
    rw [hl.state_active hmem'] at hx'
    cases hx'
  active_list := hlist
  fired_list := by
    rw [hhead']
    refine hl.fired_list.congr fun x hx => hnext x fun hmem' => ?_
    have hx' := hl.state_fired hx
    rw [hl.state_active hmem'] at hx'
    cases hx'
  mem_free := by
    rw [hstate, hallocating]
    exact mem_update_other hl.mem_free (by decide) (by rw [hactive]; decide)
  mem_active := by
    rw [hstate]
    exact mem_update_remove hl.mem_active (by decide) hmem
  mem_fired := by
    rw [hstate]
    exact mem_update_other hl.mem_fired (by decide) (by rw [hactive]; decide)
  taken_nodup := by
    rw [hallocating]
    exact hl.taken_nodup
  settling_alloc x hx := by
    rw [hsettling'] at hx
    rw [hstate,
      Function.update_of_ne (ne_of_mem_of_not_mem hx (hl.not_settling (by simp [hactive])))]
    exact hl.settling_alloc x hx
  fired_nil hh := hl.fired_nil (hin ▸ hh)

/-- A timer that waits for its callback leaves its list; the other lists stay. -/
theorem unfire {h' : TimerHeap num κ π} {fired' : List (Fin num)} {a : TimerState}
    (ha : a = .alloc ∨ a = .callback) (hl : Linked h free act fired)
    (hfired : h.state t = .fired) (hlist : IsList h'.next h'.fired fired')
    (hmem : ∀ x, x ∈ fired' ↔ x ≠ t ∧ x ∈ fired) (hnext : ∀ x, x ∉ fired → h'.next x = h.next x)
    (hstate : h'.state = Function.update h.state t a) (hhead : h'.free = h.free)
    (hhead' : h'.active = h.active) (hallocating : h'.allocating = h.allocating)
    (hsettling' : h'.settling = h.settling) (hin : h'.inHandler = h.inHandler) :
    Linked h' free act fired' where
  free_list := by
    rw [hhead]
    refine hl.free_list.congr fun x hx => hnext x fun hmem' => ?_
    have hx' := (hl.mem_free x).2 (.inl hx)
    rw [hl.state_fired hmem'] at hx'
    cases hx'
  active_list := by
    rw [hhead']
    refine hl.active_list.congr fun x hx => hnext x fun hmem' => ?_
    have hx' := hl.state_active hx
    rw [hl.state_fired hmem'] at hx'
    cases hx'
  fired_list := hlist
  mem_free := by
    rw [hstate, hallocating]
    exact mem_update_other hl.mem_free (by rintro rfl; simp at ha) (by rw [hfired]; decide)
  mem_active := by
    rw [hstate]
    exact mem_update_other hl.mem_active (by rintro rfl; simp at ha) (by rw [hfired]; decide)
  mem_fired := by
    rw [hstate]
    exact mem_update_remove hl.mem_fired (by rintro rfl; simp at ha) hmem
  taken_nodup := by
    rw [hallocating]
    exact hl.taken_nodup
  settling_alloc x hx := by
    rw [hsettling'] at hx
    rw [hstate,
      Function.update_of_ne (ne_of_mem_of_not_mem hx (hl.not_settling (by simp [hfired])))]
    exact hl.settling_alloc x hx
  fired_nil hh := by
    have hnil := hl.fired_nil (hin ▸ hh)
    refine List.eq_nil_iff_forall_not_mem.2 fun x hx => ?_
    have hx' := ((hmem x).1 hx).2
    rw [hnil] at hx'
    cases hx'

/-- The first active timers, up to `pre`, come to wait for their callbacks. -/
theorem fire {h' : TimerHeap num κ π} {m l : List (Fin num)} {pre : Fin num}
    (hl : Linked h free (m ++ pre :: l) []) (hnext : h'.next = Function.update h.next pre none)
    (hstate : h'.state = fun x => if x ∈ m ++ [pre] then .fired else h.state x)
    (hhead : h'.free = h.free) (hfired : h'.fired = h.active) (hactive : h'.active = l.head?)
    (hallocating : h'.allocating = h.allocating) (hsettling : h'.settling = h.settling)
    (hin : h'.inHandler = true) :
    Linked h' free l (m ++ [pre]) := by
  obtain ⟨hlist, hlist'⟩ := LinkedList.IsList.cutBehind hl.active_list
  have hsplit : m ++ pre :: l = (m ++ [pre]) ++ l := by simp
  have hnodup : ((m ++ [pre]) ++ l).Nodup := hsplit ▸ hl.active_list.nodup
  obtain ⟨-, -, hdisjoint⟩ := List.nodup_append.1 hnodup
  have hdue : ∀ x ∈ m ++ [pre], h.state x = .active := fun x hx =>
    hl.state_active (hsplit ▸ List.mem_append_left l hx)
  have hstate' : ∀ x, x ∉ m ++ [pre] → h'.state x = h.state x := fun x hx => by
    rw [hstate]
    exact if_neg hx
  have hstate'' : ∀ x ∈ m ++ [pre], h'.state x = .fired := fun x hx => by
    rw [hstate]
    exact if_pos hx
  refine ⟨?_, ?_, ?_, ?_, ?_, ?_, ?_, ?_, ?_⟩
  · rw [hhead, hnext]
    refine LinkedList.Seg.update hl.free_list (fun hmem => ?_) none
    have hpre := (hl.mem_free pre).2 (.inl hmem)
    rw [hdue pre (by simp)] at hpre
    cases hpre
  · rw [hactive, hnext]
    exact hlist'
  · rw [hfired, hnext]
    exact hlist
  · intro x
    rw [hallocating, ← hl.mem_free]
    by_cases hx : x ∈ m ++ [pre]
    · rw [hstate'' x hx, hdue x hx]
      simp
    · rw [hstate' x hx]
  · intro x
    by_cases hx : x ∈ m ++ [pre]
    · rw [hstate'' x hx]
      refine iff_of_false (fun heq => ?_) fun hmem => hdisjoint x hx x hmem rfl
      cases heq
    · rw [hstate' x hx, hl.mem_active, hsplit, List.mem_append]
      exact or_iff_right hx
  · intro x
    by_cases hx : x ∈ m ++ [pre]
    · exact iff_of_true (hstate'' x hx) hx
    · rw [hstate' x hx]
      refine iff_of_false (fun heq => ?_) hx
      cases (hl.mem_fired x).1 heq
  · rw [hallocating]
    exact hl.taken_nodup
  · intro x hx
    rw [hsettling] at hx
    have halloc := hl.settling_alloc x hx
    rw [hstate' x fun hmem => ?_]
    · exact halloc
    · rw [hdue x hmem] at halloc
      cases halloc
  · intro hh
    rw [hin] at hh
    cases hh

/-- A node behind the first one is found, and its list is linked without it. -/
theorem exists_unlink {p : Option (Fin num)} {a : Fin num} {rest : List (Fin num)}
    (hlist : IsList h.next p (a :: rest)) (hne : a ≠ t) (ht : t ∈ rest) :
    ∃ m pre l, rest = m ++ t :: l ∧ t ∉ m ∧ h.next t = l.head? ∧
      h.walkTo t (num + 1) a (h.next a) = .ok (pre, some t) ∧
      IsList (Function.update (Function.update h.next pre (h.next t)) t none) p (a :: (m ++ l)) ∧
      ∀ x, x ∉ a :: rest →
        Function.update (Function.update h.next pre (h.next t)) t none x = h.next x := by
  obtain ⟨m₁, pre, l, hsplit, hnot, hwalk⟩ :=
    TimerHeap.walkTo_of_mem hlist.2 (length_lt hlist.2) a ht
  -- the nodes in front of `t`, of which `a` is the first one and `pre` the last one
  obtain ⟨m, hm⟩ : ∃ m, m₁ ++ [pre] = a :: m := by
    cases m₁ with
    | nil => exact ⟨[], by rw [(List.cons.inj hsplit).1]; rfl⟩
    | cons y m₁ => exact ⟨m₁ ++ [pre], by rw [(List.cons.inj hsplit).1]; rfl⟩
  have hfront : ∀ l', m₁ ++ pre :: l' = a :: (m ++ l') := by
    intro l'
    rw [← List.cons_append, ← hm, List.append_assoc]
    rfl
  have hrest : rest = m ++ t :: l := (List.cons.inj (hsplit.trans (hfront (t :: l)))).2
  rw [hm, List.tail_cons] at hnot
  have hlist₁ : IsList h.next p (m₁ ++ pre :: t :: l) := hsplit ▸ hlist
  obtain ⟨-, -, -, -, htail⟩ := LinkedList.seg_append.1 hlist₁
  have htl : t ∉ l := by
    have hnodup := hlist.nodup
    rw [hrest, ← List.cons_append] at hnodup
    exact (List.nodup_cons.1 (List.nodup_append.1 hnodup).2.1).1
  have hkept : t ∉ a :: (m ++ l) := by
    simp only [List.mem_cons, List.mem_append]
    rintro (heq | hin | hin)
    · exact hne heq.symm
    · exact hnot hin
    · exact htl hin
  have hpre : pre ∈ a :: rest := by rw [hsplit]; simp
  refine ⟨m, pre, l, hrest, hnot, LinkedList.IsList.head?_eq htail, hwalk, ?_, ?_⟩
  · rw [← hfront] at hkept ⊢
    exact LinkedList.Seg.update (LinkedList.IsList.removeBehind hlist₁) hkept none
  · intro x hx
    have hxt : x ≠ t := fun heq => hx (heq ▸ List.mem_cons_of_mem a ht)
    have hxp : x ≠ pre := fun heq => hx (heq ▸ hpre)
    exact (Function.update_of_ne hxt _ _).trans (Function.update_of_ne hxp _ _)

/-- What is left of a list without `t`. -/
theorem mem_without {l m : List (Fin num)} (hnodup : (m ++ t :: l).Nodup) (x : Fin num) :
    x ∈ m ++ l ↔ x ≠ t ∧ x ∈ m ++ t :: l := by
  obtain ⟨-, hcons, hdisjoint⟩ := List.nodup_append.1 hnodup
  obtain ⟨htl, -⟩ := List.nodup_cons.1 hcons
  constructor
  · intro hx
    obtain hfront | hback := List.mem_append.1 hx
    · exact ⟨hdisjoint x hfront t List.mem_cons_self, List.mem_append_left _ hfront⟩
    · exact ⟨ne_of_mem_of_not_mem hback htl, by simp [hback]⟩
  · rintro ⟨hne, hx⟩
    simpa [hne] using hx

end Linked

end EarbudFirmware.Hwtimer
