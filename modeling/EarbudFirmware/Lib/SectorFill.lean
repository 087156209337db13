import Mathlib.Data.List.Basic

/-!
# Filling sectors in order

A memory of sectors is written from its front on. The operations move a frontier: a program
operation starts at it and stays in its sector, and when the frontier is at the start of a sector,
the sector is erased before. What is behind the frontier is never touched again.

## Main definitions

* `Op` — erasing a sector, programming some cells
* `Fills` — operations that move the frontier
* `ProgrammedOnce` — a cell is programmed once, after its sector was erased

## Main results

* `Fills.append` — operations one after the other
* `Fills.applyAll_eq` — the data is in the memory
* `Fills.programmedOnce` — each cell is programmed once
* `Fills.erase_untouched` — no sector is erased that has been programmed
* `Fills.within_sector` — no program operation leaves its sector
-/

namespace SectorFill

variable {α : Type*}

/-- An operation: a sector is erased, or `n` cells from `a` on are programmed. -/
inductive Op (α : Type*) where
  | erase (a : ℕ)
  | program (a n : ℕ) (d : ℕ → α)

/-- The cells that an operation programs. -/
def Op.Programs : Op α → ℕ → Prop
  | .erase _, _ => False
  | .program a n _, x => a ≤ x ∧ x < a + n

/-- The cells that an operation erases, with sectors of `s` cells. -/
def Op.Erases (s : ℕ) : Op α → ℕ → Prop
  | .erase a, x => a ≤ x ∧ x < a + s
  | .program _ _ _, _ => False

/-- The memory behind an operation. An erased cell is `blank`, and programming merges. -/
def Op.apply (s : ℕ) (blank : α) (merge : α → α → α) : Op α → (ℕ → α) → ℕ → α
  | .erase a, f => fun x => if a ≤ x ∧ x < a + s then blank else f x
  | .program a n d, f => fun x => if a ≤ x ∧ x < a + n then merge (f x) (d (x - a)) else f x

/-- The memory behind operations. -/
def applyAll (s : ℕ) (blank : α) (merge : α → α → α) (ops : List (Op α)) (f : ℕ → α) : ℕ → α :=
  ops.foldl (fun f op => op.apply s blank merge f) f

/-- The operations write the data from `c` on, and the frontier is behind it then. -/
inductive Fills (s : ℕ) : (c : ℕ) → List (Op α) → List α → Prop where
  | nil {c} : Fills s c [] []
  | within {c n d ops l} (hpos : 0 < n) (hin : c % s ≠ 0) (hfit : c % s + n ≤ s)
      (h : Fills s (c + n) ops l) :
      Fills s c (.program c n d :: ops) ((List.range n).map d ++ l)
  | sector {c n d ops l} (hpos : 0 < n) (hat : c % s = 0) (hfit : n ≤ s)
      (h : Fills s (c + n) ops l) :
      Fills s c (.erase c :: .program c n d :: ops) ((List.range n).map d ++ l)

/-- One operation programs the cell, none before or behind it does. Its sector is erased before that
operation, and not behind it. -/
def ProgrammedOnce (s : ℕ) (ops : List (Op α)) (x : ℕ) : Prop :=
  ∃ before op after, ops = before ++ op :: after ∧ op.Programs x ∧
    (∀ o ∈ before, ¬o.Programs x) ∧ (∀ o ∈ after, ¬o.Programs x) ∧
    (∃ o ∈ before, o.Erases s x) ∧ ∀ o ∈ after, ¬o.Erases s x

variable {s c n : ℕ} {d : ℕ → α} {ops ops' : List (Op α)} {l l' : List α}

theorem map_range_add (d : ℕ → α) (m n : ℕ) :
    (List.range (m + n)).map d = (List.range m).map d ++ (List.range n).map fun i => d (m + i) := by
  rw [List.range_add, List.map_append, List.map_map]
  rfl

/-- Operations that go on where others end. -/
theorem Fills.append (h : Fills s c ops l) (h' : Fills s (c + l.length) ops' l') :
    Fills s c (ops ++ ops') (l ++ l') := by
  induction h with
  | nil => exact h'
  | within hpos hin hfit h ih | sector hpos hat hfit h ih =>
    rw [List.length_append, List.length_map, List.length_range, ← Nat.add_assoc] at h'
    rw [List.append_assoc]
    first
      | exact .within hpos hin hfit (ih h')
      | exact .sector hpos hat hfit (ih h')

/-- Without data there is nothing to do. -/
theorem Fills.eq_nil (h : Fills s c ops ([] : List α)) : ops = [] := by
  generalize hl : ([] : List α) = l at h
  cases h with
  | nil => rfl
  | within hpos hin hfit h | sector hpos hat hfit h =>
    have hlen := congrArg List.length hl
    rw [List.length_append, List.length_map, List.length_range, List.length_nil] at hlen
    omega

/-- What is programmed is not in front of the frontier. -/
theorem Fills.le_of_programs (h : Fills s c ops l) {o : Op α} (ho : o ∈ ops) {x : ℕ}
    (hx : o.Programs x) : c ≤ x := by
  induction h with
  | nil => cases ho
  | within hpos hin hfit h ih =>
    obtain rfl | ho := List.mem_cons.1 ho
    · exact hx.1
    · have := ih ho
      omega
  | sector hpos hat hfit h ih =>
    obtain rfl | ho := List.mem_cons.1 ho
    · exact hx.elim
    · obtain rfl | ho := List.mem_cons.1 ho
      · exact hx.1
      · have := ih ho
        omega

/-- What is erased is not in front of the frontier. -/
theorem Fills.le_of_erases (h : Fills s c ops l) {o : Op α} (ho : o ∈ ops) {x : ℕ}
    (hx : o.Erases s x) : c ≤ x := by
  induction h with
  | nil => cases ho
  | within hpos hin hfit h ih =>
    obtain rfl | ho := List.mem_cons.1 ho
    · exact hx.elim
    · have := ih ho
      omega
  | sector hpos hat hfit h ih =>
    obtain rfl | ho := List.mem_cons.1 ho
    · exact hx.1
    · obtain rfl | ho := List.mem_cons.1 ho
      · exact hx.elim
      · have := ih ho
        omega

/-- No program operation leaves its sector. -/
theorem Fills.within_sector (h : Fills s c ops l) {a : ℕ} (ho : .program a n d ∈ ops) :
    0 < n ∧ a % s + n ≤ s := by
  induction h with
  | nil => cases ho
  | within hpos hin hfit h ih =>
    obtain heq | ho := List.mem_cons.1 ho
    · cases heq
      exact ⟨hpos, hfit⟩
    · exact ih ho
  | sector hpos hat hfit h ih =>
    obtain heq | ho := List.mem_cons.1 ho
    · cases heq
    · obtain heq | ho := List.mem_cons.1 ho
      · cases heq
        refine ⟨hpos, ?_⟩
        rw [hat, Nat.zero_add]
        exact hfit
      · exact ih ho

/-- Data that stays in its sector, or ends it. -/
theorem add_mod_of_fits (hfit : c % s + n ≤ s) (hs : (c + n) % s ≠ 0) :
    (c + n) % s = c % s + n := by
  obtain hlt | heq := Nat.lt_or_eq_of_le hfit
  · rw [Nat.add_mod, Nat.mod_eq_of_lt (a := n) (by omega), Nat.mod_eq_of_lt hlt]
  · rw [Nat.add_mod, Nat.add_mod_mod, heq, Nat.mod_self] at hs
    exact absurd rfl hs

/-- The room behind the frontier in a sector that has been begun. -/
theorem room_of_fits (hfit : c % s + n ≤ s) (hs : (c + n) % s ≠ 0) :
    c + n + (s - (c + n) % s) = c + (s - c % s) := by
  rw [add_mod_of_fits hfit hs]
  omega

/-- Each cell is programmed once, and erased before, if its sector starts behind the frontier. -/
theorem Fills.programmed (h : Fills s c ops l) {x : ℕ} (hlo : c ≤ x) (hhi : x < c + l.length) :
    ∃ before op after, ops = before ++ op :: after ∧ op.Programs x ∧
      (∀ o ∈ before, ¬o.Programs x) ∧ (∀ o ∈ after, ¬o.Programs x) ∧
      ((c % s ≠ 0 → c + (s - c % s) ≤ x) → ∃ o ∈ before, o.Erases s x) ∧
      ∀ o ∈ after, ¬o.Erases s x := by
  induction h with
  | nil =>
    rw [List.length_nil] at hhi
    omega
  | @within c n d ops l hpos hin hfit h ih =>
    by_cases hx : x < c + n
    · refine ⟨[], _, ops, rfl, ⟨hlo, hx⟩, fun o ho => absurd ho List.not_mem_nil, fun o ho hp => ?_,
        fun hroom => ?_, fun o ho he => ?_⟩
      · have := h.le_of_programs ho hp
        omega
      · have := hroom hin
        omega
      · have := h.le_of_erases ho he
        omega
    · rw [List.length_append, List.length_map, List.length_range] at hhi
      obtain ⟨before, op, after, rfl, hop, hbefore, hafter, herase, hlast⟩ :=
        ih (by omega) (by omega)
      refine ⟨_ :: before, op, after, rfl, hop, List.forall_mem_cons.2 ⟨fun hp => hx hp.2, hbefore⟩,
        hafter, fun hroom => ?_, hlast⟩
      obtain ⟨o, ho, he⟩ := herase fun hn => by
        rw [room_of_fits hfit hn]
        exact hroom hin
      exact ⟨o, List.mem_cons_of_mem _ ho, he⟩
  | @sector c n d ops l hpos hat hfit h ih =>
    by_cases hx : x < c + n
    · refine ⟨[.erase c], _, ops, rfl, ⟨hlo, hx⟩, fun o ho hp => ?_, fun o ho hp => ?_,
        fun _ => ⟨_, List.mem_singleton_self _, hlo, by omega⟩, fun o ho he => ?_⟩
      · rw [List.mem_singleton.1 ho] at hp
        exact hp
      · have := h.le_of_programs ho hp
        omega
      · have := h.le_of_erases ho he
        omega
    · rw [List.length_append, List.length_map, List.length_range] at hhi
      obtain ⟨before, op, after, rfl, hop, hbefore, hafter, herase, hlast⟩ :=
        ih (by omega) (by omega)
      refine ⟨_ :: _ :: before, op, after, rfl, hop, List.forall_mem_cons.2 ⟨id,
        List.forall_mem_cons.2 ⟨fun hp => hx hp.2, hbefore⟩⟩, hafter, fun _ => ?_, hlast⟩
      by_cases hnext : (c + n) % s ≠ 0 → c + n + (s - (c + n) % s) ≤ x
      · obtain ⟨o, ho, he⟩ := herase hnext
        exact ⟨o, List.mem_cons_of_mem _ (List.mem_cons_of_mem _ ho), he⟩
      · -- the cell is in the sector that is erased here
        obtain ⟨hn, hroom⟩ := Classical.not_imp.1 hnext
        rw [room_of_fits (by omega) hn] at hroom
        exact ⟨_, List.mem_cons_self, hlo, by omega⟩

/-- From the start of a sector on each cell is programmed once, after its sector was erased. -/
theorem Fills.programmedOnce (h : Fills s c ops l) (hat : c % s = 0) {x : ℕ} (hlo : c ≤ x)
    (hhi : x < c + l.length) : ProgrammedOnce s ops x := by
  obtain ⟨before, op, after, heq, hop, hbefore, hafter, herase, hlast⟩ := h.programmed hlo hhi
  exact ⟨before, op, after, heq, hop, hbefore, hafter, herase fun hn => absurd hat hn, hlast⟩

/-- What was programmed before a sector is erased is in front of the sector. -/
theorem Fills.erase_untouched (hs : 0 < s) (h : Fills s c ops l) {before after : List (Op α)}
    {a : ℕ}
    (heq : ops = before ++ .erase a :: after) {o : Op α} (ho : o ∈ before) {x : ℕ}
    (hx : o.Programs x) : x < a := by
  have herases : (Op.erase a : Op α).Erases s a := ⟨Nat.le_refl a, by omega⟩
  induction h generalizing before with
  | nil => cases before <;> cases heq
  | @within c n d ops l hpos hin hfit h ih =>
    rcases before with - | ⟨p, before⟩
    · cases ho
    · obtain ⟨rfl, rfl⟩ := List.cons.inj heq
      obtain rfl | ho := List.mem_cons.1 ho
      · have := h.le_of_erases (List.mem_append_right _ List.mem_cons_self) herases
        exact Nat.lt_of_lt_of_le hx.2 this
      · exact ih rfl ho
  | @sector c n d ops l hpos hat hfit h ih =>
    rcases before with - | ⟨p, - | ⟨q, before⟩⟩
    · cases ho
    · cases heq
    · obtain ⟨rfl, htail⟩ := List.cons.inj heq
      obtain ⟨rfl, rfl⟩ := List.cons.inj htail
      obtain rfl | ho := List.mem_cons.1 ho
      · exact hx.elim
      obtain rfl | ho := List.mem_cons.1 ho
      · have := h.le_of_erases (List.mem_append_right _ List.mem_cons_self) herases
        exact Nat.lt_of_lt_of_le hx.2 this
      · exact ih rfl ho

section Content

variable {blank : α} {merge : α → α → α}

/-- Operations on other cells leave a cell alone. -/
theorem applyAll_of_untouched {f : ℕ → α} {x : ℕ}
    (h : ∀ o ∈ ops, ¬o.Programs x ∧ ¬o.Erases s x) : applyAll s blank merge ops f x = f x := by
  induction ops generalizing f with
  | nil => rfl
  | cons o ops ih =>
    obtain ⟨ho, hops⟩ := List.forall_mem_cons.1 h
    refine (ih hops).trans ?_
    cases o with
    | erase a => exact if_neg ho.2
    | program a n d => exact if_neg ho.1

/-- In front of the frontier nothing changes. -/
theorem Fills.applyAll_of_lt (h : Fills s c ops l) {f : ℕ → α} {x : ℕ} (hx : x < c) :
    applyAll s blank merge ops f x = f x := by
  refine applyAll_of_untouched fun o ho => ⟨fun hp => ?_, fun he => ?_⟩
  · have := h.le_of_programs ho hp
    omega
  · have := h.le_of_erases ho he
    omega

/-- The data is in the memory, if the cells behind the frontier are blank in a sector that has been
begun. -/
theorem Fills.applyAll_eq (hmerge : ∀ a, merge blank a = a) (h : Fills s c ops l) {f : ℕ → α}
    (hblank : c % s ≠ 0 → ∀ x, c ≤ x → x < c + (s - c % s) → f x = blank) :
    (List.range l.length).map (fun i => applyAll s blank merge ops f (c + i)) = l := by
  induction h generalizing f with
  | nil => rfl
  | @within c n d ops l hpos hin hfit h ih =>
    have hblank' : (c + n) % s ≠ 0 → ∀ x, c + n ≤ x → x < c + n + (s - (c + n) % s) →
        (Op.program c n d).apply s blank merge f x = blank := by
      intro hn x hlo hhi
      rw [room_of_fits hfit hn] at hhi
      exact (if_neg fun hx => by omega).trans (hblank hin x (by omega) hhi)
    rw [List.length_append, List.length_map, List.length_range, map_range_add]
    refine congrArg₂ _ (List.map_congr_left fun i hi => ?_) ?_
    · have hi' := List.mem_range.1 hi
      refine (h.applyAll_of_lt (by omega)).trans ((if_pos ⟨by omega, by omega⟩).trans ?_)
      rw [hblank hin (c + i) (by omega) (by omega), hmerge, Nat.add_sub_cancel_left]
    · refine Eq.trans (List.map_congr_left fun i _ => ?_) (ih hblank')
      rw [Nat.add_assoc]
      rfl
  | @sector c n d ops l hpos hat hfit h ih =>
    have hblank' : (c + n) % s ≠ 0 → ∀ x, c + n ≤ x → x < c + n + (s - (c + n) % s) →
        (Op.program c n d).apply s blank merge
          ((Op.erase c).apply s blank merge f) x = blank := by
      intro hn x hlo hhi
      rw [room_of_fits (by omega) hn] at hhi
      exact (if_neg fun hx => by omega).trans (if_pos ⟨by omega, by omega⟩)
    rw [List.length_append, List.length_map, List.length_range, map_range_add]
    refine congrArg₂ _ (List.map_congr_left fun i hi => ?_) ?_
    · have hi' := List.mem_range.1 hi
      refine (h.applyAll_of_lt (by omega)).trans ((if_pos ⟨by omega, by omega⟩).trans ?_)
      have herased : (Op.erase c).apply s blank merge f (c + i) = blank :=
        if_pos ⟨by omega, by omega⟩
      dsimp only
      rw [herased, hmerge, Nat.add_sub_cancel_left]
    · refine Eq.trans (List.map_congr_left fun i _ => ?_) (ih hblank')
      rw [Nat.add_assoc]
      rfl

end Content

end SectorFill
