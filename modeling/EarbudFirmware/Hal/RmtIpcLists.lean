import EarbudFirmware.Hal.RmtIpc
import EarbudFirmware.Lib.LinkedList
import Mathlib.Data.List.Perm.Subperm
import Mathlib.Data.List.Range
import Mathlib.Tactic.SplitIfs

/-!
# The sender's lists

The records in use are those of the two lists, which share none. A message that is sent while the
first list is with the other core joins the second one, and changes no record of the first.

## Main definitions

* `Owns` — the records of the two lists
* `Holds` — their messages are those that were accepted behind `base`
* `Kept` — the other core sees the same

## Main results

* `Holds.send` — one message more
* `Holds.txLoop` — the first list is reported and its records are free
-/

namespace EarbudFirmware.RmtIpc

open LinkedList (IsList Seg seg_append)

variable {c c' c'' : Channel} {log log' : Log} {x x' : Channel × Log} {p : Option Nat}
  {act pend l : List Nat} {base : List Buf} {b : Buf} {fuel i j : Nat}

/-- The last message of a list is found. -/
theorem lastOf_spec {next : Nat → Option Nat} {q : Nat} (h : IsList next (some q) l)
    (hfuel : l.length ≤ fuel) : ∃ front y, l = front ++ [y] ∧ lastOf next fuel q = some y := by
  induction fuel generalizing q l with
  | zero =>
    obtain ⟨l', rfl, -⟩ := h.tail
    rw [List.length_cons] at hfuel
    omega
  | succ fuel ih =>
    obtain ⟨l', rfl, htail⟩ := h.tail
    rw [lastOf]
    cases hq : next q with
    | none =>
      rw [hq] at htail
      have hnil : l' = [] := List.head?_eq_none_iff.mp htail.head?_eq.symm
      exact ⟨[], q, by rw [hnil]; rfl, rfl⟩
    | some r =>
      rw [hq] at htail
      rw [List.length_cons] at hfuel
      obtain ⟨front, y, rfl, hlast⟩ := ih htail (by omega)
      exact ⟨q :: front, y, rfl, hlast⟩

/-- From `p` on, the first list has the records `act`, and the second one has the records `pend`;
these are the records in use. -/
structure Owns (c : Channel) (p : Option Nat) (act pend : List Nat) : Prop where
  active : IsList c.next p act
  pending : IsList c.next c.sendPendingList pend
  nodup : (act ++ pend).Nodup
  used : ∀ i < maxSendRecCnt, c.inUse i = true ↔ i ∈ act ++ pend
  lt : ∀ i ∈ act ++ pend, i < maxSendRecCnt

theorem Owns.length_le (h : Owns c p act pend) : (act ++ pend).length ≤ maxSendRecCnt := by
  have hsub : act ++ pend ⊆ List.range maxSendRecCnt := fun i hi => List.mem_range.mpr (h.lt i hi)
  have hle := (List.subperm_of_subset h.nodup hsub).length_le
  rwa [List.length_range] at hle

/-- There is a free record exactly if a record is in no list. -/
theorem Owns.freeRecord_eq_none (h : Owns c p act pend) (hfree : c.freeRecord = none) :
    (act ++ pend).length = maxSendRecCnt := by
  rw [Channel.freeRecord, List.find?_eq_none] at hfree
  have hsub : List.range maxSendRecCnt ⊆ act ++ pend := by
    intro i hi
    have hused := hfree i hi
    rw [← h.used i (List.mem_range.mp hi)]
    simpa using hused
  have hle := (List.subperm_of_subset List.nodup_range hsub).length_le
  rw [List.length_range] at hle
  exact Nat.le_antisymm h.length_le hle

theorem Owns.freeRecord_eq_some (h : Owns c p act pend) (hfree : c.freeRecord = some i) :
    i < maxSendRecCnt ∧ i ∉ act ++ pend := by
  have hmem := List.mem_range.mp (List.mem_of_find?_eq_some hfree)
  have hnot := List.find?_some hfree
  refine ⟨hmem, ?_⟩
  rw [← h.used i hmem]
  simpa using hnot

/-- Another record in use, and another list. -/
theorem used_update (h : Owns c p act pend) (hi : i < maxSendRecCnt) :
    ∀ j < maxSendRecCnt, Function.update c.inUse i true j = true ↔ j ∈ act ++ (pend ++ [i]) := by
  intro j hj
  rw [← List.append_assoc, List.mem_append, List.mem_singleton]
  by_cases hji : j = i
  · subst hji
    simp
  · rw [Function.update_of_ne hji, h.used j hj]
    simp [hji]

/-- While the first list is with the other core, a message joins the second one. -/
theorem Owns.enlist (h : Owns c p act pend) (hopen : c.sendMsgList ≠ none)
    (hfree : c.freeRecord = some i) (b : Buf) : ∃ next first,
    c.enlist i b = some { c with
      next
      buf := Function.update c.buf i b
      inUse := Function.update c.inUse i true
      chanBusy := true
      sendPendingList := first } ∧
    Owns { c with
      next
      buf := Function.update c.buf i b
      inUse := Function.update c.inUse i true
      chanBusy := true
      sendPendingList := first } p act (pend ++ [i]) ∧
    ∀ j ∈ act, next j = c.next j := by
  obtain ⟨hi, hnot⟩ := h.freeRecord_eq_some hfree
  have hact : i ∉ act := fun hmem => hnot (List.mem_append_left _ hmem)
  have hpend : i ∉ pend := fun hmem => hnot (List.mem_append_right _ hmem)
  obtain ⟨m, hm⟩ := Option.ne_none_iff_exists'.mp hopen
  have hnodup : (act ++ (pend ++ [i])).Nodup := by
    rw [← List.append_assoc]
    refine List.nodup_append.mpr ⟨h.nodup, List.nodup_singleton i, ?_⟩
    intro y hy z hz
    obtain rfl := List.mem_singleton.mp hz
    exact ne_of_mem_of_not_mem hy hnot
  have hlt : ∀ j ∈ act ++ (pend ++ [i]), j < maxSendRecCnt := by
    intro j hj
    rw [← List.append_assoc, List.mem_append, List.mem_singleton] at hj
    rcases hj with hj | rfl
    · exact h.lt j hj
    · exact hi
  have hpending : IsList (Function.update c.next i none) c.sendPendingList pend :=
    Seg.update h.pending hpend none
  have hsingle : IsList (Function.update c.next i none) (some i) [i] :=
    ⟨rfl, Function.update_self ..⟩
  cases hfirst : c.sendPendingList with
  | none =>
    have hnil : pend = [] := by
      have hhead := h.pending.head?_eq
      rw [hfirst] at hhead
      exact List.head?_eq_none_iff.mp hhead.symm
    subst hnil
    refine ⟨Function.update c.next i none, some i, ?_, ⟨?_, hsingle, hnodup, used_update h hi, hlt⟩,
      fun j hj => Function.update_of_ne (ne_of_mem_of_not_mem hj hact) ..⟩
    · unfold Channel.enlist
      rw [hm, hfirst]
    · exact Seg.update h.active hact none
  | some q =>
    rw [hfirst] at hpending
    have hlen : pend.length ≤ maxSendRecCnt := by
      have hle := h.length_le
      rw [List.length_append] at hle
      omega
    obtain ⟨front, y, rfl, hlast⟩ := lastOf_spec hpending hlen
    have hyact : y ∉ act := by
      intro hmem
      have hdisjoint := (List.nodup_append.mp h.nodup).2.2
      exact hdisjoint y hmem y (by simp) rfl
    have hyi : y ∉ [i] := by
      intro hmem
      obtain rfl := List.mem_singleton.mp hmem
      exact hpend (by simp)
    have hjoined := IsList.replaceBehind hpending hsingle hyi
    refine ⟨Function.update (Function.update c.next i none) y (some i), some q, ?_,
      ⟨?_, ?_, hnodup, used_update h hi, hlt⟩, fun j hj => ?_⟩
    · unfold Channel.enlist
      rw [hm, hfirst]
      dsimp only
      rw [hlast]
      rfl
    · exact Seg.update (Seg.update h.active hact none) hyact (some i)
    · rwa [List.append_assoc]
    · rw [Function.update_of_ne (ne_of_mem_of_not_mem hj hyact),
        Function.update_of_ne (ne_of_mem_of_not_mem hj hact)]

/-- An idle sender hands the message over at once. -/
theorem Owns.enlist_idle (h : Owns c p [] []) (hidle : c.sendMsgList = none)
    (hfree : c.freeRecord = some i) (b : Buf) : ∃ c', c.enlist i b = some c' ∧
      c' = { c with
        next := Function.update c.next i none
        buf := Function.update c.buf i b
        inUse := Function.update c.inUse i true
        chanBusy := true
        sendMsgList := some i
        sendInd := true } ∧ Owns c' (some i) [i] [] := by
  obtain ⟨hi, -⟩ := h.freeRecord_eq_some hfree
  have hfirst : c.sendPendingList = none := h.pending.head?_eq
  refine ⟨_, ?_, rfl, ⟨rfl, Function.update_self ..⟩, hfirst, List.nodup_singleton i, ?_, ?_⟩
  · unfold Channel.enlist
    rw [hidle, hfirst]
  · exact used_update h hi
  · intro j hj
    obtain rfl := List.mem_singleton.mp hj
    exact hi

/-! ### The messages of the lists -/

/-- The records hold the messages that were accepted behind `base`. -/
structure Holds (x : Channel × Log) (base : List Buf) (p : Option Nat) (act pend : List Nat) :
    Prop where
  owns : Owns x.1 p act pend
  accepted : x.2.accepted = base ++ (act ++ pend).map x.1.buf
  sendable : ∀ i ∈ act ++ pend, (x.1.buf i).Sendable

/-- Nothing has changed but the second list: the first one, its messages in `act`, the receiver and
the interrupt lines are the same, and so is what the receiver took and what was reported. -/
structure Kept (act : List Nat) (x x' : Channel × Log) : Prop where
  sendMsgList : x'.1.sendMsgList = x.1.sendMsgList
  msg : ∀ i ∈ act, x'.1.msg i = x.1.msg i
  recvPendingHead : x'.1.recvPendingHead = x.1.recvPendingHead
  needFlowCtrl : x'.1.needFlowCtrl = x.1.needFlowCtrl
  rxEnabled : x'.1.rxEnabled = x.1.rxEnabled
  rxMask : x'.1.rxMask = x.1.rxMask
  sendInd : x'.1.sendInd = x.1.sendInd
  recvDone : x'.1.recvDone = x.1.recvDone
  chanBusy : x.1.chanBusy = true → x'.1.chanBusy = true
  taken : x'.2.taken = x.2.taken
  reported : x'.2.reported = x.2.reported

theorem Kept.refl (act : List Nat) (x : Channel × Log) : Kept act x x :=
  ⟨rfl, fun _ _ => rfl, rfl, rfl, rfl, rfl, rfl, rfl, id, rfl, rfl⟩

theorem Kept.trans (h : Kept act x x') {x'' : Channel × Log} (h' : Kept act x' x'') :
    Kept act x x'' where
  sendMsgList := h'.sendMsgList.trans h.sendMsgList
  msg := fun i hi => (h'.msg i hi).trans (h.msg i hi)
  recvPendingHead := h'.recvPendingHead.trans h.recvPendingHead
  needFlowCtrl := h'.needFlowCtrl.trans h.needFlowCtrl
  rxEnabled := h'.rxEnabled.trans h.rxEnabled
  rxMask := h'.rxMask.trans h.rxMask
  sendInd := h'.sendInd.trans h.sendInd
  recvDone := h'.recvDone.trans h.recvDone
  chanBusy := fun hb => h'.chanBusy (h.chanBusy hb)
  taken := h'.taken.trans h.taken
  reported := h'.reported.trans h.reported

/-- A message is put into a record that is in no list. -/
theorem map_buf_update (h : i ∉ l) : l.map (Function.update c.buf i b) = l.map c.buf :=
  List.map_congr_left fun _ hj => Function.update_of_ne (ne_of_mem_of_not_mem hj h) ..

/-- While the first list is with the other core, a message joins the second one, or is refused. -/
theorem Holds.send (h : Holds x base p act pend) (hopen : x.1.sendMsgList ≠ none)
    (hb : b.Sendable) :
    ∃ x' pend', sendLogged x b = some x' ∧ Holds x' base p act pend' ∧ Kept act x x' := by
  cases hfree : x.1.freeRecord with
  | none =>
    refine ⟨x, pend, ?_, h, Kept.refl act x⟩
    unfold sendLogged sendSeq
    rw [hfree]
    rfl
  | some i =>
    obtain ⟨-, hnot⟩ := h.owns.freeRecord_eq_some hfree
    have hact : i ∉ act := fun hmem => hnot (List.mem_append_left _ hmem)
    obtain ⟨next, first, henlist, howns, hnext⟩ := h.owns.enlist hopen hfree b
    refine ⟨({ x.1 with
      next
      buf := Function.update x.1.buf i b
      inUse := Function.update x.1.inUse i true
      chanBusy := true
      sendPendingList := first }, { x.2 with accepted := x.2.accepted ++ [b] }), pend ++ [i], ?_,
      ⟨howns, ?_, fun j hj => ?_⟩,
      ⟨rfl, fun j hj => ?_, rfl, rfl, rfl, rfl, rfl, rfl, fun _ => rfl, rfl, rfl⟩⟩
    · unfold sendLogged sendSeq
      rw [hfree]
      dsimp only
      rw [henlist]
      rfl
    · change x.2.accepted ++ [b] = base ++ (act ++ (pend ++ [i])).map (Function.update x.1.buf i b)
      rw [← List.append_assoc act, List.map_append, map_buf_update hnot, h.accepted,
        List.append_assoc, List.map_singleton, Function.update_self]
    · change (Function.update x.1.buf i b j).Sendable
      by_cases hji : j = i
      · rw [hji, Function.update_self]
        exact hb
      · rw [Function.update_of_ne hji]
        rw [← List.append_assoc, List.mem_append, List.mem_singleton] at hj
        exact h.sendable j (hj.resolve_right hji)
    · change Msg.mk (next j) (Function.update x.1.buf i b j) = x.1.msg j
      rw [hnext j hj, Function.update_of_ne (ne_of_mem_of_not_mem hj hact)]
      rfl

/-- The same for several messages. -/
theorem Holds.sends (h : Holds x base p act pend) (hopen : x.1.sendMsgList ≠ none) {bs : List Buf}
    (hbs : ∀ b ∈ bs, b.Sendable) :
    ∃ x' pend', bs.foldlM sendLogged x = some x' ∧ Holds x' base p act pend' ∧ Kept act x x' := by
  induction bs generalizing x pend with
  | nil => exact ⟨x, pend, rfl, h, Kept.refl act x⟩
  | cons b bs ih =>
    obtain ⟨x₁, pend₁, hsend, h₁, hkept₁⟩ := h.send hopen (hbs b List.mem_cons_self)
    have hopen₁ : x₁.1.sendMsgList ≠ none := by
      rw [hkept₁.sendMsgList]
      exact hopen
    obtain ⟨x₂, pend₂, hsends, h₂, hkept₂⟩ :=
      ih h₁ hopen₁ fun b hb => hbs b (List.mem_cons_of_mem _ hb)
    refine ⟨x₂, pend₂, ?_, h₂, hkept₁.trans hkept₂⟩
    rw [List.foldlM_cons, hsend]
    exact hsends

/-- The loop of the done interrupt reports the messages of the first list and frees their
records. -/
theorem Holds.txLoop (h : Holds x base p act pend) (hopen : x.1.sendMsgList ≠ none)
    (hfuel : act.length < fuel) {sends : List (List Buf)}
    (hsends : ∀ l ∈ sends, ∀ b ∈ l, b.Sendable) :
    ∃ x' pend', RmtIpc.txLoop fuel x p sends = some x' ∧
      Holds x' (base ++ act.map x.1.buf) none [] pend' ∧
      Kept [] (x.1, { x.2 with reported := x.2.reported ++ act.map x.1.buf }) x' := by
  induction act generalizing x p base pend fuel sends with
  | nil =>
    obtain ⟨fuel, rfl⟩ : ∃ k, fuel = k + 1 := ⟨fuel - 1, by simp at hfuel; omega⟩
    obtain rfl : p = none := h.owns.active
    refine ⟨x, pend, rfl, ?_, ?_⟩
    · rwa [List.map_nil, List.append_nil]
    · rw [List.map_nil, List.append_nil]
      exact Kept.refl [] x
  | cons i act ih =>
    rw [List.length_cons] at hfuel
    obtain ⟨fuel, rfl⟩ : ∃ k, fuel = k + 1 := ⟨fuel - 1, by omega⟩
    obtain ⟨rfl, -⟩ := h.owns.active
    -- the handler is called, while the record is still in use
    have hcalled : Holds (x.1, { x.2 with reported := x.2.reported ++ [x.1.buf i] }) base (some i)
        (i :: act) pend := ⟨h.owns, h.accepted, h.sendable⟩
    have hbs : ∀ b ∈ sends.headD [], b.Sendable := by
      cases sends with
      | nil => exact fun b hb => absurd hb (List.not_mem_nil)
      | cons l sends => exact hsends l List.mem_cons_self
    obtain ⟨x₁, pend₁, hrun, h₁, hkept₁⟩ := hcalled.sends hopen hbs
    obtain ⟨-, htail⟩ := h₁.owns.active
    have hnodup := h₁.owns.nodup
    rw [List.cons_append, List.nodup_cons] at hnodup
    have hbuf : ∀ j ∈ i :: act, x₁.1.buf j = x.1.buf j := fun j hj =>
      congrArg Msg.buf (hkept₁.msg j hj)
    -- then the record is free
    have hfreed : Holds ({ x₁.1 with inUse := Function.update x₁.1.inUse i false }, x₁.2)
        (base ++ [x.1.buf i]) (x₁.1.next i) act pend₁ := by
      refine ⟨⟨htail, h₁.owns.pending, hnodup.2, fun j hj => ?_, fun j hj => ?_⟩, ?_,
        fun j hj => ?_⟩
      · change Function.update x₁.1.inUse i false j = true ↔ _
        by_cases hji : j = i
        · subst hji
          rw [Function.update_self]
          exact iff_of_false Bool.false_ne_true hnodup.1
        · rw [Function.update_of_ne hji, h₁.owns.used j hj, List.cons_append, List.mem_cons]
          exact or_iff_right hji
      · exact h₁.owns.lt j (List.mem_cons_of_mem i hj)
      · change x₁.2.accepted = _
        rw [h₁.accepted, List.cons_append, List.map_cons, hbuf i List.mem_cons_self,
          List.append_assoc, List.singleton_append]
      · exact h₁.sendable j (List.mem_cons_of_mem i hj)
    have hopen₁ : x₁.1.sendMsgList ≠ none := by
      rw [hkept₁.sendMsgList]
      exact hopen
    obtain ⟨x', pend', hloop, hholds, hkept⟩ := ih hfreed hopen₁ (Nat.lt_of_succ_lt_succ hfuel)
      fun l hl => hsends l (List.mem_of_mem_tail hl)
    have hmap : act.map x₁.1.buf = act.map x.1.buf :=
      List.map_congr_left fun j hj => hbuf j (List.mem_cons_of_mem i hj)
    refine ⟨x', pend', ?_, ?_, ?_⟩
    · rw [RmtIpc.txLoop]
      dsimp only
      rw [hrun]
      exact hloop
    · rw [List.map_cons, List.append_cons, ← hmap]
      exact hholds
    · have hreported : x'.2.reported = x.2.reported ++ (i :: act).map x.1.buf := by
        rw [hkept.reported]
        change x₁.2.reported ++ act.map x₁.1.buf = _
        rw [hkept₁.reported, hmap, List.map_cons, List.append_assoc, List.singleton_append]
      exact ⟨hkept.sendMsgList.trans hkept₁.sendMsgList, fun j hj => absurd hj List.not_mem_nil,
        hkept.recvPendingHead.trans hkept₁.recvPendingHead,
        hkept.needFlowCtrl.trans hkept₁.needFlowCtrl, hkept.rxEnabled.trans hkept₁.rxEnabled,
        hkept.rxMask.trans hkept₁.rxMask, hkept.sendInd.trans hkept₁.sendInd,
        hkept.recvDone.trans hkept₁.recvDone, fun hb => hkept.chanBusy (hkept₁.chanBusy hb),
        hkept.taken.trans hkept₁.taken, hreported⟩

end EarbudFirmware.RmtIpc
