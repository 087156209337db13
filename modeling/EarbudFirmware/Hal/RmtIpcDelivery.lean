import EarbudFirmware.Hal.RmtIpcLists
import EarbudFirmware.Lib.Transition

/-!
# Every byte once and in order

The receiver's handler may take any part of a message. What it has taken, and what it has left of
the first list, are the messages that have left the sender.

## Main definitions

* `bytesOf` — the addresses of the bytes of messages
* `Phase` — how far the first list has come, and what is left of it
* `Flows` — the invariant of a channel

## Main results

* `Flowing.step` — every allowed event keeps the invariant
* `delivered_in_order` — what is taken, reported and in use, in every run
* `drains` — from every state, a channel can deliver what it has
-/

namespace EarbudFirmware.RmtIpc

open LinkedList (IsList Seg seg_append)

/-- The addresses of the bytes of messages. -/
def bytesOf (l : List Buf) : List Nat := l.flatMap Buf.bytes

variable {c c' : Channel} {x y : Channel × Log} {p : Option Nat} {act pend l back : List Nat}
  {left base : List Buf} {b : Buf} {fuel i : Nat} {m : Msg} {answers taken : List Nat} {e : Event}

theorem bytesOf_append (l l' : List Buf) : bytesOf (l ++ l') = bytesOf l ++ bytesOf l' :=
  List.flatMap_append

theorem bytesOf_cons (b : Buf) (l : List Buf) : bytesOf (b :: l) = b.bytes ++ bytesOf l :=
  List.flatMap_cons

/-- The two parts of a message. -/
theorem bytes_cut {data len k : Nat} (h : k ≤ len) :
    Buf.bytes ⟨data, k⟩ ++ Buf.bytes ⟨data + k, len - k⟩ = Buf.bytes ⟨data, len⟩ := by
  simp only [Buf.bytes]
  rw [List.range'_append_1, Nat.add_sub_cancel' h]

/-- The loop of the receive interrupt ends, behind the messages or inside one of them. -/
theorem rxLoop_spec (fuel : Nat) (m : Msg) (l answers taken : List Nat)
    (hl : IsList c.next m.next l) (hm : m.buf.Sendable)
    (hsendable : ∀ i ∈ l, (c.buf i).Sendable) (hfuel : l.length + 1 < fuel) :
    ∃ taken' rest, rxLoop c fuel (some m) answers taken = some (taken', rest) ∧
      taken <+: taken' ∧
      ((rest = none ∧ taken' = taken ++ bytesOf (m.buf :: l.map c.buf)) ∨
        ∃ r back, rest = some r ∧ back <:+ l ∧ IsList c.next r.next back ∧ r.buf.data ≠ 0 ∧
          taken' ++ bytesOf (r.buf :: back.map c.buf) =
            taken ++ bytesOf (m.buf :: l.map c.buf)) := by
  induction fuel generalizing m l answers taken with
  | zero => omega
  | succ fuel ih =>
    by_cases hlt : answers.headD 0 < m.buf.len
    · -- the handler leaves a rest, which has an address like the message
      have hdata : m.buf.data ≠ 0 := hm.resolve_right (by omega)
      have hstep : rxLoop c (fuel + 1) (some m) answers taken =
          some (taken ++ Buf.bytes ⟨m.buf.data, answers.headD 0⟩, some ⟨m.next,
            ⟨m.buf.data + answers.headD 0, m.buf.len - answers.headD 0⟩⟩) := by
        rw [rxLoop, if_pos hlt]
      refine ⟨_, _, hstep, List.prefix_append _ _,
        Or.inr ⟨_, l, rfl, List.suffix_refl l, hl, ?_, ?_⟩⟩
      · change m.buf.data + answers.headD 0 ≠ 0
        omega
      · rw [bytesOf_cons, bytesOf_cons, List.append_assoc, ← List.append_assoc (Buf.bytes _),
          bytes_cut (Nat.le_of_lt hlt)]
    · have hstep : rxLoop c (fuel + 1) (some m) answers taken =
          rxLoop c fuel (m.next.map c.msg) answers.tail (taken ++ m.buf.bytes) := by
        rw [rxLoop, if_neg hlt]
      rw [hstep, bytesOf_cons, ← List.append_assoc]
      cases l with
      | nil =>
        have hnext : m.next = none := hl
        obtain ⟨fuel, rfl⟩ : ∃ k, fuel = k + 1 := ⟨fuel - 1, by simp at hfuel; omega⟩
        rw [hnext]
        exact ⟨_, _, rfl, List.prefix_append _ _, Or.inl ⟨rfl, (List.append_nil _).symm⟩⟩
      | cons i l =>
        obtain ⟨hnext, htail⟩ := hl
        rw [List.length_cons] at hfuel
        rw [hnext, List.map_cons]
        obtain ⟨taken', rest, hrun, hprefix, hcases⟩ := ih (c.msg i) l answers.tail
          (taken ++ m.buf.bytes) htail (hsendable i List.mem_cons_self)
          (fun j hj => hsendable j (List.mem_cons_of_mem i hj)) (Nat.lt_of_succ_lt_succ hfuel)
        refine ⟨taken', rest, hrun, (List.prefix_append _ _).trans hprefix, hcases.imp id ?_⟩
        rintro ⟨r, back, hrest, hsuffix, hback⟩
        exact ⟨r, back, hrest, hsuffix.trans (List.suffix_cons i l), hback⟩

/-! ### The invariant -/

/-- How far the first list, whose records are `act`, has come, and the messages that the receiver
has left of it. -/
inductive Phase (c : Channel) (act : List Nat) : List Buf → Prop
  /-- Nothing was taken of it. -/
  | fresh (ind : c.sendInd = !act.isEmpty) (recvDone : c.recvDone = false)
    (head : c.recvPendingHead.buf.data = 0) (mask : c.rxMask = true) : Phase c act (act.map c.buf)
  /-- The receiver has the rest of a message, with those behind it. -/
  | begun (back : List Nat) (suffix : back <:+ act) (shorter : back.length < act.length)
    (ind : c.sendInd = true) (recvDone : c.recvDone = false)
    (head : c.recvPendingHead.buf.data ≠ 0) (behind : IsList c.next c.recvPendingHead.next back) :
    Phase c act (c.recvPendingHead.buf :: back.map c.buf)
  /-- All was taken, and the receiver's user has not said so. -/
  | owed (nonempty : act ≠ []) (ind : c.sendInd = true) (recvDone : c.recvDone = false)
    (head : c.recvPendingHead.buf.data = 0) (mask : c.rxMask = false) : Phase c act []
  /-- All was taken, and the sender is told so. -/
  | done (nonempty : act ≠ []) (ind : c.sendInd = false) (recvDone : c.recvDone = true)
    (head : c.recvPendingHead.buf.data = 0) (mask : c.rxMask = true) : Phase c act []

/-- The records hold what was accepted and not reported, and what is left of the first list is what
the receiver has not taken of the messages that were handed over. -/
structure Flows (x : Channel × Log) (act pend : List Nat) (left : List Buf) : Prop where
  holds : Holds x x.2.reported x.1.sendMsgList act pend
  order : act = [] → pend = []
  phase : Phase x.1 act left
  bytes : x.2.taken ++ bytesOf left = bytesOf (x.2.reported ++ act.map x.1.buf)
  reported : bytesOf x.2.reported <+: x.2.taken
  busy : x.1.chanBusy = !act.isEmpty

/-- Nothing has gone through the channel. -/
def Log.empty : Log := ⟨[], [], []⟩

theorem flows_opened (needFlowCtrl : Bool) : Flows (opened needFlowCtrl, .empty) [] [] [] where
  holds :=
    ⟨⟨rfl, rfl, List.nodup_nil, fun _ _ => iff_of_false Bool.false_ne_true List.not_mem_nil,
      fun _ hi => absurd hi List.not_mem_nil⟩, rfl, fun _ hi => absurd hi List.not_mem_nil⟩
  order := fun _ => rfl
  phase := .fresh rfl rfl rfl rfl
  bytes := rfl
  reported := List.prefix_refl _
  busy := rfl

/-- The phase does not depend on the second list. -/
theorem Phase.kept (h : Phase x.1 act left) (hkept : Kept act x y) : Phase y.1 act left := by
  have hmap : ∀ l, l <:+ act → l.map y.1.buf = l.map x.1.buf := fun l hl =>
    List.map_congr_left fun j hj => congrArg Msg.buf (hkept.msg j (hl.subset hj))
  cases h with
  | fresh ind recvDone head mask =>
    rw [← hmap act (List.suffix_refl act)]
    exact .fresh (hkept.sendInd.trans ind) (hkept.recvDone.trans recvDone)
      (by rw [hkept.recvPendingHead]; exact head) (hkept.rxMask.trans mask)
  | begun back suffix shorter ind recvDone head behind =>
    rw [← hmap back suffix, ← hkept.recvPendingHead]
    refine .begun back suffix shorter (hkept.sendInd.trans ind) (hkept.recvDone.trans recvDone)
      (by rw [hkept.recvPendingHead]; exact head) ?_
    rw [hkept.recvPendingHead]
    exact behind.congr fun j hj => congrArg Msg.next (hkept.msg j (suffix.subset hj))
  | owed nonempty ind recvDone head mask =>
    exact .owed nonempty (hkept.sendInd.trans ind) (hkept.recvDone.trans recvDone)
      (by rw [hkept.recvPendingHead]; exact head) (hkept.rxMask.trans mask)
  | done nonempty ind recvDone head mask =>
    exact .done nonempty (hkept.sendInd.trans ind) (hkept.recvDone.trans recvDone)
      (by rw [hkept.recvPendingHead]; exact head) (hkept.rxMask.trans mask)

theorem Flows.sendMsgList_eq_none_iff (h : Flows x act pend left) :
    x.1.sendMsgList = none ↔ act = [] := by
  rw [h.holds.owns.active.head?_eq, List.head?_eq_none_iff]

/-! ### One event -/

/-- A channel whose invariant holds, whatever is in its lists. -/
def Flowing (x : Channel × Log) : Prop := ∃ act pend left, Flows x act pend left

theorem Flows.send (h : Flows x act pend left) (hb : b.Sendable) :
    ∃ y, sendLogged x b = some y ∧ Flowing y := by
  by_cases hact : act = []
  · subst hact
    obtain rfl := h.order rfl
    have hidle := h.sendMsgList_eq_none_iff.mpr rfl
    have howns := h.holds.owns
    have haccepted := h.holds.accepted
    cases hfree : x.1.freeRecord with
    | none =>
      have hlen := howns.freeRecord_eq_none hfree
      rw [List.append_nil, List.length_nil] at hlen
      exact absurd hlen (by decide)
    | some i =>
      obtain ⟨c', henlist, hc', howns'⟩ := howns.enlist_idle hidle hfree b
      have hsend : sendLogged x b = some (c', { x.2 with accepted := x.2.accepted ++ [b] }) := by
        unfold sendLogged sendSeq
        rw [hfree]
        dsimp only
        rw [henlist]
        rfl
      have hbuf : c'.buf i = b := by
        rw [hc']
        exact Function.update_self ..
      have hmap : ([i] ++ []).map c'.buf = [b] := by rw [List.append_nil, List.map_singleton, hbuf]
      have hlist : c'.sendMsgList = some i := by rw [hc']
      have hphase := h.phase
      have hbytes := h.bytes
      -- nothing was handed over, so that nothing is left, and the interrupt is not masked
      cases hphase with
      | fresh ind recvDone head mask =>
        refine ⟨_, hsend, [i], [], _, ⟨?_, ?_, fun j hj => ?_⟩, fun hnil => absurd hnil (by simp),
          .fresh ?_ ?_ ?_ ?_, ?_, h.reported, ?_⟩
        · rw [hlist]
          exact howns'
        · rw [hmap]
          change x.2.accepted ++ [b] = x.2.reported ++ [b]
          rw [haccepted, List.append_nil, List.map_nil, List.append_nil]
        · obtain rfl := List.mem_singleton.mp hj
          rw [hbuf]
          exact hb
        · rw [hc']
          rfl
        · rw [hc']
          exact recvDone
        · rw [hc']
          exact head
        · rw [hc']
          exact mask
        · change x.2.taken ++ bytesOf ([i].map c'.buf) = bytesOf (x.2.reported ++ [i].map c'.buf)
          rw [bytesOf_append]
          congr 1
          rwa [List.map_nil, List.append_nil, bytesOf, List.flatMap_nil, List.append_nil] at hbytes
        · rw [hc']
          rfl
      | begun back suffix shorter => exact absurd shorter (Nat.not_lt_zero _)
      | owed nonempty => exact absurd rfl nonempty
      | done nonempty => exact absurd rfl nonempty
  · have hopen : x.1.sendMsgList ≠ none := fun hnone => hact (h.sendMsgList_eq_none_iff.mp hnone)
    obtain ⟨y, pend', hsend, hholds, hkept⟩ := h.holds.send hopen hb
    refine ⟨y, hsend, act, pend', left, ?_, fun hnil => absurd hnil hact, h.phase.kept hkept,
      ?_, ?_, ?_⟩
    · rw [hkept.reported, hkept.sendMsgList]
      exact hholds
    · have hmap : act.map y.1.buf = act.map x.1.buf :=
        List.map_congr_left fun j hj => congrArg Msg.buf (hkept.msg j hj)
      rw [hkept.taken, hkept.reported, hmap]
      exact h.bytes
    · rw [hkept.taken, hkept.reported]
      exact h.reported
    · have hbusy := h.busy
      rw [List.isEmpty_eq_false_iff.mpr hact] at hbusy ⊢
      exact hkept.chanBusy hbusy

/-- The done interrupt reports the first list, and hands the second one over. -/
theorem Flows.txIrq (h : Flows x act pend left) {sends : List (List Buf)}
    (hsends : ∀ l ∈ sends, ∀ b ∈ l, b.Sendable) : ∃ y, txIrq x sends = some y ∧ Flowing y ∧
      (x.1.recvDone = true → y.2.reported = x.2.reported ++ act.map x.1.buf) := by
  unfold RmtIpc.txIrq
  have hbytes := h.bytes
  cases h.phase with
  | fresh ind recvDone =>
    rw [recvDone, if_neg Bool.false_ne_true]
    exact ⟨x, rfl, ⟨act, pend, _, h⟩, fun hdone => absurd hdone Bool.false_ne_true⟩
  | begun back suffix shorter ind recvDone =>
    rw [recvDone, if_neg Bool.false_ne_true]
    exact ⟨x, rfl, ⟨act, pend, _, h⟩, fun hdone => absurd hdone Bool.false_ne_true⟩
  | owed nonempty ind recvDone =>
    rw [recvDone, if_neg Bool.false_ne_true]
    exact ⟨x, rfl, ⟨act, pend, _, h⟩, fun hdone => absurd hdone Bool.false_ne_true⟩
  | done nonempty ind recvDone head mask =>
    rw [if_pos recvDone]
    have hopen : x.1.sendMsgList ≠ none := fun hnone =>
      nonempty (h.sendMsgList_eq_none_iff.mp hnone)
    have hcleared : Holds ({ x.1 with recvDone := false }, x.2) x.2.reported x.1.sendMsgList act
        pend := ⟨⟨h.holds.owns.active, h.holds.owns.pending, h.holds.owns.nodup,
          h.holds.owns.used, h.holds.owns.lt⟩, h.holds.accepted, h.holds.sendable⟩
    have hfuel : act.length < maxSendRecCnt + 1 := by
      have hle := h.holds.owns.length_le
      rw [List.length_append] at hle
      omega
    obtain ⟨y, pend', hloop, hholds, hkept⟩ := hcleared.txLoop hopen hfuel hsends
    have hreported : y.2.reported = x.2.reported ++ act.map x.1.buf := hkept.reported
    have htaken : y.2.taken = x.2.taken := hkept.taken
    have hall : y.2.taken = bytesOf y.2.reported := by
      rw [htaken, hreported, ← hbytes, bytesOf, List.flatMap_nil, List.append_nil]
    dsimp only at hloop ⊢
    rw [hloop]
    refine ⟨(y.1.handOver, y.2), rfl, ?_, fun _ => hreported⟩
    cases hfirst : y.1.sendPendingList with
    | none =>
      have hnil : pend' = [] := by
        have hhead := hholds.owns.pending.head?_eq
        rw [hfirst] at hhead
        exact List.head?_eq_none_iff.mp hhead.symm
      subst hnil
      have hover : y.1.handOver = { y.1 with
          sendMsgList := none
          chanBusy := false } := by
        simp only [Channel.handOver, hfirst]
      rw [hover]
      refine ⟨[], [], _, ⟨⟨rfl, hfirst, List.nodup_nil, hholds.owns.used, hholds.owns.lt⟩, ?_,
        hholds.sendable⟩, fun _ => rfl, .fresh (hkept.sendInd.trans ind) hkept.recvDone ?_ ?_,
        ?_, ?_, rfl⟩
      · rw [hreported]
        exact hholds.accepted
      · change y.1.recvPendingHead.buf.data = 0
        rw [hkept.recvPendingHead]
        exact head
      · exact hkept.rxMask.trans mask
      · change y.2.taken ++ [] = bytesOf (y.2.reported ++ [])
        rw [List.append_nil, List.append_nil]
        exact hall
      · exact ⟨[], (List.append_nil _).trans hall.symm⟩
    | some q =>
      have hne : pend' ≠ [] := by
        rintro rfl
        have hhead := hholds.owns.pending.head?_eq
        rw [hfirst] at hhead
        exact Option.some_ne_none q hhead
      have hover : y.1.handOver = { y.1 with
          sendMsgList := some q
          sendPendingList := none
          sendInd := true } := by
        unfold Channel.handOver
        rw [hfirst]
      rw [hover]
      have hpending := hholds.owns.pending
      rw [hfirst] at hpending
      have happend : pend' ++ [] = [] ++ pend' := List.append_nil pend'
      refine ⟨pend', [], _, ⟨⟨hpending, rfl, ?_, ?_, ?_⟩, ?_, ?_⟩, fun hnil => absurd hnil hne,
        .fresh ?_ hkept.recvDone ?_ ?_, ?_, ?_, ?_⟩
      · rw [happend]
        exact hholds.owns.nodup
      · rw [happend]
        exact hholds.owns.used
      · rw [happend]
        exact hholds.owns.lt
      · rw [happend, hreported]
        exact hholds.accepted
      · rw [happend]
        exact hholds.sendable
      · rw [List.isEmpty_eq_false_iff.mpr hne]
        rfl
      · change y.1.recvPendingHead.buf.data = 0
        rw [hkept.recvPendingHead]
        exact head
      · exact hkept.rxMask.trans mask
      · change y.2.taken ++ bytesOf (pend'.map y.1.buf) =
          bytesOf (y.2.reported ++ pend'.map y.1.buf)
        rw [bytesOf_append, hall]
      · exact ⟨[], (List.append_nil _).trans hall.symm⟩
      · have hbusy := h.busy
        rw [List.isEmpty_eq_false_iff.mpr nonempty] at hbusy
        rw [List.isEmpty_eq_false_iff.mpr hne]
        exact hkept.chanBusy hbusy

/-- The messages that an interrupt of the receiver begins with: the one it is called for, and those
behind it. -/
theorem Flows.toTake (h : Flows x act pend left) (hind : x.1.sendInd = true)
    (hmask : x.1.rxMask = true) : ∃ m l,
      (if x.1.recvPendingHead.buf.data ≠ 0 then some x.1.recvPendingHead
        else x.1.sendMsgList.map (Channel.msg { x.1 with rxMask := false })) = some m ∧
      l <:+ act ∧ l.length < act.length ∧ IsList x.1.next m.next l ∧ m.buf.Sendable ∧
      left = m.buf :: l.map x.1.buf ∧ act ≠ [] ∧ x.1.recvDone = false := by
  have hactive := h.holds.owns.active
  have hsendable := h.holds.sendable
  cases h.phase with
  | fresh ind recvDone head mask =>
    cases hact : act with
    | nil =>
      rw [hact, hind] at ind
      exact Bool.noConfusion ind
    | cons i l =>
      rw [hact] at hactive hsendable
      obtain ⟨hfirst, htail⟩ := hactive
      refine ⟨Channel.msg { x.1 with rxMask := false } i, l, ?_, List.suffix_cons i l, by simp,
        htail, hsendable i (by simp), rfl, by simp, recvDone⟩
      rw [if_neg (not_not_intro head), hfirst, Option.map_some]
  | begun back suffix shorter ind recvDone head behind =>
    refine ⟨x.1.recvPendingHead, back, if_pos head, suffix, shorter, behind, Or.inl head, rfl,
      ?_, recvDone⟩
    rintro rfl
    exact absurd shorter (Nat.not_lt_zero _)
  | owed nonempty ind recvDone head mask =>
    rw [hmask] at mask
    exact Bool.noConfusion mask
  | done nonempty ind =>
    rw [hind] at ind
    exact Bool.noConfusion ind

/-- The receive interrupt takes what the handler wants. -/
theorem Flows.rxIrq (h : Flows x act pend left) (answers : List Nat) :
    ∃ y, rxIrq x answers = some y ∧ Flowing y := by
  unfold RmtIpc.rxIrq
  by_cases hguard : (x.1.rxEnabled && x.1.sendInd && x.1.rxMask) = true
  · rw [if_pos hguard]
    rw [Bool.and_eq_true, Bool.and_eq_true] at hguard
    obtain ⟨⟨-, hind⟩, hmask⟩ := hguard
    obtain ⟨m, l, hm, hl, hshort, hlist, hmsend, hleft, hnonempty, hdone⟩ := h.toTake hind hmask
    have hbytes := h.bytes
    have hlen := h.holds.owns.length_le
    rw [List.length_append] at hlen
    obtain ⟨taken', rest, hloop, hprefix, hcases⟩ := rxLoop_spec (c := { x.1 with rxMask := false })
      (maxSendRecCnt + 1) m l answers x.2.taken hlist hmsend
      (fun i hi => h.holds.sendable i (List.mem_append_left _ (hl.subset hi))) (by omega)
    dsimp only at hloop ⊢
    rw [hm, hloop]
    refine ⟨(Channel.leave { x.1 with rxMask := false } rest, { x.2 with taken := taken' }), rfl,
      act, pend, ?_⟩
    rw [hleft] at hbytes
    rcases hcases with ⟨rfl, htaken⟩ | ⟨r, back, rfl, hback, hbehind, hdata, htaken⟩
    · -- all was taken, and the user is to report it, or has no need to
      have hall : taken' ++ bytesOf [] = bytesOf (x.2.reported ++ act.map x.1.buf) := by
        rw [htaken, ← hbytes]
        exact List.append_nil _
      refine ⟨[], ?_⟩
      unfold Channel.leave
      dsimp only
      cases hflow : x.1.needFlowCtrl with
      | true =>
        rw [if_pos rfl]
        exact ⟨⟨⟨h.holds.owns.active, h.holds.owns.pending, h.holds.owns.nodup, h.holds.owns.used,
          h.holds.owns.lt⟩, h.holds.accepted, h.holds.sendable⟩, h.order,
          .owed hnonempty hind hdone rfl rfl, hall, h.reported.trans hprefix, h.busy⟩
      | false =>
        rw [if_neg Bool.false_ne_true]
        exact ⟨⟨⟨h.holds.owns.active, h.holds.owns.pending, h.holds.owns.nodup, h.holds.owns.used,
          h.holds.owns.lt⟩, h.holds.accepted, h.holds.sendable⟩, h.order,
          .done hnonempty rfl rfl rfl rfl, hall, h.reported.trans hprefix, h.busy⟩
    · refine ⟨r.buf :: back.map x.1.buf, ⟨⟨h.holds.owns.active, h.holds.owns.pending,
        h.holds.owns.nodup, h.holds.owns.used, h.holds.owns.lt⟩, h.holds.accepted,
        h.holds.sendable⟩, h.order, ?_, ?_, h.reported.trans hprefix, h.busy⟩
      · exact .begun back (hback.trans hl) (Nat.lt_of_le_of_lt hback.length_le hshort) hind hdone
          hdata hbehind
      · exact htaken.trans hbytes
  · rw [if_neg hguard]
    exact ⟨x, rfl, act, pend, left, h⟩

/-- The receiver's user reports a list that was taken. -/
theorem Flows.rxDone (h : Flows x act pend left) (hallowed : Allowed x .rxDone) :
    Flowing (x.1.rxDone, x.2) := by
  obtain ⟨hind, hmask, hhead⟩ := hallowed
  have hholds : Holds (x.1.rxDone, x.2) x.2.reported x.1.sendMsgList act pend :=
    ⟨⟨h.holds.owns.active, h.holds.owns.pending, h.holds.owns.nodup, h.holds.owns.used,
      h.holds.owns.lt⟩, h.holds.accepted, h.holds.sendable⟩
  have hbytes := h.bytes
  cases h.phase with
  | fresh ind recvDone head mask =>
    rw [hmask] at mask
    exact Bool.noConfusion mask
  | begun back suffix shorter ind recvDone head => exact absurd hhead head
  | owed nonempty =>
    exact ⟨act, pend, [], hholds, h.order, .done nonempty rfl rfl hhead rfl, hbytes, h.reported,
      h.busy⟩
  | done nonempty ind =>
    rw [hind] at ind
    exact Bool.noConfusion ind

/-- The receiver starts, and goes on with the rest of a message. -/
theorem Flows.startRecv (h : Flows x act pend left) : Flowing (startRecv x.1, x.2) := by
  unfold RmtIpc.startRecv
  have hholds : ∀ b₁ b₂, Holds ({ x.1 with
      rxEnabled := b₁
      rxMask := b₂ }, x.2) x.2.reported x.1.sendMsgList act pend := fun _ _ =>
    ⟨⟨h.holds.owns.active, h.holds.owns.pending, h.holds.owns.nodup, h.holds.owns.used,
      h.holds.owns.lt⟩, h.holds.accepted, h.holds.sendable⟩
  have hbytes := h.bytes
  dsimp only
  cases h.phase with
  | fresh ind recvDone head mask =>
    rw [if_neg (not_not_intro head)]
    exact ⟨act, pend, _, hholds true x.1.rxMask, h.order, .fresh ind recvDone head mask, hbytes,
      h.reported, h.busy⟩
  | begun back suffix shorter ind recvDone head behind =>
    rw [if_pos head]
    exact ⟨act, pend, _, hholds true true, h.order,
      .begun back suffix shorter ind recvDone head behind, hbytes, h.reported, h.busy⟩
  | owed nonempty ind recvDone head mask =>
    rw [if_neg (not_not_intro head)]
    exact ⟨act, pend, _, hholds true x.1.rxMask, h.order, .owed nonempty ind recvDone head mask,
      hbytes, h.reported, h.busy⟩
  | done nonempty ind recvDone head mask =>
    rw [if_neg (not_not_intro head)]
    exact ⟨act, pend, _, hholds true x.1.rxMask, h.order, .done nonempty ind recvDone head mask,
      hbytes, h.reported, h.busy⟩

/-- Every allowed event happens, and keeps the invariant. -/
theorem Flowing.step (h : Flowing x) (hallowed : Allowed x e) :
    ∃ y, step x e = some y ∧ Flowing y := by
  obtain ⟨act, pend, left, h⟩ := h
  cases e with
  | send b => exact h.send hallowed
  | txIrq sends =>
    obtain ⟨y, hy, hflowing, -⟩ := h.txIrq hallowed
    exact ⟨y, hy, hflowing⟩
  | rxIrq answers => exact h.rxIrq answers
  | rxDone => exact ⟨_, rfl, h.rxDone hallowed⟩
  | startRecv => exact ⟨_, rfl, h.startRecv⟩
  | stopRecv =>
    refine ⟨_, rfl, act, pend, left, ⟨⟨h.holds.owns.active, h.holds.owns.pending,
      h.holds.owns.nodup, h.holds.owns.used, h.holds.owns.lt⟩, h.holds.accepted,
      h.holds.sendable⟩, h.order, ?_, h.bytes, h.reported, h.busy⟩
    cases h.phase with
    | fresh ind recvDone head mask => exact .fresh ind recvDone head mask
    | begun back suffix shorter ind recvDone head behind =>
      exact .begun back suffix shorter ind recvDone head behind
    | owed nonempty ind recvDone head mask => exact .owed nonempty ind recvDone head mask
    | done nonempty ind recvDone head mask => exact .done nonempty ind recvDone head mask

/-! ### Runs -/

/-- The records in use are those of the lists. -/
theorem Owns.filter_perm (h : Owns c p act pend) :
    ((List.range maxSendRecCnt).filter c.inUse).Perm (act ++ pend) := by
  refine (List.perm_ext_iff_of_nodup (List.nodup_range.filter _) h.nodup).mpr fun i => ?_
  rw [List.mem_filter, List.mem_range]
  constructor
  · rintro ⟨hi, hused⟩
    exact (h.used i hi).mp hused
  · intro hmem
    exact ⟨h.lt i hmem, (h.used i (h.lt i hmem)).mpr hmem⟩

/-- A message is refused exactly if all records are in the lists. -/
theorem Owns.refused_iff (h : Owns c p act pend) (b : Buf) :
    sendSeq c b = some (c, none) ↔ (act ++ pend).length = maxSendRecCnt := by
  unfold sendSeq
  cases hfree : c.freeRecord with
  | none => exact iff_of_true rfl (h.freeRecord_eq_none hfree)
  | some i =>
    obtain ⟨hi, hnot⟩ := h.freeRecord_eq_some hfree
    refine iff_of_false (fun hrefused => ?_) fun hlen => ?_
    · obtain ⟨c', -, hc'⟩ := Option.map_eq_some_iff.mp hrefused
      exact Option.some_ne_none i (congrArg Prod.snd hc')
    · have hsub : i :: (act ++ pend) ⊆ List.range maxSendRecCnt := by
        intro j hj
        rcases List.mem_cons.mp hj with rfl | hj
        · exact List.mem_range.mpr hi
        · exact List.mem_range.mpr (h.lt j hj)
      have hle := (List.subperm_of_subset (List.nodup_cons.mpr ⟨hnot, h.nodup⟩) hsub).length_le
      rw [List.length_cons, hlen, List.length_range] at hle
      exact absurd hle (Nat.not_succ_le_self _)

/-- In every run, the loops end; the bytes that the receiver has taken are a prefix of those of the
accepted messages; the messages that were reported are a prefix of the accepted ones whose bytes
were all taken; the records in use hold those that were not reported; and a message is refused
exactly if these are all the records. -/
theorem delivered_in_order (needFlowCtrl : Bool) {es : List Event}
    (hes : Transition.Along step Allowed (opened needFlowCtrl, .empty) es) :
    ∃ x, es.foldlM step (opened needFlowCtrl, .empty) = some x ∧
      x.2.taken <+: bytesOf x.2.accepted ∧ x.2.reported <+: x.2.accepted ∧
      bytesOf x.2.reported <+: x.2.taken ∧
      (((List.range maxSendRecCnt).filter x.1.inUse).map x.1.buf).Perm
        (x.2.accepted.drop x.2.reported.length) ∧
      ∀ b, sendSeq x.1 b = some (x.1, none) ↔
        x.2.accepted.length = x.2.reported.length + maxSendRecCnt := by
  obtain ⟨x, hrun, act, pend, left, h⟩ := hes.exists_run (I := Flowing)
    (fun _ _ hx he => hx.step he) ⟨[], [], [], flows_opened needFlowCtrl⟩
  have haccepted := h.holds.accepted
  have hbytes := h.bytes
  refine ⟨x, hrun, ?_, ?_, ?_, ?_, fun b => ?_⟩
  · rw [haccepted, List.map_append, ← List.append_assoc, bytesOf_append, ← hbytes,
      List.append_assoc]
    exact List.prefix_append _ _
  · rw [haccepted]
    exact List.prefix_append _ _
  · exact h.reported
  · rw [haccepted, List.drop_left]
    exact h.holds.owns.filter_perm.map _
  · have hlen : x.2.accepted.length = x.2.reported.length + (act ++ pend).length := by
      rw [haccepted, List.length_append, List.length_map]
    rw [h.holds.owns.refused_iff, hlen]
    omega

/-- A message that is taken in two parts and reported, and another one. -/
def twoParts : List Event :=
  [.send ⟨64, 4⟩, .startRecv, .rxIrq [3], .startRecv, .rxIrq [1], .txIrq [], .send ⟨128, 2⟩]

theorem allowed_twoParts :
    Transition.Along step Allowed (opened false, .empty) twoParts := by decide +kernel

theorem delivered_in_order_twoParts :
    ∃ x, twoParts.foldlM step (opened false, .empty) = some x ∧
      x.2.taken <+: bytesOf x.2.accepted ∧ x.2.reported <+: x.2.accepted ∧
      bytesOf x.2.reported <+: x.2.taken ∧
      (((List.range maxSendRecCnt).filter x.1.inUse).map x.1.buf).Perm
        (x.2.accepted.drop x.2.reported.length) ∧
      ∀ b, sendSeq x.1 b = some (x.1, none) ↔
        x.2.accepted.length = x.2.reported.length + maxSendRecCnt :=
  delivered_in_order false allowed_twoParts

/-! ### Delivery -/

/-- A handler that takes all of every message. -/
theorem rxLoop_all (k : Nat) (fuel : Nat) (m : Msg) (l taken : List Nat) {size : Nat}
    (hl : IsList c.next m.next l) (hm : m.buf.len ≤ size) (hsize : ∀ i ∈ l, (c.buf i).len ≤ size)
    (hfuel : l.length + 1 < fuel) (hk : l.length < k) :
    ∃ taken', rxLoop c fuel (some m) (List.replicate k size) taken = some (taken', none) := by
  induction l generalizing m k fuel taken with
  | nil =>
    obtain ⟨fuel, rfl⟩ : ∃ f, fuel = f + 2 := ⟨fuel - 2, by simp at hfuel; omega⟩
    obtain ⟨k, rfl⟩ : ∃ j, k = j + 1 := ⟨k - 1, by simp at hk; omega⟩
    have hnext : m.next = none := hl
    rw [rxLoop, List.replicate_succ, List.headD_cons, if_neg (Nat.not_lt.mpr hm), hnext]
    exact ⟨_, rfl⟩
  | cons i l ih =>
    rw [List.length_cons] at hfuel hk
    obtain ⟨fuel, rfl⟩ : ∃ f, fuel = f + 1 := ⟨fuel - 1, by omega⟩
    obtain ⟨k, rfl⟩ : ∃ j, k = j + 1 := ⟨k - 1, by omega⟩
    obtain ⟨hnext, htail⟩ := hl
    rw [rxLoop, List.replicate_succ, List.headD_cons, if_neg (Nat.not_lt.mpr hm), hnext,
      List.tail_cons]
    exact ih k fuel (c.msg i) _ htail (hsize i List.mem_cons_self)
      (fun j hj => hsize j (List.mem_cons_of_mem i hj)) (Nat.lt_of_succ_lt_succ hfuel)
      (Nat.lt_of_succ_lt_succ hk)

/-- Without messages from the handler, the done interrupt accepts none. -/
theorem txLoop_accepted (h : txLoop fuel x p [] = some y) : y.2.accepted = x.2.accepted := by
  induction fuel generalizing x p with
  | zero => exact absurd h.symm (Option.some_ne_none y)
  | succ fuel ih =>
    cases p with
    | none => rw [Option.some.inj h]
    | some i =>
      have hloop : txLoop fuel ({ x.1 with inUse := Function.update x.1.inUse i false },
          { x.2 with reported := x.2.reported ++ [x.1.buf i] }) (x.1.next i) [] = some y := h
      have hsame := ih hloop
      exact hsame

theorem txIrq_accepted (h : txIrq x [] = some y) : y.2.accepted = x.2.accepted := by
  unfold txIrq at h
  split_ifs at h with hdone
  · obtain ⟨z, hz, rfl⟩ := Option.map_eq_some_iff.mp h
    have hsame := txLoop_accepted hz
    exact hsame
  · rw [Option.some.inj h]

/-- Nothing is sent. -/
def Quiet : Event → Prop
  | .send _ => False
  | .txIrq sends => sends = []
  | _ => True

/-- How far the first list is from being reported. -/
def stage (c : Channel) : Nat :=
  if c.recvDone = true then 0
  else if c.rxMask = false ∧ c.recvPendingHead.buf.data = 0 then 1
  else if c.rxEnabled = true ∧ c.rxMask = true then 2
  else 3

theorem stage_le (c : Channel) : stage c ≤ 3 := by
  unfold stage
  split_ifs <;> omega

/-- A list that was taken is to be reported, or is. -/
theorem stage_leave (hmask : c.rxMask = false) (hdone : c.recvDone = false) :
    stage (c.leave none) ≤ 1 := by
  unfold Channel.leave
  by_cases hflow : c.needFlowCtrl = true
  · simp [hflow, stage, hmask, hdone]
  · simp [hflow, stage, Channel.rxDone]

/-- There is a number that none of some lengths is above. -/
theorem exists_size (l : List Nat) (f : Nat → Nat) : ∃ size, ∀ i ∈ l, f i ≤ size := by
  induction l with
  | nil => exact ⟨0, fun i hi => absurd hi List.not_mem_nil⟩
  | cons i l ih =>
    obtain ⟨size, hsize⟩ := ih
    refine ⟨max (f i) size, fun j hj => ?_⟩
    rcases List.mem_cons.mp hj with rfl | hj
    · exact Nat.le_max_left _ _
    · exact Nat.le_trans (hsize j hj) (Nat.le_max_right _ _)

/-- A handler that takes everything leaves a list that is to be reported, or is. -/
theorem Flows.rxIrq_all (h : Flows x act pend left) (hind : x.1.sendInd = true)
    (hmask : x.1.rxMask = true) (henabled : x.1.rxEnabled = true) :
    ∃ answers y, RmtIpc.rxIrq x answers = some y ∧ stage y.1 ≤ 1 ∧
      y.2.accepted = x.2.accepted ∧ y.2.reported = x.2.reported := by
  obtain ⟨m, l, hm, -, hshort, hlist, -, -, -, hdone⟩ := h.toTake hind hmask
  obtain ⟨size, hsize⟩ := exists_size l fun i => (x.1.buf i).len
  have hlen := h.holds.owns.length_le
  rw [List.length_append] at hlen
  obtain ⟨taken', hloop⟩ := rxLoop_all (c := { x.1 with rxMask := false }) (maxSendRecCnt + 1)
    (maxSendRecCnt + 1) m l x.2.taken hlist (Nat.le_max_left m.buf.len size)
    (fun i hi => Nat.le_trans (hsize i hi) (Nat.le_max_right m.buf.len size)) (by omega) (by omega)
  refine ⟨List.replicate (maxSendRecCnt + 1) (max m.buf.len size),
    (Channel.leave { x.1 with rxMask := false } none, { x.2 with taken := taken' }), ?_, ?_, rfl,
    rfl⟩
  · have hguard : (x.1.rxEnabled && x.1.sendInd && x.1.rxMask) = true := by
      rw [henabled, hind, hmask]
      rfl
    unfold RmtIpc.rxIrq
    rw [if_pos hguard]
    dsimp only at hloop ⊢
    rw [hm, hloop]
    rfl
  · exact stage_leave rfl hdone

/-- An event of the receiver, or the done interrupt, brings a channel with messages closer to having
none. -/
theorem Flows.closer (h : Flows x act pend left) (hact : act ≠ []) :
    ∃ e y, (Allowed x e ∧ Quiet e) ∧ step x e = some y ∧ y.2.accepted = x.2.accepted ∧
      4 * (y.2.accepted.length - y.2.reported.length) + stage y.1 <
        4 * (x.2.accepted.length - x.2.reported.length) + stage x.1 := by
  have htake : x.1.sendInd = true → x.1.rxMask = true → x.1.rxEnabled = true → stage x.1 = 2 →
      ∃ e y, (Allowed x e ∧ Quiet e) ∧ step x e = some y ∧ y.2.accepted = x.2.accepted ∧
        4 * (y.2.accepted.length - y.2.reported.length) + stage y.1 <
          4 * (x.2.accepted.length - x.2.reported.length) + stage x.1 := by
    intro hind hmask henabled hstage
    obtain ⟨answers, y, hy, hle, haccepted, hreported⟩ := h.rxIrq_all hind hmask henabled
    refine ⟨.rxIrq answers, y, ⟨trivial, trivial⟩, hy, haccepted, ?_⟩
    rw [haccepted, hreported, hstage]
    omega
  have hstart : stage x.1 = 3 → stage (RmtIpc.startRecv x.1) = 2 →
      ∃ e y, (Allowed x e ∧ Quiet e) ∧ step x e = some y ∧ y.2.accepted = x.2.accepted ∧
        4 * (y.2.accepted.length - y.2.reported.length) + stage y.1 <
          4 * (x.2.accepted.length - x.2.reported.length) + stage x.1 := by
    intro hthree htwo
    refine ⟨.startRecv, (RmtIpc.startRecv x.1, x.2), ⟨trivial, trivial⟩, rfl, rfl, ?_⟩
    rw [hthree, htwo]
    exact Nat.lt_succ_self _
  cases h.phase with
  | fresh ind recvDone head mask =>
    rw [List.isEmpty_eq_false_iff.mpr hact] at ind
    cases henabled : x.1.rxEnabled with
    | true => exact htake ind mask henabled (by simp [stage, recvDone, mask, henabled])
    | false =>
      exact hstart (by simp [stage, recvDone, mask, henabled])
        (by simp [stage, RmtIpc.startRecv, recvDone, mask, head])
  | begun back suffix shorter ind recvDone head behind =>
    by_cases hready : x.1.rxEnabled = true ∧ x.1.rxMask = true
    · exact htake ind hready.2 hready.1 (by simp [stage, recvDone, hready])
    · refine hstart ?_ (by simp [stage, RmtIpc.startRecv, recvDone, head])
      rw [stage, if_neg (by rw [recvDone]; exact Bool.false_ne_true),
        if_neg (fun hmask => head hmask.2), if_neg hready]
  | owed nonempty ind recvDone head mask =>
    have hone : stage x.1 = 1 := by simp [stage, recvDone, mask, head]
    refine ⟨.rxDone, (x.1.rxDone, x.2), ⟨⟨ind, mask, head⟩, trivial⟩, rfl, rfl, ?_⟩
    rw [hone]
    exact Nat.lt_succ_self _
  | done nonempty ind recvDone head mask =>
    have hquiet : ∀ l ∈ ([] : List (List Buf)), ∀ b ∈ l, b.Sendable :=
      fun l hl => absurd hl List.not_mem_nil
    obtain ⟨y, hy, -, hreported⟩ := h.txIrq hquiet
    have haccepted := txIrq_accepted hy
    refine ⟨.txIrq [], y, ⟨hquiet, rfl⟩, hy, haccepted, ?_⟩
    have hstage := stage_le y.1
    have hlen : x.2.accepted.length = x.2.reported.length + (act.length + pend.length) := by
      rw [h.holds.accepted, List.length_append, List.length_map, List.length_append]
    have hpos := List.length_pos_iff.mpr nonempty
    rw [haccepted, hreported recvDone, List.length_append, List.length_map]
    omega

/-- From the end of every run, events of the receiver and done interrupts can lead to a channel
whose messages are all taken and reported, and whose records are free. -/
theorem drains (needFlowCtrl : Bool) {es : List Event}
    (hes : Transition.Along step Allowed (opened needFlowCtrl, .empty) es) :
    ∃ x y, es.foldlM step (opened needFlowCtrl, .empty) = some x ∧
      Transition.Reachable step (fun x e => Allowed x e ∧ Quiet e) x y ∧
      y.2.accepted = x.2.accepted ∧ y.2.reported = x.2.accepted ∧
      y.2.taken = bytesOf x.2.accepted ∧ y.1.chanBusy = false ∧
      ∀ i < maxSendRecCnt, y.1.inUse i = false := by
  obtain ⟨x, hrun, hflowing⟩ := hes.exists_run (I := Flowing) (fun _ _ hx he => hx.step he)
    ⟨[], [], [], flows_opened needFlowCtrl⟩
  -- the measure falls until no message is left
  obtain ⟨y, hreach, ⟨hy, haccepted⟩, hbusy⟩ := Transition.Reachable.exists_of_measure
    (I := fun y => Flowing y ∧ y.2.accepted = x.2.accepted)
    (P := fun y => (Flowing y ∧ y.2.accepted = x.2.accepted) ∧ y.1.chanBusy = false)
    (fun y => 4 * (y.2.accepted.length - y.2.reported.length) + stage y.1)
    (fun y hy hnot => by
      obtain ⟨⟨act, pend, left, h⟩, haccepted⟩ := hy
      have hact : act ≠ [] := by
        rintro rfl
        exact hnot ⟨⟨⟨_, _, _, h⟩, haccepted⟩, h.busy⟩
      obtain ⟨e, y', hquiet, hstep, hsame, hlt⟩ := h.closer hact
      obtain ⟨y'', hy'', hflowing'⟩ := Flowing.step ⟨_, _, _, h⟩ hquiet.1
      obtain rfl : y' = y'' := Option.some.inj (hstep.symm.trans hy'')
      exact ⟨e, y', hquiet, hstep, ⟨hflowing', hsame.trans haccepted⟩, hlt⟩)
    ⟨hflowing, rfl⟩
  obtain ⟨act, pend, left, h⟩ := hy
  have hempty : act = [] := by
    have hb := h.busy
    rw [hbusy] at hb
    simpa using hb.symm
  subst hempty
  obtain rfl := h.order rfl
  have hreported : y.2.reported = x.2.accepted := by
    rw [← haccepted, h.holds.accepted]
    exact (List.append_nil _).symm
  have hbytes := h.bytes
  have hleft : left = [] := by
    cases h.phase with
    | fresh => rfl
    | begun back suffix shorter => exact absurd shorter (Nat.not_lt_zero _)
    | owed => rfl
    | done => rfl
  rw [hleft, hreported, bytesOf, List.flatMap_nil, List.append_nil, List.map_nil,
    List.append_nil] at hbytes
  refine ⟨x, y, hrun, hreach, haccepted, hreported, hbytes, hbusy, fun i hi => ?_⟩
  have hused := h.holds.owns.used i hi
  rw [Bool.eq_false_iff]
  exact fun hinUse => List.not_mem_nil (hused.mp hinUse)

theorem drains_twoParts :
    ∃ x y, twoParts.foldlM step (opened false, .empty) = some x ∧
      Transition.Reachable step (fun x e => Allowed x e ∧ Quiet e) x y ∧
      y.2.accepted = x.2.accepted ∧ y.2.reported = x.2.accepted ∧
      y.2.taken = bytesOf x.2.accepted ∧ y.1.chanBusy = false ∧
      ∀ i < maxSendRecCnt, y.1.inUse i = false :=
  drains false allowed_twoParts

end EarbudFirmware.RmtIpc
