import EarbudFirmware.Hal.TransqRefines
import EarbudFirmware.Lib.Transition

/-!
# What the two cores see of their messages

The answers that a core gets are all it knows. From them, the receiver gets the messages that
`hal_transq_tx` accepted, in their order and each of them once; and `tx_handler` is called for each
of them in the same order. The slot is read behind `int_unlock`, so that a sender that interrupts
the handler, and fills the queue, puts its own message in the place of the reported one.

## Main definitions

* `Trace`, `step` — the link with what was seen of it
* `accepted`, `received`, `reported` — the messages of a trace
* `Allowed` — `hal_transq_rx_first` finds a message, and `hal_transq_rx_next` leaves it

## Main results

* `received_in_order` — the receiver gets the accepted messages
* `reported_in_order` — `tx_handler` is called with them, as long as they are in their slots
-/

namespace EarbudFirmware.Transq

/-- The calls so far, with their answers. -/
abbrev Trace := List (Call × Answer)

/-- The link answers a call. -/
def step (x : Link × Trace) (c : Call) : Option (Link × Trace) :=
  some ((call x.1 c).1, x.2 ++ [(c, (call x.1 c).2)])

/-- The message that `hal_transq_tx` accepted for a priority. -/
def acceptedIn (pri : Pri) : Call × Answer → Option Msg
  | (.tx p m, .ret .ok) => if p = pri then some m else none
  | _ => none

/-- The messages that `hal_transq_tx` accepted. -/
def accepted (pri : Pri) (tr : Trace) : List Msg := tr.filterMap (acceptedIn pri)

/-- What `hal_transq_rx_first` and `hal_transq_rx_next` gave, and for which priority. -/
def rxOf : Call × Answer → Option (Pri × Ret × Msg)
  | (.rxFirst p, .msg r m) => some (p, r, m)
  | (.rxNext p, .msg r m) => some (p, r, m)
  | _ => none

/-- The message that the receiver got for a priority. -/
def receivedIn (pri : Pri) (e : Call × Answer) : Option Msg :=
  match rxOf e with
  | some (p, .ok, m) => if p = pri then some m else none
  | _ => none

/-- The messages that the receiver got. -/
def received (pri : Pri) (tr : Trace) : List Msg := tr.filterMap (receivedIn pri)

/-- The argument of a call of `tx_handler` for a priority. -/
def reportedIn (pri : Pri) : Call × Answer → Option Msg
  | (_, .handler (some (p, m))) => if p = pri then some m else none
  | _ => none

/-- The messages that `tx_handler` was called with. -/
def reported (pri : Pri) (tr : Trace) : List Msg := tr.filterMap (reportedIn pri)

/-- Whether the last call of the receiver for a priority gave it a message. -/
def inHand (pri : Pri) (tr : Trace) : Bool :=
  tr.foldl (fun b e =>
    match rxOf e with
    | some (p, r, _) => if p = pri then decide (r = .ok) else b
    | none => b) false

/-- The last call told the receiver that there is no message left of a priority. -/
def Emptied (pri : Pri) (tr : Trace) : Prop :=
  ∃ l e m, tr = l ++ [e] ∧ rxOf e = some (pri, .rxEmpty, m)

/-- `hal_transq_rx_first` is called without a message in hand, and `hal_transq_rx_next` with one. -/
def Allowed (tr : Trace) : Call → Prop
  | .rxFirst pri => inHand pri tr = false
  | .rxNext pri => inHand pri tr = true
  | _ => True

variable {n : Pri → Nat} {hasTx hasRx : Bool} {s t u : Link} {q : Queues} {pri p : Pri}
  {tr : Trace} {c : Call} {e : Call × Answer} {a : AckedQueue Msg} {m : Msg}

theorem accepted_concat :
    accepted pri (tr ++ [e]) = accepted pri tr ++ (acceptedIn pri e).toList := by
  rw [accepted, List.filterMap_append, accepted]
  cases h : acceptedIn pri e <;> simp [h]

theorem received_concat :
    received pri (tr ++ [e]) = received pri tr ++ (receivedIn pri e).toList := by
  rw [received, List.filterMap_append, received]
  cases h : receivedIn pri e <;> simp [h]

theorem reported_concat :
    reported pri (tr ++ [e]) = reported pri tr ++ (reportedIn pri e).toList := by
  rw [reported, List.filterMap_append, reported]
  cases h : reportedIn pri e <;> simp [h]

/-! ### What a call adds to the trace -/

theorem setQueue_cases {P : AckedQueue Msg → Prop} (hself : p = pri → P a)
    (hother : P (q.queue pri)) : P ((q.setQueue p a).queue pri) := by
  by_cases h : p = pri
  · subst h
    rw [Queues.queue_setQueue_self]
    exact hself rfl
  · rw [Queues.queue_setQueue_of_ne q (Ne.symm h)]
    exact hother

theorem queue_first : (q.first p).1.queue = q.queue := by
  unfold Queues.first
  split <;> rfl

/-- The messages sent are those that were accepted. -/
theorem sent_call : ((q.call n hasTx hasRx c).1.queue pri).sent =
    (q.queue pri).sent ++ (acceptedIn pri (c, (q.call n hasTx hasRx c).2)).toList := by
  have hack : ∀ p, ((q.setQueue p (q.queue p).ack).queue pri).sent = (q.queue pri).sent := fun p =>
    setQueue_cases (P := fun a => a.sent = _) (fun hp => by rw [hp]; rfl) rfl
  have htake : ∀ p, ((q.setQueue p (q.queue p).take).queue pri).sent = (q.queue pri).sent :=
    fun p => setQueue_cases (P := fun a => a.sent = _) (fun hp => by rw [hp]; rfl) rfl
  cases c with
  | tx p msg =>
    rw [Queues.call]
    split_ifs with hn hfull
    · exact (List.append_nil _).symm
    · exact (List.append_nil _).symm
    · by_cases hp : p = pri
      · subst hp
        rw [Queues.queue_setQueue_self]
        simp [acceptedIn, AckedQueue.send]
      · rw [Queues.queue_setQueue_of_ne q (Ne.symm hp)]
        simp [acceptedIn, hp]
  | getTxStatus p =>
    refine Eq.trans ?_ (List.append_nil _).symm
    rw [Queues.call]
    split_ifs
    · rfl
    · rfl
    · exact hack p
    · rfl
  | localIrq =>
    refine Eq.trans ?_ (List.append_nil _).symm
    rw [Queues.call]
    split_ifs
    · rfl
    · split
      · exact hack _
      · rfl
  | callTxHandler =>
    refine Eq.trans ?_ (List.append_nil _).symm
    rw [Queues.call]
    split <;> rfl
  | rxFirst p =>
    refine Eq.trans ?_ (List.append_nil _).symm
    rw [Queues.call]
    split_ifs
    · rfl
    · rw [queue_first]
  | rxNext p =>
    refine Eq.trans ?_ (List.append_nil _).symm
    rw [Queues.call]
    split_ifs
    · rfl
    · rw [queue_first]
      exact htake p
    · rfl
  | getRxStatus p =>
    refine Eq.trans ?_ (List.append_nil _).symm
    rw [Queues.call]
    split_ifs <;> rfl
  | remoteIrq =>
    refine Eq.trans ?_ (List.append_nil _).symm
    rw [Queues.call]
    split_ifs
    · split <;> rfl
    · rfl

/-- Only `hal_transq_rx_next` takes a message. -/
theorem taken_call (hc : c ≠ .rxNext pri) :
    ((q.call n hasTx hasRx c).1.queue pri).taken = (q.queue pri).taken := by
  have hack : ∀ p, ((q.setQueue p (q.queue p).ack).queue pri).taken = (q.queue pri).taken :=
    fun p => setQueue_cases (P := fun a => a.taken = _) (fun hp => by rw [hp]; rfl) rfl
  cases c with
  | tx p msg =>
    rw [Queues.call]
    split_ifs
    · rfl
    · rfl
    · exact setQueue_cases (P := fun a => a.taken = _) (fun hp => by rw [hp]; rfl) rfl
  | getTxStatus p =>
    rw [Queues.call]
    split_ifs
    · rfl
    · rfl
    · exact hack p
    · rfl
  | localIrq =>
    rw [Queues.call]
    split_ifs
    · rfl
    · split
      · exact hack _
      · rfl
  | callTxHandler =>
    rw [Queues.call]
    split <;> rfl
  | rxFirst p =>
    rw [Queues.call]
    split_ifs
    · rfl
    · rw [queue_first]
  | rxNext p =>
    have hp : pri ≠ p := by
      rintro rfl
      exact hc rfl
    rw [Queues.call]
    split_ifs
    · rfl
    · rw [queue_first, Queues.queue_setQueue_of_ne q hp]
    · rfl
  | getRxStatus p =>
    rw [Queues.call]
    split_ifs <;> rfl
  | remoteIrq =>
    rw [Queues.call]
    split_ifs
    · split <;> rfl
    · rfl

/-- Whether `tx_handler` is about to be called for a priority. -/
def isRunning (q : Queues) (pri : Pri) : Bool := q.running.any fun r => r.1 = pri

theorem reportedIn_first : reportedIn pri (c, (q.first p).2) = none := by
  unfold Queues.first
  split <;> rfl

theorem isRunning_first : isRunning (q.first p).1 pri = isRunning q pri := by
  unfold Queues.first
  split <;> rfl

/-- The messages acknowledged are those that `tx_handler` was called with, and the one that it is
about to be called with. -/
theorem acked_call (n : Pri → Nat) (hasRx : Bool) (q : Queues) (c : Call) (pri : Pri)
    (hhas : hasTx = true) :
    (reportedIn pri (c, (q.call n hasTx hasRx c).2)).toList.length +
        (isRunning (q.call n hasTx hasRx c).1 pri).toNat + (q.queue pri).acked =
      ((q.call n hasTx hasRx c).1.queue pri).acked + (isRunning q pri).toNat := by
  subst hhas
  -- nothing is reported, and no message is acknowledged
  have hsame : ∀ {x : Answer} {q' : Queues}, reportedIn pri (c, x) = none →
      isRunning q' pri = isRunning q pri → (q'.queue pri).acked = (q.queue pri).acked →
      (reportedIn pri (c, x)).toList.length + (isRunning q' pri).toNat + (q.queue pri).acked =
        (q'.queue pri).acked + (isRunning q pri).toNat := by
    intro x q' hnone hrunning hacked
    rw [hnone, hrunning, hacked]
    simp [Nat.add_comm]
  have htake : ∀ p, ((q.setQueue p (q.queue p).take).queue pri).acked = (q.queue pri).acked :=
    fun p => setQueue_cases (P := fun a => a.acked = _) (fun hp => by rw [hp]; rfl) rfl
  cases c with
  | tx p msg =>
    rw [Queues.call]
    split_ifs
    · exact hsame rfl rfl rfl
    · exact hsame rfl rfl rfl
    · refine hsame rfl rfl ?_
      exact setQueue_cases (P := fun a => a.acked = _) (fun hp => by rw [hp]; rfl) rfl
  | getTxStatus p =>
    rw [Queues.call, if_pos (c := true = true) rfl]
    split_ifs <;> exact hsame rfl rfl rfl
  | localIrq =>
    rw [Queues.call]
    cases hrunning : q.running with
    | some r => exact hsame rfl rfl rfl
    | none =>
      rw [Option.isSome_none, if_neg (by simp)]
      cases hchoose : Queues.choose q.Done with
      | none => exact hsame rfl rfl rfl
      | some p =>
        have hidle : isRunning q pri = false := by
          rw [isRunning, hrunning]
          rfl
        rw [hidle]
        by_cases hp : p = pri
        · subst hp
          have hacked : ((q.acknowledge p).queue p).acked = (q.queue p).acked + 1 :=
            congrArg AckedQueue.acked (Queues.queue_setQueue_self ..)
          rw [hacked]
          simp [reportedIn, isRunning, Queues.acknowledge, Nat.add_comm]
        · have hacked : ((q.acknowledge p).queue pri).acked = (q.queue pri).acked :=
            congrArg AckedQueue.acked (Queues.queue_setQueue_of_ne q (Ne.symm hp) _)
          rw [hacked]
          simp [reportedIn, isRunning, Queues.acknowledge, hp]
  | callTxHandler =>
    rw [Queues.call]
    cases hrunning : q.running with
    | none => exact hsame rfl rfl rfl
    | some r =>
      obtain ⟨p, k⟩ := r
      by_cases hp : p = pri
      · simp [reportedIn, isRunning, hrunning, hp, Nat.add_comm]
      · simp [reportedIn, isRunning, hrunning, hp]
  | rxFirst p =>
    rw [Queues.call]
    split_ifs
    · exact hsame rfl rfl rfl
    · exact hsame reportedIn_first isRunning_first (by rw [queue_first])
  | rxNext p =>
    rw [Queues.call]
    split_ifs
    · exact hsame rfl rfl rfl
    · exact hsame reportedIn_first isRunning_first (by rw [queue_first]; exact htake p)
    · exact hsame rfl rfl rfl
  | getRxStatus p =>
    rw [Queues.call]
    split_ifs <;> exact hsame rfl rfl rfl
  | remoteIrq =>
    rw [Queues.call]
    split_ifs
    · split <;> exact hsame rfl rfl rfl
    · exact hsame rfl rfl rfl

/-! ### What the receiver gets -/

theorem inHand_concat : inHand pri (tr ++ [e]) =
    match rxOf e with
    | some (p, r, _) => if p = pri then decide (r = .ok) else inHand pri tr
    | none => inHand pri tr := by
  rw [inHand, List.foldl_append]
  rfl

theorem emptied_concat (h : Emptied pri (tr ++ [e])) : ∃ m, rxOf e = some (pri, .rxEmpty, m) := by
  obtain ⟨l, e', m, heq, he⟩ := h
  obtain ⟨-, hlast⟩ := List.append_inj' heq rfl
  obtain rfl := List.singleton_inj.mp hlast
  exact ⟨m, he⟩

/-- The receiver got the first messages of a queue, one more than it has taken if it has a message
in hand. -/
structure InOrder (pri : Pri) (a : AckedQueue Msg) (tr : Trace) : Prop where
  le : a.taken + (inHand pri tr).toNat ≤ a.sent.length
  eq : received pri tr = a.sent.take (a.taken + (inHand pri tr).toNat)
  emptied : Emptied pri tr → a.taken = a.sent.length

/-- A call that gives the receiver nothing, and takes nothing from the queue. -/
theorem InOrder.other (h : InOrder pri a tr) {a' : AckedQueue Msg} {l : List Msg}
    (he : ∀ r m, rxOf e ≠ some (pri, r, m)) (htaken : a'.taken = a.taken)
    (hsent : a'.sent = a.sent ++ l) : InOrder pri a' (tr ++ [e]) := by
  have hhand : inHand pri (tr ++ [e]) = inHand pri tr := by
    rw [inHand_concat]
    split
    · rename_i p r m heq
      have hp : p ≠ pri := by
        rintro rfl
        exact he _ _ heq
      rw [if_neg hp]
    · rfl
  have hnone : receivedIn pri e = none := by
    unfold receivedIn
    split
    · rename_i p m heq
      have hp : p ≠ pri := by
        rintro rfl
        exact he _ _ heq
      rw [if_neg hp]
    · rfl
  refine ⟨?_, ?_, fun hempty => ?_⟩
  · rw [hhand, htaken, hsent, List.length_append]
    exact Nat.le_add_right_of_le h.le
  · rw [received_concat, hnone, hhand, htaken, hsent, List.take_append_of_le_length h.le, ← h.eq]
    exact List.append_nil _
  · obtain ⟨m, hm⟩ := emptied_concat hempty
    exact absurd hm (he _ _)

/-- A priority without slots refuses the receiver. -/
theorem InOrder.refused (h : InOrder pri a tr) (hhand : inHand pri tr = false)
    (he : rxOf e = some (pri, .badRxNum, m)) : InOrder pri a (tr ++ [e]) := by
  have hhand' : inHand pri (tr ++ [e]) = inHand pri tr := by
    rw [inHand_concat, he, hhand]
    simp
  have hnone : receivedIn pri e = none := by rw [receivedIn, he]
  refine ⟨?_, ?_, fun hempty => ?_⟩
  · rw [hhand']
    exact h.le
  · rw [received_concat, hnone, hhand', ← h.eq]
    exact List.append_nil _
  · obtain ⟨m', hm'⟩ := emptied_concat hempty
    rw [he] at hm'
    simp at hm'

/-- The receiver asks for the message behind those that it has taken. -/
theorem InOrder.first (hle : (q.queue pri).taken ≤ (q.queue pri).sent.length)
    (heq : received pri tr = (q.queue pri).sent.take (q.queue pri).taken)
    (hc : ∀ r m, rxOf (c, .msg r m) = some (pri, r, m)) :
    InOrder pri (q.queue pri) (tr ++ [(c, (q.first pri).2)]) := by
  unfold Queues.first
  split
  · rename_i m hget
    obtain ⟨hlt, -⟩ := List.getElem?_eq_some_iff.mp hget
    have hhand : inHand pri (tr ++ [(c, .msg .ok m)]) = true := by
      rw [inHand_concat, hc]
      simp
    have hin : receivedIn pri (c, .msg .ok m) = some m := by
      rw [receivedIn, hc]
      simp
    refine ⟨?_, ?_, fun hempty => ?_⟩
    · rw [hhand]
      exact hlt
    · rw [received_concat, hin, hhand, heq]
      change _ = (q.queue pri).sent.take ((q.queue pri).taken + 1)
      rw [List.take_add_one, hget]
    · obtain ⟨m', hm'⟩ := emptied_concat hempty
      rw [hc] at hm'
      simp at hm'
  · rename_i hget
    have hge := List.getElem?_eq_none_iff.mp hget
    have hhand : inHand pri (tr ++ [(c, .msg .rxEmpty .none)]) = false := by
      rw [inHand_concat, hc]
      simp
    have hin : receivedIn pri (c, .msg .rxEmpty .none) = none := by
      rw [receivedIn, hc]
    refine ⟨?_, ?_, fun _ => Nat.le_antisymm hle hge⟩
    · rw [hhand]
      exact hle
    · rw [received_concat, hin, hhand, heq]
      exact List.append_nil _

/-- Every allowed call keeps what the receiver got in order. -/
theorem InOrder.call (h : InOrder pri (q.queue pri) tr) (hb : (q.queue pri).Bounded (n pri))
    (hallowed : Allowed tr c) :
    InOrder pri ((q.call n hasTx hasRx c).1.queue pri)
      (tr ++ [(c, (q.call n hasTx hasRx c).2)]) := by
  -- a call that does not receive for this priority
  have hother : (∀ x r m, rxOf (c, x) ≠ some (pri, r, m)) → c ≠ .rxNext pri →
      InOrder pri ((q.call n hasTx hasRx c).1.queue pri)
        (tr ++ [(c, (q.call n hasTx hasRx c).2)]) := fun hrx hc =>
    h.other (fun r m => hrx _ r m) (taken_call hc) sent_call
  cases c with
  | rxFirst p =>
    by_cases hp : p = pri
    · subst hp
      have hhand : inHand p tr = false := hallowed
      have hle := h.le
      have heq := h.eq
      rw [hhand] at hle heq
      rw [Queues.call]
      split_ifs with hzero
      · exact h.refused hhand rfl
      · rw [queue_first]
        exact InOrder.first hle heq fun _ _ => rfl
    · refine hother (fun x r m hrx => ?_) (by simp)
      cases x <;> simp [rxOf] at hrx
      exact hp hrx.1
  | rxNext p =>
    by_cases hp : p = pri
    · subst hp
      have hhand : inHand p tr = true := hallowed
      have hle : (q.queue p).taken + 1 ≤ (q.queue p).sent.length := by
        have hle := h.le
        rwa [hhand] at hle
      have heq := h.eq
      rw [hhand] at heq
      have hn : n p ≠ 0 := by
        intro hn
        have hempty := AckedQueue.Bounded.eq_empty (hn ▸ hb)
        omega
      have hlt : (q.queue p).taken < (q.queue p).sent.length := hle
      rw [Queues.call, if_neg hn, if_pos hlt, queue_first]
      have hqueue := Queues.queue_setQueue_self q p (q.queue p).take
      refine InOrder.first ?_ ?_ fun _ _ => rfl
      · rw [hqueue]
        exact hle
      · rw [hqueue]
        exact heq
    · refine hother (fun x r m hrx => ?_) (by simpa using hp)
      cases x <;> simp [rxOf] at hrx
      exact hp hrx.1
  | _ => exact hother (by intro x r m hrx; cases x <;> cases hrx) (by simp)

/-! ### Runs -/

theorem step_eq_some {x y : Link × Trace} (h : step x c = some y) :
    y = ((call x.1 c).1, x.2 ++ [(c, (call x.1 c).2)]) := (Option.some.inj h).symm

/-- The queues of an open link hold what the trace tells of them. -/
structure Told (n : Pri → Nat) (hasTx hasRx : Bool) (x : Link × Trace) (q : Queues) : Prop where
  represents : Represents n hasTx hasRx x.1 q
  accepted : ∀ pri, accepted pri x.2 = (q.queue pri).sent
  reported : hasTx = true → ∀ pri,
    (reported pri x.2).length + (isRunning q pri).toNat = (q.queue pri).acked

theorem Told.step {x y : Link × Trace} (h : Told n hasTx hasRx x q)
    (hstep : Transq.step x c = some y) :
    Told n hasTx hasRx y (q.call n hasTx hasRx c).1 := by
  obtain rfl := step_eq_some hstep
  obtain ⟨hanswer, hnext⟩ := call_simulates _ _ c h.represents
  refine ⟨hnext, fun pri => ?_, fun hhas pri => ?_⟩
  · rw [accepted_concat, h.accepted, hanswer, sent_call]
  · have hold := h.reported hhas pri
    have hacked := acked_call n hasRx q c pri hhas
    rw [reported_concat, List.length_append, hanswer]
    omega

theorem told_opened {txCfg rxCfg : Cfg} (htx : openTx txCfg s = (t, .ok))
    (hrx : openRx rxCfg t = (u, .ok)) (hnum : rxCfg.rxNum = txCfg.txNum) :
    Told txCfg.txNum txCfg.txHandler rxCfg.rxHandler (u, []) .empty :=
  ⟨opened_represents htx hrx hnum, fun _ => rfl, fun _ _ => rfl⟩

theorem inOrder_empty : InOrder pri .empty [] :=
  ⟨Nat.le_refl 0, rfl, fun ⟨l, e, _, h, _⟩ =>
    absurd (congrArg List.length h) (by simp)⟩

/-- A receiver that leaves each message before it asks for the next one gets the accepted messages
in their order, each of them once; it has them all when it is told that there is none left, and at
most as many as there are slots are still to come. -/
theorem received_in_order {txCfg rxCfg : Cfg} (htx : openTx txCfg s = (t, .ok))
    (hrx : openRx rxCfg t = (u, .ok)) (hnum : rxCfg.rxNum = txCfg.txNum) {cs : List Call}
    {v : Link × Trace} (hes : Transition.Along step (fun x c => Allowed x.2 c) (u, []) cs)
    (hrun : cs.foldlM step (u, []) = some v) (pri : Pri) :
    received pri v.2 <+: accepted pri v.2 ∧
      (accepted pri v.2).length ≤ (received pri v.2).length + txCfg.txNum pri ∧
      (Emptied pri v.2 → received pri v.2 = accepted pri v.2) := by
  have hstart : ∃ q, Told txCfg.txNum txCfg.txHandler rxCfg.rxHandler (u, []) q ∧
      ∀ pri, InOrder pri (q.queue pri) [] :=
    ⟨_, told_opened htx hrx hnum, fun _ => inOrder_empty⟩
  -- every allowed call keeps the queues that stand for the link, and what the receiver got of them
  obtain ⟨q, htold, horder⟩ := hes.preserves
    (I := fun x => ∃ q, Told txCfg.txNum txCfg.txHandler rxCfg.rxHandler x q ∧
      ∀ pri, InOrder pri (q.queue pri) x.2) (fun x c y ⟨q, htold, horder⟩ hallowed hstep => by
      refine ⟨_, htold.step hstep, fun pri => ?_⟩
      have hanswer := (call_simulates _ _ c htold.represents).1
      rw [step_eq_some hstep, hanswer]
      exact (horder pri).call (htold.represents.tracks pri).bounded hallowed) hrun hstart
  have hpri := horder pri
  have hb := (htold.represents.tracks pri).bounded
  rw [htold.accepted, hpri.eq]
  refine ⟨List.take_prefix _ _, ?_, fun hempty => ?_⟩
  · have hacked := hb.acked_le
    have hsent := hb.sent_le
    rw [List.length_take, Nat.min_eq_left hpri.le]
    omega
  · rw [List.take_of_length_le]
    have htaken := hpri.emptied hempty
    omega

instance : Decidable (Allowed tr c) := by
  cases c <;> unfold Allowed <;> infer_instance

/-- One message is sent and received. -/
def oneMessage : List Call := [.tx .high ⟨64, 8⟩, .remoteIrq, .rxFirst .high, .rxNext .high]

theorem allowed_oneMessage :
    Transition.Along step (fun x c => Allowed x.2 c)
      ((openRx (slotsOf 2) (openTx (slotsOf 2) closed).1).1, []) oneMessage := by decide +kernel

theorem received_in_order_one :
    ∃ v, oneMessage.foldlM step ((openRx (slotsOf 2) (openTx (slotsOf 2) closed).1).1, []) =
        some v ∧
      received .high v.2 <+: accepted .high v.2 ∧
      (accepted .high v.2).length ≤ (received .high v.2).length + (slotsOf 2).txNum .high ∧
      (Emptied .high v.2 → received .high v.2 = accepted .high v.2) :=
  ⟨_, rfl, received_in_order openTx_two openRx_two rfl allowed_oneMessage rfl .high⟩

/-- The calls of `tx_handler` for a priority come in the order of the accepted messages. Each has
the message of its own position, unless the sender has filled the queue in between: the slot has
the newest message then. -/
theorem reported_in_order {txCfg rxCfg : Cfg} (htx : openTx txCfg s = (t, .ok))
    (hrx : openRx rxCfg t = (u, .ok)) (hnum : rxCfg.rxNum = txCfg.txNum) {cs : List Call}
    {v : Link × Trace} (hrun : cs.foldlM step (u, []) = some v)
    (hm : (call v.1 .callTxHandler).2 = .handler (some (pri, m))) :
    (if (accepted pri v.2).length ≤ (reported pri v.2).length + txCfg.txNum pri then
        (accepted pri v.2)[(reported pri v.2).length]?
      else (accepted pri v.2).getLast?) = some m := by
  have hes : Transition.Along step (fun _ _ => True) (u, []) cs :=
    Transition.along_of_forall (fun _ _ => trivial) _ _
  obtain ⟨q, htold⟩ := hes.preserves
    (I := fun x => ∃ q, Told txCfg.txNum txCfg.txHandler rxCfg.rxHandler x q)
    (fun x c y ⟨q, htold⟩ _ hstep => ⟨_, htold.step hstep⟩) hrun ⟨_, told_opened htx hrx hnum⟩
  have hanswer := (call_simulates _ _ .callTxHandler htold.represents).1
  rw [hm, Queues.call] at hanswer
  cases hrunning : q.running with
  | none =>
    rw [hrunning] at hanswer
    injection hanswer with hsome
    exact absurd hsome (Option.some_ne_none _)
  | some r =>
    obtain ⟨p, k⟩ := r
    rw [hrunning] at hanswer
    injection hanswer with hsome
    obtain ⟨hp, hlatest⟩ := Prod.mk.inj (Option.some.inj hsome)
    subst hp
    obtain ⟨hhas, hn, hk⟩ := htold.represents.position _ hrunning
    have hn' : 0 < txCfg.txNum pri := hn
    have hk' : k + 1 = (q.queue pri).acked := hk
    have hcount := htold.reported hhas pri
    have hone : (isRunning q pri).toNat = 1 := by
      rw [isRunning, hrunning]
      simp
    have hb := (htold.represents.tracks pri).bounded
    have hacked := hb.acked_le
    have htaken := hb.taken_le
    have hsent := hb.sent_le
    have hpos : (reported pri v.2).length = k := by omega
    rw [htold.accepted, hpos, hlatest, Queues.latest]
    split_ifs with hle
    · have hlt : k < (q.queue pri).sent.length := by omega
      rw [List.getD_eq_getElem?_getD, List.getElem?_eq_getElem hlt, Option.getD_some]
    · have hlt : k + txCfg.txNum pri < (q.queue pri).sent.length := by omega
      have hlast : k + txCfg.txNum pri = (q.queue pri).sent.length - 1 := by omega
      rw [List.getLast?_eq_getElem?, ← hlast, List.getD_eq_getElem?_getD,
        List.getElem?_eq_getElem hlt, Option.getD_some]

theorem openTx_one : openTx (slotsOf 1) closed = ((openTx (slotsOf 1) closed).1, .ok) := rfl

theorem openRx_one : openRx (slotsOf 1) (openTx (slotsOf 1) closed).1 =
    ((openRx (slotsOf 1) (openTx (slotsOf 1) closed).1).1, .ok) := rfl

/-- A slot is filled again before the handler reads it. -/
def filledAgain : List Call :=
  [.tx .normal ⟨64, 8⟩, .rxFirst .normal, .rxNext .normal, .localIrq, .tx .normal ⟨128, 4⟩]

theorem reported_in_order_one :
    ∃ v, filledAgain.foldlM step ((openRx (slotsOf 1) (openTx (slotsOf 1) closed).1).1, []) =
        some v ∧
      (if (accepted .normal v.2).length ≤
          (reported .normal v.2).length + (slotsOf 1).txNum .normal then
          (accepted .normal v.2)[(reported .normal v.2).length]?
        else (accepted .normal v.2).getLast?) = some ⟨128, 4⟩ :=
  ⟨_, rfl, reported_in_order openTx_one openRx_one rfl
    (show filledAgain.foldlM step _ = some _ from rfl) rfl⟩

end EarbudFirmware.Transq
