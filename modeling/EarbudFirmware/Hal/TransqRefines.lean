import EarbudFirmware.Hal.TransqSteps

/-!
# The link answers like its queues

## Main results

* `tx_agrees`, `getTxStatus_agrees`, `localIrq_agrees`, `callTxHandler_agrees` — the sender
* `rxFirst_agrees`, `rxNext_agrees`, `getRxStatus_agrees`, `remoteIrq_agrees` — the receiver
* `transq_refines_queues` — every list of calls has the answers of the queues
-/

namespace EarbudFirmware.Transq

variable {n : Pri → Nat} {hasTx hasRx : Bool} {s t : Link} {q : Queues} {pri : Pri} {msg : Msg}
  {v : BitVec 32} {k : Nat}

/-! ### All calls -/

/-- The answers are the same, and the link stands for the queues again. -/
def Agrees (n : Pri → Nat) (hasTx hasRx : Bool) (t : Link × Answer) (u : Queues × Answer) : Prop :=
  t.2 = u.2 ∧ Represents n hasTx hasRx t.1 u.1

theorem tx_agrees (h : Represents n hasTx hasRx s q) :
    Agrees n hasTx hasRx (call s (.tx pri msg)) (q.call n hasTx hasRx (.tx pri msg)) := by
  rw [Transq.call, Queues.call]
  rcases Nat.eq_zero_or_pos (n pri) with hn | hn
  · have htx : tx s pri msg = (s, .badTxNum) := by
      rw [tx, if_pos (by rw [h.txNum, hn])]
    rw [htx, if_pos hn]
    exact ⟨rfl, h⟩
  · rw [if_neg (Nat.ne_of_gt hn)]
    by_cases hfull : (q.queue pri).Full (n pri)
    · have htx : tx s pri msg = (s, .txFull) := by
        rw [tx, if_neg (by rw [h.txNum]; exact Nat.ne_of_gt hn),
          if_pos (((h.tracks pri).full hn).mpr hfull)]
      rw [htx, if_pos hfull]
      exact ⟨rfl, h⟩
    · obtain ⟨hnext, hret⟩ := h.send msg hn hfull
      rw [if_neg hfull, hret]
      exact ⟨rfl, hnext⟩

theorem getTxStatus_agrees (h : Represents n hasTx hasRx s q) :
    Agrees n hasTx hasRx (call s (.getTxStatus pri)) (q.call n hasTx hasRx (.getTxStatus pri)) := by
  rw [Transq.call, Queues.call, getTxStatus, h.txNum, h.txHandler]
  rcases Nat.eq_zero_or_pos (n pri) with hn | hn
  · rw [if_pos hn, if_pos hn]
    exact ⟨rfl, h⟩
  rw [if_neg (Nat.ne_of_gt hn), if_neg (Nat.ne_of_gt hn)]
  cases hasTx with
  | true => exact ⟨rfl, h⟩
  | false =>
    have htracks := h.tracks pri
    have hb := htracks.bounded
    have htaken := hb.taken_le
    have hrunning : q.running = none := by
      by_contra hne
      obtain ⟨r, hr⟩ := Option.ne_none_iff_exists'.mp hne
      exact Bool.noConfusion (h.position r hr).1
    rw [if_neg Bool.false_ne_true, if_neg Bool.false_ne_true, htracks.activeTxValid,
      if_neg (by simp)]
    by_cases hdone : q.Done pri
    · have hlt : (q.queue pri).acked < (q.queue pri).taken := hdone
      have hslot : s.activeTxSlot pri = slotAt n pri (q.queue pri).acked := by
        rw [htracks.activeTx, if_neg (by omega)]
      have hbit := and_bit_ne_zero.mpr ((htracks.done_iff hn).mpr hlt)
      dsimp only
      rw [hslot, if_pos hbit, if_pos hdone]
      exact ⟨rfl, h.ack hdone hrunning⟩
    · have hbit : ¬s.bank.ldoneRis &&& bit (s.activeTxSlot pri) ≠ 0 := by
        rw [and_bit_ne_zero, htracks.activeTx]
        split_ifs with hidle
        · -- no slot is active, and there is no bit to find
          have hnone := BitVec.getLsbD_of_ge s.bank.ldoneRis transqSlotNum (Nat.le_refl 32)
          rw [hnone]
          exact Bool.false_ne_true
        · rw [htracks.done_iff hn]
          exact hdone
      dsimp only
      rw [if_neg hbit, if_neg hdone]
      exact ⟨rfl, h⟩

theorem localIrq_agrees (h : Represents n hasTx hasRx s q) :
    Agrees n hasTx hasRx (call s .localIrq) (q.call n hasTx hasRx .localIrq) := by
  rw [Transq.call, Queues.call, h.running, Option.isSome_map]
  cases hrunning : q.running with
  | some r => exact ⟨rfl, h⟩
  | none =>
    obtain ⟨t, hirq, ht⟩ := h.localIrq_eq hrunning
    rw [Option.isSome_none, if_neg Bool.false_ne_true, Bool.false_or]
    cases hasTx with
    | false =>
      rw [hirq]
      exact ⟨rfl, ht⟩
    | true =>
      rw [if_pos rfl] at hirq ht
      rw [hirq, if_neg (by simp)]
      cases hchoose : Queues.choose q.Done with
      | none =>
        rw [hchoose] at ht
        exact ⟨rfl, ht⟩
      | some pri =>
        rw [hchoose] at ht
        exact ⟨rfl, ht⟩

theorem callTxHandler_agrees (h : Represents n hasTx hasRx s q) :
    Agrees n hasTx hasRx (call s .callTxHandler) (q.call n hasTx hasRx .callTxHandler) := by
  rw [Transq.call, Queues.call, callTxHandler, h.running]
  cases hrunning : q.running with
  | none => exact ⟨rfl, h⟩
  | some r =>
    obtain ⟨pri, k⟩ := r
    obtain ⟨-, hn, hk⟩ := h.position _ hrunning
    have hn' : 0 < n pri := hn
    have hk' : k + 1 = (q.queue pri).acked := hk
    have htracks := h.tracks pri
    have hb := htracks.bounded
    have hacked := hb.acked_le
    have htaken := hb.taken_le
    have hsent := hb.sent_le
    -- the slot was filled again exactly if a whole circle was sent since
    have hslot : s.bank.slots (slotAt n pri k) = Queues.latest (n pri) (q.queue pri) k := by
      rw [Queues.latest]
      split_ifs with hle
      · have hlt : k < (q.queue pri).sent.length := by omega
        rw [List.getD_eq_getElem?_getD, List.getElem?_eq_getElem hlt, Option.getD_some]
        exact htracks.slot_eq (List.getElem?_eq_getElem hlt) hle
      · have hlt : k + n pri < (q.queue pri).sent.length := by omega
        have hsame : slotAt n pri k = slotAt n pri (k + n pri) := by
          rw [slotAt, slotAt, Nat.add_mod_right]
        rw [List.getD_eq_getElem?_getD, List.getElem?_eq_getElem hlt, Option.getD_some, hsame]
        exact htracks.slot_eq (List.getElem?_eq_getElem hlt) (by omega)
    refine ⟨?_, h.setRunning (r := none) fun p hp =>
      absurd hp.symm (Option.some_ne_none p)⟩
    change Answer.handler (some (pri, s.bank.slots (slotAt n pri k))) = _
    rw [hslot]

theorem rxFirst_agrees (h : Represents n hasTx hasRx s q) :
    Agrees n hasTx hasRx (call s (.rxFirst pri)) (q.call n hasTx hasRx (.rxFirst pri)) := by
  rw [Transq.call, Queues.call, rxFirst, h.rxNum]
  rcases Nat.eq_zero_or_pos (n pri) with hn | hn
  · rw [if_pos hn, if_pos hn]
    exact ⟨rfl, h⟩
  · rw [if_neg (Nat.ne_of_gt hn), if_neg (Nat.ne_of_gt hn), (h.tracks pri).nextRx hn]
    exact h.first hn

theorem rxNext_agrees (h : Represents n hasTx hasRx s q) :
    Agrees n hasTx hasRx (call s (.rxNext pri)) (q.call n hasTx hasRx (.rxNext pri)) := by
  rw [Transq.call, Queues.call]
  rcases Nat.eq_zero_or_pos (n pri) with hn | hn
  · have hrx : rxNext s pri = (s, .badRxNum, .none) := by
      rw [rxNext, if_pos (by rw [h.rxNum, hn])]
    rw [hrx, if_pos hn]
    exact ⟨rfl, h⟩
  have hpos : s.rxNum pri ≠ 0 := by rw [h.rxNum]; exact Nat.ne_of_gt hn
  rw [if_neg (Nat.ne_of_gt hn)]
  by_cases hlt : (q.queue pri).taken < (q.queue pri).sent.length
  · have hnext : getNextSlot (s.rxNum pri) pri (slotAt n pri (q.queue pri).taken) =
        slotAt n pri ((q.queue pri).taken + 1) := by
      rw [h.rxNum, getNextSlot_slotAt h.fits hn]
    have hfirst := (h.take hn hlt).first hn
    rw [Queues.queue_setQueue_self] at hfirst
    have hrx : rxNext s pri =
        let s := { s with
          bank := s.bank.rmtIntclr (bit (slotAt n pri (q.queue pri).taken))
          nextRxSlot :=
            Function.update s.nextRxSlot pri (slotAt n pri ((q.queue pri).taken + 1)) }
        if available s (slotAt n pri ((q.queue pri).taken + 1)) then
          (s, .ok, s.bank.slots (slotAt n pri ((q.queue pri).taken + 1)))
        else (enableIrq s pri, .rxEmpty, .none) := by
      rw [rxNext, if_neg hpos, (h.tracks pri).nextRx hn]
      dsimp only
      rw [h.available_iff hn, if_pos (decide_eq_true hlt), hnext]
    rw [hrx, if_pos hlt]
    exact hfirst
  · have hrx : rxNext s pri = (enableIrq s pri, .rxEmpty, .none) := by
      rw [rxNext, if_neg hpos, (h.tracks pri).nextRx hn]
      dsimp only
      rw [h.available_iff hn, if_neg (by simpa using hlt)]
    rw [hrx, if_neg hlt]
    exact ⟨rfl, h.enableIrq⟩

theorem getRxStatus_agrees (h : Represents n hasTx hasRx s q) :
    Agrees n hasTx hasRx (call s (.getRxStatus pri)) (q.call n hasTx hasRx (.getRxStatus pri)) := by
  rw [Transq.call, Queues.call, getRxStatus, h.rxNum, h.rxHandler]
  rcases Nat.eq_zero_or_pos (n pri) with hn | hn
  · rw [if_pos hn, if_pos hn]
    exact ⟨rfl, h⟩
  · rw [if_neg (Nat.ne_of_gt hn), if_neg (Nat.ne_of_gt hn), (h.tracks pri).nextRx hn,
      h.available_iff hn]
    cases hasRx <;> exact ⟨rfl, h⟩

theorem remoteIrq_agrees (h : Represents n hasTx hasRx s q) :
    Agrees n hasTx hasRx (call s .remoteIrq) (q.call n hasTx hasRx .remoteIrq) := by
  obtain ⟨t, hirq, ht⟩ := h.remoteIrq_eq
  rw [Transq.call, Queues.call, hirq]
  cases hasRx with
  | false => exact ⟨rfl, ht⟩
  | true =>
    rw [if_pos rfl] at ht ⊢
    cases hchoose : Queues.choose q.Pending with
    | none =>
      rw [hchoose] at ht
      exact ⟨rfl, ht⟩
    | some pri =>
      rw [hchoose] at ht
      exact ⟨rfl, ht⟩

theorem call_simulates :
    Simulation.Simulates call (Queues.call n hasTx hasRx) (Represents n hasTx hasRx) := by
  intro s q c h
  cases c with
  | tx pri msg => exact tx_agrees h
  | getTxStatus pri => exact getTxStatus_agrees h
  | localIrq => exact localIrq_agrees h
  | callTxHandler => exact callTxHandler_agrees h
  | rxFirst pri => exact rxFirst_agrees h
  | rxNext pri => exact rxNext_agrees h
  | getRxStatus pri => exact getRxStatus_agrees h
  | remoteIrq => exact remoteIrq_agrees h

/-! ### Opening -/

theorem exists_of_openTx {cfg : Cfg} (h : openTx cfg s = (t, .ok)) :
    checkNum cfg = .ok ∧ t = (openTx cfg s).1 := by
  refine ⟨?_, (congrArg Prod.fst h).symm⟩
  have hret := congrArg Prod.snd h
  unfold openTx at hret
  cases hcheck : checkNum cfg with
  | ok => rfl
  | _ =>
    rw [hcheck] at hret
    exact hret

theorem exists_of_openRx {cfg : Cfg} (h : openRx cfg s = (t, .ok)) :
    checkNum cfg = .ok ∧ t = (openRx cfg s).1 := by
  refine ⟨?_, (congrArg Prod.fst h).symm⟩
  have hret := congrArg Prod.snd h
  unfold openRx at hret
  cases hcheck : checkNum cfg with
  | ok => rfl
  | _ =>
    rw [hcheck] at hret
    exact hret

theorem fits_of_checkNum {cfg : Cfg} (h : checkNum cfg = .ok) : Fits cfg.txNum := by
  unfold checkNum at h
  split_ifs at h with htx hrx
  exact Nat.le_of_not_lt htx

theorem and_not_not_zero : v &&& ~~~(~~~0) = 0 := by simp

/-- A link that both cores have opened, with the same numbers of slots, stands for empty queues. -/
theorem opened_represents {txCfg rxCfg : Cfg} {u : Link} (htx : openTx txCfg s = (t, .ok))
    (hrx : openRx rxCfg t = (u, .ok)) (hnum : rxCfg.rxNum = txCfg.txNum) :
    Represents txCfg.txNum txCfg.txHandler rxCfg.rxHandler u .empty := by
  obtain ⟨htxNum, ht⟩ := exists_of_openTx htx
  obtain ⟨hrxNum, hu⟩ := exists_of_openRx hrx
  have hfits := fits_of_checkNum htxNum
  rw [openTx, htxNum] at ht
  rw [openRx, hrxNum] at hu
  subst ht
  subst hu
  have hmask : ∀ i < 32,
      (irqMask txCfg.txNum .normal ||| irqMask txCfg.txNum .high).getLsbD i = true ↔
        ∃ pri, InRange txCfg.txNum pri i := by
    intro i hi
    rw [BitVec.getLsbD_or, Bool.or_eq_true, getLsbD_irqMask hfits hi, getLsbD_irqMask hfits hi]
    constructor
    · rintro (h | h)
      · exact ⟨_, h⟩
      · exact ⟨_, h⟩
    · rintro ⟨pri, h⟩
      cases pri
      · exact Or.inl h
      · exact Or.inr h
  refine ⟨hfits, rfl, hnum, rfl, ?_, rfl, rfl, and_not_not_zero, fun pri => ?_, fun i hi => ?_,
    fun i hi => ?_, rfl, fun r hr => absurd hr.symm (Option.some_ne_none r)⟩
  · rw [← hnum]
  · have hstart : ∀ num : Pri → Nat, 0 < num pri → startSlot num pri = slotAt num pri 0 := by
      intro num hn
      rw [startSlot, if_pos (Nat.ne_of_gt hn), slotAt, Nat.zero_mod, Nat.add_zero]
    refine ⟨AckedQueue.bounded_empty, hstart _, rfl, fun hn => ?_, fun hn => ?_,
      Ring.marks_empty fun i _ => ?_, Ring.marks_empty fun i _ => ?_, Ring.newest_nil⟩
    · refine iff_of_false Bool.false_ne_true ?_
      change 0 ≠ 0 + txCfg.txNum pri
      omega
    · change startSlot rxCfg.rxNum pri = _
      rw [hnum]
      exact hstart _ hn
    · change (s.bank.rmtRis &&& ~~~(~~~0)).getLsbD _ = false
      rw [and_not_not_zero, getLsbD_none]
    · change ((_ : BitVec 32) &&& ~~~(~~~0)).getLsbD _ = false
      rw [and_not_not_zero, getLsbD_none]
  · change (irqMask txCfg.txNum .normal ||| irqMask txCfg.txNum .high).getLsbD i = true ↔ _
    rw [hmask i hi]
    constructor
    · rintro ⟨pri, h⟩
      exact ⟨pri, rfl, h⟩
    · rintro ⟨pri, -, h⟩
      exact ⟨pri, h⟩
  · change (if txCfg.txHandler then
      irqMask txCfg.txNum .normal ||| irqMask txCfg.txNum .high else 0).getLsbD i = true ↔ _
    cases txCfg.txHandler with
    | true => rw [if_pos rfl, hmask i hi, eq_self_iff_true, true_and]
    | false => simp

/-- Whatever the order of the calls and the interrupts of both cores, an open link answers like two
bounded queues; so no assertion fails. -/
theorem transq_refines_queues {txCfg rxCfg : Cfg} {u : Link} (htx : openTx txCfg s = (t, .ok))
    (hrx : openRx rxCfg t = (u, .ok)) (hnum : rxCfg.rxNum = txCfg.txNum) (cs : List Call) :
    (Simulation.run call u cs).2 =
      (Simulation.run (Queues.call txCfg.txNum txCfg.txHandler rxCfg.rxHandler) .empty cs).2 :=
  (call_simulates.run (opened_represents htx hrx hnum) cs).1

/-- A bank with `num` slots of each priority, and both handlers. -/
def slotsOf (num : Nat) : Cfg := ⟨fun _ => num, fun _ => num, true, true⟩

/-- A link before it is opened. -/
def closed : Link where
  bank := ⟨0, 0, 0, 0, 0, 0, fun _ => .none⟩
  txNum := fun _ => 0
  txHandler := false
  nextTxSlot := fun _ => 0
  activeTxSlot := fun _ => 0
  txSlotFull := fun _ => false
  txIrqMask := fun _ => 0
  running := none
  rxNum := fun _ => 0
  rxHandler := false
  nextRxSlot := fun _ => 0
  rxIrqMask := fun _ => 0

theorem openTx_two : openTx (slotsOf 2) closed = ((openTx (slotsOf 2) closed).1, .ok) := rfl

theorem openRx_two : openRx (slotsOf 2) (openTx (slotsOf 2) closed).1 =
    ((openRx (slotsOf 2) (openTx (slotsOf 2) closed).1).1, .ok) := rfl

theorem transq_refines_queues_two :
    (Simulation.run call (openRx (slotsOf 2) (openTx (slotsOf 2) closed).1).1
        [.tx .normal ⟨64, 8⟩, .tx .high ⟨128, 4⟩, .remoteIrq, .rxFirst .high, .rxNext .high]).2 =
      (Simulation.run
        (Queues.call (slotsOf 2).txNum (slotsOf 2).txHandler (slotsOf 2).rxHandler) .empty
        [.tx .normal ⟨64, 8⟩, .tx .high ⟨128, 4⟩, .remoteIrq, .rxFirst .high, .rxNext .high]).2 :=
  transq_refines_queues openTx_two openRx_two rfl _

end EarbudFirmware.Transq
