import EarbudFirmware.Hal.TransqQueues

/-!
# What one call does to the registers

Each call of either core changes the registers and the variables of one priority, and its own queue
with them.

## Main definitions

* `SameSetup` — what only the opening and the interrupt handlers set

## Main results

* `Represents.send`, `Represents.ack` — a message comes in, and the sender learns that it was taken
* `Represents.take`, `Represents.first` — a message is taken, and the next one is read
* `Represents.localIrq_eq`, `Represents.remoteIrq_eq` — the interrupt handlers
-/

namespace EarbudFirmware.Transq

variable {n : Pri → Nat} {hasTx hasRx : Bool} {s t : Link} {q : Queues} {pri pri' : Pri}
  {a : AckedQueue Msg} {msg : Msg} {v : BitVec 32} {i k slot : Nat}

/-! ### Changes of the registers -/

theorem getLsbD_or_bit (hi : i < 32) :
    (v ||| bit slot).getLsbD i = (decide (i = slot) || v.getLsbD i) := by
  rw [BitVec.getLsbD_or, getLsbD_bit, Bool.or_comm, decide_eq_true hi, Bool.true_and]

theorem getLsbD_and_not_bit (hi : i < 32) :
    (v &&& ~~~bit slot).getLsbD i = (!decide (i = slot) && v.getLsbD i) := by
  rw [BitVec.getLsbD_and, BitVec.getLsbD_not, getLsbD_bit, Bool.and_comm, decide_eq_true hi,
    Bool.true_and, Bool.true_and]

/-- A slot of one priority is none of another. -/
theorem Fits.slot_ne (h : Fits n) (hne : pri' ≠ pri) (hn : 0 < n pri) (hi : InRange n pri' i) :
    i ≠ slotAt n pri k := by
  rintro rfl
  exact hne (h.eq hi (slotAt_inRange hn))

theorem Fits.slotAt_lt (h : Fits n) (hn : 0 < n pri) : slotAt n pri k < transqSlotNum :=
  h.lt (slotAt_inRange hn)

theorem firstSlot_add_eq_iff : firstSlot (n pri) pri + i = slotAt n pri k ↔ i = k % n pri := by
  rw [slotAt]
  omega

/-- The variables and the masks that only the opening and the interrupt handlers set. -/
structure SameSetup (s t : Link) : Prop where
  txNum : t.txNum = s.txNum
  rxNum : t.rxNum = s.rxNum
  txIrqMask : t.txIrqMask = s.txIrqMask
  rxIrqMask : t.rxIrqMask = s.rxIrqMask
  txHandler : t.txHandler = s.txHandler
  rxHandler : t.rxHandler = s.rxHandler
  lerr : t.bank.lerrRis = s.bank.lerrRis
  rmtMask : t.bank.rmtIntmask = s.bank.rmtIntmask
  ldoneMask : t.bank.ldoneIntmask = s.bank.ldoneIntmask
  running : t.running = s.running

/-- The queue of one priority changes. -/
theorem Represents.setQueue (h : Represents n hasTx hasRx s q) (hsetup : SameSetup s t)
    (hpri : Tracks n t pri a) (hothers : ∀ pri', pri' ≠ pri → SameFor n pri' s t)
    (hacked : q.running.isSome → a.acked = (q.queue pri).acked) :
    Represents n hasTx hasRx t (q.setQueue pri a) where
  fits := h.fits
  txNum := hsetup.txNum.trans h.txNum
  rxNum := hsetup.rxNum.trans h.rxNum
  txIrqMask := hsetup.txIrqMask.trans h.txIrqMask
  rxIrqMask := hsetup.rxIrqMask.trans h.rxIrqMask
  txHandler := hsetup.txHandler.trans h.txHandler
  rxHandler := hsetup.rxHandler.trans h.rxHandler
  lerr := hsetup.lerr.trans h.lerr
  tracks := by
    intro pri'
    by_cases hne : pri' = pri
    · subst hne
      rwa [Queues.queue_setQueue_self]
    · rw [Queues.queue_setQueue_of_ne q hne]
      exact (h.tracks pri').congr (hothers pri' hne)
  rmtMask := by rw [hsetup.rmtMask]; exact h.rmtMask
  ldoneMask := by rw [hsetup.ldoneMask]; exact h.ldoneMask
  running := hsetup.running.trans h.running
  position := by
    rintro ⟨pri', k⟩ hr
    have hsome : q.running = some (pri', k) := hr
    obtain ⟨htx, hn, hold⟩ := h.position _ hsome
    refine ⟨htx, hn, hold.trans ?_⟩
    by_cases hne : pri' = pri
    · subst hne
      rw [Queues.queue_setQueue_self, hacked (by rw [hsome]; rfl)]
    · rw [Queues.queue_setQueue_of_ne q hne]

/-! ### Sending -/

/-- The sender puts a message into a free slot. -/
theorem Represents.send (h : Represents n hasTx hasRx s q) (msg : Msg) (hn : 0 < n pri)
    (hfull : ¬(q.queue pri).Full (n pri)) :
    Represents n hasTx hasRx (tx s pri msg).1 (q.setQueue pri ((q.queue pri).send msg)) ∧
      (tx s pri msg).2 = .ok := by
  have htracks := h.tracks pri
  have hb := htracks.bounded
  have hroom : (q.queue pri).sent.length < (q.queue pri).acked + n pri :=
    Nat.lt_of_le_of_ne hb.sent_le hfull
  have hnotFull : s.txSlotFull pri = false := by
    rw [Bool.eq_false_iff, Ne, htracks.full hn]
    exact hfull
  have hslot := htracks.nextTx hn
  have hnext : getNextSlot (s.txNum pri) pri (s.nextTxSlot pri) =
      slotAt n pri ((q.queue pri).sent.length + 1) := by
    rw [h.txNum, hslot, getNextSlot_slotAt h.fits hn]
  -- the slot is the oldest one, or the queue was idle and starts with the new message
  have hactive : (if transqSlotNum ≤ s.activeTxSlot pri then s.nextTxSlot pri
      else s.activeTxSlot pri) = slotAt n pri (q.queue pri).acked := by
    rw [htracks.activeTx, hslot]
    by_cases hidle : (q.queue pri).acked = (q.queue pri).sent.length
    · rw [if_pos hidle, if_pos (Nat.le_refl _), hidle]
    · rw [if_neg hidle, if_neg (Nat.not_le.mpr (h.fits.slotAt_lt hn))]
  have hfree : s.bank.rmtRis.getLsbD (s.nextTxSlot pri) = false := by
    rw [hslot]
    exact htracks.rmt.behind hb.taken_le (by have hle := hb.acked_le; omega)
  have htx : tx s pri msg = ({ s with
      bank := { s.bank with
        slots := Function.update s.bank.slots (s.nextTxSlot pri) msg
        lerrRis := s.bank.lerrRis ||| (s.bank.rmtRis &&& bit (s.nextTxSlot pri))
        rmtRis := s.bank.rmtRis ||| bit (s.nextTxSlot pri) }
      activeTxSlot := Function.update s.activeTxSlot pri (slotAt n pri (q.queue pri).acked)
      nextTxSlot :=
        Function.update s.nextTxSlot pri (slotAt n pri ((q.queue pri).sent.length + 1))
      txSlotFull :=
        if slotAt n pri ((q.queue pri).sent.length + 1) = slotAt n pri (q.queue pri).acked then
          Function.update s.txSlotFull pri true
        else s.txSlotFull }, .ok) := by
    have hpos : s.txNum pri ≠ 0 := by rw [h.txNum]; exact Nat.ne_of_gt hn
    unfold tx
    rw [if_neg hpos, if_neg (by rw [hnotFull]; exact Bool.false_ne_true)]
    simp only [hnext, hactive]
    rfl
  rw [htx]
  refine ⟨h.setQueue ⟨rfl, rfl, rfl, rfl, rfl, rfl, ?_, rfl, rfl, rfl⟩ ?_ ?_ fun _ => rfl, rfl⟩
  · -- the slot is not active, so there is no error
    have hnone : s.bank.rmtRis &&& bit (s.nextTxSlot pri) = 0 := by
      by_contra hne
      rw [← Ne, and_bit_ne_zero, hfree] at hne
      exact Bool.false_ne_true hne
    change s.bank.lerrRis ||| (s.bank.rmtRis &&& bit (s.nextTxSlot pri)) = s.bank.lerrRis
    rw [hnone, h.lerr]
    rfl
  · have hlen : ((q.queue pri).send msg).sent.length = (q.queue pri).sent.length + 1 :=
      List.length_append
    have hle := hb.acked_le
    have htaken := hb.taken_le
    refine ⟨hb.send hfull, fun _ => ?_, ?_, fun _ => ?_, htracks.nextRx, ?_, htracks.ldone, ?_⟩
    · rw [hlen]
      exact Function.update_self ..
    · rw [hlen]
      have hne : (q.queue pri).acked ≠ (q.queue pri).sent.length + 1 := by omega
      exact (Function.update_self ..).trans (if_neg hne).symm
    · rw [AckedQueue.Full, hlen]
      change _ ↔ _ = (q.queue pri).acked + n pri
      by_cases heq : (q.queue pri).sent.length + 1 = (q.queue pri).acked + n pri
      · have hslots : slotAt n pri ((q.queue pri).sent.length + 1) =
            slotAt n pri (q.queue pri).acked := by
          rw [heq, slotAt, Nat.add_mod_right, slotAt]
        rw [if_pos hslots]
        exact iff_of_true (Function.update_self ..) heq
      · have hslots : slotAt n pri ((q.queue pri).sent.length + 1) ≠
            slotAt n pri (q.queue pri).acked :=
          (slotAt_ne (by omega) (by omega)).symm
        rw [if_neg hslots]
        exact iff_of_false (Bool.eq_false_iff.mp hnotFull) heq
    · rw [hlen]
      refine htracks.rmt.set htaken fun i hi => ?_
      have hlt := h.fits.lt (inRange_add hi)
      change (s.bank.rmtRis ||| bit (s.nextTxSlot pri)).getLsbD _ = _
      rw [getLsbD_or_bit hlt, hslot, decide_eq_decide.mpr firstSlot_add_eq_iff]
    · refine htracks.slots.concat ?_ fun p hp => ?_
      · change Function.update s.bank.slots (s.nextTxSlot pri) msg (slotAt n pri _) = msg
        rw [hslot, Function.update_self]
      · change Function.update s.bank.slots (s.nextTxSlot pri) msg _ = _
        refine Function.update_of_ne ?_ ..
        rw [hslot, Ne, firstSlot_add_eq_iff]
        exact hp
  · intro pri' hne
    have hslotNe : ∀ i, InRange n pri' i → i ≠ s.nextTxSlot pri := by
      intro i hi
      rw [hslot]
      exact h.fits.slot_ne hne hn hi
    refine ⟨Function.update_of_ne hne .., Function.update_of_ne hne .., ?_, rfl, fun i hi => ?_,
      fun _ _ => rfl, fun i hi => Function.update_of_ne (hslotNe i hi) ..⟩
    · change (if _ then Function.update s.txSlotFull pri true else s.txSlotFull) pri' = _
      split_ifs
      · exact Function.update_of_ne hne ..
      · rfl
    · change (s.bank.rmtRis ||| bit (s.nextTxSlot pri)).getLsbD i = _
      rw [getLsbD_or_bit (h.fits.lt hi), decide_eq_false (hslotNe i hi), Bool.false_or]

/-- The sender learns of a message that was taken. -/
theorem Represents.ack (h : Represents n hasTx hasRx s q) (hdone : q.Done pri)
    (hrunning : q.running = none) :
    Represents n hasTx hasRx (txDone s pri (slotAt n pri (q.queue pri).acked))
      (q.setQueue pri (q.queue pri).ack) := by
  have htracks := h.tracks pri
  have hb := htracks.bounded
  have hlt : (q.queue pri).acked < (q.queue pri).taken := hdone
  have htaken := hb.taken_le
  have hsent := hb.sent_le
  have hn : 0 < n pri := by omega
  have hnext : getNextSlot (s.txNum pri) pri (slotAt n pri (q.queue pri).acked) =
      slotAt n pri ((q.queue pri).acked + 1) := by
    rw [h.txNum, getNextSlot_slotAt h.fits hn]
  -- in both branches the queue is idle exactly if the message was its last one, and not full
  have heq : txDone s pri (slotAt n pri (q.queue pri).acked) = { s with
      bank := s.bank.ldoneIntclr (bit (slotAt n pri (q.queue pri).acked))
      txSlotFull := Function.update s.txSlotFull pri false
      activeTxSlot := Function.update s.activeTxSlot pri
        (if (q.queue pri).acked + 1 = (q.queue pri).sent.length then transqSlotNum
        else slotAt n pri ((q.queue pri).acked + 1)) } := by
    unfold txDone
    dsimp only
    rw [hnext, htracks.nextTx hn, h.txNum]
    by_cases hlast : (q.queue pri).acked + 1 = (q.queue pri).sent.length
    · rw [hlast, if_pos rfl]
      cases hfull : s.txSlotFull pri with
      | false =>
        have hsame : Function.update s.txSlotFull pri false = s.txSlotFull := by
          rw [← hfull]
          exact Function.update_eq_self ..
        rw [if_pos (by simp), hsame]
      | true =>
        have hone : n pri = 1 := by
          have hcount := (htracks.full hn).mp hfull
          rw [AckedQueue.Full] at hcount
          omega
        rw [if_neg (by simp), if_pos hone]
    · have hne : slotAt n pri ((q.queue pri).acked + 1) ≠ slotAt n pri (q.queue pri).sent.length :=
        slotAt_ne (by omega) (by omega)
      have hone : n pri ≠ 1 := by omega
      rw [if_neg (by simp [hne]), if_neg hlast, if_neg hone]
  rw [heq]
  refine h.setQueue ⟨rfl, rfl, rfl, rfl, rfl, rfl, rfl, rfl, rfl, rfl⟩ ?_ ?_ fun hsome => ?_
  · refine ⟨hb.ack hlt, htracks.nextTx, Function.update_self .., fun _ => ?_, htracks.nextRx,
      htracks.rmt, ?_, htracks.slots⟩
    · refine iff_of_false (Bool.eq_false_iff.mp (Function.update_self ..)) ?_
      change (q.queue pri).sent.length ≠ (q.queue pri).acked + 1 + n pri
      omega
    · refine htracks.ldone.clear (by omega) fun i hi => ?_
      have hi' := h.fits.lt (inRange_add hi)
      change (s.bank.ldoneRis &&& ~~~bit (slotAt n pri (q.queue pri).acked)).getLsbD _ = _
      rw [getLsbD_and_not_bit hi', decide_eq_decide.mpr firstSlot_add_eq_iff]
  · intro pri' hne
    refine ⟨rfl, Function.update_of_ne hne .., Function.update_of_ne hne .., rfl, fun _ _ => rfl,
      fun i hi => ?_, fun _ _ => rfl⟩
    change (s.bank.ldoneRis &&& ~~~bit (slotAt n pri (q.queue pri).acked)).getLsbD i = _
    rw [getLsbD_and_not_bit (h.fits.lt hi), decide_eq_false (h.fits.slot_ne hne hn hi),
      Bool.not_false, Bool.true_and]
  · rw [hrunning] at hsome
    exact Bool.noConfusion hsome

/-! ### Interrupts -/

/-- A bit that is set and not masked belongs to a priority whose mask is met. -/
theorem exists_and_irqMask {p : Pri → Prop} {mask : BitVec 32} (h : Fits n)
    (hmask : ∀ i < 32, mask.getLsbD i = true ↔ ∃ pri, p pri ∧ InRange n pri i)
    (hv : v &&& mask ≠ 0) : ∃ pri, v &&& mask &&& irqMask n pri ≠ 0 := by
  by_contra hnone
  refine hv (BitVec.eq_of_getLsbD_eq fun i hi => ?_)
  rw [getLsbD_none, Bool.eq_false_iff]
  intro hbit
  have hboth := hbit
  rw [BitVec.getLsbD_and, Bool.and_eq_true] at hboth
  obtain ⟨pri, -, hin⟩ := (hmask i hi).mp hboth.2
  refine hnone ⟨pri, (and_irqMask_ne_zero h).mpr ⟨i - firstSlot (n pri) pri, ?_, ?_⟩⟩
  · have hge := hin.1
    have hlt := hin.2
    omega
  · rwa [Nat.add_sub_cancel' hin.1]

/-- The mask of a priority is met exactly if it is on, and one of its bits is set. -/
theorem and_and_irqMask_iff {p : Pri → Prop} {mask : BitVec 32} (h : Fits n)
    (hmask : ∀ i < 32, mask.getLsbD i = true ↔ ∃ pri, p pri ∧ InRange n pri i) :
    v &&& mask &&& irqMask n pri ≠ 0 ↔
      p pri ∧ ∃ i < n pri, v.getLsbD (firstSlot (n pri) pri + i) = true := by
  have hon : ∀ i < n pri, mask.getLsbD (firstSlot (n pri) pri + i) = true ↔ p pri := by
    intro i hi
    rw [hmask _ (h.lt (inRange_add hi))]
    constructor
    · rintro ⟨pri', hp, hin⟩
      rwa [h.eq (inRange_add hi) hin]
    · intro hp
      exact ⟨pri, hp, inRange_add hi⟩
  rw [and_irqMask_ne_zero h]
  constructor
  · rintro ⟨i, hi, hbit⟩
    rw [BitVec.getLsbD_and, Bool.and_eq_true] at hbit
    exact ⟨(hon i hi).mp hbit.2, i, hi, hbit.1⟩
  · rintro ⟨hp, i, hi, hbit⟩
    refine ⟨i, hi, ?_⟩
    rw [BitVec.getLsbD_and, Bool.and_eq_true]
    exact ⟨hbit, (hon i hi).mpr hp⟩

theorem Represents.ldoneMis_iff (h : Represents n hasTx hasRx s q) :
    s.bank.ldoneMis &&& irqMask n pri ≠ 0 ↔ hasTx = true ∧ q.Done pri := by
  have hmask : ∀ i < 32, s.bank.ldoneIntmask.getLsbD i = true ↔
      ∃ pri, hasTx = true ∧ InRange n pri i := fun i hi => by
    rw [h.ldoneMask i hi, exists_and_left]
  rw [Bank.ldoneMis, and_and_irqMask_iff (p := fun _ => hasTx = true) h.fits hmask,
    (h.tracks pri).exists_ldone_iff]
  rfl

theorem Represents.rmtMis_iff (h : Represents n hasTx hasRx s q) :
    s.bank.rmtMis &&& irqMask n pri ≠ 0 ↔ q.Pending pri := by
  rw [Bank.rmtMis, and_and_irqMask_iff (p := fun pri => q.enabled pri = true) h.fits h.rmtMask,
    (h.tracks pri).exists_rmt_iff]
  rfl

/-- The interrupt handler is about to call `tx_handler`, or has called it. -/
theorem Represents.setRunning (h : Represents n hasTx hasRx s q) {r : Option (Pri × Nat)}
    (hr : ∀ p, r = some p → hasTx = true ∧ 0 < n p.1 ∧ p.2 + 1 = (q.queue p.1).acked) :
    Represents n hasTx hasRx
      { s with running := r.map fun p => (p.1, slotAt n p.1 p.2) } { q with running := r } where
  fits := h.fits
  txNum := h.txNum
  rxNum := h.rxNum
  txIrqMask := h.txIrqMask
  rxIrqMask := h.rxIrqMask
  txHandler := h.txHandler
  rxHandler := h.rxHandler
  lerr := h.lerr
  tracks := fun pri => (h.tracks pri).congr
    ⟨rfl, rfl, rfl, rfl, fun _ _ => rfl, fun _ _ => rfl, fun _ _ => rfl⟩
  rmtMask := h.rmtMask
  ldoneMask := h.ldoneMask
  running := rfl
  position := hr

/-- What the done interrupt does. -/
theorem Represents.localIrq_eq (h : Represents n hasTx hasRx s q) (hrunning : q.running = none) :
    ∃ t, localIrq s = some (t, if hasTx then Queues.choose q.Done else none) ∧
      Represents n hasTx hasRx t
        (match (if hasTx then Queues.choose q.Done else none) with
          | some pri => q.acknowledge pri
          | none => q) := by
  have hlerr : ¬s.bank.lerrMis ≠ 0 := by
    rw [Bank.lerrMis, h.lerr]
    simp
  have hmask : ∀ i < 32, s.bank.ldoneIntmask.getLsbD i = true ↔
      ∃ pri, hasTx = true ∧ InRange n pri i := fun i hi => by
    rw [h.ldoneMask i hi, exists_and_left]
  rw [localIrq, if_neg hlerr]
  by_cases hzero : s.bank.ldoneMis = 0
  · have hnone : (if hasTx then Queues.choose q.Done else none) = none := by
      split_ifs with htx
      · refine Queues.choose_eq_none fun pri hdone => ?_
        exact h.ldoneMis_iff.mpr ⟨htx, hdone⟩ (by rw [hzero]; exact BitVec.zero_and)
      · rfl
    rw [if_pos hzero, hnone]
    exact ⟨s, rfl, h⟩
  · obtain ⟨pri, hpri⟩ := exists_and_irqMask (p := fun _ => hasTx = true) h.fits hmask hzero
    obtain ⟨htx, -⟩ := h.ldoneMis_iff.mp hpri
    have hchoose : priorityOf s.bank.ldoneMis s.txIrqMask = Queues.choose q.Done := by
      rw [h.txIrqMask]
      exact Queues.priorityOf_eq fun pri => by rw [h.ldoneMis_iff, eq_true htx, true_and]
    have hcond : ¬((!activeTxValid s .high || !activeTxValid s .normal) = true) := by
      rw [(h.tracks .high).activeTxValid, (h.tracks .normal).activeTxValid]
      exact Bool.false_ne_true
    obtain ⟨pri', hpri'⟩ : ∃ pri', Queues.choose q.Done = some pri' := by
      rw [← Option.ne_none_iff_exists']
      intro hnone
      exact Queues.not_of_choose_eq_none hnone pri (h.ldoneMis_iff.mp hpri).2
    have hdone : (q.queue pri').acked < (q.queue pri').taken := Queues.of_choose_eq_some hpri'
    have htracks := h.tracks pri'
    have hb := htracks.bounded
    have htaken := hb.taken_le
    have hn : 0 < n pri' := by
      have hle := hb.sent_le
      omega
    have hslot : s.activeTxSlot pri' = slotAt n pri' (q.queue pri').acked := by
      rw [htracks.activeTx, if_neg (by omega)]
    have hbit : s.bank.ldoneMis &&& bit (slotAt n pri' (q.queue pri').acked) ≠ 0 := by
      have hin := slotAt_inRange (k := (q.queue pri').acked) hn
      rw [and_bit_ne_zero, Bank.ldoneMis, BitVec.getLsbD_and, Bool.and_eq_true]
      exact ⟨(htracks.done_iff hn).mpr hdone, (hmask _ (h.fits.lt hin)).mpr ⟨pri', htx, hin⟩⟩
    have hack := h.ack hdone hrunning
    refine ⟨{ txDone s pri' (slotAt n pri' (q.queue pri').acked) with
      running := some (pri', slotAt n pri' (q.queue pri').acked) }, ?_, ?_⟩
    · rw [if_neg hzero, h.txHandler, if_pos htx, if_neg hcond, hchoose, if_pos htx, hpri']
      dsimp only
      rw [hslot, if_pos ⟨h.fits.slotAt_lt hn, hbit⟩]
    · rw [if_pos htx, hpri']
      refine hack.setRunning (r := some (pri', (q.queue pri').acked)) fun p hp => ?_
      obtain rfl := Option.some.inj hp
      rw [Queues.queue_setQueue_self]
      exact ⟨htx, hn, rfl⟩

/-! ### Receiving -/

/-- The interrupt of a priority is enabled. -/
theorem Represents.enableIrq (h : Represents n hasTx hasRx s q) :
    Represents n hasTx hasRx (enableIrq s pri) (q.setEnabled pri true) where
  fits := h.fits
  txNum := h.txNum
  rxNum := h.rxNum
  txIrqMask := h.txIrqMask
  rxIrqMask := h.rxIrqMask
  txHandler := h.txHandler
  rxHandler := h.rxHandler
  lerr := h.lerr
  tracks := fun pri' => (h.tracks pri').congr
    ⟨rfl, rfl, rfl, rfl, fun _ _ => rfl, fun _ _ => rfl, fun _ _ => rfl⟩
  rmtMask := by
    intro i hi
    change (s.bank.rmtIntmask ||| s.rxIrqMask pri).getLsbD i = true ↔ _
    rw [BitVec.getLsbD_or, Bool.or_eq_true, h.rmtMask i hi, h.rxIrqMask, getLsbD_irqMask h.fits hi]
    constructor
    · rintro (⟨pri', hen, hin⟩ | hin)
      · refine ⟨pri', ?_, hin⟩
        by_cases hne : pri' = pri
        · rw [hne, Queues.enabled_setEnabled_self]
        · rwa [Queues.enabled_setEnabled_of_ne q hne]
      · exact ⟨pri, Queues.enabled_setEnabled_self .., hin⟩
    · rintro ⟨pri', hen, hin⟩
      by_cases hne : pri' = pri
      · exact Or.inr (hne ▸ hin)
      · rw [Queues.enabled_setEnabled_of_ne q hne] at hen
        exact Or.inl ⟨pri', hen, hin⟩
  ldoneMask := h.ldoneMask
  running := h.running
  position := h.position

/-- The interrupt of a priority is disabled. -/
theorem Represents.disableIrq (h : Represents n hasTx hasRx s q) :
    Represents n hasTx hasRx
      { s with bank := { s.bank with rmtIntmask := s.bank.rmtIntmask &&& ~~~s.rxIrqMask pri } }
      (q.setEnabled pri false) where
  fits := h.fits
  txNum := h.txNum
  rxNum := h.rxNum
  txIrqMask := h.txIrqMask
  rxIrqMask := h.rxIrqMask
  txHandler := h.txHandler
  rxHandler := h.rxHandler
  lerr := h.lerr
  tracks := fun pri' => (h.tracks pri').congr
    ⟨rfl, rfl, rfl, rfl, fun _ _ => rfl, fun _ _ => rfl, fun _ _ => rfl⟩
  rmtMask := by
    intro i hi
    have hout : (~~~irqMask n pri).getLsbD i = true ↔ ¬InRange n pri i := by
      rw [BitVec.getLsbD_not, decide_eq_true hi, Bool.true_and, Bool.not_eq_true',
        ← getLsbD_irqMask h.fits hi, Bool.not_eq_true]
    change (s.bank.rmtIntmask &&& ~~~s.rxIrqMask pri).getLsbD i = true ↔ _
    rw [BitVec.getLsbD_and, Bool.and_eq_true, h.rmtMask i hi, h.rxIrqMask, hout]
    constructor
    · rintro ⟨⟨pri', hen, hin⟩, hout⟩
      have hne : pri' ≠ pri := by
        rintro rfl
        exact hout hin
      exact ⟨pri', by rwa [Queues.enabled_setEnabled_of_ne q hne], hin⟩
    · rintro ⟨pri', hen, hin⟩
      have hne : pri' ≠ pri := by
        rintro rfl
        rw [Queues.enabled_setEnabled_self] at hen
        exact Bool.noConfusion hen
      rw [Queues.enabled_setEnabled_of_ne q hne] at hen
      exact ⟨⟨pri', hen, hin⟩, fun hin' => hne (h.fits.eq hin hin')⟩
  ldoneMask := h.ldoneMask
  running := h.running
  position := h.position

/-- What the receive interrupt does. -/
theorem Represents.remoteIrq_eq (h : Represents n hasTx hasRx s q) :
    ∃ t, remoteIrq s = some (t, if hasRx then Queues.choose q.Pending else none) ∧
      Represents n hasTx hasRx t
        (match (if hasRx then Queues.choose q.Pending else none) with
          | some pri => q.setEnabled pri false
          | none => q) := by
  rw [remoteIrq]
  cases hasRx with
  | false =>
    rw [if_pos (by rw [h.rxHandler]; rfl)]
    exact ⟨s, rfl, h⟩
  | true =>
    have hguard : (!s.rxHandler || decide (s.bank.rmtMis = 0)) = decide (s.bank.rmtMis = 0) := by
      rw [h.rxHandler]
      rfl
    rw [if_pos rfl, hguard]
    by_cases hzero : s.bank.rmtMis = 0
    · have hnone : Queues.choose q.Pending = none := by
        refine Queues.choose_eq_none fun pri hpending => ?_
        exact h.rmtMis_iff.mpr hpending (by rw [hzero]; exact BitVec.zero_and)
      rw [if_pos (decide_eq_true hzero), hnone]
      exact ⟨s, rfl, h⟩
    · obtain ⟨pri, hpri⟩ :=
        exists_and_irqMask (p := fun pri => q.enabled pri = true) h.fits h.rmtMask hzero
      have hchoose : priorityOf s.bank.rmtMis s.rxIrqMask = Queues.choose q.Pending := by
        rw [h.rxIrqMask]
        exact Queues.priorityOf_eq fun pri => h.rmtMis_iff
      obtain ⟨pri', hpri'⟩ : ∃ pri', Queues.choose q.Pending = some pri' := by
        rw [← Option.ne_none_iff_exists']
        intro hnone
        exact Queues.not_of_choose_eq_none hnone pri (h.rmtMis_iff.mp hpri)
      obtain ⟨hen, hlt⟩ : q.Pending pri' := Queues.of_choose_eq_some hpri'
      have htracks := h.tracks pri'
      have hn : 0 < n pri' := by
        have hacked := htracks.bounded.acked_le
        have hle := htracks.bounded.sent_le
        omega
      have hbit : s.bank.rmtMis &&& bit (slotAt n pri' (q.queue pri').taken) ≠ 0 := by
        have hin := slotAt_inRange (k := (q.queue pri').taken) hn
        rw [and_bit_ne_zero, Bank.rmtMis, BitVec.getLsbD_and, Bool.and_eq_true]
        exact ⟨(htracks.receivable_iff hn).mpr hlt,
          (h.rmtMask _ (h.fits.lt hin)).mpr ⟨pri', hen, hin⟩⟩
      refine ⟨{ s with bank := { s.bank with
        rmtIntmask := s.bank.rmtIntmask &&& ~~~s.rxIrqMask pri' } }, ?_, ?_⟩
      · rw [if_neg (by simpa using hzero), hchoose, hpri']
        dsimp only
        rw [htracks.nextRx hn, if_pos ⟨h.fits.slotAt_lt hn, hbit⟩]
      · rw [hpri']
        exact h.disableIrq

theorem Represents.available_iff (h : Represents n hasTx hasRx s q) (hn : 0 < n pri) :
    available s (slotAt n pri (q.queue pri).taken) =
      decide ((q.queue pri).taken < (q.queue pri).sent.length) := by
  rw [available, decide_eq_true (h.fits.slotAt_lt hn), Bool.true_and, decide_eq_decide,
    and_bit_ne_zero]
  exact (h.tracks pri).receivable_iff hn

/-- The receiver clears the slot of a message that it has read. -/
theorem Represents.take (h : Represents n hasTx hasRx s q) (hn : 0 < n pri)
    (hlt : (q.queue pri).taken < (q.queue pri).sent.length) :
    Represents n hasTx hasRx
      { s with
        bank := s.bank.rmtIntclr (bit (slotAt n pri (q.queue pri).taken))
        nextRxSlot :=
          Function.update s.nextRxSlot pri (slotAt n pri ((q.queue pri).taken + 1)) }
      (q.setQueue pri (q.queue pri).take) := by
  have htracks := h.tracks pri
  have hb := htracks.bounded
  have hacked := hb.acked_le
  have hsent := hb.sent_le
  have hset := (htracks.receivable_iff hn).mpr hlt
  refine h.setQueue ⟨rfl, rfl, rfl, rfl, rfl, rfl, rfl, rfl, rfl, rfl⟩ ?_ ?_ fun _ => rfl
  · refine ⟨hb.take hlt, htracks.nextTx, htracks.activeTx, htracks.full,
      fun _ => Function.update_self .., ?_, ?_, htracks.slots⟩
    · refine htracks.rmt.clear (by omega) fun i hi => ?_
      have hi' := h.fits.lt (inRange_add hi)
      change (s.bank.rmtRis &&& ~~~bit (slotAt n pri (q.queue pri).taken)).getLsbD _ = _
      rw [getLsbD_and_not_bit hi', decide_eq_decide.mpr firstSlot_add_eq_iff]
    · refine htracks.ldone.set hacked fun i hi => ?_
      have hi' := h.fits.lt (inRange_add hi)
      change (s.bank.ldoneRis |||
        (s.bank.rmtRis &&& bit (slotAt n pri (q.queue pri).taken))).getLsbD _ = _
      rw [BitVec.getLsbD_or, BitVec.getLsbD_and, getLsbD_bit, decide_eq_true hi', Bool.true_and,
        decide_eq_decide.mpr firstSlot_add_eq_iff, Bool.or_comm]
      congr 1
      by_cases hslot : i = (q.queue pri).taken % n pri
      · rw [firstSlot_add_eq_iff.mpr hslot, hset, Bool.true_and]
      · rw [decide_eq_false hslot, Bool.and_false]
  · intro pri' hne
    refine ⟨rfl, rfl, rfl, Function.update_of_ne hne .., fun i hi => ?_, fun i hi => ?_,
      fun _ _ => rfl⟩
    · change (s.bank.rmtRis &&& ~~~bit (slotAt n pri (q.queue pri).taken)).getLsbD i = _
      rw [getLsbD_and_not_bit (h.fits.lt hi), decide_eq_false (h.fits.slot_ne hne hn hi),
        Bool.not_false, Bool.true_and]
    · change (s.bank.ldoneRis |||
        (s.bank.rmtRis &&& bit (slotAt n pri (q.queue pri).taken))).getLsbD i = _
      rw [BitVec.getLsbD_or, BitVec.getLsbD_and, getLsbD_bit,
        decide_eq_false (h.fits.slot_ne hne hn hi), Bool.and_false, Bool.and_false, Bool.or_false]

/-- What `hal_transq_rx_first` and the end of `hal_transq_rx_next` find in the receiver's slot. -/
theorem Represents.first (h : Represents n hasTx hasRx s q) (hn : 0 < n pri) :
    let t := if available s (slotAt n pri (q.queue pri).taken) then
        (s, Ret.ok, s.bank.slots (slotAt n pri (q.queue pri).taken))
      else (Transq.enableIrq s pri, .rxEmpty, .none)
    Answer.msg t.2.1 t.2.2 = (q.first pri).2 ∧ Represents n hasTx hasRx t.1 (q.first pri).1 := by
  have htracks := h.tracks pri
  have hb := htracks.bounded
  rw [h.available_iff hn]
  by_cases hlt : (q.queue pri).taken < (q.queue pri).sent.length
  · have hget := List.getElem?_eq_getElem hlt
    have hle : (q.queue pri).sent.length ≤ (q.queue pri).taken + n pri := by
      have hacked := hb.acked_le
      have hsent := hb.sent_le
      omega
    rw [if_pos (decide_eq_true hlt), Queues.first, hget, htracks.slot_eq hget hle]
    exact ⟨rfl, h⟩
  · rw [if_neg (by simpa using hlt), Queues.first,
      List.getElem?_eq_none (Nat.le_of_not_lt hlt)]
    exact ⟨rfl, h.enableIrq⟩

end EarbudFirmware.Transq
