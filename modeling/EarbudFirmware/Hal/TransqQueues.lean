import EarbudFirmware.Hal.Transq
import EarbudFirmware.Lib.AckedQueue
import EarbudFirmware.Lib.RingMarks
import EarbudFirmware.Lib.Simulation
import Mathlib.Tactic.SplitIfs

/-!
# The queues of a bank

What `hal_transq.c` is for: a bounded queue of messages for each priority, from whose sender a place
is taken until it was told that the message was cleared. Whatever the order of the calls and the
interrupts of both cores, the link answers like the queues.

## Main definitions

* `Call`, `Answer`, `call` — the link as a machine that answers calls
* `Queues`, `Queues.call` — the queues as such a machine
* `Represents` — the registers and the variables of the cores stand for the queues

## Main results

* `and_irqMask_ne_zero`, `getNextSlot_slotAt` — the masks and the slots of a priority
* `Tracks.exists_ldone_iff`, `Tracks.exists_rmt_iff` — the registers show what is waiting
* `Tracks.activeTxValid` — the check of the sender's variables passes
-/

namespace EarbudFirmware.Transq

/-- The calls and the interrupts of both cores. -/
inductive Call
  | tx (pri : Pri) (msg : Msg)
  | getTxStatus (pri : Pri)
  | localIrq
  | callTxHandler
  | rxFirst (pri : Pri)
  | rxNext (pri : Pri)
  | getRxStatus (pri : Pri)
  | remoteIrq

/-- What is seen of a call. -/
inductive Answer
  | ret (r : Ret)
  | status (r : Ret) (set : Bool)
  | msg (r : Ret) (m : Msg)
  | irq (pri? : Option Pri)
  | handler (arg? : Option (Pri × Msg))
  | assertion

/-- The answer to a call that may fail an assertion. -/
def orAssertion (s : Link) : Option (Link × Answer) → Link × Answer
  | some t => t
  | none => (s, .assertion)

/-- One call or interrupt. The interrupt handler does not start again before it has called
`tx_handler`. -/
def call (s : Link) : Call → Link × Answer
  | .tx pri msg => ((tx s pri msg).1, .ret (tx s pri msg).2)
  | .getTxStatus pri =>
    orAssertion s ((getTxStatus s pri).map fun t => (t.1, .status t.2.1 t.2.2))
  | .localIrq =>
    if s.running.isSome then (s, .irq none)
    else orAssertion s ((localIrq s).map fun t => (t.1, .irq t.2))
  | .callTxHandler => ((callTxHandler s).1, .handler (callTxHandler s).2)
  | .rxFirst pri => ((rxFirst s pri).1, .msg (rxFirst s pri).2.1 (rxFirst s pri).2.2)
  | .rxNext pri => ((rxNext s pri).1, .msg (rxNext s pri).2.1 (rxNext s pri).2.2)
  | .getRxStatus pri => (s, .status (getRxStatus s pri).1 (getRxStatus s pri).2)
  | .remoteIrq => orAssertion s ((remoteIrq s).map fun t => (t.1, .irq t.2))

/-! ### The queues -/

/-- A queue for each priority; whether its interrupt is enabled; and the position of the message
with which `tx_handler` is about to be called. -/
structure Queues where
  queue : Pri → AckedQueue Msg
  enabled : Pri → Bool
  running : Option (Pri × Nat)

namespace Queues

/-- Nothing has been sent. -/
def empty : Queues := ⟨fun _ => .empty, fun _ => true, none⟩

/-- The queue of a priority is changed. -/
def setQueue (q : Queues) (pri : Pri) (a : AckedQueue Msg) : Queues :=
  { q with queue := Function.update q.queue pri a }

/-- The interrupt of a priority is enabled or disabled. -/
def setEnabled (q : Queues) (pri : Pri) (b : Bool) : Queues :=
  { q with enabled := Function.update q.enabled pri b }

theorem queue_setQueue_self (q : Queues) (pri : Pri) (a : AckedQueue Msg) :
    (q.setQueue pri a).queue pri = a := Function.update_self ..

theorem queue_setQueue_of_ne (q : Queues) {pri pri' : Pri} (h : pri' ≠ pri)
    (a : AckedQueue Msg) : (q.setQueue pri a).queue pri' = q.queue pri' :=
  Function.update_of_ne h ..

theorem enabled_setEnabled_self (q : Queues) (pri : Pri) (b : Bool) :
    (q.setEnabled pri b).enabled pri = b := Function.update_self ..

theorem enabled_setEnabled_of_ne (q : Queues) {pri pri' : Pri} (h : pri' ≠ pri) (b : Bool) :
    (q.setEnabled pri b).enabled pri' = q.enabled pri' := Function.update_of_ne h ..

/-- The message at a position, or that which was sent a whole circle later. -/
def latest (n : Nat) (a : AckedQueue Msg) (k : Nat) : Msg :=
  a.sent.getD (if a.sent.length ≤ k + n then k else k + n) .none

/-- The messages taken, but not acknowledged. -/
def Done (q : Queues) (pri : Pri) : Prop := (q.queue pri).acked < (q.queue pri).taken

instance (q : Queues) (pri : Pri) : Decidable (q.Done pri) := inferInstanceAs (Decidable (_ < _))

/-- There is a message to be received, and its interrupt is enabled. -/
def Pending (q : Queues) (pri : Pri) : Prop :=
  q.enabled pri = true ∧ (q.queue pri).taken < (q.queue pri).sent.length

instance (q : Queues) (pri : Pri) : Decidable (q.Pending pri) :=
  inferInstanceAs (Decidable (_ ∧ _))

/-- The high priority comes first. -/
def choose (p : Pri → Prop) [∀ pri, Decidable (p pri)] : Option Pri :=
  if p .high then some .high else if p .normal then some .normal else none

theorem of_choose_eq_some {p : Pri → Prop} [∀ pri, Decidable (p pri)] {pri : Pri}
    (h : choose p = some pri) : p pri := by
  unfold choose at h
  split_ifs at h with hhigh hnormal
  · exact Option.some.inj h ▸ hhigh
  · exact Option.some.inj h ▸ hnormal

theorem choose_eq_none {p : Pri → Prop} [∀ pri, Decidable (p pri)] (h : ∀ pri, ¬p pri) :
    choose p = none := by
  rw [choose, if_neg (h .high), if_neg (h .normal)]

theorem not_of_choose_eq_none {p : Pri → Prop} [∀ pri, Decidable (p pri)]
    (h : choose p = none) (pri : Pri) : ¬p pri := by
  unfold choose at h
  split_ifs at h with hhigh hnormal
  cases pri
  · exact hnormal
  · exact hhigh

theorem priorityOf_eq {p : Pri → Prop} [∀ pri, Decidable (p pri)] {status : BitVec 32}
    {mask : Pri → BitVec 32} (h : ∀ pri, status &&& mask pri ≠ 0 ↔ p pri) :
    priorityOf status mask = choose p := by
  unfold priorityOf choose
  simp only [h]

/-- A message is acknowledged, and `tx_handler` will be called with it. -/
def acknowledge (q : Queues) (pri : Pri) : Queues :=
  { q.setQueue pri (q.queue pri).ack with running := some (pri, (q.queue pri).acked) }

/-- What is received first, and whether the interrupt is enabled again. -/
def first (q : Queues) (pri : Pri) : Queues × Answer :=
  match (q.queue pri).sent[(q.queue pri).taken]? with
  | some m => (q, .msg .ok m)
  | none => (q.setEnabled pri true, .msg .rxEmpty .none)

/-- The queues as a machine, for `n` slots of each priority and the handlers that there are. -/
def call (n : Pri → Nat) (hasTx hasRx : Bool) (q : Queues) : Call → Queues × Answer
  | .tx pri msg =>
    if n pri = 0 then (q, .ret .badTxNum)
    else if (q.queue pri).Full (n pri) then (q, .ret .txFull)
    else (q.setQueue pri ((q.queue pri).send msg), .ret .ok)
  | .getTxStatus pri =>
    if n pri = 0 then (q, .status .badTxNum false)
    else if hasTx then (q, .status .badMode false)
    else if q.Done pri then (q.setQueue pri (q.queue pri).ack, .status .ok true)
    else (q, .status .ok false)
  | .localIrq =>
    if q.running.isSome || !hasTx then (q, .irq none)
    else
      match choose q.Done with
      | some pri => (q.acknowledge pri, .irq (some pri))
      | none => (q, .irq none)
  | .callTxHandler =>
    match q.running with
    | some (pri, k) =>
      ({ q with running := none }, .handler (some (pri, latest (n pri) (q.queue pri) k)))
    | none => (q, .handler none)
  | .rxFirst pri => if n pri = 0 then (q, .msg .badRxNum .none) else q.first pri
  | .rxNext pri =>
    if n pri = 0 then (q, .msg .badRxNum .none)
    else if (q.queue pri).taken < (q.queue pri).sent.length then
      (q.setQueue pri (q.queue pri).take).first pri
    else (q.setEnabled pri true, .msg .rxEmpty .none)
  | .getRxStatus pri =>
    if n pri = 0 then (q, .status .badRxNum false)
    else if hasRx then (q, .status .badMode false)
    else (q, .status .ok (decide ((q.queue pri).taken < (q.queue pri).sent.length)))
  | .remoteIrq =>
    if hasRx then
      match choose q.Pending with
      | some pri => (q.setEnabled pri false, .irq (some pri))
      | none => (q, .irq none)
    else (q, .irq none)

end Queues

/-! ### Bits and slots -/

variable {n : Pri → Nat} {pri pri' : Pri} {i k slot : Nat} {v : BitVec 32}

theorem getLsbD_none : (0 : BitVec 32).getLsbD i = false := BitVec.getLsbD_zero

theorem getLsbD_bit : (bit slot).getLsbD i = (decide (i < 32) && decide (i = slot)) := by
  rw [bit, BitVec.getLsbD_shiftLeft, BitVec.getLsbD_one]
  by_cases hi : i < 32 <;> by_cases hs : i < slot <;> simp [hi, hs] <;> omega

theorem and_bit_ne_zero : v &&& bit slot ≠ 0 ↔ v.getLsbD slot = true := by
  constructor
  · intro h
    by_contra hs
    refine h (BitVec.eq_of_getLsbD_eq fun i hi => ?_)
    rw [BitVec.getLsbD_and, getLsbD_bit]
    by_cases his : i = slot
    · subst his
      simp [hs]
    · simp [his]
  · intro h hz
    have hlt : slot < 32 := by
      by_contra hge
      rw [BitVec.getLsbD_of_ge v slot (by omega)] at h
      exact Bool.false_ne_true h
    have hbit : (v &&& bit slot).getLsbD slot = false := by rw [hz, getLsbD_none]
    rw [BitVec.getLsbD_and, getLsbD_bit, h] at hbit
    simp [hlt] at hbit

/-- The slots of a priority. -/
def InRange (n : Pri → Nat) (pri : Pri) (i : Nat) : Prop :=
  firstSlot (n pri) pri ≤ i ∧ i < firstSlot (n pri) pri + n pri

/-- The slots of the priorities fit into the bank. -/
def Fits (n : Pri → Nat) : Prop := n .normal + n .high ≤ transqSlotNum

theorem Fits.le (h : Fits n) (pri : Pri) : n pri ≤ 32 := by
  have hle : n .normal + n .high ≤ 32 := h
  cases pri <;> omega

theorem Fits.lt (h : Fits n) (hi : InRange n pri i) : i < 32 := by
  have hle := h.le pri
  obtain ⟨-, hlt⟩ := hi
  cases pri <;> simp only [firstSlot, transqSlotNum] at hlt <;> omega

/-- A slot belongs to one priority. -/
theorem Fits.eq (h : Fits n) (hi : InRange n pri i) (hi' : InRange n pri' i) : pri = pri' := by
  have hle : n .normal + n .high ≤ 32 := h
  obtain ⟨hge, hlt⟩ := hi
  obtain ⟨hge', hlt'⟩ := hi'
  cases pri <;> cases pri' <;> simp only [firstSlot, transqSlotNum] at hge hlt hge' hlt' <;>
    first | rfl | omega

theorem getLsbD_foldl_bit (l : List Nat) (hi : i < 32) :
    (l.foldl (fun result j => result ||| bit j) v).getLsbD i = true ↔
      v.getLsbD i = true ∨ i ∈ l := by
  induction l generalizing v with
  | nil => simp
  | cons j l ih =>
    rw [List.foldl_cons, ih, BitVec.getLsbD_or, getLsbD_bit, List.mem_cons]
    simp [hi, or_assoc]

/-- The mask of a priority has the bits of its slots. -/
theorem getLsbD_irqMask (h : Fits n) (hi : i < 32) :
    (irqMask n pri).getLsbD i = true ↔ InRange n pri i := by
  have hle := h.le pri
  rw [irqMask, constructMask, InRange]
  split_ifs with hempty
  · refine iff_of_false (by simp) ?_
    cases pri <;> simp only [firstSlot, transqSlotNum] at hempty ⊢ <;> omega
  · rw [getLsbD_foldl_bit _ hi, List.mem_range'_1]
    simp

/-- The mask of a priority meets the bits that are set in its slots. -/
theorem and_irqMask_ne_zero (h : Fits n) :
    v &&& irqMask n pri ≠ 0 ↔ ∃ i < n pri, v.getLsbD (firstSlot (n pri) pri + i) = true := by
  constructor
  · intro hne
    by_contra hnone
    refine hne (BitVec.eq_of_getLsbD_eq fun i hi => ?_)
    rw [BitVec.getLsbD_and, getLsbD_none, Bool.eq_false_iff, Ne, Bool.and_eq_true,
      getLsbD_irqMask h hi]
    rintro ⟨hv, hge, hlt⟩
    refine hnone ⟨i - firstSlot (n pri) pri, by omega, ?_⟩
    rwa [Nat.add_sub_cancel' hge]
  · rintro ⟨i, hi, hv⟩ hz
    have hin : InRange n pri (firstSlot (n pri) pri + i) := ⟨by omega, by omega⟩
    have hmask := (getLsbD_irqMask h (h.lt hin)).mpr hin
    have hbit : (v &&& irqMask n pri).getLsbD (firstSlot (n pri) pri + i) = false := by
      rw [hz, getLsbD_none]
    rw [BitVec.getLsbD_and, hv, hmask] at hbit
    exact Bool.noConfusion hbit

/-- The slot of a position. -/
def slotAt (n : Pri → Nat) (pri : Pri) (k : Nat) : Nat := firstSlot (n pri) pri + k % n pri

theorem slotAt_inRange (hn : 0 < n pri) : InRange n pri (slotAt n pri k) :=
  ⟨Nat.le_add_right _ _, Nat.add_lt_add_left (Nat.mod_lt k hn) _⟩

/-- The next slot is that of the next position. -/
theorem getNextSlot_slotAt (h : Fits n) (hn : 0 < n pri) :
    getNextSlot (n pri) pri (slotAt n pri k) = slotAt n pri (k + 1) := by
  have hle := h.le pri
  have hlt := Nat.mod_lt k hn
  have hmod : (k + 1) % n pri = (k % n pri + 1) % n pri := (Nat.mod_add_mod k _ 1).symm
  unfold slotAt
  rw [hmod]
  generalize k % n pri = m at hlt
  rcases Nat.lt_or_ge (m + 1) (n pri) with hin | hround
  · rw [Nat.mod_eq_of_lt hin]
    cases pri with
    | normal =>
      change (if n .normal ≤ 0 + m + 1 then 0 else 0 + m + 1) = _
      rw [if_neg (by omega)]
      rfl
    | high =>
      change (if 32 ≤ 32 - n .high + m + 1 then 32 - n .high else 32 - n .high + m + 1) = _
      rw [if_neg (by omega)]
      rfl
  · have hend : m + 1 = n pri := by omega
    rw [hend, Nat.mod_self]
    cases pri with
    | normal =>
      change (if n .normal ≤ 0 + m + 1 then 0 else 0 + m + 1) = _
      rw [if_pos (by omega)]
      rfl
    | high =>
      change (if 32 ≤ 32 - n .high + m + 1 then 32 - n .high else 32 - n .high + m + 1) = _
      rw [if_pos (by omega)]
      rfl

/-- Positions less than a circle apart have different slots. -/
theorem slotAt_ne {k' : Nat} (hlt : k < k') (hle : k' < k + n pri) :
    slotAt n pri k ≠ slotAt n pri k' := by
  intro heq
  have hround := Ring.add_size_le_of_mod (Nat.add_left_cancel heq) hlt
  omega

/-! ### What the registers stand for -/

/-- The registers and the variables of one priority stand for its queue. -/
structure Tracks (n : Pri → Nat) (s : Link) (pri : Pri) (a : AckedQueue Msg) : Prop where
  bounded : a.Bounded (n pri)
  nextTx : 0 < n pri → s.nextTxSlot pri = slotAt n pri a.sent.length
  activeTx : s.activeTxSlot pri =
    if a.acked = a.sent.length then transqSlotNum else slotAt n pri a.acked
  full : 0 < n pri → (s.txSlotFull pri = true ↔ a.Full (n pri))
  nextRx : 0 < n pri → s.nextRxSlot pri = slotAt n pri a.taken
  rmt : Ring.Marks (fun i => s.bank.rmtRis.getLsbD (firstSlot (n pri) pri + i)) (n pri)
    a.taken a.sent.length
  ldone : Ring.Marks (fun i => s.bank.ldoneRis.getLsbD (firstSlot (n pri) pri + i)) (n pri)
    a.acked a.taken
  slots : Ring.Newest (fun i => s.bank.slots (firstSlot (n pri) pri + i)) (n pri) a.sent

/-- The link is open, with `n` slots of each priority and the handlers that there are, and stands
for the queues. -/
structure Represents (n : Pri → Nat) (hasTx hasRx : Bool) (s : Link) (q : Queues) :
    Prop where
  fits : Fits n
  txNum : s.txNum = n
  rxNum : s.rxNum = n
  txIrqMask : s.txIrqMask = irqMask n
  rxIrqMask : s.rxIrqMask = irqMask n
  txHandler : s.txHandler = hasTx
  rxHandler : s.rxHandler = hasRx
  lerr : s.bank.lerrRis = 0
  tracks : ∀ pri, Tracks n s pri (q.queue pri)
  rmtMask : ∀ i < 32, s.bank.rmtIntmask.getLsbD i = true ↔
    ∃ pri, q.enabled pri = true ∧ InRange n pri i
  ldoneMask : ∀ i < 32, s.bank.ldoneIntmask.getLsbD i = true ↔
    hasTx = true ∧ ∃ pri, InRange n pri i
  running : s.running = q.running.map fun r => (r.1, slotAt n r.1 r.2)
  position : ∀ r, q.running = some r →
    hasTx = true ∧ 0 < n r.1 ∧ r.2 + 1 = (q.queue r.1).acked

variable {hasTx hasRx : Bool} {s t : Link} {q : Queues} {a : AckedQueue Msg} {msg : Msg}

/-- The registers and the variables of a priority are the same. -/
structure SameFor (n : Pri → Nat) (pri : Pri) (s t : Link) : Prop where
  nextTx : t.nextTxSlot pri = s.nextTxSlot pri
  activeTx : t.activeTxSlot pri = s.activeTxSlot pri
  full : t.txSlotFull pri = s.txSlotFull pri
  nextRx : t.nextRxSlot pri = s.nextRxSlot pri
  rmt : ∀ i, InRange n pri i → t.bank.rmtRis.getLsbD i = s.bank.rmtRis.getLsbD i
  ldone : ∀ i, InRange n pri i → t.bank.ldoneRis.getLsbD i = s.bank.ldoneRis.getLsbD i
  slots : ∀ i, InRange n pri i → t.bank.slots i = s.bank.slots i

theorem inRange_add (hi : i < n pri) : InRange n pri (firstSlot (n pri) pri + i) :=
  ⟨Nat.le_add_right _ _, Nat.add_lt_add_left hi _⟩

theorem Tracks.congr (h : Tracks n s pri a) (hsame : SameFor n pri s t) : Tracks n t pri a where
  bounded := h.bounded
  nextTx := fun hn => hsame.nextTx.trans (h.nextTx hn)
  activeTx := hsame.activeTx.trans h.activeTx
  full := fun hn => by rw [hsame.full]; exact h.full hn
  nextRx := fun hn => hsame.nextRx.trans (h.nextRx hn)
  rmt := h.rmt.congr fun _ hi => hsame.rmt _ (inRange_add hi)
  ldone := h.ldone.congr fun _ hi => hsame.ldone _ (inRange_add hi)
  slots := by
    intro k m hk hlen
    have hpos : 0 < n pri := by
      obtain ⟨hlt, -⟩ := List.getElem?_eq_some_iff.mp hk
      omega
    have hkept := hsame.slots _ (inRange_add (Nat.mod_lt k hpos))
    exact hkept.trans (h.slots k m hk hlen)

/-- There is something to receive exactly if the receiver's slot has its bit. -/
theorem Tracks.receivable_iff (h : Tracks n s pri a) (hn : 0 < n pri) :
    s.bank.rmtRis.getLsbD (slotAt n pri a.taken) = true ↔ a.taken < a.sent.length :=
  h.rmt.first hn

/-- The sender's oldest slot is done exactly if a message was taken that it does not know of. -/
theorem Tracks.done_iff (h : Tracks n s pri a) (hn : 0 < n pri) :
    s.bank.ldoneRis.getLsbD (slotAt n pri a.acked) = true ↔ a.acked < a.taken :=
  h.ldone.first hn

/-- The message at a position that was not overtaken is in its slot. -/
theorem Tracks.slot_eq (h : Tracks n s pri a) {m : Msg} (hk : a.sent[k]? = some m)
    (hle : a.sent.length ≤ k + n pri) : s.bank.slots (slotAt n pri k) = m :=
  h.slots k m hk hle

/-- Some slot is done exactly if a message was taken that the sender does not know of. -/
theorem Tracks.exists_ldone_iff (h : Tracks n s pri a) :
    (∃ i < n pri, s.bank.ldoneRis.getLsbD (firstSlot (n pri) pri + i) = true) ↔
      a.acked < a.taken := by
  rcases Nat.eq_zero_or_pos (n pri) with hn | hn
  · obtain ⟨-, htaken⟩ := AckedQueue.Bounded.eq_empty (hn ▸ h.bounded)
    refine iff_of_false ?_ (by omega)
    rintro ⟨i, hi, -⟩
    omega
  · exact h.ldone.exists_iff hn

/-- Some slot is active exactly if there is something to receive. -/
theorem Tracks.exists_rmt_iff (h : Tracks n s pri a) :
    (∃ i < n pri, s.bank.rmtRis.getLsbD (firstSlot (n pri) pri + i) = true) ↔
      a.taken < a.sent.length := by
  rcases Nat.eq_zero_or_pos (n pri) with hn | hn
  · obtain ⟨hsent, htaken⟩ := AckedQueue.Bounded.eq_empty (hn ▸ h.bounded)
    refine iff_of_false ?_ (by omega)
    rintro ⟨i, hi, -⟩
    omega
  · exact h.rmt.exists_iff hn

/-- The sender's variables pass their check. -/
theorem Tracks.activeTxValid (h : Tracks n s pri a) : activeTxValid s pri = true := by
  have hb := h.bounded
  rw [Transq.activeTxValid, h.activeTx]
  by_cases hidle : a.acked = a.sent.length
  · rw [if_pos hidle, decide_eq_true (Nat.le_refl transqSlotNum), Bool.true_or, Bool.true_or]
  · have hlt : a.acked < a.sent.length := by
      have hacked := hb.acked_le
      have htaken := hb.taken_le
      omega
    have hn : 0 < n pri := by
      have hle := hb.sent_le
      omega
    rw [if_neg hidle]
    by_cases hfull : a.Full (n pri)
    · rw [(h.full hn).mpr hfull, Bool.or_true]
    · have hne : slotAt n pri a.acked ≠ s.nextTxSlot pri := by
        rw [h.nextTx hn]
        exact slotAt_ne hlt (Nat.lt_of_le_of_ne hb.sent_le hfull)
      rw [decide_eq_true hne, Bool.or_true, Bool.true_or]

end EarbudFirmware.Transq
