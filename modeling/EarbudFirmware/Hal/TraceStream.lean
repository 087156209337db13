import EarbudFirmware.Hal.TraceTransfer
import EarbudFirmware.Lib.Transition
import EarbudFirmware.Utils.Bytes
import EarbudFirmware.Utils.Kfifo
import Mathlib.Data.Nat.Digits.Lemmas

/-!
# The trace ring sends each message once

The notes and the accepted messages are a stream. The ring holds the newest bytes of it, byte `k`
at `k % bufSize`, and the UART has been handed a prefix of it. The bytes between the two are those
between `rptr` and `wptr`, without the ones that the transfer under way has handed over.

## Main definitions

* `TraceHistory` — a trace with the stream and what the UART has been handed
* `SendsOnce` — what an event has to keep
* `Steady` — the events that keep it

## Main results

* `sendsOnce_along` — histories of steady events keep it
* `not_sendsOnce` — histories that do not
-/

namespace EarbudFirmware.HalTrace

open NorMemory (Content)
open Transition (Along)

/-- A number in decimal digits. -/
def decimal (n : Nat) : List UInt8 := (Nat.digits 10 n).reverse.map fun d => (d + 0x30).toUInt8

/-- The note that so many messages have been rejected, if any. -/
def TraceBuild.note (b : TraceBuild) (rejected : Nat) : List UInt8 :=
  if rejected = 0 then [] else b.discardsPrefix ++ decimal rejected ++ b.newLineStr

namespace Trace

variable (b : TraceBuild) (t : Trace)

/-- The bytes in the ring that have not been handed over. -/
def unsent : List UInt8 := (Ring.cells t.buf b.bufSize t.rptr (t.used b)).drop t.moved

/-- A message is rejected. -/
def Rejects (msg : List UInt8) : Prop := t.avail b < t.outLen b msg

instance (msg : List UInt8) : Decidable (t.Rejects b msg) := inferInstanceAs (Decidable (_ < _))

end Trace

/-- A trace, the bytes that the UART has been handed, the notes and accepted messages in call order,
and the number of messages rejected since the last accepted one. -/
structure TraceHistory where
  t : Trace
  handed : List UInt8
  written : List UInt8
  rejected : Nat

namespace TraceHistory

variable (b : TraceBuild) (h : TraceHistory)

/-- The stream behind an event. -/
def writtenWith : TraceEvent → List UInt8
  | .output msg =>
    if h.t.Rejects b msg then h.written else h.written ++ (b.note h.rejected ++ msg)
  | _ => h.written

/-- The messages rejected since the last accepted one, behind an event. -/
def rejectedWith : TraceEvent → Nat
  | .output msg => if h.t.Rejects b msg then h.rejected + 1 else 0
  | _ => h.rejected

/-- One event. -/
def step (e : TraceEvent) : Option TraceHistory :=
  (h.t.step b e).map fun r => ⟨r.1, h.handed ++ r.2, h.writtenWith b e, h.rejectedWith b e⟩

end TraceHistory

/-- The pointers are in the buffer. What the UART has been handed and what waits in the ring are the
notes and the accepted messages, and the history is the end of them. -/
structure Exact (b : TraceBuild) (h : TraceHistory) : Prop where
  rptr_lt : h.t.rptr < b.bufSize
  wptr_lt : h.t.wptr < b.bufSize
  stream : h.handed ++ h.t.unsent b = h.written
  history : h.t.historyBytes b = h.written.drop (h.written.length - b.bufSize)

/-- The calls and interrupts that start a transfer. -/
def TraceHistory.Starts (b : TraceBuild) (h : TraceHistory) : TraceEvent → Prop
  | .output msg => ¬h.t.Rejects b msg
  | .irq => True
  | .resume => h.t.pauseCnt ≠ 0
  | _ => False

/-- What an event has to keep: the history is exact, and what has been accepted is on its way unless
the output is paused. -/
def SendsOnce (b : TraceBuild) (h : TraceHistory) (e : TraceEvent) : Prop :=
  ∀ h', h.step b e = some h' → Exact b h' ∧
    (h.Starts b e → h'.t.pauseCnt = 0 → h'.t.sending = true ∨ h'.t.unsent b = [])

/-- A transfer that is stopped has handed over half of its bytes, and the sum with `rptr` has 16
bits. -/
def SteadyStop (t : Trace) : Prop :=
  t.ch.enabled = true → 2 * t.moved = t.sends0 + t.sends1 ∧ t.rptr + t.moved < 0x10000

/-- The sums of `wptr` with the lengths of an accepted message and its note have 16 bits, and the
note does not fill the ring for the first time; the count of rejected messages does not reach its
end. The sum of `rptr` with what a transfer has handed over has 16 bits, and transfers are stopped
half way. -/
def Steady (b : TraceBuild) (h : TraceHistory) : TraceEvent → Prop
  | .output msg =>
    msg.length < 0x10000 ∧
      if h.t.Rejects b msg then h.t.discards < 0xFFFF
      else
        let len := (b.note h.t.discards).length
        h.t.wptr + len < 0x10000 ∧ (h.t.wptr + len) % b.bufSize + msg.length < 0x10000 ∧
          (0 < len → b.bufSize ≤ h.t.wptr + len → h.t.wrapped = true)
  | .irq => h.t.rptr + h.t.moved < 0x10000
  | .stop => SteadyStop h.t
  | .pause => h.t.pauseCnt = 0 → SteadyStop h.t
  | _ => True

/-! ### Notes -/

theorem printDigits_eq {room n : Nat} (hpos : 0 < n) (hn : n < 10 ^ room) :
    printDigits room n = (Nat.digits 10 n).map fun d => (d + 0x30).toUInt8 := by
  induction room generalizing n with
  | zero => exact absurd hpos (by omega)
  | succ room ih =>
    rw [printDigits, Nat.digits_def' (by decide) hpos, List.map_cons]
    congr 1
    split_ifs with hlast
    · rw [hlast, Nat.digits_zero, List.map_nil]
    · refine ih (Nat.pos_of_ne_zero hlast) (Nat.div_lt_of_lt_mul ?_)
      rwa [Nat.pow_succ'] at hn

/-- Up to five digits are printed. -/
theorem printUnsigned_eq {n : Nat} (hpos : 0 < n) (hn : n ≤ maxDiscards) :
    printUnsigned 5 n = decimal n := by
  have hlen : (Nat.digits 10 n).length ≤ 5 :=
    Nat.digits_length_le_iff (by decide) n |>.2 (Nat.lt_succ_of_le hn)
  rw [printUnsigned, printDigits_eq hpos (Nat.lt_of_le_of_lt hn (by decide)), ← List.map_reverse,
    List.take_of_length_le (by rwa [List.length_map, List.length_reverse]), decimal]

/-- The code prints the note. -/
theorem discardsNote_eq {b : TraceBuild} {n : Nat} (hpos : 0 < n) (hn : n ≤ 0xFFFF) :
    b.discardsNote n = b.note n := by
  have hmax : n ≤ maxDiscards := Nat.le_trans hn (by decide)
  rw [TraceBuild.discardsNote, Nat.min_eq_left hmax, printUnsigned_eq hpos hmax, TraceBuild.note,
    if_neg (Nat.pos_iff_ne_zero.1 hpos)]

/-- There is room for the note. -/
theorem length_note_le {b : TraceBuild} {n : Nat} (hn : n ≤ 0xFFFF) :
    (b.note n).length ≤ b.discardsBufSize := by
  rw [TraceBuild.note]
  split_ifs with hzero
  · exact Nat.zero_le _
  · have hlen : (Nat.digits 10 n).length ≤ 5 :=
      Nat.digits_length_le_iff (by decide) n |>.2 (Nat.lt_of_le_of_lt hn (by decide))
    have hline : b.newLineStr.length ≤ 2 := by
      rw [TraceBuild.newLineStr]
      split_ifs <;> decide
    rw [List.length_append, List.length_append, decimal, List.length_map, List.length_reverse,
      TraceBuild.discardsBufSize]
    omega

/-! ### Copies -/

section Copies

variable {b : TraceBuild} {t t' : Trace} {l x : List UInt8} {m n r : Nat}

/-- The ring holds the newest bytes of a stream, of which the first `r` have been read. -/
structure Stored (b : TraceBuild) (t : Trace) (l : List UInt8) (r : Nat) : Prop where
  between : Between b t r l.length
  newest : Ring.Newest t.buf b.bufSize l
  wrapped : t.wrapped = true ↔ b.bufSize ≤ l.length

/-- A ring is what its buffer and pointers are. -/
theorem Stored.congr (h : Stored b t l r) (hbuf : t'.buf = t.buf) (hwptr : t'.wptr = t.wptr)
    (hrptr : t'.rptr = t.rptr) (hwrapped : t'.wrapped = t.wrapped) : Stored b t' l r where
  between := ⟨hrptr.trans h.between.rptr, hwptr.trans h.between.wptr, h.between.le,
    h.between.room⟩
  newest := hbuf ▸ h.newest
  wrapped := hwrapped ▸ h.wrapped

/-- What is copied to the ring appends to the stream. -/
theorem Stored.append (h : Stored b t l r) (hroom : l.length - r + x.length < b.bufSize)
    (hsum : t.wptr + x.length < 0x10000) (hbuf : t'.buf = (t.copyIn b x).buf)
    (hwptr : t'.wptr = (t.copyIn b x).wptr) (hrptr : t'.rptr = t.rptr)
    (hwrapped : t'.wrapped = true ↔ t.wrapped = true ∨ b.bufSize ≤ t.wptr + x.length) :
    Stored b t' (l ++ x) r := by
  have hle := h.between.le
  have hwritten : Ring.Written t.buf t'.buf b.bufSize (l.length % b.bufSize) x.length
      fun i => x.getD i 0 := by
    rw [hbuf, ← h.between.wptr]
    exact Kfifo.written_pieces h.between.wptr_lt (by omega)
  refine ⟨⟨hrptr.trans h.between.rptr, ?_, ?_, ?_⟩, ?_, ?_⟩
  · rw [hwptr, List.length_append]
    exact h.between.written (by omega) hsum
  · rw [List.length_append]
    omega
  · rw [List.length_append]
    omega
  · have hnewest := h.newest.append hwritten
    rwa [map_range_getD] at hnewest
  · rw [hwrapped, h.wrapped, List.length_append]
    -- before the ring has been filled, `wptr` is the length of the stream
    rcases Nat.lt_or_ge l.length b.bufSize with hfirst | hfull
    · rw [h.between.wptr, Nat.mod_eq_of_lt hfirst]
      omega
    · exact iff_of_true (.inl hfull) (Nat.le_add_right_of_le hfull)

/-- No transfer is under way. -/
structure Idle (t : Trace) : Prop where
  sending : t.sending = false
  enabled : t.ch.enabled = false
  irq : t.ch.irq = none

/-- Of `n` bytes between the pointers, the transfer under way has handed over `m`. -/
inductive Moving (b : TraceBuild) (t : Trace) (n m : Nat) : Prop where
  | idle (h : Idle t) (hm : m = 0)
  | busy (h : Underway b t m) (hle : t.sends0 + t.sends1 ≤ n)

theorem Moving.moved_eq (h : Moving b t n m) : t.moved = m := by
  cases h with
  | idle h hm => rw [Trace.moved, h.sending, hm]; rfl
  | busy h hle => exact h.moved_eq

theorem Moving.le (h : Moving b t n m) : m ≤ n := by
  cases h with
  | idle h hm => exact hm ▸ Nat.zero_le n
  | busy h hle => exact Nat.le_trans h.le hle

/-- A transfer is what its lengths and its channel are. -/
theorem Moving.congr {n' : Nat} (h : Moving b t n m) (hn : n ≤ n') (hrptr : t'.rptr = t.rptr)
    (hsending : t'.sending = t.sending) (hs0 : t'.sends0 = t.sends0) (hs1 : t'.sends1 = t.sends1)
    (hch : t'.ch = t.ch) : Moving b t' n' m := by
  cases h with
  | idle h hm => exact .idle ⟨hsending ▸ h.sending, hch ▸ h.enabled, hch ▸ h.irq⟩ hm
  | busy h hle =>
    refine .busy ⟨hsending ▸ h.sending, ?_, ?_, ?_, ?_⟩ ?_
    · rw [hrptr, hs0]
      exact h.first_le
    · rw [hrptr, hs0, hs1]
      exact h.second_le
    · rw [hrptr, hs0, hs1, hch]
      exact h.progress
    · rw [hs0, hs1, hch]
      exact h.working
    · rw [hs0, hs1]
      exact Nat.le_trans hle hn

/-- A transfer is started unless one is under way, the output is paused or everything has been
read. -/
theorem sendInternal_spec (hs : Stored b t l r) (hm : Moving b t (l.length - r) m) :
    Stored b (t.sendInternal b) l r ∧ Moving b (t.sendInternal b) (l.length - r) m ∧
      (t.sendInternal b).discards = t.discards ∧
      ((t.sendInternal b).pauseCnt = 0 →
        (t.sendInternal b).sending = true ∨ l.length - r = 0) := by
  rw [Trace.sendInternal]
  split_ifs with hpause
  · rw [Trace.uartDmaSend]
    cases hm with
    | busy hu hle =>
      have hstarted : ¬(t.sending = false ∧ t.wptr ≠ t.rptr) := fun h =>
        ne_true_of_eq_false h.1 hu.sending
      rw [if_neg hstarted]
      exact ⟨hs, .busy hu hle, rfl, fun _ => .inl hu.sending⟩
    | idle hi hm =>
      by_cases hne : t.wptr = t.rptr
      · rw [if_neg fun h => h.2 hne]
        have hused := hs.between.used_eq
        rw [Trace.used, if_pos (Nat.le_of_eq hne.symm), hne, Nat.sub_self] at hused
        exact ⟨hs, .idle hi hm, rfl, fun _ => .inr hused.symm⟩
      · obtain ⟨hpos, hfirst, hsecond, hle⟩ := sendSizes_spec hs.between hne
        have hsrc : (if t.rptr + (b.sendSizes t.wptr t.rptr).1 < b.bufSize then
            t.rptr + (b.sendSizes t.wptr t.rptr).1 else 0) =
            (t.rptr + (b.sendSizes t.wptr t.rptr).1) % b.bufSize := by
          split_ifs with hend
          · exact (Nat.mod_eq_of_lt hend).symm
          · rw [Nat.le_antisymm hfirst (Nat.not_lt.1 hend), Nat.mod_self]
        rw [if_pos ⟨hi.sending, hne⟩, hm]
        refine ⟨hs.congr rfl rfl rfl rfl, .busy ⟨rfl, hfirst, hsecond, ?_, ?_⟩ hle, rfl,
          fun _ => .inl rfl⟩
        · dsimp only
          rw [hsrc, DmaChannel.sgStart, if_neg (ne_true_of_eq_false hi.enabled)]
          exact .first rfl rfl rfl
        · dsimp only
          rw [DmaChannel.sgStart, if_neg (ne_true_of_eq_false hi.enabled)]
          exact .enabled rfl rfl hpos
  · exact ⟨hs, hm, rfl, fun h => absurd h hpause⟩

/-- The transfer is over, and the bytes that it has handed over have been read. -/
theorem endTransfer_spec (hs : Stored b t l r) (hm : r + m ≤ l.length)
    (hsum : t.rptr + m < 0x10000) : Stored b (t.endTransfer b m) l (r + m) where
  between := by
    have hroom := hs.between.room
    exact ⟨hs.between.read hm hsum, hs.between.wptr, hm, by omega⟩
  newest := hs.newest
  wrapped := hs.wrapped

/-- The note, if any, is copied. -/
theorem printDiscards_spec (hs : Stored b t l r) (hm : Moving b t (l.length - r) m)
    (hdiscards : t.discards ≤ 0xFFFF)
    (hroom : l.length - r + (b.note t.discards).length < b.bufSize)
    (hsum : t.wptr + (b.note t.discards).length < 0x10000)
    (hfill : 0 < (b.note t.discards).length → b.bufSize ≤ t.wptr + (b.note t.discards).length →
      t.wrapped = true) :
    Stored b (t.printDiscards b) (l ++ b.note t.discards) r ∧
      Moving b (t.printDiscards b) ((l ++ b.note t.discards).length - r) m ∧
      (t.printDiscards b).discards = 0 := by
  rw [Trace.printDiscards]
  by_cases hzero : t.discards = 0
  · have hnote : b.note t.discards = [] := if_pos hzero
    rw [if_pos hzero, hnote, List.append_nil]
    exact ⟨hs, hm, hzero⟩
  · have hlen : (l ++ b.note t.discards).length = l.length + (b.note t.discards).length :=
      List.length_append
    rw [if_neg hzero, discardsNote_eq (Nat.pos_of_ne_zero hzero) hdiscards]
    refine ⟨hs.append hroom hsum rfl rfl rfl ?_, hm.congr (by omega) rfl rfl rfl rfl rfl, rfl⟩
    refine ⟨.inl, fun h => h.elim id fun hwrap => hfill ?_ hwrap⟩
    have hwptr := hs.between.wptr_lt
    omega

/-- The message is copied. -/
theorem copyMessage_spec (hs : Stored b t l r) (hm : Moving b t (l.length - r) m)
    (hroom : l.length - r + x.length < b.bufSize) (hsum : t.wptr + x.length < 0x10000) :
    Stored b (t.copyMessage b x) (l ++ x) r ∧
      Moving b (t.copyMessage b x) ((l ++ x).length - r) m := by
  have hlen : (l ++ x).length = l.length + x.length := List.length_append
  refine ⟨hs.append hroom hsum rfl rfl rfl ?_, hm.congr (by omega) rfl rfl rfl rfl rfl⟩
  rw [Trace.copyMessage, Nat.mod_eq_of_lt hsum, Bool.or_eq_true, decide_eq_true_iff]

end Copies

/-! ### Histories -/

section Histories

variable {b : TraceBuild} {h h' : TraceHistory} {e : TraceEvent} {msg : List UInt8} {r m : Nat}

/-- The invariant: `r` bytes of the stream have been read, and the transfer under way has handed
over `m` more. -/
structure Located (b : TraceBuild) (h : TraceHistory) (r m : Nat) : Prop where
  stored : Stored b h.t h.written r
  moving : Moving b h.t (h.written.length - r) m
  handed : h.handed = h.written.take (r + m)
  discards : h.t.discards = h.rejected
  discards_le : h.rejected ≤ 0xFFFF

theorem Located.unsent_eq (hl : Located b h r m) : h.t.unsent b = h.written.drop (r + m) := by
  have hroom := hl.stored.between.room
  rw [Trace.unsent, hl.stored.between.used_eq, hl.stored.between.rptr, hl.moving.moved_eq,
    hl.stored.newest.cells hl.stored.between.le (Nat.le_of_lt hroom), List.drop_drop]

/-- The history is the end of the stream. -/
theorem Stored.historyBytes_eq {t : Trace} {l : List UInt8} (hs : Stored b t l r) :
    t.historyBytes b = l.drop (l.length - b.bufSize) := by
  have hlt := hs.between.wptr_lt
  rw [Trace.historyBytes, Trace.getHistoryBuffer, if_pos hlt]
  by_cases hwrapped : t.wrapped = true
  · have hfull := hs.wrapped.1 hwrapped
    have hcells := hs.newest.cells (Nat.sub_le l.length b.bufSize) (by omega)
    have hstart : (l.length - b.bufSize) % b.bufSize = t.wptr := by
      rw [hs.between.wptr, ← Nat.mod_eq_sub_mod hfull]
    have hpieces := @Kfifo.cells_pieces t.buf _ _ _ hlt (Nat.le_refl b.bufSize)
    rw [Nat.min_eq_right (Nat.sub_le _ _), Nat.sub_sub_self (Nat.le_of_lt hlt)] at hpieces
    rw [hstart, Nat.sub_sub_self hfull] at hcells
    rw [if_pos hwrapped, ← hcells, ← hpieces]
    simp
  · have hfirst : l.length < b.bufSize := Nat.lt_of_not_le fun hfull =>
      hwrapped (hs.wrapped.2 hfull)
    have hcells := hs.newest.cells (Nat.zero_le l.length) (by omega)
    have hpieces := @Kfifo.cells_pieces t.buf _ _ _ b.bufSize_pos (Nat.le_of_lt hfirst)
    rw [Nat.sub_zero, Nat.min_eq_left (Nat.le_of_lt hfirst), Nat.sub_self] at hpieces
    rw [Nat.zero_mod, Nat.sub_zero, ← hpieces] at hcells
    rw [if_neg hwrapped, Nat.sub_eq_zero_of_le (Nat.le_of_lt hfirst), ← hcells, hs.between.wptr,
      Nat.mod_eq_of_lt hfirst]
    simp

theorem Located.exact (hl : Located b h r m) : Exact b h where
  rptr_lt := hl.stored.between.rptr_lt
  wptr_lt := hl.stored.between.wptr_lt
  stream := by rw [hl.unsent_eq, hl.handed, List.take_append_drop]
  history := hl.stored.historyBytes_eq

/-- A rejected message is counted. -/
theorem Located.output_rejected (hl : Located b h r m) (hrej : h.t.Rejects b msg)
    (hcount : h.t.discards < 0xFFFF) :
    Located b ⟨(h.t.outputInternal b msg).1, h.handed ++ [], h.written, h.rejected + 1⟩ r m := by
  have houtput : h.t.outputInternal b msg = ({ h.t with discards := h.t.discards + 1 }, 0) :=
    (if_pos hrej).trans (by rw [if_pos hcount])
  rw [houtput, List.append_nil]
  refine ⟨hl.stored.congr rfl rfl rfl rfl, hl.moving.congr (Nat.le_refl _) rfl rfl rfl rfl rfl,
    hl.handed, congrArg (· + 1) hl.discards, ?_⟩
  rw [hl.discards] at hcount
  exact hcount

/-- An accepted message is appended to the stream, behind its note. -/
theorem Located.output_accepted (hl : Located b h r m) (hacc : ¬h.t.Rejects b msg)
    (hnote : h.t.wptr + (b.note h.t.discards).length < 0x10000)
    (hmsg : (h.t.wptr + (b.note h.t.discards).length) % b.bufSize + msg.length < 0x10000)
    (hfill : 0 < (b.note h.t.discards).length →
      b.bufSize ≤ h.t.wptr + (b.note h.t.discards).length → h.t.wrapped = true) :
    Located b ⟨(h.t.outputInternal b msg).1, h.handed ++ [],
        h.written ++ (b.note h.rejected ++ msg), 0⟩ r m ∧
      ((h.t.outputInternal b msg).1.pauseCnt = 0 → (h.t.outputInternal b msg).1.sending = true ∨
        (h.written ++ (b.note h.rejected ++ msg)).length - r = 0) := by
  have hdiscards : h.t.discards ≤ 0xFFFF := hl.discards ▸ hl.discards_le
  have hnotelen := length_note_le (b := b) hdiscards
  have hle := hl.stored.between.le
  have hbetween := hl.stored.between.room
  have hroom : h.written.length - r + (b.note h.t.discards).length + msg.length < b.bufSize := by
    rw [Trace.Rejects, hl.stored.between.avail_eq, Trace.outLen] at hacc
    by_cases hzero : h.t.discards = 0
    · rw [if_pos hzero] at hacc
      rw [TraceBuild.note, if_pos hzero, List.length_nil]
      omega
    · rw [if_neg hzero] at hacc
      omega
  obtain ⟨hstored, hmoving, hzero⟩ := printDiscards_spec hl.stored hl.moving hdiscards
    (by omega) hnote hfill
  have hlen : (h.written ++ b.note h.t.discards).length =
      h.written.length + (b.note h.t.discards).length := List.length_append
  have hwptr : (h.t.printDiscards b).wptr + msg.length < 0x10000 := by
    rw [hstored.between.wptr, hlen, ← Nat.mod_add_mod, ← hl.stored.between.wptr]
    exact hmsg
  obtain ⟨hstored, hmoving⟩ := copyMessage_spec hstored hmoving (x := msg) (by omega) hwptr
  obtain ⟨hstored, hmoving, hdone, hstarted⟩ := sendInternal_spec hstored hmoving
  have houtput : h.t.outputInternal b msg =
      (((h.t.printDiscards b).copyMessage b msg).sendInternal b, msg.length) := if_neg hacc
  rw [houtput, List.append_nil, ← hl.discards, ← List.append_assoc]
  refine ⟨⟨hstored, hmoving, ?_, hdone.trans hzero, Nat.zero_le _⟩, hstarted⟩
  have hmle := hl.moving.le
  rw [hl.handed, List.append_assoc, List.take_append_of_le_length (by omega)]

/-- A byte is handed over. -/
theorem Located.move (hl : Located b h r m) (hen : h.t.ch.enabled = true) :
    Located b ⟨{ h.t with ch := h.t.ch.behindByte }, h.handed ++ [h.t.buf h.t.ch.src], h.written,
      h.rejected⟩ r (m + 1) := by
  cases hl.moving with
  | idle hi hm => exact absurd hen (ne_true_of_eq_false hi.enabled)
  | busy hu hle =>
    cases hu.working with
    | done hoff _ _ => exact absurd hen (ne_true_of_eq_false hoff)
    | failed hoff _ => exact absurd hen (ne_true_of_eq_false hoff)
    | enabled _ hirq hpos =>
      have hremain := hu.progress.remain_add
      have htsize : h.t.ch.tsize ≤ h.t.ch.getSgRemainSize := Nat.le_add_right _ _
      have hsrle := hl.stored.between.le
      have hroom := hl.stored.between.room
      obtain ⟨hprogress, hworking⟩ := hu.progress.behindByte hen hirq hpos
      refine ⟨hl.stored.congr rfl rfl rfl rfl,
        .busy ⟨hu.sending, hu.first_le, hu.second_le, hprogress, hworking⟩ hle, ?_, hl.discards,
        hl.discards_le⟩
      -- the byte is the next one of the stream
      have hlt : r + m < h.written.length := by omega
      have hbyte := hl.stored.newest (r + m) _ (List.getElem?_eq_getElem hlt) (by omega)
      rw [hu.progress.src_eq hpos hu.first_le hu.second_le, hl.stored.between.rptr, Nat.mod_add_mod,
        hbyte, hl.handed, ← Nat.add_assoc]
      exact (List.take_succ_eq_append_getElem hlt).symm

/-- The channel fails. -/
theorem Located.fail (hl : Located b h r m) (hen : h.t.ch.enabled = true) :
    Located b ⟨{ h.t with ch := { h.t.ch with
      enabled := false
      irq := some true } }, h.handed ++ [], h.written, h.rejected⟩ r m := by
  rw [List.append_nil]
  cases hl.moving with
  | idle hi hm => exact absurd hen (ne_true_of_eq_false hi.enabled)
  | busy hu hle =>
    have hprogress : Progress b.bufSize h.t.rptr h.t.sends0 h.t.sends1 { h.t.ch with
        enabled := false
        irq := some true } m := by
      cases hu.progress with
      | first htsize hsrc hlli => exact .first htsize hsrc hlli
      | second htsize hm hs1 hsrc hlli => exact .second htsize hm hs1 hsrc hlli
    exact ⟨hl.stored.congr rfl rfl rfl rfl, .busy ⟨hu.sending, hu.first_le, hu.second_le, hprogress,
      .failed rfl rfl⟩ hle, hl.handed, hl.discards, hl.discards_le⟩

/-- The handler ends the transfer, and starts the next one. -/
theorem Located.irq (hl : Located b h r m) {error : Bool} (hirq : h.t.ch.irq = some error)
    (hsum : h.t.rptr + m < 0x10000) {t' : Trace}
    (ht' : { h.t with ch := { h.t.ch with irq := none } }.uartXferDone b h.t.ch.tsize error
      h.t.ch.lli = t') :
    Located b ⟨t', h.handed ++ [], h.written, h.rejected⟩ (r + m) 0 ∧
      (t'.pauseCnt = 0 → t'.sending = true ∨ h.written.length - (r + m) = 0) := by
  cases hl.moving with
  | idle hi hm => exact absurd (hi.irq.symm.trans hirq) (Option.some_ne_none _).symm
  | busy hu hle =>
    have hoff : h.t.ch.enabled = false := by
      cases hu.working with
      | enabled hen hnone hpos => exact absurd (hnone.symm.trans hirq) (Option.some_ne_none _).symm
      | done hen _ _ => exact hen
      | failed hen _ => exact hen
    have hmle := hl.moving.le
    have hsrle := hl.stored.between.le
    have hsize : { h.t with ch := { h.t.ch with irq := none } }.xferSize h.t.ch.tsize error
        h.t.ch.lli = m := hu.xferSize_eq hirq
    have hended : Stored b ({ h.t with ch := { h.t.ch with irq := none } }.endTransfer b m)
        h.written (r + m) :=
      endTransfer_spec (hl.stored.congr rfl rfl rfl rfl) (by omega) hsum
    obtain ⟨hstored, hmoving, hdiscards, hstarted⟩ :=
      sendInternal_spec hended (.idle ⟨rfl, hoff, rfl⟩ rfl)
    rw [Trace.uartXferDone, hsize] at ht'
    subst ht'
    rw [List.append_nil]
    exact ⟨⟨hstored, hmoving, hl.handed, hdiscards.trans hl.discards, hl.discards_le⟩, hstarted⟩

/-- A transfer that is stopped half way. -/
theorem Located.stop (hl : Located b h r m) (hhalf : SteadyStop h.t) :
    ∃ r' m', Located b ⟨h.t.uartStopDmaSend b, h.handed ++ [], h.written, h.rejected⟩ r' m' := by
  rw [Trace.uartStopDmaSend, List.append_nil]
  split_ifs with hen
  · cases hl.moving with
    | idle hi hm => exact absurd hen (ne_true_of_eq_false hi.enabled)
    | busy hu hle =>
      obtain ⟨hmoved, hsum⟩ := hhalf hen
      have hmle := hl.moving.le
      have hsrle := hl.stored.between.le
      have hremain := hu.progress.remain_add
      rw [hu.moved_eq] at hmoved hsum
      obtain rfl : h.t.ch.getSgRemainSize = m := by omega
      have hended : Stored b ({ h.t with ch := h.t.ch.cancel }.endTransfer b
          h.t.ch.getSgRemainSize) h.written (r + h.t.ch.getSgRemainSize) :=
        endTransfer_spec (hl.stored.congr rfl rfl rfl rfl) (by omega) hsum
      exact ⟨_, 0, hended, .idle ⟨rfl, rfl, rfl⟩ rfl, hl.handed, hl.discards, hl.discards_le⟩
  · exact ⟨r, m, hl⟩

/-- Pausing and continuing count. -/
theorem Located.setPauseCnt (hl : Located b h r m) (n : Nat) :
    Located b ⟨{ h.t with pauseCnt := n }, h.handed, h.written, h.rejected⟩ r m :=
  ⟨hl.stored.congr rfl rfl rfl rfl, hl.moving.congr (Nat.le_refl _) rfl rfl rfl rfl rfl, hl.handed,
    hl.discards, hl.discards_le⟩

theorem Located.pause (hl : Located b h r m) (hhalf : h.t.pauseCnt = 0 → SteadyStop h.t) :
    ∃ r' m', Located b ⟨h.t.pause b, h.handed ++ [], h.written, h.rejected⟩ r' m' := by
  rw [Trace.pause]
  by_cases hpause : h.t.pauseCnt = 0
  · obtain ⟨r', m', hstop⟩ := hl.stop (hhalf hpause)
    rw [if_pos hpause]
    exact ⟨r', m', hstop.setPauseCnt _⟩
  · rw [if_neg hpause, List.append_nil]
    exact ⟨r, m, hl.setPauseCnt _⟩

theorem Located.resume (hl : Located b h r m) :
    Located b ⟨h.t.resume b, h.handed ++ [], h.written, h.rejected⟩ r m ∧
      (h.t.pauseCnt ≠ 0 → (h.t.resume b).pauseCnt = 0 →
        (h.t.resume b).sending = true ∨ h.written.length - r = 0) := by
  rw [Trace.resume, List.append_nil]
  by_cases hpause : h.t.pauseCnt = 0
  · rw [if_pos hpause]
    exact ⟨hl, fun h => absurd hpause h⟩
  · have hset := hl.setPauseCnt (h.t.pauseCnt - 1)
    obtain ⟨hstored, hmoving, hdiscards, hstarted⟩ := sendInternal_spec hset.stored hset.moving
    rw [if_neg hpause]
    exact ⟨⟨hstored, hmoving, hl.handed, hdiscards.trans hl.discards, hl.discards_le⟩,
      fun _ => hstarted⟩

/-- What a steady event leaves behind. -/
def Settled (b : TraceBuild) (h : TraceHistory) (e : TraceEvent) (h' : TraceHistory) : Prop :=
  ∃ r m, Located b h' r m ∧
    (h.Starts b e → h'.t.pauseCnt = 0 → h'.t.sending = true ∨ h'.written.length - r = 0)

theorem Settled.exact (hs : Settled b h e h') : Exact b h' ∧
    (h.Starts b e → h'.t.pauseCnt = 0 → h'.t.sending = true ∨ h'.t.unsent b = []) := by
  obtain ⟨r, m, hl, hstarted⟩ := hs
  refine ⟨hl.exact, fun hstarts hpause => (hstarted hstarts hpause).imp_right fun hread => ?_⟩
  rw [hl.unsent_eq]
  exact List.drop_eq_nil_of_le (by omega)

theorem settled_output (hl : Located b h r m) (hs : Steady b h (.output msg)) :
    Settled b h (.output msg) ⟨(h.t.outputInternal b msg).1, h.handed ++ [],
      h.writtenWith b (.output msg), h.rejectedWith b (.output msg)⟩ := by
  obtain ⟨-, hsteady⟩ := hs
  rw [TraceHistory.writtenWith, TraceHistory.rejectedWith]
  by_cases hrej : h.t.Rejects b msg
  · rw [if_pos hrej] at hsteady ⊢
    rw [if_pos hrej]
    exact ⟨r, m, hl.output_rejected hrej hsteady, fun hacc => absurd hrej hacc⟩
  · rw [if_neg hrej] at hsteady ⊢
    rw [if_neg hrej]
    obtain ⟨hnote, hmsg, hfill⟩ := hsteady
    obtain ⟨hlocated, hstarted⟩ := hl.output_accepted hrej hnote hmsg hfill
    exact ⟨r, m, hlocated, fun _ => hstarted⟩

/-- A steady event keeps the invariant. -/
theorem settled_step (hl : Located b h r m) (hs : Steady b h e) (hstep : h.step b e = some h') :
    Settled b h e h' := by
  obtain ⟨⟨t', bytes⟩, ht, rfl⟩ := Option.map_eq_some_iff.1 hstep
  cases e with
  | output msg =>
    cases ht
    exact settled_output hl hs
  | move =>
    rw [Trace.step] at ht
    split at ht
    · cases ht
      exact ⟨r, m + 1, hl.move ‹_›, fun hstarts => absurd hstarts id⟩
    · cases ht
  | fail =>
    rw [Trace.step] at ht
    split at ht
    · cases ht
      exact ⟨r, m, hl.fail ‹_›, fun hstarts => absurd hstarts id⟩
    · cases ht
  | irq =>
    obtain ⟨error, hirq, hdone⟩ := Option.map_eq_some_iff.1 ht
    cases hdone
    rw [Steady, hl.moving.moved_eq] at hs
    obtain ⟨hlocated, hstarted⟩ := hl.irq hirq hs rfl
    exact ⟨r + m, 0, hlocated, fun _ => hstarted⟩
  | stop =>
    cases ht
    obtain ⟨r', m', hlocated⟩ := hl.stop hs
    exact ⟨r', m', hlocated, fun hstarts => absurd hstarts id⟩
  | pause =>
    cases ht
    obtain ⟨r', m', hlocated⟩ := hl.pause hs
    exact ⟨r', m', hlocated, fun hstarts => absurd hstarts id⟩
  | resume =>
    cases ht
    obtain ⟨hlocated, hstarted⟩ := hl.resume
    exact ⟨r, m, hlocated, hstarted⟩

end Histories

/-- The history when the trace has been opened. -/
def TraceHistory.opened (buf : Content) : TraceHistory := ⟨.opened buf, [], [], 0⟩

theorem located_opened (b : TraceBuild) (buf : Content) : Located b (.opened buf) 0 0 where
  stored := {
    between := ⟨(Nat.zero_mod _).symm, (Nat.zero_mod _).symm, Nat.le_refl 0, by
      rw [Nat.zero_add]
      exact b.bufSize_pos⟩
    newest := Ring.newest_nil
    wrapped := iff_of_false Bool.noConfusion (Nat.not_le.2 b.bufSize_pos) }
  moving := .idle ⟨rfl, rfl, rfl⟩ rfl
  handed := rfl
  discards := rfl
  discards_le := Nat.zero_le _

/-- Along every history of steady events each accepted message is sent once. -/
theorem sendsOnce_along {b : TraceBuild} {buf : Content} {es : List TraceEvent}
    (hes : Along (TraceHistory.step b) (Steady b) (.opened buf) es) :
    Along (TraceHistory.step b) (SendsOnce b) (.opened buf) es := by
  have hkept := hes.strengthen (I := fun h => ∃ r m, Located b h r m)
    (fun h e h' hl hs hstep => by
      obtain ⟨r, m, hl⟩ := hl
      obtain ⟨r', m', hl', -⟩ := settled_step hl hs hstep
      exact ⟨r', m', hl'⟩)
    ⟨0, 0, located_opened b buf⟩
  refine hkept.mono ?_
  rintro h e ⟨⟨r, m, hl⟩, hs⟩ h' hstep
  exact (settled_step hl hs hstep).exact

theorem standard_bufSize_pos : 0 < 4096 := by decide

theorem standard_bufSize_lt : 4096 < 0x10000 := by decide

/-- The ring of 4 KiB. -/
def TraceBuild.standard : TraceBuild := ⟨4096, false, standard_bufSize_pos, standard_bufSize_lt⟩

/-- A transfer is stopped half way, the next one fails, and the last one is paused when it is done.
-/
theorem sendsOnce_along_standard :
    Along (TraceHistory.step .standard) (SendsOnce .standard) (.opened fun _ => 0)
      [.output [0x41, 0x0A], .move, .stop, .output [0x42], .move, .fail, .irq, .move, .pause, .irq,
        .resume] := by
  refine sendsOnce_along ⟨by dsimp only [Steady]; decide, fun _ h => ?_⟩
  obtain rfl := Option.some.inj h
  refine ⟨trivial, fun _ h => ?_⟩
  obtain rfl := Option.some.inj h
  refine ⟨fun _ => ⟨rfl, by decide⟩, fun _ h => ?_⟩
  obtain rfl := Option.some.inj h
  refine ⟨by dsimp only [Steady]; decide, fun _ h => ?_⟩
  obtain rfl := Option.some.inj h
  refine ⟨trivial, fun _ h => ?_⟩
  obtain rfl := Option.some.inj h
  refine ⟨trivial, fun _ h => ?_⟩
  obtain rfl := Option.some.inj h
  refine ⟨by dsimp only [Steady]; decide, fun _ h => ?_⟩
  obtain rfl := Option.some.inj h
  refine ⟨trivial, fun _ h => ?_⟩
  obtain rfl := Option.some.inj h
  refine ⟨fun _ hen => absurd hen Bool.noConfusion, fun _ h => ?_⟩
  obtain rfl := Option.some.inj h
  refine ⟨by dsimp only [Steady]; decide, fun _ h => ?_⟩
  obtain rfl := Option.some.inj h
  exact ⟨trivial, fun _ _ => trivial⟩

/-- What the last event of a history leaves behind. -/
theorem exact_last {b : TraceBuild} {buf : Content} (es : List TraceEvent) {e : TraceEvent}
    {h h' : TraceHistory}
    (hes : Along (TraceHistory.step b) (SendsOnce b) (.opened buf) (es ++ [e]))
    (hrun : es.foldlM (TraceHistory.step b) (.opened buf) = some h) (hstep : h.step b e = some h') :
    Exact b h' :=
  (hes.last hrun h' hstep).1

theorem small_bufSize_pos : 0 < 16 := by decide

theorem small_bufSize_lt : 16 < 0x10000 := by decide

/-- A ring of 16 bytes. -/
def TraceBuild.small : TraceBuild := ⟨16, false, small_bufSize_pos, small_bufSize_lt⟩

/-- A transfer that is stopped after one of three bytes goes on with the third one. A note that goes
round for the first time hides what is behind it from the history. -/
theorem not_sendsOnce :
    ¬Along (TraceHistory.step .standard) (SendsOnce .standard) (.opened fun _ => 0)
        [.output [0x41, 0x42, 0x0A], .move, .stop] ∧
      ¬Along (TraceHistory.step .small) (SendsOnce .small) (.opened fun _ => 0)
        (.output (List.replicate 15 0x41) :: .output [0x42] :: List.replicate 15 .move ++
          [.irq] ++ [.output [0x43]]) := by
  refine ⟨fun h => ?_, fun h => ?_⟩
  · have hexact := exact_last [.output [0x41, 0x42, 0x0A], .move] h rfl rfl
    exact absurd hexact.stream (by decide)
  · have hexact := exact_last (.output (List.replicate 15 0x41) :: .output [0x42] ::
      List.replicate 15 .move ++ [.irq]) h rfl rfl
    exact absurd (congrArg List.length hexact.history) (by decide)

end EarbudFirmware.HalTrace
