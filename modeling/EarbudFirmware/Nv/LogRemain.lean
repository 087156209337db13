import EarbudFirmware.Nv.LogOrder

/-!
# Flushing what remains of the log

`_log_dump_flush_remain` repeats `_log_dump_flush` until every buffer is free; a buffer that is not
full is written as well. It leaves the flash offset inside a sector, where no later flush erases or
writes anything.

## Main definitions

* `LogDump.flushRemain` — `_log_dump_flush_remain`
* `LogCall` — the calls of the module
* `Completes` — the loop ends, with every buffer free and written
* `Flushable` — nothing stands in the way of the loop

## Main results

* `completes_iff` — the states in which the loop ends
* `completes_run_iff` — the same along every run
-/

namespace EarbudFirmware.LogSection

open Function (update)
open Transition

variable {s t : LogDump} {b : DataBuffer} {k m n p : Nat}

/-- Every buffer is free. -/
def LogDump.AllFree (s : LogDump) : Prop :=
  ∀ p < logDumpSectorBufferCount, (s.dataBufferList p).state = .free

instance (s : LogDump) : Decidable s.AllFree :=
  inferInstanceAs (Decidable (∀ p < logDumpSectorBufferCount, _))

/-- One round of `_log_dump_flush_remain`, which waits until there is room for its operation. -/
def LogDump.flushRound (s : LogDump) : Option LogDump :=
  s.flushBuffer (fun state => state = .writting ∨ state = .written) true

/-- `_log_dump_flush_remain`; `none` when `fuel` rounds do not end it. -/
def LogDump.flushRemain : Nat → LogDump → Option LogDump
  | 0, _ => none
  | fuel + 1, s => if s.AllFree then some s else s.flushRound.bind (flushRemain fuel)

/-- A call of the module. `rounds` is the number of rounds of the loop. -/
inductive LogCall where
  | output (buf : List UInt8)
  | flush (accepted : Bool)
  | flushAll (rounds : Nat)
  | crashStart
  | crashEnd (rounds : Nat)
  deriving DecidableEq

/-- The calls: `log_dump_flush_all`, `log_dump_notify_handler` for the start and the end of a crash,
and the operations of the normal log. -/
def LogDump.call (s : LogDump) : LogCall → Option LogDump
  | .output buf => s.output buf
  | .flush accepted => s.flush accepted
  | .flushAll rounds => { s with isImmediately := true }.flushRemain rounds
  | .crashStart => some { s with isImmediately := true }
  | .crashEnd rounds => s.flushRemain rounds

/-! ### Specification -/

/-- The sectors that were written between two states hold the buffers that were in use. -/
def Handed (s t : LogDump) : Prop :=
  ∃ added, t.stored = s.stored ++ added ∧ ∀ p < logDumpSectorBufferCount,
    (s.dataBufferList p).state ≠ .free →
    ∃ x ∈ added, x.2.header = (s.dataBufferList p).header ∧ (s.dataBufferList p).body <+: x.2.body

/-- The loop ends, with every buffer free and what was in the buffers written. -/
def Completes (s : LogDump) : Prop :=
  ∃ fuel t, s.flushRemain fuel = some t ∧ t.AllFree ∧ Handed s t

/-- The `m` buffers from the flush index on are in use, and all of them are full but the last
one. -/
def LogDump.Consecutive (s : LogDump) (m : Nat) : Prop :=
  ∀ k < logDumpSectorBufferCount, ((s.buffer k).state ≠ .free ↔ k < m) ∧
    (k + 1 < m → (s.buffer k).state = .written)

instance (s : LogDump) (m : Nat) : Decidable (s.Consecutive m) :=
  inferInstanceAs (Decidable (∀ k < logDumpSectorBufferCount, _))

/-- There is nothing to flush, or the flash offset is the start of a sector, and the buffers in use
follow one another from the flush index on and are full but for the last one. -/
def Flushable (s : LogDump) : Prop :=
  s.AllFree ∨ s.flashOffs % logDumpSectorSize = 0 ∧
    ∃ m ≤ logDumpSectorBufferCount, s.Consecutive m

instance (s : LogDump) : Decidable (Flushable s) :=
  inferInstanceAs (Decidable (_ ∨ _ ∧ ∃ m ≤ logDumpSectorBufferCount, _))

/-! ### States that are reached -/

/-- What holds in every state. -/
structure Usable (s : LogDump) : Prop where
  f_lt : s.fSeqnum < logDumpSectorBufferCount
  w_lt : s.wSeqnum < logDumpSectorBufferCount
  formed : ∀ p, (s.dataBufferList p).Formed
  place : s.flashOffs < s.flash.length * logDumpSectorSize
  ready : s.flashState ≠ .idle → s.flashOffs % logDumpSectorSize = 0

theorem formed_free (offset : Nat) (header : LogDumpHeader) (body : List UInt8) :
    (⟨.free, offset, header, body⟩ : DataBuffer).Formed :=
  ⟨fun h => (by cases h), fun h => (by cases h), fun h => absurd rfl h⟩

theorem formed_update {l : Nat → DataBuffer} (h : ∀ p, (l p).Formed) (hb : b.Formed) (i : Nat) :
    ∀ p, (update l i b p).Formed := by
  intro p
  rw [Function.update_apply]
  split_ifs
  · exact hb
  · exact h p

theorem nextSeqnum_lt (hk : k < logDumpSectorBufferCount) :
    nextSeqnum k < logDumpSectorBufferCount := by
  rw [nextSeqnum_eq hk]
  exact Nat.mod_lt _ (by decide)

theorem usable_logDumpInit (sec : Sector) (rest : List Sector) :
    Usable (logDumpInit (sec :: rest)) where
  f_lt := by change 0 < 16; decide
  w_lt := by change 0 < 16; decide
  formed _ := formed_free _ _ _
  place := by
    change (getSeqnum (sec :: rest)).2 * _ < (sec :: rest).length * _
    refine Nat.mul_lt_mul_of_pos_right ?_ (by decide)
    rcases snd_getSeqnum (sec :: rest) with h | h
    · rw [h]
      exact Nat.succ_pos _
    · exact h
  ready h := absurd rfl h

/-- Opening a buffer. -/
theorem Usable.openBuffer (h : Usable s) : Usable s.openBuffer ∧
    s.openBuffer.wBuffer.state = .writting := by
  have hformed : s.wBuffer.Formed := h.formed _
  by_cases hstate : s.wBuffer.state = .writting
  · have hne : s.wBuffer.offset ≠ 0 :=
      Nat.ne_of_gt (Nat.lt_of_lt_of_le (Nat.zero_lt_succ 15) (hformed.writting hstate).1)
    rw [openBuffer_of_writting hstate hne]
    exact ⟨h, hstate⟩
  · have hopened : DataBuffer.Formed ⟨.writting, logDumpHeaderSize, s.logHeader, []⟩ :=
      ⟨fun h => (by cases h), fun _ => ⟨Nat.le_refl _, header_lt⟩, fun _ => rfl⟩
    rw [openBuffer_of_ne hstate]
    refine ⟨⟨h.f_lt, h.w_lt, formed_update h.formed hopened _, h.place, h.ready⟩, ?_⟩
    simp [LogDump.wBuffer]

/-- A buffer that is being filled, behind a round. -/
theorem formed_filled {buf : List UInt8} (hformed : s.wBuffer.Formed)
    (hstate : s.wBuffer.state = .writting) (hle : (filled s buf).offset ≤ logDumpSectorSize) :
    (filled s buf).Formed := by
  have hhead := (hformed.writting hstate).1
  have hbody := hformed.body (by rw [hstate]; exact fun h => by cases h)
  have htake := List.length_take_of_le (writeLen_le (s := s) buf)
  have hoffset : (filled s buf).offset = s.wBuffer.offset + s.writeLen buf := rfl
  by_cases hfull : (filled s buf).offset = logDumpSectorSize
  · have hwritten : (filled s buf).state = .written := if_pos hfull
    refine ⟨fun _ => hfull, fun h => absurd (hwritten.symm.trans h) (by simp), fun _ => ?_⟩
    simp only [filled, List.length_append, htake]
    omega
  · have hwritting : (filled s buf).state = .writting := (if_neg hfull).trans hstate
    refine ⟨fun h => absurd (hwritting.symm.trans h) (by simp), fun _ => ⟨by omega, by omega⟩,
      fun _ => ?_⟩
    simp only [filled, List.length_append, htake]
    omega

theorem Usable.outputRounds {fuel : Nat} {buf : List UInt8} (h : Usable s)
    (ht : LogDump.outputRounds fuel s buf = some t) : Usable t := by
  induction fuel generalizing s buf with
  | zero => cases ht
  | succ fuel ih =>
    obtain ⟨hopen, hstate⟩ := h.openBuffer
    simp only [LogDump.outputRounds] at ht
    cases hfill : s.openBuffer.fillBuffer buf with
    | none => simp [hfill] at ht
    | some u =>
      rw [hfill] at ht
      obtain ⟨hle, hu⟩ := fillBuffer_eq_some hfill
      have husable : Usable u := by
        rw [hu]
        exact ⟨hopen.f_lt, hopen.w_lt,
          formed_update hopen.formed (formed_filled (hopen.formed _) hstate hle) _, hopen.place,
          hopen.ready⟩
      have hnext : Usable { u with wSeqnum := nextSeqnum u.wSeqnum } :=
        ⟨husable.f_lt, nextSeqnum_lt husable.w_lt, husable.formed, husable.place, husable.ready⟩
      simp only at ht
      split_ifs at ht
      · exact Option.some.inj ht ▸ hnext
      · exact Option.some.inj ht ▸ hnext
      · exact ih hnext ht
      · exact Option.some.inj ht ▸ husable
      · exact ih husable ht

theorem Usable.output {buf : List UInt8} (h : Usable s) (ht : s.output buf = some t) :
    Usable t := by
  unfold LogDump.output at ht
  split_ifs at ht
  · exact Option.some.inj ht ▸ h
  · obtain ⟨u, hu, rfl⟩ := Option.map_eq_some_iff.1 ht
    have husable := h.outputRounds hu
    exact ⟨husable.f_lt, husable.w_lt, husable.formed, husable.place, husable.ready⟩

theorem Usable.eraseSector (h : Usable s) (haligned : s.flashOffs % logDumpSectorSize = 0)
    (ht : s.eraseSector = some t) : Usable t := by
  unfold LogDump.eraseSector at ht
  split_ifs at ht
  obtain rfl := Option.some.inj ht
  refine ⟨h.f_lt, h.w_lt, h.formed, ?_, fun _ => haligned⟩
  change s.flashOffs < (s.flash.set s.sector .erased).length * logDumpSectorSize
  rw [List.length_set]
  exact h.place

/-- The sector of the flash offset lies in the log area. -/
theorem Usable.sector_lt (h : Usable s) : s.sector < s.flash.length :=
  Nat.div_lt_of_lt_mul (Nat.mul_comm _ _ ▸ h.place)

/-- What a write leaves. -/
structure WritesTo (s t : LogDump) : Prop where
  buffers : t.dataBufferList = update s.dataBufferList s.fSeqnum { s.fBuffer with state := .free }
  f_eq : t.fSeqnum = nextSeqnum s.fSeqnum
  w_eq : t.wSeqnum = s.wSeqnum
  offs : t.flashOffs = if s.flash.length * logDumpSectorSize ≤ s.flashOffs + s.fBuffer.offset then 0
    else s.flashOffs + s.fBuffer.offset
  idle : t.flashState = .idle
  length : t.flash.length = s.flash.length
  stored : ∃ x : Nat × Sector, t.stored = s.stored ++ [x] ∧ x.2.header = s.fBuffer.header ∧
    s.fBuffer.body <+: x.2.body

theorem writesTo_of_writeSector (ht : s.writeSector = some t) : WritesTo s t := by
  unfold LogDump.writeSector at ht
  cases hold : s.flash[s.sector]? with
  | none => simp [hold] at ht
  | some old =>
    rw [hold] at ht
    obtain rfl := Option.some.inj ht
    exact ⟨rfl, rfl, rfl, rfl, rfl, List.length_set, _, rfl, rfl, List.prefix_append _ _⟩

theorem Usable.exists_writeSector (h : Usable s) : ∃ t, s.writeSector = some t := by
  simp [LogDump.writeSector, List.getElem?_eq_getElem h.sector_lt]

theorem Usable.of_writesTo (h : Usable s) (ht : WritesTo s t) (hpos : 0 < s.flash.length) :
    Usable t where
  f_lt := ht.f_eq ▸ nextSeqnum_lt h.f_lt
  w_lt := ht.w_eq ▸ h.w_lt
  formed := by
    rw [ht.buffers]
    exact formed_update h.formed (formed_free _ _ _) _
  place := by
    rw [ht.offs, ht.length]
    split_ifs with hend
    · exact Nat.mul_pos hpos (by decide)
    · exact Nat.not_le.1 hend
  ready hne := absurd ht.idle hne

/-- `_log_dump_flush` does one of three things. -/
theorem flushBuffer_cases {buffState : DataBufferState → Bool} {accepted : Bool}
    (h : s.flushBuffer buffState accepted = some t) :
    (s.flashState = .idle ∧ s.flashOffs % logDumpSectorSize = 0 ∧ s.eraseSector = some t) ∨
      (s.flashState ≠ .idle ∧ buffState s.fBuffer.state = true ∧ s.writeSector = some t) ∨
      (t = s ∨ s.flashState ≠ .idle ∧ t = { s with flashState := .writting }) := by
  unfold LogDump.flushBuffer at h
  split_ifs at h with hidle _ hbusy hbuf
  · exact .inl ⟨hidle.1, hidle.2, h⟩
  · exact .inr (.inr (.inl (Option.some.inj h).symm))
  · refine .inr (.inl ⟨fun hi => ?_, hbuf.1, h⟩)
    rw [hi] at hbusy
    simp at hbusy
  · refine .inr (.inr (.inr ⟨fun hi => ?_, (Option.some.inj h).symm⟩))
    rw [hi] at hbusy
    simp at hbusy
  · exact .inr (.inr (.inl (Option.some.inj h).symm))
  · exact .inr (.inr (.inl (Option.some.inj h).symm))

theorem Usable.flushBuffer {buffState : DataBufferState → Bool} {accepted : Bool} (h : Usable s)
    (ht : s.flushBuffer buffState accepted = some t) : Usable t := by
  rcases flushBuffer_cases ht with ⟨_, haligned, herase⟩ | ⟨_, _, hwrite⟩ | rfl | ⟨hne, rfl⟩
  · exact h.eraseSector haligned herase
  · exact h.of_writesTo (writesTo_of_writeSector hwrite) (Nat.zero_lt_of_lt h.sector_lt)
  · exact h
  · exact ⟨h.f_lt, h.w_lt, h.formed, h.place, fun _ => h.ready hne⟩

theorem Usable.flushRound (h : Usable s) (ht : s.flushRound = some t) : Usable t := by
  unfold LogDump.flushRound at ht
  exact h.flushBuffer ht

theorem Usable.flushRemain {fuel : Nat} (h : Usable s) (ht : s.flushRemain fuel = some t) :
    Usable t := by
  induction fuel generalizing s with
  | zero => cases ht
  | succ fuel ih =>
    rw [LogDump.flushRemain] at ht
    split_ifs at ht
    · exact Option.some.inj ht ▸ h
    · obtain ⟨u, hu, hrest⟩ := Option.bind_eq_some_iff.1 ht
      exact ih (h.flushRound hu) hrest

theorem Usable.immediately (h : Usable s) : Usable { s with isImmediately := true } :=
  ⟨h.f_lt, h.w_lt, h.formed, h.place, h.ready⟩

theorem Usable.call {c : LogCall} (h : Usable s) (ht : s.call c = some t) : Usable t := by
  cases c with
  | output buf => exact h.output ht
  | flush accepted =>
    have hflush : s.flush accepted = some t := ht
    exact h.flushBuffer hflush
  | flushAll rounds => exact h.immediately.flushRemain ht
  | crashStart => exact Option.some.inj ht ▸ h.immediately
  | crashEnd rounds => exact h.flushRemain ht

/-! ### The rounds of the loop -/

/-- A round does one of three things: it erases the next sector, it writes a buffer that is in use,
or it leaves everything as it is. -/
theorem flushRound_cases (h : Usable s) :
    (s.flashState = .idle ∧ s.flashOffs % logDumpSectorSize = 0 ∧ ∃ flash, s.flushRound =
        some { s with flash := flash, flashState := .erased } ∧ flash.length = s.flash.length) ∨
      (s.flashState ≠ .idle ∧ s.fBuffer.state ≠ .free ∧ ∃ t, s.flushRound = some t ∧
        WritesTo s t) ∨
      ((s.flashState = .idle → s.flashOffs % logDumpSectorSize ≠ 0) ∧
        (s.flashState ≠ .idle → s.fBuffer.state = .free) ∧ s.flushRound = some s) := by
  have hactive : (decide (s.fBuffer.state = .writting ∨ s.fBuffer.state = .written) = true) ↔
      s.fBuffer.state ≠ .free := by
    cases s.fBuffer.state <;> decide
  by_cases hidle : s.flashState = .idle
  · by_cases haligned : s.flashOffs % logDumpSectorSize = 0
    · refine .inl ⟨hidle, haligned, s.flash.set s.sector .erased, ?_, List.length_set⟩
      rw [LogDump.flushRound, LogDump.flushBuffer, if_pos ⟨hidle, haligned⟩, if_pos rfl,
        LogDump.eraseSector, if_pos h.sector_lt]
    · refine .inr (.inr ⟨fun _ => haligned, fun hne => absurd hidle hne, ?_⟩)
      rw [LogDump.flushRound, LogDump.flushBuffer, if_neg fun h => haligned h.2, if_neg]
      simp [hidle]
  · have hbusy : s.flashState = .erased ∨ s.flashState = .writting := by
      cases hs : s.flashState with
      | idle => exact absurd hs hidle
      | erased => exact .inl rfl
      | writting => exact .inr rfl
    have hround : s.flushRound = if (decide (s.fBuffer.state = .writting ∨
        s.fBuffer.state = .written) = true) ∧ 0 < s.fBuffer.offset then
        s.writeSector else some s := by
      rw [LogDump.flushRound, LogDump.flushBuffer, if_neg fun h => hidle h.1, if_pos hbusy]
      rfl
    by_cases hfree : s.fBuffer.state = .free
    · refine .inr (.inr ⟨fun hi => absurd hi hidle, fun _ => hfree, ?_⟩)
      rw [hround, if_neg fun h => hactive.1 h.1 hfree]
    · have hbody := (h.formed s.fSeqnum).body hfree
      have hoffset : 0 < s.fBuffer.offset :=
        Nat.lt_of_lt_of_le (Nat.zero_lt_succ 15) (hbody ▸ Nat.le_add_left _ _)
      obtain ⟨t, ht⟩ := h.exists_writeSector
      refine .inr (.inl ⟨hidle, hfree, t, ?_, writesTo_of_writeSector ht⟩)
      rw [hround, if_pos ⟨hactive.2 hfree, hoffset⟩, ht]

theorem flushRemain_succ {fuel : Nat} (hall : ¬ s.AllFree) :
    s.flushRemain (fuel + 1) = s.flushRound.bind (LogDump.flushRemain fuel) := by
  rw [LogDump.flushRemain, if_neg hall]

theorem Handed.refl (h : s.AllFree) : Handed s s :=
  ⟨[], (List.append_nil _).symm, fun p hp hne => absurd (h p hp) hne⟩

/-- The loop only ends when every buffer is free, and then what was in them is written. -/
theorem handed_of_flushRemain {fuel : Nat} (h : Usable s) (ht : s.flushRemain fuel = some t) :
    t.AllFree ∧ Handed s t := by
  induction fuel generalizing s with
  | zero => cases ht
  | succ fuel ih =>
    by_cases hall : s.AllFree
    · rw [LogDump.flushRemain, if_pos hall] at ht
      obtain rfl := Option.some.inj ht
      exact ⟨hall, .refl hall⟩
    · rw [flushRemain_succ hall] at ht
      rcases flushRound_cases h with ⟨_, _, flash, hu, _⟩ | ⟨_, hne, u, hu, hwrites⟩ | ⟨_, _, hu⟩
      · rw [hu] at ht
        have hrest := ih (h.flushRound hu) ht
        exact hrest
      · rw [hu] at ht
        obtain ⟨hfree, added, hstored, hhanded⟩ := ih (h.flushRound hu) ht
        obtain ⟨x, hx, hheader, hbody⟩ := hwrites.stored
        refine ⟨hfree, x :: added, ?_, fun p hp hstate => ?_⟩
        · rw [hstored, hx, List.append_assoc, List.singleton_append]
        · by_cases hpf : p = s.fSeqnum
          · rw [hpf]
            exact ⟨x, List.mem_cons_self, hheader, hbody⟩
          · have hsame : u.dataBufferList p = s.dataBufferList p := by
              rw [hwrites.buffers, Function.update_of_ne hpf]
            rw [← hsame] at hstate ⊢
            obtain ⟨y, hy, hrest⟩ := hhanded p hp hstate
            exact ⟨y, List.mem_cons_of_mem _ hy, hrest⟩
      · rw [hu] at ht
        exact ih h ht

theorem completes_iff_exists (h : Usable s) :
    Completes s ↔ ∃ fuel t, s.flushRemain fuel = some t := by
  constructor
  · rintro ⟨fuel, t, ht, -⟩
    exact ⟨fuel, t, ht⟩
  · rintro ⟨fuel, t, ht⟩
    exact ⟨fuel, t, ht, handed_of_flushRemain h ht⟩

/-! ### When the loop ends -/

theorem fBuffer_eq_buffer (h : Usable s) : s.fBuffer = s.buffer 0 := by
  rw [LogDump.fBuffer, LogDump.buffer, Nat.add_zero, Nat.mod_eq_of_lt h.f_lt]

/-- Every buffer lies at some distance from the flush index. -/
theorem allFree_iff (h : s.fSeqnum < logDumpSectorBufferCount) :
    s.AllFree ↔ s.Consecutive 0 := by
  constructor
  · intro hall k hk
    exact ⟨by simp [LogDump.buffer, hall _ (Nat.mod_lt _ (Nat.zero_lt_of_lt hk))], by omega⟩
  · intro hcons p hp
    have hidx :
      (s.fSeqnum + (p + logDumpSectorBufferCount - s.fSeqnum) % logDumpSectorBufferCount) %
        logDumpSectorBufferCount = p := by
      rw [Nat.add_mod_mod, show s.fSeqnum + (p + logDumpSectorBufferCount - s.fSeqnum) =
        p + logDumpSectorBufferCount by omega, Nat.add_mod_right, Nat.mod_eq_of_lt hp]
    have hfree := (hcons _ (Nat.mod_lt (p + logDumpSectorBufferCount - s.fSeqnum)
      (Nat.zero_lt_of_lt hp))).1
    rw [LogDump.buffer, hidx] at hfree
    simpa using hfree

/-- A write takes the first of the buffers in use. -/
theorem consecutive_writesTo (h : Usable s) (hwrites : WritesTo s t) (hne : s.fBuffer.state ≠ .free)
    (hm : m < logDumpSectorBufferCount) :
    s.Consecutive (m + 1) ↔ t.Consecutive m ∧ (m ≠ 0 → s.fBuffer.state = .written) := by
  have hbuffer : ∀ k < logDumpSectorBufferCount, t.buffer k =
      if k + 1 = logDumpSectorBufferCount then
      { s.fBuffer with state := .free } else s.buffer (k + 1) :=
    fun k hk => buffer_pop h.f_lt hwrites.buffers hwrites.f_eq hk
  have hnext : ∀ k, k + 1 < logDumpSectorBufferCount → t.buffer k = s.buffer (k + 1) := by
    intro k hk
    rw [hbuffer k (by omega), if_neg (by omega)]
  rw [fBuffer_eq_buffer h] at hne ⊢
  constructor
  · intro hcons
    refine ⟨fun k hk => ?_, fun hm0 => (hcons 0 (Nat.zero_lt_of_lt hm)).2 (by omega)⟩
    by_cases hlast : k + 1 = logDumpSectorBufferCount
    · rw [hbuffer k hk, if_pos hlast]
      exact ⟨by simp; omega, by omega⟩
    · rw [hnext k (by omega)]
      have hk' := hcons (k + 1) (by omega)
      exact ⟨by rw [hk'.1]; omega, fun hlt => hk'.2 (by omega)⟩
  · rintro ⟨hcons, hfull⟩ k hk
    cases k with
    | zero => exact ⟨by simp [hne], fun hlt => hfull (by omega)⟩
    | succ k =>
      have hk' := hcons k (by omega)
      rw [hnext k hk] at hk'
      exact ⟨by rw [hk'.1]; omega, fun hlt => hk'.2 (by omega)⟩

/-- Behind a write the flash offset is the start of a sector exactly when the buffer was full. -/
theorem aligned_writesTo (h : Usable s) (hwrites : WritesTo s t) (hne : s.fBuffer.state ≠ .free)
    (haligned : s.flashOffs % logDumpSectorSize = 0) :
    t.flashOffs % logDumpSectorSize = 0 ↔ s.fBuffer.state = .written := by
  have hformed := h.formed s.fSeqnum
  have hplace := h.place
  have hoffs := hwrites.offs
  cases hstate : s.fBuffer.state with
  | free => exact absurd hstate hne
  | writting =>
    obtain ⟨hpos, hlt⟩ := hformed.writting hstate
    change _ ≤ s.fBuffer.offset at hpos
    change s.fBuffer.offset < _ at hlt
    refine ⟨fun h => ?_, fun h => by cases h⟩
    obtain ⟨q, hq⟩ := Nat.dvd_of_mod_eq_zero haligned
    rw [hq, Nat.mul_comm] at hplace
    have hqlt : q < s.flash.length := Nat.lt_of_mul_lt_mul_right hplace
    have hnext : (q + 1) * logDumpSectorSize ≤ s.flash.length * logDumpSectorSize :=
      Nat.mul_le_mul_right _ hqlt
    rw [Nat.succ_mul, Nat.mul_comm q, ← hq] at hnext
    rw [hoffs, if_neg (by omega), Nat.add_mod, haligned, Nat.zero_add, Nat.mod_mod,
      Nat.mod_eq_of_lt hlt] at h
    unfold logDumpHeaderSize at hpos
    omega
  | written =>
    have hfull : s.fBuffer.offset = logDumpSectorSize := hformed.written hstate
    refine ⟨fun _ => rfl, fun _ => ?_⟩
    rw [hoffs, hfull]
    split_ifs
    · rfl
    · rw [Nat.add_mod_right, haligned]

/-- The buffers in use are written one after the other. -/
theorem exists_flushRemain (h : Usable s) (haligned : s.flashOffs % logDumpSectorSize = 0)
    (hm : m ≤ logDumpSectorBufferCount) (hcons : s.Consecutive m) :
    ∃ fuel t, s.flushRemain fuel = some t := by
  induction m generalizing s with
  | zero => exact ⟨1, s, if_pos ((allFree_iff h.f_lt).2 hcons)⟩
  | succ m ih =>
    have hwrite : ∀ u : LogDump, Usable u → u.flashOffs % logDumpSectorSize = 0 →
        u.flashState ≠ .idle → u.Consecutive (m + 1) → ∃ fuel t, u.flushRemain fuel = some t := by
      intro u h haligned hbusy hcons
      have hne : u.fBuffer.state ≠ .free := by
        rw [fBuffer_eq_buffer h]
        exact (hcons 0 (by decide)).1.2 (Nat.succ_pos m)
      have hall : ¬ u.AllFree := fun hall => hne (hall _ h.f_lt)
      rcases flushRound_cases h with ⟨hidle, _⟩ | ⟨_, _, v, hv, hwrites⟩ | ⟨_, hfree, _⟩
      · exact absurd hidle hbusy
      · obtain ⟨hrest, hfull⟩ := (consecutive_writesTo h hwrites hne (by omega)).1 hcons
        obtain ⟨fuel, t, ht⟩ : ∃ fuel t, v.flushRemain fuel = some t := by
          by_cases hm0 : m = 0
          · rw [hm0] at hrest
            exact ⟨1, v, if_pos ((allFree_iff (h.flushRound hv).f_lt).2 hrest)⟩
          · exact ih (h.flushRound hv) ((aligned_writesTo h hwrites hne haligned).2 (hfull hm0))
              (by omega) hrest
        exact ⟨fuel + 1, t, by rw [flushRemain_succ hall, hv, Option.bind_some, ht]⟩
      · exact absurd (hfree hbusy) hne
    by_cases hidle : s.flashState = .idle
    · have hall : ¬ s.AllFree := by
        rw [allFree_iff h.f_lt]
        exact fun hzero => absurd ((hcons 0 (by decide)).1.2 (Nat.succ_pos m))
          (by simp [(hzero 0 (by decide)).1])
      rcases flushRound_cases h with ⟨_, _, flash, hu, _⟩ | ⟨hbusy, _⟩ | ⟨hstuck, _⟩
      · obtain ⟨fuel, t, ht⟩ := hwrite _ (h.flushRound hu) haligned (by simp) hcons
        exact ⟨fuel + 1, t, by rw [flushRemain_succ hall, hu, Option.bind_some, ht]⟩
      · exact absurd hidle hbusy
      · exact absurd haligned (hstuck hidle)
    · exact hwrite s h haligned hidle hcons

/-- A loop that ends has written the buffers in use one after the other. -/
theorem flushable_of_flushRemain {fuel : Nat} (h : Usable s) (ht : s.flushRemain fuel = some t) :
    Flushable s := by
  induction fuel generalizing s with
  | zero => cases ht
  | succ fuel ih =>
    by_cases hall : s.AllFree
    · exact .inl hall
    · rw [flushRemain_succ hall] at ht
      rcases flushRound_cases h with ⟨_, haligned, flash, hu, _⟩ | ⟨hbusy, hne, u, hu, hwrites⟩ |
        ⟨_, _, hu⟩
      · rw [hu] at ht
        rcases ih (h.flushRound hu) ht with hfree | ⟨_, hcons⟩
        · exact absurd hfree hall
        · exact .inr ⟨haligned, hcons⟩
      · rw [hu] at ht
        have husable := h.flushRound hu
        have hready := h.ready hbusy
        refine .inr ⟨hready, ?_⟩
        rcases ih husable ht with hfree | ⟨haligned, m, hm, hcons⟩
        · refine ⟨1, by decide, (consecutive_writesTo h hwrites hne (by decide)).2 ⟨?_, by simp⟩⟩
          exact (allFree_iff husable.f_lt).1 hfree
        · have hfull := (aligned_writesTo h hwrites hne hready).1 haligned
          -- the buffer just written is the last one of the ring
          have hlast : u.buffer (logDumpSectorBufferCount - 1) =
              { s.fBuffer with state := .free } := by
            rw [buffer_pop h.f_lt hwrites.buffers hwrites.f_eq (by decide), if_pos (by decide)]
          have hlt : ¬ logDumpSectorBufferCount - 1 < m := fun hlt =>
            (hcons (logDumpSectorBufferCount - 1) (by decide)).1.2 hlt (by rw [hlast])
          have hm' : m < logDumpSectorBufferCount := by
            have : 0 < logDumpSectorBufferCount := by decide
            omega
          exact ⟨m + 1, hm', (consecutive_writesTo h hwrites hne hm').2 ⟨hcons, fun _ => hfull⟩⟩
      · rw [hu] at ht
        exact ih h ht

/-- The loop ends exactly when nothing stands in its way. -/
theorem completes_iff (h : Usable s) : Completes s ↔ Flushable s := by
  rw [completes_iff_exists h]
  constructor
  · rintro ⟨fuel, t, ht⟩
    exact flushable_of_flushRemain h ht
  · rintro (hfree | ⟨haligned, m, hm, hcons⟩)
    · exact ⟨1, s, if_pos hfree⟩
    · exact exists_flushRemain h haligned hm hcons

/-! ### Runs -/

theorem usable_of_run {sec : Sector} {rest : List Sector} {cs : List LogCall}
    (h : cs.foldlM LogDump.call (logDumpInit (sec :: rest)) = some s) : Usable s :=
  (along_of_forall (fun _ _ => trivial) _ cs : Along _ (fun _ _ => True) _ cs).preserves
    (fun _ _ _ hs _ ht => hs.call ht) h (usable_logDumpInit sec rest)

/-- In every state that is reached, the loop ends exactly when nothing stands in its way. -/
theorem completes_run_iff (sec : Sector) (rest : List Sector) (cs : List LogCall)
    (h : cs.foldlM LogDump.call (logDumpInit (sec :: rest)) = some s) :
    Completes s ↔ Flushable s :=
  completes_iff (usable_of_run h)

/-- The output of one byte is flushed. -/
theorem completes_run_output : ∃ s, [LogCall.output [65]].foldlM LogDump.call
    (logDumpInit [.erased, .erased]) = some s ∧ Completes s := by
  have hrun : ([LogCall.output [65]].foldlM LogDump.call (logDumpInit [.erased, .erased])).any
      (fun s => decide (Flushable s)) = true := by decide +kernel
  obtain ⟨s, hs, hflushable⟩ := Option.any_eq_true _ _ |>.1 hrun
  exact ⟨s, hs, (completes_run_iff _ _ _ hs).2 (of_decide_eq_true hflushable)⟩

/-- Behind a buffer of seventeen bytes, the flash offset is not the start of a sector any more, and
the output of another byte cannot be flushed. -/
theorem not_completes_partial : ∃ s, [LogCall.output [65], .flushAll 3, .output [66]].foldlM
    LogDump.call (logDumpInit [.erased, .erased]) = some s ∧ ¬ Completes s := by
  have hrun : ([LogCall.output [65], .flushAll 3, .output [66]].foldlM LogDump.call
      (logDumpInit [.erased, .erased])).any (fun s => !decide (Flushable s)) = true := by
    decide +kernel
  obtain ⟨s, hs, hflushable⟩ := Option.any_eq_true _ _ |>.1 hrun
  refine ⟨s, hs, fun hcompletes => ?_⟩
  have hyes := (completes_iff (usable_of_run hs)).1 hcompletes
  simp [hyes] at hflushable

end EarbudFirmware.LogSection
