import EarbudFirmware.Nv.LogSection

/-!
# The order of the log sectors

The buffers that are full and not flushed yet lie behind the flush index, with consecutive numbers;
the one that is being filled comes next. When all sixteen are full, the next output opens the oldest
of them again, and the other ones stay in the ring as leftovers. The flusher that has caught up with
the output meets them, and then writes old numbers behind new ones.

## Main definitions

* `RingOf`, `AreaOf` — what the buffers and the log area hold
* `NumbersLeft` — the numbers have not overflowed
* `NotOverrun` — no leftover is flushed

## Main results

* `Inv.output`, `Inv.flush_iff` — the two operations
* `inOrder_run_iff` — the runs that store the sectors in order
-/

namespace EarbudFirmware.LogSection

open Function (update)
open Transition

variable {s t : LogDump} {b : DataBuffer} {base d k n : Nat} {op : Bool} {given : List UInt8}

/-! ### Buffers -/

/-- The offset of a buffer that is in use. -/
structure DataBuffer.Formed (b : DataBuffer) : Prop where
  written : b.state = .written → b.offset = logDumpSectorSize
  writting : b.state = .writting → logDumpHeaderSize ≤ b.offset ∧ b.offset < logDumpSectorSize
  body : b.state ≠ .free → b.body.length + logDumpHeaderSize = b.offset

/-- The buffer has the header of a log sector, with the number `n`. -/
structure DataBuffer.Numbered (b : DataBuffer) (n : Nat) : Prop where
  magic : b.header.magic = dumpLogMagic
  version : b.header.version = dumpLogVersion
  seqnum : b.header.seqnum = .ofNat n

/-- The buffer `k` places behind the one that is flushed next. -/
def LogDump.buffer (s : LogDump) (k : Nat) : DataBuffer :=
  s.dataBufferList ((s.fSeqnum + k) % logDumpSectorBufferCount)

/-- Behind the flush index there are `d` full buffers, numbered from `base` on, and with `op` one
that is being filled. A full buffer elsewhere is a leftover. -/
structure RingOf (s : LogDump) (base d : Nat) (op : Bool) : Prop where
  f_lt : s.fSeqnum < logDumpSectorBufferCount
  w_eq : s.wSeqnum = (s.fSeqnum + d) % logDumpSectorBufferCount
  le : d + op.toNat ≤ logDumpSectorBufferCount
  count : s.curDumpSeqnum = base + d + op.toNat
  formed : ∀ k < logDumpSectorBufferCount, (s.buffer k).Formed
  closed : ∀ k < d, (s.buffer k).state = .written
  opened : op = true → (s.buffer d).state = .writting
  others : ∀ k, d + op.toNat ≤ k → k < logDumpSectorBufferCount → (s.buffer k).state ≠ .writting
  numbered : ∀ k < d + op.toNat, (s.buffer k).Numbered (base + k)
  older : ∀ k < logDumpSectorBufferCount, (s.buffer k).state = .written →
    ∃ n < s.curDumpSeqnum, (s.buffer k).header.seqnum = .ofNat n
  leftover : d = 0 → op = false → (s.buffer 0).state = .written →
    (s.buffer (logDumpSectorBufferCount - 1)).state = .free ∧ 0 < s.curDumpSeqnum ∧
      ∃ x, s.stored.getLast? = some x ∧ x.2.header.seqnum = .ofNat (s.curDumpSeqnum - 1)

/-- The log area, whose sectors have numbers below `base`. -/
structure AreaOf (s : LogDump) (base : Nat) : Prop where
  aligned : s.flashOffs % logDumpSectorSize = 0
  place : s.sector = 0 ∨ s.sector < s.flash.length
  ready : s.flashState ≠ .idle → s.flash[s.sector]? = some .erased
  numbers : ∀ sec ∈ s.flash, sec.valid → sec.header.seqnum.toNat < base
  first : base = 0 → s.flashOffs = 0
  history : ∀ x ∈ s.stored, x.2.header.seqnum.toNat < base ∧ x.2.valid ∧
    x.2.header.seqnum.toNat + 1 < 0x100000000
  increasing : (s.stored.map fun x => x.2.header.seqnum).Pairwise (· < ·)
  around : s.stored.IsChain fun x y => y.1 = (x.1 + 1) % s.flash.length
  next : ∀ x, s.stored.getLast? = some x → x.1 < s.flash.length ∧
    s.sector = (x.1 + 1) % s.flash.length
  kept : ∀ x, s.stored.getLast? = some x → s.flash.length ≠ 1 → s.flash[x.1]? = some x.2
  zero : ∀ x, s.stored.getLast? = some x → x.2.header.seqnum = 0 → x.1 = 0
  newest : ∀ x, s.stored.getLast? = some x → ∀ j sec, s.flash[j]? = some sec → sec.valid →
    sec.header.seqnum ≤ x.2.header.seqnum ∧ (j ≠ x.1 → sec.header.seqnum < x.2.header.seqnum)

/-- The output in the `m` buffers behind the flush index. -/
def LogDump.bodies (s : LogDump) (m : Nat) : List UInt8 :=
  ((List.range m).map fun k => (s.buffer k).body).flatten

/-- The output that is stored or waits behind the flush index is output of `given`, in its order. -/
def DataOf (s : LogDump) (m : Nat) (given : List UInt8) : Prop :=
  ((s.stored.map fun x => x.2.body).flatten ++ s.bodies m).Sublist given

/-- What holds in every state that is reached without flushing a leftover. -/
def Inv (s : LogDump) (given : List UInt8) : Prop :=
  ∃ base d op, RingOf s base d op ∧ AreaOf s base ∧ DataOf s (d + op.toNat) given

theorem header_lt : logDumpHeaderSize < logDumpSectorSize := by decide

theorem AreaOf.mono (h : AreaOf s n) (hle : n ≤ base) : AreaOf s base where
  aligned := h.aligned
  place := h.place
  ready := h.ready
  numbers sec hsec hv := Nat.lt_of_lt_of_le (h.numbers sec hsec hv) hle
  first hzero := h.first (by omega)
  history x hx := ⟨Nat.lt_of_lt_of_le (h.history x hx).1 hle, (h.history x hx).2⟩
  increasing := h.increasing
  around := h.around
  next := h.next
  kept := h.kept
  zero := h.zero
  newest := h.newest

/-- A start does not resume above the numbers of the log area. -/
theorem getSeqnum_le {flash : List Sector}
    (h : ∀ sec ∈ flash, sec.valid → sec.header.seqnum.toNat < base) :
    (getSeqnum flash).1 ≤ base := by
  obtain ⟨hex, -, -, hwhich⟩ := foldl_scanSector flash 0 (false, 0, 0)
  rw [fst_getSeqnum]
  split_ifs with hfound
  · rw [hex, Bool.false_or] at hfound
    obtain ⟨x, hx, hxv⟩ := List.any_eq_true.1 hfound
    have hbase := h x hx hxv
    rcases hwhich with heq | ⟨k, y, hy, hyv, -, heq⟩
    · rw [heq]
      exact Nat.succ_le_of_lt (Nat.lt_of_le_of_lt (Nat.zero_le _) hbase)
    · rw [heq]
      exact Nat.succ_le_of_lt (h y (List.mem_of_getElem? hy) hyv)
  · exact Nat.zero_le _

theorem Inv.inOrder (h : Inv s s.given) : InOrder s := by
  obtain ⟨base, d, op, -, harea, hdata⟩ := h
  have hmax : ∀ x, s.stored.getLast? = some x → ∀ sec ∈ s.flash, sec.valid →
      sec.header.seqnum.toNat < x.2.header.seqnum.toNat + 1 := by
    intro x hx sec hsec hv
    obtain ⟨j, hj⟩ := List.getElem?_of_mem hsec
    exact Nat.lt_succ_of_le (harea.newest x hx j sec hj hv).1
  refine ⟨harea.increasing, harea.around, harea.kept, fun x hx hstored => ?_,
    fun hne sec hsec hv => ?_,
    (List.sublist_append_left _ _).trans hdata⟩
  · refine getSeqnum_of_newest hstored (harea.history x (List.mem_of_getLast? hx)).2.1
      (harea.zero x hx) fun j sec hj hv hne => ?_
    exact (harea.newest x hx j sec hj hv).2 hne
  · obtain ⟨x, hx⟩ : ∃ x, s.stored.getLast? = some x := ⟨_, List.getLast?_eq_getLast_of_ne_nil hne⟩
    have hle := getSeqnum_le (hmax x hx)
    have hlt := (harea.history x (List.mem_of_getLast? hx)).2.2
    rw [Nat.mod_eq_of_lt (by omega)]
    exact lt_getSeqnum hsec hv

theorem inv_logDumpInit (flash : List Sector) : Inv (logDumpInit flash) [] := by
  refine ⟨(getSeqnum flash).1, 0, false, ?_, ?_, List.Sublist.refl _⟩
  · exact
      { f_lt := Nat.zero_lt_succ 15
        w_eq := rfl
        le := Nat.zero_le 16
        count := rfl
        formed := fun k _ => ⟨fun h => (by cases h), fun h => (by cases h), fun h => absurd rfl h⟩
        closed := fun k hk => absurd hk (Nat.not_lt_zero k)
        opened := fun h => (by cases h)
        others := fun k _ _ h => (by cases h)
        numbered := fun k hk => absurd hk (Nat.not_lt_zero k)
        older := fun k _ h => (by cases h)
        leftover := fun _ _ h => (by cases h) }
  · have hsector : (logDumpInit flash).sector = (getSeqnum flash).2 :=
      Nat.mul_div_cancel _ (Nat.zero_lt_succ _)
    refine ⟨Nat.mul_mod_left _ _, ?_, fun h => absurd rfl h,
      fun sec hsec hv => lt_getSeqnum hsec hv, fun h => ?_, by simp [logDumpInit], .nil, .nil,
      by simp [logDumpInit], by simp [logDumpInit], by simp [logDumpInit], by simp [logDumpInit]⟩
    · rw [hsector]
      exact snd_getSeqnum flash
    · change (getSeqnum flash).2 * logDumpSectorSize = 0
      rw [snd_getSeqnum_of_zero h, Nat.zero_mul]

/-! ### Output -/

theorem AreaOf.withBuffers (h : AreaOf s base) (dataBufferList : Nat → DataBuffer)
    (wSeqnum curDumpSeqnum : Nat) (isBootup : Bool) :
    AreaOf { s with
      dataBufferList := dataBufferList
      wSeqnum := wSeqnum
      curDumpSeqnum := curDumpSeqnum
      isBootup := isBootup } base :=
  ⟨h.aligned, h.place, h.ready, h.numbers, h.first, h.history, h.increasing, h.around, h.next,
    h.kept,
    h.zero, h.newest⟩

/-- One buffer of the ring is overwritten. -/
theorem buffer_update (hd : d < logDumpSectorBufferCount) (hk : k < logDumpSectorBufferCount)
    (hf : t.fSeqnum = s.fSeqnum) (ht : t.dataBufferList = update s.dataBufferList
      ((s.fSeqnum + d) % logDumpSectorBufferCount) b) :
    t.buffer k = if k = d then b else s.buffer k := by
  unfold LogDump.buffer
  rw [ht, hf, Function.update_apply]
  split_ifs with hidx hkd hkd
  · rfl
  · exact absurd hidx (Ring.index_ne hk hd hkd)
  · exact absurd (hkd ▸ rfl) hidx
  · rfl

@[simp] theorem bodies_zero : s.bodies 0 = [] := rfl

theorem bodies_succ : s.bodies (k + 1) = s.bodies k ++ (s.buffer k).body := by
  simp [LogDump.bodies, List.range_succ]

theorem bodies_congr (h : ∀ k < n, (t.buffer k).body = (s.buffer k).body) :
    t.bodies n = s.bodies n :=
  congrArg List.flatten (List.map_congr_left fun k hk => h k (List.mem_range.1 hk))

theorem RingOf.wBuffer_eq (h : RingOf s base d op) : s.wBuffer = s.buffer d := by
  rw [LogDump.wBuffer, h.w_eq, LogDump.buffer]

/-- A buffer that is being written goes on. -/
theorem openBuffer_of_writting (hstate : s.wBuffer.state = .writting)
    (hoffset : s.wBuffer.offset ≠ 0) : s.openBuffer = s := by
  have hself : update s.dataBufferList s.wSeqnum s.wBuffer = s.dataBufferList :=
    Function.update_eq_self _ _
  simp [LogDump.openBuffer, hstate, hoffset, hself]

/-- Another buffer is opened. -/
theorem openBuffer_of_ne (hstate : s.wBuffer.state ≠ .writting) :
    s.openBuffer = { s with
      dataBufferList := update s.dataBufferList s.wSeqnum
        ⟨.writting, logDumpHeaderSize, s.logHeader, []⟩
      isBootup := false
      curDumpSeqnum := s.curDumpSeqnum + 1 } := by
  have hclear : s.wBuffer.state = .free ∨ s.wBuffer.state = .written := by
    cases hs : s.wBuffer.state with
    | free => exact .inl rfl
    | writting => exact absurd hs hstate
    | written => exact .inr rfl
  simp [LogDump.openBuffer, hclear, DataBuffer.zero]

/-- The ring behind opening the buffer at the output index, with `e` full buffers before it. -/
theorem RingOf.opened_of (h : RingOf s base d op) {e : Nat} (he : e < logDumpSectorBufferCount)
    (hw : s.wSeqnum = (s.fSeqnum + e) % logDumpSectorBufferCount) (hcount : s.curDumpSeqnum = n + e)
    (hclosed : ∀ k < e, (s.buffer k).state = .written)
    (hothers : ∀ k < logDumpSectorBufferCount, (s.buffer k).state ≠ .writting)
    (hnumbered : ∀ k < e, (s.buffer k).Numbered (n + k)) :
    RingOf s.openBuffer n e true := by
  have hstate : s.wBuffer.state ≠ .writting := by
    rw [LogDump.wBuffer, hw]
    exact hothers e he
  obtain ⟨t, ht⟩ : ∃ t, t = s.openBuffer := ⟨_, rfl⟩
  rw [← ht]
  rw [openBuffer_of_ne hstate] at ht
  have hf : t.fSeqnum = s.fSeqnum := by rw [ht]
  have hbuffer : ∀ k < logDumpSectorBufferCount, t.buffer k = if k = e then
      ⟨.writting, logDumpHeaderSize, s.logHeader, []⟩ else s.buffer k :=
    fun k hk => buffer_update he hk hf (by rw [ht, ← hw])
  have hbefore : ∀ k < e, t.buffer k = s.buffer k := fun k hk => by
    rw [hbuffer k (by omega), if_neg (by omega)]
  refine ⟨hf ▸ h.f_lt, by rw [hf, ← hw, ht], he, by rw [ht, hcount]; rfl, fun k hk => ?_,
    fun k hk => ?_, fun _ => ?_, fun k hle hk => ?_, fun k hk => ?_, fun k hk hwr => ?_,
    fun _ h => (by cases h)⟩
  · rw [hbuffer k hk]
    split_ifs
    · exact ⟨fun h => (by cases h), fun _ => ⟨Nat.le_refl _, header_lt⟩, fun _ => rfl⟩
    · exact h.formed k hk
  · rw [hbefore k hk]
    exact hclosed k hk
  · rw [hbuffer e he, if_pos rfl]
  · rw [hbuffer k hk, if_neg (by simp at hle; omega)]
    exact hothers k hk
  · rw [hbuffer k (by simp at hk; omega)]
    split_ifs with hke
    · rw [hke]
      exact ⟨rfl, rfl, by rw [← hcount]; rfl⟩
    · exact hnumbered k (by simp at hk; omega)
  · rw [hbuffer k hk] at hwr ⊢
    split_ifs at hwr ⊢
    obtain ⟨n, hn, hnum⟩ := h.older k hk hwr
    exact ⟨n, by rw [ht]; exact Nat.lt_succ_of_lt hn, hnum⟩

/-- Behind opening, the ring has a buffer that is being filled. A full ring is given up for it. -/
theorem Inv.openBuffer (h : Inv s given) : ∃ base d, RingOf s.openBuffer base d true ∧
    AreaOf s.openBuffer base ∧ DataOf s.openBuffer (d + 1) given := by
  obtain ⟨base, d, op, hring, harea, hdata⟩ := h
  cases op with
  | true =>
    have hstate : s.wBuffer.state = .writting := hring.wBuffer_eq ▸ hring.opened rfl
    have hd : d < logDumpSectorBufferCount := hring.le
    have hoffset := ((hring.formed d hd).writting (hring.opened rfl)).1
    have hne : s.wBuffer.offset ≠ 0 := by
      rw [hring.wBuffer_eq]
      exact Nat.ne_of_gt (Nat.lt_of_lt_of_le (Nat.zero_lt_succ 15) hoffset)
    rw [openBuffer_of_writting hstate hne]
    exact ⟨base, d, hring, harea, hdata⟩
  | false =>
    have hle : d ≤ logDumpSectorBufferCount := hring.le
    have hcount : s.curDumpSeqnum = base + d := hring.count
    have hothers : ∀ k < logDumpSectorBufferCount, (s.buffer k).state ≠ .writting := by
      intro k hk
      rcases Nat.lt_or_ge k d with hkd | hkd
      · rw [hring.closed k hkd]
        exact fun h => by cases h
      · exact hring.others k hkd hk
    obtain ⟨e, n, he, hw, hn, hle, hclosed, hnumbered, hbodies⟩ : ∃ e n,
        e < logDumpSectorBufferCount ∧ s.wSeqnum = (s.fSeqnum + e) % logDumpSectorBufferCount ∧
        s.curDumpSeqnum = n + e ∧ base ≤ n ∧ (∀ k < e, (s.buffer k).state = .written) ∧
        (∀ k < e, (s.buffer k).Numbered (n + k)) ∧ (s.bodies e).Sublist (s.bodies d) := by
      rcases Nat.lt_or_ge d logDumpSectorBufferCount with hd | hd
      · exact ⟨d, base, hd, hring.w_eq, hcount, Nat.le_refl _, hring.closed, hring.numbered,
          List.Sublist.refl _⟩
      · obtain rfl : d = logDumpSectorBufferCount := Nat.le_antisymm hle hd
        refine ⟨0, s.curDumpSeqnum, Nat.zero_lt_succ 15, ?_, rfl, by omega, by simp, by simp,
          List.nil_sublist _⟩
        rw [hring.w_eq, Nat.add_mod_right, Nat.add_zero]
    have hstate : s.wBuffer.state ≠ .writting := by
      rw [LogDump.wBuffer, hw]
      exact hothers e he
    have hopen := openBuffer_of_ne hstate
    have hbuffer : ∀ k < logDumpSectorBufferCount, s.openBuffer.buffer k = if k = e then
        ⟨.writting, logDumpHeaderSize, s.logHeader, []⟩ else s.buffer k :=
      fun k hk => buffer_update he hk (by rw [hopen]) (by rw [hopen, ← hw])
    have hbodies' : s.openBuffer.bodies (e + 1) = s.bodies e := by
      rw [bodies_succ, hbuffer e he, if_pos rfl, List.append_nil]
      exact bodies_congr fun k hk => by rw [hbuffer k (by omega), if_neg (by omega)]
    refine ⟨n, e, hring.opened_of he hw hn hclosed hothers hnumbered, ?_, ?_⟩
    · rw [hopen]
      exact (harea.mono hle).withBuffers _ _ _ _
    · rw [DataOf, hbodies', show s.openBuffer.stored = s.stored by rw [hopen]]
      exact ((List.Sublist.refl _).append hbodies).trans hdata

theorem writeLen_le (buf : List UInt8) : s.writeLen buf ≤ buf.length := by
  unfold LogDump.writeLen
  split_ifs with h
  · have hmod := Nat.mod_le (s.wBuffer.offset + buf.length) 0x100000000
    omega
  · exact Nat.le_refl _

theorem nextSeqnum_eq (hk : k < logDumpSectorBufferCount) :
    nextSeqnum k = (k + 1) % logDumpSectorBufferCount := by
  unfold nextSeqnum logDumpSectorBufferCount at *
  split_ifs <;> omega

/-- The buffer behind a round. -/
def filled (s : LogDump) (buf : List UInt8) : DataBuffer :=
  { s.wBuffer with
    state := if s.wBuffer.offset + s.writeLen buf = logDumpSectorSize then .written
      else s.wBuffer.state
    offset := s.wBuffer.offset + s.writeLen buf
    body := s.wBuffer.body ++ buf.take (s.writeLen buf) }

theorem fillBuffer_eq_some {buf : List UInt8} (h : s.fillBuffer buf = some t) :
    (filled s buf).offset ≤ logDumpSectorSize ∧
      t = { s with dataBufferList := update s.dataBufferList s.wSeqnum (filled s buf) } := by
  have hdef : s.fillBuffer buf = if (filled s buf).offset ≤ logDumpSectorSize then
      some { s with dataBufferList := update s.dataBufferList s.wSeqnum (filled s buf) }
    else none := rfl
  rw [hdef] at h
  split_ifs at h with hle
  exact ⟨hle, (Option.some.inj h).symm⟩

/-- Filling the buffer: it is full, and the ring goes on to the next one, or it is still open. -/
theorem fillBuffer_spec (hring : RingOf s base d true) (harea : AreaOf s base)
    (hdata : DataOf s (d + 1) given) {buf : List UInt8} (h : s.fillBuffer buf = some t) :
    AreaOf t base ∧ DataOf t (d + 1) (given ++ buf.take (s.writeLen buf)) ∧
      (t.wBuffer.offset = logDumpSectorSize →
        RingOf { t with wSeqnum := nextSeqnum t.wSeqnum } base (d + 1) false) ∧
      (t.wBuffer.offset ≠ logDumpSectorSize → RingOf t base d true) := by
  obtain ⟨hle, ht⟩ := fillBuffer_eq_some h
  have hd : d < logDumpSectorBufferCount := hring.le
  have hstate : s.wBuffer.state = .writting := hring.wBuffer_eq ▸ hring.opened rfl
  have hformed : s.wBuffer.Formed := hring.wBuffer_eq ▸ hring.formed d hd
  have hlen : (filled s buf).body.length + logDumpHeaderSize = (filled s buf).offset := by
    have hbody := hformed.body (by rw [hstate]; exact fun h => by cases h)
    have htake := List.length_take_of_le (writeLen_le (s := s) buf)
    simp only [filled, List.length_append, htake]
    omega
  have hf : t.fSeqnum = s.fSeqnum := by rw [ht]
  have hbuffer : ∀ k < logDumpSectorBufferCount, t.buffer k = if k = d then filled s buf
      else s.buffer k := fun k hk => buffer_update hd hk hf (by rw [ht, ← hring.w_eq])
  have hbefore : ∀ k < d, t.buffer k = s.buffer k := fun k hk => by
    rw [hbuffer k (by omega), if_neg (by omega)]
  have hw : t.wBuffer = filled s buf := by
    rw [LogDump.wBuffer, ht]
    exact Function.update_self _ _ _
  have hnumbered : ∀ k < d + 1, (t.buffer k).Numbered (base + k) := by
    intro k hk
    rw [hbuffer k (by omega)]
    split_ifs with hkd
    · have hnum := hring.numbered k hk
      rw [hkd, ← hring.wBuffer_eq] at hnum
      rw [hkd]
      exact ⟨hnum.magic, hnum.version, hnum.seqnum⟩
    · exact hring.numbered k hk
  have hothers : ∀ k, d + 1 ≤ k → k < logDumpSectorBufferCount →
      (t.buffer k).state ≠ .writting := by
    intro k hdk hk
    rw [hbuffer k hk, if_neg (by omega)]
    exact hring.others k hdk hk
  have hcount : t.curDumpSeqnum = base + d + 1 := by rw [ht, hring.count]; rfl
  refine ⟨?_, ?_, fun hfull => ?_, fun hpart => ?_⟩
  · rw [ht]
    exact harea.withBuffers _ _ _ _
  · have hbodies : t.bodies (d + 1) = s.bodies (d + 1) ++ buf.take (s.writeLen buf) := by
      have hfront : t.bodies d = s.bodies d := bodies_congr fun k hk => by rw [hbefore k hk]
      rw [bodies_succ, bodies_succ, hbuffer d hd, if_pos rfl, hfront, List.append_assoc,
        ← hring.wBuffer_eq]
      rfl
    rw [DataOf, hbodies, show t.stored = s.stored by rw [ht], ← List.append_assoc]
    exact List.Sublist.append hdata (List.Sublist.refl _)
  · rw [hw] at hfull
    have hwritten : (filled s buf).state = .written := if_pos hfull
    refine ⟨hf ▸ hring.f_lt, ?_, hd, hcount, fun k hk => ?_, fun k hk => ?_, fun h => (by cases h),
      hothers, hnumbered, fun k hk hwr => ?_, fun h => absurd h (Nat.succ_ne_zero d)⟩
    · have hmod : s.wSeqnum < logDumpSectorBufferCount :=
        hring.w_eq ▸ Nat.mod_lt _ (Nat.zero_lt_succ 15)
      change nextSeqnum t.wSeqnum = (t.fSeqnum + (d + 1)) % logDumpSectorBufferCount
      rw [hf, show t.wSeqnum = s.wSeqnum by rw [ht], nextSeqnum_eq hmod, hring.w_eq,
        Nat.mod_add_mod,
        Nat.add_assoc]
    · change (t.buffer k).Formed
      rw [hbuffer k hk]
      split_ifs
      · exact ⟨fun _ => hfull, fun h => absurd (hwritten.symm.trans h) (by simp), fun _ => hlen⟩
      · exact hring.formed k hk
    · change (t.buffer k).state = .written
      rw [hbuffer k (by omega)]
      split_ifs with hkd
      · exact hwritten
      · exact hring.closed k (by omega)
    · change ∃ n < t.curDumpSeqnum, (t.buffer k).header.seqnum = .ofNat n
      rcases Nat.lt_or_ge k (d + 1) with hkd | hkd
      · exact ⟨base + k, by omega, (hnumbered k hkd).seqnum⟩
      · have hsame : t.buffer k = s.buffer k := by rw [hbuffer k hk, if_neg (by omega)]
        change (t.buffer k).state = .written at hwr
        rw [hsame] at hwr ⊢
        obtain ⟨n, hn, hnum⟩ := hring.older k hk hwr
        exact ⟨n, by rw [ht]; exact hn, hnum⟩
  · rw [hw] at hpart
    have hwritting : (filled s buf).state = .writting := (if_neg hpart).trans hstate
    have hhead := (hformed.writting hstate).1
    have hoffset : (filled s buf).offset = s.wBuffer.offset + s.writeLen buf := rfl
    refine ⟨hf ▸ hring.f_lt, ?_, hd, hcount, fun k hk => ?_, fun k hk => ?_, fun _ => ?_, hothers,
      hnumbered, fun k hk hwr => ?_, fun _ h => (by cases h)⟩
    · rw [hf, show t.wSeqnum = s.wSeqnum by rw [ht], hring.w_eq]
    · rw [hbuffer k hk]
      split_ifs
      · exact ⟨fun h => absurd (hwritting.symm.trans h) (by simp), fun _ => ⟨by omega, by omega⟩,
          fun _ => hlen⟩
      · exact hring.formed k hk
    · rw [hbefore k hk]
      exact hring.closed k hk
    · rw [hbuffer d hd, if_pos rfl, hwritting]
    · rw [hbuffer k hk] at hwr ⊢
      split_ifs at hwr ⊢
      · rw [hwritting] at hwr
        cases hwr
      · obtain ⟨n, hn, hnum⟩ := hring.older k hk hwr
        exact ⟨n, by rw [ht]; exact hn, hnum⟩

theorem Inv.outputRounds {fuel : Nat} {buf : List UInt8} (hs : Inv s given)
    (h : LogDump.outputRounds fuel s buf = some t) :
    Inv t (given ++ buf) := by
  induction fuel generalizing s given buf with
  | zero => cases h
  | succ fuel ih =>
    obtain ⟨base, d, hring, harea, hdata⟩ := hs.openBuffer
    simp only [LogDump.outputRounds] at h
    cases hfill : s.openBuffer.fillBuffer buf with
    | none => simp [hfill] at h
    | some u =>
      rw [hfill] at h
      obtain ⟨harea', hdata', hfull, hpart⟩ := fillBuffer_spec hring harea hdata hfill
      have hall : given ++ buf = given ++ buf.take (s.openBuffer.writeLen buf) ++
          buf.drop (s.openBuffer.writeLen buf) := by rw [List.append_assoc, List.take_append_drop]
      have hmono : ∀ {v : LogDump}, Inv v (given ++ buf.take (s.openBuffer.writeLen buf)) →
          Inv v (given ++ buf) := by
        rintro v ⟨base, d, op, hr, ha, hd⟩
        exact ⟨base, d, op, hr, ha, hd.trans (hall ▸ List.sublist_append_left _ _)⟩
      simp only at h
      split_ifs at h with hsize hcaught hnext hrest hrest'
      · obtain rfl := Option.some.inj h
        exact hmono ⟨base, d + 1, false, hfull hsize, harea'.withBuffers _ _ _ _, hdata'⟩
      · obtain rfl := Option.some.inj h
        exact hmono ⟨base, d + 1, false, hfull hsize, harea'.withBuffers _ _ _ _, hdata'⟩
      · rw [hall]
        exact ih ⟨base, d + 1, false, hfull hsize, harea'.withBuffers _ _ _ _, hdata'⟩ h
      · obtain rfl := Option.some.inj h
        exact hmono ⟨base, d, true, hpart hsize, harea', hdata'⟩
      · rw [hall]
        exact ih ⟨base, d, true, hpart hsize, harea', hdata'⟩ h

theorem Inv.output {buf : List UInt8} (hs : Inv s s.given) (h : s.output buf = some t) :
    Inv t t.given := by
  unfold LogDump.output at h
  split_ifs at h
  · obtain rfl := Option.some.inj h
    exact hs
  · obtain ⟨u, hu, rfl⟩ := Option.map_eq_some_iff.1 h
    obtain ⟨base, d, op, hring, harea, hdata⟩ := hs.outputRounds hu
    exact ⟨base, d, op,
      ⟨hring.f_lt, hring.w_eq, hring.le, hring.count, hring.formed, hring.closed, hring.opened,
        hring.others, hring.numbered, hring.older, hring.leftover⟩,
      ⟨harea.aligned, harea.place, harea.ready, harea.numbers, harea.first, harea.history,
        harea.increasing, harea.around, harea.next, harea.kept, harea.zero, harea.newest⟩, hdata⟩

/-! ### Flushing -/

theorem not_valid_erased : Sector.erased.valid = false := by decide

theorem AreaOf.flashOffs_eq (h : AreaOf s base) : s.flashOffs = s.sector * logDumpSectorSize :=
  (Nat.div_mul_cancel (Nat.dvd_of_mod_eq_zero h.aligned)).symm

/-- Erasing the next sector. -/
theorem AreaOf.eraseSector (h : AreaOf s base) (ht : s.eraseSector = some t) : AreaOf t base := by
  unfold LogDump.eraseSector at ht
  split_ifs at ht with hlt
  obtain rfl := Option.some.inj ht
  have hget : ∀ j, (s.flash.set s.sector .erased)[j]? =
      if s.sector = j then some .erased else s.flash[j]? := by
    intro j
    rw [List.getElem?_set]
    split_ifs <;> rfl
  have hlength : (s.flash.set s.sector .erased).length = s.flash.length := List.length_set
  refine ⟨h.aligned, ?_, fun _ => ?_, fun sec hsec hv => ?_, h.first, h.history, h.increasing, ?_,
    ?_,
    fun x hx hne => ?_, h.zero, fun x hx j sec hj hv => ?_⟩
  · exact .inr (hlength ▸ hlt)
  · exact (hget s.sector).trans (if_pos rfl)
  · rcases List.mem_or_eq_of_mem_set hsec with hsec | rfl
    · exact h.numbers sec hsec hv
    · exact absurd hv (by simp [not_valid_erased])
  · exact hlength ▸ h.around
  · exact hlength ▸ h.next
  · -- the newest sector is right before this one
    rw [hlength] at hne
    obtain ⟨hx1, hsector⟩ := h.next x hx
    refine (hget x.1).trans ((if_neg fun heq => ?_).trans (h.kept x hx hne))
    rw [heq] at hsector
    rcases Nat.lt_or_ge (x.1 + 1) s.flash.length with hlt | hge
    · rw [Nat.mod_eq_of_lt hlt] at hsector
      omega
    · rw [show x.1 + 1 = s.flash.length by omega, Nat.mod_self] at hsector
      omega
  · change (s.flash.set s.sector .erased)[j]? = some sec at hj
    rw [hget] at hj
    split_ifs at hj
    · obtain rfl := Option.some.inj hj
      exact absurd hv (by simp [not_valid_erased])
    · exact h.newest x hx j sec hj hv

/-- A full buffer that is written to the erased sector. -/
theorem writeSector_eq (hready : s.flash[s.sector]? = some .erased) (hformed : s.fBuffer.Formed)
    (hstate : s.fBuffer.state = .written) (ht : s.writeSector = some t) :
    t = { s with
      flash := s.flash.set s.sector ⟨s.fBuffer.header, s.fBuffer.body⟩
      stored := s.stored ++ [(s.sector, ⟨s.fBuffer.header, s.fBuffer.body⟩)]
      dataBufferList := update s.dataBufferList s.fSeqnum
        ⟨.free, logDumpSectorSize, s.fBuffer.header, s.fBuffer.body⟩
      fSeqnum := nextSeqnum s.fSeqnum
      flashOffs := if s.flash.length * logDumpSectorSize ≤ s.flashOffs + logDumpSectorSize then 0
        else s.flashOffs + logDumpSectorSize
      flashState := .idle } := by
  have hoffset := hformed.written hstate
  have hlen := hformed.body (by rw [hstate]; exact fun h => by cases h)
  have hrest : Sector.erased.body.drop s.fBuffer.body.length = [] := by
    refine List.drop_eq_nil_of_le ?_
    rw [Sector.erased, List.length_replicate]
    omega
  simp only [LogDump.writeSector, hready, hrest, List.append_nil, hoffset] at ht
  exact (Option.some.inj ht).symm

/-- Writing the next sector with a full buffer that has the next number. -/
theorem AreaOf.writeSector (h : AreaOf s base) (hb : s.fBuffer.Numbered base)
    (hformed : s.fBuffer.Formed) (hstate : s.fBuffer.state = .written)
    (hflash : s.flashState ≠ .idle) (hbase : base + 1 < 0x100000000) (ht : s.writeSector = some t) :
    AreaOf t (base + 1) := by
  have hready := h.ready hflash
  have hlt : s.sector < s.flash.length := (List.getElem?_eq_some_iff.1 hready).1
  have hnum : s.fBuffer.header.seqnum.toNat = base := by
    rw [hb.seqnum]
    exact UInt32.toNat_ofNat_of_lt' (show base < 0x100000000 by omega)
  have heq := writeSector_eq hready hformed hstate ht
  obtain ⟨sec, hsec⟩ : ∃ sec, sec = (⟨s.fBuffer.header, s.fBuffer.body⟩ : Sector) := ⟨_, rfl⟩
  rw [← hsec] at heq
  have hvalid : sec.valid = true := by simp [hsec, Sector.valid, hb.magic, hb.version]
  replace hnum : sec.header.seqnum.toNat = base := by rw [hsec, hnum]
  have hflash' : t.flash = s.flash.set s.sector sec := by rw [heq]
  have hstored : t.stored = s.stored ++ [(s.sector, sec)] := by rw [heq]
  have hlength : t.flash.length = s.flash.length := by rw [hflash', List.length_set]
  have hget : ∀ j, t.flash[j]? = if s.sector = j then some sec else s.flash[j]? := by
    intro j
    rw [hflash', List.getElem?_set]
    split_ifs <;> rfl
  have hlast : ∀ x, t.stored.getLast? = some x → x = (s.sector, sec) := by
    intro x hx
    rw [hstored, List.getLast?_concat] at hx
    exact (Option.some.inj hx).symm
  have hoffs : t.flashOffs = (s.sector + 1) % s.flash.length * logDumpSectorSize := by
    rw [heq, h.flashOffs_eq, ← Nat.succ_mul]
    rcases Nat.lt_or_ge (s.sector + 1) s.flash.length with hnext | hnext
    · rw [if_neg, Nat.mod_eq_of_lt hnext]
      rw [Nat.not_le]
      exact Nat.mul_lt_mul_of_pos_right hnext (by decide)
    · rw [if_pos (Nat.mul_le_mul_right _ hnext), show s.sector + 1 = s.flash.length by omega,
        Nat.mod_self, Nat.zero_mul]
  have hplace : t.sector = (s.sector + 1) % s.flash.length := by
    rw [LogDump.sector, hoffs]
    exact Nat.mul_div_cancel _ (by decide)
  refine ⟨?_, ?_, fun hne => absurd (by rw [heq]) hne, fun sec' hsec' hv => ?_,
    fun h => absurd h (Nat.succ_ne_zero _), fun x hx => ?_, ?_, ?_, fun x hx => ?_,
    fun x hx hne => ?_, fun x hx hzero => ?_, fun x hx j sec' hj hv => ?_⟩
  · rw [hoffs]
    exact Nat.mul_mod_left _ _
  · rw [hplace, hlength]
    exact .inr (Nat.mod_lt _ (by omega))
  · rw [hflash'] at hsec'
    rcases List.mem_or_eq_of_mem_set hsec' with hsec' | rfl
    · exact Nat.lt_succ_of_lt (h.numbers sec' hsec' hv)
    · exact Nat.lt_succ_of_le (Nat.le_of_eq hnum)
  · rw [hstored] at hx
    rcases List.mem_append.1 hx with hx | hx
    · exact ⟨Nat.lt_succ_of_lt (h.history x hx).1, (h.history x hx).2⟩
    · obtain rfl := List.mem_singleton.1 hx
      exact ⟨Nat.lt_succ_of_le (Nat.le_of_eq hnum), hvalid, by rw [hnum]; exact hbase⟩
  · rw [hstored]
    simp only [List.map_append, List.map_cons, List.map_nil]
    refine List.pairwise_append.2 ⟨h.increasing, List.pairwise_singleton _ _, fun a ha c hc => ?_⟩
    obtain ⟨x, hx, rfl⟩ := List.mem_map.1 ha
    rw [List.mem_singleton.1 hc]
    refine UInt32.lt_iff_toNat_lt.2 ?_
    rw [hnum]
    exact (h.history x hx).1
  · rw [hstored, hlength]
    refine List.isChain_append.2 ⟨h.around, List.isChain_singleton _, fun x hx y hy => ?_⟩
    rw [← Option.some.inj hy]
    exact (h.next x hx).2
  · rw [hlast x hx, hplace, hlength]
    exact ⟨hlt, rfl⟩
  · rw [hlast x hx]
    exact (hget s.sector).trans (if_pos rfl)
  · rw [hlast x hx] at hzero ⊢
    have hbase0 : base = 0 := by
      rw [← hnum]
      exact congrArg UInt32.toNat hzero
    exact Nat.div_eq_of_lt (by rw [h.first hbase0]; decide)
  · rw [hlast x hx]
    rw [hget] at hj
    split_ifs at hj with hjs
    · obtain rfl := Option.some.inj hj
      exact ⟨UInt32.le_refl _, fun hne => absurd hjs.symm hne⟩
    · have hlt' : sec'.header.seqnum < sec.header.seqnum := by
        refine UInt32.lt_iff_toNat_lt.2 ?_
        rw [hnum]
        exact h.numbers sec' (List.mem_of_getElem? hj) hv
      exact ⟨UInt32.le_of_lt hlt', fun _ => hlt'⟩

/-- The buffers behind the flush index move up when it goes on. -/
theorem buffer_pop (hlt : s.fSeqnum < logDumpSectorBufferCount)
    (hlist : t.dataBufferList = update s.dataBufferList s.fSeqnum b)
    (hf : t.fSeqnum = nextSeqnum s.fSeqnum) (hk : k < logDumpSectorBufferCount) :
    t.buffer k = if k + 1 = logDumpSectorBufferCount then b else s.buffer (k + 1) := by
  have hidx : (t.fSeqnum + k) % logDumpSectorBufferCount =
      (s.fSeqnum + (k + 1)) % logDumpSectorBufferCount := by
    rw [hf, nextSeqnum_eq hlt, Nat.mod_add_mod, Nat.add_assoc, Nat.add_comm 1 k]
  rw [LogDump.buffer, hidx, hlist, Function.update_apply]
  split_ifs with hne hk' hk'
  · rfl
  · have hother : (s.fSeqnum + (k + 1)) % logDumpSectorBufferCount ≠
        (s.fSeqnum + 0) % logDumpSectorBufferCount :=
      Ring.index_ne (by omega) (by omega) (Nat.succ_ne_zero k)
    rw [hne, Nat.add_zero, Nat.mod_eq_of_lt hlt] at hother
    exact absurd rfl hother
  · rw [hk', Nat.add_mod_right, Nat.mod_eq_of_lt hlt] at hne
    exact absurd rfl hne
  · rfl

/-- The ring behind flushing its oldest full buffer. -/
theorem RingOf.pop (h : RingOf s base (d + 1) op)
    (hlist : t.dataBufferList = update s.dataBufferList s.fSeqnum
      ⟨.free, logDumpSectorSize, s.fBuffer.header, s.fBuffer.body⟩)
    (hf : t.fSeqnum = nextSeqnum s.fSeqnum) (hw : t.wSeqnum = s.wSeqnum)
    (hcount : t.curDumpSeqnum = s.curDumpSeqnum)
    (hlast : ∃ x, t.stored.getLast? = some x ∧ x.2.header.seqnum = .ofNat base) :
    RingOf t (base + 1) d op ∧ ∀ k < d + op.toNat, t.buffer k = s.buffer (k + 1) := by
  have hlt := h.f_lt
  have hle := h.le
  have hcount' := h.count
  have hbuffer : ∀ k < logDumpSectorBufferCount, t.buffer k =
      if k + 1 = logDumpSectorBufferCount then
        ⟨.free, logDumpSectorSize, s.fBuffer.header, s.fBuffer.body⟩ else s.buffer (k + 1) :=
    fun k hk => buffer_pop hlt hlist hf hk
  rw [nextSeqnum_eq hlt] at hf
  have hnext : ∀ k, k + 1 < logDumpSectorBufferCount → t.buffer k = s.buffer (k + 1) := by
    intro k hk
    rw [hbuffer k (by omega), if_neg (by omega)]
  have hfree : (t.buffer (logDumpSectorBufferCount - 1)).state = .free := by
    rw [hbuffer _ (by decide), if_pos (by decide)]
  refine ⟨⟨?_, ?_, by omega, by omega, fun k hk => ?_, fun k hk => ?_, fun hop => ?_,
    fun k hdk hk => ?_, fun k hk => ?_, fun k hk hwr => ?_, fun hd hop _ => ⟨hfree, ?_, ?_⟩⟩,
    fun k hk => hnext k (by omega)⟩
  · rw [hf]
    exact Nat.mod_lt _ (by decide)
  · rw [hw, hf, h.w_eq, Nat.mod_add_mod, Nat.add_assoc, Nat.add_comm 1 d]
  · rw [hbuffer k hk]
    split_ifs
    · exact ⟨fun h => absurd h (by simp), fun h => absurd h (by simp), fun h => absurd rfl h⟩
    · exact h.formed (k + 1) (by omega)
  · rw [hnext k (by omega)]
    exact h.closed (k + 1) (by omega)
  · rw [hop] at hle
    rw [hnext d hle]
    exact h.opened hop
  · rw [hbuffer k hk]
    split_ifs
    · exact fun h => by cases h
    · exact h.others (k + 1) (by omega) (by omega)
  · rw [hnext k (by omega), show base + 1 + k = base + (k + 1) by omega]
    exact h.numbered (k + 1) (by omega)
  · rw [hbuffer k hk] at hwr ⊢
    split_ifs at hwr ⊢
    rw [hcount]
    exact h.older (k + 1) (by omega) hwr
  · omega
  · obtain ⟨x, hx, hnum⟩ := hlast
    refine ⟨x, hx, ?_⟩
    rw [hnum, hcount, hcount', hd, hop]
    rfl

/-- A flush writes the buffer to the log area. -/
def LogDump.Writes (s : LogDump) (accepted : Bool) : Prop :=
  s.flashState ≠ .idle ∧ s.fBuffer.state = .written ∧ (accepted || s.isImmediately) = true

/-- The flusher has caught up with the output, and has written the buffer before it: a full buffer
at its index is a leftover. -/
def LogDump.CaughtUp (s : LogDump) : Prop :=
  s.wSeqnum = s.fSeqnum ∧
    (s.buffer (logDumpSectorBufferCount - 1)).state = .free

/-- A sector is only written while the numbers have not overflowed. -/
def NumbersLeft (s : LogDump) : LogEvent → Prop
  | .output _ => True
  | .flush accepted => s.Writes accepted → s.curDumpSeqnum < 0x100000000

/-- No leftover is written. -/
def NotOverrun (s : LogDump) : LogEvent → Prop
  | .output _ => True
  | .flush accepted => s.Writes accepted → ¬ s.CaughtUp

/-- Behind the step, the sectors are stored in order. -/
def StaysInOrder (s : LogDump) (e : LogEvent) : Prop := ∀ t, s.step e = some t → InOrder t

theorem RingOf.fBuffer_eq (h : RingOf s base d op) : s.fBuffer = s.buffer 0 := by
  rw [LogDump.fBuffer, LogDump.buffer, Nat.add_zero, Nat.mod_eq_of_lt h.f_lt]

/-- A full buffer at the flush index is the oldest one of the ring, or the flusher has caught up. -/
theorem RingOf.caughtUp_iff (h : RingOf s base d op) (hstate : s.fBuffer.state = .written) :
    s.CaughtUp ↔ d = 0 := by
  have hlt := h.f_lt
  have hle := h.le
  rw [h.fBuffer_eq] at hstate
  constructor
  · rintro ⟨hw, hfree⟩
    by_contra hd
    have hmod : (s.fSeqnum + d) % logDumpSectorBufferCount = (s.fSeqnum + 0) %
        logDumpSectorBufferCount := by rw [← h.w_eq, hw, Nat.add_zero, Nat.mod_eq_of_lt hlt]
    have hfull : ¬ d < logDumpSectorBufferCount := fun hd' =>
      Ring.index_ne hd' (by decide) hd hmod
    rw [h.closed (logDumpSectorBufferCount - 1) (by omega)] at hfree
    cases hfree
  · rintro rfl
    have hop : op = false := by
      cases op with
      | false => rfl
      | true => exact absurd ((h.opened rfl).symm.trans hstate) (by simp)
    refine ⟨?_, (h.leftover rfl hop hstate).1⟩
    rw [h.w_eq, Nat.add_zero, Nat.mod_eq_of_lt hlt]

/-- What a flush does: it writes the buffer at its index, or it leaves the buffers alone. -/
theorem flush_cases {accepted : Bool} (harea : AreaOf s base) (hformed : s.fBuffer.Formed)
    (h : s.flush accepted = some t) :
    (s.Writes accepted ∧ s.writeSector = some t) ∨
      (¬ s.Writes accepted ∧ AreaOf t base ∧ t.stored = s.stored ∧ t.given = s.given ∧
        t.dataBufferList = s.dataBufferList ∧ t.fSeqnum = s.fSeqnum ∧ t.wSeqnum = s.wSeqnum ∧
        t.curDumpSeqnum = s.curDumpSeqnum) := by
  unfold LogDump.flush LogDump.flushBuffer at h
  split_ifs at h with hidle htaken hbusy hbuf htaken
  · refine .inr ⟨fun hw => hw.1 hidle.1, harea.eraseSector h, ?_⟩
    unfold LogDump.eraseSector at h
    split_ifs at h
    obtain rfl := Option.some.inj h
    exact ⟨rfl, rfl, rfl, rfl, rfl, rfl⟩
  · obtain rfl := Option.some.inj h
    exact .inr ⟨fun hw => hw.1 hidle.1, harea, rfl, rfl, rfl, rfl, rfl, rfl⟩
  · refine .inl ⟨⟨fun hi => ?_, by simpa using hbuf.1, htaken⟩, h⟩
    rw [hi] at hbusy
    simp at hbusy
  · obtain rfl := Option.some.inj h
    refine .inr ⟨fun hw => htaken hw.2.2, ?_, rfl, rfl, rfl, rfl, rfl, rfl⟩
    refine ⟨harea.aligned, harea.place, fun _ => harea.ready fun hi => ?_, harea.numbers,
      harea.first,
      harea.history, harea.increasing, harea.around, harea.next, harea.kept, harea.zero,
      harea.newest⟩
    rw [hi] at hbusy
    simp at hbusy
  · obtain rfl := Option.some.inj h
    refine .inr ⟨fun hw => hbuf ⟨by simpa using hw.2.1, ?_⟩, harea, rfl, rfl, rfl, rfl, rfl, rfl⟩
    rw [hformed.written hw.2.1]
    decide
  · obtain rfl := Option.some.inj h
    refine .inr ⟨fun hw => ?_, harea, rfl, rfl, rfl, rfl, rfl, rfl⟩
    cases hs : s.flashState with
    | idle => exact hw.1 hs
    | erased => exact hbusy (.inl hs)
    | writting => exact hbusy (.inr hs)

theorem RingOf.congr (h : RingOf s base d op) (hlist : t.dataBufferList = s.dataBufferList)
    (hf : t.fSeqnum = s.fSeqnum) (hw : t.wSeqnum = s.wSeqnum)
    (hcount : t.curDumpSeqnum = s.curDumpSeqnum) (hstored : t.stored = s.stored) :
    RingOf t base d op ∧ ∀ k, t.buffer k = s.buffer k := by
  have hbuffer : ∀ k, t.buffer k = s.buffer k := fun k => by
    rw [LogDump.buffer, LogDump.buffer, hlist, hf]
  refine ⟨⟨hf ▸ h.f_lt, by rw [hw, hf, h.w_eq], h.le, by rw [hcount, h.count], ?_, ?_, ?_, ?_, ?_,
    ?_,
    ?_⟩, hbuffer⟩
  all_goals simp only [hbuffer, hcount, hstored]
  exacts [h.formed, h.closed, h.opened, h.others, h.numbered, h.older, h.leftover]

theorem flush_of_writes {accepted : Bool} (hformed : s.fBuffer.Formed) (hw : s.Writes accepted) :
    s.flush accepted = s.writeSector := by
  have hbusy : s.flashState = .erased ∨ s.flashState = .writting := by
    cases hs : s.flashState with
    | idle => exact absurd hs hw.1
    | erased => exact .inl rfl
    | writting => exact .inr rfl
  have hoffset : 0 < s.fBuffer.offset := by
    rw [hformed.written hw.2.1]
    decide
  rw [LogDump.flush, LogDump.flushBuffer, if_neg fun h => hw.1 h.1, if_pos hbusy,
    if_pos ⟨by simpa using hw.2.1, hoffset⟩, if_pos hw.2.2]

/-- Flushing a leftover stores an old number behind the newest one. -/
theorem not_inOrder_of_caughtUp {accepted : Bool} (hring : RingOf s base d op)
    (harea : AreaOf s base) (hw : s.Writes accepted) (hcaught : s.CaughtUp)
    (hlt : s.curDumpSeqnum < 0x100000000) : ∃ t, s.flush accepted = some t ∧ ¬ InOrder t := by
  have hstate := hw.2.1
  have hformed : s.fBuffer.Formed := hring.fBuffer_eq ▸ hring.formed 0 (by decide)
  have hready := harea.ready hw.1
  obtain ⟨t, ht⟩ : ∃ t, s.writeSector = some t := by simp [LogDump.writeSector, hready]
  have hd := (hring.caughtUp_iff hstate).1 hcaught
  rw [hring.fBuffer_eq] at hstate
  have hop : op = false := by
    cases op with
    | false => rfl
    | true => exact absurd ((hd ▸ hring.opened rfl).symm.trans hstate) (by simp)
  obtain ⟨-, hpos, x, hx, hxnum⟩ := hring.leftover hd hop hstate
  obtain ⟨n, hn, hnum⟩ := hring.older 0 (by decide) hstate
  refine ⟨t, (flush_of_writes hformed hw).trans ht, fun hord => ?_⟩
  have hpair := hord.increasing
  rw [writeSector_eq hready hformed hw.2.1 ht, List.map_append] at hpair
  have hless : x.2.header.seqnum < s.fBuffer.header.seqnum := (List.pairwise_append.1 hpair).2.2 _
    (List.mem_map_of_mem (List.mem_of_getLast? hx)) _ (List.mem_singleton.2 rfl)
  rw [hxnum, hring.fBuffer_eq, hnum, UInt32.lt_iff_toNat_lt,
    UInt32.toNat_ofNat_of_lt' (show s.curDumpSeqnum - 1 < 0x100000000 by omega),
    UInt32.toNat_ofNat_of_lt' (show n < 0x100000000 by omega)] at hless
  omega

/-- One step stores the sectors in order exactly when it writes no leftover, and then the invariant
is kept. -/
theorem Inv.step_iff {e : LogEvent} (hs : Inv s s.given) (hleft : NumbersLeft s e) :
    (StaysInOrder s e ↔ NotOverrun s e) ∧
      (NotOverrun s e → ∀ t, s.step e = some t → Inv t t.given) := by
  have hkeeps : NotOverrun s e → ∀ t, s.step e = some t → Inv t t.given := by
    intro hover t ht
    cases e with
    | output buf => exact hs.output ht
    | flush accepted =>
      obtain ⟨base, d, op, hring, harea, hdata⟩ := hs
      have hformed : s.fBuffer.Formed := hring.fBuffer_eq ▸ hring.formed 0 (by decide)
      rcases flush_cases harea hformed ht with
        ⟨hw, hsec⟩ | ⟨-, harea', hstored, hgiven, hlist, hf, hwr, hcount⟩
      · cases d with
        | zero => exact absurd ((hring.caughtUp_iff hw.2.1).2 rfl) (hover hw)
        | succ d =>
          have hcount := hring.count
          have hlt : s.curDumpSeqnum < 0x100000000 := hleft hw
          have hnum : s.fBuffer.Numbered base := by
            rw [hring.fBuffer_eq]
            exact hring.numbered 0 (by omega)
          have heq := writeSector_eq (harea.ready hw.1) hformed hw.2.1 hsec
          have hstored : t.stored = s.stored ++
              [(s.sector, ⟨s.fBuffer.header, s.fBuffer.body⟩)] := by
            rw [heq]
          obtain ⟨hring', hbuffer⟩ := hring.pop (t := t) (by rw [heq]) (by rw [heq]) (by rw [heq])
            (by rw [heq]) ⟨_, by rw [hstored, List.getLast?_concat], hnum.seqnum⟩
          refine ⟨base + 1, d, op, hring',
            harea.writeSector hnum hformed hw.2.1 hw.1 (by omega) hsec, ?_⟩
          have hbodies : s.bodies (d + 1 + op.toNat) = s.fBuffer.body ++
              t.bodies (d + op.toNat) := by
            rw [Nat.add_right_comm, LogDump.bodies, List.range_succ_eq_map, List.map_cons,
              List.flatten_cons, ← hring.fBuffer_eq, List.map_map]
            refine congrArg _ (congrArg List.flatten (List.map_congr_left fun k hk => ?_))
            rw [Function.comp_apply, hbuffer k (List.mem_range.1 hk)]
          rw [DataOf, hbodies] at hdata
          rw [DataOf, hstored, List.map_append, List.flatten_append,
            show t.given = s.given by rw [heq]]
          simpa using hdata
      · obtain ⟨hring', hbuffer⟩ := hring.congr hlist hf hwr hcount hstored
        refine ⟨base, d, op, hring', harea', ?_⟩
        have hbodies : t.bodies (d + op.toNat) = s.bodies (d + op.toNat) :=
          bodies_congr fun k _ => by rw [hbuffer k]
        rw [DataOf, hstored, hgiven, hbodies]
        exact hdata
  refine ⟨⟨fun hord => ?_, fun hover t ht => (hkeeps hover t ht).inOrder⟩, hkeeps⟩
  cases e with
  | output buf => trivial
  | flush accepted =>
    intro hw hcaught
    obtain ⟨base, d, op, hring, harea, -⟩ := hs
    obtain ⟨t, ht, hnot⟩ := not_inOrder_of_caughtUp hring harea hw hcaught (hleft hw)
    exact hnot (hord t ht)

/-! ### Runs -/

/-- As long as the numbers have not overflowed, a run stores the sectors in order exactly when it
writes no leftover. -/
theorem inOrder_run_iff (flash : List Sector) (es : List LogEvent)
    (hleft : Along LogDump.step NumbersLeft (logDumpInit flash) es) :
    Along LogDump.step StaysInOrder (logDumpInit flash) es ↔
      Along LogDump.step NotOverrun (logDumpInit flash) es := by
  have hinit : Inv (logDumpInit flash) (logDumpInit flash).given := inv_logDumpInit flash
  generalize logDumpInit flash = s at hinit hleft
  induction es generalizing s with
  | nil => exact Iff.rfl
  | cons e es ih =>
    obtain ⟨hiff, hkeeps⟩ := hinit.step_iff hleft.1
    rw [along_cons, along_cons, hiff]
    exact and_congr_right fun hover => forall₂_congr fun t ht =>
      ih t (hkeeps hover t ht) (hleft.2 t ht)

theorem inOrder_of_along (es : List LogEvent) (e : LogEvent)
    (h : Along LogDump.step StaysInOrder s (es ++ [e]))
    (ht : (es ++ [e]).foldlM LogDump.step s = some t) : InOrder t := by
  obtain ⟨u, hu, hlast⟩ := foldlM_append_eq_some ht
  exact ((along_append.1 h).2 u hu).1 t (by simpa using hlast)

/-- Output for a whole buffer. -/
def sectorOutput : LogEvent := .output (List.replicate 4080 0)

/-- A sector of output, stored by two flushes. -/
theorem inOrder_run_sector :
    Along LogDump.step StaysInOrder (logDumpInit [.erased, .erased])
        [sectorOutput, .flush true, .flush true] ↔
      Along LogDump.step NotOverrun (logDumpInit [.erased, .erased])
        [sectorOutput, .flush true, .flush true] := by
  have hcount : ((logDumpInit [.erased, .erased]).step sectorOutput).map LogDump.curDumpSeqnum =
      some 1 := by decide +kernel
  have hcount' : (((logDumpInit [.erased, .erased]).step sectorOutput).bind
      fun t => t.step (.flush true)).map LogDump.curDumpSeqnum = some 1 := by decide +kernel
  refine inOrder_run_iff _ _ ⟨trivial, fun t ht => ⟨fun _ => ?_, fun u hu => ⟨fun _ => ?_, ?_⟩⟩⟩
  · rw [ht, Option.map_some] at hcount
    rw [Option.some.inj hcount]
    decide
  · rw [ht, Option.bind_some, hu, Option.map_some] at hcount'
    rw [Option.some.inj hcount']
    decide
  · exact fun _ _ => trivial

/-- Output for sixteen buffers fills the ring, and that for another one opens the oldest buffer
again. -/
def overrun : List LogEvent := List.replicate 17 sectorOutput ++ List.replicate 3 (.flush true)

/-- The flusher stores number 1 behind number 16. -/
theorem not_inOrder_overrun :
    ¬ Along LogDump.step StaysInOrder (logDumpInit [.erased, .erased])
      (overrun ++ [.flush true]) := by
  have hrun : ((overrun ++ [LogEvent.flush true]).foldlM LogDump.step
      (logDumpInit [.erased, .erased])).map (fun t => t.stored.map fun x => x.2.header.seqnum) =
      some [16, 1] := by decide +kernel
  intro h
  obtain ⟨t, ht, hseq⟩ := Option.map_eq_some_iff.1 hrun
  have hpair := (inOrder_of_along overrun _ h ht).increasing
  rw [hseq] at hpair
  exact absurd hpair (by decide)

end EarbudFirmware.LogSection
