import EarbudFirmware.Hal.Trace
import EarbudFirmware.Lib.Ring

/-!
# Transfers of the trace ring

A transfer hands over the bytes behind `rptr`, with a second descriptor when they go round or are
too many for one. How many have been handed over is a matter of the registers of the channel, and
the handler of its interrupt finds the same number.

## Main definitions

* `Between` — the pointers of a stream that has been read and written up to a place
* `Progress` — what the registers are when so many bytes have been handed over
* `Underway` — a transfer of which so many bytes have been handed over

## Main results

* `Progress.behindByte` — one more byte is handed over
* `Underway.xferSize_eq` — the handler takes what has been handed over for sent
* `sendSizes_spec` — the lengths of the descriptors
-/

namespace EarbudFirmware.HalTrace

namespace Trace

variable (b : TraceBuild) (t : Trace)

/-- The number of bytes between `rptr` and `wptr`. -/
def used : Nat := if t.rptr ≤ t.wptr then t.wptr - t.rptr else b.bufSize - t.rptr + t.wptr

/-- How many bytes the transfer under way has handed over. -/
def moved : Nat := if t.sending then t.sends0 + t.sends1 - t.ch.getSgRemainSize else 0

end Trace

/-! ### Pointers -/

section Pointers

variable {b : TraceBuild} {t : Trace} {p n r : Nat}

/-- A pointer goes round at the end of the buffer, if its sum has 16 bits. -/
theorem advance_eq (hp : p < b.bufSize) (hn : n ≤ b.bufSize) (hsum : p + n < 0x10000) :
    b.advance p n = (p + n) % b.bufSize := by
  rw [TraceBuild.advance, Nat.mod_eq_of_lt hsum, Ring.index_eq hp hn]
  by_cases hend : b.bufSize ≤ p + n
  · rw [if_pos hend, if_neg (Nat.not_lt.2 hend)]
  · rw [if_neg hend, if_pos (Nat.lt_of_not_le hend)]

/-- The pointers of `r` bytes that have been read and `n` that have been written. -/
structure Between (b : TraceBuild) (t : Trace) (r n : Nat) : Prop where
  rptr : t.rptr = r % b.bufSize
  wptr : t.wptr = n % b.bufSize
  le : r ≤ n
  room : n < r + b.bufSize

theorem Between.rptr_lt (h : Between b t r n) : t.rptr < b.bufSize :=
  h.rptr ▸ Nat.mod_lt _ b.bufSize_pos

theorem Between.wptr_lt (h : Between b t r n) : t.wptr < b.bufSize :=
  h.wptr ▸ Nat.mod_lt _ b.bufSize_pos

/-- `wptr` is `rptr` and the bytes between them. -/
theorem Between.wptr_eq (h : Between b t r n) : t.wptr =
    if t.rptr + (n - r) < b.bufSize then t.rptr + (n - r) else t.rptr + (n - r) - b.bufSize := by
  have hle := h.le
  have hroom := h.room
  have hsum : t.wptr = (t.rptr + (n - r)) % b.bufSize := by
    rw [h.wptr, h.rptr, Nat.mod_add_mod, Nat.add_sub_cancel' hle]
  rw [hsum, Ring.index_eq h.rptr_lt (by omega)]

theorem Between.used_eq (h : Between b t r n) : t.used b = n - r := by
  have hroom := h.room
  have hrptr := h.rptr_lt
  have hwptr := h.wptr_eq
  rw [Trace.used]
  split_ifs at hwptr ⊢ <;> omega

theorem Between.avail_eq (h : Between b t r n) : t.avail b = b.bufSize - (n - r) - 1 := by
  have hroom := h.room
  have hrptr := h.rptr_lt
  have hwptr := h.wptr_eq
  rw [Trace.avail]
  split_ifs at hwptr ⊢ <;> omega

/-- `rptr` behind bytes that have been read. -/
theorem Between.read (h : Between b t r n) {m : Nat} (hm : r + m ≤ n)
    (hsum : t.rptr + m < 0x10000) : b.advance t.rptr m = (r + m) % b.bufSize := by
  have hroom := h.room
  rw [advance_eq h.rptr_lt (by omega) hsum, h.rptr, Nat.mod_add_mod]

theorem Between.written (h : Between b t r n) {m : Nat} (hm : m ≤ b.bufSize)
    (hsum : t.wptr + m < 0x10000) : b.advance t.wptr m = (n + m) % b.bufSize := by
  rw [advance_eq h.wptr_lt hm hsum, h.wptr, Nat.mod_add_mod]

end Pointers

/-! ### Transfers -/

section Transfers

variable {b : TraceBuild} {t : Trace} {c : DmaChannel} {size rptr s0 s1 m n r : Nat}

/-- The channel has handed over `m` bytes of a transfer. -/
inductive Progress (size rptr s0 s1 : Nat) (c : DmaChannel) (m : Nat) : Prop where
  | first (htsize : c.tsize + m = s0) (hsrc : c.src = rptr + m)
    (hlli : c.lli = if s1 = 0 then none else some ⟨(rptr + s0) % size, s1⟩)
  | second (htsize : c.tsize + m = s0 + s1) (hm : s0 ≤ m) (hs1 : s1 ≠ 0)
    (hsrc : c.src = (rptr + s0) % size + (m - s0)) (hlli : c.lli = none)

theorem Progress.remain_add (h : Progress size rptr s0 s1 c m) :
    c.getSgRemainSize + m = s0 + s1 := by
  rw [DmaChannel.getSgRemainSize]
  cases h with
  | first htsize hsrc hlli =>
    rw [hlli]
    split_ifs with hs1
    · exact htsize.trans (by rw [hs1, Nat.add_zero])
    · rw [Nat.add_right_comm, htsize]
      rfl
  | second htsize hm hs1 hsrc hlli =>
    rw [hlli]
    exact htsize

/-- The next byte is the one behind those that have been handed over. -/
theorem Progress.src_eq (h : Progress size rptr s0 s1 c m) (hc : 0 < c.tsize)
    (h0 : rptr + s0 ≤ size) (h1 : (rptr + s0) % size + s1 ≤ size) :
    c.src = (rptr + m) % size := by
  cases h with
  | first htsize hsrc hlli => rw [hsrc, Nat.mod_eq_of_lt (by omega)]
  | second htsize hm hs1 hsrc hlli =>
    have hplace : (rptr + s0) % size + (m - s0) < size := by omega
    rw [hsrc, ← Nat.mod_eq_of_lt hplace, Nat.mod_add_mod, Nat.add_assoc, Nat.add_sub_cancel' hm]

/-- The channel is at work, or its interrupt is pending, which is no error only if everything has
been handed over. -/
inductive Working (c : DmaChannel) (left : Nat) : Prop where
  | enabled (hen : c.enabled = true) (hirq : c.irq = none) (hpos : 0 < c.tsize)
  | done (hen : c.enabled = false) (hirq : c.irq = some false) (hleft : left = 0)
  | failed (hen : c.enabled = false) (hirq : c.irq = some true)

/-- One more byte is handed over. -/
theorem Progress.behindByte (h : Progress size rptr s0 s1 c m) (hen : c.enabled = true)
    (hirq : c.irq = none) (hpos : 0 < c.tsize) :
    Progress size rptr s0 s1 c.behindByte (m + 1) ∧ Working c.behindByte (s0 + s1 - (m + 1)) := by
  rw [DmaChannel.behindByte]
  by_cases hmore : 1 < c.tsize
  · rw [if_pos hmore]
    refine ⟨?_, .enabled hen hirq (Nat.sub_pos_of_lt hmore)⟩
    cases h with
    | first htsize hsrc hlli =>
      exact .first (by dsimp only; omega) (by dsimp only; omega) hlli
    | second htsize hm hs1 hsrc hlli =>
      exact .second (by dsimp only; omega) (by omega) hs1 (by dsimp only; omega) hlli
  · rw [if_neg hmore]
    cases h with
    | first htsize hsrc hlli =>
      rw [hlli]
      by_cases hs1 : s1 = 0
      · rw [if_pos hs1]
        exact ⟨.first (by dsimp only; omega) (by dsimp only; omega) (if_pos hs1).symm,
          .done rfl rfl (by omega)⟩
      · rw [if_neg hs1]
        exact ⟨.second (by dsimp only; omega) (by omega) hs1 (by dsimp only; omega) rfl,
          .enabled rfl rfl (Nat.pos_of_ne_zero hs1)⟩
    | second htsize hm hs1 hsrc hlli =>
      rw [hlli]
      exact ⟨.second (by dsimp only; omega) (by omega) hs1 (by dsimp only; omega) rfl,
        .done rfl rfl (by omega)⟩

/-- A transfer of which `m` bytes have been handed over. -/
structure Underway (b : TraceBuild) (t : Trace) (m : Nat) : Prop where
  sending : t.sending = true
  first_le : t.rptr + t.sends0 ≤ b.bufSize
  second_le : (t.rptr + t.sends0) % b.bufSize + t.sends1 ≤ b.bufSize
  progress : Progress b.bufSize t.rptr t.sends0 t.sends1 t.ch m
  working : Working t.ch (t.sends0 + t.sends1 - m)

theorem Underway.moved_eq (h : Underway b t m) : t.moved = m := by
  rw [Trace.moved, if_pos h.sending, ← h.progress.remain_add, Nat.add_sub_cancel_left]

theorem Underway.le (h : Underway b t m) : m ≤ t.sends0 + t.sends1 :=
  h.progress.remain_add ▸ Nat.le_add_left _ _

/-- The handler takes what has been handed over for sent. -/
theorem Underway.xferSize_eq (h : Underway b t m) {error : Bool} (hirq : t.ch.irq = some error) :
    t.xferSize t.ch.tsize error t.ch.lli = m := by
  have hle := h.le
  cases h.working with
  | enabled hen hnone hpos => exact absurd (hnone.symm.trans hirq) (Option.some_ne_none _).symm
  | done hen hdone hleft =>
    obtain rfl : false = error := Option.some.inj (hdone.symm.trans hirq)
    exact Nat.le_antisymm (Nat.le_of_sub_eq_zero hleft) hle
  | failed hen hfailed =>
    obtain rfl : true = error := Option.some.inj (hfailed.symm.trans hirq)
    rw [Trace.xferSize, if_pos rfl]
    cases h.progress with
    | first htsize hsrc hlli =>
      have hfirst : t.ch.lli.isSome = true ∨ t.sends1 = 0 := by
        by_cases hs1 : t.sends1 = 0
        · exact .inr hs1
        · rw [hlli, if_neg hs1]
          exact .inl rfl
      rw [if_pos hfirst]
      split_ifs <;> omega
    | second htsize hm hs1 hsrc hlli =>
      have hsecond : ¬(t.ch.lli.isSome = true ∨ t.sends1 = 0) := by
        rw [hlli]
        exact fun h => h.elim Bool.noConfusion hs1
      rw [if_neg hsecond]
      split_ifs <;> omega

/-- The lengths of the descriptors. -/
theorem sendSizes_spec (h : Between b t r n) (hne : t.wptr ≠ t.rptr) :
    0 < (b.sendSizes t.wptr t.rptr).1 ∧ t.rptr + (b.sendSizes t.wptr t.rptr).1 ≤ b.bufSize ∧
      (t.rptr + (b.sendSizes t.wptr t.rptr).1) % b.bufSize + (b.sendSizes t.wptr t.rptr).2 ≤
        b.bufSize ∧
      (b.sendSizes t.wptr t.rptr).1 + (b.sendSizes t.wptr t.rptr).2 ≤ n - r := by
  have hmax : 0 < dmaMaxDescXferSize := by decide
  have hused := h.used_eq
  have hrptr := h.rptr_lt
  have hwptr := h.wptr_lt
  have hplace : (b.sendSizes t.wptr t.rptr).1 ≤ b.bufSize → _ := Ring.index_eq hrptr
  rw [Trace.used] at hused
  unfold TraceBuild.sendSizes at hplace ⊢
  dsimp only at hplace ⊢
  split_ifs at hused hplace ⊢ <;> dsimp only at hplace ⊢ <;> omega

end Transfers

end EarbudFirmware.HalTrace
