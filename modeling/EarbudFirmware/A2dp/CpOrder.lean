import EarbudFirmware.A2dp.CpFrames
import Mathlib.Data.List.GetD

/-!
# Frames reach the decoder core in order

The frames since the last reset have addresses that do not go round, in a window of less than one
turn of the cache. The processor knows an index of the decoder core that may be old: the window from
there on is larger, so that a place outside it is free.

## Main definitions

* `Described` — the descriptors of a window
* `Inv` — what every step keeps
* `Delivered` — what the decoder core sees

## Main results

* `placeInFrame_spec` — a place lies behind the window, within the turn
* `cpStep_inv` — a step keeps the invariant
* `frames_delivered` — in every order of steps in which no reset is served during a put, the frames
  arrive in order and whole
* `stale_frame_after_reset` — a reset that is served during a put brings back an old frame
-/

namespace EarbudFirmware.A2dp

open FrameRing (Window)
open Transition (Along)

/-! ### Places -/

theorem alignWord_mod (n : Nat) : alignWord n % 4 = 0 := by
  unfold alignWord
  omega

theorem le_alignWord (n : Nat) : n ≤ alignWord n := by
  unfold alignWord
  omega

/-- The places that a put finds: behind the last frame, or at the start of the cache. -/
theorem placeInFrame_cases {inWpos inRpos need pos : Nat}
    (h : placeInFrame inWpos inRpos need = .ok pos) :
    (inRpos ≤ inWpos ∧ pos = inWpos ∧ need ≤ cpInCacheSize - inWpos ∧
        (inRpos = 0 → need ≤ cpInCacheSize - inWpos - 1)) ∨
      (inRpos ≤ inWpos ∧ pos = 0 ∧ need ≤ inRpos - 1) ∨
      (inWpos < inRpos ∧ pos = inWpos ∧ need ≤ inRpos - inWpos - 1) := by
  unfold placeInFrame at h
  by_cases hlap : inRpos ≤ inWpos
  · rw [if_pos hlap] at h
    by_cases hroom : (if inRpos = 0 then cpInCacheSize - inWpos - 1 else cpInCacheSize - inWpos) <
        need
    · rw [if_pos hroom] at h
      by_cases hstart : (if 0 < inRpos then inRpos - 1 else 0) < need
      · rw [if_pos hstart] at h
        cases h
      · rw [if_neg hstart] at h
        refine .inr (.inl ⟨hlap, (Except.ok.inj h).symm, ?_⟩)
        split at hstart <;> omega
    · rw [if_neg hroom] at h
      refine .inl ⟨hlap, (Except.ok.inj h).symm, ?_⟩
      split at hroom <;> omega
  · rw [if_neg hlap] at h
    by_cases hroom : inRpos - inWpos - 1 < need
    · rw [if_pos hroom] at h
      cases h
    · rw [if_neg hroom] at h
      exact .inr (.inr ⟨by omega, (Except.ok.inj h).symm, by omega⟩)

/-- A place in the cache is the cell of an address behind the last frame, and the frame there ends
less than a turn behind the start of the first one. -/
theorem placeInFrame_spec {first last need pos : Nat} (hfirst : first % 4 = 0)
    (hlast : last % 4 = 0) (hlt : first < last) (hturn : last < first + cpInCacheSize)
    (hneed : need % 4 = 0) (hpos : 0 < need)
    (h : placeInFrame (last % cpInCacheSize) (first % cpInCacheSize) need = .ok pos) :
    ∃ t, last ≤ t ∧ t % 4 = 0 ∧ t % cpInCacheSize = pos ∧ pos + need ≤ cpInCacheSize ∧
      t + need < first + cpInCacheSize := by
  rcases placeInFrame_cases h with ⟨hlap, rfl, hroom, hzero⟩ | ⟨hlap, rfl, hroom⟩ |
    ⟨hlap, rfl, hroom⟩
  · simp only [cpInCacheSize] at *
    exact ⟨last, Nat.le_refl _, hlast, rfl, by omega, by omega⟩
  · -- the frame starts the next lap
    simp only [cpInCacheSize] at *
    exact ⟨(last / (1024 * 10) + 1) * (1024 * 10), by omega, by omega, by omega, by omega,
      by omega⟩
  · simp only [cpInCacheSize] at *
    exact ⟨last, Nat.le_refl _, hlast, rfl, by omega, by omega⟩

/-- An empty cache has its place at the start. -/
theorem placeInFrame_empty {need pos : Nat} (hpos : 0 < need)
    (h : placeInFrame 0 0 need = .ok pos) : pos = 0 ∧ need < cpInCacheSize := by
  rcases placeInFrame_cases h with ⟨-, rfl, -, hzero⟩ | ⟨-, rfl, hroom⟩ | ⟨hlap, -⟩
  · have hroom := hzero rfl
    refine ⟨rfl, ?_⟩
    simp only [cpInCacheSize] at *
    omega
  · omega
  · omega

/-- The position behind a frame, aligned, is the cell of the aligned address behind it. -/
theorem wrapPos_alignWord {start len : Nat} (hstart : start % 4 = 0)
    (hpiece : start % cpInCacheSize + alignWord len ≤ cpInCacheSize) :
    wrapPos (alignWord (wrapPos (start % cpInCacheSize + len))) =
      (start + alignWord len) % cpInCacheSize := by
  have hcases : ∀ p, (cpInCacheSize ≤ p ∧ wrapPos p = p - cpInCacheSize) ∨
      (p < cpInCacheSize ∧ wrapPos p = p) := fun p => by
    unfold wrapPos
    split <;> omega
  have h₁ := hcases (start % cpInCacheSize + len)
  have h₂ := hcases (alignWord (wrapPos (start % cpInCacheSize + len)))
  simp only [alignWord, cpInCacheSize] at *
  omega

/-! ### The invariant -/

/-- The descriptors from frame `a` on are those of a window of the frames `puts`, at the addresses
`start`. -/
structure Described (puts : List (List UInt8)) (inFrames : Nat → InFrameInfo) (start : Nat → Nat)
    (a : Nat) : Prop where
  window : Window cpInCacheSize start (fun k => alignWord (puts.getD k []).length) a puts.length
  count : puts.length - a < cpInFrameCnt
  info : ∀ k, a ≤ k → k < puts.length →
    inFrames (k % cpInFrameCnt) = ⟨start k % cpInCacheSize, (puts.getD k []).length⟩
  aligned : ∀ k, a ≤ k → k < puts.length → start k % 4 = 0
  pos : ∀ k, a ≤ k → k < puts.length → 0 < (puts.getD k []).length

/-- A place for `data` behind the frames that are not consumed, as frame `n`. -/
structure Placed (puts : List (List UInt8)) (consumed : Nat) (start : Nat → Nat)
    (data : List UInt8) (pos : Nat) : Prop where
  count : puts.length + 1 - consumed < cpInFrameCnt
  pos_eq : pos = start puts.length % cpInCacheSize
  aligned : start puts.length % 4 = 0
  piece : pos + alignWord data.length ≤ cpInCacheSize
  lt_size : alignWord data.length < cpInCacheSize
  behind : ∀ k, consumed ≤ k → k < puts.length →
    start k + alignWord (puts.getD k []).length ≤ start puts.length ∧
      start puts.length + alignWord data.length < start k + cpInCacheSize

/-- What a put has done: it knows an index of the decoder core that may be old, or it has a place
and has copied some bytes there. -/
def PutInv (sh : CpShared) (puts : List (List UInt8)) (consumed : Nat) (start : Nat → Nat) :
    McuPut → Prop
  | .idle => True
  | .entered _ inWidx inRidx =>
    inWidx = puts.length % cpInFrameCnt ∧
      ∃ a ≤ consumed, inRidx = a % cpInFrameCnt ∧ Described puts sh.inFrames start a
  | .copying b inWidx pos done =>
    inWidx = puts.length % cpInFrameCnt ∧ Placed puts consumed start b.data pos ∧
      sh.inFrames inWidx = ⟨pos, b.data.length⟩ ∧
      ∀ j < done, sh.cpInCache (pos + j) = b.data.getD j 0

/-- A get or a consume has read its own index, and the other one may be old. -/
def TaskInv (n consumed : Nat) : CpTask → Prop
  | .getting inWidx inRidx | .consuming inWidx inRidx =>
    inRidx = consumed % cpInFrameCnt ∧ (inWidx ≠ inRidx → consumed < n)
  | _ => True

/-- The invariant, with the addresses of the frames. -/
structure InvAt (s : CpSystem) (start : Nat → Nat) : Prop where
  consumed_le : s.consumed ≤ s.puts.length
  widx : s.shared.cpInWidx = s.puts.length % cpInFrameCnt
  ridx : s.shared.cpInRidx = s.consumed % cpInFrameCnt
  described : Described s.puts s.shared.inFrames start s.consumed
  bytes : ∀ k, s.consumed ≤ k → k < s.puts.length → ∀ j < (s.puts.getD k []).length,
    s.shared.cpInCache (start k % cpInCacheSize + j) = (s.puts.getD k []).getD j 0
  put : PutInv s.shared s.puts s.consumed start s.mcu
  task : TaskInv s.puts.length s.consumed s.cp

/-- The states of runs in which no reset is served during a put. -/
def Inv (s : CpSystem) : Prop := ∃ start, InvAt s start

/-- There are no frames after a reset. -/
theorem described_nil (inFrames : Nat → InFrameInfo) (start : Nat → Nat) :
    Described [] inFrames start 0 :=
  ⟨Window.empty, by decide, fun k _ hk => absurd hk (Nat.not_lt_zero k),
    fun k _ hk => absurd hk (Nat.not_lt_zero k), fun k _ hk => absurd hk (Nat.not_lt_zero k)⟩

theorem InitialCp.inv {s : CpSystem} (h : InitialCp s) : Inv s := by
  obtain ⟨hw, hr, hm, hc, hp, h0⟩ := h
  obtain ⟨shared, mcu, cp, puts, consumed⟩ := s
  simp only at hw hr hm hc hp h0
  subst hm hc hp h0
  exact ⟨fun _ => 0, Nat.le_refl 0, hw, hr, described_nil _ _,
    fun k _ hk => absurd hk (Nat.not_lt_zero k), trivial, trivial⟩

/-! ### The processor -/

/-- The number of free descriptors, with the index that a put knows. -/
theorem inFrameFreeCnt_eq {a n : Nat} (han : a ≤ n) (hn : n - a < cpInFrameCnt) :
    inFrameFreeCnt (n % cpInFrameCnt) (a % cpInFrameCnt) = cpInFrameCnt - 1 - (n - a) := by
  unfold inFrameFreeCnt
  split <;> simp only [cpInFrameCnt] at * <;> omega

theorem mod_eq_iff_of_window {a n : Nat} (han : a ≤ n) (hn : n - a < cpInFrameCnt) :
    n % cpInFrameCnt = a % cpInFrameCnt ↔ n = a := by
  simp only [cpInFrameCnt] at *
  omega

theorem nextInIdx_mod (n : Nat) : nextInIdx (n % cpInFrameCnt) = (n + 1) % cpInFrameCnt := by
  unfold nextInIdx
  split <;> simp only [cpInFrameCnt] at * <;> omega

theorem prevInIdx_mod {n : Nat} (hn : 0 < n) :
    prevInIdx (n % cpInFrameCnt) = (n - 1) % cpInFrameCnt := by
  unfold prevInIdx
  split <;> simp only [cpInFrameCnt] at * <;> omega

/-- Indices of a window that is not full are different. -/
theorem mod_ne_of_window {a k n : Nat} (hak : a ≤ k) (hkn : k < n)
    (hn : n + 1 - a ≤ cpInFrameCnt) : k % cpInFrameCnt ≠ n % cpInFrameCnt := by
  simp only [cpInFrameCnt] at *
  omega

theorem Described.suffix {puts : List (List UInt8)} {inFrames : Nat → InFrameInfo}
    {start : Nat → Nat} {a b : Nat} (h : Described puts inFrames start a) (hab : a ≤ b) :
    Described puts inFrames start b where
  window := h.window.suffix hab
  count := by have := h.count; omega
  info k hk := h.info k (by omega)
  aligned k hk := h.aligned k (by omega)
  pos k hk := h.pos k (by omega)

/-- A put that finds a place finds it behind the frames, at a new address. -/
theorem placed_of_putPlace {s : CpSystem} {start : Nat → Nat} {a maxBufferFrames pos : Nat}
    {b : InBuffers} (hle : s.consumed ≤ s.puts.length) (ha : a ≤ s.consumed)
    (hd : Described s.puts s.shared.inFrames start a)
    (h : s.putPlace maxBufferFrames b (s.puts.length % cpInFrameCnt) (a % cpInFrameCnt) =
      .ok pos) :
    ∃ t, Placed s.puts s.consumed (Function.update start s.puts.length t) b.data pos := by
  unfold CpSystem.putPlace at h
  generalize hn : s.puts.length = n at *
  by_cases hmax : maxBufferFrames < inFrameCnt s.shared.cpInWidx s.shared.cpInRidx
  · rw [if_pos hmax] at h
    cases h
  rw [if_neg hmax] at h
  have hcount := hd.count
  rw [hn] at hcount
  rw [inFrameFreeCnt_eq (by omega) hcount] at h
  by_cases hfree : cpInFrameCnt - 1 - (n - a) = 0
  · rw [if_pos hfree] at h
    cases h
  rw [if_neg hfree] at h
  have hdata : 0 < alignWord b.data.length := by
    have := b.length_pos
    have := le_alignWord b.data.length
    rw [InBuffers.data, List.length_append] at *
    omega
  unfold putPositions at h
  rcases Nat.eq_or_lt_of_le (Nat.le_trans ha hle) with heq | hlt
  · -- all frames were consumed when the indices were read
    rw [if_pos (by rw [heq])] at h
    obtain ⟨rfl, hsize⟩ := placeInFrame_empty hdata h
    refine ⟨0, by omega, ?_, ?_, by omega, hsize, fun k hk hkn => by omega⟩
    · rw [hn, Function.update_self]
      rfl
    · rw [hn, Function.update_self]
  · have hne : n % cpInFrameCnt ≠ a % cpInFrameCnt := fun heq => by
      have := (mod_eq_iff_of_window (by omega) hcount).1 heq
      omega
    have hinfo := hd.info (n - 1) (by omega) (by omega)
    have haligned := hd.aligned (n - 1) (by omega) (by omega)
    have hfirst := hd.aligned a (Nat.le_refl a) (by omega)
    have hpiece := hd.window.piece (n - 1) (by omega) (by omega)
    rw [if_neg hne, prevInIdx_mod (by omega), hinfo, hd.info a (Nat.le_refl a) (by omega)] at h
    simp only [wrapPos_alignWord haligned hpiece] at h
    have hlastle : ∀ k, a ≤ k → k < n → start k + alignWord (s.puts.getD k []).length ≤
        start (n - 1) + alignWord (s.puts.getD (n - 1) []).length := fun k hk hkn => by
      rcases Nat.eq_or_lt_of_le (Nat.le_sub_one_of_lt hkn) with rfl | hlt'
      · exact Nat.le_refl _
      · exact Nat.le_trans (hd.window.le hk hlt' (by omega)) (Nat.le_add_right _ _)
    have hgt : start a < start (n - 1) + alignWord (s.puts.getD (n - 1) []).length := by
      have h₁ := hlastle a (Nat.le_refl a) hlt
      have h₂ := hd.pos a (Nat.le_refl a) (by omega)
      have h₃ := le_alignWord (s.puts.getD a []).length
      omega
    have hlast4 : (start (n - 1) + alignWord (s.puts.getD (n - 1) []).length) % 4 = 0 := by
      have := alignWord_mod (s.puts.getD (n - 1) []).length
      omega
    obtain ⟨t, hle', ht4, hpos, hroom, hturn⟩ := placeInFrame_spec hfirst hlast4 hgt
      (hd.window.turn (n - 1) (by omega) (by omega)) (alignWord_mod _) hdata h
    refine ⟨t, by omega, ?_, ?_, hroom, ?_, fun k hk hkn => ?_⟩
    · rw [hn, Function.update_self, hpos]
    · rw [hn, Function.update_self, ht4]
    · omega
    · rw [hn] at hkn ⊢
      rw [Function.update_self, Function.update_of_ne (by omega)]
      have h₁ := hlastle k (by omega) hkn
      have h₂ := hd.window.start_le (Nat.le_refl a) (by omega : a ≤ k) (by omega)
      exact ⟨by omega, by omega⟩

/-- The addresses of frames that are not put yet do not matter. -/
theorem Described.update {puts : List (List UInt8)} {inFrames : Nat → InFrameInfo}
    {start : Nat → Nat} {a t i : Nat} {f : InFrameInfo} (h : Described puts inFrames start a)
    (hi : ∀ k, a ≤ k → k < puts.length → k % cpInFrameCnt ≠ i) :
    Described puts (Function.update inFrames i f) (Function.update start puts.length t) a := by
  have hstart : ∀ k, a ≤ k → k < puts.length →
      Function.update start puts.length t k = start k := fun k _ hkn =>
    Function.update_of_ne (by omega) ..
  refine ⟨h.window.congr hstart fun _ _ _ => rfl, h.count, fun k hk hkn => ?_, fun k hk hkn => ?_,
    h.pos⟩
  · rw [Function.update_of_ne (hi k hk hkn), hstart k hk hkn]
    exact h.info k hk hkn
  · rw [hstart k hk hkn]
    exact h.aligned k hk hkn

/-- A put finds a place: its descriptor is not one of the frames'. -/
theorem InvAt.putPlace {s : CpSystem} {start : Nat → Nat} (h : InvAt s start) {b : InBuffers}
    {inWidx inRidx maxBufferFrames pos : Nat} (hmcu : s.mcu = .entered b inWidx inRidx)
    (hpos : s.putPlace maxBufferFrames b inWidx inRidx = .ok pos) :
    Inv { s with
      shared := s.setInFrame inWidx ⟨pos, b.data.length⟩, mcu := .copying b inWidx pos 0 } := by
  have hput := h.put
  rw [hmcu] at hput
  obtain ⟨rfl, a, ha, rfl, hd⟩ := hput
  obtain ⟨t, hplaced⟩ := placed_of_putPlace h.consumed_le ha hd hpos
  have hne : ∀ k, s.consumed ≤ k → k < s.puts.length →
      k % cpInFrameCnt ≠ s.puts.length % cpInFrameCnt := fun k hk hkn =>
    mod_ne_of_window hk hkn (Nat.le_of_lt hplaced.count)
  refine ⟨Function.update start s.puts.length t, h.consumed_le, h.widx, h.ridx,
    h.described.update hne, fun k hk hkn => ?_,
    ⟨rfl, hplaced, Function.update_self .., fun j hj => absurd hj (Nat.not_lt_zero j)⟩, h.task⟩
  rw [Function.update_of_ne (by have : k < s.puts.length := hkn; omega)]
  exact h.bytes k hk hkn

/-- A put copies a byte: it is not one of the frames'. -/
theorem InvAt.putCopy {s : CpSystem} {start : Nat → Nat} (h : InvAt s start) {b : InBuffers}
    {inWidx pos done : Nat} {x : UInt8} (hmcu : s.mcu = .copying b inWidx pos done)
    (hx : b.data[done]? = some x) :
    InvAt { s with
      shared := s.setInCache (pos + done) x, mcu := .copying b inWidx pos (done + 1) } start := by
  have hput := h.put
  rw [hmcu] at hput
  obtain ⟨hw, hplaced, hinfo, hcopied⟩ := hput
  have hdone : done < b.data.length := (List.getElem?_eq_some_iff.1 hx).1
  refine ⟨h.consumed_le, h.widx, h.ridx, h.described, fun k hk hkn j hj => ?_,
    ⟨hw, hplaced, hinfo, fun j hj => ?_⟩, h.task⟩
  · have hne : start k % cpInCacheSize + j ≠ pos + done := by
      rw [hplaced.pos_eq]
      obtain ⟨hle, hturn⟩ := hplaced.behind k hk hkn
      have hdata := le_alignWord b.data.length
      have hlen := le_alignWord (s.puts.getD k []).length
      have hpiece := hplaced.piece
      rw [hplaced.pos_eq] at hpiece
      exact FrameRing.cell_ne (h.described.window.piece k hk hkn) hpiece hle
        (Nat.le_of_lt hturn) (Nat.lt_of_lt_of_le hj hlen) (Nat.lt_of_lt_of_le hdone hdata)
    change Function.update s.shared.cpInCache (pos + done) x _ = _
    rw [Function.update_of_ne hne]
    exact h.bytes k hk hkn j hj
  · change Function.update s.shared.cpInCache (pos + done) x _ = _
    rcases Nat.eq_or_lt_of_le (Nat.le_of_lt_succ hj) with rfl | hlt
    · rw [Function.update_self, List.getD_eq_getElem?_getD, hx]
      rfl
    · rw [Function.update_of_ne (by omega)]
      exact hcopied j hlt

/-- A put publishes its frame. -/
theorem InvAt.putPublish {s : CpSystem} {start : Nat → Nat} (h : InvAt s start) {b : InBuffers}
    {inWidx pos : Nat} (hmcu : s.mcu = .copying b inWidx pos b.data.length) :
    InvAt { s with
      shared.cpInWidx := nextInIdx inWidx, mcu := .idle, puts := s.puts ++ [b.data] } start := by
  have hput := h.put
  rw [hmcu] at hput
  obtain ⟨rfl, hplaced, hinfo, hcopied⟩ := hput
  have hlen : (s.puts ++ [b.data]).length = s.puts.length + 1 := by simp
  have hold : ∀ k, k < s.puts.length → (s.puts ++ [b.data]).getD k [] = s.puts.getD k [] :=
    fun k hk => by
      rw [List.getD_eq_getElem?_getD, List.getElem?_append_left hk, List.getD_eq_getElem?_getD]
  have hnew : (s.puts ++ [b.data]).getD s.puts.length [] = b.data := by
    simp [List.getD_eq_getElem?_getD]
  have hcases : ∀ k, k < (s.puts ++ [b.data]).length → k < s.puts.length ∨ k = s.puts.length :=
    fun k hk => by omega
  have hwindow : Window cpInCacheSize start
      (fun k => alignWord ((s.puts ++ [b.data]).getD k []).length) s.consumed
      (s.puts.length + 1) := by
    refine (h.described.window.congr (fun _ _ _ => rfl) fun k _ hk => by rw [hold k hk]).push
      (fun k hk hkn => ?_) ?_ ?_
    · rw [hold k hkn, hnew]
      exact hplaced.behind k hk hkn
    · rw [hnew]
      exact hplaced.lt_size
    · rw [hnew, ← hplaced.pos_eq]
      exact hplaced.piece
  have hdescribed : Described (s.puts ++ [b.data]) s.shared.inFrames start s.consumed := by
    refine ⟨hlen ▸ hwindow, hlen ▸ hplaced.count, fun k hk hkn => ?_, fun k hk hkn => ?_,
      fun k hk hkn => ?_⟩
    · rcases hcases k hkn with hlt | rfl
      · rw [hold k hlt]
        exact h.described.info k hk hlt
      · rw [hnew, hinfo, hplaced.pos_eq]
    · rcases hcases k hkn with hlt | rfl
      · exact h.described.aligned k hk hlt
      · exact hplaced.aligned
    · rcases hcases k hkn with hlt | rfl
      · rw [hold k hlt]
        exact h.described.pos k hk hlt
      · rw [hnew, InBuffers.data, List.length_append]
        exact b.length_pos
  have hle := h.consumed_le
  refine ⟨by simp only [hlen]; omega, by simp only [hlen, nextInIdx_mod], h.ridx, hdescribed,
    fun k hk hkn j hj => ?_, trivial, ?_⟩
  · rcases hcases k hkn with hlt | rfl
    · simp only [hold k hlt] at hj ⊢
      exact h.bytes k hk hlt j hj
    · simp only [hnew] at hj ⊢
      rw [← hplaced.pos_eq]
      exact hcopied j hj
  · have htask := h.task
    simp only [hlen]
    cases hc : s.cp with
    | main => trivial
    | decode => trivial
    | getting w r | consuming w r =>
      rw [hc] at htask
      exact ⟨htask.1, fun hne => Nat.lt_succ_of_lt (htask.2 hne)⟩

/-! ### The decoder core -/

/-- A task that has just read the indices. -/
theorem InvAt.task_entered {s : CpSystem} {start : Nat → Nat} (h : InvAt s start) :
    s.shared.cpInRidx = s.consumed % cpInFrameCnt ∧
      (s.shared.cpInWidx ≠ s.shared.cpInRidx → s.consumed < s.puts.length) := by
  refine ⟨h.ridx, fun hne => ?_⟩
  rw [h.widx, h.ridx] at hne
  have hle := h.consumed_le
  exact Nat.lt_of_le_of_ne hle fun heq => hne (by rw [heq])

/-- A consume publishes the index behind the oldest frame. -/
theorem InvAt.consumePublish {s : CpSystem} {start : Nat → Nat} (h : InvAt s start)
    {inWidx inRidx : Nat} (hcp : s.cp = .consuming inWidx inRidx) (hne : inWidx ≠ inRidx) :
    InvAt { s with
      shared.cpInRidx := nextInIdx inRidx, cp := .decode, consumed := s.consumed + 1 } start := by
  have htask := h.task
  rw [hcp] at htask
  obtain ⟨rfl, hlt⟩ := htask
  refine ⟨hlt hne, h.widx, by simp only [nextInIdx_mod],
    h.described.suffix (Nat.le_succ _), fun k hk => h.bytes k (Nat.le_of_succ_le hk), ?_, trivial⟩
  have hput := h.put
  cases hm : s.mcu with
  | idle => trivial
  | entered b w r =>
    rw [hm] at hput
    obtain ⟨hw, a, ha, hr, hd⟩ := hput
    exact ⟨hw, a, Nat.le_succ_of_le ha, hr, hd⟩
  | copying b w pos done =>
    rw [hm] at hput
    obtain ⟨hw, hplaced, hinfo, hcopied⟩ := hput
    have hcount : s.puts.length + 1 - (s.consumed + 1) < cpInFrameCnt := by
      have := hplaced.count
      omega
    exact ⟨hw, ⟨hcount, hplaced.pos_eq, hplaced.aligned, hplaced.piece, hplaced.lt_size,
      fun k hk => hplaced.behind k (Nat.le_of_succ_le hk)⟩, hinfo, hcopied⟩

/-! ### Runs -/

/-- No put is between its indices and its publication when a reset is served. -/
def Guard (s : CpSystem) : CpEvent → Prop
  | .serveReset => s.mcu = .idle
  | _ => True

/-- A step keeps the invariant. -/
theorem cpStep_inv {s t : CpSystem} {e : CpEvent} (h : Inv s) (hg : Guard s e)
    (hstep : cpStep s e = some t) : Inv t := by
  obtain ⟨start, h⟩ := h
  cases e with
  | putEnter b =>
    unfold cpStep at hstep
    cases hm : s.mcu with
    | idle =>
      simp only [hm] at hstep
      split at hstep <;> obtain rfl := Option.some.inj hstep
      · exact ⟨start, h⟩
      · exact ⟨start, h.consumed_le, h.widx, h.ridx, h.described, h.bytes,
          ⟨h.widx, s.consumed, Nat.le_refl _, h.ridx, h.described⟩, h.task⟩
    | _ => simp [hm] at hstep
  | putPlace maxBufferFrames =>
    unfold cpStep at hstep
    cases hm : s.mcu with
    | entered b inWidx inRidx =>
      simp only [hm] at hstep
      cases hp : s.putPlace maxBufferFrames b inWidx inRidx with
      | error code =>
        simp only [hp] at hstep
        obtain rfl := Option.some.inj hstep
        exact ⟨start, h.consumed_le, h.widx, h.ridx, h.described, h.bytes, trivial, h.task⟩
      | ok pos =>
        simp only [hp] at hstep
        obtain rfl := Option.some.inj hstep
        exact h.putPlace hm hp
    | _ => simp [hm] at hstep
  | putCopy =>
    unfold cpStep at hstep
    cases hm : s.mcu with
    | copying b inWidx pos done =>
      simp only [hm] at hstep
      obtain ⟨x, hx, rfl⟩ := Option.map_eq_some_iff.1 hstep
      exact ⟨start, h.putCopy hm hx⟩
    | _ => simp [hm] at hstep
  | putPublish =>
    unfold cpStep at hstep
    cases hm : s.mcu with
    | copying b inWidx pos done =>
      simp only [hm] at hstep
      by_cases hdone : done = b.data.length
      · subst hdone
        rw [if_pos rfl] at hstep
        obtain rfl := Option.some.inj hstep
        exact ⟨start, h.putPublish hm⟩
      · rw [if_neg hdone] at hstep
        cases hstep
    | _ => simp [hm] at hstep
  | resetFrame =>
    obtain rfl := Option.some.inj hstep
    refine ⟨start, h.consumed_le, h.widx, h.ridx, h.described, h.bytes, ?_, h.task⟩
    have hput := h.put
    cases hm : s.mcu <;> rw [hm] at hput <;> exact hput
  | decode | decodeEnd =>
    obtain ⟨-, hstep⟩ := Option.ite_none_right_eq_some.1 hstep
    obtain rfl := Option.some.inj hstep
    exact ⟨start, h.consumed_le, h.widx, h.ridx, h.described, h.bytes, h.put, trivial⟩
  | getEnter | consumeEnter =>
    obtain ⟨-, hstep⟩ := Option.ite_none_right_eq_some.1 hstep
    split at hstep <;> obtain rfl := Option.some.inj hstep
    · exact ⟨start, h⟩
    · exact ⟨start, h.consumed_le, h.widx, h.ridx, h.described, h.bytes, h.put, h.task_entered⟩
  | getReturn =>
    unfold cpStep at hstep
    cases hc : s.cp with
    | getting inWidx inRidx =>
      simp only [hc] at hstep
      obtain rfl := Option.some.inj hstep
      exact ⟨start, h.consumed_le, h.widx, h.ridx, h.described, h.bytes, h.put, trivial⟩
    | _ => simp [hc] at hstep
  | consumePublish =>
    unfold cpStep at hstep
    cases hc : s.cp with
    | consuming inWidx inRidx =>
      simp only [hc] at hstep
      by_cases heq : inWidx = inRidx
      · rw [if_pos heq] at hstep
        obtain rfl := Option.some.inj hstep
        exact ⟨start, h.consumed_le, h.widx, h.ridx, h.described, h.bytes, h.put, trivial⟩
      · rw [if_neg heq] at hstep
        obtain rfl := Option.some.inj hstep
        exact ⟨start, h.consumePublish hc heq⟩
    | _ => simp [hc] at hstep
  | serveReset =>
    obtain ⟨⟨hcp, -⟩, hstep⟩ := Option.ite_none_right_eq_some.1 hstep
    obtain rfl := Option.some.inj hstep
    refine ⟨start, Nat.le_refl 0, rfl, rfl, described_nil _ _,
      fun k _ hk => absurd hk (Nat.not_lt_zero k), ?_, ?_⟩
    · simp only [show s.mcu = .idle from hg]
      trivial
    · simp only [hcp]
      trivial

/-- What the decoder core sees: every frame that is not consumed lies in the cache with its bytes
and its length, and a get that finds a frame returns the oldest one. The place of a put lies in the
cache. -/
structure Delivered (s : CpSystem) : Prop where
  intact : ∀ k data, s.consumed ≤ k → s.puts[k]? = some data →
    let f := s.shared.inFrames (k % cpInFrameCnt)
    f.len = data.length ∧ f.pos + f.len ≤ cpInCacheSize ∧ s.shared.frame f = data
  oldest : ∀ inWidx inRidx data, s.cp = .getting inWidx inRidx →
    getReturns s inWidx inRidx = some data → s.puts[s.consumed]? = some data
  place : ∀ b inWidx pos done, s.mcu = .copying b inWidx pos done →
    pos + b.data.length ≤ cpInCacheSize

/-- A frame of the window is read back. -/
theorem InvAt.frame_eq {s : CpSystem} {start : Nat → Nat} (h : InvAt s start) {k : Nat}
    (hk : s.consumed ≤ k) (hkn : k < s.puts.length) :
    s.shared.frame (s.shared.inFrames (k % cpInFrameCnt)) = s.puts.getD k [] := by
  rw [h.described.info k hk hkn]
  refine List.ext_getElem (by simp [CpShared.frame]) fun j hj hj' => ?_
  have := h.bytes k hk hkn j hj'
  simp only [CpShared.frame, List.getElem_map, List.getElem_range, this]
  rw [List.getD_eq_getElem _ _ hj']

theorem Inv.delivered {s : CpSystem} (h : Inv s) : Delivered s := by
  obtain ⟨start, h⟩ := h
  refine ⟨fun k data hk hdata => ?_, fun inWidx inRidx data hcp hget => ?_,
    fun b inWidx pos done hmcu => ?_⟩
  · obtain ⟨hkn, rfl⟩ := List.getElem?_eq_some_iff.1 hdata
    have hgetD : s.puts.getD k [] = s.puts[k] := List.getD_eq_getElem _ _ hkn
    have hpiece := h.described.window.piece k hk hkn
    have hle := le_alignWord (s.puts.getD k []).length
    have hframe := h.frame_eq hk hkn
    rw [h.described.info k hk hkn] at hframe ⊢
    refine ⟨by rw [hgetD], ?_, hframe.trans hgetD⟩
    exact Nat.le_trans (Nat.add_le_add_left hle _) hpiece
  · have htask := h.task
    rw [hcp] at htask
    obtain ⟨rfl, hlt⟩ := htask
    unfold getReturns at hget
    by_cases heq : inWidx = s.consumed % cpInFrameCnt
    · rw [if_pos heq] at hget
      cases hget
    · rw [if_neg heq, h.frame_eq (Nat.le_refl _) (hlt heq)] at hget
      rw [List.getElem?_eq_getElem (hlt heq), ← Option.some.inj hget,
        List.getD_eq_getElem _ _ (hlt heq)]
  · have hput := h.put
    rw [hmcu] at hput
    exact Nat.le_trans (Nat.add_le_add_left (le_alignWord _) _) hput.2.1.piece

/-- A put that returns an error leaves the shared memory and the frames as they are. -/
theorem shared_eq_of_putReturns {s t : CpSystem} {e : CpEvent} {code : Int}
    (hcode : putReturns s e = some code) (hne : code ≠ 0) (hstep : cpStep s e = some t) :
    t.shared = s.shared ∧ t.puts = s.puts ∧ t.consumed = s.consumed := by
  cases e with
  | putEnter b =>
    obtain ⟨hreset, -⟩ := Option.ite_none_right_eq_some.1 hcode
    unfold cpStep at hstep
    cases hm : s.mcu with
    | idle =>
      simp only [hm, hreset, if_true] at hstep
      obtain rfl := Option.some.inj hstep
      exact ⟨rfl, rfl, rfl⟩
    | _ => simp [hm] at hstep
  | putPlace maxBufferFrames =>
    unfold cpStep at hstep
    unfold putReturns at hcode
    cases hm : s.mcu with
    | entered b inWidx inRidx =>
      simp only [hm] at hstep hcode
      cases hp : s.putPlace maxBufferFrames b inWidx inRidx with
      | error code =>
        simp only [hp] at hstep
        obtain rfl := Option.some.inj hstep
        exact ⟨rfl, rfl, rfl⟩
      | ok pos => simp [hp] at hcode
    | _ => simp [hm] at hstep
  | putPublish => exact absurd (Option.some.inj hcode).symm hne
  | _ => cases hcode

/-- **The frames reach the decoder core whole and in order**, in every order of the steps of the two
cores in which no reset is served during a put, and a put that returns an error changes nothing. -/
theorem frames_delivered {s₀ s : CpSystem} {es : List CpEvent} (h₀ : InitialCp s₀)
    (hes : Along cpStep Guard s₀ es) (hrun : es.foldlM cpStep s₀ = some s) :
    Delivered s ∧
      ∀ e t code, putReturns s e = some code → code ≠ 0 → cpStep s e = some t →
        t.shared = s.shared ∧ t.puts = s.puts ∧ t.consumed = s.consumed :=
  ⟨(hes.preserves (fun _ _ _ => cpStep_inv) hrun h₀.inv).delivered,
    fun _ _ _ => shared_eq_of_putReturns⟩

/-! ### A reset during a put -/

/-- The state after `a2dp_cp_decoder_init`, with a cleared memory. -/
def initialCp : CpSystem := ⟨⟨0, 0, fun _ => ⟨0, 0⟩, fun _ => 0, false⟩, .idle, .main, [], 0⟩

/-- A frame of one byte. -/
def byteFrame (x : UInt8) : InBuffers := ⟨[x], [], by simp, by simp [cpInCacheSize]⟩

/-- A reset that is served after a put has read the indices, and a get. -/
def resetDuringPut : List CpEvent :=
  [.putEnter (byteFrame 1), .putPlace 2, .putCopy, .putPublish, .putEnter (byteFrame 2),
    .resetFrame, .serveReset, .putPlace 2, .putCopy, .putPublish, .decode, .getEnter]

/-- The put publishes the index after its old one, and the decoder core gets a frame from before the
reset. -/
theorem stale_frame_after_reset :
    ∃ s, resetDuringPut.foldlM cpStep initialCp = some s ∧ s.cp = .getting 2 0 ∧
      s.puts = [[2]] ∧ s.consumed = 0 ∧ getReturns s 2 0 = some [1] :=
  ⟨_, rfl, rfl, rfl, rfl, rfl⟩

/-- Without a reset that is served there is nothing to meet. -/
theorem along_of_no_reset {es : List CpEvent} (h : ∀ e ∈ es, e ≠ .serveReset) (s : CpSystem) :
    Along cpStep Guard s es := by
  induction es generalizing s with
  | nil => trivial
  | cons e es ih =>
    refine ⟨?_, fun t _ => ih (fun e' he' => h e' (List.mem_cons_of_mem e he')) t⟩
    cases e with
    | serveReset => exact absurd rfl (h _ List.mem_cons_self)
    | _ => trivial

/-- A reset that is served after a put, another put, and a get. -/
def resetAfterPut : List CpEvent :=
  [.putEnter (byteFrame 1), .putPlace 2, .putCopy, .putPublish, .resetFrame] ++ .serveReset ::
    [.putEnter (byteFrame 2), .putPlace 2, .putCopy, .putPublish, .decode, .getEnter]

theorem frames_delivered_run :
    ∃ s, resetAfterPut.foldlM cpStep initialCp = some s ∧ getReturns s 1 0 = some [2] ∧
      Delivered s := by
  have hes : Along cpStep Guard initialCp resetAfterPut := by
    refine Transition.along_append.2 ⟨along_of_no_reset (by simp) _, fun t ht => ?_⟩
    obtain rfl := Option.some.inj ht
    exact ⟨rfl, fun _ _ => along_of_no_reset (by simp) _⟩
  obtain ⟨s, hs⟩ : ∃ s, resetAfterPut.foldlM cpStep initialCp = some s := ⟨_, rfl⟩
  refine ⟨s, hs, ?_, (frames_delivered ⟨rfl, rfl, rfl, rfl, rfl, rfl⟩ hes hs).1⟩
  obtain rfl := Option.some.inj hs
  rfl

end EarbudFirmware.A2dp
