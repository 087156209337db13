import EarbudFirmware.AiOta.Session

/-!
# Copying data to the flash

What a session has received lies in the flash up to a sector boundary, and behind it in the cache.
A pass of the copying loop keeps this, and so does the loop, however the data is cut into calls.

## Main definitions

* `Holds` — the bytes of the session in the flash and in the cache
* `Copied` — what copying may change

## Main results

* `flushDataToFlash_apply` — the flash after up to a sector is flushed
* `copyPass_holds`, `copyLoop_holds` — a pass, and the loop, keep the bytes in order
* `foldl_copyData_holds` — so do any number of calls
-/

namespace EarbudFirmware.AiOta

/-! ### Flushing a sector -/

/-- Up to a sector of data is flushed to the start of a sector: the rest of the sector is erased,
and nothing else changes. -/
theorem flushDataToFlash_apply (f : Flash) (src : Nat → Option FlashByte) {n offset : Nat}
    (hn : n ≤ sectorSize) (hpos : 0 < n) (ho : offset % sectorSize = 0) (x : Nat) :
    flushDataToFlash f src n offset x =
      if offset ≤ x ∧ x < offset + n then src (x - offset)
      else if x / sectorSize = offset / sectorSize then none else f x := by
  have hpre : (sectorSize - offset % sectorSize) % sectorSize = 0 := by
    simp [ho]
  have hidx : offset / sectorSize * sectorSize = offset := by
    simp only [sectorSize] at *
    omega
  unfold flushDataToFlash
  rw [hpre]
  rcases Nat.lt_or_eq_of_le hn with hlt | rfl
  · -- a part of a sector is all postBytes
    have hmid : n / sectorSize * sectorSize = 0 := by simp [Nat.div_eq_of_lt hlt]
    have hpost : (offset + n) % sectorSize = n := by simp [Nat.add_mod, ho, Nat.mod_eq_of_lt hlt]
    simp only [Nat.not_lt_zero, if_false, Nat.sub_zero, if_pos hpos, hmid, Nat.add_zero, hpost,
      Nat.zero_div, programSectors, Nat.zero_add, hidx, programFlash, eraseSector]
  · have hmid : sectorSize / sectorSize * sectorSize = sectorSize := by decide
    have hcnt : sectorSize / sectorSize = 1 := by decide
    simp only [Nat.not_lt_zero, if_false, Nat.sub_zero, if_pos hpos, Nat.add_zero, hcnt,
      Nat.one_mul, programSectors, Nat.zero_add, Nat.zero_mul, hidx, programFlash, eraseSector,
      Nat.lt_irrefl]

/-! ### Copying data -/

/-- The session's bytes from `start` to `got` lie in order in the flash and, from a sector boundary
on, in the cache; byte `i` is `g i`. -/
structure Holds (g : Nat → Option FlashByte) (start : Nat) (e : OtaEnv) (f : Flash) (got : Nat) :
    Prop where
  offset_lt : e.dataCacheBufferOffset < sectorSize
  got_eq : e.newImageProgramOffset + e.dataCacheBufferOffset = got
  program_aligned : e.newImageProgramOffset % sectorSize = 0
  flash_aligned : e.newImageFlashOffset % sectorSize = 0
  start_le : start ≤ e.newImageProgramOffset
  cached : ∀ i < e.dataCacheBufferOffset, e.dataCacheBuffer i = g (e.newImageProgramOffset + i)
  programmed : ∀ i, start ≤ i → i < e.newImageProgramOffset → f (e.newImageFlashOffset + i) = g i

/-- What copying data may change: the cache, and bytes of the flash to the bytes of the image. -/
structure Copied (g : Nat → Option FlashByte) (w w' : OtaEnv × Flash) : Prop where
  env : ∃ b o p, w'.1 =
    { w.1 with dataCacheBuffer := b, dataCacheBufferOffset := o, newImageProgramOffset := p }
  flash : ∀ i, w'.2 (w.1.newImageFlashOffset + i) = w.2 (w.1.newImageFlashOffset + i) ∨
    w'.2 (w.1.newImageFlashOffset + i) = g i

theorem Copied.refl (g : Nat → Option FlashByte) (w : OtaEnv × Flash) : Copied g w w :=
  ⟨⟨_, _, _, rfl⟩, fun _ => .inl rfl⟩

theorem Copied.trans {g : Nat → Option FlashByte} {w w' w'' : OtaEnv × Flash}
    (h : Copied g w w') (h' : Copied g w' w'') : Copied g w w'' := by
  obtain ⟨b, o, p, he⟩ := h.env
  obtain ⟨b', o', p', he'⟩ := h'.env
  have hbase : w'.1.newImageFlashOffset = w.1.newImageFlashOffset := by rw [he]
  refine ⟨⟨b', o', p', by rw [he', he]⟩, fun i => ?_⟩
  have hi := h'.flash i
  rw [hbase] at hi
  rcases hi with hi | hi
  · rw [hi]
    exact h.flash i
  · exact .inr hi

/-- The bytes that a pass copies to the cache. -/
theorem cached_append {g buffer : Nat → Option FlashByte} {data : List FlashByte}
    {program offset n : Nat} (hn : n ≤ data.length)
    (hcached : ∀ i < offset, buffer i = g (program + i))
    (hdata : ∀ k < data.length, data[k]? = g (program + offset + k)) :
    ∀ i < offset + n, programFlash buffer offset (data[·]?) n i = g (program + i) := by
  intro i hi
  unfold programFlash
  by_cases hlt : i < offset
  · rw [if_neg (by omega)]
    exact hcached i hlt
  · rw [if_pos ⟨by omega, hi⟩]
    refine (hdata (i - offset) (by omega)).trans ?_
    congr 1
    omega

/-- One pass copies a byte, if there is one, and keeps the order. -/
theorem copyPass_holds {g : Nat → Option FlashByte} {start got : Nat} {e : OtaEnv} {f : Flash}
    {data : List FlashByte} (h : Holds g start e f got)
    (hdata : ∀ k < data.length, data[k]? = g (got + k)) :
    ∃ n ≤ data.length, (data ≠ [] → 0 < n) ∧ (copyPass e f data).2 = data.drop n ∧
      Holds g start (copyPass e f data).1.1 (copyPass e f data).1.2 (got + n) ∧
      Copied g (e, f) (copyPass e f data).1 := by
  have hlt := h.offset_lt
  have hgot := h.got_eq
  obtain ⟨n, hn, hle, hfull, hpos⟩ : ∃ n, n =
      (if sectorSize < e.dataCacheBufferOffset + data.length then
        sectorSize - e.dataCacheBufferOffset else data.length) ∧ n ≤ data.length ∧
      e.dataCacheBufferOffset + n ≤ sectorSize ∧ (data ≠ [] → 0 < n) := by
    refine ⟨_, rfl, ?_⟩
    have := fun h : data ≠ [] => List.length_pos_iff.2 h
    split <;> refine ⟨by omega, by omega, fun h => ?_⟩ <;> have := this h <;> omega
  have hcached := cached_append hle h.cached fun k hk => by rw [hdata k hk, ← hgot]
  refine ⟨n, hle, hpos, ?_⟩
  unfold copyPass
  rw [← hn]
  by_cases hflush : e.dataCacheBufferOffset + n = sectorSize
  · -- the cache is full: its sector follows what the flash holds already
    simp only [if_pos hflush]
    have halign : (e.newImageProgramOffset + e.newImageFlashOffset) % sectorSize = 0 := by
      rw [Nat.add_mod, h.program_aligned, h.flash_aligned]
      rfl
    have hflash := flushDataToFlash_apply f
      (programFlash e.dataCacheBuffer e.dataCacheBufferOffset (data[·]?) n) (Nat.le_refl sectorSize)
      (by decide) halign
    have hin : ∀ i, e.newImageProgramOffset ≤ i → i < e.newImageProgramOffset + sectorSize →
        flushDataToFlash f (programFlash e.dataCacheBuffer e.dataCacheBufferOffset (data[·]?) n)
          sectorSize (e.newImageProgramOffset + e.newImageFlashOffset)
          (e.newImageFlashOffset + i) = g i := by
      intro i hi hi'
      rw [hflash, if_pos ⟨by omega, by omega⟩, hcached _ (by omega)]
      congr 1
      omega
    have hout : ∀ i, i < e.newImageProgramOffset ∨ e.newImageProgramOffset + sectorSize ≤ i →
        flushDataToFlash f (programFlash e.dataCacheBuffer e.dataCacheBufferOffset (data[·]?) n)
          sectorSize (e.newImageProgramOffset + e.newImageFlashOffset)
          (e.newImageFlashOffset + i) = f (e.newImageFlashOffset + i) := by
      intro i hi
      rw [hflash, if_neg (by omega), if_neg]
      simp only [sectorSize] at *
      omega
    refine ⟨trivial, ⟨Nat.zero_lt_of_lt hlt, by simp only; omega, ?_, h.flash_aligned, ?_, ?_, ?_⟩,
      ⟨⟨_, _, _, rfl⟩, fun i => ?_⟩⟩
    · simp [h.program_aligned]
    · exact Nat.le_trans h.start_le (Nat.le_add_right _ _)
    · exact fun i hi => absurd hi (Nat.not_lt_zero i)
    · intro i hs hi
      by_cases hlo : e.newImageProgramOffset ≤ i
      · exact hin i hlo hi
      · rw [hout i (.inl (by omega))]
        exact h.programmed i hs (by omega)
    · by_cases hi : e.newImageProgramOffset ≤ i ∧ i < e.newImageProgramOffset + sectorSize
      · exact .inr (hin i hi.1 hi.2)
      · exact .inl (hout i (by omega))
  · simp only [if_neg hflush]
    exact ⟨trivial, ⟨by simp only; omega, by simp only; omega, h.program_aligned, h.flash_aligned,
      h.start_le, hcached, h.programmed⟩, ⟨⟨_, _, _, rfl⟩, fun i => .inl rfl⟩⟩

/-- The loop copies all the data: it makes at most one pass for a byte, and one for none. -/
theorem copyLoop_holds {g : Nat → Option FlashByte} {start got : Nat} {w : OtaEnv × Flash}
    {data : List FlashByte} {fuel : Nat} (hfuel : data.length < fuel)
    (h : Holds g start w.1 w.2 got) (hdata : ∀ k < data.length, data[k]? = g (got + k)) :
    Holds g start (copyLoop fuel w data).1 (copyLoop fuel w data).2 (got + data.length) ∧
      Copied g w (copyLoop fuel w data) := by
  induction fuel generalizing w got data with
  | zero => omega
  | succ fuel ih =>
    obtain ⟨n, hn, hpos, hrest, hholds, hcopied⟩ := copyPass_holds h hdata
    rw [copyLoop]
    by_cases hnil : (copyPass w.1 w.2 data).2 = []
    · have hall : n = data.length := by
        rw [hrest, List.drop_eq_nil_iff] at hnil
        omega
      rw [if_pos hnil]
      exact ⟨hall ▸ hholds, hcopied⟩
    · have hlt : 0 < n := hpos fun hd => hnil (by rw [hrest, hd, List.drop_nil])
      rw [if_neg hnil, hrest]
      have hlen : (data.drop n).length = data.length - n := List.length_drop
      obtain ⟨hh, hc⟩ := ih (by omega : (data.drop n).length < fuel) hholds fun k hk => by
        rw [List.getElem?_drop, hdata _ (by omega)]
        congr 1
        omega
      refine ⟨?_, hcopied.trans hc⟩
      rw [hlen, show got + n + (data.length - n) = got + data.length by omega] at hh
      exact hh

/-- The data of a call goes to the flash and to the cache, behind what came before. -/
theorem copyData_holds {g : Nat → Option FlashByte} {start got : Nat} {w : OtaEnv × Flash}
    {data : List FlashByte} (h : Holds g start w.1 w.2 got)
    (hdata : ∀ k < data.length, data[k]? = g (got + k)) :
    Holds g start (copyData w data).1 (copyData w data).2 (got + data.length) ∧
      Copied g w (copyData w data) :=
  copyLoop_holds (Nat.lt_succ_self _) h hdata

/-- Chunks of data are copied one after the other. -/
theorem foldl_copyData_holds {g : Nat → Option FlashByte} {start got : Nat}
    {chunks : List (List FlashByte)} {w : OtaEnv × Flash} (h : Holds g start w.1 w.2 got)
    (hdata : ∀ k < chunks.flatten.length, chunks.flatten[k]? = g (got + k)) :
    Holds g start (chunks.foldl copyData w).1 (chunks.foldl copyData w).2
        (got + chunks.flatten.length) ∧ Copied g w (chunks.foldl copyData w) := by
  induction chunks generalizing w got with
  | nil => exact ⟨h, .refl g w⟩
  | cons data chunks ih =>
    simp only [List.flatten_cons, List.length_append] at hdata ⊢
    have hhead : ∀ k < data.length, data[k]? = g (got + k) := fun k hk => by
      rw [← hdata k (by omega), List.getElem?_append_left hk]
    obtain ⟨hone, hcopied⟩ := copyData_holds h hhead
    obtain ⟨hrest, hcopied'⟩ := ih hone fun k hk => by
      rw [Nat.add_assoc, ← hdata (data.length + k) (by omega),
        List.getElem?_append_right (Nat.le_add_right _ _), Nat.add_sub_cancel_left]
    rw [Nat.add_assoc] at hrest
    exact ⟨hrest, hcopied.trans hcopied'⟩

end EarbudFirmware.AiOta
