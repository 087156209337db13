import EarbudFirmware.Ota.Sequential
import EarbudFirmware.Ota.Specs

/-!
# A segment that fails its check

The image is verified segment by segment. When a segment fails, its sectors are erased and it is
received again. A segment may start in the middle of a sector, and then the sector is erased as a
whole, with the end of what has been verified.

## Main definitions

* `InSegment` — a transmission that has received a segment behind what has been verified
* `Harmless` — the failed check leaves what has been verified, and the segment can be sent again
* `EraseSafe` — what it takes

## Main results

* `dataLoop_held` — the data of the packets is in the flash and in the data buffer
* `harmless_iff` — the states in which a failed check is harmless
-/

namespace EarbudFirmware.Ota

open NorMemory (Content overlay)
open SectorFill (Op Fills)

/-! ### Specification -/

/-- The bytes of a packet. -/
def Packet.data (p : Packet) : List UInt8 := (List.range p.length).map p.payload

/-- The image has been verified up to `p`, and `len` bytes of the next segment have been
received. -/
structure InSegment (b : Build) (s : OtaState) (x : FlashModule) (p len : Nat) : Prop where
  inOta : s.env.isInBesOtaState = true
  inProgress : s.env.isOTAInProgress = true
  module : s.module b = some x
  aligned : p % minSegAlign = 0
  imageOfSegment : s.env.offsetOfImageOfCurrentSegment = p
  flashOfSegment : s.env.offsetInFlashOfCurrentSegment = p
  received : s.env.alreadyReceivedDataSizeOfImage = p + len
  programmed : s.env.offsetInFlashToProgram + s.env.offsetInDataBufferForBurning = p + len
  le_programmed : p ≤ s.env.offsetInFlashToProgram
  flash_aligned : s.env.offsetInFlashToProgram % minSegAlign = 0
  buffer_lt : s.env.offsetInDataBufferForBurning < sectorSize
  pos : 0 < len
  le_total : p + len ≤ s.env.totalImageSize
  total_le : s.env.totalImageSize ≤ b.maxImageSize
  inModule : (p + len + (sectorSize - 1)) / sectorSize * sectorSize ≤ b.length x
  retry : sub32 s.env.segVerifyRetry 1 ≠ 0

/-- The checksum of the segment is not the one in the packet. -/
def CheckFails (b : Build) (s : OtaState) (x : FlashModule) (p len : Nat) (verify : Packet) :
    Prop :=
  ∀ s₁ m crc, flushRest b s = some s₁ →
    calcuteSegmentCrc32 b (some x) p len 0 s₁.mem = some (m, crc) →
    ¬(verify.HasMagicCode ∧ verify.field 4 = crc.toNat)

/-- The data packets of a segment, and the rest of the data buffer that is programmed at its end. -/
def retransmit (b : Build) (s : OtaState) (ps : List Packet) : Option OtaState := do
  let s ← ps.foldlM (fun s p => (handleData b s p).map Prod.fst) s
  flushRest b s

/-- The failed check ends, what is in front of the segment stays, and then the segment can be
received in any packets. -/
def Harmless (b : Build) (s : OtaState) (x : FlashModule) (p len : Nat) (verify : Packet) : Prop :=
  ∃ s' out, handleSegmentVerify b s verify = some (s', out) ∧
    (∀ i < p, s'.mem.flash x i = s.mem.flash x i) ∧
    ∀ ps : List Packet, (ps.flatMap Packet.data).length = len →
      ∃ s'', retransmit b s' ps = some s'' ∧
        (List.range len).map (fun i => s''.mem.flash x (p + i)) = ps.flatMap Packet.data

/-- The number of sectors that `erase_segment` erases. -/
def sectorNum (p len : Nat) : Nat := (p % sectorSize + len) / sectorSize + 1

/-- The loop counter is large enough, the sectors are in the module, and in the first one there is
nothing in front of the segment. -/
structure EraseSafe (b : Build) (s : OtaState) (x : FlashModule) (p len : Nat) : Prop where
  count_lt : sectorNum p len < 256
  fits : p - p % sectorSize + sectorNum p len * sectorSize ≤ b.length x
  blank : ∀ i, p - p % sectorSize ≤ i → i < p → s.mem.flash x i = 0xFF

variable {b : Build} {x : FlashModule} {m m' : Mem} {s s' : OtaState} {p len : Nat}

/-! ### Erasing -/

/-- Sectors that are in the module are erased, and nothing else. -/
theorem exists_eraseSectors {start k : Nat} (hat : start % sectorSize = 0)
    (hle : start + k * sectorSize ≤ b.length x) (m : Mem) :
    ∃ m', (List.range k).foldlM (fun m i =>
        appFlashSectorErase b (some x) (start + i * sectorSize) m) m = some m' ∧
      m'.dataBufferForBurning = m.dataBufferForBurning ∧
      ∀ y, m'.flash x y =
        if start ≤ y ∧ y < start + k * sectorSize then 0xFF else m.flash x y := by
  induction k with
  | zero => exact ⟨m, rfl, rfl, fun y => (if_neg (by omega)).symm⟩
  | succ k ih =>
    rw [Nat.succ_mul] at hle
    obtain ⟨m₁, hm₁, hbuf, hflash⟩ := ih (by omega)
    have herase : appFlashSectorErase b (some x) (start + k * sectorSize) m₁ =
        some (m₁.apply x (.erase (start + k * sectorSize) sectorSize)) :=
      if_pos ⟨by rw [Nat.add_mul_mod_self_right]; exact hat, by omega⟩
    refine ⟨m₁.apply x (.erase (start + k * sectorSize) sectorSize), ?_, hbuf, fun y => ?_⟩
    · rw [List.range_succ, List.foldlM_append, hm₁, Option.bind_eq_bind, Option.bind_some,
        List.foldlM_cons, herase]
      rfl
    · have hupdate : (m₁.apply x (.erase (start + k * sectorSize) sectorSize)).flash x =
          (NorMemory.Op.erase (start + k * sectorSize) sectorSize).apply (m₁.flash x) :=
        Function.update_self _ _ _
      rw [hupdate, NorMemory.Op.apply_apply, NorMemory.Op.byteAt, hflash y, Nat.succ_mul]
      by_cases hlast : NorMemory.InRange (start + k * sectorSize) sectorSize y
      · obtain ⟨hlo, hhi⟩ := hlast
        rw [if_pos ⟨hlo, hhi⟩, if_pos (by omega)]
      · rw [if_neg hlast]
        unfold NorMemory.InRange at hlast
        exact if_congr (by omega) rfl rfl

/-- A sector outside of the module is not erased. -/
theorem eraseSectors_eq_none {start k : Nat} (hpos : 0 < k)
    (hlt : b.length x < start + k * sectorSize) (m : Mem) :
    (List.range k).foldlM (fun m i =>
      appFlashSectorErase b (some x) (start + i * sectorSize) m) m = none := by
  obtain ⟨k, rfl⟩ := Nat.exists_eq_add_of_lt hpos
  rw [Nat.zero_add, Nat.succ_mul] at hlt
  rw [Nat.zero_add, List.range_succ, List.foldlM_append]
  refine Option.bind_eq_none_iff.2 fun m' _ => ?_
  have herase : appFlashSectorErase b (some x) (start + k * sectorSize) m' = none :=
    if_neg (by omega)
  rw [List.foldlM_cons, herase]
  rfl

/-- `erase_segment` ends if and only if the sectors are few enough and in the module. -/
theorem eraseSegment_cases (hlen : len < 0x80000000) (m : Mem) :
    (sectorNum p len < 256 ∧ p - p % sectorSize + sectorNum p len * sectorSize ≤ b.length x ∧
      ∃ m', eraseSegment b (some x) p len m = some m' ∧
        m'.dataBufferForBurning = m.dataBufferForBurning ∧
        ∀ y, m'.flash x y =
          if p - p % sectorSize ≤ y ∧ y < p - p % sectorSize + sectorNum p len * sectorSize then
            0xFF
          else m.flash x y) ∨
    (¬(sectorNum p len < 256 ∧
        p - p % sectorSize + sectorNum p len * sectorSize ≤ b.length x) ∧
      eraseSegment b (some x) p len m = none) := by
  have hadd : add32 (p % sectorSize) len = p % sectorSize + len := by
    unfold add32 sectorSize
    omega
  have hat : (p - p % sectorSize) % sectorSize = 0 := by
    unfold sectorSize
    omega
  unfold eraseSegment
  dsimp only
  rw [hadd, show (p % sectorSize + len) / sectorSize + 1 = sectorNum p len from rfl]
  by_cases hcount : sectorNum p len < 2 ^ 8
  · rw [if_pos hcount]
    by_cases hfits : p - p % sectorSize + sectorNum p len * sectorSize ≤ b.length x
    · exact .inl ⟨hcount, hfits, exists_eraseSectors hat hfits m⟩
    · exact .inr ⟨fun h => hfits h.2,
        eraseSectors_eq_none (Nat.succ_pos _) (Nat.lt_of_not_le hfits) m⟩
  · rw [if_neg hcount]
    exact .inr ⟨fun h => hcount h.1, rfl⟩

/-! ### Receiving data -/

/-- The bytes `w` have been received behind `p`: the ones of full data buffers are in the flash, the
others in the data buffer. The flash held `c` before. -/
structure Held (x : FlashModule) (p : Nat) (c : Content) (w : List UInt8) (e : Env) (m : Mem) :
    Prop where
  buffer_lt : e.offsetInDataBufferForBurning < sectorSize
  burnt : ∃ cs : List (Burn UInt8),
    w = cs.flatMap Burn.data ++
      (List.range e.offsetInDataBufferForBurning).map m.dataBufferForBurning ∧
    e.offsetInFlashToProgram = p + (cs.flatMap Burn.data).length ∧
    (cs.flatMap Burn.data).length % sectorSize = 0 ∧ m.flash x = burnt (flushAll p cs) c

theorem map_copyToBuffer (m : Mem) (k n : Nat) (ptr : Content) :
    (List.range (k + n)).map (m.copyToBuffer k n ptr).dataBufferForBurning =
      (List.range k).map m.dataBufferForBurning ++ (List.range n).map ptr := by
  rw [SectorFill.map_range_add]
  refine congrArg₂ _ (List.map_congr_left fun i hi => ?_) (List.map_congr_left fun i hi => ?_)
  · have hi' := List.mem_range.1 hi
    exact NorMemory.overlay_of_not_inRange (fun hr => by have := hr.1; omega) _ _
  · have hi' := List.mem_range.1 hi
    refine (NorMemory.overlay_of_inRange ⟨by omega, by omega⟩ _ _).trans ?_
    rw [Nat.add_sub_cancel_left]

/-- A call of `ota_control_flush_data_to_flash` does not fail if its sectors are in the module. -/
theorem exists_flushDataToFlash {n offset stop : Nat} (hend : offset + n ≤ stop)
    (hat : stop % sectorSize = 0) (hle : stop ≤ b.length x) (m : Mem) :
    ∃ m', flushDataToFlash b (some x) n offset m = some m' ∧
      m'.flash x = burnt (flushOps m.dataBufferForBurning n offset) (m.flash x) ∧
      m'.dataBufferForBurning = m.dataBufferForBurning := by
  have hend' : offset + ((List.range n).map m.dataBufferForBurning).length ≤ stop := by
    rwa [List.length_map, List.length_range]
  obtain ⟨m', hm'⟩ := exists_foldlM_flashOp (b := b) (x := x)
    (fills_flushOps m.dataBufferForBurning n offset) hend' hat hle m
  rw [flushDataToFlash_eq_foldlM]
  exact ⟨m', hm', foldlM_flashOp_eq_some hm'⟩

theorem burnt_append (ops ops' : List (Op UInt8)) (f : Content) :
    burnt (ops ++ ops') f = burnt ops' (burnt ops f) := List.foldl_append

/-- A call behind the ones before it. -/
theorem burnt_flushAll_concat (p : Nat) (cs : List (Burn UInt8)) (ptr : Content) (n : Nat)
    (c : Content) :
    burnt (flushAll p (cs ++ [⟨ptr, n⟩])) c =
      burnt (flushOps ptr n (p + (cs.flatMap Burn.data).length)) (burnt (flushAll p cs) c) := by
  rw [flushAll_append, burnt_append, flushAll, flushAll, List.append_nil]

variable {e : Env} {c : Content} {w : List UInt8} {fuel left stop : Nat}

/-- The loop of the data packet keeps all data. -/
theorem dataLoop_held (raw : Content) (n : Nat) (h : Held x p c w e m) (hfuel : left < fuel)
    (hleft : left ≤ n)
    (hp : p % minSegAlign = 0) (htotal : p + (w.length + left) ≤ e.totalImageSize)
    (hmax : e.totalImageSize ≤ b.maxImageSize) (hend : p + (w.length + left) ≤ stop)
    (hat : stop % sectorSize = 0) (hle : stop ≤ b.length x) :
    ∃ e' m', dataLoop b (some x) raw n fuel left e m = some (e', m', true) ∧
      Held x p c (w ++ (List.range left).map fun i => raw (n - left + i)) e' m' := by
  induction fuel generalizing left e m w with
  | zero => omega
  | succ fuel ih =>
    obtain ⟨hlt, cs, hw, hoffset, hfull, hflash⟩ := h
    have hlen : w.length = (cs.flatMap Burn.data).length + e.offsetInDataBufferForBurning := by
      rw [hw, List.length_append, List.length_map, List.length_range]
    unfold dataLoop
    dsimp only
    rcases Nat.lt_or_ge (e.offsetInDataBufferForBurning + left) sectorSize with hc | hc
    · -- the buffer does not become full
      have hnow : bytesToCopy e.offsetInDataBufferForBurning left = left := if_neg (by omega)
      rw [hnow, if_neg (by omega), if_neg (by omega)]
      refine ⟨_, _, rfl, hc, cs, ?_, hoffset, hfull, hflash⟩
      dsimp only
      rw [map_copyToBuffer, hw, List.append_assoc]
    · -- a full buffer is programmed
      have hnow : bytesToCopy e.offsetInDataBufferForBurning left =
          sectorSize - e.offsetInDataBufferForBurning := by
        unfold bytesToCopy
        split_ifs <;> omega
      have hsum : e.offsetInDataBufferForBurning +
          (sectorSize - e.offsetInDataBufferForBurning) = sectorSize := by omega
      have herr : ¬Env.OffsetError b { e with offsetInDataBufferForBurning := sectorSize } := by
        have hmod : e.offsetInFlashToProgram % minSegAlign = 0 := by
          unfold minSegAlign sectorSize at *
          omega
        rintro (herr | herr | herr)
        · dsimp only at herr
          omega
        · exact absurd hmax (Nat.not_le_of_lt herr)
        · exact herr hmod
      have hadd : add32 e.offsetInFlashToProgram sectorSize =
          e.offsetInFlashToProgram + sectorSize := by
        have := b.maxImageSize_lt
        unfold add32 sectorSize at *
        omega
      rw [hnow, hsum, if_pos (Nat.le_refl _), if_neg herr, hadd]
      obtain ⟨now, hnow'⟩ : ∃ now, now = sectorSize - e.offsetInDataBufferForBurning := ⟨_, rfl⟩
      rw [← hnow'] at hsum ⊢
      have hstop : e.offsetInFlashToProgram + sectorSize ≤ stop := by omega
      obtain ⟨m₁, hm₁, hflash₁, hbuf₁⟩ := exists_flushDataToFlash hstop hat hle
        (m.copyToBuffer e.offsetInDataBufferForBurning now fun i => raw (n - left + i))
      rw [hm₁, Option.bind_eq_bind, Option.bind_some]
      have hheld : Held x p c (w ++ (List.range now).map fun i => raw (n - left + i))
          { e with offsetInDataBufferForBurning := 0
                   offsetInFlashToProgram := e.offsetInFlashToProgram + sectorSize } m₁ := by
        refine ⟨Nat.zero_lt_of_lt hlt, cs ++ [⟨(m.copyToBuffer e.offsetInDataBufferForBurning now
          fun i => raw (n - left + i)).dataBufferForBurning, sectorSize⟩], ?_, ?_, ?_, ?_⟩
        · have hcopied := map_copyToBuffer m e.offsetInDataBufferForBurning now
            fun i => raw (n - left + i)
          rw [hsum] at hcopied
          rw [hw, List.flatMap_append, List.flatMap_singleton, List.append_assoc, ← hcopied]
          exact (List.append_nil _).symm
        · rw [List.flatMap_append, List.length_append, ← Nat.add_assoc, ← hoffset]
          simp [Burn.data]
        · rw [List.flatMap_append, List.length_append, List.flatMap_singleton, Burn.data,
            List.length_map, List.length_range, Nat.add_mod_right]
          exact hfull
        · rw [hflash₁, burnt_flushAll_concat, ← hflash, hoffset]
          rfl
      have hsplit : left = now + (left - now) := by omega
      have hrest : ∀ i, raw (n - (left - now) + i) = raw (n - left + (now + i)) :=
        fun i => congrArg raw (by omega)
      have hlist : (w ++ (List.range left).map fun i => raw (n - left + i)) =
          (w ++ (List.range now).map fun i => raw (n - left + i)) ++
            (List.range (left - now)).map fun i => raw (n - (left - now) + i) := by
        rw [List.append_assoc]
        conv_lhs => rw [hsplit, SectorFill.map_range_add]
        rw [← hsplit]
        simp only [hrest]
      by_cases hmore : 0 < left - now
      · rw [if_pos hmore, hlist]
        refine ih hheld (by omega) (by omega) ?_ hmax ?_
        · rw [List.length_append, List.length_map, List.length_range]
          dsimp only
          omega
        · rw [List.length_append, List.length_map, List.length_range]
          omega
      · rw [if_neg hmore, hlist, show left - now = 0 by omega]
        exact ⟨_, _, rfl, by simpa using hheld⟩

/-- A transmission that has received the bytes `w` behind `p`. -/
structure Sending (b : Build) (x : FlashModule) (p : Nat) (c : Content) (total : Nat)
    (w : List UInt8) (s : OtaState) : Prop where
  inProgress : s.env.isOTAInProgress = true
  module : s.module b = some x
  aligned : p % minSegAlign = 0
  total_eq : s.env.totalImageSize = total
  total_le : total ≤ b.maxImageSize
  held : Held x p c w s.env s.mem

variable {total : Nat} {ps : List Packet}

/-- A data packet. -/
theorem Sending.handleData (h : Sending b x p c total w s) (pk : Packet)
    (htotal : p + (w ++ pk.data).length ≤ total) (hend : p + (w ++ pk.data).length ≤ stop)
    (hat : stop % sectorSize = 0) (hle : stop ≤ b.length x) :
    ∃ s', (handleData b s pk).map Prod.fst = some s' ∧
      Sending b x p c total (w ++ pk.data) s' := by
  have hlen : (w ++ pk.data).length = w.length + pk.length := by
    rw [List.length_append, Packet.data, List.length_map, List.length_range]
  rw [hlen] at htotal hend
  obtain ⟨e, m, hloop, hheld⟩ := dataLoop_held pk.payload pk.length h.held
    (show pk.length < 2 * pk.length + 2 by omega) (Nat.le_refl _) h.aligned
    (h.total_eq ▸ htotal) (h.total_eq ▸ h.total_le) hend hat hle
  obtain ⟨inDataBuffer, inFlash, rfl⟩ := dataLoop_frame hloop
  simp only [Nat.sub_self, Nat.zero_add] at hheld
  unfold Ota.handleData
  rw [if_pos h.inProgress, h.module, hloop, Option.bind_eq_bind, Option.bind_some]
  dsimp only
  rw [if_pos rfl]
  split_ifs
  all_goals
    exact ⟨_, rfl, h.inProgress, h.module, h.aligned, h.total_eq, h.total_le,
      hheld.buffer_lt, hheld.burnt⟩

/-- The data packets of a segment. -/
theorem Sending.run (h : Sending b x p c total w s)
    (htotal : p + (w ++ ps.flatMap Packet.data).length ≤ total)
    (hend : p + (w ++ ps.flatMap Packet.data).length ≤ stop) (hat : stop % sectorSize = 0)
    (hle : stop ≤ b.length x) :
    ∃ s', ps.foldlM (fun s p => (Ota.handleData b s p).map Prod.fst) s = some s' ∧
      Sending b x p c total (w ++ ps.flatMap Packet.data) s' := by
  induction ps generalizing s w with
  | nil => exact ⟨s, rfl, by rwa [List.flatMap_nil, List.append_nil]⟩
  | cons pk ps ih =>
    rw [List.flatMap_cons, ← List.append_assoc] at htotal hend ⊢
    have hle₁ : (w ++ pk.data).length ≤ ((w ++ pk.data) ++ ps.flatMap Packet.data).length :=
      (List.prefix_append _ _).length_le
    obtain ⟨s₁, hs₁, h₁⟩ := h.handleData pk (by omega) (by omega) hat hle
    obtain ⟨s', hs', h'⟩ := ih h₁ htotal hend
    refine ⟨s', ?_, h'⟩
    rw [List.foldlM_cons, hs₁]
    exact hs'

/-- The state when the rest of the data buffer has been programmed. -/
def OtaState.flushed (s : OtaState) (m : Mem) : OtaState :=
  { s with
    mem := m
    env := { s.env with
      offsetInFlashToProgram :=
        add32 s.env.offsetInFlashToProgram s.env.offsetInDataBufferForBurning
      offsetInDataBufferForBurning := 0 } }

/-- The rest of the data buffer is programmed. -/
theorem exists_burnRest {s : OtaState} (hmodule : s.module b = some x)
    (hend : s.env.offsetInFlashToProgram + s.env.offsetInDataBufferForBurning ≤ stop)
    (hat : stop % sectorSize = 0) (hle : stop ≤ b.length x) :
    ∃ m', burnRest b s = some { s with mem := m' } ∧
      m'.flash x = burnt (flushOps s.mem.dataBufferForBurning s.env.offsetInDataBufferForBurning
        s.env.offsetInFlashToProgram) (s.mem.flash x) ∧
      m'.dataBufferForBurning = s.mem.dataBufferForBurning := by
  unfold burnRest
  by_cases hzero : s.env.offsetInDataBufferForBurning = 0
  · rw [if_neg (not_not.2 hzero)]
    refine ⟨s.mem, rfl, ?_, rfl⟩
    have hnil := fills_flushOps s.mem.dataBufferForBurning 0 s.env.offsetInFlashToProgram
    rw [hzero, hnil.eq_nil]
    rfl
  · obtain ⟨m', hm', hflash, hbuf⟩ := exists_flushDataToFlash hend hat hle s.mem
    rw [if_pos hzero, hmodule, hm']
    exact ⟨m', rfl, hflash, hbuf⟩

theorem exists_flushRest {s : OtaState} (hmodule : s.module b = some x)
    (hend : s.env.offsetInFlashToProgram + s.env.offsetInDataBufferForBurning ≤ stop)
    (hat : stop % sectorSize = 0) (hle : stop ≤ b.length x) :
    ∃ m', flushRest b s = some (s.flushed m') ∧
      m'.flash x = burnt (flushOps s.mem.dataBufferForBurning s.env.offsetInDataBufferForBurning
        s.env.offsetInFlashToProgram) (s.mem.flash x) := by
  obtain ⟨m', hm', hflash, -⟩ := exists_burnRest hmodule hend hat hle
  unfold flushRest
  rw [hm']
  exact ⟨m', rfl, hflash⟩

/-- What a segment leaves when it is received again behind an erased rest of a sector. -/
theorem Sending.retransmit (h : Sending b x p c total [] s) (ps : List Packet)
    (htotal : p + (ps.flatMap Packet.data).length ≤ total)
    (hend : p + (ps.flatMap Packet.data).length ≤ stop) (hat : stop % sectorSize = 0)
    (hle : stop ≤ b.length x)
    (hblank : ∀ y, p ≤ y → y < p + (sectorSize - p % sectorSize) → c y = 0xFF) :
    ∃ s', Ota.retransmit b s ps = some s' ∧
      (List.range (ps.flatMap Packet.data).length).map (fun i => s'.mem.flash x (p + i)) =
        ps.flatMap Packet.data := by
  obtain ⟨s₁, hs₁, h₁⟩ := h.run htotal hend hat hle
  rw [List.nil_append] at h₁
  obtain ⟨cs, hw, hoffset, -, hflash⟩ := h₁.held.burnt
  have hlen : (ps.flatMap Packet.data).length =
      (cs.flatMap Burn.data).length + s₁.env.offsetInDataBufferForBurning := by
    rw [hw, List.length_append, List.length_map, List.length_range]
  obtain ⟨m', hm', hflash'⟩ := exists_flushRest h₁.module (by omega) hat hle
  refine ⟨s₁.flushed m', ?_, ?_⟩
  · unfold Ota.retransmit
    rw [hs₁]
    exact hm'
  · show (List.range _).map (fun i => m'.flash x (p + i)) = _
    rw [hflash', hflash, hoffset, ← burnt_flushAll_concat]
    have hdata : (cs ++ [Burn.mk s₁.mem.dataBufferForBurning
        s₁.env.offsetInDataBufferForBurning]).flatMap Burn.data = ps.flatMap Packet.data := by
      rw [List.flatMap_append, List.flatMap_singleton, hw]
      rfl
    have hfills := fills_flushAll p
      (cs ++ [Burn.mk s₁.mem.dataBufferForBurning s₁.env.offsetInDataBufferForBurning])
    rw [hdata] at hfills
    exact hfills.applyAll_eq NorMemory.erased_and fun _ => hblank

/-! ### The failed check -/

/-- The checksum of bytes that are in the module is computed. -/
theorem exists_crcLoop {start len : Nat} (fuel done : Nat) (hle : start + len ≤ b.length x)
    (m : Mem) (crc : UInt32) :
    ∃ m' crc', crcLoop b (some x) start len id (fun _ => some) fuel done m crc =
      some (m', some crc') := by
  induction fuel generalizing done m crc with
  | zero => exact ⟨m, crc, rfl⟩
  | succ fuel ih =>
    unfold crcLoop
    split_ifs with hmore
    · obtain ⟨m₁, hread⟩ : ∃ m₁, appFlashRead b (some x) (start + done)
          (min (len - done) sectorSize) m = some m₁ := ⟨_, if_pos (by omega)⟩
      dsimp only [id_eq]
      rw [hread, Option.bind_eq_bind, Option.bind_some]
      exact ih _ _ _
    · exact ⟨m, crc, rfl⟩

variable {len : Nat} {verify : Packet}

theorem segmentFailed_eq {start : Nat} (hmodule : s.module b = some x)
    (hretry : sub32 s.env.segVerifyRetry 1 ≠ 0) :
    segmentFailed b s start len = (eraseSegment b (some x) start len s.mem).map fun m =>
      ({ s with
          mem := m
          env := { s.env with
            segVerifyRetry := sub32 s.env.segVerifyRetry 1
            offsetInFlashToProgram := s.env.offsetInFlashOfCurrentSegment
            alreadyReceivedDataSizeOfImage := s.env.offsetOfImageOfCurrentSegment } },
        [.segmentVerificationResponse false]) := by
  unfold segmentFailed
  rw [if_neg hretry, hmodule]
  cases eraseSegment b (some x) start len s.mem <;> rfl

/-- The state when a segment has been erased. -/
def OtaState.rewound (s : OtaState) (crc : UInt32) (m : Mem) : OtaState :=
  { s.flushed m with env := { (s.flushed m).env with
      crc32OfSegment := crc
      segVerifyRetry := sub32 s.env.segVerifyRetry 1
      offsetInFlashToProgram := s.env.offsetInFlashOfCurrentSegment
      alreadyReceivedDataSizeOfImage := s.env.offsetOfImageOfCurrentSegment } }

/-- The way of a failed check to `erase_segment`. The flash in front of the segment has not changed
on it. -/
theorem InSegment.handleSegmentVerify_eq (h : InSegment b s x p len)
    (hfails : CheckFails b s x p len verify) (hend : p + len ≤ stop)
    (hat : stop % sectorSize = 0) (hle : stop ≤ b.length x) :
    ∃ m crc, (∀ i < p, m.flash x i = s.mem.flash x i) ∧
      handleSegmentVerify b s verify =
        (eraseSegment b (some x) p len m).map fun m' =>
          (s.rewound crc m', [.segmentVerificationResponse false]) := by
  obtain rfl := h.imageOfSegment
  have hmax := b.maxImageSize_lt
  have htotal := h.le_total
  have htotal' := h.total_le
  have hsum := h.programmed
  obtain ⟨m₁, hm₁, hflash₁⟩ := exists_flushRest h.module (hsum.symm ▸ hend) hat hle
  have hinside : s.env.offsetOfImageOfCurrentSegment + len ≤ b.length x := by omega
  obtain ⟨m₂, crc, hm₂⟩ : ∃ m₂ crc, calcuteSegmentCrc32 b (some x)
      s.env.offsetOfImageOfCurrentSegment len 0 m₁ = some (m₂, crc) := by
    obtain ⟨m₂, crc, hm₂⟩ := exists_crcLoop len 0 hinside m₁ 0
    unfold calcuteSegmentCrc32
    rw [hm₂]
    exact ⟨m₂, crc, rfl⟩
  have hflash₂ : m₂.flash = m₁.flash := by
    obtain ⟨r, hr, heq⟩ := Option.map_eq_some_iff.1 hm₂
    obtain ⟨rfl, -⟩ := Prod.mk.inj heq
    exact crcLoop_flash hr
  refine ⟨m₂, crc, fun i hi => ?_, ?_⟩
  · rw [hflash₂, hflash₁]
    have hle_programmed := h.le_programmed
    exact (fills_flushOps _ _ _).applyAll_of_lt (by omega)
  · have hnew : ¬s.env.NoNewData := by
      rintro ⟨-, hsame⟩
      have hreceived := h.received
      have himage := h.imageOfSegment
      have hpos := h.pos
      omega
    have herr : ¬s.env.OffsetError b := by
      rintro (herr | herr | herr)
      · omega
      · omega
      · exact herr h.flash_aligned
    have hlen : sub32 s.env.alreadyReceivedDataSizeOfImage s.env.offsetOfImageOfCurrentSegment =
        len := by
      rw [h.received]
      unfold sub32
      omega
    unfold handleSegmentVerify
    rw [if_neg (not_not.2 h.inOta), if_neg hnew, if_neg herr, hm₁, Option.bind_eq_bind,
      Option.bind_some]
    dsimp only
    have hmodule : (s.flushed m₁).module b = some x := h.module
    have hlen' : sub32 (s.flushed m₁).env.alreadyReceivedDataSizeOfImage
        (s.flushed m₁).env.offsetOfImageOfCurrentSegment = len := hlen
    have hsegment : calcuteSegmentCrc32 b (some x)
        (s.flushed m₁).env.offsetOfImageOfCurrentSegment len 0 (s.flushed m₁).mem =
          some (m₂, crc) := hm₂
    rw [hmodule, hlen', hsegment, Option.bind_eq_bind, Option.bind_some]
    dsimp only
    rw [if_neg (hfails _ m₂ crc hm₁ hm₂)]
    exact segmentFailed_eq h.module h.retry

theorem le_last_sector (p len : Nat) :
    p + len ≤ p - p % sectorSize + sectorNum p len * sectorSize := by
  unfold sectorNum sectorSize
  omega

theorem le_first_sector (p len : Nat) :
    p + (sectorSize - p % sectorSize) ≤ p - p % sectorSize + sectorNum p len * sectorSize := by
  unfold sectorNum sectorSize
  omega

theorem InSegment.exists_handleSegmentVerify (h : InSegment b s x p len)
    (hfails : CheckFails b s x p len verify) :
    ∃ m crc, (∀ i < p, m.flash x i = s.mem.flash x i) ∧
      handleSegmentVerify b s verify =
        (eraseSegment b (some x) p len m).map fun m' =>
          (s.rewound crc m', [.segmentVerificationResponse false]) :=
  have hend : p + len ≤ (p + len + (sectorSize - 1)) / sectorSize * sectorSize := by
    unfold sectorSize
    omega
  h.handleSegmentVerify_eq hfails hend (Nat.mul_mod_left _ _) h.inModule

theorem InSegment.length_lt (h : InSegment b s x p len) : len < 0x80000000 := by
  have hmax := b.maxImageSize_lt
  have htotal := h.le_total
  have htotal' := h.total_le
  omega

/-- A failed check that keeps what is in front of the segment finds nothing there in its sector. -/
theorem Harmless.eraseSafe (hharmless : Harmless b s x p len verify) (h : InSegment b s x p len)
    (hfails : CheckFails b s x p len verify) : EraseSafe b s x p len := by
  obtain ⟨s', out, hs', hkeep, -⟩ := hharmless
  obtain ⟨m, crc, -, heq⟩ := h.exists_handleSegmentVerify hfails
  rw [heq] at hs'
  obtain ⟨hcount, hfits, m', hm', -, hflash⟩ | ⟨-, hnone⟩ := eraseSegment_cases h.length_lt m
  · rw [hm', Option.map_some] at hs'
    obtain ⟨rfl, -⟩ := Prod.mk.inj (Option.some.inj hs')
    refine ⟨hcount, hfits, fun i hlo hhi => ?_⟩
    have hlast := le_last_sector p len
    rw [← hkeep i hhi]
    exact (hflash i).trans (if_pos ⟨hlo, by omega⟩)
  · rw [hnone] at hs'
    cases hs'

theorem EraseSafe.harmless (hsafe : EraseSafe b s x p len) (h : InSegment b s x p len)
    (hfails : CheckFails b s x p len verify) : Harmless b s x p len verify := by
  obtain ⟨hcount, hfits, hblank⟩ := hsafe
  obtain ⟨m, crc, hfront, heq⟩ := h.exists_handleSegmentVerify hfails
  obtain ⟨-, -, m', hm', -, hflash⟩ | ⟨hnot, -⟩ := eraseSegment_cases h.length_lt m
  · rw [hm', Option.map_some] at heq
    refine ⟨_, _, heq, fun i hi => (hflash i).trans ?_, fun ps hps => ?_⟩
    · split_ifs with hin
      · exact (hblank i hin.1 hi).symm
      · exact hfront i hi
    · have hsending : Sending b x p (m'.flash x) s.env.totalImageSize [] (s.rewound crc m') :=
        ⟨h.inProgress, h.module, h.aligned, rfl, h.total_le, show 0 < sectorSize by decide, [], rfl,
          h.flashOfSegment, rfl, rfl⟩
      have hlast := le_last_sector p len
      have hfirst := le_first_sector p len
      have hdata := hsending.retransmit ps (hps ▸ h.le_total) (hps.symm ▸ hlast) ?_ hfits
        fun y hlo hhi => ?_
      · rwa [hps] at hdata
      · unfold sectorSize
        omega
      · exact (hflash y).trans (if_pos ⟨by omega, by omega⟩)
  · exact absurd ⟨hcount, hfits⟩ hnot

/-- The failed check is harmless in exactly the states in which the erased sectors are few enough,
in the module, and without anything in front of the segment. -/
theorem harmless_iff (h : InSegment b s x p len) (hfails : CheckFails b s x p len verify) :
    Harmless b s x p len verify ↔ EraseSafe b s x p len :=
  ⟨fun hharmless => hharmless.eraseSafe h hfails, fun hsafe => hsafe.harmless h hfails⟩

/-- The image has been verified up to `p`, and one byte of the next segment has been received. -/
def oneByteBehind (p : Nat) : OtaState :=
  let s := OtaState.initial fun _ i => if i < p then 0 else 0xFF
  { s with env := { s.env with
      isInBesOtaState := true
      isOTAInProgress := true
      currentUser := userFirmware
      totalImageSize := 2 * sectorSize
      offsetOfImageOfCurrentSegment := p
      offsetInFlashOfCurrentSegment := p
      alreadyReceivedDataSizeOfImage := p + 1
      offsetInFlashToProgram := p
      offsetInDataBufferForBurning := 1 } }

/-- A command with a checksum that is not the one of a zero. -/
def wrongChecksum : Packet := .ofBytes 0x82 [0x42, 0x45, 0x53, 0x54, 1, 0, 0, 0]

theorem inSegment_oneByteBehind {p : Nat} (halign : p % minSegAlign = 0)
    (hle : p + 1 ≤ 2 * sectorSize) : InSegment .small (oneByteBehind p) .ota p 1 where
  inOta := rfl
  inProgress := rfl
  module := rfl
  aligned := halign
  imageOfSegment := rfl
  flashOfSegment := rfl
  received := rfl
  programmed := rfl
  le_programmed := Nat.le_refl p
  flash_aligned := halign
  buffer_lt := show 1 < sectorSize by decide
  pos := Nat.one_pos
  le_total := hle
  total_le := Nat.le_refl _
  inModule := by
    show _ ≤ 2 * sectorSize
    unfold sectorSize at *
    omega
  retry := show sub32 maxSetVerifyRetry 1 ≠ 0 by decide

theorem checkFails_oneByteBehind (p : Nat) (hp : p = 256 ∨ p = sectorSize) :
    CheckFails .small (oneByteBehind p) .ota p 1 wrongChecksum := by
  intro s₁ m crc hflush hcrc hpass
  have hone : ((flushRest .small (oneByteBehind p)).bind fun s₁ =>
      (calcuteSegmentCrc32 .small (some .ota) p 1 0 s₁.mem).map fun r => decide (r.2 = 1)) =
        some false := by
    rcases hp with rfl | rfl <;> decide +kernel
  rw [hflush, Option.bind_some, hcrc, Option.map_some] at hone
  have hne := of_decide_eq_false (Option.some.inj hone)
  have hfield : crc.toNat = 1 := hpass.2.symm
  exact hne (UInt32.toNat_inj.1 hfield)

/-- Behind a sector that is full a failed check is harmless. -/
theorem harmless_sectorSize : Harmless .small (oneByteBehind sectorSize) .ota sectorSize 1
    wrongChecksum :=
  (harmless_iff (inSegment_oneByteBehind (by decide) (by decide))
    (checkFails_oneByteBehind _ (.inr rfl))).2
    ⟨by decide, by decide, fun i hlo hhi => absurd (Nat.lt_of_lt_of_le hhi hlo) (Nat.lt_irrefl i)⟩

/-- A failed check behind 256 verified bytes erases them. -/
theorem not_harmless :
    ¬∀ (b : Build) (s : OtaState) (x : FlashModule) (p len : Nat) (verify : Packet),
      InSegment b s x p len → CheckFails b s x p len verify → Harmless b s x p len verify := by
  intro hall
  have hin := inSegment_oneByteBehind (p := 256) (by decide) (by decide)
  have hfails := checkFails_oneByteBehind 256 (.inl rfl)
  have hsafe := (hall _ _ _ _ _ _ hin hfails).eraseSafe hin hfails
  exact absurd (hsafe.blank 0 (by decide) (by decide)) (by decide)

end EarbudFirmware.Ota
