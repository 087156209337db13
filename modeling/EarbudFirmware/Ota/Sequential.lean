import EarbudFirmware.AiOta.Session
import EarbudFirmware.Lib.SectorFill
import EarbudFirmware.Ota.Flash

/-!
# An image programmed in pieces

Both OTA services have the same function for a piece of the image: the rest of a sector that has
been begun, whole sectors, and the begin of the last one. When each piece starts where the one
before it ended, the operations of all pieces fill the flash sector by sector.

## Main definitions

* `flushOps` — the operations of `_flush_data_to_flash` and of `ota_control_flush_data_to_flash`
* `flushAll` — the operations of consecutive calls

## Main results

* `flushDataToFlash_eq_foldlM`, `AiOta.flushDataToFlash_eq_applyAll` — the models of the two
  functions carry out these operations
* `flushAll_exact` — what consecutive calls do to the flash
-/

namespace EarbudFirmware.Ota

open NorMemory (Content)
open SectorFill (Op Fills ProgrammedOnce applyAll)

section

variable {α : Type*}

/-- The operations for `lengthToBurn` cells of a source. -/
def flushOps (ptrSource : Nat → α) (lengthToBurn offsetInFlashToProgram : Nat) : List (Op α) :=
  let toBoundary := (sectorSize - offsetInFlashToProgram % sectorSize) % sectorSize
  let preBytes := if lengthToBurn < toBoundary then lengthToBurn else toBoundary
  let middleBytes :=
    if lengthToBurn > preBytes then (lengthToBurn - preBytes) / sectorSize * sectorSize else 0
  let postBytes :=
    if lengthToBurn > preBytes + middleBytes then
      (offsetInFlashToProgram + lengthToBurn) % sectorSize
    else 0
  let sectorIndexInFlash := (offsetInFlashToProgram + preBytes) / sectorSize
  let sectorCntToProgram := middleBytes / sectorSize
  (if preBytes > 0 then [.program offsetInFlashToProgram preBytes ptrSource] else []) ++
    (List.range sectorCntToProgram).flatMap (fun sector =>
      [.erase ((sectorIndexInFlash + sector) * sectorSize),
        .program ((sectorIndexInFlash + sector) * sectorSize) sectorSize
          (fun i => ptrSource (preBytes + sector * sectorSize + i))]) ++
    (if postBytes > 0 then
      [.erase ((sectorIndexInFlash + sectorCntToProgram) * sectorSize),
        .program ((sectorIndexInFlash + sectorCntToProgram) * sectorSize) postBytes
          (fun i => ptrSource (preBytes + middleBytes + i))]
    else [])

/-- The arguments of a call, without the offset. -/
structure Burn (α : Type*) where
  ptrSource : Nat → α
  lengthToBurn : Nat

/-- What a call is to program. -/
def Burn.data (c : Burn α) : List α := (List.range c.lengthToBurn).map c.ptrSource

/-- The operations of consecutive calls, each from where the one before it ended. -/
def flushAll (offset : Nat) : List (Burn α) → List (Op α)
  | [] => []
  | c :: cs =>
    flushOps c.ptrSource c.lengthToBurn offset ++ flushAll (offset + c.lengthToBurn) cs

theorem flushAll_append (offset : Nat) (cs cs' : List (Burn α)) :
    flushAll offset (cs ++ cs') =
      flushAll offset cs ++ flushAll (offset + (cs.flatMap Burn.data).length) cs' := by
  induction cs generalizing offset with
  | nil => rfl
  | cons c cs ih =>
    rw [List.cons_append, flushAll, flushAll, ih, List.append_assoc, List.flatMap_cons,
      List.length_append, ← Nat.add_assoc]
    unfold Burn.data
    rw [List.length_map, List.length_range]

/-! ### A call fills its range -/

variable {ptrSource : Nat → α} {n offset k : Nat}

/-- Whole sectors. -/
theorem fills_sectors (ptrSource : Nat → α) (sectorIndex k : Nat) :
    Fills sectorSize (sectorIndex * sectorSize)
      ((List.range k).flatMap fun sector =>
        [.erase ((sectorIndex + sector) * sectorSize),
          .program ((sectorIndex + sector) * sectorSize) sectorSize
            (fun i => ptrSource (sector * sectorSize + i))])
      ((List.range (k * sectorSize)).map ptrSource) := by
  induction k with
  | zero => exact .nil
  | succ k ih =>
    rw [List.range_succ, List.flatMap_append, List.flatMap_singleton, Nat.succ_mul,
      SectorFill.map_range_add]
    refine ih.append ?_
    rw [List.length_map, List.length_range, ← Nat.add_mul]
    have hlast := Fills.sector (s := sectorSize) (c := (sectorIndex + k) * sectorSize)
      (d := fun i => ptrSource (k * sectorSize + i)) (by decide : 0 < sectorSize)
      (Nat.mul_mod_left _ _) (Nat.le_refl _) .nil
    rwa [List.append_nil] at hlast

/-- A head in a sector that has been begun, whole sectors and a tail. -/
theorem fills_parts (ptrSource : Nat → α) {pre post : Nat} (k : Nat)
    (hpre : 0 < pre → offset % sectorSize ≠ 0 ∧ offset % sectorSize + pre ≤ sectorSize)
    (hat : 0 < k ∨ 0 < post → (offset + pre) % sectorSize = 0) (hpost : post < sectorSize) :
    Fills sectorSize offset
      ((if pre > 0 then [.program offset pre ptrSource] else []) ++
        (List.range k).flatMap (fun sector =>
          [.erase (((offset + pre) / sectorSize + sector) * sectorSize),
            .program (((offset + pre) / sectorSize + sector) * sectorSize) sectorSize
              (fun i => ptrSource (pre + sector * sectorSize + i))]) ++
        (if post > 0 then
          [.erase (((offset + pre) / sectorSize + k) * sectorSize),
            .program (((offset + pre) / sectorSize + k) * sectorSize) post
              (fun i => ptrSource (pre + k * sectorSize + i))]
        else []))
      ((List.range (pre + k * sectorSize + post)).map ptrSource) := by
  rw [SectorFill.map_range_add, SectorFill.map_range_add]
  have hhead : Fills sectorSize offset
      (if pre > 0 then [.program offset pre ptrSource] else [])
      ((List.range pre).map ptrSource) := by
    obtain rfl | hpos := Nat.eq_zero_or_pos pre
    · exact .nil
    · rw [if_pos hpos, ← List.append_nil ((List.range pre).map ptrSource)]
      exact .within hpos (hpre hpos).1 (hpre hpos).2 .nil
  have hindex : 0 < k ∨ 0 < post →
      (offset + pre) / sectorSize * sectorSize = offset + pre := fun h =>
    Nat.div_mul_cancel (Nat.dvd_of_mod_eq_zero (hat h))
  refine (hhead.append ?_).append ?_
  · rw [List.length_map, List.length_range]
    obtain rfl | hpos := Nat.eq_zero_or_pos k
    · rw [Nat.zero_mul]
      exact .nil
    · have hmiddle := fills_sectors (fun i => ptrSource (pre + i)) ((offset + pre) / sectorSize) k
      rw [hindex (.inl hpos)] at hmiddle
      simpa only [Nat.add_assoc] using hmiddle
  · rw [List.length_append, List.length_map, List.length_range, List.length_map, List.length_range,
      ← Nat.add_assoc]
    obtain rfl | hpos := Nat.eq_zero_or_pos post
    · exact .nil
    · rw [if_pos hpos, Nat.add_mul, hindex (.inr hpos), ← List.append_nil (List.map _ _)]
      refine .sector hpos ?_ (Nat.le_of_lt hpost) .nil
      rw [Nat.add_mul_mod_self_right]
      exact hat (.inr hpos)

/-- A call fills its range. -/
theorem fills_flushOps (ptrSource : Nat → α) (n offset : Nat) :
    Fills sectorSize offset (flushOps ptrSource n offset) ((List.range n).map ptrSource) := by
  unfold flushOps
  dsimp only
  generalize hpre : (if n < (sectorSize - offset % sectorSize) % sectorSize then n
    else (sectorSize - offset % sectorSize) % sectorSize) = pre
  have hhead : 0 < pre → offset % sectorSize ≠ 0 ∧ offset % sectorSize + pre ≤ sectorSize := by
    unfold sectorSize at *
    split_ifs at hpre <;> omega
  by_cases hmore : n > pre
  · -- the head ends with its sector
    have hat : (offset + pre) % sectorSize = 0 := by
      unfold sectorSize at *
      split_ifs at hpre <;> omega
    have hpost : (if n > pre + (n - pre) / sectorSize * sectorSize then (offset + n) % sectorSize
        else 0) = (n - pre) % sectorSize := by
      unfold sectorSize at *
      split_ifs <;> omega
    have hsum : pre + (n - pre) / sectorSize * sectorSize + (n - pre) % sectorSize = n := by
      rw [Nat.add_assoc, Nat.div_add_mod']
      omega
    rw [if_pos hmore, hpost, Nat.mul_div_cancel _ (by decide : 0 < sectorSize)]
    have hparts := fills_parts ptrSource ((n - pre) / sectorSize) hhead
      (fun _ => hat) (Nat.mod_lt (n - pre) (by decide : 0 < sectorSize))
    rwa [hsum] at hparts
  · have heq : pre = n := by
      split_ifs at hpre <;> omega
    subst heq
    rw [if_neg hmore, if_neg (show ¬pre > pre + 0 by omega), Nat.zero_div]
    exact fills_parts ptrSource 0 hhead (fun h => by omega) (show 0 < sectorSize by decide)

/-- Consecutive calls fill the range of all of them. -/
theorem fills_flushAll (offset : Nat) (cs : List (Burn α)) :
    Fills sectorSize offset (flushAll offset cs) (cs.flatMap Burn.data) := by
  induction cs generalizing offset with
  | nil => exact .nil
  | cons c cs ih =>
    rw [List.flatMap_cons]
    refine (fills_flushOps c.ptrSource c.lengthToBurn offset).append ?_
    rw [List.length_map, List.length_range]
    exact ih _

end

/-! ### The models of the two functions -/

section Models

variable {b : Build} {x : FlashModule} {m m' : Mem}

/-- An operation on a flash module. -/
def flashOp (b : Build) (x : Option FlashModule) (m : Mem) : Op UInt8 → Option Mem
  | .erase a => appFlashSectorErase b x a m
  | .program a n d => appFlashProgram b x a d n m

theorem foldlM_flatMap {β γ σ : Type} (f : σ → γ → Option σ) (g : β → List γ) (l : List β) (s : σ) :
    (l.flatMap g).foldlM f s = l.foldlM (fun s y => (g y).foldlM f s) s := by
  induction l generalizing s with
  | nil => rfl
  | cons y l ih =>
    rw [List.flatMap_cons, List.foldlM_append, List.foldlM_cons]
    exact bind_congr fun s => ih s

/-- `ota_control_flush_data_to_flash` carries out the operations. -/
theorem flushDataToFlash_eq_foldlM (x : Option FlashModule) (n offset : Nat) :
    flushDataToFlash b x n offset m =
      (flushOps m.dataBufferForBurning n offset).foldlM (flashOp b x) m := by
  have hpre : min n ((sectorSize - offset % sectorSize) % sectorSize) =
      if n < (sectorSize - offset % sectorSize) % sectorSize then n
      else (sectorSize - offset % sectorSize) % sectorSize := by
    split_ifs <;> omega
  have hsector : ∀ (i : Nat) (d : Content) (k : Nat) (m : Mem),
      [Op.erase (i * sectorSize), .program (i * sectorSize) k d].foldlM (flashOp b x) m =
        burnSector b x i d k m := by
    intro i d k m
    rw [List.foldlM_cons]
    unfold burnSector
    refine bind_congr fun m' => ?_
    rw [List.foldlM_cons]
    exact bind_pure _
  unfold flushDataToFlash flushOps
  dsimp only
  rw [hpre, List.foldlM_append, List.foldlM_append, bind_assoc]
  generalize (if n < (sectorSize - offset % sectorSize) % sectorSize then n
    else (sectorSize - offset % sectorSize) % sectorSize) = pre
  generalize (if n > pre then (n - pre) / sectorSize * sectorSize else 0) = middle
  generalize (if n > pre + middle then (offset + n) % sectorSize else 0) = post
  simp only [foldlM_flatMap, hsector]
  have htail : ∀ (i : Nat) (d : Content) (m : Mem),
      (if post > 0 then burnSector b x i d post m else some m) =
        (if post > 0 then [Op.erase (i * sectorSize), .program (i * sectorSize) post d]
          else []).foldlM (flashOp b x) m := by
    intro i d m
    split_ifs
    · exact (hsector i d post m).symm
    · rfl
  have hhead : [Op.program offset pre m.dataBufferForBurning].foldlM (flashOp b x) m =
      appFlashProgram b x offset m.dataBufferForBurning pre m := by
    rw [List.foldlM_cons]
    exact bind_pure _
  simp only [htail]
  by_cases hpos : pre > 0
  · rw [if_pos hpos, if_pos hpos, hhead]
  · rw [if_neg hpos, if_neg hpos]
    rfl

/-- The content behind operations. -/
def burnt (ops : List (Op UInt8)) (f : Content) : Content :=
  applyAll sectorSize 0xFF (fun old new => old &&& new) ops f

/-- An operation that does not fail. -/
theorem flashOp_eq_some {op : Op UInt8} (h : flashOp b (some x) m op = some m') :
    m'.flash x = op.apply sectorSize 0xFF (fun old new => old &&& new) (m.flash x) ∧
      m'.dataBufferForBurning = m.dataBufferForBurning := by
  cases op with
  | erase a =>
    dsimp only [flashOp, appFlashSectorErase, Option.bind_some] at h
    split_ifs at h
    rw [← Option.some.inj h]
    exact ⟨Function.update_self _ _ _, rfl⟩
  | program a n d =>
    dsimp only [flashOp, appFlashProgram, Option.bind_some] at h
    split_ifs at h
    rw [← Option.some.inj h]
    exact ⟨Function.update_self _ _ _, rfl⟩

/-- Operations that do not fail leave this content. -/
theorem foldlM_flashOp_eq_some {ops : List (Op UInt8)}
    (h : ops.foldlM (flashOp b (some x)) m = some m') :
    m'.flash x = burnt ops (m.flash x) ∧ m'.dataBufferForBurning = m.dataBufferForBurning := by
  induction ops generalizing m with
  | nil => exact Option.some.inj h ▸ ⟨rfl, rfl⟩
  | cons op ops ih =>
    obtain ⟨m₁, hop, h⟩ := Option.bind_eq_some_iff.1 h
    obtain ⟨hflash, hbuf⟩ := flashOp_eq_some hop
    obtain ⟨hflash', hbuf'⟩ := ih h
    rw [hflash] at hflash'
    exact ⟨hflash', hbuf'.trans hbuf⟩

/-- Operations that fill a range do not fail, if the sectors of the range are in the module. -/
theorem exists_foldlM_flashOp {c stop : Nat} {ops : List (Op UInt8)} {l : List UInt8}
    (h : Fills sectorSize c ops l) (hend : c + l.length ≤ stop) (hat : stop % sectorSize = 0)
    (hle : stop ≤ b.length x) (m : Mem) : ∃ m', ops.foldlM (flashOp b (some x)) m = some m' := by
  induction h generalizing m with
  | nil => exact ⟨m, rfl⟩
  | @within c n d ops l hpos hin hfit h ih =>
    rw [List.length_append, List.length_map, List.length_range] at hend
    have hop : flashOp b (some x) m (.program c n d) = some (m.apply x (.program c n d)) :=
      if_pos (by omega)
    rw [List.foldlM_cons, hop]
    exact ih (by omega) _
  | @sector c n d ops l hpos hc hfit h ih =>
    rw [List.length_append, List.length_map, List.length_range] at hend
    have herase : flashOp b (some x) m (.erase c) = some (m.apply x (.erase c sectorSize)) := by
      refine if_pos ⟨hc, ?_⟩
      unfold sectorSize at *
      omega
    have hop : ∀ m, flashOp b (some x) m (.program c n d) = some (m.apply x (.program c n d)) :=
      fun m => if_pos (by omega)
    rw [List.foldlM_cons, herase, Option.bind_eq_bind, Option.bind_some, List.foldlM_cons, hop]
    exact ih (by omega) _

theorem eraseSector_eq_apply (f : AiOta.Flash) (i : Nat) :
    AiOta.eraseSector f (i * sectorSize) =
      (Op.erase (i * sectorSize)).apply sectorSize none (fun _ new => new) f := by
  funext y
  refine if_congr ?_ rfl rfl
  unfold AiOta.sectorSize sectorSize
  omega

/-- The loop over the whole sectors. -/
theorem programSectors_eq_applyAll (f : AiOta.Flash) (sectorIndex : Nat)
    (src : Nat → Option AiOta.FlashByte) (k : Nat) :
    AiOta.programSectors f sectorIndex src k =
      applyAll sectorSize none (fun _ new => new) ((List.range k).flatMap fun sector =>
        [.erase ((sectorIndex + sector) * sectorSize),
          .program ((sectorIndex + sector) * sectorSize) sectorSize
            (fun i => src (sector * sectorSize + i))]) f := by
  induction k with
  | zero => rfl
  | succ k ih =>
    unfold AiOta.programSectors
    dsimp only
    rw [List.range_succ, List.flatMap_append, List.flatMap_singleton, ih]
    unfold applyAll
    rw [List.foldl_append]
    exact congrArg (AiOta.programFlash · _ _ _) (eraseSector_eq_apply _ _)

/-- `_flush_data_to_flash` carries out the operations. -/
theorem flushDataToFlash_eq_applyAll (f : AiOta.Flash) (src : Nat → Option AiOta.FlashByte)
    (n offset : Nat) :
    AiOta.flushDataToFlash f src n offset =
      applyAll sectorSize none (fun _ new => new) (flushOps src n offset) f := by
  unfold AiOta.flushDataToFlash flushOps
  dsimp only
  simp only [gt_iff_lt, show AiOta.sectorSize = sectorSize from rfl]
  generalize (if n < (sectorSize - offset % sectorSize) % sectorSize then n
    else (sectorSize - offset % sectorSize) % sectorSize) = pre
  generalize (if pre < n then (n - pre) / sectorSize * sectorSize else 0) = middle
  generalize (if pre + middle < n then (offset + n) % sectorSize else 0) = post
  rw [programSectors_eq_applyAll]
  unfold applyAll
  rw [List.foldl_append, List.foldl_append]
  have hhead : (if 0 < pre then AiOta.programFlash f offset src pre else f) =
      (if 0 < pre then [Op.program offset pre src] else []).foldl
        (fun f op => op.apply sectorSize none (fun _ new => new) f) f := by
    split_ifs <;> rfl
  rw [hhead]
  by_cases hpost : 0 < post
  · simp only [if_pos hpost, Nat.add_assoc]
    exact congrArg (AiOta.programFlash · _ _ _) (eraseSector_eq_apply _ _)
  · simp only [if_neg hpost, Nat.add_assoc, List.foldl_nil]

end Models

/-! ### Consecutive calls -/

/-- From the start of a sector on, consecutive calls put their data into the flash, one behind the
other. They program each byte once, after its sector was erased, and a sector is erased before
anything is programmed into it. No program operation crosses the end of a sector. -/
theorem flushAll_exact (offset : Nat) (hat : offset % sectorSize = 0) (cs : List (Burn UInt8))
    (f : Content) :
    (List.range (cs.flatMap Burn.data).length).map (fun i =>
      applyAll sectorSize 0xFF (fun old new => old &&& new) (flushAll offset cs) f (offset + i)) =
        cs.flatMap Burn.data ∧
    (∀ x, offset ≤ x → x < offset + (cs.flatMap Burn.data).length →
      ProgrammedOnce sectorSize (flushAll offset cs) x) ∧
    (∀ before a after, flushAll offset cs = before ++ .erase a :: after →
      ∀ op ∈ before, ∀ x, op.Programs x → ¬(Op.erase a : Op UInt8).Erases sectorSize x) ∧
    ∀ a n d, .program a n d ∈ flushAll offset cs → a % sectorSize + n ≤ sectorSize := by
  have hfills := fills_flushAll offset cs
  refine ⟨?_, fun x hlo hhi => hfills.programmedOnce hat hlo hhi, ?_, ?_⟩
  · exact hfills.applyAll_eq NorMemory.erased_and fun hn => absurd hat hn
  · intro before a after heq op hop x hx herases
    have := hfills.erase_untouched (by decide) heq hop hx
    exact absurd herases.1 (by omega)
  · exact fun a n d hop => (hfills.within_sector hop).2

/-- A short call, one from the middle of a sector into the next one, and the rest of that sector. -/
def threeCalls : List (Burn UInt8) := [⟨fun _ => 1, 10⟩, ⟨fun _ => 2, 8000⟩, ⟨fun _ => 3, 182⟩]

theorem flushAll_exact_threeCalls :
    (List.range (threeCalls.flatMap Burn.data).length).map (fun i =>
      applyAll sectorSize 0xFF (fun old new => old &&& new) (flushAll 4096 threeCalls) (fun _ => 0)
        (4096 + i)) = threeCalls.flatMap Burn.data ∧
    ProgrammedOnce sectorSize (flushAll 4096 threeCalls) 5000 := by
  have h := flushAll_exact 4096 rfl threeCalls fun _ => 0
  refine ⟨h.1, h.2.1 5000 (by decide) ?_⟩
  simp only [threeCalls, Burn.data, List.flatMap_cons, List.length_append, List.length_map,
    List.length_range]
  omega

end EarbudFirmware.Ota
