import EarbudFirmware.A2dp.SbcStore
import Mathlib.Data.List.Basic

/-!
# The loop of the SBC store follows the cut

The loop goes through a packet at the lengths that the parser reports, whatever happens to the list
on the way. The frames it has copied, and what it has read, are read off the cut of the packet.

## Main results

* `carriesPayload` — the frames of a cut that ends with the packet carry its payload
* `storeLoop_frames` — the loop copies the frames of the cut
* `storeLoop_reads` — the loop reads nothing outside the packet exactly when the cut is inside it
-/

namespace EarbudFirmware.A2dp

namespace StoreCall

variable (c : StoreCall)

/-! ### The bytes of the packet -/

theorem bytesAt_add (i n m : Nat) : c.bytesAt i (n + m) = c.bytesAt i n ++ c.bytesAt (i + n) m := by
  simp [bytesAt, List.range_add, Nat.add_assoc]

theorem payloadBytes_succ : c.payloadBytes + 1 = c.bufferBytes :=
  Nat.sub_add_cancel c.bufferBytes_pos

variable {c} in
theorem frameAt_bound {i n : Nat} (h : c.frameAt i = some n) : 0 < n ∧ n ≤ c.payloadBytes := by
  simp only [frameAt, Option.ite_none_right_eq_some] at h
  exact c.parser_bound i _ n h.2

/-- The frames of the cut, counted from `k` on. -/
def framesFrom : Nat → Nat → List Nat → List SbcDecoderFrame
  | _, _, [] => []
  | k, i, n :: lens => c.frameOf k i n :: framesFrom (k + 1) (i + n) lens

theorem length_framesFrom (k i : Nat) (lens : List Nat) :
    (c.framesFrom k i lens).length = lens.length := by
  induction lens generalizing k i with
  | nil => rfl
  | cons n lens ih => simp [framesFrom, ih]

theorem flatMap_framesFrom (k i : Nat) (lens : List Nat) :
    (c.framesFrom k i lens).flatMap SbcDecoderFrame.sbcBuffer = c.bytesAt i lens.sum := by
  induction lens generalizing k i with
  | nil => simp [framesFrom, bytesAt]
  | cons n lens ih =>
    rw [framesFrom, List.flatMap_cons, ih, List.sum_cons, c.bytesAt_add]
    rfl

theorem numbers_framesFrom (k i : Nat) (lens : List Nat) :
    (c.framesFrom k i lens).map SbcDecoderFrame.curSubSequenceNumber =
      (List.range' k lens.length).map .ofNat := by
  induction lens generalizing k i with
  | nil => rfl
  | cons n lens ih =>
    rw [framesFrom, List.map_cons, ih, List.length_cons, List.range'_succ, List.map_cons]
    rfl

theorem mem_framesFrom {k i : Nat} {lens : List Nat} {f : SbcDecoderFrame}
    (hf : f ∈ c.framesFrom k i lens) :
    f.sequenceNumber = c.header.sequenceNumber ∧ f.timestamp = c.header.timestamp := by
  induction lens generalizing k i with
  | nil => cases hf
  | cons n lens ih =>
    rcases List.mem_cons.mp hf with rfl | hf
    · exact ⟨rfl, rfl⟩
    · exact ih hf

/-- The frames of a cut that ends with the packet carry its payload. -/
theorem carriesPayload {frames : List SbcNode} {lens : List Nat}
    (hframes : frames.map SbcNode.frame = c.framesFrom 0 0 lens)
    (hlens : lens.sum = c.payloadBytes) : CarriesPayload c frames where
  payload := by
    rw [← hlens, ← c.flatMap_framesFrom 0, ← hframes, List.flatMap_map]
  numbered := by
    have hlength : frames.length = lens.length := by
      rw [← c.length_framesFrom 0 0, ← hframes, List.length_map]
    rw [hlength, List.range_eq_range', ← c.numbers_framesFrom 0 0, ← hframes, List.map_map]
    rfl
  common node hnode :=
    c.mem_framesFrom (hframes ▸ List.mem_map_of_mem hnode : node.frame ∈ c.framesFrom 0 0 lens)

/-! ### The steps of the loop -/

theorem storeLoop_done {free i : Nat} {frames : List SbcNode} {w : Storing}
    (hi : ¬i < c.payloadBytes) : c.storeLoop (free + 1) i frames w = (.done, frames, w) :=
  if_neg hi

theorem storeLoop_refused {free i : Nat} {frames : List SbcNode} {w : Storing}
    (hi : i < c.payloadBytes) (hframe : c.frameAt i = none) :
    c.storeLoop (free + 1) i frames w =
      (.findErr, frames, c.dump8 (1 + i) (w.read (1 + i) 1)) := by
  refine (if_pos hi).trans ?_
  by_cases hsync : c.memory (1 + i) = 0x9c
  · rw [frameAt, if_pos hsync] at hframe
    rw [if_pos hsync, hframe]
  · rw [if_neg hsync]

theorem storeLoop_frame {free i n : Nat} {frames : List SbcNode} {w : Storing}
    (hi : i < c.payloadBytes) (hframe : c.frameAt i = some n) :
    c.storeLoop (free + 1) i frames w =
      let r := c.storeFrame frames.length i n (w.read (1 + i) 1)
      if r.2.1 then (.sync, frames, r.2.2)
      else c.storeLoop free (i + n) (frames ++ [r.1]) r.2.2 := by
  simp only [frameAt, Option.ite_none_right_eq_some] at hframe
  refine (if_pos hi).trans ?_
  rw [if_pos hframe.1, hframe.2]

theorem cut_done {free i : Nat} (hi : ¬i < c.payloadBytes) :
    c.cut (free + 1) i = ([], .whole) :=
  if_neg hi

theorem cut_refused {free i : Nat} (hi : i < c.payloadBytes) (hframe : c.frameAt i = none) :
    c.cut (free + 1) i = ([], .refused) := by
  refine (if_pos hi).trans ?_
  rw [hframe]

theorem cut_frame {free i n : Nat} (hi : i < c.payloadBytes) (hframe : c.frameAt i = some n) :
    c.cut (free + 1) i = (n :: (c.cut free (i + n)).1, (c.cut free (i + n)).2) := by
  refine (if_pos hi).trans ?_
  rw [hframe]

/-- What can happen at a place of the packet. -/
theorem place_cases (i : Nat) :
    ¬i < c.payloadBytes ∨ (i < c.payloadBytes ∧ c.frameAt i = none) ∨
      ∃ n, i < c.payloadBytes ∧ c.frameAt i = some n := by
  by_cases hi : i < c.payloadBytes
  · cases hframe : c.frameAt i with
    | none => exact .inr (.inl ⟨hi, rfl⟩)
    | some n => exact .inr (.inr ⟨n, hi, rfl⟩)
  · exact .inl hi

/-- How the loop ends on a cut, unless it returns. -/
def CutEnd.loopEnd : CutEnd → LoopEnd
  | .whole => .done
  | .refused => .findErr
  | .full => .findErr

/-- The loop copies the frames of the cut. -/
theorem storeLoop_frames (free i : Nat) (frames : List SbcNode) (w : Storing) :
    (c.storeLoop free i frames w).1 = .sync ∨
    ((c.storeLoop free i frames w).1 = (c.cut free i).2.loopEnd ∧
      (c.storeLoop free i frames w).2.1.map SbcNode.frame =
        frames.map SbcNode.frame ++ c.framesFrom frames.length i (c.cut free i).1) := by
  induction free generalizing i frames w with
  | zero => exact .inr ⟨rfl, (List.append_nil _).symm⟩
  | succ free ih =>
    obtain hi | ⟨hi, hframe⟩ | ⟨n, hi, hframe⟩ := c.place_cases i
    · rw [c.storeLoop_done hi, c.cut_done hi]
      exact .inr ⟨rfl, by simp [framesFrom]⟩
    · rw [c.storeLoop_refused hi hframe, c.cut_refused hi hframe]
      exact .inr ⟨rfl, by simp [framesFrom]⟩
    · rw [c.storeLoop_frame hi hframe, c.cut_frame hi hframe]
      dsimp only
      split
      · exact .inl rfl
      · refine (ih (i + n) _ _).imp id fun ⟨hend, hframes⟩ => ⟨hend, ?_⟩
        rw [hframes, framesFrom, List.map_append, List.length_append, List.append_assoc]
        rfl

/-! ### What is read -/

/-- The stretches that have been read are inside the packet. -/
def Inside (w : Storing) : Prop := ∀ r ∈ w.reads, r.1 + r.2 ≤ c.bufferBytes

theorem inside_read {w : Storing} {offset n : Nat} :
    c.Inside (w.read offset n) ↔ c.Inside w ∧ offset + n ≤ c.bufferBytes := by
  simp [Inside, Storing.read, or_imp, forall_and]

theorem inside_dump8 {w : Storing} {offset : Nat} :
    c.Inside (c.dump8 offset w) ↔ c.Inside w ∧ c.DumpFits offset := by
  unfold dump8 DumpFits
  split
  · next htraced => simp [inside_read, htraced]
  · next htraced => simp [htraced]

theorem packetAdjust_reads (refill : Int) (frame : SbcDecoderFrame) (w : Storing) :
    (c.packetAdjust refill frame w).2.reads = w.reads := by
  unfold packetAdjust
  dsimp only
  split
  · split <;> rfl
  · split
    · split
      · split <;> rfl
      · rfl
    · rfl

theorem inside_storeFrame {k i n : Nat} {w : Storing} :
    c.Inside (c.storeFrame k i n w).2.2 ↔ c.Inside w ∧ i + n ≤ c.payloadBytes := by
  have hreads : (c.storeFrame k i n w).2.2.reads = (w.read (1 + i) n).reads := by
    unfold storeFrame
    dsimp only
    split
    · exact c.packetAdjust_reads _ _ _
    · rfl
  have hlast : 1 + i + n ≤ c.bufferBytes ↔ i + n ≤ c.payloadBytes := by
    have := c.payloadBytes_succ
    omega
  rw [← hlast, ← c.inside_read]
  simp only [Inside, hreads]

/-- Where the cut ends, or the dump of an error. -/
def CutInside (i : Nat) (lens : List Nat) : CutEnd → Prop
  | .refused => c.DumpFits (1 + (i + lens.sum))
  | _ => i + lens.sum ≤ c.payloadBytes

/-- A place that is refused is inside the packet. -/
theorem cut_refused_lt {free i : Nat} (h : (c.cut free i).2 = .refused) :
    i + (c.cut free i).1.sum < c.payloadBytes := by
  induction free generalizing i with
  | zero => cases h
  | succ free ih =>
    obtain hi | ⟨hi, hframe⟩ | ⟨n, hi, hframe⟩ := c.place_cases i
    · simp [c.cut_done hi] at h
    · simpa [c.cut_refused hi hframe] using hi
    · rw [c.cut_frame hi hframe] at h ⊢
      rw [List.sum_cons, ← Nat.add_assoc]
      exact ih h

/-- A whole cut comes to the end of the packet. -/
theorem le_of_cut_whole {free i : Nat} (h : (c.cut free i).2 = .whole) :
    c.payloadBytes ≤ i + (c.cut free i).1.sum := by
  induction free generalizing i with
  | zero => cases h
  | succ free ih =>
    obtain hi | ⟨hi, hframe⟩ | ⟨n, hi, hframe⟩ := c.place_cases i
    · simpa [c.cut_done hi] using hi
    · simp [c.cut_refused hi hframe] at h
    · rw [c.cut_frame hi hframe] at h ⊢
      rw [List.sum_cons, ← Nat.add_assoc]
      exact ih h

/-- The rest of a cut that is inside the packet begins there. -/
theorem le_of_cutInside {free i : Nat} (h : c.CutInside i (c.cut free i).1 (c.cut free i).2) :
    i ≤ c.payloadBytes := by
  cases hend : (c.cut free i).2 with
  | refused =>
    have := c.cut_refused_lt hend
    omega
  | whole =>
    rw [hend] at h
    exact Nat.le_trans (Nat.le_add_right ..) h
  | full =>
    rw [hend] at h
    exact Nat.le_trans (Nat.le_add_right ..) h

theorem cutInside_cons {i n : Nat} {lens : List Nat} {e : CutEnd} :
    c.CutInside i (n :: lens) e ↔ c.CutInside (i + n) lens e := by
  cases e <;> simp [CutInside, Nat.add_assoc]

/-- The loop reads nothing outside the packet exactly when the cut is inside it. -/
theorem storeLoop_reads {free i : Nat} {frames : List SbcNode} {w : Storing}
    (hi : c.Inside w → i ≤ c.payloadBytes) (hsync : (c.storeLoop free i frames w).1 ≠ .sync) :
    c.Inside (c.storeLoop free i frames w).2.2 ↔
      c.Inside w ∧ c.CutInside i (c.cut free i).1 (c.cut free i).2 := by
  induction free generalizing i frames w with
  | zero => exact (and_iff_left_of_imp hi).symm
  | succ free ih =>
    obtain hlt | ⟨hlt, hframe⟩ | ⟨n, hlt, hframe⟩ := c.place_cases i
    · rw [c.storeLoop_done hlt, c.cut_done hlt]
      simpa [CutInside] using hi
    · rw [c.storeLoop_refused hlt hframe, c.cut_refused hlt hframe, inside_dump8, inside_read]
      have hbyte : 1 + i + 1 ≤ c.bufferBytes := by
        have := c.payloadBytes_succ
        omega
      simp [CutInside, hbyte]
    · rw [c.storeLoop_frame hlt hframe] at hsync ⊢
      rw [c.cut_frame hlt hframe, cutInside_cons]
      dsimp only at hsync ⊢
      split at hsync
      · exact absurd rfl hsync
      · next hgo =>
        rw [if_neg hgo, ih (fun h => (c.inside_storeFrame.mp h).2) hsync, inside_storeFrame,
          inside_read]
        have hbyte : 1 + i + 1 ≤ c.bufferBytes := by
          have := c.payloadBytes_succ
          omega
        constructor
        · rintro ⟨⟨⟨hw, -⟩, -⟩, hcut⟩
          exact ⟨hw, hcut⟩
        · rintro ⟨hw, hcut⟩
          exact ⟨⟨⟨hw, hbyte⟩, c.le_of_cutInside hcut⟩, hcut⟩

end StoreCall

end EarbudFirmware.A2dp
